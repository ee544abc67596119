import GatewayPoc.Core.Framing
import GatewayPoc.GwBack.Consumer
import GatewayPoc.GwFront.Formats

/-!
# Reading the output files

The front end accepts payloads, the back end writes them to a file, each followed by a newline.
Nothing keeps newlines out of an accepted payload: in JSON they are white space, in a FlatBuffers
buffer they are bytes like others.

* `OutputFile.lines` : what a reader finds between the newlines of a file.
* `same_contents_iff` : two chunks make the same file exactly if their payloads have the same lines,
  which are the payloads themselves if these have no newline.
* `same_contents_twice` : two lists of accepted payloads that make the same file.
-/

namespace GatewayPoc

/-- What `saveMessages` writes after every payload. -/
def newline : UInt8 := 10

/-- The payloads of a chunk. -/
def payloads (messages : Messages) : List Bytes := messages.map Message.data

namespace OutputFile

/-- What stands between the newlines of a file. -/
def lines (file : OutputFile) : List Bytes := Framing.pieces newline (payloads file.messages)

theorem contents_eq (file : OutputFile) :
    file.contents = Framing.encode newline (payloads file.messages) := by
  simp only [contents, Framing.encode, payloads, List.flatMap_map]
  rfl

/-- A reader that cuts a file at the newlines finds the lines, and nothing after the last one. -/
theorem splitOn_contents (file : OutputFile) :
    file.contents.splitOn newline = file.lines ++ [[]] := by
  rw [contents_eq, Framing.splitOn_encode]
  rfl

end OutputFile

/-- The file a chunk is written to has its messages. -/
theorem messages_of_saved {messages : Messages} {folder : Bytes} {file : OutputFile}
    (h : file ∈ saveMessages [] messages folder true) : file.messages = messages := by
  unfold saveMessages at h
  split at h
  · cases h
  · obtain rfl : file = ⟨folder, messages, _⟩ := by simpa using h
    rfl

/-- **The lines of a file are what can be read back.**  `saveMessages` writes the same contents for
two chunks exactly if their payloads, cut at newlines, are the same lines; if no payload has a
newline these are the payloads, so the chunks have the same payloads. -/
theorem same_contents_iff {messages messages' : Messages} {folder folder' : Bytes}
    {file file' : OutputFile} (h : file ∈ saveMessages [] messages folder true)
    (h' : file' ∈ saveMessages [] messages' folder' true) :
    (file.contents = file'.contents ↔
      (payloads messages).flatMap (List.splitOn newline) =
        (payloads messages').flatMap (List.splitOn newline)) ∧
    ((∀ data ∈ payloads messages, newline ∉ data) → (∀ data ∈ payloads messages', newline ∉ data) →
      file.contents = file'.contents → payloads messages = payloads messages') := by
  obtain rfl := messages_of_saved h
  obtain rfl := messages_of_saved h'
  rw [OutputFile.contents_eq, OutputFile.contents_eq]
  exact ⟨Framing.encode_eq_iff, Framing.encode_injective⟩

theorem same_contents_iff_sample :
    let messages : Messages := [⟨1, ascii "a"⟩, ⟨2, ascii "b"⟩]
    let messages' : Messages := [⟨1, ascii "b"⟩, ⟨2, ascii "a"⟩]
    (⟨[], messages, List.cons_ne_nil _ _⟩ : OutputFile).contents ≠
      (⟨[], messages', List.cons_ne_nil _ _⟩ : OutputFile).contents := by
  intro messages messages' hsame
  have hsaved : (⟨[], messages, List.cons_ne_nil _ _⟩ : OutputFile) ∈
      saveMessages [] messages [] true := List.mem_singleton_self _
  have hsaved' : (⟨[], messages', List.cons_ne_nil _ _⟩ : OutputFile) ∈
      saveMessages [] messages' [] true := List.mem_singleton_self _
  have hlines := (same_contents_iff hsaved hsaved').1.1 hsame
  exact absurd hlines (by decide +kernel)

/-! ### Payloads with newlines -/

/-- JSON white space. -/
def isWhiteSpace (b : UInt8) : Bool := b = 32 || b = 9 || b = 10 || b = 13

/-- A parser that knows one text, with any white space around it. -/
def samplePaddedParse (text : Bytes) : Option Json :=
  sampleParse 0 (utf8 "x")
    ((text.dropWhile isWhiteSpace).reverse.dropWhile isWhiteSpace).reverse

/-- A payload. -/
def samplePayload : Bytes := sampleText 0 (utf8 "x")

/-- A payload with a newline after it and one without, and one without and one with a newline before
it, are all accepted, and the two chunks make the same file. -/
theorem same_contents_twice :
    (∀ data ∈ [samplePayload ++ [newline], samplePayload, newline :: samplePayload],
      (JsonChecker.check samplePaddedParse data).ok = true) ∧
    ([samplePayload ++ [newline], samplePayload] : List Bytes) ≠
      [samplePayload, newline :: samplePayload] ∧
    (⟨[], [⟨1, samplePayload ++ [newline]⟩, ⟨2, samplePayload⟩], List.cons_ne_nil _ _⟩ :
        OutputFile).contents =
      (⟨[], [⟨1, samplePayload⟩, ⟨2, newline :: samplePayload⟩], List.cons_ne_nil _ _⟩ :
        OutputFile).contents := by
  decide +kernel

end GatewayPoc
