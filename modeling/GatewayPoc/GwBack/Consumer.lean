import GatewayPoc.Core.Decimal
import Mathlib.Data.List.Induction

/-!
# The message consumer

`gwback/src/consumer/consumer.cpp`: `MessageConsumer` collects messages in a buffer and hands
the buffer, whenever it has reached the chunk size, to a detached thread that runs
`saveMessages`; its destructor saves what is left.

* `MessageConsumer.call` is `operator()`.  `call_flatten` : it hands on every message it was
  given, in order, in the flushed chunks or in the buffer; `call_messages_ids` : the vector of the
  caller keeps its ids, only the data is moved out.
* `fileName` is the name `saveMessages` computes.  Its two accumulators are not the smallest and
  the largest id: the second one always holds the id of the last message seen
  (`idRange_concat_snd`), because the loop takes the maximum with `minId`.
* `fileName_eq_iff` : two chunks get the same name exactly if they have the same smallest and the
  same last id.
* `saved_of_saved` : a save truncates the file of its name, so a message of that file stays in the
  files if it is in the chunk (`KeepsMessage`).
-/

namespace GatewayPoc

/-- A message as the producers hand it over (`message.hpp`). -/
structure Message where
  id : UInt64
  data : Bytes
  deriving DecidableEq, Repr

abbrev Messages := List Message

/-- `ConsumerConfig` of the back end. -/
structure ConsumerConfig where
  chunkSize : UInt32 := 1000
  outputFolder : Bytes
  deriving DecidableEq, Repr

/-- `ProducerConfig` of the back end. -/
structure ProducerConfig where
  chunkSize : UInt32 := 1000
  deriving DecidableEq, Repr

/-! ### Saving a chunk -/

/-- `std::min`. -/
def stdMin (a b : UInt64) : UInt64 := if b < a then b else a

/-- `std::max`. -/
def stdMax (a b : UInt64) : UInt64 := if a < b then b else a

/-- `std::numeric_limits<uint64_t>::max()`. -/
def uint64Max : UInt64 := 18446744073709551615

/-- The loop of `saveMessages` over `minId` and `maxId`. -/
def idRange (messages : Messages) : UInt64 × UInt64 :=
  messages.foldl
    (fun r message =>
      let minId := stdMin r.1 message.id
      -- the source takes the maximum with `minId`, not with `maxId`
      let maxId := stdMax minId message.id
      (minId, maxId))
    (uint64Max, 0)

/-- The name `saveMessages` gives the file of a non-empty chunk. -/
def fileName (messages : Messages) : Bytes :=
  Decimal.padded 19 (idRange messages).1.toNat ++
    dash :: Decimal.padded 19 (idRange messages).2.toNat

/-- The name of the file a chunk goes to: an empty chunk goes nowhere. -/
def fileName? (messages : Messages) : Option Bytes :=
  if messages.isEmpty then none else some (fileName messages)

/-- `folder / fileName`.  Two folders are the same if their bytes are: `folder` is the canonical
path, so that a folder is spelled in one way in all lives of the process. -/
structure Path where
  folder : Bytes
  name : Bytes
  deriving DecidableEq, Repr

/-- A file in an output folder, with the chunk it was written from. -/
structure OutputFile where
  folder : Bytes
  messages : Messages
  /-- No file is opened for an empty chunk. -/
  nonempty : messages ≠ []
  deriving DecidableEq

/-- Where `saveMessages` puts the file. -/
def OutputFile.path (file : OutputFile) : Path := ⟨file.folder, fileName file.messages⟩

/-- The bytes of a file: every payload followed by a newline. -/
def OutputFile.contents (file : OutputFile) : Bytes :=
  file.messages.flatMap fun message => message.data ++ [10]

/-- `saveMessages`; `good` says whether the file could be opened.  Opening truncates: a file of
the same path is gone. -/
def saveMessages (files : List OutputFile) (messages : Messages) (folder : Bytes) (good : Bool) :
    List OutputFile :=
  if h : messages = [] then files
  else
    let file : OutputFile := ⟨folder, messages, h⟩
    -- a file that cannot be opened is logged, and the chunk is dropped
    if good then file :: files.filter fun old => old.path ≠ file.path else files

/-! ### The consumer -/

/-- `MessageConsumer`. -/
structure MessageConsumer where
  chunkSize : UInt32
  outputFolder : Bytes
  buffer : Messages
  deriving DecidableEq, Repr

namespace MessageConsumer

/-- The constructor. -/
def ofConfig (config : ConsumerConfig) : MessageConsumer :=
  ⟨config.chunkSize, config.outputFolder, []⟩

/-- One round of the loop of `operator()`: `emplace_back`, then `flushBuffer` if the buffer is
full.  The second component is the chunk handed to a thread. -/
def push (c : MessageConsumer) (message : Message) : MessageConsumer × Option Messages :=
  let buffer := c.buffer ++ [message]
  -- the buffer is moved into the thread, which leaves it empty
  if c.chunkSize.toNat ≤ buffer.length then ({ c with buffer := [] }, some buffer)
  else ({ c with buffer := buffer }, none)

/-- The loop of `operator()`: the consumer afterwards and the chunks flushed, in order. -/
def pushAll (c : MessageConsumer) : Messages → MessageConsumer × List Messages
  | [] => (c, [])
  | message :: messages =>
    let r := c.push message
    let rest := pushAll r.1 messages
    (rest.1, r.2.toList ++ rest.2)

/-- What `operator()` leaves behind. -/
structure CallResult where
  consumer : MessageConsumer
  /-- The chunks handed to `saveMessages` threads. -/
  flushed : List Messages
  /-- The vector of the caller: its elements were moved from. -/
  messages : Messages
  /-- The value returned. -/
  ok : Bool

/-- `MessageConsumer::operator()`. -/
def call (c : MessageConsumer) (messages : Messages) : CallResult where
  consumer := (c.pushAll messages).1
  flushed := (c.pushAll messages).2
  messages := messages.map fun message => { message with data := [] }
  ok := true

end MessageConsumer

/-! ### The loop over the ids -/

theorem le_uint64Max (a : UInt64) : a ≤ uint64Max := by
  have ha := a.toNat_lt
  have hm : uint64Max.toNat = 2 ^ 64 - 1 := by decide
  exact UInt64.le_iff_toNat_le.2 (by omega)

theorem stdMin_le_left (a b : UInt64) : stdMin a b ≤ a := by
  unfold stdMin; split_ifs with h
  · exact UInt64.le_of_lt h
  · exact UInt64.le_refl a

theorem stdMin_le_right (a b : UInt64) : stdMin a b ≤ b := by
  unfold stdMin; split_ifs with h
  · exact UInt64.le_refl b
  · exact UInt64.not_lt.1 h

theorem stdMin_eq (a b : UInt64) : stdMin a b = a ∨ stdMin a b = b := by
  unfold stdMin; split_ifs <;> simp

theorem stdMax_of_le {a b : UInt64} (h : a ≤ b) : stdMax a b = b := by
  unfold stdMax; split_ifs with hab
  · rfl
  · exact UInt64.le_antisymm h (UInt64.not_lt.1 hab)

theorem idRange_concat (messages : Messages) (m : Message) :
    idRange (messages ++ [m]) = (stdMin (idRange messages).1 m.id, m.id) := by
  simp only [idRange, List.foldl_append, List.foldl_cons, List.foldl_nil]
  rw [stdMax_of_le (stdMin_le_right _ _)]

/-- `maxId` ends up as the id of the last message. -/
theorem idRange_concat_snd (messages : Messages) (m : Message) :
    (idRange (messages ++ [m])).2 = m.id := by
  rw [idRange_concat]

theorem idRange_fst_le (messages : Messages) : ∀ m ∈ messages, (idRange messages).1 ≤ m.id := by
  induction messages using List.reverseRecOn with
  | nil => simp
  | append_singleton messages m ih =>
    intro x hx
    rw [idRange_concat]
    rcases List.mem_append.1 hx with hx | hx
    · exact UInt64.le_trans (stdMin_le_left _ _) (ih x hx)
    · rw [List.mem_singleton.1 hx]; exact stdMin_le_right _ _

/-- `minId` ends up as the id of some message. -/
theorem exists_id_eq_idRange_fst {messages : Messages} (h : messages ≠ []) :
    ∃ m ∈ messages, m.id = (idRange messages).1 := by
  induction messages using List.reverseRecOn with
  | nil => exact absurd rfl h
  | append_singleton messages m ih =>
    rw [idRange_concat]
    rcases stdMin_eq (idRange messages).1 m.id with hmin | hmin
    · by_cases hne : messages = []
      · subst hne
        -- the initial value is the largest id
        have hle : m.id ≤ stdMin (idRange []).1 m.id := by rw [hmin]; exact le_uint64Max m.id
        exact ⟨m, by simp, UInt64.le_antisymm hle (stdMin_le_right _ _)⟩
      · obtain ⟨x, hx, hid⟩ := ih hne
        exact ⟨x, List.mem_append_left _ hx, hid.trans hmin.symm⟩
    · exact ⟨m, by simp, hmin.symm⟩

/-- The name of a file determines the two numbers it was built from. -/
theorem fileName_inj {a b : Messages} (h : fileName a = fileName b) : idRange a = idRange b := by
  obtain ⟨h₁, h₂⟩ := Decimal.append_sep_inj Decimal.isDigit_dash Decimal.isDigit_of_mem_padded
    Decimal.isDigit_of_mem_padded h
  exact Prod.ext (UInt64.toNat_inj.1 (Decimal.padded_injective h₁))
    (UInt64.toNat_inj.1 (Decimal.padded_injective h₂))

theorem fileName?_eq_some {messages : Messages} {name : Bytes}
    (h : fileName? messages = some name) : messages ≠ [] ∧ fileName messages = name := by
  unfold fileName? at h
  split_ifs at h with he
  exact ⟨fun hn => he (by simp [hn]), Option.some.inj h⟩

/-! ### Chunks of the same range -/

/-- The two chunks have the same smallest id and the same last id. -/
def SameRange (a b : Messages) : Prop :=
  (a.map fun m => m.id.toNat).min? = (b.map fun m => m.id.toNat).min? ∧
    a.getLast?.map Message.id = b.getLast?.map Message.id

instance (a b : Messages) : Decidable (SameRange a b) := inferInstanceAs (Decidable (_ ∧ _))

/-- Chunks of the same range share their smallest id. -/
theorem SameRange.exists_common_id {a b : Messages} (h : SameRange a b) (ha : a ≠ []) :
    ∃ x ∈ a, ∃ y ∈ b, x.id = y.id := by
  cases hmin : (a.map fun m => m.id.toNat).min? with
  | none => exact absurd (List.map_eq_nil_iff.1 (List.min?_eq_none_iff.1 hmin)) ha
  | some i =>
    obtain ⟨x, hx, hxi⟩ := List.mem_map.1 (List.min?_eq_some_iff.1 hmin).1
    obtain ⟨y, hy, hyi⟩ := List.mem_map.1 (List.min?_eq_some_iff.1 (h.1.symm.trans hmin)).1
    exact ⟨x, hx, y, hy, UInt64.toNat_inj.1 (hxi.trans hyi.symm)⟩

theorem min?_eq_idRange {messages : Messages} (h : messages ≠ []) :
    (messages.map fun m => m.id.toNat).min? = some (idRange messages).1.toNat := by
  refine List.min?_eq_some_iff.2 ⟨?_, fun i hi => ?_⟩
  · obtain ⟨m, hm, hid⟩ := exists_id_eq_idRange_fst h
    exact List.mem_map.2 ⟨m, hm, by rw [hid]⟩
  · obtain ⟨m, hm, rfl⟩ := List.mem_map.1 hi
    exact UInt64.le_iff_toNat_le.1 (idRange_fst_le messages m hm)

theorem getLast?_eq_idRange {messages : Messages} (h : messages ≠ []) :
    messages.getLast?.map Message.id = some (idRange messages).2 := by
  induction messages using List.reverseRecOn with
  | nil => exact absurd rfl h
  | append_singleton messages m _ => simp [idRange_concat_snd]

/-- The name of a file is made of the smallest and the last id of the chunk, and of nothing
else. -/
theorem fileName_eq_iff {a b : Messages} (ha : a ≠ []) (hb : b ≠ []) :
    fileName a = fileName b ↔ SameRange a b := by
  rw [SameRange, min?_eq_idRange ha, min?_eq_idRange hb, getLast?_eq_idRange ha,
    getLast?_eq_idRange hb]
  constructor
  · intro h
    simp [fileName_inj h]
  · rintro ⟨h₁, h₂⟩
    simp only [fileName, Option.some.inj h₁, Option.some.inj h₂]

/-- Two chunks of the same name share an id. -/
theorem exists_common_id {a b : Messages} {name : Bytes} (ha : fileName? a = some name)
    (hb : fileName? b = some name) : ∃ x ∈ a, ∃ y ∈ b, x.id = y.id := by
  obtain ⟨hane, hna⟩ := fileName?_eq_some ha
  obtain ⟨hbne, hnb⟩ := fileName?_eq_some hb
  have hrange : SameRange a b := (fileName_eq_iff hane hbne).1 (hna.trans hnb.symm)
  exact hrange.exists_common_id hane

/-- Opening the file of a chunk in `folder` does not take `m` out of the files: if it is in a file
of the same range, it is in the chunk. -/
def KeepsMessage (files : List OutputFile) (messages : Messages) (folder : Bytes) (m : Message) :
    Prop :=
  ∀ file ∈ files, file.folder = folder → SameRange file.messages messages → m ∈ file.messages →
    m ∈ messages

theorem mem_saveMessages {files : List OutputFile} {messages : Messages} {folder : Bytes}
    {good : Bool} {file : OutputFile} (h : file ∈ saveMessages files messages folder good) :
    file ∈ files ∨ file.messages = messages := by
  unfold saveMessages at h
  dsimp only at h
  split_ifs at h
  · exact Or.inl h
  · rcases List.mem_cons.1 h with rfl | h
    · exact Or.inr rfl
    · exact Or.inl (List.mem_filter.1 h).1
  · exact Or.inl h

/-- A chunk whose file could be opened is in a file afterwards. -/
theorem saved_of_mem {files : List OutputFile} {messages : Messages} {folder : Bytes}
    {m : Message} (hm : m ∈ messages) :
    ∃ file ∈ saveMessages files messages folder true, m ∈ file.messages := by
  have hne : messages ≠ [] := List.ne_nil_of_mem hm
  exact ⟨⟨folder, messages, hne⟩, by simp [saveMessages, hne], hm⟩

/-- A message in a file is in a file after a save that keeps it. -/
theorem saved_of_saved {files : List OutputFile} {messages : Messages} {folder : Bytes}
    {m : Message} (hk : KeepsMessage files messages folder m)
    (hm : ∃ file ∈ files, m ∈ file.messages) :
    ∃ file ∈ saveMessages files messages folder true, m ∈ file.messages := by
  obtain ⟨file, hf, hmf⟩ := hm
  by_cases hne : messages = []
  · exact ⟨file, by simpa [saveMessages, hne] using hf, hmf⟩
  by_cases hp : file.path = ⟨folder, fileName messages⟩
  · -- the file is truncated, but its messages are written again
    obtain ⟨hfolder, hname⟩ := Path.mk.inj hp
    have hrange := (fileName_eq_iff file.nonempty hne).1 hname
    exact saved_of_mem (hk file hf hfolder hrange hmf)
  · refine ⟨file, ?_, hmf⟩
    have hp' : file.path ≠ (⟨folder, messages, hne⟩ : OutputFile).path := hp
    simp [saveMessages, hne, hf, hp']

/-! ### The flushed chunks -/

namespace MessageConsumer

theorem push_flatten (c : MessageConsumer) (m : Message) :
    (c.push m).2.toList.flatten ++ (c.push m).1.buffer = c.buffer ++ [m] := by
  unfold push
  dsimp only
  split_ifs <;> simp

theorem push_chunk_ne_nil {c : MessageConsumer} {m : Message} {chunk : Messages}
    (h : (c.push m).2 = some chunk) : chunk ≠ [] := by
  unfold push at h
  dsimp only at h
  split_ifs at h
  obtain rfl := Option.some.inj h
  simp

/-- The flushed chunks and then the buffer are the old buffer and then the batch. -/
theorem pushAll_flatten (c : MessageConsumer) (messages : Messages) :
    (c.pushAll messages).2.flatten ++ (c.pushAll messages).1.buffer = c.buffer ++ messages := by
  induction messages generalizing c with
  | nil => simp [pushAll]
  | cons m messages ih =>
    simp only [pushAll, List.flatten_append, List.append_assoc]
    rw [ih, ← List.append_assoc, push_flatten, List.append_assoc, List.singleton_append]

theorem pushAll_chunk_ne_nil {c : MessageConsumer} {messages chunk : Messages}
    (h : chunk ∈ (c.pushAll messages).2) : chunk ≠ [] := by
  induction messages generalizing c with
  | nil => simp [pushAll] at h
  | cons m messages ih =>
    simp only [pushAll, List.mem_append, Option.mem_toList] at h
    rcases h with h | h
    · exact push_chunk_ne_nil h
    · exact ih h

theorem call_flatten (c : MessageConsumer) (messages : Messages) :
    (c.call messages).flushed.flatten ++ (c.call messages).consumer.buffer =
      c.buffer ++ messages :=
  pushAll_flatten c messages

theorem call_chunk_ne_nil {c : MessageConsumer} {messages chunk : Messages}
    (h : chunk ∈ (c.call messages).flushed) : chunk ≠ [] :=
  pushAll_chunk_ne_nil h

theorem call_messages_ids (c : MessageConsumer) (messages : Messages) :
    (c.call messages).messages.map Message.id = messages.map Message.id := by
  simp [call, Function.comp_def]

end MessageConsumer

end GatewayPoc
