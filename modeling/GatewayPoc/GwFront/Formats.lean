import GatewayPoc.GwFront.FlatbuffersChecker
import GatewayPoc.GwFront.JsonChecker

/-!
# The two formats

Which instruments `JsonChecker` and `FlatbuffersChecker` accept, side by side.

* `formats_accept` : **the JSON of an instrument is accepted, its FlatBuffers buffer exactly if none
  of its strings is empty**; and what an accepted JSON payload has in its fields.
* `formats_disagree` : an instrument with an empty string, accepted in one format and not in the
  other, and a JSON payload with an integer that no instrument has.
-/

namespace GatewayPoc

/-- **What the two formats accept.**  An instrument is always accepted as JSON, and as a FlatBuffers
buffer exactly if none of its strings is empty; so the two formats agree on it exactly then.  An
accepted JSON payload has an integer of 64 bits, with or without a sign, in each `int` field, a
number in each `double` field, and a string in each `str` field. -/
theorem formats_accept (parse : Bytes → Option Json) (fb : FlatBuffers) :
    (∀ (v : Instrument) (text : Bytes) (doc : Json) (buffer : Bytes),
      parse text = some doc → doc.Carries v → fb.Carries buffer v →
      (JsonChecker.check parse text).ok = true ∧
      ((FlatbuffersChecker.check fb buffer).ok = true ↔ ∀ i, v.strs i ≠ "")) ∧
    (∀ text : Bytes, (JsonChecker.check parse text).ok = true →
      ∃ doc, parse text = some doc ∧
        (∀ i < 6, ∃ n, (doc.find (intName i)).bind Json.integer? = some n ∧
          -2 ^ 63 ≤ n ∧ n < 2 ^ 64) ∧
        (∀ i < 6, ∃ q, (doc.find (doubleName i)).bind Json.number? = some q) ∧
        (∀ i < 32, ∃ s, (doc.find (strName i)).bind Json.string? = some s)) := by
  constructor
  · intro v text doc buffer hparse hdoc hbuffer
    exact ⟨JsonChecker.check_ok_iff.2 ⟨doc, hparse, hdoc.isInstrument⟩,
      FlatbuffersChecker.check_ok_iff_of_carries hbuffer⟩
  · intro text hok
    obtain ⟨doc, hparse, hdoc⟩ := JsonChecker.check_ok_iff.1 hok
    refine ⟨doc, hparse, ?_, ?_, ?_⟩
    · intro i hi
      obtain ⟨j, hj, hkind⟩ := hdoc.ints i hi
      obtain ⟨n, hn, hle, hlt⟩ := Json.isNumberInteger_iff.1 hkind
      exact ⟨n, by rw [hj]; exact hn, hle, hlt⟩
    · intro i hi
      obtain ⟨j, hj, hkind⟩ := hdoc.doubles i hi
      obtain ⟨q, hq⟩ := Json.isNumber_iff.1 hkind
      exact ⟨q, by rw [hj]; exact hq⟩
    · intro i hi
      obtain ⟨j, hj, hkind⟩ := hdoc.strs i hi
      obtain ⟨s, hs⟩ := Json.isString_iff.1 hkind
      exact ⟨s, by rw [hj]; exact hs⟩

/-! ### A sample -/

/-- Zeros, ones, and `x` in all strings but the first. -/
def sampleInstrument (str0 : String) : Instrument where
  ints _ := 0
  doubles _ := .one
  strs i := if i = 0 then str0 else "x"

/-- Its JSON, with `int0` and `str0` as they are given. -/
def sampleJson (int0 : UInt64) (str0 : Bytes) : Json :=
  .object
    ((List.range 6).map (fun i => (intName i, .unsigned (if i = 0 then int0 else 0))) ++
      (List.range 6).map (fun i => (doubleName i, .float .one)) ++
      (List.range 32).map (fun i => (strName i, .string (if i = 0 then str0 else ascii "x"))))

/-- A member of an object in a text. -/
def memberText (name value : Bytes) : Bytes := ascii "\"" ++ name ++ ascii "\":" ++ value

/-- The text of `sampleJson int0 str0`. -/
def sampleText (int0 : UInt64) (str0 : Bytes) : Bytes :=
  ascii "\x7b" ++
    (((List.range 6).map (fun i =>
        memberText (intName i) (Decimal.text (if i = 0 then int0 else 0).toNat)) ++
      (List.range 6).map (fun i => memberText (doubleName i) (ascii "1.0")) ++
      (List.range 32).map (fun i => memberText (strName i)
        (ascii "\"" ++ (if i = 0 then str0 else ascii "x") ++ ascii "\""))).intersperse
      (ascii ",")).flatten ++
    ascii "\x7d"

/-- A parser that knows this text. -/
def sampleParse (int0 : UInt64) (str0 text : Bytes) : Option Json :=
  if text = sampleText int0 str0 then some (sampleJson int0 str0) else none

/-- `n` in `k` bytes, the lowest first. -/
def littleEndian (k n : ℕ) : Bytes := (List.range k).map fun i => UInt8.ofNat (n / 256 ^ i % 256)

/-- The buffer of `sampleInstrument`: the offset of the table, the vtable, the table, the strings.
A string of at most three bytes takes eight. -/
def sampleBuffer (str0 : Bytes) : Bytes :=
  littleEndian 4 100 ++
    littleEndian 2 92 ++ littleEndian 2 228 ++
    (List.range 12).flatMap (fun i => littleEndian 2 (4 + 8 * i)) ++
    (List.range 32).flatMap (fun i => littleEndian 2 (100 + 4 * i)) ++
    littleEndian 4 0 ++
    littleEndian 4 96 ++
    (List.range 6).flatMap (fun _ => littleEndian 8 0) ++
    (List.range 6).flatMap (fun _ => littleEndian 8 FiniteDouble.one.bits.toNat) ++
    (List.range 32).flatMap (fun i => littleEndian 4 (128 + 4 * i)) ++
    (List.range 32).flatMap fun i =>
      let str := if i = 0 then str0 else ascii "x"
      littleEndian 4 str.length ++ str ++ List.replicate (4 - str.length) 0

/-- A verifier and accessors that know this buffer. -/
def sampleFlatBuffers (str0 : Bytes) : FlatBuffers where
  verifyInstrumentBuffer buffer := decide (buffer = sampleBuffer str0)
  getInstrument _ :=
    { ints := fun _ => 0
      doubles := fun _ => FiniteDouble.one.bits
      strs := fun i => some (if i = 0 then str0 else ascii "x") }

theorem sampleFlatBuffers_carries (str0 : String) :
    (sampleFlatBuffers (utf8 str0)).Carries (sampleBuffer (utf8 str0)) (sampleInstrument str0) where
  verified := by simp only [sampleFlatBuffers, decide_true]
  ints _ := rfl
  doubles _ := rfl
  strs i := by
    by_cases hi : i = 0
    · simp [sampleFlatBuffers, sampleInstrument, hi]
    · simp only [sampleFlatBuffers, sampleInstrument, hi, if_false]
      rfl

theorem sampleJson_carries_empty : (sampleJson 0 (utf8 "")).Carries (sampleInstrument "") where
  ints := by decide +kernel
  doubles := by decide +kernel
  strs := by decide +kernel

theorem sampleJson_carries_x : (sampleJson 0 (utf8 "x")).Carries (sampleInstrument "x") where
  ints := by decide +kernel
  doubles := by decide +kernel
  strs := by decide +kernel

theorem formats_accept_sample :
    (JsonChecker.check (sampleParse 0 (utf8 "x")) (sampleText 0 (utf8 "x"))).ok = true ∧
    (FlatbuffersChecker.check (sampleFlatBuffers (utf8 "x")) (sampleBuffer (utf8 "x"))).ok =
      true := by
  have haccept := formats_accept (sampleParse 0 (utf8 "x")) (sampleFlatBuffers (utf8 "x"))
  obtain ⟨hjson, hfb⟩ := haccept.1 (sampleInstrument "x") _ _ _ (if_pos rfl) sampleJson_carries_x
    (sampleFlatBuffers_carries "x")
  exact ⟨hjson, hfb.2 (by decide +kernel)⟩

/-- The first integer beyond `int64`. -/
def beyondInt64 : UInt64 := 9223372036854775808

/-- With an empty `str0` the JSON is accepted and the buffer is not; and `JsonChecker` accepts an
`int0` beyond `int64`. -/
theorem formats_disagree :
    sampleParse 0 (utf8 "") (sampleText 0 (utf8 "")) = some (sampleJson 0 (utf8 "")) ∧
    (sampleJson 0 (utf8 "")).Carries (sampleInstrument "") ∧
    (sampleFlatBuffers (utf8 "")).Carries (sampleBuffer (utf8 "")) (sampleInstrument "") ∧
    JsonChecker.check (sampleParse 0 (utf8 "")) (sampleText 0 (utf8 "")) = ⟨true, []⟩ ∧
    FlatbuffersChecker.check (sampleFlatBuffers (utf8 "")) (sampleBuffer (utf8 "")) =
      ⟨false, ascii "field 'str0' is missing"⟩ ∧
    (JsonChecker.check (sampleParse beyondInt64 (utf8 "x"))
      (sampleText beyondInt64 (utf8 "x"))).ok = true ∧
    ((sampleJson beyondInt64 (utf8 "x")).find (intName 0)).bind Json.integer? = some (2 ^ 63) := by
  refine ⟨if_pos rfl, sampleJson_carries_empty, sampleFlatBuffers_carries "", ?_, ?_, ?_, ?_⟩
  · decide +kernel
  · decide +kernel
  · decide +kernel
  · decide +kernel

end GatewayPoc
