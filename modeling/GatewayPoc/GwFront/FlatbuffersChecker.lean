import GatewayPoc.Common.Instrument
import GatewayPoc.GwFront.UniversalHandler

/-!
# Checking FlatBuffers payloads

`gwfront/src/handler/flatbuffers_checker.cpp`: `FlatbuffersChecker` verifies a payload and then
looks at its strings.  The verifier and the accessors, which are generated from
`common/messages/instrument.fbs`, are a parameter.

* `FlatbuffersChecker.check` : the checker.
* **`FlatbuffersChecker.check_ok_iff`** : a payload is accepted exactly if it is verified and has
  every string, none of them empty.
-/

namespace GatewayPoc

/-- What the generated accessors of `messages::Instrument` return; `none` is the null pointer. -/
structure InstrumentTable where
  ints : Fin 6 → Int64
  /-- The bits of the doubles, which need not be finite. -/
  doubles : Fin 6 → UInt64
  strs : Fin 32 → Option Bytes

/-- `messages::VerifyInstrumentBuffer` and `messages::GetInstrument`. -/
structure FlatBuffers where
  verifyInstrumentBuffer : Bytes → Bool
  getInstrument : Bytes → InstrumentTable

/-- The buffer conforms to the schema and carries the instrument `v`. -/
structure FlatBuffers.Carries (fb : FlatBuffers) (buffer : Bytes) (v : Instrument) : Prop where
  verified : fb.verifyInstrumentBuffer buffer = true
  ints : ∀ i, (fb.getInstrument buffer).ints i = v.ints i
  doubles : ∀ i, (fb.getInstrument buffer).doubles i = (v.doubles i).bits
  strs : ∀ i, (fb.getInstrument buffer).strs i = some (utf8 (v.strs i))

namespace FlatbuffersChecker

/-- The block of `check` about one string; the source has thirty-two of them. -/
def checkStr (instrument : InstrumentTable) (i : Fin 32) : Option CheckResult :=
  match instrument.strs i with
  | none => some ⟨false, missingMessage (strName i)⟩
  | some str => if str.length = 0 then some ⟨false, missingMessage (strName i)⟩ else none

/-- `FlatbuffersChecker::check`. -/
def check (fb : FlatBuffers) (data : Bytes) : CheckResult :=
  if fb.verifyInstrumentBuffer data = true then
    match (List.finRange 32).findSome? (checkStr (fb.getInstrument data)) with
    | some result => result
    | none => ⟨true, []⟩
  else ⟨false, ascii "data is not a valid flatbuffer instrument"⟩

variable {instrument : InstrumentTable} {i : Fin 32}

theorem checkStr_eq_none :
    checkStr instrument i = none ↔ ∃ str, instrument.strs i = some str ∧ str ≠ [] := by
  unfold checkStr
  cases instrument.strs i with
  | none => simp
  | some str => simp [List.length_eq_zero_iff]

/-- A string fails as a missing one. -/
theorem checkStr_eq_some {result : CheckResult} (h : checkStr instrument i = some result) :
    result = ⟨false, missingMessage (strName i)⟩ := by
  unfold checkStr at h
  split at h
  · exact (Option.some.inj h).symm
  · split at h
    · exact (Option.some.inj h).symm
    · cases h

/-- **A payload is accepted exactly if it is verified and has every string, none of them empty.** -/
theorem check_ok_iff {fb : FlatBuffers} {data : Bytes} :
    (check fb data).ok = true ↔ fb.verifyInstrumentBuffer data = true ∧
      ∀ i, ∃ str, (fb.getInstrument data).strs i = some str ∧ str ≠ [] := by
  unfold check
  by_cases hverified : fb.verifyInstrumentBuffer data = true
  · simp only [hverified, if_true, true_and]
    cases hfirst : (List.finRange 32).findSome? (checkStr (fb.getInstrument data)) with
    | none =>
      simp only [List.findSome?_eq_none_iff, List.mem_finRange, true_implies,
        checkStr_eq_none] at hfirst
      exact ⟨fun _ => hfirst, fun _ => rfl⟩
    | some result =>
      obtain ⟨i, -, hi⟩ := List.exists_of_findSome?_eq_some hfirst
      constructor
      · intro hok
        rw [checkStr_eq_some hi] at hok
        cases hok
      · intro hstrs
        rw [checkStr_eq_none.2 (hstrs i)] at hi
        cases hi
  · simp [hverified]

/-- An instrument is accepted exactly if none of its strings is empty. -/
theorem check_ok_iff_of_carries {fb : FlatBuffers} {buffer : Bytes} {v : Instrument}
    (h : fb.Carries buffer v) : (check fb buffer).ok = true ↔ ∀ i, v.strs i ≠ "" := by
  simp only [check_ok_iff, h.verified, h.strs, Option.some.injEq, exists_eq_left', true_and, ne_eq,
    utf8_eq_nil_iff]

end FlatbuffersChecker

end GatewayPoc
