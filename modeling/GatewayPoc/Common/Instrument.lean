import GatewayPoc.Core.Decimal
import Mathlib.Algebra.Group.Int.Defs
import Mathlib.Data.List.Basic

/-!
# Instruments

`common/messages/instrument.fbs`: what a message carries, whatever its format, and how the fields
are called.

* `Instrument` : six 64-bit integers, six finite doubles, thirty-two strings.
* `FiniteDouble.scaled` : the value of a double, as a multiple of the smallest positive one.
* `utf8_eq_nil_iff` : only the empty string has no bytes.
-/

namespace GatewayPoc

/-- A double that is neither infinite nor a NaN, by its bits. -/
structure FiniteDouble where
  bits : UInt64
  /-- The exponent is not the one of the infinities and NaNs. -/
  finite : bits.toNat / 2 ^ 52 % 2048 ≠ 2047
  deriving DecidableEq, Repr

namespace FiniteDouble

/-- The exponent field. -/
def exponent (d : FiniteDouble) : ℕ := d.bits.toNat / 2 ^ 52 % 2048

/-- The fraction field. -/
def fraction (d : FiniteDouble) : ℕ := d.bits.toNat % 2 ^ 52

/-- `1.0` in units of the smallest positive double, of which every finite double is a multiple. -/
def unit : ℤ := 2 ^ 1074

/-- The value in these units. -/
def scaled (d : FiniteDouble) : ℤ :=
  let magnitude : ℕ :=
    -- a subnormal has no leading one
    if d.exponent = 0 then d.fraction else (2 ^ 52 + d.fraction) * 2 ^ (d.exponent - 1)
  if d.bits.toNat < 2 ^ 63 then magnitude else -magnitude

/-- `1.0`. -/
def one : FiniteDouble := ⟨0x3FF0000000000000, by decide⟩

example : one.scaled = unit := by decide +kernel

end FiniteDouble

/-- `table Instrument`.  A `String` is a sequence of Unicode characters, so its bytes are valid
UTF-8. -/
structure Instrument where
  ints : Fin 6 → Int64
  doubles : Fin 6 → FiniteDouble
  strs : Fin 32 → String

/-- The bytes of a string in UTF-8. -/
def utf8 (s : String) : Bytes := s.toByteArray.data.toList

theorem utf8_eq_nil_iff {s : String} : utf8 s = [] ↔ s = "" := by
  constructor
  · intro h
    refine String.toByteArray_inj.1 (ByteArray.ext (Array.toList_inj.1 ?_))
    exact h
  · rintro rfl
    rfl

/-- The name of an integer field. -/
def intName (i : ℕ) : Bytes := ascii "int" ++ Decimal.text i

/-- The name of a double field. -/
def doubleName (i : ℕ) : Bytes := ascii "double" ++ Decimal.text i

/-- The name of a string field. -/
def strName (i : ℕ) : Bytes := ascii "str" ++ Decimal.text i

/-- `field '<name>' is missing`, the message of both checkers. -/
def missingMessage (field : Bytes) : Bytes := ascii "field '" ++ field ++ ascii "' is missing"

/-- Check the fields `0, …, n - 1` in order, up to the first that fails. -/
def firstFailure {α : Type} (n : ℕ) (check : ℕ → Option α) : Option α :=
  (List.range n).findSome? check

theorem firstFailure_eq_none {α : Type} {n : ℕ} {check : ℕ → Option α} :
    firstFailure n check = none ↔ ∀ i < n, check i = none := by
  simp only [firstFailure, List.findSome?_eq_none_iff, List.mem_range]

theorem exists_of_firstFailure {α : Type} {n : ℕ} {check : ℕ → Option α} {a : α}
    (h : firstFailure n check = some a) : ∃ i < n, check i = some a := by
  obtain ⟨i, hi, ha⟩ := List.exists_of_findSome?_eq_some h
  exact ⟨i, List.mem_range.1 hi, ha⟩

end GatewayPoc
