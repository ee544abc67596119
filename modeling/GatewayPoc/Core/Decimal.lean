import Mathlib.Algebra.Group.Nat.Defs
import Mathlib.Data.List.TakeWhile
import Mathlib.Tactic.SplitIfs

/-!
# Decimal numbers in byte strings

Printing natural numbers in decimal as byte strings, plain (`Decimal.text`) and padded with
zeros on the left (`Decimal.padded`, what `std::setw` with `std::setfill('0')` does), and reading
them back by accumulating digits (`Decimal.value`).

* `value_text`, `value_padded` : reading undoes printing.
* `isDigit_of_mem_text`, `isDigit_of_mem_padded` : a printed number consists of digits.
* `takeWhile_digits`, `append_sep_inj` : a run of digits ends where a separator begins, so two
  fields with a separator between them can be told apart.
-/

namespace GatewayPoc

/-- A C++ `std::string` or byte vector. -/
abbrev Bytes := List UInt8

/-- The bytes of a literal of the source. -/
def ascii (s : String) : Bytes := s.toList.map fun c => UInt8.ofNat c.toNat

/-- `-`, between two numbers. -/
def dash : UInt8 := 45

namespace Decimal

/-- The byte of a decimal digit. -/
def digit (d : ℕ) : UInt8 := UInt8.ofNat (48 + d)

/-- `std::isdigit` on a byte. -/
def isDigit (b : UInt8) : Bool := 48 ≤ b.toNat && b.toNat ≤ 57

/-- The decimal digits of `n`, without superfluous leading zeros. -/
def text (n : ℕ) : Bytes := (Nat.toDigits 10 n).map fun c => UInt8.ofNat c.toNat

/-- `n` in decimal, padded with zeros to at least `w` bytes. -/
def padded (w n : ℕ) : Bytes := List.replicate (w - (text n).length) (digit 0) ++ text n

/-- The number a run of digits stands for. -/
def value (bs : Bytes) : ℕ := bs.foldl (fun v b => v * 10 + (b.toNat - 48)) 0

theorem digit_toNat {d : ℕ} (hd : d < 10) : (digit d).toNat = 48 + d := by
  simp only [digit, UInt8.toNat_ofNat', Nat.reducePow]
  omega

theorem isDigit_digit {d : ℕ} (hd : d < 10) : isDigit (digit d) = true := by
  simp only [isDigit, digit_toNat hd, Bool.and_eq_true, decide_eq_true_eq]
  omega

theorem text_of_lt {n : ℕ} (hn : n < 10) : text n = [digit n] := by
  simp [text, digit, Nat.toDigits_of_lt_base hn, Nat.toNat_digitChar_of_lt_ten hn]

theorem text_of_le {n : ℕ} (hn : 10 ≤ n) : text n = text (n / 10) ++ [digit (n % 10)] := by
  have hd : n % 10 < 10 := Nat.mod_lt _ (by omega)
  simp [text, digit, Nat.toDigits_of_base_le (by omega) hn, Nat.toNat_digitChar_of_lt_ten hd]

theorem text_ne_nil (n : ℕ) : text n ≠ [] := by
  simp [text]

/-- Reading on from a number already read. -/
theorem foldl_value (v : ℕ) (bs : Bytes) :
    bs.foldl (fun v b => v * 10 + (b.toNat - 48)) v = v * 10 ^ bs.length + value bs := by
  induction bs generalizing v with
  | nil => simp [value]
  | cons b bs ih =>
    have hv : value (b :: bs) = (b.toNat - 48) * 10 ^ bs.length + value bs := by
      simpa [value] using ih (b.toNat - 48)
    rw [List.foldl_cons, ih, hv, List.length_cons, Nat.pow_succ, Nat.add_mul, Nat.mul_assoc,
      Nat.mul_comm 10, Nat.add_assoc]

theorem value_append (as bs : Bytes) :
    value (as ++ bs) = value as * 10 ^ bs.length + value bs := by
  rw [value, List.foldl_append, foldl_value]
  rfl

theorem value_digit {d : ℕ} (hd : d < 10) : value [digit d] = d := by
  simp [value, digit_toNat hd]

@[simp] theorem value_text (n : ℕ) : value (text n) = n := by
  induction n using Nat.strongRecOn with
  | ind n ih =>
    rcases Nat.lt_or_ge n 10 with hn | hn
    · rw [text_of_lt hn, value_digit hn]
    · rw [text_of_le hn, value_append, ih _ (by omega), value_digit (Nat.mod_lt _ (by omega))]
      simp only [List.length_singleton, Nat.pow_one]
      omega

theorem isDigit_of_mem_text {n : ℕ} : ∀ b ∈ text n, isDigit b = true := by
  induction n using Nat.strongRecOn with
  | ind n ih =>
    intro b hb
    rcases Nat.lt_or_ge n 10 with hn | hn
    · rw [text_of_lt hn, List.mem_singleton] at hb
      exact hb ▸ isDigit_digit hn
    · rw [text_of_le hn, List.mem_append, List.mem_singleton] at hb
      rcases hb with hb | rfl
      · exact ih _ (by omega) b hb
      · exact isDigit_digit (Nat.mod_lt _ (by omega))

theorem value_replicate_zero (k : ℕ) : value (List.replicate k (digit 0)) = 0 := by
  induction k with
  | zero => rfl
  | succ k ih => rw [List.replicate_succ', value_append, ih, value_digit (by omega)]; simp

@[simp] theorem value_padded (w n : ℕ) : value (padded w n) = n := by
  rw [padded, value_append, value_replicate_zero, value_text]
  simp

theorem padded_injective {w m n : ℕ} (h : padded w m = padded w n) : m = n := by
  rw [← value_padded w m, h, value_padded]

theorem isDigit_of_mem_padded {w n : ℕ} : ∀ b ∈ padded w n, isDigit b = true := by
  intro b hb
  rcases List.mem_append.1 hb with hb | hb
  · exact (List.eq_of_mem_replicate hb) ▸ isDigit_digit (by omega)
  · exact isDigit_of_mem_text b hb

/-! ### Fields -/

theorem isDigit_dash : isDigit dash = false := by decide

/-- A run of digits ends at a separator. -/
theorem takeWhile_digits {ds : Bytes} {sep : UInt8} (r : Bytes)
    (hds : ∀ b ∈ ds, isDigit b = true) (hsep : isDigit sep = false) :
    (ds ++ sep :: r).takeWhile isDigit = ds := by
  rw [List.takeWhile_append_of_pos hds, List.takeWhile_cons_of_neg (by simp [hsep]),
    List.append_nil]

/-- Two runs of digits before a separator are told apart. -/
theorem append_sep_inj {as as' bs bs' : Bytes} {sep : UInt8} (hsep : isDigit sep = false)
    (has : ∀ b ∈ as, isDigit b = true) (has' : ∀ b ∈ as', isDigit b = true)
    (h : as ++ sep :: bs = as' ++ sep :: bs') : as = as' ∧ bs = bs' := by
  have hl : as = as' := by
    rw [← takeWhile_digits bs has hsep, h, takeWhile_digits bs' has' hsep]
  subst hl
  simpa using h

end Decimal

end GatewayPoc
