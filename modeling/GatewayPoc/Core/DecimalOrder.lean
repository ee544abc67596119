import GatewayPoc.Core.Decimal
import Mathlib.Data.List.Basic
import Mathlib.Data.List.Induction
import Mathlib.Tactic.Tauto

/-!
# The order of decimal texts

How the order of numbers and the byte-wise lexicographic order of their decimal texts go together.

* `lt_iff_value_lt` : texts of the same length are ordered like the numbers they stand for.
* `append_lt_append_iff` : fields of the same length are compared before what follows them.
* `padded_append_lt_iff` : the same for numbers printed with the same number of digits.
* `length_padded_of_lt`, `padded_of_le` : padding to `w` bytes makes the texts below `10 ^ w`
  equally long, and does nothing from `10 ^ w` on.
* `IsNumeral` : a decimal text without superfluous leading zeros, which is one that is printed
  (`isNumeral_iff`).
-/

namespace GatewayPoc

namespace Decimal

theorem value_cons (b : UInt8) (bs : Bytes) :
    value (b :: bs) = (b.toNat - 48) * 10 ^ bs.length + value bs := by
  have h := foldl_value (b.toNat - 48) bs
  simpa only [value, List.foldl_cons, Nat.zero_mul, Nat.zero_add] using h

theorem isDigit_iff {b : UInt8} : isDigit b = true ↔ 48 ≤ b.toNat ∧ b.toNat ≤ 57 := by
  simp [isDigit]

theorem value_lt {ds : Bytes} (hds : ∀ b ∈ ds, isDigit b = true) : value ds < 10 ^ ds.length := by
  induction ds with
  | nil => simp [value]
  | cons d ds ih =>
    have hd := isDigit_iff.1 (hds d List.mem_cons_self)
    have hlt := ih fun b hb => hds b (List.mem_cons_of_mem _ hb)
    have hmul : (d.toNat - 48) * 10 ^ ds.length ≤ 9 * 10 ^ ds.length :=
      Nat.mul_le_mul_right _ (by omega)
    rw [value_cons, List.length_cons, Nat.pow_succ]
    omega

/-! ### Lexicographic order -/

/-- Digit by digit, the first difference decides. -/
theorem lt_iff_value_lt {as bs : Bytes} (hlen : as.length = bs.length)
    (has : ∀ b ∈ as, isDigit b = true) (hbs : ∀ b ∈ bs, isDigit b = true) :
    as < bs ↔ value as < value bs := by
  induction as generalizing bs with
  | nil =>
    obtain rfl : bs = [] := by simpa using hlen.symm
    simp
  | cons a as ih =>
    cases bs with
    | nil => simp at hlen
    | cons b bs =>
      have hlen' : as.length = bs.length := by simpa using hlen
      have has' : ∀ b ∈ as, isDigit b = true := fun x hx => has x (List.mem_cons_of_mem _ hx)
      have hbs' : ∀ b ∈ bs, isDigit b = true := fun x hx => hbs x (List.mem_cons_of_mem _ hx)
      have ha := isDigit_iff.1 (has a List.mem_cons_self)
      have hb := isDigit_iff.1 (hbs b List.mem_cons_self)
      have hva : value as < 10 ^ bs.length := hlen' ▸ value_lt has'
      have hvb : value bs < 10 ^ bs.length := value_lt hbs'
      rw [List.cons_lt_cons_iff, ih hlen' has' hbs', value_cons, value_cons, hlen',
        UInt8.lt_iff_toNat_lt, ← UInt8.toNat_inj]
      rcases Nat.lt_trichotomy a.toNat b.toNat with hab | hab | hab
      · have hmul : (a.toNat - 48 + 1) * 10 ^ bs.length ≤ (b.toNat - 48) * 10 ^ bs.length :=
          Nat.mul_le_mul_right _ (by omega)
        rw [Nat.succ_mul] at hmul
        exact iff_of_true (Or.inl hab) (by omega)
      · rw [hab]
        simp
      · have hmul : (b.toNat - 48 + 1) * 10 ^ bs.length ≤ (a.toNat - 48) * 10 ^ bs.length :=
          Nat.mul_le_mul_right _ (by omega)
        rw [Nat.succ_mul] at hmul
        exact iff_of_false (by omega) (by omega)

/-- Fields of the same length are compared before what follows them. -/
theorem append_lt_append_iff {as bs xs ys : Bytes} (hlen : as.length = bs.length) :
    as ++ xs < bs ++ ys ↔ as < bs ∨ (as = bs ∧ xs < ys) := by
  induction as generalizing bs with
  | nil =>
    obtain rfl : bs = [] := by simpa using hlen.symm
    simp
  | cons a as ih =>
    cases bs with
    | nil => simp at hlen
    | cons b bs =>
      have hlen' : as.length = bs.length := by simpa using hlen
      rw [List.cons_append, List.cons_append, List.cons_lt_cons_iff, List.cons_lt_cons_iff,
        ih hlen', List.cons.injEq]
      tauto

/-! ### The length of a text -/

theorem length_text_le {w n : ℕ} (hw : 0 < w) (hn : n < 10 ^ w) : (text n).length ≤ w := by
  induction n using Nat.strongRecOn generalizing w with
  | ind n ih =>
    rcases Nat.lt_or_ge n 10 with h | h
    · rw [text_of_lt h]
      exact hw
    · obtain ⟨w, rfl⟩ : ∃ v, w = v + 1 := ⟨w - 1, by omega⟩
      have hpos : 0 < w := by
        rcases Nat.eq_zero_or_pos w with rfl | hpos
        · rw [Nat.zero_add, Nat.pow_one] at hn
          omega
        · exact hpos
      rw [Nat.pow_succ] at hn
      have hlen := ih (n / 10) (by omega) hpos (by omega)
      rw [text_of_le h, List.length_append, List.length_singleton]
      omega

theorem lt_length_text {w n : ℕ} (hn : 10 ^ w ≤ n) : w < (text n).length := by
  have hlt := value_lt (isDigit_of_mem_text (n := n))
  rw [value_text] at hlt
  exact (Nat.pow_lt_pow_iff_right (by omega)).1 (Nat.lt_of_le_of_lt hn hlt)

theorem length_padded_of_lt {w n : ℕ} (hw : 0 < w) (hn : n < 10 ^ w) :
    (padded w n).length = w := by
  have hlen := length_text_le hw hn
  rw [padded, List.length_append, List.length_replicate]
  omega

/-- A number that does not fit is not padded. -/
theorem padded_of_le {w n : ℕ} (hn : 10 ^ w ≤ n) : padded w n = text n := by
  have hlen := lt_length_text hn
  rw [padded, Nat.sub_eq_zero_of_le (by omega)]
  rfl

/-- Numbers printed with the same number of digits are compared before what follows them. -/
theorem padded_append_lt_iff {w m n : ℕ} {xs ys : Bytes}
    (hlen : (padded w m).length = (padded w n).length) :
    padded w m ++ xs < padded w n ++ ys ↔ m < n ∨ (m = n ∧ xs < ys) := by
  have hvalue := lt_iff_value_lt hlen isDigit_of_mem_padded isDigit_of_mem_padded
  rw [value_padded, value_padded] at hvalue
  rw [append_lt_append_iff hlen, hvalue]
  constructor
  · rintro (h | ⟨h, hxs⟩)
    · exact Or.inl h
    · exact Or.inr ⟨padded_injective h, hxs⟩
  · rintro (h | ⟨rfl, hxs⟩)
    · exact Or.inl h
    · exact Or.inr ⟨rfl, hxs⟩

/-! ### Numerals -/

/-- Decimal digits without superfluous leading zeros. -/
def IsNumeral (ds : Bytes) : Prop :=
  ds ≠ [] ∧ (∀ b ∈ ds, isDigit b = true) ∧ (ds.head? = some (digit 0) → ds = [digit 0])

instance (ds : Bytes) : Decidable (IsNumeral ds) := inferInstanceAs (Decidable (_ ∧ _ ∧ _))

theorem head?_text {n : ℕ} (h : (text n).head? = some (digit 0)) : n = 0 := by
  induction n using Nat.strongRecOn with
  | ind n ih =>
    rcases Nat.lt_or_ge n 10 with hn | hn
    · rw [text_of_lt hn, List.head?_cons, Option.some.injEq] at h
      have hval := value_digit hn
      rw [h] at hval
      simpa [value, digit] using hval.symm
    · have hhead : (text (n / 10)).head? = some (digit 0) := by
        rwa [text_of_le hn, List.head?_append_of_ne_nil _ (text_ne_nil _)] at h
      have hzero := ih (n / 10) (by omega) hhead
      omega

theorem isNumeral_text (n : ℕ) : IsNumeral (text n) := by
  refine ⟨text_ne_nil n, isDigit_of_mem_text, fun h => ?_⟩
  obtain rfl := head?_text h
  rfl

/-- Numerals of the same number are the same. -/
theorem text_value {ds : Bytes} (h : IsNumeral ds) : text (value ds) = ds := by
  obtain ⟨hne, hdigits, hzero⟩ := h
  induction ds using List.reverseRecOn with
  | nil => exact absurd rfl hne
  | append_singleton ds d ih =>
    have hd := isDigit_iff.1 (hdigits d (by simp))
    have hdigit : digit (d.toNat - 48) = d := by
      rw [digit, show 48 + (d.toNat - 48) = d.toNat from by omega, UInt8.ofNat_toNat]
    have hvalue : value (ds ++ [d]) = value ds * 10 + (d.toNat - 48) := by
      rw [value_append, List.length_singleton, Nat.pow_one, value, value]
      simp
    by_cases hds : ds = []
    · subst hds
      rw [hvalue, value, List.foldl_nil, Nat.zero_mul, Nat.zero_add, text_of_lt (by omega), hdigit]
      rfl
    · have hdigits' : ∀ b ∈ ds, isDigit b = true := fun b hb => hdigits b (by simp [hb])
      have hhead : ds.head? ≠ some (digit 0) := by
        intro h
        have hall : ds ++ [d] = [digit 0] :=
          hzero (by rw [List.head?_append_of_ne_nil _ hds, h])
        have hlen := congrArg List.length hall
        have hpos := List.length_pos_iff.2 hds
        simp only [List.length_append, List.length_singleton] at hlen
        omega
      have htext := ih hds hdigits' fun h => absurd h hhead
      have hpos : 0 < value ds := by
        rcases Nat.eq_zero_or_pos (value ds) with h | h
        · rw [h] at htext
          exact absurd (htext ▸ rfl) hhead
        · exact h
      rw [hvalue, text_of_le (by omega),
        show (value ds * 10 + (d.toNat - 48)) / 10 = value ds by omega,
        show (value ds * 10 + (d.toNat - 48)) % 10 = d.toNat - 48 by omega, htext, hdigit]

/-- The numerals are the texts that are printed. -/
theorem isNumeral_iff {ds : Bytes} : IsNumeral ds ↔ ∃ n, ds = text n := by
  constructor
  · exact fun h => ⟨value ds, (text_value h).symm⟩
  · rintro ⟨n, rfl⟩
    exact isNumeral_text n

end Decimal

end GatewayPoc
