import GatewayPoc.Core.DecimalOrder
import GatewayPoc.GwBack.Consumer

/-!
# What a file name says

The name `saveMessages` gives a file is made of two numbers, printed with `std::setw(19)`.  Two
things are expected of it: that it states the range of the ids in the file, and that the names sort
like the ids.

* `fileName_states_range_iff` : the name states the range exactly if the last message has the
  largest id, because the second number is always the id of the last message.  `understated_range`
  has a chunk for which it is not.
* `fileName_lt_iff` : for ascending chunks, one above the other, the names sort like the ids exactly
  unless the smallest ids have 19 and 20 digits and the smaller one is more than a tenth of the
  larger one.  `misordered_names` is such a pair: 19 digits do not hold every 64-bit number.
-/

namespace GatewayPoc

/-! ### The range -/

/-- The two numbers of the name are the smallest and the largest id of the chunk. -/
def StatesRange (messages : Messages) : Prop :=
  ∃ lo hi : UInt64,
    fileName messages = Decimal.padded 19 lo.toNat ++ dash :: Decimal.padded 19 hi.toNat ∧
      (∃ m ∈ messages, m.id = lo) ∧ (∃ m ∈ messages, m.id = hi) ∧
      ∀ m ∈ messages, lo ≤ m.id ∧ m.id ≤ hi

/-- The numbers can be read off the name. -/
theorem eq_idRange_of_fileName {messages : Messages} {lo hi : UInt64}
    (h : fileName messages = Decimal.padded 19 lo.toNat ++ dash :: Decimal.padded 19 hi.toNat) :
    idRange messages = (lo, hi) := by
  obtain ⟨h₁, h₂⟩ := Decimal.append_sep_inj Decimal.isDigit_dash Decimal.isDigit_of_mem_padded
    Decimal.isDigit_of_mem_padded h
  exact Prod.ext (UInt64.toNat_inj.1 (Decimal.padded_injective h₁))
    (UInt64.toNat_inj.1 (Decimal.padded_injective h₂))

theorem idRange_snd {messages : Messages} (h : messages ≠ []) :
    (idRange messages).2 = (messages.getLast h).id := by
  have hlast := getLast?_eq_idRange h
  rw [List.getLast?_eq_some_getLast h, Option.map_some] at hlast
  exact (Option.some.inj hlast).symm

/-- **The range in the name** is the range of the ids exactly if the last message has the largest
id. -/
theorem fileName_states_range_iff {messages : Messages} (h : messages ≠ []) :
    StatesRange messages ↔ ∀ m ∈ messages, m.id ≤ (messages.getLast h).id := by
  constructor
  · rintro ⟨lo, hi, hname, -, -, hrange⟩ m hm
    have hhi : (idRange messages).2 = hi := congrArg Prod.snd (eq_idRange_of_fileName hname)
    rw [← idRange_snd h, hhi]
    exact (hrange m hm).2
  · intro hlast
    refine ⟨(idRange messages).1, (idRange messages).2, rfl, exists_id_eq_idRange_fst h, ?_, ?_⟩
    · exact ⟨messages.getLast h, List.getLast_mem h, (idRange_snd h).symm⟩
    · intro m hm
      refine ⟨idRange_fst_le messages m hm, ?_⟩
      rw [idRange_snd h]
      exact hlast m hm

/-- A chunk in ascending order. -/
theorem fileName_states_range_iff_sample : StatesRange [⟨3, []⟩, ⟨4, []⟩, ⟨9, []⟩] :=
  (fileName_states_range_iff (by simp)).2 (by decide)

/-- The row 1 became visible after the row 5 was read: the file is called `1-1`. -/
theorem understated_range : ¬ StatesRange [⟨5, []⟩, ⟨1, []⟩] := by
  rintro ⟨lo, hi, hname, -, -, hrange⟩
  obtain ⟨-, rfl⟩ := Prod.mk.inj (eq_idRange_of_fileName hname)
  exact absurd (hrange ⟨5, []⟩ List.mem_cons_self).2 (by decide)

/-! ### The order of the names -/

theorem dash_lt_digit {d : ℕ} (hd : d < 10) : dash < Decimal.digit d := by
  rw [UInt8.lt_iff_toNat_lt, Decimal.digit_toNat hd, show dash.toNat = 45 from rfl]
  omega

theorem length_padded_of_ge {n : ℕ} (hn : 10 ^ 19 ≤ n) (hn' : n < 10 ^ 20) :
    (Decimal.padded 19 n).length = 20 := by
  have hle := Decimal.length_text_le (w := 20) (by omega) hn'
  have hlt := Decimal.lt_length_text hn
  rw [Decimal.padded_of_le hn]
  omega

/-- Of 20 digits the first 19 are printed as a number of their own would be. -/
theorem padded_split {n : ℕ} (hn : 10 ^ 19 ≤ n) :
    Decimal.padded 19 n = Decimal.padded 19 (n / 10) ++ [Decimal.digit (n % 10)] := by
  have hlong : 18 < (Decimal.text (n / 10)).length := Decimal.lt_length_text (by omega)
  rw [Decimal.padded_of_le hn, Decimal.text_of_le (by omega), Decimal.padded,
    Nat.sub_eq_zero_of_le hlong]
  rfl

/-- How two numbers that are printed with 19 digits and followed by a dash compare. -/
theorem padded_lt_padded_iff {m n : ℕ} {xs ys : Bytes} (hlt : m < n) (hn : n < 2 ^ 64) :
    Decimal.padded 19 m ++ dash :: xs < Decimal.padded 19 n ++ dash :: ys ↔
      10 ^ 19 ≤ m ∨ n < 10 ^ 19 ∨ m ≤ n / 10 := by
  rcases Nat.lt_or_ge n (10 ^ 19) with hn' | hn'
  · -- both have 19 digits
    have hlen : (Decimal.padded 19 m).length = (Decimal.padded 19 n).length := by
      rw [Decimal.length_padded_of_lt (by omega) hn',
        Decimal.length_padded_of_lt (by omega) (hlt.trans hn')]
    rw [Decimal.padded_append_lt_iff hlen]
    exact iff_of_true (Or.inl hlt) (Or.inr (Or.inl hn'))
  rcases Nat.lt_or_ge m (10 ^ 19) with hm | hm
  · -- `m` has 19 digits and `n` has 20: what follows `m` is compared with the last digit of `n`
    have hlen : (Decimal.padded 19 m).length = (Decimal.padded 19 (n / 10)).length := by
      rw [Decimal.length_padded_of_lt (by omega) hm,
        Decimal.length_padded_of_lt (by omega) (by omega)]
    have hdash : dash :: xs < [Decimal.digit (n % 10)] ++ dash :: ys :=
      List.cons_lt_cons_iff.2 (Or.inl (dash_lt_digit (Nat.mod_lt _ (by omega))))
    rw [padded_split hn', List.append_assoc, Decimal.padded_append_lt_iff hlen]
    constructor
    · intro h
      exact Or.inr (Or.inr (by omega))
    · rintro (h | h | h)
      · omega
      · omega
      · exact (Nat.lt_or_eq_of_le h).imp_right fun heq => ⟨heq, hdash⟩
  · -- both have 20 digits
    have hlen : (Decimal.padded 19 m).length = (Decimal.padded 19 n).length := by
      rw [length_padded_of_ge hm (by omega), length_padded_of_ge hn' (by omega)]
    rw [Decimal.padded_append_lt_iff hlen]
    exact iff_of_true (Or.inl hlt) (Or.inl hm)

/-- The first number in the name of an ascending chunk is its first id. -/
theorem idRange_fst_of_ascending {messages : Messages} (h : messages ≠ [])
    (hasc : messages.Pairwise fun x y => x.id ≤ y.id) :
    (idRange messages).1 = (messages.head h).id := by
  obtain ⟨m, hm, hid⟩ := exists_id_eq_idRange_fst h
  refine UInt64.le_antisymm (idRange_fst_le messages _ (List.head_mem h)) ?_
  rw [← hid]
  cases messages with
  | nil => exact absurd rfl h
  | cons first rest =>
    rcases List.mem_cons.1 hm with rfl | hm
    · exact UInt64.le_refl _
    · exact (List.pairwise_cons.1 hasc).1 m hm

/-- **The order of the names** of two ascending chunks, one above the other, is that of their ids,
unless the first id of the lower chunk has at most 19 digits, the first id of the upper chunk has
20, and the former is more than a tenth of the latter. -/
theorem fileName_lt_iff {a b : Messages} (ha : a ≠ []) (hb : b ≠ [])
    (haasc : a.Pairwise fun x y => x.id ≤ y.id) (hbasc : b.Pairwise fun x y => x.id ≤ y.id)
    (hlt : ∀ x ∈ a, ∀ y ∈ b, x.id < y.id) :
    fileName a < fileName b ↔
      10 ^ 19 ≤ (a.head ha).id.toNat ∨ (b.head hb).id.toNat < 10 ^ 19 ∨
        (a.head ha).id.toNat ≤ (b.head hb).id.toNat / 10 := by
  rw [fileName, fileName, idRange_fst_of_ascending ha haasc, idRange_fst_of_ascending hb hbasc]
  have hheads := hlt _ (List.head_mem ha) _ (List.head_mem hb)
  exact padded_lt_padded_iff (UInt64.lt_iff_toNat_lt.1 hheads) (UInt64.toNat_lt _)

/-- Two chunks of packed ids. -/
theorem fileName_lt_iff_sample :
    let a : Messages := [⟨6973873963999715328, []⟩, ⟨6973873963999715329, []⟩]
    let b : Messages := [⟨6973873964003909632, []⟩]
    fileName a < fileName b := by
  intro a b
  exact (fileName_lt_iff (a := a) (b := b) (by decide) (by decide) (by decide) (by decide)
    (by decide)).2 (Or.inr (Or.inl (by decide)))

/-- The first id with 20 digits sorts before the last one with 19. -/
theorem misordered_names :
    let a : Messages := [⟨9999999999999999999, []⟩]
    let b : Messages := [⟨10000000000000000000, []⟩]
    (∀ x ∈ a, ∀ y ∈ b, x.id < y.id) ∧ fileName b < fileName a := by
  decide

end GatewayPoc
