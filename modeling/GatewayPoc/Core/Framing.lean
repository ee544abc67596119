import Mathlib.Data.List.Basic

/-!
# Records with a terminator

Writing a list of records with a terminator after each of them, over an arbitrary alphabet, and
what a reader can get back.  A record may contain the terminator itself; the reader sees the
*pieces* between terminators.

* `splitOn_encode` : cutting the written text at the terminators gives the pieces.
* `encode_eq_iff` : two lists of records are written alike exactly if they have the same pieces.
* `encode_injective` : records that do not contain the terminator are their own pieces, so they can
  be read back.
-/

namespace GatewayPoc

namespace Framing

variable {α : Type*}

/-- Every record followed by the terminator `t`. -/
def encode (t : α) (records : List (List α)) : List α := records.flatMap fun r => r ++ [t]

variable [DecidableEq α] {t : α} {as bs : List (List α)}

/-- The records, cut at the terminators they contain. -/
def pieces (t : α) (records : List (List α)) : List (List α) := records.flatMap fun r => r.splitOn t

theorem splitOn_encode (t : α) (records : List (List α)) :
    (encode t records).splitOn t = pieces t records ++ [[]] := by
  induction records with
  | nil => simp [encode, pieces]
  | cons r rs ih =>
    have hcons : encode t (r :: rs) = r ++ t :: encode t rs := by simp [encode]
    rw [hcons, List.splitOn_append_cons_self, ih, pieces, pieces, List.flatMap_cons,
      List.append_assoc]

/-- What is written is made of the pieces, and of nothing else. -/
theorem encode_eq_iff : encode t as = encode t bs ↔ pieces t as = pieces t bs := by
  constructor
  · intro h
    have hsplit : pieces t as ++ [[]] = pieces t bs ++ [[]] := by
      rw [← splitOn_encode, h, splitOn_encode]
    exact List.append_cancel_right hsplit
  · intro h
    have hread : ∀ s : List α, [t].intercalate (s.splitOn t) = s := fun s =>
      List.intercalate_splitOn t
    rw [← hread (encode t as), splitOn_encode, h, ← splitOn_encode, hread]

theorem pieces_of_not_mem (h : ∀ r ∈ as, t ∉ r) : pieces t as = as := by
  induction as with
  | nil => rfl
  | cons r rs ih =>
    rw [pieces, List.flatMap_cons, List.splitOn_eq_singleton (h r List.mem_cons_self)]
    exact congrArg (r :: ·) (ih fun r hr => h r (List.mem_cons_of_mem _ hr))

/-- Records without the terminator are told apart. -/
theorem encode_injective (ha : ∀ r ∈ as, t ∉ r) (hb : ∀ r ∈ bs, t ∉ r)
    (h : encode t as = encode t bs) : as = bs := by
  rw [← pieces_of_not_mem ha, encode_eq_iff.1 h, pieces_of_not_mem hb]

end Framing

end GatewayPoc
