import Mathlib.Data.List.Basic
import Mathlib.Data.List.Induction
import Mathlib.Data.List.Nodup
import Mathlib.Data.List.Perm.Subperm
import Mathlib.Tactic.SplitIfs

/-!
# Lists of parties

A system keeps its parties, and what is in flight, in lists: an element changes or is taken away at
its position, and is found by a key that no other one has.

* `perm_cons_eraseIdx` : the element at a position, and the rest.
* `flatMap_set_perm`, `map_set_same` : what becomes of a list when one element changes.
* `filter_set_of_ne`, `filter_eraseIdx_of_ne`, `filter_eq_singleton` : one element for each key.
* `filter_key_eq_drop` : what is left of a queue when the keys of its first elements are removed.
* `countP_filter_lt`, `subperm_map` : fewer elements.
* `pair_sublist_left`, `pair_sublist_of_pairwise` : the order of two elements.
-/

namespace GatewayPoc

/-! ### One element changes -/

theorem perm_cons_eraseIdx {α : Type*} {l : List α} {k : ℕ} {a : α} (hk : l[k]? = some a) :
    l.Perm (a :: l.eraseIdx k) := by
  obtain ⟨hlt, hget⟩ := List.getElem?_eq_some_iff.1 hk
  exact hget ▸ (List.getElem_cons_eraseIdx_perm hlt).symm

/-- An element that gives more makes the whole give more. -/
theorem flatMap_set_perm {α β : Type*} {g : α → List β} {a b : α} {extra : List β} {l : List α}
    {i : ℕ} (hg : g b = g a ++ extra) (hi : l[i]? = some a) :
    ((l.set i b).flatMap g).Perm (l.flatMap g ++ extra) := by
  induction l generalizing i with
  | nil => cases hi
  | cons c l ih =>
    cases i with
    | zero =>
      obtain rfl : c = a := Option.some.inj hi
      rw [List.set_cons_zero, List.flatMap_cons, List.flatMap_cons, hg, List.append_assoc,
        List.append_assoc]
      exact List.perm_append_comm.append_left _
    | succ i =>
      rw [List.set_cons_succ, List.flatMap_cons, List.flatMap_cons, List.append_assoc]
      exact (ih hi).append_left _

theorem map_set_same {α β : Type*} {g : α → β} {l : List α} {i : ℕ} {a b : α}
    (hi : l[i]? = some a) (hg : g b = g a) : (l.set i b).map g = l.map g := by
  rw [List.map_set, hg]
  refine List.ext_getElem? fun j => ?_
  rw [List.getElem?_set]
  split_ifs with hij hlt
  · subst hij
    rw [List.getElem?_map, hi, Option.map_some]
  · subst hij
    rw [List.getElem?_eq_none (by omega)]
  · rfl

/-! ### One element for each key -/

section

variable {α κ : Type*} [DecidableEq κ] (key : α → κ) {l : List α} {i : ℕ} {a b : α} {k : κ}

theorem filter_set_of_ne (hi : l[i]? = some a) (ha : key a ≠ k) (hb : key b ≠ k) :
    (l.set i b).filter (fun x => key x = k) = l.filter fun x => key x = k := by
  induction l generalizing i with
  | nil => cases hi
  | cons c l ih =>
    cases i with
    | zero =>
      obtain rfl : c = a := Option.some.inj hi
      simp [ha, hb]
    | succ i =>
      rw [List.set_cons_succ, List.filter_cons, List.filter_cons, ih hi]

theorem filter_eraseIdx_of_ne (hi : l[i]? = some a) (ha : key a ≠ k) :
    (l.eraseIdx i).filter (fun x => key x = k) = l.filter fun x => key x = k := by
  induction l generalizing i with
  | nil => cases hi
  | cons c l ih =>
    cases i with
    | zero =>
      obtain rfl : c = a := Option.some.inj hi
      simp [ha]
    | succ i =>
      rw [List.eraseIdx_cons_succ, List.filter_cons, List.filter_cons, ih hi]

/-- The only element with its key. -/
theorem filter_eq_singleton (h : (l.map key).Nodup) (hi : l[i]? = some a) :
    (l.filter fun x => key x = key a) = [a] := by
  have hperm : l.Perm (a :: l.eraseIdx i) := perm_cons_eraseIdx hi
  have hnodup := (hperm.map key).nodup_iff.1 h
  rw [List.map_cons, List.nodup_cons] at hnodup
  have hrest : (l.eraseIdx i).filter (fun x => key x = key a) = [] := by
    refine List.filter_eq_nil_iff.2 fun x hx => ?_
    simp only [decide_eq_true_eq]
    exact fun heq => hnodup.1 (heq ▸ List.mem_map_of_mem hx)
  have hfilter := hperm.filter fun x => key x = key a
  rw [List.filter_cons_of_pos (by simp), hrest] at hfilter
  exact List.perm_singleton.1 hfilter

end

/-- Without the elements that have the keys of the first `n`, a list without double keys is what
follows these. -/
theorem filter_key_eq_drop {α β : Type*} [DecidableEq β] {f : α → β} {l : List α}
    (h : (l.map f).Nodup) (n : ℕ) :
    (l.filter fun a => f a ∉ (l.take n).map f) = l.drop n := by
  rw [← List.take_append_drop n l, List.map_append, List.nodup_append] at h
  obtain ⟨-, -, hne⟩ := h
  have hfirst : ((l.take n).filter fun a => f a ∉ (l.take n).map f) = [] := by
    refine List.filter_eq_nil_iff.2 fun a ha => ?_
    simp only [decide_eq_true_eq, not_not]
    exact List.mem_map_of_mem ha
  have hlast : ((l.drop n).filter fun a => f a ∉ (l.take n).map f) = l.drop n := by
    refine List.filter_eq_self.2 fun a ha => ?_
    simp only [decide_eq_true_eq]
    exact fun hkey => hne _ hkey _ (List.mem_map_of_mem ha) rfl
  calc (l.filter fun a => f a ∉ (l.take n).map f)
      = (l.take n ++ l.drop n).filter fun a => f a ∉ (l.take n).map f := by
        rw [List.take_append_drop]
    _ = l.drop n := by rw [List.filter_append, hfirst, hlast, List.nil_append]

/-! ### Fewer elements -/

/-- Fewer elements are counted when one of them is filtered out. -/
theorem countP_filter_lt {α : Type*} {p q : α → Bool} {l : List α} {x : α} (hx : x ∈ l)
    (hp : p x = true) (hq : q x = false) : (l.filter q).countP p < l.countP p := by
  rw [List.countP_eq_countP_filter_add l p q]
  have hpos : 0 < (l.filter fun a => !q a).countP p :=
    List.countP_pos_iff.2 ⟨x, List.mem_filter.2 ⟨hx, by simp [hq]⟩, hp⟩
  omega

theorem subperm_map {α β : Type*} (f : α → β) {l l' : List α} (h : l.Subperm l') :
    (l.map f).Subperm (l'.map f) := by
  obtain ⟨part, hperm, hsub⟩ := h
  exact ⟨part.map f, hperm.map f, hsub.map f⟩

/-! ### The order of two elements -/

/-- If `x` is not in the second part, all of a pair that ends with `x` is in the first. -/
theorem pair_sublist_left {α : Type*} {l l' : List α} {x y : α} (h : [y, x].Sublist (l ++ l'))
    (hx : x ∉ l') : [y, x].Sublist l := by
  obtain ⟨first, last, hpair, hfirst, hlast⟩ := List.sublist_append_iff.1 h
  cases last using List.reverseRecOn with
  | nil => rwa [hpair, List.append_nil]
  | append_singleton last z =>
    obtain ⟨-, rfl⟩ : first ++ last = [y] ∧ z = x := by
      have hsplit : (first ++ last) ++ [z] = [y] ++ [x] := by simpa using hpair.symm
      obtain ⟨hinit, hz⟩ := List.append_inj' hsplit rfl
      exact ⟨hinit, List.singleton_inj.1 hz⟩
    exact absurd (hlast.subset (by simp)) hx

/-- Two elements of an ordered list come in their order. -/
theorem pair_sublist_of_pairwise {α : Type*} {r : α → α → Prop} {l : List α} {x y : α}
    (h : l.Pairwise r) (hne : y ≠ x) (hnot : ¬ r x y) (hy : y ∈ l) (hx : x ∈ l) :
    [y, x].Sublist l := by
  induction l with
  | nil => cases hy
  | cons c l ih =>
    obtain ⟨hfirst, hrest⟩ := List.pairwise_cons.1 h
    rcases List.mem_cons.1 hy with rfl | hyl
    · have hxl := (List.mem_cons.1 hx).resolve_left hne.symm
      exact (List.singleton_sublist.2 hxl).cons_cons y
    · rcases List.mem_cons.1 hx with rfl | hxl
      · exact absurd (hfirst y hyl) hnot
      · exact (ih hrest hyl hxl).cons c

end GatewayPoc
