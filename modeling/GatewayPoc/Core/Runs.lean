import GatewayPoc.Core.Batches

/-!
# Infinite runs

A running machine goes on forever: at every time a label is executed, or nothing happens.  What a
scheduler and the outside promise is that some labels are executed again and again.  Something
happens in the end because a rank cannot decrease forever.

* `Machine.Run` : an infinite run.
* `Run.Recurs A` : again and again a label with the property `A` is executed.
* **`Run.eventually_of_rank`** : a goal is reached if a rank does not increase while it is not, and
  decreases with labels that come again and again.
* `Run.recurs_of_rank` : the same with labels as the goal.
* `Run.eventually_all` : finitely many goals that are not lost again are reached together;
  `Run.eventually_subperm` : the same for the elements of a list that grows.
* `Run.exists_map` : a run seen through a map of the states is a run.
* `exists_run` : an executed run goes on forever with a label that can be executed from then on.
-/

namespace GatewayPoc

/-- A rank that does not increase, and decreases again and again, reaches a goal. -/
theorem exists_of_rank (I goal : ℕ → Prop) {tick : ℕ → Prop} (rank : ℕ → ℕ)
    (htick : ∀ k, I k → ¬ goal k → ∃ k' ≥ k, tick k')
    (hstep : ∀ k, I k → ¬ goal k → ¬ goal (k + 1) →
      I (k + 1) ∧ rank (k + 1) ≤ rank k ∧ (tick k → rank (k + 1) < rank k))
    {n : ℕ} (h : I n) : ∃ k ≥ n, goal k := by
  induction hr : rank n using Nat.strong_induction_on generalizing n with
  | _ m ih =>
    subst hr
    by_contra hno
    have hnot : ∀ k ≥ n, ¬ goal k := fun k hk hgoal => hno ⟨k, hk, hgoal⟩
    have hkeep : ∀ k ≥ n, I k ∧ rank k ≤ rank n := by
      intro k hk
      induction k, hk using Nat.le_induction with
      | base => exact ⟨h, le_rfl⟩
      | succ k hk ihk =>
        obtain ⟨hI, hle, -⟩ := hstep k ihk.1 (hnot k hk) (hnot _ (Nat.le_succ_of_le hk))
        exact ⟨hI, hle.trans ihk.2⟩
    obtain ⟨k, hk, ht⟩ := htick n h (hnot n le_rfl)
    obtain ⟨hI, -, hlt⟩ := hstep k (hkeep k hk).1 (hnot k hk) (hnot _ (Nat.le_succ_of_le hk))
    obtain ⟨j, hj, hgoal⟩ := ih _ ((hlt ht).trans_le (hkeep k hk).2) hI rfl
    exact hnot j (by omega) hgoal

namespace Machine

variable {S L T K : Type*}

/-- Execute a label, or let nothing happen. -/
def move (M : Machine S L) (s : S) : Option L → Option S
  | none => some s
  | some l => M.next s l

/-- An infinite run, with pauses. -/
structure Run (M : Machine S L) where
  /-- The state at every time. -/
  state : ℕ → S
  /-- The label that is executed at this time; `none` for a pause. -/
  label : ℕ → Option L
  init : M.init (state 0)
  move : ∀ n, M.move (state n) (label n) = some (state (n + 1))

variable {M : Machine S L}

namespace Run

variable (r : M.Run) {A B : S → L → Prop} {n k : ℕ}

/-- A step is a pause or a label that is executed. -/
theorem step (n : ℕ) : (r.label n = none ∧ r.state (n + 1) = r.state n) ∨
    ∃ l, r.label n = some l ∧ M.next (r.state n) l = some (r.state (n + 1)) := by
  have hmove := r.move n
  cases hl : r.label n with
  | none =>
    rw [hl] at hmove
    exact Or.inl ⟨rfl, (Option.some.inj hmove).symm⟩
  | some l =>
    rw [hl] at hmove
    exact Or.inr ⟨l, rfl, hmove⟩

theorem next {l : L} (h : r.label n = some l) :
    M.next (r.state n) l = some (r.state (n + 1)) := by
  have hmove := r.move n
  rwa [h] at hmove

theorem reachable (n : ℕ) : M.Reachable anyStep (r.state n) := by
  induction n with
  | zero => exact .init r.init
  | succ n ih =>
    obtain ⟨-, heq⟩ | ⟨l, -, hnext⟩ := r.step n
    · exact heq ▸ ih
    · exact .step ih trivial hnext

/-- What every step from a time on keeps is not lost. -/
theorem keeps {P : S → Prop}
    (hstep : ∀ k ≥ n, ∀ l, r.label k = some l → P (r.state k) → P (r.state (k + 1)))
    (h : P (r.state n)) (k : ℕ) (hk : n ≤ k) : P (r.state k) := by
  induction k, hk using Nat.le_induction with
  | base => exact h
  | succ k hk ih =>
    obtain ⟨-, heq⟩ | ⟨l, hl, -⟩ := r.step k
    · exact heq ▸ ih
    · exact hstep k hk l hl ih

/-- Again and again a label with the property `A` is executed. -/
def Recurs (A : S → L → Prop) : Prop :=
  ∀ n, ∃ k ≥ n, ∃ l, r.label k = some l ∧ A (r.state k) l

variable {r}

/-- **Progress.**  While the goal is not reached the rank does not increase, and labels that come
again and again decrease it. -/
theorem eventually_of_rank (I goal : S → Prop) (rank : S → ℕ)
    (hcome : ∀ k, I (r.state k) → ∃ k' ≥ k, ∃ l, r.label k' = some l ∧ A (r.state k') l)
    (hstep : ∀ k ≥ n, ∀ l, r.label k = some l → I (r.state k) → ¬ goal (r.state k) →
      ¬ goal (r.state (k + 1)) → I (r.state (k + 1)) ∧
        rank (r.state (k + 1)) ≤ rank (r.state k) ∧
        (A (r.state k) l → rank (r.state (k + 1)) < rank (r.state k)))
    (h : I (r.state n)) : ∃ k ≥ n, goal (r.state k) := by
  refine exists_of_rank (fun k => n ≤ k ∧ I (r.state k)) (fun k => goal (r.state k))
    (fun k => rank (r.state k)) (fun k hI _ => hcome k hI.2) (fun k hI hk hk' => ?_) ⟨le_rfl, h⟩
  obtain ⟨hn, hI⟩ := hI
  obtain ⟨hl, heq⟩ | ⟨l, hl, -⟩ := r.step k
  · rw [heq]
    exact ⟨⟨Nat.le_succ_of_le hn, hI⟩, le_rfl, fun ⟨l, hl', _⟩ => by simp [hl] at hl'⟩
  · obtain ⟨hI', hle, hlt⟩ := hstep k hn l hl hI hk hk'
    refine ⟨⟨Nat.le_succ_of_le hn, hI'⟩, hle, fun ⟨l', hl', hA⟩ => ?_⟩
    obtain rfl := Option.some.inj (hl.symm.trans hl')
    exact hlt hA

/-- If labels recur, so do those that a rank leads to. -/
theorem recurs_of_rank (rank : S → ℕ) (hrec : r.Recurs A)
    (hstep : ∀ k ≥ n, ∀ l, r.label k = some l → ¬ B (r.state k) l →
      rank (r.state (k + 1)) ≤ rank (r.state k) ∧
        (A (r.state k) l → rank (r.state (k + 1)) < rank (r.state k))) : r.Recurs B := by
  intro m
  have hreach : ∃ k ≥ max m n, ∃ l, r.label k = some l ∧ B (r.state k) l := by
    refine exists_of_rank (fun k => n ≤ k) _ (fun k => rank (r.state k)) (fun k _ _ => hrec k)
      (fun k hn hk _ => ?_) (le_max_right m n)
    obtain ⟨hl, heq⟩ | ⟨l, hl, -⟩ := r.step k
    · rw [heq]
      exact ⟨Nat.le_succ_of_le hn, le_rfl, fun ⟨l, hl', _⟩ => by simp [hl] at hl'⟩
    · obtain ⟨hle, hlt⟩ := hstep k hn l hl fun hB => hk ⟨l, hl, hB⟩
      refine ⟨Nat.le_succ_of_le hn, hle, fun ⟨l', hl', hA⟩ => ?_⟩
      obtain rfl := Option.some.inj (hl.symm.trans hl')
      exact hlt hA
  obtain ⟨k, hk, hB⟩ := hreach
  exact ⟨k, (le_max_left m n).trans hk, hB⟩

/-- Finitely many goals that are not lost again are reached together. -/
theorem eventually_all {α : Type*} {P : α → ℕ → Prop} (hkeep : ∀ a k k', k ≤ k' → P a k → P a k')
    (as : List α) (h : ∀ a ∈ as, ∃ k ≥ n, P a k) : ∃ k ≥ n, ∀ a ∈ as, P a k := by
  induction as with
  | nil => exact ⟨n, le_rfl, by simp⟩
  | cons a as ih =>
    obtain ⟨k, hk, ha⟩ := h a List.mem_cons_self
    obtain ⟨j, -, has⟩ := ih fun b hb => h b (List.mem_cons_of_mem _ hb)
    refine ⟨max k j, hk.trans (le_max_left _ _), fun b hb => ?_⟩
    obtain rfl | hb := List.mem_cons.1 hb
    · exact hkeep _ _ _ (le_max_left _ _) ha
    · exact hkeep _ _ _ (le_max_right _ _) (has b hb)

/-- What grows with every step contains finitely many different elements together, if it contains
each of them in the end. -/
theorem eventually_subperm {α : Type*} (held : S → List α)
    (hkeep : ∀ k l, r.label k = some l → held (r.state k) ⊆ held (r.state (k + 1)))
    {as : List α} (hnodup : as.Nodup) (h : ∀ a ∈ as, ∃ k ≥ n, a ∈ held (r.state k)) :
    ∃ k ≥ n, as.Subperm (held (r.state k)) := by
  have hmem : ∀ a k k', k ≤ k' → a ∈ held (r.state k) → a ∈ held (r.state k') :=
    fun a k k' hk ha => r.keeps (P := fun s => a ∈ held s)
      (fun j _ l hl h => hkeep j l hl h) ha k' hk
  obtain ⟨k, hk, hall⟩ := eventually_all (P := fun a k => a ∈ held (r.state k)) hmem as h
  exact ⟨k, hk, hnodup.subperm hall⟩

/-- **A run seen through a map** is a run, if the map sends every step to a step or a pause. -/
theorem exists_map {N : Machine T K} {f : S → T} {R : S → L → Option K → Prop} (r : M.Run)
    (hinit : ∀ s, M.init s → N.init (f s))
    (hstep : ∀ s l s', M.next s l = some s' → ∃ l', N.move (f s) l' = some (f s') ∧ R s l l') :
    ∃ r' : N.Run, (∀ n, r'.state n = f (r.state n)) ∧
      ∀ n l, r.label n = some l → R (r.state n) l (r'.label n) := by
  have hlabel : ∀ n, ∃ l', N.move (f (r.state n)) l' = some (f (r.state (n + 1))) ∧
      ∀ l, r.label n = some l → R (r.state n) l l' := by
    intro n
    obtain ⟨hl, heq⟩ | ⟨l, hl, hnext⟩ := r.step n
    · exact ⟨none, by rw [heq]; rfl, by simp [hl]⟩
    · obtain ⟨l', hmove, hR⟩ := hstep _ _ _ hnext
      exact ⟨l', hmove, fun l₁ hl₁ => Option.some.inj (hl.symm.trans hl₁) ▸ hR⟩
  choose label hmove hR using hlabel
  exact ⟨⟨fun n => f (r.state n), label, hinit _ r.init, hmove⟩, fun _ => rfl, hR⟩

end Run

/-- What is checked of the state an executed run ends in. -/
theorem of_runIf {P : S → Prop} [DecidablePred P] {s s' : S} {ls : List L}
    (h : M.runIf anyStep s ls = some s')
    (hP : (M.runIf anyStep s ls).any (fun s' => decide (P s')) = true) : P s' := by
  rw [h] at hP
  exact of_decide_eq_true hP

/-- An executed run goes on forever with a label that can be executed from then on. -/
theorem exists_run {J : S → Prop} {s s' : S} {ls : List L} {l : L} (hs : M.init s)
    (h : M.runIf anyStep s ls = some s') (hJ : J s')
    (hl : ∀ s, J s → ∃ s', M.next s l = some s' ∧ J s') :
    ∃ r : M.Run, (∀ n ≤ ls.length, M.runIf anyStep s (ls.take n) = some (r.state n)) ∧
      (∀ n < ls.length, r.label n = ls[n]?) ∧
      ∀ n ≥ ls.length, J (r.state n) ∧ r.label n = some l := by
  have hstates : ∀ n, ∃ s₁, M.runIf anyStep s (ls.take n) = some s₁ := by
    intro n
    have hsplit := runIf_append (M := M) (G := anyStep) s (ls.take n) (ls.drop n)
    rw [List.take_append_drop, h] at hsplit
    obtain ⟨s₁, hs₁, -⟩ := Option.bind_eq_some_iff.1 hsplit.symm
    exact ⟨s₁, hs₁⟩
  have hgo : ∀ x : {s // J s}, ∃ y : {s // J s}, M.next x l = some y.1 := fun x => by
    obtain ⟨y, hy, hJy⟩ := hl x x.2
    exact ⟨⟨y, hJy⟩, hy⟩
  choose first hfirst using hstates
  choose go hgo using hgo
  let tail : ℕ → {s // J s} := fun n => go^[n] ⟨s', hJ⟩
  let state : ℕ → S := fun n => if n < ls.length then first n else tail (n - ls.length)
  have hlast : first ls.length = s' := by
    have := hfirst ls.length
    rw [List.take_length, h] at this
    exact (Option.some.inj this).symm
  have hstate : ∀ n ≤ ls.length, state n = first n := by
    intro n hn
    obtain hlt | rfl := Nat.lt_or_eq_of_le hn
    · exact if_pos hlt
    · simp [state, tail, hlast]
  have htail : ∀ n ≥ ls.length, state n = tail (n - ls.length) := fun n hn =>
    if_neg (Nat.not_lt.2 hn)
  refine ⟨⟨state, fun n => some (ls.getD n l), ?_, fun n => ?_⟩, fun n hn => ?_,
    fun n hn => by simp [List.getElem?_eq_getElem hn],
    fun n hn => ⟨?_, by simp [List.getElem?_eq_none hn]⟩⟩
  · rw [hstate 0 (Nat.zero_le _)]
    have h0 : s = first 0 := Option.some.inj (hfirst 0)
    exact h0 ▸ hs
  · change M.next (state n) (ls.getD n l) = some (state (n + 1))
    by_cases hn : n < ls.length
    · have hsucc := hfirst (n + 1)
      rw [List.take_succ_eq_append_getElem hn, runIf_concat, hfirst n, Option.bind_some,
        if_pos (show anyStep _ _ from trivial)] at hsucc
      rwa [List.getD_eq_getElem?_getD, List.getElem?_eq_getElem hn, hstate n hn.le,
        hstate (n + 1) hn]
    · have hge : ls.length ≤ n := Nat.not_lt.1 hn
      rw [htail n hge, htail (n + 1) (by omega), List.getD_eq_getElem?_getD,
        List.getElem?_eq_none hge, Nat.sub_add_comm hge]
      simp only [tail, Function.iterate_succ_apply', Option.getD_none]
      exact hgo _
  · change _ = some (state n)
    rw [hstate n hn, hfirst n]
  · change J (state n)
    rw [htail n hn]
    exact (tail _).2

end Machine

end GatewayPoc
