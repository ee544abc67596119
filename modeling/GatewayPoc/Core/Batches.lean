import GatewayPoc.Core.Lists
import GatewayPoc.Core.Machine
import Mathlib.Algebra.Order.Floor.Div
import Mathlib.Data.List.Induction

/-!
# Executed runs and their rounds

A loop that takes a queue in batches of at most `n` elements has emptied it after as many rounds as
there are batches.  The rounds are executed runs, so the result says what the machine does, not only
what it may do.

* `Machine.runIf_induction` : the induction rule for what a run and its labels have in common.
* `Machine.runIf_rounds` : the rule for rounds that count down.
* `Machine.runIf_queue` : the rule for a label that takes one element of a queue.
* `Machine.runIf_drain` : `⌈length / n⌉` rounds that take the first `n` elements of a queue each
  empty it, and hand its elements over in order.
-/

namespace GatewayPoc

namespace Machine

variable {S L : Type*} {M : Machine S L} {G : S → L → Prop} [∀ s l, Decidable (G s l)]

/-- A step that meets the guard, and then a run. -/
theorem runIf_cons {s s' s'' : S} {l : L} {ls : List L} (hg : G s l) (hn : M.next s l = some s')
    (h : M.runIf G s' ls = some s'') : M.runIf G s (l :: ls) = some s'' := by
  rw [runIf, if_pos hg, hn, Option.bind_some, h]

theorem runIf_one {s s' : S} {l : L} (hg : G s l) (hn : M.next s l = some s') :
    M.runIf G s [l] = some s' := runIf_cons hg hn rfl

theorem runIf_append (s : S) (ls ls' : List L) :
    M.runIf G s (ls ++ ls') = (M.runIf G s ls).bind fun s' => M.runIf G s' ls' := by
  induction ls generalizing s with
  | nil => rfl
  | cons l ls ih =>
    simp only [List.cons_append, runIf]
    split_ifs
    · simp only [ih, Option.bind_assoc]
    · rfl

theorem runIf_trans {s s' s'' : S} {ls ls' : List L} (h : M.runIf G s ls = some s')
    (h' : M.runIf G s' ls' = some s'') : M.runIf G s (ls ++ ls') = some s'' := by
  rw [runIf_append, h, Option.bind_some, h']

/-- What holds of no labels, and is kept when a label is executed, holds of every executed run. -/
theorem runIf_induction {I : List L → S → Prop} {s s' : S} {ls : List L} (hnil : I [] s)
    (hstep : ∀ ls l s₁ s₂, I ls s₁ → G s₁ l → M.next s₁ l = some s₂ → I (ls ++ [l]) s₂)
    (h : M.runIf G s ls = some s') : I ls s' := by
  induction ls using List.reverseRecOn generalizing s' with
  | nil =>
    obtain rfl : s = s' := Option.some.inj h
    exact hnil
  | append_singleton ls l ih =>
    rw [runIf_concat] at h
    obtain ⟨s₁, hrun, h⟩ := Option.bind_eq_some_iff.1 h
    split_ifs at h with hg
    exact hstep ls l s₁ s' (ih hrun) hg h

/-- The labels of a round, `k` times. -/
def rounds (round : List L) : ℕ → List L
  | 0 => []
  | k + 1 => round ++ rounds round k

theorem rounds_succ (round : List L) (k : ℕ) :
    rounds round (k + 1) = rounds round k ++ round := by
  induction k with
  | zero => exact List.append_nil round
  | succ k ih =>
    change round ++ rounds round (k + 1) = (round ++ rounds round k) ++ round
    rw [ih, List.append_assoc]

theorem mem_of_mem_rounds {round : List L} {k : ℕ} {l : L} (h : l ∈ rounds round k) :
    l ∈ round := by
  induction k with
  | zero => cases h
  | succ k ih => exact (List.mem_append.1 h).elim id ih

/-- If a round can be executed whenever some are left, and leaves one less, all can be executed. -/
theorem runIf_rounds {round : List L} {I : ℕ → S → Prop}
    (hround : ∀ k s, I (k + 1) s → ∃ s', M.runIf G s round = some s' ∧ I k s') {k : ℕ} {s : S}
    (h : I k s) : ∃ s', M.runIf G s (rounds round k) = some s' ∧ I 0 s' := by
  induction k generalizing s with
  | zero => exact ⟨s, rfl, h⟩
  | succ k ih =>
    obtain ⟨s₁, hrun₁, h₁⟩ := hround k s h
    obtain ⟨s₂, hrun₂, h₂⟩ := ih h₁
    exact ⟨s₂, runIf_trans hrun₁ hrun₂, h₂⟩

/-- If a label takes the first element of a queue, it can be executed as often as the queue is long,
and then all elements are taken. -/
theorem runIf_queue {α τ : Type*} {l : L} (state : List α → τ → S) {take : τ → α → τ}
    (htake : ∀ a as t, G (state (a :: as) t) l ∧
      M.next (state (a :: as) t) l = some (state as (take t a))) (as : List α) (t : τ) :
    M.runIf G (state as t) (rounds [l] as.length) = some (state [] (as.foldl take t)) := by
  induction as generalizing t with
  | nil => rfl
  | cons a as ih =>
    obtain ⟨hg, hnext⟩ := htake a as t
    exact runIf_cons hg hnext (ih (take t a))

/-- One batch less is left when `n` elements are gone. -/
theorem ceilDiv_sub {length n k : ℕ} (hn : 0 < n) (h : length ⌈/⌉ n = k + 1) :
    0 < length ∧ (length - n) ⌈/⌉ n = k := by
  rw [Nat.ceilDiv_eq_add_pred_div] at h ⊢
  have hpos : 0 < length := by
    by_contra hzero
    rw [Nat.eq_zero_of_not_pos hzero, Nat.div_eq_of_lt (by omega)] at h
    omega
  refine ⟨hpos, ?_⟩
  rcases Nat.lt_or_ge length n with hlt | hge
  · have hone : (length + n - 1) / n = 1 := Nat.div_eq_of_lt_le (by omega) (by omega)
    rw [Nat.div_eq_of_lt (by omega)]
    omega
  · have hsplit : length + n - 1 = length - n + n - 1 + n := by omega
    rw [hsplit, Nat.add_div_right _ hn] at h
    omega

/-- **Draining.**  If a round takes the first `n` elements of the queue and hands them over, as many
rounds as the queue has batches empty it, and hand over its elements in order. -/
theorem runIf_drain {α : Type*} {round : List L} {Ready : S → Prop} {queue handed : S → List α}
    {n : ℕ} (hn : 0 < n)
    (hround : ∀ s, Ready s → queue s ≠ [] → ∃ s', M.runIf G s round = some s' ∧ Ready s' ∧
      queue s' = (queue s).drop n ∧ handed s' = handed s ++ (queue s).take n)
    {s : S} (h : Ready s) :
    ∃ s', M.runIf G s (rounds round ((queue s).length ⌈/⌉ n)) = some s' ∧ Ready s' ∧
      queue s' = [] ∧ handed s' = handed s ++ queue s := by
  let I : ℕ → S → Prop := fun k s' =>
    Ready s' ∧ (queue s').length ⌈/⌉ n = k ∧ handed s' ++ queue s' = handed s ++ queue s
  have hless : ∀ k s₁, I (k + 1) s₁ → ∃ s₂, M.runIf G s₁ round = some s₂ ∧ I k s₂ := by
    rintro k s₁ ⟨hready, hk, hall⟩
    obtain ⟨hpos, hk'⟩ := ceilDiv_sub hn hk
    obtain ⟨s₂, hrun, hready₂, hqueue, hhanded⟩ :=
      hround s₁ hready (List.ne_nil_of_length_pos hpos)
    refine ⟨s₂, hrun, hready₂, by rw [hqueue, List.length_drop, hk'], ?_⟩
    rw [hqueue, hhanded, List.append_assoc, List.take_append_drop, hall]
  obtain ⟨s', hrun, hready, hlen, hall⟩ := runIf_rounds hless ⟨h, rfl, rfl⟩
  have hnil : queue s' = [] := by
    rw [Nat.ceilDiv_eq_add_pred_div, Nat.div_eq_zero_iff] at hlen
    exact List.length_eq_zero_iff.1 (by omega)
  refine ⟨s', hrun, hready, hnil, ?_⟩
  rw [← hall, hnil, List.append_nil]

end Machine

end GatewayPoc
