import Mathlib.Logic.Relation
import Mathlib.Tactic.SplitIfs

/-!
# State machines with guarded runs

Every running part of the gateway (the back-end loop with its save threads, the Redis clients,
the HTTP acceptor) is a *state machine*: a state, and for each label the state it leads to, or
`none` when the label cannot happen there.  All nondeterminism (what another process does, which
call fails, which thread runs next) is in the labels, so a machine is executable and a finite run
is a list of labels.

## Main definitions

* `Machine S L` : initial states and the partial step function.
* `Machine.Reachable M G s` : `s` is reached by a run of `M` all of whose steps meet the guard
  `G`.  The guard says which assumptions a result makes about the runs it speaks of.
* `Machine.runIf` : execute a list of labels, checking a decidable guard on the way.
* `Machine.Steps` : zero or more unguarded steps.

## Main results

* `Reachable.invariant` : the induction rule for invariants.
* `Reachable.mono` : a run under a stronger guard is a run under a weaker one.
* `Reachable.map` : a map that sends every guarded step of one machine to steps of another sends
  reachable states to reachable states (refinement).
* `reachable_of_runIf` : executed runs are runs.
-/

namespace GatewayPoc

/-- A state machine with states `S` and labels `L`. -/
structure Machine (S : Type*) (L : Type*) where
  /-- The initial states. -/
  init : S → Prop
  /-- The state a label leads to; `none` if the label cannot happen in this state. -/
  next : S → L → Option S

namespace Machine

variable {S L T K : Type*}

/-- The guard met by every step. -/
def anyStep : S → L → Prop := fun _ _ => True

instance (s : S) (l : L) : Decidable (anyStep s l) := isTrue trivial

/-- `s` is reached from an initial state by steps that all meet the guard `G`. -/
inductive Reachable (M : Machine S L) (G : S → L → Prop) : S → Prop
  | init {s : S} (hs : M.init s) : Reachable M G s
  | step {s s' : S} {l : L} (hs : Reachable M G s) (hg : G s l) (hn : M.next s l = some s') :
      Reachable M G s'

variable {M : Machine S L} {G G' : S → L → Prop}

namespace Reachable

/-- A predicate that holds initially and is kept by every guarded step from a reachable state
holds in every reachable state. -/
theorem invariant {I : S → Prop} {s : S} (h : M.Reachable G s) (hinit : ∀ s, M.init s → I s)
    (hstep : ∀ s l s', M.Reachable G s → I s → G s l → M.next s l = some s' → I s') : I s := by
  induction h with
  | init hs => exact hinit _ hs
  | step hs hg hn ih => exact hstep _ _ _ hs ih hg hn

theorem mono {s : S} (h : M.Reachable G s)
    (hG : ∀ s l, M.Reachable G s → G s l → G' s l) : M.Reachable G' s := by
  induction h with
  | init hs => exact .init hs
  | step hs hg hn ih => exact .step ih (hG _ _ hs hg) hn

end Reachable

variable (M) in
/-- Zero or more steps, whatever the labels. -/
def Steps : S → S → Prop := Relation.ReflTransGen fun s s' => ∃ l, M.next s l = some s'

theorem Steps.refl (s : S) : M.Steps s s := Relation.ReflTransGen.refl

theorem Steps.of_eq {s s' : S} (h : s = s') : M.Steps s s' := h ▸ Steps.refl s

theorem Steps.trans {s s' s'' : S} (h : M.Steps s s') (h' : M.Steps s' s'') : M.Steps s s'' :=
  Relation.ReflTransGen.trans h h'

theorem Steps.head {s s' s'' : S} {l : L} (hn : M.next s l = some s') (h : M.Steps s' s'') :
    M.Steps s s'' :=
  Relation.ReflTransGen.head ⟨l, hn⟩ h

theorem Steps.one {s s' : S} {l : L} (hn : M.next s l = some s') : M.Steps s s' :=
  Steps.head hn (Steps.refl s')

theorem Reachable.steps {s s' : S} (h : M.Reachable anyStep s) (hs : M.Steps s s') :
    M.Reachable anyStep s' := by
  induction hs with
  | refl => exact h
  | tail _ hst ih =>
    obtain ⟨l, hl⟩ := hst
    exact .step ih trivial hl

/-- **Refinement.**  If `f` sends initial states to initial states and every guarded step of `M`
to steps of `A`, it sends every reachable state of `M` to a reachable state of `A`. -/
theorem Reachable.map {A : Machine T K} {f : S → T} {s : S} (h : M.Reachable G s)
    (hinit : ∀ s, M.init s → A.init (f s))
    (hstep : ∀ s l s', M.Reachable G s → G s l → M.next s l = some s' → A.Steps (f s) (f s')) :
    A.Reachable anyStep (f s) := by
  induction h with
  | init hs => exact .init (hinit _ hs)
  | step hs hg hn ih => exact ih.steps (hstep _ _ _ hs hg hn)

/-! ### Executing runs -/

variable (M) in
/-- Execute the labels in order, checking the guard before each of them. -/
def runIf (G : S → L → Prop) [∀ s l, Decidable (G s l)] : S → List L → Option S
  | s, [] => some s
  | s, l :: ls => if G s l then (M.next s l).bind fun s' => runIf G s' ls else none

theorem runIf_concat [∀ s l, Decidable (G s l)] (s : S) (ls : List L) (l : L) :
    M.runIf G s (ls ++ [l]) =
      (M.runIf G s ls).bind fun s' => if G s' l then M.next s' l else none := by
  induction ls generalizing s with
  | nil =>
    simp only [List.nil_append, runIf, Option.bind_some]
    split_ifs
    · exact Option.bind_fun_some (M.next s l)
    · rfl
  | cons l' ls ih =>
    simp only [List.cons_append, runIf]
    split_ifs
    · simp only [ih, Option.bind_assoc]
    · rfl

theorem reachable_of_runIf [∀ s l, Decidable (G s l)] {s s' : S} {ls : List L}
    (hs : M.Reachable G s) (h : M.runIf G s ls = some s') : M.Reachable G s' := by
  induction ls generalizing s with
  | nil =>
    obtain rfl : s = s' := by simpa [runIf] using h
    exact hs
  | cons l ls ih =>
    simp only [runIf] at h
    split_ifs at h with hg
    obtain ⟨s₁, hn, h⟩ := Option.bind_eq_some_iff.1 h
    exact ih (.step hs hg hn) h

/-- A run that ends in a state with the property `P` reaches such a state. -/
theorem exists_of_runIf [∀ s l, Decidable (G s l)] {P : S → Prop} [DecidablePred P] {s : S}
    (hs : M.init s) (ls : List L)
    (h : (M.runIf G s ls).any (fun s' => decide (P s')) = true) :
    ∃ s', M.Reachable G s' ∧ P s' := by
  obtain ⟨s', hrun, hP⟩ := (Option.any_eq_true _ _).1 h
  exact ⟨s', reachable_of_runIf (.init hs) hrun, of_decide_eq_true hP⟩

end Machine

end GatewayPoc
