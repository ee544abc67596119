import GatewayPoc.Core.Machine
import Mathlib.Data.List.Basic
import Mathlib.Data.List.Nodup
import Mathlib.Logic.Function.Basic

/-!
# A pool with one resource for each owner

Threads share a list of entries, each a resource with its owner.  A thread first looks for an
entry of its own; if there is none it makes a resource and inserts it.  The lookup and the
insertion are two critical sections, and other threads run between them.

* `ExclusivePool.machine` : the critical sections and the making of a resource as steps.  Resources
  are numbered in the order in which they are made.
* `ExclusivePool.Kept` : the invariant.  What it says of a thread between its lookup and its
  insertion is that it has no entry: nobody else inserts one for it.
* `ExclusivePool.exclusive` : **every owner has one resource and gets no other**.
-/

namespace GatewayPoc

namespace ExclusivePool

/-- A resource in the pool. -/
structure Owned (T : Type*) where
  owner : T
  resource : ℕ
  deriving DecidableEq, Repr

/-- Where a thread is. -/
inductive Phase where
  | outside
  /-- It has found no entry of its own. -/
  | missed
  /-- It has made a resource, which is not in the pool yet. -/
  | holding (resource : ℕ)
  deriving DecidableEq, Repr

/-- The threads and what they share. -/
structure Pool (T : Type*) where
  phase : T → Phase
  entries : List (Owned T)
  /-- The threads that made a resource, in the order of the resources. -/
  made : List T
  /-- The resources that were given to threads. -/
  returned : List (Owned T)

/-- What a thread does. -/
inductive Act (T : Type*) where
  | lookup (t : T)
  | make (t : T)
  /-- It tries to make a resource and fails. -/
  | fail (t : T)
  | insert (t : T)

variable {T : Type*}

/-- No thread is at work, and the pool is empty. -/
def start : Pool T := ⟨fun _ => .outside, [], [], []⟩

section

variable [DecidableEq T]

/-- The resource of the first entry of `t`. -/
def find (t : T) (entries : List (Owned T)) : Option ℕ :=
  (entries.find? fun e => e.owner = t).map Owned.resource

/-- The pool after a step. -/
def next (p : Pool T) : Act T → Option (Pool T)
  | .lookup t =>
    if p.phase t = .outside then
      match find t p.entries with
      | some r => some { p with returned := p.returned ++ [⟨t, r⟩] }
      | none => some { p with phase := Function.update p.phase t .missed }
    else none
  | .make t =>
    if p.phase t = .missed then
      some { p with
        phase := Function.update p.phase t (.holding p.made.length)
        made := p.made ++ [t] }
    else none
  | .fail t =>
    if p.phase t = .missed then some { p with phase := Function.update p.phase t .outside }
    else none
  | .insert t =>
    match p.phase t with
    | .holding r => some { p with
        phase := Function.update p.phase t .outside
        entries := p.entries ++ [⟨t, r⟩]
        returned := p.returned ++ [⟨t, r⟩] }
    | _ => none

/-- The pool as a state machine. -/
def machine : Machine (Pool T) (Act T) where
  init p := p = start
  next := next

/-- What a thread is promised: it has one resource, which it made, and is given no other. -/
structure Exclusive (entries : List (Owned T)) (made : List T) (returned : List (Owned T)) :
    Prop where
  /-- No two entries have the same owner. -/
  nodup : (entries.map Owned.owner).Nodup
  /-- No thread makes two resources. -/
  once : made.Nodup
  /-- A resource is given only to the thread that made it. -/
  creator : ∀ e ∈ returned, made[e.resource]? = some e.owner
  /-- A thread is always given the same resource. -/
  same : ∀ e ∈ returned, ∀ e' ∈ returned, e.owner = e'.owner → e.resource = e'.resource
  /-- A thread that was given a resource finds it from then on. -/
  later : ∀ e ∈ returned, find e.owner entries = some e.resource

end

/-- The invariant. -/
structure Kept (p : Pool T) : Prop where
  nodup : (p.entries.map Owned.owner).Nodup
  /-- A thread between its lookup and its insertion has no entry. -/
  fresh : ∀ t, p.phase t ≠ .outside → t ∉ p.entries.map Owned.owner
  /-- A thread with nothing to insert made nothing but its entry. -/
  placed : ∀ t ∈ p.made, t ∈ p.entries.map Owned.owner ∨ ∃ r, p.phase t = .holding r
  once : p.made.Nodup
  entered : ∀ e ∈ p.entries, p.made[e.resource]? = some e.owner
  held : ∀ t r, p.phase t = .holding r → p.made[r]? = some t
  returned : ∀ e ∈ p.returned, e ∈ p.entries

variable {p p' : Pool T} {t : T} {r : ℕ} {entries : List (Owned T)}

theorem Kept.start : Kept (start : Pool T) := by
  constructor <;> simp [ExclusivePool.start]

/-- Resources keep their numbers. -/
theorem getElem?_made {made : List T} {u : T} (h : made[r]? = some u) (t : T) :
    (made ++ [t])[r]? = some u := by
  rw [List.getElem?_append_left (List.getElem?_eq_some_iff.1 h).1, h]

variable [DecidableEq T]

/-! ### Finding an entry -/

theorem mem_of_find (h : find t entries = some r) : (⟨t, r⟩ : Owned T) ∈ entries := by
  obtain ⟨e, he, rfl⟩ := Option.map_eq_some_iff.1 h
  obtain rfl : e.owner = t := by simpa using List.find?_some he
  exact List.mem_of_find?_eq_some he

theorem not_mem_of_find (h : find t entries = none) : t ∉ entries.map Owned.owner := by
  intro hmem
  obtain ⟨e, he, rfl⟩ := List.mem_map.1 hmem
  have hnone := List.find?_eq_none.1 (Option.map_eq_none_iff.1 h) e he
  simp at hnone

/-- Owners being unique, the entry of an owner is the one that is found. -/
theorem find_of_mem {e : Owned T} (hnodup : (entries.map Owned.owner).Nodup) (he : e ∈ entries) :
    find e.owner entries = some e.resource := by
  cases hfind : find e.owner entries with
  | none => exact absurd (List.mem_map_of_mem he) (not_mem_of_find hfind)
  | some r =>
    have heq := List.inj_on_of_nodup_map hnodup he (mem_of_find hfind) rfl
    rw [heq]

/-! ### The steps -/

theorem next_lookup_some (hphase : p.phase t = .outside) (hfind : find t p.entries = some r) :
    next p (.lookup t) = some { p with returned := p.returned ++ [⟨t, r⟩] } := by
  simp only [next, if_pos hphase, hfind]

theorem next_lookup_none (hphase : p.phase t = .outside) (hfind : find t p.entries = none) :
    next p (.lookup t) = some { p with phase := Function.update p.phase t .missed } := by
  simp only [next, if_pos hphase, hfind]

theorem next_make (hphase : p.phase t = .missed) :
    next p (.make t) = some { p with
      phase := Function.update p.phase t (.holding p.made.length)
      made := p.made ++ [t] } := by
  simp only [next, if_pos hphase]

theorem next_fail (hphase : p.phase t = .missed) :
    next p (.fail t) = some { p with phase := Function.update p.phase t .outside } := by
  simp only [next, if_pos hphase]

theorem next_insert (hphase : p.phase t = .holding r) :
    next p (.insert t) = some { p with
      phase := Function.update p.phase t .outside
      entries := p.entries ++ [⟨t, r⟩]
      returned := p.returned ++ [⟨t, r⟩] } := by
  simp only [next, hphase]

/-! ### The invariant -/

/-- A thread that finds its entry is given it. -/
theorem Kept.hit (h : Kept p) (hfind : find t p.entries = some r) :
    Kept { p with returned := p.returned ++ [⟨t, r⟩] } where
  nodup := h.nodup
  fresh := h.fresh
  placed := h.placed
  once := h.once
  entered := h.entered
  held := h.held
  returned e he := by
    rcases List.mem_append.1 he with he | he
    · exact h.returned e he
    · obtain rfl := List.mem_singleton.1 he
      exact mem_of_find hfind

/-- A thread that holds no resource may go where it is still true that it has no entry. -/
theorem Kept.move (h : Kept p) {phase : Phase} (hnot : ∀ r, p.phase t ≠ .holding r)
    (hphase : phase = .outside ∨ phase = .missed ∧ t ∉ p.entries.map Owned.owner) :
    Kept { p with phase := Function.update p.phase t phase } where
  nodup := h.nodup
  fresh u hu := by
    by_cases hut : u = t
    · subst hut
      rcases hphase with rfl | ⟨-, hfresh⟩
      · simp at hu
      · exact hfresh
    · simp only [Function.update_of_ne hut] at hu
      exact h.fresh u hu
  placed u hu := by
    rcases h.placed u hu with hmem | ⟨r, hr⟩
    · exact Or.inl hmem
    · have hut : u ≠ t := fun heq => hnot r (heq ▸ hr)
      exact Or.inr ⟨r, by simpa only [Function.update_of_ne hut] using hr⟩
  once := h.once
  entered := h.entered
  held u r hu := by
    by_cases hut : u = t
    · subst hut
      rcases hphase with rfl | ⟨rfl, -⟩ <;> simp at hu
    · simp only [Function.update_of_ne hut] at hu
      exact h.held u r hu
  returned := h.returned

theorem Kept.make (h : Kept p) (ht : p.phase t = .missed) :
    Kept { p with
      phase := Function.update p.phase t (.holding p.made.length)
      made := p.made ++ [t] } where
  nodup := h.nodup
  fresh u hu := by
    by_cases hut : u = t
    · subst hut
      exact h.fresh u (by simp [ht])
    · simp only [Function.update_of_ne hut] at hu
      exact h.fresh u hu
  placed u hu := by
    by_cases hut : u = t
    · subst hut
      exact Or.inr ⟨p.made.length, Function.update_self ..⟩
    · have hmade : u ∈ p.made := by simpa [hut] using hu
      simpa only [Function.update_of_ne hut] using h.placed u hmade
  once := by
    -- `t` has no entry and holds nothing, so it made nothing so far
    have hnew : t ∉ p.made := by
      intro hmem
      rcases h.placed t hmem with hentry | ⟨r, hr⟩
      · exact h.fresh t (by simp [ht]) hentry
      · simp [ht] at hr
    simpa only [List.concat_eq_append] using List.Nodup.concat hnew h.once
  entered e he := getElem?_made (h.entered e he) t
  held u r hu := by
    by_cases hut : u = t
    · subst hut
      obtain rfl : p.made.length = r := by simpa using hu
      exact List.getElem?_concat_length
    · simp only [Function.update_of_ne hut] at hu
      exact getElem?_made (h.held u r hu) t
  returned := h.returned

theorem Kept.insert (h : Kept p) (ht : p.phase t = .holding r) :
    Kept { p with
      phase := Function.update p.phase t .outside
      entries := p.entries ++ [⟨t, r⟩]
      returned := p.returned ++ [⟨t, r⟩] } where
  nodup := by
    have hfresh : t ∉ p.entries.map Owned.owner := h.fresh t (by simp [ht])
    simpa only [List.concat_eq_append, List.map_append, List.map_singleton] using
      List.Nodup.concat hfresh h.nodup
  fresh u hu := by
    by_cases hut : u = t
    · subst hut
      simp at hu
    · simp only [Function.update_of_ne hut] at hu
      simpa [hut] using h.fresh u hu
  placed u hu := by
    by_cases hut : u = t
    · subst hut
      exact Or.inl (by simp)
    · rcases h.placed u hu with hmem | hold
      · exact Or.inl (by simp only [List.map_append, List.mem_append]; exact Or.inl hmem)
      · exact Or.inr (by simpa only [Function.update_of_ne hut] using hold)
  once := h.once
  entered e he := by
    rcases List.mem_append.1 he with he | he
    · exact h.entered e he
    · obtain rfl := List.mem_singleton.1 he
      exact h.held t r ht
  held u r' hu := by
    by_cases hut : u = t
    · subst hut
      simp at hu
    · simp only [Function.update_of_ne hut] at hu
      exact h.held u r' hu
  returned e he := by
    rcases List.mem_append.1 he with he | he
    · exact List.mem_append_left _ (h.returned e he)
    · exact List.mem_append_right _ he

theorem Kept.next {a : Act T} (h : Kept p) (hn : next p a = some p') : Kept p' := by
  cases a with
  | lookup t =>
    simp only [ExclusivePool.next] at hn
    split at hn
    · rename_i hout
      split at hn
      · rename_i r hfind
        obtain rfl := Option.some.inj hn
        exact h.hit hfind
      · rename_i hfind
        obtain rfl := Option.some.inj hn
        exact h.move (by simp [hout]) (Or.inr ⟨rfl, not_mem_of_find hfind⟩)
    · cases hn
  | make t =>
    simp only [ExclusivePool.next] at hn
    split at hn
    · rename_i hmissed
      obtain rfl := Option.some.inj hn
      exact h.make hmissed
    · cases hn
  | fail t =>
    simp only [ExclusivePool.next] at hn
    split at hn
    · rename_i hmissed
      obtain rfl := Option.some.inj hn
      exact h.move (by simp [hmissed]) (Or.inl rfl)
    · cases hn
  | insert t =>
    simp only [ExclusivePool.next] at hn
    split at hn
    · rename_i r hholding
      obtain rfl := Option.some.inj hn
      exact h.insert hholding
    · cases hn

theorem kept_of_reachable (h : machine.Reachable Machine.anyStep p) : Kept p := by
  refine h.invariant (I := Kept) ?_ ?_
  · rintro _ rfl
    exact Kept.start
  · intro p a p' _ hkept _ hn
    exact hkept.next hn

/-! ### What the threads are promised -/

/-- **One resource for each owner.** -/
theorem exclusive (h : machine.Reachable Machine.anyStep p) :
    Exclusive p.entries p.made p.returned := by
  have hkept := kept_of_reachable h
  refine ⟨hkept.nodup, hkept.once, ?_, ?_, ?_⟩
  · intro e he
    exact hkept.entered e (hkept.returned e he)
  · intro e he e' he' howner
    have heq := List.inj_on_of_nodup_map hkept.nodup (hkept.returned e he)
      (hkept.returned e' he') howner
    rw [heq]
  · intro e he
    exact find_of_mem hkept.nodup (hkept.returned e he)

/-- A thread that was given a resource does not look for another one. -/
theorem outside_of_returned {e : Owned T} (h : machine.Reachable Machine.anyStep p)
    (he : e ∈ p.returned) : p.phase e.owner = .outside := by
  by_contra hphase
  have hkept := kept_of_reachable h
  exact hkept.fresh _ hphase (List.mem_map_of_mem (hkept.returned e he))

/-! ### Threads with a program counter -/

section

variable {Q : Type*} (phase : Q → Phase)

/-- A thread whose place determines its phase moves. -/
theorem phase_update (pc : T → Q) (t : T) (q : Q) :
    (fun u => phase (Function.update pc t q u)) =
      Function.update (fun u => phase (pc u)) t (phase q) :=
  Function.comp_update phase pc t q

/-- A move that the pool does not see. -/
theorem phase_update_eq {pc : T → Q} {t : T} {q : Q} (h : phase (pc t) = phase q) :
    (fun u => phase (Function.update pc t q u)) = fun u => phase (pc u) := by
  rw [phase_update, ← h, Function.update_eq_self_iff]

end

end ExclusivePool

end GatewayPoc
