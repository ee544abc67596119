import GatewayPoc.Core.Batches
import GatewayPoc.GwFront.Requests

/-!
# Every call can be answered

A call of the handler never waits for another one: whatever the other threads and the others do, the
next step of its writer can be made, and when the write has ended the session is waiting for the
response.  So the calls that are under way can be finished one after the other, if a write that
nobody interrupts ends.

* `Frontend.reading_of_reachable` : while a call is under way, its session waits for the response.
* `Frontend.runIf_call` : the steps of one write, and the response.
* **`Frontend.runIf_calls`** : all calls are answered, in the order they were started.
* `Frontend.runIf_others` : a run of the others is a run of the whole system.
-/

namespace GatewayPoc

namespace Frontend

open HttpSession (responseTo)

variable {σ ρ ω ε W : Type} {f : Frontend σ ρ ω ε W} {s s' : GwFront σ ρ W} {payload : ρ → Bytes}
  {Fits : ρ ⊕ WriteResult → ℕ → Prop} {init : σ → Prop}

/-! ### The session of a call -/

/-- The session of a call waits for its read to be handled. -/
def Reading (s : GwFront σ ρ W) : Prop :=
  ∀ c ∈ s.calls, ∃ session, s.sessions[c.session]? = some session ∧
    session.outstanding = some .asyncRead

/-- Another session may change. -/
theorem reading_set {sessions : List HttpSession} {j k : ℕ} {session' : HttpSession} (hjk : j ≠ k)
    (h : ∃ session, sessions[j]? = some session ∧ session.outstanding = some .asyncRead) :
    ∃ session, (sessions.set k session')[j]? = some session ∧
      session.outstanding = some .asyncRead := by
  obtain ⟨session, hj, hreading⟩ := h
  exact ⟨session, by rwa [List.getElem?_set_ne hjk.symm], hreading⟩

theorem Reading.step (h : Reading s) (hsessions : (s.calls.map Call.session).Nodup)
    {e : Event ω ε W} (hs : Step f s e s') : Reading s' := by
  cases hs with
  | accept =>
    intro c hc
    obtain ⟨session, hk, hreading⟩ := h c hc
    have hlt := (List.getElem?_eq_some_iff.1 hk).1
    exact ⟨session, by rwa [List.getElem?_append_left hlt], hreading⟩
  | request hk hreading =>
    intro c hc
    rcases List.mem_append.1 hc with hc | hc
    · exact h c hc
    · rw [List.mem_singleton.1 hc]
      exact ⟨_, hk, hreading⟩
  | reject hk hsession | session hk hsession =>
    exact fun c hc => reading_set (fun heq => hsession (heq ▸ List.mem_map_of_mem hc)) (h c hc)
  | @step i x call r store phase hi =>
    intro c hc
    rcases List.mem_or_eq_of_mem_set hc with hc | rfl
    · exact h c hc
    · exact h call (List.mem_of_getElem? hi)
  | @respond i call r session session' hi =>
    intro c hc
    have hperm : s.calls.Perm (call :: s.calls.eraseIdx i) := perm_cons_eraseIdx hi
    have hnodup := (hperm.map Call.session).nodup_iff.1 hsessions
    rw [List.map_cons, List.nodup_cons] at hnodup
    exact reading_set (fun heq => hnodup.1 (heq ▸ List.mem_map_of_mem hc))
      (h c (List.mem_of_mem_eraseIdx hc))
  | other ho => exact h

theorem reading_of_reachable {G : GwFront σ ρ W → Event ω ε W → Prop}
    (hacc : f.Accounts payload Fits) (hinit : ∀ s, init s → f.log s = [])
    (h : (f.machine init).Reachable G s) : Reading s := by
  refine h.invariant ?_ fun _ _ _ hr hi _ hn =>
    hi.step (inv_of_reachable hacc hinit hr).sessions (step_of_next hn)
  rintro s ⟨-, -, hcalls, -⟩
  simp [Reading, hcalls]

/-! ### One call -/

variable {G : GwFront σ ρ W → Event ω ε W → Prop} [∀ s e, Decidable (G s e)]

/-- A call whose write has ended returns, and the response is written. -/
theorem next_respond (hreads : Reading s) (hinv : Inv f payload Fits s) {call : Call ρ W}
    {calls : List (Call ρ W)} {r : WriteResult} (hcalls : s.calls = call :: calls)
    (hphase : call.phase = .inr r) :
    ∃ sessions, f.next s (.respond 0) = some { s with
      sessions := sessions
      calls := calls
      answered := s.answered ++
        [⟨call.session, call.request, UniversalHandler.resultOf r, call.stored⟩] } := by
  have hmem : call ∈ s.calls := hcalls ▸ List.mem_cons_self
  obtain ⟨session, hk, hreading⟩ := hreads call hmem
  obtain ⟨session₁, hk₁, hrequest⟩ := (hinv.calls call hmem).reading
  obtain rfl : session = session₁ := Option.some.inj (hk.symm.trans hk₁)
  obtain ⟨session', hread⟩ : ∃ session', HttpSession.next f.readInto session
      (.read call.wire (UniversalHandler.resultOf r)) = some session' := by
    simp [HttpSession.next, hreading]
  refine ⟨s.sessions.set call.session session', ?_⟩
  simp only [next, hcalls, List.getElem?_cons_zero, hphase, answer, hk, hread, hrequest,
    Option.map_some, List.eraseIdx_cons_zero]

/-- The steps of a write that nobody interrupts. -/
theorem runIf_steps (init : σ → Prop) (hG : ∀ s i x, G s (.step i x)) {fuel : ℕ} {r : ρ}
    {x : ℕ → ω} {store : σ} {result : WriteResult} {call : Call ρ W} {calls : List (Call ρ W)}
    (hcalls : s.calls = call :: calls) (hphase : call.phase = .inl r)
    (hrun : f.writer.run fuel r x s.store = some (store, result)) :
    ∃ es stored, (f.machine init).runIf G s es = some { s with
      store := store
      calls := { call with phase := .inr result, stored := stored } :: calls } := by
  induction fuel generalizing s r x call with
  | zero => cases hrun
  | succ fuel ih =>
    rw [StepWriter.run] at hrun
    cases hstep : f.writer.step r (x 0) s.store with
    | none => simp [hstep] at hrun
    | some p =>
      obtain ⟨store₁, phase⟩ := p
      rw [hstep] at hrun
      let call₁ : Call ρ W := { call with
        phase := phase
        stored := call.stored + ((f.log store₁).length - (f.log s.store).length) }
      have hnext : f.next s (.step 0 (x 0)) =
          some { s with store := store₁, calls := call₁ :: calls } := by
        simp only [next, hcalls, List.getElem?_cons_zero, hphase, hstep, Option.map_some,
          List.set_cons_zero, call₁]
      cases phase with
      | inr result₁ =>
        obtain ⟨rfl, rfl⟩ := Prod.mk.inj (Option.some.inj hrun)
        exact ⟨[.step 0 (x 0)], _, Machine.runIf_one (hG s 0 (x 0)) hnext⟩
      | inl r₁ =>
        obtain ⟨es, stored, hes⟩ := ih (s := { s with store := store₁, calls := call₁ :: calls })
          rfl rfl hrun
        exact ⟨.step 0 (x 0) :: es, stored, Machine.runIf_cons (hG s 0 (x 0)) hnext hes⟩

/-- What is asked of a writer: from every storage with room for a write, which is what `P` says of
it, a write that nobody interrupts can end with `OK`. -/
structure Writes (f : Frontend σ ρ ω ε W) (P : ℕ → σ → Prop) : Prop where
  less : ∀ k store, P (k + 1) store → P k store
  ends : ∀ k r store, P (k + 1) store → ∃ fuel x store' message,
    f.writer.run fuel r x store = some (store', ⟨.ok, message⟩) ∧ P k store'

/-- The answer to a call: if its write had not ended yet, it is 202. -/
structure Answers (c : Call ρ W) (a : Answered) : Prop where
  session : a.session = c.session
  request : a.request = c.request
  accepted : ∀ r, c.phase = .inl r → a.status = .accepted

/-- The first call is finished. -/
theorem runIf_call {P : ℕ → σ → Prop} (hwrites : Writes f P) (hacc : f.Accounts payload Fits)
    (hinit : ∀ s, init s → f.log s = []) (hG : ∀ s e, (∀ o, e ≠ .other o) → G s e)
    (h : (f.machine init).Reachable G s) {call : Call ρ W} {calls : List (Call ρ W)}
    (hcalls : s.calls = call :: calls) {k : ℕ} (hP : P (k + 1) s.store) :
    ∃ es s' a, (f.machine init).runIf G s es = some s' ∧ s'.calls = calls ∧ P k s'.store ∧
      s'.answered = s.answered ++ [a] ∧ Answers call a := by
  cases hphase : call.phase with
  | inr r =>
    obtain ⟨sessions, hrespond⟩ := next_respond (reading_of_reachable hacc hinit h)
      (inv_of_reachable hacc hinit h) hcalls hphase
    exact ⟨_, _, _, Machine.runIf_one (hG s (.respond 0) nofun) hrespond, rfl,
      hwrites.less k _ hP, rfl, rfl, rfl, fun r' hr' => by simp [hphase] at hr'⟩
  | inl r =>
    have htakes := ((inv_of_reachable hacc hinit h).calls call (hcalls ▸ List.mem_cons_self)).takes
    obtain ⟨fuel, x, store, message, hrun, hP'⟩ := hwrites.ends k r s.store hP
    obtain ⟨es, stored, hsteps⟩ := runIf_steps init
      (fun s i x => hG s (.step i x) nofun) hcalls hphase hrun
    have h₁ := Machine.reachable_of_runIf h hsteps
    obtain ⟨sessions, hrespond⟩ := next_respond (reading_of_reachable hacc hinit h₁)
      (inv_of_reachable hacc hinit h₁) rfl rfl
    refine ⟨_, _, _, Machine.runIf_trans hsteps (Machine.runIf_one (hG _ (.respond 0) nofun)
      hrespond), rfl, hP', rfl, rfl, rfl, fun _ _ => ?_⟩
    -- the request was for the handler
    simp [Answered.status, responseTo, HttpSession.answer, htakes.1, UniversalHandler.resultOf]

/-- **All calls are answered**, in the order they were started, if there is room for their writes:
202 if the write had not ended yet. -/
theorem runIf_calls {P : ℕ → σ → Prop} (hwrites : Writes f P) (hacc : f.Accounts payload Fits)
    (hinit : ∀ s, init s → f.log s = []) (hG : ∀ s e, (∀ o, e ≠ .other o) → G s e)
    (h : (f.machine init).Reachable G s) {k : ℕ} (hP : P (s.calls.length + k) s.store) :
    ∃ es s' new, (f.machine init).runIf G s es = some s' ∧ s'.calls = [] ∧ P k s'.store ∧
      s'.answered = s.answered ++ new ∧ List.Forall₂ Answers s.calls new := by
  induction hcalls : s.calls generalizing s with
  | nil =>
    rw [hcalls, List.length_nil, Nat.zero_add] at hP
    exact ⟨[], s, [], rfl, hcalls, hP, (List.append_nil _).symm, .nil⟩
  | cons call calls ih =>
    rw [hcalls, List.length_cons, Nat.add_right_comm] at hP
    obtain ⟨es₁, s₁, a, hrun₁, hcalls₁, hP₁, hanswered₁, ha⟩ :=
      runIf_call hwrites hacc hinit hG h hcalls hP
    obtain ⟨es₂, s₂, new, hrun₂, hcalls₂, hP₂, hanswered₂, hnew⟩ :=
      ih (Machine.reachable_of_runIf h hrun₁) (hcalls₁ ▸ hP₁) hcalls₁
    refine ⟨es₁ ++ es₂, s₂, a :: new, Machine.runIf_trans hrun₁ hrun₂, hcalls₂, hP₂, ?_,
      .cons ha hnew⟩
    rw [hanswered₂, hanswered₁, List.append_assoc, List.singleton_append]

/-! ### The others -/

/-- A run of the others alone, of which only a part of the storage takes part, is a run of the whole
system. -/
theorem runIf_others {B : Type} {M : Machine B ε} {H : B → ε → Prop} [∀ b e, Decidable (H b e)]
    (back : σ → B) (put : σ → B → σ) (own : ε → Prop) (hget : ∀ store b, back (put store b) = b)
    (hback : ∀ store, put store (back store) = store)
    (hput : ∀ store b b', put (put store b) b' = put store b')
    (hG : ∀ s e, H (back s.store) e → G s (.other e))
    (hothers : ∀ store e b, own e → M.next (back store) e = some b →
      f.others store e = some (put store b))
    {es : List ε} {b : B} (hown : ∀ e ∈ es, own e) (h : M.runIf H (back s.store) es = some b) :
    (f.machine init).runIf G s (es.map Event.other) = some { s with store := put s.store b } := by
  induction es generalizing s with
  | nil =>
    obtain rfl : back s.store = b := Option.some.inj h
    rw [hback]
    rfl
  | cons e es ih =>
    simp only [Machine.runIf] at h
    split_ifs at h with hg
    obtain ⟨b₁, hnext, hrest⟩ := Option.bind_eq_some_iff.1 h
    have hstep : f.next s (.other e) = some { s with store := put s.store b₁ } := by
      simp only [next, hothers s.store e b₁ (hown e List.mem_cons_self) hnext, Option.map_some]
    have htail := ih (s := { s with store := put s.store b₁ })
      (fun e he => hown e (List.mem_cons_of_mem _ he)) ((hget s.store b₁).symm ▸ hrest)
    rw [hput] at htail
    exact Machine.runIf_cons (hG s e hg) hstep htail

end Frontend

end GatewayPoc
