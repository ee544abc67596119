import GatewayPoc.Core.Runs
import GatewayPoc.GwFront.Answering

/-!
# Every request is answered in the end

A write tries again a bounded number of times, and never waits for another call.  So a request that
was taken is answered as soon as its thread has made enough steps, whatever the other threads and
the others do to the storage in between, and whatever fails.

* `Frontend.Bounded` : every step of a write that does not end it uses up a try.
* `Frontend.Serves` : the thread of a session makes a step.
* `Frontend.Waits.step` : what one step does to a request that waits for its answer.
* **`Frontend.eventually_answered`** : in every infinite run in which the thread of a session goes
  on while it has a call, the request of the call is the next one the session answers.
-/

namespace GatewayPoc

namespace Frontend

variable {σ ρ ω ε W : Type} {f : Frontend σ ρ ω ε W} {s s' : GwFront σ ρ W} {payload : ρ → Bytes}
  {Fits : ρ ⊕ WriteResult → ℕ → Prop} {init : σ → Prop} {tries : ρ → ℕ} {j : ℕ} {request : Request}
  {before : List Answered} {e : Event ω ε W}

/-- Every step of a write that does not end it uses up a try. -/
def Bounded (f : Frontend σ ρ ω ε W) (tries : ρ → ℕ) : Prop :=
  ∀ r x store store' r', f.writer.step r x store = some (store', .inl r') → tries r' < tries r

/-- The steps a call still has before it returns. -/
def stepsLeft (tries : ρ → ℕ) (c : Call ρ W) : ℕ :=
  match c.phase with
  | .inl r => tries r + 1
  | .inr _ => 0

/-- The call of session `j`. -/
def callsFor (s : GwFront σ ρ W) (j : ℕ) : List (Call ρ W) := s.calls.filter fun c => c.session = j

/-- What session `j` has answered. -/
def answeredBy (s : GwFront σ ρ W) (j : ℕ) : List Answered :=
  s.answered.filter fun a => a.session = j

/-- The thread that handles the request of session `j` makes a step. -/
def Serves (j : ℕ) (s : GwFront σ ρ W) : Event ω ε W → Prop
  | .step i _ | .respond i => ∃ c, s.calls[i]? = some c ∧ c.session = j
  | _ => False

/-- Session `j` has answered `before`, and a call for the request is under way. -/
structure Waits (j : ℕ) (request : Request) (before : List Answered) (s : GwFront σ ρ W) :
    Prop where
  call : ∃ c ∈ s.calls, c.session = j ∧ c.request = request
  answered : answeredBy s j = before

/-- The request is answered next. -/
def Got (j : ℕ) (request : Request) (before : List Answered) (s : GwFront σ ρ W) : Prop :=
  ∃ a, answeredBy s j = before ++ [a] ∧ a.request = request ∧ ∃ error, a.status = statusOf error

/-- The steps the call of session `j` still has. -/
def rank (tries : ρ → ℕ) (j : ℕ) (s : GwFront σ ρ W) : ℕ :=
  ((callsFor s j).map (stepsLeft tries)).sum

/-- A session has one call at a time. -/
theorem callsFor_eq (hinv : Inv f payload Fits s) {i : ℕ} {c : Call ρ W}
    (hi : s.calls[i]? = some c) : callsFor s c.session = [c] :=
  filter_eq_singleton Call.session hinv.sessions hi

/-- A step of a writer, of the session or of another one. -/
theorem Waits.writerStep (h : Waits j request before s) (hinv : Inv f payload Fits s)
    (hbounded : Bounded f tries) {i : ℕ} {x : ω} {call : Call ρ W} {r : ρ} {store : σ}
    {phase : ρ ⊕ WriteResult} {stored : ℕ} (hi : s.calls[i]? = some call)
    (hphase : call.phase = .inl r) (hstep : f.writer.step r x s.store = some (store, phase)) :
    let s' : GwFront σ ρ W := { s with
      store := store, calls := s.calls.set i { call with phase := phase, stored := stored } }
    Waits j request before s' ∧ rank tries j s' ≤ rank tries j s ∧
      (call.session = j → rank tries j s' < rank tries j s) := by
  intro s'
  let call' : Call ρ W := { call with phase := phase, stored := stored }
  have hset : s'.calls[i]? = some call' :=
    List.getElem?_set_self (List.getElem?_eq_some_iff.1 hi).1
  have hwaits : Waits j request before s' := by
    obtain ⟨c, hc, hsession, hrequest⟩ := h.call
    refine ⟨?_, h.answered⟩
    obtain ⟨i', hi'⟩ := List.mem_iff_getElem?.1 hc
    by_cases hii : i = i'
    · subst hii
      obtain rfl : call = c := Option.some.inj (hi.symm.trans hi')
      exact ⟨call', List.mem_of_getElem? hset, hsession, hrequest⟩
    · exact ⟨c, List.mem_of_getElem? ((List.getElem?_set_ne hii).trans hi'), hsession, hrequest⟩
  by_cases hj : call.session = j
  · subst hj
    have hold : callsFor s call.session = [call] := callsFor_eq hinv hi
    have hnew : callsFor s' call.session = [call'] := by
      have hnodup : (s'.calls.map Call.session).Nodup := by
        rw [map_set_same (g := Call.session) (b := call') hi rfl]
        exact hinv.sessions
      exact filter_eq_singleton Call.session hnodup hset
    have hless : stepsLeft tries call' < stepsLeft tries call := by
      simp only [stepsLeft, call', hphase]
      cases phase with
      | inl r' =>
        have := hbounded r x s.store store r' hstep
        simpa using this
      | inr result => exact Nat.succ_pos _
    simp only [rank, hold, hnew, List.map_singleton, List.sum_singleton]
    exact ⟨hwaits, hless.le, fun _ => hless⟩
  · have hsame : callsFor s' j = callsFor s j :=
      filter_set_of_ne Call.session (b := call') hi hj hj
    refine ⟨hwaits, ?_, fun heq => absurd heq hj⟩
    rw [rank, rank, hsame]

/-- A call returns, of the session or of another one. -/
theorem Waits.respond (tries : ρ → ℕ) (h : Waits j request before s)
    (hinv : Inv f payload Fits s) {i : ℕ} {call : Call ρ W} {r : WriteResult}
    {session session' : HttpSession} (hi : s.calls[i]? = some call) (hphase : call.phase = .inr r)
    (hk : s.sessions[call.session]? = some session) :
    let s' : GwFront σ ρ W := { s with
      sessions := s.sessions.set call.session session'
      calls := s.calls.eraseIdx i
      answered := s.answered ++ [⟨call.session, f.readInto session.request call.wire,
        UniversalHandler.resultOf r, call.stored⟩] }
    Got j request before s' ∨ (Waits j request before s' ∧ rank tries j s' ≤ rank tries j s ∧
      call.session ≠ j) := by
  intro s'
  have hcall := hinv.calls call (List.mem_of_getElem? hi)
  obtain ⟨session₁, hk₁, hrequest⟩ := hcall.reading
  obtain rfl : session = session₁ := Option.some.inj (hk.symm.trans hk₁)
  obtain ⟨c, hc, hsession, hcrequest⟩ := h.call
  by_cases hj : call.session = j
  · -- this is the call that the session waits for
    have hone : c ∈ callsFor s call.session := List.mem_filter.2 ⟨hc, by simp [hsession, hj]⟩
    rw [callsFor_eq hinv hi] at hone
    obtain rfl : call = c := (List.mem_singleton.1 hone).symm
    let a : Answered := ⟨call.session, f.readInto session.request call.wire,
      UniversalHandler.resultOf r, call.stored⟩
    have htakes : f.Takes a.request := by
      rw [show a.request = call.request from hrequest]
      exact hcall.takes
    have hsettled : Settled f Fits a := Or.inl ⟨htakes, r, rfl, hphase ▸ hcall.fits⟩
    have hstatus : ∃ error, a.status = statusOf error := by
      obtain ⟨-, r', hstatus, -⟩ | ⟨hno, -⟩ := hsettled.status
      · exact ⟨_, hstatus⟩
      · exact absurd htakes hno
    refine Or.inl ⟨a, ?_, hrequest.trans hcrequest, hstatus⟩
    have hbefore := h.answered
    simp only [answeredBy] at hbefore
    simp [answeredBy, s', a, List.filter_append, hbefore, hj]
  · have hsame : callsFor s' j = callsFor s j := filter_eraseIdx_of_ne Call.session hi hj
    refine Or.inr ⟨⟨⟨c, ?_, hsession, hcrequest⟩, ?_⟩, ?_, hj⟩
    · have hmem : c ∈ callsFor s' j := by
        rw [hsame]
        exact List.mem_filter.2 ⟨hc, by simp [hsession]⟩
      exact List.mem_of_mem_filter hmem
    · have hbefore := h.answered
      simp only [answeredBy] at hbefore
      simp [answeredBy, s', List.filter_append, hbefore, hj]
    · rw [rank, rank, hsame]

/-- **One step** answers the request that waits, or brings it nearer to its answer if its thread
makes it. -/
theorem Waits.step (h : Waits j request before s) (hinv : Inv f payload Fits s)
    (hbounded : Bounded f tries) (hs : Step f s e s') : Got j request before s' ∨
      (Waits j request before s' ∧ rank tries j s' ≤ rank tries j s ∧
        (Serves j s e → rank tries j s' < rank tries j s)) := by
  obtain ⟨c, hc, hsession, hrequest⟩ := h.call
  cases hs with
  | accept | session | other =>
    exact Or.inr ⟨⟨⟨c, hc, hsession, hrequest⟩, h.answered⟩, le_rfl, fun h => absurd h id⟩
  | @request k threadId wire session hk hreading hfree hthread htakes =>
    have hne : k ≠ j := by
      rintro rfl
      exact hfree (hsession ▸ List.mem_map_of_mem hc)
    refine Or.inr ⟨⟨⟨c, List.mem_append_left _ hc, hsession, hrequest⟩, h.answered⟩, ?_,
      fun h => absurd h id⟩
    simp [rank, callsFor, List.filter_append, hne]
  | @reject k threadId wire session session' result hk hfree hno hbad hresponds =>
    have hne : k ≠ j := by
      rintro rfl
      exact hfree (hsession ▸ List.mem_map_of_mem hc)
    refine Or.inr ⟨⟨⟨c, hc, hsession, hrequest⟩, ?_⟩, le_rfl, fun h => absurd h id⟩
    have hbefore := h.answered
    simp only [answeredBy] at hbefore
    simp [answeredBy, List.filter_append, hbefore, hne]
  | @step i x call r store phase hi hphase hstep =>
    obtain ⟨hwaits, hle, hlt⟩ := h.writerStep hinv hbounded hi hphase hstep
    refine Or.inr ⟨hwaits, hle, fun ⟨call', hi', hj⟩ => hlt ?_⟩
    obtain rfl : call = call' := Option.some.inj (hi.symm.trans hi')
    exact hj
  | @respond i call r session session' hi hphase hk hresponds =>
    refine (h.respond tries hinv hi hphase hk).imp_right fun ⟨hwaits, hle, hne⟩ => ?_
    refine ⟨hwaits, hle, fun ⟨call', hi', hj⟩ => absurd ?_ hne⟩
    obtain rfl : call = call' := Option.some.inj (hi.symm.trans hi')
    exact hj

/-- **Every request is answered in the end.**  In every infinite run in which the thread that
handles a request of session `j` goes on again and again, whatever the other threads and the others
do in between and whatever fails: the request of a call that is under way is the next one the
session answers, with the status of how its write has ended. -/
theorem eventually_answered (hacc : f.Accounts payload Fits) (hinit : ∀ s, init s → f.log s = [])
    (hbounded : Bounded f tries) {r : (f.machine init).Run} {n : ℕ}
    (hserved : ∀ k, (∃ c ∈ (r.state k).calls, c.session = j) →
      ∃ k' ≥ k, ∃ e, r.label k' = some e ∧ Serves j (r.state k') e)
    {c : Call ρ W} (hc : c ∈ (r.state n).calls) (hj : c.session = j) :
    ∃ k ≥ n, ∃ a, answeredBy (r.state k) j = answeredBy (r.state n) j ++ [a] ∧
      a.request = c.request ∧ ∃ error, a.status = statusOf error := by
  refine Machine.Run.eventually_of_rank (Waits j c.request (answeredBy (r.state n) j))
    (Got j c.request (answeredBy (r.state n) j)) (rank tries j) (A := Serves j)
    (fun k h => hserved k ?_) (fun k _ e he h _ hgot => ?_) ⟨⟨c, hc, hj, rfl⟩, rfl⟩
  · obtain ⟨c', hc', hsession, -⟩ := h.call
    exact ⟨c', hc', hsession⟩
  · have hinv := inv_of_reachable hacc hinit (r.reachable k)
    exact (h.step hinv hbounded (step_of_next (r.next he))).resolve_left hgot

end Frontend

end GatewayPoc
