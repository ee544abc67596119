import GatewayPoc.Core.Lists
import GatewayPoc.Core.Machine
import GatewayPoc.GwFront.HttpSession
import Mathlib.Data.List.Perm.Basic

/-!
# The front end as a state machine

The front end serves many sessions on several threads.  A thread that has read a request calls the
handler, checks the payload and writes it; the writer takes several steps, because other threads,
and the back end, use the storage in between.  Then the thread gives the response to `async_write`.

The machine is over any checker and any writer, as `UniversalHandler` is a template over both, and
over any storage, on which others act too.

* `StepWriter` : a writer whose calls take several steps.  `StepWriter.run` : a call nobody
  interrupts.
* `Frontend.machine` : sessions, calls that are under way, and the log of what was answered.
* `Frontend.Accounts` : what is asked of a writer: what a call has added to the storage when it ends
  with this or that result.
* `Frontend.Inv` : the storage holds what the calls added, and every session has answered its
  requests in order (`inv_of_reachable`).
* `Frontend.Inv.accepted_le_stored` : what was answered with 202 is stored, and
  `Frontend.Inv.stored_taken` : what is stored was accepted by the checker.
-/

namespace GatewayPoc

open UniversalHandler (Result)

/-- A writer whose calls take several steps on a state `σ`: `ρ` is what a call remembers between two
of its steps, and `ω` is how a step ends. -/
structure StepWriter (σ ρ ω : Type) where
  start : (threadId : ℕ) → (data : Bytes) → ρ
  /-- `none` if the step cannot end like this. -/
  step : ρ → ω → σ → Option (σ × (ρ ⊕ WriteResult))

namespace StepWriter

variable {σ ρ ω : Type}

/-- A call with at most `fuel` more steps that nobody interrupts. -/
def run (w : StepWriter σ ρ ω) : (fuel : ℕ) → ρ → (ℕ → ω) → σ → Option (σ × WriteResult)
  | 0, _, _, _ => none
  | fuel + 1, r, x, s =>
    match w.step r (x 0) s with
    | none => none
    | some (s, .inr result) => some (s, result)
    | some (s, .inl r) => w.run fuel r (fun i => x (i + 1)) s

end StepWriter

/-- A call of the handler that is under way, by a thread, for a session. -/
structure Call (ρ W : Type) where
  session : ℕ
  threadId : ℕ
  wire : W
  request : Request
  /-- Where the writer is, or what it has returned. -/
  phase : ρ ⊕ WriteResult
  /-- The copies of the payload the call has added to the storage.  The code does not count. -/
  stored : ℕ

/-- A request that was answered. -/
structure Answered where
  session : ℕ
  request : Request
  /-- What the handler returned, if it was called. -/
  result : Result
  stored : ℕ

/-- The status of the response. -/
def Answered.status (a : Answered) : Status := (HttpSession.responseTo a.request a.result).status

/-- The front end and what it shares with the outside. -/
structure GwFront (σ ρ W : Type) where
  store : σ
  sessions : List HttpSession
  calls : List (Call ρ W)
  answered : List Answered

/-- What a front end is made of, and what it meets. -/
structure Frontend (σ ρ ω ε W : Type) where
  check : Bytes → CheckResult
  /-- The parser of `boost::beast`. -/
  readInto : Request → W → Request
  writer : StepWriter σ ρ ω
  /-- What others do to the storage. -/
  others : σ → ε → Option σ
  /-- Every payload that was ever stored, in order. -/
  log : σ → List Bytes

namespace Frontend

open HttpSession (ForHandler responseTo)

variable {σ ρ ω ε W : Type}

/-- One step of one party. -/
inductive Event (ω ε W : Type) where
  /-- A connection is accepted. -/
  | accept
  /-- The thread `threadId` has read a request of session `k` and handles it, up to the first step
  of the writer. -/
  | request (k threadId : ℕ) (wire : W)
  /-- The `i`-th call makes a step of the writer. -/
  | step (i : ℕ) (x : ω)
  /-- The `i`-th call, whose write has ended, returns, and the response is written. -/
  | respond (i : ℕ)
  /-- Another completion of session `k`. -/
  | session (k : ℕ) (e : HttpSession.Event W)
  | other (e : ε)

/-- The completion brings a request. -/
def isRead : HttpSession.Event W → Bool
  | .read _ _ => true
  | _ => false

variable (f : Frontend σ ρ ω ε W)

/-- Session `k` has read a request, and the handler has returned `result`, if it was called. -/
def answer (s : GwFront σ ρ W) (k : ℕ) (wire : W) (result : Result) (stored : ℕ) :
    Option (GwFront σ ρ W) :=
  match s.sessions[k]? with
  | some session =>
    (HttpSession.next f.readInto session (.read wire result)).map fun session' =>
      { s with
        sessions := s.sessions.set k session'
        answered := s.answered ++ [⟨k, f.readInto session.request wire, result, stored⟩] }
  | none => none

/-- The handler is called for the request, and takes the payload. -/
def Takes (request : Request) : Prop :=
  ForHandler request ∧ (f.check request.body).ok = true

instance (request : Request) : Decidable (f.Takes request) := inferInstanceAs (Decidable (_ ∧ _))

/-- The state an event leads to. -/
def next (s : GwFront σ ρ W) : Event ω ε W → Option (GwFront σ ρ W)
  | .accept => some { s with sessions := s.sessions ++ [HttpSession.start] }
  | .request k threadId wire =>
    match s.sessions[k]? with
    | some session =>
      -- a thread is in one call at a time, and so is a session
      if session.outstanding = some .asyncRead ∧ k ∉ s.calls.map Call.session ∧
          threadId ∉ s.calls.map Call.threadId then
        let request := f.readInto session.request wire
        if f.Takes request then
          some { s with calls := s.calls ++
            [⟨k, threadId, wire, request, .inl (f.writer.start threadId request.body), 0⟩] }
        -- the payload is rejected, or the handler is not called and has no result
        else f.answer s k wire ⟨.badData, (f.check request.body).message⟩ 0
      else none
    | none => none
  | .step i x =>
    match s.calls[i]? with
    | some call =>
      match call.phase with
      | .inl r =>
        (f.writer.step r x s.store).map fun p =>
          { s with
            store := p.1
            calls := s.calls.set i { call with
              phase := p.2
              stored := call.stored + ((f.log p.1).length - (f.log s.store).length) } }
      | .inr _ => none
    | none => none
  | .respond i =>
    match s.calls[i]? with
    | some call =>
      match call.phase with
      | .inr r =>
        f.answer { s with calls := s.calls.eraseIdx i } call.session call.wire
          (UniversalHandler.resultOf r) call.stored
      | .inl _ => none
    | none => none
  | .session k e =>
    match s.sessions[k]? with
    | some session =>
      if isRead e = true ∨ k ∈ s.calls.map Call.session then none
      else (HttpSession.next f.readInto session e).map fun session' =>
        { s with sessions := s.sessions.set k session' }
    | none => none
  | .other e => (f.others s.store e).map fun store => { s with store := store }

/-- The front end as a state machine, from a storage with the property `init`. -/
def machine (init : σ → Prop) : Machine (GwFront σ ρ W) (Event ω ε W) where
  init s := init s.store ∧ s.sessions = [] ∧ s.calls = [] ∧ s.answered = []
  next := f.next

/-! ### What an event can do -/

variable {f} {s s' : GwFront σ ρ W}

/-- A session that has answered a request. -/
def Responds (session session' : HttpSession) (request : Request) (result : Result) : Prop :=
  session'.responses = session.responses ++ [responseTo request result]

/-- The steps, event by event. -/
inductive Step (f : Frontend σ ρ ω ε W) (s : GwFront σ ρ W) :
    Event ω ε W → GwFront σ ρ W → Prop
  | accept : Step f s .accept { s with sessions := s.sessions ++ [HttpSession.start] }
  | request {k threadId : ℕ} {wire : W} {session : HttpSession}
      (hk : s.sessions[k]? = some session) (hreading : session.outstanding = some .asyncRead)
      (hsession : k ∉ s.calls.map Call.session) (hthread : threadId ∉ s.calls.map Call.threadId)
      (htakes : f.Takes (f.readInto session.request wire)) :
      Step f s (.request k threadId wire) { s with calls := s.calls ++
        [⟨k, threadId, wire, f.readInto session.request wire,
          .inl (f.writer.start threadId (f.readInto session.request wire).body), 0⟩] }
  | reject {k threadId : ℕ} {wire : W} {session session' : HttpSession} {result : Result}
      (hk : s.sessions[k]? = some session) (hsession : k ∉ s.calls.map Call.session)
      (hno : ¬ f.Takes (f.readInto session.request wire)) (hbad : result.error = .badData)
      (hresponds : Responds session session' (f.readInto session.request wire) result) :
      Step f s (.request k threadId wire) { s with
        sessions := s.sessions.set k session'
        answered := s.answered ++ [⟨k, f.readInto session.request wire, result, 0⟩] }
  | step {i : ℕ} {x : ω} {call : Call ρ W} {r : ρ} {store : σ} {phase : ρ ⊕ WriteResult}
      (hi : s.calls[i]? = some call) (hphase : call.phase = .inl r)
      (hstep : f.writer.step r x s.store = some (store, phase)) :
      Step f s (.step i x) { s with
        store := store
        calls := s.calls.set i { call with
          phase := phase
          stored := call.stored + ((f.log store).length - (f.log s.store).length) } }
  | respond {i : ℕ} {call : Call ρ W} {r : WriteResult} {session session' : HttpSession}
      (hi : s.calls[i]? = some call) (hphase : call.phase = .inr r)
      (hk : s.sessions[call.session]? = some session)
      (hresponds : Responds session session' (f.readInto session.request call.wire)
        (UniversalHandler.resultOf r)) :
      Step f s (.respond i) { s with
        sessions := s.sessions.set call.session session'
        calls := s.calls.eraseIdx i
        answered := s.answered ++ [⟨call.session, f.readInto session.request call.wire,
          UniversalHandler.resultOf r, call.stored⟩] }
  | session {k : ℕ} {e : HttpSession.Event W} {session session' : HttpSession}
      (hk : s.sessions[k]? = some session) (hsession : k ∉ s.calls.map Call.session)
      (hresponses : session'.responses = session.responses) :
      Step f s (.session k e) { s with sessions := s.sessions.set k session' }
  | other {e : ε} {store : σ} (ho : f.others s.store e = some store) :
      Step f s (.other e) { s with store := store }

/-- The session reads the request, and the response is that to the request. -/
theorem answer_eq_some {k : ℕ} {wire : W} {result : Result} {stored : ℕ}
    (h : f.answer s k wire result stored = some s') :
    ∃ session session', s.sessions[k]? = some session ∧
      Responds session session' (f.readInto session.request wire) result ∧
      s' = { s with
        sessions := s.sessions.set k session'
        answered := s.answered ++ [⟨k, f.readInto session.request wire, result, stored⟩] } := by
  unfold answer at h
  split at h
  · rename_i session hk
    obtain ⟨session', hn, rfl⟩ := Option.map_eq_some_iff.1 h
    obtain ⟨-, -, hresponse, -, hresponses, -⟩ := HttpSession.next_read hn
    exact ⟨session, session', hk, by rw [Responds, hresponses, hresponse], rfl⟩
  · cases h

/-- A completion that brings no request answers none. -/
theorem responses_of_not_read {session session' : HttpSession} {e : HttpSession.Event W}
    (he : ¬ isRead e = true) (hn : HttpSession.next f.readInto session e = some session') :
    session'.responses = session.responses := by
  cases e with
  | read wire result => exact absurd rfl he
  | readFailed ec =>
    obtain ⟨-, rfl⟩ := HttpSession.next_readFailed hn
    rfl
  | written =>
    obtain ⟨-, rfl⟩ := HttpSession.next_written hn
    rfl
  | writeFailed message =>
    obtain ⟨-, rfl⟩ := HttpSession.next_writeFailed hn
    rfl

theorem step_of_next {e : Event ω ε W} (h : f.next s e = some s') : Step f s e s' := by
  cases e with
  | accept =>
    obtain rfl := Option.some.inj h
    exact .accept
  | request k threadId wire =>
    simp only [next] at h
    split at h
    · rename_i session hk
      split_ifs at h with hfree htakes
      · obtain rfl := Option.some.inj h
        exact .request hk hfree.1 hfree.2.1 hfree.2.2 htakes
      · obtain ⟨session₁, session', hk', hresponds, rfl⟩ := answer_eq_some h
        obtain rfl : session = session₁ := Option.some.inj (hk.symm.trans hk')
        exact .reject hk hfree.2.1 htakes rfl hresponds
    · cases h
  | step i x =>
    simp only [next] at h
    split at h
    · rename_i call hi
      split at h
      · rename_i r hphase
        obtain ⟨⟨store, phase⟩, hstep, rfl⟩ := Option.map_eq_some_iff.1 h
        exact .step hi hphase hstep
      · cases h
    · cases h
  | respond i =>
    simp only [next] at h
    split at h
    · rename_i call hi
      split at h
      · rename_i r hphase
        obtain ⟨session, session', hk, hresponds, rfl⟩ := answer_eq_some h
        exact .respond hi hphase hk hresponds
      · cases h
    · cases h
  | session k e =>
    simp only [next] at h
    split at h
    · rename_i session hk
      split_ifs at h with hfree
      obtain ⟨session', hn, rfl⟩ := Option.map_eq_some_iff.1 h
      rw [not_or] at hfree
      exact .session hk hfree.2 (responses_of_not_read hfree.1 hn)
    · cases h
  | other e =>
    obtain ⟨store, ho, rfl⟩ := Option.map_eq_some_iff.1 h
    exact .other ho

/-! ### What the calls have stored -/

/-- What is asked of a writer and its storage: a step adds copies of the payload of its call to the
storage, others add nothing, and the number of copies a call has added fits where it is, or what it
has returned. -/
structure Accounts (f : Frontend σ ρ ω ε W) (payload : ρ → Bytes)
    (Fits : ρ ⊕ WriteResult → ℕ → Prop) : Prop where
  start : ∀ threadId data, payload (f.writer.start threadId data) = data ∧
    Fits (.inl (f.writer.start threadId data)) 0
  step : ∀ r x s s' phase k, f.writer.step r x s = some (s', phase) → Fits (.inl r) k →
    ∃ n, f.log s' = f.log s ++ List.replicate n (payload r) ∧ Fits phase (k + n) ∧
      ∀ r', phase = .inl r' → payload r' = payload r
  others : ∀ s e s', f.others s e = some s' → f.log s' = f.log s

/-- The copies a call has stored. -/
def copies (c : Call ρ W) : List Bytes := List.replicate c.stored c.request.body

/-- The copies the call of an answered request has stored. -/
def copiesOf (a : Answered) : List Bytes := List.replicate a.stored a.request.body

/-- A call that is under way. -/
structure UnderWay (f : Frontend σ ρ ω ε W) (payload : ρ → Bytes)
    (Fits : ρ ⊕ WriteResult → ℕ → Prop) (sessions : List HttpSession) (c : Call ρ W) : Prop where
  fits : Fits c.phase c.stored
  takes : f.Takes c.request
  payload : ∀ r, c.phase = .inl r → payload r = c.request.body
  reading : ∃ session, sessions[c.session]? = some session ∧
    f.readInto session.request c.wire = c.request

/-- An answered request was taken, and its call stored what fits its result, or it was not. -/
def Settled (f : Frontend σ ρ ω ε W) (Fits : ρ ⊕ WriteResult → ℕ → Prop) (a : Answered) : Prop :=
  (f.Takes a.request ∧ ∃ r, a.result = UniversalHandler.resultOf r ∧ Fits (.inr r) a.stored) ∨
    (¬ f.Takes a.request ∧ a.result.error = .badData ∧ a.stored = 0)

/-- The responses to what session `k` has answered. -/
def responsesOf (answered : List Answered) (k : ℕ) : List Response :=
  (answered.filter fun a => a.session = k).map fun a => responseTo a.request a.result

/-- The storage holds what the calls have added, and the sessions have answered their requests in
order. -/
structure Inv (f : Frontend σ ρ ω ε W) (payload : ρ → Bytes) (Fits : ρ ⊕ WriteResult → ℕ → Prop)
    (s : GwFront σ ρ W) : Prop where
  stored : (f.log s.store).Perm (s.answered.flatMap copiesOf ++ s.calls.flatMap copies)
  calls : ∀ c ∈ s.calls, UnderWay f payload Fits s.sessions c
  sessions : (s.calls.map Call.session).Nodup
  threads : (s.calls.map Call.threadId).Nodup
  answered : ∀ a ∈ s.answered, Settled f Fits a
  responses : ∀ k session, s.sessions[k]? = some session →
    session.responses = responsesOf s.answered k
  known : ∀ a ∈ s.answered, a.session < s.sessions.length

variable {payload : ρ → Bytes} {Fits : ρ ⊕ WriteResult → ℕ → Prop}

/-- A session that no call is for may change. -/
theorem UnderWay.set {sessions : List HttpSession} {c : Call ρ W} {k : ℕ} {session' : HttpSession}
    (h : UnderWay f payload Fits sessions c) (hk : c.session ≠ k) :
    UnderWay f payload Fits (sessions.set k session') c := by
  obtain ⟨session, hsession, hrequest⟩ := h.reading
  exact ⟨h.fits, h.takes, h.payload, session, by rwa [List.getElem?_set_ne hk.symm], hrequest⟩

/-- The response of one more answer, in its session. -/
theorem responses_answer {sessions : List HttpSession} {answered : List Answered} {k : ℕ}
    {session session' : HttpSession} {request : Request} {result : Result} {stored : ℕ}
    (h : ∀ j session, sessions[j]? = some session → session.responses = responsesOf answered j)
    (hk : sessions[k]? = some session) (hresponds : Responds session session' request result)
    {j : ℕ} {session₁ : HttpSession} (hj : (sessions.set k session')[j]? = some session₁) :
    session₁.responses = responsesOf (answered ++ [⟨k, request, result, stored⟩]) j := by
  by_cases hjk : k = j
  · subst hjk
    rw [List.getElem?_set_self (List.getElem?_eq_some_iff.1 hk).1] at hj
    obtain rfl := Option.some.inj hj
    rw [hresponds, h k session hk]
    simp [responsesOf]
  · rw [List.getElem?_set_ne hjk] at hj
    rw [h j session₁ hj]
    simp [responsesOf, hjk]

/-- A request that was not taken is answered, and nothing is stored. -/
theorem Inv.reject (h : Inv f payload Fits s) {k : ℕ} {request : Request}
    {session session' : HttpSession} {result : Result} (hk : s.sessions[k]? = some session)
    (hsession : k ∉ s.calls.map Call.session) (hno : ¬ f.Takes request)
    (hbad : result.error = .badData) (hresponds : Responds session session' request result) :
    Inv f payload Fits { s with
      sessions := s.sessions.set k session'
      answered := s.answered ++ [⟨k, request, result, 0⟩] } where
  stored := by simpa [copiesOf] using h.stored
  calls c hc := (h.calls c hc).set fun heq => hsession (heq ▸ List.mem_map_of_mem hc)
  sessions := h.sessions
  threads := h.threads
  answered a ha := by
    rcases List.mem_append.1 ha with ha | ha
    · exact h.answered a ha
    · rw [List.mem_singleton.1 ha]
      exact Or.inr ⟨hno, hbad, rfl⟩
  responses j session₁ hj := responses_answer h.responses hk hresponds hj
  known a ha := by
    rw [List.length_set]
    rcases List.mem_append.1 ha with ha | ha
    · exact h.known a ha
    · rw [List.mem_singleton.1 ha]
      exact (List.getElem?_eq_some_iff.1 hk).1

/-- A step of a call stores copies of its payload. -/
theorem Inv.writerStep (hacc : f.Accounts payload Fits) (h : Inv f payload Fits s) {i : ℕ} {x : ω}
    {call : Call ρ W} {r : ρ} {store : σ} {phase : ρ ⊕ WriteResult}
    (hi : s.calls[i]? = some call) (hphase : call.phase = .inl r)
    (hstep : f.writer.step r x s.store = some (store, phase)) :
    Inv f payload Fits { s with
      store := store
      calls := s.calls.set i { call with
        phase := phase
        stored := call.stored + ((f.log store).length - (f.log s.store).length) } } := by
  have hcall := h.calls call (List.mem_of_getElem? hi)
  obtain ⟨n, hlog, hfits, hpayload⟩ := hacc.step r x s.store store phase call.stored hstep
    (hphase ▸ hcall.fits)
  rw [hcall.payload r hphase] at hlog hpayload
  have hn : (f.log store).length - (f.log s.store).length = n := by simp [hlog]
  rw [hn]
  refine ⟨?_, fun c hc => ?_, ?_, ?_, h.answered, h.responses, h.known⟩
  · have hset : ((s.calls.set i { call with phase := phase, stored := call.stored + n }).flatMap
        copies).Perm (s.calls.flatMap copies ++ List.replicate n call.request.body) :=
      flatMap_set_perm (List.replicate_add ..) hi
    rw [hlog]
    refine (h.stored.append_right _).trans ?_
    rw [List.append_assoc]
    exact hset.symm.append_left _
  · rcases List.mem_or_eq_of_mem_set hc with hc | rfl
    · exact h.calls c hc
    · exact ⟨hfits, hcall.takes, hpayload, hcall.reading⟩
  · have hsame := map_set_same (g := Call.session) hi
      (b := { call with phase := phase, stored := call.stored + n }) rfl
    exact hsame ▸ h.sessions
  · have hsame := map_set_same (g := Call.threadId) hi
      (b := { call with phase := phase, stored := call.stored + n }) rfl
    exact hsame ▸ h.threads

/-- A call that returns is answered, and what it has stored is that of an answered request. -/
theorem Inv.respond (h : Inv f payload Fits s) {i : ℕ} {call : Call ρ W} {r : WriteResult}
    {session session' : HttpSession} (hi : s.calls[i]? = some call) (hphase : call.phase = .inr r)
    (hk : s.sessions[call.session]? = some session)
    (hresponds : Responds session session' (f.readInto session.request call.wire)
      (UniversalHandler.resultOf r)) :
    Inv f payload Fits { s with
      sessions := s.sessions.set call.session session'
      calls := s.calls.eraseIdx i
      answered := s.answered ++ [⟨call.session, f.readInto session.request call.wire,
        UniversalHandler.resultOf r, call.stored⟩] } := by
  have hperm : s.calls.Perm (call :: s.calls.eraseIdx i) := perm_cons_eraseIdx hi
  have hcall := h.calls call (List.mem_of_getElem? hi)
  obtain ⟨session₁, hk₁, hrequest⟩ := hcall.reading
  obtain rfl : session = session₁ := Option.some.inj (hk.symm.trans hk₁)
  rw [hrequest] at hresponds ⊢
  refine ⟨?_, fun c hc => ?_, ?_, ?_, fun a ha => ?_, fun j session₁ hj =>
    responses_answer h.responses hk hresponds hj, fun a ha => ?_⟩
  · refine h.stored.trans ?_
    have hsplit := hperm.flatMap_right copies
    rw [List.flatMap_cons] at hsplit
    simp only [List.flatMap_append, List.flatMap_singleton, List.append_assoc]
    exact hsplit.append_left _
  · have hnodup := (hperm.map Call.session).nodup_iff.1 h.sessions
    rw [List.map_cons, List.nodup_cons] at hnodup
    exact (h.calls c (List.mem_of_mem_eraseIdx hc)).set fun heq =>
      hnodup.1 (heq ▸ List.mem_map_of_mem hc)
  · exact h.sessions.sublist ((List.eraseIdx_sublist _ _).map _)
  · exact h.threads.sublist ((List.eraseIdx_sublist _ _).map _)
  · rcases List.mem_append.1 ha with ha | ha
    · exact h.answered a ha
    · rw [List.mem_singleton.1 ha]
      exact Or.inl ⟨hcall.takes, r, rfl, hphase ▸ hcall.fits⟩
  · rw [List.length_set]
    rcases List.mem_append.1 ha with ha | ha
    · exact h.known a ha
    · rw [List.mem_singleton.1 ha]
      exact (List.getElem?_eq_some_iff.1 hk).1

theorem Inv.step (hacc : f.Accounts payload Fits) (h : Inv f payload Fits s) {e : Event ω ε W}
    (hs : Step f s e s') : Inv f payload Fits s' := by
  cases hs with
  | accept =>
    refine ⟨h.stored, fun c hc => ?_, h.sessions, h.threads, h.answered, fun k session hk => ?_,
      fun a ha => ?_⟩
    · obtain ⟨hfits, htakes, hpayload, session, hk, hrequest⟩ := h.calls c hc
      have hlt := (List.getElem?_eq_some_iff.1 hk).1
      exact ⟨hfits, htakes, hpayload, session, by rwa [List.getElem?_append_left hlt], hrequest⟩
    · rcases Nat.lt_or_ge k s.sessions.length with hlt | hge
      · rw [List.getElem?_append_left hlt] at hk
        exact h.responses k session hk
      · -- the new session has answered nothing
        rw [List.getElem?_append_right hge] at hk
        obtain rfl := List.mem_singleton.1 (List.mem_of_getElem? hk)
        have hnone : (s.answered.filter fun a => a.session = k) = [] := by
          refine List.filter_eq_nil_iff.2 fun a ha => ?_
          have := h.known a ha
          simp only [decide_eq_true_eq]
          omega
        rw [responsesOf, hnone]
        rfl
    · have := h.known a ha
      simp only [List.length_append, List.length_singleton]
      omega
  | @request k threadId wire session hk hreading hsession hthread htakes =>
    obtain ⟨hpayload, hfits⟩ := hacc.start threadId (f.readInto session.request wire).body
    refine ⟨?_, fun c hc => ?_, ?_, ?_, h.answered, h.responses, h.known⟩
    · simpa [copies] using h.stored
    · rcases List.mem_append.1 hc with hc | hc
      · exact h.calls c hc
      · rw [List.mem_singleton.1 hc]
        refine ⟨hfits, htakes, fun r hr => ?_, session, hk, rfl⟩
        rw [← Sum.inl.inj hr]
        exact hpayload
    · rw [List.map_append, List.map_singleton]
      refine List.nodup_append.2 ⟨h.sessions, List.pairwise_singleton _ _, fun a ha b hb heq => ?_⟩
      rw [heq, List.mem_singleton.1 hb] at ha
      exact hsession ha
    · rw [List.map_append, List.map_singleton]
      refine List.nodup_append.2 ⟨h.threads, List.pairwise_singleton _ _, fun a ha b hb heq => ?_⟩
      rw [heq, List.mem_singleton.1 hb] at ha
      exact hthread ha
  | reject hk hsession hno hbad hresponds => exact h.reject hk hsession hno hbad hresponds
  | step hi hphase hstep => exact h.writerStep hacc hi hphase hstep
  | respond hi hphase hk hresponds => exact h.respond hi hphase hk hresponds
  | @session k e session session' hk hsession hresponses =>
    refine ⟨h.stored, fun c hc => (h.calls c hc).set fun heq =>
      hsession (heq ▸ List.mem_map_of_mem hc), h.sessions, h.threads, h.answered,
      fun j session₁ hj => ?_, fun a ha => by rw [List.length_set]; exact h.known a ha⟩
    by_cases hjk : k = j
    · subst hjk
      rw [List.getElem?_set_self (List.getElem?_eq_some_iff.1 hk).1] at hj
      obtain rfl := Option.some.inj hj
      rw [hresponses, h.responses k session hk]
    · rw [List.getElem?_set_ne hjk] at hj
      exact h.responses j session₁ hj
  | other ho =>
    exact ⟨by rw [hacc.others _ _ _ ho]; exact h.stored, h.calls, h.sessions, h.threads, h.answered,
      h.responses, h.known⟩

variable {init : σ → Prop} {G : GwFront σ ρ W → Event ω ε W → Prop}

/-- **The books balance** in every reachable state: the storage holds what the calls have added, and
every session has answered its requests in order. -/
theorem inv_of_reachable (hacc : f.Accounts payload Fits) (hinit : ∀ s, init s → f.log s = [])
    (h : (f.machine init).Reachable G s) : Inv f payload Fits s := by
  refine h.invariant ?_ fun _ _ _ _ hi _ hn => hi.step hacc (step_of_next hn)
  rintro s ⟨hstore, hsessions, hcalls, hanswered⟩
  refine ⟨?_, ?_, ?_, ?_, ?_, ?_, ?_⟩
  · simp [hinit _ hstore, hcalls, hanswered]
  all_goals simp [hsessions, hcalls, hanswered]

/-- When no call is under way, what is stored is what the answered requests have stored. -/
theorem Inv.stored_answered (h : Inv f payload Fits s) (hcalls : s.calls = []) :
    (f.log s.store).Perm (s.answered.flatMap copiesOf) := by
  have hstored := h.stored
  rwa [hcalls, List.flatMap_nil, List.append_nil] at hstored

/-! ### What an answer says about the storage -/

/-- The status of a request whose write ended like this. -/
def statusOf : WriteError → Status
  | .ok => .accepted
  | .storageUnavailable => .serviceUnavailable
  | .generic => .internalServerError

/-- The status of an answer says how the write ended, or that nothing was written. -/
theorem Settled.status {a : Answered} (h : Settled f Fits a) :
    (f.Takes a.request ∧ ∃ r, a.status = statusOf r.error ∧ Fits (.inr r) a.stored) ∨
      (¬ f.Takes a.request ∧ a.stored = 0 ∧
        (a.status = .badRequest ∨ a.status = .methodNotAllowed)) := by
  obtain ⟨htakes, r, hresult, hfits⟩ | ⟨hno, hbad, hstored⟩ := h
  · refine Or.inl ⟨htakes, r, ?_, hfits⟩
    have herror : a.result.error = .ofWrite r.error := by
      rw [hresult, UniversalHandler.resultOf_error]
    simp only [Answered.status, responseTo, HttpSession.answer, if_pos htakes.1, herror]
    cases r.error <;> rfl
  · refine Or.inr ⟨hno, hstored, ?_⟩
    simp only [Answered.status, responseTo, HttpSession.answer, hbad]
    split_ifs <;> simp

/-- The bodies of the requests that were answered with 202. -/
def accepted (answered : List Answered) : List Bytes :=
  (answered.filter fun a => a.status = .accepted).map fun a => a.request.body

/-- What was answered with 202 is among what the calls have stored. -/
theorem accepted_sublist {answered : List Answered} (h : ∀ a ∈ answered, Settled f Fits a)
    (hok : ∀ r n, r.error = .ok → Fits (.inr r) n → 1 ≤ n) :
    (accepted answered).Sublist (answered.flatMap copiesOf) := by
  induction answered with
  | nil => exact .slnil
  | cons a answered ih =>
    have hrest := ih fun b hb => h b (List.mem_cons_of_mem a hb)
    rw [List.flatMap_cons]
    by_cases ha : a.status = .accepted
    · have hone : 1 ≤ a.stored := by
        obtain ⟨-, r, hstatus, hfits⟩ | ⟨-, -, hbad | hbad⟩ := (h a List.mem_cons_self).status
        · refine hok r a.stored ?_ hfits
          rw [hstatus] at ha
          cases hr : r.error <;> simp_all [statusOf]
        · simp [ha] at hbad
        · simp [ha] at hbad
      have hsub : [a.request.body].Sublist (copiesOf a) :=
        List.replicate_sublist_replicate a.request.body |>.2 hone
      simpa [accepted, ha] using hsub.append hrest
    · rw [show accepted (a :: answered) = accepted answered by simp [accepted, ha]]
      exact hrest.trans (List.sublist_append_right _ _)

/-- **What was answered with 202 is stored**, each time it was answered, if a write that returns
`OK` stores its payload. -/
theorem Inv.accepted_le_stored (h : Inv f payload Fits s)
    (hok : ∀ r n, r.error = .ok → Fits (.inr r) n → 1 ≤ n) :
    (accepted s.answered).Subperm (f.log s.store) :=
  (((accepted_sublist h.answered hok).trans (List.sublist_append_left _ _)).subperm).trans
    h.stored.symm.subperm

/-- What is stored is the body of a request that the checker accepted. -/
theorem Inv.stored_taken (h : Inv f payload Fits s) {x : Bytes} (hx : x ∈ f.log s.store) :
    ∃ request, f.Takes request ∧ request.body = x ∧
      ((∃ a ∈ s.answered, a.request = request ∧ 0 < a.stored) ∨
        ∃ c ∈ s.calls, c.request = request ∧ 0 < c.stored) := by
  rcases List.mem_append.1 (h.stored.mem_iff.1 hx) with hx | hx
  · obtain ⟨a, ha, hxa⟩ := List.mem_flatMap.1 hx
    obtain ⟨hpos, rfl⟩ := List.mem_replicate.1 hxa
    obtain ⟨htakes, -⟩ | ⟨-, -, hzero⟩ := h.answered a ha
    · exact ⟨a.request, htakes, rfl, Or.inl ⟨a, ha, rfl, by omega⟩⟩
    · exact absurd hzero hpos
  · obtain ⟨c, hc, hxc⟩ := List.mem_flatMap.1 hx
    obtain ⟨hpos, rfl⟩ := List.mem_replicate.1 hxc
    exact ⟨c.request, (h.calls c hc).takes, rfl, Or.inr ⟨c, hc, rfl, by omega⟩⟩

/-! ### For runs on concrete requests -/

/-- A checker that takes everything but the empty payload. -/
def sampleCheck (data : Bytes) : CheckResult := ⟨data ≠ [], ascii "empty"⟩

/-- A request for the handler. -/
def sampleRequest (body : Bytes) : Request := ⟨.post, HttpSession.instrumentPath, 11, true, body⟩

end Frontend

end GatewayPoc
