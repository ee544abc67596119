import GatewayPoc.Core.Machine
import GatewayPoc.GwBack.RedisProducer
import GatewayPoc.GwBack.RunLoop
import GatewayPoc.Redis.Attempts

/-!
# The back end on Redis

`gwback/src/main.cpp` with `RedisProducer`: the same loop, consumer and `main` as in `GwBack`, but
the messages are in a stream.  A call of the producer sends its command, and after an error sends
it again on a new connection; whatever the front ends add in between, they add between two commands
and not between two calls.  So a call is up to two steps here.

`RedisBack` is the state of the process, the streams it shares with the front ends, and the output
folders.  Its log of everything ever appended is a ghost: the stream forgets what was deleted.

* `RedisProducer.getNextFirst`, `getNextAgain`, `markConsumedFirst`, `markConsumedAgain` : the
  attempts of the two calls.  `RedisProducer.run_eq` : one after the other they are the call.
* `RedisBack.machine` : the state machine.
* `RedisBack.Step` : what every event can do, said once (`step_of_next`).
* `RedisBack.Sound` : the log and the stream are in the order of the ids, and the stream is a part
  of the log (`sound_of_reachable`).
-/

namespace GatewayPoc

namespace RedisProducer

/-! ### The attempts of a call -/

/-- What an attempt of a call leaves behind. -/
structure Half (α : Type) where
  producer : RedisProducer
  db : Streams
  /-- The server executed the command. -/
  applied : Bool
  /-- How the call ends; `none` if it goes on with a reconnect. -/
  result : Option (Except Failure α)

section

variable {α : Type}

/-- A call up to the check of the error after its first command. -/
def runFirst (p : RedisProducer) (retry : RedisErr → Bool) (o : Outcomes) (args : List Bytes)
    (check : RedisContext → Option RedisReply → Except Failure α) (db : Streams) : Half α :=
  match p.getConnection o db with
  | (p, .error e) => ⟨p, db, false, some (.error e)⟩
  | (p, .ok c) =>
    let r := redisCommand c o.first args db
    let p := { p with connection := some r.context }
    if r.context.err.any retry = true then ⟨p, r.db, r.applied, none⟩
    else ⟨p, r.db, r.applied, some (check r.context r.reply)⟩

/-- The rest of a call: reconnect and send the command again. -/
def runAgain (p : RedisProducer) (o : Outcomes) (args : List Bytes)
    (check : RedisContext → Option RedisReply → Except Failure α) (db : Streams) : Half α :=
  let t := secondTry (reconnect p.config o db) o.second args db
  let p := { p with connection := some t.context }
  match t.outcome with
  | .error e => ⟨p, t.db, t.applied, some (.error e)⟩
  | .ok reply => ⟨p, t.db, t.applied, some (check t.context reply)⟩

/-- `RedisProducer::getNext` up to its first `XRANGE`. -/
def getNextFirst (p : RedisProducer) (o : Outcomes) (db : Streams) : Half Messages :=
  p.runFirst RedisErr.isEofOrIo o (xrangeArgs p.chunkSize) checkMessages db

/-- `RedisProducer::getNext` from the reconnect on. -/
def getNextAgain (p : RedisProducer) (o : Outcomes) (db : Streams) : Half Messages :=
  p.runAgain o (xrangeArgs p.chunkSize) checkMessages db

/-- `RedisProducer::markConsumed` up to its first `XDEL`. -/
def markConsumedFirst (p : RedisProducer) (o : Outcomes) (messages : Messages) (db : Streams) :
    Half Unit :=
  p.runFirst (fun err => err = .eof) o (formatWords (makeXdelCommand messages)) checkState db

/-- `RedisProducer::markConsumed` from the reconnect on. -/
def markConsumedAgain (p : RedisProducer) (o : Outcomes) (messages : Messages) (db : Streams) :
    Half Unit :=
  p.runAgain o (formatWords (makeXdelCommand messages)) checkState db

variable {p : RedisProducer} {retry : RedisErr → Bool} {o : Outcomes} {args : List Bytes}
  {check : RedisContext → Option RedisReply → Except Failure α} {db : Streams}

theorem getConnection_config {p' : RedisProducer} {r : Except Failure RedisContext}
    (h : p.getConnection o db = (p', r)) : p'.config = p.config ∧ p'.chunkSize = p.chunkSize := by
  unfold getConnection at h
  split at h
  · obtain ⟨rfl, -⟩ := Prod.mk.inj h
    exact ⟨rfl, rfl⟩
  · split at h
    · obtain ⟨rfl, -⟩ := Prod.mk.inj h
      exact ⟨rfl, rfl⟩
    · obtain ⟨rfl, -⟩ := Prod.mk.inj h
      exact ⟨rfl, rfl⟩
    · split at h
      · obtain ⟨rfl, -⟩ := Prod.mk.inj h
        exact ⟨rfl, rfl⟩
      · obtain ⟨rfl, -⟩ := Prod.mk.inj h
        exact ⟨rfl, rfl⟩

/-- **Both attempts are the call.**  When nothing happens between its two attempts, a call does
what `run` says. -/
theorem run_eq (p : RedisProducer) (retry : RedisErr → Bool) (o : Outcomes) (args : List Bytes)
    (check : RedisContext → Option RedisReply → Except Failure α) (db : Streams) :
    let first := p.runFirst retry o args check db
    let again := first.producer.runAgain o args check first.db
    let last := if first.result.isNone = true then again else first
    (p.run retry o args check db).producer = last.producer ∧
      (p.run retry o args check db).db = last.db ∧
      some (p.run retry o args check db).result = last.result := by
  intro first again last
  rcases hget : p.getConnection o db with ⟨p', e | c⟩
  · have hfirst : first = ⟨p', db, false, some (.error e)⟩ := by
      simp only [first, runFirst, hget]
    simp only [last, hfirst, run, hget]
    exact ⟨rfl, rfl, rfl⟩
  · have heq := retryOnce_eq retry (reconnect p'.config o db) c o args db
    dsimp only at heq
    cases hretry : (redisCommand c o.first args db).context.err.any retry with
    | false =>
      have hfirst : first = ⟨
          { p' with connection := some (redisCommand c o.first args db).context },
          (redisCommand c o.first args db).db, (redisCommand c o.first args db).applied,
          some (check (redisCommand c o.first args db).context
            (redisCommand c o.first args db).reply)⟩ := by
        simp [first, runFirst, hget, hretry]
      rw [hretry, if_neg (by simp)] at heq
      obtain ⟨hcontext, hdb, hout⟩ : _ ∧ _ ∧ _ := by simpa only [Prod.mk.injEq] using heq
      simp only [last, hfirst, run, hget, hout, hcontext, hdb]
      exact ⟨rfl, rfl, rfl⟩
    | true =>
      have hfirst : first = ⟨
          { p' with connection := some (redisCommand c o.first args db).context },
          (redisCommand c o.first args db).db, (redisCommand c o.first args db).applied, none⟩ := by
        simp [first, runFirst, hget, hretry]
      rw [hretry, if_pos rfl] at heq
      obtain ⟨hcontext, hdb, hout⟩ : _ ∧ _ ∧ _ := by simpa only [Prod.mk.injEq] using heq
      -- the reconnect is the same, whatever the first command did to the streams
      have hrec : reconnect p'.config o (redisCommand c o.first args db).db =
          reconnect p'.config o db := reconnectWith_congr ..
      simp only [last, again, hfirst, Option.isNone_none, if_true, runAgain, hrec, run, hget,
        hout, hcontext, hdb]
      cases (secondTry (reconnect p'.config o db) o.second args
        (redisCommand c o.first args db).db).outcome with
      | error e => exact ⟨rfl, rfl, rfl⟩
      | ok reply => exact ⟨rfl, rfl, rfl⟩

/-- An attempt ends the call with an error before its command is sent, or sends the command and
ends the call, if it ends it, with the check. -/
structure Attempts (p : RedisProducer) (args : List Bytes)
    (check : RedisContext → Option RedisReply → Except Failure α) (db : Streams) (h : Half α) :
    Prop where
  chunkSize : h.producer.chunkSize = p.chunkSize
  sent : (h.db = db ∧ h.applied = false ∧ ∃ e, h.result = some (.error e)) ∨
    ∃ c x, h.db = (redisCommand c x args db).db ∧ h.applied = (redisCommand c x args db).applied ∧
      ∀ result, h.result = some result →
        result = check (redisCommand c x args db).context (redisCommand c x args db).reply

theorem attempts_runFirst : Attempts p args check db (p.runFirst retry o args check db) := by
  rcases hget : p.getConnection o db with ⟨p', e | c⟩
  · simp only [runFirst, hget]
    exact ⟨(getConnection_config hget).2, Or.inl ⟨rfl, rfl, e, rfl⟩⟩
  · simp only [runFirst, hget]
    split_ifs
    · exact ⟨(getConnection_config hget).2, Or.inr ⟨c, o.first, rfl, rfl, by simp⟩⟩
    · exact ⟨(getConnection_config hget).2, Or.inr ⟨c, o.first, rfl, rfl, by simp⟩⟩

theorem attempts_runAgain : Attempts p args check db (p.runAgain o args check db) := by
  rcases hrec : reconnect p.config o db with ⟨c, e | u⟩
  · simp only [runAgain, hrec, secondTry]
    exact ⟨rfl, Or.inl ⟨rfl, rfl, e, rfl⟩⟩
  · simp only [runAgain, hrec, secondTry]
    exact ⟨rfl, Or.inr ⟨c, o.second, rfl, rfl, by simp⟩⟩

/-- An attempt of a call whose check passes was executed, and its reply is that of the server. -/
theorem Attempts.executed {h : Half α} {a : α} (ha : Attempts p args check db h)
    (hcheck : ∀ c reply, check c reply = .ok a → checkState c reply = .ok ())
    (hok : h.result = some (.ok a)) :
    h.applied = true ∧ ∃ now c, h.db = (db.exec now (Command.ofArgs args)).1 ∧
      check c (some (db.exec now (Command.ofArgs args)).2) = .ok a := by
  obtain ⟨-, -, e, he⟩ | ⟨c, x, hdb, happ, hresult⟩ := ha.sent
  · rw [hok] at he
    cases he
  · have hpass := (hresult _ hok).symm
    obtain ⟨herr, hreply⟩ := checkState_ok (hcheck _ _ hpass)
    rw [redisCommand_err] at herr
    obtain ⟨now, hexec, hr⟩ := redisCommand_executed herr hreply
    exact ⟨happ.trans (redisCommand_applied herr hreply), now, _, hdb.trans hexec, hr ▸ hpass⟩

end

section

variable {p : RedisProducer} {db : Streams} {messages : Messages}

/-- An attempt of `getNext` changes nothing. -/
theorem Attempts.getNext_db {h : Half Messages}
    (ha : Attempts p (xrangeArgs p.chunkSize) checkMessages db h) : h.db = db := by
  obtain ⟨hdb, -⟩ | ⟨c, x, hdb, -⟩ := ha.sent
  · exact hdb
  · exact hdb.trans (redisCommand_xrange (ofArgs_xrangeArgs _))

/-- An attempt of `getNext` that returns, returns the first entries of the stream. -/
theorem Attempts.getNext_ok {h : Half Messages}
    (ha : Attempts p (xrangeArgs p.chunkSize) checkMessages db h)
    (hok : h.result = some (.ok messages)) :
    messages = ((db messagesStream).entries.take p.chunkSize.toNat).map messageOf := by
  obtain ⟨-, now, c, -, hpass⟩ := ha.executed (fun _ _ => checkMessages_ok) hok
  have hparse : messagesFromReply (db.exec now (Command.ofArgs (xrangeArgs p.chunkSize))).2 =
      .ok messages := by
    have hstate := checkMessages_ok hpass
    unfold checkMessages at hpass
    rw [hstate] at hpass
    exact hpass
  rw [ofArgs_xrangeArgs] at hparse
  simp only [Streams.exec] at hparse
  split_ifs at hparse
  · cases hparse
  · rw [messagesFromReply_entries] at hparse
    exact (Except.ok.inj hparse).symm

/-- An attempt of `markConsumed` deletes the ids that come out of the packed ones, or nothing. -/
theorem Attempts.markConsumed {h : Half Unit}
    (ha : Attempts p (formatWords (makeXdelCommand messages)) checkState db h) :
    h.db = if h.applied = true then Function.update db messagesStream
      ((db messagesStream).xdel (messages.map fun message => unpackId message.id)) else db := by
  obtain ⟨hdb, happ, -⟩ | ⟨c, x, hdb, happ, -⟩ := ha.sent
  · simp [hdb, happ]
  · rw [hdb, happ]
    by_cases hnil : messages = []
    · subst hnil
      obtain ⟨hsame, hno⟩ : (redisCommand c x (formatWords (makeXdelCommand [])) db).db = db ∧ _ :=
        redisCommand_none ofArgs_makeXdelCommand_nil
      simp [hsame, hno]
    · exact redisCommand_xdel (ofArgs_makeXdelCommand hnil)

end

end RedisProducer

/-! ### The machine -/

/-- Where the loop thread and `main` are. -/
inductive RedisPc where
  /-- At the head of `while (run)`. -/
  | loop
  /-- In `getNext`, whose first `XRANGE` broke. -/
  | nextAgain
  /-- `getNext` has returned these messages. -/
  | fetched (messages : Messages)
  /-- The consumer has returned `true`; this is what it left in the vector. -/
  | consumed (messages : Messages)
  /-- In `markConsumed`, whose first `XDEL` broke; `applied` if the server executed it. -/
  | markAgain (messages : Messages) (applied : Bool)
  /-- `run` was cleared and the loop thread joined. -/
  | joined
  /-- The consumer is destroyed. -/
  | destroyed
  /-- `main` has returned. -/
  | exited
  deriving DecidableEq, Repr

/-- The back end on Redis and what it shares with the outside. -/
structure RedisBack where
  /-- Every entry ever appended, in order. -/
  log : List Entry
  db : Streams
  producer : RedisProducer
  consumer : MessageConsumer
  run : Bool
  pc : RedisPc
  /-- Every chunk ever handed to `saveMessages`, in order. -/
  started : List Messages
  /-- The detached threads that have not finished, in the order they were started. -/
  saving : List Save
  /-- The files in the output folders. -/
  files : List OutputFile

namespace RedisBack

open RedisProducer (Half messagesStream dataField messageOf packId unpackId Packable)

/-- One step of one party. -/
inductive Event where
  /-- The server executes an `XADD` of a front end at time `now`. -/
  | xadd (now : UInt64) (data : Bytes)
  | getNext (o : Outcomes)
  | getNextAgain (o : Outcomes)
  /-- `consumer(messages)`. -/
  | consume
  | markConsumed (o : Outcomes)
  | markConsumedAgain (o : Outcomes)
  /-- The `k`-th unfinished thread runs; `good` if it can open its file. -/
  | save (k : ℕ) (good : Bool)
  /-- `waitSignal` returns and `main` clears `run`. -/
  | signal
  | join
  /-- `~MessageConsumer`; `good` if the file for the rest of the buffer can be opened. -/
  | destroy (good : Bool)
  | exit
  /-- The program is started again. -/
  | restart (config : RedisConfig) (producer : ProducerConfig) (consumer : ConsumerConfig)
  deriving DecidableEq

/-- The entries of the stream of the messages. -/
def entries (s : RedisBack) : List Entry := (s.db messagesStream).entries

/-- Front ends have brought the streams to `db`. -/
def observe (s : RedisBack) (db : Streams) : RedisBack :=
  { s with db := db, log := s.log ++ (db messagesStream).entries.drop s.entries.length }

/-- Where the loop is when `getNext` has ended. -/
def afterNext : Option (Except Failure Messages) → RedisPc
  | none => .nextAgain
  | some (.error _) => .loop
  -- on an empty batch the loop pauses and starts over
  | some (.ok messages) => if messages.isEmpty then .loop else .fetched messages

/-- Where the loop is after the first attempt of `markConsumed`.  However the call ends, the loop
starts over. -/
def afterMark (messages : Messages) (h : Half Unit) : RedisPc :=
  if h.result.isNone then .markAgain messages h.applied else .loop

/-- The state an event leads to. -/
def next (s : RedisBack) : Event → Option RedisBack
  | .xadd now data =>
    some (s.observe (s.db.exec now (some (.xadd messagesStream dataField data))).1)
  | .getNext o =>
    if s.pc = .loop ∧ s.run = true then
      let h := s.producer.getNextFirst o s.db
      some { s with producer := h.producer, db := h.db, pc := afterNext h.result }
    else none
  | .getNextAgain o =>
    if s.pc = .nextAgain then
      let h := s.producer.getNextAgain o s.db
      some { s with producer := h.producer, db := h.db, pc := afterNext h.result }
    else none
  | .consume =>
    match s.pc with
    | .fetched messages =>
      let r := s.consumer.call messages
      some { s with
        pc := if r.ok then .consumed r.messages else .loop
        consumer := r.consumer
        started := s.started ++ r.flushed
        saving := s.saving ++ r.flushed.map fun chunk => ⟨chunk, s.consumer.outputFolder⟩ }
    | _ => none
  | .markConsumed o =>
    match s.pc with
    | .consumed messages =>
      let h := s.producer.markConsumedFirst o messages s.db
      some { s with producer := h.producer, db := h.db, pc := afterMark messages h }
    | _ => none
  | .markConsumedAgain o =>
    match s.pc with
    | .markAgain messages _ =>
      let h := s.producer.markConsumedAgain o messages s.db
      some { s with producer := h.producer, db := h.db, pc := .loop }
    | _ => none
  | .save k good =>
    match s.saving[k]? with
    | some save =>
      some { s with
        saving := s.saving.eraseIdx k
        files := saveMessages s.files save.messages save.folder good }
    | none => none
  -- the loop thread looks at `run` when it is back at its head
  | .signal => some { s with run := false }
  | .join => if s.pc = .loop ∧ s.run = false then some { s with pc := .joined } else none
  | .destroy good =>
    if s.pc = .joined then
      some { s with
        pc := .destroyed
        consumer := { s.consumer with buffer := [] }
        started := s.started ++ [s.consumer.buffer]
        files := saveMessages s.files s.consumer.buffer s.consumer.outputFolder good }
    else none
  -- the detached threads end with the process
  | .exit => if s.pc = .destroyed then some { s with pc := .exited, saving := [] } else none
  | .restart config producer consumer =>
    if s.pc = .exited then
      some { s with
        pc := .loop, run := true, producer := ⟨config, producer.chunkSize, none⟩
        consumer := .ofConfig consumer }
    else none

/-- The back end just started, on a server without streams. -/
def start (config : RedisConfig) (producer : ProducerConfig) (consumer : ConsumerConfig) :
    RedisBack where
  log := []
  db := fun _ => .empty
  producer := ⟨config, producer.chunkSize, none⟩
  consumer := .ofConfig consumer
  run := true
  pc := .loop
  started := []
  saving := []
  files := []

/-- The back end on Redis as a state machine. -/
def machine : Machine RedisBack Event where
  init s := ∃ config producer consumer, s = start config producer consumer
  next := next

/-! ### What an event can do -/

/-- The messages the next `XRANGE` returns. -/
def batch (s : RedisBack) : Messages :=
  (s.entries.take s.producer.chunkSize.toNat).map messageOf

/-- The streams after an `XDEL` of these messages, if it is executed. -/
def xdel (s : RedisBack) (messages : Messages) (applied : Bool) : Streams :=
  if applied = true then Function.update s.db messagesStream
    ((s.db messagesStream).xdel (messages.map fun message => unpackId message.id)) else s.db

/-- The server executes the `XDEL` of an acknowledgement at least once, whether the loop learns
of it or not. -/
def AcksExecuted (s : RedisBack) : Event → Prop
  | .markConsumed o =>
    match s.pc with
    | .consumed messages =>
      let h := s.producer.markConsumedFirst o messages s.db
      h.result.isNone = true ∨ h.applied = true
    | _ => True
  | .markConsumedAgain o =>
    match s.pc with
    | .markAgain messages applied =>
      applied = true ∨ (s.producer.markConsumedAgain o messages s.db).applied = true
    | _ => True
  | _ => True

instance (s : RedisBack) (e : Event) : Decidable (s.AcksExecuted e) := by
  unfold AcksExecuted
  split
  · split <;> infer_instance
  · split <;> infer_instance
  · infer_instance

/-- Where an attempt of `getNext` leaves the loop. -/
def Asked (s : RedisBack) (producer : RedisProducer) (pc : RedisPc) : Prop :=
  producer.chunkSize = s.producer.chunkSize ∧
    (pc = .nextAgain ∨ pc = .loop ∨ (pc = .fetched s.batch ∧ s.batch ≠ []))

/-- The steps, event by event. -/
inductive Step (s : RedisBack) : Event → RedisBack → Prop
  | xadd {now : UInt64} {data : Bytes} : Step s (.xadd now data)
      (s.observe (s.db.exec now (some (.xadd messagesStream dataField data))).1)
  | getNext {o : Outcomes} {producer : RedisProducer} {pc : RedisPc} (hpc : s.pc = .loop)
      (hrun : s.run = true) (ha : s.Asked producer pc) :
      Step s (.getNext o) { s with producer := producer, pc := pc }
  | getNextAgain {o : Outcomes} {producer : RedisProducer} {pc : RedisPc}
      (hpc : s.pc = .nextAgain) (ha : s.Asked producer pc) :
      Step s (.getNextAgain o) { s with producer := producer, pc := pc }
  | consume {messages : Messages} (hpc : s.pc = .fetched messages) :
      Step s .consume { s with
        pc := .consumed (s.consumer.call messages).messages
        consumer := (s.consumer.call messages).consumer
        started := s.started ++ (s.consumer.call messages).flushed
        saving := s.saving ++ (s.consumer.call messages).flushed.map fun chunk =>
          ⟨chunk, s.consumer.outputFolder⟩ }
  | markConsumed {o : Outcomes} {producer : RedisProducer} {messages : Messages} {applied : Bool}
      {pc : RedisPc} (hpc : s.pc = .consumed messages)
      (hproducer : producer.chunkSize = s.producer.chunkSize)
      (hpc' : pc = .markAgain messages applied ∨
        (pc = .loop ∧ (s.AcksExecuted (.markConsumed o) → applied = true))) :
      Step s (.markConsumed o)
        { s with producer := producer, db := s.xdel messages applied, pc := pc }
  | markConsumedAgain {o : Outcomes} {producer : RedisProducer} {messages : Messages}
      {before applied : Bool} (hpc : s.pc = .markAgain messages before)
      (hproducer : producer.chunkSize = s.producer.chunkSize)
      (hacks : s.AcksExecuted (.markConsumedAgain o) → before = true ∨ applied = true) :
      Step s (.markConsumedAgain o)
        { s with producer := producer, db := s.xdel messages applied, pc := .loop }
  | save {k : ℕ} {good : Bool} {save : Save} (hk : s.saving[k]? = some save) :
      Step s (.save k good) { s with
        saving := s.saving.eraseIdx k
        files := saveMessages s.files save.messages save.folder good }
  | signal : Step s .signal { s with run := false }
  | join (hpc : s.pc = .loop) (hrun : s.run = false) : Step s .join { s with pc := .joined }
  | destroy {good : Bool} (hpc : s.pc = .joined) :
      Step s (.destroy good) { s with
        pc := .destroyed
        consumer := { s.consumer with buffer := [] }
        started := s.started ++ [s.consumer.buffer]
        files := saveMessages s.files s.consumer.buffer s.consumer.outputFolder good }
  | exit (hpc : s.pc = .destroyed) : Step s .exit { s with pc := .exited, saving := [] }
  | restart {config : RedisConfig} {producer : ProducerConfig} {consumer : ConsumerConfig}
      (hpc : s.pc = .exited) : Step s (.restart config producer consumer)
        { s with
          pc := .loop, run := true, producer := ⟨config, producer.chunkSize, none⟩
          consumer := .ofConfig consumer }

variable {s s' : RedisBack} {e : Event}

/-- An attempt of `getNext` leaves the streams alone. -/
theorem asked_of_attempts {h : Half Messages}
    (ha : RedisProducer.Attempts s.producer (RedisProducer.xrangeArgs s.producer.chunkSize)
      RedisProducer.checkMessages s.db h) :
    h.db = s.db ∧ s.Asked h.producer (afterNext h.result) := by
  refine ⟨ha.getNext_db, ha.chunkSize, ?_⟩
  cases hresult : h.result with
  | none => exact Or.inl rfl
  | some result =>
    cases result with
    | error e => exact Or.inr (Or.inl rfl)
    | ok messages =>
      have hbatch : messages = s.batch := ha.getNext_ok hresult
      cases messages with
      | nil => exact Or.inr (Or.inl rfl)
      | cons message messages => exact Or.inr (Or.inr ⟨by rw [← hbatch]; rfl, by simp [← hbatch]⟩)

theorem step_of_next (h : machine.next s e = some s') : Step s e s' := by
  change s.next e = some s' at h
  cases e with
  | xadd now data =>
    obtain rfl := Option.some.inj h
    exact .xadd
  | getNext o =>
    simp only [next] at h
    split_ifs at h with hpc
    obtain rfl := Option.some.inj h
    have ha : RedisProducer.Attempts _ _ _ _ (s.producer.getNextFirst o s.db) :=
      RedisProducer.attempts_runFirst
    obtain ⟨hdb, hasked⟩ := asked_of_attempts ha
    rw [hdb]
    exact .getNext hpc.1 hpc.2 hasked
  | getNextAgain o =>
    simp only [next] at h
    split_ifs at h with hpc
    obtain rfl := Option.some.inj h
    have ha : RedisProducer.Attempts _ _ _ _ (s.producer.getNextAgain o s.db) :=
      RedisProducer.attempts_runAgain
    obtain ⟨hdb, hasked⟩ := asked_of_attempts ha
    rw [hdb]
    exact .getNextAgain hpc hasked
  | consume =>
    simp only [next] at h
    split at h
    · rename_i messages hpc
      obtain rfl := Option.some.inj h
      exact .consume hpc
    · cases h
  | markConsumed o =>
    simp only [next] at h
    split at h
    · rename_i messages hpc
      obtain rfl := Option.some.inj h
      have ha : RedisProducer.Attempts _ _ _ _ (s.producer.markConsumedFirst o messages s.db) :=
        RedisProducer.attempts_runFirst
      have hdb : _ = s.xdel messages _ := ha.markConsumed
      rw [hdb]
      refine .markConsumed hpc ha.chunkSize ?_
      unfold afterMark
      cases hresult : (s.producer.markConsumedFirst o messages s.db).result with
      | none => exact Or.inl rfl
      | some result =>
        refine Or.inr ⟨rfl, fun hacks => ?_⟩
        simpa [AcksExecuted, hpc, hresult] using hacks
    · cases h
  | markConsumedAgain o =>
    simp only [next] at h
    split at h
    · rename_i messages before hpc
      obtain rfl := Option.some.inj h
      have ha : RedisProducer.Attempts _ _ _ _ (s.producer.markConsumedAgain o messages s.db) :=
        RedisProducer.attempts_runAgain
      have hdb : _ = s.xdel messages _ := ha.markConsumed
      rw [hdb]
      refine .markConsumedAgain hpc ha.chunkSize fun hacks => ?_
      simpa [AcksExecuted, hpc] using hacks
    · cases h
  | save k good =>
    simp only [next] at h
    split at h
    · rename_i save hk
      obtain rfl := Option.some.inj h
      exact .save hk
    · cases h
  | signal =>
    obtain rfl := Option.some.inj h
    exact .signal
  | join =>
    simp only [next] at h
    split_ifs at h with hpc
    obtain rfl := Option.some.inj h
    exact .join hpc.1 hpc.2
  | destroy good =>
    simp only [next] at h
    split_ifs at h with hpc
    obtain rfl := Option.some.inj h
    exact .destroy hpc
  | exit =>
    simp only [next] at h
    split_ifs at h with hpc
    obtain rfl := Option.some.inj h
    exact .exit hpc
  | restart config producer consumer =>
    simp only [next] at h
    split_ifs at h with hpc
    obtain rfl := Option.some.inj h
    exact .restart hpc

/-! ### The log -/

/-- The last id the server has given in the stream of the messages. -/
def lastId (s : RedisBack) : EntryId := (s.db messagesStream).lastId

/-- The log is in the order of the ids, and what is left of it is in the stream. -/
structure Sound (s : RedisBack) : Prop where
  sublist : s.entries.Sublist s.log
  sorted : s.log.Pairwise fun a b => a.id < b.id
  le_lastId : ∀ entry ∈ s.log, entry.id = s.lastId ∨ entry.id < s.lastId

/-- An `XADD` of a front end adds an entry with a new id, or none. -/
theorem observe_xadd (s : RedisBack) (now : UInt64) (data : Bytes) :
    let s' := s.observe (s.db.exec now (some (.xadd messagesStream dataField data))).1
    s' = s ∨ ∃ entry, entry.fields = [(dataField, data)] ∧ s.lastId < entry.id ∧
      s'.entries = s.entries ++ [entry] ∧ s'.log = s.log ++ [entry] ∧ s'.lastId = entry.id := by
  intro s'
  simp only [s', Streams.exec, Stream.xadd]
  split
  · rename_i id stream hadd
    refine Or.inr ⟨⟨id, [(dataField, data)]⟩, rfl, ?_⟩
    split at hadd
    · rename_i id' hid
      obtain ⟨rfl, rfl⟩ := Prod.mk.inj (Option.some.inj hadd)
      refine ⟨Stream.lt_of_nextId? hid, ?_⟩
      simp [observe, entries, lastId, Function.update_self, Stream.append]
    · cases hadd
  · exact Or.inl (by simp [observe, entries])

theorem entries_xdel (s : RedisBack) (messages : Messages) (applied : Bool) :
    (s.xdel messages applied messagesStream).entries =
      if applied = true then s.entries.filter fun entry =>
        entry.id ∉ messages.map fun message => unpackId message.id
      else s.entries := by
  unfold xdel
  split_ifs
  · simp only [Function.update_self, Stream.xdel]
    rfl
  · rfl

theorem lastId_xdel (s : RedisBack) (messages : Messages) (applied : Bool) :
    (s.xdel messages applied messagesStream).lastId = s.lastId := by
  unfold xdel
  split_ifs
  · simp only [Function.update_self, Stream.xdel]
    rfl
  · rfl

/-- An `XDEL` only takes entries away. -/
theorem Sound.xdel (h : s.Sound) {messages : Messages} {applied : Bool} {producer : RedisProducer}
    {pc : RedisPc} :
    Sound { s with producer := producer, db := s.xdel messages applied, pc := pc } := by
  refine ⟨?_, h.sorted, fun entry hentry => ?_⟩
  · have hsub : (s.xdel messages applied messagesStream).entries.Sublist s.entries := by
      rw [entries_xdel]
      split_ifs
      · exact List.filter_sublist
      · exact List.Sublist.refl _
    exact hsub.trans h.sublist
  · have hlast := lastId_xdel s messages applied
    simpa [lastId, hlast] using h.le_lastId entry hentry

theorem Sound.step (h : s.Sound) (hs : Step s e s') : s'.Sound := by
  cases hs with
  | @xadd now data =>
    obtain heq | ⟨entry, -, hlt, hentries, hlog, hlast⟩ := observe_xadd s now data
    · rw [heq]
      exact h
    · have hall : ∀ a ∈ s.log, a.id < entry.id := by
        intro a ha
        rcases h.le_lastId a ha with hle | hle
        · exact hle ▸ hlt
        · exact EntryId.lt_trans hle hlt
      refine ⟨?_, ?_, fun a ha => ?_⟩
      · rw [hentries, hlog]
        exact h.sublist.append (List.Sublist.refl _)
      · rw [hlog]
        refine List.pairwise_append.2 ⟨h.sorted, List.pairwise_singleton _ _, fun a ha b hb => ?_⟩
        rw [List.mem_singleton.1 hb]
        exact hall a ha
      · rw [hlog] at ha
        rw [hlast]
        rcases List.mem_append.1 ha with ha | ha
        · exact Or.inr (hall a ha)
        · exact Or.inl (by rw [List.mem_singleton.1 ha])
  | getNext | getNextAgain | consume | save | signal | join | destroy | exit | restart =>
    exact ⟨h.sublist, h.sorted, h.le_lastId⟩
  | markConsumed | markConsumedAgain => exact h.xdel

variable {G : RedisBack → Event → Prop}

theorem sound_of_reachable (h : machine.Reachable G s) : s.Sound := by
  refine h.invariant ?_ fun _ _ _ _ hi _ hn => hi.step (step_of_next hn)
  rintro _ ⟨config, producer, consumer, rfl⟩
  exact ⟨List.Sublist.refl _, List.Pairwise.nil, by simp [start]⟩

/-- The log only grows. -/
theorem log_le (hs : Step s e s') : s.log <+: s'.log := by
  cases hs with
  | xadd => exact List.prefix_append _ _
  | getNext | getNextAgain | consume | markConsumed | markConsumedAgain | save | signal | join
  | destroy | exit | restart => exact List.prefix_refl _

end RedisBack

end GatewayPoc
