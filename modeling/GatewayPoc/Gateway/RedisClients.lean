import GatewayPoc.Core.Machine
import GatewayPoc.GwBack.RedisProducer
import GatewayPoc.GwFront.RedisWriter

/-!
# The Redis clients of the gateway

The front end and the back end together: the threads of the front end call `RedisWriter::write`,
the loop of the back end calls `RedisProducer::getNext` and `markConsumed`, in any order and with
any outcome of the calls of `hiredis`.

* `RedisClients.authenticated` : as long as the server does not reject the `AUTH` of a connection
  that is kept, every cached connection carries an error code or is authenticated, and no command
  is given to any other.  `unauthenticated_used` has a run of each program in which a rejected
  connection is kept and used.
* `RedisClients.recovers_iff` : which errors of a cached connection, or of a first attempt, the
  operations recover from once the server is back.  `never_recovers` reaches a state in which no
  later call of a thread succeeds.
-/

namespace GatewayPoc

/-- The clients and the server. -/
structure RedisClients where
  writer : RedisWriter
  producer : RedisProducer
  db : Streams
  /-- Every `XADD`, `XRANGE` and `XDEL` given to `hiredis`. -/
  attempts : List Attempt

namespace RedisClients

/-- An operation, with the outcome of every call of `hiredis` it makes. -/
inductive Operation where
  /-- `RedisWriter::write` by the thread `threadId`. -/
  | write (threadId : ℕ) (data : Bytes) (o : Outcomes)
  | getNext (o : Outcomes)
  | markConsumed (messages : Messages) (o : Outcomes)

/-- The state after an operation. -/
def next (s : RedisClients) : Operation → Option RedisClients
  | .write threadId data o =>
    let r := s.writer.write threadId o data s.db
    some { s with writer := r.writer, db := r.db, attempts := s.attempts ++ r.attempts }
  | .getNext o =>
    let r := s.producer.getNext o s.db
    some { s with producer := r.producer, db := r.db, attempts := s.attempts ++ r.attempts }
  | .markConsumed messages o =>
    let r := s.producer.markConsumed o messages s.db
    some { s with producer := r.producer, db := r.db, attempts := s.attempts ++ r.attempts }

/-- Both programs just started, on a server without streams. -/
def start (writer producer : RedisConfig) (chunkSize : UInt32) : RedisClients where
  writer := ⟨writer, []⟩
  producer := ⟨producer, chunkSize, none⟩
  db := fun _ => .empty
  attempts := []

/-- The clients as a state machine. -/
def machine : Machine RedisClients Operation where
  init s := ∃ writer producer chunkSize, s = start writer producer chunkSize
  next := next

/-! ### Authentication -/

/-- Every cached connection is safe, and the commands were given to safe connections. -/
structure Authenticated (s : RedisClients) : Prop where
  pool : s.writer.Safe
  cached : s.producer.Safe
  sent : ∀ a ∈ s.attempts, a.context.Safe

/-- The server does not reject the `AUTH` of a connection that is kept.  An `Outcomes` says how
every call would end, so an `AUTH` that the operation does not send can be taken as accepted. -/
def KeptAccepted (_ : RedisClients) : Operation → Prop
  | .write _ _ o => o.reauth.NotRefused
  | .getNext o | .markConsumed _ o => o.auth.NotRefused ∧ o.reauth.NotRefused

instance (s : RedisClients) (op : Operation) : Decidable (s.KeptAccepted op) := by
  cases op <;> unfold KeptAccepted <;> infer_instance

variable {s s' : RedisClients} {op : Operation}

theorem sent_append {as bs : List Attempt} (h : ∀ a ∈ as, a.context.Safe)
    (h' : ∀ a ∈ bs, a.context.Safe) : ∀ a ∈ as ++ bs, a.context.Safe := by
  intro a ha
  rcases List.mem_append.1 ha with ha | ha
  · exact h a ha
  · exact h' a ha

/-- An operation keeps the connections safe. -/
theorem Authenticated.step (h : s.Authenticated) (hg : s.KeptAccepted op)
    (hn : machine.next s op = some s') : s'.Authenticated := by
  cases op with
  | write threadId data o =>
    obtain rfl := Option.some.inj hn
    obtain ⟨hpool, hsent⟩ := RedisWriter.write_safe h.pool threadId o data s.db
    exact ⟨hpool hg, h.cached, sent_append h.sent hsent⟩
  | getNext o =>
    obtain rfl := Option.some.inj hn
    obtain ⟨hcached, hsent⟩ := RedisProducer.run_safe h.cached RedisErr.isEofOrIo o
      (RedisProducer.xrangeArgs s.producer.chunkSize) RedisProducer.checkMessages s.db
    exact ⟨h.pool, hcached hg.1 hg.2, sent_append h.sent hsent⟩
  | markConsumed messages o =>
    obtain rfl := Option.some.inj hn
    obtain ⟨hcached, hsent⟩ := RedisProducer.run_safe h.cached (fun err => err = .eof) o
      (formatWords (RedisProducer.makeXdelCommand messages)) RedisProducer.checkState s.db
    exact ⟨h.pool, hcached hg.1 hg.2, sent_append h.sent hsent⟩

/-- **Only authenticated connections.**  In every run in which the server rejects neither the
`AUTH` that `RedisWriter` sends after a reconnect nor one that `RedisProducer` sends, every cached
connection carries an error code or was authenticated since it was last established, and so was
every connection a command was given to. -/
theorem authenticated (h : machine.Reachable KeptAccepted s) : s.Authenticated := by
  refine h.invariant ?_ fun _ _ _ _ hs hg hn => hs.step hg hn
  rintro _ ⟨writer, producer, chunkSize, rfl⟩
  exact ⟨by simp [start, RedisWriter.Safe], by simp [start, RedisProducer.Safe],
    by simp [start]⟩

/-- A run with a reconnect of the front end. -/
theorem authenticated_sample : ∃ s : RedisClients, s.writer.connections.length = 1 ∧
    s.attempts.length = 4 ∧ s.Authenticated := by
  let run : List Operation :=
    [.write 1 [120] { Outcomes.fine with first := .lost none .eof [] }, .getNext .fine,
      .markConsumed [⟨0, []⟩] .fine]
  obtain ⟨s, hr, hlen, hsent⟩ := Machine.exists_of_runIf (M := machine) (G := KeptAccepted)
    (P := fun s => s.writer.connections.length = 1 ∧ s.attempts.length = 4)
    ⟨⟨[], []⟩, ⟨[], []⟩, 1, rfl⟩ run (by decide)
  exact ⟨s, hlen, hsent, authenticated hr⟩

/-- A rejected connection is kept and used.  In the first run a thread reconnects and the server
rejects its `AUTH`: the next `XADD` of the thread goes out on the healthy connection that was not
authenticated.  In the second run the server rejects the first `AUTH` of the back end: the next
`XRANGE` goes out on that connection. -/
theorem unauthenticated_used :
    (∃ s, machine.Reachable Machine.anyStep s ∧
      (∃ ec ∈ s.writer.connections, ec.connection = ⟨none, [], false⟩) ∧
      ∃ a ∈ s.attempts, a.context.err = none ∧ a.context.authed = false ∧ a.applied = true) ∧
    ∃ s, machine.Reachable Machine.anyStep s ∧ s.producer.connection = some ⟨none, [], false⟩ ∧
      ∃ a ∈ s.attempts, a.context.err = none ∧ a.context.authed = false ∧ a.applied = true := by
  let writes : List Operation :=
    [.write 1 [120] { Outcomes.fine with first := .lost none .eof [], reauth := .refused [] },
      .write 1 [120] .fine]
  let reads : List Operation :=
    [.getNext { Outcomes.fine with auth := .refused [] }, .getNext .fine]
  refine ⟨?_, ?_⟩
  · exact Machine.exists_of_runIf (M := machine) (G := Machine.anyStep)
      (P := fun s => (∃ ec ∈ s.writer.connections, ec.connection = ⟨none, [], false⟩) ∧
        ∃ a ∈ s.attempts, a.context.err = none ∧ a.context.authed = false ∧ a.applied = true)
      ⟨⟨[], []⟩, ⟨[], []⟩, 1, rfl⟩ writes (by decide)
  · exact Machine.exists_of_runIf (M := machine) (G := Machine.anyStep)
      (P := fun s => s.producer.connection = some ⟨none, [], false⟩ ∧
        ∃ a ∈ s.attempts, a.context.err = none ∧ a.context.authed = false ∧ a.applied = true)
      ⟨⟨[], []⟩, ⟨[], []⟩, 1, rfl⟩ reads (by decide)

/-! ### Recovery -/

/-- The server rejects no `AUTH`. -/
def AuthAccepted (_ : RedisClients) : Operation → Prop
  | .write _ _ o | .getNext o | .markConsumed _ o => o.auth.NotRefused ∧ o.reauth.NotRefused

instance (s : RedisClients) (op : Operation) : Decidable (s.AuthAccepted op) := by
  cases op <;> unfold AuthAccepted <;> infer_instance

/-- **Recovery.**  Once the server is back, whatever the first attempt meets: `write` returns `OK`
and `getNext` returns exactly if the error of the cached connection, or else the one the first
attempt meets, is `EOF` or `IO`, or there is none; `markConsumed` returns exactly if it is `EOF`,
or there is none. -/
theorem recovers_iff (s : RedisClients) (o : Outcomes) :
    (∀ threadId data,
      Restored (startContext (s.writer.cached threadId)) o (RedisWriter.xaddArgs data) s.db →
        ((s.writer.write threadId o data s.db).result.error = .ok ↔
          ((startContext (s.writer.cached threadId)).errAfter o.first).all RedisErr.isEofOrIo)) ∧
    (0 < s.producer.chunkSize.toNat →
      Restored (startContext s.producer.connection) o
        (RedisProducer.xrangeArgs s.producer.chunkSize) s.db →
        ((∃ messages, (s.producer.getNext o s.db).result = .ok messages) ↔
          ((startContext s.producer.connection).errAfter o.first).all RedisErr.isEofOrIo)) ∧
    (∀ messages,
      Restored (startContext s.producer.connection) o
        (formatWords (RedisProducer.makeXdelCommand messages)) s.db →
        ((s.producer.markConsumed o messages s.db).result = .ok () ↔
          ((startContext s.producer.connection).errAfter o.first).all fun err => err = .eof)) :=
  ⟨fun _ _ h => RedisWriter.write_restored h,
    fun hchunk h => RedisProducer.getNext_restored hchunk h,
    fun _ h => RedisProducer.markConsumed_restored h⟩

/-- Connections that broke with `EOF`. -/
theorem recovers_iff_sample :
    let broken : RedisContext := ⟨some .eof, [], false⟩
    let s : RedisClients := ⟨⟨⟨[], []⟩, [⟨1, broken⟩]⟩, ⟨⟨[], []⟩, 1, some broken⟩,
      fun _ => .empty, []⟩
    (s.writer.write 1 .fine [120] s.db).result.error = .ok ∧
      (∃ messages, (s.producer.getNext .fine s.db).result = .ok messages) ∧
      (s.producer.markConsumed .fine [⟨0, []⟩] s.db).result = .ok () := by
  intro broken s
  have hrestored : ∀ args, (s.db.exec 0 (Command.ofArgs args)).2.isError = false →
      Restored broken .fine args s.db := by
    intro args hexec
    exact ⟨rfl, ⟨0, rfl⟩, fun h => absurd h (by simp [broken]), rfl, ⟨0, rfl⟩, ⟨0, rfl, hexec⟩⟩
  obtain ⟨hwrite, hnext, hmark⟩ := recovers_iff s .fine
  exact ⟨(hwrite 1 [120] (hrestored _ (by decide))).2 rfl,
    (hnext (by decide) (hrestored _ (by decide))).2 rfl,
    (hmark [⟨0, []⟩] (hrestored _ (by decide))).2 rfl⟩

/-- A state from which the thread 1 never recovers: its connection broke, and `redisReconnect`
failed with `OTHER`; every later `write` fails and leaves the connection as it is.  In the same
state `markConsumed` throws when its first attempt meets `IO`, although everything else succeeds. -/
theorem never_recovers : ∃ s, machine.Reachable AuthAccepted s ∧
    (∀ o data, (s.writer.write 1 o data s.db).result.error = .generic ∧
      (s.writer.write 1 o data s.db).writer = s.writer) ∧
    ∃ e, (s.producer.markConsumed { Outcomes.fine with first := .lost none .io [] } [⟨0, []⟩]
      s.db).result = .error e := by
  let run : List Operation :=
    [.write 1 [120]
      { Outcomes.fine with first := .lost none .io [], reconnect := .failed .other [] },
      .getNext .fine]
  obtain ⟨s, hr, hwriter, hproducer⟩ := Machine.exists_of_runIf (M := machine) (G := AuthAccepted)
    (P := fun s => s.writer = ⟨⟨[], []⟩, [⟨1, ⟨some .other, [], false⟩⟩]⟩ ∧
      s.producer = ⟨⟨[], []⟩, 1, some ⟨none, [], true⟩⟩)
    ⟨⟨[], []⟩, ⟨[], []⟩, 1, rfl⟩ run (by decide)
  refine ⟨s, hr, fun o data => ?_, ?_⟩
  · rw [hwriter]
    exact ⟨rfl, rfl⟩
  · rw [hproducer]
    exact ⟨_, rfl⟩

end RedisClients

end GatewayPoc
