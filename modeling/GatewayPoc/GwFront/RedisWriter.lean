import GatewayPoc.GwFront.UniversalHandler
import GatewayPoc.Redis.Hiredis

/-!
# Writing payloads to Redis

`gwfront/src/handler/redis_writer.cpp`: `RedisWriter` keeps one connection for each thread, adds a
payload to the stream with `XADD`, and after `REDIS_ERR_EOF` or `REDIS_ERR_IO` reconnects and sends
the command again.

* `RedisWriter.write` : the call, with the outcome of every call of `hiredis` it makes.
* `RedisWriter.write_appends` : how many entries a call adds.  `write_duplicates` is a call that
  returns `OK` and adds two: the server had executed the first `XADD` when the connection broke.
-/

namespace GatewayPoc

/-- `ExclusiveConnection`. -/
structure ExclusiveConnection where
  threadId : ℕ
  connection : RedisContext
  deriving DecidableEq, Repr

/-- `RedisWriter`. -/
structure RedisWriter where
  config : RedisConfig
  connections : List ExclusiveConnection
  deriving DecidableEq, Repr

namespace RedisWriter

/-- `MESSAGES_STREAM`. -/
def messagesStream : Bytes := ascii "messages"

/-- `DATA_FIELD`. -/
def dataField : Bytes := ascii "data"

/-- `RedisWriter::authenticate`. -/
def authenticate (config : RedisConfig) (c : RedisContext) (x : Exchange) (db : Streams) :
    RedisContext × Except Bytes Unit :=
  authenticateWith id config c x db

/-- `RedisWriter::reconnect`. -/
def reconnect (config : RedisConfig) (o : Outcomes) (db : Streams) :
    RedisContext × Except Bytes Unit :=
  reconnectWith (ascii "Failed to reconnect to Redis") id config o db

/-- `RedisWriter::createConnection`.  A connection that is not authenticated is freed. -/
def createConnection (config : RedisConfig) (o : Outcomes) (db : Streams) :
    Except Bytes RedisContext :=
  match o.connect with
  | .null => .error (ascii "Failed to connect to Redis")
  | .failed _ errstr => .error errstr
  | .established =>
    match authenticate config .fresh o.auth db with
    | (c, .ok _) => .ok c
    | (_, .error message) => .error message

/-- `RedisWriter::findConnection` of the thread `threadId`. -/
def findConnection (w : RedisWriter) (threadId : ℕ) (o : Outcomes) (db : Streams) :
    RedisWriter × Except Bytes RedisContext :=
  match w.connections.find? fun ec => ec.threadId = threadId with
  | some ec => (w, .ok ec.connection)
  | none =>
    match createConnection w.config o db with
    | .ok c => ({ w with connections := w.connections ++ [⟨threadId, c⟩] }, .ok c)
    | .error message => (w, .error message)

/-- The connection of a thread changes in place. -/
def setConnection (threadId : ℕ) (c : RedisContext) :
    List ExclusiveConnection → List ExclusiveConnection
  | [] => []
  | ec :: ecs =>
    if ec.threadId = threadId then { ec with connection := c } :: ecs
    else ec :: setConnection threadId c ecs

/-- `XADD %s * %s %b`. -/
def xaddArgs (data : Bytes) : List Bytes :=
  [ascii "XADD", messagesStream, ascii "*", dataField, data]

/-- The result of a call that was not given up: the state of the connection is checked first, then
the reply. -/
def resultOf (c : RedisContext) (reply : Option RedisReply) : WriteResult :=
  match reply with
  -- the source checks the reply last, so an error reply wins
  | some (.error str) => ⟨.generic, str⟩
  | _ =>
    match c.err with
    | some .eof | some .io => ⟨.storageUnavailable, c.errstr⟩
    | none => ⟨.ok, []⟩
    | some _ => ⟨.generic, c.errstr⟩

/-- What a call of `write` leaves behind. -/
structure Written where
  writer : RedisWriter
  db : Streams
  /-- The `XADD` commands given to `hiredis`. -/
  attempts : List Attempt
  result : WriteResult

/-- `RedisWriter::write`, called by the thread `threadId`. -/
def write (w : RedisWriter) (threadId : ℕ) (o : Outcomes) (data : Bytes) (db : Streams) : Written :=
  match w.findConnection threadId o db with
  | (w, .error message) => ⟨w, db, [], ⟨.storageUnavailable, message⟩⟩
  | (w, .ok c) =>
    let r := retryOnce RedisErr.isEofOrIo (reconnect w.config o db) c o (xaddArgs data) db
    let w := { w with connections := setConnection threadId r.context w.connections }
    match r.outcome with
    -- the reconnect failed; the context keeps what it left
    | .error message => ⟨w, r.db, r.attempts, ⟨.storageUnavailable, message⟩⟩
    | .ok reply => ⟨w, r.db, r.attempts, resultOf r.context reply⟩

/-! ### How many entries a call adds -/

@[simp] theorem ofArgs_xaddArgs (data : Bytes) :
    Command.ofArgs (xaddArgs data) = some (.xadd messagesStream dataField data) := rfl

theorem resultOf_ok {c : RedisContext} {reply : Option RedisReply}
    (h : (resultOf c reply).error = .ok) :
    c.err = none ∧ reply.any RedisReply.isError = false := by
  unfold resultOf at h
  split at h
  · cases h
  · rename_i hreply
    have hno : reply.any RedisReply.isError = false := by
      cases reply with
      | none => rfl
      | some reply =>
        cases reply with
        | error str => exact absurd rfl (hreply str)
        | _ => rfl
    split at h
    · cases h
    · cases h
    · rename_i herr
      exact ⟨herr, hno⟩
    · cases h

/-- A call gives up without a connection, or it runs `XADD` with a retry. -/
theorem write_cases (w : RedisWriter) (threadId : ℕ) (o : Outcomes) (data : Bytes) (db : Streams) :
    let r := w.write threadId o data db
    (r.db = db ∧ r.attempts = [] ∧ r.result.error ≠ .ok) ∨
      ∃ (w' : RedisWriter) (c : RedisContext),
        let q := retryOnce RedisErr.isEofOrIo (reconnect w'.config o db) c o (xaddArgs data) db
        r.db = q.db ∧ r.attempts = q.attempts ∧
          (r.result.error = .ok → ∃ reply, q.outcome = .ok reply ∧ q.context.err = none ∧
            reply.any RedisReply.isError = false) := by
  intro r
  simp only [r]
  unfold write
  split
  · exact Or.inl ⟨rfl, rfl, by simp⟩
  · rename_i w' c _
    refine Or.inr ⟨w', c, ?_⟩
    dsimp only
    split
    · exact ⟨rfl, rfl, by simp⟩
    · rename_i reply hout
      refine ⟨rfl, rfl, fun hok => ?_⟩
      -- `OK` means that no error is left, so the last attempt was executed
      obtain ⟨herr, hreply⟩ := resultOf_ok hok
      exact ⟨reply, hout, herr, hreply⟩

/-- A call adds one entry for each attempt the server executed. -/
theorem write_appended (w : RedisWriter) (threadId : ℕ) (o : Outcomes) (data : Bytes)
    (db : Streams) :
    let r := w.write threadId o data db
    Streams.Appended messagesStream dataField data (r.attempts.countP (·.applied)) db r.db := by
  intro r
  rcases write_cases w threadId o data db with ⟨hdb, hattempts, -⟩ | ⟨w', c, hdb, hattempts, -⟩
  · simp only [r, hdb, hattempts]
    exact Streams.Appended.refl _ _ _ _
  · simp only [r, hdb, hattempts]
    exact retryOnce_appended (ofArgs_xaddArgs data)

/-- The server executed the last attempt of a call that returns `OK`. -/
theorem write_ok_applied {w : RedisWriter} {threadId : ℕ} {o : Outcomes} {data : Bytes}
    {db : Streams} (h : (w.write threadId o data db).result.error = .ok) :
    ∃ a, (w.write threadId o data db).attempts.getLast? = some a ∧ a.applied = true := by
  rcases write_cases w threadId o data db with ⟨-, -, hno⟩ | ⟨w', c, -, hattempts, hok⟩
  · exact absurd h hno
  · obtain ⟨reply, hout, herr, hreply⟩ := hok h
    rw [hattempts]
    exact retryOnce_last_applied hout herr hreply

/-- What a call does to the server. -/
structure Exact (data : Bytes) (o : Outcomes) (db : Streams) (r : Written) : Prop where
  /-- One entry with the payload for each attempt the server executed, and nothing else. -/
  appended : Streams.Appended messagesStream dataField data (r.attempts.countP (·.applied)) db r.db
  length_le : r.attempts.length ≤ 2
  /-- There is a second attempt exactly if the first met `EOF` or `IO`, and `redisReconnect` and its
  `AUTH` succeeded. -/
  again : 1 < r.attempts.length ↔
    (∃ a, r.attempts.head? = some a ∧ (a.context.errAfter a.exchange).any RedisErr.isEofOrIo) ∧
      o.reconnect = .established ∧ ∃ now, o.reauth = .served now
  /-- A call that returns `OK` ends with an attempt the server executed. -/
  ok : r.result.error = .ok → ∃ a, r.attempts.getLast? = some a ∧ a.applied = true
  /-- There are two entries only if the reply to the first attempt was lost with `EOF` or `IO`. -/
  twice : 1 < r.attempts.countP (·.applied) →
    r.attempts.length = 2 ∧ ∃ now err errstr, o.first = .lost (some now) err errstr ∧ err.isEofOrIo

/-- **Entries per call.**  Whatever the connection outcomes, a call makes at most two attempts, the
second exactly if the first met `EOF` or `IO` and the reconnect with its `AUTH` succeeded; it adds
one entry with the payload for each attempt that the server executed, and nothing else; if it
returns `OK` the last attempt was executed; it adds two entries only if the reply to the first was
lost with `EOF` or `IO` and the command was sent again. -/
theorem write_appends (w : RedisWriter) (threadId : ℕ) (o : Outcomes) (data : Bytes)
    (db : Streams) : Exact data o db (w.write threadId o data db) := by
  have happ := write_appended w threadId o data db
  rcases write_cases w threadId o data db with ⟨-, hattempts, -⟩ | ⟨w', c, -, hattempts, -⟩
  · exact ⟨happ, by simp [hattempts], by simp [hattempts], write_ok_applied, by simp [hattempts]⟩
  · refine ⟨happ, ?_, ?_, write_ok_applied, ?_⟩
    · rw [hattempts]
      exact retryOnce_length_le
    · rw [hattempts, retryOnce_again, retryOnce_head, reconnect, reconnectWith_ok_iff]
      simp
    · rw [hattempts]
      exact retryOnce_twice

/-- A call that returns `OK` and adds the payload twice: the server executes the first `XADD` at
time 5, the connection breaks with `EOF`, and the command is sent again on the new connection. -/
theorem write_duplicates : ∃ (w : RedisWriter) (o : Outcomes) (db : Streams),
    (w.write 1 o [120] db).result.error = .ok ∧ (db messagesStream).entries = [] ∧
      ((w.write 1 o [120] db).db messagesStream).entries =
        [⟨⟨5, 0⟩, [(dataField, [120])]⟩, ⟨⟨6, 0⟩, [(dataField, [120])]⟩] := by
  let w : RedisWriter := ⟨⟨ascii "user", ascii "password"⟩, []⟩
  let o : Outcomes := ⟨.established, .served 5, .lost (some 5) .eof [], .established, .served 6,
    .served 6⟩
  exact ⟨w, o, fun _ => .empty, by decide, rfl, by decide⟩

/-! ### Safe connections -/

/-- Every connection of the pool is safe. -/
def Safe (w : RedisWriter) : Prop := ∀ ec ∈ w.connections, ec.connection.Safe

theorem createConnection_safe {config : RedisConfig} {o : Outcomes} {db : Streams}
    {c : RedisContext} (h : createConnection config o db = .ok c) : c.Safe := by
  unfold createConnection at h
  split at h
  · cases h
  · cases h
  · split at h
    · rename_i c' u hauth
      obtain rfl := Except.ok.inj h
      change authenticateWith id config .fresh o.auth db = (c', .ok u) at hauth
      have hok : (authenticateWith id config .fresh o.auth db).2 = .ok () := by rw [hauth]
      have hsafe := authenticateWith_fresh_ok hok
      rwa [hauth] at hsafe
    · cases h

/-- A connection that is not authenticated is not put into the pool. -/
theorem findConnection_safe {w w' : RedisWriter} {threadId : ℕ} {o : Outcomes} {db : Streams}
    {r : Except Bytes RedisContext} (hw : w.Safe) (h : w.findConnection threadId o db = (w', r)) :
    w'.Safe ∧ ∀ c, r = .ok c → c.Safe := by
  unfold findConnection at h
  split at h
  · rename_i ec hfind
    obtain ⟨rfl, rfl⟩ := Prod.mk.inj h
    refine ⟨hw, fun c hc => ?_⟩
    obtain rfl := Except.ok.inj hc
    exact hw ec (List.mem_of_find?_eq_some hfind)
  · split at h
    · rename_i c hc
      obtain ⟨rfl, rfl⟩ := Prod.mk.inj h
      have hsafe := createConnection_safe hc
      refine ⟨fun ec hec => ?_, fun c' hc' => Except.ok.inj hc' ▸ hsafe⟩
      rcases List.mem_append.1 hec with hec | hec
      · exact hw ec hec
      · rw [List.mem_singleton.1 hec]
        exact hsafe
    · obtain ⟨rfl, rfl⟩ := Prod.mk.inj h
      exact ⟨hw, by simp⟩

theorem setConnection_safe {threadId : ℕ} {c : RedisContext} (hc : c.Safe)
    {ecs : List ExclusiveConnection} (h : ∀ ec ∈ ecs, ec.connection.Safe) :
    ∀ ec ∈ setConnection threadId c ecs, ec.connection.Safe := by
  induction ecs with
  | nil => exact h
  | cons head ecs ih =>
    have htail := ih fun ec hec => h ec (List.mem_cons_of_mem _ hec)
    intro ec hec
    rw [setConnection] at hec
    split_ifs at hec with hid
    · rcases List.mem_cons.1 hec with rfl | hec
      · exact hc
      · exact h ec (List.mem_cons_of_mem _ hec)
    · rcases List.mem_cons.1 hec with rfl | hec
      · exact h _ List.mem_cons_self
      · exact htail ec hec

/-- A call keeps the pool safe if the server does not reject the `AUTH` of a reconnect, and gives
its commands to safe connections in any case. -/
theorem write_safe {w : RedisWriter} (hw : w.Safe) (threadId : ℕ) (o : Outcomes) (data : Bytes)
    (db : Streams) :
    (o.reauth.NotRefused → (w.write threadId o data db).writer.Safe) ∧
      ∀ a ∈ (w.write threadId o data db).attempts, a.context.Safe := by
  unfold write
  split
  · rename_i w' message hfind
    exact ⟨fun _ => (findConnection_safe hw hfind).1, by simp⟩
  · rename_i w' c hfind
    obtain ⟨hw', hc⟩ := findConnection_safe hw hfind
    have hpool : o.reauth.NotRefused → ∀ ec ∈ setConnection threadId
        (retryOnce RedisErr.isEofOrIo (reconnect w'.config o db) c o (xaddArgs data) db).context
          w'.connections, ec.connection.Safe := fun hx =>
      setConnection_safe (retryOnce_safe (hc c rfl) (reconnectWith_safe hx)) hw'
    have hsent : ∀ a ∈ (retryOnce RedisErr.isEofOrIo (reconnect w'.config o db) c o (xaddArgs data)
        db).attempts, a.context.Safe := retryOnce_attempts_safe (hc c rfl) reconnectWith_ok
    dsimp only
    split
    · exact ⟨hpool, hsent⟩
    · exact ⟨hpool, hsent⟩

/-! ### When the server is back -/

/-- The connection of a thread. -/
def cached (w : RedisWriter) (threadId : ℕ) : Option RedisContext :=
  (w.connections.find? fun ec => ec.threadId = threadId).map ExclusiveConnection.connection

theorem findConnection_restored (w : RedisWriter) (threadId : ℕ) {o : Outcomes} {db : Streams}
    {c : RedisContext} {args : List Bytes} (h : Restored c o args db) :
    ∃ w', w.findConnection threadId o db = (w', .ok (startContext (w.cached threadId))) := by
  unfold findConnection cached
  split
  · rename_i ec hfind
    exact ⟨w, by simp [hfind, startContext]⟩
  · rename_i hfind
    obtain ⟨now, hnow⟩ := h.auth
    have hcreate : createConnection w.config o db = .ok ⟨none, [], true⟩ := by
      rw [createConnection, h.connect, hnow, authenticate, authenticateWith_served]
    exact ⟨_, by rw [hcreate, hfind]; rfl⟩

/-- Once the server is back, `write` returns `OK` exactly if the error of the connection, or else
the one the first attempt meets, is `EOF` or `IO`, or there is none. -/
theorem write_restored {w : RedisWriter} {threadId : ℕ} {o : Outcomes} {data : Bytes}
    {db : Streams} (h : Restored (startContext (w.cached threadId)) o (xaddArgs data) db) :
    (w.write threadId o data db).result.error = .ok ↔
      ((startContext (w.cached threadId)).errAfter o.first).all RedisErr.isEofOrIo = true := by
  obtain ⟨w', hfind⟩ := findConnection_restored w threadId h
  have hrec : reconnect w'.config o db = (⟨none, [], true⟩, .ok ()) := reconnectWith_restored h db
  rw [write, hfind]
  dsimp only
  rw [hrec]
  cases hretry : ((startContext (w.cached threadId)).errAfter o.first).all RedisErr.isEofOrIo with
  | true =>
    obtain ⟨herr, reply, hout, hne⟩ := retryOnce_recovers Bytes h hretry
    rw [hout]
    cases reply with
    | error str => cases hne
    | _ => simp [resultOf, herr]
  | false =>
    obtain ⟨herr, hout⟩ := retryOnce_stuck
      ((⟨none, [], true⟩, .ok ()) : RedisContext × Except Bytes Unit) (xaddArgs data) db hretry
    rw [hout]
    have hno : ∀ c : RedisContext, c.err ≠ none → (resultOf c none).error ≠ .ok := by
      intro c hc hok
      exact hc (resultOf_ok hok).1
    simpa using hno _ herr

end RedisWriter

end GatewayPoc
