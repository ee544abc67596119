import GatewayPoc.Redis.Stream

/-!
# Connections to Redis

`hiredis` as both programs use it.  A `RedisContext` that carries an error code fails every command
without sending it, and keeps the code until `redisReconnect`.  What happens to a command that is
sent is an `Exchange`: the server executes it and the reply arrives, it answers with an error, or
the connection breaks, before or after the server has executed the command.

* `redisCommand` : a command on a connection, with the streams of the server.
* `authenticateWith`, `reconnectWith` : `AUTH`, and `redisReconnect` with `AUTH`, as both programs
  have them; they differ in how they report an error.
* `retryOnce` : run a command, and reconnect and run it again if the connection broke in a way that
  `retry` covers.

`RedisContext.Safe` is what the caches of connections must keep: `retryOnce` keeps it if the server
does not reject the `AUTH` after a reconnect (`retryOnce_safe`).  `retryOnce_recovers` and
`retryOnce_stuck` say which errors `retryOnce` recovers from, and `retryOnce_appended` how many
entries it adds.  All of them rest on `retryOnce_cases`, which lists what `retryOnce` can do.
-/

namespace GatewayPoc

/-- The error codes of `hiredis` other than `REDIS_OK`. -/
inductive RedisErr where
  | io
  | other
  | eof
  | protocol
  | oom
  | timeout
  deriving DecidableEq, Repr

/-- `REDIS_ERR_EOF` and `REDIS_ERR_IO`. -/
def RedisErr.isEofOrIo (err : RedisErr) : Bool := err = .eof || err = .io

/-- `redisContext`. -/
structure RedisContext where
  /-- `none` is `REDIS_OK`. -/
  err : Option RedisErr
  errstr : Bytes
  /-- The server accepted `AUTH` since the connection was last established.  The code does not
  have this field. -/
  authed : Bool
  deriving DecidableEq, Repr

/-- A context whose connection was just established. -/
def RedisContext.fresh : RedisContext := ⟨none, [], false⟩

/-- What happens to a command that is sent. -/
inductive Exchange where
  /-- The server executes it at time `now`, and the reply arrives. -/
  | served (now : UInt64)
  /-- The server answers with an error reply. -/
  | refused (str : Bytes)
  /-- The connection breaks; `at?` is the time when the server executed the command, if it did. -/
  | lost (at? : Option UInt64) (err : RedisErr) (errstr : Bytes)
  deriving DecidableEq, Repr

/-- How `redisConnect` ends. -/
inductive Connect where
  | null
  | failed (err : RedisErr) (errstr : Bytes)
  | established
  deriving DecidableEq, Repr

/-- How `redisReconnect` ends. -/
inductive Reconnect where
  | failed (err : RedisErr) (errstr : Bytes)
  | established
  deriving DecidableEq, Repr

/-- How the calls of `hiredis` in one operation end: one field for each place in the code. -/
structure Outcomes where
  connect : Connect
  /-- `AUTH` on a new connection. -/
  auth : Exchange
  first : Exchange
  reconnect : Reconnect
  /-- `AUTH` after `redisReconnect`. -/
  reauth : Exchange
  second : Exchange
  deriving DecidableEq, Repr

/-- Every call succeeds. -/
def Outcomes.fine : Outcomes :=
  ⟨.established, .served 0, .served 0, .established, .served 0, .served 0⟩

/-- Every call succeeds, at whatever times the server executes the commands. -/
structure Outcomes.Served (o : Outcomes) : Prop where
  connect : o.connect = .established
  auth : ∃ now, o.auth = .served now
  first : ∃ now, o.first = .served now
  reconnect : o.reconnect = .established
  reauth : ∃ now, o.reauth = .served now
  second : ∃ now, o.second = .served now

theorem Outcomes.served_fine : Outcomes.fine.Served :=
  ⟨rfl, ⟨0, rfl⟩, ⟨0, rfl⟩, rfl, ⟨0, rfl⟩, ⟨0, rfl⟩⟩

/-- What the two programs use of their `RedisConfig`. -/
structure RedisConfig where
  user : Bytes
  password : Bytes
  deriving DecidableEq, Repr

/-- What `redisCommand` leaves behind. -/
structure Sent where
  context : RedisContext
  reply : Option RedisReply
  db : Streams
  /-- The server executed the command. -/
  applied : Bool

def Command.isAuth : Command → Bool
  | .auth _ _ => true
  | _ => false

/-- `redisCommand`, for a command formatted as the words `args`. -/
def redisCommand (c : RedisContext) (x : Exchange) (args : List Bytes) (db : Streams) : Sent :=
  let command := Command.ofArgs args
  match c.err with
  -- nothing is sent on a context that carries an error
  | some _ => ⟨c, none, db, false⟩
  | none =>
    match x with
    | .served now =>
      let r := db.exec now command
      ⟨{ c with authed := c.authed || command.any Command.isAuth }, some r.2, r.1, !r.2.isError⟩
    | .refused str => ⟨c, some (.error str), db, false⟩
    | .lost none err errstr => ⟨{ c with err := some err, errstr := errstr }, none, db, false⟩
    | .lost (some now) err errstr =>
      let r := db.exec now command
      ⟨{ c with err := some err, errstr := errstr }, none, r.1, !r.2.isError⟩

/-- A format without directives is split at the spaces. -/
def formatWords (format : Bytes) : List Bytes := (format.splitOn 32).filter fun word => word ≠ []

/-- A C string ends at the first NUL. -/
def cString (s : Bytes) : Bytes := s.takeWhile fun b => b ≠ 0

/-- `AUTH %s %s`. -/
def authArgs (config : RedisConfig) : List Bytes :=
  [ascii "AUTH", cString config.user, cString config.password]

section

variable {ε : Type*}

/-- `authenticate`; `describe` makes an error of the text of `hiredis` or of the server. -/
def authenticateWith (describe : Bytes → ε) (config : RedisConfig) (c : RedisContext)
    (x : Exchange) (db : Streams) : RedisContext × Except ε Unit :=
  let r := redisCommand c x (authArgs config) db
  match r.context.err with
  | some _ => (r.context, .error (describe r.context.errstr))
  | none =>
    match r.reply with
    | some (.error str) => (r.context, .error (describe str))
    | _ => (r.context, .ok ())

/-- `reconnect`; `failed` is the error when `redisReconnect` fails. -/
def reconnectWith (failed : ε) (describe : Bytes → ε) (config : RedisConfig) (o : Outcomes)
    (db : Streams) : RedisContext × Except ε Unit :=
  match o.reconnect with
  -- a reconnect that fails leaves its own error code behind
  | .failed err errstr => (⟨some err, errstr, false⟩, .error failed)
  | .established => authenticateWith describe config .fresh o.reauth db

/-- A command that was given to `hiredis`, and the context it was given on. -/
structure Attempt where
  context : RedisContext
  exchange : Exchange
  applied : Bool
  deriving DecidableEq, Repr

/-- What `retryOnce` leaves behind. -/
structure Retried (ε : Type*) where
  context : RedisContext
  db : Streams
  attempts : List Attempt
  /-- The last reply, or the error of the reconnect. -/
  outcome : Except ε (Option RedisReply)

/-- Run a command; if the context has an error that `retry` covers, reconnect and run it again. -/
def retryOnce (retry : RedisErr → Bool) (reconnect : RedisContext × Except ε Unit)
    (c : RedisContext) (o : Outcomes) (args : List Bytes) (db : Streams) : Retried ε :=
  let r := redisCommand c o.first args db
  if r.context.err.any retry then
    match reconnect with
    | (c', .error e) => ⟨c', r.db, [⟨c, o.first, r.applied⟩], .error e⟩
    | (c', .ok _) =>
      let r' := redisCommand c' o.second args r.db
      ⟨r'.context, r'.db, [⟨c, o.first, r.applied⟩, ⟨c', o.second, r'.applied⟩], .ok r'.reply⟩
  else ⟨r.context, r.db, [⟨c, o.first, r.applied⟩], .ok r.reply⟩

end

/-! ### Authentication -/

/-- `AUTH` does not touch the streams, so that `authenticateWith` need not return them. -/
theorem redisCommand_auth_db (c : RedisContext) (x : Exchange) (config : RedisConfig)
    (db : Streams) : (redisCommand c x (authArgs config) db).db = db := by
  unfold redisCommand
  cases c.err with
  | some e => rfl
  | none =>
    cases x with
    | served now => rfl
    | refused str => rfl
    | lost at? err errstr => cases at? <;> rfl

variable {ε : Type*} {describe : Bytes → ε} {failed : ε} {config : RedisConfig} {c : RedisContext}
  {x : Exchange} {db : Streams}

/-- A new connection is authenticated exactly if the `AUTH` is served; otherwise it carries the
error code of the connection, or none if the server rejected the `AUTH`. -/
theorem authenticateWith_fresh : authenticateWith describe config .fresh x db =
    match x with
    | .served _ => (⟨none, [], true⟩, .ok ())
    | .refused str => (.fresh, .error (describe str))
    | .lost _ err errstr => (⟨some err, errstr, false⟩, .error (describe errstr)) := by
  cases x with
  | served now => rfl
  | refused str => rfl
  | lost at? err errstr => cases at? <;> rfl

/-! ### Safe connections -/

/-- The connection carries an error code, or its `AUTH` was accepted. -/
def RedisContext.Safe (c : RedisContext) : Prop := c.err ≠ none ∨ c.authed = true

instance (c : RedisContext) : Decidable c.Safe := inferInstanceAs (Decidable (_ ∨ _))

/-- The server does not reject the command. -/
def Exchange.NotRefused (x : Exchange) : Prop := ∀ str, x ≠ .refused str

instance (x : Exchange) : Decidable x.NotRefused :=
  match x with
  | .refused str => isFalse fun h => h str rfl
  | .served _ | .lost _ _ _ => isTrue fun _ h => by cases h

theorem authenticateWith_fresh_safe (hx : x.NotRefused) :
    (authenticateWith describe config .fresh x db).1.Safe := by
  rw [authenticateWith_fresh]
  cases x with
  | served now => exact Or.inr rfl
  | refused str => exact absurd rfl (hx str)
  | lost at? err errstr => exact Or.inl (by simp)

/-- A connection that was authenticated without an error is safe. -/
theorem authenticateWith_fresh_ok (h : (authenticateWith describe config .fresh x db).2 = .ok ()) :
    (authenticateWith describe config .fresh x db).1.Safe := by
  rw [authenticateWith_fresh] at h ⊢
  cases x with
  | served now => exact Or.inr rfl
  | refused str => cases h
  | lost at? err errstr => cases h

theorem reconnectWith_safe {o : Outcomes} (hx : o.reauth.NotRefused) :
    (reconnectWith failed describe config o db).1.Safe := by
  unfold reconnectWith
  cases o.reconnect with
  | failed err errstr => exact Or.inl (by simp)
  | established => exact authenticateWith_fresh_safe hx

theorem reconnectWith_ok {o : Outcomes}
    (h : (reconnectWith failed describe config o db).2 = .ok ()) :
    (reconnectWith failed describe config o db).1.Safe := by
  unfold reconnectWith at h ⊢
  cases hr : o.reconnect with
  | failed err errstr => simp [hr] at h
  | established => exact authenticateWith_fresh_ok (by simpa [hr] using h)

/-- A reconnect succeeds exactly if `redisReconnect` does and the `AUTH` is served. -/
theorem reconnectWith_ok_iff {o : Outcomes} :
    (reconnectWith failed describe config o db).2 = .ok () ↔
      o.reconnect = .established ∧ ∃ now, o.reauth = .served now := by
  unfold reconnectWith
  cases o.reconnect with
  | failed err errstr => simp
  | established =>
    dsimp only
    rw [authenticateWith_fresh]
    cases o.reauth with
    | served now => simp
    | refused str => simp
    | lost at? err errstr => simp

/-- A command keeps a connection safe. -/
theorem redisCommand_safe (args : List Bytes) (hc : c.Safe) :
    (redisCommand c x args db).context.Safe := by
  unfold redisCommand
  cases herr : c.err with
  | some e => exact hc
  | none =>
    have hauth : c.authed = true := hc.resolve_left (by simp [herr])
    cases x with
    | served now => exact Or.inr (by simp [hauth])
    | refused str => exact hc
    | lost at? err errstr => cases at? <;> exact Or.inl (by simp)

/-! ### The outcome of a command -/

/-- The error code of a connection after a command. -/
def RedisContext.errAfter (c : RedisContext) (x : Exchange) : Option RedisErr :=
  match c.err, x with
  | some err, _ => some err
  | none, .lost _ err _ => some err
  | none, _ => none

theorem redisCommand_err (c : RedisContext) (x : Exchange) (args : List Bytes) (db : Streams) :
    (redisCommand c x args db).context.err = c.errAfter x := by
  unfold redisCommand RedisContext.errAfter
  cases herr : c.err with
  | some e => simp [herr]
  | none =>
    cases x with
    | served now => simp
    | refused str => simp [herr]
    | lost at? err errstr => cases at? <;> rfl

theorem redisCommand_reply_none {args : List Bytes} {err : RedisErr}
    (herr : c.errAfter x = some err) : (redisCommand c x args db).reply = none := by
  unfold redisCommand
  cases hc : c.err with
  | some e => rfl
  | none =>
    cases x with
    | served now => simp [RedisContext.errAfter, hc] at herr
    | refused str => simp [RedisContext.errAfter, hc] at herr
    | lost at? e errstr => cases at? <;> rfl

/-- A command that left no error code and was not answered with an error was executed. -/
theorem redisCommand_applied {args : List Bytes} (herr : c.errAfter x = none)
    (hreply : (redisCommand c x args db).reply.any RedisReply.isError = false) :
    (redisCommand c x args db).applied = true := by
  unfold redisCommand at hreply ⊢
  cases hc : c.err with
  | some e => simp [RedisContext.errAfter, hc] at herr
  | none =>
    cases x with
    | served now => simpa [hc] using hreply
    | refused str => simp [hc, RedisReply.isError] at hreply
    | lost at? err errstr => simp [RedisContext.errAfter, hc] at herr

/-- A reply that is no error is the reply of the server. -/
theorem redisCommand_executed {args : List Bytes} (herr : c.errAfter x = none)
    (hreply : (redisCommand c x args db).reply.any RedisReply.isError = false) :
    ∃ now, (redisCommand c x args db).db = (db.exec now (Command.ofArgs args)).1 ∧
      (redisCommand c x args db).reply = some (db.exec now (Command.ofArgs args)).2 := by
  unfold redisCommand at hreply ⊢
  cases hc : c.err with
  | some e => simp [RedisContext.errAfter, hc] at herr
  | none =>
    cases x with
    | served now => exact ⟨now, rfl, rfl⟩
    | refused str => simp [hc, RedisReply.isError] at hreply
    | lost at? err errstr => simp [RedisContext.errAfter, hc] at herr

/-- A command is executed or it is not. -/
theorem redisCommand_db (c : RedisContext) (x : Exchange) (args : List Bytes) (db : Streams) :
    (redisCommand c x args db).db = db ∨
      ∃ now, (redisCommand c x args db).db = (db.exec now (Command.ofArgs args)).1 := by
  unfold redisCommand
  cases c.err with
  | some e => exact Or.inl rfl
  | none =>
    cases x with
    | served now => exact Or.inr ⟨now, rfl⟩
    | refused str => exact Or.inl rfl
    | lost at? err errstr =>
      cases at? with
      | none => exact Or.inl rfl
      | some now => exact Or.inr ⟨now, rfl⟩

/-- A command that was executed and left an error code lost its reply. -/
theorem lost_of_applied {args : List Bytes} {err : RedisErr} (herr : c.errAfter x = some err)
    (happ : (redisCommand c x args db).applied = true) :
    ∃ now errstr, x = .lost (some now) err errstr := by
  unfold redisCommand at happ
  cases hc : c.err with
  | some e => simp [hc] at happ
  | none =>
    cases x with
    | served now => simp [RedisContext.errAfter, hc] at herr
    | refused str => simp [RedisContext.errAfter, hc] at herr
    | lost at? e errstr =>
      obtain rfl : e = err := by simpa [RedisContext.errAfter, hc] using herr
      cases at? with
      | none => simp [hc] at happ
      | some now => exact ⟨now, errstr, rfl⟩

/-- An `XADD` adds an entry exactly if the server executes it. -/
theorem redisCommand_appended (c : RedisContext) (x : Exchange) (db : Streams) {args : List Bytes}
    {key field value : Bytes} (hargs : Command.ofArgs args = some (.xadd key field value)) :
    Streams.Appended key field value (if (redisCommand c x args db).applied then 1 else 0) db
      (redisCommand c x args db).db := by
  have hrefl := Streams.Appended.refl key field value db
  have hexec : ∀ now, Streams.Appended key field value
      (if !(db.exec now (Command.ofArgs args)).2.isError then 1 else 0) db
      (db.exec now (Command.ofArgs args)).1 := by
    intro now
    have h := Streams.exec_xadd now key field value db
    rw [hargs]
    cases herr : (db.exec now (some (.xadd key field value))).2.isError <;>
      simpa [herr] using h
  unfold redisCommand
  cases c.err with
  | some e => exact hrefl
  | none =>
    cases x with
    | served now => exact hexec now
    | refused str => exact hrefl
    | lost at? err errstr =>
      cases at? with
      | none => exact hrefl
      | some now => exact hexec now

/-! ### Retrying a command -/

section

variable {retry : RedisErr → Bool} {reconnect : RedisContext × Except ε Unit} {c' : RedisContext}
  {o : Outcomes} {args : List Bytes}

/-- The connection has no error, or one that `retry` does not cover: there is no second attempt. -/
theorem retryOnce_of_not (h : (c.errAfter o.first).any retry = false) :
    retryOnce retry reconnect c o args db =
      let r := redisCommand c o.first args db
      ⟨r.context, r.db, [⟨c, o.first, r.applied⟩], .ok r.reply⟩ := by
  rw [← redisCommand_err c o.first args db] at h
  simp [retryOnce, h]

theorem retryOnce_of_error {e : ε} (h : (c.errAfter o.first).any retry = true) :
    retryOnce retry (c', .error e) c o args db =
      let r := redisCommand c o.first args db
      ⟨c', r.db, [⟨c, o.first, r.applied⟩], .error e⟩ := by
  rw [← redisCommand_err c o.first args db] at h
  simp [retryOnce, h]

theorem retryOnce_of_ok (h : (c.errAfter o.first).any retry = true) :
    retryOnce retry (c', (.ok () : Except ε Unit)) c o args db =
      let r := redisCommand c o.first args db
      let r' := redisCommand c' o.second args r.db
      ⟨r'.context, r'.db, [⟨c, o.first, r.applied⟩, ⟨c', o.second, r'.applied⟩],
        .ok r'.reply⟩ := by
  rw [← redisCommand_err c o.first args db] at h
  simp [retryOnce, h]

/-- What `retryOnce` can do: leave it at the first attempt, fail to reconnect, or make a second
attempt on the new connection. -/
theorem retryOnce_cases (retry : RedisErr → Bool) (reconnect : RedisContext × Except ε Unit)
    (c : RedisContext) (o : Outcomes) (args : List Bytes) (db : Streams) :
    let r := redisCommand c o.first args db
    ((c.errAfter o.first).any retry = false ∧ retryOnce retry reconnect c o args db =
        ⟨r.context, r.db, [⟨c, o.first, r.applied⟩], .ok r.reply⟩) ∨
      (∃ c' e, reconnect = (c', .error e) ∧ retryOnce retry reconnect c o args db =
        ⟨c', r.db, [⟨c, o.first, r.applied⟩], .error e⟩) ∨
      ∃ c', (c.errAfter o.first).any retry = true ∧ reconnect = (c', .ok ()) ∧
        let r' := redisCommand c' o.second args r.db
        retryOnce retry reconnect c o args db =
          ⟨r'.context, r'.db, [⟨c, o.first, r.applied⟩, ⟨c', o.second, r'.applied⟩],
            .ok r'.reply⟩ := by
  intro r
  cases hretry : (c.errAfter o.first).any retry with
  | false => exact Or.inl ⟨rfl, retryOnce_of_not hretry⟩
  | true =>
    obtain ⟨c', outcome⟩ := reconnect
    cases outcome with
    | error e => exact Or.inr (Or.inl ⟨c', e, rfl, retryOnce_of_error hretry⟩)
    | ok u => exact Or.inr (Or.inr ⟨c', rfl, rfl, retryOnce_of_ok hretry⟩)

/-- `retryOnce` keeps a connection safe if reconnecting makes a safe one. -/
theorem retryOnce_safe (hc : c.Safe) (hr : reconnect.1.Safe) :
    (retryOnce retry reconnect c o args db).context.Safe := by
  obtain ⟨-, h⟩ | ⟨c', e, rfl, h⟩ | ⟨c', -, rfl, h⟩ := retryOnce_cases retry reconnect c o args db
  · rw [h]
    exact redisCommand_safe args hc
  · rw [h]
    exact hr
  · rw [h]
    exact redisCommand_safe args hr

/-- `retryOnce` gives the command to safe connections only, if a reconnect without an error makes
a safe one. -/
theorem retryOnce_attempts_safe (hc : c.Safe) (hr : reconnect.2 = .ok () → reconnect.1.Safe) :
    ∀ a ∈ (retryOnce retry reconnect c o args db).attempts, a.context.Safe := by
  obtain ⟨-, h⟩ | ⟨c', e, rfl, h⟩ | ⟨c', -, rfl, h⟩ := retryOnce_cases retry reconnect c o args db
  · simpa [h] using hc
  · simpa [h] using hc
  · have hc' : c'.Safe := hr rfl
    simp [h, hc, hc']

/-- An `XADD` adds an entry for every attempt the server executes. -/
theorem retryOnce_appended {key field value : Bytes}
    (hargs : Command.ofArgs args = some (.xadd key field value)) :
    let r := retryOnce retry reconnect c o args db
    Streams.Appended key field value (r.attempts.countP (·.applied)) db r.db := by
  intro r
  have hfirst := redisCommand_appended c o.first db hargs
  obtain ⟨-, h⟩ | ⟨c', e, -, h⟩ | ⟨c', -, -, h⟩ := retryOnce_cases retry reconnect c o args db
  · simpa only [r, h, List.countP_singleton] using hfirst
  · simpa only [r, h, List.countP_singleton] using hfirst
  · have hsecond := redisCommand_appended c' o.second (redisCommand c o.first args db).db hargs
    have hboth := hfirst.trans hsecond
    simp only [r, h, List.countP_cons, List.countP_nil, Nat.zero_add]
    rwa [Nat.add_comm]

theorem retryOnce_length_le : (retryOnce retry reconnect c o args db).attempts.length ≤ 2 := by
  obtain ⟨-, h⟩ | ⟨c', e, -, h⟩ | ⟨c', -, -, h⟩ := retryOnce_cases retry reconnect c o args db
  all_goals simp [h]

/-- Unless reconnecting fails, `retryOnce` ends as its last attempt does, which finds the streams
as they were or as a first attempt left them. -/
theorem retryOnce_last {reply : Option RedisReply}
    (hout : (retryOnce retry reconnect c o args db).outcome = .ok reply) :
    ∃ c₁ x db₁, (db₁ = db ∨ ∃ now₁, db₁ = (db.exec now₁ (Command.ofArgs args)).1) ∧
      let r := redisCommand c₁ x args db₁
      r.reply = reply ∧ (retryOnce retry reconnect c o args db).context = r.context ∧
        (retryOnce retry reconnect c o args db).db = r.db ∧
        (retryOnce retry reconnect c o args db).attempts.getLast? = some ⟨c₁, x, r.applied⟩ := by
  obtain ⟨-, h⟩ | ⟨c', e, -, h⟩ | ⟨c', -, -, h⟩ := retryOnce_cases retry reconnect c o args db
  · rw [h] at hout ⊢
    exact ⟨c, o.first, db, Or.inl rfl, Except.ok.inj hout, rfl, rfl, rfl⟩
  · rw [h] at hout
    cases hout
  · rw [h] at hout ⊢
    -- The first attempt may have been executed although its reply was lost.
    exact ⟨c', o.second, _, redisCommand_db c o.first args db, Except.ok.inj hout, rfl, rfl, rfl⟩

/-- When no error is left, the server executed the last attempt. -/
theorem retryOnce_last_applied {reply : Option RedisReply}
    (hout : (retryOnce retry reconnect c o args db).outcome = .ok reply)
    (herr : (retryOnce retry reconnect c o args db).context.err = none)
    (hreply : reply.any RedisReply.isError = false) :
    ∃ a, (retryOnce retry reconnect c o args db).attempts.getLast? = some a ∧ a.applied = true := by
  obtain ⟨c₁, x, db₁, -, rfl, hcontext, -, hlast⟩ := retryOnce_last hout
  rw [hcontext, redisCommand_err] at herr
  exact ⟨_, hlast, redisCommand_applied herr hreply⟩

/-- When no error is left, the reply is that of the server to the last attempt; the first attempt
may have been executed before. -/
theorem retryOnce_executed {reply : Option RedisReply}
    (hout : (retryOnce retry reconnect c o args db).outcome = .ok reply)
    (herr : (retryOnce retry reconnect c o args db).context.err = none)
    (hreply : reply.any RedisReply.isError = false) :
    ∃ db₁ now, (db₁ = db ∨ ∃ now₁, db₁ = (db.exec now₁ (Command.ofArgs args)).1) ∧
      (retryOnce retry reconnect c o args db).db = (db₁.exec now (Command.ofArgs args)).1 ∧
      reply = some (db₁.exec now (Command.ofArgs args)).2 := by
  obtain ⟨c₁, x, db₁, hdb₁, rfl, hcontext, hdb, -⟩ := retryOnce_last hout
  rw [hcontext, redisCommand_err] at herr
  obtain ⟨now, hexec, hr⟩ := redisCommand_executed herr hreply
  exact ⟨db₁, now, hdb₁, hdb.trans hexec, hr⟩

/-- The first attempt is the first command, on the connection as it is found. -/
theorem retryOnce_head : (retryOnce retry reconnect c o args db).attempts.head? =
    some ⟨c, o.first, (redisCommand c o.first args db).applied⟩ := by
  obtain ⟨-, h⟩ | ⟨c', e, -, h⟩ | ⟨c', -, -, h⟩ := retryOnce_cases retry reconnect c o args db
  all_goals rw [h]; rfl

/-- There is a second attempt exactly if the first left an error that `retry` covers, and
reconnecting succeeded. -/
theorem retryOnce_again : 1 < (retryOnce retry reconnect c o args db).attempts.length ↔
    (c.errAfter o.first).any retry = true ∧ reconnect.2 = .ok () := by
  obtain ⟨hno, h⟩ | ⟨c', e, rfl, h⟩ | ⟨c', hretry, rfl, h⟩ :=
    retryOnce_cases retry reconnect c o args db
  · simp [h, hno]
  · simp [h]
  · simp [h, hretry]

/-- Two attempts are executed only if the reply to the first was lost with an error that `retry`
covers. -/
theorem retryOnce_twice
    (h : 1 < (retryOnce retry reconnect c o args db).attempts.countP (·.applied)) :
    (retryOnce retry reconnect c o args db).attempts.length = 2 ∧
      ∃ now err errstr, o.first = .lost (some now) err errstr ∧ retry err = true := by
  obtain ⟨-, heq⟩ | ⟨c', e, -, heq⟩ | ⟨c', hretry, -, heq⟩ :=
    retryOnce_cases retry reconnect c o args db
  · rw [heq, List.countP_singleton] at h
    split_ifs at h <;> omega
  · rw [heq, List.countP_singleton] at h
    split_ifs at h <;> omega
  · rw [heq] at h ⊢
    obtain ⟨err, herr, hcover⟩ := (Option.any_eq_true _ _).1 hretry
    have happ : (redisCommand c o.first args db).applied = true := by
      by_contra hno
      simp only [List.countP_cons, List.countP_nil, if_neg hno] at h
      split_ifs at h <;> omega
    obtain ⟨now, errstr, hlost⟩ := lost_of_applied herr happ
    exact ⟨rfl, now, err, errstr, hlost, hcover⟩

end

/-! ### When the server is back -/

/-- The server executes the command, not with an error, and the reply arrives. -/
def Exchange.Succeeds (x : Exchange) (args : List Bytes) (db : Streams) : Prop :=
  ∃ now, x = .served now ∧ (db.exec now (Command.ofArgs args)).2.isError = false

/-- From the first attempt on, which may meet any transport error, everything goes well. -/
structure Restored (c : RedisContext) (o : Outcomes) (args : List Bytes) (db : Streams) : Prop where
  connect : o.connect = .established
  auth : ∃ now, o.auth = .served now
  first : c.err = none →
    (∃ at? err errstr, o.first = .lost at? err errstr) ∨ o.first.Succeeds args db
  reconnect : o.reconnect = .established
  reauth : ∃ now, o.reauth = .served now
  second : o.second.Succeeds args (redisCommand c o.first args db).db

/-- The connection an operation starts with, if a new one is authenticated. -/
def startContext (cached : Option RedisContext) : RedisContext :=
  cached.getD ⟨none, [], true⟩

theorem authenticateWith_served {now : UInt64} :
    authenticateWith describe config .fresh (.served now) db = (⟨none, [], true⟩, .ok ()) :=
  authenticateWith_fresh

section

variable {retry : RedisErr → Bool} {o : Outcomes} {args : List Bytes}

theorem reconnectWith_restored (h : Restored c o args db) (db' : Streams) :
    reconnectWith failed describe config o db' = (⟨none, [], true⟩, .ok ()) := by
  obtain ⟨now, hnow⟩ := h.reauth
  rw [reconnectWith, h.reconnect, hnow, authenticateWith_served]

/-- A command that succeeds on a connection without an error. -/
theorem redisCommand_succeeds (hc : c.err = none) (hx : x.Succeeds args db) :
    (redisCommand c x args db).context.err = none ∧
      ∃ reply, (redisCommand c x args db).reply = some reply ∧ reply.isError = false := by
  obtain ⟨now, rfl, hreply⟩ := hx
  simp [redisCommand, hc, hreply]

/-- If `retry` covers the error of the connection or of the first attempt, or there is none, the
command succeeds. -/
theorem retryOnce_recovers (ε : Type*) (h : Restored c o args db)
    (hretry : (c.errAfter o.first).all retry = true) :
    let r := retryOnce retry ((⟨none, [], true⟩, .ok ()) : RedisContext × Except ε Unit) c o args db
    r.context.err = none ∧ ∃ reply, r.outcome = .ok (some reply) ∧ reply.isError = false := by
  intro r
  cases herr : c.errAfter o.first with
  | none =>
    have hc : c.err = none := by
      cases hc : c.err with
      | none => rfl
      | some e => simp [RedisContext.errAfter, hc] at herr
    have hfirst : o.first.Succeeds args db := by
      rcases h.first hc with ⟨at?, err, errstr, hlost⟩ | hfirst
      · simp [RedisContext.errAfter, hc, hlost] at herr
      · exact hfirst
    obtain ⟨herr', reply, hreply, hne⟩ := redisCommand_succeeds hc hfirst
    have hcover : (c.errAfter o.first).any retry = false := by simp [herr]
    simp only [r, retryOnce_of_not hcover]
    exact ⟨herr', reply, by rw [hreply], hne⟩
  | some err =>
    have hcover : (c.errAfter o.first).any retry = true := by simpa [herr] using hretry
    obtain ⟨herr', reply, hreply, hne⟩ := redisCommand_succeeds (c := ⟨none, [], true⟩) rfl h.second
    simp only [r, retryOnce_of_ok hcover]
    exact ⟨herr', reply, by rw [hreply], hne⟩

/-- If `retry` does not cover the error, it stays and there is no reply. -/
theorem retryOnce_stuck (reconnect : RedisContext × Except ε Unit) (args : List Bytes)
    (db : Streams) (hretry : (c.errAfter o.first).all retry = false) :
    let r := retryOnce retry reconnect c o args db
    r.context.err ≠ none ∧ r.outcome = .ok none := by
  intro r
  obtain ⟨err, herr⟩ : ∃ err, c.errAfter o.first = some err := by
    cases herr : c.errAfter o.first with
    | none => simp [herr] at hretry
    | some err => exact ⟨err, rfl⟩
  have hcover : (c.errAfter o.first).any retry = false := by simpa [herr] using hretry
  simp only [r, retryOnce_of_not hcover]
  refine ⟨by rw [redisCommand_err, herr]; simp, ?_⟩
  rw [redisCommand_reply_none herr]

end

end GatewayPoc
