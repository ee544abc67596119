import GatewayPoc.Redis.Hiredis

/-!
# Attempts one by one

`retryOnce` runs a command and, if the connection broke, reconnects and runs it again.  To the
server these are two commands, and other clients may be served between them.  Here a call with a
retry is taken apart into its two attempts.

* `secondTry` : the second attempt, with its reconnect.
* `retryOnce_eq` : the two attempts one after the other are `retryOnce`.
* `redisCommand_xadd`, `redisCommand_xdel` : what an attempt does to the stream of its command.
-/

namespace GatewayPoc

/-- What an attempt leaves behind. -/
structure Tried (ε : Type*) where
  context : RedisContext
  db : Streams
  /-- The server executed the command. -/
  applied : Bool
  /-- The reply, or the error of the reconnect. -/
  outcome : Except ε (Option RedisReply)

section

variable {ε : Type*}

/-- The second attempt of `retryOnce`, on the connection that `reconnect` made. -/
def secondTry (reconnect : RedisContext × Except ε Unit) (x : Exchange) (args : List Bytes)
    (db : Streams) : Tried ε :=
  match reconnect with
  | (c, .error e) => ⟨c, db, false, .error e⟩
  | (c, .ok _) =>
    let r := redisCommand c x args db
    ⟨r.context, r.db, r.applied, .ok r.reply⟩

/-- `retryOnce` is a first attempt, and a second one if the first left an error that `retry`
covers. -/
theorem retryOnce_eq (retry : RedisErr → Bool) (reconnect : RedisContext × Except ε Unit)
    (c : RedisContext) (o : Outcomes) (args : List Bytes) (db : Streams) :
    let r := redisCommand c o.first args db
    let t := secondTry reconnect o.second args r.db
    let q := retryOnce retry reconnect c o args db
    (q.context, q.db, q.outcome) =
      if r.context.err.any retry = true then (t.context, t.db, t.outcome)
      else (r.context, r.db, .ok r.reply) := by
  intro r t q
  cases hretry : r.context.err.any retry with
  | false =>
    have hq : q = ⟨r.context, r.db, [⟨c, o.first, r.applied⟩], .ok r.reply⟩ :=
      retryOnce_of_not (by rwa [← redisCommand_err c o.first args db])
    simp [hq]
  | true =>
    have hcover : (c.errAfter o.first).any retry = true := by
      rwa [← redisCommand_err c o.first args db]
    obtain ⟨c', outcome⟩ := reconnect
    cases outcome with
    | error e =>
      have hq : q = ⟨c', r.db, [⟨c, o.first, r.applied⟩], .error e⟩ := retryOnce_of_error hcover
      simp [hq, t, secondTry]
    | ok u =>
      have hq : q = _ := retryOnce_of_ok hcover
      simp [hq, t, r, secondTry]

/-- A reconnect does not depend on the streams. -/
theorem reconnectWith_congr (failed : ε) (describe : Bytes → ε) (config : RedisConfig)
    (o : Outcomes) (db db' : Streams) :
    reconnectWith failed describe config o db = reconnectWith failed describe config o db' := by
  unfold reconnectWith
  cases o.reconnect with
  | failed err errstr => rfl
  | established => rw [authenticateWith_fresh, authenticateWith_fresh]

end

/-! ### What an attempt does to its stream -/

variable {c : RedisContext} {x : Exchange} {args : List Bytes} {db : Streams}

/-- A command of a server that executes it is applied if the reply is no error. -/
theorem redisCommand_cases (c : RedisContext) (x : Exchange) (args : List Bytes) (db : Streams) :
    let r := redisCommand c x args db
    (r.db = db ∧ r.applied = false) ∨
      ∃ now, r.db = (db.exec now (Command.ofArgs args)).1 ∧
        r.applied = !(db.exec now (Command.ofArgs args)).2.isError := by
  intro r
  simp only [r]
  unfold redisCommand
  cases c.err with
  | some e => exact Or.inl ⟨rfl, rfl⟩
  | none =>
    cases x with
    | served now => exact Or.inr ⟨now, rfl, rfl⟩
    | refused str => exact Or.inl ⟨rfl, rfl⟩
    | lost at? err errstr =>
      cases at? with
      | none => exact Or.inl ⟨rfl, rfl⟩
      | some now => exact Or.inr ⟨now, rfl, rfl⟩

/-- An `XDEL` that is applied deletes its ids, and one that is not changes nothing. -/
theorem redisCommand_xdel {key : Bytes} {ids : List EntryId}
    (hargs : Command.ofArgs args = some (.xdel key ids)) :
    let r := redisCommand c x args db
    r.db = if r.applied = true then Function.update db key ((db key).xdel ids) else db := by
  intro r
  obtain ⟨hdb, happ⟩ | ⟨now, hdb, happ⟩ := redisCommand_cases c x args db
  · simp [r, hdb, happ]
  · rw [hargs] at hdb happ
    simp [r, hdb, happ, Streams.exec, RedisReply.isError]

/-- A command that the server does not understand changes nothing. -/
theorem redisCommand_none (hargs : Command.ofArgs args = none) :
    (redisCommand c x args db).db = db ∧ (redisCommand c x args db).applied = false := by
  obtain h | ⟨now, hdb, happ⟩ := redisCommand_cases c x args db
  · exact h
  · rw [hargs] at hdb happ
    exact ⟨hdb, happ⟩

/-- An `XRANGE` changes nothing. -/
theorem redisCommand_xrange {key : Bytes} {count : ℕ}
    (hargs : Command.ofArgs args = some (.xrange key count)) :
    (redisCommand c x args db).db = db := by
  obtain ⟨hdb, -⟩ | ⟨now, hdb, -⟩ := redisCommand_cases c x args db
  · exact hdb
  · rw [hdb, hargs]
    simp only [Streams.exec]
    split_ifs <;> rfl

/-- An `XADD` that is applied is executed by the server, and one that is not changes nothing. -/
theorem redisCommand_xadd {key field value : Bytes}
    (hargs : Command.ofArgs args = some (.xadd key field value)) :
    let r := redisCommand c x args db
    (r.applied = false ∧ r.db = db) ∨
      (r.applied = true ∧ ∃ now, r.db = (db.exec now (some (.xadd key field value))).1 ∧
        (db.exec now (some (.xadd key field value))).2.isError = false) := by
  intro r
  obtain ⟨hdb, happ⟩ | ⟨now, hdb, happ⟩ := redisCommand_cases c x args db
  · exact Or.inl ⟨happ, hdb⟩
  · rw [hargs] at hdb happ
    cases hadd : (db key).xadd now [(field, value)] with
    | none =>
      refine Or.inl ?_
      simp only [Streams.exec, hadd] at hdb happ
      exact ⟨happ, hdb⟩
    | some p =>
      have hreply : (db.exec now (some (.xadd key field value))).2.isError = false := by
        simp only [Streams.exec, hadd, RedisReply.isError]
      exact Or.inr ⟨by simpa [r, hreply] using happ, now, hdb, hreply⟩

end GatewayPoc
