import GatewayPoc.GwBack.Order

/-!
# Emptying the stream

From the head of the loop the back end on Redis can always finish, if the server is back: rounds in
which nothing fails empty the stream and hand its entries over in order, and an orderly stop leaves
every entry ever appended in a file.  The connection may have broken before, as long as its error is
one that `getNext` answers with a reconnect.

* `RedisProducer.Working` : the connection, if there is one, carries no error.
* `RedisBack.runIf_round` : one round of the loop takes the first entries of the stream.
* `RedisBack.runIf_mend` : one round that starts with a broken connection.
* **`RedisBack.drains`** : the stream is emptied and everything is written.
-/

namespace GatewayPoc

namespace RedisProducer

/-! ### Calls in which nothing fails -/

/-- A command does not meet an old error. -/
def Working (p : RedisProducer) : Prop := ∀ c, p.connection = some c → c.err = none

/-- The first call of `getNext` mends the connection, if it is broken. -/
def Mendable (p : RedisProducer) : Prop :=
  ∀ c, p.connection = some c → c.err.all RedisErr.isEofOrIo = true

instance (p : RedisProducer) : Decidable p.Mendable :=
  match h : p.connection with
  | none => isTrue fun c hc => by simp [h] at hc
  | some c =>
    if hc : c.err.all RedisErr.isEofOrIo = true then
      isTrue fun c' hc' => by rw [h] at hc'; exact Option.some.inj hc' ▸ hc
    else isFalse fun hall => hc (hall c h)

section

variable {α : Type} {p : RedisProducer} {o : Outcomes}

/-- The command of a call is executed, and its reply is checked. -/
theorem runFirst_served (ho : o.Served) (h : p.Working) (retry : RedisErr → Bool)
    (args : List Bytes) (check : RedisContext → Option RedisReply → Except Failure α)
    (db : Streams) :
    ∃ now p' c, p'.Working ∧ p'.chunkSize = p.chunkSize ∧ c.err = none ∧
      let r := db.exec now (Command.ofArgs args)
      p.runFirst retry o args check db = ⟨p', r.1, !r.2.isError, some (check c (some r.2))⟩ := by
  obtain ⟨p₁, c, hget, hchunk, hc⟩ : ∃ p₁ c, p.getConnection o db = (p₁, .ok c) ∧
      p₁.chunkSize = p.chunkSize ∧ c.err = none := by
    cases hconn : p.connection with
    | some c => exact ⟨p, c, by simp [getConnection, hconn], rfl, h c hconn⟩
    | none =>
      obtain ⟨now, hnow⟩ := ho.auth
      have hauth : authenticate p.config .fresh (.served now) db = (⟨none, [], true⟩, .ok ()) :=
        authenticateWith_served
      exact ⟨{ p with connection := some ⟨none, [], true⟩ }, ⟨none, [], true⟩,
        by simp [getConnection, hconn, ho.connect, hnow, hauth], rfl, rfl⟩
  obtain ⟨now, hnow⟩ := ho.first
  let r := db.exec now (Command.ofArgs args)
  let c' : RedisContext := { c with
    authed := c.authed || (Command.ofArgs args).any Command.isAuth }
  have hsent : redisCommand c o.first args db = ⟨c', some r.2, r.1, !r.2.isError⟩ := by
    simp [redisCommand, hc, c', r, hnow]
  refine ⟨now, { p₁ with connection := some c' }, c', ?_, hchunk, hc, ?_⟩
  · intro c'' hc''
    obtain rfl : c' = c'' := Option.some.inj hc''
    exact hc
  · simp only [runFirst, hget, hsent]
    rw [if_neg (by simp [c', hc])]

/-- After the reconnect the command is executed, and its reply is checked. -/
theorem runAgain_served (ho : o.Served) (args : List Bytes)
    (check : RedisContext → Option RedisReply → Except Failure α) (db : Streams) :
    ∃ now p' c, p'.Working ∧ p'.chunkSize = p.chunkSize ∧ c.err = none ∧
      let r := db.exec now (Command.ofArgs args)
      p.runAgain o args check db = ⟨p', r.1, !r.2.isError, some (check c (some r.2))⟩ := by
  obtain ⟨now, hnow⟩ := ho.second
  have hrec : reconnect p.config o db = (⟨none, [], true⟩, .ok ()) := by
    obtain ⟨now, hnow⟩ := ho.reauth
    rw [reconnect, reconnectWith, ho.reconnect, hnow]
    exact authenticateWith_served
  let r := db.exec now (Command.ofArgs args)
  have hagain : p.runAgain o args check db =
      ⟨{ p with connection := some ⟨none, [], true⟩ }, r.1, !r.2.isError,
        some (check ⟨none, [], true⟩ (some r.2))⟩ := by
    rw [runAgain, hrec]
    simp [secondTry, redisCommand, hnow, r]
  refine ⟨now, { p with connection := some ⟨none, [], true⟩ }, ⟨none, [], true⟩, fun c hc => ?_,
    rfl, rfl, hagain⟩
  obtain rfl := Option.some.inj hc
  rfl

/-- The reply to an `XRANGE` passes the checks of `getNext`. -/
theorem checkMessages_xrange {c : RedisContext} (hc : c.err = none) (entries : List Entry) :
    checkMessages c (some (.array (entries.map Streams.entryReply))) =
      .ok (entries.map messageOf) := by
  have hstate : checkState c (some (.array (entries.map Streams.entryReply))) = .ok () := by
    simp [checkState, hc]
  rw [checkMessages, hstate]
  exact messagesFromReply_entries entries

/-- An `XRANGE` of at least one entry. -/
theorem exec_xrangeArgs (hchunk : 0 < p.chunkSize.toNat) (now : UInt64) (db : Streams) :
    db.exec now (Command.ofArgs (xrangeArgs p.chunkSize)) =
      (db, .array (((db messagesStream).entries.take p.chunkSize.toNat).map
        Streams.entryReply)) := by
  rw [ofArgs_xrangeArgs]
  exact if_neg (by omega)

theorem getNextFirst_served (ho : o.Served) (h : p.Working) (hchunk : 0 < p.chunkSize.toNat)
    (db : Streams) :
    ∃ p', p'.Working ∧ p'.chunkSize = p.chunkSize ∧ p.getNextFirst o db =
      ⟨p', db, true,
        some (.ok (((db messagesStream).entries.take p.chunkSize.toNat).map messageOf))⟩ := by
  obtain ⟨now, p', c, hp', hsize, hc, hrun⟩ :=
    runFirst_served ho h RedisErr.isEofOrIo (xrangeArgs p.chunkSize) checkMessages db
  simp only [exec_xrangeArgs hchunk, checkMessages_xrange hc] at hrun
  exact ⟨p', hp', hsize, hrun⟩

theorem getNextAgain_served (ho : o.Served) (hchunk : 0 < p.chunkSize.toNat) (db : Streams) :
    ∃ p', p'.Working ∧ p'.chunkSize = p.chunkSize ∧ p.getNextAgain o db =
      ⟨p', db, true,
        some (.ok (((db messagesStream).entries.take p.chunkSize.toNat).map messageOf))⟩ := by
  obtain ⟨now, p', c, hp', hsize, hc, hrun⟩ :=
    runAgain_served (p := p) ho (xrangeArgs p.chunkSize) checkMessages db
  simp only [exec_xrangeArgs hchunk, checkMessages_xrange hc] at hrun
  exact ⟨p', hp', hsize, hrun⟩

/-- A connection that does not work carries an error. -/
theorem exists_err (h : ¬ p.Working) : ∃ c err, p.connection = some c ∧ c.err = some err := by
  simp only [Working, not_forall] at h
  obtain ⟨c, hconn, hc⟩ := h
  obtain ⟨err, herr⟩ := Option.ne_none_iff_exists'.1 hc
  exact ⟨c, err, hconn, herr⟩

/-- Nothing is sent on a broken connection. -/
theorem runFirst_broken {c : RedisContext} {err : RedisErr} (hconn : p.connection = some c)
    (herr : c.err = some err) (retry : RedisErr → Bool) (o : Outcomes) (args : List Bytes)
    (check : RedisContext → Option RedisReply → Except Failure α) (db : Streams) :
    p.runFirst retry o args check db =
      ⟨p, db, false, if retry err = true then none else some (check c none)⟩ := by
  have hsame : { p with connection := some c } = p := by rw [← hconn]
  simp only [runFirst, getConnection, hconn, redisCommand, herr, Option.any_some, hsame]
  split_ifs <;> rfl

/-- A broken connection with an error that `getNext` answers with a reconnect. -/
theorem getNextFirst_broken {c : RedisContext} {err : RedisErr} (hconn : p.connection = some c)
    (herr : c.err = some err) (hcover : err.isEofOrIo = true) (o : Outcomes) (db : Streams) :
    p.getNextFirst o db = ⟨p, db, false, none⟩ := by
  rw [getNextFirst, runFirst_broken hconn herr, if_pos hcover]

theorem markConsumedFirst_served (ho : o.Served) (h : p.Working) {messages : Messages}
    (hne : messages ≠ []) (db : Streams) :
    ∃ p', p'.Working ∧ p'.chunkSize = p.chunkSize ∧ p.markConsumedFirst o messages db =
      ⟨p', Function.update db messagesStream
        ((db messagesStream).xdel (messages.map fun message => unpackId message.id)), true,
        some (.ok ())⟩ := by
  obtain ⟨now, p', c, hp', hsize, hc, hrun⟩ := runFirst_served ho h (fun err => err = .eof)
    (formatWords (makeXdelCommand messages)) checkState db
  rw [ofArgs_makeXdelCommand hne] at hrun
  refine ⟨p', hp', hsize, hrun.trans ?_⟩
  simp [Streams.exec, RedisReply.isError, checkState, hc]

end

end RedisProducer

namespace RedisBack

open RedisProducer (messagesStream messageOf packId unpackId Packable)

variable {s s' : RedisBack}

/-! ### A round -/

/-- Every `XDEL` is executed, every file can be opened, and `main` waits for the threads. -/
abbrev Opened (s : RedisBack) (e : Event) : Prop := s.AcksExecuted e ∧ s.Finishes e

/-- The loop is at its head, and goes on, with a working connection. -/
structure AtHead (s : RedisBack) : Prop where
  pc : s.pc = .loop
  run : s.run = true
  working : s.producer.Working

/-- The events of a round of the loop in which nothing fails. -/
def round : List Event := [.getNext .fine, .consume, .markConsumed .fine]

/-- The events of a round that finds the connection broken. -/
def mend : List Event := [.getNext .fine, .getNextAgain .fine, .consume, .markConsumed .fine]

/-- What the acknowledgement of the batch leaves in the stream. -/
theorem entries_xdel_batch (hpack : ∀ entry ∈ s.entries, Packable entry.id) {messages : Messages}
    (hids : messages.map Message.id = s.batch.map Message.id) :
    (s.xdel messages true messagesStream).entries =
      s.entries.drop s.producer.chunkSize.toNat := by
  have htexts : messages.map (fun message => unpackId message.id) =
      (s.entries.take s.producer.chunkSize.toNat).map Entry.id := by
    have hmap : messages.map (fun message => unpackId message.id) =
        (s.batch.map Message.id).map unpackId := by rw [← hids, List.map_map]; rfl
    rw [hmap, batch, List.map_map, List.map_map]
    refine List.map_congr_left fun entry hentry => ?_
    exact RedisProducer.unpackId_packId (hpack entry (List.mem_of_mem_take hentry))
  rw [entries_xdel, if_pos rfl, htexts]
  exact filter_key_eq_drop (Stream.ids_nodup _) _

/-- What a round does: the first entries are handed over and deleted. -/
structure Took (s s' : RedisBack) : Prop where
  head : s'.AtHead
  chunkSize : s'.producer.chunkSize = s.producer.chunkSize
  log : s'.log = s.log
  entries : s'.entries = s.entries.drop s.producer.chunkSize.toNat
  handed : s'.handed = s.handed ++ s.batch

/-- The second half of a round, once the batch is fetched. -/
theorem runIf_take (hpc : s.pc = .fetched s.batch) (hrun : s.run = true)
    (hworking : s.producer.Working) (hpack : ∀ entry ∈ s.entries, Packable entry.id)
    (hne : s.batch ≠ []) :
    ∃ s', machine.runIf Opened s [.consume, .markConsumed .fine] = some s' ∧ Took s s' := by
  let r := s.consumer.call s.batch
  have hmessages : r.messages ≠ [] := by simpa [r, MessageConsumer.call] using hne
  obtain ⟨p', hp', hsize, hmark⟩ :=
    RedisProducer.markConsumedFirst_served Outcomes.served_fine hworking hmessages s.db
  let s₁ : RedisBack := { s with
    pc := .consumed r.messages
    consumer := r.consumer
    started := s.started ++ r.flushed
    saving := s.saving ++ r.flushed.map fun chunk => ⟨chunk, s.consumer.outputFolder⟩ }
  have hconsume : s.next .consume = some s₁ := by
    simp only [next, hpc]
    rfl
  let s₂ : RedisBack := { s₁ with producer := p', db := s.xdel r.messages true, pc := .loop }
  have hnext : s₁.next (.markConsumed .fine) = some s₂ := by
    simp only [next, s₁, hmark]
    rfl
  have hacks : s₁.AcksExecuted (.markConsumed .fine) := by
    simp [AcksExecuted, s₁, hmark]
  refine ⟨s₂, ?_, ⟨rfl, hrun, hp'⟩, hsize, rfl, ?_, handed_consume s s.batch⟩
  · exact Machine.runIf_cons ⟨trivial, trivial⟩ hconsume (Machine.runIf_one ⟨hacks, trivial⟩ hnext)
  · exact entries_xdel_batch hpack (MessageConsumer.call_messages_ids _ _)

/-- A batch that is not empty moves the loop on. -/
theorem afterNext_batch (hne : s.batch ≠ []) :
    afterNext (some (.ok s.batch)) = .fetched s.batch := by
  simp [afterNext, hne]

/-- **A round** takes the first entries of the stream, hands them over and deletes them. -/
theorem runIf_round (h : s.AtHead) (hchunk : 0 < s.producer.chunkSize.toNat)
    (hpack : ∀ entry ∈ s.entries, Packable entry.id) (hne : s.entries ≠ []) :
    ∃ s', machine.runIf Opened s round = some s' ∧ Took s s' := by
  have hbatch : s.batch ≠ [] := by
    simpa [batch, hne] using Nat.pos_iff_ne_zero.1 hchunk
  obtain ⟨p', hp', hsize, hnext⟩ :=
    RedisProducer.getNextFirst_served Outcomes.served_fine h.working hchunk s.db
  let s₁ : RedisBack := { s with producer := p', pc := .fetched s.batch }
  have hfetch : s.next (.getNext .fine) = some s₁ := by
    have hready : s.pc = .loop ∧ s.run = true := ⟨h.pc, h.run⟩
    simp only [next, if_pos hready, hnext]
    exact congrArg (fun pc => some { s with producer := p', pc := pc }) (afterNext_batch hbatch)
  have hsame : s₁.batch = s.batch := by simp only [batch, s₁, hsize]; rfl
  obtain ⟨s', hrun, htook⟩ := runIf_take (s := s₁) (by rw [hsame]) h.run hp' hpack (hsame ▸ hbatch)
  refine ⟨s', ?_, htook.head, htook.chunkSize.trans hsize, htook.log, ?_, ?_⟩
  · exact Machine.runIf_cons ⟨trivial, trivial⟩ hfetch hrun
  · rw [htook.entries]
    exact congrArg (fun n : UInt32 => s.entries.drop n.toNat) hsize
  · rw [htook.handed, hsame]
    rfl

/-- As many rounds as the stream has batches empty it. -/
theorem runIf_rounds (h : s.AtHead) (hchunk : 0 < s.producer.chunkSize.toNat)
    (hpack : ∀ entry ∈ s.entries, Packable entry.id) :
    ∃ s', machine.runIf Opened s
        (Machine.rounds round (s.entries.length ⌈/⌉ s.producer.chunkSize.toNat)) = some s' ∧
      s'.AtHead ∧ s'.log = s.log ∧ s'.entries = [] ∧
      s'.handed = s.handed ++ s.entries.map messageOf := by
  let Ready : RedisBack → Prop := fun s₁ =>
    s₁.AtHead ∧ s₁.producer.chunkSize = s.producer.chunkSize ∧ s₁.log = s.log ∧
      ∀ entry ∈ s₁.entries, Packable entry.id
  let n := s.producer.chunkSize.toNat
  have hround : ∀ s₁, Ready s₁ → s₁.entries.map messageOf ≠ [] → ∃ s₂,
      machine.runIf Opened s₁ round = some s₂ ∧ Ready s₂ ∧
        s₂.entries.map messageOf = (s₁.entries.map messageOf).drop n ∧
        s₂.handed = s₁.handed ++ (s₁.entries.map messageOf).take n := by
    rintro s₁ ⟨hhead, hsize, hlog, hpack₁⟩ hne
    obtain ⟨s₂, hrun, htook⟩ := runIf_round hhead (hsize ▸ hchunk) hpack₁ (by simpa using hne)
    have hentries : s₂.entries = s₁.entries.drop n := by rw [htook.entries, hsize]
    refine ⟨s₂, hrun, ⟨htook.head, htook.chunkSize.trans hsize, htook.log.trans hlog, ?_⟩, ?_, ?_⟩
    · exact fun entry hentry => hpack₁ entry (List.mem_of_mem_drop (hentries ▸ hentry))
    · rw [hentries, List.map_drop]
    · rw [htook.handed, batch, hsize, List.map_take]
  obtain ⟨s', hrun, ⟨hhead, -, hlog, -⟩, hnil, hhanded⟩ :=
    Machine.runIf_drain hchunk hround ⟨h, rfl, rfl, hpack⟩
  rw [List.length_map] at hrun
  exact ⟨s', hrun, hhead, hlog, by simpa using hnil, hhanded⟩

/-! ### A broken connection -/

/-- The ways to get the connection to work: it does, or `getNext` reconnects, with or without a
batch to hand over. -/
def repairs : List (List Event) := [[], [.getNext .fine, .getNextAgain .fine], mend]

/-- The stream up to a prefix that was handed over. -/
structure Moved (s s' : RedisBack) : Prop where
  head : s'.AtHead
  chunkSize : s'.producer.chunkSize = s.producer.chunkSize
  log : s'.log = s.log
  suffix : s'.entries <:+ s.entries
  handed : s'.handed ++ s'.entries.map messageOf = s.handed ++ s.entries.map messageOf

theorem Took.moved (h : Took s s') : Moved s s' := by
  refine ⟨h.head, h.chunkSize, h.log, h.entries ▸ List.drop_suffix _ _, ?_⟩
  rw [h.handed, h.entries, batch, List.append_assoc, ← List.map_append, List.take_append_drop]

/-- **The connection is mended**, by `getNext` if it is broken. -/
theorem runIf_repair (hpc : s.pc = .loop) (hrun : s.run = true) (hmendable : s.producer.Mendable)
    (hchunk : 0 < s.producer.chunkSize.toNat) (hpack : ∀ entry ∈ s.entries, Packable entry.id) :
    ∃ repair ∈ repairs, ∃ s', machine.runIf Opened s repair = some s' ∧ Moved s s' := by
  by_cases hworking : s.producer.Working
  · exact ⟨[], by simp [repairs], s, rfl, ⟨hpc, hrun, hworking⟩, rfl, rfl, List.suffix_refl _, rfl⟩
  -- the connection carries an error, and `getNext` reconnects
  obtain ⟨c, err, hconn, herr⟩ := RedisProducer.exists_err hworking
  have hcover : err.isEofOrIo = true := by simpa [herr] using hmendable c hconn
  let s₁ : RedisBack := { s with pc := .nextAgain }
  have hfirst : s.next (.getNext .fine) = some s₁ := by
    have hready : s.pc = .loop ∧ s.run = true := ⟨hpc, hrun⟩
    have hbroken := RedisProducer.getNextFirst_broken hconn herr hcover .fine s.db
    simp only [next, if_pos hready, hbroken]
    rfl
  obtain ⟨p', hp', hsize, hagain⟩ :=
    RedisProducer.getNextAgain_served (p := s.producer) Outcomes.served_fine hchunk s.db
  let s₂ : RedisBack :=
    { s with producer := p', pc := afterNext (some (.ok s.batch)) }
  have hnext : s₁.next (.getNextAgain .fine) = some s₂ := by
    simp only [next, s₁, if_true, hagain]
    rfl
  have hreconnect : ∀ {es s'}, machine.runIf Opened s₂ es = some s' →
      machine.runIf Opened s (.getNext .fine :: .getNextAgain .fine :: es) = some s' := fun h =>
    Machine.runIf_cons ⟨trivial, trivial⟩ hfirst (Machine.runIf_cons ⟨trivial, trivial⟩ hnext h)
  by_cases hbatch : s.batch = []
  · have hpc₂ : s₂.pc = .loop := by simp [s₂, hbatch, afterNext]
    exact ⟨[.getNext .fine, .getNextAgain .fine], by simp [repairs], s₂, hreconnect rfl,
      ⟨hpc₂, hrun, hp'⟩, hsize, rfl, List.suffix_refl _, rfl⟩
  · have hsame : s₂.batch = s.batch := by simp only [batch, s₂, hsize]; rfl
    have hpc₂ : s₂.pc = .fetched s₂.batch := by
      rw [hsame]
      exact afterNext_batch hbatch
    obtain ⟨s', htake, htook⟩ := runIf_take hpc₂ hrun hp' hpack (hsame ▸ hbatch)
    refine ⟨mend, by simp [repairs], s', hreconnect htake, ?_⟩
    have hmoved := htook.moved
    exact ⟨hmoved.head, hmoved.chunkSize.trans hsize, hmoved.log, hmoved.suffix, hmoved.handed⟩

/-! ### An orderly stop -/

/-- The state that an orderly stop leads to. -/
def stopped (s : RedisBack) : RedisBack := { s with
  run := false
  pc := .exited
  consumer := s.process.stopped.consumer
  started := s.process.stopped.started
  saving := s.process.stopped.saving
  files := s.process.stopped.files }

/-- The events of an orderly stop with `k` threads that have not finished. -/
def stop (k : ℕ) : List Event :=
  [.signal] ++ Machine.rounds [.save 0 true] k ++ [.join, .destroy true, .exit]

/-- The threads run to their end, in the order they were started. -/
theorem runIf_saves (s : RedisBack) :
    machine.runIf Opened s (Machine.rounds [.save 0 true] s.saving.length) =
      some { s with saving := [], files := Process.saveAll s.files s.saving } :=
  Machine.runIf_queue (fun saving files => { s with saving, files })
    (fun _ _ _ => ⟨⟨trivial, rfl⟩, rfl⟩) s.saving s.files

/-- From the head of the loop the process can always stop in order. -/
theorem runIf_stop (h : s.AtHead) :
    machine.runIf Opened s (stop s.saving.length) = some s.stopped := by
  let s₁ : RedisBack := { s with run := false }
  let s₂ : RedisBack := { s₁ with saving := [], files := Process.saveAll s.files s.saving }
  let s₃ : RedisBack := { s₂ with pc := .joined }
  have hjoin : s₂.next .join = some s₃ := if_pos ⟨h.pc, rfl⟩
  have hend : machine.runIf Opened s₂ [.join, .destroy true, .exit] = some s.stopped :=
    Machine.runIf_cons ⟨trivial, trivial⟩ hjoin
      (Machine.runIf_cons ⟨trivial, rfl⟩ rfl (Machine.runIf_one ⟨trivial, rfl⟩ rfl))
  have hsignal : machine.runIf Opened s [.signal] = some s₁ :=
    Machine.runIf_one ⟨trivial, trivial⟩ rfl
  exact Machine.runIf_trans (Machine.runIf_trans hsignal (runIf_saves s₁)) hend

/-- A repair, rounds and an orderly stop. -/
theorem runIf_finish (hpc : s.pc = .loop) (hrun : s.run = true)
    (hmendable : s.producer.Mendable) (hchunk : 0 < s.producer.chunkSize.toNat)
    (hpack : ∀ entry ∈ s.entries, Packable entry.id) :
    ∃ repair ∈ repairs, ∃ k j s', machine.runIf Opened s
        (repair ++ Machine.rounds round k ++ stop j) = some s' ∧
      s'.pc = .exited ∧ s'.entries = [] ∧ s'.log = s.log ∧
      s'.handed = s.handed ++ s.entries.map messageOf := by
  obtain ⟨repair, hrepair, s₁, hrun₁, hmoved⟩ := runIf_repair hpc hrun hmendable hchunk hpack
  obtain ⟨s₂, hrun₂, hhead, hlog₂, hnil, hhanded₂⟩ := runIf_rounds hmoved.head
    (hmoved.chunkSize ▸ hchunk) fun entry hentry => hpack entry (hmoved.suffix.subset hentry)
  have hhanded₃ : s₂.stopped.handed = s₂.handed := s₂.process.stopped_handed
  exact ⟨repair, hrepair, _, _, s₂.stopped,
    Machine.runIf_trans (Machine.runIf_trans hrun₁ hrun₂) (runIf_stop hhead), rfl, hnil,
    hlog₂.trans hmoved.log, hhanded₃.trans (hhanded₂.trans hmoved.handed)⟩

/-- **The back end can always finish**, on Redis.  From the head of the loop of any run in which the
server executes the `XDEL` of every acknowledgement, every file can be opened, `main` has waited for
the threads in every life of the process so far, and packing loses nothing of the ids, with no stop
asked for and a chunk size that is not zero, if the connection, should it be broken, is so by an
`EOF` or `IO` error: a repair, and then rounds in which nothing fails, empty the stream and hand
every entry ever appended over, each once, in the order of the stream; and if the stop then waits
for the threads too, the files hold every entry once. -/
theorem drains (hreach : machine.Reachable Opened s) (hpack : s.AllPackable) (hpc : s.pc = .loop)
    (hrun : s.run = true) (hmendable : s.producer.Mendable)
    (hchunk : 0 < s.producer.chunkSize.toNat) :
    ∃ repair ∈ repairs, ∃ k j s', machine.runIf Opened s
        (repair ++ Machine.rounds round k ++ stop j) = some s' ∧
      s'.pc = .exited ∧ s'.entries = [] ∧ s'.log = s.log ∧ s'.handed = s.log.map messageOf ∧
      (s.log.map messageOf).Perm (s'.files.flatMap OutputFile.messages) := by
  have hstream : ∀ entry ∈ s.entries, Packable entry.id := fun entry hentry =>
    hpack entry ((sound_of_reachable hreach).sublist.subset hentry)
  obtain ⟨repair, hrepair, k, j, s', hall, hpc', hentries, hlog, hhanded⟩ :=
    runIf_finish hpc hrun hmendable hchunk hstream
  have hqueue := handed_append_waiting (hreach.mono fun _ _ _ hg => hg.1) hpack
  have hwaiting : s.waiting = s.entries.map messageOf := by
    simp [waiting, hpc, RedisPc.toPc, Pc.taken]
  refine ⟨repair, hrepair, k, j, s', hall, hpc', hentries, hlog, ?_, ?_⟩
  · rw [hhanded, ← hwaiting, hqueue]
  · rw [← hlog]
    exact log_perm_files (Machine.reachable_of_runIf hreach hall)
      (fun entry hentry => hpack entry (hlog ▸ hentry)) hpc' hentries

/-- The connection broke in an acknowledgement that was executed; `getNext` mends it. -/
theorem drains_sample : ∃ s s' : RedisBack, s.entries.length = 3 ∧ s'.entries = [] ∧
    s'.handed = s.log.map messageOf ∧
    (s.log.map messageOf).Perm (s'.files.flatMap OutputFile.messages) := by
  let lost : Outcomes := { Outcomes.fine with first := .lost (some 6) .io [] }
  let run : List Event := [.xadd 5 [97], .getNext .fine, .consume, .markConsumed lost,
    .xadd 6 [98], .xadd 6 [99], .xadd 7 [100]]
  obtain ⟨s, hr, hpack, hpc, hrun, hmendable, hchunk, hlen⟩ := Machine.exists_of_runIf
    (M := machine) (G := Opened)
    (P := fun s => s.AllPackable ∧ s.pc = .loop ∧ s.run = true ∧ s.producer.Mendable ∧
      0 < s.producer.chunkSize.toNat ∧ s.entries.length = 3)
    ⟨⟨[], []⟩, { chunkSize := 2 }, { chunkSize := 2, outputFolder := [] }, rfl⟩ run
    (by decide +kernel)
  obtain ⟨_, _, _, _, s', -, -, hentries, -, hhanded, hfiles⟩ :=
    drains hr hpack hpc hrun hmendable hchunk
  exact ⟨s, s', hlen, hentries, hhanded, hfiles⟩

end RedisBack

end GatewayPoc
