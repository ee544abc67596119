import GatewayPoc.Gateway.PostgresGateway
import GatewayPoc.Gateway.RedisGateway
import GatewayPoc.GwBack.RedisDrain
import GatewayPoc.GwFront.Answering

/-!
# The gateway can always finish

No part of the gateway ever waits for another one in a circle.  From every state of every run, as
long as no stop was asked for, the calls under way can be answered, the storage emptied and the back
end stopped, with every payload in a file.

* `GwBack.runIf_toHead` : the loop gets to its head.
* `GwBack.runIf_finish` : from there it empties the table and stops.
* `PostgresGateway.runIf_back` : a run of the back end is a run of the gateway.
* **`PostgresGateway.rows_completed`** : the gateway on PostgreSQL can finish.
* `RedisWriter.writeFirst_served`, `RedisWriter.writeAgain_served` : attempts that are executed.
* **`RedisGateway.entries_completed`** : the gateway on Redis can finish, if its broken connections
  are mended.
-/

namespace GatewayPoc

/-- There is an id that was not used, as long as not all were. -/
theorem exists_fresh_id (ids : List UInt64) (h : ids.length < 2 ^ 64) : ∃ id, id ∉ ids := by
  by_contra hall
  simp only [not_exists, not_not] at hall
  let first := (List.range (ids.length + 1)).map UInt64.ofNat
  have hnodup : first.Nodup := by
    refine List.Nodup.map_on (fun a ha b hb hab => ?_) List.nodup_range
    rw [List.mem_range] at ha hb
    have hsize : UInt64.size = 2 ^ 64 := rfl
    have hnat := congrArg UInt64.toNat hab
    rwa [UInt64.toNat_ofNat_of_lt' (by omega), UInt64.toNat_ofNat_of_lt' (by omega)] at hnat
  have hle := (List.subperm_of_subset hnodup fun id _ => hall id).length_le
  simp [first] at hle

namespace GwBack

variable {s s' : GwBack} {G : GwBack → Event → Prop}

/-! ### The back end -/

/-- An event of the back end itself. -/
def Event.isOwn : Event → Bool
  | .commit _ => false
  | _ => true

/-- The loop runs until a stop is asked for. -/
theorem run_of_stopped (h : machine.Reachable G s) :
    s.pc = .joined ∨ s.pc = .destroyed ∨ s.pc = .exited → s.run = false := by
  refine h.invariant (I := fun s => s.pc = .joined ∨ s.pc = .destroyed ∨ s.pc = .exited →
    s.run = false) ?_ ?_
  · rintro _ ⟨producer, consumer, rfl⟩ hpc
    simp [start] at hpc
  · intro s e s' _ ih _ hn hpc
    cases step_of_next hn with
    | commit | idle | getNextThrows | save => exact ih hpc
    | getNext | consume | markConsumed | markConsumedThrows | restart => simp at hpc
    | signal => rfl
    | join hloop =>
      change s.next .join = _ at hn
      simp only [next] at hn
      split_ifs at hn with hrun
      exact hrun.2
    | destroy hjoined => exact ih (Or.inl hjoined)
    | exit hdestroyed => exact ih (Or.inr (Or.inl hdestroyed))

/-- The loop gets to its head: the batch that was fetched is handed over and acknowledged. -/
theorem runIf_toHead (h : machine.Reachable G s) (hrun : s.run = true) :
    ∃ es s', (∀ e ∈ es, e.isOwn = true) ∧ machine.runIf Opened s es = some s' ∧ s'.AtHead ∧
      s'.producer = s.producer ∧ s'.table.log = s.table.log := by
  have hopened : ∀ s e, (e = .consume ∨ e = .markConsumed) → Opened s e := by
    rintro s e (rfl | rfl) <;> exact ⟨by simp [AcksSucceed], trivial, by simp [SavesFinish]⟩
  have hmark : ∀ s₁ : GwBack, ∀ b, s₁.pc = .consumed b → s₁.run = true →
      ∃ s', machine.runIf Opened s₁ [.markConsumed] = some s' ∧ s'.AtHead ∧
        s'.producer = s₁.producer ∧ s'.table.log = s₁.table.log := by
    intro s₁ b hpc hrun₁
    have hnext : machine.next s₁ .markConsumed =
        some { s₁ with pc := .loop, table := PostgresProducer.markConsumed s₁.table b } := by
      simp [machine, next, hpc]
    exact ⟨_, Machine.runIf_one (hopened s₁ _ (Or.inr rfl)) hnext, ⟨rfl, hrun₁⟩, rfl, rfl⟩
  cases hpc : s.pc with
  | loop => exact ⟨[], s, by simp, rfl, ⟨hpc, hrun⟩, rfl, rfl⟩
  | fetched b =>
    let r := s.consumer.call b
    let s₁ : GwBack := { s with
      pc := .consumed r.messages
      consumer := r.consumer
      started := s.started ++ r.flushed
      saving := s.saving ++ r.flushed.map fun chunk => ⟨chunk, s.consumer.outputFolder⟩ }
    have hconsume : machine.next s .consume = some s₁ := by
      simp [machine, next, hpc, s₁, r, MessageConsumer.call]
    obtain ⟨s', hrun', hhead, hproducer, hlog⟩ := hmark s₁ _ rfl hrun
    exact ⟨[.consume, .markConsumed], s', by simp [Event.isOwn],
      Machine.runIf_cons (hopened s _ (Or.inl rfl)) hconsume hrun', hhead, hproducer, hlog⟩
  | consumed b =>
    obtain ⟨s', hrun', hhead, hproducer, hlog⟩ := hmark s b hpc hrun
    exact ⟨[.markConsumed], s', by simp [Event.isOwn], hrun', hhead, hproducer, hlog⟩
  | joined => simp [run_of_stopped h (Or.inl hpc)] at hrun
  | destroyed => simp [run_of_stopped h (Or.inr (Or.inl hpc))] at hrun
  | exited => simp [run_of_stopped h (Or.inr (Or.inr hpc))] at hrun

/-- From its head the loop empties the table, and the process stops in order. -/
theorem runIf_finish (h : s.AtHead) (hchunk : 0 < s.producer.chunkSize.toNat) :
    ∃ es s', (∀ e ∈ es, e.isOwn = true) ∧ machine.runIf Opened s es = some s' ∧
      s'.pc = .exited ∧ s'.table.rows = [] ∧ s'.table.log = s.table.log := by
  obtain ⟨s₁, hrun₁, hhead, hlog, hrows, -⟩ := runIf_rounds h hchunk
  refine ⟨_, s₁.stopped, fun e he => ?_, Machine.runIf_trans hrun₁ (runIf_stop hhead), rfl, hrows,
    hlog⟩
  have hround : ∀ e ∈ round, e.isOwn = true := by simp [round, Event.isOwn]
  have hsave : ∀ e ∈ [Event.save 0 true], e.isOwn = true := by simp [Event.isOwn]
  rcases List.mem_append.1 he with he | he
  · exact hround e (Machine.mem_of_mem_rounds he)
  · simp only [stop, List.mem_append, List.mem_cons, List.not_mem_nil, or_false] at he
    obtain (rfl | he) | rfl | rfl | rfl := he
    · rfl
    · exact hsave e (Machine.mem_of_mem_rounds he)
    all_goals rfl

end GwBack

namespace PostgresGateway

open Frontend (sampleCheck sampleRequest)

variable {W : Type} {check : Bytes → CheckResult} {readInto : Request → W → Request} {s : State W}

/-! ### The gateway -/

/-- A run of the back end alone is a run of the gateway. -/
theorem runIf_back {G : GwBack → GwBack.Event → Prop} [∀ back e, Decidable (G back e)]
    {es : List GwBack.Event} {back : GwBack} (hown : ∀ e ∈ es, e.isOwn = true)
    (h : GwBack.machine.runIf G s.store.back es = some back) :
    (machine check readInto).runIf (BackMeets G) s (es.map Frontend.Event.other) =
      some { s with store := { s.store with back := back } } := by
  refine Frontend.runIf_others PostgresStore.back
    (fun store back => { store with back := back }) (fun e => e.isOwn = true) (fun _ _ => rfl)
    (fun _ => rfl) (fun _ _ _ => rfl) (fun _ _ hg => hg) ?_ hown h
  intro store e back hown hnext
  change store.back.next e = some back at hnext
  cases e with
  | commit message => cases hown
  | _ => simp only [frontend, others, hnext, Option.map_some]

/-- There is room for `k` more rows, and the back end goes on. -/
structure Room (k : ℕ) (s : PostgresStore) : Prop where
  run : s.back.run = true
  chunkSize : 0 < s.back.producer.chunkSize.toNat
  ids : s.back.table.log.length + k ≤ 2 ^ 64

/-- A round in which nothing fails. -/
theorem attempt_fine (threadId : ℕ) (data : Bytes) (s : PostgresWriter.State) :
    ∃ s', PostgresWriter.attempt threadId fine data s = (s', .done) ∧
      s'.rows = s.rows ++ [data] := by
  obtain ⟨s₁, hfind, hrows⟩ : ∃ s₁, PostgresWriter.findConnection threadId .done s = (s₁, .done) ∧
      s₁.rows = s.rows := by
    unfold PostgresWriter.findConnection
    split_ifs
    · exact ⟨s, rfl, rfl⟩
    · exact ⟨_, rfl, rfl⟩
  refine ⟨{ s₁ with rows := s₁.rows ++ [data], tried := s₁.tried ++ [.done] }, ?_, by simp [hrows]⟩
  simp only [PostgresWriter.attempt, fine, hfind, PostgresWriter.transaction]

/-- A write can end with `OK` while there is room. -/
theorem writes : (frontend check readInto).Writes Room where
  less k s h := ⟨h.run, h.chunkSize, by have := h.ids; omega⟩
  ends k r s h := by
    obtain ⟨id, hid⟩ := exists_fresh_id (s.back.table.log.map Message.id) (by
      have := h.ids
      rw [List.length_map]
      omega)
    obtain ⟨w, hattempt, hrows⟩ := attempt_fine r.threadId r.data s.writer
    obtain ⟨table, hcommit⟩ : ∃ table, s.back.table.commit ⟨id, r.data⟩ = some table :=
      ⟨_, dif_neg hid⟩
    have hpublish : publish id (w.rows.drop s.writer.rows.length) s.back =
        some { s.back with table } := by
      rw [hrows, List.drop_left]
      simp only [publish, GwBack.next, hcommit, Option.map_some]
    refine ⟨1, fun _ => (fine, id), ⟨w, { s.back with table }⟩, [], ?_, h.run, h.chunkSize, ?_⟩
    · simp only [frontend, writer, StepWriter.run, step, hattempt, hpublish, Option.map_some, after]
    · have hlog : table.log.length = s.back.table.log.length + 1 := by
        rw [(Table.commit_eq_some hcommit).2.1, List.length_append, List.length_singleton]
      have := h.ids
      change table.log.length + k ≤ 2 ^ 64
      omega

/-- **The gateway can always finish**, over PostgreSQL.  From every state of every run in which no
acknowledgement fails, every file can be opened and `main` waits for the threads, as long as no stop
was asked for, the chunk size is not zero and there are ids for the calls under way: these can be
answered, with 202 if their write had not ended, the table emptied, and the back end stopped, with
the payloads of all requests that were stored in the files, as often as they were stored. -/
theorem rows_completed (h : (machine check readInto).Reachable (BackMeets GwBack.Opened) s)
    (hrun : s.store.back.run = true) (hchunk : 0 < s.store.back.producer.chunkSize.toNat)
    (hids : s.store.back.table.log.length + s.calls.length ≤ 2 ^ 64) :
    ∃ es s' new, (machine check readInto).runIf (BackMeets GwBack.Opened) s es = some s' ∧
      s'.calls = [] ∧ s'.store.back.pc = .exited ∧ s'.store.back.table.rows = [] ∧
      s'.answered = s.answered ++ new ∧ List.Forall₂ Frontend.Answers s.calls new ∧
      ((s'.store.back.files.flatMap OutputFile.messages).map Message.data).Perm
        (s'.answered.flatMap Frontend.copiesOf) := by
  have hfree : ∀ (s : State W) e, (∀ o, e ≠ .other o) → BackMeets GwBack.Opened s e := by
    intro s e he
    cases e with
    | other o => exact absurd rfl (he o)
    | _ => trivial
  obtain ⟨es₁, s₁, new, hrun₁, hcalls, hroom, hanswered, hnew⟩ :=
    Frontend.runIf_calls (k := 0) writes accounts (fun _ => log_of_fresh) hfree h
      ⟨hrun, hchunk, hids⟩
  have h₁ := Machine.reachable_of_runIf h hrun₁
  obtain ⟨es₂, back₂, hown₂, hrun₂, hhead, hproducer, -⟩ :=
    GwBack.runIf_toHead (back_of_opened h₁) hroom.run
  obtain ⟨es₃, back₃, hown₃, hrun₃, hpc, hrows, -⟩ :=
    GwBack.runIf_finish hhead (hproducer ▸ hroom.chunkSize)
  have hfinish : (machine check readInto).runIf (BackMeets GwBack.Opened) s₁ _ = _ := runIf_back
    (fun e he => (List.mem_append.1 he).elim (hown₂ e) (hown₃ e)) (Machine.runIf_trans hrun₂ hrun₃)
  have hall := Machine.runIf_trans hrun₁ hfinish
  have h₃ := Machine.reachable_of_runIf h hall
  refine ⟨_, _, new, hall, hcalls, hpc, hrows, hanswered, hnew, ?_⟩
  have hfiles := (GwBack.log_perm_files (back_of_opened h₃) hpc hrows).map Message.data
  exact hfiles.symm.trans ((inv_of_reachable h₃).stored_answered hcalls)

/-- Two calls under way, one of which has stored its row and not returned, and a batch in the hands
of the loop. -/
theorem rows_completed_sample : ∃ s s' : State Request, s.calls.length = 2 ∧ s'.calls = [] ∧
    s'.answered.length = 3 ∧ ((s'.store.back.files.flatMap OutputFile.messages).map
      Message.data).Perm (s'.answered.flatMap Frontend.copiesOf) := by
  let run : List (Event Request) :=
    [.accept, .accept, .accept, .request 0 1 (sampleRequest [97]),
      .request 1 2 (sampleRequest [98]), .step 0 (fine, 7), .other .getNext,
      .request 2 3 (sampleRequest [99]), .step 1 ({ fine with work := .broken [] }, 0),
      .respond 0, .step 1 (fine, 9), .other .consume]
  obtain ⟨s, hr, hrun, hchunk, hids, hcalls, hanswered⟩ :=
    Machine.exists_of_runIf (M := machine sampleCheck fun _ (w : Request) => w)
      (G := BackMeets GwBack.Opened)
      (P := fun s => s.store.back.run = true ∧ 0 < s.store.back.producer.chunkSize.toNat ∧
        s.store.back.table.log.length + s.calls.length ≤ 2 ^ 64 ∧ s.calls.length = 2 ∧
        s.answered.length = 1)
      init_sampleStart run (by decide +kernel)
  obtain ⟨_, s', new, -, hcalls', -, -, hnew, hforall, hperm⟩ :=
    rows_completed hr hrun hchunk hids
  refine ⟨s, s', hcalls, hcalls', ?_, hperm⟩
  rw [hnew, List.length_append, hanswered, ← hforall.length_eq, hcalls]

end PostgresGateway

/-! ### A write on Redis -/

namespace RedisWriter

variable {w : RedisWriter} {threadId : ℕ} {data : Bytes} {db : Streams}

/-- Every call that goes on mends the connection it finds broken. -/
def Mendable (w : RedisWriter) : Prop :=
  ∀ ec ∈ w.connections, ec.connection.err.all RedisErr.isEofOrIo = true

instance : Decidable w.Mendable := inferInstanceAs (Decidable (∀ ec ∈ w.connections, _))

theorem mem_setConnection {c : RedisContext} {ec : ExclusiveConnection}
    {ecs : List ExclusiveConnection} (h : ec ∈ setConnection threadId c ecs) :
    ec ∈ ecs ∨ ec.connection = c := by
  induction ecs with
  | nil => cases h
  | cons ec' ecs ih =>
    unfold setConnection at h
    split_ifs at h
    · rcases List.mem_cons.1 h with rfl | h
      · exact Or.inr rfl
      · exact Or.inl (List.mem_cons_of_mem _ h)
    · rcases List.mem_cons.1 h with rfl | h
      · exact Or.inl List.mem_cons_self
      · exact (ih h).imp_left (List.mem_cons_of_mem _)

theorem Mendable.set (h : w.Mendable) {c : RedisContext}
    (hc : c.err.all RedisErr.isEofOrIo = true) :
    Mendable { w with connections := setConnection threadId c w.connections } := by
  intro ec hec
  rcases mem_setConnection hec with hec | hec
  · exact h ec hec
  · exact hec ▸ hc

/-- Nothing fails, and the server executes the commands at time `now`. -/
def servedAt (now : UInt64) : Outcomes :=
  { Outcomes.fine with first := .served now, second := .served now }

@[simp] theorem servedAt_first (now : UInt64) : (servedAt now).first = .served now := rfl

@[simp] theorem servedAt_second (now : UInt64) : (servedAt now).second = .served now := rfl

theorem resultOf_executed {c : RedisContext} {reply : RedisReply} (hc : c.err = none)
    (hreply : reply.isError = false) : resultOf c (some reply) = ⟨.ok, []⟩ := by
  unfold resultOf
  split
  · rename_i str heq
    rw [Option.some.inj heq] at hreply
    cases hreply
  · simp [hc]

/-- On a connection without an error the command is executed. -/
theorem redisCommand_served {c : RedisContext} (hc : c.err = none) (now : UInt64)
    (args : List Bytes) (db : Streams) :
    (redisCommand c (.served now) args db).context.err = none ∧
      (redisCommand c (.served now) args db).reply =
        some (db.exec now (Command.ofArgs args)).2 ∧
      (redisCommand c (.served now) args db).db = (db.exec now (Command.ofArgs args)).1 := by
  simp [redisCommand, hc]

variable {now : UInt64}

/-- The second attempt of a call is executed. -/
theorem writeAgain_served (h : w.Mendable) (threadId : ℕ)
    (hreply : (db.exec now (Command.ofArgs (xaddArgs data))).2.isError = false) :
    let half := w.writeAgain threadId (servedAt now) data db
    half.writer.Mendable ∧ half.db = (db.exec now (Command.ofArgs (xaddArgs data))).1 ∧
      half.result = some ⟨.ok, []⟩ := by
  intro half
  have hauth : authenticate w.config .fresh (.served 0) db = (⟨none, [], true⟩, .ok ()) :=
    authenticateWith_served
  have hrec : reconnect w.config (servedAt now) db = (⟨none, [], true⟩, .ok ()) := hauth
  obtain ⟨herr, hanswer, hdb⟩ := redisCommand_served (c := ⟨none, [], true⟩) rfl now (xaddArgs data)
    db
  simp only [half, writeAgain, hrec, secondTry, servedAt_second, hanswer, hdb,
    resultOf_executed herr hreply]
  exact ⟨h.set (by rw [herr]; rfl), trivial, trivial⟩

/-- The first attempt of a call is executed, or meets a broken connection. -/
theorem writeFirst_served (h : w.Mendable) (threadId : ℕ)
    (hreply : (db.exec now (Command.ofArgs (xaddArgs data))).2.isError = false) :
    let half := w.writeFirst threadId (servedAt now) data db
    half.writer.Mendable ∧
      ((half.db = (db.exec now (Command.ofArgs (xaddArgs data))).1 ∧
        half.result = some ⟨.ok, []⟩) ∨ (half.db = db ∧ half.result = none)) := by
  intro half
  obtain ⟨w₁, c, hfind, hw₁, hc⟩ : ∃ w₁ c, w.findConnection threadId (servedAt now) db =
      (w₁, .ok c) ∧ w₁.Mendable ∧ c.err.all RedisErr.isEofOrIo = true := by
    cases hec : w.connections.find? fun ec => ec.threadId = threadId with
    | some ec =>
      exact ⟨w, ec.connection, by simp [findConnection, hec], h,
        h ec (List.mem_of_find?_eq_some hec)⟩
    | none =>
      have hauth : authenticate w.config .fresh (.served 0) db = (⟨none, [], true⟩, .ok ()) :=
        authenticateWith_served
      have hcreate : createConnection w.config (servedAt now) db = .ok ⟨none, [], true⟩ := by
        simp [createConnection, servedAt, Outcomes.fine, hauth]
      have hfind : w.findConnection threadId (servedAt now) db =
          ({ w with connections := w.connections ++ [⟨threadId, ⟨none, [], true⟩⟩] },
            .ok ⟨none, [], true⟩) := by
        simp only [findConnection, hec, hcreate]
      refine ⟨_, _, hfind, fun ec' hec' => ?_, rfl⟩
      rcases List.mem_append.1 hec' with hec' | hec'
      · exact h ec' hec'
      · rw [List.mem_singleton.1 hec']
        rfl
  cases herr : c.err with
  | none =>
    obtain ⟨herr', hanswer, hdb⟩ := redisCommand_served herr now (xaddArgs data) db
    have hno : (redisCommand c (.served now) (xaddArgs data) db).context.err.any
        RedisErr.isEofOrIo = false := by rw [herr']; rfl
    simp only [half, writeFirst, hfind, servedAt_first, hno, Bool.false_eq_true, if_false, hanswer,
      hdb, resultOf_executed herr' hreply]
    exact ⟨hw₁.set (by rw [herr']; rfl), Or.inl ⟨trivial, trivial⟩⟩
  | some err =>
    have hcover : err.isEofOrIo = true := by simpa [herr] using hc
    simp only [half, writeFirst, hfind, redisCommand, herr, Option.any_some, hcover, if_true]
    exact ⟨hw₁.set hc, Or.inr ⟨trivial, trivial⟩⟩

end RedisWriter

namespace RedisBack

open RedisProducer (messagesStream dataField Packable)

variable {s s' : RedisBack}

/-- An event of the back end itself. -/
def Event.isOwn : Event → Bool
  | .xadd _ _ => false
  | _ => true

/-- The events of a repair, of rounds and of a stop. -/
theorem isOwn_of_finish {repair : List Event} (hrepair : repair ∈ repairs) (k j : ℕ) :
    ∀ e ∈ repair ++ Machine.rounds round k ++ stop j, e.isOwn = true := by
  have hround : ∀ e ∈ round, e.isOwn = true := by simp [round, Event.isOwn]
  have hsave : ∀ e ∈ [Event.save 0 true], e.isOwn = true := by simp [Event.isOwn]
  intro e he
  rcases List.mem_append.1 he with he | he
  · rcases List.mem_append.1 he with he | he
    · simp only [repairs, mend, List.mem_cons, List.not_mem_nil, or_false] at hrepair
      obtain rfl | rfl | rfl := hrepair
      · cases he
      · simp only [List.mem_cons, List.not_mem_nil, or_false] at he
        obtain rfl | rfl := he <;> rfl
      · simp only [List.mem_cons, List.not_mem_nil, or_false] at he
        obtain rfl | rfl | rfl | rfl := he <;> rfl
    · exact hround e (Machine.mem_of_mem_rounds he)
  · simp only [stop, List.mem_append, List.mem_cons, List.not_mem_nil, or_false] at he
    obtain (rfl | he) | rfl | rfl | rfl := he
    · rfl
    · exact hsave e (Machine.mem_of_mem_rounds he)
    all_goals rfl

/-- An `XADD` one millisecond after the last id. -/
theorem observe_served (s : RedisBack) (data : Bytes) (hids : s.lastId.ms.toNat + 1 < 2 ^ 42) :
    let now := s.lastId.ms + 1
    let r := s.db.exec now (some (.xadd messagesStream dataField data))
    now.toNat = s.lastId.ms.toNat + 1 ∧ r.2.isError = false ∧
      (s.observe r.1).lastId = ⟨now, 0⟩ ∧
      (s.observe r.1).log = s.log ++ [⟨⟨now, 0⟩, [(dataField, data)]⟩] := by
  intro now r
  have hnow : now.toNat = s.lastId.ms.toNat + 1 := by
    simp only [now, UInt64.toNat_add]
    exact Nat.mod_eq_of_lt (by simp; omega)
  have hlt : s.lastId.ms < now := UInt64.lt_iff_toNat_lt.2 (by omega)
  obtain ⟨stream, hadd, hentries, hlast⟩ : ∃ stream,
      (s.db messagesStream).xadd now [(dataField, data)] = some (⟨now, 0⟩, stream) ∧
      stream.entries = s.entries ++ [⟨⟨now, 0⟩, [(dataField, data)]⟩] ∧
      stream.lastId = ⟨now, 0⟩ := by
    have hnext : (s.db messagesStream).nextId? now = some ⟨now, 0⟩ := if_pos hlt
    unfold Stream.xadd
    split
    · rename_i id hid
      obtain rfl : id = ⟨now, 0⟩ := Option.some.inj (hid.symm.trans hnext)
      exact ⟨_, rfl, rfl, rfl⟩
    · rename_i hid
      rw [hnext] at hid
      cases hid
  have hr : r = (Function.update s.db messagesStream stream, .string (EntryId.text ⟨now, 0⟩)) := by
    simp only [r, Streams.exec, hadd]
  refine ⟨hnow, by rw [hr]; rfl, ?_, ?_⟩
  · simp only [hr, observe, lastId, Function.update_self, hlast]
  · simp only [hr, observe, Function.update_self, hentries, List.drop_left]

end RedisBack

namespace RedisGateway

open Frontend (sampleCheck sampleRequest)
open RedisProducer (messagesStream dataField messageOf Packable)

variable {W : Type} {check : Bytes → CheckResult} {readInto : Request → W → Request} {t : State W}

/-- A run of the back end alone is a run of the gateway. -/
theorem runIf_back {G : RedisBack → RedisBack.Event → Prop} [∀ back e, Decidable (G back e)]
    {es : List RedisBack.Event} {back : RedisBack} (hown : ∀ e ∈ es, e.isOwn = true)
    (h : RedisBack.machine.runIf G t.store.back es = some back) :
    (machine check readInto).runIf (BackMeets G) t (es.map Frontend.Event.other) =
      some { t with store := { t.store with back := back } } := by
  refine Frontend.runIf_others RedisStore.back
    (fun store back => { store with back := back }) (fun e => e.isOwn = true) (fun _ _ => rfl)
    (fun _ => rfl) (fun _ _ _ => rfl) (fun _ _ hg => hg) ?_ hown h
  intro store e back hown hnext
  change store.back.next e = some back at hnext
  cases e with
  | xadd now data => cases hown
  | _ => simp only [frontend, others, hnext, Option.map_some]

/-- The loop is at its head and goes on, all broken connections can be mended, and there is room for
`k` more ids that packing loses nothing of. -/
structure Room (k : ℕ) (s : RedisStore) : Prop where
  pc : s.back.pc = .loop
  run : s.back.run = true
  chunkSize : 0 < s.back.producer.chunkSize.toNat
  producer : s.back.producer.Mendable
  writer : s.writer.Mendable
  packable : s.back.AllPackable
  ids : s.back.lastId.ms.toNat + k < 2 ^ 42

/-- The state after an attempt that was executed one millisecond after the last id. -/
theorem Room.served {k : ℕ} {s : RedisStore} (h : Room (k + 1) s) {w : RedisWriter}
    (hw : w.Mendable) (data : Bytes) :
    Room k ⟨w, s.back.observe (s.back.db.exec (s.back.lastId.ms + 1)
      (some (.xadd messagesStream dataField data))).1⟩ := by
  have hids := h.ids
  obtain ⟨hnow, -, hlast, hlog⟩ := s.back.observe_served data (by omega)
  refine ⟨h.pc, h.run, h.chunkSize, h.producer, hw, fun entry hentry => ?_, ?_⟩
  · rw [hlog] at hentry
    rcases List.mem_append.1 hentry with hentry | hentry
    · exact h.packable entry hentry
    · rw [List.mem_singleton.1 hentry]
      exact ⟨by change (s.back.lastId.ms + 1).toNat < _; omega, by simp⟩
  · rw [hlast, hnow]
    omega

/-- The second attempt of a call can end with `OK`. -/
theorem ends_again {k : ℕ} {s : RedisStore} (h : Room (k + 1) s) (call : Writing)
    (hagain : call.again = true) : ∃ store', writer.step call
        (RedisWriter.servedAt (s.back.lastId.ms + 1)) s = some (store', .inr ⟨.ok, []⟩) ∧
      Room k store' := by
  have hids := h.ids
  obtain ⟨hw, hdb, hresult⟩ := RedisWriter.writeAgain_served h.writer call.threadId
    (s.back.observe_served call.data (by omega)).2.1
  refine ⟨_, by simp only [writer, attempt, if_pos hagain, hresult]; rfl, ?_⟩
  rw [hdb]
  exact h.served hw call.data

/-- A write can end with `OK` while there is room. -/
theorem writes : (frontend check readInto).Writes Room where
  less k s h := ⟨h.pc, h.run, h.chunkSize, h.producer, h.writer, h.packable, by
    have := h.ids
    omega⟩
  ends k call s h := by
    let o := RedisWriter.servedAt (s.back.lastId.ms + 1)
    cases hagain : call.again with
    | true =>
      obtain ⟨store', hstep, hroom⟩ := ends_again h call hagain
      refine ⟨1, fun _ => o, store', [], ?_, hroom⟩
      simp only [frontend, StepWriter.run, o, hstep]
    | false =>
      have hids := h.ids
      obtain ⟨hw, ⟨hdb, hresult⟩ | ⟨hdb, hresult⟩⟩ := RedisWriter.writeFirst_served
        h.writer call.threadId (s.back.observe_served call.data (by omega)).2.1
      · refine ⟨1, fun _ => o, _, [], ?_, hdb ▸ h.served hw call.data⟩
        simp only [frontend, StepWriter.run, writer, attempt, hagain, Bool.false_eq_true, if_false,
          o, hresult]
      · -- the connection was broken, and the call goes on with a new one
        let h₁ := s.writer.writeFirst call.threadId o call.data s.back.db
        let s₁ : RedisStore := ⟨h₁.writer, s.back⟩
        have hback : s.back.observe h₁.db = s.back := by
          rw [show h₁.db = s.back.db from hdb]
          simp [RedisBack.observe, RedisBack.entries]
        have hroom₁ : Room (k + 1) s₁ :=
          ⟨h.pc, h.run, h.chunkSize, h.producer, hw, h.packable, h.ids⟩
        obtain ⟨store', hstep, hroom⟩ :=
          ends_again hroom₁ { call with again := true } rfl
        have hfirst : writer.step call o s = some (s₁, .inl { call with again := true }) := by
          simp only [writer, attempt, hagain, Bool.false_eq_true, if_false]
          rw [show (s.writer.writeFirst call.threadId o call.data s.back.db).result = none from
            hresult, show s.back.observe _ = s.back from hback]
        refine ⟨2, fun _ => o, store', [], ?_, hroom⟩
        change (frontend check readInto).writer.run 2 call (fun _ => o) s = _
        simp only [frontend, StepWriter.run, hfirst]
        rw [show writer.step { call with again := true } o s₁ = _ from hstep]

/-- **The gateway can always finish**, over Redis.  From every state of every run in which the
server executes the `XDEL` of every acknowledgement, every file can be opened, `main` waits for the
threads and packing loses nothing of the ids, with the loop at its head, no stop asked for and a
chunk size that is not zero: if every broken connection is so by an `EOF` or `IO` error and there
are ids for the calls under way, these can be answered, with 202 if their write had not ended, the
stream emptied, and the back end stopped, with the payloads of all requests that were stored in the
files, as often as they were stored. -/
theorem entries_completed
    (h : (machine check readInto).Reachable (BackMeets RedisBack.Opened) t)
    (hpc : t.store.back.pc = .loop) (hrun : t.store.back.run = true)
    (hchunk : 0 < t.store.back.producer.chunkSize.toNat)
    (hproducer : t.store.back.producer.Mendable) (hwriter : t.store.writer.Mendable)
    (hpack : t.store.back.AllPackable)
    (hids : t.store.back.lastId.ms.toNat + t.calls.length < 2 ^ 42) :
    ∃ es t' new, (machine check readInto).runIf (BackMeets RedisBack.Opened) t es = some t' ∧
      t'.calls = [] ∧ t'.store.back.pc = .exited ∧ t'.store.back.entries = [] ∧
      t'.answered = t.answered ++ new ∧ List.Forall₂ Frontend.Answers t.calls new ∧
      ((t'.store.back.files.flatMap OutputFile.messages).map Message.data).Perm
        (t'.answered.flatMap Frontend.copiesOf) := by
  have hback : ∀ {t : State W}, (machine check readInto).Reachable (BackMeets RedisBack.Opened) t →
      RedisBack.machine.Reachable RedisBack.Opened t.store.back := fun h =>
    back_of_reachable (fun _ _ _ => ⟨trivial, trivial⟩) h
  have hfree : ∀ (t : State W) e, (∀ o, e ≠ .other o) → BackMeets RedisBack.Opened t e := by
    intro t e he
    cases e with
    | other o => exact absurd rfl (he o)
    | _ => trivial
  obtain ⟨es₁, t₁, new, hrun₁, hcalls, hroom, hanswered, hnew⟩ := Frontend.runIf_calls (k := 0)
    writes accounts (fun _ => log_of_fresh) hfree h
    ⟨hpc, hrun, hchunk, hproducer, hwriter, hpack, hids⟩
  have h₁ := Machine.reachable_of_runIf h hrun₁
  have hstream : ∀ entry ∈ t₁.store.back.entries, Packable entry.id := fun entry hentry =>
    hroom.packable entry ((RedisBack.sound_of_reachable (hback h₁)).sublist.subset hentry)
  obtain ⟨repair, hrepair, k, j, back₂, hrun₂, hpc₂, hentries, hlog, -⟩ :=
    RedisBack.runIf_finish hroom.pc hroom.run hroom.producer hroom.chunkSize hstream
  have hfinish : (machine check readInto).runIf (BackMeets RedisBack.Opened) t₁ _ = _ := runIf_back
    (RedisBack.isOwn_of_finish hrepair k j) hrun₂
  have hall := Machine.runIf_trans hrun₁ hfinish
  have h₂ := Machine.reachable_of_runIf h hall
  refine ⟨_, _, new, hall, hcalls, hpc₂, hentries, hanswered, hnew, ?_⟩
  have hfiles := (RedisBack.log_perm_files (hback h₂)
    (fun entry hentry => hroom.packable entry (hlog ▸ hentry)) hpc₂ hentries).map Message.data
  rw [List.map_map] at hfiles
  exact hfiles.symm.trans ((inv_of_reachable h₂).stored_answered hcalls)

/-- Two calls under way, one of which lost its connection, and an acknowledgement that was executed
while its reply was lost. -/
theorem entries_completed_sample : ∃ t t' : State Request, t.calls.length = 2 ∧ t'.calls = [] ∧
    t'.answered.length = 3 ∧ ((t'.store.back.files.flatMap OutputFile.messages).map
      Message.data).Perm (t'.answered.flatMap Frontend.copiesOf) := by
  let lost (now : UInt64) : Outcomes :=
    { Outcomes.fine with first := .lost (some now) .eof [] }
  let run : List (Event Request) :=
    [.accept, .accept, .accept, .request 0 1 (sampleRequest [97]), .step 0 (lost 5),
      .request 1 2 (sampleRequest [98]), .step 1 (RedisWriter.servedAt 6), .respond 1,
      .other (.getNext .fine), .other .consume,
      .other (.markConsumed { Outcomes.fine with first := .lost (some 7) .io [] }),
      .request 2 2 (sampleRequest [99]), .step 1 (lost 8)]
  obtain ⟨t, hr, hpc, hrun, hchunk, hproducer, hwriter, hpack, hids, hcalls, hanswered⟩ :=
    Machine.exists_of_runIf (M := machine sampleCheck fun _ (w : Request) => w)
      (G := BackMeets RedisBack.Opened)
      (P := fun t => t.store.back.pc = .loop ∧ t.store.back.run = true ∧
        0 < t.store.back.producer.chunkSize.toNat ∧ t.store.back.producer.Mendable ∧
        t.store.writer.Mendable ∧ t.store.back.AllPackable ∧
        t.store.back.lastId.ms.toNat + t.calls.length < 2 ^ 42 ∧ t.calls.length = 2 ∧
        t.answered.length = 1)
      init_sampleStart run (by decide +kernel)
  obtain ⟨_, t', new, -, hcalls', -, -, hnew, hforall, hperm⟩ :=
    entries_completed hr hpc hrun hchunk hproducer hwriter hpack hids
  refine ⟨t, t', hcalls, hcalls', ?_, hperm⟩
  rw [hnew, List.length_append, hanswered, ← hforall.length_eq, hcalls]

end RedisGateway

end GatewayPoc
