import GatewayPoc.Core.Runs
import GatewayPoc.GwBack.RedisDrain

/-!
# Every entry is moved in the end

The loop takes the first entries of the stream and new ones come behind them, so an entry only waits
for those before it.  Their number never grows, and each round of the loop that the server executes
makes it smaller, whatever the loop hears of it.

* `RedisBack.Completes` : the event that completes a round.
* `RedisBack.ahead` : how many entries are before an entry.
* `RedisBack.eventually_handed` : in every infinite run in which packing loses nothing of the ids
  and rounds are completed again and again, every entry is deleted in the end, and then it was
  handed over.
* `RedisBack.completes_of_calls` : rounds are completed again and again if the thread of the loop
  makes calls again and again, from some time on nothing fails, and the connection is one that
  `getNext` can mend.
* **`RedisBack.entries_moved`** : then every entry is moved.
-/

namespace GatewayPoc

namespace RedisBack

open RedisProducer (messagesStream messageOf packId unpackId Packable)

variable {s s' : RedisBack} {e : Event} {entry : Entry}

/-! ### Rounds -/

/-- A round of the loop is completed: the server has executed the `XDEL` of its batch when the call
ends, or the stream was empty. -/
def Completes (s : RedisBack) : Event → Prop
  | .markConsumed o =>
    match s.pc with
    | .consumed messages =>
      let h := s.producer.markConsumedFirst o messages s.db
      h.result.isSome = true ∧ h.applied = true
    | _ => False
  | .markConsumedAgain o =>
    match s.pc with
    | .markAgain messages applied =>
      applied = true ∨ (s.producer.markConsumedAgain o messages s.db).applied = true
    | _ => False
  | .getNext o => (s.producer.getNextFirst o s.db).result = some (.ok [])
  | .getNextAgain o => (s.producer.getNextAgain o s.db).result = some (.ok [])
  | _ => False

/-- What the event that completes a round does. -/
inductive Completed (s s' : RedisBack) : Prop
  | marked {messages : Messages} {producer : RedisProducer} (hpc : s.pc = .consumed messages)
      (hs' : s' = { s with producer := producer, db := s.xdel messages true, pc := .loop })
  | markedAgain {messages : Messages} {before applied : Bool} {producer : RedisProducer}
      (hpc : s.pc = .markAgain messages before) (happ : before = true ∨ applied = true)
      (hs' : s' = { s with producer := producer, db := s.xdel messages applied, pc := .loop })
  | nothing (hbatch : s.batch = []) (hpc' : s'.pc = .loop)

/-- A `getNext` that returns nothing has found nothing. -/
theorem batch_of_attempts {h : RedisProducer.Half Messages}
    (ha : RedisProducer.Attempts s.producer (RedisProducer.xrangeArgs s.producer.chunkSize)
      RedisProducer.checkMessages s.db h) (hok : h.result = some (.ok [])) : s.batch = [] :=
  (ha.getNext_ok hok).symm

theorem completed_of_next (hc : s.Completes e) (h : machine.next s e = some s') :
    Completed s s' := by
  change s.next e = some s' at h
  cases e with
  | markConsumed o =>
    simp only [next] at h
    split at h
    · rename_i messages hpc
      obtain rfl := Option.some.inj h
      simp only [Completes, hpc] at hc
      obtain ⟨hend, happ⟩ := hc
      have ha : RedisProducer.Attempts _ _ _ _ (s.producer.markConsumedFirst o messages s.db) :=
        RedisProducer.attempts_runFirst
      have hdb : _ = s.xdel messages _ := ha.markConsumed
      have hloop : afterMark messages (s.producer.markConsumedFirst o messages s.db) = .loop := by
        rw [afterMark, if_neg (by simpa using Option.isSome_iff_ne_none.1 hend)]
      rw [happ] at hdb
      exact .marked hpc (by rw [hdb, hloop])
    · cases h
  | markConsumedAgain o =>
    simp only [next] at h
    split at h
    · rename_i messages before hpc
      obtain rfl := Option.some.inj h
      simp only [Completes, hpc] at hc
      have ha : RedisProducer.Attempts _ _ _ _ (s.producer.markConsumedAgain o messages s.db) :=
        RedisProducer.attempts_runAgain
      have hdb : _ = s.xdel messages _ := ha.markConsumed
      exact .markedAgain hpc hc (by rw [hdb])
    · cases h
  | getNext o =>
    simp only [next] at h
    split_ifs at h with hpc
    obtain rfl := Option.some.inj h
    have hc : (s.producer.getNextFirst o s.db).result = some (.ok []) := hc
    refine .nothing (batch_of_attempts RedisProducer.attempts_runFirst hc) ?_
    simp [hc, afterNext]
  | getNextAgain o =>
    simp only [next] at h
    split_ifs at h with hpc
    obtain rfl := Option.some.inj h
    have hc : (s.producer.getNextAgain o s.db).result = some (.ok []) := hc
    refine .nothing (batch_of_attempts RedisProducer.attempts_runAgain hc) ?_
    simp [hc, afterNext]
  | _ => exact absurd hc id

theorem Completed.pc (h : Completed s s') : s'.pc = .loop := by
  cases h with
  | marked hpc hs' | markedAgain hpc happ hs' => rw [hs']
  | nothing hbatch hpc' => exact hpc'

/-! ### What is ahead of an entry -/

/-- How many entries of the stream are before this one. -/
def ahead (entry : Entry) (s : RedisBack) : ℕ := s.entries.countP fun x => x.id < entry.id

/-- The server has executed an `XDEL`, but the call still goes on. -/
def pending (s : RedisBack) : ℕ :=
  match s.pc with
  | .markAgain _ true => 1
  | _ => 0

/-- The ids that an acknowledgement of the batch would delete, if it was not executed yet. -/
def batchIds (s : RedisBack) : Option (List EntryId) :=
  match s.pc with
  | .fetched messages | .consumed messages | .markAgain messages false =>
    some (messages.map fun message => unpackId message.id)
  | _ => none

/-- The batch contains the entry, or one that is before it in the stream. -/
def Due (entry : Entry) (s : RedisBack) : Prop :=
  ∀ ids, s.batchIds = some ids → entry.id ∈ ids ∨ ∃ x ∈ s.entries, x.id < entry.id ∧ x.id ∈ ids

/-- The first entries of the stream contain the entry, or one that is before it. -/
theorem due_batch (hsound : s.Sound) (hpack : s.AllPackable) (hin : entry ∈ s.entries)
    (hne : s.batch ≠ []) :
    let ids := s.batch.map fun message => unpackId message.id
    entry.id ∈ ids ∨ ∃ x ∈ s.entries, x.id < entry.id ∧ x.id ∈ ids := by
  intro ids
  have hids : ∀ x ∈ s.entries.take s.producer.chunkSize.toNat, x.id ∈ ids := by
    intro x hx
    have hx' := hpack x (hsound.sublist.subset (List.mem_of_mem_take hx))
    refine List.mem_map.2 ⟨messageOf x, List.mem_map_of_mem hx, ?_⟩
    exact RedisProducer.unpackId_packId hx'
  have hsorted := hsound.sorted.sublist hsound.sublist
  cases hentries : s.entries with
  | nil => simp [hentries] at hin
  | cons x xs =>
    have htake : x ∈ s.entries.take s.producer.chunkSize.toNat := by
      have hpos : s.producer.chunkSize.toNat ≠ 0 := by
        intro hzero
        simp [batch, hzero] at hne
      obtain ⟨n, hn⟩ := Nat.exists_eq_succ_of_ne_zero hpos
      simp [hentries, hn]
    rw [hentries] at hin hsorted
    rcases List.mem_cons.1 hin with rfl | hin
    · exact Or.inl (hids _ htake)
    · have hlt := (List.pairwise_cons.1 hsorted).1 entry hin
      exact Or.inr ⟨x, List.mem_cons_self, hlt, hids _ htake⟩

/-- An `XDEL` that leaves the entry in the stream takes one away that is before it, if the batch
contains one of them. -/
theorem ahead_xdel_lt {messages : Messages} (producer : RedisProducer) (pc : RedisPc)
    (h : let ids := messages.map fun message => unpackId message.id
      entry.id ∈ ids ∨ ∃ x ∈ s.entries, x.id < entry.id ∧ x.id ∈ ids)
    (hin : entry ∈ (s.xdel messages true messagesStream).entries) :
    ahead entry { s with producer := producer, db := s.xdel messages true, pc := pc } <
      ahead entry s := by
  rw [entries_xdel, if_pos rfl] at hin
  have hkept := (List.mem_filter.1 hin).2
  obtain ⟨x, hx, hlt, hid⟩ := h.resolve_left (by simpa using hkept)
  have hcount := countP_filter_lt (p := fun x => decide (x.id < entry.id))
    (q := fun x => decide (x.id ∉ messages.map fun message => unpackId message.id)) hx
    (decide_eq_true hlt) (by simpa using hid)
  have hentries := entries_xdel s messages true
  rw [if_pos rfl] at hentries
  change (s.xdel messages true messagesStream).entries.countP _ < _
  rw [hentries]
  exact hcount

theorem ahead_xdel_le (entry : Entry) (s : RedisBack) (messages : Messages) (applied : Bool)
    (producer : RedisProducer) (pc : RedisPc) :
    ahead entry { s with producer := producer, db := s.xdel messages applied, pc := pc } ≤
      ahead entry s := by
  have hsub : (s.xdel messages applied messagesStream).entries.Sublist s.entries := by
    rw [entries_xdel]
    split_ifs
    · exact List.filter_sublist
    · exact List.Sublist.refl _
  exact hsub.countP_le

/-- What waits before the entry, and whether a call still has to end. -/
def rank (entry : Entry) (s : RedisBack) : ℕ := 2 * ahead entry s + pending s

/-- An attempt of `getNext` leaves the entry due. -/
theorem due_of_asked (hsound : s.Sound) (hpack : s.AllPackable) (hin : entry ∈ s.entries)
    {producer : RedisProducer} {pc : RedisPc} (ha : s.Asked producer pc) :
    Due entry { s with producer := producer, pc := pc } ∧
      rank entry { s with producer := producer, pc := pc } ≤ rank entry s := by
  obtain ⟨-, rfl | rfl | ⟨rfl, hne⟩⟩ := ha
  · exact ⟨nofun, Nat.le_add_right _ _⟩
  · exact ⟨nofun, Nat.le_add_right _ _⟩
  · refine ⟨fun ids hids => ?_, Nat.le_add_right _ _⟩
    obtain rfl := Option.some.inj hids
    exact due_batch hsound hpack hin hne

/-- A step that leaves the entry in the stream keeps it due, and puts nothing before it. -/
theorem Due.step (h : Due entry s) (hsound : s.Sound) (hpack : s.AllPackable)
    (hknown : entry ∈ s.log) (hs : Step s e s') (hin : entry ∈ s.entries)
    (hin' : entry ∈ s'.entries) : Due entry s' ∧ rank entry s' ≤ rank entry s := by
  cases hs with
  | @xadd now data =>
    obtain heq | ⟨new, -, hlt, hentries, -, -⟩ := observe_xadd s now data
    · rw [heq]
      exact ⟨h, le_rfl⟩
    · refine ⟨fun ids hids => ?_, ?_⟩
      · refine (h ids hids).imp_right fun ⟨x, hx, hrest⟩ => ⟨x, ?_, hrest⟩
        rw [hentries]
        exact List.mem_append_left _ hx
      · -- the new id is larger
        have hnew : ¬ new.id < entry.id := by
          intro hless
          rcases hsound.le_lastId entry hknown with hle | hle
          · rw [← hle] at hlt
            exact EntryId.lt_irrefl _ (EntryId.lt_trans hlt hless)
          · exact EntryId.lt_irrefl _ (EntryId.lt_trans hlt (EntryId.lt_trans hless hle))
        have hahead : ∀ db, entries (s.observe db) = s.entries ++ [new] →
            ahead entry (s.observe db) = ahead entry s := by
          intro db hdb
          rw [ahead, hdb, List.countP_append]
          simp [ahead, hnew]
        exact Nat.add_le_add_right (Nat.mul_le_mul_left 2 (hahead _ hentries).le) _
  | getNext hpc hrun ha => exact due_of_asked hsound hpack hin ha
  | getNextAgain hpc ha => exact due_of_asked hsound hpack hin ha
  | @consume messages hpc =>
    refine ⟨fun ids hids => h ids ?_, Nat.le_add_right _ _⟩
    have hsame : (s.consumer.call messages).messages.map (fun message => unpackId message.id) =
        messages.map fun message => unpackId message.id := by
      have hmap := congrArg (List.map unpackId)
        (MessageConsumer.call_messages_ids s.consumer messages)
      simpa [List.map_map, Function.comp_def] using hmap
    rw [← hids, batchIds, hpc]
    exact congrArg some hsame.symm
  | @markConsumed o producer messages applied pc hpc hproducer hend =>
    have hids : s.batchIds = some (messages.map fun message => unpackId message.id) := by
      rw [batchIds, hpc]
    have hdue := h _ hids
    cases applied with
    | true =>
      have hlt := ahead_xdel_lt producer pc hdue hin'
      refine ⟨fun ids hids => ?_, ?_⟩
      · obtain rfl | ⟨rfl, -⟩ := hend <;> cases hids
      · have hpending : pending { s with
            producer := producer, db := s.xdel messages true, pc := pc } ≤ 1 := by
          obtain rfl | ⟨rfl, -⟩ := hend <;> simp [pending]
        rw [rank, rank]
        omega
    | false =>
      obtain rfl | ⟨rfl, -⟩ := hend
      · refine ⟨fun ids hids => ?_, Nat.le_add_right _ _⟩
        obtain rfl := Option.some.inj hids
        exact hdue
      · exact ⟨nofun, Nat.le_add_right _ _⟩
  | @markConsumedAgain o producer messages before applied hpc hproducer hacks =>
    refine ⟨nofun, ?_⟩
    have hle := ahead_xdel_le entry s messages applied producer .loop
    exact Nat.le_add_right_of_le (Nat.mul_le_mul_left 2 hle)
  | save | signal => exact ⟨h, le_rfl⟩
  | join hpc | destroy hpc | exit hpc | restart hpc => exact ⟨nofun, Nat.le_add_right _ _⟩

/-- A round that is completed leaves less before the entry. -/
theorem Completed.rank_lt (h : Completed s s') (hdue : Due entry s) (hin : entry ∈ s.entries)
    (hin' : entry ∈ s'.entries) (hchunk : 0 < s.producer.chunkSize.toNat) :
    rank entry s' < rank entry s := by
  cases h with
  | @marked messages producer hpc hs' =>
    subst hs'
    have hlt := ahead_xdel_lt producer .loop
      (hdue _ (by rw [batchIds, hpc])) hin'
    simp only [rank, pending]
    omega
  | @markedAgain messages before applied producer hpc happ hs' =>
    subst hs'
    have hle := ahead_xdel_le entry s messages applied producer .loop
    cases before with
    | true =>
      simp only [rank, pending, hpc]
      omega
    | false =>
      obtain rfl := happ.resolve_left (by simp)
      have hlt := ahead_xdel_lt producer .loop
        (hdue _ (by rw [batchIds, hpc])) hin'
      simp only [rank, pending]
      omega
  | nothing hbatch =>
    have hne : s.entries ≠ [] := List.ne_nil_of_mem hin
    have hnil : s.producer.chunkSize.toNat = 0 := by simpa [batch, hne] using hbatch
    omega

/-- An entry that is not in the stream any more was handed over, if packing loses nothing. -/
theorem handed_of_gone (h : machine.Reachable Machine.anyStep s) (hpack : s.AllPackable)
    (hknown : entry ∈ s.log) (hgone : entry ∉ s.entries) : messageOf entry ∈ s.handed := by
  have hhanded := handed_of_reachable h
  obtain ⟨m, hm, hid⟩ := hhanded.deleted entry hknown hgone
  obtain ⟨a, ha, rfl⟩ := hhanded.genuine m hm
  rw [messageOf, RedisProducer.unpackId_packId (hpack a ha)] at hid
  exact (sound_of_reachable h).eq_of_id_eq ha hknown hid ▸ hm

variable {r : machine.Run} {n : ℕ}

/-- While rounds are completed again and again, whatever is appended in between, however often the
calls fail, and however often the process is started again, every entry is deleted in the end, and
was then handed over, if packing loses nothing of the ids. -/
theorem eventually_handed (hrec : r.Recurs Completes)
    (hchunk : ∀ k ≥ n, 0 < (r.state k).producer.chunkSize.toNat)
    (hpack : ∀ k ≥ n, (r.state k).AllPackable) (hentry : entry ∈ (r.state n).log) :
    ∃ k ≥ n, entry ∉ (r.state k).entries ∧ messageOf entry ∈ (r.state k).handed := by
  -- after the round under way, the batches are fetched while the entry is in the stream
  obtain ⟨k₀, hk₀, e, he, hc⟩ := hrec n
  have hlog : ∀ k ≥ n, entry ∈ (r.state k).log :=
    r.keeps (P := fun s => entry ∈ s.log)
      (fun k _ _ he h => (log_le (step_of_next (r.next he))).subset h) hentry
  have hpc := (completed_of_next hc (r.next he)).pc
  have hstart : Due entry (r.state (k₀ + 1)) := fun ids hids => by simp [batchIds, hpc] at hids
  have hreach : ∃ k ≥ k₀ + 1, entry ∉ (r.state k).entries := by
    refine Machine.Run.eventually_of_rank (Due entry) (fun s => entry ∉ s.entries) (rank entry)
      (fun k _ => hrec k) (fun k hk e he hdue hin hin' => ?_) hstart
    have hnext := r.next he
    obtain ⟨hdue', hle⟩ := hdue.step (sound_of_reachable (r.reachable k)) (hpack k (by omega))
      (hlog k (by omega)) (step_of_next hnext) (not_not.1 hin) (not_not.1 hin')
    refine ⟨hdue', hle, fun hc => ?_⟩
    exact (completed_of_next hc hnext).rank_lt hdue (not_not.1 hin) (not_not.1 hin')
      (hchunk k (by omega))
  obtain ⟨k, hk, hgone⟩ := hreach
  exact ⟨k, by omega, hgone,
    handed_of_gone (r.reachable k) (hpack k (by omega)) (hlog k (by omega)) hgone⟩

/-- All entries appended so far are handed over together at some time. -/
theorem log_eventually_handed (hrec : r.Recurs Completes)
    (hchunk : ∀ k ≥ n, 0 < (r.state k).producer.chunkSize.toNat)
    (hpack : ∀ k ≥ n, (r.state k).AllPackable) :
    ∃ k ≥ n, ((r.state n).log.map messageOf).Subperm (r.state k).handed := by
  obtain ⟨t, -, hsim⟩ := sim_of_reachable allows_any (r.reachable n) (hpack n le_rfl)
  refine Machine.Run.eventually_subperm handed (fun k e he => ?_)
    (hsim.log ▸ t.table.log_nodup') fun m hm => ?_
  · have hhanded := handed_of_reachable (r.reachable k)
    exact ((step_of_next (r.next he)).moves hhanded).handed_le.subset
  · obtain ⟨entry, hentry, rfl⟩ := List.mem_map.1 hm
    obtain ⟨k, hk, -, hhanded⟩ := eventually_handed hrec hchunk hpack hentry
    exact ⟨k, hk, hhanded⟩

end RedisBack

namespace RedisProducer

/-! ### The connection -/

section

variable {α : Type} {p : RedisProducer} {o : Outcomes}

theorem Working.mendable (h : p.Working) : p.Mendable := fun c hc => by simp [h c hc]

/-- The first attempt of a call in which nothing fails leaves a working connection, or the broken
one. -/
theorem runFirst_mendable (ho : o.Served) (h : p.Mendable) (retry : RedisErr → Bool)
    (args : List Bytes) (check : RedisContext → Option RedisReply → Except Failure α)
    (db : Streams) : (p.runFirst retry o args check db).producer.Mendable := by
  by_cases hworking : p.Working
  · obtain ⟨now, p', c, hp', -, -, hrun⟩ := runFirst_served ho hworking retry args check db
    exact hrun ▸ hp'.mendable
  · obtain ⟨c, err, hconn, herr⟩ := exists_err hworking
    exact (runFirst_broken hconn herr retry o args check db) ▸ h

/-- A call that reconnects leaves a working connection, if nothing fails. -/
theorem runAgain_mendable (ho : o.Served) (args : List Bytes)
    (check : RedisContext → Option RedisReply → Except Failure α) (db : Streams) :
    (p.runAgain o args check db).producer.Mendable := by
  obtain ⟨now, p', c, hp', -, -, hrun⟩ := runAgain_served (p := p) ho args check db
  exact hrun ▸ hp'.mendable

theorem markConsumedAgain_served (ho : o.Served) {messages : Messages} (hne : messages ≠ [])
    (db : Streams) : (p.markConsumedAgain o messages db).applied = true := by
  obtain ⟨now, p', c, -, -, -, hrun⟩ :=
    runAgain_served (p := p) ho (formatWords (makeXdelCommand messages)) checkState db
  rw [ofArgs_makeXdelCommand hne] at hrun
  rw [markConsumedAgain, hrun]
  simp [Streams.exec, RedisReply.isError]

end

end RedisProducer

namespace RedisBack

/-! ### Rounds are completed -/

open RedisProducer (messagesStream messageOf)

variable {s s' : RedisBack} {e : Event} {entry : Entry} {r : machine.Run} {n : ℕ}

/-- The thread of the loop makes a call. -/
def Calls (_ : RedisBack) : Event → Prop
  | .getNext _ | .getNextAgain _ | .consume | .markConsumed _ | .markConsumedAgain _ => True
  | _ => False

/-- Nothing fails in the call. -/
def Fine : Event → Prop
  | .getNext o | .getNextAgain o | .markConsumed o | .markConsumedAgain o => o.Served
  | _ => True

/-- The connection carries an error. -/
def broken (s : RedisBack) : Bool := s.producer.connection.any fun c => c.err.isSome

/-- How many calls the round still has, with those that mend the connection. -/
def callsLeft (s : RedisBack) : ℕ :=
  match s.pc with
  | .fetched _ => if s.broken = true then 7 else 2
  | .consumed _ => if s.broken = true then 6 else 1
  | .markAgain _ _ => 1
  | .nextAgain => 3
  | _ => if s.broken = true then 4 else 3

theorem broken_of_err {c : RedisContext} {err : RedisErr} (hconn : s.producer.connection = some c)
    (herr : c.err = some err) : s.broken = true := by
  simp [broken, hconn, herr]

theorem not_broken_of_working (h : s.producer.Working) : s.broken = false := by
  cases hc : s.producer.connection with
  | none => simp [broken, hc]
  | some c => simp [broken, hc, h c hc]

/-- The loop is not at work on an empty batch. -/
def Loaded (s : RedisBack) : Prop :=
  ∀ b, (s.pc = .fetched b ∨ s.pc = .consumed b ∨ ∃ applied, s.pc = .markAgain b applied) → b ≠ []

theorem loaded_of_asked {producer : RedisProducer} {pc : RedisPc} (ha : s.Asked producer pc) :
    Loaded { s with producer := producer, pc := pc } := by
  intro b hb
  obtain ⟨-, rfl | rfl | ⟨rfl, hne⟩⟩ := ha
  · simp at hb
  · simp at hb
  · obtain rfl : s.batch = b := by simpa using hb
    exact hne

theorem loaded_of_reachable (h : machine.Reachable Machine.anyStep s) : s.Loaded := by
  refine h.invariant ?_ fun s e s' _ hi _ hn => ?_
  · rintro _ ⟨config, producer, consumer, rfl⟩
    simp [start, Loaded]
  · cases step_of_next hn with
    | xadd | save | signal => exact hi
    | getNext hpc hrun ha => exact loaded_of_asked ha
    | getNextAgain hpc ha => exact loaded_of_asked ha
    | @consume messages hpc =>
      intro b hb
      obtain rfl : (s.consumer.call messages).messages = b := by simpa using hb
      have hne := hi messages (Or.inl hpc)
      simpa [MessageConsumer.call] using hne
    | @markConsumed o producer messages applied pc hpc hproducer hend =>
      intro b hb
      obtain rfl | ⟨rfl, -⟩ := hend
      · obtain rfl : messages = b := by simpa using hb
        exact hi messages (Or.inr (Or.inl hpc))
      · simp at hb
    | markConsumedAgain | join | destroy | exit | restart => simp [Loaded]

/-- While nothing fails, the connection stays one that can be mended. -/
theorem mendable_next (h : s.producer.Mendable) (hfine : Fine e)
    (hn : machine.next s e = some s') : s'.producer.Mendable := by
  have hstep := step_of_next hn
  change s.next e = some s' at hn
  cases e with
  | getNext o =>
    simp only [next] at hn
    split_ifs at hn
    obtain rfl := Option.some.inj hn
    exact RedisProducer.runFirst_mendable hfine h _ _ RedisProducer.checkMessages _
  | getNextAgain o =>
    simp only [next] at hn
    split_ifs at hn
    obtain rfl := Option.some.inj hn
    exact RedisProducer.runAgain_mendable hfine _ RedisProducer.checkMessages _
  | markConsumed o =>
    simp only [next] at hn
    split at hn
    · obtain rfl := Option.some.inj hn
      exact RedisProducer.runFirst_mendable hfine h _ _ RedisProducer.checkState _
    · cases hn
  | markConsumedAgain o =>
    simp only [next] at hn
    split at hn
    · obtain rfl := Option.some.inj hn
      exact RedisProducer.runAgain_mendable hfine _ RedisProducer.checkState _
    · cases hn
  | xadd now data | consume | save k good | signal | join | destroy good | exit =>
    cases hstep
    exact h
  | restart config producer consumer =>
    cases hstep
    exact fun c hc => by cases hc

/-- After a `getNext` in which nothing fails the loop has a batch, if it is not at its head. -/
theorem callsLeft_fetched {producer : RedisProducer} {db : Streams}
    (hworking : producer.Working) {messages : Messages} (hne : messages ≠ []) :
    callsLeft { s with producer := producer, db := db, pc := afterNext (some (.ok messages)) } =
      2 := by
  have hbroken :
      broken { s with producer := producer, db := db, pc := .fetched messages } = false :=
    not_broken_of_working hworking
  have hfetched : afterNext (some (.ok messages)) = .fetched messages := by simp [afterNext, hne]
  rw [hfetched]
  simp [callsLeft, hbroken]

/-- Every call in which nothing fails brings the round nearer to its end. -/
theorem callsLeft_next (hmendable : s.producer.Mendable)
    (hchunk : 0 < s.producer.chunkSize.toNat) (hloaded : s.Loaded) (hfine : Fine e)
    (hn : machine.next s e = some s') (hc : ¬ s.Completes e) :
    callsLeft s' ≤ callsLeft s ∧ (s.Calls e → callsLeft s' < callsLeft s) := by
  have hstep := step_of_next hn
  change s.next e = some s' at hn
  cases e with
  | getNext o =>
    simp only [next] at hn
    split_ifs at hn with hready
    obtain rfl := Option.some.inj hn
    by_cases hworking : s.producer.Working
    · obtain ⟨p', hp', -, hnext⟩ := RedisProducer.getNextFirst_served hfine hworking hchunk s.db
      have hne : ((s.db messagesStream).entries.take s.producer.chunkSize.toNat).map
          messageOf ≠ [] := fun hnil => hc (by simp only [Completes, hnext, hnil])
      rw [hnext, callsLeft_fetched hp' hne]
      simp [callsLeft, hready.1, not_broken_of_working hworking]
    · obtain ⟨c, err, hconn, herr⟩ := RedisProducer.exists_err hworking
      have hcover : err.isEofOrIo = true := by simpa [herr] using hmendable c hconn
      rw [RedisProducer.getNextFirst_broken hconn herr hcover]
      simp [callsLeft, afterNext, hready.1, broken_of_err hconn herr]
  | getNextAgain o =>
    simp only [next] at hn
    split_ifs at hn with hready
    obtain rfl := Option.some.inj hn
    obtain ⟨p', hp', -, hnext⟩ :=
      RedisProducer.getNextAgain_served (p := s.producer) hfine hchunk s.db
    have hne : ((s.db messagesStream).entries.take s.producer.chunkSize.toNat).map
        messageOf ≠ [] := fun hnil => hc (by simp only [Completes, hnext, hnil])
    rw [hnext, callsLeft_fetched hp' hne]
    simp [callsLeft, hready]
  | markConsumed o =>
    simp only [next] at hn
    split at hn
    · rename_i messages hpc
      obtain rfl := Option.some.inj hn
      by_cases hworking : s.producer.Working
      · obtain ⟨p', -, -, hmark⟩ := RedisProducer.markConsumedFirst_served hfine hworking
          (hloaded messages (Or.inr (Or.inl hpc))) s.db
        exact absurd (by simp [Completes, hpc, hmark]) hc
      · -- the connection is broken: the call goes on, or `getNext` mends it
        obtain ⟨c, err, hconn, herr⟩ := RedisProducer.exists_err hworking
        rw [RedisProducer.markConsumedFirst, RedisProducer.runFirst_broken hconn herr]
        have hbroken := broken_of_err hconn herr
        by_cases heof : err = .eof
        · simp [callsLeft, afterMark, heof, hpc, hbroken]
        · have hsame : broken { s with pc := .loop } = true := hbroken
          simp [callsLeft, afterMark, heof, hpc, hbroken, hsame]
    · cases hn
  | markConsumedAgain o =>
    simp only [next] at hn
    split at hn
    · rename_i messages before hpc
      have hne := hloaded messages (Or.inr (Or.inr ⟨before, hpc⟩))
      have happ := RedisProducer.markConsumedAgain_served (p := s.producer) hfine hne s.db
      exact absurd (by simp [Completes, hpc, happ]) hc
    · cases hn
  | consume =>
    cases hstep with
    | consume hpc =>
      cases hbroken : s.broken <;> simp_all [callsLeft, broken]
  | xadd now data | save k good | signal =>
    cases hstep
    exact ⟨le_rfl, fun h => absurd h id⟩
  | join =>
    cases hstep with
    | join hpc => exact ⟨by simp only [callsLeft, hpc]; exact le_rfl, fun h => absurd h id⟩
  | destroy good =>
    cases hstep with
    | destroy hpc => exact ⟨by simp only [callsLeft, hpc]; exact le_rfl, fun h => absurd h id⟩
  | exit =>
    cases hstep with
    | exit hpc => exact ⟨by simp only [callsLeft, hpc]; exact le_rfl, fun h => absurd h id⟩
  | restart config producer consumer =>
    refine ⟨?_, fun h => absurd h id⟩
    cases hstep with
    | restart hpc =>
      simp only [callsLeft, hpc]
      split_ifs <;> simp_all [broken]

/-- **Rounds are completed**, on Redis.  If the thread of the loop makes calls again and again, from
some time on nothing fails in them, and the connection is then one that `getNext` can mend, rounds
are completed again and again. -/
theorem completes_of_calls (hrec : r.Recurs Calls)
    (hfine : ∀ k ≥ n, ∀ e, r.label k = some e → Fine e)
    (hmendable : (r.state n).producer.Mendable)
    (hchunk : ∀ k ≥ n, 0 < (r.state k).producer.chunkSize.toNat) : r.Recurs Completes := by
  have hmend : ∀ k ≥ n, (r.state k).producer.Mendable :=
    r.keeps (P := fun s => s.producer.Mendable)
      (fun k hk e he h => mendable_next h (hfine k hk e he) (r.next he)) hmendable
  exact Machine.Run.recurs_of_rank callsLeft hrec fun k hk e he hc =>
    callsLeft_next (hmend k hk) (hchunk k hk) (loaded_of_reachable (r.reachable k))
      (hfine k hk e he) (r.next he) hc

/-- **Every entry is moved in the end**, from Redis.  In every infinite run in which the thread of
the loop makes calls again and again, from some time on nothing fails in them, the connection is
then one that `getNext` can mend, packing loses nothing of the ids and the chunk size is not zero,
whatever is appended in between, whatever has failed before, and however often the process is
stopped and started again: every entry that was ever appended is deleted at some later time, and was
then handed over. -/
theorem entries_moved {first : ℕ} (hrec : r.Recurs Calls)
    (hfine : ∀ k ≥ first, ∀ e, r.label k = some e → Fine e)
    (hmendable : (r.state first).producer.Mendable)
    (hchunk : ∀ k, 0 < (r.state k).producer.chunkSize.toNat)
    (hpack : ∀ k, (r.state k).AllPackable) (hentry : entry ∈ (r.state n).log) :
    ∃ k ≥ n, entry ∉ (r.state k).entries ∧ messageOf entry ∈ (r.state k).handed :=
  eventually_handed (completes_of_calls hrec hfine hmendable fun k _ => hchunk k)
    (fun k _ => hchunk k) (fun k _ => hpack k) hentry

/-- The reply to one `XDEL` is lost, another one is not sent.  Then the stream is empty. -/
def brokenRun : List Event :=
  [.xadd 5 [97], .getNext .fine, .consume, .xadd 6 [98],
    .markConsumed { Outcomes.fine with first := .lost (some 6) .io [] }, .getNext .fine,
    .getNextAgain .fine, .consume, .markConsumed { Outcomes.fine with first := .lost none .eof [] },
    .markConsumedAgain .fine]

/-- The stream is empty, and the loop is at its head with a working connection. -/
def Idle (s : RedisBack) : Prop :=
  s.AtHead ∧ s.entries = [] ∧ 0 < s.producer.chunkSize.toNat ∧ s.AllPackable

/-- An empty stream is asked again and again. -/
theorem next_idle (h : s.Idle) :
    s.Completes (.getNext .fine) ∧ ∃ s', machine.next s (.getNext .fine) = some s' ∧ s'.Idle := by
  obtain ⟨⟨hpc, hrun, hworking⟩, hentries, hchunk, hpack⟩ := h
  obtain ⟨p', hp', hsize, hnext⟩ :=
    RedisProducer.getNextFirst_served Outcomes.served_fine hworking hchunk s.db
  have hnil : (s.db messagesStream).entries = [] := hentries
  rw [hnil, List.take_nil, List.map_nil] at hnext
  refine ⟨by simp [Completes, hnext], { s with producer := p', pc := .loop }, ?_, ⟨rfl, hrun, hp'⟩,
    hentries, hsize ▸ hchunk, hpack⟩
  change s.next (.getNext .fine) = some _
  simp [next, hpc, hrun, hnext, afterNext]

theorem entries_moved_sample : ∃ (r : machine.Run) (entry : Entry),
    (messageOf entry).data = [98] ∧ entry ∈ (r.state 4).entries ∧
    ∃ k ≥ 4, entry ∉ (r.state k).entries ∧ messageOf entry ∈ (r.state k).handed := by
  let s₀ : RedisBack := start ⟨[], []⟩ { chunkSize := 1 } { outputFolder := [] }
  have hrun : (machine.runIf Machine.anyStep s₀ brokenRun).any (fun s => decide (s.pc = .loop ∧
      s.run = true ∧ (s.producer.connection.all fun c => c.err.isNone) = true ∧ s.entries = [] ∧
      0 < s.producer.chunkSize.toNat ∧ s.AllPackable)) = true := by
    decide +kernel
  obtain ⟨s, hs, hP⟩ := (Option.any_eq_true _ _).1 hrun
  obtain ⟨hpc, hgo, hconn, hentries, hchunk, hpack⟩ := of_decide_eq_true hP
  have hworking : s.producer.Working := fun c hc => by simpa [hc] using hconn
  obtain ⟨r, hstates, -, htail⟩ := Machine.exists_run (M := machine) (J := Idle) ⟨_, _, _, rfl⟩ hs
    ⟨⟨hpc, hgo, hworking⟩, hentries, hchunk, hpack⟩ fun s h => (next_idle h).2
  have hfirst : ∃ entry ∈ (r.state 4).entries, (messageOf entry).data = [98] :=
    Machine.of_runIf (P := fun s => ∃ entry ∈ s.entries, (messageOf entry).data = [98])
      (hstates 4 (by decide)) (by decide +kernel)
  have hgood : ∀ k, 0 < (r.state k).producer.chunkSize.toNat ∧ (r.state k).AllPackable := by
    intro k
    rcases Nat.lt_or_ge k brokenRun.length with hk | hk
    · have hall : ∀ k < brokenRun.length,
          (machine.runIf Machine.anyStep s₀ (brokenRun.take k)).any (fun s =>
            decide (0 < s.producer.chunkSize.toNat ∧ s.AllPackable)) = true := by decide +kernel
      exact Machine.of_runIf (P := fun s => 0 < s.producer.chunkSize.toNat ∧ s.AllPackable)
        (hstates k hk.le) (hall k hk)
    · exact (htail k hk).1.2.2
  have hrec : r.Recurs Calls := fun n =>
    ⟨_, le_max_left _ _, .getNext .fine, (htail (max n brokenRun.length) (le_max_right _ _)).2,
      trivial⟩
  have hfine : ∀ k ≥ brokenRun.length, ∀ e, r.label k = some e → Fine e := by
    intro k hk e he
    obtain rfl := Option.some.inj ((htail k hk).2.symm.trans he)
    exact Outcomes.served_fine
  obtain ⟨entry, hin, hdata⟩ := hfirst
  have hlog := (sound_of_reachable (r.reachable 4)).sublist.subset hin
  have hmendable := (htail _ le_rfl).1.1.working.mendable
  exact ⟨r, entry, hdata, hin, entries_moved hrec hfine hmendable (fun k => (hgood k).1)
    (fun k => (hgood k).2) hlog⟩

end RedisBack

end GatewayPoc
