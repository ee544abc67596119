import GatewayPoc.GwBack.Custody
import GatewayPoc.GwBack.RedisIds
import GatewayPoc.GwBack.RedisLoop

/-!
# The two back ends

`runLoop` knows its producer through `IProducer` only.  Here the back end on Redis is compared with
the back end on PostgreSQL: as long as packing loses nothing of the ids the server gives, the stream
is a table, `XADD` is a commit, an `XDEL` that the server executes is a `DELETE` that is committed,
whatever the loop hears of it, and an `XRANGE` is a `SELECT`.

* `RedisBack.Sim` : a state of one back end stands for a state of the other.
* `RedisBack.Allows` : what a guard on the runs of one says about the runs of the other.
* **`RedisBack.refines`** : every run on Redis is a run on PostgreSQL.
-/

namespace GatewayPoc

/-- The loop as it looks without the attempts of a call.  An acknowledgement that the server has
executed is over, although the call still goes on. -/
def RedisPc.toPc : RedisPc → Pc
  | .loop | .nextAgain => .loop
  | .fetched messages => .fetched messages
  | .consumed messages => .consumed messages
  | .markAgain messages applied => if applied = true then .loop else .consumed messages
  | .joined => .joined
  | .destroyed => .destroyed
  | .exited => .exited

/-- A call of `getNext` is going on. -/
def RedisPc.asking : RedisPc → Bool
  | .nextAgain => true
  | _ => false

/-- The ids of the messages the loop is at work on. -/
def RedisPc.ids : RedisPc → List UInt64
  | .fetched messages | .consumed messages | .markAgain messages _ => messages.map Message.id
  | _ => []

namespace RedisProducer

theorem packId_injective {a b : EntryId} (ha : Packable a) (hb : Packable b)
    (h : packId a = packId b) : a = b := by
  rw [← unpackId_packId ha, h, unpackId_packId hb]

/-- Packing keeps the order of the ids. -/
theorem packId_le {a b : EntryId} (ha : Packable a) (hb : Packable b) (h : a < b) :
    packId a ≤ packId b := by
  rw [UInt64.le_iff_toNat_le, packId_toNat ha, packId_toNat hb]
  rw [EntryId.lt_def, UInt64.lt_iff_toNat_lt, UInt64.lt_iff_toNat_lt, ← UInt64.toNat_inj] at h
  have := ha.2
  have := hb.2
  omega

end RedisProducer

namespace RedisBack

open RedisProducer (messagesStream dataField messageOf packId unpackId Packable)

variable {s s' : RedisBack} {e : Event} {t : GwBack}

/-! ### The messages of the loop -/

/-- The messages the loop is at work on are messages of the log. -/
def Named (s : RedisBack) : Prop := ∀ i ∈ s.pc.ids, ∃ entry ∈ s.log, i = packId entry.id

theorem named_of_ids (h : s.Named) (hlog : s.log ⊆ s'.log) (hids : s'.pc.ids ⊆ s.pc.ids) :
    s'.Named := by
  intro i hi
  obtain ⟨entry, hentry, rfl⟩ := h i (hids hi)
  exact ⟨entry, hlog hentry, rfl⟩

theorem named_of_asked (hsound : s.Sound) {producer : RedisProducer} {pc : RedisPc}
    (ha : s.Asked producer pc) : Named { s with producer := producer, pc := pc } := by
  intro i hi
  obtain ⟨-, rfl | rfl | ⟨rfl, -⟩⟩ := ha
  · exact absurd hi List.not_mem_nil
  · exact absurd hi List.not_mem_nil
  · obtain ⟨m, hm, rfl⟩ := List.mem_map.1 hi
    obtain ⟨entry, hentry, rfl⟩ := List.mem_map.1 hm
    exact ⟨entry, hsound.sublist.subset (List.mem_of_mem_take hentry), rfl⟩

theorem Named.step (h : s.Named) (hsound : s.Sound) (hs : Step s e s') : s'.Named := by
  have hlog : s.log ⊆ s'.log := (log_le hs).subset
  cases hs with
  | xadd => exact named_of_ids h hlog (List.Subset.refl _)
  | getNext hpc hrun ha => exact named_of_asked hsound ha
  | getNextAgain hpc ha => exact named_of_asked hsound ha
  | consume hpc =>
    refine named_of_ids h hlog ?_
    simp [RedisPc.ids, hpc, MessageConsumer.call_messages_ids]
  | markConsumed hpc hproducer hpc' =>
    refine named_of_ids h hlog ?_
    obtain rfl | ⟨rfl, -⟩ := hpc'
    · simp [RedisPc.ids, hpc]
    · simp [RedisPc.ids]
  | save | signal => exact named_of_ids h hlog (List.Subset.refl _)
  | markConsumedAgain | join | destroy | exit | restart =>
    exact named_of_ids h hlog (by simp [RedisPc.ids])

variable {G : RedisBack → Event → Prop}

theorem named_of_reachable (h : machine.Reachable G s) : s.Named := by
  refine h.invariant ?_ fun _ _ _ hr hi _ hn => hi.step (sound_of_reachable hr) (step_of_next hn)
  rintro _ ⟨config, producer, consumer, rfl⟩
  simp [start, Named, RedisPc.ids]

/-! ### Stream and table -/

/-- Packing loses nothing of the ids the server has given. -/
def AllPackable (s : RedisBack) : Prop := ∀ entry ∈ s.log, Packable entry.id

instance (s : RedisBack) : Decidable s.AllPackable :=
  inferInstanceAs (Decidable (∀ entry ∈ s.log, _))

/-- `t` is `s` with the stream as a table. -/
structure Sim (s : RedisBack) (t : GwBack) : Prop where
  log : t.table.log = s.log.map messageOf
  rows : t.table.rows = s.entries.map messageOf
  chunkSize : t.producer.chunkSize = s.producer.chunkSize
  consumer : t.consumer = s.consumer
  /-- While `getNext` goes on, a signal has not arrived yet. -/
  run : t.run = (s.run || s.pc.asking)
  pc : t.pc = s.pc.toPc
  /-- What the server has deleted does not come back. -/
  gone : ∀ messages, s.pc = .markAgain messages true → ∀ entry ∈ s.entries,
    entry.id ∉ messages.map fun message => unpackId message.id
  started : t.started = s.started
  saving : t.saving = s.saving
  files : t.files = s.files

/-- An `XRANGE` is a `SELECT`. -/
theorem select_eq (hsound : s.Sound) (hpack : s.AllPackable) (hsim : Sim s t) (n : ℕ) :
    t.table.select n = (s.entries.take n).map messageOf := by
  have hsorted : (s.entries.map messageOf).Pairwise fun a b => a.id ≤ b.id := by
    have hentries := hsound.sorted.sublist hsound.sublist
    refine List.pairwise_map.2 (hentries.imp_of_mem fun ha hb hlt => ?_)
    exact RedisProducer.packId_le (hpack _ (hsound.sublist.subset ha))
      (hpack _ (hsound.sublist.subset hb)) hlt
  rw [Table.select, hsim.rows, hsorted.insertionSort_eq, List.map_take]

/-- An `XDEL` that is executed is a `DELETE`. -/
theorem rows_markConsumed (hsound : s.Sound) (hpack : s.AllPackable) (hsim : Sim s t)
    (messages : Messages) :
    (PostgresProducer.markConsumed t.table messages).rows =
      ((s.xdel messages true messagesStream).entries).map messageOf := by
  have hiff : ∀ entry ∈ s.entries, packId entry.id ∈ messages.map Message.id ↔
      entry.id ∈ messages.map fun message => unpackId message.id := by
    intro entry hentry
    have hid := RedisProducer.unpackId_packId (hpack _ (hsound.sublist.subset hentry))
    simp only [List.mem_map]
    constructor
    · rintro ⟨m, hm, hmid⟩
      exact ⟨m, hm, by rw [hmid, hid]⟩
    · rintro ⟨m, hm, hmid⟩
      exact ⟨m, hm, by rw [← hmid, RedisProducer.packId_unpackId]⟩
  rw [entries_xdel, if_pos rfl, PostgresProducer.markConsumed, PostgresProducer.consumedIds_eq,
    Table.rows_delete, hsim.rows, List.filter_map]
  refine congrArg _ (List.filter_congr fun entry hentry => ?_)
  simp only [Function.comp_apply, messageOf, hiff entry hentry]

/-- An `XADD` is a commit. -/
theorem exists_commit {entry : Entry} (hsound : s.Sound) (hsim : Sim s t)
    (hpack : ∀ a ∈ s.log ++ [entry], Packable a.id) (hlt : s.lastId < entry.id) :
    ∃ table, t.table.commit (messageOf entry) = some table ∧
      table.log = (s.log ++ [entry]).map messageOf ∧
      table.rows = (s.entries ++ [entry]).map messageOf := by
  have hnew : (messageOf entry).id ∉ t.table.log.map Message.id := by
    intro hmem
    rw [hsim.log, List.map_map] at hmem
    obtain ⟨a, ha, hid⟩ := List.mem_map.1 hmem
    have heq : a.id = entry.id := RedisProducer.packId_injective
      (hpack a (List.mem_append_left _ ha)) (hpack entry (by simp)) hid
    rcases hsound.le_lastId a ha with hle | hle
    · rw [← heq, hle] at hlt
      exact EntryId.lt_irrefl _ hlt
    · rw [heq] at hle
      exact EntryId.lt_irrefl _ (EntryId.lt_trans hle hlt)
  refine ⟨_, dif_neg hnew, ?_, ?_⟩
  · simp only [hsim.log, List.map_append, List.map_singleton]
  · simp only [hsim.rows, List.map_append, List.map_singleton]

/-! ### Steps -/

/-- The guards on runs that are of interest say nothing about the other events. -/
def Unguarded : GwBack.Event → Bool
  | .markConsumedThrows | .save _ _ | .destroy _ | .exit => false
  | _ => true

/-- A guard `G` on runs on Redis gives the guard `H` on runs on PostgreSQL.  An acknowledgement
fails there if the server does not execute it here. -/
structure Allows (G : RedisBack → Event → Prop) (H : GwBack → GwBack.Event → Prop) : Prop where
  free : ∀ t e, Unguarded e = true → H t e
  throws : ∀ s t e, Sim s t → G s e → ¬ s.AcksExecuted e → H t .markConsumedThrows
  save : ∀ s t k good, Sim s t → G s (.save k good) → H t (.save k good)
  destroy : ∀ s t good, Sim s t → G s (.destroy good) → H t (.destroy good)
  exit : ∀ s t, Sim s t → G s .exit → H t .exit

section

variable {H : GwBack → GwBack.Event → Prop}

/-- When `getNext` has ended, a signal that arrived in the meantime arrives. -/
theorem reachable_run (hallow : Allows G H) (ht : GwBack.machine.Reachable H t)
    (hrun : t.run = true) (run : Bool) : GwBack.machine.Reachable H { t with run := run } := by
  cases run with
  | true =>
    have heq : { t with run := true } = t := by rw [← hrun]
    rwa [heq]
  | false => exact .step ht (hallow.free t .signal rfl) rfl

/-- An attempt of `getNext` leaves the loop as a `SELECT` does, or goes on. -/
theorem Sim.asked (hallow : Allows G H) (hsound : s.Sound) (hpack : s.AllPackable) (hsim : Sim s t)
    (ht : GwBack.machine.Reachable H t) (hpc : t.pc = .loop) (hrun : t.run = true)
    {producer : RedisProducer} {pc : RedisPc} (ha : s.Asked producer pc) :
    ∃ t', GwBack.machine.Reachable H t' ∧ Sim { s with producer := producer, pc := pc } t' := by
  obtain ⟨hchunk, rfl | rfl | ⟨rfl, hne⟩⟩ := ha
  · exact ⟨t, ht, { hsim with
      chunkSize := hsim.chunkSize.trans hchunk.symm
      run := by simp [RedisPc.asking, hrun]
      pc := hpc
      gone := by simp }⟩
  · exact ⟨_, reachable_run hallow ht hrun s.run, { hsim with
      chunkSize := hsim.chunkSize.trans hchunk.symm
      run := by simp [RedisPc.asking]
      pc := hpc
      gone := by simp }⟩
  · have hselect : PostgresProducer.getNext t.producer t.table = s.batch := by
      rw [PostgresProducer.getNext, hsim.chunkSize, select_eq hsound hpack hsim]
      rfl
    have hnext : GwBack.machine.next t .getNext = some { t with pc := .fetched s.batch } := by
      have hempty : s.batch.isEmpty = false := by simpa using hne
      change t.next .getNext = _
      simp [GwBack.next, hpc, hrun, hselect, hempty]
    have ht' := ht.step (hallow.free t .getNext rfl) hnext
    exact ⟨_, reachable_run hallow ht' hrun s.run, { hsim with
      chunkSize := hsim.chunkSize.trans hchunk.symm
      run := by simp [RedisPc.asking]
      pc := rfl
      gone := by simp }⟩

/-- An acknowledgement that the server executes, at a moment when it has not executed it yet. -/
theorem Sim.acknowledged (hallow : Allows G H) (hsound : s.Sound) (hpack : s.AllPackable)
    (hsim : Sim s t) (ht : GwBack.machine.Reachable H t) {messages : Messages}
    (hpc : t.pc = .consumed messages) (hasking : s.pc.asking = false)
    {producer : RedisProducer} (hproducer : producer.chunkSize = s.producer.chunkSize)
    {pc : RedisPc} (hpc' : pc = .markAgain messages true ∨ pc = .loop) :
    ∃ t', GwBack.machine.Reachable H t' ∧
      Sim { s with producer := producer, db := s.xdel messages true, pc := pc } t' := by
  have hnext : GwBack.machine.next t .markConsumed = some { t with
      pc := .loop, table := PostgresProducer.markConsumed t.table messages } := by
    change t.next .markConsumed = _
    simp [GwBack.next, hpc]
  refine ⟨_, ht.step (hallow.free t .markConsumed rfl) hnext, { hsim with
    rows := rows_markConsumed hsound hpack hsim messages
    chunkSize := hsim.chunkSize.trans hproducer.symm
    run := ?_
    pc := ?_
    gone := ?_ }⟩
  · have hrun := hsim.run
    rw [hasking] at hrun
    obtain rfl | rfl := hpc' <;> simpa [RedisPc.asking] using hrun
  · obtain rfl | rfl := hpc' <;> rfl
  · intro messages' hmark entry hentry
    obtain rfl | rfl := hpc'
    · obtain ⟨rfl, -⟩ := RedisPc.markAgain.inj hmark
      change entry ∈ (s.xdel messages true messagesStream).entries at hentry
      rw [entries_xdel, if_pos rfl] at hentry
      simpa using (List.mem_filter.1 hentry).2
    · cases hmark

/-- An acknowledgement that the server does not execute. -/
theorem Sim.unacknowledged (hallow : Allows G H) (hsim : Sim s t)
    (ht : GwBack.machine.Reachable H t) {messages : Messages} (hpc : t.pc = .consumed messages)
    (hasking : s.pc.asking = false) (hg : G s e) (hacks : ¬ s.AcksExecuted e)
    {producer : RedisProducer} (hproducer : producer.chunkSize = s.producer.chunkSize) :
    ∃ t', GwBack.machine.Reachable H t' ∧
      Sim { s with producer := producer, db := s.xdel messages false, pc := .loop } t' := by
  have hnext : GwBack.machine.next t .markConsumedThrows = some { t with pc := .loop } := by
    change t.next .markConsumedThrows = _
    simp [GwBack.next, hpc]
  have hrun := hsim.run
  rw [hasking] at hrun
  exact ⟨_, ht.step (hallow.throws s t e hsim hg hacks) hnext, { hsim with
    chunkSize := hsim.chunkSize.trans hproducer.symm
    run := by simpa [RedisPc.asking] using hrun
    pc := rfl
    gone := by simp }⟩

/-- An `XADD` of a front end, while the loop may be anywhere. -/
theorem Sim.xadd (hallow : Allows G H) (hsound : s.Sound) (hnamed : s.Named) {now : UInt64}
    {data : Bytes} (hsim : Sim s t) (ht : GwBack.machine.Reachable H t)
    (hpack :
      (s.observe (s.db.exec now (some (.xadd messagesStream dataField data))).1).AllPackable) :
    ∃ t', GwBack.machine.Reachable H t' ∧
      Sim (s.observe (s.db.exec now (some (.xadd messagesStream dataField data))).1) t' := by
  obtain heq | ⟨entry, -, hlt, hentries, hlog, -⟩ := observe_xadd s now data
  · rw [heq]
    exact ⟨t, ht, hsim⟩
  unfold AllPackable at hpack
  rw [hlog] at hpack
  obtain ⟨table, hcommit, htlog, htrows⟩ := exists_commit hsound hsim hpack hlt
  have hnext : GwBack.machine.next t (.commit (messageOf entry)) =
      some { t with table := table } := by
    change t.next (.commit (messageOf entry)) = _
    simp [GwBack.next, hcommit]
  refine ⟨_, ht.step (hallow.free t _ rfl) hnext, { hsim with
    log := by rw [hlog, ← htlog]
    rows := by rw [hentries, ← htrows]
    gone := fun messages hpc a ha => ?_ }⟩
  rw [hentries] at ha
  rcases List.mem_append.1 ha with ha | ha
  · exact hsim.gone messages hpc a ha
  · -- the new id is larger than those the loop is at work on
    rw [List.mem_singleton.1 ha]
    intro hmem
    obtain ⟨m, hm, hid⟩ := List.mem_map.1 hmem
    have hpc' : s.pc = .markAgain messages true := hpc
    have htaken : m.id ∈ s.pc.ids := by
      rw [hpc']
      exact List.mem_map_of_mem hm
    obtain ⟨b, hb, hbid⟩ := hnamed _ htaken
    rw [hbid, RedisProducer.unpackId_packId (hpack b (List.mem_append_left _ hb))] at hid
    rcases hsound.le_lastId b hb with hle | hle
    · rw [← hid, hle] at hlt
      exact EntryId.lt_irrefl _ hlt
    · rw [hid] at hle
      exact EntryId.lt_irrefl _ (EntryId.lt_trans hle hlt)

/-- Every step is a step of the other back end, a few, or none. -/
theorem Sim.step (hallow : Allows G H) (hsound : s.Sound) (hnamed : s.Named)
    (hpack : s'.AllPackable) (hsim : Sim s t) (ht : GwBack.machine.Reachable H t) (hg : G s e)
    (hs : Step s e s') : ∃ t', GwBack.machine.Reachable H t' ∧ Sim s' t' := by
  have hpack' : s.AllPackable := fun entry hentry => hpack entry ((log_le hs).subset hentry)
  have hpc' := hsim.pc
  have hrun' := hsim.run
  cases hs with
  | xadd => exact hsim.xadd hallow hsound hnamed ht hpack
  | getNext hpc hrun ha =>
    rw [hpc] at hpc'
    rw [hrun, Bool.true_or] at hrun'
    exact hsim.asked hallow hsound hpack' ht hpc' hrun' ha
  | getNextAgain hpc ha =>
    rw [hpc] at hpc' hrun'
    exact hsim.asked hallow hsound hpack' ht hpc' (hrun'.trans (Bool.or_true _)) ha
  | @consume messages hpc =>
    rw [hpc] at hpc'
    have hnext : GwBack.machine.next t .consume = some { t with
        pc := .consumed (s.consumer.call messages).messages
        consumer := (s.consumer.call messages).consumer
        started := t.started ++ (s.consumer.call messages).flushed
        saving := t.saving ++ (s.consumer.call messages).flushed.map fun chunk =>
          ⟨chunk, s.consumer.outputFolder⟩ } := by
      change t.next .consume = _
      simp only [GwBack.next, hpc', RedisPc.toPc, hsim.consumer]
      rfl
    exact ⟨_, ht.step (hallow.free t .consume rfl) hnext, { hsim with
      consumer := rfl
      run := by simpa [hpc, RedisPc.asking] using hrun'
      pc := rfl
      gone := by simp
      started := by rw [hsim.started]
      saving := by rw [hsim.saving] }⟩
  | @markConsumed o producer messages applied pc hpc hproducer hend =>
    rw [hpc] at hpc'
    have hasking : s.pc.asking = false := by rw [hpc]; rfl
    cases applied with
    | true =>
      exact hsim.acknowledged hallow hsound hpack' ht hpc' hasking hproducer
        (hend.imp_right And.left)
    | false =>
      obtain rfl | ⟨rfl, hacks⟩ := hend
      · -- the call goes on, and nothing has happened to the streams
        exact ⟨t, ht, { hsim with
          chunkSize := hsim.chunkSize.trans hproducer.symm
          run := by simpa [hpc, RedisPc.asking] using hrun'
          pc := hpc'
          gone := by simp }⟩
      · exact hsim.unacknowledged hallow ht hpc' hasking hg (by simpa using hacks) hproducer
  | @markConsumedAgain o producer messages before applied hpc hproducer hacks =>
    have hasking : s.pc.asking = false := by rw [hpc]; rfl
    rw [hpc] at hpc'
    cases before with
    | true =>
      -- the entries are gone already, and their ids do not come back
      have hsame : (s.xdel messages applied messagesStream).entries = s.entries := by
        rw [entries_xdel]
        split_ifs
        · exact List.filter_eq_self.2 fun entry hentry => by
            simpa using hsim.gone messages hpc entry hentry
        · rfl
      exact ⟨t, ht, { hsim with
        rows := hsim.rows.trans (congrArg _ hsame.symm)
        chunkSize := hsim.chunkSize.trans hproducer.symm
        run := by simpa [hpc, RedisPc.asking] using hrun'
        pc := hpc'
        gone := by simp }⟩
    | false =>
      cases applied with
      | true =>
        exact hsim.acknowledged hallow hsound hpack' ht hpc' hasking hproducer (Or.inr rfl)
      | false =>
        exact hsim.unacknowledged hallow ht hpc' hasking hg (by simpa using hacks) hproducer
  | @save k good save hk =>
    have hnext : GwBack.machine.next t (.save k good) = some { t with
        saving := t.saving.eraseIdx k
        files := saveMessages t.files save.messages save.folder good } := by
      change t.next (.save k good) = _
      simp [GwBack.next, hsim.saving, hk]
    exact ⟨_, ht.step (hallow.save s t k good hsim hg) hnext, { hsim with
      saving := by rw [hsim.saving]
      files := by rw [hsim.files] }⟩
  | signal =>
    cases hasking : s.pc.asking with
    | true =>
      exact ⟨t, ht, { hsim with run := by simpa [hasking] using hrun' }⟩
    | false =>
      exact ⟨{ t with run := false }, ht.step (hallow.free t .signal rfl) rfl, { hsim with
        run := by simp [hasking] }⟩
  | join hpc hrun =>
    rw [hpc] at hpc' hrun'
    rw [hrun] at hrun'
    have hnext : GwBack.machine.next t .join = some { t with pc := .joined } := by
      change t.next .join = _
      simpa [GwBack.next, RedisPc.toPc, RedisPc.asking] using And.intro hpc' hrun'
    exact ⟨_, ht.step (hallow.free t .join rfl) hnext, { hsim with
      run := by simpa [hrun, RedisPc.asking] using hrun'
      pc := rfl
      gone := by simp }⟩
  | @destroy good hpc =>
    rw [hpc] at hpc' hrun'
    have hnext : GwBack.machine.next t (.destroy good) = some { t with
        pc := .destroyed
        consumer := { s.consumer with buffer := [] }
        started := t.started ++ [s.consumer.buffer]
        files := saveMessages t.files s.consumer.buffer s.consumer.outputFolder good } := by
      change t.next (.destroy good) = _
      simp [GwBack.next, hpc', RedisPc.toPc, hsim.consumer]
    exact ⟨_, ht.step (hallow.destroy s t good hsim hg) hnext, { hsim with
      consumer := rfl
      run := by simpa [RedisPc.asking] using hrun'
      pc := rfl
      gone := by simp
      started := by rw [hsim.started]
      files := by rw [hsim.files] }⟩
  | exit hpc =>
    rw [hpc] at hpc' hrun'
    have hnext : GwBack.machine.next t .exit = some { t with pc := .exited, saving := [] } := by
      change t.next .exit = _
      simp [GwBack.next, hpc', RedisPc.toPc]
    exact ⟨_, ht.step (hallow.exit s t hsim hg) hnext, { hsim with
      run := by simpa [RedisPc.asking] using hrun'
      pc := rfl
      gone := by simp
      saving := rfl }⟩
  | @restart config producer consumer hpc =>
    rw [hpc] at hpc'
    have hnext : GwBack.machine.next t (.restart producer consumer) = some { t with
        pc := .loop, run := true, producer, consumer := .ofConfig consumer } := by
      change t.next (.restart producer consumer) = _
      simp [GwBack.next, hpc', RedisPc.toPc]
    exact ⟨_, ht.step (hallow.free t _ rfl) hnext, { hsim with
      chunkSize := rfl
      consumer := rfl
      run := rfl
      pc := rfl
      gone := by simp }⟩

/-- **Refinement.**  Every state the back end on Redis reaches stands for a state that the back end
on PostgreSQL reaches, as long as packing loses nothing of the ids: the same consumer, chunks, saves
and files, over a table that is the stream.  This holds for runs under any guard that says nothing
but which acknowledgements, saves and exits are allowed. -/
theorem sim_of_reachable (hallow : Allows G H) (h : machine.Reachable G s) (hpack : s.AllPackable) :
    ∃ t, GwBack.machine.Reachable H t ∧ Sim s t := by
  refine h.invariant (I := fun s => s.AllPackable → ∃ t, GwBack.machine.Reachable H t ∧ Sim s t)
    ?_ ?_ hpack
  · rintro _ ⟨config, producer, consumer, rfl⟩ -
    refine ⟨GwBack.start producer consumer, .init ⟨producer, consumer, rfl⟩, ?_⟩
    exact ⟨rfl, rfl, rfl, rfl, rfl, rfl, by simp [start], rfl, rfl, rfl⟩
  · intro s e s' hr ih hg hn hpack
    have hs := step_of_next hn
    obtain ⟨t, ht, hsim⟩ := ih fun entry hentry => hpack entry ((log_le hs).subset hentry)
    exact hsim.step hallow (sound_of_reachable hr) (named_of_reachable hr) hpack ht hg hs

end

end RedisBack

end GatewayPoc
