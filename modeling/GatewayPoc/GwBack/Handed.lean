import GatewayPoc.Core.Batches
import GatewayPoc.GwBack.Custody

/-!
# What the loop hands over

Everything the consumer was ever given is in a chunk or in the buffer.  In every run, whatever
fails, these are rows of the table, and only they are deleted; and when nothing fails the loop hands
over every row.

* `GwBack.Handed` : the invariant of all runs (`handed_of_reachable`).
* `GwBack.runIf_round` : one round of the loop takes the rows with the smallest ids.
* **`GwBack.finishes`** : the loop empties the table in as many rounds as it has batches, in the
  order of the ids, and an orderly stop then leaves every row ever committed in a file.
-/

namespace GatewayPoc

namespace GwBack

variable {s s' : GwBack} {e : Event} {G : GwBack → Event → Prop}

/-- Everything ever handed to the consumer, in order. -/
def handed (s : GwBack) : Messages := s.started.flatten ++ s.consumer.buffer

/-- What was handed over are rows, and a row that is deleted, or about to be, was handed over. -/
structure Handed (s : GwBack) : Prop where
  genuine : ∀ m ∈ s.handed, m ∈ s.table.log
  settled : ∀ m ∈ s.table.log, s.Settled m → m ∈ s.handed

/-- The chunks that are flushed and the buffer are what the consumer had and was given. -/
theorem handed_consume (s : GwBack) (messages : Messages) :
    (s.started ++ (s.consumer.call messages).flushed).flatten ++
        (s.consumer.call messages).consumer.buffer = s.handed ++ messages :=
  s.process.handed_call messages

theorem Handed.step (h : s.Handed) (hinv : s.Inv) (hs : Step s e s') : s'.Handed := by
  cases hs with
  | commit hc =>
    obtain ⟨hid, hlog, hrows⟩ := Table.commit_eq_some hc
    refine ⟨fun m hm => hlog ▸ List.mem_append_left _ (h.genuine m hm), fun m hm hset => ?_⟩
    rw [hlog] at hm
    rcases List.mem_append.1 hm with hold | hnew
    · refine h.settled m hold (hset.imp_left fun hgone hrow => hgone ?_)
      rw [hrows]
      exact List.mem_append_left _ hrow
    · -- the new row is in the table, and its id was not taken over
      obtain rfl := List.mem_singleton.1 hnew
      rcases hset with hset | hset
      · exact absurd (hrows ▸ List.mem_append_right _ hnew) hset
      · exact absurd (taken_subset_log hinv _ hset) hid
  | idle | getNextThrows | save | signal => exact ⟨h.genuine, h.settled⟩
  | getNext hpc | markConsumedThrows hpc | join hpc =>
    exact ⟨h.genuine, fun m hm hset =>
      h.settled m hm (Or.inl (hset.resolve_right (by simp [Pc.taken])))⟩
  | @consume messages hpc =>
    have hsub := hinv.fetched _ hpc
    have hhanded := handed_consume s messages
    refine ⟨fun m hm => ?_, fun m hm hset => ?_⟩
    · rw [handed, hhanded] at hm
      rcases List.mem_append.1 hm with hm | hm
      · exact h.genuine m hm
      · exact s.table.rows_subset (hsub.subset hm)
    · rw [handed, hhanded]
      rcases hset with hset | hset
      · exact List.mem_append_left _ (h.settled m hm (Or.inl hset))
      · rw [Pc.taken, MessageConsumer.call_messages_ids] at hset
        obtain ⟨x, hx, hid⟩ := List.mem_map.1 hset
        have hxlog : x ∈ s.table.log := s.table.rows_subset (hsub.subset hx)
        exact List.mem_append_right _ (Table.eq_of_id_eq hxlog hm hid ▸ hx)
  | @markConsumed messages hpc =>
    refine ⟨h.genuine, fun m hm hset => h.settled m hm ?_⟩
    have hgone := hset.resolve_right (by simp [Pc.taken])
    by_cases hid : m.id ∈ messages.map Message.id
    · exact Or.inr (by simpa [Pc.taken, hpc] using hid)
    · refine Or.inl fun hrow => hgone ?_
      simp only [PostgresProducer.markConsumed, PostgresProducer.consumedIds_eq, Table.rows_delete]
      exact List.mem_filter.2 ⟨hrow, by simpa using hid⟩
  | destroy hpc =>
    have hhanded : (s.started ++ [s.consumer.buffer]).flatten ++ [] = s.handed :=
      s.process.handed_destroy
    refine ⟨fun m hm => ?_, fun m hm hset => ?_⟩
    · rw [handed, hhanded] at hm
      exact h.genuine m hm
    · rw [handed, hhanded]
      exact h.settled m hm (Or.inl (hset.resolve_right (by simp [Pc.taken])))
  | exit hpc =>
    exact ⟨h.genuine, fun m hm hset =>
      h.settled m hm (Or.inl (hset.resolve_right (by simp [Pc.taken])))⟩
  | @restart producer consumer hpc =>
    have hbuf := hinv.closed (Or.inr hpc)
    have hhanded : s.started.flatten ++ (MessageConsumer.ofConfig consumer).buffer = s.handed := by
      rw [handed, hbuf]
      rfl
    refine ⟨fun m hm => ?_, fun m hm hset => ?_⟩
    · rw [handed, hhanded] at hm
      exact h.genuine m hm
    · rw [handed, hhanded]
      exact h.settled m hm (Or.inl (hset.resolve_right (by simp [Pc.taken])))

/-- **In every run**, whatever fails, what was handed over are rows, and only they are deleted. -/
theorem handed_of_reachable (h : machine.Reachable G s) : s.Handed := by
  refine h.invariant ?_ fun _ _ _ hr hi _ hn => hi.step (inv_of_reachable hr) (step_of_next hn)
  rintro _ ⟨producer, consumer, rfl⟩
  exact ⟨by simp [start, handed, MessageConsumer.ofConfig], by simp [start, Table.empty]⟩

/-- The rows the consumer has not taken over. -/
def waiting (s : GwBack) : Messages := s.table.rows.filter fun row => row.id ∉ s.pc.taken

/-- What waits and what was handed over is what was ever committed, while no acknowledgement
fails. -/
theorem waiting_handed_perm (h : machine.Reachable AcksSucceed s) :
    (s.waiting ++ s.handed).Perm s.table.log := by
  refine (Multiset.coe_eq_coe.1 ((balanced_of_reachable h).total.trans ?_)).symm
  rw [toLedger, add_assoc, Multiset.coe_add, Multiset.coe_add]
  exact Multiset.coe_eq_coe.2 (List.perm_append_comm.append_left _)

/-! ### The loop empties the table -/

/-- The rows in the order of their ids. -/
def sortedRows (t : Table) : Messages := t.rows.insertionSort fun a b => a.id ≤ b.id

theorem sortedRows_perm (t : Table) : (sortedRows t).Perm t.rows := List.perm_insertionSort _ _

theorem sortedRows_pairwise (t : Table) : (sortedRows t).Pairwise fun a b => a.id < b.id := by
  have hle : (sortedRows t).Pairwise fun a b => a.id ≤ b.id := List.pairwise_insertionSort _ _
  have hne : (sortedRows t).Pairwise fun a b => a.id ≠ b.id :=
    List.pairwise_map.1 (((sortedRows_perm t).map Message.id).nodup_iff.2 t.ids_rows_nodup)
  exact hle.imp₂ (fun a b hle hne => UInt64.lt_of_le_of_ne hle hne) hne

/-- What is left when the batch is acknowledged, in the order of the ids. -/
theorem sortedRows_markConsumed (t : Table) (n : ℕ) {messages : Messages}
    (hids : messages.map Message.id = (t.select n).map Message.id) :
    sortedRows (PostgresProducer.markConsumed t messages) = (sortedRows t).drop n := by
  have hsorted := sortedRows_pairwise t
  have hnodup : ((sortedRows t).map Message.id).Nodup :=
    ((sortedRows_perm t).map Message.id).nodup_iff.2 t.ids_rows_nodup
  have hrest : (t.rows.filter fun row => row.id ∉ messages.map Message.id).Perm
      ((sortedRows t).drop n) := by
    rw [← filter_key_eq_drop hnodup n, hids]
    exact (sortedRows_perm t).symm.filter _
  have hperm : (sortedRows (PostgresProducer.markConsumed t messages)).Perm
      ((sortedRows t).drop n) := by
    refine (sortedRows_perm _).trans ?_
    rw [PostgresProducer.markConsumed, PostgresProducer.consumedIds_eq]
    exact hrest
  -- two lists in the order of the ids with the same rows are equal
  refine hperm.eq_of_pairwise (fun a b _ _ (hab : a.id < b.id) hba => ?_)
    (sortedRows_pairwise _) (hsorted.sublist (List.drop_sublist _ _))
  exact absurd (UInt64.lt_trans hab hba) (UInt64.lt_irrefl _)

/-- The events of a round of the loop in which nothing fails. -/
def round : List Event := [.getNext, .consume, .markConsumed]

/-- The loop is at its head, and goes on. -/
structure AtHead (s : GwBack) : Prop where
  pc : s.pc = .loop
  run : s.run = true

/-- **A round** takes the first rows by id, hands them over and deletes them. -/
theorem runIf_round (h : s.AtHead) (hchunk : 0 < s.producer.chunkSize.toNat)
    (hne : sortedRows s.table ≠ []) :
    ∃ s', machine.runIf Opened s round = some s' ∧ s'.AtHead ∧ s'.producer = s.producer ∧
      s'.table.log = s.table.log ∧
      sortedRows s'.table = (sortedRows s.table).drop s.producer.chunkSize.toNat ∧
      s'.handed = s.handed ++ (sortedRows s.table).take s.producer.chunkSize.toNat := by
  obtain ⟨hpc, hrun⟩ := h
  let batch := s.table.select s.producer.chunkSize.toNat
  have hbatch : batch.isEmpty = false := by
    rw [List.isEmpty_eq_false_iff]
    exact fun hnil => hne ((List.take_eq_nil_iff.1 hnil).resolve_left (by omega))
  let r := s.consumer.call batch
  refine ⟨{ s with
    pc := .loop
    consumer := r.consumer
    started := s.started ++ r.flushed
    saving := s.saving ++ r.flushed.map fun chunk => ⟨chunk, s.consumer.outputFolder⟩
    table := PostgresProducer.markConsumed s.table r.messages }, ?_, ⟨rfl, hrun⟩, rfl, rfl, ?_, ?_⟩
  · simp [round, Machine.runIf, machine, next, Opened, AcksSucceed, OpensSucceed, SavesFinish, hpc,
      hrun, PostgresProducer.getNext, batch, hbatch, r, MessageConsumer.call]
  · exact sortedRows_markConsumed s.table _ (MessageConsumer.call_messages_ids _ _)
  · exact handed_consume s batch

/-- As many rounds as the table has batches empty it. -/
theorem runIf_rounds (h : s.AtHead) (hchunk : 0 < s.producer.chunkSize.toNat) :
    ∃ s', machine.runIf Opened s
        (Machine.rounds round (s.table.rows.length ⌈/⌉ s.producer.chunkSize.toNat)) = some s' ∧
      s'.AtHead ∧ s'.table.log = s.table.log ∧ s'.table.rows = [] ∧
      s'.handed = s.handed ++ sortedRows s.table := by
  let Ready : GwBack → Prop := fun s₁ =>
    s₁.AtHead ∧ s₁.producer = s.producer ∧ s₁.table.log = s.table.log
  let n := s.producer.chunkSize.toNat
  have hround : ∀ s₁, Ready s₁ → sortedRows s₁.table ≠ [] → ∃ s₂,
      machine.runIf Opened s₁ round = some s₂ ∧ Ready s₂ ∧
        sortedRows s₂.table = (sortedRows s₁.table).drop n ∧
        s₂.handed = s₁.handed ++ (sortedRows s₁.table).take n := by
    rintro s₁ ⟨hhead, hproducer, hlog⟩ hne
    obtain ⟨s₂, hrun, hhead₂, hproducer₂, hlog₂, hqueue, hhanded⟩ :=
      runIf_round hhead (hproducer ▸ hchunk) hne
    rw [hproducer] at hqueue hhanded
    exact ⟨s₂, hrun, ⟨hhead₂, hproducer₂.trans hproducer, hlog₂.trans hlog⟩, hqueue, hhanded⟩
  obtain ⟨s', hrun, ⟨hhead, -, hlog⟩, hnil, hhanded⟩ :=
    Machine.runIf_drain hchunk hround ⟨h, rfl, rfl⟩
  have hlen : (sortedRows s.table).length = s.table.rows.length := (sortedRows_perm _).length_eq
  refine ⟨s', hlen ▸ hrun, hhead, hlog, ?_, hhanded⟩
  exact List.Perm.eq_nil (hnil ▸ (sortedRows_perm s'.table).symm)

/-! ### An orderly stop -/

/-- The state that an orderly stop leads to. -/
def stopped (s : GwBack) : GwBack := { s with
  run := false
  pc := .exited
  consumer := s.process.stopped.consumer
  started := s.process.stopped.started
  saving := s.process.stopped.saving
  files := s.process.stopped.files }

/-- The events of an orderly stop with `k` threads that have not finished. -/
def stop (k : ℕ) : List Event :=
  [.signal] ++ Machine.rounds [.save 0 true] k ++ [.join, .destroy true, .exit]

/-- The threads run to their end, in the order they were started. -/
theorem runIf_saves (s : GwBack) :
    machine.runIf Opened s (Machine.rounds [.save 0 true] s.saving.length) =
      some { s with saving := [], files := Process.saveAll s.files s.saving } :=
  Machine.runIf_queue (fun saving files => { s with saving, files })
    (fun _ _ _ => ⟨⟨by simp [AcksSucceed], rfl, by simp [SavesFinish]⟩, rfl⟩) s.saving s.files

/-- From the head of the loop the process can always stop in order. -/
theorem runIf_stop (h : s.AtHead) :
    machine.runIf Opened s (stop s.saving.length) = some s.stopped := by
  have hopened : ∀ s e, (e = .signal ∨ e = .join ∨ e = .destroy true) → Opened s e := by
    rintro s e (rfl | rfl | rfl) <;> simp [Opened, AcksSucceed, OpensSucceed, SavesFinish]
  let s₁ : GwBack := { s with run := false }
  let s₂ : GwBack := { s₁ with saving := [], files := Process.saveAll s.files s.saving }
  let s₃ : GwBack := { s₂ with pc := .joined }
  have hjoin : s₂.next .join = some s₃ := if_pos ⟨h.pc, rfl⟩
  have hexit : Opened { s.stopped with pc := .destroyed } .exit :=
    ⟨by simp [AcksSucceed], trivial, fun _ => rfl⟩
  have hend : machine.runIf Opened s₂ [.join, .destroy true, .exit] = some s.stopped :=
    Machine.runIf_cons (hopened _ _ (by simp)) hjoin
      (Machine.runIf_cons (hopened _ _ (by simp)) rfl (Machine.runIf_one hexit rfl))
  have hsignal : machine.runIf Opened s [.signal] = some s₁ :=
    Machine.runIf_one (hopened _ _ (by simp)) rfl
  exact Machine.runIf_trans (Machine.runIf_trans hsignal (runIf_saves s₁)) hend

/-- **The back end can always finish.**  From the head of the loop of any run in which no
acknowledgement fails, every file can be opened and `main` has waited for the threads in every life
of the process so far, with no stop asked for and a chunk size that is not zero: rounds in which
nothing fails empty the table, as many as it has batches, and hand its rows over in the order of
their ids; if the stop then waits for the threads too, every row ever committed is in a file. -/
theorem finishes (hreach : machine.Reachable Opened s) (h : s.AtHead)
    (hchunk : 0 < s.producer.chunkSize.toNat) : ∃ k s', machine.runIf Opened s
        (Machine.rounds round (s.table.rows.length ⌈/⌉ s.producer.chunkSize.toNat) ++ stop k) =
      some s' ∧
    s'.pc = .exited ∧ s'.table.rows = [] ∧ s'.table.log = s.table.log ∧
    s'.handed = s.handed ++ sortedRows s.table ∧ ∀ m ∈ s.table.log, s'.InFile m := by
  obtain ⟨s₁, hrun₁, hhead, hlog, hrows, hhanded⟩ := runIf_rounds h hchunk
  have hrun := Machine.runIf_trans hrun₁ (runIf_stop hhead)
  have hreach₂ : machine.Reachable Opened s₁.stopped := Machine.reachable_of_runIf hreach hrun
  have hhanded₂ : s₁.stopped.handed = s₁.handed := s₁.process.stopped_handed
  refine ⟨_, s₁.stopped, hrun, rfl, hrows, hlog, hhanded₂.trans hhanded, fun m hm => ?_⟩
  have hdel : m ∈ s₁.stopped.table.deleted :=
    Table.mem_deleted.2 ⟨hlog ▸ hm, hrows ▸ List.not_mem_nil⟩
  -- the buffer is empty then, and no thread is left
  rcases held_of_custody (custody_of_reachable (careful_of_opened hreach₂)) hdel with hb | hs | hf
  · exact absurd hb List.not_mem_nil
  · obtain ⟨save, hsave, -⟩ := hs
    exact absurd hsave List.not_mem_nil
  · exact hf

/-- Three rows, the last one late and small, batches of two and chunks of two. -/
theorem finishes_sample : ∃ s s' : GwBack, s.table.rows.length = 3 ∧ s'.table.rows = [] ∧
    s'.handed.map Message.id = [3, 7, 9] ∧ ∀ m ∈ s.table.log, s'.InFile m := by
  let run : List Event := [.commit ⟨7, [97]⟩, .commit ⟨9, [98]⟩, .commit ⟨3, [99]⟩]
  obtain ⟨s, hr, hpc, hrun, hchunk, hlen, hhanded, hsorted⟩ :=
    Machine.exists_of_runIf (M := machine) (G := Opened)
      (P := fun s => s.pc = .loop ∧ s.run = true ∧ 0 < s.producer.chunkSize.toNat ∧
        s.table.rows.length = 3 ∧ s.handed = [] ∧
        (sortedRows s.table).map Message.id = [3, 7, 9])
      ⟨{ chunkSize := 2 }, { chunkSize := 2, outputFolder := [] }, rfl⟩ run (by decide)
  obtain ⟨k, s', -, -, hrows, -, hhanded', hfiles⟩ := finishes hr ⟨hpc, hrun⟩ hchunk
  exact ⟨s, s', hlen, hrows, by rw [hhanded', hhanded, List.nil_append, hsorted], hfiles⟩

end GwBack

end GatewayPoc
