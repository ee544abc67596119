import GatewayPoc.Core.Ledger
import GatewayPoc.GwBack.RunLoop

/-!
# Exactly-once hand-off

As long as no acknowledgement fails, the back end refines the hand-off ledger
(`GwBack.ledger_reachable`): a row waits in the table until the consumer has taken it over, is
held in the buffer, and is handed out with the chunk that is flushed.  The rows of a batch that was
taken over but not deleted yet do not wait any more, so the ledger moves when the consumer is
called and not when the `DELETE` commits.

`GwBack.exactly_once` reads the balance of the ledger off the back end: nothing is lost, nothing
is duplicated, nothing is deleted that was not handed to the consumer, and no two chunks get the
same file name.  The last part holds because chunks share no message, hence no id, while the name
of a chunk contains one of its ids.
-/

namespace GatewayPoc

/-- The ids the consumer has taken over and the loop has not deleted yet. -/
def Pc.taken : Pc → List UInt64
  | .consumed messages => messages.map Message.id
  | _ => []

namespace GwBack

/-- No acknowledgement fails. -/
def AcksSucceed (_ : GwBack) (e : Event) : Prop := e ≠ .markConsumedThrows

instance (s : GwBack) (e : Event) : Decidable (AcksSucceed s e) :=
  inferInstanceAs (Decidable (e ≠ _))

/-- The back end as a hand-off ledger. -/
def toLedger (s : GwBack) : Ledger Message where
  posted := s.table.log
  waiting := (s.table.rows.filter fun row => row.id ∉ s.pc.taken : Messages)
  held := s.consumer.buffer
  lots := s.started

/-- The loop is between two iterations, or has ended. -/
def Between (s : GwBack) : Prop := ∀ b, s.pc ≠ .fetched b ∧ s.pc ≠ .consumed b

variable {s s' : GwBack} {e : Event}

theorem taken_subset_log (h : s.Inv) : ∀ i ∈ s.pc.taken, i ∈ s.table.log.map Message.id := by
  intro i hi
  cases hpc : s.pc with
  | consumed b => exact h.consumed b hpc i (by simpa [Pc.taken, hpc] using hi)
  | loop | fetched b | joined | destroyed | exited => simp [Pc.taken, hpc] at hi

theorem toLedger_commit {message : Message} {table : Table} (h : s.Inv)
    (hc : s.table.commit message = some table) :
    Ledger.machine.Steps s.toLedger { s with table }.toLedger := by
  obtain ⟨hid, hlog, hrows⟩ := Table.commit_eq_some hc
  have hpost : message ∉ s.table.log := fun hm => hid (List.mem_map_of_mem hm)
  have htaken : message.id ∉ s.pc.taken := fun hm => hid (taken_subset_log h _ hm)
  refine Machine.Steps.one (M := Ledger.machine) (l := .post message) ?_
  simp only [Ledger.machine, Ledger.next, toLedger, Multiset.mem_coe, hpost, if_false, hlog, hrows,
    Multiset.cons_coe, Option.some.injEq, Ledger.mk.injEq, Multiset.coe_eq_coe, and_true]
  refine ⟨(List.perm_append_singleton _ _).symm, ?_⟩
  rw [List.filter_append, List.filter_cons_of_pos (by simpa using htaken), List.filter_nil]
  exact (List.perm_append_singleton _ _).symm

theorem toLedger_consume {batch : Messages} (h : s.Inv) (hpc : s.pc = .fetched batch)
    (hs : Step s .consume s') : Ledger.machine.Steps s.toLedger s'.toLedger := by
  cases hs with
  | @consume messages hpc' =>
    obtain rfl : messages = batch := Pc.fetched.inj (hpc'.symm.trans hpc)
    have hsub := h.fetched _ hpc
    have hwait : s.toLedger.waiting = (s.table.rows : Multiset Message) := by
      simp [toLedger, Pc.taken, hpc]
    have hsplit : (s.table.rows : Multiset Message) =
        (messages : Multiset Message) +
          (s.table.rows.filter fun row => row.id ∉ messages.map Message.id : Messages) :=
      Multiset.coe_eq_coe.2 (Table.rows_perm hsub)
    have htake := Ledger.steps_take (l := s.toLedger) (b := messages)
      (hwait ▸ Multiset.coe_le.2 hsub)
    rw [hwait, hsplit, add_tsub_cancel_left] at htake
    have hheld : s.toLedger.held + (messages : Multiset Message) =
        ((s.consumer.call messages).consumer.buffer : Multiset Message) +
          ((s.consumer.call messages).flushed.flatten : Multiset Message) := by
      change (s.consumer.buffer : Multiset Message) + messages = _
      rw [Multiset.coe_add, ← MessageConsumer.call_flatten, ← Multiset.coe_add, add_comm]
    -- the consumer takes the whole batch over, and then hands out the chunks
    refine (htake.trans (Ledger.steps_hand_all _ hheld)).trans (Machine.Steps.of_eq ?_)
    simp [toLedger, Pc.taken, MessageConsumer.call_messages_ids]

theorem toLedger_destroy {good : Bool} (hs : Step s (.destroy good) s') :
    Ledger.machine.Steps s.toLedger s'.toLedger := by
  cases hs with
  | destroy hpc =>
    have hheld : s.toLedger.held = 0 + ([s.consumer.buffer].flatten : Multiset Message) := by
      simp [toLedger]
    simpa [toLedger, Pc.taken, hpc] using Ledger.steps_hand_all _ hheld

/-- Every step is a sequence of moves of the ledger. -/
theorem toLedger_step (h : s.Inv) (hg : AcksSucceed s e) (hs : Step s e s') :
    Ledger.machine.Steps s.toLedger s'.toLedger := by
  cases hs with
  | commit hc => exact toLedger_commit h hc
  | idle | getNextThrows | save | signal => exact Machine.Steps.refl _
  | consume hpc => exact toLedger_consume h hpc (.consume hpc)
  | destroy hpc => exact toLedger_destroy (.destroy hpc)
  | markConsumedThrows => exact absurd rfl hg
  | getNext hpc | join hpc | exit hpc =>
    exact Machine.Steps.of_eq (by simp [toLedger, Pc.taken, hpc])
  | markConsumed hpc =>
    -- the rows deleted were taken over already
    exact Machine.Steps.of_eq (by
      simp [toLedger, Pc.taken, hpc, PostgresProducer.markConsumed,
        PostgresProducer.consumedIds_eq])
  | restart hpc =>
    have hbuf := h.closed (Or.inr hpc)
    exact Machine.Steps.of_eq (by simp [toLedger, Pc.taken, hpc, hbuf, MessageConsumer.ofConfig])

theorem ledger_reachable (h : machine.Reachable AcksSucceed s) :
    Ledger.machine.Reachable Machine.anyStep s.toLedger := by
  refine h.map ?_ fun _ _ _ hr hg hn => toLedger_step (inv_of_reachable hr) hg (step_of_next hn)
  rintro _ ⟨producer, consumer, rfl⟩
  rfl

theorem balanced_of_reachable (h : machine.Reachable AcksSucceed s) : s.toLedger.Balanced :=
  Ledger.balanced (ledger_reachable h)

/-! ### Reading the ledger off the back end -/

theorem mem_log_of_mem_started (h : machine.Reachable AcksSucceed s) {c : Messages}
    (hc : c ∈ s.started) {m : Message} (hm : m ∈ c) : m ∈ s.table.log := by
  have hle : (s.started.flatten : Multiset Message) ≤ (s.table.log : Multiset Message) :=
    (Multiset.le_add_left _ _).trans_eq (balanced_of_reachable h).total.symm
  exact Multiset.mem_coe.1 (Multiset.mem_of_le hle (List.mem_flatten.2 ⟨c, hc, hm⟩))

/-- No two chunks share a message. -/
theorem started_disjoint (h : machine.Reachable AcksSucceed s) :
    s.started.Pairwise List.Disjoint :=
  (balanced_of_reachable h).lots_disjoint

/-- A deleted row is in the buffer or in a chunk. -/
theorem handed_of_mem_deleted (h : machine.Reachable AcksSucceed s) {m : Message}
    (hm : m ∈ s.table.deleted) : m ∈ s.consumer.buffer ∨ ∃ c ∈ s.started, m ∈ c := by
  obtain ⟨hlog, hrows⟩ := Table.mem_deleted.1 hm
  have hmem : m ∈ s.toLedger.posted := Multiset.mem_coe.2 hlog
  rw [(balanced_of_reachable h).total, Multiset.mem_add, Multiset.mem_add] at hmem
  rcases hmem with (hwait | hheld) | hlots
  · exact absurd (List.mem_filter.1 (Multiset.mem_coe.1 hwait)).1 hrows
  · exact Or.inl (Multiset.mem_coe.1 hheld)
  · exact Or.inr (List.mem_flatten.1 (Multiset.mem_coe.1 hlots))

/-- Two chunks that get the same name have an id, hence a message, in common. -/
theorem exists_mem_of_fileName_eq (h : machine.Reachable AcksSucceed s) {c d : Messages}
    (hc : c ∈ s.started) (hd : d ∈ s.started) {name : Bytes} (hnc : fileName? c = some name)
    (hnd : fileName? d = some name) : ∃ m ∈ c, m ∈ d := by
  obtain ⟨x, hx, y, hy, hid⟩ := exists_common_id hnc hnd
  have hxy : x = y := Table.eq_of_id_eq (mem_log_of_mem_started h hc hx)
    (mem_log_of_mem_started h hd hy) hid
  exact ⟨x, hx, hxy ▸ hy⟩

/-- No two chunks get the same file name. -/
theorem started_names_nodup (h : machine.Reachable AcksSucceed s) :
    (s.started.filterMap fileName?).Nodup :=
  Ledger.nodup_filterMap_of_disjoint (started_disjoint h)
    fun _ hc _ hd _ hnc hnd => exists_mem_of_fileName_eq h hc hd hnc hnd

/-- **Exactly-once hand-off.**  In every run in which no acknowledgement fails, whatever the
chunk sizes, the order in which rows become visible, the calls of `getNext` that throw and the
restarts: between two iterations the rows ever committed are the rows in the table, the buffer and
the chunks handed to `saveMessages`, each row once; at every moment a deleted row has been handed
to the consumer; and no two chunks get the same file name. -/
theorem exactly_once (h : machine.Reachable AcksSucceed s) :
    (s.Between → (s.table.log : Multiset Message) =
      (s.table.rows : Multiset Message) + (s.consumer.buffer : Multiset Message) +
        (s.started.flatten : Multiset Message)) ∧
    s.table.log.Nodup ∧
    (∀ m ∈ s.table.deleted, m ∈ s.consumer.buffer ∨ ∃ c ∈ s.started, m ∈ c) ∧
    (s.started.filterMap fileName?).Nodup := by
  refine ⟨fun hb => ?_, s.table.log_nodup', fun m hm => handed_of_mem_deleted h hm,
    started_names_nodup h⟩
  have hwait : (s.toLedger.waiting : Multiset Message) = s.table.rows := by
    cases hpc : s.pc with
    | consumed b => exact absurd hpc (hb b).2
    | loop | fetched b | joined | destroyed | exited => simp [toLedger, Pc.taken, hpc]
  rw [← hwait]
  exact (balanced_of_reachable h).total

/-- A run with a late small id, two chunks and an orderly stop. -/
theorem exactly_once_sample : ∃ s : GwBack, s.started.length = 2 ∧
    (s.table.log : Multiset Message) =
      (s.table.rows : Multiset Message) + (s.consumer.buffer : Multiset Message) +
        (s.started.flatten : Multiset Message) ∧
    (s.started.filterMap fileName?).Nodup := by
  let run : List Event := [.commit ⟨7, [97]⟩, .commit ⟨9, [98]⟩, .getNext, .consume, .markConsumed,
    .commit ⟨3, [99]⟩, .getNextThrows, .getNext, .consume, .markConsumed, .signal, .join,
    .destroy true]
  obtain ⟨s, hr, hpc, hlen⟩ := Machine.exists_of_runIf (M := machine) (G := AcksSucceed)
    (P := fun s => s.pc = .destroyed ∧ s.started.length = 2)
    ⟨{}, { chunkSize := 2, outputFolder := [] }, rfl⟩ run (by decide)
  exact ⟨s, hlen, (exactly_once hr).1 (fun b => by simp [hpc]), (exactly_once hr).2.2.2⟩

end GwBack

end GatewayPoc
