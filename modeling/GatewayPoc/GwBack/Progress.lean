import GatewayPoc.Core.Batches
import GatewayPoc.GwBack.RunLoop

/-!
# No row waits forever

Rows become visible in any order, and the loop takes those with the smallest ids first, so a row can
be overtaken by rows that come later.  But ids are numbers and are used once: only as many rows can
overtake a row as there are smaller ids.

* `GwBack.Overtaken` : the acknowledgements so far have each deleted a full batch of smaller ids
  (`overtaken_of_run`).
* **`GwBack.overtaken_le`** : a row is deleted at the latest by the acknowledgement after the first
  `id / chunkSize`, whatever is committed in between and whatever calls throw.
-/

namespace GatewayPoc

namespace GwBack

variable {s s' : GwBack} {e : Event} {m : Message} {chunk n : ℕ}

/-- The process is not started again, which may change the chunk size. -/
def SameLife (_ : GwBack) : Event → Prop
  | .restart _ _ => False
  | _ => True

instance (s : GwBack) (e : Event) : Decidable (s.SameLife e) :=
  match e with
  | .restart _ _ => isFalse id
  | .commit _ | .getNext | .getNextThrows | .consume | .markConsumed | .markConsumedThrows
  | .save _ _ | .signal | .join | .destroy _ | .exit => isTrue trivial

/-- The rows that were deleted and have a smaller id. -/
def passed (m : Message) (s : GwBack) : Messages := s.table.deleted.filter fun row => row.id < m.id

/-- Ids are used once, so there are at most as many as there are smaller numbers. -/
theorem passed_length_le (m : Message) (s : GwBack) : (passed m s).length ≤ m.id.toNat := by
  have hsub : (passed m s).Sublist s.table.log := List.filter_sublist.trans List.filter_sublist
  have hnodup : ((passed m s).map fun row => row.id.toNat).Nodup := by
    have hids := (hsub.map Message.id).nodup s.table.log_nodup
    rw [show (fun row : Message => row.id.toNat) = UInt64.toNat ∘ Message.id from rfl,
      ← List.map_map]
    exact hids.map fun a b hab => UInt64.toNat_inj.1 hab
  have hrange : ((passed m s).map fun row => row.id.toNat) ⊆ List.range m.id.toNat := by
    intro i hi
    obtain ⟨row, hrow, rfl⟩ := List.mem_map.1 hi
    have hlt : row.id < m.id := of_decide_eq_true (List.mem_filter.1 hrow).2
    exact List.mem_range.2 (UInt64.lt_iff_toNat_lt.1 hlt)
  simpa using (hnodup.subperm hrange).length_le

/-- A batch that passes over `m` is full and has smaller ids. -/
def PassesOver (m : Message) (chunk : ℕ) (ids : List UInt64) : Prop :=
  m.id ∈ ids ∨ (ids.length = chunk ∧ ∀ i ∈ ids, i < m.id)

/-- While `m` waits, each of the `n` acknowledgements has deleted a full batch of smaller ids, and
the batch of the loop is one or contains `m`. -/
structure Overtaken (m : Message) (chunk n : ℕ) (s : GwBack) : Prop where
  chunkSize : s.producer.chunkSize.toNat = chunk
  known : m ∈ s.table.log
  passed : m ∈ s.table.rows → chunk * n ≤ (passed m s).length
  fetched : m ∈ s.table.rows → ∀ b, s.pc = .fetched b → PassesOver m chunk (b.map Message.id)
  consumed : ∀ b, s.pc = .consumed b → ∃ batch : Messages, batch.Subperm s.table.rows ∧
    b.map Message.id = batch.map Message.id ∧
    (m ∈ s.table.rows → PassesOver m chunk (batch.map Message.id))

/-- A batch of the rows with the smallest ids contains `m`, or is full and has smaller ids. -/
theorem passesOver_select {t : Table} (hm : m ∈ t.rows) :
    PassesOver m chunk ((t.select chunk).map Message.id) := by
  let sorted := t.rows.insertionSort fun a b => a.id ≤ b.id
  have hsorted : sorted.Pairwise fun a b => a.id ≤ b.id := List.pairwise_insertionSort _ _
  have hmem : m ∈ sorted := (List.perm_insertionSort _ _).mem_iff.2 hm
  by_cases hid : m.id ∈ (sorted.take chunk).map Message.id
  · exact Or.inl hid
  · refine Or.inr ⟨?_, fun i hi => ?_⟩
    · have hlong : ¬ sorted.length ≤ chunk := fun hle => hid <|
        List.mem_map_of_mem ((List.take_of_length_le hle).symm ▸ hmem)
      rw [List.length_map]
      change (sorted.take chunk).length = chunk
      exact List.length_take_of_le (by omega)
    · obtain ⟨x, hx, rfl⟩ := List.mem_map.1 hi
      have hdrop : m ∈ sorted.drop chunk := by
        rw [← List.take_append_drop chunk sorted] at hmem
        exact (List.mem_append.1 hmem).resolve_left fun h => hid (List.mem_map_of_mem h)
      rw [← List.take_append_drop chunk sorted] at hsorted
      have hle : x.id ≤ m.id := (List.pairwise_append.1 hsorted).2.2 x hx m hdrop
      exact UInt64.lt_of_le_of_ne hle fun heq => hid (heq ▸ hi)

/-- An acknowledgement that leaves `m` in the table deletes a full batch of smaller ids. -/
theorem passed_markConsumed {batch messages : Messages} (hsub : batch.Subperm s.table.rows)
    (hids : messages.map Message.id = batch.map Message.id)
    (hpass : PassesOver m chunk (batch.map Message.id))
    (hm : m ∈ (PostgresProducer.markConsumed s.table messages).rows) {pc : Pc} :
    (passed m s).length + chunk ≤ (passed m { s with
      pc := pc, table := PostgresProducer.markConsumed s.table messages }).length := by
  have hnot : m.id ∉ batch.map Message.id := by
    simp only [PostgresProducer.markConsumed, PostgresProducer.consumedIds_eq, hids,
      Table.rows_delete] at hm
    simpa using (List.mem_filter.1 hm).2
  obtain ⟨hfull, hless⟩ := hpass.resolve_left hnot
  rw [List.length_map] at hfull
  have hrows : s.table.rows.Nodup := .of_map _ s.table.ids_rows_nodup
  have hbatch : batch.Nodup := by
    obtain ⟨b, hb, hs⟩ := hsub
    exact hb.nodup_iff.1 (hs.nodup hrows)
  have hpassed : (passed m s).Nodup := (s.table.log_nodup'.filter _).filter _
  have hdisjoint : ∀ a ∈ passed m s, ∀ b ∈ batch, a ≠ b := by
    rintro a ha b hb rfl
    exact (Table.mem_deleted.1 (List.mem_filter.1 ha).1).2 (hsub.subset hb)
  have hsubset : passed m s ++ batch ⊆ passed m { s with
      pc := pc, table := PostgresProducer.markConsumed s.table messages } := by
    intro row hrow
    refine List.mem_filter.2 ⟨(Table.mem_deleted_markConsumed hsub hids).2 ?_, ?_⟩
    · exact (List.mem_append.1 hrow).imp_left fun h => (List.mem_filter.1 h).1
    · rcases List.mem_append.1 hrow with hrow | hrow
      · exact (List.mem_filter.1 hrow).2
      · exact decide_eq_true (hless _ (List.mem_map_of_mem hrow))
  have hnodup : (passed m s ++ batch).Nodup := List.nodup_append.2 ⟨hpassed, hbatch, hdisjoint⟩
  have hlen := (hnodup.subperm hsubset).length_le
  rw [List.length_append, hfull] at hlen
  exact hlen

/-- A row that becomes visible deletes none. -/
theorem passed_commit {message : Message} {table : Table}
    (h : s.table.commit message = some table) :
    passed m { s with table := table } = passed m s := by
  obtain ⟨hid, hlog, hrows⟩ := Table.commit_eq_some h
  have hdeleted : table.deleted = s.table.deleted := by
    rw [Table.deleted, hlog, hrows, List.filter_append, Table.deleted]
    have hnew : [message].filter (fun row => row ∉ s.table.rows ++ [message]) = [] := by simp
    rw [hnew, List.append_nil]
    refine List.filter_congr fun row hrow => ?_
    have hne : row ≠ message := fun heq => hid (heq ▸ List.mem_map_of_mem hrow)
    simp [hne]
  rw [passed, passed, hdeleted]

/-- The acknowledgements among the events. -/
def acks (es : List Event) : ℕ := es.count .markConsumed

theorem Overtaken.step {es : List Event} (h : Overtaken m chunk (acks es) s) (hinv : s.Inv)
    (hg : s.SameLife e) (hs : Step s e s') : Overtaken m chunk (acks (es ++ [e])) s' := by
  have hacks : e ≠ .markConsumed → acks (es ++ [e]) = acks es := fun hne => by
    simp [acks, List.count_append, hne]
  cases hs with
  | @commit message table hc =>
    rw [hacks nofun]
    obtain ⟨hid, hlog, hrows⟩ := Table.commit_eq_some hc
    have hold : m ∈ table.rows → m ∈ s.table.rows := by
      intro hm
      rw [hrows] at hm
      refine (List.mem_append.1 hm).resolve_right fun hnew => hid ?_
      exact List.mem_singleton.1 hnew ▸ List.mem_map_of_mem h.known
    refine ⟨h.chunkSize, hlog ▸ List.mem_append_left _ h.known, fun hm => ?_,
      fun hm => h.fetched (hold hm), fun b hb => ?_⟩
    · rw [passed_commit hc]
      exact h.passed (hold hm)
    · obtain ⟨batch, hsub, hids, hpass⟩ := h.consumed b hb
      have hsub' : batch.Subperm table.rows :=
        hsub.trans (hrows ▸ (List.sublist_append_left _ _).subperm)
      exact ⟨batch, hsub', hids, fun hm => hpass (hold hm)⟩
  | idle hpc | getNextThrows hpc =>
    rw [hacks nofun]
    exact h
  | @getNext messages hpc hm hne =>
    rw [hacks nofun]
    refine ⟨h.chunkSize, h.known, h.passed, fun hrow b hb => ?_, nofun⟩
    obtain rfl := Pc.fetched.inj hb
    rw [hm, PostgresProducer.getNext, h.chunkSize]
    exact passesOver_select hrow
  | @consume messages hpc =>
    rw [hacks nofun]
    refine ⟨h.chunkSize, h.known, h.passed, nofun, fun b hb => ?_⟩
    obtain rfl := Pc.consumed.inj hb
    exact ⟨messages, hinv.fetched _ hpc, MessageConsumer.call_messages_ids _ _,
      fun hrow => h.fetched hrow _ hpc⟩
  | @markConsumed messages hpc =>
    obtain ⟨batch, hsub, hids, hpass⟩ := h.consumed messages hpc
    refine ⟨h.chunkSize, h.known, fun hm => ?_, nofun, nofun⟩
    have hrow : m ∈ s.table.rows := (List.mem_filter.1 hm).1
    have hmore : _ + chunk ≤ (GwBack.passed m { s with
        pc := .loop, table := PostgresProducer.markConsumed s.table messages }).length :=
      passed_markConsumed hsub hids (hpass hrow) hm
    have hbefore := h.passed hrow
    have hcount : acks (es ++ [.markConsumed]) = acks es + 1 := by
      simp [acks, List.count_append]
    rw [hcount, Nat.mul_succ]
    exact (Nat.add_le_add_right hbefore chunk).trans hmore
  | markConsumedThrows hpc | join hpc | exit hpc | destroy hpc =>
    rw [hacks nofun]
    exact ⟨h.chunkSize, h.known, h.passed, nofun, nofun⟩
  | save hk | signal =>
    rw [hacks nofun]
    exact ⟨h.chunkSize, h.known, h.passed, h.fetched, h.consumed⟩
  | restart hpc => exact absurd hg id

/-- **No row waits forever.**  From the head of the loop, in every run of one life of the process,
whatever rows become visible in between and whatever calls of `getNext` and `markConsumed` throw: as
long as a row waits in the table, at most `id / chunkSize` acknowledgements have succeeded, so the
next one or an earlier one deletes it. -/
theorem overtaken_le {es : List Event} (hreach : machine.Reachable Machine.anyStep s)
    (hpc : s.pc = .loop) (hm : m ∈ s.table.rows)
    (hrun : machine.runIf SameLife s es = some s') (hm' : m ∈ s'.table.rows) :
    s.producer.chunkSize.toNat * acks es ≤ m.id.toNat := by
  let I : List Event → GwBack → Prop := fun es s₁ =>
    machine.Reachable Machine.anyStep s₁ ∧ Overtaken m s.producer.chunkSize.toNat (acks es) s₁
  have hstart : I [] s :=
    ⟨hreach, rfl, s.table.rows_subset hm, fun _ => by simp [acks],
      fun _ b hb => by simp [hpc] at hb, fun b hb => by simp [hpc] at hb⟩
  obtain ⟨-, hovertaken⟩ := Machine.runIf_induction hstart
    (fun es e s₁ s₂ h hg hn => ⟨.step h.1 trivial hn,
      h.2.step (inv_of_reachable h.1) hg (step_of_next hn)⟩) hrun
  exact (hovertaken.passed hm').trans (passed_length_le m s')

/-- The row 2 is overtaken by the rows 1 and 0, which come later, and by no other. -/
theorem overtaken_le_sample : ∃ (s s' : GwBack) (es : List Event),
    machine.runIf SameLife s es = some s' ∧ ⟨2, [97]⟩ ∈ s'.table.rows ∧ acks es = 2 ∧
      s.producer.chunkSize.toNat * acks es ≤ 2 := by
  let round : List Event := [.getNext, .consume, .markConsumed]
  let es : List Event := .commit ⟨1, [98]⟩ :: round ++ .getNextThrows :: .commit ⟨0, [99]⟩ :: round
  let s₀ : GwBack := start { chunkSize := 1 } { outputFolder := [] }
  have hrun : (machine.runIf Machine.anyStep s₀ [.commit ⟨2, [97]⟩]).any (fun s =>
      decide (s.pc = .loop ∧ ⟨2, [97]⟩ ∈ s.table.rows ∧ (machine.runIf SameLife s es).any (fun s' =>
        decide (⟨2, [97]⟩ ∈ s'.table.rows)) = true)) = true := by decide +kernel
  obtain ⟨s, hs, hP⟩ := (Option.any_eq_true _ _).1 hrun
  obtain ⟨hpc, hrow, hany⟩ := of_decide_eq_true hP
  obtain ⟨s', hs', hrow'⟩ := (Option.any_eq_true _ _).1 hany
  have hreach : machine.Reachable Machine.anyStep s :=
    Machine.reachable_of_runIf (.init ⟨_, _, rfl⟩) hs
  exact ⟨s, s', es, hs', of_decide_eq_true hrow', rfl,
    overtaken_le hreach hpc hrow hs' (of_decide_eq_true hrow')⟩

end GwBack

end GatewayPoc
