import GatewayPoc.GwBack.Consumer
import Mathlib.Data.List.Perm.Subperm
import Mathlib.Data.List.Sort

/-!
# The PostgreSQL producer and its table

`gwback/src/producer/postgres_producer.cpp` reads the table `messages` with
`SELECT id, data FROM messages ORDER BY id ASC LIMIT n` and deletes what was consumed with
`DELETE FROM messages WHERE id IN (...)`.

`Table` is the table as the two programs see it, together with the log of everything ever
committed: ids come from a `BIGSERIAL` primary key, so an id is never used twice, and a row that is
not in the table any more was deleted.  Both facts are fields.

* `Table.select_subperm` : a `SELECT` returns rows of the table.
* `Table.perm_filter_ids` : the rows with the ids of some rows are these rows.
* `Table.mem_deleted_markConsumed` : what `markConsumed` deletes.
-/

namespace GatewayPoc

/-- The table `messages`. -/
structure Table where
  /-- Every row ever committed, in commit order. -/
  log : Messages
  /-- The rows a `SELECT` sees. -/
  rows : Messages
  /-- `id BIGSERIAL PRIMARY KEY`. -/
  log_nodup : (log.map Message.id).Nodup
  /-- Rows get into the table by being committed. -/
  rows_sublist : rows.Sublist log
  deriving DecidableEq

namespace Table

/-- The table before anything is committed. -/
def empty : Table := ⟨[], [], by simp, .slnil⟩

/-- A front-end transaction that inserted `message` becomes visible.  The sequence behind
`BIGSERIAL` gives every id once. -/
def commit (t : Table) (message : Message) : Option Table :=
  if h : message.id ∈ t.log.map Message.id then none
  else some {
    log := t.log ++ [message]
    rows := t.rows ++ [message]
    log_nodup := by
      rw [List.map_append, List.map_singleton]
      exact List.nodup_append.2 ⟨t.log_nodup, List.nodup_singleton _,
        fun a ha b hb hab => h (List.mem_singleton.1 hb ▸ hab ▸ ha)⟩
    rows_sublist := t.rows_sublist.append (List.Sublist.refl _) }

/-- `SELECT id, data FROM messages ORDER BY id ASC LIMIT (limit)`. -/
def select (t : Table) (limit : ℕ) : Messages :=
  (t.rows.insertionSort fun a b => a.id ≤ b.id).take limit

/-- `DELETE FROM messages WHERE id IN (ids)`. -/
def delete (t : Table) (ids : List UInt64) : Table where
  log := t.log
  rows := t.rows.filter fun row => row.id ∉ ids
  log_nodup := t.log_nodup
  rows_sublist := List.filter_sublist.trans t.rows_sublist

/-- The rows that were committed and deleted again. -/
def deleted (t : Table) : Messages := t.log.filter fun row => row ∉ t.rows

end Table

namespace PostgresProducer

/-- `PostgresProducer::getNext`, when no call throws. -/
def getNext (config : ProducerConfig) (t : Table) : Messages := t.select config.chunkSize.toNat

/-- The ids `markConsumed` writes into its `DELETE`: those of all elements but the last, each
followed by a comma, and the one of `messages.back()`. -/
def consumedIds (messages : Messages) : List UInt64 :=
  messages.dropLast.map Message.id ++ (messages.getLast?.map Message.id).toList

/-- `PostgresProducer::markConsumed`, when no call throws. -/
def markConsumed (t : Table) (messages : Messages) : Table := t.delete (consumedIds messages)

theorem consumedIds_eq (messages : Messages) : consumedIds messages = messages.map Message.id := by
  induction messages using List.reverseRecOn with
  | nil => rfl
  | append_singleton messages m _ => simp [consumedIds]

end PostgresProducer

namespace Table

variable {t t' : Table}

theorem commit_eq_some {message : Message} (h : t.commit message = some t') :
    message.id ∉ t.log.map Message.id ∧ t'.log = t.log ++ [message] ∧
      t'.rows = t.rows ++ [message] := by
  unfold commit at h
  split_ifs at h with hid
  obtain rfl := Option.some.inj h
  exact ⟨hid, rfl, rfl⟩

@[simp] theorem log_delete (ids : List UInt64) : (t.delete ids).log = t.log := rfl

@[simp] theorem rows_delete (ids : List UInt64) :
    (t.delete ids).rows = t.rows.filter fun row => row.id ∉ ids := rfl

theorem rows_subset (t : Table) : t.rows ⊆ t.log := t.rows_sublist.subset

theorem ids_rows_nodup (t : Table) : (t.rows.map Message.id).Nodup :=
  (t.rows_sublist.map Message.id).nodup t.log_nodup

theorem log_nodup' (t : Table) : t.log.Nodup := .of_map _ t.log_nodup

/-- A row is determined by its id. -/
theorem eq_of_id_eq {x y : Message} (hx : x ∈ t.log) (hy : y ∈ t.log) (h : x.id = y.id) :
    x = y :=
  List.inj_on_of_nodup_map t.log_nodup hx hy h

theorem select_subperm (t : Table) (limit : ℕ) : (t.select limit).Subperm t.rows :=
  (List.take_sublist _ _).subperm.trans (List.perm_insertionSort _ _).subperm

/-- The rows that have the ids of a part of the table are this part. -/
theorem perm_filter_ids {batch : Messages} (h : batch.Subperm t.rows) :
    (t.rows.filter fun row => row.id ∈ batch.map Message.id).Perm batch := by
  have hrows : t.rows.Nodup := .of_map _ t.ids_rows_nodup
  have hbatch : batch.Nodup := by
    obtain ⟨b, hb, hs⟩ := h
    exact hb.nodup_iff.1 (hs.nodup hrows)
  refine (List.perm_ext_iff_of_nodup (hrows.filter _) hbatch).2 fun row => ?_
  simp only [List.mem_filter, List.mem_map, decide_eq_true_eq]
  constructor
  · rintro ⟨hrow, m, hm, hid⟩
    rwa [← eq_of_id_eq (t.rows_subset (h.subset hm)) (t.rows_subset hrow) hid]
  · exact fun hrow => ⟨h.subset hrow, row, hrow, rfl⟩

/-- A batch and the rows with other ids make up the table. -/
theorem rows_perm {batch : Messages} (h : batch.Subperm t.rows) :
    t.rows.Perm (batch ++ t.rows.filter fun row => row.id ∉ batch.map Message.id) := by
  have hsplit := List.filter_append_perm (fun row => decide (row.id ∈ batch.map Message.id)) t.rows
  simp only [decide_not]
  exact hsplit.symm.trans ((perm_filter_ids h).append_right _)

theorem mem_deleted {m : Message} : m ∈ t.deleted ↔ m ∈ t.log ∧ m ∉ t.rows := by
  simp [deleted]

theorem mem_deleted_delete {ids : List UInt64} {m : Message} :
    m ∈ (t.delete ids).deleted ↔ m ∈ t.deleted ∨ (m ∈ t.rows ∧ m.id ∈ ids) := by
  simp only [mem_deleted, log_delete, rows_delete, List.mem_filter, decide_eq_true_eq, not_and,
    not_not]
  by_cases hm : m ∈ t.rows
  · simp [hm, t.rows_subset hm]
  · simp [hm]

/-- Acknowledging a batch deletes exactly its rows. -/
theorem mem_deleted_markConsumed {batch messages : Messages} {m : Message}
    (h : batch.Subperm t.rows) (hids : messages.map Message.id = batch.map Message.id) :
    m ∈ (PostgresProducer.markConsumed t messages).deleted ↔ m ∈ t.deleted ∨ m ∈ batch := by
  rw [PostgresProducer.markConsumed, PostgresProducer.consumedIds_eq, hids, mem_deleted_delete,
    ← (perm_filter_ids h).mem_iff]
  simp

end Table

end GatewayPoc
