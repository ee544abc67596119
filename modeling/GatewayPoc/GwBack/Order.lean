import GatewayPoc.GwBack.FileName
import GatewayPoc.GwBack.Files
import GatewayPoc.GwBack.RedisDelivery

/-!
# The order of the output

While rows become visible in the order of their ids, the table is a queue: what the consumer was
given is the beginning of the log, in order, whatever calls of `getNext` throw and however often the
back end stops and starts again.  Then the chunks are consecutive parts of the log, and their names
sort as they were started, so the output folder, listed by name, is the log.

In a stream the ids always ascend, so on Redis this is so in every run in which packing loses
nothing of the ids.

* `GwBack.handed_append_waiting` : what was handed over, and then what waits, is the log.
* `GwBack.chunks_ordered` : every chunk ascends, and is below the next one.
* `listing`, `concat` : the files of a folder as they are listed, and one after the other.
* **`GwBack.listing_rows`** : the files as they are listed, the buffer and what waits are the log.
* **`GwBack.order_kept`** : whatever fails, and in whatever order rows become visible, a row is
  handed over after those with smaller ids that became visible before it.
* **`RedisBack.in_order`** : on Redis the messages are handed over in the order of the stream.
* **`RedisBack.listing_entries`** : the files as they are listed, on Redis.
-/

namespace GatewayPoc

/-! ### The files of a folder -/

/-- The order of the names. -/
def ByName (a b : OutputFile) : Prop := fileName a.messages ≤ fileName b.messages

instance (a b : OutputFile) : Decidable (ByName a b) :=
  inferInstanceAs (Decidable (fileName a.messages ≤ fileName b.messages))

/-- The files in the order of their names. -/
def listing (files : List OutputFile) : List OutputFile := files.insertionSort ByName

/-- The contents of the files, listed by name, one after the other. -/
def concat (files : List OutputFile) : Bytes := (listing files).flatMap OutputFile.contents

instance : Std.Total ByName :=
  ⟨fun a b => List.le_total (fileName a.messages) (fileName b.messages)⟩

instance : IsTrans OutputFile ByName := ⟨fun _ _ _ => List.le_trans⟩

/-- Ascending chunks of ids of at most 19 digits, one above the other, have ascending names. -/
theorem fileName_lt_of_below {a b : Messages} (ha : a ≠ []) (hb : b ≠ [])
    (haasc : a.Pairwise fun x y => x.id < y.id) (hbasc : b.Pairwise fun x y => x.id < y.id)
    (hlt : ∀ x ∈ a, ∀ y ∈ b, x.id < y.id) (hids : ∀ y ∈ b, y.id.toNat < 10 ^ 19) :
    fileName a < fileName b := by
  have hle : ∀ {x y : Message}, x.id < y.id → x.id ≤ y.id := UInt64.le_of_lt
  rw [fileName, fileName, idRange_fst_of_ascending ha (haasc.imp hle),
    idRange_fst_of_ascending hb (hbasc.imp hle)]
  have hheads := hlt _ (List.head_mem ha) _ (List.head_mem hb)
  refine (padded_lt_padded_iff (UInt64.lt_iff_toNat_lt.1 hheads) (UInt64.toNat_lt _)).2 ?_
  exact Or.inr (Or.inl (hids _ (List.head_mem hb)))

/-- **The listing** of files that hold chunks with ascending names is these chunks, in their
order. -/
theorem listing_messages {files : List OutputFile} {chunks : List Messages}
    (hperm : chunks.Perm (files.map OutputFile.messages))
    (hnames : chunks.Pairwise fun a b => fileName a < fileName b) :
    (listing files).map OutputFile.messages = chunks := by
  let le : Messages → Messages → Prop := fun a b => fileName a ≤ fileName b
  have hlisting : ((listing files).map OutputFile.messages).Perm chunks :=
    ((List.perm_insertionSort _ _).map _).trans hperm.symm
  have hsorted : ((listing files).map OutputFile.messages).Pairwise le :=
    List.pairwise_map.2 (List.pairwise_insertionSort ByName files)
  refine hlisting.eq_of_pairwise (fun a b ha hb hab hba => ?_) hsorted (hnames.imp List.le_of_lt)
  -- two chunks of the same name are the same chunk
  have hcompare : ∀ x ∈ chunks, ∀ y ∈ chunks,
      x = y ∨ fileName x < fileName y ∨ fileName y < fileName x := by
    have : Std.Symm fun x y : Messages =>
        x = y ∨ fileName x < fileName y ∨ fileName y < fileName x :=
      ⟨fun x y h => h.elim (fun heq => Or.inl heq.symm) fun h => Or.inr h.symm⟩
    exact (hnames.imp fun h => Or.inr (Or.inl h)).forall_of_forall fun _ _ => Or.inl rfl
  rcases hcompare a (hlisting.subset ha) b hb with heq | hlt | hlt
  · exact heq
  · exact absurd hlt hba
  · exact absurd hlt hab

namespace GwBack

variable {s s' : GwBack} {e : Event} {G : GwBack → Event → Prop}

/-! ### The table is a queue -/

/-- The rows became visible in the order of their ids. -/
def Ordered (s : GwBack) : Prop := s.table.log.Pairwise fun a b => a.id < b.id

instance (s : GwBack) : Decidable s.Ordered :=
  inferInstanceAs (Decidable (s.table.log.Pairwise _))

/-- The log only grows. -/
theorem log_le (hs : Step s e s') : s.table.log <+: s'.table.log := by
  cases hs with
  | commit hc =>
    rw [(Table.commit_eq_some hc).2.1]
    exact List.prefix_append _ _
  | idle | getNext | getNextThrows | consume | markConsumed | markConsumedThrows | save | signal
  | join | destroy | exit | restart => exact List.prefix_refl _

theorem Ordered.of_step (h : s'.Ordered) (hs : Step s e s') : s.Ordered :=
  List.Pairwise.sublist (log_le hs).sublist h

/-- The `SELECT` returns the beginning of the table. -/
theorem Ordered.select_eq (h : s.Ordered) (n : ℕ) : s.table.select n = s.table.rows.take n := by
  have hrows : s.table.rows.Pairwise fun a b => a.id ≤ b.id :=
    (List.Pairwise.sublist s.table.rows_sublist h).imp UInt64.le_of_lt
  rw [Table.select, hrows.insertionSort_eq]

/-- The batch of the loop is the beginning of the table. -/
theorem fetched_le (h : machine.Reachable G s) (hordered : s.Ordered) :
    ∀ b, s.pc = .fetched b → b <+: s.table.rows := by
  refine h.invariant (I := fun s => s.Ordered → ∀ b, s.pc = .fetched b → b <+: s.table.rows) ?_ ?_
    hordered
  · rintro _ ⟨producer, consumer, rfl⟩
    simp [start]
  · intro s e s' _ ih _ hn hordered b hb
    have hs := step_of_next hn
    have hbefore := hordered.of_step hs
    cases hs with
    | commit hc =>
      rw [(Table.commit_eq_some hc).2.2]
      exact (ih hbefore b hb).trans (List.prefix_append _ _)
    | idle | getNextThrows | save | signal => exact ih hbefore b hb
    | getNext hpc hm =>
      obtain rfl := Pc.fetched.inj hb
      rw [hm, PostgresProducer.getNext, hbefore.select_eq]
      exact List.take_prefix _ _
    | consume | markConsumed | markConsumedThrows | join | destroy | exit | restart => cases hb

/-- What is left of a table without its first rows. -/
theorem filter_of_prefix (t : Table) {b : Messages} (hb : b <+: t.rows) :
    b ++ (t.rows.filter fun row => row.id ∉ b.map Message.id) = t.rows := by
  rw [List.prefix_iff_eq_take.1 hb, filter_key_eq_drop t.ids_rows_nodup, List.take_append_drop]

/-- **The table is a queue.**  While no acknowledgement fails and rows become visible in the order
of their ids, what was handed over, and then what waits, is the log. -/
theorem handed_append_waiting (h : machine.Reachable AcksSucceed s) (hordered : s.Ordered) :
    s.handed ++ s.waiting = s.table.log := by
  refine h.invariant (I := fun s => s.Ordered → s.handed ++ s.waiting = s.table.log) ?_ ?_ hordered
  · rintro _ ⟨producer, consumer, rfl⟩ _
    simp [start, handed, waiting, Table.empty, MessageConsumer.ofConfig]
  · intro s e s' hr ih hg hn hordered
    have hs := step_of_next hn
    have hbefore := hordered.of_step hs
    have hih := ih hbefore
    have hinv := inv_of_reachable hr
    cases hs with
    | @commit message table hc =>
      obtain ⟨hid, hlog, hrows⟩ := Table.commit_eq_some hc
      have hnew : [message].filter (fun row => row.id ∉ s.pc.taken) = [message] :=
        List.filter_eq_self.2 fun m hm => by
          rw [List.mem_singleton.1 hm]
          simpa using fun hmem => hid (taken_subset_log hinv _ hmem)
      simp only [waiting, hrows, hlog, List.filter_append, hnew, ← List.append_assoc]
      exact congrArg (· ++ [message]) hih
    | idle | getNextThrows | save | signal => exact hih
    | getNext hpc | join hpc => simpa [handed, waiting, Pc.taken, hpc] using hih
    | @consume messages hpc =>
      have hfirst := filter_of_prefix s.table (fetched_le hr hbefore _ hpc)
      have hhanded := handed_consume s messages
      simp only [handed, waiting, Pc.taken, MessageConsumer.call_messages_ids] at hhanded ⊢
      rw [hhanded, List.append_assoc, hfirst]
      simpa [handed, waiting, Pc.taken, hpc] using hih
    | markConsumed hpc =>
      simpa [handed, waiting, Pc.taken, hpc, PostgresProducer.markConsumed,
        PostgresProducer.consumedIds_eq] using hih
    | markConsumedThrows hpc => exact absurd rfl hg
    | destroy hpc | exit hpc => simpa [handed, waiting, Pc.taken, hpc] using hih
    | restart hpc =>
      have hbuf := hinv.closed (Or.inr hpc)
      simpa [handed, waiting, Pc.taken, hpc, hbuf, MessageConsumer.ofConfig] using hih

/-! ### The chunks -/

/-- The chunks, in the order they were started, are a part of the log. -/
theorem chunks_sublist (h : machine.Reachable AcksSucceed s) (hordered : s.Ordered) :
    s.chunks.flatten.Sublist s.table.log := by
  rw [flatten_chunks, ← handed_append_waiting h hordered, handed, List.append_assoc]
  exact List.sublist_append_left _ _

/-- **The chunks ascend**, and each is below the next. -/
theorem chunks_ordered (h : machine.Reachable AcksSucceed s) (hordered : s.Ordered) :
    (∀ chunk ∈ s.chunks, chunk.Pairwise fun x y => x.id < y.id) ∧
      s.chunks.Pairwise fun a b => ∀ x ∈ a, ∀ y ∈ b, x.id < y.id :=
  List.pairwise_flatten.1 (List.Pairwise.sublist (chunks_sublist h hordered) hordered)

/-- The names of the chunks sort as the chunks were started. -/
theorem names_ordered (h : machine.Reachable AcksSucceed s) (hordered : s.Ordered)
    (hids : ∀ m ∈ s.table.log, m.id.toNat < 10 ^ 19) :
    s.chunks.Pairwise fun a b => fileName a < fileName b := by
  obtain ⟨hasc, hbelow⟩ := chunks_ordered h hordered
  refine hbelow.imp_of_mem fun {a b} ha hb hlt => ?_
  have hne : ∀ {chunk}, chunk ∈ s.chunks → chunk ≠ [] := fun hc => by
    simpa using (List.mem_filter.1 hc).2
  refine fileName_lt_of_below (hne ha) (hne hb) (hasc a ha) (hasc b hb) hlt fun y hy => ?_
  exact hids y ((chunks_sublist h hordered).subset (List.mem_flatten.2 ⟨b, hb, hy⟩))

/-- While no thread is at work, the files as they are listed hold the chunks in their order. -/
theorem listing_flatMap (h : machine.Reachable Opened s) (hordered : s.Ordered)
    (hids : ∀ m ∈ s.table.log, m.id.toNat < 10 ^ 19) (hsaving : s.saving = []) :
    (listing s.files).flatMap OutputFile.messages = s.started.flatten := by
  have hacks : machine.Reachable AcksSucceed s := h.mono fun _ _ _ hg => hg.1
  have hperm := chunks_perm h
  rw [hsaving, List.map_nil, List.nil_append] at hperm
  rw [List.flatMap_def, listing_messages hperm (names_ordered hacks hordered hids), flatten_chunks]

/-- **The folder is the log.**  In every run in which no acknowledgement fails, every file can be
opened, `main` waits for the threads, and rows with ids of at most 19 digits become visible in the
order of their ids: whenever no thread is at work, the files in the order of their names, then the
buffer, then the rows that wait, are the rows ever committed, in order; so after a stop with an
empty table the files one after the other are the payloads, each followed by a newline. -/
theorem listing_rows (h : machine.Reachable Opened s) (hordered : s.Ordered)
    (hids : ∀ m ∈ s.table.log, m.id.toNat < 10 ^ 19) (hsaving : s.saving = []) :
    (listing s.files).flatMap OutputFile.messages ++ s.consumer.buffer ++ s.waiting =
      s.table.log ∧
    (s.pc = .exited → s.table.rows = [] →
      concat s.files = s.table.log.flatMap fun m => m.data ++ [10]) := by
  have hacks : machine.Reachable AcksSucceed s := h.mono fun _ _ _ hg => hg.1
  have hlisting := listing_flatMap h hordered hids hsaving
  have hall : (listing s.files).flatMap OutputFile.messages ++ s.consumer.buffer ++ s.waiting =
      s.table.log := by
    rw [hlisting]
    exact handed_append_waiting hacks hordered
  refine ⟨hall, fun hpc hrows => ?_⟩
  have hbuf := (inv_of_reachable h).closed (Or.inr hpc)
  have hwaiting : s.waiting = [] := by simp [waiting, hrows]
  rw [hbuf, hwaiting, List.append_nil, List.append_nil] at hall
  rw [← hall, List.flatMap_assoc]
  rfl

/-- Two lives of the process, the second with another folder, and a chunk of a single row. -/
theorem listing_rows_sample : ∃ s : GwBack, s.files.length = 3 ∧
    concat s.files = [97, 10, 98, 10, 99, 10, 100, 10] := by
  let run : List Event := [.commit ⟨3, [97]⟩, .commit ⟨4, [98]⟩, .getNext, .commit ⟨7, [99]⟩,
    .consume, .markConsumed, .getNext, .consume, .markConsumed, .signal, .save 0 true, .join,
    .destroy true, .exit, .restart {} { chunkSize := 1, outputFolder := [47] },
    .commit ⟨10, [100]⟩, .getNext, .consume, .markConsumed, .save 0 true, .signal, .join,
    .destroy true, .exit]
  obtain ⟨s, hr, hordered, hids, hsaving, hpc, hrows, hlen, hlog⟩ :=
    Machine.exists_of_runIf (M := machine) (G := Opened)
      (P := fun s => s.Ordered ∧ (∀ m ∈ s.table.log, m.id.toNat < 10 ^ 19) ∧ s.saving = [] ∧
        s.pc = .exited ∧ s.table.rows = [] ∧ s.files.length = 3 ∧
        s.table.log.map Message.data = [[97], [98], [99], [100]])
      ⟨{}, { chunkSize := 2, outputFolder := [] }, rfl⟩ run (by decide +kernel)
  refine ⟨s, hlen, ((listing_rows hr hordered hids hsaving).2 hpc hrows).trans ?_⟩
  have hdata := List.flatMap_map (f := Message.data) (g := fun data => data ++ [10]) s.table.log
  rw [← hdata, hlog]
  rfl

/-! ### Rows that become visible late -/

/-- The rows of a batch come after the rows with smaller ids that became visible before them. -/
theorem pair_sublist_select (t : Table) {n : ℕ} {x y : Message} (hlt : y.id < x.id)
    (hy : y ∈ t.rows) (hx : x ∈ t.select n) : [y, x].Sublist (t.select n) := by
  have hxrows : x ∈ t.rows := (t.select_subperm n).subset hx
  have hne : y ≠ x := fun heq => UInt64.lt_irrefl _ (heq ▸ hlt)
  have hsorted : [y, x].Sublist (sortedRows t) := by
    have hmem : ∀ m, m ∈ t.rows → m ∈ sortedRows t := fun m hm => (sortedRows_perm t).mem_iff.2 hm
    exact pair_sublist_of_pairwise (sortedRows_pairwise t) hne
      (fun hgt => UInt64.lt_irrefl _ (UInt64.lt_trans hlt hgt)) (hmem y hy) (hmem x hxrows)
  have hnodup : (sortedRows t).Nodup :=
    (sortedRows_perm t).nodup_iff.2 (t.rows_sublist.nodup t.log_nodup')
  rw [← List.take_append_drop n (sortedRows t)] at hsorted hnodup
  refine pair_sublist_left hsorted fun hdrop => ?_
  exact (List.nodup_append.1 hnodup).2.2 x hx x hdrop rfl

/-- The row `y` became visible before `x`, and has the smaller id. -/
def Before (s : GwBack) (y x : Message) : Prop :=
  [y, x].Sublist s.table.log ∧ y.id < x.id

/-- What was handed over, and the batch that is about to be, keeps the order of the rows. -/
structure KeepsOrder (s : GwBack) : Prop where
  handed : ∀ y x, s.Before y x → x ∈ s.handed → [y, x].Sublist s.handed
  fetched : ∀ b, s.pc = .fetched b → ∀ y x, s.Before y x → x ∈ b → [y, x].Sublist (s.handed ++ b)

theorem KeepsOrder.step (h : s.KeepsOrder) (hinv : s.Inv) (hhanded : s.Handed)
    (hs : Step s e s') : s'.KeepsOrder := by
  cases hs with
  | @commit message table hc =>
    obtain ⟨hid, hlog, -⟩ := Table.commit_eq_some hc
    -- the new row was not handed over, nor is it in the batch
    have hbefore : ∀ y x, Before { s with table := table } y x → x ∈ s.table.log →
        s.Before y x := by
      rintro y x ⟨hpair, hlt⟩ hx
      change [y, x].Sublist table.log at hpair
      rw [hlog] at hpair
      refine ⟨pair_sublist_left hpair fun heq => hid ?_, hlt⟩
      rw [← List.mem_singleton.1 heq]
      exact List.mem_map_of_mem hx
    refine ⟨fun y x hyx hx => h.handed y x (hbefore y x hyx (hhanded.genuine x hx)) hx,
      fun b hb y x hyx hx => h.fetched b hb y x (hbefore y x hyx ?_) hx⟩
    exact s.table.rows_subset ((hinv.fetched b hb).subset hx)
  | idle | getNextThrows | save | signal => exact ⟨h.handed, h.fetched⟩
  | getNext hpc hm =>
    refine ⟨h.handed, fun b hb y x hyx hx => ?_⟩
    obtain rfl := Pc.fetched.inj hb
    rw [hm] at hx ⊢
    by_cases hy : y ∈ s.table.rows
    · exact (pair_sublist_select s.table hyx.2 hy hx).trans (List.sublist_append_right _ _)
    · -- a row that is not in the table any more was handed over
      have hyhanded := hhanded.settled y (hyx.1.subset (by simp)) (Or.inl hy)
      exact (List.singleton_sublist.2 hyhanded).append (List.singleton_sublist.2 hx)
  | @consume messages hpc =>
    have hall := handed_consume s messages
    refine ⟨fun y x hyx hx => ?_, by simp⟩
    rw [GwBack.handed, hall] at hx ⊢
    rcases List.mem_append.1 hx with hx | hx
    · exact (h.handed y x hyx hx).trans (List.sublist_append_left _ _)
    · exact h.fetched messages hpc y x hyx hx
  | markConsumed | markConsumedThrows | join | exit => exact ⟨h.handed, by simp⟩
  | destroy hpc =>
    have hall : (s.started ++ [s.consumer.buffer]).flatten ++ [] = s.handed := by
      simp [GwBack.handed]
    refine ⟨fun y x hyx hx => ?_, by simp⟩
    rw [GwBack.handed, hall] at hx ⊢
    exact h.handed y x hyx hx
  | @restart producer consumer hpc =>
    have hbuf := hinv.closed (Or.inr hpc)
    have hall : s.started.flatten ++ (MessageConsumer.ofConfig consumer).buffer = s.handed := by
      rw [GwBack.handed, hbuf]
      rfl
    refine ⟨fun y x hyx hx => ?_, by simp⟩
    rw [GwBack.handed, hall] at hx ⊢
    exact h.handed y x hyx hx

/-- **The order that is kept.**  In every run, whatever calls and saves fail and in whatever order
rows become visible: a row that became visible before another one and has the smaller id is handed
over before it. -/
theorem order_kept (h : machine.Reachable G s) {x y : Message} (hbefore : s.Before y x)
    (hx : x ∈ s.handed) : [y, x].Sublist s.handed := by
  have hkeeps : s.KeepsOrder := by
    refine h.invariant ?_ fun _ _ _ hr hi _ hn =>
      hi.step (inv_of_reachable hr) (handed_of_reachable hr) (step_of_next hn)
    rintro _ ⟨producer, consumer, rfl⟩
    exact ⟨by simp [start, GwBack.handed, MessageConsumer.ofConfig], by simp [start]⟩
  exact hkeeps.handed y x hbefore hx

/-- The row 2 becomes visible after the row 7 was read, and is handed over before the row 9. -/
theorem order_kept_sample : ∃ s : GwBack, s.handed.map Message.id = [7, 2, 9] ∧
    [⟨2, [98]⟩, ⟨9, [99]⟩].Sublist s.handed := by
  let run : List Event := [.commit ⟨7, [97]⟩, .getNext, .commit ⟨2, [98]⟩, .commit ⟨9, [99]⟩,
    .consume, .markConsumed, .getNextThrows, .getNext, .consume, .markConsumedThrows]
  obtain ⟨s, hr, hhanded, hpair, hx⟩ := Machine.exists_of_runIf (M := machine)
    (G := Machine.anyStep)
    (P := fun s => s.handed.map Message.id = [7, 2, 9] ∧
      [⟨2, [98]⟩, ⟨9, [99]⟩].Sublist s.table.log ∧ ⟨9, [99]⟩ ∈ s.handed)
    ⟨{}, { chunkSize := 2, outputFolder := [] }, rfl⟩ run (by decide +kernel)
  exact ⟨s, hhanded, order_kept hr ⟨hpair, by decide⟩ hx⟩

end GwBack

/-! ### The stream is a queue -/

namespace RedisBack

open RedisProducer (messageOf packId Packable)

variable {s : RedisBack} {t : GwBack}

/-- The ids of a stream ascend, packed or not. -/
theorem Sim.ordered (hsim : Sim s t) (hsound : s.Sound) (hpack : s.AllPackable) : t.Ordered := by
  rw [GwBack.Ordered, hsim.log]
  refine List.pairwise_map.2 (hsound.sorted.imp_of_mem fun {a b} ha hb hlt => ?_)
  have hne : packId a.id ≠ packId b.id := fun heq => by
    rw [RedisProducer.packId_injective (hpack a ha) (hpack b hb) heq] at hlt
    exact EntryId.lt_irrefl _ hlt
  exact UInt64.lt_of_le_of_ne (RedisProducer.packId_le (hpack a ha) (hpack b hb) hlt) hne

theorem Sim.waiting (hsim : Sim s t) : t.waiting = s.waiting := by
  rw [GwBack.waiting, hsim.rows, hsim.pc, RedisBack.waiting]

theorem Sim.handed (hsim : Sim s t) : t.handed = s.handed := by
  rw [GwBack.handed, hsim.started, hsim.consumer, RedisBack.handed]

/-- What was handed over, and then what waits in the stream, is the log. -/
theorem handed_append_waiting (h : machine.Reachable AcksExecuted s) (hpack : s.AllPackable) :
    s.handed ++ s.waiting = s.log.map messageOf := by
  obtain ⟨t, ht, hsim⟩ := sim_of_reachable allows_acks h hpack
  rw [← hsim.handed, ← hsim.waiting, ← hsim.log]
  exact GwBack.handed_append_waiting ht (hsim.ordered (sound_of_reachable h) hpack)

/-- **First in, first out.**  In every run in which the server executes the `XDEL` of every
acknowledgement, whatever the calls return and however often their connection breaks, and in which
packing loses nothing of the ids: what was handed to the consumer, and then what waits in the
stream, are the entries ever appended, in the order of the stream; and every chunk is above those
started before it. -/
theorem in_order (h : machine.Reachable AcksExecuted s) (hpack : s.AllPackable) :
    s.handed ++ s.waiting = s.log.map messageOf ∧
      s.started.Pairwise fun a b => ∀ x ∈ a, ∀ y ∈ b, x.id < y.id := by
  obtain ⟨t, ht, hsim⟩ := sim_of_reachable allows_acks h hpack
  have hordered := hsim.ordered (sound_of_reachable h) hpack
  have hall := handed_append_waiting h hpack
  refine ⟨hall, ?_⟩
  have hstarted : s.started.flatten.Pairwise fun x y => x.id < y.id := by
    refine List.Pairwise.sublist ?_ hordered
    rw [hsim.log, ← hall, handed, List.append_assoc]
    exact List.sublist_append_left _ _
  exact (List.pairwise_flatten.1 hstarted).2

/-- The connection breaks in both calls, and entries are appended in between. -/
theorem in_order_sample : ∃ s : RedisBack, s.handed.length = 4 ∧ s.waiting.length = 1 ∧
    s.handed ++ s.waiting = s.log.map messageOf := by
  let lost : Outcomes := { Outcomes.fine with first := .lost (some 6) .eof [] }
  let run : List Event := [.xadd 5 [97], .xadd 5 [98], .getNext lost, .xadd 6 [99],
    .getNextAgain .fine, .consume, .xadd 6 [100], .markConsumed lost, .markConsumedAgain .fine,
    .getNext .fine, .consume, .xadd 7 [101]]
  obtain ⟨s, hr, hpack, hhanded, hwaiting⟩ := Machine.exists_of_runIf (M := machine)
    (G := AcksExecuted)
    (P := fun s => s.AllPackable ∧ s.handed.length = 4 ∧ s.waiting.length = 1)
    ⟨⟨[], []⟩, { chunkSize := 2 }, { chunkSize := 2, outputFolder := [] }, rfl⟩ run
    (by decide +kernel)
  exact ⟨s, hhanded, hwaiting, (in_order hr hpack).1⟩

/-- **The folder is the stream.**  In every run in which the server executes the `XDEL` of every
acknowledgement, every file can be opened, `main` waits for the threads, packing loses nothing of
the ids and the packed ids have at most 19 digits: whenever no thread is at work, the files in the
order of their names, then the buffer, then the entries that wait, are the entries ever appended, in
order; so after a stop with an empty stream the files one after the other are the payloads, each
followed by a newline. -/
theorem listing_entries
    (h : machine.Reachable (fun s e => s.AcksExecuted e ∧ s.Finishes e) s) (hpack : s.AllPackable)
    (hids : ∀ entry ∈ s.log, (packId entry.id).toNat < 10 ^ 19) (hsaving : s.saving = []) :
    (listing s.files).flatMap OutputFile.messages ++ s.consumer.buffer ++ s.waiting =
      s.log.map messageOf ∧
    (s.pc = .exited → s.entries = [] →
      concat s.files = s.log.flatMap fun entry => (messageOf entry).data ++ [10]) := by
  obtain ⟨t, ht, hsim⟩ := sim_of_reachable allows_opened h hpack
  have hacks : GwBack.machine.Reachable GwBack.AcksSucceed t := ht.mono fun _ _ _ hg => hg.1
  have hordered := hsim.ordered (sound_of_reachable h) hpack
  have hids' : ∀ m ∈ t.table.log, m.id.toNat < 10 ^ 19 := by
    intro m hm
    rw [hsim.log] at hm
    obtain ⟨entry, hentry, rfl⟩ := List.mem_map.1 hm
    exact hids entry hentry
  have hlisting := GwBack.listing_flatMap ht hordered hids' (hsim.saving.trans hsaving)
  have hall : (listing s.files).flatMap OutputFile.messages ++ s.consumer.buffer ++ s.waiting =
      s.log.map messageOf := by
    rw [← hsim.files, hlisting, ← hsim.consumer, ← hsim.waiting, ← hsim.log]
    exact GwBack.handed_append_waiting hacks hordered
  refine ⟨hall, fun hpc hentries => ?_⟩
  have hbuf := (handed_of_reachable h).closed (Or.inr hpc)
  have hwaiting : s.waiting = [] := by simp [RedisBack.waiting, hentries]
  rw [hbuf, hwaiting, List.append_nil, List.append_nil] at hall
  have hlines : (s.log.map messageOf).flatMap (fun m => m.data ++ [10]) =
      s.log.flatMap fun entry => (messageOf entry).data ++ [10] := List.flatMap_map ..
  rw [← hlines, ← hall, List.flatMap_assoc]
  rfl

/-- The reply to an `XDEL` is lost, and the process is stopped and drained. -/
theorem listing_entries_sample : ∃ s : RedisBack, s.files.length = 2 ∧
    concat s.files = s.log.flatMap fun entry => (messageOf entry).data ++ [10] := by
  let lost : Outcomes := { Outcomes.fine with first := .lost (some 6) .io [] }
  let run : List Event := [.xadd 1700000000000 [97], .xadd 1700000000000 [98], .getNext .fine,
    .xadd 1700000000001 [99], .consume, .markConsumed lost, .getNext .fine, .getNextAgain .fine,
    .consume, .markConsumed .fine, .save 0 true, .signal, .join, .destroy true, .exit]
  obtain ⟨s, hr, hpack, hids, hsaving, hpc, hentries, hlen⟩ := Machine.exists_of_runIf
    (M := machine) (G := fun s e => s.AcksExecuted e ∧ s.Finishes e)
    (P := fun s => s.AllPackable ∧ (∀ entry ∈ s.log, (packId entry.id).toNat < 10 ^ 19) ∧
      s.saving = [] ∧ s.pc = .exited ∧ s.entries = [] ∧ s.files.length = 2)
    ⟨⟨[], []⟩, { chunkSize := 2 }, { chunkSize := 2, outputFolder := [] }, rfl⟩ run
    (by decide +kernel)
  exact ⟨s, hlen, (listing_entries hr hpack hids hsaving).2 hpc hentries⟩

end RedisBack

end GatewayPoc
