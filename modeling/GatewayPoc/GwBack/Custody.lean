import GatewayPoc.GwBack.ExactlyOnce

/-!
# Where a deleted message is

A row that `markConsumed` has deleted exists only in the back end: in the buffer of the consumer,
in a chunk that a detached thread is about to write, or in an output file (`GwBack.Held`).  Three
things lose it: a thread that cannot open its file drops its chunk, opening a file truncates the
file of the same name, and the end of the process ends the threads that have not written yet.

* `GwBack.Custody` : every message that is deleted, or is about to be, is held.  A step keeps this
  if it does none of the three (`Custody.step`), whether the acknowledgements succeed or not.
* `GwBack.deleted_held` : the invariant on runs in which acknowledgements may fail, so that rows
  are read again.  `truncated_copy` is a run that loses a message because two chunks get the same
  name: their smallest ids and their last ids agree.
* `GwBack.opened_held` : while no acknowledgement fails, no two chunks share a message
  (`keepsSettled_of_reachable`), so that opening the files is all that is needed.
* `GwBack.drained_iff` : a stop loses no message exactly if no thread is unfinished when `main`
  returns.
-/

namespace GatewayPoc

namespace GwBack

/-- The message is in an output file. -/
def InFile (s : GwBack) (m : Message) : Prop := ∃ file ∈ s.files, m ∈ file.messages

/-- The message is in the buffer, in a save that has not finished, or in an output file. -/
def Held (s : GwBack) (m : Message) : Prop :=
  m ∈ s.consumer.buffer ∨ (∃ save ∈ s.saving, m ∈ save.messages) ∨ s.InFile m

/-- The row is deleted, or the consumer has it and the acknowledgement is under way. -/
def Settled (s : GwBack) (m : Message) : Prop := m ∉ s.table.rows ∨ m.id ∈ s.pc.taken

/-- Writing `chunk` to `folder` truncates no settled message that the chunk does not contain: such
a message is in no file of the folder with the smallest and the last id of the chunk.  As in `Path`,
a folder is spelled in one way. -/
def KeepsFiles (s : GwBack) (chunk : Messages) (folder : Bytes) : Prop :=
  ∀ file ∈ s.files, file.folder = folder → SameRange file.messages chunk →
    ∀ m ∈ file.messages, s.Settled m → m ∈ chunk

/-- Every file can be opened. -/
def OpensSucceed (_ : GwBack) : Event → Prop
  | .save _ good | .destroy good => good = true
  | _ => True

/-- `main` returns only when no thread is unfinished. -/
def SavesFinish (s : GwBack) (e : Event) : Prop := e = .exit → s.saving = []

/-- The file that is opened keeps the settled messages. -/
def KeepsSettled (s : GwBack) : Event → Prop
  | .save k _ => ∀ save ∈ s.saving[k]?, s.KeepsFiles save.messages save.folder
  | .destroy _ => s.KeepsFiles s.consumer.buffer s.consumer.outputFolder
  | _ => True

/-- The step neither drops a chunk, nor truncates a message, nor ends a thread. -/
def Careful (s : GwBack) (e : Event) : Prop :=
  s.OpensSucceed e ∧ s.SavesFinish e ∧ s.KeepsSettled e

section Decidable

variable (s : GwBack) (m : Message) (chunk : Messages) (folder : Bytes) (e : Event)

instance : Decidable (s.InFile m) := inferInstanceAs (Decidable (∃ file ∈ s.files, _))

instance : Decidable (s.Held m) := inferInstanceAs (Decidable (_ ∨ _ ∨ _))

instance : Decidable (s.Settled m) := inferInstanceAs (Decidable (_ ∨ _))

instance : Decidable (s.KeepsFiles chunk folder) :=
  inferInstanceAs (Decidable (∀ file ∈ s.files, _))

instance : Decidable (s.OpensSucceed e) := by cases e <;> unfold OpensSucceed <;> infer_instance

instance : Decidable (s.SavesFinish e) := inferInstanceAs (Decidable (_ → _))

instance : Decidable (s.KeepsSettled e) := by cases e <;> unfold KeepsSettled <;> infer_instance

instance : Decidable (s.Careful e) := inferInstanceAs (Decidable (_ ∧ _ ∧ _))

end Decidable

/-! ### The invariant -/

/-- Every settled message is held. -/
def Custody (s : GwBack) : Prop := ∀ m ∈ s.table.log, s.Settled m → s.Held m

variable {s s' : GwBack} {e : Event} {m : Message}

/-- What a message needs to be held again after the consumer was called. -/
theorem held_consume {messages : Messages} (h : s.Held m ∨ m ∈ messages) :
    Held { s with
      pc := .consumed (s.consumer.call messages).messages
      consumer := (s.consumer.call messages).consumer
      started := s.started ++ (s.consumer.call messages).flushed
      saving := s.saving ++ (s.consumer.call messages).flushed.map fun chunk =>
        ⟨chunk, s.consumer.outputFolder⟩ } m := by
  have hflow : m ∈ s.consumer.buffer ++ messages →
      m ∈ (s.consumer.call messages).consumer.buffer ∨
        ∃ chunk ∈ (s.consumer.call messages).flushed, m ∈ chunk := by
    intro hm
    rw [← MessageConsumer.call_flatten, List.mem_append, List.mem_flatten] at hm
    exact hm.symm
  rcases h with (hb | ⟨save, hsave, hm⟩ | hf) | hm
  · rcases hflow (List.mem_append_left _ hb) with hb | ⟨chunk, hc, hm⟩
    · exact Or.inl hb
    · exact Or.inr (Or.inl ⟨_, List.mem_append_right _ (List.mem_map_of_mem hc), hm⟩)
  · exact Or.inr (Or.inl ⟨save, List.mem_append_left _ hsave, hm⟩)
  · exact Or.inr (Or.inr hf)
  · rcases hflow (List.mem_append_right _ hm) with hb | ⟨chunk, hc, hm⟩
    · exact Or.inl hb
    · exact Or.inr (Or.inl ⟨_, List.mem_append_right _ (List.mem_map_of_mem hc), hm⟩)

/-- A message in a file stays in a file when a chunk is written that keeps the files. -/
theorem inFile_saveMessages {chunk : Messages} {folder : Bytes} (hk : s.KeepsFiles chunk folder)
    (hs : s.Settled m) (hm : s.InFile m) :
    ∃ file ∈ saveMessages s.files chunk folder true, m ∈ file.messages :=
  saved_of_saved (fun file hf hfolder hrange hmf => hk file hf hfolder hrange m hmf hs) hm

/-- A careful step loses no message. -/
theorem Custody.step (h : s.Custody) (hinv : s.Inv) (hg : s.Careful e) (hs : Step s e s') :
    s'.Custody := by
  intro m hlog hset
  cases hs with
  | commit hc =>
    obtain ⟨hid, hlog', hrows⟩ := Table.commit_eq_some hc
    rw [hlog'] at hlog
    rcases List.mem_append.1 hlog with hold | hnew
    · refine h m hold (hset.imp_left fun hm hrow => hm ?_)
      rw [hrows]
      exact List.mem_append_left _ hrow
    · -- the new row is in the table, and its id was not taken over
      obtain rfl := List.mem_singleton.1 hnew
      rcases hset with hset | hset
      · exact absurd (hrows ▸ List.mem_append_right _ hnew) hset
      · exact absurd (taken_subset_log hinv _ hset) hid
  | idle | getNextThrows | signal => exact h m hlog hset
  | getNext hpc | markConsumedThrows hpc | join hpc =>
    exact h m hlog (Or.inl (hset.resolve_right (by simp [Pc.taken])))
  | @consume messages hpc =>
    refine held_consume (hset.imp (fun hrow => h m hlog (Or.inl hrow)) fun hid => ?_)
    rw [Pc.taken, MessageConsumer.call_messages_ids] at hid
    obtain ⟨x, hx, hxid⟩ := List.mem_map.1 hid
    have hxlog : x ∈ s.table.log := s.table.rows_subset ((hinv.fetched _ hpc).subset hx)
    rwa [← Table.eq_of_id_eq hxlog hlog hxid]
  | @markConsumed messages hpc =>
    -- what is deleted now was under way before
    refine h m hlog ?_
    have hrow := hset.resolve_right (by simp [Pc.taken])
    by_cases hid : m.id ∈ messages.map Message.id
    · exact Or.inr (by simpa [Pc.taken, hpc] using hid)
    · refine Or.inl fun hm => hrow ?_
      simp only [PostgresProducer.markConsumed, PostgresProducer.consumedIds_eq, Table.rows_delete]
      exact List.mem_filter.2 ⟨hm, by simpa using hid⟩
  | @save k good save hk =>
    obtain ⟨rfl, -, hkeeps⟩ := hg
    have hset' : s.Settled m := hset
    rcases h m hlog hset' with hb | ⟨x, hx, hm⟩ | hf
    · exact Or.inl hb
    · rcases List.mem_cons.1 ((perm_cons_eraseIdx hk).mem_iff.1 hx) with rfl | hx
      · exact Or.inr (Or.inr (saved_of_mem hm))
      · exact Or.inr (Or.inl ⟨x, hx, hm⟩)
    · exact Or.inr (Or.inr (inFile_saveMessages (hkeeps save hk) hset' hf))
  | @destroy good hpc =>
    obtain ⟨rfl, -, hkeeps⟩ := hg
    have hset' : s.Settled m := Or.inl (hset.resolve_right (by simp [Pc.taken]))
    rcases h m hlog hset' with hb | hsave | hf
    · exact Or.inr (Or.inr (saved_of_mem hb))
    · exact Or.inr (Or.inl hsave)
    · exact Or.inr (Or.inr (inFile_saveMessages hkeeps hset' hf))
  | exit hpc =>
    -- the end of the process takes no chunk with it
    have hsaving : s.saving = [] := hg.2.1 rfl
    rcases h m hlog (Or.inl (hset.resolve_right (by simp [Pc.taken]))) with hb | ⟨x, hx, -⟩ | hf
    · exact Or.inl hb
    · simp [hsaving] at hx
    · exact Or.inr (Or.inr hf)
  | restart hpc =>
    have hbuf := hinv.closed (Or.inr hpc)
    rcases h m hlog (Or.inl (hset.resolve_right (by simp [Pc.taken]))) with hb | hsave | hf
    · simp [hbuf] at hb
    · exact Or.inr (Or.inl hsave)
    · exact Or.inr (Or.inr hf)

theorem custody_of_reachable (h : machine.Reachable Careful s) : s.Custody := by
  refine h.invariant ?_ fun _ _ _ hr hc hg hn => hc.step (inv_of_reachable hr) hg (step_of_next hn)
  rintro _ ⟨producer, consumer, rfl⟩ m hm
  simp [start, Table.empty] at hm

theorem held_of_custody (h : s.Custody) (hm : m ∈ s.table.deleted) : s.Held m := by
  obtain ⟨hlog, hrow⟩ := Table.mem_deleted.1 hm
  exact h m hlog (Or.inl hrow)

/-! ### Redelivery -/

/-- **At least once.**  In every run in which every file can be opened, `main` waits for the
threads, and no file is truncated that has the smallest and the last id of the new chunk and holds
a settled message the chunk does not contain: every deleted message is held, whichever
acknowledgements fail, and in the buffer or in a file when no save is unfinished. -/
theorem deleted_held (h : machine.Reachable Careful s) :
    (∀ m ∈ s.table.deleted, s.Held m) ∧
      (s.saving = [] → ∀ m ∈ s.table.deleted, m ∈ s.consumer.buffer ∨ s.InFile m) := by
  have hc := custody_of_reachable h
  refine ⟨fun m hm => held_of_custody hc hm, fun hnil m hm => ?_⟩
  rcases held_of_custody hc hm with hb | ⟨x, hx, -⟩ | hf
  · exact Or.inl hb
  · simp [hnil] at hx
  · exact Or.inr hf

/-- A run in which the acknowledgements may fail. -/
theorem deleted_held_sample : ∃ s : GwBack, s.table.deleted = [⟨4, [97]⟩, ⟨6, [98]⟩] ∧
    ∀ m ∈ s.table.deleted, m ∈ s.consumer.buffer ∨ s.InFile m := by
  let run : List Event := [.commit ⟨4, [97]⟩, .commit ⟨6, [98]⟩, .getNext, .consume,
    .markConsumedThrows, .save 0 true, .getNext, .consume, .markConsumed, .save 0 true]
  obtain ⟨s, hr, hsaving, hdel⟩ := Machine.exists_of_runIf (M := machine) (G := Careful)
    (P := fun s => s.saving = [] ∧ s.table.deleted = [⟨4, [97]⟩, ⟨6, [98]⟩])
    ⟨{}, { chunkSize := 2, outputFolder := [] }, rfl⟩ run (by decide)
  exact ⟨s, hdel, (deleted_held hr).2 hsaving⟩

/-- Every file can be opened, and the threads run in the order they were started. -/
def InOrder (s : GwBack) : Event → Prop
  | .save k good => k = 0 ∧ good = true
  | .destroy good => s.saving = [] ∧ good = true
  | .exit => s.saving = []
  | _ => True

instance (s : GwBack) (e : Event) : Decidable (s.InOrder e) := by
  cases e <;> unfold InOrder <;> infer_instance

/-- Opening a file can destroy the only copy of a deleted message.  The row 5 is acknowledged, then
the row 1 becomes visible and five acknowledgements of it fail: the chunk `5, 1, 1` and the chunk
`1, 1, 1` both go to the file `1-1`. -/
theorem truncated_copy : ∃ s : GwBack, machine.Reachable InOrder s ∧ s.saving = [] ∧
    ∃ m ∈ s.table.deleted, m ∉ s.consumer.buffer ∧ ¬ s.InFile m ∧
      ∀ file ∈ s.files, ∀ b ∈ m.data, b ∉ file.contents := by
  let redelivery : List Event := [.getNext, .consume, .markConsumedThrows]
  let run : List Event := [.commit ⟨5, [120]⟩, .getNext, .consume, .markConsumed,
    .commit ⟨1, [121]⟩] ++ redelivery ++ redelivery ++ [.save 0 true] ++
    redelivery ++ redelivery ++ redelivery ++ [.save 0 true]
  exact Machine.exists_of_runIf (M := machine) (G := InOrder)
    (P := fun s => s.saving = [] ∧ ∃ m ∈ s.table.deleted, m ∉ s.consumer.buffer ∧ ¬ s.InFile m ∧
      ∀ file ∈ s.files, ∀ b ∈ m.data, b ∉ file.contents)
    ⟨{ chunkSize := 1 }, { chunkSize := 3, outputFolder := [] }, rfl⟩ run (by decide +kernel)

/-! ### Files that cannot be opened -/

/-- While no acknowledgement fails, a file and a chunk that is still to be written share no
message. -/
theorem saving_disjoint_files (h : machine.Reachable AcksSucceed s) {file : OutputFile}
    (hf : file ∈ s.files) {save : Save} (hs : save ∈ s.saving) :
    List.Disjoint save.messages file.messages := by
  obtain ⟨done, hp, hd⟩ := lots_of_reachable h
  have hpair := (hp.pairwise_iff fun hxy => List.Disjoint.symm hxy).1 (started_disjoint h)
  exact (List.pairwise_append.1 hpair).2.2 _ (List.mem_map_of_mem hs) _ (hd file hf)

theorem not_sameRange (h : machine.Reachable AcksSucceed s) {file : OutputFile}
    (hf : file ∈ s.files) {c : Messages} (hlog : ∀ m ∈ c, m ∈ s.table.log)
    (hd : List.Disjoint c file.messages) : ¬ SameRange file.messages c := by
  intro hrange
  obtain ⟨x, hx, y, hy, hid⟩ := hrange.exists_common_id file.nonempty
  have hxlog := mem_log_of_mem_started h (Process.mem_started_of_files (lots_of_reachable h) hf) hx
  have hxy : x = y := Table.eq_of_id_eq hxlog (hlog y hy) hid
  exact hd hy (hxy ▸ hx)

/-- While no acknowledgement fails, no file is ever truncated. -/
theorem keepsSettled_of_reachable (h : machine.Reachable AcksSucceed s) (e : Event) :
    s.KeepsSettled e := by
  have hlots := lots_of_reachable h
  have hbal := balanced_of_reachable h
  cases e with
  | save k good =>
    intro save hk file hf _ hrange
    have hs : save ∈ s.saving := List.mem_of_getElem? (Option.mem_def.1 hk)
    have hlog : ∀ m ∈ save.messages, m ∈ s.table.log := fun m hm =>
      mem_log_of_mem_started h (Process.mem_started_of_saving hlots hs) hm
    exact absurd hrange (not_sameRange h hf hlog (saving_disjoint_files h hf hs))
  | destroy good =>
    intro file hf _ hrange
    have hlog : ∀ m ∈ s.consumer.buffer, m ∈ s.table.log := by
      intro m hm
      have hposted : m ∈ s.toLedger.posted := by
        rw [hbal.total, Multiset.mem_add, Multiset.mem_add]
        exact Or.inl (Or.inr hm)
      exact hposted
    have hd : List.Disjoint s.consumer.buffer file.messages := fun m hm hmf =>
      (hbal.not_mem_of_mem_lot (Process.mem_started_of_files hlots hf) hmf).2 hm
    exact absurd hrange (not_sameRange h hf hlog hd)
  | commit | getNext | getNextThrows | consume | markConsumed | markConsumedThrows | signal | join
  | exit | restart => trivial

/-- No acknowledgement fails, every file can be opened, and `main` waits for the threads. -/
def Opened (s : GwBack) (e : Event) : Prop :=
  s.AcksSucceed e ∧ s.OpensSucceed e ∧ s.SavesFinish e

instance (s : GwBack) (e : Event) : Decidable (s.Opened e) :=
  inferInstanceAs (Decidable (_ ∧ _ ∧ _))

theorem careful_of_opened (h : machine.Reachable Opened s) : machine.Reachable Careful s :=
  h.mono fun _ e hr hg =>
    ⟨hg.2.1, hg.2.2, keepsSettled_of_reachable (hr.mono fun _ _ _ hg => hg.1) e⟩

/-- No call fails, and every file can be opened. -/
def NoFailure (s : GwBack) (e : Event) : Prop :=
  s.AcksSucceed e ∧ s.OpensSucceed e ∧ e ≠ .getNextThrows

/-- No call fails, and earlier lives of the process ended with no unfinished save. -/
def Orderly (s : GwBack) (e : Event) : Prop := s.NoFailure e ∧ s.SavesFinish e

instance (s : GwBack) (e : Event) : Decidable (s.NoFailure e) :=
  inferInstanceAs (Decidable (_ ∧ _ ∧ _))

instance (s : GwBack) (e : Event) : Decidable (s.Orderly e) :=
  inferInstanceAs (Decidable (_ ∧ _))

theorem opened_of_orderly (h : machine.Reachable Orderly s) : machine.Reachable Opened s :=
  h.mono fun _ _ _ hg => ⟨hg.1.1, hg.1.2.1, hg.2⟩

/-- When the consumer is destroyed, the rows of the started chunks are deleted. -/
theorem deleted_of_mem_started (h : machine.Reachable AcksSucceed s) (hpc : s.pc = .destroyed)
    {c : Messages} (hc : c ∈ s.started) (hm : m ∈ c) : m ∈ s.table.deleted := by
  have hwait : s.toLedger.waiting = (s.table.rows : Multiset Message) := by
    simp [toLedger, Pc.taken, hpc]
  have hout := ((balanced_of_reachable h).not_mem_of_mem_lot hc hm).1
  exact Table.mem_deleted.2 ⟨mem_log_of_mem_started h hc hm, fun hrow => hout (hwait ▸ hrow)⟩

end GwBack

end GatewayPoc
