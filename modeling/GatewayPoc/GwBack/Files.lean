import GatewayPoc.GwBack.Handed

/-!
# The files are the chunks

While no acknowledgement fails and every file can be opened, no file is ever truncated: the files
and the saves that have not finished are the chunks that were started, each of them once.

* `saveMessages_fresh` : a save to a name that is not taken adds one file.
* `GwBack.chunks_perm` : the chunks that are not empty are those in the saves and in the files.
* `GwBack.log_perm` : every row ever committed is in exactly one place, after a stop with an empty
  table in a file (`GwBack.log_perm_files`).
-/

namespace GatewayPoc

/-- A file is added, and the others stay, if none of them has the range of the chunk. -/
theorem saveMessages_fresh {files : List OutputFile} {messages : Messages} {folder : Bytes}
    (hne : messages ≠ []) (hfresh : ∀ file ∈ files, ¬ SameRange file.messages messages) :
    saveMessages files messages folder true = ⟨folder, messages, hne⟩ :: files := by
  have hkeep : (files.filter fun old =>
      old.path ≠ (⟨folder, messages, hne⟩ : OutputFile).path) = files := by
    refine List.filter_eq_self.2 fun file hf => ?_
    simp only [decide_eq_true_eq]
    intro hpath
    exact hfresh file hf ((fileName_eq_iff file.nonempty hne).1 (Path.mk.inj hpath).2)
  rw [saveMessages, dif_neg hne]
  simp only [if_true, hkeep]

theorem saveMessages_nil (files : List OutputFile) (folder : Bytes) (good : Bool) :
    saveMessages files [] folder good = files := dif_pos rfl

namespace GwBack

variable {s s' : GwBack} {e : Event}

/-- The chunks that are not empty; only the last one of a life of the process may be. -/
def chunks (s : GwBack) : List Messages := s.started.filter fun chunk => chunk ≠ []

/-- A chunk that is about to be written finds no file of its range. -/
theorem not_sameRange_of_save (h : machine.Reachable AcksSucceed s) {save : Save}
    (hs : save ∈ s.saving) : ∀ file ∈ s.files, ¬ SameRange file.messages save.messages :=
  fun _ hf => not_sameRange h hf
    (fun _ hm => mem_log_of_mem_started h
      (Process.mem_started_of_saving (lots_of_reachable h) hs) hm)
    (saving_disjoint_files h hf hs)

/-- The rest of the buffer finds no file of its range. -/
theorem not_sameRange_of_buffer (h : machine.Reachable AcksSucceed s) :
    ∀ file ∈ s.files, ¬ SameRange file.messages s.consumer.buffer := by
  intro file hf
  refine not_sameRange h hf (fun m hm => ?_) fun m hm hmf => ?_
  · exact (handed_of_reachable h).genuine m (List.mem_append_right _ hm)
  · have hstarted := Process.mem_started_of_files (lots_of_reachable h) hf
    exact ((balanced_of_reachable h).not_mem_of_mem_lot hstarted hmf).2 hm

/-- **The files are the chunks.**  While no acknowledgement fails, every file can be opened and
`main` waits for the threads, the chunks that are not empty are those in the unfinished saves and
those in the files. -/
theorem chunks_perm (h : machine.Reachable Opened s) :
    s.chunks.Perm (s.saving.map Save.messages ++ s.files.map OutputFile.messages) := by
  refine h.invariant (I := fun s =>
    s.chunks.Perm (s.saving.map Save.messages ++ s.files.map OutputFile.messages)) ?_ ?_
  · rintro _ ⟨producer, consumer, rfl⟩
    simp [start, chunks]
  · intro s e s' hr ih hg hn
    have hacks : machine.Reachable AcksSucceed s := hr.mono fun _ _ _ hg => hg.1
    cases step_of_next hn with
    | commit | idle | getNext | getNextThrows | markConsumed | markConsumedThrows | signal | join
    | restart => exact ih
    | @consume messages hpc =>
      have hflushed : (s.consumer.call messages).flushed.filter (fun chunk => chunk ≠ []) =
          (s.consumer.call messages).flushed :=
        List.filter_eq_self.2 fun chunk hc => by
          simpa using MessageConsumer.call_chunk_ne_nil hc
      simp only [chunks, List.filter_append, hflushed, List.map_append, List.map_map,
        Function.comp_def, List.map_id', List.append_assoc]
      refine (ih.append_right _).trans ?_
      rw [List.append_assoc]
      exact List.perm_append_comm.append_left _
    | @save k good save hk =>
      obtain rfl : good = true := hg.2.1
      have hmem := List.mem_of_getElem? hk
      have hne := saving_ne_nil hr save hmem
      simp only [saveMessages_fresh hne (not_sameRange_of_save hacks hmem), List.map_cons]
      have hsaving := (perm_cons_eraseIdx hk).map Save.messages
      exact ih.trans ((hsaving.append_right _).trans List.perm_middle.symm)
    | @destroy good hpc =>
      obtain rfl : good = true := hg.2.1
      by_cases hnil : s.consumer.buffer = []
      · simpa [chunks, hnil, saveMessages_nil] using ih
      · simp only [chunks, saveMessages_fresh hnil (not_sameRange_of_buffer hacks),
          List.filter_append, List.map_cons]
        rw [List.filter_cons_of_pos (by simpa using hnil), List.filter_nil]
        exact (ih.append_right _).trans
          ((List.perm_append_singleton _ _).trans List.perm_middle.symm)
    | exit hpc =>
      have hsaving : s.saving = [] := hg.2.2 rfl
      rw [hsaving] at ih
      exact ih

/-- Taking the empty chunks away takes no message away. -/
theorem flatten_chunks (s : GwBack) : s.chunks.flatten = s.started.flatten := by
  rw [chunks]
  induction s.started with
  | nil => rfl
  | cons chunk started ih =>
    by_cases hnil : chunk = []
    · simpa [hnil] using ih
    · simpa [hnil] using ih

/-- **Where every row is.**  While no acknowledgement fails, every file can be opened and `main`
waits for the threads, every row ever committed is in exactly one place, once: it waits in the
table, or is in the buffer, in an unfinished save or in a file. -/
theorem log_perm (h : machine.Reachable Opened s) :
    s.table.log.Perm (s.waiting ++ (s.consumer.buffer ++
      (s.saving.flatMap Save.messages ++ s.files.flatMap OutputFile.messages))) := by
  have hacks : machine.Reachable AcksSucceed s := h.mono fun _ _ _ hg => hg.1
  have hflat := (chunks_perm h).flatten
  rw [flatten_chunks, List.flatten_append, ← List.flatMap_def, ← List.flatMap_def] at hflat
  refine (waiting_handed_perm hacks).symm.trans (List.Perm.append_left _ ?_)
  exact List.perm_append_comm.trans (hflat.append_left _)

/-- The end of the process ends its threads. -/
theorem saving_of_exited {G : GwBack → Event → Prop} (h : machine.Reachable G s)
    (hpc : s.pc = .exited) : s.saving = [] := by
  refine h.invariant (I := fun s => s.pc = .exited → s.saving = []) ?_ ?_ hpc
  · rintro _ ⟨producer, consumer, rfl⟩ hpc
    cases hpc
  · intro s e s' _ ih _ hn hpc
    cases step_of_next hn with
    | commit | idle | getNextThrows | signal => exact ih hpc
    | getNext | consume | markConsumed | markConsumedThrows | join | destroy | restart => cases hpc
    | save hk =>
      rw [ih hpc] at hk
      cases hk
    | exit => rfl

/-- **After a stop** with an empty table the files hold every row ever committed, once. -/
theorem log_perm_files (h : machine.Reachable Opened s) (hpc : s.pc = .exited)
    (hrows : s.table.rows = []) : s.table.log.Perm (s.files.flatMap OutputFile.messages) := by
  have hperm := log_perm h
  have hbuf := (inv_of_reachable h).closed (Or.inr hpc)
  simpa [waiting, hrows, hbuf, saving_of_exited h hpc] using hperm

end GwBack

end GatewayPoc
