import GatewayPoc.Core.Lists
import GatewayPoc.GwBack.Consumer

/-!
# The consumer, its threads and the files

`gwback/src/main.cpp` has one loop, one consumer and one way to stop, whatever the producer is.  A
`Process` is the part of the back end they work on; the back ends on PostgreSQL and on Redis are
machines with a `Process` in their states, and what concerns the `Process` alone is said here.

* `Process.Moves` : what an event of either back end can do to it.
* `Process.Lots` : every chunk handed to `saveMessages` is still being saved or done with
  (`Lots.moves`).
* `Process.handed` : everything ever handed to the consumer.  It only grows (`Moves.handed_le`).
* `Process.stopped` : what an orderly stop leaves behind.
-/

namespace GatewayPoc

/-- A call of `saveMessages` on a detached thread. -/
structure Save where
  messages : Messages
  folder : Bytes
  deriving DecidableEq, Repr

/-- The consumer and what it works on. -/
structure Process where
  consumer : MessageConsumer
  /-- Every chunk ever handed to `saveMessages`, in order. -/
  started : List Messages
  /-- The detached threads that have not finished, in the order they were started. -/
  saving : List Save
  /-- The files in the output folders. -/
  files : List OutputFile

namespace Process

variable {p p' : Process} {save : Save} {file : OutputFile}

/-- What an event can do. -/
inductive Moves (p : Process) : Process → Prop
  | stay : Moves p p
  | consume {messages : Messages} : Moves p { p with
      consumer := (p.consumer.call messages).consumer
      started := p.started ++ (p.consumer.call messages).flushed
      saving := p.saving ++ (p.consumer.call messages).flushed.map fun chunk =>
        ⟨chunk, p.consumer.outputFolder⟩ }
  | save {k : ℕ} {good : Bool} {save : Save} (hk : p.saving[k]? = some save) : Moves p { p with
      saving := p.saving.eraseIdx k
      files := saveMessages p.files save.messages save.folder good }
  | destroy {good : Bool} : Moves p { p with
      consumer := { p.consumer with buffer := [] }
      started := p.started ++ [p.consumer.buffer]
      files := saveMessages p.files p.consumer.buffer p.consumer.outputFolder good }
  | exit : Moves p { p with saving := [] }
  | restart {config : ConsumerConfig} (hbuf : p.consumer.buffer = []) :
      Moves p { p with consumer := .ofConfig config }

/-! ### The chunks -/

/-- The chunks handed to `saveMessages` are those being saved and those done with, and the files
hold chunks done with. -/
def Lots (p : Process) : Prop :=
  ∃ done, p.started.Perm (p.saving.map Save.messages ++ done) ∧
    ∀ file ∈ p.files, file.messages ∈ done

theorem Lots.moves (h : p.Lots) (hm : p.Moves p') : p'.Lots := by
  obtain ⟨done, hp, hf⟩ := h
  cases hm with
  | stay | restart => exact ⟨done, hp, hf⟩
  | consume =>
    refine ⟨done, ?_, hf⟩
    simp only [List.map_append, List.map_map, Function.comp_def, List.map_id', List.append_assoc]
    refine (hp.append_right _).trans ?_
    rw [List.append_assoc]
    exact List.perm_append_comm.append_left _
  | @save k good save hk =>
    refine ⟨save.messages :: done, hp.trans ?_, fun f hf' => ?_⟩
    · have hperm := (perm_cons_eraseIdx hk).map Save.messages
      exact (hperm.append_right done).trans List.perm_middle.symm
    · rcases mem_saveMessages hf' with hf' | hf'
      · exact List.mem_cons_of_mem _ (hf f hf')
      · exact hf' ▸ List.mem_cons_self
  | destroy =>
    refine ⟨p.consumer.buffer :: done, ?_, fun f hf' => ?_⟩
    · exact (List.perm_append_singleton _ _).trans ((hp.cons _).trans List.perm_middle.symm)
    · rcases mem_saveMessages hf' with hf' | hf'
      · exact List.mem_cons_of_mem _ (hf f hf')
      · exact hf' ▸ List.mem_cons_self
  | exit =>
    exact ⟨p.saving.map Save.messages ++ done, by simpa using hp,
      fun f hf' => List.mem_append_right _ (hf f hf')⟩

theorem mem_started_of_saving (h : p.Lots) (hs : save ∈ p.saving) : save.messages ∈ p.started := by
  obtain ⟨done, hp, -⟩ := h
  exact hp.mem_iff.2 (List.mem_append_left _ (List.mem_map_of_mem hs))

theorem mem_started_of_files (h : p.Lots) (hf : file ∈ p.files) : file.messages ∈ p.started := by
  obtain ⟨done, hp, hd⟩ := h
  exact hp.mem_iff.2 (List.mem_append_right _ (hd file hf))

/-! ### What was handed over -/

/-- Everything ever handed to the consumer, in order. -/
def handed (p : Process) : Messages := p.started.flatten ++ p.consumer.buffer

/-- The chunks that are flushed and the buffer are what the consumer had and was given. -/
theorem handed_call (p : Process) (messages : Messages) :
    (p.started ++ (p.consumer.call messages).flushed).flatten ++
        (p.consumer.call messages).consumer.buffer = p.handed ++ messages := by
  rw [List.flatten_append, List.append_assoc, MessageConsumer.call_flatten, handed,
    List.append_assoc]

/-- The destructor starts the rest of the buffer as a chunk. -/
theorem handed_destroy (p : Process) :
    (p.started ++ [p.consumer.buffer]).flatten ++ [] = p.handed := by
  simp [handed]

/-- What was handed over stays handed over. -/
theorem Moves.handed_le (h : p.Moves p') : p.handed <+: p'.handed := by
  cases h with
  | stay | save | exit => exact List.prefix_refl _
  | @consume messages =>
    rw [handed, handed, handed_call]
    exact List.prefix_append _ _
  | destroy =>
    rw [← handed_destroy p]
    exact List.prefix_refl _
  | restart hbuf =>
    rw [handed, hbuf, List.append_nil]
    exact List.prefix_append _ _

/-! ### An orderly stop -/

/-- The files when these threads have run in this order, and could open their files. -/
def saveAll (files : List OutputFile) (saving : List Save) : List OutputFile :=
  saving.foldl (fun files save => saveMessages files save.messages save.folder true) files

/-- What an orderly stop leaves behind: the threads have run, in the order they were started, the
consumer is destroyed, and every file could be opened. -/
def stopped (p : Process) : Process where
  consumer := { p.consumer with buffer := [] }
  started := p.started ++ [p.consumer.buffer]
  saving := []
  files := saveMessages (saveAll p.files p.saving) p.consumer.buffer p.consumer.outputFolder true

@[simp] theorem stopped_handed (p : Process) : p.stopped.handed = p.handed := p.handed_destroy

end Process

end GatewayPoc
