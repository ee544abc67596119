import GatewayPoc.Core.Machine
import GatewayPoc.GwBack.PostgresProducer
import GatewayPoc.GwBack.Process

/-!
# The back end as a state machine

`gwback/src/main.cpp` with `PostgresProducer` and `MessageConsumer`: `runLoop` fetches a batch,
gives it to the consumer and acknowledges it; the consumer starts detached threads that save
chunks; `main` waits for a signal, clears `run`, joins the loop thread, destroys the consumer and
returns, which ends the process and the threads still running.

`GwBack` is the state of the process, the table it shares with the front ends, and the output
folders.  An `Event` is one step of one of the parties: a front-end transaction that becomes
visible, a call of the loop thread (with its outcome), a detached thread that opens and writes its
file, or a step of `main`.  The threads share nothing with the loop but the folders, so every
interleaving is an order of events.

* `GwBack.machine` : the state machine.
* `GwBack.Step` : what every event can do, said once (`step_of_next`).
* `GwBack.Inv` : how the batch of the loop relates to the table (`inv_of_reachable`).
* `GwBack.process` : the consumer, its threads and the files (`Step.moves`).
-/

namespace GatewayPoc

/-- Where the loop thread and `main` are. -/
inductive Pc where
  /-- At the head of `while (run)`. -/
  | loop
  /-- `getNext` has returned these messages. -/
  | fetched (messages : Messages)
  /-- The consumer has returned `true`; this is what it left in the vector. -/
  | consumed (messages : Messages)
  /-- `run` was cleared and the loop thread joined. -/
  | joined
  /-- The consumer is destroyed. -/
  | destroyed
  /-- `main` has returned. -/
  | exited
  deriving DecidableEq, Repr

/-- The back end and what it shares with the outside. -/
structure GwBack where
  table : Table
  producer : ProducerConfig
  consumer : MessageConsumer
  run : Bool
  pc : Pc
  /-- Every chunk ever handed to `saveMessages`, in order. -/
  started : List Messages
  /-- The detached threads that have not finished, in the order they were started. -/
  saving : List Save
  /-- The files in the output folders. -/
  files : List OutputFile
  deriving DecidableEq

namespace GwBack

/-- One step of one party. -/
inductive Event where
  /-- A row inserted by a front end becomes visible. -/
  | commit (message : Message)
  | getNext
  | getNextThrows
  /-- `consumer(messages)`. -/
  | consume
  | markConsumed
  | markConsumedThrows
  /-- The `k`-th unfinished thread runs; `good` if it can open its file. -/
  | save (k : ℕ) (good : Bool)
  /-- `waitSignal` returns and `main` clears `run`. -/
  | signal
  | join
  /-- `~MessageConsumer`; `good` if the file for the rest of the buffer can be opened. -/
  | destroy (good : Bool)
  | exit
  /-- The program is started again. -/
  | restart (producer : ProducerConfig) (consumer : ConsumerConfig)
  deriving DecidableEq

/-- The state an event leads to. -/
def next (s : GwBack) : Event → Option GwBack
  | .commit message => (s.table.commit message).map fun table => { s with table }
  | .getNext =>
    if s.pc = .loop ∧ s.run = true then
      -- on an empty batch the loop pauses and starts over
      let messages := PostgresProducer.getNext s.producer s.table
      if messages.isEmpty then some s else some { s with pc := .fetched messages }
    else none
  | .getNextThrows => if s.pc = .loop ∧ s.run = true then some s else none
  | .consume =>
    match s.pc with
    | .fetched messages =>
      let r := s.consumer.call messages
      some { s with
        pc := if r.ok then .consumed r.messages else .loop
        consumer := r.consumer
        started := s.started ++ r.flushed
        saving := s.saving ++ r.flushed.map fun chunk => ⟨chunk, s.consumer.outputFolder⟩ }
    | _ => none
  | .markConsumed =>
    match s.pc with
    | .consumed messages =>
      some { s with pc := .loop, table := PostgresProducer.markConsumed s.table messages }
    | _ => none
  | .markConsumedThrows =>
    match s.pc with
    -- the transaction is rolled back, and the loop starts over
    | .consumed _ => some { s with pc := .loop }
    | _ => none
  | .save k good =>
    match s.saving[k]? with
    | some save =>
      some { s with
        saving := s.saving.eraseIdx k
        files := saveMessages s.files save.messages save.folder good }
    | none => none
  -- the loop thread looks at `run` when it is back at its head
  | .signal => some { s with run := false }
  | .join => if s.pc = .loop ∧ s.run = false then some { s with pc := .joined } else none
  | .destroy good =>
    if s.pc = .joined then
      some { s with
        pc := .destroyed
        consumer := { s.consumer with buffer := [] }
        started := s.started ++ [s.consumer.buffer]
        files := saveMessages s.files s.consumer.buffer s.consumer.outputFolder good }
    else none
  -- the detached threads end with the process
  | .exit => if s.pc = .destroyed then some { s with pc := .exited, saving := [] } else none
  | .restart producer consumer =>
    if s.pc = .exited then
      some { s with pc := .loop, run := true, producer, consumer := .ofConfig consumer }
    else none

/-- The back end just started, on an empty table. -/
def start (producer : ProducerConfig) (consumer : ConsumerConfig) : GwBack where
  table := .empty
  producer := producer
  consumer := .ofConfig consumer
  run := true
  pc := .loop
  started := []
  saving := []
  files := []

/-- The back end as a state machine. -/
def machine : Machine GwBack Event where
  init s := ∃ producer consumer, s = start producer consumer
  next := next

/-! ### What an event can do -/

/-- The steps, event by event. -/
inductive Step (s : GwBack) : Event → GwBack → Prop
  | commit {message : Message} {table : Table} (h : s.table.commit message = some table) :
      Step s (.commit message) { s with table }
  | idle (hpc : s.pc = .loop) : Step s .getNext s
  | getNext {messages : Messages} (hpc : s.pc = .loop)
      (hm : messages = PostgresProducer.getNext s.producer s.table) (hne : messages ≠ []) :
      Step s .getNext { s with pc := .fetched messages }
  | getNextThrows (hpc : s.pc = .loop) : Step s .getNextThrows s
  | consume {messages : Messages} (hpc : s.pc = .fetched messages) :
      Step s .consume { s with
        pc := .consumed (s.consumer.call messages).messages
        consumer := (s.consumer.call messages).consumer
        started := s.started ++ (s.consumer.call messages).flushed
        saving := s.saving ++ (s.consumer.call messages).flushed.map fun chunk =>
          ⟨chunk, s.consumer.outputFolder⟩ }
  | markConsumed {messages : Messages} (hpc : s.pc = .consumed messages) :
      Step s .markConsumed
        { s with pc := .loop, table := PostgresProducer.markConsumed s.table messages }
  | markConsumedThrows {messages : Messages} (hpc : s.pc = .consumed messages) :
      Step s .markConsumedThrows { s with pc := .loop }
  | save {k : ℕ} {good : Bool} {save : Save} (hk : s.saving[k]? = some save) :
      Step s (.save k good) { s with
        saving := s.saving.eraseIdx k
        files := saveMessages s.files save.messages save.folder good }
  | signal : Step s .signal { s with run := false }
  | join (hpc : s.pc = .loop) : Step s .join { s with pc := .joined }
  | destroy {good : Bool} (hpc : s.pc = .joined) :
      Step s (.destroy good) { s with
        pc := .destroyed
        consumer := { s.consumer with buffer := [] }
        started := s.started ++ [s.consumer.buffer]
        files := saveMessages s.files s.consumer.buffer s.consumer.outputFolder good }
  | exit (hpc : s.pc = .destroyed) : Step s .exit { s with pc := .exited, saving := [] }
  | restart {producer : ProducerConfig} {consumer : ConsumerConfig} (hpc : s.pc = .exited) :
      Step s (.restart producer consumer)
        { s with pc := .loop, run := true, producer, consumer := .ofConfig consumer }

theorem step_of_next {s s' : GwBack} {e : Event} (h : machine.next s e = some s') :
    Step s e s' := by
  change s.next e = some s' at h
  cases e with
  | commit message =>
    obtain ⟨table, htable, rfl⟩ := Option.map_eq_some_iff.1 h
    exact .commit htable
  | getNext =>
    simp only [next] at h
    split_ifs at h with hpc hempty
    · obtain rfl := Option.some.inj h
      exact .idle hpc.1
    · obtain rfl := Option.some.inj h
      exact .getNext hpc.1 rfl (by simpa using hempty)
  | getNextThrows =>
    simp only [next] at h
    split_ifs at h with hpc
    obtain rfl := Option.some.inj h
    exact .getNextThrows hpc.1
  | consume =>
    simp only [next] at h
    split at h
    · rename_i messages hpc
      obtain rfl := Option.some.inj h
      exact .consume hpc
    · cases h
  | markConsumed =>
    simp only [next] at h
    split at h
    · rename_i messages hpc
      obtain rfl := Option.some.inj h
      exact .markConsumed hpc
    · cases h
  | markConsumedThrows =>
    simp only [next] at h
    split at h
    · rename_i messages hpc
      obtain rfl := Option.some.inj h
      exact .markConsumedThrows hpc
    · cases h
  | save k good =>
    simp only [next] at h
    split at h
    · rename_i save hk
      obtain rfl := Option.some.inj h
      exact .save hk
    · cases h
  | signal =>
    obtain rfl := Option.some.inj h
    exact .signal
  | join =>
    simp only [next] at h
    split_ifs at h with hpc
    obtain rfl := Option.some.inj h
    exact .join hpc.1
  | destroy good =>
    simp only [next] at h
    split_ifs at h with hpc
    obtain rfl := Option.some.inj h
    exact .destroy hpc
  | exit =>
    simp only [next] at h
    split_ifs at h with hpc
    obtain rfl := Option.some.inj h
    exact .exit hpc
  | restart producer consumer =>
    simp only [next] at h
    split_ifs at h with hpc
    obtain rfl := Option.some.inj h
    exact .restart hpc

/-! ### The batch and the table -/

/-- How the batch of the loop relates to the table, and when the buffer is empty. -/
structure Inv (s : GwBack) : Prop where
  fetched : ∀ b, s.pc = .fetched b → b.Subperm s.table.rows
  consumed : ∀ b, s.pc = .consumed b → ∀ i ∈ b.map Message.id, i ∈ s.table.log.map Message.id
  closed : s.pc = .destroyed ∨ s.pc = .exited → s.consumer.buffer = []

theorem inv_start (producer : ProducerConfig) (consumer : ConsumerConfig) :
    Inv (start producer consumer) :=
  ⟨by simp [start], by simp [start], by simp [start]⟩

theorem Inv.step {s s' : GwBack} {e : Event} (h : s.Inv) (hs : Step s e s') : s'.Inv := by
  cases hs with
  | commit hc =>
    obtain ⟨-, hlog, hrows⟩ := Table.commit_eq_some hc
    refine ⟨fun b hb => ?_, fun b hb i hi => ?_, h.closed⟩
    · exact (h.fetched b hb).trans (hrows ▸ (List.sublist_append_left _ _).subperm)
    · have := h.consumed b hb i hi
      simp only [hlog, List.map_append, List.mem_append]
      exact Or.inl this
  | idle | getNextThrows => exact h
  | getNext hpc hm hne =>
    refine ⟨fun b hb => ?_, by simp, by simp⟩
    obtain rfl := Pc.fetched.inj hb
    exact hm ▸ s.table.select_subperm _
  | @consume messages hpc =>
    -- the vector keeps its ids, and they are ids of rows that were fetched
    refine ⟨by simp, fun b hb i hi => ?_, by simp⟩
    obtain rfl := Pc.consumed.inj hb
    rw [MessageConsumer.call_messages_ids] at hi
    obtain ⟨m, hm, rfl⟩ := List.mem_map.1 hi
    exact List.mem_map_of_mem (s.table.rows_subset ((h.fetched _ hpc).subset hm))
  | markConsumed hpc | markConsumedThrows hpc | join hpc => exact ⟨by simp, by simp, by simp⟩
  | save hk | signal => exact ⟨h.fetched, h.consumed, h.closed⟩
  | destroy hpc => exact ⟨by simp, by simp, by simp⟩
  | exit hpc => exact ⟨by simp, by simp, fun _ => h.closed (Or.inl hpc)⟩
  | restart hpc => exact ⟨by simp, by simp, by simp⟩

variable {G : GwBack → Event → Prop}

theorem inv_of_reachable {s : GwBack} (h : machine.Reachable G s) : s.Inv := by
  refine h.invariant ?_ fun _ _ _ _ hi _ hn => hi.step (step_of_next hn)
  rintro _ ⟨producer, consumer, rfl⟩
  exact inv_start producer consumer

/-! ### The process -/

/-- The consumer, its threads and the files. -/
def process (s : GwBack) : Process := ⟨s.consumer, s.started, s.saving, s.files⟩

variable {s s' : GwBack} {e : Event}

theorem Step.moves (hs : Step s e s') (hinv : s.Inv) : s.process.Moves s'.process := by
  cases hs with
  | commit | idle | getNext | getNextThrows | markConsumed | markConsumedThrows | signal | join =>
    exact .stay
  | consume => exact .consume
  | save hk => exact .save hk
  | destroy => exact .destroy
  | exit => exact .exit
  | restart hpc => exact .restart (hinv.closed (Or.inr hpc))

theorem lots_of_reachable (h : machine.Reachable G s) : s.process.Lots := by
  refine h.invariant (I := fun s => s.process.Lots) ?_ fun _ _ _ hr hl _ hn =>
    hl.moves ((step_of_next hn).moves (inv_of_reachable hr))
  rintro _ ⟨producer, consumer, rfl⟩
  exact ⟨[], by simp [start, process], by simp [start, process]⟩

/-- No thread is started for an empty chunk. -/
theorem saving_ne_nil (h : machine.Reachable G s) : ∀ save ∈ s.saving, save.messages ≠ [] := by
  refine h.invariant (I := fun s => ∀ save ∈ s.saving, save.messages ≠ []) ?_ ?_
  · rintro _ ⟨producer, consumer, rfl⟩
    simp [start]
  · intro s e s' _ ih _ hn
    cases step_of_next hn with
    | commit | idle | getNext | getNextThrows | markConsumed | markConsumedThrows | signal | join
    | restart | destroy => exact ih
    | consume hpc =>
      intro save hs
      rcases List.mem_append.1 hs with hs | hs
      · exact ih save hs
      · obtain ⟨chunk, hc, rfl⟩ := List.mem_map.1 hs
        exact MessageConsumer.call_chunk_ne_nil hc
    | save hk => exact fun x hx => ih x (List.mem_of_mem_eraseIdx hx)
    | exit => simp

end GwBack

end GatewayPoc
