import GatewayPoc.GwBack.Files
import GatewayPoc.GwBack.RedisRefinement

/-!
# Delivery from Redis

What the back end on Redis does with the entries of the stream, over whole runs with any outcome of
the calls of `hiredis`, any entries of the front ends in between, and restarts.

* `RedisBack.handed` : everything ever handed to the consumer, in order.
* **`RedisBack.handed_genuine`** : in every run, only entries are handed over, and only entries are
  deleted that the id of something handed over stands for; an entry whose id packing spoils is never
  deleted.
* **`RedisBack.refines`** : the back end on Redis is the back end on PostgreSQL.
* **`RedisBack.handed_once`** : while every `XDEL` is executed, each entry is handed over exactly
  once, although the loop may take a call for failed.
* **`RedisBack.entries_held`** : a deleted entry is in the buffer, in a save or in a file.
-/

namespace GatewayPoc

namespace RedisBack

open RedisProducer (messagesStream dataField messageOf packId unpackId Packable)

variable {s s' : RedisBack} {e : Event} {t : GwBack} {G : RedisBack → Event → Prop}

/-! ### What is handed over -/

/-- The consumer, its threads and the files. -/
def process (s : RedisBack) : Process := ⟨s.consumer, s.started, s.saving, s.files⟩

/-- Everything ever handed to the consumer, in order. -/
def handed (s : RedisBack) : Messages := s.started.flatten ++ s.consumer.buffer

/-- How the messages of the loop and the deleted entries relate to the log and to what was handed
over. -/
structure Handed (s : RedisBack) : Prop where
  genuine : ∀ m ∈ s.handed, ∃ entry ∈ s.log, m = messageOf entry
  fetched : ∀ b, s.pc = .fetched b → ∀ m ∈ b, ∃ entry ∈ s.log, m = messageOf entry
  taken : ∀ b, (s.pc = .consumed b ∨ ∃ applied, s.pc = .markAgain b applied) →
    ∀ i ∈ b.map Message.id, i ∈ s.handed.map Message.id
  deleted : ∀ entry ∈ s.log, entry ∉ s.entries → ∃ m ∈ s.handed, unpackId m.id = entry.id
  closed : s.pc = .destroyed ∨ s.pc = .exited → s.consumer.buffer = []

/-- The chunks that are flushed and the buffer are what the consumer had and was given. -/
theorem handed_consume (s : RedisBack) (messages : Messages) :
    (s.started ++ (s.consumer.call messages).flushed).flatten ++
        (s.consumer.call messages).consumer.buffer = s.handed ++ messages :=
  s.process.handed_call messages

theorem Handed.asked (h : s.Handed) (hsound : s.Sound) {producer : RedisProducer} {pc : RedisPc}
    (ha : s.Asked producer pc) : Handed { s with producer := producer, pc := pc } := by
  refine ⟨h.genuine, fun b hb m hm => ?_, fun b hb => ?_, h.deleted, fun hb => ?_⟩
  · obtain ⟨-, rfl | rfl | ⟨rfl, -⟩⟩ := ha
    · cases hb
    · cases hb
    · obtain rfl := RedisPc.fetched.inj hb
      obtain ⟨entry, hentry, rfl⟩ := List.mem_map.1 hm
      exact ⟨entry, hsound.sublist.subset (List.mem_of_mem_take hentry), rfl⟩
  · obtain ⟨-, rfl | rfl | ⟨rfl, -⟩⟩ := ha <;> simp at hb
  · obtain ⟨-, rfl | rfl | ⟨rfl, -⟩⟩ := ha <;> simp at hb

/-- An acknowledgement deletes what was handed over. -/
theorem Handed.xdel (h : s.Handed) {messages : Messages} {applied : Bool}
    (htaken : ∀ i ∈ messages.map Message.id, i ∈ s.handed.map Message.id)
    {producer : RedisProducer} {pc : RedisPc}
    (hpc : pc = .loop ∨ pc = .markAgain messages applied) :
    Handed { s with producer := producer, db := s.xdel messages applied, pc := pc } := by
  refine ⟨h.genuine, fun b hb => ?_, fun b hb => ?_, fun entry hentry hgone => ?_, fun hb => ?_⟩
  · obtain rfl | rfl := hpc <;> cases hb
  · obtain rfl | rfl := hpc
    · simp at hb
    · obtain hb | ⟨applied', hb⟩ := hb
      · cases hb
      · obtain ⟨rfl, -⟩ := RedisPc.markAgain.inj hb
        exact htaken
  · change entry ∉ (s.xdel messages applied messagesStream).entries at hgone
    rw [entries_xdel] at hgone
    split_ifs at hgone with happ
    · by_cases hstream : entry ∈ s.entries
      · have hid : entry.id ∈ messages.map fun message => unpackId message.id := by
          by_contra hno
          exact hgone (List.mem_filter.2 ⟨hstream, by simpa using hno⟩)
        obtain ⟨m, hm, hmid⟩ := List.mem_map.1 hid
        obtain ⟨x, hx, hxid⟩ := List.mem_map.1 (htaken _ (List.mem_map_of_mem hm))
        exact ⟨x, hx, by rw [hxid, hmid]⟩
      · exact h.deleted entry hentry hstream
    · exact h.deleted entry hentry hgone
  · obtain rfl | rfl := hpc <;> simp at hb

theorem Handed.step (h : s.Handed) (hsound : s.Sound) (hs : Step s e s') : s'.Handed := by
  cases hs with
  | @xadd now data =>
    obtain heq | ⟨entry, -, -, hentries, hlog, -⟩ := observe_xadd s now data
    · rw [heq]
      exact h
    · have hold : ∀ {m : Message}, (∃ a ∈ s.log, m = messageOf a) →
          ∃ a ∈ (s.observe (s.db.exec now (some (.xadd messagesStream dataField data))).1).log,
            m = messageOf a := by
        rintro m ⟨a, ha, rfl⟩
        exact ⟨a, by rw [hlog]; exact List.mem_append_left _ ha, rfl⟩
      refine ⟨fun m hm => hold (h.genuine m hm), fun b hb m hm => hold (h.fetched b hb m hm),
        h.taken, fun a ha hgone => ?_, h.closed⟩
      rw [hentries, List.mem_append, not_or] at hgone
      rw [hlog] at ha
      exact h.deleted a ((List.mem_append.1 ha).resolve_right hgone.2) hgone.1
  | getNext hpc hrun ha => exact h.asked hsound ha
  | getNextAgain hpc ha => exact h.asked hsound ha
  | @consume messages hpc =>
    have hhanded := handed_consume s messages
    refine ⟨fun m hm => ?_, by simp, fun b hb i hi => ?_, fun a ha hgone => ?_, by simp⟩
    · rw [handed, hhanded] at hm
      rcases List.mem_append.1 hm with hm | hm
      · exact h.genuine m hm
      · exact h.fetched messages hpc m hm
    · rw [handed, hhanded, List.map_append]
      obtain hb | ⟨applied, hb⟩ := hb
      · obtain rfl := RedisPc.consumed.inj hb
        rw [MessageConsumer.call_messages_ids] at hi
        exact List.mem_append_right _ hi
      · cases hb
    · obtain ⟨m, hm, hid⟩ := h.deleted a ha hgone
      exact ⟨m, by rw [handed, hhanded]; exact List.mem_append_left _ hm, hid⟩
  | markConsumed hpc hproducer hpc' =>
    exact h.xdel (h.taken _ (Or.inl hpc)) (hpc'.symm.imp_left And.left)
  | markConsumedAgain hpc => exact h.xdel (h.taken _ (Or.inr ⟨_, hpc⟩)) (Or.inl rfl)
  | save | signal => exact ⟨h.genuine, h.fetched, h.taken, h.deleted, h.closed⟩
  | join => exact ⟨h.genuine, by simp, by simp, h.deleted, by simp⟩
  | destroy hpc =>
    have hhanded : (s.started ++ [s.consumer.buffer]).flatten ++ [] = s.handed :=
      s.process.handed_destroy
    refine ⟨fun m hm => ?_, by simp, by simp, fun a ha hgone => ?_, by simp⟩
    · rw [handed, hhanded] at hm
      exact h.genuine m hm
    · rw [handed, hhanded]
      exact h.deleted a ha hgone
  | exit hpc => exact ⟨h.genuine, by simp, by simp, h.deleted, fun _ => h.closed (Or.inl hpc)⟩
  | @restart config producer consumer hpc =>
    have hbuf := h.closed (Or.inr hpc)
    have hhanded : s.started.flatten ++ (MessageConsumer.ofConfig consumer).buffer = s.handed := by
      rw [handed, hbuf]
      rfl
    refine ⟨fun m hm => ?_, by simp, by simp, fun a ha hgone => ?_, by simp⟩
    · rw [handed, hhanded] at hm
      exact h.genuine m hm
    · rw [handed, hhanded]
      exact h.deleted a ha hgone

theorem handed_of_reachable (h : machine.Reachable G s) : s.Handed := by
  refine h.invariant ?_ fun _ _ _ hr hi _ hn => hi.step (sound_of_reachable hr) (step_of_next hn)
  rintro _ ⟨config, producer, consumer, rfl⟩
  exact ⟨by simp [start, handed, MessageConsumer.ofConfig], by simp [start], by simp [start],
    by simp [start], by simp [start]⟩

theorem Step.moves (hs : Step s e s') (h : s.Handed) : s.process.Moves s'.process := by
  cases hs with
  | xadd | getNext | getNextAgain | markConsumed | markConsumedAgain | signal | join => exact .stay
  | consume => exact .consume
  | save hk => exact .save hk
  | destroy => exact .destroy
  | exit => exact .exit
  | restart hpc => exact .restart (h.closed (Or.inr hpc))

theorem lots_of_reachable (h : machine.Reachable G s) : s.process.Lots := by
  refine h.invariant (I := fun s => s.process.Lots) ?_ fun _ _ _ hr hl _ hn =>
    hl.moves ((step_of_next hn).moves (handed_of_reachable hr))
  rintro _ ⟨config, producer, consumer, rfl⟩
  exact ⟨[], by simp [start, process], by simp [start, process]⟩

/-- **What is handed over and what is deleted.**  In every run, whatever the ids and the outcomes of
the calls: what was handed to the consumer are messages of entries that were appended; an entry that
is not in the stream any more has the id that comes out of the packed id of something handed over;
so an entry whose id packing spoils stays in the stream for good. -/
theorem handed_genuine (h : machine.Reachable Machine.anyStep s) :
    (∀ m ∈ s.handed, ∃ entry ∈ s.log, m = messageOf entry) ∧
    (∀ entry ∈ s.log, entry ∉ s.entries → ∃ m ∈ s.handed, unpackId m.id = entry.id) ∧
    ∀ entry ∈ s.log, ¬ Packable entry.id → entry ∈ s.entries := by
  have hs := handed_of_reachable h
  refine ⟨hs.genuine, hs.deleted, fun entry hentry hspoilt => ?_⟩
  by_contra hgone
  obtain ⟨m, -, hid⟩ := hs.deleted entry hentry hgone
  exact hspoilt (hid ▸ RedisProducer.packable_unpackId m.id)

/-- Two entries, the second with a sequence number that does not fit: it is read again and again. -/
theorem handed_genuine_sample : ∃ s : RedisBack, s.handed.length = 3 ∧ s.entries.length = 1 ∧
    ∀ entry ∈ s.log, ¬ Packable entry.id → entry ∈ s.entries := by
  let run : List Event := [.xadd 5 [97], .xadd 4398046511104 [98], .getNext .fine, .consume,
    .markConsumed .fine, .getNext .fine, .consume]
  obtain ⟨s, hr, hhanded, hentries⟩ := Machine.exists_of_runIf (M := machine)
    (G := Machine.anyStep) (P := fun s => s.handed.length = 3 ∧ s.entries.length = 1)
    ⟨⟨[], []⟩, {}, { outputFolder := [] }, rfl⟩ run (by decide +kernel)
  exact ⟨s, hhanded, hentries, (handed_genuine hr).2.2⟩

/-! ### As on PostgreSQL -/

theorem allows_any : Allows Machine.anyStep Machine.anyStep :=
  ⟨fun _ _ _ => trivial, fun _ _ _ _ _ _ => trivial, fun _ _ _ _ _ _ => trivial,
    fun _ _ _ _ _ => trivial, fun _ _ _ _ => trivial⟩

theorem allows_acks : Allows AcksExecuted GwBack.AcksSucceed where
  free t e he := by rintro rfl; cases he
  throws s t e _ hg hacks := absurd hg hacks
  save s t k good _ _ := by simp [GwBack.AcksSucceed]
  destroy s t good _ _ := by simp [GwBack.AcksSucceed]
  exit s t _ _ := by simp [GwBack.AcksSucceed]

/-- **The two back ends.**  As long as packing loses nothing of the ids, every state the back end on
Redis reaches stands for a state that the back end on PostgreSQL reaches, with the stream as its
table and the same consumer, chunks, saves and files.  If the server executes the `XDEL` of every
acknowledgement, whatever the call returns, then no acknowledgement fails there. -/
theorem refines (hpack : s.AllPackable) :
    (machine.Reachable Machine.anyStep s →
      ∃ t, GwBack.machine.Reachable Machine.anyStep t ∧ Sim s t) ∧
    (machine.Reachable AcksExecuted s →
      ∃ t, GwBack.machine.Reachable GwBack.AcksSucceed t ∧ Sim s t) :=
  ⟨fun h => sim_of_reachable allows_any h hpack, fun h => sim_of_reachable allows_acks h hpack⟩

/-- The reply to an `XDEL` is lost, so the call throws, and yet the entry is acknowledged. -/
def lostReply : List Event :=
  [.xadd 5 [97], .getNext .fine, .consume,
    .markConsumed { Outcomes.fine with first := .lost (some 6) .io [] }, .xadd 7 [98],
    .getNext .fine]

theorem refines_sample : ∃ (s : RedisBack) (t : GwBack), s.log.length = 2 ∧ s.entries.length = 1 ∧
    GwBack.machine.Reachable GwBack.AcksSucceed t ∧ Sim s t := by
  obtain ⟨s, hr, hpack, hlog, hentries⟩ := Machine.exists_of_runIf (M := machine)
    (G := AcksExecuted)
    (P := fun s => s.AllPackable ∧ s.log.length = 2 ∧ s.entries.length = 1)
    ⟨⟨[], []⟩, {}, { outputFolder := [] }, rfl⟩ lostReply (by decide +kernel)
  obtain ⟨t, ht, hsim⟩ := (refines hpack).2 hr
  exact ⟨s, t, hlog, hentries, ht, hsim⟩

/-- An entry of the log is determined by its id. -/
theorem Sound.eq_of_id_eq (hsound : s.Sound) {a b : Entry} (ha : a ∈ s.log) (hb : b ∈ s.log)
    (h : a.id = b.id) : a = b := by
  have hnodup : (s.log.map Entry.id).Nodup := by
    refine List.pairwise_map.2 (hsound.sorted.imp fun hlt heq => ?_)
    rw [heq] at hlt
    exact EntryId.lt_irrefl _ hlt
  exact List.inj_on_of_nodup_map hnodup ha hb h

/-- An entry of the log is determined by its message. -/
theorem eq_of_messageOf_eq (hsound : s.Sound) (hpack : s.AllPackable) {a b : Entry} (ha : a ∈ s.log)
    (hb : b ∈ s.log) (h : messageOf a = messageOf b) : a = b :=
  hsound.eq_of_id_eq ha hb
    (RedisProducer.packId_injective (hpack a ha) (hpack b hb) (Message.mk.inj h).1)

/-- An entry that is not in the stream any more is a row that was deleted. -/
theorem mem_deleted (hsound : s.Sound) (hpack : s.AllPackable) (hsim : Sim s t) {entry : Entry}
    (hentry : entry ∈ s.log) (hgone : entry ∉ s.entries) : messageOf entry ∈ t.table.deleted := by
  refine Table.mem_deleted.2 ⟨hsim.log ▸ List.mem_map_of_mem hentry, fun hrow => ?_⟩
  rw [hsim.rows] at hrow
  obtain ⟨a, ha, heq⟩ := List.mem_map.1 hrow
  exact hgone (eq_of_messageOf_eq hsound hpack (hsound.sublist.subset ha) hentry heq ▸ ha)

/-- The messages in the stream that the loop has not handed over. -/
def waiting (s : RedisBack) : Messages :=
  (s.entries.map messageOf).filter fun m => m.id ∉ s.pc.toPc.taken

/-- What waits and what was handed over is what was ever appended, each entry once. -/
theorem waiting_handed_perm (h : machine.Reachable AcksExecuted s) (hpack : s.AllPackable) :
    (s.waiting ++ s.handed).Perm (s.log.map messageOf) ∧ (s.log.map messageOf).Nodup := by
  obtain ⟨t, ht, hsim⟩ := sim_of_reachable allows_acks h hpack
  have htotal := (GwBack.balanced_of_reachable ht).total
  simp only [GwBack.toLedger, hsim.log, hsim.rows, hsim.pc, hsim.consumer, hsim.started] at htotal
  rw [add_assoc, Multiset.coe_add, Multiset.coe_add] at htotal
  have hperm := Multiset.coe_eq_coe.1 htotal
  exact ⟨(hperm.trans (List.perm_append_comm.append_left _)).symm, hsim.log ▸ t.table.log_nodup'⟩

/-- **Exactly once from Redis.**  In every run in which the server executes the `XDEL` of every
acknowledgement, whatever the calls return and however often their connection breaks, and in which
packing loses nothing of the ids, at every moment: the entries ever appended are those waiting in
the stream and those handed to the consumer, in the buffer or in a chunk, each of them once; an
entry that was deleted was handed over; and no two chunks get the same file name. -/
theorem handed_once (h : machine.Reachable AcksExecuted s) (hpack : s.AllPackable) :
    (s.log.map messageOf : Multiset Message) =
      (s.waiting : Multiset Message) + (s.handed : Multiset Message) ∧
    (s.log.map messageOf).Nodup ∧
    (∀ entry ∈ s.log, entry ∉ s.entries → messageOf entry ∈ s.handed) ∧
    (s.started.filterMap fileName?).Nodup := by
  obtain ⟨hperm, hnodup⟩ := waiting_handed_perm h hpack
  obtain ⟨t, ht, hsim⟩ := sim_of_reachable allows_acks h hpack
  refine ⟨?_, hnodup, fun entry hentry hgone => ?_, ?_⟩
  · rw [Multiset.coe_add]
    exact Multiset.coe_eq_coe.2 hperm.symm
  · have hdel := mem_deleted (sound_of_reachable h) hpack hsim hentry hgone
    rw [handed, List.mem_append, List.mem_flatten]
    rcases GwBack.handed_of_mem_deleted ht hdel with hm | ⟨c, hc, hm⟩
    · exact Or.inr (hsim.consumer ▸ hm)
    · exact Or.inl ⟨c, hsim.started ▸ hc, hm⟩
  · exact hsim.started ▸ GwBack.started_names_nodup ht

theorem handed_once_sample : ∃ s : RedisBack, s.log.length = 2 ∧ s.handed.length = 1 ∧
    (s.log.map messageOf : Multiset Message) =
      (s.waiting : Multiset Message) + (s.handed : Multiset Message) := by
  obtain ⟨s, hr, hpack, hlog, hhanded⟩ := Machine.exists_of_runIf (M := machine)
    (G := AcksExecuted)
    (P := fun s => s.AllPackable ∧ s.log.length = 2 ∧ s.handed.length = 1)
    ⟨⟨[], []⟩, {}, { outputFolder := [] }, rfl⟩ lostReply (by decide +kernel)
  exact ⟨s, hlog, hhanded, (handed_once hr hpack).1⟩

/-! ### Where a deleted entry is -/

/-- The message is in the buffer, in a save that has not finished, or in an output file. -/
def Held (s : RedisBack) (m : Message) : Prop :=
  m ∈ s.consumer.buffer ∨ (∃ save ∈ s.saving, m ∈ save.messages) ∨
    ∃ file ∈ s.files, m ∈ file.messages

/-- The entry of the message is deleted, or the consumer has it and the acknowledgement is under
way. -/
def Settled (s : RedisBack) (m : Message) : Prop :=
  m ∉ s.entries.map messageOf ∨ m.id ∈ s.pc.toPc.taken

/-- Writing `chunk` to `folder` truncates no settled message that the chunk does not contain.  As in
`Path`, a folder is spelled in one way. -/
def KeepsFiles (s : RedisBack) (chunk : Messages) (folder : Bytes) : Prop :=
  ∀ file ∈ s.files, file.folder = folder → SameRange file.messages chunk →
    ∀ m ∈ file.messages, s.Settled m → m ∈ chunk

/-- Every file can be opened, and `main` returns only when no thread is unfinished. -/
def Finishes (s : RedisBack) : Event → Prop
  | .save _ good | .destroy good => good = true
  | .exit => s.saving = []
  | _ => True

/-- The file that is opened keeps the settled messages. -/
def KeepsSettled (s : RedisBack) : Event → Prop
  | .save k _ => ∀ save ∈ s.saving[k]?, s.KeepsFiles save.messages save.folder
  | .destroy _ => s.KeepsFiles s.consumer.buffer s.consumer.outputFolder
  | _ => True

section Decidable

variable (s : RedisBack) (m : Message) (chunk : Messages) (folder : Bytes) (e : Event)

instance : Decidable (s.Held m) := inferInstanceAs (Decidable (_ ∨ _ ∨ _))

instance : Decidable (s.Settled m) := inferInstanceAs (Decidable (_ ∨ _))

instance : Decidable (s.KeepsFiles chunk folder) :=
  inferInstanceAs (Decidable (∀ file ∈ s.files, _))

instance : Decidable (s.Finishes e) :=
  match e with
  | .save _ good | .destroy good => inferInstanceAs (Decidable (good = true))
  | .exit => inferInstanceAs (Decidable (s.saving = []))
  | .xadd _ _ | .getNext _ | .getNextAgain _ | .consume | .markConsumed _ | .markConsumedAgain _
  | .signal | .join | .restart _ _ _ => isTrue trivial

instance : Decidable (s.KeepsSettled e) :=
  match e with
  | .save k _ =>
    inferInstanceAs (Decidable (∀ save ∈ s.saving[k]?, s.KeepsFiles save.messages save.folder))
  | .destroy _ =>
    inferInstanceAs (Decidable (s.KeepsFiles s.consumer.buffer s.consumer.outputFolder))
  | .xadd _ _ | .getNext _ | .getNextAgain _ | .consume | .markConsumed _ | .markConsumedAgain _
  | .signal | .join | .exit | .restart _ _ _ => isTrue trivial

end Decidable

theorem Sim.held {m : Message} (hsim : Sim s t) : t.Held m ↔ s.Held m := by
  simp only [GwBack.Held, GwBack.InFile, Held, hsim.consumer, hsim.saving, hsim.files]

theorem Sim.keepsFiles {chunk : Messages} {folder : Bytes} (hsim : Sim s t)
    (h : s.KeepsFiles chunk folder) : t.KeepsFiles chunk folder := by
  intro file hf hfolder hrange m hm hset
  rw [hsim.files] at hf
  rw [GwBack.Settled, hsim.rows, hsim.pc] at hset
  exact h file hf hfolder hrange m hm hset

/-- The guards say nothing about the other events. -/
theorem guards_of_unguarded {e : GwBack.Event} (he : Unguarded e = true) :
    t.AcksSucceed e ∧ t.OpensSucceed e ∧ t.SavesFinish e ∧ t.KeepsSettled e := by
  cases e <;> simp_all [Unguarded, GwBack.AcksSucceed, GwBack.OpensSucceed, GwBack.SavesFinish,
    GwBack.KeepsSettled]

theorem allows_opened : Allows (fun s e => s.AcksExecuted e ∧ s.Finishes e) GwBack.Opened where
  free t e he := by
    obtain ⟨hacks, hopens, hfinish, -⟩ := guards_of_unguarded he
    exact ⟨hacks, hopens, hfinish⟩
  throws s t e _ hg hacks := absurd hg.1 hacks
  save s t k good _ hg := ⟨by simp [GwBack.AcksSucceed], hg.2, nofun⟩
  destroy s t good _ hg := ⟨by simp [GwBack.AcksSucceed], hg.2, nofun⟩
  exit s t hsim hg := ⟨by simp [GwBack.AcksSucceed], trivial, fun _ => hsim.saving.trans hg.2⟩

theorem allows_careful : Allows (fun s e => s.Finishes e ∧ s.KeepsSettled e) GwBack.Careful where
  free t e he := (guards_of_unguarded he).2
  throws s t e _ _ _ := ⟨trivial, nofun, trivial⟩
  save s t k good hsim hg :=
    ⟨hg.1, nofun, fun save hsave => hsim.keepsFiles (hg.2 save (hsim.saving ▸ hsave))⟩
  destroy s t good hsim hg := by
    have hkeeps : t.KeepsFiles s.consumer.buffer s.consumer.outputFolder := hsim.keepsFiles hg.2
    rw [← hsim.consumer] at hkeeps
    exact ⟨hg.1, nofun, hkeeps⟩
  exit s t hsim hg := ⟨trivial, fun _ => hsim.saving.trans hg.1, trivial⟩

theorem held_of_careful (ht : GwBack.machine.Reachable GwBack.Careful t) (hsim : Sim s t)
    {m : Message} (hdel : m ∈ t.table.deleted) : s.Held m :=
  hsim.held.1 (GwBack.held_of_custody (GwBack.custody_of_reachable ht) hdel)

/-- An entry that is gone is held, even if acknowledgements fail. -/
theorem held_of_gone (h : machine.Reachable (fun s e => s.Finishes e ∧ s.KeepsSettled e) s)
    (hpack : s.AllPackable) {entry : Entry} (hentry : entry ∈ s.log) (hgone : entry ∉ s.entries) :
    s.Held (messageOf entry) := by
  obtain ⟨t, ht, hsim⟩ := sim_of_reachable allows_careful h hpack
  exact held_of_careful ht hsim (mem_deleted (sound_of_reachable h) hpack hsim hentry hgone)

/-- **After a stop** with an empty stream the files hold every entry ever appended, once. -/
theorem log_perm_files (h : machine.Reachable (fun s e => s.AcksExecuted e ∧ s.Finishes e) s)
    (hpack : s.AllPackable) (hpc : s.pc = .exited) (hentries : s.entries = []) :
    (s.log.map messageOf).Perm (s.files.flatMap OutputFile.messages) := by
  obtain ⟨t, ht, hsim⟩ := sim_of_reachable allows_opened h hpack
  rw [← hsim.log, ← hsim.files]
  refine GwBack.log_perm_files ht ?_ ?_
  · rw [hsim.pc, hpc]
    rfl
  · rw [hsim.rows, hentries, List.map_nil]

end RedisBack

end GatewayPoc
