import GatewayPoc.Core.Batches
import GatewayPoc.GwBack.RedisDelivery

/-!
# Entries that stop the delivery

An entry whose id packing spoils is handed over and stays in the stream, because the `XDEL` names
another id.  `getNext` always asks for the first entries of the stream, so as soon as these fill a
batch, the loop hands over the same batch for good, and nothing behind it.

* `RedisBack.SameChunk` : the program is started again with the same chunk size.
* `RedisBack.Stalled` : the stream starts with a full batch of such entries, and only they have been
  handed over (`Stalled.step`).
* **`RedisBack.stalls`** : every call of the consumer gets this batch.
-/

namespace GatewayPoc

namespace RedisBack

open RedisProducer (messagesStream messageOf unpackId Packable)

variable {s s' : RedisBack} {e : Event} {es : List Event} {n : UInt32} {head : List Entry}

/-- The program is not started again with another chunk size. -/
def SameChunk (n : UInt32) (_ : RedisBack) : Event → Prop
  | .restart _ producer _ => producer.chunkSize = n
  | _ => True

instance (n : UInt32) (s : RedisBack) (e : Event) : Decidable (SameChunk n s e) :=
  match e with
  | .restart _ producer _ => inferInstanceAs (Decidable (producer.chunkSize = n))
  | .xadd _ _ | .getNext _ | .getNextAgain _ | .consume | .markConsumed _ | .markConsumedAgain _
  | .save _ _ | .signal | .join | .destroy _ | .exit => isTrue trivial

/-- The calls of the consumer. -/
def consumed (es : List Event) : ℕ := es.count .consume

/-- The stream starts with `head`, a full batch, and since `before` was handed over, the consumer
has been given this batch `k` times. -/
structure Stalled (n : UInt32) (head : List Entry) (before : Messages) (k : ℕ) (s : RedisBack) :
    Prop where
  chunkSize : s.producer.chunkSize = n
  starts : head <+: s.entries
  fetched : ∀ b, s.pc = .fetched b → b = head.map messageOf
  given : s.handed = before ++ Machine.rounds (head.map messageOf) k

/-- An acknowledgement leaves the entries whose ids packing spoils. -/
theorem prefix_xdel (h : head <+: s.entries) (hspoilt : ∀ entry ∈ head, ¬ Packable entry.id)
    (messages : Messages) (applied : Bool) :
    head <+: (s.xdel messages applied messagesStream).entries := by
  rw [entries_xdel]
  split_ifs
  · have hfilter := h.filter fun entry =>
      decide (entry.id ∉ messages.map fun message => unpackId message.id)
    rwa [List.filter_eq_self.2 fun entry hentry => ?_] at hfilter
    refine decide_eq_true fun hid => hspoilt entry hentry ?_
    obtain ⟨m, -, hm⟩ := List.mem_map.1 hid
    exact hm ▸ RedisProducer.packable_unpackId m.id
  · exact h

/-- What `getNext` returns is the batch again. -/
theorem Stalled.asked {before : Messages} {k : ℕ} (h : Stalled n head before k s)
    (hlen : head.length = n.toNat) {producer : RedisProducer} {pc : RedisPc}
    (ha : s.Asked producer pc) :
    Stalled n head before k { s with producer := producer, pc := pc } := by
  obtain ⟨hsize, hpc⟩ := ha
  refine ⟨hsize.trans h.chunkSize, h.starts, fun b hb => ?_, h.given⟩
  obtain rfl | rfl | ⟨rfl, -⟩ := hpc
  · cases hb
  · cases hb
  · rw [← RedisPc.fetched.inj hb, batch, h.chunkSize, ← hlen, ← List.prefix_iff_eq_take.1 h.starts]

/-- **A step hands over the batch, or nothing.** -/
theorem Stalled.step {before : Messages} {k : ℕ} (h : Stalled n head before k s)
    (hlen : head.length = n.toNat) (hspoilt : ∀ entry ∈ head, ¬ Packable entry.id)
    (hhanded : s.Handed) (hg : SameChunk n s e) (hs : Step s e s') :
    Stalled n head before (k + consumed [e]) s' := by
  have hsame : e ≠ .consume → k + consumed [e] = k := by
    intro he
    simp [consumed, he]
  cases hs with
  | @xadd now data =>
    rw [hsame (by simp)]
    obtain heq | ⟨entry, -, -, hentries, -, -⟩ := observe_xadd s now data
    · rw [heq]
      exact h
    · exact ⟨h.chunkSize, hentries ▸ h.starts.trans (List.prefix_append _ _), h.fetched, h.given⟩
  | getNext hpc hrun ha | getNextAgain hpc ha =>
    rw [hsame (by simp)]
    exact h.asked hlen ha
  | @consume messages hpc =>
    refine ⟨h.chunkSize, h.starts, by simp, ?_⟩
    rw [handed, handed_consume, h.given, h.fetched messages hpc, List.append_assoc]
    exact congrArg (before ++ ·) (Machine.rounds_succ _ _).symm
  | markConsumed hpc hproducer hpc' =>
    rw [hsame (by simp)]
    refine ⟨hproducer.trans h.chunkSize, prefix_xdel h.starts hspoilt _ _, fun b hb => ?_, h.given⟩
    obtain rfl | ⟨rfl, -⟩ := hpc' <;> cases hb
  | markConsumedAgain hpc hproducer =>
    rw [hsame (by simp)]
    exact ⟨hproducer.trans h.chunkSize, prefix_xdel h.starts hspoilt _ _, by simp, h.given⟩
  | save | signal =>
    rw [hsame (by simp)]
    exact ⟨h.chunkSize, h.starts, h.fetched, h.given⟩
  | join | exit =>
    rw [hsame (by simp)]
    exact ⟨h.chunkSize, h.starts, by simp, h.given⟩
  | destroy hpc =>
    rw [hsame (by simp)]
    refine ⟨h.chunkSize, h.starts, by simp, ?_⟩
    rw [← h.given]
    simp [handed]
  | @restart config producer consumer hpc =>
    rw [hsame (by simp)]
    refine ⟨hg, h.starts, by simp, ?_⟩
    rw [← h.given, handed, handed, hhanded.closed (Or.inr hpc)]
    rfl

/-- **A full batch of spoilt ids stops the delivery.**  From the head of the loop of any run, if the
first entries of the stream, as many as `getNext` asks for, have ids that packing does not keep: in
every run from there, whatever fails and whatever is appended, also over restarts with the same
chunk size, they stay the first entries, and every call of the consumer is given them again.  No
other entry is handed over. -/
theorem stalls (hreach : machine.Reachable Machine.anyStep s) (hpc : s.pc = .loop)
    (hhead : head <+: s.entries) (hlen : head.length = s.producer.chunkSize.toNat)
    (hspoilt : ∀ entry ∈ head, ¬ Packable entry.id)
    (hrun : machine.runIf (SameChunk s.producer.chunkSize) s es = some s') :
    head <+: s'.entries ∧
      s'.handed = s.handed ++ Machine.rounds (head.map messageOf) (consumed es) := by
  let I : List Event → RedisBack → Prop := fun es s₁ => machine.Reachable Machine.anyStep s₁ ∧
    Stalled s.producer.chunkSize head s.handed (consumed es) s₁
  have hstart : I [] s :=
    ⟨hreach, rfl, hhead, fun b hb => by simp [hpc] at hb, (List.append_nil _).symm⟩
  obtain ⟨-, hstalled⟩ := Machine.runIf_induction hstart (fun es e s₁ s₂ h hg hn => by
    refine ⟨.step h.1 trivial hn, ?_⟩
    rw [show consumed (es ++ [e]) = consumed es + consumed [e] from List.count_append]
    exact h.2.step hlen hspoilt (handed_of_reachable h.1) hg (step_of_next hn)) hrun
  exact ⟨hstalled.starts, hstalled.given⟩

/-- A clock that was far ahead once gives an id that packing spoils, and all later ids are larger:
the first entry is handed over again and again, also after a restart. -/
theorem stalls_sample : ∃ (s s' : RedisBack) (head : List Entry) (es : List Event),
    s'.entries.length = 2 ∧ consumed es = 2 ∧
      s'.handed = s.handed ++ Machine.rounds (head.map messageOf) 2 := by
  let es : List Event := [.getNext .fine, .consume, .xadd 6 [98], .markConsumed .fine, .signal,
    .join, .destroy true, .exit,
    .restart ⟨[], []⟩ { chunkSize := 1 } { outputFolder := [] }, .getNext .fine, .consume]
  let s₀ : RedisBack := start ⟨[], []⟩ { chunkSize := 1 } { outputFolder := [] }
  have hrun : (machine.runIf Machine.anyStep s₀ [.xadd 4398046511104 [97]]).any (fun s =>
      decide (s.pc = .loop ∧ s.entries.length = s.producer.chunkSize.toNat ∧
        (∀ entry ∈ s.entries, ¬ Packable entry.id) ∧
        (machine.runIf (SameChunk s.producer.chunkSize) s es).any (fun s' =>
          decide (s'.entries.length = 2)) = true)) = true := by decide +kernel
  obtain ⟨s, hs, hP⟩ := (Option.any_eq_true _ _).1 hrun
  obtain ⟨hpc, hlen, hspoilt, hany⟩ := of_decide_eq_true hP
  obtain ⟨s', hs', hentries⟩ := (Option.any_eq_true _ _).1 hany
  have hreach : machine.Reachable Machine.anyStep s :=
    Machine.reachable_of_runIf (.init ⟨_, _, _, rfl⟩) hs
  exact ⟨s, s', s.entries, es, of_decide_eq_true hentries, rfl,
    (stalls hreach hpc (List.prefix_refl _) hlen hspoilt hs').2⟩

end RedisBack

end GatewayPoc
