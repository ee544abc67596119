import GatewayPoc.GwBack.Consumer

/-!
# Chunks and batches

`runLoop` gives `MessageConsumer` one batch after the other; the consumer cuts the messages into
chunks of its own size.  Where the batches end makes no difference.

* `MessageConsumer.callAll` : the calls of `operator()` on a sequence of batches.
* `MessageConsumer.callAll_eq` : they do what one call on all the messages would do.
* `MessageConsumer.Filling` : the buffer is shorter than a chunk.  A message keeps this
  (`Filling.push`), and what it flushes is a whole chunk (`push_chunk_length`).
* `MessageConsumer.chunks_independent` : what is flushed, and that it depends on the messages only.
-/

namespace GatewayPoc

namespace MessageConsumer

/-- `operator()` on one batch after the other: the consumer afterwards and the chunks flushed. -/
def callAll (c : MessageConsumer) : List Messages → MessageConsumer × List Messages
  | [] => (c, [])
  | batch :: batches =>
    let r := c.call batch
    let rest := callAll r.consumer batches
    (rest.1, r.flushed ++ rest.2)

/-! ### Batches -/

theorem pushAll_append (c : MessageConsumer) (as bs : Messages) :
    c.pushAll (as ++ bs) =
      (((c.pushAll as).1.pushAll bs).1, (c.pushAll as).2 ++ ((c.pushAll as).1.pushAll bs).2) := by
  induction as generalizing c with
  | nil => simp [pushAll]
  | cons m as ih => simp [pushAll, ih]

/-- Where the batches end makes no difference. -/
theorem callAll_eq (c : MessageConsumer) (batches : List Messages) :
    c.callAll batches = c.pushAll batches.flatten := by
  induction batches generalizing c with
  | nil => rfl
  | cons batch batches ih => rw [callAll, ih, List.flatten_cons, pushAll_append, call]

/-! ### The length of the chunks -/

/-- The buffer is shorter than a chunk. -/
def Filling (c : MessageConsumer) : Prop := c.buffer.length < c.chunkSize.toNat

variable {c : MessageConsumer} {m : Message} {messages chunk : Messages}

theorem push_chunkSize (c : MessageConsumer) (m : Message) :
    (c.push m).1.chunkSize = c.chunkSize := by
  unfold push
  dsimp only
  split_ifs <;> rfl

theorem Filling.push (h : c.Filling) : (c.push m).1.Filling := by
  unfold Filling at h ⊢
  unfold MessageConsumer.push
  dsimp only
  split_ifs with hfull
  · exact Nat.lt_of_le_of_lt (Nat.zero_le _) h
  · exact Nat.lt_of_not_le hfull

/-- The buffer is flushed as soon as it has the length of a chunk. -/
theorem push_chunk_length (h : c.Filling) (hflush : (c.push m).2 = some chunk) :
    chunk.length = c.chunkSize.toNat := by
  unfold Filling at h
  unfold MessageConsumer.push at hflush
  dsimp only at hflush
  split_ifs at hflush with hfull
  obtain rfl := Option.some.inj hflush
  rw [List.length_append, List.length_singleton] at hfull ⊢
  omega

theorem pushAll_chunkSize (c : MessageConsumer) (messages : Messages) :
    (c.pushAll messages).1.chunkSize = c.chunkSize := by
  induction messages generalizing c with
  | nil => rfl
  | cons m messages ih =>
    rw [pushAll]
    exact (ih _).trans (push_chunkSize c m)

theorem Filling.pushAll (h : c.Filling) (messages : Messages) : (c.pushAll messages).1.Filling := by
  induction messages generalizing c with
  | nil => exact h
  | cons m messages ih => exact ih h.push

theorem pushAll_chunk_length (h : c.Filling) (hchunk : chunk ∈ (c.pushAll messages).2) :
    chunk.length = c.chunkSize.toNat := by
  induction messages generalizing c with
  | nil => simp [MessageConsumer.pushAll] at hchunk
  | cons m messages ih =>
    simp only [MessageConsumer.pushAll, List.mem_append, Option.mem_toList] at hchunk
    rcases hchunk with hchunk | hchunk
    · exact push_chunk_length h hchunk
    · rw [← push_chunkSize c m]
      exact ih h.push hchunk

/-! ### Chunking -/

/-- **Chunking** of any sequence of batches, from the empty buffer: the flushed chunks and then the
buffer are the messages of the batches, in order and unchanged; every chunk has the length of a
chunk and the buffer is shorter; other batches with the same messages give the same chunks and the
same buffer; and every call leaves the vector of the caller its length and its ids. -/
theorem chunks_independent (config : ConsumerConfig) (h : 1 ≤ config.chunkSize.toNat)
    (batches : List Messages) :
    let r := (ofConfig config).callAll batches
    r.2.flatten ++ r.1.buffer = batches.flatten ∧
      (∀ chunk ∈ r.2, chunk.length = config.chunkSize.toNat) ∧
      r.1.buffer.length < config.chunkSize.toNat ∧
      (∀ batches', batches'.flatten = batches.flatten → (ofConfig config).callAll batches' = r) ∧
      ∀ (c : MessageConsumer) (batch : Messages),
        (c.call batch).messages.length = batch.length ∧
          (c.call batch).messages.map Message.id = batch.map Message.id := by
  intro r
  have hr : r = (ofConfig config).pushAll batches.flatten := callAll_eq _ _
  have hfilling : (ofConfig config).Filling := h
  refine ⟨?_, ?_, ?_, ?_, ?_⟩
  · rw [hr]
    exact pushAll_flatten (ofConfig config) batches.flatten
  · intro chunk hchunk
    rw [hr] at hchunk
    exact pushAll_chunk_length hfilling hchunk
  · have hsize : r.1.chunkSize = config.chunkSize := hr ▸ pushAll_chunkSize _ _
    have hend : r.1.Filling := hr ▸ hfilling.pushAll _
    exact hsize ▸ hend
  · intro batches' heq
    rw [hr, callAll_eq, heq]
  · exact fun c batch => ⟨List.length_map _, call_messages_ids c batch⟩

/-- Three batches in chunks of two. -/
theorem chunks_independent_sample :
    let config : ConsumerConfig := { chunkSize := 2, outputFolder := [] }
    let batches : List Messages := [[⟨1, [97]⟩], [⟨2, [98]⟩, ⟨3, [99]⟩, ⟨4, []⟩], [⟨5, [100]⟩]]
    ((ofConfig config).callAll batches).2.flatten ++ ((ofConfig config).callAll batches).1.buffer =
      batches.flatten ∧ ((ofConfig config).callAll batches).2.length = 2 := by
  intro config batches
  exact ⟨(chunks_independent config (by decide) batches).1, by decide⟩

end MessageConsumer

end GatewayPoc
