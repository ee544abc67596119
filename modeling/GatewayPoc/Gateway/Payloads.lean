import GatewayPoc.GwBack.RedisProducer
import GatewayPoc.GwFront.RedisWriter

/-!
# Payloads through Redis

The front end writes a payload with `XADD`, the back end reads it with `XRANGE`.  They are separate
programs that have to agree on the name of the stream and of the field.

* `payload_round_trip` : the reader makes one message of every entry, with the value of the first
  field `data`, and so gives back every payload the writer has added.
-/

namespace GatewayPoc

/-- The message of an entry that `RedisWriter` adds. -/
theorem messageOf_of_fields {entry : Entry} {data : Bytes}
    (h : entry.fields = [(RedisWriter.dataField, data)]) :
    RedisProducer.messageOf entry = ⟨RedisProducer.packId entry.id, data⟩ := by
  have hfield : RedisWriter.dataField = RedisProducer.dataField := rfl
  simp [RedisProducer.messageOf, RedisProducer.dataOf, h, hfield]

/-- **Payloads through Redis.**  Of any entries with string ids and string fields the reader makes
one message each, in order, with the packed id and the value of the first field `data`, or nothing.
A payload that `write` was called with is in every entry the call adds, at least one if it returns
`OK`; and whenever `getNext` returns with such an entry among the first of the stream, the message
of this entry has the payload unchanged. -/
theorem payload_round_trip :
    (∀ entries : List (Bytes × List (Bytes × Bytes)),
      RedisProducer.messagesFromReply
          (.array (entries.map fun entry => RedisProducer.replyOfEntry entry.1 entry.2)) =
        .ok (entries.map fun entry =>
          ⟨RedisProducer.packText entry.1, RedisProducer.dataOf entry.2⟩)) ∧
    ∀ (w : RedisWriter) (threadId : ℕ) (o : Outcomes) (data : Bytes) (db : Streams),
      let r := w.write threadId o data db
      ∃ new : List Entry,
        (r.db RedisWriter.messagesStream).entries =
            (db RedisWriter.messagesStream).entries ++ new ∧
          (r.result.error = .ok → new ≠ []) ∧
          ∀ (p : RedisProducer) (o' : Outcomes) (db' : Streams) (messages : Messages) (i : ℕ),
            (p.getNext o' db').result = .ok messages → i < p.chunkSize.toNat →
              ∀ entry ∈ new, (db' RedisProducer.messagesStream).entries[i]? = some entry →
                messages[i]? = some ⟨RedisProducer.packId entry.id, data⟩ := by
  refine ⟨RedisProducer.messagesFromReply_replyOfEntry, ?_⟩
  intro w threadId o data db r
  obtain ⟨new, hentries, hlen, hfields⟩ :=
    (RedisWriter.write_appended w threadId o data db).entries
  refine ⟨new, hentries, fun hok => ?_, ?_⟩
  · -- the last attempt was executed, so there is an entry
    obtain ⟨a, hlast, happ⟩ := RedisWriter.write_ok_applied hok
    have hpos : 0 < (w.write threadId o data db).attempts.countP (·.applied) :=
      List.countP_pos_iff.2 ⟨a, List.mem_of_getLast? hlast, happ⟩
    rw [← hlen] at hpos
    exact List.ne_nil_of_length_pos hpos
  · intro p o' db' messages i hnext hi entry hentry hget
    obtain ⟨hmessages, -⟩ := RedisProducer.getNext_ok hnext
    rw [hmessages, List.getElem?_map, List.getElem?_take_of_lt hi, hget, Option.map_some,
      messageOf_of_fields (hfields entry hentry)]

/-- A payload behind another one, added by a call whose first attempt met an old error. -/
theorem payload_round_trip_sample : ∃ (db : Streams) (messages : Messages) (id : UInt64),
    (db RedisProducer.messagesStream).entries.length = 2 ∧
      (RedisProducer.getNext ⟨⟨[], []⟩, 2, none⟩ .fine db).result = .ok messages ∧
      messages[1]? = some ⟨id, [98]⟩ := by
  let w : RedisWriter := ⟨⟨[], []⟩, [⟨1, ⟨some .eof, [], true⟩⟩]⟩
  let db := ((RedisWriter.mk ⟨[], []⟩ []).write 2 .fine [97] fun _ => .empty).db
  let r := w.write 1 .fine [98] db
  let p : RedisProducer := ⟨⟨[], []⟩, 2, none⟩
  obtain ⟨new, hentries, hne, hread⟩ := payload_round_trip.2 w 1 .fine [98] db
  obtain ⟨messages, hnext⟩ : ∃ messages, (p.getNext .fine r.db).result = .ok messages :=
    ⟨[⟨1, [97]⟩, ⟨2, [98]⟩], by decide +kernel⟩
  obtain ⟨entry, rest, rfl⟩ := List.exists_cons_of_ne_nil (hne (by decide +kernel))
  have hold : (db RedisWriter.messagesStream).entries.length = 1 := by decide +kernel
  have hget : (r.db RedisProducer.messagesStream).entries[1]? = some entry := by
    change (r.db RedisWriter.messagesStream).entries[1]? = some entry
    rw [hentries, List.getElem?_append_right hold.le, hold]
    rfl
  exact ⟨r.db, messages, RedisProducer.packId entry.id, by decide +kernel, hnext,
    hread p .fine r.db messages 1 hnext (by decide) entry List.mem_cons_self hget⟩

end GatewayPoc
