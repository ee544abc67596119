import GatewayPoc.Core.DecimalOrder
import GatewayPoc.GwBack.RedisProducer

/-!
# The codec of the Redis ids

`messageIdFromReply` packs the text of an entry id into 64 bits (`packText`) and `makeXdelCommand`
prints what it finds in them (`unpackText`).

* `RedisProducer.packText_unpackText` : packing undoes printing, for every 64-bit value.
* `RedisProducer.Canonical` : the texts the codec is made for, two decimal numbers without
  superfluous leading zeros, of at most 42 and 22 bits.
* `RedisProducer.id_codec` : these are exactly the texts that survive packing, and packing keeps
  their order.
-/

namespace GatewayPoc

namespace RedisProducer

/-- `s` is `ts-seq`: two decimal numbers without superfluous leading zeros that fit into 42 and 22
bits. -/
def Canonical (s : Bytes) (ts seq : ℕ) : Prop :=
  ∃ a b : Bytes, s = a ++ dash :: b ∧ Decimal.IsNumeral a ∧ Decimal.IsNumeral b ∧
    Decimal.value a = ts ∧ Decimal.value b = seq ∧ ts < 2 ^ 42 ∧ seq < 2 ^ 22

theorem packId_unpackId (id : UInt64) : packId (unpackId id) = id := by
  rw [← UInt64.toNat_inj, packId_toNat (packable_unpackId id), unpackId_ms_toNat,
    unpackId_seq_toNat]
  omega

/-- Packing undoes printing. -/
theorem packText_unpackText (id : UInt64) : packText (unpackText id) = id := by
  rw [unpackText_eq, packText_text, packId_unpackId]

/-- The canonical texts are those of the packable ids. -/
theorem canonical_iff {s : Bytes} {ts seq : ℕ} : Canonical s ts seq ↔
    ∃ id : EntryId, Packable id ∧ s = id.text ∧ id.ms.toNat = ts ∧ id.seq.toNat = seq := by
  constructor
  · rintro ⟨a, b, rfl, ha, hb, rfl, rfl, hts, hseq⟩
    obtain ⟨ms, rfl⟩ := Decimal.isNumeral_iff.1 ha
    obtain ⟨sq, rfl⟩ := Decimal.isNumeral_iff.1 hb
    rw [Decimal.value_text] at hts hseq
    have hms : (UInt64.ofNat ms).toNat = ms :=
      UInt64.toNat_ofNat_of_lt' (Nat.lt_trans hts (by decide))
    have hsq : (UInt64.ofNat sq).toNat = sq :=
      UInt64.toNat_ofNat_of_lt' (Nat.lt_trans hseq (by decide))
    refine ⟨⟨UInt64.ofNat ms, UInt64.ofNat sq⟩, ?_, ?_, ?_, ?_⟩
    · exact ⟨hms.trans_lt hts, hsq.trans_lt hseq⟩
    · rw [EntryId.text, hms, hsq]
    · rw [hms, Decimal.value_text]
    · rw [hsq, Decimal.value_text]
  · rintro ⟨id, hpack, rfl, rfl, rfl⟩
    exact ⟨_, _, rfl, Decimal.isNumeral_text _, Decimal.isNumeral_text _, Decimal.value_text _,
      Decimal.value_text _, hpack.1, hpack.2⟩

theorem packText_toNat {s : Bytes} {ts seq : ℕ} (h : Canonical s ts seq) :
    (packText s).toNat = ts * 2 ^ 22 + seq := by
  obtain ⟨id, hpack, rfl, rfl, rfl⟩ := canonical_iff.1 h
  rw [packText_text, packId_toNat hpack]

/-- Printing undoes packing exactly for the canonical texts. -/
theorem unpackText_packText_iff (s : Bytes) :
    unpackText (packText s) = s ↔ ∃ ts seq, Canonical s ts seq := by
  constructor
  · intro h
    rw [unpackText_eq] at h
    exact ⟨_, _, canonical_iff.2 ⟨_, packable_unpackId _, h.symm, rfl, rfl⟩⟩
  · rintro ⟨ts, seq, h⟩
    obtain ⟨id, hpack, rfl, -, -⟩ := canonical_iff.1 h
    rw [packText_text, unpackText_eq, unpackId_packId hpack]

/-- **The codec of the ids.**  Packing undoes printing for every 64-bit id; printing undoes packing
exactly for the canonical texts; and on these packing keeps the lexicographic order of the two
numbers, and tells them apart. -/
theorem id_codec :
    (∀ id, packText (unpackText id) = id) ∧
      (∀ s, unpackText (packText s) = s ↔ ∃ ts seq, Canonical s ts seq) ∧
      ∀ s t ts seq ts' seq', Canonical s ts seq → Canonical t ts' seq' →
        (packText s < packText t ↔ ts < ts' ∨ (ts = ts' ∧ seq < seq')) ∧
          (packText s = packText t → s = t) := by
  refine ⟨packText_unpackText, unpackText_packText_iff, ?_⟩
  intro s t ts seq ts' seq' hs ht
  have hseq : seq < 2 ^ 22 := by
    obtain ⟨-, -, -, -, -, -, -, -, hseq⟩ := hs
    exact hseq
  have hseq' : seq' < 2 ^ 22 := by
    obtain ⟨-, -, -, -, -, -, -, -, hseq'⟩ := ht
    exact hseq'
  constructor
  · rw [UInt64.lt_iff_toNat_lt, packText_toNat hs, packText_toNat ht]
    omega
  · intro h
    rw [← (unpackText_packText_iff s).2 ⟨ts, seq, hs⟩, h,
      (unpackText_packText_iff t).2 ⟨ts', seq', ht⟩]

end RedisProducer

end GatewayPoc
