import GatewayPoc.Core.Decimal
import Mathlib.Data.List.Nodup
import Mathlib.Logic.Function.Basic

/-!
# The Redis server

What the gateway relies on in Redis: streams of entries with strictly increasing ids, the commands
`XADD`, `XRANGE` and `XDEL` on them, and the replies as `hiredis` hands them over.

* `EntryId` : a pair of 64-bit numbers, ordered lexicographically, printed as `ms-seq`.
  `parse?_text` : the server reads back what it prints.
* `Stream` : the entries of a stream, with its order.  `Stream.xadd` gives a new entry the time of
  the server, or the successor of the last id when the clock does not run ahead of it.
* `Command.ofArgs`, `Streams.exec` : the server reads the words of a command and executes it.
-/

namespace GatewayPoc

/-! ### Replies -/

/-- `redisReply`. -/
inductive RedisReply where
  | string (str : Bytes)
  | array (element : List RedisReply)
  | integer (integer : ℤ)
  | nil
  | status (str : Bytes)
  | error (str : Bytes)
  | double (str : Bytes)
  | bool (integer : ℤ)
  | map (element : List RedisReply)
  | set (element : List RedisReply)
  | attr (element : List RedisReply)
  | push (element : List RedisReply)
  | bignum (str : Bytes)
  | verb (str : Bytes)

/-- The number of a type, `REDIS_REPLY_STRING` and so on. -/
def RedisReply.type : RedisReply → ℕ
  | .string _ => 1
  | .array _ => 2
  | .integer _ => 3
  | .nil => 4
  | .status _ => 5
  | .error _ => 6
  | .double _ => 7
  | .bool _ => 8
  | .map _ => 9
  | .set _ => 10
  | .attr _ => 11
  | .push _ => 12
  | .bignum _ => 13
  | .verb _ => 14

/-- The reply is a `REDIS_REPLY_ERROR`. -/
def RedisReply.isError : RedisReply → Bool
  | .error _ => true
  | _ => false

/-! ### Entry ids -/

/-- The id of a stream entry. -/
structure EntryId where
  ms : UInt64
  seq : UInt64
  deriving DecidableEq, Repr

/-- A number in an argument, if it fits into 64 bits. -/
def number? (digits : Bytes) : Option UInt64 :=
  if digits ≠ [] ∧ digits.all Decimal.isDigit ∧ Decimal.value digits < 2 ^ 64 then
    some (UInt64.ofNat (Decimal.value digits))
  else none

namespace EntryId

/-- Ids are ordered by time and then by sequence number. -/
instance : LT EntryId := ⟨fun a b => a.ms < b.ms ∨ (a.ms = b.ms ∧ a.seq < b.seq)⟩

instance (a b : EntryId) : Decidable (a < b) := inferInstanceAs (Decidable (_ ∨ _))

theorem lt_def {a b : EntryId} : a < b ↔ a.ms < b.ms ∨ (a.ms = b.ms ∧ a.seq < b.seq) := Iff.rfl

theorem lt_irrefl (a : EntryId) : ¬ a < a := by
  rintro (h | ⟨-, h⟩) <;> exact absurd h (UInt64.lt_irrefl _)

theorem lt_trans {a b c : EntryId} (h : a < b) (h' : b < c) : a < c := by
  rw [lt_def, UInt64.lt_iff_toNat_lt, UInt64.lt_iff_toNat_lt, ← UInt64.toNat_inj] at *
  omega

/-- `ms-seq`. -/
def text (id : EntryId) : Bytes :=
  Decimal.text id.ms.toNat ++ dash :: Decimal.text id.seq.toNat

/-- The id an argument names; the sequence number may be missing. -/
def parse? (arg : Bytes) : Option EntryId :=
  match arg.dropWhile Decimal.isDigit with
  | [] => (number? arg).map fun ms => ⟨ms, 0⟩
  | sep :: seq =>
    if sep = dash then
      (number? (arg.takeWhile Decimal.isDigit)).bind fun ms =>
        (number? seq).map fun seq => ⟨ms, seq⟩
    else none

end EntryId

theorem number?_text (n : UInt64) : number? (Decimal.text n.toNat) = some n := by
  have hall : (Decimal.text n.toNat).all Decimal.isDigit = true :=
    List.all_eq_true.2 Decimal.isDigit_of_mem_text
  have hlt := n.toNat_lt
  rw [number?, if_pos ⟨Decimal.text_ne_nil _, hall, by rwa [Decimal.value_text]⟩,
    Decimal.value_text, UInt64.ofNat_toNat]

/-- Reading an id undoes printing it. -/
theorem EntryId.parse?_text (id : EntryId) : parse? id.text = some id := by
  have hdrop : id.text.dropWhile Decimal.isDigit = dash :: Decimal.text id.seq.toNat := by
    rw [text, List.dropWhile_append_of_pos Decimal.isDigit_of_mem_text,
      List.dropWhile_cons_of_neg (by simp [Decimal.isDigit_dash])]
  have htake : id.text.takeWhile Decimal.isDigit = Decimal.text id.ms.toNat :=
    Decimal.takeWhile_digits _ Decimal.isDigit_of_mem_text Decimal.isDigit_dash
  simp [parse?, hdrop, htake, number?_text]

/-! ### Streams -/

/-- An entry of a stream. -/
structure Entry where
  id : EntryId
  fields : List (Bytes × Bytes)
  deriving DecidableEq, Repr

/-- A stream: its entries in the order of their ids, and the last id given. -/
structure Stream where
  entries : List Entry
  lastId : EntryId
  sorted : entries.Pairwise fun a b => a.id < b.id
  le_lastId : ∀ entry ∈ entries, entry.id = lastId ∨ entry.id < lastId

namespace Stream

/-- A stream that was never written to. -/
def empty : Stream := ⟨[], ⟨0, 0⟩, .nil, by simp⟩

/-- The id of the next entry at time `now`; there is none after the largest id. -/
def nextId? (s : Stream) (now : UInt64) : Option EntryId :=
  if s.lastId.ms < now then some ⟨now, 0⟩
  else if s.lastId.seq.toNat + 1 < 2 ^ 64 then some ⟨s.lastId.ms, s.lastId.seq + 1⟩
  else if s.lastId.ms.toNat + 1 < 2 ^ 64 then some ⟨s.lastId.ms + 1, 0⟩
  else none

theorem lt_of_nextId? {s : Stream} {now : UInt64} {id : EntryId} (h : s.nextId? now = some id) :
    s.lastId < id := by
  unfold nextId? at h
  split_ifs at h with h₁ h₂ h₃ <;> obtain rfl := Option.some.inj h
  · exact Or.inl h₁
  · refine Or.inr ⟨rfl, UInt64.lt_iff_toNat_lt.2 ?_⟩
    rw [UInt64.toNat_add, Nat.mod_eq_of_lt (by simpa using h₂)]
    simp
  · refine Or.inl (UInt64.lt_iff_toNat_lt.2 ?_)
    rw [UInt64.toNat_add, Nat.mod_eq_of_lt (by simpa using h₃)]
    simp

/-- The stream with a new entry at the end. -/
def append (s : Stream) (entry : Entry) (h : s.lastId < entry.id) : Stream where
  entries := s.entries ++ [entry]
  lastId := entry.id
  sorted := by
    refine List.pairwise_append.2 ⟨s.sorted, List.pairwise_singleton _ _, fun a ha b hb => ?_⟩
    rw [List.mem_singleton.1 hb]
    rcases s.le_lastId a ha with hle | hlt
    · exact hle ▸ h
    · exact EntryId.lt_trans hlt h
  le_lastId := by
    intro a ha
    rcases List.mem_append.1 ha with ha | ha
    · refine Or.inr ?_
      rcases s.le_lastId a ha with hle | hlt
      · exact hle ▸ h
      · exact EntryId.lt_trans hlt h
    · exact Or.inl (by rw [List.mem_singleton.1 ha])

/-- `XADD key * field value ...` at time `now`. -/
def xadd (s : Stream) (now : UInt64) (fields : List (Bytes × Bytes)) : Option (EntryId × Stream) :=
  match h : s.nextId? now with
  | some id => some (id, s.append ⟨id, fields⟩ (lt_of_nextId? h))
  | none => none

/-- `XRANGE key - + COUNT count`. -/
def xrange (s : Stream) (count : ℕ) : List Entry := s.entries.take count

/-- `XDEL key id ...`. -/
def xdel (s : Stream) (ids : List EntryId) : Stream where
  entries := s.entries.filter fun entry => entry.id ∉ ids
  lastId := s.lastId
  sorted := s.sorted.filter _
  le_lastId := fun entry h => s.le_lastId entry (List.mem_filter.1 h).1

theorem xadd_entries {s s' : Stream} {now : UInt64} {fields : List (Bytes × Bytes)} {id : EntryId}
    (h : s.xadd now fields = some (id, s')) : s'.entries = s.entries ++ [⟨id, fields⟩] := by
  unfold xadd at h
  split at h
  · obtain ⟨rfl, rfl⟩ := Prod.mk.inj (Option.some.inj h)
    rfl
  · cases h

/-- The entries that are deleted go, the others stay. -/
theorem xdel_xdel (s : Stream) (ids : List EntryId) :
    ((s.xdel ids).xdel ids).entries = (s.xdel ids).entries := by
  simp [xdel]

theorem ids_nodup (s : Stream) : (s.entries.map Entry.id).Nodup := by
  refine List.pairwise_map.2 (s.sorted.imp ?_)
  intro a b hlt heq
  rw [heq] at hlt
  exact EntryId.lt_irrefl b.id hlt

/-- An entry is determined by its id. -/
theorem eq_of_id_eq {s : Stream} {a b : Entry} (ha : a ∈ s.entries) (hb : b ∈ s.entries)
    (h : a.id = b.id) : a = b :=
  List.inj_on_of_nodup_map s.ids_nodup ha hb h

end Stream

/-! ### Commands -/

/-- The commands the gateway sends. -/
inductive Command where
  | auth (user password : Bytes)
  | xadd (key field value : Bytes)
  | xrange (key : Bytes) (count : ℕ)
  | xdel (key : Bytes) (ids : List EntryId)
  deriving DecidableEq

/-- The command the words stand for; `none` for a wrong number of arguments, an invalid id, and
what the gateway never sends. -/
def Command.ofArgs : List Bytes → Option Command
  | [] => none
  | name :: args =>
    if name = ascii "AUTH" then
      match args with
      | [user, password] => some (.auth user password)
      | _ => none
    else if name = ascii "XADD" then
      match args with
      | [key, id, field, value] => if id = ascii "*" then some (.xadd key field value) else none
      | _ => none
    else if name = ascii "XRANGE" then
      match args with
      | [key, first, last, option, count] =>
        if first = ascii "-" ∧ last = ascii "+" ∧ option = ascii "COUNT" then
          (number? count).map fun count => .xrange key count.toNat
        else none
      | _ => none
    else if name = ascii "XDEL" then
      match args with
      | key :: id :: ids => ((id :: ids).mapM EntryId.parse?).map fun ids => .xdel key ids
      | _ => none
    else none

/-- The streams of the server by their keys; a key that does not exist is an empty stream. -/
abbrev Streams := Bytes → Stream

namespace Streams

/-- An entry in the reply to `XRANGE`. -/
def entryReply (entry : Entry) : RedisReply :=
  .array [.string entry.id.text,
    .array (entry.fields.flatMap fun field => [.string field.1, .string field.2])]

/-- The server executes a command at time `now`. -/
def exec (now : UInt64) (db : Streams) : Option Command → Streams × RedisReply
  | some (.auth _ _) => (db, .status (ascii "OK"))
  | some (.xadd key field value) =>
    match (db key).xadd now [(field, value)] with
    | some (id, stream) => (Function.update db key stream, .string id.text)
    | none => (db, .error (ascii "ERR The stream has exhausted the last possible ID"))
  | some (.xrange key count) =>
    -- a count of zero is answered with a null array
    if count = 0 then (db, .nil) else (db, .array (((db key).xrange count).map entryReply))
  | some (.xdel key ids) =>
    let stream := (db key).xdel ids
    (Function.update db key stream, .integer ((db key).entries.length - stream.entries.length))
  | none => (db, .error (ascii "ERR"))

/-- Exactly `n` entries with the given field were added at the end of the stream `key`, and
nothing else happened. -/
structure Appended (key field value : Bytes) (n : ℕ) (db db' : Streams) : Prop where
  entries : ∃ new : List Entry, (db' key).entries = (db key).entries ++ new ∧ new.length = n ∧
    ∀ entry ∈ new, entry.fields = [(field, value)]
  frame : ∀ k, k ≠ key → db' k = db k

theorem Appended.refl (key field value : Bytes) (db : Streams) :
    Appended key field value 0 db db :=
  ⟨⟨[], by simp⟩, fun _ _ => rfl⟩

theorem Appended.trans {key field value : Bytes} {m n : ℕ} {db db' db'' : Streams}
    (h : Appended key field value m db db') (h' : Appended key field value n db' db'') :
    Appended key field value (m + n) db db'' := by
  obtain ⟨new, he, hlen, hf⟩ := h.entries
  obtain ⟨new', he', hlen', hf'⟩ := h'.entries
  refine ⟨⟨new ++ new', ?_, ?_, ?_⟩, fun k hk => (h'.frame k hk).trans (h.frame k hk)⟩
  · rw [he', he, List.append_assoc]
  · rw [List.length_append, hlen, hlen']
  · intro entry hentry
    rcases List.mem_append.1 hentry with hentry | hentry
    · exact hf entry hentry
    · exact hf' entry hentry

/-- `XADD` adds one entry, or answers with an error. -/
theorem exec_xadd (now : UInt64) (key field value : Bytes) (db : Streams) :
    let r := db.exec now (some (.xadd key field value))
    Appended key field value (if r.2.isError then 0 else 1) db r.1 := by
  intro r
  cases h : (db key).xadd now [(field, value)] with
  | none =>
    have hr : r = (db, .error (ascii "ERR The stream has exhausted the last possible ID")) := by
      simp only [r, exec, h]
    rw [hr]
    exact Appended.refl key field value db
  | some p =>
    have hr : r = (Function.update db key p.2, .string p.1.text) := by
      simp only [r, exec, h]
    rw [hr]
    refine ⟨⟨[⟨p.1, [(field, value)]⟩], ?_, rfl, by simp⟩, ?_⟩
    · show (Function.update db key p.2 key).entries = _
      rw [Function.update_self, Stream.xadd_entries h]
    · exact fun k hk => Function.update_of_ne hk _ _

end Streams

end GatewayPoc
