import GatewayPoc.GwBack.Consumer
import GatewayPoc.Redis.Hiredis

/-!
# Reading messages from Redis

`gwback/src/producer/redis_producer.cpp`: `RedisProducer::getNext` reads the first entries of the
stream with `XRANGE` and packs the id of an entry into 64 bits, the time above 22 bits for the
sequence number; `markConsumed` unpacks the ids again for `XDEL`.

* `messagesFromReply` : the reply to `XRANGE` as messages.  `messagesFromReply_entries` : what it
  makes of the entries of a stream.
* `packId`, `unpackId` : the two directions.  `unpackId_packId_iff` : packing loses nothing exactly
  if the time is below `2 ^ 42` and the sequence number below `2 ^ 22`.
* `RedisProducer.getNext`, `RedisProducer.markConsumed` : the calls, with the outcome of every call
  of `hiredis` they make.
* `RedisProducer.acknowledged_iff` : acknowledging a batch deletes exactly its entries exactly if
  packing loses nothing.  `acknowledged_wrong` deletes an entry nobody has read.
-/

namespace GatewayPoc

/-- How a call ends without a result. -/
inductive Failure where
  /-- `std::runtime_error`. -/
  | runtimeError (what : Bytes)
  /-- An element is read that the array does not have. -/
  | outOfBounds
  deriving DecidableEq, Repr

/-- `RedisProducer`. -/
structure RedisProducer where
  config : RedisConfig
  chunkSize : UInt32
  connection : Option RedisContext
  deriving DecidableEq, Repr

namespace RedisProducer

/-- `MESSAGES_STREAM`. -/
def messagesStream : Bytes := ascii "messages"

/-- `DATA_FIELD`. -/
def dataField : Bytes := ascii "data"

/-- `TIMESTAMP_SHIFT`. -/
def timestampShift : UInt64 := 22

/-- `SEQUENCE_MASK`. -/
def sequenceMask : UInt64 := (1 <<< timestampShift) - 1

/-! ### Replies -/

/-- A loop of `messageIdFromReply` over digits: the number accumulated, and the rest of the
string. -/
def digitsLoop (acc : UInt64) : Bytes → UInt64 × Bytes
  | [] => (acc, [])
  | b :: bs =>
    if Decimal.isDigit b then digitsLoop (acc * 10 + (b - 48).toUInt64) bs else (acc, b :: bs)

/-- The number `messageIdFromReply` makes of an id. -/
def packText (str : Bytes) : UInt64 :=
  let ts := digitsLoop 0 str
  -- one byte is skipped, whatever it is
  let seq := digitsLoop 0 (ts.2.drop 1)
  (ts.1 <<< timestampShift) ||| seq.1

/-- The text of an error about a number. -/
def unexpected (what : String) (n : ℕ) : Failure :=
  .runtimeError (ascii what ++ Decimal.text n)

/-- `messageIdFromReply`. -/
def messageIdFromReply : RedisReply → Except Failure UInt64
  | .string str => .ok (packText str)
  | reply => .error (unexpected "Unexpected type of id reply: " reply.type)

/-- The loop of `messageDataFromReply`, in steps of two. -/
def dataFromFields : List RedisReply → Except Failure Bytes
  | [] => .ok []
  | [_] => .error .outOfBounds
  | fieldName :: fieldValue :: fields =>
    match fieldName, fieldValue with
    | .string name, .string value => if name = dataField then .ok value else dataFromFields fields
    | _, _ => dataFromFields fields

/-- `messageDataFromReply`. -/
def messageDataFromReply : RedisReply → Except Failure Bytes
  | .array element => dataFromFields element
  | reply => .error (unexpected "Unexpected type of data reply: " reply.type)

/-- One round of the loop of `messagesFromReply`. -/
def messageFromEntry : RedisReply → Except Failure Message
  | .array [idReply, dataReply] => do
    let id ← messageIdFromReply idReply
    let data ← messageDataFromReply dataReply
    return ⟨id, data⟩
  | .array element =>
    .error (unexpected "Unexpected size of Redis stream entry: " element.length)
  | entry => .error (unexpected "Unexpected type of Redis stream entry: " entry.type)

/-- The loop of `messagesFromReply`. -/
def messagesFromEntries : List RedisReply → Except Failure Messages
  | [] => .ok []
  | entry :: entries => do
    let message ← messageFromEntry entry
    let messages ← messagesFromEntries entries
    return message :: messages

/-- `messagesFromReply`. -/
def messagesFromReply : RedisReply → Except Failure Messages
  | .array element => messagesFromEntries element
  | reply => .error (unexpected "Unexpected type of Redis reply: " reply.type)

/-- The words `makeXdelCommand` prints for an id. -/
def unpackText (id : UInt64) : Bytes :=
  Decimal.text (id >>> timestampShift).toNat ++ dash :: Decimal.text (id &&& sequenceMask).toNat

/-- `makeXdelCommand`. -/
def makeXdelCommand (messages : Messages) : Bytes :=
  ascii "XDEL " ++ messagesStream ++ messages.flatMap fun message => 32 :: unpackText message.id

/-! ### Calls -/

/-- `RedisProducer::authenticate`. -/
def authenticate (config : RedisConfig) (c : RedisContext) (x : Exchange) (db : Streams) :
    RedisContext × Except Failure Unit :=
  authenticateWith (fun text => .runtimeError (ascii "Failed to authenticate in Redis: " ++ text))
    config c x db

/-- `RedisProducer::reconnect`. -/
def reconnect (config : RedisConfig) (o : Outcomes) (db : Streams) :
    RedisContext × Except Failure Unit :=
  reconnectWith (.runtimeError (ascii "Failed to reconnect to Redis"))
    (fun text => .runtimeError (ascii "Failed to authenticate in Redis: " ++ text)) config o db

/-- `RedisProducer::getConnection`.  A new connection is kept before it is authenticated. -/
def getConnection (p : RedisProducer) (o : Outcomes) (db : Streams) :
    RedisProducer × Except Failure RedisContext :=
  match p.connection with
  | some c => (p, .ok c)
  | none =>
    match o.connect with
    | .null => (p, .error (.runtimeError (ascii "Failed to connect to Redis")))
    | .failed _ errstr =>
      (p, .error (.runtimeError (ascii "Failed to connect to Redis: " ++ errstr)))
    | .established =>
      -- `connection_` is set before `authenticate` is called
      match authenticate p.config .fresh o.auth db with
      | (c, .ok _) => ({ p with connection := some c }, .ok c)
      | (c, .error e) => ({ p with connection := some c }, .error e)

/-- What a call leaves behind. -/
structure Called (α : Type) where
  producer : RedisProducer
  db : Streams
  /-- The data commands given to `hiredis`. -/
  attempts : List Attempt
  result : Except Failure α

/-- Both calls: get the connection, run the command with a retry, check what came back. -/
def run {α : Type} (p : RedisProducer) (retry : RedisErr → Bool) (o : Outcomes)
    (args : List Bytes) (check : RedisContext → Option RedisReply → Except Failure α)
    (db : Streams) : Called α :=
  match p.getConnection o db with
  | (p, .error e) => ⟨p, db, [], .error e⟩
  | (p, .ok c) =>
    let r := retryOnce retry (reconnect p.config o db) c o args db
    let p := { p with connection := some r.context }
    match r.outcome with
    | .error e => ⟨p, r.db, r.attempts, .error e⟩
    | .ok reply => ⟨p, r.db, r.attempts, check r.context reply⟩

/-- The checks both calls make: the state of the connection, then the reply. -/
def checkState (c : RedisContext) (reply : Option RedisReply) : Except Failure Unit :=
  match c.err with
  | some _ => .error (.runtimeError (ascii "Failed to read from Redis: " ++ c.errstr))
  | none =>
    match reply with
    | some (.error str) => .error (.runtimeError (ascii "Failed to read from Redis: " ++ str))
    | _ => .ok ()

/-- The checks of `getNext`. -/
def checkMessages (c : RedisContext) (reply : Option RedisReply) : Except Failure Messages := do
  checkState c reply
  match reply with
  | none => .error (.runtimeError (ascii "Failed to read from Redis: no details known"))
  | some reply => messagesFromReply reply

/-- `XRANGE %s - + COUNT %u`. -/
def xrangeArgs (chunkSize : UInt32) : List Bytes :=
  [ascii "XRANGE", messagesStream, ascii "-", ascii "+", ascii "COUNT",
    Decimal.text chunkSize.toNat]

/-- `RedisProducer::getNext`. -/
def getNext (p : RedisProducer) (o : Outcomes) (db : Streams) : Called Messages :=
  p.run RedisErr.isEofOrIo o (xrangeArgs p.chunkSize) checkMessages db

/-- `RedisProducer::markConsumed`.  Only `REDIS_ERR_EOF` leads to a reconnect here. -/
def markConsumed (p : RedisProducer) (o : Outcomes) (messages : Messages) (db : Streams) :
    Called Unit :=
  p.run (fun err => err = .eof) o (formatWords (makeXdelCommand messages)) checkState db

/-! ### Ids -/

/-- An id in 64 bits. -/
def packId (id : EntryId) : UInt64 := (id.ms <<< timestampShift) ||| id.seq

/-- The id that 64 bits stand for. -/
def unpackId (id : UInt64) : EntryId := ⟨id >>> timestampShift, id &&& sequenceMask⟩

/-- Packing loses nothing of the id. -/
def Packable (id : EntryId) : Prop := id.ms.toNat < 2 ^ 42 ∧ id.seq.toNat < 2 ^ 22

instance (id : EntryId) : Decidable (Packable id) := inferInstanceAs (Decidable (_ ∧ _))

theorem unpackText_eq (id : UInt64) : unpackText id = (unpackId id).text := rfl

theorem unpackId_ms_toNat (id : UInt64) : (unpackId id).ms.toNat = id.toNat / 2 ^ 22 := by
  have hshift : timestampShift.toNat = 22 := by decide
  simp [unpackId, UInt64.toNat_shiftRight, hshift, Nat.shiftRight_eq_div_pow]

theorem unpackId_seq_toNat (id : UInt64) : (unpackId id).seq.toNat = id.toNat % 2 ^ 22 := by
  have hmask : sequenceMask.toNat = 2 ^ 22 - 1 := by decide
  simp only [unpackId, UInt64.toNat_and, hmask, Nat.and_two_pow_sub_one_eq_mod]

/-- Whatever was packed, the ids that come out are small. -/
theorem packable_unpackId (id : UInt64) : Packable (unpackId id) := by
  have hlt := id.toNat_lt
  rw [Packable, unpackId_ms_toNat, unpackId_seq_toNat]
  omega

theorem packId_toNat {id : EntryId} (h : Packable id) :
    (packId id).toNat = id.ms.toNat * 2 ^ 22 + id.seq.toNat := by
  obtain ⟨hms, hseq⟩ := h
  have hshift : timestampShift.toNat = 22 := by decide
  have hleft : (id.ms <<< timestampShift).toNat = id.ms.toNat <<< 22 := by
    rw [UInt64.toNat_shiftLeft, hshift, show 22 % 64 = 22 from rfl, Nat.shiftLeft_eq]
    exact Nat.mod_eq_of_lt (by omega)
  rw [packId, UInt64.toNat_or, hleft, ← Nat.shiftLeft_add_eq_or_of_lt hseq, Nat.shiftLeft_eq]

theorem unpackId_packId {id : EntryId} (h : Packable id) : unpackId (packId id) = id := by
  have hms : (unpackId (packId id)).ms = id.ms := by
    rw [← UInt64.toNat_inj, unpackId_ms_toNat, packId_toNat h]
    have := h.2
    omega
  have hseq : (unpackId (packId id)).seq = id.seq := by
    rw [← UInt64.toNat_inj, unpackId_seq_toNat, packId_toNat h]
    have := h.2
    omega
  cases id
  simp_all [unpackId]

/-- Packing can be undone exactly for the small ids. -/
theorem unpackId_packId_iff (id : EntryId) : unpackId (packId id) = id ↔ Packable id := by
  constructor
  · intro h
    rw [← h]
    exact packable_unpackId _
  · exact unpackId_packId

/-! ### Parsing the reply -/

/-- The digits are accumulated with wrapping arithmetic. -/
theorem digitsLoop_append {ds : Bytes} (acc : UInt64) (rest : Bytes)
    (hds : ∀ b ∈ ds, Decimal.isDigit b = true) (hrest : ∀ b ∈ rest.head?, ¬ Decimal.isDigit b) :
    digitsLoop acc (ds ++ rest) =
      (acc * UInt64.ofNat (10 ^ ds.length) + UInt64.ofNat (Decimal.value ds), rest) := by
  induction ds generalizing acc with
  | nil =>
    cases rest with
    | nil => simp [digitsLoop, Decimal.value]
    | cons b bs =>
      have hb : ¬ Decimal.isDigit b := hrest b rfl
      simp [digitsLoop, hb, Decimal.value]
  | cons d ds ih =>
    have hd : Decimal.isDigit d = true := hds d List.mem_cons_self
    have hsub : (d - 48).toUInt64 = UInt64.ofNat (d.toNat - 48) := by
      have hle : (48 : UInt8) ≤ d := by
        rw [UInt8.le_iff_toNat_le, show (48 : UInt8).toNat = 48 from rfl]
        simp only [Decimal.isDigit, Bool.and_eq_true, decide_eq_true_eq] at hd
        exact hd.1
      rw [← UInt64.ofNat_uInt8ToNat, UInt8.toNat_sub_of_le _ _ hle]
      rfl
    have hvalue : Decimal.value (d :: ds) = (d.toNat - 48) * 10 ^ ds.length + Decimal.value ds := by
      simpa [Decimal.value] using Decimal.foldl_value (d.toNat - 48) ds
    rw [List.cons_append, digitsLoop, if_pos hd, ih _ fun b hb => hds b (List.mem_cons_of_mem _ hb),
      hsub, hvalue, List.length_cons, Nat.pow_succ]
    simp only [UInt64.ofNat_add, UInt64.ofNat_mul]
    grind

/-- The id of an entry is packed. -/
theorem packText_text (id : EntryId) : packText id.text = packId id := by
  have hms : digitsLoop 0 id.text = (id.ms, dash :: Decimal.text id.seq.toNat) := by
    rw [EntryId.text, digitsLoop_append 0 _ Decimal.isDigit_of_mem_text
      (by simp [Decimal.isDigit_dash]), Decimal.value_text]
    simp
  have hseq : digitsLoop 0 (Decimal.text id.seq.toNat) = (id.seq, []) := by
    have h := digitsLoop_append 0 [] (Decimal.isDigit_of_mem_text (n := id.seq.toNat)) (by simp)
    rw [List.append_nil, Decimal.value_text] at h
    simpa using h
  simp only [packText, packId, hms, List.drop_one, List.tail_cons, hseq]

/-- The value of the first field `data`, or nothing. -/
def dataOf (fields : List (Bytes × Bytes)) : Bytes :=
  ((fields.find? fun field => field.1 = dataField).map Prod.snd).getD []

/-- The message an entry stands for. -/
def messageOf (entry : Entry) : Message := ⟨packId entry.id, dataOf entry.fields⟩

theorem dataFromFields_fields (fields : List (Bytes × Bytes)) :
    dataFromFields (fields.flatMap fun field => [.string field.1, .string field.2]) =
      .ok (dataOf fields) := by
  induction fields with
  | nil => rfl
  | cons field fields ih =>
    by_cases hname : field.1 = dataField
    · simp [dataFromFields, dataOf, hname]
    · have hskip : dataOf (field :: fields) = dataOf fields := by simp [dataOf, hname]
      rw [hskip, ← ih, List.flatMap_cons]
      simp [dataFromFields, hname]

/-- An entry of a string id and string fields, as a reply. -/
def replyOfEntry (str : Bytes) (fields : List (Bytes × Bytes)) : RedisReply :=
  .array [.string str, .array (fields.flatMap fun field => [.string field.1, .string field.2])]

theorem messageFromEntry_replyOfEntry (str : Bytes) (fields : List (Bytes × Bytes)) :
    messageFromEntry (replyOfEntry str fields) = .ok ⟨packText str, dataOf fields⟩ := by
  simp only [messageFromEntry, replyOfEntry, messageIdFromReply, messageDataFromReply,
    dataFromFields_fields]
  rfl

/-- Entries of string ids and string fields give one message each, in order. -/
theorem messagesFromReply_replyOfEntry (entries : List (Bytes × List (Bytes × Bytes))) :
    messagesFromReply (.array (entries.map fun entry => replyOfEntry entry.1 entry.2)) =
      .ok (entries.map fun entry => ⟨packText entry.1, dataOf entry.2⟩) := by
  rw [messagesFromReply]
  induction entries with
  | nil => rfl
  | cons entry entries ih =>
    rw [List.map_cons, messagesFromEntries, messageFromEntry_replyOfEntry, ih]
    rfl

/-- The reply to `XRANGE` gives one message for each entry, in order. -/
theorem messagesFromReply_entries (entries : List Entry) :
    messagesFromReply (.array (entries.map Streams.entryReply)) = .ok (entries.map messageOf) := by
  have h := messagesFromReply_replyOfEntry (entries.map fun entry => (entry.id.text, entry.fields))
  simp only [List.map_map, Function.comp_def, packText_text] at h
  exact h

/-! ### The command -/

theorem intercalate_cons (w : Bytes) (ws : List Bytes) :
    [(32 : UInt8)].intercalate (w :: ws) = w ++ ws.flatMap fun w => 32 :: w := by
  induction ws generalizing w with
  | nil => simp
  | cons v ws ih =>
    rw [List.intercalate_cons_cons, ih, List.flatMap_cons]
    simp

theorem space_not_mem_text (n : ℕ) : (32 : UInt8) ∉ Decimal.text n := by
  intro h
  have hdigit := Decimal.isDigit_of_mem_text _ h
  exact absurd hdigit (by decide)

theorem space_not_mem_unpackText (id : UInt64) : (32 : UInt8) ∉ unpackText id := by
  simp only [unpackText, List.mem_append, List.mem_cons, not_or]
  exact ⟨space_not_mem_text _, by decide, space_not_mem_text _⟩

theorem formatWords_makeXdelCommand (messages : Messages) :
    formatWords (makeXdelCommand messages) =
      ascii "XDEL" :: messagesStream :: messages.map fun message => unpackText message.id := by
  have hjoin : makeXdelCommand messages = [(32 : UInt8)].intercalate
      (ascii "XDEL" :: messagesStream :: messages.map fun message => unpackText message.id) := by
    rw [intercalate_cons, List.flatMap_cons, List.flatMap_map, makeXdelCommand]
    rfl
  have hspace : ∀ w ∈ ascii "XDEL" :: messagesStream ::
      messages.map fun message => unpackText message.id, (32 : UInt8) ∉ w := by
    intro w hw
    rcases List.mem_cons.1 hw with rfl | hw
    · decide
    rcases List.mem_cons.1 hw with rfl | hw
    · decide
    obtain ⟨message, -, rfl⟩ := List.mem_map.1 hw
    exact space_not_mem_unpackText _
  rw [formatWords, hjoin, List.splitOn_intercalate _ hspace (by simp)]
  refine List.filter_eq_self.2 fun w hw => ?_
  rcases List.mem_cons.1 hw with rfl | hw
  · decide
  rcases List.mem_cons.1 hw with rfl | hw
  · decide
  obtain ⟨message, -, rfl⟩ := List.mem_map.1 hw
  simp [unpackText]

theorem mapM_parse?_text (ids : List EntryId) :
    (ids.map EntryId.text).mapM EntryId.parse? = some ids := by
  induction ids with
  | nil => rfl
  | cons id ids ih =>
    rw [List.map_cons, List.mapM_cons, EntryId.parse?_text, ih]
    rfl

/-- The server understands the command of a batch that is not empty: it names the ids that come
out of the packed ones. -/
theorem ofArgs_makeXdelCommand {messages : Messages} (h : messages ≠ []) :
    Command.ofArgs (formatWords (makeXdelCommand messages)) =
      some (.xdel messagesStream (messages.map fun message => unpackId message.id)) := by
  cases messages with
  | nil => exact absurd rfl h
  | cons message messages =>
    have hids := mapM_parse?_text ((message :: messages).map fun message => unpackId message.id)
    rw [List.map_map] at hids
    rw [formatWords_makeXdelCommand]
    have hdef : Command.ofArgs (ascii "XDEL" :: messagesStream ::
        (message :: messages).map fun message => unpackText message.id) =
        (((message :: messages).map fun message => unpackText message.id).mapM
          EntryId.parse?).map fun ids => .xdel messagesStream ids := rfl
    rw [hdef]
    simp only [unpackText_eq]
    rw [show ((message :: messages).map fun message => (unpackId message.id).text).mapM
      EntryId.parse? = _ from hids]
    rfl

/-- A batch that is empty makes a command without ids, which the server rejects. -/
theorem ofArgs_makeXdelCommand_nil : Command.ofArgs (formatWords (makeXdelCommand [])) = none := by
  rw [formatWords_makeXdelCommand]
  rfl

/-! ### What a call does -/

section

variable {p : RedisProducer} {o o' : Outcomes} {db db' : Streams} {messages : Messages}

theorem checkState_ok {c : RedisContext} {reply : Option RedisReply}
    (h : checkState c reply = .ok ()) : c.err = none ∧ reply.any RedisReply.isError = false := by
  unfold checkState at h
  cases herr : c.err with
  | some e => simp [herr] at h
  | none =>
    refine ⟨rfl, ?_⟩
    cases reply with
    | none => rfl
    | some reply =>
      cases reply with
      | error str => simp [herr] at h
      | _ => rfl

/-- A call that returns has run its command on a connection without an error. -/
theorem run_ok {α : Type} {retry : RedisErr → Bool} {args : List Bytes}
    {check : RedisContext → Option RedisReply → Except Failure α} {a : α}
    (hcheck : ∀ c reply, check c reply = .ok a → checkState c reply = .ok ())
    (h : (p.run retry o args check db).result = .ok a) :
    ∃ db₁ now reply c, (db₁ = db ∨ ∃ now₁, db₁ = (db.exec now₁ (Command.ofArgs args)).1) ∧
      (p.run retry o args check db).db = (db₁.exec now (Command.ofArgs args)).1 ∧
      reply = (db₁.exec now (Command.ofArgs args)).2 ∧ reply.isError = false ∧
      check c (some reply) = .ok a := by
  unfold run at h ⊢
  split at h
  · cases h
  · rename_i p' c hc
    dsimp only at h ⊢
    split at h
    · cases h
    · rename_i reply hout
      obtain ⟨herr, hreply⟩ := checkState_ok (hcheck _ _ h)
      obtain ⟨db₁, now, hfirst, hdb, hr⟩ := retryOnce_executed hout herr hreply
      subst hr
      exact ⟨db₁, now, _, _, hfirst, hdb, rfl, by simpa using hreply, h⟩

/-- The connection that is kept, if any, is safe. -/
def Safe (p : RedisProducer) : Prop := ∀ c, p.connection = some c → c.Safe

theorem getConnection_safe {p' : RedisProducer} {r : Except Failure RedisContext} (hp : p.Safe)
    (h : p.getConnection o db = (p', r)) :
    (o.auth.NotRefused → p'.Safe) ∧ ∀ c, r = .ok c → c.Safe := by
  unfold getConnection at h
  cases hc : p.connection with
  | some c =>
    obtain ⟨rfl, rfl⟩ := Prod.mk.inj (by simpa [hc] using h)
    exact ⟨fun _ => hp, fun c' hc' => Except.ok.inj hc' ▸ hp c hc⟩
  | none =>
    cases ho : o.connect with
    | null | failed err errstr =>
      obtain ⟨rfl, rfl⟩ := Prod.mk.inj (by simpa [hc, ho] using h)
      exact ⟨fun _ => hp, by simp⟩
    | established =>
      have hsafe : o.auth.NotRefused → (authenticate p.config .fresh o.auth db).1.Safe :=
        authenticateWith_fresh_safe
      have hok : (authenticate p.config .fresh o.auth db).2 = .ok () →
          (authenticate p.config .fresh o.auth db).1.Safe := authenticateWith_fresh_ok
      simp only [hc, ho] at h
      generalize authenticate p.config .fresh o.auth db = a at h hsafe hok
      obtain ⟨c, outcome⟩ := a
      cases outcome with
      | error e =>
        obtain ⟨rfl, rfl⟩ := Prod.mk.inj h
        exact ⟨fun hx c' hc' => Option.some.inj hc' ▸ hsafe hx, by simp⟩
      | ok u =>
        obtain ⟨rfl, rfl⟩ := Prod.mk.inj h
        exact ⟨fun hx c' hc' => Option.some.inj hc' ▸ hsafe hx,
          fun c' hc' => Except.ok.inj hc' ▸ hok rfl⟩

/-- A call keeps the connection safe if the server rejects no `AUTH`, and gives its commands to
safe connections in any case. -/
theorem run_safe {α : Type} (hp : p.Safe) (retry : RedisErr → Bool) (o : Outcomes)
    (args : List Bytes) (check : RedisContext → Option RedisReply → Except Failure α)
    (db : Streams) :
    (o.auth.NotRefused → o.reauth.NotRefused → (p.run retry o args check db).producer.Safe) ∧
      ∀ a ∈ (p.run retry o args check db).attempts, a.context.Safe := by
  unfold run
  split
  · rename_i p' e hget
    exact ⟨fun hx _ => (getConnection_safe hp hget).1 hx, by simp⟩
  · rename_i p' c hget
    have hc : c.Safe := (getConnection_safe hp hget).2 c rfl
    have hsafe : o.reauth.NotRefused →
        (retryOnce retry (reconnect p'.config o db) c o args db).context.Safe := fun hx =>
      retryOnce_safe hc (reconnectWith_safe hx)
    have hsent : ∀ a ∈ (retryOnce retry (reconnect p'.config o db) c o args db).attempts,
        a.context.Safe := retryOnce_attempts_safe hc reconnectWith_ok
    dsimp only
    split
    · exact ⟨fun _ hx c' hc' => Option.some.inj hc' ▸ hsafe hx, hsent⟩
    · exact ⟨fun _ hx c' hc' => Option.some.inj hc' ▸ hsafe hx, hsent⟩

/-! ### When the server is back -/

theorem getConnection_restored {c : RedisContext} {args : List Bytes} (h : Restored c o args db) :
    ∃ p', p.getConnection o db = (p', .ok (startContext p.connection)) := by
  cases hc : p.connection with
  | some c => exact ⟨p, by simp [getConnection, hc, startContext]⟩
  | none =>
    obtain ⟨now, hnow⟩ := h.auth
    have hauth : authenticate p.config .fresh o.auth db = (⟨none, [], true⟩, .ok ()) := by
      rw [authenticate, hnow, authenticateWith_served]
    exact ⟨_, by simp only [getConnection, hc, h.connect, hauth]; rfl⟩

/-- Once the server is back, a call checks a good reply if `retry` covers the error of the
connection, or else the one the first attempt meets, and no reply otherwise. -/
theorem run_restored {α : Type} (retry : RedisErr → Bool) {args : List Bytes}
    (check : RedisContext → Option RedisReply → Except Failure α)
    (h : Restored (startContext p.connection) o args db) :
    ∃ c reply, (p.run retry o args check db).result = check c reply ∧
      if ((startContext p.connection).errAfter o.first).all retry then
        c.err = none ∧ ∃ (db₁ : Streams) (now : UInt64),
          reply = some (db₁.exec now (Command.ofArgs args)).2 ∧
          (db₁.exec now (Command.ofArgs args)).2.isError = false
      else c.err ≠ none := by
  obtain ⟨p', hget⟩ := getConnection_restored (p := p) h
  have hrec : reconnect p'.config o db = (⟨none, [], true⟩, .ok ()) := reconnectWith_restored h db
  simp only [run, hget, hrec]
  cases hretry : ((startContext p.connection).errAfter o.first).all retry with
  | true =>
    obtain ⟨herr, reply, hout, hne⟩ := retryOnce_recovers Failure h hretry
    obtain ⟨db₁, now, -, -, hr⟩ := retryOnce_executed hout herr (by simpa using hne)
    obtain rfl := Option.some.inj hr
    exact ⟨_, _, by rw [hout], by simpa using ⟨herr, db₁, now, rfl, hne⟩⟩
  | false =>
    obtain ⟨herr, hout⟩ := retryOnce_stuck
      ((⟨none, [], true⟩, .ok ()) : RedisContext × Except Failure Unit) args db hretry
    exact ⟨_, none, by rw [hout], by simpa using herr⟩

theorem ofArgs_xrangeArgs (chunkSize : UInt32) :
    Command.ofArgs (xrangeArgs chunkSize) = some (.xrange messagesStream chunkSize.toNat) := by
  have hnumber : number? (Decimal.text chunkSize.toNat) = some chunkSize.toUInt64 := by
    rw [← UInt32.toNat_toUInt64, number?_text]
  have hdef : Command.ofArgs (xrangeArgs chunkSize) =
      (number? (Decimal.text chunkSize.toNat)).map fun count =>
        .xrange messagesStream count.toNat := rfl
  rw [hdef, hnumber, Option.map_some, UInt32.toNat_toUInt64]

theorem checkMessages_ok {c : RedisContext} {reply : Option RedisReply}
    (h : checkMessages c reply = .ok messages) : checkState c reply = .ok () := by
  unfold checkMessages at h
  cases hstate : checkState c reply with
  | error e => rw [hstate] at h; cases h
  | ok u => rfl

/-- `getNext` returns the first entries of the stream, and changes nothing. -/
theorem getNext_ok (h : (p.getNext o db).result = .ok messages) :
    messages = ((db messagesStream).entries.take p.chunkSize.toNat).map messageOf ∧
      (p.getNext o db).db = db := by
  obtain ⟨db₁, now, reply, c, hfirst, hdb, hr, -, hok⟩ := run_ok (fun _ _ => checkMessages_ok) h
  have hread : ∀ (now : UInt64) (db : Streams),
      (db.exec now (Command.ofArgs (xrangeArgs p.chunkSize))).1 = db := by
    intro now db
    rw [ofArgs_xrangeArgs]
    simp only [Streams.exec]
    split_ifs <;> rfl
  have hdb₁ : db₁ = db := by
    rcases hfirst with rfl | ⟨now₁, rfl⟩
    · rfl
    · exact hread now₁ db
  subst hdb₁
  refine ⟨?_, hdb.trans (hread now db₁)⟩
  have hparse : messagesFromReply reply = .ok messages := by
    have hstate := checkMessages_ok hok
    unfold checkMessages at hok
    rw [hstate] at hok
    exact hok
  rw [hr, ofArgs_xrangeArgs] at hparse
  simp only [Streams.exec] at hparse
  split_ifs at hparse with hzero
  · cases hparse
  · rw [messagesFromReply_entries] at hparse
    exact (Except.ok.inj hparse).symm

theorem checkState_error {c : RedisContext} {reply : Option RedisReply} (h : c.err ≠ none) :
    checkState c reply ≠ .ok () := fun hok => h (checkState_ok hok).1

/-- Once the server is back, `getNext` returns exactly if the error of the connection, or else the
one the first attempt meets, is `EOF` or `IO`, or there is none. -/
theorem getNext_restored (hchunk : 0 < p.chunkSize.toNat)
    (h : Restored (startContext p.connection) o (xrangeArgs p.chunkSize) db) :
    (∃ messages, (p.getNext o db).result = .ok messages) ↔
      ((startContext p.connection).errAfter o.first).all RedisErr.isEofOrIo = true := by
  obtain ⟨c, reply, hresult, hcase⟩ := run_restored RedisErr.isEofOrIo checkMessages h
  rw [getNext, hresult]
  cases hretry : ((startContext p.connection).errAfter o.first).all RedisErr.isEofOrIo with
  | true =>
    rw [if_pos hretry] at hcase
    obtain ⟨herr, db₁, now, rfl, -⟩ := hcase
    rw [ofArgs_xrangeArgs]
    simp only [Streams.exec, if_neg (Nat.ne_of_gt hchunk)]
    have hstate : ∀ element, checkState c (some (.array element)) = .ok () := by
      intro element
      simp [checkState, herr]
    have hparse := messagesFromReply_entries ((db₁ messagesStream).xrange p.chunkSize.toNat)
    refine ⟨fun _ => trivial, fun _ =>
      ⟨((db₁ messagesStream).xrange p.chunkSize.toNat).map messageOf, ?_⟩⟩
    rw [checkMessages, hstate]
    exact hparse
  | false =>
    rw [if_neg (by simp [hretry])] at hcase
    refine ⟨?_, by simp⟩
    rintro ⟨messages, hok⟩
    exact absurd (checkMessages_ok hok) (checkState_error hcase)

/-- Once the server is back, `markConsumed` returns exactly if the error of the connection, or
else the one the first attempt meets, is `EOF`, or there is none. -/
theorem markConsumed_restored
    (h : Restored (startContext p.connection) o (formatWords (makeXdelCommand messages)) db) :
    (p.markConsumed o messages db).result = .ok () ↔
      ((startContext p.connection).errAfter o.first).all (fun err => err = .eof) = true := by
  obtain ⟨c, reply, hresult, hcase⟩ := run_restored (fun err => err = .eof) checkState h
  rw [markConsumed, hresult]
  cases hretry : ((startContext p.connection).errAfter o.first).all (fun err => err = .eof) with
  | true =>
    rw [if_pos hretry] at hcase
    obtain ⟨herr, db₁, now, rfl, hne⟩ := hcase
    refine ⟨fun _ => rfl, fun _ => ?_⟩
    unfold checkState
    rw [herr]
    dsimp only
    split
    · rename_i str hstr
      rw [Option.some.inj hstr] at hne
      cases hne
    · rfl
  | false =>
    rw [if_neg (by simp [hretry])] at hcase
    exact ⟨fun hok => absurd hok (checkState_error hcase), by simp⟩

/-- `markConsumed` removes the entries whose ids come out of the packed ones; removing them twice
is removing them once. -/
theorem markConsumed_ok (h : (p.markConsumed o messages db).result = .ok ()) :
    ((p.markConsumed o messages db).db messagesStream).entries =
      (db messagesStream).entries.filter fun entry =>
        entry.id ∉ messages.map fun message => unpackId message.id := by
  obtain ⟨db₁, now, reply, c, hfirst, hdb, hr, hne, -⟩ := run_ok (fun _ _ hok => hok) h
  by_cases hnil : messages = []
  · subst hnil
    rw [hr, ofArgs_makeXdelCommand_nil] at hne
    cases hne
  rw [ofArgs_makeXdelCommand hnil] at hfirst hdb
  have hxdel : ∀ (now : UInt64) (db : Streams), ((db.exec now (some (.xdel messagesStream
      (messages.map fun message => unpackId message.id)))).1 messagesStream) =
        (db messagesStream).xdel (messages.map fun message => unpackId message.id) := by
    intro now db
    simp only [Streams.exec, Function.update_self]
  change (p.markConsumed o messages db).db = _ at hdb
  rw [hdb, hxdel]
  rcases hfirst with rfl | ⟨now₁, rfl⟩
  · rfl
  · rw [hxdel, Stream.xdel_xdel]
    rfl

/-! ### Acknowledging a batch -/

/-- **Acknowledging a batch** deletes exactly the entries `getNext` returned, whatever was appended
in between, exactly if the time of each of them is below `2 ^ 42` and its sequence number below
`2 ^ 22`. -/
theorem acknowledged_iff (hnext : (p.getNext o db).result = .ok messages)
    (hgrown : ((p.getNext o db).db messagesStream).entries <+: (db' messagesStream).entries)
    (hmark : ((p.getNext o db).producer.markConsumed o' messages db').result = .ok ()) :
    let returned := (db messagesStream).entries.take p.chunkSize.toNat
    let after := (p.getNext o db).producer.markConsumed o' messages db'
    messages = returned.map messageOf ∧
      ((after.db messagesStream).entries =
          (db' messagesStream).entries.filter (fun entry => entry ∉ returned) ↔
        ∀ entry ∈ returned, Packable entry.id) := by
  intro returned after
  obtain ⟨hmessages, hdb⟩ := getNext_ok hnext
  have hafter := markConsumed_ok hmark
  have hids : (messages.map fun message => unpackId message.id) =
      returned.map fun entry => unpackId (packId entry.id) := by
    rw [hmessages, List.map_map]
    rfl
  have hmem : ∀ entry ∈ returned, entry ∈ (db' messagesStream).entries := by
    intro entry hentry
    exact (hdb ▸ hgrown).subset (List.mem_of_mem_take hentry)
  refine ⟨hmessages, ?_⟩
  rw [show (after.db messagesStream).entries = _ from hafter, hids]
  constructor
  · intro heq entry hentry
    -- the entry is gone, so one of the ids in the command is its id
    have hgone : entry ∉ (db' messagesStream).entries.filter fun entry => entry ∉ returned :=
      fun h => absurd hentry (by simpa using (List.mem_filter.1 h).2)
    rw [← heq, List.mem_filter] at hgone
    have hnamed : entry.id ∈ returned.map fun entry => unpackId (packId entry.id) := by
      by_contra hno
      exact hgone ⟨hmem entry hentry, by simpa using hno⟩
    obtain ⟨e, -, he⟩ := List.mem_map.1 hnamed
    exact he ▸ packable_unpackId _
  · intro hpack
    refine List.filter_congr fun entry hentry => ?_
    have hiff : entry.id ∈ (returned.map fun entry => unpackId (packId entry.id)) ↔
        entry ∈ returned := by
      constructor
      · intro h
        obtain ⟨e, he, hid⟩ := List.mem_map.1 h
        rw [unpackId_packId (hpack e he)] at hid
        rwa [← Stream.eq_of_id_eq (hmem e he) hentry hid]
      · intro h
        exact List.mem_map.2 ⟨entry, h, unpackId_packId (hpack entry h)⟩
    simp only [hiff]

end

/-- Two entries, of which the first is read. -/
def sampleStream (first second : EntryId) (h : first < second) : Stream where
  entries := [⟨first, [(dataField, [120])]⟩, ⟨second, [(dataField, [121])]⟩]
  lastId := second
  sorted := by simpa using h
  le_lastId := by simp [h]

theorem acknowledged_sample :
    let p : RedisProducer := ⟨⟨[], []⟩, 1, none⟩
    let db : Streams := fun _ => sampleStream ⟨1662737151106, 7⟩ ⟨1662737151106, 8⟩ (by decide)
    let called := p.getNext .fine db
    ∃ messages, called.result = .ok messages ∧
      (((called.producer.markConsumed .fine messages db).db messagesStream).entries =
        (db messagesStream).entries.filter
          (fun entry => entry ∉ (db messagesStream).entries.take p.chunkSize.toNat) ↔
        ∀ entry ∈ (db messagesStream).entries.take p.chunkSize.toNat, Packable entry.id) := by
  intro p db called
  have hnext : called.result = .ok [⟨packId ⟨1662737151106, 7⟩, [120]⟩] := by decide
  have hmark : (called.producer.markConsumed .fine
      [⟨packId ⟨1662737151106, 7⟩, [120]⟩] db).result = .ok () := by decide
  have hgrown : (called.db messagesStream).entries <+: (db messagesStream).entries := by decide
  exact ⟨_, hnext, (acknowledged_iff hnext hgrown hmark).2⟩

/-- The sequence number `2 ^ 22` is packed into the bits of the time: acknowledging the entry that
was read deletes the next one, which nobody has read, and leaves the first. -/
theorem acknowledged_wrong :
    let p : RedisProducer := ⟨⟨[], []⟩, 1, none⟩
    let db : Streams := fun _ =>
      sampleStream ⟨1662737151106, 4194304⟩ ⟨1662737151107, 0⟩ (by decide)
    let called := p.getNext .fine db
    ∃ messages, called.result = .ok messages ∧
      messages.map Message.data = [[120]] ∧
      (called.producer.markConsumed .fine messages db).result = .ok () ∧
      ((called.producer.markConsumed .fine messages db).db messagesStream).entries =
        [⟨⟨1662737151106, 4194304⟩, [(dataField, [120])]⟩] := by
  intro p db called
  exact ⟨[⟨packId ⟨1662737151106, 4194304⟩, [120]⟩], by decide, rfl, by decide, by decide⟩

end RedisProducer

end GatewayPoc
