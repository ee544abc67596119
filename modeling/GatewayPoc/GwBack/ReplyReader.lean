import GatewayPoc.GwBack.RedisProducer

/-!
# Reading a reply

`messagesFromReply` and the two functions it calls walk a tree that came from the network.  Here
they are once more, access by access: `RedisReply.elements`, `RedisReply.element` and
`RedisReply.str` read a field of a `redisReply`, and an access the type or the size of the reply
does not allow is a `Fault`.

* `ReplyReader.messagesFromReply_eq` : the functions of `RedisProducer` are these, with the faults
  in their places.  The checks rule out every fault but one: an index past the end.
* `ReplyReader.Overruns` : the walk comes to an entry whose fields have an odd number of elements
  and no value of `data` among the pairs before the last one.
* `ReplyReader.safe_iff` : a reply is read safely exactly if it has no such entry.  `reads_past_end`
  is the smallest one that has.
-/

namespace GatewayPoc

/-- What is wrong with an access to a reply. -/
inductive Fault where
  /-- An index past the end of the array. -/
  | index
  /-- The elements of a reply that is no array. -/
  | elements
  /-- The text of a reply that is no string. -/
  | str
  deriving DecidableEq, Repr

/-- How a reading function ends without a result. -/
inductive Stop where
  /-- `std::runtime_error`. -/
  | runtimeError (what : Bytes)
  | fault (fault : Fault)
  deriving DecidableEq, Repr

/-- `REDIS_REPLY_STRING`. -/
def replyString : ℕ := 1

/-- `REDIS_REPLY_ARRAY`. -/
def replyArray : ℕ := 2

namespace RedisReply

/-- `reply->str`, with `reply->len`. -/
def str : RedisReply → Except Stop Bytes
  | .string str => .ok str
  | _ => .error (.fault .str)

/-- `reply->elements`. -/
def elements : RedisReply → Except Stop ℕ
  | .array element => .ok element.length
  | _ => .error (.fault .elements)

/-- `reply->element[i]`. -/
def element (reply : RedisReply) (i : ℕ) : Except Stop RedisReply :=
  match reply with
  | .array element =>
    match element[i]? with
    | some r => .ok r
    | none => .error (.fault .index)
  | _ => .error (.fault .elements)

end RedisReply

namespace ReplyReader

open RedisProducer (dataField packText)

/-- `EXPECTED_ENTRY_SIZE`. -/
def expectedEntrySize : ℕ := 2

/-- The text of an error about a number. -/
def unexpected (what : String) (n : ℕ) : Stop := .runtimeError (ascii what ++ Decimal.text n)

/-- `messageIdFromReply`. -/
def messageIdFromReply (reply : RedisReply) : Except Stop UInt64 :=
  if reply.type ≠ replyString then
    .error (unexpected "Unexpected type of id reply: " reply.type)
  else do
    let str ← reply.str
    return packText str

/-- The loop of `messageDataFromReply` at the index `i`, with `rounds` rounds left. -/
def dataLoop (reply : RedisReply) : (rounds i : ℕ) → Except Stop Bytes
  | 0, _ => .ok []
  | rounds + 1, i => do
    let fieldName ← reply.element i
    let fieldValue ← reply.element (i + 1)
    if fieldName.type = replyString then
      let name ← fieldName.str
      if name = dataField ∧ fieldValue.type = replyString then fieldValue.str
      else dataLoop reply rounds (i + 2)
    else dataLoop reply rounds (i + 2)

/-- `messageDataFromReply`: the loop runs while `i < reply->elements`, in steps of two. -/
def messageDataFromReply (reply : RedisReply) : Except Stop Bytes :=
  if reply.type ≠ replyArray then
    .error (unexpected "Unexpected type of data reply: " reply.type)
  else do
    let n ← reply.elements
    dataLoop reply ((n + 1) / 2) 0

/-- One round of the loop of `messagesFromReply`. -/
def messageFromElement (entry : RedisReply) : Except Stop Message :=
  if entry.type ≠ replyArray then
    .error (unexpected "Unexpected type of Redis stream entry: " entry.type)
  else do
    let n ← entry.elements
    if n ≠ expectedEntrySize then
      .error (unexpected "Unexpected size of Redis stream entry: " n)
    else
      let id ← messageIdFromReply (← entry.element 0)
      let data ← messageDataFromReply (← entry.element 1)
      return ⟨id, data⟩

/-- The loop of `messagesFromReply` at the index `i`, with `rounds` rounds left. -/
def messagesLoop (reply : RedisReply) : (rounds i : ℕ) → Except Stop Messages
  | 0, _ => .ok []
  | rounds + 1, i => do
    let message ← messageFromElement (← reply.element i)
    let messages ← messagesLoop reply rounds (i + 1)
    return message :: messages

/-- `messagesFromReply`. -/
def messagesFromReply (reply : RedisReply) : Except Stop Messages :=
  if reply.type ≠ replyArray then
    .error (unexpected "Unexpected type of Redis reply: " reply.type)
  else do
    let n ← reply.elements
    messagesLoop reply n 0

/-! ### The functions of the producer -/

/-- A result of the functions of `RedisProducer`, with the fault in its place. -/
def lift {α : Type} : Except Failure α → Except Stop α
  | .ok a => .ok a
  | .error (.runtimeError what) => .error (.runtimeError what)
  | .error .outOfBounds => .error (.fault .index)

theorem lift_bind {α β : Type} (x : Except Failure α) (f : α → Except Failure β) :
    lift (x >>= f) = lift x >>= fun a => lift (f a) := by
  cases x with
  | ok a => rfl
  | error e => cases e <;> rfl

theorem element_append (pre rest : List RedisReply) (r : RedisReply) :
    (RedisReply.array (pre ++ r :: rest)).element pre.length = .ok r := by
  simp [RedisReply.element]

theorem element_append_succ (pre rest : List RedisReply) (r r' : RedisReply) :
    (RedisReply.array (pre ++ r :: r' :: rest)).element (pre.length + 1) = .ok r' := by
  simp [RedisReply.element]

theorem type_eq_replyString {reply : RedisReply} (h : reply.type = replyString) :
    ∃ str, reply = .string str := by
  cases reply with
  | string str => exact ⟨str, rfl⟩
  | _ => simp [RedisReply.type, replyString] at h

theorem messageIdFromReply_eq (reply : RedisReply) :
    messageIdFromReply reply = lift (RedisProducer.messageIdFromReply reply) := by
  cases reply <;> rfl

/-- A round of the loop ends it at a value of `data`. -/
theorem dataLoop_hit (pre fields : List RedisReply) (value : Bytes) (rounds : ℕ) :
    dataLoop (.array (pre ++ .string dataField :: .string value :: fields)) (rounds + 1)
      pre.length = .ok value := by
  rw [dataLoop, element_append, element_append_succ]
  rfl

/-- A round of the loop passes over every other pair. -/
theorem dataLoop_pass (pre fields : List RedisReply) (name value : RedisReply) (rounds : ℕ)
    (h : ∀ v, name = .string dataField → value = .string v → False) :
    dataLoop (.array (pre ++ name :: value :: fields)) (rounds + 1) pre.length =
      dataLoop (.array (pre ++ name :: value :: fields)) rounds (pre.length + 2) := by
  rw [dataLoop, element_append, element_append_succ]
  simp only [bind, Except.bind]
  by_cases htype : name.type = replyString
  · obtain ⟨str, rfl⟩ := type_eq_replyString htype
    have hno : ¬ (str = dataField ∧ value.type = replyString) := by
      rintro ⟨rfl, hvalue⟩
      obtain ⟨v, hv⟩ := type_eq_replyString hvalue
      exact h v rfl hv
    rw [if_pos htype, RedisReply.str]
    exact if_neg hno
  · rw [if_neg htype]

/-- The loop over the indices is the recursion over the elements that are left. -/
theorem dataLoop_eq (pre rest : List RedisReply) :
    dataLoop (.array (pre ++ rest)) ((rest.length + 1) / 2) pre.length =
      lift (RedisProducer.dataFromFields rest) := by
  have hround : ∀ (fields : List RedisReply) (name value : RedisReply),
      ((name :: value :: fields).length + 1) / 2 = (fields.length + 1) / 2 + 1 := by
    intro fields name value
    simp only [List.length_cons]
    omega
  induction rest using RedisProducer.dataFromFields.induct generalizing pre with
  | case1 => rfl
  | case2 r =>
    -- the last element has no partner
    rw [List.length_singleton, dataLoop, element_append, RedisReply.element,
      List.getElem?_eq_none (by simp)]
    rfl
  | case3 fields value =>
    rw [hround, dataLoop_hit, RedisProducer.dataFromFields, if_pos rfl]
    rfl
  | case4 fields name value hname ih =>
    have h := ih (pre ++ [.string name, .string value])
    have hno : ∀ v, RedisReply.string name = .string dataField →
        RedisReply.string value = .string v → False :=
      fun _ heq _ => hname (RedisReply.string.inj heq)
    rw [hround, dataLoop_pass _ _ _ _ _ hno, RedisProducer.dataFromFields, if_neg hname]
    simpa using h
  | case5 name value fields hno ih =>
    have h := ih (pre ++ [name, value])
    rw [hround, dataLoop_pass _ _ _ _ _ (hno dataField), RedisProducer.dataFromFields]
    · simpa using h
    · exact hno

theorem messageDataFromReply_eq (reply : RedisReply) :
    messageDataFromReply reply = lift (RedisProducer.messageDataFromReply reply) := by
  cases reply with
  | array element => exact dataLoop_eq [] element
  | _ => rfl

theorem messageFromElement_eq (entry : RedisReply) :
    messageFromElement entry = lift (RedisProducer.messageFromEntry entry) := by
  cases entry with
  | array element =>
    match element with
    | [] | [_] => rfl
    | [idReply, dataReply] =>
      have hread : messageFromElement (.array [idReply, dataReply]) = do
          let id ← messageIdFromReply idReply
          let data ← messageDataFromReply dataReply
          return ⟨id, data⟩ := rfl
      rw [hread, messageIdFromReply_eq, messageDataFromReply_eq, RedisProducer.messageFromEntry]
      simp only [lift_bind]
      rfl
    | _ :: _ :: _ :: rest => rfl
  | _ => rfl

theorem messagesLoop_eq (pre rest : List RedisReply) :
    messagesLoop (.array (pre ++ rest)) rest.length pre.length =
      lift (RedisProducer.messagesFromEntries rest) := by
  induction rest generalizing pre with
  | nil => rfl
  | cons entry rest ih =>
    have h := ih (pre ++ [entry])
    rw [List.append_assoc, List.singleton_append, List.length_append, List.length_singleton] at h
    rw [List.length_cons, messagesLoop, element_append, h, RedisProducer.messagesFromEntries,
      lift_bind, ← messageFromElement_eq]
    simp only [lift_bind]
    rfl

/-- Access by access, the reply is read as `RedisProducer` reads it. -/
theorem messagesFromReply_eq (reply : RedisReply) :
    messagesFromReply reply = lift (RedisProducer.messagesFromReply reply) := by
  cases reply with
  | array element => exact messagesLoop_eq [] element
  | _ => rfl

/-! ### Which replies are read safely -/

/-- A pair at an even index has the name `data` and a string value. -/
def HasData (fields : List RedisReply) : Prop :=
  ∃ (i : ℕ) (v : Bytes), fields[2 * i]? = some (.string dataField) ∧
    fields[2 * i + 1]? = some (.string v)

/-- The entry has a string id and fields, which come in pairs or have a value of `data`. -/
def Readable (entry : RedisReply) : Prop :=
  ∃ str fields, entry = .array [.string str, .array fields] ∧
    (fields.length % 2 = 0 ∨ HasData fields)

/-- The entry has a string id and fields of which one has no partner, and no value of `data`. -/
def Overrun (entry : RedisReply) : Prop :=
  ∃ str fields, entry = .array [.string str, .array fields] ∧
    fields.length % 2 = 1 ∧ ¬ HasData fields

/-- The walk over the entries of the reply comes to one whose fields it overruns. -/
def Overruns (reply : RedisReply) : Prop :=
  ∃ pre entry post, reply = .array (pre ++ entry :: post) ∧ (∀ e ∈ pre, Readable e) ∧ Overrun entry

theorem not_hasData_of_length_le {fields : List RedisReply} (h : fields.length ≤ 1) :
    ¬ HasData fields := by
  rintro ⟨i, v, -, hvalue⟩
  obtain ⟨hlt, -⟩ := List.getElem?_eq_some_iff.1 hvalue
  omega

theorem hasData_cons_cons {name value : RedisReply} {fields : List RedisReply} :
    HasData (name :: value :: fields) ↔
      (name = .string dataField ∧ ∃ v, value = .string v) ∨ HasData fields := by
  constructor
  · rintro ⟨i, v, hname, hvalue⟩
    cases i with
    | zero => exact Or.inl ⟨Option.some.inj hname, v, Option.some.inj hvalue⟩
    | succ i => exact Or.inr ⟨i, v, hname, hvalue⟩
  · rintro (⟨rfl, v, rfl⟩ | ⟨i, v, hname, hvalue⟩)
    · exact ⟨0, v, rfl, rfl⟩
    · exact ⟨i + 1, v, hname, hvalue⟩

/-- The loop over the fields ends with a value, or runs over the end. -/
theorem dataFromFields_cases (fields : List RedisReply) :
    ((fields.length % 2 = 0 ∨ HasData fields) ∧
        ∃ data, RedisProducer.dataFromFields fields = .ok data) ∨
      (fields.length % 2 = 1 ∧ ¬ HasData fields ∧
        RedisProducer.dataFromFields fields = .error .outOfBounds) := by
  have hpair : ∀ (name value : RedisReply) (fields : List RedisReply),
      (name :: value :: fields).length % 2 = fields.length % 2 := by
    intro name value fields
    simp only [List.length_cons]
    omega
  induction fields using RedisProducer.dataFromFields.induct with
  | case1 => exact Or.inl ⟨Or.inl rfl, _, rfl⟩
  | case2 r => exact Or.inr ⟨rfl, not_hasData_of_length_le (Nat.le_refl 1), rfl⟩
  | case3 fields value =>
    have hdata : HasData (.string dataField :: .string value :: fields) := ⟨0, value, rfl, rfl⟩
    exact Or.inl ⟨Or.inr hdata, value, by rw [RedisProducer.dataFromFields, if_pos rfl]⟩
  | case4 fields name value hname ih =>
    have hpass : HasData (.string name :: .string value :: fields) ↔ HasData fields := by
      rw [hasData_cons_cons]
      exact or_iff_right fun h => hname (RedisReply.string.inj h.1)
    rwa [RedisProducer.dataFromFields, if_neg hname, hpass, hpair]
  | case5 name value fields hno ih =>
    have hpass : HasData (name :: value :: fields) ↔ HasData fields := by
      rw [hasData_cons_cons]
      refine or_iff_right ?_
      rintro ⟨hname, v, hvalue⟩
      exact hno _ v hname hvalue
    have hskip : RedisProducer.dataFromFields (name :: value :: fields) =
        RedisProducer.dataFromFields fields := by
      rw [RedisProducer.dataFromFields]
      exact hno
    rwa [hskip, hpass, hpair]

theorem messageFromEntry_fields (str : Bytes) (fields : List RedisReply) :
    RedisProducer.messageFromEntry (.array [.string str, .array fields]) =
      (RedisProducer.dataFromFields fields).map fun data => ⟨packText str, data⟩ := by
  rfl

/-- An entry of any other shape is rejected by a check. -/
theorem messageFromEntry_shape (entry : RedisReply) :
    (∃ str fields, entry = .array [.string str, .array fields]) ∨
      ∃ what, RedisProducer.messageFromEntry entry = .error (.runtimeError what) := by
  cases entry with
  | array element =>
    match element with
    | [] | [_] => exact Or.inr ⟨_, rfl⟩
    | [idReply, dataReply] =>
      cases idReply with
      | string str =>
        cases dataReply with
        | array fields => exact Or.inl ⟨str, fields, rfl⟩
        | _ => exact Or.inr ⟨_, rfl⟩
      | _ => exact Or.inr ⟨_, rfl⟩
    | _ :: _ :: _ :: rest => exact Or.inr ⟨_, rfl⟩
  | _ => exact Or.inr ⟨_, rfl⟩

/-- The entries that are read are the readable ones. -/
theorem readable_iff (entry : RedisReply) :
    Readable entry ↔ ∃ message, RedisProducer.messageFromEntry entry = .ok message := by
  constructor
  · rintro ⟨str, fields, rfl, hread⟩
    rcases dataFromFields_cases fields with ⟨-, data, hdata⟩ | ⟨hodd, hno, -⟩
    · exact ⟨_, by rw [messageFromEntry_fields, hdata]; rfl⟩
    · rcases hread with heven | hdata
      · omega
      · exact absurd hdata hno
  · rintro ⟨message, hmessage⟩
    rcases messageFromEntry_shape entry with ⟨str, fields, rfl⟩ | ⟨what, hwhat⟩
    · rcases dataFromFields_cases fields with ⟨hread, -⟩ | ⟨-, -, hdata⟩
      · exact ⟨str, fields, rfl, hread⟩
      · rw [messageFromEntry_fields, hdata] at hmessage
        cases hmessage
    · rw [hwhat] at hmessage
      cases hmessage

/-- The entries whose fields are read past the end are the overrun ones. -/
theorem overrun_iff (entry : RedisReply) :
    Overrun entry ↔ RedisProducer.messageFromEntry entry = .error .outOfBounds := by
  constructor
  · rintro ⟨str, fields, rfl, hodd, hno⟩
    rcases dataFromFields_cases fields with ⟨hread, -⟩ | ⟨-, -, hdata⟩
    · rcases hread with heven | hdata
      · omega
      · exact absurd hdata hno
    · rw [messageFromEntry_fields, hdata]
      rfl
  · intro hover
    rcases messageFromEntry_shape entry with ⟨str, fields, rfl⟩ | ⟨what, hwhat⟩
    · rcases dataFromFields_cases fields with ⟨-, data, hdata⟩ | ⟨hodd, hno, -⟩
      · rw [messageFromEntry_fields, hdata] at hover
        cases hover
      · exact ⟨str, fields, rfl, hodd, hno⟩
    · rw [hwhat] at hover
      cases hover

/-- The loop over the entries ends with the error of the first entry that is not read. -/
theorem messagesFromEntries_eq_error (entries : List RedisReply) (failure : Failure) :
    RedisProducer.messagesFromEntries entries = .error failure ↔
      ∃ pre entry post, entries = pre ++ entry :: post ∧
        (∀ e ∈ pre, ∃ message, RedisProducer.messageFromEntry e = .ok message) ∧
        RedisProducer.messageFromEntry entry = .error failure := by
  induction entries with
  | nil => simp [RedisProducer.messagesFromEntries]
  | cons first rest ih =>
    rw [RedisProducer.messagesFromEntries]
    simp only [List.cons_eq_append_iff]
    cases hfirst : RedisProducer.messageFromEntry first with
    | ok message =>
      have hrest : (do
          let messages ← RedisProducer.messagesFromEntries rest
          return message :: messages) = (.error failure : Except Failure Messages) ↔
          RedisProducer.messagesFromEntries rest = .error failure := by
        cases RedisProducer.messagesFromEntries rest <;> simp [bind, Except.bind, pure, Except.pure]
      refine hrest.trans (ih.trans ⟨?_, ?_⟩)
      · rintro ⟨pre, entry, post, rfl, hpre, hentry⟩
        refine ⟨first :: pre, entry, post, Or.inr ⟨pre, rfl, rfl⟩, fun e he => ?_, hentry⟩
        rcases List.mem_cons.1 he with rfl | he
        · exact ⟨message, hfirst⟩
        · exact hpre e he
      · rintro ⟨pre, entry, post, ⟨rfl, heq⟩ | ⟨tail, rfl, rfl⟩, hpre, hentry⟩
        · obtain ⟨rfl, -⟩ := List.cons.inj heq
          rw [hfirst] at hentry
          cases hentry
        · exact ⟨tail, entry, post, rfl, fun e he => hpre e (List.mem_cons_of_mem _ he), hentry⟩
    | error failure' =>
      constructor
      · intro h
        obtain rfl : failure' = failure := Except.error.inj h
        exact ⟨[], first, rest, Or.inl ⟨rfl, rfl⟩, by simp, hfirst⟩
      · rintro ⟨pre, entry, post, ⟨rfl, heq⟩ | ⟨tail, rfl, rfl⟩, hpre, hentry⟩
        · obtain ⟨rfl, -⟩ := List.cons.inj heq
          rw [hfirst] at hentry
          exact congrArg _ (Except.error.inj hentry)
        · obtain ⟨message, hmessage⟩ := hpre first List.mem_cons_self
          rw [hfirst] at hmessage
          cases hmessage

theorem overruns_iff (reply : RedisReply) :
    Overruns reply ↔ RedisProducer.messagesFromReply reply = .error .outOfBounds := by
  simp only [Overruns, readable_iff, overrun_iff]
  cases reply with
  | array element =>
    rw [RedisProducer.messagesFromReply, messagesFromEntries_eq_error]
    simp only [RedisReply.array.injEq]
  | _ => simp [RedisProducer.messagesFromReply, RedisProducer.unexpected]

/-- **Safe reading.**  No access to a reply is at fault exactly if the walk over its entries does
not come to one with an odd number of field elements and no value of `data`. -/
theorem safe_iff (reply : RedisReply) :
    (∀ fault, messagesFromReply reply ≠ .error (.fault fault)) ↔ ¬ Overruns reply := by
  rw [overruns_iff, messagesFromReply_eq]
  cases RedisProducer.messagesFromReply reply with
  | ok messages => simp [lift]
  | error failure => cases failure <;> simp [lift]

/-- An entry with a field name and no value: the loop reads `element[1]` of one element. -/
theorem reads_past_end :
    messagesFromReply (.array [.array [.string (ascii "1662737151107-0"),
      .array [.string (ascii "data")]]]) = .error (.fault .index) := by
  decide

end ReplyReader

end GatewayPoc
