import GatewayPoc.Core.JsonText
import GatewayPoc.GwFront.FlatbuffersChecker
import GatewayPoc.GwFront.HttpSession
import GatewayPoc.GwFront.JsonChecker
import GatewayPoc.GwFront.PostgresWriter

/-!
# Error bodies as JSON

`HttpSession::handleRequest` announces its bodies as JSON and puts the message of an error between
double quotes as it is.

* `HttpSession.Tells` : a body is an object with the single member `error`, which is a message.
* `JsonChecker.check_message_plain`, `FlatbuffersChecker.check_message_plain` : what the checkers
  say needs no escapes, so `HttpSession.tells_of_rejected`.
* `HttpSession.tells_iff_plain` : **an error is told exactly if its message needs no escapes**, and
  `HttpSession.run_tells_iff_plain` over the runs of a session.
-/

namespace GatewayPoc

open JsonText (Plain plain_of_ascii plain_nil)

/-! ### The messages of the checkers -/

theorem plain_text (n : ℕ) : Plain (Decimal.text n) := by
  refine plain_of_ascii (List.all_eq_true.2 fun b hb => JsonText.isPlainAscii_iff.2 ?_)
  have hdigit := Decimal.isDigit_of_mem_text b hb
  simp only [Decimal.isDigit, Bool.and_eq_true, decide_eq_true_eq] at hdigit
  simp only [JsonText.quote, JsonText.backslash, ne_eq, ← UInt8.toNat_inj, UInt8.reduceToNat]
  omega

theorem plain_intName (i : ℕ) : Plain (intName i) :=
  (plain_of_ascii (by decide)).append (plain_text i)

theorem plain_doubleName (i : ℕ) : Plain (doubleName i) :=
  (plain_of_ascii (by decide)).append (plain_text i)

theorem plain_strName (i : ℕ) : Plain (strName i) :=
  (plain_of_ascii (by decide)).append (plain_text i)

theorem plain_missingMessage {field : Bytes} (h : Plain field) : Plain (missingMessage field) :=
  ((plain_of_ascii (by decide)).append h).append (plain_of_ascii (by decide))

/-- The names of the fields and what is asked of them are plain. -/
theorem JsonChecker.plain_of_mem_fields {f : Field} (h : f ∈ fields) :
    Plain f.name ∧ Plain f.complaint := by
  have hinteger : Plain (ascii "an integer") := plain_of_ascii (by decide)
  have hdouble : Plain (ascii "a double") := plain_of_ascii (by decide)
  have hstring : Plain (ascii "a string") := plain_of_ascii (by decide)
  simp only [fields, List.mem_append, List.mem_map] at h
  rcases h with (⟨i, -, rfl⟩ | ⟨i, -, rfl⟩) | ⟨i, -, rfl⟩
  · exact ⟨plain_intName i, hinteger⟩
  · exact ⟨plain_doubleName i, hdouble⟩
  · exact ⟨plain_strName i, hstring⟩

/-- Whatever the payload, what the checker of JSON says needs no escapes. -/
theorem JsonChecker.check_message_plain (parse : Bytes → Option Json) (data : Bytes) :
    Plain (check parse data).message := by
  cases hparse : parse data with
  | none =>
    simp only [check, hparse]
    exact plain_of_ascii (by decide)
  | some json =>
    rw [check_of_parse hparse]
    cases hfirst : fields.findSome? fun f => f.check json with
    | none => exact plain_nil
    | some result =>
      obtain ⟨f, hf, hcheck⟩ := List.exists_of_findSome?_eq_some hfirst
      obtain ⟨hname, hcomplaint⟩ := plain_of_mem_fields hf
      obtain ⟨-, rfl⟩ := Field.check_eq_some hcheck
      simp only [Option.getD_some, Field.message]
      cases json.find f.name with
      | none => exact plain_missingMessage hname
      | some j =>
        refine ((Plain.append ?_ hname).append ?_).append hcomplaint
        all_goals exact plain_of_ascii (by decide)

/-- Whatever the payload, what the checker of FlatBuffers says needs no escapes. -/
theorem FlatbuffersChecker.check_message_plain (fb : FlatBuffers) (data : Bytes) :
    Plain (check fb data).message := by
  unfold check
  by_cases hverified : fb.verifyInstrumentBuffer data = true
  · rw [if_pos hverified]
    cases hfirst : (List.finRange 32).findSome? (checkStr (fb.getInstrument data)) with
    | none => exact plain_nil
    | some result =>
      obtain ⟨i, -, hi⟩ := List.exists_of_findSome?_eq_some hfirst
      obtain rfl := checkStr_eq_some hi
      exact plain_missingMessage (plain_strName i)
  · rw [if_neg hverified]
    exact plain_of_ascii (by decide)

namespace HttpSession

open UniversalHandler (Result)

/-! ### The bodies -/

/-- The body is a JSON object with the single member `error`, which is the string `message`. -/
def Tells (body message : Bytes) : Prop :=
  JsonText.Parses body (.object [(ascii "error", .string message)])

/-- Without escapes, a message is told exactly if it needs none. -/
theorem tells_errorBody_iff {message : Bytes} :
    Tells (errorBody message) message ↔ Plain message := by
  have hbody : errorBody message =
      [JsonText.openBrace, JsonText.quote] ++ ascii "error" ++
        [JsonText.quote, JsonText.colon, 32, JsonText.quote] ++ message ++
        [JsonText.quote, JsonText.closeBrace] := rfl
  rw [Tells, hbody]
  exact JsonText.parses_member_iff (plain_of_ascii (by decide))

theorem tells_of_plain {message : Bytes} (h : Plain message) : Tells (errorBody message) message :=
  tells_errorBody_iff.2 h

variable {s : HttpSession} {request : Request} {result : Result}

/-- The body of the response to a request that ends with an error of the handler. -/
theorem responseTo_body_of_error (hfor : ForHandler request) (herror : result.error ≠ .ok) :
    (responseTo request result).body = errorBody result.message := by
  simp only [responseTo, answer, if_pos hfor]
  cases hresult : result.error with
  | ok => exact absurd hresult herror
  | _ => rfl

theorem handleRequest_body_of_error (hfor : ForHandler s.request) (herror : result.error ≠ .ok) :
    (s.handleRequest result).response.body = errorBody result.message := by
  rw [handleRequest_response]
  exact responseTo_body_of_error hfor herror

/-- The body of a response to a request that is not for the handler. -/
theorem handleRequest_body_of_not_forHandler (hfor : ¬ ForHandler s.request) :
    (s.handleRequest result).response.body =
      errorBody
        (ascii (if s.request.method = .post then "wrong path" else "wrong HTTP method")) := by
  rw [handleRequest_response]
  simp only [responseTo, answer, if_neg hfor]
  split_ifs <;> rfl

/-- A payload that is rejected by a checker with plain messages is told so. -/
theorem tells_of_rejected {σ : Type*} {check : Bytes → CheckResult}
    {write : Bytes → σ → σ × WriteResult} {st : σ} (hplain : ∀ data, Plain (check data).message)
    (hfor : ForHandler s.request) (hrejected : (check s.request.body).ok = false) :
    Tells (s.handleRequest (UniversalHandler.call check write s.request.body st).2).response.body
      (check s.request.body).message := by
  rw [UniversalHandler.call_of_rejected hrejected, handleRequest_body_of_error hfor (by simp)]
  exact tells_of_plain (hplain s.request.body)

/-- In every run of a session, the errors that are told are those with plain messages. -/
theorem run_tells_iff_plain {W : Type} {readInto : Request → W → Request} {es : List (Event W)}
    {k : ℕ} {r : Response}
    (h : (machine readInto).runIf Machine.anyStep start es = some s)
    (hk : (requests readInto es)[k]? = some (request, result)) (hr : s.responses[k]? = some r)
    (hfor : ForHandler request) (herror : result.error ≠ .ok) :
    Tells r.body result.message ↔ Plain result.message := by
  rw [(serves_of_run h).responses, List.getElem?_map, hk] at hr
  obtain rfl : responseTo request result = r := Option.some.inj hr
  rw [responseTo_body_of_error hfor herror]
  exact tells_errorBody_iff

/-- **An error is told exactly if its message needs no escapes.**  The two errors that the session
finds itself are always told. -/
theorem tells_iff_plain (s : HttpSession) (result : Result) :
    (ForHandler s.request → result.error ≠ .ok →
      (Tells (s.handleRequest result).response.body result.message ↔ Plain result.message)) ∧
    (¬ ForHandler s.request →
      Tells (s.handleRequest result).response.body
        (ascii (if s.request.method = .post then "wrong path" else "wrong HTTP method"))) := by
  constructor
  · intro hfor herror
    rw [handleRequest_body_of_error hfor herror]
    exact tells_errorBody_iff
  · intro hfor
    rw [handleRequest_body_of_not_forHandler hfor]
    refine tells_of_plain ?_
    split_ifs <;> exact plain_of_ascii (by decide)

/-- What `libpqxx` throws if nobody has created the table. -/
def tableMissing : Bytes :=
  ascii "ERROR:  relation \"messages\" does not exist\n" ++
    ascii "LINE 1: INSERT INTO messages (data) VALUES ($1)\n                    ^\n"

/-- A round of `PostgresWriter::write` in this case. -/
def tableMissingTry : PostgresWriter.Try := ⟨.done, .done, .failed tableMissing, .done⟩

/-- The session after a payload was read. -/
def payloadRead : HttpSession :=
  { start with request := ⟨.post, instrumentPath, 11, true, ascii "payload"⟩ }

/-- What the handler over `PostgresWriter` returns in this case. -/
def tableMissingResult : Result :=
  (UniversalHandler.call (fun _ => ⟨true, []⟩) (PostgresWriter.write 0 fun _ => tableMissingTry)
    (ascii "payload") ⟨[], [], []⟩).2

theorem tells_iff_plain_sample :
    Tells (payloadRead.handleRequest ⟨.storageUnavailable, ascii "Lost connection"⟩).response.body
      (ascii "Lost connection") := by
  refine ((tells_iff_plain payloadRead ⟨.storageUnavailable, ascii "Lost connection"⟩).1
    (by decide) (by decide)).2 ?_
  exact plain_of_ascii (by decide)

theorem table_missing_not_told :
    ForHandler payloadRead.request ∧ tableMissingResult = ⟨.generic, tableMissing⟩ ∧
      ¬ Tells (payloadRead.handleRequest tableMissingResult).response.body tableMissing := by
  have hresult : tableMissingResult = ⟨.generic, tableMissing⟩ := by decide +kernel
  refine ⟨by decide, hresult, ?_⟩
  rw [hresult, handleRequest_body_of_error (by decide) (by decide), tells_errorBody_iff]
  intro hplain
  -- the double quote before `messages`
  have hquote : JsonText.quote ∈ tableMissing := by decide +kernel
  exact (hplain.clean _ hquote).2.1 rfl

end HttpSession

end GatewayPoc
