import GatewayPoc.Core.Machine
import GatewayPoc.GwFront.UniversalHandler
import Mathlib.Data.List.Induction

/-!
# A session

`gwfront/src/http/session.cpp`: `HttpSession` reads a request, handles it, writes the response and
reads again while the response keeps the connection alive.  `request_` and `response_` are members
and are used again for every request.

* `HttpSession.machine` : the completions of `async_read` and `async_write`, in order.
* `HttpSession.responseTo` : the response to a request, as a function of the request and of the
  handler's result.  `handleRequest_response` : what `handleRequest` makes of the members is this.
* `HttpSession.serves_in_order` : **a session answers its requests one by one, each from itself
  alone**.
-/

namespace GatewayPoc

/-- `boost::beast::http::verb`; the source names one. -/
inductive Verb where
  | post
  | other (name : Bytes)
  deriving DecidableEq, Repr

/-- `boost::beast::http::request<string_body>`, with what the source asks it for. -/
structure Request where
  method : Verb
  target : Bytes
  version : ℕ
  keepAlive : Bool
  body : Bytes
  deriving DecidableEq, Repr

/-- `boost::beast::http::status`. -/
inductive Status where
  | ok
  | accepted
  | badRequest
  | methodNotAllowed
  | internalServerError
  | serviceUnavailable
  deriving DecidableEq, Repr

/-- `boost::beast::http::response<string_body>`, with what the source sets. -/
structure Response where
  version : ℕ
  status : Status
  keepAlive : Bool
  contentType : Option Bytes
  body : Bytes
  contentLength : Option ℕ
  deriving DecidableEq, Repr

/-- A request that nothing was read into. -/
def Request.empty : Request := ⟨.other [], [], 11, true, []⟩

/-- A response that nothing was set in. -/
def Response.empty : Response := ⟨11, .ok, true, none, [], none⟩

/-- An operation that has not completed. -/
inductive Operation where
  | asyncRead
  | asyncWrite
  deriving DecidableEq, Repr

/-- `HttpSession`.  The last three fields are logs: the bodies given to the handler, the responses
given to `async_write`, and those it has written. -/
structure HttpSession where
  request : Request
  response : Response
  outstanding : Option Operation
  /-- `close` was called. -/
  shutdown : Bool
  calls : List Bytes
  responses : List Response
  delivered : List Response
  deriving DecidableEq, Repr

/-- The error code of an `async_read`. -/
inductive ReadError where
  | endOfStream
  | connectionReset
  | other (message : Bytes)
  deriving DecidableEq, Repr

namespace HttpSession

open UniversalHandler (Result)

/-- `INSTRUMENT_PATH`. -/
def instrumentPath : Bytes := ascii "/instrument"

/-- `JSON_CONTENT_TYPE`. -/
def jsonContentType : Bytes := ascii "text/json"

/-- The body of a response to a request that the handler did not take. -/
def errorBody (message : Bytes) : Bytes :=
  ascii "\x7b\"error\": \"" ++ message ++ ascii "\"\x7d"

/-- `response_.prepare_payload()`. -/
def preparePayload (r : Response) : Response := { r with contentLength := some r.body.length }

/-- `HttpSession::read`. -/
def read (s : HttpSession) : HttpSession :=
  { s with request := .empty, outstanding := some .asyncRead }

/-- `HttpSession::close`. -/
def close (s : HttpSession) : HttpSession := { s with shutdown := true }

/-- The `switch` over the error of the handler's result. -/
def setResult (r : Response) (result : Result) : Response :=
  match result.error with
  -- the body stays what `response_ = {}` left
  | .ok => { r with status := .accepted }
  | .badData => { r with status := .badRequest, body := errorBody result.message }
  | .storageUnavailable =>
    { r with status := .serviceUnavailable, body := errorBody result.message }
  | .generic => { r with status := .internalServerError, body := errorBody result.message }

/-- `HttpSession::handleRequest`; `result` is what the handler returns, if it is called. -/
def handleRequest (s : HttpSession) (result : Result) : HttpSession :=
  let s := { s with response := .empty }
  let s := { s with response := { s.response with version := s.request.version } }
  let s := { s with response := { s.response with keepAlive := s.request.keepAlive } }
  let s := { s with response := { s.response with contentType := some jsonContentType } }
  let s :=
    if s.request.method ≠ .post then
      { s with response := { s.response with
          status := .methodNotAllowed
          body := errorBody (ascii "wrong HTTP method") } }
    else if s.request.target ≠ instrumentPath then
      { s with response := { s.response with
          status := .badRequest
          body := errorBody (ascii "wrong path") } }
    else
      { s with
        calls := s.calls ++ [s.request.body]
        response := setResult s.response result }
  { s with response := preparePayload s.response }

variable {W : Type}

/-- How an operation completes; `W` is what a request is on the wire. -/
inductive Event (W : Type) where
  /-- `result` is what the handler returns for this request, if it is called. -/
  | read (wire : W) (result : Result)
  | readFailed (ec : ReadError)
  | written
  | writeFailed (message : Bytes)
  deriving DecidableEq, Repr

/-- `HttpSession::onRead`.  `readInto` is the parser of `boost::beast`, which goes on from the
message it is given. -/
def onRead (readInto : Request → W → Request) (s : HttpSession) : Except ReadError (W × Result) →
    HttpSession
  | .error .endOfStream => s.close
  | .error .connectionReset => s.close
  | .error (.other _) => s.close
  | .ok (wire, result) =>
    let s := { s with request := readInto s.request wire }
    let s := s.handleRequest result
    { s with outstanding := some .asyncWrite, responses := s.responses ++ [s.response] }

/-- The response is written. -/
def deliver (s : HttpSession) : HttpSession := { s with delivered := s.delivered ++ [s.response] }

/-- `HttpSession::onWrite`; `ok` says that there is no error. -/
def onWrite (s : HttpSession) (ok : Bool) : HttpSession :=
  if ok = true then
    if s.response.keepAlive = true then s.deliver.read else s.deliver.close
  else s.close

/-- The state a completion leads to. -/
def next (readInto : Request → W → Request) (s : HttpSession) : Event W → Option HttpSession
  | .read wire result =>
    if s.outstanding = some .asyncRead then
      some (onRead readInto { s with outstanding := none } (.ok (wire, result)))
    else none
  | .readFailed ec =>
    if s.outstanding = some .asyncRead then
      some (onRead readInto { s with outstanding := none } (.error ec))
    else none
  | .written =>
    if s.outstanding = some .asyncWrite then some (onWrite { s with outstanding := none } true)
    else none
  | .writeFailed _ =>
    if s.outstanding = some .asyncWrite then some (onWrite { s with outstanding := none } false)
    else none

/-- A new session, after `HttpSession::run`. -/
def start : HttpSession := read ⟨.empty, .empty, none, false, [], [], []⟩

/-- A session as a state machine. -/
def machine (readInto : Request → W → Request) : Machine HttpSession (Event W) where
  init s := s = start
  next := next readInto

/-! ### One request -/

/-- The handler is called for this request. -/
def ForHandler (request : Request) : Prop :=
  request.method = .post ∧ request.target = instrumentPath

instance (request : Request) : Decidable (ForHandler request) :=
  inferInstanceAs (Decidable (_ ∧ _))

/-- The status and the body of a response. -/
def answer (request : Request) (result : Result) : Status × Bytes :=
  if ForHandler request then
    match result.error with
    | .ok => (.accepted, [])
    | .badData => (.badRequest, errorBody result.message)
    | .storageUnavailable => (.serviceUnavailable, errorBody result.message)
    | .generic => (.internalServerError, errorBody result.message)
  else if request.method = .post then (.badRequest, errorBody (ascii "wrong path"))
  else (.methodNotAllowed, errorBody (ascii "wrong HTTP method"))

/-- The response to a request, if the handler returns `result` for it. -/
def responseTo (request : Request) (result : Result) : Response where
  version := request.version
  status := (answer request result).1
  keepAlive := request.keepAlive
  contentType := some jsonContentType
  body := (answer request result).2
  contentLength := some (answer request result).2.length

variable {s s' : HttpSession} {request : Request} {result result' : Result}

/-- Without a call of the handler its result does not matter. -/
theorem responseTo_of_not_forHandler (h : ¬ ForHandler request) :
    responseTo request result = responseTo request result' := by
  simp only [responseTo, answer, if_neg h]

/-- Only the handler's `OK` is answered with 202. -/
theorem responseTo_accepted_iff :
    (responseTo request result).status = .accepted ↔ ForHandler request ∧ result.error = .ok := by
  by_cases h : ForHandler request
  · simp only [responseTo, answer, if_pos h]
    cases result.error <;> simp [h]
  · simp only [responseTo, answer, if_neg h]
    split_ifs <;> simp [h]

/-- Whatever the members held, `handleRequest` leaves the response to the request. -/
theorem handleRequest_response (s : HttpSession) (result : Result) :
    (s.handleRequest result).response = responseTo s.request result := by
  by_cases hmethod : s.request.method = .post
  · by_cases htarget : s.request.target = instrumentPath
    · have hfor : ForHandler s.request := ⟨hmethod, htarget⟩
      simp only [handleRequest, responseTo, answer, hmethod, htarget, hfor, setResult]
      cases result.error <;> rfl
    · have hfor : ¬ ForHandler s.request := fun h => htarget h.2
      simp [handleRequest, responseTo, answer, hmethod, htarget, hfor, preparePayload]
  · have hfor : ¬ ForHandler s.request := fun h => hmethod h.1
    simp [handleRequest, responseTo, answer, hmethod, hfor, preparePayload]

/-- The handler is called once if the request is for it, and not at all if it is not. -/
theorem handleRequest_calls (s : HttpSession) (result : Result) :
    (s.handleRequest result).calls =
      s.calls ++ if ForHandler s.request then [s.request.body] else [] := by
  by_cases hmethod : s.request.method = .post
  · by_cases htarget : s.request.target = instrumentPath
    · simp [handleRequest, hmethod, htarget, ForHandler]
    · simp [handleRequest, hmethod, htarget, ForHandler]
  · simp [handleRequest, hmethod, ForHandler]

/-- The rest of the session is as it was. -/
theorem handleRequest_rest (s : HttpSession) (result : Result) :
    (s.handleRequest result).request = s.request ∧
      (s.handleRequest result).responses = s.responses ∧
      (s.handleRequest result).delivered = s.delivered ∧
      (s.handleRequest result).shutdown = s.shutdown := by
  unfold handleRequest
  dsimp only
  split_ifs <;> exact ⟨rfl, rfl, rfl, rfl⟩

/-! ### What a completion does -/

variable {readInto : Request → W → Request} {wire : W}

/-- A request is handled, and its response is given to `async_write`. -/
theorem next_read (hn : next readInto s (.read wire result) = some s') :
    s.outstanding = some .asyncRead ∧ s'.outstanding = some .asyncWrite ∧
      s'.response = responseTo (readInto s.request wire) result ∧
      s'.calls = s.calls ++ (if ForHandler (readInto s.request wire)
        then [(readInto s.request wire).body] else []) ∧
      s'.responses = s.responses ++ [s'.response] ∧ s'.delivered = s.delivered := by
  simp only [next] at hn
  split_ifs at hn with hreading
  obtain rfl := Option.some.inj hn
  let s₁ : HttpSession := { s with outstanding := none, request := readInto s.request wire }
  obtain ⟨-, hresponses, hdelivered, -⟩ := handleRequest_rest s₁ result
  refine ⟨hreading, rfl, handleRequest_response s₁ result, handleRequest_calls s₁ result, ?_,
    hdelivered⟩
  change (s₁.handleRequest result).responses ++ [(s₁.handleRequest result).response] = _
  rw [hresponses]
  rfl

/-- A read that fails closes the session. -/
theorem next_readFailed {ec : ReadError} (hn : next readInto s (.readFailed ec) = some s') :
    s.outstanding = some .asyncRead ∧ s' = close { s with outstanding := none } := by
  simp only [next] at hn
  split_ifs at hn with hreading
  obtain rfl := Option.some.inj hn
  refine ⟨hreading, ?_⟩
  cases ec <;> rfl

/-- A response that is written is followed by the next read if it keeps the connection alive. -/
theorem next_written (hn : next readInto s .written = some s') :
    s.outstanding = some .asyncWrite ∧
      s' = { s with
        delivered := s.delivered ++ [s.response]
        request := if s.response.keepAlive = true then .empty else s.request
        outstanding := if s.response.keepAlive = true then some .asyncRead else none
        shutdown := if s.response.keepAlive = true then s.shutdown else true } := by
  simp only [next] at hn
  split_ifs at hn with hwriting
  obtain rfl := Option.some.inj hn
  refine ⟨hwriting, ?_⟩
  simp only [onWrite, deliver, read, close]
  cases s.response.keepAlive <;> rfl

/-- A write that fails closes the session. -/
theorem next_writeFailed {message : Bytes}
    (hn : next readInto s (.writeFailed message) = some s') :
    s.outstanding = some .asyncWrite ∧ s' = close { s with outstanding := none } := by
  simp only [next] at hn
  split_ifs at hn with hwriting
  obtain rfl := Option.some.inj hn
  exact ⟨hwriting, rfl⟩

/-- A session that has nothing outstanding does nothing any more. -/
theorem next_of_none (h : s.outstanding = none) (e : Event W) : next readInto s e = none := by
  cases e <;> simp only [next, h, reduceCtorEq, if_false]

/-! ### Runs -/

/-- The request an event brings, with the handler's result for it. -/
def Event.request? (readInto : Request → W → Request) : Event W → Option (Request × Result)
  | .read wire result => some (readInto .empty wire, result)
  | _ => none

/-- The requests of a run, in order. -/
def requests (readInto : Request → W → Request) (es : List (Event W)) : List (Request × Result) :=
  es.filterMap (Event.request? readInto)

/-- The event is a read error, a write error, or the end of the write of a response that does not
keep the connection alive; `last` is that response. -/
def Event.stops (last : Option Response) : Event W → Bool
  | .read _ _ => false
  | .readFailed _ => true
  | .written => last.any fun r => !r.keepAlive
  | .writeFailed _ => true

/-- What a run has done. -/
structure Serves (readInto : Request → W → Request) (es : List (Event W)) (s : HttpSession) :
    Prop where
  responses : s.responses = (requests readInto es).map fun p => responseTo p.1 p.2
  calls : s.calls = ((requests readInto es).filter fun p => ForHandler p.1).map fun p => p.1.body
  /-- Nothing of the last request is left when the next one is read. -/
  reading : s.outstanding = some .asyncRead → s.request = .empty ∧ s.delivered = s.responses
  writing : s.outstanding = some .asyncWrite → s.responses = s.delivered ++ [s.response]
  closed : s.outstanding = none → s.delivered = s.responses ∨ ∃ r, s.responses = s.delivered ++ [r]
  stopped : s.outstanding = none ↔ es.getLast?.any (Event.stops s.responses.getLast?) = true

variable {es : List (Event W)} {e : Event W}

theorem requests_concat_some {p : Request × Result} (h : e.request? readInto = some p) :
    requests readInto (es ++ [e]) = requests readInto es ++ [p] := by
  simp [requests, List.filterMap_append, h]

theorem requests_concat_none (h : e.request? readInto = none) :
    requests readInto (es ++ [e]) = requests readInto es := by
  simp [requests, List.filterMap_append, h]

theorem serves_start : Serves readInto [] start where
  responses := rfl
  calls := rfl
  reading _ := ⟨rfl, rfl⟩
  writing h := by cases h
  closed h := by cases h
  stopped := by simp [start, read]

/-- An event that brings no request leaves nothing to answer. -/
theorem Serves.answered (h : Serves readInto es s) (he : e.request? readInto = none) :
    s.responses = (requests readInto (es ++ [e])).map (fun p => responseTo p.1 p.2) ∧
      s.calls =
        ((requests readInto (es ++ [e])).filter fun p => ForHandler p.1).map fun p => p.1.body := by
  rw [requests_concat_none he]
  exact ⟨h.responses, h.calls⟩

/-- Every completion keeps this. -/
theorem Serves.next (h : Serves readInto es s) (hn : next readInto s e = some s') :
    Serves readInto (es ++ [e]) s' := by
  cases e with
  | read wire result =>
    obtain ⟨hreading, hout, hresponse, hcalls, hresponses, hdelivered⟩ := next_read hn
    -- `read` has emptied `request_`, so the parser started from an empty message
    obtain ⟨hempty, hall⟩ := h.reading hreading
    rw [hempty] at hresponse hcalls
    have hrequests : requests readInto (es ++ [.read wire result]) =
        requests readInto es ++ [(readInto .empty wire, result)] := requests_concat_some rfl
    refine ⟨?_, ?_, ?_, ?_, ?_, ?_⟩
    · rw [hrequests, hresponses, hresponse, h.responses]
      simp
    · rw [hrequests, hcalls, h.calls, List.filter_append, List.map_append]
      by_cases hfor : ForHandler (readInto .empty wire) <;> simp [hfor]
    · rw [hout]
      rintro ⟨⟩
    · intro _
      rw [hresponses, hdelivered, hall]
    · rw [hout]
      rintro ⟨⟩
    · rw [hout]
      simp [Event.stops]
  | readFailed ec =>
    obtain ⟨hreading, rfl⟩ := next_readFailed hn
    exact {
      responses := (h.answered rfl).1
      calls := (h.answered rfl).2
      reading := by rintro ⟨⟩
      writing := by rintro ⟨⟩
      closed := fun _ => Or.inl (h.reading hreading).2
      stopped := by simp [close, Event.stops] }
  | written =>
    obtain ⟨hwriting, rfl⟩ := next_written hn
    have hlast : s.responses = s.delivered ++ [s.response] := h.writing hwriting
    exact {
      responses := (h.answered rfl).1
      calls := (h.answered rfl).2
      reading := by
        intro hout
        cases hkeep : s.response.keepAlive <;> simp [hkeep] at hout
        simp [hlast]
      writing := by
        intro hout
        cases hkeep : s.response.keepAlive <;> simp [hkeep] at hout
      closed := fun _ => Or.inl hlast.symm
      stopped := by
        cases hkeep : s.response.keepAlive <;> simp [Event.stops, hlast, hkeep] }
  | writeFailed message =>
    obtain ⟨hwriting, rfl⟩ := next_writeFailed hn
    exact {
      responses := (h.answered rfl).1
      calls := (h.answered rfl).2
      reading := by rintro ⟨⟩
      writing := by rintro ⟨⟩
      closed := fun _ => Or.inr ⟨s.response, h.writing hwriting⟩
      stopped := by simp [close, Event.stops] }

theorem serves_of_run (h : (machine readInto).runIf Machine.anyStep start es = some s) :
    Serves readInto es s := by
  induction es using List.reverseRecOn generalizing s with
  | nil =>
    obtain rfl : start = s := by simpa [Machine.runIf] using h
    exact serves_start
  | append_singleton es e ih =>
    rw [Machine.runIf_concat] at h
    obtain ⟨s₁, hrun, hn⟩ := Option.bind_eq_some_iff.1 h
    rw [if_pos (show Machine.anyStep s₁ e from trivial)] at hn
    exact (ih hrun).next hn

/-- **Requests are served one by one, without leakage.**  In every run of a session each request
gets one response, in order, and each request for the handler one call of it; the session ends with
the first read error, write error or response that does not keep it alive, and then nothing happens
any more.  A response is that of its request and of the handler's result for it: the same in every
run, 202 exactly if the handler said `OK`. -/
theorem serves_in_order (h : (machine readInto).runIf Machine.anyStep start es = some s) :
    s.responses = (requests readInto es).map (fun p => responseTo p.1 p.2) ∧
    (s.delivered = s.responses ∨ ∃ r, s.responses = s.delivered ++ [r]) ∧
    (s.outstanding = some .asyncRead → s.delivered = s.responses) ∧
    s.calls = ((requests readInto es).filter fun p => ForHandler p.1).map (fun p => p.1.body) ∧
    (s.outstanding = none ↔ es.getLast?.any (Event.stops s.responses.getLast?) = true) ∧
    (s.outstanding = none → ∀ e, next readInto s e = none) ∧
    (∀ (es' : List (Event W)) (s' : HttpSession) (k : ℕ),
      (machine readInto).runIf Machine.anyStep start es' = some s' →
      (requests readInto es')[k]? = (requests readInto es)[k]? →
      s'.responses[k]? = s.responses[k]?) ∧
    (∀ (k : ℕ) (request : Request) (result : Result) (r : Response),
      (requests readInto es)[k]? = some (request, result) →
      s.responses[k]? = some r →
      (r.status = .accepted ↔ ForHandler request ∧ result.error = .ok) ∧
      (¬ ForHandler request → ∀ result', r = responseTo request result')) := by
  have hs := serves_of_run h
  refine ⟨hs.responses, ?_, fun hout => (hs.reading hout).2, hs.calls, hs.stopped, next_of_none,
    ?_, ?_⟩
  · cases hout : s.outstanding with
    | none => exact hs.closed hout
    | some operation =>
      cases operation with
      | asyncRead => exact Or.inl (hs.reading hout).2
      | asyncWrite => exact Or.inr ⟨s.response, hs.writing hout⟩
  · intro es' s' k h' hk
    rw [(serves_of_run h').responses, hs.responses, List.getElem?_map, List.getElem?_map, hk]
  · intro k request result r hrequest hr
    rw [hs.responses, List.getElem?_map, hrequest] at hr
    obtain rfl : responseTo request result = r := Option.some.inj hr
    exact ⟨responseTo_accepted_iff, fun hfor result' => responseTo_of_not_forHandler hfor⟩

/-- A payload is taken, a request with the wrong method is not, and the peer leaves. -/
def sampleRun : List (Event Request) :=
  [.read ⟨.post, instrumentPath, 11, true, ascii "payload"⟩ ⟨.ok, []⟩, .written,
    .read ⟨.other (ascii "GET"), instrumentPath, 11, true, []⟩ ⟨.ok, []⟩, .written,
    .readFailed .endOfStream]

theorem serves_in_order_sample :
    ∃ s, (machine fun _ wire => wire).runIf Machine.anyStep start sampleRun = some s ∧
      s.responses.map Response.status = [.accepted, .methodNotAllowed] ∧
      s.calls = [ascii "payload"] ∧ s.outstanding = none := by
  obtain ⟨s, hrun⟩ : ∃ s, (machine fun _ wire => wire).runIf Machine.anyStep start sampleRun =
      some s := Option.isSome_iff_exists.1 (by decide +kernel)
  obtain ⟨hresponses, -, -, hcalls, hstopped, -⟩ := serves_in_order hrun
  refine ⟨s, hrun, ?_, ?_, hstopped.2 rfl⟩
  · rw [hresponses]
    decide +kernel
  · rw [hcalls]
    decide +kernel

end HttpSession

end GatewayPoc
