import GatewayPoc.Core.Decimal

/-!
# The handler

`gwfront/src/handler/universal_handler.hpp`: `UniversalHandler` checks a payload and gives it to a
writer.  It is a template over the checker and the writer; the model is generic over both, and over
the state `σ` the writer works on.
-/

namespace GatewayPoc

/-- `Checker::Result`, the same for both checkers. -/
structure CheckResult where
  ok : Bool
  message : Bytes
  deriving DecidableEq, Repr

/-- `Writer::Error`, the same for both writers. -/
inductive WriteError where
  | ok
  | generic
  | storageUnavailable
  deriving DecidableEq, Repr

/-- `Writer::Result`, the same for both writers. -/
structure WriteResult where
  error : WriteError
  message : Bytes
  deriving DecidableEq, Repr

namespace UniversalHandler

/-- `IHandler::Error`. -/
inductive Error where
  | ok
  | generic
  | badData
  | storageUnavailable
  deriving DecidableEq, Repr

/-- `IHandler::Result`. -/
structure Result where
  error : Error
  message : Bytes
  deriving DecidableEq, Repr

/-- The error of a request whose write ended with `e`. -/
def Error.ofWrite : WriteError → Error
  | .ok => .ok
  | .generic => .generic
  | .storageUnavailable => .storageUnavailable

/-- The result of a write as the result of the request. -/
def resultOf (r : WriteResult) : Result :=
  match r.error with
  | .generic => ⟨.generic, r.message⟩
  | .storageUnavailable => ⟨.storageUnavailable, r.message⟩
  | .ok => ⟨.ok, []⟩

/-- `UniversalHandler::operator()`. -/
def call {σ : Type*} (check : Bytes → CheckResult) (write : Bytes → σ → σ × WriteResult)
    (data : Bytes) (s : σ) : σ × Result :=
  let checkResult := check data
  if checkResult.ok then
    let r := write data s
    (r.1, resultOf r.2)
  else (s, ⟨.badData, checkResult.message⟩)

variable {σ : Type*} {check : Bytes → CheckResult} {write : Bytes → σ → σ × WriteResult}
  {data : Bytes} {s : σ}

/-- A rejected payload never reaches the writer. -/
theorem call_of_rejected (h : (check data).ok = false) :
    call check write data s = (s, ⟨.badData, (check data).message⟩) := by
  simp [call, h]

theorem call_of_accepted (h : (check data).ok = true) :
    call check write data s = ((write data s).1, resultOf (write data s).2) := by
  simp [call, h]

theorem resultOf_error (r : WriteResult) : (resultOf r).error = .ofWrite r.error := by
  unfold resultOf
  cases r.error <;> rfl

end UniversalHandler

end GatewayPoc
