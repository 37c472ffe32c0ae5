import DockLattice.Operation.Types

/-!
# DockLattice.Server.Response

An operation record on its way to the Server: the Agent's response (`responseFromRecord` of
`agentops/service.go`), the wire form of its times (`producttransport/grpc.go`), and the check with
which the Server takes it in (`operationFromAgent` of `serverapi/backend.go`).
-/

namespace DockLattice.Server

open Bytes Operation

inductive ServerError where
  | corruptData (boundary : String)
  | conflict (message : String)
  | notFound (message : String)
  | invalidRequest (message : String)
  | unavailable (message : String)
  | internal (message : String)
  deriving DecidableEq, Repr

/-! ## The Agent's response -/

structure Response where
  status : Text
  phase : Text
  revision : Nat
  partialEffectsPossible : Bool
  error : Text
  outputTail : Text
  outputTruncated : Bool
  cancelMode : Text
  canCancel : Bool
  cancelabilityReason : Text
  requestedAt : Time
  startedAt : Time
  finishedAt : Time
  deriving DecidableEq, Repr

def operationCancelability (r : Record) : Bool × Text :=
  if r.status.terminal then (false, text "operation is terminal")
  else if !r.cancelRequestedAt.isZero then (false, text "cancellation already requested")
  else if r.cancelMode == .none then (false, text "operation is not cancelable")
  else if r.cancelMode == .beforeCommit && !r.commitStartedAt.isZero then
    (false, text "commit has started")
  else (true, [])

def responseFromRecord (r : Record) : Response where
  status := r.status.text
  phase := r.phase.text
  revision := r.revision
  partialEffectsPossible := r.partialEffectsPossible
  error := r.error
  outputTail := r.outputTail
  outputTruncated := r.outputTruncated
  cancelMode := r.cancelMode.text
  canCancel := (operationCancelability r).1
  cancelabilityReason := (operationCancelability r).2
  requestedAt := r.requestedAt
  startedAt := r.startedAt
  finishedAt := r.finishedAt

def timeToUnixNano (t : Time) : Int := if t.isZero then 0 else Int.bmod t (2 ^ 64)

def unixNanoToTime (value : Int) : Time := if value ≤ 0 then zeroTime else value

def wireTime (t : Time) : Time := unixNanoToTime (timeToUnixNano t)

def Response.overWire (r : Response) : Response :=
  { r with
    requestedAt := wireTime r.requestedAt
    startedAt := wireTime r.startedAt
    finishedAt := wireTime r.finishedAt }

/-! ## The Server's check -/

/-- `webui.Operation`, without the identity fields that `operationFromAgent` leaves empty. -/
structure WebOperation where
  id : Text
  status : Text
  phase : Text
  revision : Nat
  cancelMode : Text
  canCancel : Bool
  cancelabilityReason : Text
  requestedAt : Option Time
  startedAt : Option Time
  finishedAt : Option Time
  partialEffectsPossible : Bool
  error : Text
  outputTail : Text
  outputTruncated : Bool
  deriving DecidableEq, Repr

def defaultMaxMessageBytes : Nat := 2 ^ 20

def maxOperationOutputBytes : Nat := 64 * 2 ^ 10

def validCancelMode (value : Text) : Bool :=
  [[], text "NONE", text "SAFE", text "BEST_EFFORT_PARTIAL", text "BEFORE_COMMIT"].contains value

def year2000 : Time := 946684800 * second

def before2000 (t : Time) : Bool := !t.isZero && t < year2000

def validOperationTimes (requested started finished : Time) : Bool :=
  !(before2000 requested || before2000 started || before2000 finished) &&
    !(!requested.isZero && !started.isZero && started < requested) &&
    !(!finished.isZero &&
      ((!started.isZero && finished < started) ||
        (started.isZero && !requested.isZero && finished < requested)))

def timePointer (t : Time) : Option Time := if t.isZero then none else some t

def Response.acceptable (r : Response) : Bool :=
  r.revision < 2 ^ 63 && !r.status.isEmpty && r.status.length ≤ 128 && !r.phase.isEmpty &&
    r.phase.length ≤ 128 && r.error.length ≤ defaultMaxMessageBytes &&
    r.outputTail.length ≤ maxOperationOutputBytes && Utf8.valid r.outputTail &&
    Utf8.valid r.status && Utf8.valid r.phase && Utf8.valid r.error &&
    validCancelMode r.cancelMode && r.cancelabilityReason.length ≤ 1024 &&
    Utf8.valid r.cancelabilityReason &&
    validOperationTimes r.requestedAt r.startedAt r.finishedAt

def operationFromAgent (operationId : Text) (r : Response) : Except ServerError WebOperation :=
  if r.acceptable then
    .ok
      { id := operationId
        status := r.status
        phase := r.phase
        revision := r.revision
        cancelMode := r.cancelMode
        canCancel := r.canCancel
        cancelabilityReason := r.cancelabilityReason
        requestedAt := timePointer r.requestedAt
        startedAt := timePointer r.startedAt
        finishedAt := timePointer r.finishedAt
        partialEffectsPossible := r.partialEffectsPossible
        error := r.error
        outputTail := r.outputTail
        outputTruncated := r.outputTruncated }
  else .error (.corruptData "Agent operation response")

theorem operationFromAgent_isOk {operationId : Text} {r : Response} :
    (∃ op, operationFromAgent operationId r = .ok op) ↔ r.acceptable = true := by
  unfold operationFromAgent
  split <;> simp_all

theorem operationFromAgent_revision {id : Text} {response : Response} {op : WebOperation}
    (h : operationFromAgent id response = .ok op) : op.revision = response.revision := by
  unfold operationFromAgent at h
  split at h
  · cases h; rfl
  · cases h

theorem exists_ok_of_decide {ε α : Type} {x : Except ε α} {P : α → Prop} [DecidablePred P]
    (h : x.toOption.any (fun a => decide (P a)) = true) : ∃ a, x = .ok a ∧ P a := by
  cases x with
  | error e => cases h
  | ok a => exact ⟨a, rfl, of_decide_eq_true h⟩

end DockLattice.Server
