import DockLattice.Lib.JsonTime
import DockLattice.Lib.Utf8

/-!
# DockLattice.Operation.Types

The vocabulary of the Agent's operation engine (`operation/types.go`): kinds, states, phases,
cancel modes and the record of one operation.

The source's string types are enumerations here; `text` gives the string that is stored and sent,
and `Kind.parse` is `Type.Valid` as a reading of such a string. Times are instants in nanoseconds
since the epoch, with Go's zero time among them, because the source uses the zero time for "not
yet".
-/

namespace DockLattice.Operation

open Bytes

/-! ## Times -/

abbrev Time := Int

/-- The zero `time.Time`: 0001-01-01T00:00:00Z. -/
def zeroTime : Time := -62135596800 * second

def Time.isZero (t : Time) : Bool := t == zeroTime

/-! ## Enumerations -/

inductive Kind where
  | containerStart | containerStop | containerRestart | containerRemove
  | composePull | composeUp | composeDown | composeStart | composeStop | composeRestart
  | composeFileWrite | envWrite | overrideWrite
  | backupCreate | backupRestore
  | discoveryRescan
  deriving DecidableEq, Repr

namespace Kind

def text : Kind → Text
  | containerStart => DockLattice.text "container.start"
  | containerStop => DockLattice.text "container.stop"
  | containerRestart => DockLattice.text "container.restart"
  | containerRemove => DockLattice.text "container.remove"
  | composePull => DockLattice.text "compose.pull"
  | composeUp => DockLattice.text "compose.up"
  | composeDown => DockLattice.text "compose.down"
  | composeStart => DockLattice.text "compose.start"
  | composeStop => DockLattice.text "compose.stop"
  | composeRestart => DockLattice.text "compose.restart"
  | composeFileWrite => DockLattice.text "compose.file.write"
  | envWrite => DockLattice.text "env.write"
  | overrideWrite => DockLattice.text "override.write"
  | backupCreate => DockLattice.text "backup.create"
  | backupRestore => DockLattice.text "backup.restore"
  | discoveryRescan => DockLattice.text "discovery.rescan"

def all : List Kind :=
  [containerStart, containerStop, containerRestart, containerRemove, composePull, composeUp,
    composeDown, composeStart, composeStop, composeRestart, composeFileWrite, envWrite,
    overrideWrite, backupCreate, backupRestore, discoveryRescan]

/-- The kind a string names, if `Type.Valid` accepts it. -/
def parse (s : Text) : Option Kind := all.find? fun k => k.text == s

theorem text_of_parse {s : Text} {k : Kind} (h : parse s = some k) : k.text = s := by
  simpa using List.find?_some h

def isContainerOperation : Kind → Bool
  | containerStart | containerStop | containerRestart | containerRemove => true
  | _ => false

def isComposeOperation : Kind → Bool
  | composePull | composeUp | composeDown | composeStart | composeStop | composeRestart => true
  | _ => false

def isFileWriteOperation : Kind → Bool
  | composeFileWrite | envWrite | overrideWrite => true
  | _ => false

def isBackupOperation : Kind → Bool
  | backupCreate | backupRestore => true
  | _ => false

def isManagedProjectOperation (k : Kind) : Bool :=
  k.isComposeOperation || k.isFileWriteOperation || k.isBackupOperation

def requiresProjectLock : Kind → Bool
  | discoveryRescan => false
  | _ => true

end Kind

def isSafeByte (b : Byte) : Bool :=
  (0x41 ≤ b && b ≤ 0x5A) || (0x61 ≤ b && b ≤ 0x7A) || (0x30 ≤ b && b ≤ 0x39) || b = 0x2E ||
    b = 0x5F || b = 0x2D

/-- The pattern `^[A-Za-z0-9._-]{1,128}$`. -/
def safeOpaqueID (value : Text) : Bool :=
  !value.isEmpty && value.length ≤ 128 && value.all isSafeByte

def validOpaqueID (value : Text) : Bool :=
  safeOpaqueID value && value != [0x2E] && value != [0x2E, 0x2E]

inductive Status where
  | requested | dispatched | running | success | failed | canceled | interrupted | unknown
  | rejected
  deriving DecidableEq, Repr

namespace Status

def text : Status → Text
  | requested => DockLattice.text "requested"
  | dispatched => DockLattice.text "dispatched"
  | running => DockLattice.text "running"
  | success => DockLattice.text "success"
  | failed => DockLattice.text "failed"
  | canceled => DockLattice.text "canceled"
  | interrupted => DockLattice.text "interrupted"
  | unknown => DockLattice.text "unknown"
  | rejected => DockLattice.text "rejected"

def terminal : Status → Bool
  | success | failed | canceled | interrupted | rejected => true
  | _ => false

end Status

def legalStatusTransition : Status → Status → Bool
  | .requested, .dispatched | .requested, .rejected | .requested, .canceled
  | .requested, .interrupted => true
  | .dispatched, .running | .dispatched, .unknown | .dispatched, .rejected
  | .dispatched, .canceled | .dispatched, .interrupted => true
  | .running, .success | .running, .failed | .running, .canceled | .running, .interrupted
  | .running, .unknown => true
  | .unknown, .running | .unknown, .success | .unknown, .failed | .unknown, .canceled
  | .unknown, .interrupted => true
  | _, _ => false

inductive Phase where
  | preparing | executing | committing | finalizing
  deriving DecidableEq, Repr

def Phase.text : Phase → Text
  | preparing => DockLattice.text "PREPARING"
  | executing => DockLattice.text "EXECUTING"
  | committing => DockLattice.text "COMMITTING"
  | finalizing => DockLattice.text "FINALIZING"

inductive CancelMode where
  | none | safe | bestEffortPartial | beforeCommit
  deriving DecidableEq, Repr

def CancelMode.text : CancelMode → Text
  | none => DockLattice.text "NONE"
  | safe => DockLattice.text "SAFE"
  | bestEffortPartial => DockLattice.text "BEST_EFFORT_PARTIAL"
  | beforeCommit => DockLattice.text "BEFORE_COMMIT"

def cancelModeForType : Kind → CancelMode
  | .discoveryRescan | .composePull | .backupCreate => .safe
  | .composeUp | .composeDown | .composeStart | .composeStop | .composeRestart =>
    .bestEffortPartial
  | .composeFileWrite | .envWrite | .overrideWrite | .backupRestore
  | .containerStart | .containerStop | .containerRestart | .containerRemove => .beforeCommit

inductive CancelReason where
  | user | timeout | agentShutdown
  deriving DecidableEq, Repr

def CancelReason.text : CancelReason → Text
  | user => DockLattice.text "USER"
  | timeout => DockLattice.text "TIMEOUT"
  | agentShutdown => DockLattice.text "AGENT_SHUTDOWN"

inductive CancelOutcome where
  | accepted | tooLate | notCancelable | alreadyTerminal | notFound
  deriving DecidableEq, Repr

inductive ManagedAuditDelivery where
  | none | pending | delivered
  deriving DecidableEq, Repr

/-! ## Specification and record -/

structure Spec where
  operationId : Text
  projectKey : Text
  target : Text
  kind : Kind
  payloadHash : Text
  deriving DecidableEq, Repr

structure Record where
  operationId : Text
  projectKey : Text
  target : Text
  kind : Kind
  payloadHash : Text
  requestedAt : Time
  startedAt : Time
  finishedAt : Time
  status : Status
  phase : Phase
  cancelMode : CancelMode
  revision : Nat
  commitStartedAt : Time
  lastProgressAt : Time
  cancelRequestedAt : Time
  cancelReason : Option CancelReason
  partialEffectsPossible : Bool
  result : Text
  error : Text
  outputTail : Text
  outputTruncated : Bool
  managedAuditDelivery : ManagedAuditDelivery
  deriving DecidableEq, Repr

def Record.spec (r : Record) : Spec :=
  ⟨r.operationId, r.projectKey, r.target, r.kind, r.payloadHash⟩

def newRecord (spec : Spec) (now : Time) : Record where
  operationId := spec.operationId
  projectKey := spec.projectKey
  target := spec.target
  kind := spec.kind
  payloadHash := spec.payloadHash
  requestedAt := now
  startedAt := zeroTime
  finishedAt := zeroTime
  status := .requested
  phase := .preparing
  cancelMode := cancelModeForType spec.kind
  revision := 1
  commitStartedAt := zeroTime
  lastProgressAt := now
  cancelRequestedAt := zeroTime
  cancelReason := none
  partialEffectsPossible := false
  result := []
  error := []
  outputTail := []
  outputTruncated := false
  managedAuditDelivery := .none

def hexDigest (value : Text) : Bool :=
  value.length == 64 && value.all fun b => (0x30 ≤ b && b ≤ 0x39) || (0x61 ≤ b && b ≤ 0x66)

def validPayloadHash (value : Text) : Bool := value.isEmpty || hexDigest value

def validateRecord (r : Record) : Bool :=
  !r.operationId.isEmpty && r.revision != 0 && !r.requestedAt.isZero &&
    validPayloadHash r.payloadHash && r.cancelMode == cancelModeForType r.kind &&
    !r.lastProgressAt.isZero &&
    !(r.kind.requiresProjectLock && r.projectKey.isEmpty) &&
    r.status.terminal == !r.finishedAt.isZero &&
    !(!r.status.terminal && r.managedAuditDelivery != .none)

/-- The times `encoding/json` can write. -/
def jsonTime (t : Time) : Bool := JsonTime.earliest ≤ t && t ≤ JsonTime.latest

/-- `Save` succeeds up to the file system: the record passes its check and can be marshaled. -/
def Record.storable (r : Record) : Bool :=
  validateRecord r && jsonTime r.requestedAt && jsonTime r.startedAt && jsonTime r.finishedAt &&
    jsonTime r.commitStartedAt && jsonTime r.lastProgressAt && jsonTime r.cancelRequestedAt

/-- What the journal's JSON carries of a record: not the output, and strings as valid UTF-8. -/
def Record.journaled (r : Record) : Record :=
  { r with
    operationId := Utf8.toValid r.operationId
    projectKey := Utf8.toValid r.projectKey
    target := Utf8.toValid r.target
    payloadHash := Utf8.toValid r.payloadHash
    result := Utf8.toValid r.result
    error := Utf8.toValid r.error
    outputTail := [] }

end DockLattice.Operation
