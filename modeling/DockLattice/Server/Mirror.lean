import DockLattice.Server.Response

/-!
# DockLattice.Server.Mirror

The Server's copy of the Agents' operations and the two ways a record reaches it: `mergeOperation`
(`serverapi/backend.go`) and `mergeRecoveredOperations` (`serverapi/operations_recovery.go`). Both
replace a row only by a higher revision; they differ in what they store and in how they compare a
record of the revision that is already there.
-/

namespace DockLattice.Server

open Bytes Operation

/-! ## The tables -/

structure OperationSpec where
  id : Text
  agentId : Text
  projectUid : Text
  kind : Text
  target : Text
  deriving DecidableEq, Repr

structure OperationSummary where
  target : Text
  partialEffectsPossible : Bool
  error : Text
  cancelMode : Text
  canCancel : Bool
  cancelabilityReason : Text
  deriving DecidableEq, Repr

/-- A row of `operations`; its ID is the key of the table, and no project is the empty UID. -/
structure OperationRow where
  agentId : Text
  projectUid : Text
  kind : Text
  status : Text
  phase : Text
  revision : Nat
  requestedAt : Option Time
  startedAt : Option Time
  finishedAt : Option Time
  summary : OperationSummary
  outputTail : Text
  outputTruncated : Bool
  deriving DecidableEq, Repr

abbrev Operations := Text → Option OperationRow

inductive Drift where
  | noBaseline
  | inSync
  | changed
  deriving DecidableEq, Repr

/-- What of `flags_json` the targeted refresh of a project takes over from the row before it. -/
structure ProjectFlags where
  stale : Bool
  composeExecutable : Bool
  currentFingerprint : Text
  lastVerifiedFingerprint : Text
  drift : Drift
  deriving DecidableEq, Repr

/-- A row of `projects`; its UID is the key. An empty `applied` is a project without a baseline. -/
structure ProjectRow where
  agentId : Text
  workingDir : Text
  name : Text
  applied : Text
  flags : ProjectFlags
  deriving DecidableEq, Repr

abbrev Projects := Text → Option ProjectRow

/-- `SELECT EXISTS(SELECT 1 FROM projects WHERE project_uid = ? AND agent_id = ?)` -/
def Projects.owns (projects : Projects) (agentId projectUid : Text) : Bool :=
  match projects projectUid with
  | some p => p.agentId == agentId
  | none => false

def OperationRow.spec (row : OperationRow) (id : Text) : OperationSpec :=
  ⟨id, row.agentId, row.projectUid, row.kind, row.summary.target⟩

/-! ## `mergeOperation` -/

def operationSummary (spec : OperationSpec) (op : WebOperation) : OperationSummary :=
  ⟨spec.target, op.partialEffectsPossible, op.error, op.cancelMode, op.canCancel,
    op.cancelabilityReason⟩

def insertRow (spec : OperationSpec) (op : WebOperation) (requestedAt : Option Time) :
    OperationRow where
  agentId := spec.agentId
  projectUid := spec.projectUid
  kind := spec.kind
  status := op.status
  phase := op.phase
  revision := op.revision
  requestedAt := requestedAt
  startedAt := op.startedAt
  finishedAt := op.finishedAt
  summary := operationSummary spec op
  outputTail := op.outputTail
  outputTruncated := op.outputTruncated

/-- The `SET` list that `INSERT … ON CONFLICT` and the plain `UPDATE` share. -/
def updateRow (spec : OperationSpec) (op : WebOperation) (row : OperationRow) : OperationRow :=
  { row with
    status := op.status
    phase := op.phase
    revision := op.revision
    startedAt := op.startedAt <|> row.startedAt
    finishedAt := op.finishedAt <|> row.finishedAt
    summary := operationSummary spec op
    outputTail := op.outputTail
    outputTruncated := op.outputTruncated }

/-- The row with the ID of `spec` after the SQL statement of `mergeOperation`. -/
def persistOperation (spec : OperationSpec) (op : WebOperation) (insert : Bool) (now : Time) :
    Option OperationRow → Option OperationRow
  | none => if insert then some (insertRow spec op (op.requestedAt <|> some now)) else none
  | some row =>
    if row.spec spec.id = spec ∧ row.revision < op.revision then some (updateRow spec op row)
    else some row

def OperationRow.operation (row : OperationRow) (id : Text) : WebOperation where
  id := id
  status := row.status
  phase := row.phase
  revision := row.revision
  cancelMode := row.summary.cancelMode
  canCancel := row.summary.canCancel
  cancelabilityReason := row.summary.cancelabilityReason
  requestedAt := row.requestedAt
  startedAt := row.startedAt
  finishedAt := row.finishedAt
  partialEffectsPossible := row.summary.partialEffectsPossible
  error := row.summary.error
  outputTail := row.outputTail
  outputTruncated := row.outputTruncated

def scanOperation (id : Text) (row : OperationRow) : Except ServerError WebOperation :=
  if Utf8.valid row.outputTail then .ok (row.operation id) else .error (.corruptData "operations")

def timePointerEqualWhenKnown (stored incoming : Option Time) : Bool :=
  incoming.isNone || stored == incoming

def sameAgentOperationState (stored incoming : WebOperation) : Bool :=
  stored.status == incoming.status && stored.phase == incoming.phase &&
    stored.revision == incoming.revision &&
    stored.partialEffectsPossible == incoming.partialEffectsPossible &&
    stored.error == incoming.error && stored.cancelMode == incoming.cancelMode &&
    stored.canCancel == incoming.canCancel &&
    stored.cancelabilityReason == incoming.cancelabilityReason &&
    timePointerEqualWhenKnown stored.requestedAt incoming.requestedAt &&
    timePointerEqualWhenKnown stored.startedAt incoming.startedAt &&
    timePointerEqualWhenKnown stored.finishedAt incoming.finishedAt

def operationStatusTerminal (status : Text) : Bool :=
  [text "success", text "failed", text "canceled", text "interrupted", text "rejected"].contains
    status

/-- The comparison that ends `mergeOperation`, on the row as it stands after the statement. -/
def judgeOperation (spec : OperationSpec) (incoming : WebOperation) (row : OperationRow) :
    Except ServerError WebOperation :=
  match scanOperation spec.id row with
  | .error e => .error e
  | .ok canonical =>
    if row.spec spec.id ≠ spec then
      .error (.conflict "operation ID is already bound to a different Agent or request")
    else if canonical.revision = incoming.revision then
      if !sameAgentOperationState canonical incoming ||
          operationStatusTerminal canonical.status &&
            (canonical.outputTail != incoming.outputTail ||
              canonical.outputTruncated != incoming.outputTruncated) then
        .error (.conflict "Agent changed an operation without increasing its revision")
      else
        .ok { canonical with
          outputTail := incoming.outputTail
          outputTruncated := incoming.outputTruncated }
    else .ok canonical

/-- The statement stays in the table even when the comparison behind it fails. -/
def mergeOperation (rows : Operations) (spec : OperationSpec) (incoming : WebOperation)
    (insert : Bool) (now : Time) : Operations × Except ServerError WebOperation :=
  match persistOperation spec incoming insert now (rows spec.id) with
  | none => (rows, .error (.internal "serverapi: scan operation"))
  | some row =>
    (Function.update rows spec.id (some row), judgeOperation spec incoming row)

/-! ## `mergeRecoveredOperations` -/

structure RecoveredOperation where
  spec : OperationSpec
  operation : WebOperation
  deriving DecidableEq, Repr

def recoveredOperationSummary (item : RecoveredOperation) : OperationSummary :=
  ⟨item.spec.target, item.operation.partialEffectsPossible, item.operation.error, [], false, []⟩

def loadStoredOperationTx (id : Text) (row : OperationRow) : Except ServerError WebOperation :=
  if Utf8.valid row.outputTail then
    .ok { row.operation id with
      cancelMode := []
      canCancel := false
      cancelabilityReason := []
      requestedAt := none
      startedAt := none
      finishedAt := none }
  else .error (.corruptData "operations")

def insertRecoveredOperation (item : RecoveredOperation) : OperationRow where
  agentId := item.spec.agentId
  projectUid := item.spec.projectUid
  kind := item.spec.kind
  status := item.operation.status
  phase := item.operation.phase
  revision := item.operation.revision
  requestedAt := none
  startedAt := none
  finishedAt := none
  summary := recoveredOperationSummary item
  outputTail := item.operation.outputTail
  outputTruncated := item.operation.outputTruncated

def updateRecoveredOperation (item : RecoveredOperation) (row : OperationRow) : OperationRow :=
  { row with
    status := item.operation.status
    phase := item.operation.phase
    revision := item.operation.revision
    summary := recoveredOperationSummary item
    outputTail := item.operation.outputTail
    outputTruncated := item.operation.outputTruncated }

def missingProject : ServerError :=
  .conflict "recovered operation references a missing or cross-Agent project"

def specConflict : ServerError :=
  .conflict "recovered operation specification conflicts with Server history"

def recoveredChanged : ServerError :=
  .conflict "Agent changed recovered operation without increasing revision"

/-- One turn of the loop of `mergeRecoveredOperations`. The update finds its row: the row was read
in the same transaction, with this specification and a lower revision. -/
def mergeRecoveredOperation (projects : Projects) (rows : Operations) (item : RecoveredOperation) :
    Except ServerError Operations :=
  if item.spec.projectUid ≠ [] ∧ !projects.owns item.spec.agentId item.spec.projectUid then
    .error missingProject
  else
    match rows item.spec.id with
    | none => .ok (Function.update rows item.spec.id (some (insertRecoveredOperation item)))
    | some row =>
      match loadStoredOperationTx item.spec.id row with
      | .error e => .error e
      | .ok canonical =>
        if row.spec item.spec.id ≠ item.spec then .error specConflict
        else if item.operation.revision < canonical.revision then .ok rows
        else if canonical.revision = item.operation.revision then
          if canonical ≠ item.operation then .error recoveredChanged else .ok rows
        else
          .ok (Function.update rows item.spec.id (some (updateRecoveredOperation item row)))

def mergeRecoveredOperations (projects : Projects) (rows : Operations)
    (items : List RecoveredOperation) : Operations × Except ServerError Unit :=
  match items.foldlM (mergeRecoveredOperation projects) rows with
  | .error e => (rows, .error e)
  | .ok rows' => (rows', .ok ())

/-! ## Merging by either path -/

/-- How a record reaches the table: as the answer to a start, to a lookup or a cancellation, or in
the list of running operations. -/
inductive MergePath where
  | start
  | refresh
  | recover
  deriving DecidableEq, Repr

def mergeBy (projects : Projects) (spec : OperationSpec) (path : MergePath) (op : WebOperation)
    (now : Time) (rows : Operations) : Operations × Except ServerError Unit :=
  match path with
  | .start =>
    let merged := mergeOperation rows spec op true now
    (merged.1, merged.2.map fun _ => ())
  | .refresh =>
    let merged := mergeOperation rows spec op false now
    (merged.1, merged.2.map fun _ => ())
  | .recover => mergeRecoveredOperations projects rows [⟨spec, op⟩]

structure Merge where
  path : MergePath
  operation : WebOperation
  now : Time
  deriving DecidableEq, Repr

def mergeAll (projects : Projects) (spec : OperationSpec) (rows : Operations)
    (history : List Merge) : Operations :=
  history.foldl (fun rows m => (mergeBy projects spec m.path m.operation m.now rows).1) rows

end DockLattice.Server
