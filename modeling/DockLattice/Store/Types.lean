import DockLattice.Cursor
import DockLattice.Lib.Span

/-!
# DockLattice.Store.Types

The Server's audit archive (`auditstore`): its tables as lists of rows. A transaction returns the new
database or an error, which rolls it back (`Txn.commit`). Where the source hands the driver an
unsigned number that does not fit 63 bits the statement fails (`StoreError.driver`).
-/

namespace DockLattice.Store

/-- Nanoseconds from Go's zero time. -/
abbrev Time := Int

/-- What the store takes from the Go library and from SQLite: times as text and read back, the day
number SQLite computes from a text (no value if it cannot read it), and the check of JSON texts. -/
structure Platform where
  format : Time → String
  parse : String → Option Time
  julianday : String → Option Int
  validJSON : String → Bool

inductive Precision where
  | exact
  | coalesced
  | unknown
  deriving DecidableEq, Repr

def Precision.name : Precision → String
  | exact => "exact"
  | coalesced => "coalesced"
  | unknown => "unknown"

/-- Cursors from `start` up to `stop`, exclusive. -/
structure Range where
  start : Cursor
  stop : Cursor
  deriving DecidableEq, Repr

/-! ## Rows -/

structure EventRow where
  id : Nat
  agentId : String
  cursor : Cursor
  occurredAt : String
  kind : String
  actor : Option String
  projectUid : Option String
  operationId : Option String
  resourceType : String
  resourceId : String
  action : String
  metadata : String
  deriving DecidableEq, Repr

structure GapClaim where
  incarnation : Nat
  fromSeq : Nat
  untilSeq : Nat
  reason : String
  precision : Precision
  deriving DecidableEq, Repr

inductive Claim where
  | gap (g : GapClaim)
  | coverageUnknown (incarnation : Nat)
  deriving DecidableEq, Repr

structure ClaimRow where
  id : Nat
  agentId : String
  revision : Nat
  claim : Claim
  reportedAt : String
  deriving DecidableEq, Repr

inductive EntryType where
  | gap
  | lowerBound
  | regression
  deriving DecidableEq, Repr

def EntryType.name : EntryType → String
  | gap => "GAP"
  | lowerBound => "LOWER_BOUND"
  | regression => "REGRESSION"

inductive Source where
  | coverageStart
  | agentGap
  | retention
  | cursorRegression
  deriving DecidableEq, Repr

def Source.name : Source → String
  | coverageStart => "SERVER_COVERAGE_START"
  | agentGap => "AGENT_GAP"
  | retention => "SERVER_RETENTION"
  | cursorRegression => "SERVER_CURSOR_REGRESSION"

inductive Reason where
  | serverNeverHad
  | newAuditArchive
  | databaseReinitialized
  | retentionApplied
  | quotaBeforeACK
  | databaseRestore
  | archiveRollback
  | cursorMetadataLoss
  | unknown
  deriving DecidableEq, Repr

def Reason.name : Reason → String
  | serverNeverHad => "SERVER_NEVER_HAD"
  | newAuditArchive => "NEW_AUDIT_ARCHIVE"
  | databaseReinitialized => "SERVER_DATABASE_REINITIALIZED"
  | retentionApplied => "SERVER_RETENTION_APPLIED"
  | quotaBeforeACK => "QUOTA_PRESSURE_BEFORE_AGENT_ACK"
  | databaseRestore => "DATABASE_RESTORE"
  | archiveRollback => "ARCHIVE_ROLLBACK"
  | cursorMetadataLoss => "CURSOR_METADATA_LOSS"
  | unknown => "UNKNOWN"

def validCoverageStartReason : Reason → Bool
  | .serverNeverHad | .newAuditArchive | .databaseReinitialized => true
  | _ => false

def validRegressionReason : Reason → Bool
  | .databaseRestore | .unknown | .archiveRollback | .cursorMetadataLoss => true
  | _ => false

/-- A row of the coverage ledger. A row without `fromSeq` is about a whole incarnation. -/
structure CoverageRow where
  id : Nat
  archiveId : String
  agentId : String
  entryType : EntryType
  fromIncarnation : Nat
  fromSeq : Option Nat
  untilIncarnation : Option Nat
  untilSeq : Option Nat
  source : Source
  precision : Precision
  effective : Bool
  establishedAt : String
  resolvedAt : Option String
  reason : Option Reason
  deriving DecidableEq, Repr

structure CursorRow where
  archiveId : String
  agentId : String
  next : Option Cursor
  ack : Option Cursor
  revision : Nat
  updatedAt : String
  deriving DecidableEq, Repr

/-- `currentArchive` is the archive that the settings name. -/
structure Db where
  currentArchive : Option String
  events : List EventRow
  claims : List ClaimRow
  coverage : List CoverageRow
  cursors : List CursorRow
  deriving DecidableEq, Repr

def newId (ids : List Nat) : Nat := ids.foldl max 0 + 1

/-! ## Transactions -/

inductive StoreError where
  | invariant (reason : String)
  | staleClaim (presented current : Nat)
  | cursorRollback
  | ackIneligible (proposed deliveryNext : Cursor) (unexplained : List Range)
  | coverageRevision (presented persisted : Nat)
  | timestamp (persisted : String)
  | driver
  deriving DecidableEq, Repr

abbrev Txn (α : Type) := Db → Except StoreError (Db × α)

def Txn.commit {α : Type} (t : Txn α) (db : Db) : Db :=
  match t db with
  | .ok (db', _) => db'
  | .error _ => db

/-! ## Cursors -/

def validCursor (c : Cursor) : Bool :=
  0 < c.incarnation && 0 < c.seq && c.incarnation ≤ maxInt64 && c.seq ≤ maxInt64

def cursorValue (c : Option Cursor) : Cursor := c.getD ⟨0, 0⟩

def Db.cursorRow? (db : Db) (archiveId agentId : String) : Option CursorRow :=
  db.cursors.find? fun r => r.archiveId == archiveId && r.agentId == agentId

def loadCursorState (p : Platform) (db : Db) (archiveId agentId : String) :
    Except StoreError CursorRow :=
  match db.cursorRow? archiveId agentId with
  | none => .error (.invariant "coverage start is not established")
  | some row =>
    match p.parse row.updatedAt with
    | none => .error (.timestamp row.updatedAt)
    | some _ => .ok row

/-- `UPDATE agent_cursors … WHERE audit_archive_id = ? AND agent_id = ?`. -/
def Db.updateCursor (db : Db) (archiveId agentId : String) (f : CursorRow → CursorRow) : Db :=
  { db with cursors := db.cursors.map fun r =>
      if r.archiveId = archiveId ∧ r.agentId = agentId then f r else r }

/-! ## The ledger -/

def CoverageRow.live (r : CoverageRow) : Bool := r.effective && r.resolvedAt.isNone

def CoverageRow.of (r : CoverageRow) (archiveId agentId : String) : Bool :=
  r.archiveId == archiveId && r.agentId == agentId

def Db.insertCoverage (db : Db) (row : Nat → CoverageRow) : Db :=
  { db with coverage := db.coverage ++ [row (newId (db.coverage.map CoverageRow.id))] }

def Db.lowerBound? (db : Db) (archiveId agentId : String) : Option CoverageRow :=
  db.coverage.find? fun r => r.of archiveId agentId && r.entryType == .lowerBound &&
    r.source == .coverageStart && r.resolvedAt.isNone

end DockLattice.Store
