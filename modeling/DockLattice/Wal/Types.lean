import DockLattice.Cursor
import DockLattice.Lib.Bytes

/-!
# DockLattice.Wal.Types

The data of the Agent audit WAL (`auditwal`): records, gaps, the coverage metadata, bounds,
options and errors.

Go integers are natural numbers here; the 64-bit limits the code tests itself (`MaxUint64`) are
tested in the model too. A pointer that may be nil is an `Option`. Options are normalised: their
fields are positive by construction, as `normalizeOptions` makes them.
-/

namespace DockLattice.Wal

open Bytes

structure Record where
  agentId : String
  cursor : Cursor
  appendedAt : Instant
  payload : List Byte
  deriving DecidableEq, Repr

inductive GapReason where
  | retention
  | diskPressure
  deriving DecidableEq, Repr

inductive Precision where
  | exact
  | coalesced
  deriving DecidableEq, Repr

/-- Records `fromSeq`, ..., `untilSeq - 1` of one incarnation are lost. -/
structure Gap where
  incarnation : Nat
  fromSeq : Nat
  untilSeq : Nat
  reason : GapReason
  precision : Precision
  lastLossRevision : Nat
  deriving DecidableEq, Repr

structure CoverageSnapshot where
  agentId : String
  revision : Nat
  generatedAt : Instant
  gaps : List Gap
  coverageUnknownIncarnations : List Nat
  deriving DecidableEq, Repr

structure Bounds where
  walFloor : Option Cursor
  walCeiling : Option Cursor
  nextCursor : Cursor
  durableThrough : Option Cursor
  serverAckedThrough : Option Cursor
  acknowledgedArchiveId : String
  coverageRevision : Nat
  deriving DecidableEq, Repr

structure CursorBehindFloor where
  requested : Cursor
  bounds : Bounds
  coverage : CoverageSnapshot
  deriving DecidableEq, Repr

structure ReadResult where
  records : List Record
  behindFloor : Option CursorBehindFloor
  deriving DecidableEq, Repr

structure ReclaimResult where
  freedBytes : Nat
  deletedAckedBytes : Nat
  deletedUnackedBytes : Nat
  degraded : Bool
  coverage : CoverageSnapshot
  deriving DecidableEq, Repr

/-- The pre-startup WAL fact used by the Agent state to assess the previous clean close. -/
structure Recovery where
  walTail : Option Cursor
  durableThrough : Option Cursor
  deriving DecidableEq, Repr

/-- What callers pass: a field that is not positive asks for the default. -/
structure RawOptions where
  maxBytes : Int
  maxAge : Int
  syncBytes : Int
  deriving DecidableEq, Repr

structure Options where
  maxBytes : Nat
  maxAge : Nat
  syncBytes : Nat
  maxBytes_pos : 0 < maxBytes
  maxAge_pos : 0 < maxAge
  syncBytes_pos : 0 < syncBytes
  deriving DecidableEq, Repr

def defaultMaxBytes : Nat := 256 * 2 ^ 20

def defaultMaxAge : Nat := 14 * 24 * 3600 * 10 ^ 9

def defaultSyncBytes : Nat := 64 * 2 ^ 10

def normalizeOptions (options : RawOptions) : Options where
  maxBytes := if options.maxBytes ≤ 0 then defaultMaxBytes else options.maxBytes.toNat
  maxAge := if options.maxAge ≤ 0 then defaultMaxAge else options.maxAge.toNat
  syncBytes := if options.syncBytes ≤ 0 then defaultSyncBytes else options.syncBytes.toNat
  maxBytes_pos := by split <;> first | decide | omega
  maxAge_pos := by split <;> first | decide | omega
  syncBytes_pos := by split <;> first | decide | omega

structure StaleCoverageError where
  seenRevision : Nat
  currentRevision : Nat
  currentAck : Option Cursor
  blockingRanges : List Gap
  blockingUnknownIncarnations : List Nat
  coverage : CoverageSnapshot
  deriving DecidableEq, Repr

/-- `io` is an error of the operating system, `wrapped` what `fmt.Errorf("...: %w", err)` makes. -/
inductive WalError where
  | closed
  | canceled
  | invariant (message : String)
  | corrupt (message : String)
  | recordTooLarge
  | cursorRollback
  | cursorAhead
  | archiveMismatch (active proposed : String)
  | staleCoverage (e : StaleCoverageError)
  | io (message : String)
  | wrapped (context : String) (inner : WalError)
  deriving DecidableEq, Repr

/-- `errors.Is(err, ErrInvariant)`. -/
def WalError.isInvariant : WalError → Bool
  | .invariant _ => true
  | .wrapped _ inner => inner.isInvariant
  | _ => false

def metadataVersion : Nat := 1

/-- The content of `coverage-state.json`. -/
structure Metadata where
  version : Nat
  agentId : String
  currentIncarnation : Nat
  nextSeq : Nat
  lastAssigned : Option Cursor
  durableThrough : Option Cursor
  acknowledgedArchive : String
  serverAck : Option Cursor
  coverageRevision : Nat
  gaps : List Gap
  coverageUnknownIncarnations : List Nat
  deriving DecidableEq, Repr

def freshMetadata (agentId : String) (incarnation : Nat) : Metadata where
  version := metadataVersion
  agentId := agentId
  currentIncarnation := incarnation
  nextSeq := 1
  lastAssigned := none
  durableThrough := none
  acknowledgedArchive := ""
  serverAck := none
  coverageRevision := 0
  gaps := []
  coverageUnknownIncarnations := []

end DockLattice.Wal
