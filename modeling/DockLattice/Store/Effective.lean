import DockLattice.Store.Types

/-!
# DockLattice.Store.Effective

The effective gaps of an Agent (`effective.go`): what its latest claims say is missing, less what the
archive holds. `recomputeEffective` replaces all of an Agent's effective gaps whenever they differ
from what the claims now ask for.
-/

namespace DockLattice.Store

structure DesiredCoverage where
  unknownIncarnation : Nat
  range : Option Range
  precision : Precision
  deriving DecidableEq, Repr

/-- The claims stored at a revision, whatever archive they were stored for. -/
def Db.claimsAt (db : Db) (agentId : String) (revision : Nat) : List Claim :=
  (db.claims.filter fun r => r.agentId == agentId && r.revision == revision).map ClaimRow.claim

def Claim.key : Claim → Cursor
  | gap g => ⟨g.incarnation, g.fromSeq⟩
  | coverageUnknown incarnation => ⟨incarnation, 0⟩

def Claim.gap? : Claim → Option GapClaim
  | gap g => some g
  | coverageUnknown _ => none

def Claim.unknown? : Claim → Option Nat
  | gap _ => none
  | coverageUnknown incarnation => some incarnation

/-- The gaps and the unknown incarnations claimed at a revision, in order of incarnation and first
sequence number. -/
def loadLatestClaims (db : Db) (agentId : String) (revision : Nat) : List GapClaim × List Nat :=
  let ordered := (db.claimsAt agentId revision).insertionSort fun a b => a.key ≤ b.key
  (ordered.filterMap Claim.gap?, ordered.filterMap Claim.unknown?)

/-- The sequence numbers of one incarnation between two bounds that the archive holds, in order. -/
def heldSeqs (db : Db) (agentId : String) (incarnation fromSeq untilSeq : Nat) : List Nat :=
  ((db.events.filter fun e => e.agentId == agentId && e.cursor.incarnation == incarnation &&
    fromSeq ≤ e.cursor.seq && e.cursor.seq < untilSeq).map (·.cursor.seq)).insertionSort (· ≤ ·)

def Span.range (incarnation : Nat) (s : Span) : Range :=
  ⟨⟨incarnation, s.start⟩, ⟨incarnation, s.stop⟩⟩

def missingRanges (db : Db) (agentId : String) (claim : GapClaim) : List Range :=
  let held := heldSeqs db agentId claim.incarnation claim.fromSeq claim.untilSeq
  (Span.uncovered claim.fromSeq claim.untilSeq (held.map Span.single)).map
    (Span.range claim.incarnation)

def GapClaim.inForce (g : GapClaim) (next : Option Cursor) : Bool :=
  match g.precision with
  | .coalesced => match next with
    | none => false
    | some next => (⟨g.incarnation, g.untilSeq⟩ : Cursor) ≤ next
  | _ => true

def DesiredCoverage.key (d : DesiredCoverage) : Cursor :=
  match d.range with
  | none => ⟨d.unknownIncarnation, 0⟩
  | some r => r.start

def sortDesired (entries : List DesiredCoverage) : List DesiredCoverage :=
  entries.insertionSort fun a b => a.key ≤ b.key

def desiredCoverage (db : Db) (state : CursorRow) : List DesiredCoverage :=
  let (claims, unknown) := loadLatestClaims db state.agentId state.revision
  sortDesired ((claims.filter (·.inForce state.next)).flatMap (fun gap =>
      (missingRanges db state.agentId gap).map fun r => ⟨0, some r, gap.precision⟩) ++
    unknown.map fun incarnation => ⟨incarnation, none, .unknown⟩)

/-- The rows that `recomputeEffective` owns. -/
def CoverageRow.agentGap (r : CoverageRow) (archiveId agentId : String) : Bool :=
  r.of archiveId agentId && r.entryType == .gap && r.source == .agentGap && r.live

def CoverageRow.desired (r : CoverageRow) : DesiredCoverage :=
  match r.fromSeq with
  | none => ⟨r.fromIncarnation, none, r.precision⟩
  | some seq => ⟨0, some ⟨⟨r.fromIncarnation, seq⟩,
      ⟨r.untilIncarnation.getD 0, r.untilSeq.getD 0⟩⟩, r.precision⟩

def loadCurrentEffective (db : Db) (archiveId agentId : String) : List DesiredCoverage :=
  sortDesired ((db.coverage.filter (·.agentGap archiveId agentId)).map CoverageRow.desired)

def DesiredCoverage.row (p : Platform) (archiveId agentId : String) (now : Time)
    (d : DesiredCoverage) (id : Nat) : CoverageRow :=
  match d.range with
  | none => ⟨id, archiveId, agentId, .gap, d.unknownIncarnation, none, none, none, .agentGap,
      .unknown, true, p.format now, none, none⟩
  | some r => ⟨id, archiveId, agentId, .gap, r.start.incarnation, some r.start.seq,
      some r.stop.incarnation, some r.stop.seq, .agentGap, d.precision, true, p.format now, none,
      none⟩

def insertDesired (p : Platform) (archiveId agentId : String) (now : Time) (db : Db)
    (d : DesiredCoverage) : Db :=
  db.insertCoverage (d.row p archiveId agentId now)

def resolveAgentGaps (p : Platform) (archiveId agentId : String) (now : Time) (db : Db) : Db :=
  { db with coverage := db.coverage.map fun r =>
      if r.agentGap archiveId agentId then { r with resolvedAt := some (p.format now) } else r }

def recomputeEffective (p : Platform) (archiveId agentId : String) (now : Time) (db : Db) :
    Except StoreError Db :=
  match loadCursorState p db archiveId agentId with
  | .error e => .error e
  | .ok state =>
    let desired := desiredCoverage db state
    if loadCurrentEffective db archiveId agentId = desired then .ok db
    else .ok (desired.foldl (insertDesired p archiveId agentId now)
      (resolveAgentGaps p archiveId agentId now db))

end DockLattice.Store
