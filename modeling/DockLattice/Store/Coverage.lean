import DockLattice.Lib.Text
import DockLattice.Store.Effective

/-!
# DockLattice.Store.Coverage

Where an Agent's coverage starts, the snapshots of claims it presents, and the records it delivers
(`coverage.go`, `ingest.go`). Each is one transaction.
-/

namespace DockLattice.Store

/-! ## The start of coverage -/

def ensureCursorRow (p : Platform) (archiveId agentId : String) (start : Cursor) (now : Time)
    (db : Db) : Db :=
  match db.cursorRow? archiveId agentId with
  | some _ => db
  | none => { db with cursors := db.cursors ++
      [⟨archiveId, agentId, some start, none, 0, p.format now⟩] }

def establishCoverageStart (p : Platform) (archiveId agentId : String) (start : Cursor)
    (reason : Reason) (now : Time) : Txn Unit := fun db =>
  if archiveId = "" ∨ agentId = "" ∨ validCursor start = false ∨
      validCoverageStartReason reason = false then
    .error (.invariant "invalid coverage start")
  else
    match db.lowerBound? archiveId agentId with
    | some row =>
      if row.fromIncarnation = start.incarnation ∧ row.fromSeq = some start.seq ∧
          row.reason = some reason then
        .ok (ensureCursorRow p archiveId agentId start now db, ())
      else .error (.invariant "archive coverage start changed")
    | none =>
      .ok (ensureCursorRow p archiveId agentId start now (db.insertCoverage fun id =>
        ⟨id, archiveId, agentId, .lowerBound, start.incarnation, some start.seq, none, none,
          .coverageStart, .exact, false, p.format now, none, some reason⟩), ())

/-! ## Claims -/

structure CoverageSnapshot where
  agentId : String
  revision : Nat
  generatedAt : Time
  gaps : List GapClaim
  coverageUnknownIncarnations : List Nat
  deriving DecidableEq, Repr

def validateUnknown : List Nat → List Nat → Except StoreError Unit
  | _, [] => .ok ()
  | seen, incarnation :: rest =>
    if incarnation = 0 ∨ maxInt64 < incarnation then
      .error (.invariant "invalid unknown incarnation")
    else if incarnation ∈ seen then .error (.invariant "duplicate unknown incarnation")
    else validateUnknown (incarnation :: seen) rest

def validateGap (unknown : List Nat) (gap : GapClaim) : Except StoreError Unit :=
  if gap.incarnation = 0 ∨ gap.fromSeq = 0 ∨ gap.untilSeq ≤ gap.fromSeq ∨
      maxInt64 < gap.incarnation ∨ maxInt64 < gap.untilSeq then
    .error (.invariant "invalid gap claim")
  else if gap.precision ≠ .exact ∧ gap.precision ≠ .coalesced then
    .error (.invariant "invalid gap precision")
  else if gap.reason = "" then .error (.invariant "gap reason is empty")
  else if gap.incarnation ∈ unknown then
    .error (.invariant "gap and coverage_unknown overlap")
  else .ok ()

def validateGaps (unknown : List Nat) : List GapClaim → Except StoreError Unit
  | [] => .ok ()
  | gap :: rest =>
    match validateGap unknown gap with
    | .error e => .error e
    | .ok () => validateGaps unknown rest

def overlapping : List GapClaim → Bool
  | previous :: current :: rest =>
    (previous.incarnation = current.incarnation && current.fromSeq < previous.untilSeq) ||
      overlapping (current :: rest)
  | _ => false

def orderedGaps (gaps : List GapClaim) : List GapClaim :=
  gaps.insertionSort fun a b =>
    (⟨a.incarnation, a.fromSeq⟩ : Cursor) ≤ ⟨b.incarnation, b.fromSeq⟩

def validateClaims (snapshot : CoverageSnapshot) : Except StoreError Unit :=
  match validateUnknown [] snapshot.coverageUnknownIncarnations with
  | .error e => .error e
  | .ok () =>
    match validateGaps snapshot.coverageUnknownIncarnations snapshot.gaps with
    | .error e => .error e
    | .ok () =>
      if overlapping (orderedGaps snapshot.gaps) then
        .error (.invariant "overlapping gap claims")
      else .ok ()

def CoverageSnapshot.claims (s : CoverageSnapshot) : List Claim :=
  s.gaps.map .gap ++ s.coverageUnknownIncarnations.map .coverageUnknown

def decimal (n : Nat) : Text := (Nat.toDigits 10 n).map fun c => c.toNat.toUInt8

def formatClaim : Claim → Text
  | .gap g => text "GAP:" ++ decimal g.incarnation ++ text ":" ++ decimal g.fromSeq ++
      text ":true:" ++ decimal g.untilSeq ++ text ":true:" ++ text g.reason ++ text ":" ++
      text g.precision.name
  | .coverageUnknown incarnation => text "COVERAGE_UNKNOWN:" ++ decimal incarnation ++
      text ":0:false:0:false:COVERAGE_UNKNOWN:unknown"

/-- `ORDER BY claim_type, incarnation, from_seq`: unknown incarnations come first. -/
def claimLe : Claim → Claim → Bool
  | .coverageUnknown i, .coverageUnknown j => i ≤ j
  | .coverageUnknown _, .gap _ => true
  | .gap _, .coverageUnknown _ => false
  | .gap g, .gap h => (⟨g.incarnation, g.fromSeq⟩ : Cursor) ≤ ⟨h.incarnation, h.fromSeq⟩

/-- The stored claims in the order of the query against the presented ones in the order of their
texts. -/
def snapshotEqualsRevision (db : Db) (snapshot : CoverageSnapshot) : Bool :=
  ((db.claimsAt snapshot.agentId snapshot.revision).insertionSort (claimLe · ·)).map formatClaim ==
    (snapshot.claims.map formatClaim).insertionSort (· ≤ ·)

def insertClaims (agentId : String) (revision : Nat) (reportedAt : String) :
    List ClaimRow → List Claim → List ClaimRow
  | rows, [] => rows
  | rows, claim :: rest =>
    insertClaims agentId revision reportedAt
      (rows ++ [⟨newId (rows.map ClaimRow.id), agentId, revision, claim, reportedAt⟩]) rest

structure ClaimResult where
  applied : Bool
  currentRevision : Nat
  deriving DecidableEq, Repr

def applyCoverageSnapshot (p : Platform) (archiveId : String) (snapshot : CoverageSnapshot)
    (now : Time) : Txn ClaimResult := fun db =>
  if archiveId = "" ∨ snapshot.agentId = "" ∨ maxInt64 < snapshot.revision then
    .error (.invariant "invalid coverage snapshot")
  else
    match validateClaims snapshot with
    | .error e => .error e
    | .ok () =>
      match loadCursorState p db archiveId snapshot.agentId with
      | .error e => .error e
      | .ok state =>
        if snapshot.revision < state.revision then
          .error (.staleClaim snapshot.revision state.revision)
        else if snapshot.revision = state.revision then
          if snapshotEqualsRevision db snapshot then .ok (db, ⟨false, state.revision⟩)
          else .error (.invariant "revision was reused with different claims")
        else
          let rows := insertClaims snapshot.agentId snapshot.revision
            (p.format snapshot.generatedAt) db.claims snapshot.claims
          let db₁ := Db.updateCursor { db with claims := rows } archiveId snapshot.agentId fun r =>
            { r with revision := snapshot.revision }
          match recomputeEffective p archiveId snapshot.agentId now db₁ with
          | .error e => .error e
          | .ok db₂ => .ok (db₂, ⟨true, snapshot.revision⟩)

/-! ## Ingest -/

structure AuditEvent where
  agentId : String
  cursor : Cursor
  occurredAt : Time
  kind : String
  actor : String
  projectUid : String
  operationId : String
  resourceType : String
  resourceId : String
  action : String
  metadata : String
  deriving DecidableEq, Repr

structure IngestResult where
  inserted : Nat
  duplicates : Nat
  deliveryNext : Cursor
  deriving DecidableEq, Repr

/-- `NULLIF(?, '')`. -/
def nullIf (s : String) : Option String := if s = "" then none else some s

def AuditEvent.metadataOrEmpty (e : AuditEvent) : String :=
  if e.metadata = "" then "\x7b\x7d" else e.metadata

def AuditEvent.row (p : Platform) (agentId : String) (e : AuditEvent) (id : Nat) : EventRow where
  id := id
  agentId := agentId
  cursor := e.cursor
  occurredAt := p.format e.occurredAt
  kind := e.kind
  actor := nullIf e.actor
  projectUid := nullIf e.projectUid
  operationId := nullIf e.operationId
  resourceType := e.resourceType
  resourceId := e.resourceId
  action := e.action
  metadata := e.metadataOrEmpty

/-- The checks on a batch; `previous` is the cursor of the event before. -/
def validateBatch (p : Platform) (agentId : String) (deliveryNext : Cursor) :
    Option Cursor → List AuditEvent → Except StoreError Unit
  | _, [] => .ok ()
  | previous, event :: rest =>
    if event.agentId ≠ agentId ∨ validCursor event.cursor = false ∨ event.kind = "" then
      .error (.invariant "invalid audit event")
    else if previous.any (event.cursor ≤ ·) then
      .error (.invariant "audit batch is not strictly ordered")
    else if deliveryNext ≤ event.cursor then
      .error (.invariant "event is not before delivery next cursor")
    else if p.validJSON event.metadataOrEmpty = false then
      .error (.invariant "invalid event metadata JSON")
    else validateBatch p agentId deliveryNext (some event.cursor) rest

def Db.event? (db : Db) (agentId : String) (c : Cursor) : Option EventRow :=
  db.events.find? fun e => e.agentId == agentId && e.cursor == c

/-- Insert, or check that what is there is the same record. The third component says whether the
event was new. -/
def ingestOne (p : Platform) (agentId : String) (db : Db) (event : AuditEvent) :
    Except StoreError (Db × Bool) :=
  match db.event? agentId event.cursor with
  | none => .ok ({ db with events := db.events ++
      [event.row p agentId (newId (db.events.map EventRow.id))] }, true)
  | some stored =>
    if stored = event.row p agentId stored.id then .ok (db, false)
    else .error (.invariant "duplicate audit cursor has different content")

def ingestAll (p : Platform) (agentId : String) (result : IngestResult) :
    Db → List AuditEvent → Except StoreError (Db × IngestResult)
  | db, [] => .ok (db, result)
  | db, event :: rest =>
    match ingestOne p agentId db event with
    | .error e => .error e
    | .ok (db', true) =>
      ingestAll p agentId { result with inserted := result.inserted + 1 } db' rest
    | .ok (db', false) =>
      ingestAll p agentId { result with duplicates := result.duplicates + 1 } db' rest

def ingest (p : Platform) (archiveId agentId : String) (events : List AuditEvent)
    (deliveryNext : Cursor) (now : Time) : Txn IngestResult := fun db =>
  if archiveId = "" ∨ agentId = "" ∨ validCursor deliveryNext = false then
    .error (.invariant "invalid ingest identity/cursor")
  else
    match validateBatch p agentId deliveryNext none events with
    | .error e => .error e
    | .ok () =>
      match loadCursorState p db archiveId agentId with
      | .error e => .error e
      | .ok state =>
        if state.next.any (deliveryNext < ·) then .error .cursorRollback
        else
          match ingestAll p agentId ⟨0, 0, deliveryNext⟩ db events with
          | .error e => .error e
          | .ok (db₁, result) =>
            let db₂ := db₁.updateCursor archiveId agentId fun r =>
              { r with next := some deliveryNext }
            match recomputeEffective p archiveId agentId now db₂ with
            | .error e => .error e
            | .ok db₃ => .ok (db₃, result)

end DockLattice.Store
