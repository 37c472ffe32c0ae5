import DockLattice.Store.Ack

/-!
# DockLattice.Store.Retention

How the archive gets rid of records (`retention.go`). `EnforceRetention` deletes in batches, each one
transaction: events the Agent may forget, old coverage history, events a retention range covers
already, and at last events that are not acknowledged. Between two batches other writers may run; the
usage on which a batch decides is read before its transaction.
-/

namespace DockLattice.Store

/-! ## Usage and plans -/

structure ArchiveUsage where
  archiveId : String
  recordCount : Nat
  approximateBytes : Int
  oldestOccurredAt : Option Time
  evaluatedAt : Time
  deriving DecidableEq, Repr

/-- `length(COALESCE(?, ''))`. -/
def optionalLength (s : Option String) : Nat := (s.getD "").length

def EventRow.approxBytes (e : EventRow) : Nat :=
  e.agentId.length + e.kind.length + e.occurredAt.length + optionalLength e.actor +
    optionalLength e.projectUid + optionalLength e.operationId + e.metadata.length + 32

def ClaimRow.approxBytes (r : ClaimRow) : Nat :=
  (match r.claim with
    | .gap g => "GAP".length + g.reason.length + g.precision.name.length
    | .coverageUnknown _ => "COVERAGE_UNKNOWN".length + "COVERAGE_UNKNOWN".length +
        Precision.unknown.name.length) + r.reportedAt.length + 48

def CoverageRow.approxBytes (r : CoverageRow) : Nat :=
  r.archiveId.length + r.agentId.length + r.entryType.name.length + r.source.name.length +
    r.precision.name.length + r.establishedAt.length + optionalLength r.resolvedAt +
    optionalLength (r.reason.map Reason.name) + 64

def Db.known (db : Db) (archiveId agentId : String) : Bool :=
  (db.cursorRow? archiveId agentId).isSome

/-- The order of `ORDER BY julianday(?)`: what SQLite cannot read comes first. -/
def dayLe : Option Int → Option Int → Bool
  | none, _ => true
  | some _, none => false
  | some a, some b => a ≤ b

def dayLt (a b : Option Int) : Bool := !dayLe b a

def archiveUsage (p : Platform) (archiveId : String) (now : Time) (db : Db) :
    Except StoreError ArchiveUsage :=
  if archiveId = "" ∨ now = 0 then .error (.invariant "invalid archive usage request")
  else
    let events := db.events.filter fun e => db.known archiveId e.agentId
    let claims := db.claims.filter fun r => db.known archiveId r.agentId
    let coverage := db.coverage.filter (·.archiveId == archiveId)
    let bytes := (events.map EventRow.approxBytes).sum + (claims.map ClaimRow.approxBytes).sum +
      (coverage.map CoverageRow.approxBytes).sum
    let oldest := (events.insertionSort fun a b =>
      dayLt (p.julianday a.occurredAt) (p.julianday b.occurredAt) ∨
        (p.julianday a.occurredAt = p.julianday b.occurredAt ∧ a.id ≤ b.id)).head?
    match oldest with
    | none => .ok ⟨archiveId, events.length, bytes, none, now⟩
    | some e =>
      match p.parse e.occurredAt with
      | none => .error (.timestamp e.occurredAt)
      | some t => .ok ⟨archiveId, events.length, bytes, some t, now⟩

/-- `deleteBefore` is 0 if nothing expires. -/
structure RetentionPlan where
  deleteBefore : Time
  warning : Bool
  aggressive : Bool
  pressureTargetBytes : Int
  deriving DecidableEq, Repr

abbrev RetentionPolicy := ArchiveUsage → Except StoreError RetentionPlan

def RetentionPlan.valid (plan : RetentionPlan) (now : Time) (usageBytes : Int) : Bool :=
  !(plan.pressureTargetBytes < 0 || (plan.deleteBefore != 0 && now < plan.deleteBefore) ||
    (!plan.aggressive && plan.pressureTargetBytes != 0) ||
    (plan.aggressive && (!plan.warning || usageBytes ≤ plan.pressureTargetBytes)))

def RetentionPlan.pressure (plan : RetentionPlan) (usageBytes : Int) : Bool :=
  plan.aggressive && plan.pressureTargetBytes < usageBytes

def requireCurrentArchive (archiveId : String) (db : Db) : Except StoreError Unit :=
  match db.currentArchive with
  | none => .error (.invariant "current canonical Audit Archive is not initialized")
  | some current =>
    if current = archiveId then .ok ()
    else .error (.invariant "retention target is not the current canonical Audit Archive")

def retentionBatchRows : Nat := 512

/-- Whether a row of the given age is a candidate: SQLite compares day numbers. -/
def expiredSQL (p : Platform) (plan : RetentionPlan) (pressure : Bool) (recordedAt : String) :
    Bool :=
  pressure || (match p.julianday recordedAt,
      (if plan.deleteBefore = 0 then none else p.julianday (p.format plan.deleteBefore)) with
    | some day, some cutoff => day < cutoff
    | _, _ => false)

structure Candidate (α : Type) where
  row : α
  recordedAt : Time
  bytes : Nat

/-- Read the times of the candidates; one that cannot be read fails the batch. -/
def readCandidates {α : Type} (p : Platform) (recordedAt : α → String) (bytes : α → Nat) :
    List α → Except StoreError (List (Candidate α))
  | [] => .ok []
  | row :: rest =>
    match p.parse (recordedAt row) with
    | none => .error (.timestamp (recordedAt row))
    | some t =>
      match readCandidates p recordedAt bytes rest with
      | .error e => .error e
      | .ok candidates => .ok (⟨row, t, bytes row⟩ :: candidates)

/-- The candidates a batch takes: up to the first that has not expired and is not needed to reach
the target. -/
def selectRows {α : Type} (plan : RetentionPlan) (pressure : Bool) :
    Int → List (Candidate α) → List α
  | _, [] => []
  | remaining, c :: rest =>
    if (plan.deleteBefore ≠ 0 ∧ c.recordedAt < plan.deleteBefore) ∨
        (pressure = true ∧ plan.pressureTargetBytes < remaining) then
      c.row :: selectRows plan pressure (remaining - c.bytes) rest
    else []

/-! ## Events -/

def CursorRow.acked (state : CursorRow) (c : Cursor) : Bool := state.ack.any (c ≤ ·)

def CoverageRow.retains (r : CoverageRow) (archiveId agentId : String) (c : Cursor) : Bool :=
  r.of archiveId agentId && r.entryType == .gap && r.source == .retention && r.live &&
    r.fromIncarnation == c.incarnation && r.untilIncarnation == some c.incarnation &&
    r.fromSeq.any (· ≤ c.seq) && r.untilSeq.any (c.seq < ·)

def Db.retains (db : Db) (archiveId agentId : String) (c : Cursor) : Bool :=
  db.coverage.any (·.retains archiveId agentId c)

/-- The kinds of events that are deleted, in the order in which retention turns to them. -/
inductive Tier where
  | acked
  | covered
  | unacked
  deriving DecidableEq, Repr

/-- The reason under which the deletion is recorded; what is covered already is not recorded
again. -/
def Tier.reason : Tier → Option Reason
  | acked => some .retentionApplied
  | covered => none
  | unacked => some .quotaBeforeACK

def Tier.admits (tier : Tier) (db : Db) (archiveId : String) (e : EventRow) : Bool :=
  match db.cursorRow? archiveId e.agentId with
  | none => false
  | some state =>
    match tier with
    | .acked => state.acked e.cursor && !db.retains archiveId e.agentId e.cursor
    | .covered => db.retains archiveId e.agentId e.cursor
    | .unacked => !state.acked e.cursor && !db.retains archiveId e.agentId e.cursor

/-- `ORDER BY julianday(occurred_at), agent_id, incarnation, seq`. -/
def eventLe (p : Platform) (a b : EventRow) : Bool :=
  dayLt (p.julianday a.occurredAt) (p.julianday b.occurredAt) ||
    (p.julianday a.occurredAt == p.julianday b.occurredAt &&
      (a.agentId < b.agentId || (a.agentId == b.agentId && a.cursor ≤ b.cursor)))

def loadRetentionEvents (p : Platform) (archiveId : String) (plan : RetentionPlan)
    (pressure : Bool) (tier : Tier) (db : Db) : Except StoreError (List (Candidate EventRow)) :=
  readCandidates p EventRow.occurredAt EventRow.approxBytes
    (((db.events.filter fun e => tier.admits db archiveId e &&
      expiredSQL p plan pressure e.occurredAt).insertionSort (eventLe p · ·)).take
        retentionBatchRows)

structure AgentRange where
  agentId : String
  incarnation : Nat
  span : Span
  deriving DecidableEq, Repr

/-- Extend the last interval by the event, or begin a new one. The list is the reverse of the
source's slice. -/
def pushInterval (intervals : List AgentRange) (e : EventRow) : List AgentRange :=
  match intervals with
  | last :: rest =>
    if last.agentId = e.agentId ∧ last.incarnation = e.cursor.incarnation ∧
        last.span.stop = e.cursor.seq then
      { last with span := ⟨last.span.start, last.span.stop + 1⟩ } :: rest
    else ⟨e.agentId, e.cursor.incarnation, .single e.cursor.seq⟩ :: last :: rest
  | [] => [⟨e.agentId, e.cursor.incarnation, .single e.cursor.seq⟩]

def retentionIntervals (events : List EventRow) : List AgentRange :=
  ((events.insertionSort fun a b => a.agentId < b.agentId ∨
    (a.agentId = b.agentId ∧ a.cursor ≤ b.cursor)).foldl pushInterval []).reverse

def CoverageRow.sameReason (r : CoverageRow) (archiveId : String) (reason : Reason)
    (i : AgentRange) : Bool :=
  r.of archiveId i.agentId && r.entryType == .gap && r.source == .retention &&
    r.reason == some reason && r.precision == .exact && r.live &&
    r.fromIncarnation == i.incarnation && r.untilIncarnation == some i.incarnation

def CoverageRow.span? (r : CoverageRow) : Option Span :=
  match r.fromSeq, r.untilSeq with
  | some first, some past => some ⟨first, past⟩
  | _, _ => none

/-- `until_seq >= from AND from_seq <= until`. -/
def CoverageRow.merges (r : CoverageRow) (archiveId : String) (reason : Reason)
    (i : AgentRange) : Bool :=
  r.sameReason archiveId reason i && r.span?.any fun s => i.span.Touches s

def recordRetentionInterval (p : Platform) (archiveId : String) (reason : Reason) (now : Time)
    (db : Db) (i : AgentRange) : Except StoreError Db :=
  if maxInt64 < i.span.stop then .error .driver
  else
    let merged := db.coverage.filter (·.merges archiveId reason i)
    let hull := i.span.joined (merged.filterMap CoverageRow.span?)
    let ids := merged.map CoverageRow.id
    let resolved := db.coverage.map fun r =>
      if r.id ∈ ids then { r with effective := false, resolvedAt := some (p.format now) } else r
    .ok (Db.insertCoverage { db with coverage := resolved } fun id =>
      ⟨id, archiveId, i.agentId, .gap, i.incarnation, some hull.start, some i.incarnation,
        some hull.stop, .retention, .exact, true, p.format now, none, some reason⟩)

def recordIntervals (p : Platform) (archiveId : String) (reason : Reason) (now : Time) :
    Db → List AgentRange → Except StoreError Db
  | db, [] => .ok db
  | db, i :: rest =>
    match recordRetentionInterval p archiveId reason now db i with
    | .error e => .error e
    | .ok db' => recordIntervals p archiveId reason now db' rest

def Db.deleteEvents (db : Db) (ids : List Nat) : Db :=
  { db with events := db.events.filter fun e => e.id ∉ ids }

structure BatchResult where
  deleted : List EventRow
  createdIntervals : Nat
  deriving DecidableEq, Repr

def deleteBatch (p : Platform) (archiveId : String) (plan : RetentionPlan) (now : Time)
    (tier : Tier) (usageBytes : Int) : Txn BatchResult := fun db =>
  let pressure := plan.pressure usageBytes
  match requireCurrentArchive archiveId db with
  | .error e => .error e
  | .ok () =>
    match loadRetentionEvents p archiveId plan pressure tier db with
    | .error e => .error e
    | .ok candidates =>
      let selected := selectRows plan pressure usageBytes candidates
      if selected = [] then .ok (db, ⟨[], 0⟩)
      else
        match tier.reason with
        | none => .ok (db.deleteEvents (selected.map EventRow.id), ⟨selected, 0⟩)
        | some reason =>
          let intervals := retentionIntervals selected
          match recordIntervals p archiveId reason now db intervals with
          | .error e => .error e
          | .ok db' =>
            .ok (db'.deleteEvents (selected.map EventRow.id), ⟨selected, intervals.length⟩)

/-! ## Coverage history -/

/-- A claim that a newer revision of the Agent has replaced and that is acknowledged throughout. -/
def ClaimRow.outdated (r : ClaimRow) (db : Db) (archiveId : String) : Bool :=
  match db.cursorRow? archiveId r.agentId with
  | none => false
  | some state =>
    match state.ack with
    | none => false
    | some ack =>
      db.claims.any (fun newest => newest.agentId == r.agentId && r.revision < newest.revision) &&
        (match r.claim with
          | .gap g => g.incarnation < ack.incarnation ||
              (g.incarnation == ack.incarnation && g.untilSeq ≤ ack.seq + 1)
          | .coverageUnknown incarnation => incarnation < ack.incarnation)

def CoverageRow.outdated (r : CoverageRow) (db : Db) (archiveId : String) : Bool :=
  r.archiveId == archiveId && r.resolvedAt.isSome && r.entryType == .gap &&
    (match db.cursorRow? archiveId r.agentId with
      | none => false
      | some state =>
        match state.ack, r.untilIncarnation with
        | some ack, some incarnation => incarnation < ack.incarnation ||
            (incarnation == ack.incarnation && r.untilSeq.any (· ≤ ack.seq + 1))
        | _, _ => false)

/-- `ORDER BY julianday(?), id`. -/
def historyLe (p : Platform) (a b : String × Nat) : Bool :=
  dayLt (p.julianday a.1) (p.julianday b.1) ||
    (p.julianday a.1 == p.julianday b.1 && a.2 ≤ b.2)

def compactClaims (p : Platform) (archiveId : String) (plan : RetentionPlan) (usageBytes : Int) :
    Txn Nat := fun db =>
  let pressure := plan.pressure usageBytes
  match requireCurrentArchive archiveId db with
  | .error e => .error e
  | .ok () =>
    let rows := ((db.claims.filter fun r => r.outdated db archiveId &&
      expiredSQL p plan pressure r.reportedAt).insertionSort fun a b =>
        historyLe p (a.reportedAt, a.id) (b.reportedAt, b.id)).take retentionBatchRows
    match readCandidates p ClaimRow.reportedAt ClaimRow.approxBytes rows with
    | .error e => .error e
    | .ok candidates =>
      let ids := (selectRows plan pressure usageBytes candidates).map ClaimRow.id
      .ok ({ db with claims := db.claims.filter fun r => r.id ∉ ids }, ids.length)

def compactCoverage (p : Platform) (archiveId : String) (plan : RetentionPlan) (usageBytes : Int) :
    Txn Nat := fun db =>
  let pressure := plan.pressure usageBytes
  match requireCurrentArchive archiveId db with
  | .error e => .error e
  | .ok () =>
    let recordedAt : CoverageRow → String := fun r => r.resolvedAt.getD ""
    let rows := ((db.coverage.filter fun r => r.outdated db archiveId &&
      expiredSQL p plan pressure (recordedAt r)).insertionSort fun a b =>
        historyLe p (recordedAt a, a.id) (recordedAt b, b.id)).take retentionBatchRows
    match readCandidates p recordedAt CoverageRow.approxBytes rows with
    | .error e => .error e
    | .ok candidates =>
      let ids := (selectRows plan pressure usageBytes candidates).map CoverageRow.id
      .ok ({ db with coverage := db.coverage.filter fun r => r.id ∉ ids }, ids.length)

/-! ## The whole call -/

inductive RetentionLevel where
  | normal
  | warning
  | aggressive
  deriving DecidableEq, Repr

structure RetentionResult where
  level : RetentionLevel
  usageBefore : ArchiveUsage
  usageAfter : Option ArchiveUsage
  deletedACKed : Nat
  deletedUnACKed : Nat
  deletedCovered : Nat
  compactedHistory : Nat
  createdIntervals : Nat
  lowWatermarkReached : Bool
  deriving DecidableEq, Repr

/-- A call of several transactions: it keeps what they committed even if it fails. -/
abbrev Call (α : Type) := Db → Db × Except StoreError α

/-- Repeat a batch until it deletes nothing. Each other turn deletes a row, so `fuel` turns are
enough if there are fewer rows. -/
def repeatBatch (p : Platform) (archiveId : String) (plan : RetentionPlan) (now : Time)
    (batch : Int → Txn (Nat × Nat)) : Nat → Call (Nat × Nat)
  | 0, db => (db, .ok (0, 0))
  | fuel + 1, db =>
    match archiveUsage p archiveId now db with
    | .error e => (db, .error e)
    | .ok usage =>
      if plan.pressure usage.approximateBytes = false ∧ plan.deleteBefore = 0 then
        (db, .ok (0, 0))
      else
        match batch usage.approximateBytes db with
        | .error e => (db, .error e)
        | .ok (db', (deleted, created)) =>
          if deleted = 0 then (db', .ok (0, 0))
          else
            match repeatBatch p archiveId plan now batch fuel db' with
            | (db'', .error e) => (db'', .error e)
            | (db'', .ok (deleted', created')) =>
              (db'', .ok (deleted + deleted', created + created'))

def Txn.map {α β : Type} (f : α → β) (t : Txn α) : Txn β := fun db =>
  match t db with
  | .error e => .error e
  | .ok (db', a) => .ok (db', f a)

def deleteEventTier (p : Platform) (archiveId : String) (plan : RetentionPlan) (now : Time)
    (tier : Tier) : Call (Nat × Nat) := fun db =>
  repeatBatch p archiveId plan now (fun usage =>
    (deleteBatch p archiveId plan now tier usage).map fun r =>
      (r.deleted.length, r.createdIntervals)) (db.events.length + 1) db

def compactCoverageHistory (p : Platform) (archiveId : String) (plan : RetentionPlan)
    (now : Time) : Call Nat := fun db =>
  match repeatBatch p archiveId plan now (fun usage =>
      (compactClaims p archiveId plan usage).map fun n => (n, 0)) (db.claims.length + 1) db with
  | (db₁, .error e) => (db₁, .error e)
  | (db₁, .ok (claims, _)) =>
    match repeatBatch p archiveId plan now (fun usage =>
        (compactCoverage p archiveId plan usage).map fun n => (n, 0))
        (db₁.coverage.length + 1) db₁ with
    | (db₂, .error e) => (db₂, .error e)
    | (db₂, .ok (coverage, _)) => (db₂, .ok (claims + coverage))

def enforceRetention (p : Platform) (archiveId : String) (policy : RetentionPolicy) (now : Time) :
    Call RetentionResult := fun db =>
  if archiveId = "" ∨ now = 0 then (db, .error (.invariant "invalid retention request"))
  else
    match requireCurrentArchive archiveId db with
    | .error e => (db, .error e)
    | .ok () =>
      match archiveUsage p archiveId now db with
      | .error e => (db, .error e)
      | .ok before =>
        match policy before with
        | .error e => (db, .error e)
        | .ok plan =>
          if plan.valid now before.approximateBytes = false then
            (db, .error (.invariant "invalid retention plan"))
          else
            match deleteEventTier p archiveId plan now .acked db with
            | (db₁, .error e) => (db₁, .error e)
            | (db₁, .ok (acked, created₁)) =>
              match compactCoverageHistory p archiveId plan now db₁ with
              | (db₂, .error e) => (db₂, .error e)
              | (db₂, .ok compacted) =>
                match deleteEventTier p archiveId plan now .covered db₂ with
                | (db₃, .error e) => (db₃, .error e)
                | (db₃, .ok (covered, created₂)) =>
                  match deleteEventTier p archiveId plan now .unacked db₃ with
                  | (db₄, .error e) => (db₄, .error e)
                  | (db₄, .ok (unacked, created₃)) =>
                    match archiveUsage p archiveId now db₄ with
                    | .error e => (db₄, .error e)
                    | .ok after =>
                      (db₄, .ok {
                        level := if plan.aggressive then .aggressive
                          else if plan.warning then .warning else .normal
                        usageBefore := before
                        usageAfter := some after
                        deletedACKed := acked
                        deletedUnACKed := unacked
                        deletedCovered := covered
                        compactedHistory := compacted
                        createdIntervals := created₁ + created₂ + created₃
                        lowWatermarkReached := !plan.aggressive ||
                          after.approximateBytes ≤ plan.pressureTargetBytes })

end DockLattice.Store
