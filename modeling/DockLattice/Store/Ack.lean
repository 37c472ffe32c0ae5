import DockLattice.Store.Coverage

/-!
# DockLattice.Store.Ack

Which acknowledgements the archive can give (`ack.go`), and the record of an archive that went
backwards (`regression.go`).

`unexplainedACKRanges` walks the incarnations from the last acknowledgement to the proposed one. In
an earlier incarnation the walk ends at the last sequence number the archive knows of.
-/

namespace DockLattice.Store

def coverageStart (db : Db) (archiveId agentId : String) : Except StoreError Cursor :=
  match db.lowerBound? archiveId agentId with
  | none => .error (.invariant "coverage start is missing")
  | some row => .ok ⟨row.fromIncarnation, row.fromSeq.getD 0⟩

def relevantIncarnations (db : Db) (archiveId agentId : String) (first last : Nat) : List Nat :=
  ((db.events.filter (·.agentId == agentId)).map (·.cursor.incarnation) ++
    (db.coverage.filter fun r => r.of archiveId agentId && r.live).map
      CoverageRow.fromIncarnation).filter fun i => first ≤ i && i ≤ last

/-- The sequence numbers the archive knows of in an incarnation: those of its events, and the last
ones of live ranges. -/
def knownSeqs (db : Db) (archiveId agentId : String) (incarnation : Nat) : List Nat :=
  (db.events.filter fun e => e.agentId == agentId && e.cursor.incarnation == incarnation).map
      (·.cursor.seq) ++
    (db.coverage.filter fun r => r.of archiveId agentId && r.live &&
      r.fromIncarnation == incarnation).filterMap fun r => r.untilSeq.map (· - 1)

def ackRangeEnd (db : Db) (archiveId agentId : String) (incarnation : Nat)
    (proposed deliveryNext : Cursor) : Option Nat :=
  if incarnation = proposed.incarnation then some (proposed.seq + 1)
  else if deliveryNext.incarnation ≤ incarnation then none
  else (knownSeqs db archiveId agentId incarnation).max?.map (· + 1)

def unknownIncarnation (db : Db) (archiveId agentId : String) (incarnation : Nat) : Bool :=
  db.coverage.any fun r => r.of archiveId agentId && r.entryType == .gap &&
    r.fromIncarnation == incarnation && r.fromSeq.isNone && r.live

/-- The live ranges that meet `[fromSeq, untilSeq)`. -/
def coveringSpans (db : Db) (archiveId agentId : String) (incarnation fromSeq untilSeq : Nat) :
    List Span :=
  db.coverage.filterMap fun r =>
    if r.of archiveId agentId && (r.entryType == .gap || r.entryType == .regression) &&
        r.fromIncarnation == incarnation && r.live then
      match r.fromSeq, r.untilSeq with
      | some first, some past =>
        if fromSeq < past ∧ first < untilSeq then some ⟨first, past⟩ else none
      | _, _ => none
    else none

/-- Events and live ranges, in order and cut to `[fromSeq, untilSeq)`. -/
def ackIntervals (db : Db) (archiveId agentId : String) (incarnation fromSeq untilSeq : Nat) :
    List Span :=
  (((heldSeqs db agentId incarnation fromSeq untilSeq).map Span.single ++
    coveringSpans db archiveId agentId incarnation fromSeq untilSeq).insertionSort fun a b =>
      a.start < b.start ∨ (a.start = b.start ∧ a.stop ≤ b.stop)).map fun s =>
        ⟨max fromSeq s.start, min untilSeq s.stop⟩

def missingACKCoverage (db : Db) (archiveId agentId : String) (incarnation fromSeq untilSeq : Nat) :
    Except StoreError (List Range) :=
  if unknownIncarnation db archiveId agentId incarnation then .ok []
  else if maxInt64 < untilSeq then .error .driver
  else .ok ((Span.uncovered fromSeq untilSeq
    (ackIntervals db archiveId agentId incarnation fromSeq untilSeq)).map (Span.range incarnation))

/-- What is missing of the listed incarnations between `start` and `proposed`. -/
def walkIncarnations (db : Db) (archiveId agentId : String) (start proposed deliveryNext : Cursor) :
    List Nat → Except StoreError (List Range)
  | [] => .ok []
  | incarnation :: rest =>
    let fromSeq := if incarnation = start.incarnation then start.seq else 1
    match ackRangeEnd db archiveId agentId incarnation proposed deliveryNext with
    | none => walkIncarnations db archiveId agentId start proposed deliveryNext rest
    | some untilSeq =>
      if untilSeq ≤ fromSeq then
        walkIncarnations db archiveId agentId start proposed deliveryNext rest
      else
        match missingACKCoverage db archiveId agentId incarnation fromSeq untilSeq with
        | .error e => .error e
        | .ok missing =>
          match walkIncarnations db archiveId agentId start proposed deliveryNext rest with
          | .error e => .error e
          | .ok others => .ok (missing ++ others)

def ackStart (coverage : Cursor) (currentACK : Option Cursor) : Cursor :=
  match currentACK with
  | none => coverage
  | some ack => if coverage ≤ ack then ⟨ack.incarnation, ack.seq + 1⟩ else coverage

def unexplainedACKRanges (db : Db) (archiveId agentId : String) (currentACK : Option Cursor)
    (proposed deliveryNext : Cursor) : Except StoreError (List Range) :=
  match coverageStart db archiveId agentId with
  | .error e => .error e
  | .ok coverage =>
    let start := ackStart coverage currentACK
    if proposed < start then .ok [⟨proposed, ⟨proposed.incarnation, proposed.seq + 1⟩⟩]
    else
      let incarnations := ((start.incarnation :: proposed.incarnation ::
        relevantIncarnations db archiveId agentId start.incarnation
          proposed.incarnation).dedup).insertionSort (· ≤ ·)
      walkIncarnations db archiveId agentId start proposed deliveryNext incarnations

structure ACKResult where
  advanced : Bool
  cursor : Cursor
  deriving DecidableEq, Repr

def checkAndAdvanceACK (p : Platform) (archiveId agentId : String) (proposed : Cursor)
    (coverageRevisionSeen : Nat) (now : Time) : Txn ACKResult := fun db =>
  if archiveId = "" ∨ agentId = "" ∨ validCursor proposed = false then
    .error (.invariant "invalid ACK")
  else
    match loadCursorState p db archiveId agentId with
    | .error e => .error e
    | .ok state =>
      if coverageRevisionSeen ≠ state.revision then
        .error (.coverageRevision coverageRevisionSeen state.revision)
      else if state.ack.any (proposed < ·) then .error .cursorRollback
      else if state.ack = some proposed then .ok (db, ⟨false, proposed⟩)
      else
        match state.next with
        | none => .error (.ackIneligible proposed (cursorValue none) [])
        | some next =>
          if next ≤ proposed then .error (.ackIneligible proposed next [])
          else
            match unexplainedACKRanges db archiveId agentId state.ack proposed next with
            | .error e => .error e
            | .ok [] =>
              .ok (db.updateCursor archiveId agentId fun r => { r with
                ack := some proposed
                revision := coverageRevisionSeen
                updatedAt := p.format now }, ⟨true, proposed⟩)
            | .ok unexplained => .error (.ackIneligible proposed next unexplained)

/-! ## Regressions -/

def insertRegressionGap (p : Platform) (archiveId agentId : String) (reason : Reason) (now : Time)
    (db : Db) (value : Range) : Except StoreError Db :=
  if value.start.incarnation ≠ value.stop.incarnation then
    .error (.invariant "cursor regression range spans incarnations")
  else if maxInt64 < value.stop.seq then .error .driver
  else .ok (db.insertCoverage fun id => ⟨id, archiveId, agentId, .regression,
    value.start.incarnation, some value.start.seq, some value.stop.incarnation,
    some value.stop.seq, .cursorRegression, .exact, true, p.format now, none, some reason⟩)

def recordBlocked (p : Platform) (archiveId agentId : String) (resumedAt : Cursor)
    (reason : Reason) (now : Time) : Db → List Range → Except StoreError (Db × List Range)
  | db, [] => .ok (db, [])
  | db, blocked :: rest =>
    if resumedAt < blocked.stop then recordBlocked p archiveId agentId resumedAt reason now db rest
    else
      match insertRegressionGap p archiveId agentId reason now db blocked with
      | .error e => .error e
      | .ok db' =>
        match recordBlocked p archiveId agentId resumedAt reason now db' rest with
        | .error e => .error e
        | .ok (db'', recorded) => .ok (db'', blocked :: recorded)

def recordCursorRegression (p : Platform) (archiveId agentId : String)
    (proposed resumedAt : Cursor) (reason : Reason) (now : Time) : Txn (List Range) := fun db =>
  if archiveId = "" ∨ agentId = "" ∨ validCursor proposed = false ∨
      validCursor resumedAt = false then
    .error (.invariant "invalid cursor regression")
  else if validRegressionReason reason = false then
    .error (.invariant "invalid cursor regression reason")
  else
    match loadCursorState p db archiveId agentId with
    | .error e => .error e
    | .ok state =>
      match coverageStart db archiveId agentId with
      | .error e => .error e
      | .ok _ =>
        match state.next with
        | none => .ok (db, [])
        | some next =>
          if next ≤ proposed then .ok (db, [])
          else
            match unexplainedACKRanges db archiveId agentId state.ack proposed next with
            | .error e => .error e
            | .ok blocked => recordBlocked p archiveId agentId resumedAt reason now db blocked

end DockLattice.Store
