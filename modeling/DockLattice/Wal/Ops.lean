import DockLattice.Wal.Meta
import DockLattice.Wal.State

/-!
# DockLattice.Wal.Ops

The operations of an open WAL (`wal.go`, `operations.go`), each the body of a method that holds the
mutex. The clock reading of a call is its argument `now`, a cancelled context its argument
`canceled`. A loop that deletes from the front of the segment list runs over the sealed segments it
finds at its start: nothing else changes that list while it runs, and the active segment ends it.
-/

namespace DockLattice.Wal

open Bytes Effect

/-- `err = fmt.Errorf(context + ": %w", err)`. -/
def wrapping {α : Type} (context : String) (p : WalProg α) : WalProg α :=
  p.attempt fun e => Prog.throw (.wrapped context e)

/-! ## Metadata -/

def saveMetadata (m : Metadata) : WalProg Unit :=
  match validateMetadata m with
  | .error e => Prog.throw e
  | .ok () => replaceFile "replace metadata" fun d => { d with metadata := some m }

/-- What `saveMetadataDurableLocked` writes: the batch that is still open is left out. -/
def durableMetadata (w : WAL) : Metadata :=
  match w.active with
  | none => w.metadata
  | some a =>
    if a.pending > 0 then
      { w.metadata with
        nextSeq := a.segment.first.seq
        lastAssigned :=
          match w.sealed.getLast?, w.metadata.durableThrough with
          | some previous, none => some previous.last
          | some previous, some durable =>
            if compareCursor previous.last durable > 0 then some previous.last else some durable
          | none, durable => durable }
    else w.metadata

def saveMetadataDurableLocked : WalProg Unit := do
  let s ← Prog.get
  saveMetadata (durableMetadata s.wal)

/-- Put `m` in memory, write it out with `save`, and take it back if that fails. -/
def updateMetadata (m : Metadata) (save : WalProg Unit) (wrap : WalError → WalError) :
    WalProg Unit := do
  let s ← Prog.get
  Prog.modify fun t => t.setMetadata m
  save.attempt fun e => do
    Prog.modify fun t => t.setMetadata s.wal.metadata
    Prog.throw (wrap e)

def saveMetadataLocked : WalProg Unit := do
  let s ← Prog.get
  saveMetadata s.wal.metadata

/-! ## Sync -/

def WAL.sealActive (w : WAL) : WAL :=
  { w with sealed := w.segments, active := none }

def syncLocked : WalProg Unit := do
  let s ← Prog.get
  match s.wal.active with
  | none => pure ()
  | some a => do
    wrapping "auditwal: fsync segment" (fsync a.segment.first)
    updateMetadata { s.wal.metadata with durableThrough := some a.segment.last }
      saveMetadataLocked (.wrapped "auditwal: persist durable cursor")
    Prog.modify fun s => { s with wal := s.wal.sealActive }
    wrapping "auditwal: close segment" (touch "close")

/-! ## Deletion -/

def segmentACKed (seg : Segment) (ack : Option Cursor) : Bool :=
  match ack with
  | none => false
  | some ack => compareCursor seg.last ack ≤ 0

def deleteSegmentLocked (seg : Segment) : WalProg Unit := do
  let s ← Prog.get
  if s.wal.segments.head? ≠ some seg then
    Prog.throw (.invariant "deletion is not oldest-first")
  else do
    removeSegment seg.first
    Prog.modify fun s =>
      { s with wal := { s.wal with
        sealed := s.wal.sealed.tail, totalBytes := s.wal.totalBytes - seg.bytes } }
    syncDirectory

def segmentGap (seg : Segment) (reason : GapReason) (revision : Nat) : Gap where
  incarnation := seg.first.incarnation
  fromSeq := seg.first.seq
  untilSeq := seg.last.seq + 1
  reason := reason
  precision := .exact
  lastLossRevision := revision

def Metadata.withGap (m : Metadata) (seg : Segment) (reason : GapReason) : Metadata :=
  { m with
    coverageRevision := m.coverageRevision + 1
    gaps := mergeGap m.gaps (segmentGap seg reason (m.coverageRevision + 1)) }

def deleteWithGapLocked (seg : Segment) (reason : GapReason) : WalProg Unit := do
  if seg.last.seq = maxUint64 then
    Prog.throw (.invariant "cannot represent gap end")
  else do
    let s ← Prog.get
    updateMetadata (s.wal.metadata.withGap seg reason) saveMetadataDurableLocked
      (.wrapped "auditwal: persist coverage before deletion")
    deleteSegmentLocked seg

/-- Delete from the front while the oldest segment is `due`; returns the bytes freed. -/
def deleteWhile (due : WAL → Nat → Segment → Bool) (delete : Segment → WalProg Unit) :
    List Segment → Nat → WalProg Nat
  | [], freed => pure freed
  | seg :: rest, freed => do
    let s ← Prog.get
    if due s.wal freed seg then do
      delete seg
      deleteWhile due delete rest (freed + seg.bytes)
    else pure freed

def deleteACKedLocked : WalProg Nat := do
  let s ← Prog.get
  deleteWhile (fun w _ seg => segmentACKed seg w.metadata.serverAck) deleteSegmentLocked
    s.wal.sealed 0

def expired (w : WAL) (cutoff : Int) (incoming : Nat) (seg : Segment) : Bool :=
  decide (seg.newestAt.nanos ≤ cutoff) || decide (w.totalBytes + incoming > w.options.maxBytes)

def cutoffAt (options : Options) (now : Instant) : Int := now.nanos - options.maxAge

def enforceRetentionLocked (now : Instant) (incoming : Nat) : WalProg Nat := do
  let freed ← deleteACKedLocked
  let s ← Prog.get
  deleteWhile (fun w _ seg => expired w (cutoffAt w.options now) incoming seg)
    (deleteWithGapLocked · .retention) s.wal.sealed freed

/-! ## Append -/

def maxPayloadBytes (maxFrameBytes : Nat) : Nat :=
  min (maxFrameBytes - envelopeHeaderBytes - 8) (maxUint32 - envelopeHeaderBytes)

def createActiveLocked (cursor : Cursor) (now : Instant) : WalProg Unit := do
  wrapping "auditwal: create segment" (createFile cursor)
  Prog.modify fun s =>
    { s with wal := { s.wal with active := some ⟨⟨cursor, cursor, now, 0⟩, 0⟩ } }

def WAL.wrote (w : WAL) (a : ActiveSegment) (f : DecodedFrame) : WAL :=
  { w with
    active := some
      { segment := { a.segment with
          bytes := a.segment.bytes + f.bytes, last := f.cursor, newestAt := f.appendedAt }
        pending := a.pending + f.bytes }
    totalBytes := w.totalBytes + f.bytes
    metadata := { w.metadata with
      nextSeq := w.metadata.nextSeq + 1, lastAssigned := some f.cursor } }

def WAL.nextCursor (w : WAL) : Cursor := ⟨w.metadata.currentIncarnation, w.metadata.nextSeq⟩

def Record.of (agentId : String) (f : DecodedFrame) : Record :=
  ⟨agentId, f.cursor, f.appendedAt, f.payload⟩

/-- `appendLocked` from the point where the frame is known to fit. -/
def appendFrame (f : DecodedFrame) (bytes : List Byte) : WalProg Record := do
  let s ← Prog.get
  Prog.when (s.wal.active.isSome ∧ s.wal.totalBytes + bytes.length > s.wal.options.maxBytes)
    syncLocked
  let _ ← enforceRetentionLocked f.appendedAt bytes.length
  let s ← Prog.get
  Prog.when s.wal.active.isNone (createActiveLocked f.cursor f.appendedAt)
  let s ← Prog.get
  match s.wal.active with
  | none => Prog.throw (.invariant "no active segment")
  | some a => do
    wrapping "auditwal: append" (writeFull a.segment.first bytes)
    Prog.modify fun s => { s with wal := s.wal.wrote a f }
    let s ← Prog.get
    Prog.when (s.wal.active.any fun a => decide (a.pending ≥ s.wal.options.syncBytes)) syncLocked
    pure (Record.of s.wal.agentId f)

def appendLocked (canceled : Bool) (now : Instant) (payload : List Byte) : WalProg Record := do
  let s ← Prog.get
  if s.wal.closed then Prog.throw .closed
  else
    match s.wal.backgroundErr with
    | some e => Prog.throw e
    | none =>
      if canceled then Prog.throw .canceled
      else if s.wal.metadata.nextSeq = maxUint64 then Prog.throw (.invariant "sequence exhausted")
      else if payload.length > maxPayloadBytes s.wal.options.maxBytes then
        Prog.throw .recordTooLarge
      else
        match encodeFrame s.wal.nextCursor now payload with
        | .error e => Prog.throw e
        | .ok bytes =>
          if bytes.length > s.wal.options.maxBytes then Prog.throw .recordTooLarge
          else appendFrame ⟨s.wal.nextCursor, now, payload⟩ bytes

def append (canceled : Bool) (now : Instant) (payload : List Byte) : WalProg Record :=
  appendLocked canceled now payload

/-! ## The other calls -/

def whenOpen {α : Type} (p : WalProg α) : WalProg α := do
  let s ← Prog.get
  if s.wal.closed then Prog.throw .closed else p

def sync : WalProg Unit :=
  whenOpen do
    syncLocked
    Prog.modify fun s => { s with wal := { s.wal with backgroundErr := none } }

/-- Run `p` and keep its error for later. -/
def errorOf (p : WalProg Unit) : WalProg (Option WalError) :=
  (do p; pure none : WalProg (Option WalError)).attempt fun e => pure (some e)

def closeActive (active : Option ActiveSegment) (failed : Option WalError) :
    WalProg (Option WalError) :=
  match active with
  | none => pure failed
  | some _ => do
    let closeFailed ← errorOf (touch "close")
    pure (failed.or closeFailed)

def close : WalProg Unit := do
  let s ← Prog.get
  if s.wal.closed then pure ()
  else do
    let failed ← errorOf syncLocked
    let s ← Prog.get
    let failed ← closeActive s.wal.active (failed.or s.wal.backgroundErr)
    Prog.modify fun s => { s with wal := { s.wal.sealActive with closed := true } }
    match failed with
    | some e => Prog.throw e
    | none => pure ()

def syncTick (now : Instant) : WalProg Unit := do
  let fails (e : WalError) : WalProg Unit :=
    Prog.modify fun s => { s with wal := { s.wal with backgroundErr := some e } }
  let s ← Prog.get
  if s.wal.closed then pure ()
  else do
    Prog.when (s.wal.active.any fun a => decide (a.pending > 0)) (syncLocked.attempt fails)
    let s ← Prog.get
    Prog.when s.wal.backgroundErr.isNone
      ((do let _ ← enforceRetentionLocked now 0; pure () : WalProg Unit).attempt fails)

def boundsLocked (w : WAL) : Bounds where
  walFloor := w.segments.head?.map (·.first)
  walCeiling := w.segments.getLast?.map (·.last)
  nextCursor := w.nextCursor
  durableThrough := w.metadata.durableThrough
  serverAckedThrough := w.metadata.serverAck
  acknowledgedArchiveId := w.metadata.acknowledgedArchive
  coverageRevision := w.metadata.coverageRevision

def bounds : WalProg Bounds :=
  whenOpen do
    let s ← Prog.get
    pure (boundsLocked s.wal)

def coverageLocked (w : WAL) (now : Instant) : CoverageSnapshot where
  agentId := w.agentId
  revision := w.metadata.coverageRevision
  generatedAt := now
  gaps := w.metadata.gaps
  coverageUnknownIncarnations := w.metadata.coverageUnknownIncarnations

def rebindArchive (archive : String) : WalProg Unit :=
  whenOpen do
    let s ← Prog.get
    if archive = "" then Prog.throw (.invariant "empty archive id")
    else if s.wal.metadata.acknowledgedArchive = archive then pure ()
    else do
      syncLocked
      let s ← Prog.get
      updateMetadata { s.wal.metadata with acknowledgedArchive := archive, serverAck := none }
        saveMetadataLocked id

def gapIntersectsACK (gap : Gap) (current : Option Cursor) (proposed : Cursor) : Bool :=
  if compareCursor ⟨gap.incarnation, gap.fromSeq⟩ proposed > 0 then false
  else
    match current with
    | none => true
    | some current => compareCursor ⟨gap.incarnation, gap.untilSeq - 1⟩ current > 0

def incarnationIntersectsACK (incarnation : Nat) (current : Option Cursor) (proposed : Cursor) :
    Bool :=
  if proposed.incarnation < incarnation then false
  else
    match current with
    | none => true
    | some current => current.incarnation ≤ incarnation

def blockingGaps (m : Metadata) (proposed : Cursor) (seen : Nat) : List Gap :=
  m.gaps.filter fun gap =>
    decide (gap.lastLossRevision > seen) && gapIntersectsACK gap m.serverAck proposed

def blockingUnknown (m : Metadata) (proposed : Cursor) (seen : Nat) : List Nat :=
  if seen < m.coverageRevision then
    m.coverageUnknownIncarnations.filter fun incarnation =>
      incarnationIntersectsACK incarnation m.serverAck proposed
  else []

/-- The checks of `AckAudit` on a cursor that is not acknowledged yet. -/
def ackProblem (w : WAL) (now : Instant) (proposed : Cursor) (seen : Nat) : Option WalError :=
  if seen > w.metadata.coverageRevision then
    some (.invariant "seen coverage revision exceeds current")
  else if w.metadata.lastAssigned.all fun last => compareCursor proposed last > 0 then
    some .cursorAhead
  else if blockingGaps w.metadata proposed seen ≠ [] ∨
      blockingUnknown w.metadata proposed seen ≠ [] then
    some (.staleCoverage
      { seenRevision := seen
        currentRevision := w.metadata.coverageRevision
        currentAck := w.metadata.serverAck
        blockingRanges := blockingGaps w.metadata proposed seen
        blockingUnknownIncarnations := blockingUnknown w.metadata proposed seen
        coverage := coverageLocked w now })
  else none

def advanceAck (proposed : Cursor) : WalProg Unit := do
  let s ← Prog.get
  updateMetadata { s.wal.metadata with serverAck := some proposed } saveMetadataLocked
    (.wrapped "auditwal: persist ACK")
  let _ ← deleteACKedLocked
  pure ()

def ackAudit (now : Instant) (archive : String) (proposed : Cursor) (seen : Nat) : WalProg Unit :=
  whenOpen do
    let s ← Prog.get
    if archive = "" ∨ proposed.incarnation = 0 ∨ proposed.seq = 0 then
      Prog.throw (.invariant "archive and cursor required")
    else if s.wal.metadata.acknowledgedArchive ≠ archive then
      Prog.throw (.archiveMismatch s.wal.metadata.acknowledgedArchive archive)
    else do
      syncLocked
      let s ← Prog.get
      if s.wal.metadata.serverAck.any fun ack => compareCursor proposed ack < 0 then
        Prog.throw .cursorRollback
      else if s.wal.metadata.serverAck = some proposed then do
        let _ ← deleteACKedLocked
        pure ()
      else
        match ackProblem s.wal now proposed seen with
        | some e => Prog.throw e
        | none => advanceAck proposed

def enforceLimits (now : Instant) : WalProg Nat :=
  whenOpen do
    syncLocked
    enforceRetentionLocked now 0

def reclaimACKedForDiskPressure (now : Instant) (bytesNeeded : Int) : WalProg ReclaimResult :=
  whenOpen do
    let s ← Prog.get
    if bytesNeeded ≤ 0 then pure ⟨0, 0, 0, false, coverageLocked s.wal now⟩
    else do
      let freed ← deleteWhile
        (fun w freed seg =>
          decide ((freed : Int) < bytesNeeded) && segmentACKed seg w.metadata.serverAck)
        deleteSegmentLocked s.wal.sealed 0
      let s ← Prog.get
      pure ⟨freed, freed, 0, decide ((freed : Int) < bytesNeeded), coverageLocked s.wal now⟩

def reclaimUnackedForDiskPressure (now : Instant) (bytesNeeded : Int) : WalProg ReclaimResult :=
  whenOpen do
    let s ← Prog.get
    if bytesNeeded ≤ 0 then pure ⟨0, 0, 0, false, coverageLocked s.wal now⟩
    else do
      let freed ← deleteWhile
        (fun w freed seg =>
          decide ((freed : Int) < bytesNeeded) && !segmentACKed seg w.metadata.serverAck)
        (deleteWithGapLocked · .diskPressure) s.wal.sealed 0
      let s ← Prog.get
      pure ⟨freed, 0, freed, decide ((freed : Int) < bytesNeeded), coverageLocked s.wal now⟩

def reclaimForDiskPressure (now : Instant) (bytesNeeded : Int) : WalProg ReclaimResult := do
  let acked ← reclaimACKedForDiskPressure now bytesNeeded
  if (acked.freedBytes : Int) ≥ bytesNeeded then pure acked
  else do
    let unacked ← reclaimUnackedForDiskPressure now (bytesNeeded - acked.freedBytes)
    let freed := acked.freedBytes + unacked.freedBytes
    pure
      { freedBytes := freed
        deletedAckedBytes := acked.deletedAckedBytes
        deletedUnackedBytes := acked.deletedUnackedBytes + unacked.deletedUnackedBytes
        degraded := decide ((freed : Int) < bytesNeeded)
        coverage := unacked.coverage }

def reclaimTempsFrom (canceled : Bool) (bytesNeeded : Int) : List Nat → Nat → WalProg Nat
  | [], freed => pure freed
  | size :: rest, freed =>
    if (freed : Int) ≥ bytesNeeded then pure freed
    else if canceled then Prog.throw .canceled
    else do
      atomically "remove" fun d => { d with temps := d.temps.tail }
      reclaimTempsFrom canceled bytesNeeded rest (freed + size)

def reclaimAbandonedTempForDiskPressure (canceled : Bool) (bytesNeeded : Int) : WalProg Nat :=
  whenOpen do
    let s ← Prog.get
    if bytesNeeded ≤ 0 then pure 0
    else do
      let freed ← reclaimTempsFrom canceled bytesNeeded s.disk.temps 0
      Prog.when (freed > 0) syncDirectory
      pure freed

/-! ## Reading -/

/-- The frames of one segment, from `expected` on, until `limit` records are collected. Returns the
records and the last cursor read. -/
def readSegment (agentId : String) (start : Cursor) (limit : Nat) :
    FrameStream → Cursor → Option Cursor → List Record → Except WalError (List Record × Option Cursor)
  | stream, expected, lastRead, records =>
    if records.length < limit then
      match stream with
      | .stop .eof => .ok (records, lastRead)
      | .stop .unexpectedEOF => .error (.corrupt "read segment: unexpected EOF")
      | .stop (.corrupt message _) => .error (.corrupt ("read segment: " ++ message))
      | .frame f next =>
        if f.cursor ≠ expected then .error (.corrupt "segment cursor changed after recovery")
        else
          readSegment agentId start limit next
            (if expected.seq ≠ maxUint64 then ⟨expected.incarnation, expected.seq + 1⟩ else expected)
            (some f.cursor)
            (if compareCursor f.cursor start ≥ 0 then records ++ [Record.of agentId f] else records)
    else .ok (records, lastRead)

def readSegments (s : State) (canceled : Bool) (start : Cursor) (limit : Nat) :
    List Segment → List Record → Except WalError (List Record)
  | [], records => .ok records
  | seg :: rest, records =>
    if compareCursor seg.last start < 0 then readSegments s canceled start limit rest records
    else
      match s.disk.file? seg.first with
      | none => .error (.io "no such file")
      | some file =>
        if canceled then .error .canceled
        else
          match readSegment s.wal.agentId start limit
              (frameStream s.wal.options.maxBytes file.content) seg.first none records with
          | .error e => .error e
          | .ok (records, lastRead) =>
            if records.length < limit ∧ lastRead ≠ some seg.last then
              .error (.corrupt "segment boundary changed after recovery")
            else if records.length = limit then .ok records
            else readSegments s canceled start limit rest records

def readAuditFrom (canceled : Bool) (now : Instant) (start : Cursor) (limit : Int) :
    WalProg ReadResult :=
  whenOpen do
    let s ← Prog.get
    if start.incarnation = 0 ∨ start.seq = 0 ∨ limit ≤ 0 then
      Prog.throw (.invariant "valid start cursor and positive limit required")
    else if (boundsLocked s.wal).walFloor.any fun floor => compareCursor start floor < 0 then
      pure ⟨[], some ⟨start, boundsLocked s.wal, coverageLocked s.wal now⟩⟩
    else
      match readSegments s canceled start limit.toNat s.wal.segments [] with
      | .error e => Prog.throw e
      | .ok records => pure ⟨records, none⟩

end DockLattice.Wal
