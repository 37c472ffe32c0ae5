import DockLattice.Wal.Ops

/-!
# DockLattice.Wal.Recover

`Recover` and `Open`: reading the metadata back, scanning the segments, repairing the newest one,
and checking that every range of cursors that is missing between the segments is explained.

Both run on a `State` whose memory they build themselves; what it held before is not read.
-/

namespace DockLattice.Wal

open Bytes Effect

/-! ## Scanning one segment -/

/-- The frames of a segment one after the other. Returns the segment so far, the offset behind its
last frame and how the file ended. -/
def scanFrames : FrameStream → Option Segment → Nat → Except WalError (Option Segment × Nat × ReadEnd)
  | .stop e, seg, offset => .ok (seg, offset, e)
  | .frame f next, none, offset =>
    scanFrames next (some ⟨f.cursor, f.cursor, f.appendedAt, 0⟩) (offset + f.bytes)
  | .frame f next, some seg, offset =>
    if f.cursor.incarnation ≠ seg.last.incarnation ∨ f.cursor.seq ≠ seg.last.seq + 1 then
      .error (.corrupt "non-contiguous segment")
    else
      scanFrames next (some { seg with last := f.cursor, newestAt := f.appendedAt })
        (offset + f.bytes)

def remainderIsZero (content : List Byte) (offset : Nat) : Bool :=
  (content.drop offset).all fun b => b = 0

def declaredFrameRunsPastEOF (content : List Byte) (offset : Nat) : Bool :=
  if (content.drop offset).length < 4 then true
  else decide (content.length - offset < 4 + beNat ((content.drop offset).take 4) + 4)

/-- Whether the newest segment may be cut off at `offset`. -/
def repairable (content : List Byte) (offset : Nat) : ReadEnd → Bool
  | .eof => false
  | .unexpectedEOF => true
  | .corrupt _ unread =>
    unread = 0 || declaredFrameRunsPastEOF content offset || remainderIsZero content offset

def endMessage : ReadEnd → String
  | .eof => "EOF"
  | .unexpectedEOF => "unexpected EOF"
  | .corrupt message _ => message

/-- The end of `scanSegment`, behind the loop. -/
def finishScan (name : Cursor) (repairTail : Bool) (seg : Option Segment) (offset : Nat) :
    WalProg (Option Segment) :=
  match seg with
  | none =>
    if repairTail then do
      removeSegment name
      syncDirectory
      pure none
    else Prog.throw (.corrupt "empty non-tail segment")
  | some seg =>
    if name ≠ seg.first then Prog.throw (.corrupt "segment filename/start mismatch")
    else pure (some { seg with bytes := offset })

def scanSegment (name : Cursor) (repairTail : Bool) (maxFrameBytes : Nat) :
    WalProg (Option Segment) := do
  let s ← Prog.get
  match s.disk.file? name with
  | none => Prog.throw (.io "no such file")
  | some file =>
    match scanFrames (frameStream maxFrameBytes file.content) none 0 with
    | .error e => Prog.throw e
    | .ok (seg, offset, ending) =>
      if ending = .eof then finishScan name repairTail seg offset
      else if repairTail ∧ repairable file.content offset ending then do
        truncateFile name offset
        fsync name
        finishScan name repairTail seg offset
      else Prog.throw (.corrupt ("scan: " ++ endMessage ending))

/-! ## All segments -/

def WAL.found (w : WAL) : Option Segment → WAL
  | none => w
  | some seg => { w with sealed := w.sealed ++ [seg], totalBytes := w.totalBytes + seg.bytes }

def recoverFrom (maxFrameBytes : Nat) : List Cursor → WalProg Unit
  | [] => pure ()
  | name :: rest => do
    let seg ← scanSegment name rest.isEmpty maxFrameBytes
    Prog.modify fun s => { s with wal := s.wal.found seg }
    recoverFrom maxFrameBytes rest

def validateSegmentContinuity (m : Metadata) : Option Segment → List Segment → Except WalError Unit
  | _, [] => .ok ()
  | previous, seg :: rest =>
    match previous with
    | none =>
      if seg.first.seq > 1 ∧ ¬ rangeExplained m seg.first.incarnation 1 seg.first.seq then
        .error (.invariant "unexplained missing prefix")
      else validateSegmentContinuity m (some seg) rest
    | some previous =>
      if previous.last.incarnation ≠ seg.first.incarnation then
        if seg.first.seq > 1 ∧ ¬ rangeExplained m seg.first.incarnation 1 seg.first.seq then
          .error (.invariant "unexplained missing prefix")
        else validateSegmentContinuity m (some seg) rest
      else if previous.last.seq = maxUint64 ∨ seg.first.seq ≤ previous.last.seq ∨
          (seg.first.seq ≠ previous.last.seq + 1 ∧
            ¬ rangeExplained m seg.first.incarnation (previous.last.seq + 1) seg.first.seq) then
        .error (.invariant "unexplained segment discontinuity")
      else validateSegmentContinuity m (some seg) rest

/-- File names are compared as text in the source; the cursors in them have a fixed width. -/
def segmentNames (d : Disk) : List Cursor := (d.segments.map Prod.fst).insertionSort (· ≤ ·)

def recoverSegments : WalProg Unit := do
  let s ← Prog.get
  recoverFrom s.wal.options.maxBytes (segmentNames s.disk)
  let s ← Prog.get
  match validateSegmentContinuity s.wal.metadata none s.wal.segments with
  | .error e => Prog.throw e
  | .ok () => pure ()

/-! ## Recover -/

def zeroMetadata : Metadata where
  version := 0
  agentId := ""
  currentIncarnation := 0
  nextSeq := 0
  lastAssigned := none
  durableThrough := none
  acknowledgedArchive := ""
  serverAck := none
  coverageRevision := 0
  gaps := []
  coverageUnknownIncarnations := []

def WAL.start (agentId : String) (options : Options) (m : Metadata) : WAL where
  agentId := agentId
  options := options
  metadata := m
  sealed := []
  active := none
  totalBytes := 0
  closed := false
  backgroundErr := none

def readMetadata (d : Disk) : Except WalError (Option Metadata) :=
  match d.metadata with
  | none => .ok none
  | some m =>
    match validateMetadata m with
    | .error e => .error e
    | .ok () => .ok (some m)

def identityMismatch (agentId : String) (m : Metadata) : Bool :=
  m.version ≠ metadataVersion || m.agentId ≠ agentId

def recover (agentId : String) (options : Options) : WalProg Recovery := do
  let s ← Prog.get
  match readMetadata s.disk with
  | .error e => Prog.throw e
  | .ok existing =>
    if existing.any (identityMismatch agentId) then
      Prog.throw (.invariant "metadata identity/version mismatch")
    else do
      Prog.modify fun s =>
        { s with wal := .start agentId options (existing.getD zeroMetadata) }
      recoverSegments
      let s ← Prog.get
      if existing.isNone ∧ s.wal.segments ≠ [] then
        Prog.throw (.invariant "WAL segments exist without coverage metadata")
      else
        pure ⟨s.wal.segments.getLast?.map (·.last), existing.bind (·.durableThrough)⟩

/-! ## Open -/

def Metadata.adopt (m : Metadata) (incarnation : Nat) : Metadata :=
  if m.currentIncarnation < incarnation then
    { m with currentIncarnation := incarnation, nextSeq := 1 }
  else m

def loadMetadata (d : Disk) (agentId : String) (incarnation : Nat) : Except WalError Metadata :=
  match readMetadata d with
  | .error e => .error e
  | .ok none => .ok (freshMetadata agentId incarnation)
  | .ok (some m) =>
    if identityMismatch agentId m then .error (.invariant "metadata identity/version mismatch")
    else if m.currentIncarnation > incarnation then
      .error (.invariant "persisted incarnation exceeds current")
    else
      match validateMetadata (m.adopt incarnation) with
      | .error e => .error e
      | .ok () => .ok (m.adopt incarnation)

def overlapping : Option Cursor → List Segment → Bool
  | _, [] => false
  | last, seg :: rest =>
    last.any (fun last => compareCursor seg.first last ≤ 0) || overlapping (some seg.last) rest

def currentLast (incarnation : Nat) (segments : List Segment) : Nat :=
  segments.foldl (fun n seg =>
    if seg.last.incarnation = incarnation ∧ seg.last.seq > n then seg.last.seq else n) 0

def reconcileMetadata (m : Metadata) (segments : List Segment) : Metadata :=
  let last := segments.getLast?.map (·.last)
  let lastAssigned :=
    match last, m.lastAssigned with
    | none, assigned => assigned
    | some last, none => some last
    | some last, some assigned => if compareCursor last assigned > 0 then some last else some assigned
  let current := currentLast m.currentIncarnation segments
  { m with
    lastAssigned := lastAssigned
    nextSeq := if current ≥ m.nextSeq then current + 1 else m.nextSeq }

def reconcileRecoveredState : WalProg Unit := do
  let s ← Prog.get
  if overlapping none s.wal.segments then Prog.throw (.corrupt "overlapping segments")
  else Prog.modify fun s => s.setMetadata (reconcileMetadata s.wal.metadata s.wal.segments)

def openWAL (agentId : String) (incarnation : Nat) (options : Options) (now : Instant) :
    WalProg Unit := do
  if agentId = "" ∨ incarnation = 0 then
    Prog.throw (.invariant "agent_id and incarnation are required")
  else do
    let s ← Prog.get
    match loadMetadata s.disk agentId incarnation with
    | .error e => Prog.throw e
    | .ok m => do
      Prog.modify fun s => { s with wal := .start agentId options m }
      recoverSegments
      reconcileRecoveredState
      let _ ← enforceRetentionLocked now 0
      let s ← Prog.get
      wrapping "auditwal: persist recovered metadata" (saveMetadata s.wal.metadata)

end DockLattice.Wal
