import DockLattice.Operation.Types

/-!
# DockLattice.Operation.Engine

One operation of the engine (`operation.go`, `journal.go`): the record in memory, the journal file
and the optional output file. A transition commits its record through the journal; if the write is
reported to have failed the record in memory is the old one (`Item.commit`), but the file may be the
new one. Each reading of the clock is an input of its own.
-/

namespace DockLattice.Operation

open Bytes

inductive Fate where
  | ok
  | failed
  /-- the file was replaced, but the directory sync behind it failed -/
  | replaced
  deriving DecidableEq, Repr

structure Op where
  record : Record
  terminalNotified : Bool
  deriving DecidableEq, Repr

/-- `persistedOutput` -/
structure Output where
  tail : Text
  truncated : Bool
  deriving DecidableEq, Repr

structure Item where
  /-- `none` while the Agent is down -/
  memory : Option Op
  file : Record
  output : Option Output
  deriving DecidableEq, Repr

structure Config where
  outputTailBytes : Nat
  /-- whether a `TerminalAuditor` is configured -/
  audited : Bool
  deriving DecidableEq, Repr

/-- `Engine.persist` of the minimal record: the file and whether success is reported. -/
def persist (fate : Fate) (file new : Record) : Record × Bool :=
  if new.storable then
    match fate with
    | .ok => (new.journaled, true)
    | .failed => (file, false)
    | .replaced => (new.journaled, false)
  else (file, false)

/-- The common end of all transitions: the new record stays only if it was persisted. -/
def Item.commit (it : Item) (fate : Fate) (new : Op) : Item :=
  match persist fate it.file new.record with
  | (file, true) => { it with memory := some new, file := file }
  | (file, false) => { it with file := file }

/-! ## Transitions -/

/-- `finishLocked`: the first terminal status gets its time from a second reading of the clock. -/
def finishLocked (c : Config) (o : Op) (status : Status) (now : Time) : Op :=
  if !status.terminal || o.terminalNotified then o
  else
    { record :=
        { o.record with
          finishedAt := now
          managedAuditDelivery :=
            if c.audited then .pending else o.record.managedAuditDelivery }
      terminalNotified := true }

def transitionAllowed (r : Record) (next : Status) : Bool :=
  legalStatusTransition r.status next &&
    !(next == .success && r.phase != .finalizing) &&
    !(next == .canceled && r.cancelRequestedAt.isZero)

def transitionStatus (c : Config) (o : Op) (next : Status) (result errorText : Text)
    (now finished : Time) : Option Op :=
  if transitionAllowed o.record next then
    let record :=
      { o.record with
        status := next
        revision := o.record.revision + 1
        lastProgressAt := now
        startedAt :=
          if next == .running && o.record.startedAt.isZero then now else o.record.startedAt
        result := result
        error := errorText
        partialEffectsPossible := next == .interrupted || o.record.partialEffectsPossible }
    some (finishLocked c { o with record := record } next finished)
  else none

def phaseAllowed (r : Record) (next : Phase) : Bool :=
  (r.phase == .preparing && next == .executing) ||
    if r.cancelMode == .beforeCommit then r.phase == .committing && next == .finalizing
    else r.phase == .executing && next == .finalizing

def advancePhase (o : Op) (next : Phase) (now : Time) : Option Op :=
  if o.record.status.terminal then none
  else if phaseAllowed o.record next then
    some { o with record :=
      { o.record with
        phase := next
        revision := o.record.revision + 1
        lastProgressAt := now } }
  else none

def enterCommit (o : Op) (now : Time) : Option Op :=
  if o.record.status.terminal then none
  else if o.record.cancelMode != .beforeCommit || o.record.phase != .executing then none
  else if !o.record.cancelRequestedAt.isZero then none
  else
    some { o with record :=
      { o.record with
        phase := .committing
        commitStartedAt := now
        revision := o.record.revision + 1
        lastProgressAt := now } }

/-- `CancelWithError` where it changes the record; the other outcomes leave it alone. -/
def cancelWithError (o : Op) (reason : CancelReason) (now : Time) :
    CancelOutcome × Option Op :=
  if o.record.status.terminal then (.alreadyTerminal, none)
  else if o.record.cancelMode == .none then (.notCancelable, none)
  else if o.record.cancelMode == .beforeCommit &&
      (!o.record.commitStartedAt.isZero || o.record.phase == .committing ||
        o.record.phase == .finalizing) then (.tooLate, none)
  else if !o.record.cancelRequestedAt.isZero then (.accepted, none)
  else
    (.accepted, some { o with record :=
      { o.record with
        cancelRequestedAt := now
        cancelReason := some reason
        partialEffectsPossible := o.record.cancelMode == .bestEffortPartial
        revision := o.record.revision + 1
        lastProgressAt := now } })

def reject (c : Config) (o : Op) (cause : Text) (now finished : Time) : Option Op :=
  if o.record.status.terminal then none
  else
    let record :=
      { o.record with
        status := .rejected
        error := cause
        revision := o.record.revision + 1
        lastProgressAt := now }
    some (finishLocked c { o with record := record } .rejected finished)

def advanceProgress (o : Op) (now : Time) : Option Op :=
  if o.record.status.terminal then none
  else
    some { o with record :=
      { o.record with revision := o.record.revision + 1, lastProgressAt := now } }

def lastBytes (n : Nat) (s : Text) : Text := s.drop (s.length - n)

def writeOutput (limit : Nat) (r : Record) (payload : Text) : Record :=
  if payload.isEmpty then r
  else if limit ≤ payload.length then
    { r with
      outputTruncated :=
        r.outputTruncated || !r.outputTail.isEmpty || limit < payload.length
      outputTail := Utf8.trimPartialLeadingRune (lastBytes limit payload) }
  else
    let tail := r.outputTail ++ payload
    if limit < tail.length then
      { r with
        outputTail := Utf8.trimPartialLeadingRune (lastBytes limit tail)
        outputTruncated := true }
    else { r with outputTail := tail }

/-- The journaling half of `deliverTerminalAudit`. -/
def markDelivered (o : Op) : Option Op :=
  if o.record.managedAuditDelivery == .pending then
    some { o with record := { o.record with managedAuditDelivery := .delivered } }
  else none

/-! ## Restart -/

def Item.loaded (it : Item) : Record :=
  match it.output with
  | none => it.file
  | some out => { it.file with outputTail := out.tail, outputTruncated := out.truncated }

def boundTail (c : Config) (loaded : Record) : Record :=
  if c.outputTailBytes < loaded.outputTail.length then
    { loaded with
      outputTail := Utf8.trimPartialLeadingRune (lastBytes c.outputTailBytes loaded.outputTail)
      outputTruncated := true }
  else loaded

/-- An operation that was still going is interrupted, and the audit of one that had ended before
there was an auditor becomes pending. The flag says whether the record has to be persisted. -/
def interrupt (c : Config) (record : Record) (now : Time) : Op × Bool :=
  if !record.status.terminal then
    let record :=
      { record with
        status := .interrupted
        partialEffectsPossible := true
        error := text "agent restarted while operation was nonterminal"
        finishedAt := now
        lastProgressAt := now
        revision := record.revision + 1
        managedAuditDelivery :=
          if c.audited then .pending else record.managedAuditDelivery }
    (⟨record, true⟩, true)
  else if c.audited && record.managedAuditDelivery == .none then
    (⟨{ record with managedAuditDelivery := .pending }, true⟩, true)
  else (⟨record, true⟩, false)

def recovered (c : Config) (loaded : Record) (now : Time) : Op × Bool :=
  interrupt c (boundTail c loaded) now

/-- One item of `recoverJournal`: the item and whether the loop goes on. -/
def Item.recover (c : Config) (it : Item) (now : Time) (fate : Fate) : Item × Bool :=
  match recovered c it.loaded now with
  | (o, false) => ({ it with memory := some o }, true)
  | (o, true) =>
    match persist fate it.file o.record with
    | (file, true) => ({ it with memory := some o, file := file }, true)
    | (file, false) => ({ it with memory := none, file := file }, false)

/-! ## Runs -/

/-- What can happen to an operation, with the clock readings and the fate of the write. -/
inductive Event where
  | transitionStatus (next : Status) (result errorText : Text) (now finished : Time) (fate : Fate)
  | advancePhase (next : Phase) (now : Time) (fate : Fate)
  | enterCommit (now : Time) (fate : Fate)
  | cancel (reason : CancelReason) (now : Time) (fate : Fate)
  | reject (cause : Text) (now finished : Time) (fate : Fate)
  | writeOutput (payload : Text)
  | advanceProgress (now : Time) (fate : Fate)
  | flushOutputTail (fate : Fate)
  | markDelivered (fate : Fate)
  /-- the output file alone is removed (an interrupted reclaim) -/
  | dropOutput
  /-- the Agent ends and boots; `started` says whether the rest of the boot succeeds -/
  | restart (now : Time) (fate : Fate) (started : Bool)
  deriving DecidableEq, Repr

def Item.apply (it : Item) (fate : Fate) (f : Op → Option Op) : Item :=
  match it.memory with
  | none => it
  | some o =>
    match f o with
    | none => it
    | some o' => it.commit fate o'

def Item.flushOutputTail (it : Item) (fate : Fate) : Item :=
  match it.memory with
  | none => it
  | some o =>
    if validateRecord o.record && fate != .failed then
      { it with output := some ⟨o.record.outputTail, o.record.outputTruncated⟩ }
    else it

def Item.step (c : Config) (it : Item) : Event → Item
  | .transitionStatus next result errorText now finished fate =>
    it.apply fate fun o => Operation.transitionStatus c o next result errorText now finished
  | .advancePhase next now fate => it.apply fate fun o => Operation.advancePhase o next now
  | .enterCommit now fate => it.apply fate fun o => Operation.enterCommit o now
  | .cancel reason now fate => it.apply fate fun o => (cancelWithError o reason now).2
  | .reject cause now finished fate =>
    it.apply fate fun o => Operation.reject c o cause now finished
  | .writeOutput payload =>
    { it with
      memory := it.memory.map fun o =>
        { o with record := Operation.writeOutput c.outputTailBytes o.record payload } }
  | .advanceProgress now fate => it.apply fate fun o => Operation.advanceProgress o now
  | .flushOutputTail fate => it.flushOutputTail fate
  | .markDelivered fate => it.apply fate Operation.markDelivered
  | .dropOutput => { it with output := none }
  | .restart now fate started =>
    match it.recover c now fate with
    | (it', true) => if started then it' else { it' with memory := none }
    | (it', false) => it'

/-- `accept`: the item of a new operation, if its first record can be persisted. -/
def accept (spec : Spec) (now : Time) : Option Item :=
  let record := newRecord spec now
  if record.storable then some ⟨some ⟨record, false⟩, record.journaled, none⟩ else none

def Item.run (c : Config) (it : Item) (events : List Event) : Item := events.foldl (Item.step c) it

end DockLattice.Operation
