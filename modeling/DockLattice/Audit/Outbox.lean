import DockLattice.Audit.Managed
import DockLattice.Operation.Progress
import DockLattice.Operation.Start

/-!
# DockLattice.Audit.Outbox

The engine's operations and their terminal-audit outbox (`operation/engine.go`, `audit_outbox.go`),
against a WAL that takes every payload under a valid key for which it holds no receipt of another.
`deliverTerminalAudit` can be interrupted behind each of its three effects, and one failed delivery
fails the boot.
-/

namespace DockLattice.Audit

open Bytes Operation

/-! ## The WAL's receipts -/

abbrev Receipts := Text → Option Text

/-- What the auditor takes from its surroundings: `net.ParseIP` and the payload digest. -/
structure Auditor where
  isIP : Text → Bool
  digest : Text → Text

def appendOnce (a : Auditor) (receipts : Receipts) (key payload : Text) :
    Except AuditError Receipts :=
  if !validOnceKey key then .error .invalidOnceKey
  else
    match receipts key with
    | some digest => if digest = a.digest payload then .ok receipts else .error .onceConflict
    | none => .ok (Function.update receipts key (some (a.digest payload)))

def forgetOnce (receipts : Receipts) (key : Text) : Except AuditError Receipts :=
  if !validOnceKey key then .error .invalidOnceKey
  else .ok (Function.update receipts key none)

def deliverTerminal (a : Auditor) (receipts : Receipts) (r : Record) :
    Except AuditError Receipts :=
  match managedPayload a.isIP r with
  | .error e => .error e
  | .ok payload => appendOnce a receipts (managedOnceKey r.operationId) payload

/-! ## Delivery -/

inductive Stop where
  | never
  | afterAppend
  | afterJournal
  deriving DecidableEq, Repr

structure Delivery where
  item : Item
  receipts : Receipts
  ok : Bool

def deliveryState (it : Item) : ManagedAuditDelivery :=
  match it.memory with
  | none => .none
  | some o => o.record.managedAuditDelivery

def deliverTerminalAudit (a : Auditor) (c : Config) (it : Item) (receipts : Receipts) (fate : Fate)
    (stop : Stop) : Delivery :=
  match it.memory with
  | none => ⟨it, receipts, true⟩
  | some o =>
    match o.record.managedAuditDelivery with
    | .none => ⟨it, receipts, true⟩
    | .delivered =>
      match forgetOnce receipts (managedOnceKey o.record.operationId) with
      | .error _ => ⟨it, receipts, false⟩
      | .ok receipts' => ⟨it, receipts', true⟩
    | .pending =>
      match deliverTerminal a receipts o.record with
      | .error _ => ⟨it, receipts, false⟩
      | .ok receipts' =>
        if stop = .afterAppend then ⟨it, receipts', false⟩
        else
          let it' := it.step c (.markDelivered fate)
          if deliveryState it' = .delivered then
            if stop = .afterJournal then ⟨it', receipts', false⟩
            else
              match forgetOnce receipts' (managedOnceKey o.record.operationId) with
              | .error _ => ⟨it', receipts', false⟩
              | .ok receipts'' => ⟨it', receipts'', true⟩
          else ⟨it', receipts', false⟩

/-! ## The engine -/

/-- An operation and the identifier after which its journal file is named. -/
structure Slot where
  id : Text
  item : Item
  deriving DecidableEq, Repr

structure Engine where
  up : Bool
  slots : List Slot
  receipts : Receipts

def Engine.empty : Engine := ⟨true, [], fun _ => none⟩

def Slot.forget (s : Slot) : Slot := { s with item := { s.item with memory := none } }

def Engine.down (e : Engine) : Engine := { e with up := false, slots := e.slots.map Slot.forget }

def putSlot (s : Slot) : List Slot → List Slot
  | [] => [s]
  | t :: slots => if t.id = s.id then s :: slots else t :: putSlot s slots

def findSlot (id : Text) (slots : List Slot) : Option Slot := slots.find? fun s => s.id = id

def Engine.insert (e : Engine) (spec : Spec) (now : Time) (fate : Fate) (output : Option Output) :
    Engine :=
  let record := newRecord spec now
  if record.storable then
    match fate with
    | .ok =>
      { e with slots :=
        putSlot ⟨spec.operationId, some ⟨record, false⟩, record.journaled, output⟩ e.slots }
    | .failed => e
    | .replaced =>
      { e with slots := putSlot ⟨spec.operationId, none, record.journaled, output⟩ e.slots }
  else e

/-- `Service.StartOperation` and `accept`: an identifier in use is answered from the index. -/
def Engine.start (b : Boundary) (e : Engine) (request : Request) (now : Time) (fate : Fate) :
    Engine :=
  match startOperation b request with
  | .error _ => e
  | .ok spec =>
    match findSlot spec.operationId e.slots with
    | none => e.insert spec now fate none
    | some s => if s.item.memory.isSome then e else e.insert spec now fate s.item.output

/-- A result may leave the index once it is terminal and its audit is not pending. -/
def evictable (it : Item) : Bool :=
  match it.memory with
  | none => false
  | some o => o.record.status.terminal && o.record.managedAuditDelivery != .pending

def updateSlot (id : Text) (f : Item → Item) (slots : List Slot) : List Slot :=
  slots.map fun s => if s.id = id then { s with item := f s.item } else s

def Engine.deliver (a : Auditor) (c : Config) (e : Engine) (id : Text) (fate : Fate)
    (stop : Stop) : Engine :=
  match findSlot id e.slots with
  | none => e
  | some s =>
    let d := deliverTerminalAudit a c s.item e.receipts fate stop
    { e with slots := updateSlot id (fun _ => d.item) e.slots, receipts := d.receipts }

/-- The loop of `recoverJournal`, which ends at the first record that cannot be persisted. -/
def recoverAll (c : Config) (now : Time) (fates : Text → Fate) : List Slot → List Slot × Bool
  | [] => ([], true)
  | s :: slots =>
    match s.item.recover c now (fates s.id) with
    | (it, true) =>
      let rest := recoverAll c now fates slots
      ({ s with item := it } :: rest.1, rest.2)
    | (it, false) => ({ s with item := it } :: slots, false)

/-- `ReplayTerminalAudits`. Different operations have different keys, so the order in which they
are delivered does not matter. -/
def replay (a : Auditor) (c : Config) (fates : Text → Fate) :
    Receipts → List Slot → List Slot × Receipts × Bool
  | receipts, [] => ([], receipts, true)
  | receipts, s :: slots =>
    let d := deliverTerminalAudit a c s.item receipts (fates s.id) .never
    let rest := replay a c fates d.receipts slots
    ({ s with item := d.item } :: rest.1, rest.2.1, d.ok && rest.2.2)

def Engine.boot (a : Auditor) (c : Config) (e : Engine) (now : Time) (fates : Text → Fate)
    (evicted : List Text) (audits : Text → Fate) : Engine :=
  let slots := e.slots.map Slot.forget
  if slots.any fun s => s.item.file.operationId != s.id then ⟨false, slots, e.receipts⟩
  else
    match recoverAll c now fates slots with
    | (slots', false) => ⟨false, slots'.map Slot.forget, e.receipts⟩
    | (slots', true) =>
      let kept := slots'.filter fun s => !(evicted.contains s.id && evictable s.item)
      match replay a c audits e.receipts kept with
      | (slots'', receipts, true) => ⟨true, slots'', receipts⟩
      | (slots'', receipts, false) => ⟨false, slots''.map Slot.forget, receipts⟩

inductive EngineEvent where
  | start (request : Request) (now : Time) (fate : Fate)
  /-- anything that happens to one operation, deliveries and restarts apart -/
  | operation (id : Text) (event : Operation.Event)
  | deliver (id : Text) (fate : Fate) (stop : Stop)
  | evict (id : Text)
  | crash
  | boot (now : Time) (fates : Text → Fate) (evicted : List Text) (audits : Text → Fate)

def ofEngine : Operation.Event → Bool
  | .markDelivered _ | .restart _ _ _ => true
  | _ => false

def Engine.step (a : Auditor) (b : Boundary) (c : Config) (e : Engine) : EngineEvent → Engine
  | .start request now fate => if e.up then e.start b request now fate else e
  | .operation id event =>
    if e.up && !ofEngine event then
      { e with slots := updateSlot id (fun it => it.step c event) e.slots }
    else e
  | .deliver id fate stop => if e.up then e.deliver a c id fate stop else e
  | .evict id =>
    if e.up then { e with slots := e.slots.filter fun s => !(s.id = id && evictable s.item) }
    else e
  | .crash => e.down
  | .boot now fates evicted audits => e.boot a c now fates evicted audits

def Engine.run (a : Auditor) (b : Boundary) (c : Config) (e : Engine) (events : List EngineEvent) :
    Engine :=
  events.foldl (Engine.step a b c) e

end DockLattice.Audit
