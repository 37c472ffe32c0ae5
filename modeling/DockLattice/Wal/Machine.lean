import DockLattice.Wal.Once
import DockLattice.Wal.Recover

/-!
# DockLattice.Wal.Machine

The life of one WAL directory: calls on the open WAL, closing it, the death of the process between
or inside calls, a loss of power, recovery, and opening it at the next incarnation.

`Machine.step` runs one event and `Machine.run` a list of them. An event that does not fit the
state (a call while the WAL is closed) does nothing.
-/

namespace DockLattice.Wal

open Bytes Effect

/-- The calls that change an open WAL. `tick` is one turn of its background loop. -/
inductive Call where
  | append (canceled : Bool) (now : Instant) (payload : List Byte)
  | appendOnce (canceled : Bool) (now : Instant) (key : String) (payload : List Byte)
  | forgetOnce (key : String)
  | sync
  | ackAudit (now : Instant) (archive : String) (proposed : Cursor) (seen : Nat)
  | rebindArchive (archive : String)
  | enforceLimits (now : Instant)
  | reclaimACKed (now : Instant) (bytesNeeded : Int)
  | reclaimUnacked (now : Instant) (bytesNeeded : Int)
  | reclaim (now : Instant) (bytesNeeded : Int)
  | reclaimTemp (canceled : Bool) (bytesNeeded : Int)
  | tick (now : Instant)
  deriving DecidableEq, Repr

def quietly {α : Type} (p : WalProg α) : WalProg (Option Record) := do
  let _ ← p
  pure none

def recording (p : WalProg Record) : WalProg (Option Record) := do
  let r ← p
  pure (some r)

def Call.run : Call → WalProg (Option Record)
  | .append canceled now payload => recording (Wal.append canceled now payload)
  | .appendOnce canceled now key payload => recording (Wal.appendOnce canceled now key payload)
  | .forgetOnce key => quietly (Wal.forgetOnce key)
  | .sync => quietly Wal.sync
  | .ackAudit now archive proposed seen => quietly (Wal.ackAudit now archive proposed seen)
  | .rebindArchive archive => quietly (Wal.rebindArchive archive)
  | .enforceLimits now => quietly (Wal.enforceLimits now)
  | .reclaimACKed now n => quietly (reclaimACKedForDiskPressure now n)
  | .reclaimUnacked now n => quietly (reclaimUnackedForDiskPressure now n)
  | .reclaim now n => quietly (reclaimForDiskPressure now n)
  | .reclaimTemp canceled n => quietly (reclaimAbandonedTempForDiskPressure canceled n)
  | .tick now => quietly (syncTick now)

/-! ## Losing power -/

/-- Of each file, the forced prefix survives, and behind it as much as happened to reach the disk.
What survives is on stable storage. -/
def SegmentFile.lose (keep : Nat) (f : SegmentFile) : SegmentFile :=
  let content := f.content.take (max f.synced keep)
  ⟨content, content.length⟩

def Disk.lose (keep : Cursor → Nat) (d : Disk) : Disk :=
  { d with segments := d.segments.map fun e => (e.1, e.2.lose (keep e.1)) }

/-! ## The machine -/

inductive Node where
  | up (s : State)
  | down (d : Disk)
  deriving DecidableEq, Repr

def Node.disk : Node → Disk
  | up s => s.disk
  | down d => d

def Node.state? : Node → Option State
  | up s => some s
  | down _ => none

/-- `incarnation` is the last one that was handed out. -/
structure Machine where
  incarnation : Nat
  node : Node
  deriving DecidableEq, Repr

inductive Event where
  | call (c : Call) (faults : List Fault)
  | close (faults : List Fault)
  | die
  | lose (keep : Cursor → Nat)
  | recover (faults : List Fault)
  | reopen (now : Instant) (faults : List Fault)

inductive Reply where
  | done (r : Option Record)
  | recovered (r : Recovery)
  | failed (e : WalError)
  | crashed
  | ignored
  deriving DecidableEq, Repr

def Machine.called (n : Nat) : Outcome (World State) WalError (Option Record) → Machine × Reply
  | .done r w => (⟨n, .up w.st⟩, .done r)
  | .fail e w => (⟨n, .up w.st⟩, .failed e)
  | .crash w => (⟨n, .down w.st.disk⟩, .crashed)

/-- How `Close` ends: the WAL is closed even if an error is reported. -/
def Machine.closed (n : Nat) : Outcome (World State) WalError Unit → Machine × Reply
  | .done _ w => (⟨n, .down w.st.disk⟩, .done none)
  | .fail e w => (⟨n, .down w.st.disk⟩, .failed e)
  | .crash w => (⟨n, .down w.st.disk⟩, .crashed)

def Machine.recovered (n : Nat) : Outcome (World State) WalError Recovery → Machine × Reply
  | .done r w => (⟨n, .down w.st.disk⟩, .recovered r)
  | .fail e w => (⟨n, .down w.st.disk⟩, .failed e)
  | .crash w => (⟨n, .down w.st.disk⟩, .crashed)

def Machine.reopened (n : Nat) : Outcome (World State) WalError Unit → Machine × Reply
  | .done _ w => (⟨n, .up w.st⟩, .done none)
  | .fail e w => (⟨n, .down w.st.disk⟩, .failed e)
  | .crash w => (⟨n, .down w.st.disk⟩, .crashed)

/-- `Recover` and `Open` build their own memory. -/
def Disk.closedState (d : Disk) (agentId : String) (o : Options) : State :=
  ⟨d, .start agentId o zeroMetadata⟩

def Machine.step (agentId : String) (o : Options) (m : Machine) (e : Event) : Machine × Reply :=
  match m.node, e with
  | .up s, .call c faults => Machine.called m.incarnation (c.run ⟨s, faults⟩)
  | .up s, .close faults => Machine.closed m.incarnation (Wal.close ⟨s, faults⟩)
  | .up s, .die => (⟨m.incarnation, .down s.disk⟩, .crashed)
  | .down d, .lose keep => (⟨m.incarnation, .down (d.lose keep)⟩, .crashed)
  | .down d, .recover faults =>
    Machine.recovered m.incarnation (Wal.recover agentId o ⟨d.closedState agentId o, faults⟩)
  | .down d, .reopen now faults =>
    if m.incarnation < maxUint64 then
      Machine.reopened (m.incarnation + 1)
        (openWAL agentId (m.incarnation + 1) o now ⟨d.closedState agentId o, faults⟩)
    else (m, .ignored)
  | _, _ => (m, .ignored)

def Machine.run (agentId : String) (o : Options) : Machine → List Event → Machine
  | m, [] => m
  | m, e :: es => run agentId o (m.step agentId o e).1 es

def Machine.Along (agentId : String) (o : Options) (C : Machine → Event → Prop) :
    Machine → List Event → Prop
  | _, [] => True
  | m, e :: es => C m e ∧ Along agentId o C (m.step agentId o e).1 es

instance Machine.decidableAlong (agentId : String) (o : Options) (C : Machine → Event → Prop)
    [∀ m e, Decidable (C m e)] : ∀ m es, Decidable (Machine.Along agentId o C m es)
  | _, [] => isTrue trivial
  | m, e :: es =>
    have := decidableAlong agentId o C (m.step agentId o e).1 es
    inferInstanceAs (Decidable (C m e ∧ Machine.Along agentId o C (m.step agentId o e).1 es))

def Machine.fresh (incarnation : Nat) : Machine := ⟨incarnation, .down .empty⟩

def Disk.frames (maxBytes : Nat) (d : Disk) : List DecodedFrame :=
  d.segments.flatMap fun e => (frameStream maxBytes e.2.content).frames

end DockLattice.Wal
