import DockLattice.Lib.Effect
import DockLattice.Wal.Frame

/-!
# DockLattice.Wal.State

What a WAL directory holds, what the open WAL keeps in memory, and the durable effects between the
two. A segment file is its bytes and the length of the prefix that has been forced to stable storage.
A decision that does not concern an effect lets it pass: only a segment write can be `torn`, only the
atomic replacement of a file can be `late`.
-/

namespace DockLattice.Wal

open Bytes Effect

structure SegmentFile where
  content : List Byte
  synced : Nat
  deriving DecidableEq, Repr

structure OnceReceipt where
  version : Nat
  key : String
  payloadSha256 : String
  cursor : Option Cursor
  appendedAt : Option Instant
  deriving DecidableEq, Repr

/-- The files of the WAL directory. `temps` are the sizes of abandoned temporary files. -/
structure Disk where
  segments : List (Cursor × SegmentFile)
  metadata : Option Metadata
  receipts : List (String × OnceReceipt)
  temps : List Nat
  deriving DecidableEq, Repr

def Disk.empty : Disk := ⟨[], none, [], []⟩

namespace Disk

def file? (d : Disk) (name : Cursor) : Option SegmentFile :=
  (d.segments.find? (fun e => e.1 == name)).map Prod.snd

def modifyFile (d : Disk) (name : Cursor) (g : SegmentFile → SegmentFile) : Disk :=
  { d with segments := d.segments.map fun e => if e.1 = name then (e.1, g e.2) else e }

def addFile (d : Disk) (name : Cursor) : Disk :=
  { d with segments := d.segments ++ [(name, ⟨[], 0⟩)] }

def removeFile (d : Disk) (name : Cursor) : Disk :=
  { d with segments := d.segments.filter fun e => e.1 ≠ name }

def receipt? (d : Disk) (name : String) : Option OnceReceipt :=
  (d.receipts.find? (fun e => e.1 == name)).map Prod.snd

def removeReceipt (d : Disk) (name : String) : Disk :=
  { d with receipts := d.receipts.filter fun e => e.1 ≠ name }

def putReceipt (d : Disk) (name : String) (r : OnceReceipt) : Disk :=
  { d with receipts := d.receipts.filter (fun e => e.1 ≠ name) ++ [(name, r)] }

end Disk

structure Segment where
  first : Cursor
  last : Cursor
  newestAt : Instant
  bytes : Nat
  deriving DecidableEq, Repr

structure ActiveSegment where
  segment : Segment
  pending : Nat
  deriving DecidableEq, Repr

/-- The WAL in memory. The source's `segments` is `sealed` followed by the active segment; only the
newest segment is ever open for writing. -/
structure WAL where
  agentId : String
  options : Options
  metadata : Metadata
  sealed : List Segment
  active : Option ActiveSegment
  totalBytes : Nat
  closed : Bool
  backgroundErr : Option WalError
  deriving DecidableEq, Repr

def WAL.segments (w : WAL) : List Segment := w.sealed ++ (w.active.map (·.segment)).toList

structure State where
  disk : Disk
  wal : WAL
  deriving DecidableEq, Repr

namespace State

def setMetadata (s : State) (m : Metadata) : State :=
  { s with wal := { s.wal with metadata := m } }

def onDisk (s : State) (g : Disk → Disk) : State := { s with disk := g s.disk }

end State

def SegmentFile.write (bytes : List Byte) (f : SegmentFile) : SegmentFile :=
  { f with content := f.content ++ bytes }

def SegmentFile.sync (f : SegmentFile) : SegmentFile := { f with synced := f.content.length }

def SegmentFile.truncate (n : Nat) (f : SegmentFile) : SegmentFile :=
  { content := f.content.take n, synced := min f.synced n }

/-! ## Durable effects -/

abbrev WalProg (α : Type) := Prog State WalError α

/-- An effect that happens as a whole or not at all, and whose error means that it did not. -/
def atomically (what : String) (g : Disk → Disk) : WalProg Unit :=
  Prog.effect fun f s =>
    match f with
    | .fail => .fail (.io what) s
    | .crash 0 => .crash s
    | .crash _ => .crash (s.onDisk g)
    | _ => .done () (s.onDisk g)

/-- `os.OpenFile` with `O_CREATE|O_EXCL`, then `Chmod`. -/
def createFile (name : Cursor) : WalProg Unit := do
  let s ← Prog.get
  match s.disk.file? name with
  | some _ => Prog.throw (.io "file exists")
  | none => atomically "create segment" fun d => d.addFile name

/-- `writeFull` on the active segment: an error may come after any number of bytes. -/
def writeFull (name : Cursor) (bytes : List Byte) : WalProg Unit :=
  Prog.effect fun f s =>
    match f with
    | .torn k => .fail (.io "write") (s.onDisk (·.modifyFile name (.write (bytes.take k))))
    | .crash k => .crash (s.onDisk (·.modifyFile name (.write (bytes.take k))))
    | _ => .done () (s.onDisk (·.modifyFile name (.write bytes)))

def fsync (name : Cursor) : WalProg Unit :=
  atomically "fsync" fun d => d.modifyFile name .sync

def truncateFile (name : Cursor) (n : Nat) : WalProg Unit :=
  atomically "truncate" fun d => d.modifyFile name (.truncate n)

/-- `os.Remove` of a segment file. -/
def removeSegment (name : Cursor) : WalProg Unit := do
  let s ← Prog.get
  match s.disk.file? name with
  | none => Prog.throw (.io "no such file")
  | some _ => atomically "remove" fun d => d.removeFile name

/-- Opening or closing a file, and `syncDirectory`: nothing on disk changes. -/
def touch (what : String) : WalProg Unit := atomically what id

def syncDirectory : WalProg Unit := touch "fsync directory"

/-- Write a temporary file, rename it over the target, force the directory. `late`: the directory
could not be forced, although the file was replaced. A crash before the rename leaves the temporary
file behind. -/
def replaceFile (what : String) (g : Disk → Disk) : WalProg Unit :=
  Prog.effect fun f s =>
    match f with
    | .fail => .fail (.io what) s
    | .late => .fail (.io what) (s.onDisk g)
    | .crash 0 => .crash s
    | .crash 1 => .crash (s.onDisk g)
    | .crash (n + 2) => .crash (s.onDisk fun d => { d with temps := d.temps ++ [n] })
    | _ => .done () (s.onDisk g)

end DockLattice.Wal
