import DockLattice.Lib.Sha256
import DockLattice.Wal.Ops

/-!
# DockLattice.Wal.Once

Idempotent appends (`once.go`). A key is reserved by a receipt file, the record is appended and
forced, and the receipt is completed with its cursor. A retry that finds a reservation without a
cursor first looks for the payload in the retained segments.
-/

namespace DockLattice.Wal

open Bytes Effect

def onceReceiptVersion : Nat := 1

def onceKeyMaxBytes : Nat := 512

/-- Lean strings are valid UTF-8, so that check of the source has nothing left to reject. -/
def validOnceKey (key : String) : Bool :=
  key ≠ "" && key.utf8ByteSize ≤ onceKeyMaxBytes &&
    key.toList.all fun c => c ≠ '\x00' && c ≠ '\r' && c ≠ '\n'

def onceReceiptName (key : String) : String :=
  "once-" ++ Sha256.encodeToString (Sha256.sum256 key.toUTF8.toList) ++ ".json"

def payloadDigest (payload : List Byte) : String := Sha256.encodeToString (Sha256.sum256 payload)

def validDigest (digest : String) : Bool :=
  digest.toList.length = 64 && digest.toList.all fun c => Sha256.hexDigits.contains c

def validateOnceReceipt (receipt : OnceReceipt) (key : String) : Bool :=
  receipt.version = onceReceiptVersion && receipt.key = key && validOnceKey receipt.key &&
    validDigest receipt.payloadSha256 && receipt.cursor.isSome == receipt.appendedAt.isSome &&
    receipt.cursor.all fun c => c.incarnation ≠ 0 && c.seq ≠ 0

def loadOnceReceiptLocked (d : Disk) (key : String) : Except WalError (Option OnceReceipt) :=
  match d.receipt? (onceReceiptName key) with
  | none => .ok none
  | some receipt =>
    if validateOnceReceipt receipt key then .ok (some receipt)
    else .error (.invariant "invalid idempotency receipt")

def saveOnceReceiptLocked (receipt : OnceReceipt) : WalProg Unit :=
  if validateOnceReceipt receipt receipt.key then
    replaceFile "replace idempotency receipt" fun d => d.putReceipt (onceReceiptName receipt.key) receipt
  else Prog.throw (.invariant "invalid idempotency receipt")

def findFrame (payload : List Byte) : FrameStream → Except WalError (Option DecodedFrame)
  | .stop .eof => .ok none
  | .stop .unexpectedEOF => .error (.io "unexpected EOF")
  | .stop (.corrupt message _) => .error (.corrupt message)
  | .frame f next => if f.payload = payload then .ok (some f) else findFrame payload next

def findPayload (s : State) (payload : List Byte) :
    List Segment → Except WalError (Option DecodedFrame)
  | [] => .ok none
  | seg :: rest =>
    match s.disk.file? seg.first with
    | none => .error (.io "no such file")
    | some file =>
      match findFrame payload (frameStream s.wal.options.maxBytes file.content) with
      | .error e => .error e
      | .ok (some f) => .ok (some f)
      | .ok none => findPayload s payload rest

def findPayloadLocked (s : State) (payload : List Byte) : Except WalError (Option DecodedFrame) :=
  findPayload s payload s.wal.segments

def OnceReceipt.complete (receipt : OnceReceipt) (record : Record) : OnceReceipt :=
  { receipt with cursor := some record.cursor, appendedAt := some record.appendedAt }

/-- The end of `AppendOnce`: append, force, complete the receipt. -/
def appendAndComplete (canceled : Bool) (now : Instant) (receipt : OnceReceipt)
    (payload : List Byte) : WalProg Record := do
  let record ← appendLocked canceled now payload
  syncLocked
  saveOnceReceiptLocked (receipt.complete record)
  pure record

def appendOnce (canceled : Bool) (now : Instant) (key : String) (payload : List Byte) :
    WalProg Record := do
  if validOnceKey key = false then Prog.throw (.invariant "invalid idempotency key")
  else do
    let s ← Prog.get
    if s.wal.closed then Prog.throw .closed
    else
      match s.wal.backgroundErr with
      | some e => Prog.throw e
      | none =>
        if canceled then Prog.throw .canceled
        else
          match loadOnceReceiptLocked s.disk key with
          | .error e => Prog.throw e
          | .ok (some receipt) =>
            if receipt.payloadSha256 ≠ payloadDigest payload then
              Prog.throw (.invariant "idempotency key reused with different payload")
            else
              match receipt.cursor with
              | some cursor =>
                pure ⟨s.wal.agentId, cursor, receipt.appendedAt.getD Instant.zero, payload⟩
              | none =>
                match findPayloadLocked s payload with
                | .error e => Prog.throw e
                | .ok (some f) => do
                  let recovered := Record.of s.wal.agentId f
                  saveOnceReceiptLocked (receipt.complete recovered)
                  pure recovered
                | .ok none => appendAndComplete canceled now receipt payload
          | .ok none => do
            let receipt : OnceReceipt :=
              ⟨onceReceiptVersion, key, payloadDigest payload, none, none⟩
            saveOnceReceiptLocked receipt
            appendAndComplete canceled now receipt payload

/-- `os.Remove` of a receipt; one that is absent is no error. -/
def removeOnceReceipt (name : String) : WalProg Unit := do
  let s ← Prog.get
  Prog.when (s.disk.receipt? name).isSome
    (wrapping "auditwal: remove idempotency receipt"
      (atomically "remove" fun d => d.removeReceipt name))

def forgetOnce (key : String) : WalProg Unit :=
  if validOnceKey key = false then Prog.throw (.invariant "invalid idempotency key")
  else
    whenOpen do
      removeOnceReceipt (onceReceiptName key)
      syncDirectory

end DockLattice.Wal
