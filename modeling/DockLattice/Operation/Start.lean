import DockLattice.Files.Paths
import DockLattice.Lib.Json
import DockLattice.Lib.Sha256

/-!
# DockLattice.Operation.Start

What the Agent accepts as an operation (`agentops/service.go`, `Service.StartOperation`), up to the
specification it hands to the engine. What the catalog, the file system policy, the payload parser
and the Compose policy answer is given by a `Boundary`.
-/

namespace DockLattice.Operation

open Bytes

structure Request where
  operationId : Text
  type : Text
  projectKey : Text
  target : Text
  payload : List Byte
  deriving DecidableEq, Repr

inductive StartError where
  | invalidIdentity
  | unsupportedType (type : Text)
  | unsupportedOperation (kind : Kind)
  | unsafeIdentifiers
  | invalidCommand
  | projectRequired
  | projectUnavailable
  | mutationDenied
  | composeTargets
  deriving DecidableEq, Repr

structure Boundary where
  /-- the catalog has a managed project under this key -/
  project : Text → Bool
  /-- the catalog's keys are hexadecimal digests -/
  project_hex : ∀ key, project key = true → hexDigest key = true
  mutationAllowed : Text → Bool
  approvedFiles : Text → Bool
  /-- what the strict decoder finds in a payload -/
  decoded : List Byte → Files.AgentOps.Payload
  /-- the Compose policy of the project allows the target -/
  services : Kind → Text → Text → Bool

def supported (k : Kind) : Bool :=
  k.isContainerOperation || k.isComposeOperation || k.isFileWriteOperation ||
    k.isBackupOperation || k == .discoveryRescan

def Boundary.parse (b : Boundary) (kind : Kind) (request : Request) :
    Except Files.AgentOps.ParseError Files.AgentOps.Command :=
  Files.AgentOps.parseOperationCommand kind request.target
    { b.decoded request.payload with size := request.payload.length }

def storedProjectKey (kind : Kind) (request : Request) : Text :=
  if kind.isContainerOperation && request.projectKey.isEmpty then
    text "container:" ++ request.target
  else request.projectKey

def hexEncode (bytes : List Byte) : Text :=
  bytes.flatMap fun b => [Json.hexDigit (b.toNat / 16), Json.hexDigit (b.toNat % 16)]

def checkProject (b : Boundary) (kind : Kind) (request : Request) : Except StartError Unit :=
  if request.projectKey.isEmpty then .error .projectRequired
  else if !b.project request.projectKey then .error .projectUnavailable
  else if (kind.isFileWriteOperation || kind == .backupRestore) &&
      !b.mutationAllowed request.projectKey then .error .mutationDenied
  else if kind.isFileWriteOperation && !b.approvedFiles request.projectKey then
    .error .projectUnavailable
  else if kind.isComposeOperation && !b.services kind request.projectKey request.target then
    .error .composeTargets
  else .ok ()

def startOperation (b : Boundary) (request : Request) : Except StartError Spec :=
  if request.operationId.isEmpty || 256 < request.operationId.length ||
      1024 < request.projectKey.length || 1024 < request.target.length then
    .error .invalidIdentity
  else
    match Kind.parse request.type with
    | none => .error (.unsupportedType request.type)
    | some kind =>
      if !supported kind then .error (.unsupportedOperation kind)
      else if (kind.isFileWriteOperation || kind.isBackupOperation) &&
          !(validOpaqueID request.operationId && validOpaqueID request.projectKey) then
        .error .unsafeIdentifiers
      else if !(b.parse kind request).isOk then .error .invalidCommand
      else
        let spec : Spec :=
          { operationId := request.operationId
            projectKey := storedProjectKey kind request
            target := request.target
            kind := kind
            payloadHash := hexEncode (Sha256.sum256 request.payload) }
        if kind.isManagedProjectOperation then
          match checkProject b kind request with
          | .error e => .error e
          | .ok () => .ok spec
        else .ok spec

/-! ## What acceptance says -/

structure Started (b : Boundary) (request : Request) (spec : Spec) : Prop where
  kind : Kind.parse request.type = some spec.kind
  operationId : spec.operationId = request.operationId
  operationId_ne : request.operationId ≠ []
  operationId_le : request.operationId.length ≤ 256
  projectKey : spec.projectKey = storedProjectKey spec.kind request
  projectKey_le : request.projectKey.length ≤ 1024
  target : spec.target = request.target
  target_le : request.target.length ≤ 1024
  payloadHash : spec.payloadHash = hexEncode (Sha256.sum256 request.payload)
  managed : spec.kind.isManagedProjectOperation = true → b.project request.projectKey = true

theorem startOperation_ok {b : Boundary} {request : Request} {spec : Spec}
    (h : startOperation b request = .ok spec) : Started b request spec := by
  unfold startOperation at h
  split at h
  · cases h
  next hid =>
  simp only [Bool.or_eq_true, List.isEmpty_iff, decide_eq_true_eq, not_or, Nat.not_lt] at hid
  obtain ⟨⟨⟨hne, hop⟩, hkey⟩, htarget⟩ := hid
  split at h
  · cases h
  next kind hkind =>
  split at h
  · cases h
  split at h
  · cases h
  split at h
  · cases h
  dsimp only at h
  split at h
  · next hmanaged =>
    split at h
    · cases h
    next hproject =>
    cases h
    refine ⟨hkind, rfl, hne, hop, rfl, hkey, rfl, htarget, rfl, fun _ => ?_⟩
    unfold checkProject at hproject
    split at hproject
    · cases hproject
    split at hproject
    · cases hproject
    · next hok => simpa using hok
  · next hmanaged =>
    cases h
    exact ⟨hkind, rfl, hne, hop, rfl, hkey, rfl, htarget, rfl, fun hm => absurd hm hmanaged⟩

theorem hexDigest_ascii {s : Text} (h : hexDigest s = true) :
    s.length = 64 ∧ ∀ b ∈ s, 0x30 ≤ b ∧ b ≤ 0x66 := by
  simp only [hexDigest, Bool.and_eq_true, beq_iff_eq, List.all_eq_true, Bool.or_eq_true,
    decide_eq_true_eq] at h
  refine ⟨h.1, fun b hb => ?_⟩
  rcases h.2 b hb with hd | hd
  · exact ⟨hd.1, UInt8.le_trans hd.2 (by decide)⟩
  · exact ⟨UInt8.le_trans (by decide) hd.1, hd.2⟩

end DockLattice.Operation
