import DockLattice.Files.LineEndings
import DockLattice.Lib.Path
import DockLattice.Operation.Types

/-!
# DockLattice.Files.Paths

The paths of a project that may be written, as the Server, the Agent's request parser, `safefile` and
the backup store check them.

The four checks agree on every path but one: `compose..yaml` is a Compose file for the parser and for
`safefile`, while the Server and the backup store ask for more than a prefix and a suffix.
-/

namespace DockLattice.Files

open Bytes DockLattice.Path
open Operation (Kind)

def hasPrefix (p start : Text) : Bool := start.isPrefixOf p

def hasSuffix (p ending : Text) : Bool := ending.isSuffixOf p

/-- `.env`, or `.env.` with a rest. -/
def isEnvName (p : Text) : Bool :=
  p == text ".env" || (hasPrefix p (text ".env.") && (text ".env.").length < p.length)

def isComposeName (p : Text) : Bool :=
  p == text "compose.yaml" || p == text "compose.yml" || p == text "docker-compose.yaml" ||
    p == text "docker-compose.yml"

def startsOverride (p : Text) : Bool :=
  hasPrefix p (text "compose.override.") || hasPrefix p (text "docker-compose.override.")

def endsYaml (p : Text) : Bool := hasSuffix p (text ".yaml") || hasSuffix p (text ".yml")

def managedName (p : Text) : Bool :=
  if isEnvName p then true
  else if isComposeName p then true
  else if startsOverride p then endsYaml p
  else hasPrefix p (text "compose.") && hasSuffix p (text ".yaml") &&
    (text "compose..yaml").length < p.length

/-! ## The Server -/

namespace ServerApi

def validManagedPath (path : Text) : Bool :=
  if path.isEmpty || 1024 < path.length || !Utf8.valid path || path.contains slash ||
      path.contains 0 then false
  else managedName path

def fileWriteKind (path : Text) : Option Kind :=
  if isEnvName path then some .envWrite
  else if startsOverride path && endsYaml path then some .overrideWrite
  else if isComposeName path then some .composeFileWrite
  else if hasPrefix path (text "compose.") && hasSuffix path (text ".yaml") &&
      !hasPrefix path (text "compose.override.") then some .composeFileWrite
  else none

end ServerApi

/-! ## The Agent's parser -/

namespace AgentOps

inductive ParseError where
  | payloadTooLarge
  | invalidRelativePath
  | escapesProject
  | notValidFor (kind : Kind)
  | invalidJson
  | invalidFileWrite
  | backupTarget
  | invalidBackupCreate
  | unmanagedBackupPath
  | duplicateBackupPath
  | invalidBackupId
  | invalidBackupRestore
  | structuredOptions (kind : Kind)
  deriving DecidableEq, Repr

def operationPayloadMaxBytes : Nat := 1048576

def operationPathMaxBytes : Nat := 1024

def backupPathMaxCount : Nat := 64

def validRelativePath (path : Text) : Except ParseError Unit :=
  if path.isEmpty || operationPathMaxBytes < path.length || path.contains 0 || isAbs path ||
      clean path != path || path == text "." || path == text ".." ||
      hasPrefix path (text ".." ++ [slash]) then
    .error .invalidRelativePath
  else if (path.splitOn slash).contains (text "..") then .error .escapesProject
  else .ok ()

def validSHA256 (value : Text) : Bool :=
  value.length == 64 && value.all fun b => (48 ≤ b && b ≤ 57) || (97 ≤ b && b ≤ 102)

def writeShape (path : Text) : Kind → Bool
  | .envWrite => isEnvName path
  | .overrideWrite => startsOverride path && endsYaml path
  | .composeFileWrite =>
    if isComposeName path then true
    else hasPrefix path (text "compose.") && hasSuffix path (text ".yaml") &&
      !hasPrefix path (text "compose.override.")
  | _ => false

def pathMatchesWriteType (kind : Kind) (path : Text) : Bool :=
  if path.contains slash then false else writeShape path kind

structure FileWritePayload where
  version : Int
  expectedSHA256 : Text
  content : Text
  deriving DecidableEq, Repr

structure BackupCreatePayload where
  version : Int
  relativePaths : List Text
  deriving DecidableEq, Repr

/-- A payload, and what the strict decoder finds in it for each type it is decoded into. -/
structure Payload where
  size : Nat
  fileWrite : Option FileWritePayload
  backupCreate : Option BackupCreatePayload
  version : Option Int
  deriving DecidableEq, Repr

inductive Command where
  | fileWrite (relativePath expectedSHA256 content : Text)
  | backupCreate (relativePaths : List Text)
  | backupRestore (backupId : Text)
  | plain
  deriving DecidableEq, Repr

def decodeStrictPayload {α : Type} (payload : Payload) (decoded : Option α) :
    Except ParseError α :=
  if payload.size = 0 then .error .invalidJson
  else
    match decoded with
    | some value => .ok value
    | none => .error .invalidJson

def checkBackupPaths : List Text → List Text → Except ParseError Unit
  | _, [] => .ok ()
  | seen, path :: rest =>
    match validRelativePath path with
    | .error e => .error e
    | .ok () =>
      if !pathMatchesWriteType .composeFileWrite path && !pathMatchesWriteType .envWrite path &&
          !pathMatchesWriteType .overrideWrite path then
        .error .unmanagedBackupPath
      else if seen.contains path then .error .duplicateBackupPath
      else checkBackupPaths (path :: seen) rest

def parseOperationCommand (kind : Kind) (target : Text) (payload : Payload) :
    Except ParseError Command :=
  if operationPayloadMaxBytes < payload.size then .error .payloadTooLarge
  else if kind.isFileWriteOperation then
    match validRelativePath target with
    | .error e => .error e
    | .ok () =>
      if !pathMatchesWriteType kind target then .error (.notValidFor kind)
      else
        match decodeStrictPayload payload payload.fileWrite with
        | .error e => .error e
        | .ok decoded =>
          if decoded.version ≠ 1 || maxFileSize < decoded.content.length ||
              !validSHA256 decoded.expectedSHA256 then .error .invalidFileWrite
          else .ok (.fileWrite target decoded.expectedSHA256 decoded.content)
  else if kind = .backupCreate then
    if target ≠ [] then .error .backupTarget
    else
      match decodeStrictPayload payload payload.backupCreate with
      | .error e => .error e
      | .ok decoded =>
        if decoded.version ≠ 1 || decoded.relativePaths.isEmpty ||
            backupPathMaxCount < decoded.relativePaths.length then .error .invalidBackupCreate
        else
          match checkBackupPaths [] decoded.relativePaths with
          | .error e => .error e
          | .ok () => .ok (.backupCreate decoded.relativePaths)
  else if kind = .backupRestore then
    if !Operation.validOpaqueID target then
      .error .invalidBackupId
    else
      match decodeStrictPayload payload payload.version with
      | .ok version =>
        if version ≠ 1 then .error .invalidBackupRestore else .ok (.backupRestore target)
      | .error _ => .error .invalidBackupRestore
  else if payload.size ≠ 0 then .error (.structuredOptions kind)
  else .ok .plain

def AcceptsWrite (kind : Kind) (path : Text) : Prop :=
  kind.isFileWriteOperation = true ∧
    ∃ payload command, parseOperationCommand kind path payload = .ok command

def AcceptsBackup (path : Text) : Prop :=
  ∃ target payload paths,
    parseOperationCommand .backupCreate target payload = .ok (.backupCreate paths) ∧ path ∈ paths

end AgentOps

/-! ## safefile -/

namespace SafeFile

inductive Access where
  | none
  | readOnly
  | readWrite
  deriving DecidableEq, Repr

inductive PathReason where
  | empty
  | nul
  | absolute
  | parentTraversal
  | noFile
  | escapesRoot
  | notAllowlisted (write : Bool)
  deriving DecidableEq, Repr

structure PathError where
  path : Text
  reason : PathReason
  deriving DecidableEq, Repr

def normalizeRelative (path : Text) : Except PathError Text :=
  if path.isEmpty then .error ⟨path, .empty⟩
  else if path.contains 0 then .error ⟨path, .nul⟩
  else if isAbs path then .error ⟨path, .absolute⟩
  else if (path.splitOn slash).contains (text "..") then .error ⟨path, .parentTraversal⟩
  else if clean path == text "." || clean path == [slash] || isAbs (clean path) then
    .error ⟨path, .noFile⟩
  else if clean path == text ".." || hasPrefix (clean path) (text ".." ++ [slash]) then
    .error ⟨path, .escapesRoot⟩
  else .ok (clean path)

def defaultAccess (path : Text) : Access :=
  if path.contains slash then .none
  else if isComposeName path || path == text ".env" then .readWrite
  else if hasPrefix path (text ".env.") || startsOverride path ||
      (hasPrefix path (text "compose.") && hasSuffix path (text ".yaml")) then .readWrite
  else .none

def accessOf (approved : Text → Option Access) (path : Text) : Access :=
  match approved path, defaultAccess path with
  | some access, .none => access
  | _, access => access

def authorize (approved : Text → Option Access) (path : Text) (write : Bool) :
    Except PathError Text :=
  match normalizeRelative path with
  | .error e => .error e
  | .ok normalized =>
    let access := accessOf approved normalized
    if access == .none || (write && access != .readWrite) then
      .error ⟨path, .notAllowlisted write⟩
    else .ok normalized

end SafeFile

/-! ## The backup store -/

namespace Backup

def validManagedPath (path : Text) : Bool :=
  if path.isEmpty || isAbs path || clean path != path || path.contains 0 || path.contains slash then
    false
  else managedName path

end Backup

/-! ## Shapes of names -/

section Shapes

variable {p : Text}

theorem head?_of_hasPrefix {start : Text} {b : Byte} (h : hasPrefix p start = true)
    (hb : start.head? = some b) : p.head? = some b := by
  obtain ⟨rest, rfl⟩ := List.isPrefixOf_iff_prefix.mp h
  cases start with
  | nil => cases hb
  | cons c start => exact hb

theorem literal_heads :
    ((text ".env").head? = some 46 ∧ (text ".env.").head? = some 46) ∧
    ((text "compose.").head? = some 99 ∧ (text "compose.override.").head? = some 99) ∧
    (text "docker-compose.override.").head? = some 100 := by
  decide +kernel

theorem composeNames_plain :
    ∀ q ∈ [text "compose.yaml", text "compose.yml", text "docker-compose.yaml",
      text "docker-compose.yml"], q.head? ≠ some 46 ∧ startsOverride q = false := by
  decide +kernel

theorem isEnvName_head? (h : isEnvName p = true) : p.head? = some 46 := by
  simp only [isEnvName, Bool.or_eq_true, Bool.and_eq_true, beq_iff_eq] at h
  rcases h with h | h
  · rw [h]
    exact literal_heads.1.1
  · exact head?_of_hasPrefix h.1 literal_heads.1.2

theorem isComposeName_plain (h : isComposeName p = true) :
    p.head? ≠ some 46 ∧ startsOverride p = false := by
  apply composeNames_plain
  simp only [isComposeName, Bool.or_eq_true, beq_iff_eq] at h
  simp only [List.mem_cons, List.not_mem_nil, or_false]
  tauto

theorem startsOverride_head? (h : startsOverride p = true) : p.head? ≠ some 46 := by
  simp only [startsOverride, Bool.or_eq_true] at h
  rcases h with h | h
  · simp [head?_of_hasPrefix h literal_heads.2.1.2]
  · simp [head?_of_hasPrefix h literal_heads.2.2]

theorem short_compose (hstart : hasPrefix p (text "compose.") = true)
    (hend : hasSuffix p (text ".yaml") = true) (hlen : p.length ≤ (text "compose..yaml").length) :
    p = text "compose.yaml" ∨ p = text "compose..yaml" := by
  obtain ⟨hcompose, hyaml, hone, htwo⟩ :
      text "compose." = [99, 111, 109, 112, 111, 115, 101, 46] ∧
      text ".yaml" = [46, 121, 97, 109, 108] ∧
      text "compose.yaml" = [99, 111, 109, 112, 111, 115, 101, 46, 121, 97, 109, 108] ∧
      text "compose..yaml" = [99, 111, 109, 112, 111, 115, 101, 46, 46, 121, 97, 109, 108] := by
    decide +kernel
  rw [hcompose] at hstart
  rw [hyaml] at hend
  rw [htwo] at hlen
  rw [hone, htwo]
  obtain ⟨rest, rfl⟩ := List.isPrefixOf_iff_prefix.mp hstart
  -- the rest is no longer than the suffix
  rcases rest with _ | ⟨a, _ | ⟨b, _ | ⟨c, _ | ⟨d, _ | ⟨e, _ | ⟨f, rest⟩⟩⟩⟩⟩⟩
  on_goal 7 =>
    simp at hlen
    omega
  all_goals simp [hasSuffix, List.isSuffixOf] at hend
  all_goals simp [hend]

end Shapes

/-! ## Components -/

section Components

variable {p : Text}

theorem not_hasPrefix_parent (h : slash ∉ p) : hasPrefix p (text ".." ++ [slash]) = false := by
  by_contra hp
  rw [Bool.not_eq_false] at hp
  obtain ⟨rest, rfl⟩ := List.isPrefixOf_iff_prefix.mp hp
  simp at h

theorem component_iff (hslash : p.contains slash = false) :
    AgentOps.validRelativePath p = .ok () ↔
      Component p ∧ p.length ≤ AgentOps.operationPathMaxBytes := by
  have hmem : slash ∉ p := by simpa using hslash
  constructor
  · intro h
    unfold AgentOps.validRelativePath at h
    split at h
    · cases h
    rename_i hn
    simp only [Bool.or_eq_true, not_or, Bool.not_eq_true, List.isEmpty_eq_false_iff,
      decide_eq_false_iff_not, beq_eq_false_iff_ne, ne_eq] at hn
    obtain ⟨⟨⟨⟨⟨⟨⟨hne, hlen⟩, hnul⟩, -⟩, -⟩, hdot⟩, hdots⟩, -⟩ := hn
    exact ⟨⟨hne, hdot, hdots, hmem, by simpa using hnul⟩, by omega⟩
  · intro hall
    obtain ⟨hc, hlen⟩ := hall
    have hstart := not_hasPrefix_parent hmem
    unfold AgentOps.validRelativePath
    rw [if_neg, if_neg]
    · rw [CleanPath.splitOn_component hc]
      simpa using fun he => hc.ne_dotdot he.symm
    · have hnul := hc.nul_not_mem
      simp [hc.ne_nil, hc.ne_dot, hc.ne_dotdot, hc.isAbs_eq_false, hc.clean_eq, hstart, hnul, hlen]

end Components

/-! ## Kinds of writes -/

section Kinds

variable {p : Text} {kind kind' : Kind}

open AgentOps

section

variable (h : writeShape p .composeFileWrite = true)

include h

theorem writeShape_compose_cases :
    isComposeName p = true ∨ (hasPrefix p (text "compose.") = true ∧
      hasSuffix p (text ".yaml") = true ∧ hasPrefix p (text "compose.override.") = false) := by
  by_cases hname : isComposeName p = true
  · exact .inl hname
  · simp only [writeShape, if_neg hname, Bool.and_eq_true, Bool.not_eq_true'] at h
    exact .inr ⟨h.1.1, h.1.2, h.2⟩

theorem composeShape_not_override : startsOverride p = false := by
  rcases writeShape_compose_cases h with h | ⟨hstart, -, hover⟩
  · exact (isComposeName_plain h).2
  have hdocker : hasPrefix p (text "docker-compose.override.") = false := by
    by_contra hp
    rw [Bool.not_eq_false] at hp
    have h₁ := head?_of_hasPrefix hstart literal_heads.2.1.1
    have h₂ := head?_of_hasPrefix hp literal_heads.2.2
    rw [h₁] at h₂
    cases h₂
  rw [startsOverride, hover, hdocker]
  rfl

theorem composeShape_head? : p.head? ≠ some 46 := by
  rcases writeShape_compose_cases h with h | ⟨hstart, -, -⟩
  · exact (isComposeName_plain h).1
  · simp [head?_of_hasPrefix hstart literal_heads.2.1.1]

end

theorem overrideShape_starts (h : writeShape p .overrideWrite = true) :
    startsOverride p = true ∧ endsYaml p = true := by
  simpa [writeShape] using h

theorem writeShape_unique (h : writeShape p kind = true) (h' : writeShape p kind' = true) :
    kind = kind' := by
  have henv : ∀ {k}, writeShape p .envWrite = true → writeShape p k = true → k = .envWrite := by
    intro k he hk
    have hhead := isEnvName_head? he
    cases k with
    | envWrite => rfl
    | overrideWrite => exact absurd hhead (startsOverride_head? (overrideShape_starts hk).1)
    | composeFileWrite => exact absurd hhead (composeShape_head? hk)
    | _ => cases hk
  have hcompose : writeShape p .composeFileWrite = true → writeShape p .overrideWrite = true →
      False := by
    intro hc ho
    have := composeShape_not_override hc
    rw [(overrideShape_starts ho).1] at this
    cases this
  cases kind with
  | envWrite => exact (henv h h').symm
  | overrideWrite =>
    cases kind' with
    | envWrite => exact henv h' h
    | overrideWrite => rfl
    | composeFileWrite => exact (hcompose h' h).elim
    | _ => cases h'
  | composeFileWrite =>
    cases kind' with
    | envWrite => exact henv h' h
    | overrideWrite => exact (hcompose h h').elim
    | composeFileWrite => rfl
    | _ => cases h'
  | _ => cases h

theorem isFileWrite_of_writeShape (h : writeShape p kind = true) :
    kind.isFileWriteOperation = true := by
  cases kind with
  | envWrite | overrideWrite | composeFileWrite => rfl
  | _ => cases h

theorem fileWriteKind_of_managed (h : managedName p = true) :
    ∃ k, ServerApi.fileWriteKind p = some k ∧ writeShape p k = true := by
  unfold managedName at h
  unfold ServerApi.fileWriteKind
  split at h
  · rename_i henv
    exact ⟨.envWrite, if_pos henv, henv⟩
  rename_i henv
  rw [if_neg henv]
  split at h
  · rename_i hname
    have hover := (isComposeName_plain hname).2
    refine ⟨.composeFileWrite, ?_, ?_⟩
    · rw [if_neg (by simp [hover]), if_pos hname]
    · simp [writeShape, hname]
  rename_i hname
  split at h
  · rename_i hover
    refine ⟨.overrideWrite, ?_, ?_⟩
    · rw [if_pos (by simp [hover, h])]
    · simp [writeShape, hover, h]
  · rename_i hover
    simp only [startsOverride, Bool.or_eq_true, not_or, Bool.not_eq_true] at hover
    simp only [Bool.and_eq_true] at h
    refine ⟨.composeFileWrite, ?_, ?_⟩
    · rw [if_neg (by simp [startsOverride, hover]), if_neg hname,
        if_pos (by simp [h.1.1, h.1.2, hover.1])]
    · simp [writeShape, hname, h.1.1, h.1.2, hover.1]

theorem managed_of_writeShape (h : writeShape p kind = true) (hne : p ≠ text "compose..yaml") :
    managedName p = true := by
  unfold managedName
  cases kind with
  | envWrite => rw [if_pos (show isEnvName p = true from h)]
  | overrideWrite =>
    obtain ⟨hover, hend⟩ := overrideShape_starts h
    simp [hover, hend]
  | composeFileWrite =>
    have hover := composeShape_not_override h
    by_cases henv : isEnvName p = true
    · rw [if_pos henv]
    rw [if_neg henv]
    rcases writeShape_compose_cases h with hname | ⟨hstart, hend, -⟩
    · rw [if_pos hname]
    by_cases hname : isComposeName p = true
    · rw [if_pos hname]
    have hlen : (text "compose..yaml").length < p.length := by
      by_contra hshort
      rcases short_compose hstart hend (by omega) with h' | h'
      · exact hname (by simp [isComposeName, h'])
      · exact hne h'
    rw [if_neg hname, if_neg (by simp [hover])]
    simp [hstart, hend, hlen]
  | _ => cases h

end Kinds

/-! ## What the parser accepts -/

namespace AgentOps

variable {p : Text} {kind : Kind}

theorem pathMatches_iff :
    pathMatchesWriteType kind p = true ↔ p.contains slash = false ∧ writeShape p kind = true := by
  unfold pathMatchesWriteType
  cases hslash : p.contains slash <;> simp

def zeroHash : Text := List.replicate 64 48

def plainPayload (paths : List Text) : Payload where
  size := 1
  fileWrite := some ⟨1, zeroHash, []⟩
  backupCreate := some ⟨1, paths⟩
  version := some 1

theorem acceptsWrite_iff :
    AcceptsWrite kind p ↔ (Component p ∧ p.length ≤ operationPathMaxBytes) ∧
      writeShape p kind = true := by
  constructor
  · intro h
    obtain ⟨hkind, payload, command, hparse⟩ := h
    unfold parseOperationCommand at hparse
    split at hparse
    · cases hparse
    split at hparse
    · cases hparse
    next hvalid =>
    split at hparse
    · cases hparse
    next hmatch =>
    obtain ⟨hslash, hshape⟩ := pathMatches_iff.mp (by simpa using hmatch)
    exact ⟨(component_iff hslash).mp hvalid, hshape⟩
  · intro hall
    obtain ⟨hc, hshape⟩ := hall
    have hslash : p.contains slash = false := by simpa using hc.1.slash_not_mem
    have hkind := isFileWrite_of_writeShape hshape
    have hvalid := (component_iff hslash).mpr hc
    have hmatch := pathMatches_iff.mpr ⟨hslash, hshape⟩
    have hhash : validSHA256 zeroHash = true := by decide +kernel
    refine ⟨hkind, plainPayload [], .fileWrite p zeroHash [], ?_⟩
    unfold parseOperationCommand
    simp [plainPayload, operationPayloadMaxBytes, hkind, hvalid, hmatch, decodeStrictPayload, hhash]

theorem checkBackupPaths_ok {paths seen : List Text} (h : checkBackupPaths seen paths = .ok ()) :
    ∀ p ∈ paths, ∃ kind, AcceptsWrite kind p := by
  induction paths generalizing seen with
  | nil => simp
  | cons q paths ih =>
    unfold checkBackupPaths at h
    split at h
    · cases h
    next hvalid =>
    split at h
    · cases h
    next hmatch =>
    split at h
    · cases h
    intro p hp
    rcases List.mem_cons.mp hp with rfl | hp
    · have hsome : ∃ kind, pathMatchesWriteType kind p = true := by
        by_contra hnone
        simp only [not_exists, Bool.not_eq_true] at hnone
        simp [hnone] at hmatch
      obtain ⟨kind, hkind⟩ := hsome
      obtain ⟨hslash, hshape⟩ := pathMatches_iff.mp hkind
      exact ⟨kind, acceptsWrite_iff.mpr ⟨(component_iff hslash).mp hvalid, hshape⟩⟩
    · exact ih h p hp

theorem acceptsBackup_write (h : AcceptsBackup p) : ∃ kind, AcceptsWrite kind p := by
  obtain ⟨target, payload, paths, hparse, hp⟩ := h
  unfold parseOperationCommand at hparse
  split at hparse
  · cases hparse
  rw [if_neg (by decide), if_pos rfl] at hparse
  split at hparse
  · cases hparse
  split at hparse
  · cases hparse
  split at hparse
  · cases hparse
  split at hparse
  · cases hparse
  next hcheck =>
  cases hparse
  exact checkBackupPaths_ok hcheck p hp

end AgentOps

/-! ## The four checks -/

section Agreement

variable {p : Text} {kind : Kind}

theorem authorize_of_shape (approved : Text → Option SafeFile.Access) (hc : Component p)
    (h : AgentOps.writeShape p kind = true) : SafeFile.authorize approved p true = .ok p := by
  have hslash : p.contains slash = false := by simpa using hc.slash_not_mem
  have hnul : p.contains 0 = false := by simpa using hc.nul_not_mem
  have hnorm : SafeFile.normalizeRelative p = .ok p := by
    have hstart := not_hasPrefix_parent hc.slash_not_mem
    have hroot : p ≠ [slash] := by
      intro he
      subst he
      simp at hslash
    unfold SafeFile.normalizeRelative
    rw [CleanPath.splitOn_component hc, hc.clean_eq, hc.isAbs_eq_false, hnul, hstart]
    simp [hc.ne_nil, hc.ne_dot, hc.ne_dotdot, hc.ne_dotdot.symm, hroot]
  have haccess : SafeFile.defaultAccess p = .readWrite := by
    unfold SafeFile.defaultAccess
    rw [if_neg (by simpa using hslash)]
    cases kind with
    | envWrite =>
      have henv : isEnvName p = true := h
      simp only [isEnvName, Bool.or_eq_true, Bool.and_eq_true] at henv
      rcases henv with henv | henv
      · simp [henv]
      · simp [henv.1]
    | overrideWrite => simp [(overrideShape_starts h).1]
    | composeFileWrite =>
      rcases writeShape_compose_cases h with hname | ⟨hstart, hend, -⟩
      · simp [hname]
      · simp [hstart, hend]
    | _ => cases h
  have hof : SafeFile.accessOf approved p = .readWrite := by
    unfold SafeFile.accessOf
    rw [haccess]
    cases approved p <;> rfl
  unfold SafeFile.authorize
  rw [hnorm]
  simp [hof]

theorem dots_unmanaged : managedName (text ".") = false ∧ managedName (text "..") = false := by
  decide +kernel

theorem server_component (h : ServerApi.validManagedPath p = true) :
    (Component p ∧ p.length ≤ AgentOps.operationPathMaxBytes) ∧ managedName p = true := by
  unfold ServerApi.validManagedPath at h
  split at h
  · cases h
  rename_i hn
  simp only [Bool.or_eq_true, not_or, Bool.not_eq_true, List.isEmpty_eq_false_iff,
    decide_eq_false_iff_not] at hn
  obtain ⟨⟨⟨⟨hne, hlen⟩, -⟩, hslash⟩, hnul⟩ := hn
  have hdots : p ≠ text "." ∧ p ≠ text ".." := by
    obtain ⟨hone, htwo⟩ := dots_unmanaged
    refine ⟨?_, ?_⟩ <;> (intro he; subst he; simp_all)
  refine ⟨⟨⟨hne, hdots.1, hdots.2, by simpa using hslash, by simpa using hnul⟩, ?_⟩, h⟩
  exact Nat.not_lt.mp hlen

theorem backup_of_managed (hc : Component p) (h : managedName p = true) :
    Backup.validManagedPath p = true := by
  unfold Backup.validManagedPath
  have hslash := hc.slash_not_mem
  have hnul := hc.nul_not_mem
  rw [if_neg (by simp [hc.ne_nil, hc.isAbs_eq_false, hc.clean_eq, hslash, hnul])]
  exact h

end Agreement

/-- The checks agree on a path.

1. A path the Server accepts has a kind, and the parser takes it for that kind of write only.
2. What the parser takes, for a write or for a backup, `safefile` authorizes for writing and the
   backup store accepts.
3. Every accepted path is one component. -/
def Agreed (approved : Text → Option SafeFile.Access) (p : Text) : Prop :=
  (ServerApi.validManagedPath p = true → ∃ kind, ServerApi.fileWriteKind p = some kind ∧
    ∀ kind', AgentOps.AcceptsWrite kind' p ↔ kind' = kind) ∧
  ((∃ kind, AgentOps.AcceptsWrite kind p) ∨ AgentOps.AcceptsBackup p →
    SafeFile.authorize approved p true = .ok p ∧ Backup.validManagedPath p = true) ∧
  (ServerApi.validManagedPath p = true ∨ (∃ kind, AgentOps.AcceptsWrite kind p) ∨
    AgentOps.AcceptsBackup p → Component p)

/-- The four allowlists agree on exactly the paths other than `compose..yaml`. -/
theorem allowlists_agree_iff (approved : Text → Option SafeFile.Access) (p : Text) :
    Agreed approved p ↔ p ≠ text "compose..yaml" := by
  have hwrite : (∃ kind, AgentOps.AcceptsWrite kind p) ∨ AgentOps.AcceptsBackup p →
      ∃ kind, AgentOps.AcceptsWrite kind p := by
    intro h
    rcases h with h | h
    · exact h
    · exact AgentOps.acceptsBackup_write h
  constructor
  · intro h he
    subst he
    obtain ⟨⟨hne, hdot, hdots, hslash, hnul⟩, hlen, hshape, hrefused⟩ :
        (text "compose..yaml" ≠ [] ∧ text "compose..yaml" ≠ text "." ∧
          text "compose..yaml" ≠ text ".." ∧ slash ∉ text "compose..yaml" ∧
          0 ∉ text "compose..yaml") ∧
        (text "compose..yaml").length ≤ AgentOps.operationPathMaxBytes ∧
        AgentOps.writeShape (text "compose..yaml") .composeFileWrite = true ∧
        Backup.validManagedPath (text "compose..yaml") = false := by
      decide +kernel
    have haccepts : AgentOps.AcceptsWrite .composeFileWrite (text "compose..yaml") :=
      AgentOps.acceptsWrite_iff.mpr ⟨⟨⟨hne, hdot, hdots, hslash, hnul⟩, hlen⟩, hshape⟩
    rw [(h.2.1 (.inl ⟨_, haccepts⟩)).2] at hrefused
    cases hrefused
  intro hne
  refine ⟨?_, ?_, ?_⟩
  · intro hserver
    obtain ⟨hc, hmanaged⟩ := server_component hserver
    obtain ⟨kind, hkind, hshape⟩ := fileWriteKind_of_managed hmanaged
    refine ⟨kind, hkind, ?_⟩
    intro kind'
    rw [AgentOps.acceptsWrite_iff]
    constructor
    · intro h
      exact writeShape_unique h.2 hshape
    · intro he
      subst he
      exact ⟨hc, hshape⟩
  · intro h
    obtain ⟨kind, hkind⟩ := hwrite h
    obtain ⟨hc, hshape⟩ := AgentOps.acceptsWrite_iff.mp hkind
    exact ⟨authorize_of_shape approved hc.1 hshape,
      backup_of_managed hc.1 (managed_of_writeShape hshape hne)⟩
  · intro h
    rcases h with h | h
    · exact (server_component h).1.1
    · obtain ⟨kind, hkind⟩ := hwrite h
      exact (AgentOps.acceptsWrite_iff.mp hkind).1.1

/-- The parser takes a write to `compose..yaml`, and the snapshot before the write refuses it. -/
theorem compose_yaml_refused :
    AgentOps.parseOperationCommand .composeFileWrite (text "compose..yaml")
        (AgentOps.plainPayload []) =
      .ok (.fileWrite (text "compose..yaml") AgentOps.zeroHash []) ∧
    Backup.validManagedPath (text "compose..yaml") = false := by
  decide +kernel

end DockLattice.Files
