import DockLattice.Lib.Table
import DockLattice.Compose.Evaluate
import DockLattice.Server.Baseline

/-!
# DockLattice.Server.Projects

The Server's copy of the Agents' projects (`serverapi/projects.go`, `projectmodel/model.go`) and its
two writers: `mergeProjectSnapshot`, with everything a scan of the Agent found and what Docker's
labels add, and `mergeTargetedProjectSnapshot`, with one project, after an operation changed it.

Snapshots and Docker facts are the validated ones. The UID of a project is modelled as the text
whose SHA-256 it is.
-/

namespace DockLattice.Server.ProjectMirror

open Bytes Operation DockLattice.Path

/-! ## Snapshots and rows -/

structure ComposeService where
  name : Text
  image : Text
  hasBuild : Bool
  pullPolicy : Text
  profiles : List Text
  dependsOn : List Text
  active : Bool
  buildRequired : Bool
  pullAvailable : Bool
  upAvailable : Bool
  unavailableReason : Text
  deriving DecidableEq, Repr

structure EnvFileReference where
  path : Text
  readable : Bool
  deriving DecidableEq, Repr

structure ComposeResource where
  name : Text
  sourceType : Text
  source : Text
  external : Bool
  deriving DecidableEq, Repr

structure SourceReference where
  kind : Text
  path : Text
  accessible : Bool
  readOnly : Bool
  deriving DecidableEq, Repr

structure Metadata where
  composeFiles : List Text
  definedServices : List ComposeService
  activeProfiles : List Text
  envFiles : List EnvFileReference
  secrets : List ComposeResource
  configs : List ComposeResource
  pullServices : List Text
  projectUpAvailable : Bool
  projectUpReason : Text
  includedWorkDirs : List Text
  sourceReferences : List SourceReference
  sourceGraphComplete : Bool
  deriving DecidableEq, Repr

def Metadata.none : Metadata :=
  ⟨[], [], [], [], [], [], [], false, [], [], [], false⟩

structure Snapshot where
  workingDir : Text
  name : Text
  metadata : Metadata
  currentFingerprint : Text
  composeExecutable : Bool
  filesystemWritable : Bool
  restoreRecoveryRequired : Bool
  capabilityReason : Text
  stale : Bool
  verifiedAt : Option Time
  deriving DecidableEq, Repr

structure DockerFact where
  containerID : Text
  projectName : Text
  workingDir : Text
  service : Text
  deriving DecidableEq, Repr

structure Flags where
  managed : Bool
  unmanagedReason : Text
  containerIDs : List Text
  services : List Text
  metadata : Metadata
  includedBy : List Text
  readOnly : Bool
  collision : Bool
  missing : Bool
  stale : Bool
  composeExecutable : Bool
  filesystemWritable : Bool
  restoreRecoveryRequired : Bool
  capabilityReason : Text
  currentFingerprint : Text
  lastVerifiedFingerprint : Text
  lastVerifiedAt : Option Time
  lastObservedAt : Option Time
  drift : Drift
  deriving DecidableEq, Repr

/-- A row of `projects` under its UID. An empty `applied` is a project without a baseline. -/
structure Row where
  agentId : Text
  workingDir : Text
  name : Text
  applied : Text
  flags : Flags
  deriving DecidableEq, Repr

structure AgentRow where
  retired : Bool
  scannedAt : Option Time
  deriving DecidableEq, Repr

structure Store where
  agents : Text → Option AgentRow
  projects : Table Text Row

def projectUid (agentId workingDir : Text) : Text := agentId ++ 0 :: workingDir

def sortedProjectStrings (values : List Text) : List Text :=
  Compose.sortStrings (values.filter (· ≠ [])).dedup

def canonicalAbsolutePath (value : Text) : Bool :=
  value ≠ [] && isAbs value && clean value = value && !value.contains 0

/-! ## `projectmodel.Merge` -/

structure Project where
  uid : Text
  workingDir : Text
  name : Text
  containerIDs : List Text
  managed : Bool
  unmanagedReason : Text
  includedBy : List Text
  nameCollision : Bool
  deriving DecidableEq, Repr

def canonicalDir (dir : Text) : Bool :=
  dir ≠ [] && isAbs dir && clean dir = dir && (dir = [slash] || dir.getLast? ≠ some slash)

def validFacts (filesystem : List Snapshot) (docker : List DockerFact) : Bool :=
  (filesystem.all fun fact =>
    canonicalDir fact.workingDir && fact.metadata.includedWorkDirs.all canonicalDir) &&
  decide (filesystem.map Snapshot.workingDir).Nodup &&
  docker.all fun fact =>
    fact.projectName ≠ [] && fact.containerID ≠ [] &&
      (fact.workingDir = [] || canonicalDir fact.workingDir)

def filesystemProject (agentId : Text) (fact : Snapshot) : Project where
  uid := projectUid agentId fact.workingDir
  workingDir := fact.workingDir
  name := fact.name
  containerIDs := []
  managed := true
  unmanagedReason := []
  includedBy := []
  nameCollision := false

def unmanagedProject (uid workingDir : Text) (fact : DockerFact) (reason : Text) : Project where
  uid := uid
  workingDir := workingDir
  name := fact.projectName
  containerIDs := [fact.containerID]
  managed := false
  unmanagedReason := reason
  includedBy := []
  nameCollision := false

/-- A container joins the project of its directory, or is a project of its own. -/
def attach (agentId : Text) (projects : List Project) (fact : DockerFact) : List Project :=
  if fact.workingDir = [] then
    projects ++ [unmanagedProject [] [] fact (text "Docker Compose working_dir label is missing")]
  else if projects.any (·.workingDir = fact.workingDir) then
    projects.map fun p =>
      if p.workingDir = fact.workingDir then
        { p with containerIDs := p.containerIDs ++ [fact.containerID] }
      else p
  else
    projects ++ [unmanagedProject (projectUid agentId fact.workingDir) fact.workingDir fact
      (text "working_dir is outside or absent from discovery results")]

def linkIncludes (agentId : Text) (facts : List Snapshot) (p : Project) : Project :=
  { p with
    containerIDs := sortedProjectStrings p.containerIDs
    includedBy := sortedProjectStrings ((facts.filter fun parent =>
      parent.workingDir ≠ p.workingDir && parent.metadata.includedWorkDirs.contains p.workingDir).map
        fun parent => projectUid agentId parent.workingDir) }

def namesClash (p q : Project) : Bool :=
  p.name ≠ [] && p.workingDir ≠ [] && q.name = p.name && q.workingDir ≠ [] &&
    q.workingDir ≠ p.workingDir

def markNameCollisions (projects : List Project) : List Project :=
  projects.map fun p => { p with nameCollision := projects.any (namesClash p) }

/-- The directories are distinct, so the further keys of the sort never decide. -/
def merge (agentId : Text) (filesystem : List Snapshot) (docker : List DockerFact) :
    Option (List Project) :=
  if validFacts filesystem docker then
    let projects := docker.foldl (attach agentId) (filesystem.map (filesystemProject agentId))
    some ((markNameCollisions (projects.map (linkIncludes agentId filesystem))).insertionSort
      fun p q => p.workingDir ≤ q.workingDir)
  else none

/-! ## `mergeProjectFacts` -/

structure Merged where
  snapshot : Snapshot
  managed : Bool
  unmanagedReason : Text
  containerIDs : List Text
  services : List Text
  includedBy : List Text
  collision : Bool
  deriving DecidableEq, Repr

def dockerSnapshot (project : Project) : Snapshot where
  workingDir := project.workingDir
  name := project.name
  metadata := .none
  currentFingerprint := []
  composeExecutable := false
  filesystemWritable := false
  restoreRecoveryRequired := false
  capabilityReason := []
  stale := false
  verifiedAt := none

def dockerService (docker : List DockerFact) (containerID : Text) : Text :=
  (((docker.filter fun fact => fact.containerID = containerID && fact.service ≠ []).getLast?).map
    DockerFact.service).getD []

def mergedProject (filesystem : List Snapshot) (docker : List DockerFact) (project : Project) :
    Merged where
  snapshot :=
    match filesystem.find? fun fact => fact.workingDir = project.workingDir with
    | some fact => { fact with name := project.name }
    | none => dockerSnapshot project
  managed := project.managed
  unmanagedReason := project.unmanagedReason
  containerIDs := project.containerIDs
  services := sortedProjectStrings (project.containerIDs.map (dockerService docker))
  includedBy := project.includedBy
  collision := project.nameCollision

def mergeProjectFacts (agentId : Text) (filesystem : List Snapshot) (docker : List DockerFact) :
    Except ServerError (List Merged) :=
  match merge agentId filesystem docker with
  | none => .error (.corruptData "Agent project merge facts")
  | some projects =>
    .ok ((projects.filter fun p => p.uid ≠ []).map (mergedProject filesystem docker))

/-! ## The flags -/

def managedProject (flags : Flags) : Bool := flags.managed || flags.unmanagedReason = []

def projectReadOnly (flags : Flags) (collision : Bool) : Bool :=
  !managedProject flags || flags.stale || !flags.composeExecutable || !flags.filesystemWritable ||
    collision || flags.restoreRecoveryRequired

def keepVerified (prior flags : Flags) : Flags :=
  { flags with
    currentFingerprint := prior.currentFingerprint
    lastVerifiedFingerprint := prior.lastVerifiedFingerprint
    lastVerifiedAt := prior.lastVerifiedAt
    drift := prior.drift }

def snapshotFlags (item : Merged) (applied : Text) (observedAt : Time) : Flags where
  managed := item.managed
  unmanagedReason := item.unmanagedReason
  containerIDs := item.containerIDs
  services := item.services
  metadata := item.snapshot.metadata
  includedBy := item.includedBy
  readOnly := false
  collision := item.collision
  missing := false
  stale := item.snapshot.stale
  composeExecutable := item.snapshot.composeExecutable
  filesystemWritable := item.snapshot.filesystemWritable
  restoreRecoveryRequired := item.snapshot.restoreRecoveryRequired
  capabilityReason := item.snapshot.capabilityReason
  currentFingerprint := item.snapshot.currentFingerprint
  lastVerifiedFingerprint := item.snapshot.currentFingerprint
  lastVerifiedAt := item.snapshot.verifiedAt
  lastObservedAt := some observedAt
  drift := driftStatus applied item.snapshot.currentFingerprint

def fullFlags (item : Merged) (prior : Option Row) (observedAt : Time) : Flags :=
  let fresh := snapshotFlags item ((prior.map Row.applied).getD []) observedAt
  let flags :=
    match prior with
    | some row => if item.snapshot.stale then keepVerified row.flags fresh else fresh
    | none => fresh
  { flags with readOnly := projectReadOnly flags flags.collision }

def fullName (item : Merged) (prior : Option Row) : Text :=
  match prior with
  | some row => if item.snapshot.stale && row.name ≠ [] then row.name else item.snapshot.name
  | none => item.snapshot.name

/-- What the targeted merge takes from the snapshot and what from the row. The restore recovery of
the snapshot is not taken over. -/
def targetedFlags (item : Snapshot) (prior : Flags) (applied : Text) (observedAt now : Time) :
    Flags :=
  let fresh : Flags :=
    { managed := prior.managed
      unmanagedReason := prior.unmanagedReason
      containerIDs := prior.containerIDs
      services := prior.services
      metadata := item.metadata
      includedBy := prior.includedBy
      readOnly := false
      collision := false
      missing := false
      stale := item.stale
      composeExecutable := item.composeExecutable
      filesystemWritable := item.filesystemWritable
      restoreRecoveryRequired := false
      capabilityReason := item.capabilityReason
      currentFingerprint := item.currentFingerprint
      lastVerifiedFingerprint := item.currentFingerprint
      lastVerifiedAt := some now
      lastObservedAt := some observedAt
      drift := driftStatus applied item.currentFingerprint }
  let flags := if item.stale then keepVerified prior fresh else fresh
  { flags with readOnly := projectReadOnly flags false }

def missingFlags (flags : Flags) : Flags :=
  { flags with
    missing := true
    stale := true
    readOnly := true
    collision := false
    composeExecutable := false
    filesystemWritable := false
    capabilityReason := text "project missing from latest complete discovery scan"
    includedBy := [] }

def isNewerProjectObservation (previous : Option Time) (current : Time) : Bool :=
  match previous with
  | none => true
  | some observed => observed < current

/-! ## What both merges end with -/

def onAgent (agentId : Text) (f : Text → Row → Flags) (t : Table Text Row) : Table Text Row :=
  t.map fun uid row => if row.agentId = agentId then { row with flags := f uid row } else row

def agentRows (agentId : Text) (t : Table Text Row) : List (Text × Row) :=
  t.rows.filter fun p => p.2.agentId = agentId

def includeParents (rows : List (Text × Row)) (uid : Text) (row : Row) : List Text :=
  if row.flags.missing then []
  else
    sortedProjectStrings ((rows.filter fun parent =>
      !parent.2.flags.missing && parent.1 ≠ uid &&
        parent.2.flags.metadata.includedWorkDirs.contains row.workingDir).map Prod.fst)

def reconcileProjectIncludeRelations (agentId : Text) (t : Table Text Row) :
    Except ServerError (Table Text Row) :=
  let rows := agentRows agentId t
  if rows.any fun p => p.1 = [] || !Utf8.valid p.1 || !canonicalAbsolutePath p.2.workingDir then
    .error (.corruptData "projects include relation")
  else if rows.any fun p => p.2.flags.metadata.includedWorkDirs.any fun d =>
      !canonicalAbsolutePath d then
    .error (.corruptData "projects.flags_json")
  else if ¬ (rows.map fun p => p.2.workingDir).Nodup then
    .error (.corruptData "projects include relation")
  else
    .ok (onAgent agentId
      (fun uid row => { row.flags with includedBy := includeParents rows uid row }) t)

def nameCount (rows : List (Text × Row)) (name : Text) : Nat :=
  rows.countP fun p => !p.2.flags.missing && p.2.name = name

def collides (rows : List (Text × Row)) (row : Row) : Bool :=
  !row.flags.missing && row.name ≠ [] && 1 < nameCount rows row.name

def reconcileTargetedProjectCollisions (agentId : Text) (t : Table Text Row) : Table Text Row :=
  let rows := agentRows agentId t
  onAgent agentId (fun _ row =>
    { row.flags with
      collision := collides rows row
      readOnly := projectReadOnly row.flags (collides rows row) }) t

/-! ## The full merge -/

structure ScanStatus where
  scannedAt : Time
  truncated : Bool
  deriving DecidableEq, Repr

def priorRow (existing : Table Text Row) (agentId uid : Text) : Option Row :=
  (existing.get uid).filter fun row => row.agentId = agentId

def writeProject (agentId : Text) (item : Merged) (prior : Option Row) (observedAt : Time)
    (t : Table Text Row) : Except ServerError (Table Text Row) :=
  let uid := projectUid agentId item.snapshot.workingDir
  let name := fullName item prior
  let flags := fullFlags item prior observedAt
  match t.get uid with
  | none => .ok (t.set uid ⟨agentId, item.snapshot.workingDir, name, [], flags⟩)
  | some row =>
    if row.agentId = agentId ∧ row.workingDir = item.snapshot.workingDir then
      .ok (t.set uid { row with name := if name ≠ [] then name else row.name, flags := flags })
    else .error (.corruptData "projects identity")

def mergeItem (agentId : Text) (existing : Table Text Row) (observedAt : Time) (t : Table Text Row)
    (item : Merged) : Except ServerError (Table Text Row) :=
  match priorRow existing agentId (projectUid agentId item.snapshot.workingDir) with
  | none => writeProject agentId item none observedAt t
  | some row =>
    if row.workingDir ≠ item.snapshot.workingDir then .error (.corruptData "projects identity")
    else if !isNewerProjectObservation row.flags.lastObservedAt observedAt then .ok t
    else writeProject agentId item (some row) observedAt t

def markMissing (agentId : Text) (seen : List Text) (t : Table Text Row) : Table Text Row :=
  onAgent agentId (fun uid row =>
    if seen.contains uid then row.flags else missingFlags row.flags) t

def mergeProjects (agentId : Text) (truncated : Bool) (merged : List Merged) (observedAt : Time)
    (existing : Table Text Row) : Except ServerError (Table Text Row) :=
  match merged.foldlM (mergeItem agentId existing observedAt) existing with
  | .error e => .error e
  | .ok t =>
    let seen := merged.map fun item => projectUid agentId item.snapshot.workingDir
    reconcileProjectIncludeRelations agentId (if truncated then t else markMissing agentId seen t)

/-- A scan that is not newer than the one merged last changes nothing. -/
def mergeProjectSnapshot (s : Store) (agentId : Text) (status : ScanStatus)
    (projects : List Snapshot) (docker : List DockerFact) (observedAt : Time) :
    Except ServerError Store :=
  if observedAt.isZero then
    .error (.internal "serverapi: project snapshot observation time is required")
  else
    match mergeProjectFacts agentId projects docker with
    | .error e => .error e
    | .ok merged =>
      match s.agents agentId with
      | none => .error (.notFound "Agent")
      | some agent =>
        if agent.retired then .error (.notFound "Agent")
        else if !isNewerProjectObservation agent.scannedAt status.scannedAt then .ok s
        else
          match mergeProjects agentId status.truncated merged observedAt s.projects with
          | .error e => .error e
          | .ok t =>
            .ok ⟨Function.update s.agents agentId
              (some { agent with scannedAt := some status.scannedAt }), t⟩

/-! ## The targeted merge -/

def mergeTargetedProjectSnapshot (s : Store) (agentId : Text) (item : Snapshot)
    (establishBaseline : Bool) (observedAt now : Time) : Except ServerError Store :=
  let uid := projectUid agentId item.workingDir
  if observedAt.isZero then
    .error (.internal "serverapi: targeted project observation time is required")
  else
    match priorRow s.projects agentId uid with
    | none => .error (.conflict "project is not present in the Server mirror")
    | some row =>
      if row.workingDir ≠ item.workingDir then .error (.corruptData "projects identity")
      else
        let applied := if establishBaseline then item.currentFingerprint else row.applied
        let t := s.projects.set uid
          { row with
            name := if item.name = [] then row.name else item.name
            applied := applied
            flags := targetedFlags item row.flags applied observedAt now }
        match reconcileProjectIncludeRelations agentId t with
        | .error e => .error e
        | .ok t => .ok { s with projects := reconcileTargetedProjectCollisions agentId t }

/-! ## Runs -/

/-- A merge; one that its context or the store ends before it commits is `ended`. -/
inductive Call where
  | full (agentId : Text) (status : ScanStatus) (projects : List Snapshot)
      (docker : List DockerFact) (observedAt : Time)
  | targeted (agentId : Text) (item : Snapshot) (establishBaseline : Bool) (observedAt now : Time)
  | ended
  deriving DecidableEq, Repr

namespace Call

def result (s : Store) : Call → Except ServerError Store
  | full agentId status projects docker observedAt =>
    mergeProjectSnapshot s agentId status projects docker observedAt
  | targeted agentId item establishBaseline observedAt now =>
    mergeTargetedProjectSnapshot s agentId item establishBaseline observedAt now
  | ended => .ok s

def run (s : Store) (call : Call) : Store :=
  match call.result s with
  | .ok s' => s'
  | .error _ => s

end Call

end DockLattice.Server.ProjectMirror
