import DockLattice.Compose.Evaluate

/-!
# DockLattice.Compose.Catalog

The Agent's project catalog: `rescan`, `RescanProject`, and their check that the evaluation kept the
identity of the project. The path list goes through three orders: discovery puts the base first,
`orderComposePaths` the overrides last, and `validateInputs` sorts its list as strings; the catalog
compares its own list with the one that came back, position by position.
-/

namespace DockLattice.Compose

open Bytes DockLattice.Path List CleanPath

structure FileFact where
  path : Text
  facts : Facts
  deriving DecidableEq, Repr

structure EnvFileReference where
  path : Text
  readable : Bool
  deriving DecidableEq, Repr

structure Project where
  uid : Text
  root : Text
  workingDir : Text
  files : List FileFact
  composeFiles : List Text
  name : Text
  services : List Text
  serviceModels : List Service
  envFiles : List EnvFileReference
  secrets : List ResourceSource
  configs : List ResourceSource
  sourceGraphComplete : Bool
  currentFingerprint : Text
  composeExecutable : Bool
  filesystemWritable : Bool
  capabilityReason : String
  stale : Bool
  deriving DecidableEq, Repr

inductive CatalogError where
  | invalidFact
  | noComposeFiles (directory : Text)
  | evaluate (directory : Text) (cause : EvalError)
  | identityChanged (directory : Text)
  | refreshIdentityChanged (directory : Text)
  | unavailable (uid : Text)
  | refresh (uid : Text) (cause : ScanError)
  deriving DecidableEq, Repr

structure Env where
  policy : Text → Bool × String
  writePolicy : Text → Bool × String
  uid : Text → Option Text
  fingerprint : List FileFact → Option Text
  /-- `sourceGraphFacts`: the facts with the sources added, and whether the graph is complete. -/
  sourceGraph : Text → Text → List Text → List FileFact → List FileFact × Bool
  /-- `classifyEnvFileReferences`: metadata, facts, and whether all references were readable. -/
  classifyEnv : Text → Text → List Text → List EnvFileReference × List FileFact × Bool
  docker : Docker

def mergeFileFacts (left right : List FileFact) : List FileFact :=
  ((left ++ right).foldl (fun facts f => facts.filter (·.path ≠ f.path) ++ [f]) []).insertionSort
    fun a b => a.path ≤ b.path

def newProject (env : Env) (uid root directory : Text) (files : List File) : Project where
  uid := uid
  root := root
  workingDir := directory
  files := (sortByPath files).map fun f => ⟨f.path, f.facts⟩
  composeFiles := composePaths files
  name := []
  services := []
  serviceModels := []
  envFiles := []
  secrets := []
  configs := []
  sourceGraphComplete := true
  currentFingerprint := []
  composeExecutable := (env.policy root).1
  filesystemWritable := (env.writePolicy root).1
  capabilityReason := (env.policy root).2
  stale := false

/-- The facts a project is fingerprinted by, with the env files known from an earlier scan. -/
def Project.withSources (project : Project) (env : Env) (known : Option Project) : Project :=
  let (files, complete) :=
    env.sourceGraph project.root project.workingDir project.composeFiles project.files
  match known with
  | none => { project with files := files, sourceGraphComplete := complete }
  | some known =>
    let (_, envFacts, envComplete) :=
      env.classifyEnv project.root project.workingDir (known.envFiles.map (·.path))
    { project with
      files := mergeFileFacts files envFacts
      sourceGraphComplete := complete && envComplete }

def Project.reuse (project known : Project) : Project :=
  { project with
    name := known.name
    services := known.services
    serviceModels := known.serviceModels
    envFiles := known.envFiles
    secrets := known.secrets
    configs := known.configs }

def Project.resolved (project : Project) (env : Env) (r : EvalResult) :
    Except CatalogError Project :=
  if r.project.workingDir ≠ project.workingDir ∨ r.project.name = [] ∨
      r.project.files ≠ project.composeFiles then
    .error (.identityChanged project.workingDir)
  else
    let (envFiles, envFacts, envComplete) :=
      env.classifyEnv project.root project.workingDir r.envFiles
    let files := mergeFileFacts project.files envFacts
    match env.fingerprint files with
    | none => .error .invalidFact
    | some fingerprint =>
      .ok { project with
        name := r.project.name
        services := r.services
        serviceModels := r.project.services
        envFiles := envFiles
        secrets := r.secrets
        configs := r.configs
        files := files
        sourceGraphComplete := project.sourceGraphComplete && envComplete
        currentFingerprint := fingerprint }

/-- The loop body of `rescan`: the project of one directory, and a failed evaluation. -/
def rescanDirectory (env : Env) (previous : List (Text × Project)) (directory : Text)
    (files : List File) : Except CatalogError (Project × Option CatalogError) :=
  match env.uid directory with
  | none => .error .invalidFact
  | some uid =>
    if composePaths files = [] then .error (.noComposeFiles directory)
    else
      let root := ((sortByPath files).head?.map (·.root)).getD []
      let project := newProject env uid root directory files
      if ¬ project.composeExecutable then
        match env.fingerprint project.files with
        | none => .error .invalidFact
        | some fingerprint => .ok ({ project with currentFingerprint := fingerprint }, none)
      else
        let cached := previous.lookup uid
        let project := project.withSources env cached
        match env.fingerprint project.files with
        | none => .error .invalidFact
        | some fingerprint =>
          let project := { project with currentFingerprint := fingerprint }
          let reusable := fun known : Project =>
            known.currentFingerprint = fingerprint ∧ known.composeExecutable ∧
              known.sourceGraphComplete ∧ project.sourceGraphComplete
          match cached.filter (fun known => reusable known) with
          | some known => .ok (project.reuse known, none)
          | none =>
            match (evaluate env.docker directory (composePaths files)).2 with
            | .error e =>
              .ok ({ project with
                composeExecutable := false
                capabilityReason := "Compose configuration evaluation failed" },
                some (.evaluate directory e))
            | .ok r =>
              match project.resolved env r with
              | .error e => .error e
              | .ok project => .ok (project, none)

def rescanGroups (env : Env) (previous : List (Text × Project)) :
    List (Text × List File) → Except CatalogError (List (Text × Project) × List CatalogError)
  | [] => .ok ([], [])
  | (directory, files) :: groups =>
    match rescanDirectory env previous directory files with
    | .error e => .error e
    | .ok (project, failed) =>
      match rescanGroups env previous groups with
      | .error e => .error e
      | .ok (next, errors) => .ok ((project.uid, project) :: next, failed.toList ++ errors)

def Project.markStale (project : Project) : Project :=
  { project with
    stale := true
    composeExecutable := false
    capabilityReason := "discovery scan was truncated before this project was revisited" }

def rescan (env : Env) (previous : List (Text × Project)) (groups : List (Text × List File))
    (truncated : Bool) : Except CatalogError (List (Text × Project) × List CatalogError) :=
  match rescanGroups env previous groups with
  | .error e => .error e
  | .ok (next, errors) =>
    if truncated then
      .ok (next ++ (previous.filter fun p => (next.lookup p.1).isNone).map
        fun p => (p.1, p.2.markStale), errors)
    else .ok (next, errors)

def projectFromFiles (env : Env) (previous : Project) (files : List File) :
    Except CatalogError Project :=
  if (sortByPath files).any fun f => f.root ≠ previous.root ∨ dir f.path ≠ previous.workingDir then
    .error (.refreshIdentityChanged previous.workingDir)
  else if composePaths files = [] then .error (.noComposeFiles previous.workingDir)
  else
    let project := newProject env previous.uid previous.root previous.workingDir files
    if ¬ project.composeExecutable then
      match env.fingerprint project.files with
      | none => .error .invalidFact
      | some fingerprint =>
        .ok { project with
          currentFingerprint := fingerprint
          name := previous.name
          services := previous.services
          serviceModels := previous.serviceModels
          secrets := previous.secrets
          configs := previous.configs }
    else
      let project := project.withSources env (some previous)
      match env.fingerprint project.files with
      | none => .error .invalidFact
      | some fingerprint =>
        let project := { project with currentFingerprint := fingerprint }
        if previous.currentFingerprint = fingerprint ∧ previous.composeExecutable ∧
            previous.name ≠ [] ∧ previous.sourceGraphComplete ∧ project.sourceGraphComplete then
          .ok (project.reuse previous)
        else
          match (evaluate env.docker project.workingDir project.composeFiles).2 with
          | .error e => .error (.evaluate project.workingDir e)
          | .ok r => project.resolved env r

def rescanProject (env : Env) (projects : List (Text × Project)) (uid : Text)
    (scanned : Except ScanError (List File)) : Except CatalogError (List (Text × Project)) :=
  match projects.lookup uid with
  | none => .error (.unavailable uid)
  | some previous =>
    if previous.stale then .error (.unavailable uid)
    else
      match scanned with
      | .error e => .error (.refresh uid e)
      | .ok files =>
        match projectFromFiles env previous files with
        | .error e => .error e
        | .ok project =>
          .ok (projects.map fun p => if p.1 = uid then (uid, project) else p)

/-! ## Where the identity check can fail -/

@[simp] theorem withSources_workingDir (project : Project) (env : Env) (known : Option Project) :
    (project.withSources env known).workingDir = project.workingDir := by
  unfold Project.withSources
  cases known <;> rfl

@[simp] theorem withSources_composeFiles (project : Project) (env : Env) (known : Option Project) :
    (project.withSources env known).composeFiles = project.composeFiles := by
  unfold Project.withSources
  cases known <;> rfl

theorem resolved_identityChanged {project : Project} {env : Env} {r : EvalResult} {w : Text}
    (h : project.resolved env r = .error (.identityChanged w)) :
    w = project.workingDir ∧ (r.project.workingDir ≠ project.workingDir ∨ r.project.name = [] ∨
      r.project.files ≠ project.composeFiles) := by
  unfold Project.resolved at h
  split at h
  · rename_i hc
    cases h
    exact ⟨rfl, hc⟩
  · dsimp only at h
    split at h
    · cases h
    · cases h

theorem rescanDirectory_identityChanged {env : Env} {previous : List (Text × Project)}
    {directory w : Text} {files : List File}
    (h : rescanDirectory env previous directory files = .error (.identityChanged w)) :
    w = directory ∧ ∃ r, (evaluate env.docker directory (composePaths files)).2 = .ok r ∧
      (r.project.workingDir ≠ directory ∨ r.project.name = [] ∨
        r.project.files ≠ composePaths files) := by
  unfold rescanDirectory at h
  split at h
  · cases h
  rename_i uid huid
  split at h
  · cases h
  dsimp only at h
  split at h
  · split at h
    · cases h
    · cases h
  split at h
  · cases h
  split at h
  · cases h
  split at h
  · cases h
  rename_i r hr
  split at h
  · rename_i e he
    cases h
    obtain ⟨h1, h2⟩ := resolved_identityChanged he
    simp only [withSources_workingDir, withSources_composeFiles] at h1 h2
    exact ⟨h1, r, hr, h2⟩
  · cases h

theorem projectFromFiles_identityChanged {env : Env} {previous : Project} {w : Text}
    {files : List File} (h : projectFromFiles env previous files = .error (.identityChanged w)) :
    w = previous.workingDir ∧
      ∃ r, (evaluate env.docker previous.workingDir (composePaths files)).2 = .ok r ∧
      (r.project.workingDir ≠ previous.workingDir ∨ r.project.name = [] ∨
        r.project.files ≠ composePaths files) := by
  unfold projectFromFiles at h
  split at h
  · cases h
  split at h
  · cases h
  dsimp only at h
  split at h
  · split at h
    · cases h
    · cases h
  split at h
  · cases h
  split at h
  · cases h
  split at h
  · cases h
  rename_i r hr
  obtain ⟨h1, h2⟩ := resolved_identityChanged h
  simp only [withSources_workingDir, withSources_composeFiles] at h1 h2 hr
  exact ⟨h1, r, hr, h2⟩

theorem rescanGroups_identityChanged {env : Env} {previous : List (Text × Project)} {w : Text}
    {groups : List (Text × List File)}
    (h : rescanGroups env previous groups = .error (.identityChanged w)) :
    ∃ g ∈ groups, rescanDirectory env previous g.1 g.2 = .error (.identityChanged w) := by
  induction groups with
  | nil => cases h
  | cons g groups ih =>
    obtain ⟨directory, files⟩ := g
    unfold rescanGroups at h
    split at h
    · rename_i e he
      cases h
      exact ⟨_, mem_cons_self, he⟩
    · split at h
      · rename_i e he
        cases h
        obtain ⟨g, hg, hr⟩ := ih he
        exact ⟨g, mem_cons_of_mem _ hg, hr⟩
      · cases h

/-! ## Base and override as strings -/

def sortsBaseFirst (baseName : Text) : Option Text → Bool
  | none => true
  | some overrideName => baseName < overrideName

section Project

variable {d : CleanPath} {b : Text} {o : Option Text}

structure Selected (b : Text) (o : Option Text) : Prop where
  base : b ∈ defaultComposeFileNames
  override : ∀ n, o = some n → n ∈ defaultComposeOverrideFileNames

/-- The paths of the base file and the override in the directory. -/
abbrev pathsIn (d : CleanPath) (b : Text) (o : Option Text) : List Text :=
  (b :: o.toList).map (d.stem ++ ·)

section

variable (h : Selected b o)

include h

theorem Selected.component : ∀ n ∈ b :: o.toList, Component n := by
  refine forall_mem_cons.mpr ⟨component_of_mem (mem_append_left _ h.base), fun n hn => ?_⟩
  exact component_of_mem (mem_append_right _ (h.override n (by simpa using hn)))

theorem Selected.ne : ∀ n, o = some n → b ≠ n := by
  intro n hn he
  have key : ∀ b ∈ defaultComposeFileNames, b ∉ defaultComposeOverrideFileNames := by
    decide +kernel
  exact key b h.base (he ▸ h.override n hn)

theorem Selected.validateInputs (hroot : d.components ≠ []) :
    validateInputs d.path (pathsIn d b o) = .ok (d.path, sortStrings (pathsIn d b o)) := by
  have hlen : (pathsIn d b o).length ≤ 2 := by cases o <;> simp
  have hfold : (b :: o.toList).foldl
      (fun r n => if d.stem ++ n ∈ r then r else r ++ [d.stem ++ n]) [] = pathsIn d b o := by
    cases o with
    | none => rfl
    | some n =>
      have := h.ne n rfl
      simp [this.symm]
  unfold Compose.validateInputs
  rw [if_neg, clean_path, validateFiles_child hroot h.component, hfold]
  simp only [not_or, isAbs_path, not_true, not_false_iff]
  exact ⟨d.path_ne_nil, trivial, d.nul_not_mem_path, by simp, by omega⟩

theorem Selected.sortStrings :
    sortStrings (pathsIn d b o) = pathsIn d b o ↔ sortsBaseFirst b o = true := by
  cases o with
  | none => simp [Compose.sortStrings, sortsBaseFirst]
  | some n =>
    have hb := h.component b (by simp)
    have hn := h.component n (by simp)
    have hne := h.ne n rfl
    have hlt := child_lt_child d hb hn
    rw [path_child, path_child] at hlt
    have hle : d.stem ++ b ≤ d.stem ++ n ↔ b < n := by
      rw [← hlt, List.le_iff_lt_or_eq]
      simp [hne]
    simp only [Compose.sortStrings, sortsBaseFirst, Option.toList_some, map_cons, map_nil,
      decide_eq_true_eq, ← hle]
    by_cases hc : d.stem ++ b ≤ d.stem ++ n
    · simp [hc]
    · simp [hc, hne.symm]

end

end Project

/-! ## Discovery against evaluation -/

/-- Whatever Docker Compose prints, it is run on this list in this order, and the list is what
comes back. -/
def RunsOn (workingDir : Text) (paths : List Text) : Prop :=
  ∀ docker, (evaluate docker workingDir paths).1 ≠ [] ∧
    (∀ args ∈ (evaluate docker workingDir paths).1,
      ∃ allProfiles, args = modelArgs workingDir paths allProfiles) ∧
    ∀ r, (evaluate docker workingDir paths).2 = .ok r →
      r.project.workingDir = workingDir ∧ r.project.files = paths

def KeepsIdentity (d : CleanPath) (files : List File) : Prop :=
  (∀ env previous groups truncated, (groups.map Prod.fst).Nodup → (d.path, files) ∈ groups →
    rescan env previous groups truncated ≠ .error (.identityChanged d.path)) ∧
  ∀ env projects uid, rescanProject env projects uid (.ok files) ≠ .error (.identityChanged d.path)

def bareModel : ComposeModel := ⟨text "p", [], [], []⟩

def permissiveEnv : Env where
  policy := fun _ => (true, "")
  writePolicy := fun _ => (true, "")
  uid := some
  fingerprint := fun _ => some (text "f")
  sourceGraph := fun _ _ _ facts => (facts, true)
  classifyEnv := fun _ _ _ => ([], [], true)
  docker := fun _ => .ok bareModel

section Project

variable {d : CleanPath} {b : Text} {o : Option Text} {files : List File}

section

variable (h : Selected b o)

include h

theorem Selected.runsOn_iff :
    RunsOn d.path (pathsIn d b o) ↔ d.components ≠ [] ∧ sortsBaseFirst b o = true := by
  constructor
  · intro hr
    obtain ⟨hne, hargs, -⟩ := hr fun _ => .error .outputTooLarge
    have hroot : d.components ≠ [] := by
      intro hroot
      apply hne
      simp only [evaluate, validateInputs_root hroot h.component]
    refine ⟨hroot, (h.sortStrings (d := d)).mp ?_⟩
    -- the first run is on the sorted list
    simp only [evaluate, h.validateInputs hroot, mem_singleton, forall_eq] at hargs
    obtain ⟨allProfiles, hargs⟩ := hargs
    exact modelArgs_inj (length_insertionSort _ _) hargs
  · intro hboth docker
    obtain ⟨hroot, hs⟩ := hboth
    have hv := h.validateInputs hroot
    rw [(h.sortStrings (d := d)).mpr hs] at hv
    obtain ⟨hne, hargs⟩ := evaluate_calls docker hv
    refine ⟨hne, hargs, ?_⟩
    intro r hr
    obtain ⟨hp, -⟩ := evaluate_project hr
    rw [hv, Except.ok.injEq, Prod.mk.injEq] at hp
    exact ⟨hp.1.symm, hp.2.symm⟩

theorem Selected.evaluate_kept (hc : d.components = [] ∨ sortsBaseFirst b o = true)
    {docker : Docker} {r : EvalResult}
    (hr : (evaluate docker d.path (pathsIn d b o)).2 = .ok r) :
    ¬ (r.project.workingDir ≠ d.path ∨ r.project.name = [] ∨
      r.project.files ≠ pathsIn d b o) := by
  obtain ⟨hp, hname⟩ := evaluate_project hr
  by_cases hroot : d.components = []
  · rw [validateInputs_root hroot h.component] at hp
    cases hp
  · obtain ⟨-, -, hok⟩ := (h.runsOn_iff.mpr ⟨hroot, hc.resolve_left hroot⟩) docker
    obtain ⟨hw, hf⟩ := hok r hr
    simp [hw, hf, hname]

theorem Selected.evaluate_bare (hroot : d.components ≠ []) :
    (evaluate permissiveEnv.docker d.path (pathsIn d b o)).2 =
      .ok ⟨⟨d.path, Compose.sortStrings (pathsIn d b o), text "p", []⟩, [], [], [], []⟩ := by
  have hvalid : validProject
      ⟨d.path, Compose.sortStrings (pathsIn d b o), text "p", []⟩ = true := by
    have hlen : (Compose.sortStrings (pathsIn d b o)).length = (b :: o.toList).length := by
      rw [Compose.sortStrings, length_insertionSort, length_map]
    have hle : (b :: o.toList).length ≤ 2 := by cases o <;> simp
    have hall : ∀ f ∈ Compose.sortStrings (pathsIn d b o), (isAbs f && !f.contains 0) = true := by
      intro f hf
      rw [Compose.sortStrings, mem_insertionSort, mem_map] at hf
      obtain ⟨n, hn, hf⟩ := hf
      rw [← hf, ← path_child d (h.component n hn)]
      simpa [isAbs_path] using nul_not_mem_path _
    have hne : Compose.sortStrings (pathsIn d b o) ≠ [] := by
      intro he
      rw [he] at hlen
      simp at hlen
    have hname : validProjectName (text "p") = true := by decide +kernel
    simp only [validProject, hname, isAbs_path, all_eq_true.mpr hall, hlen,
      Bool.and_true, Bool.true_and, Bool.and_eq_true, decide_eq_true_eq, Bool.not_eq_true']
    exact ⟨⟨by simpa using d.nul_not_mem_path, hne⟩, by omega⟩
  have hbare : (text "p") ≠ [] := by decide +kernel
  simp only [evaluate, h.validateInputs hroot, permissiveEnv, resolve, bareModel, hbare,
    not_true, ne_eq, or_self, if_false, sortedServiceNames, map_nil,
    show Compose.sortStrings [] = [] from rfl, serviceModels, collectEnvFiles, resourceSources,
    hvalid]

theorem Selected.resolved_bare (hs : sortsBaseFirst b o = false) (project : Project)
    (hw : project.workingDir = d.path) (hf : project.composeFiles = pathsIn d b o) (env : Env) :
    project.resolved env
      ⟨⟨d.path, Compose.sortStrings (pathsIn d b o), text "p", []⟩,
        [], [], [], []⟩ = .error (.identityChanged d.path) := by
  have hne : Compose.sortStrings (pathsIn d b o) ≠ pathsIn d b o := by
    intro he
    rw [h.sortStrings.mp he] at hs
    cases hs
  rw [Project.resolved, if_pos (.inr (.inr (hf ▸ hne))), hw]

theorem Selected.keepsIdentity_iff (hpaths : composePaths files = pathsIn d b o) :
    KeepsIdentity d files ↔ d.components = [] ∨ sortsBaseFirst b o = true := by
  constructor
  · intro hk
    by_cases hroot : d.components = []
    · exact .inl hroot
    refine .inr ?_
    by_cases hs : sortsBaseFirst b o = true
    · exact hs
    -- a first scan of the directory by a permissive Agent fails
    refine absurd ?_ (hk.1 permissiveEnv [] [(d.path, files)] false (by simp) (by simp))
    have hne : composePaths files ≠ [] := by simp [hpaths]
    have hfail : rescanDirectory permissiveEnv [] d.path files =
        .error (.identityChanged d.path) := by
      have heval := h.evaluate_bare hroot
      rw [← hpaths] at heval
      have hres : ∀ project : Project, project.workingDir = d.path →
          project.composeFiles = composePaths files → ∀ env, _ :=
        fun project hw hf => h.resolved_bare (by simpa using hs) project hw
          (hf.trans hpaths)
      rw [← hpaths] at hres
      simp only [rescanDirectory, permissiveEnv] at heval hres ⊢
      rw [if_neg hne]
      simp only [newProject, Project.withSources, lookup_nil, Option.filter_none,
        not_true, if_false, heval]
      rw [hres _ rfl rfl]
    simp only [rescan, rescanGroups, hfail]
  intro hc
  constructor
  · intro env previous groups truncated hnodup hmem he
    have hgroups : rescanGroups env previous groups = .error (.identityChanged d.path) := by
      unfold rescan at he
      split at he
      · rename_i e hr
        cases he
        exact hr
      · split at he <;> cases he
    obtain ⟨g, hg, hr⟩ := rescanGroups_identityChanged hgroups
    obtain ⟨hdir, r, hr, hbad⟩ := rescanDirectory_identityChanged hr
    -- the directory occurs once, so the failing group is the one of these files
    have hgd : g = (d.path, files) :=
      inj_on_of_nodup_map hnodup hg hmem (by simpa using hdir.symm)
    rw [hgd, hpaths] at hr hbad
    exact h.evaluate_kept hc hr hbad
  · intro env projects uid he
    unfold rescanProject at he
    split at he
    · cases he
    split at he
    · cases he
    dsimp only at he
    split at he
    · rename_i e hp
      cases he
      obtain ⟨hw, r, hr, hbad⟩ := projectFromFiles_identityChanged hp
      rw [← hw, hpaths] at hr hbad
      exact h.evaluate_kept hc hr hbad
    · cases he

end

end Project

/-- For every directory content with a base file: the evaluation runs on the catalog's list and
returns it exactly if the directory is not the root and the base name sorts before the override
name; the scans never report a changed identity exactly if the evaluation fails first (in the
root) or the names sort so. -/
theorem identity_kept_iff {root : Text} {d : CleanPath} {ignored : Text → Bool}
    {facts : Text → Option Facts} {entries : List Entry} {files : List File}
    (hscan : scanDirectory root d ignored facts entries = .ok files) (hne : files ≠ []) :
    ∃ b, baseName? d ignored entries = some b ∧
      (RunsOn d.path (composePaths files) ↔
        d.components ≠ [] ∧ sortsBaseFirst b (overrideName? d ignored entries) = true) ∧
      (KeepsIdentity d files ↔
        d.components = [] ∨ sortsBaseFirst b (overrideName? d ignored entries) = true) := by
  obtain ⟨b, hb, hpaths⟩ := composePaths_eq hscan hne
  have hsel : Selected b (overrideName? d ignored entries) :=
    ⟨(baseName?_mem hb).1, fun n hn => (overrideName?_mem hn).1⟩
  exact ⟨b, hb, hpaths ▸ hsel.runsOn_iff, hsel.keepsIdentity_iff hpaths⟩

/-! ## Two directories -/

/-- The directory `/srv`. -/
def srv : CleanPath := CleanPath.root.child (text "srv")
  ⟨by decide +kernel, by decide +kernel, by decide +kernel, by decide +kernel, by decide +kernel⟩

def regular (name : Text) (h : name ∈ composeFileNames) : Entry :=
  ⟨name, false, false, component_of_mem h⟩

def mixedNames : List Entry :=
  [regular (text "docker-compose.override.yml") (by decide +kernel),
    regular (text "compose.yaml") (by decide +kernel)]

def mixedFiles : List File :=
  [⟨srv.path, text "/srv/compose.yaml", .compose, ⟨1, []⟩⟩,
    ⟨srv.path, text "/srv/docker-compose.override.yml", .compose, ⟨1, []⟩⟩]

def usualNames : List Entry :=
  [regular (text "compose.yaml") (by decide +kernel),
    regular (text "compose.override.yaml") (by decide +kernel)]

def usualFiles : List File :=
  [⟨srv.path, text "/srv/compose.override.yaml", .compose, ⟨1, []⟩⟩,
    ⟨srv.path, text "/srv/compose.yaml", .compose, ⟨1, []⟩⟩]

theorem mixedNames_keep_identity :
    RunsOn srv.path (composePaths mixedFiles) ∧ KeepsIdentity srv mixedFiles := by
  have hscan : scanDirectory srv.path srv (fun _ => false) (fun _ => some ⟨1, []⟩) mixedNames =
      .ok mixedFiles := by decide +kernel
  obtain ⟨b, hb, hruns, hkeeps⟩ := identity_kept_iff hscan (by simp [mixedFiles])
  have hs : sortsBaseFirst b (overrideName? srv (fun _ => false) mixedNames) = true := by
    have key : (baseName? srv (fun _ => false) mixedNames).all
        (fun b => sortsBaseFirst b (overrideName? srv (fun _ => false) mixedNames)) = true := by
      decide +kernel
    simpa [hb] using key
  exact ⟨hruns.mpr ⟨by decide +kernel, hs⟩, hkeeps.mpr (.inr hs)⟩

/-- With `compose.yaml` and `compose.override.yaml` the first scan of the directory fails. -/
theorem usualNames_change_identity :
    scanDirectory srv.path srv (fun _ => false) (fun _ => some ⟨1, []⟩) usualNames =
      .ok usualFiles ∧
    composePaths usualFiles = [text "/srv/compose.yaml", text "/srv/compose.override.yaml"] ∧
    (evaluate permissiveEnv.docker srv.path (composePaths usualFiles)).2.map (·.project.files) =
      .ok [text "/srv/compose.override.yaml", text "/srv/compose.yaml"] ∧
    rescan permissiveEnv [] [(srv.path, usualFiles)] false =
      .error (.identityChanged srv.path) := by
  decide +kernel

end DockLattice.Compose
