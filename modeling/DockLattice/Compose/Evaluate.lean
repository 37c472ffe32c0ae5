import DockLattice.Compose.Discovery

/-!
# DockLattice.Compose.Evaluate

`composeconfig.Evaluate`: the inputs are validated, Docker Compose is run twice on them (with the
active profiles and with all of them), and the two printed models are combined into the identity
and the services of the project.

What Docker Compose prints is a parameter: a decoded model, or a failure, for each argument list.
The nested JSON fields appear as the outcome of their own decoding.
-/

namespace DockLattice.Compose

open Bytes DockLattice.Path List CleanPath

inductive EvalError where
  | invalidProject (detail : String)
  | outputTooLarge
  | docker (message : String)
  | dependsOn (service : Text)
  | envFile (service : Text)
  | external (kind : String) (resource : Text)
  deriving DecidableEq, Repr

structure RawServiceModel where
  image : Text
  hasBuild : Bool
  pullPolicy : Text
  profiles : List Text
  /-- `parseDependsOn`, `none` for a value it rejects. -/
  dependsOn : Option (List Text)
  /-- `parseEnvFileField`, `none` for a value it rejects. -/
  envFile : Option (List Text)
  deriving DecidableEq, Repr

structure RawResource where
  file : Text
  environment : Text
  name : Text
  /-- `externalResource`, `none` for a value it rejects. -/
  external : Option Bool
  deriving DecidableEq, Repr

structure ComposeModel where
  name : Text
  services : List (Text × RawServiceModel)
  secrets : List (Text × RawResource)
  configs : List (Text × RawResource)
  deriving DecidableEq, Repr

structure Service where
  name : Text
  image : Text
  hasBuild : Bool
  pullPolicy : Text
  profiles : List Text
  dependsOn : List Text
  active : Bool
  deriving DecidableEq, Repr

structure ExecProject where
  workingDir : Text
  files : List Text
  name : Text
  services : List Service
  deriving DecidableEq, Repr

structure ResourceSource where
  name : Text
  sourceType : String
  source : Text
  external : Bool
  deriving DecidableEq, Repr

structure EvalResult where
  project : ExecProject
  services : List Text
  envFiles : List Text
  secrets : List ResourceSource
  configs : List ResourceSource
  deriving DecidableEq, Repr

abbrev Docker := List Text → Except EvalError ComposeModel

/-! ## Inputs -/

def sortStrings (l : List Text) : List Text := l.insertionSort (· ≤ ·)

/-- The loop of `validateInputs`: clean each file, keep it inside the directory, drop repeats. -/
def validateFiles (workingDir : Text) (result : List Text) : List Text → Option (List Text)
  | [] => some result
  | file :: files =>
    if file = [] ∨ ¬ isAbs file ∨ 0 ∈ file then none
    else
      let file := clean file
      if file ≠ workingDir ∧ ¬ (workingDir ++ [slash]) <+: file then none
      else if file ∈ result then validateFiles workingDir result files
      else validateFiles workingDir (result ++ [file]) files

def validateInputs (workingDir : Text) (files : List Text) :
    Except EvalError (Text × List Text) :=
  if workingDir = [] ∨ ¬ isAbs workingDir ∨ 0 ∈ workingDir ∨ files = [] ∨ 32 < files.length then
    .error (.invalidProject "")
  else
    match validateFiles (clean workingDir) [] files with
    | none => .error (.invalidProject "")
    | some result => .ok (clean workingDir, sortStrings result)

/-- The arguments of one `docker compose config`. -/
def modelArgs (workingDir : Text) (files : List Text) (allProfiles : Bool) : List Text :=
  [text "compose", text "--progress", text "plain", text "--project-directory", workingDir] ++
    files.flatMap (fun file => [text "--file", file]) ++
    (if allProfiles then [text "--profile", text "*"] else []) ++
    [text "config", text "--format", text "json", text "--no-env-resolution"]

/-! ## The resolved model -/

def sortedServiceNames (services : List (Text × RawServiceModel)) : List Text :=
  sortStrings (services.map Prod.fst)

def serviceModels (services : List (Text × RawServiceModel)) (active : List Text) :
    List Text → Except EvalError (List Service)
  | [] => .ok []
  | name :: names =>
    match services.lookup name with
    | none => serviceModels services active names
    | some raw =>
      match raw.dependsOn with
      | none => .error (.dependsOn name)
      | some dependsOn =>
        match serviceModels services active names with
        | .error e => .error e
        | .ok models =>
          .ok (⟨name, raw.image, raw.hasBuild, raw.pullPolicy, sortStrings raw.profiles,
            sortStrings dependsOn, active.contains name⟩ :: models)

def collectEnvFiles (services : List (Text × RawServiceModel)) (result : List Text) :
    List Text → Except EvalError (List Text)
  | [] => .ok (sortStrings result)
  | name :: names =>
    match (services.lookup name).map (·.envFile) with
    | none => collectEnvFiles services result names
    | some none => .error (.envFile name)
    | some (some references) =>
      collectEnvFiles services (references.foldl (fun r x => if x ∈ r then r else r ++ [x]) result)
        names

def resourceSource (name : Text) (raw : RawResource) (external : Bool) : ResourceSource :=
  if raw.file ≠ [] then ⟨name, "file", raw.file, external⟩
  else if raw.environment ≠ [] then ⟨name, "environment", raw.environment, external⟩
  else if external then ⟨name, "external", if raw.name = [] then name else raw.name, external⟩
  else ⟨name, "", [], external⟩

def resourceSources (kind : String) (resources : List (Text × RawResource)) :
    List Text → Except EvalError (List ResourceSource)
  | [] => .ok []
  | name :: names =>
    match resources.lookup name with
    | none => resourceSources kind resources names
    | some raw =>
      match raw.external with
      | none => .error (.external kind name)
      | some external =>
        match resourceSources kind resources names with
        | .error e => .error e
        | .ok sources => .ok (resourceSource name raw external :: sources)

def isLowerAlnum (b : Byte) : Bool := (97 ≤ b && b ≤ 122) || (48 ≤ b && b ≤ 57)

/-- `projectNameRE` and the length limit of `validateProject`. -/
def validProjectName (name : Text) : Bool :=
  name.length ≤ 63 &&
    match name with
    | [] => false
    | b :: rest => isLowerAlnum b && rest.all fun c => isLowerAlnum c || c = 95 || c = 45

/-- `composeexec.BuildArgs` on a `config` specification, reduced to its verdict. -/
def validProject (project : ExecProject) : Bool :=
  isAbs project.workingDir && !project.workingDir.contains 0 && project.files ≠ [] &&
    project.files.length ≤ 32 && (project.files.all fun f => isAbs f && !f.contains 0) &&
    validProjectName project.name

def resolve (workingDir : Text) (files : List Text) (active all : ComposeModel) :
    Except EvalError EvalResult :=
  if active.name = [] ∨ all.name ≠ active.name then
    .error (.invalidProject "inconsistent Compose project name")
  else
    let services := sortedServiceNames all.services
    match serviceModels all.services (active.services.map Prod.fst) services with
    | .error e => .error e
    | .ok models =>
      match collectEnvFiles all.services [] services with
      | .error e => .error e
      | .ok envFiles =>
        match resourceSources "secret" all.secrets (sortStrings (all.secrets.map Prod.fst)) with
        | .error e => .error e
        | .ok secrets =>
          match resourceSources "config" all.configs (sortStrings (all.configs.map Prod.fst)) with
          | .error e => .error e
          | .ok configs =>
            let project : ExecProject := ⟨workingDir, files, active.name, models⟩
            if ¬ validProject project then .error (.invalidProject "resolved Compose identity")
            else .ok ⟨project, services, envFiles, secrets, configs⟩

/-- `Evaluate`, with the argument lists Docker Compose was started with. -/
def evaluate (docker : Docker) (workingDir : Text) (files : List Text) :
    List (List Text) × Except EvalError EvalResult :=
  match validateInputs workingDir files with
  | .error e => ([], .error e)
  | .ok (workingDir, files) =>
    let activeArgs := modelArgs workingDir files false
    let allArgs := modelArgs workingDir files true
    match docker activeArgs with
    | .error e => ([activeArgs], .error e)
    | .ok active =>
      match docker allArgs with
      | .error e => ([activeArgs, allArgs], .error e)
      | .ok all => ([activeArgs, allArgs], resolve workingDir files active all)

/-! ## What the evaluation runs on -/

theorem resolve_project {workingDir : Text} {files : List Text} {active all : ComposeModel}
    {r : EvalResult} (h : resolve workingDir files active all = .ok r) :
    r.project.workingDir = workingDir ∧ r.project.files = files ∧ r.project.name ≠ [] := by
  simp only [resolve] at h
  split at h
  · cases h
  rename_i hname
  simp only [not_or] at hname
  repeat' split at h
  all_goals first
    | cases h; done
    | cases h; exact ⟨rfl, rfl, hname.1⟩

theorem evaluate_project {docker : Docker} {workingDir : Text} {files : List Text}
    {r : EvalResult} (h : (evaluate docker workingDir files).2 = .ok r) :
    validateInputs workingDir files = .ok (r.project.workingDir, r.project.files) ∧
      r.project.name ≠ [] := by
  unfold evaluate at h
  split at h
  · cases h
  rename_i hv
  dsimp only at h
  split at h
  · cases h
  split at h
  · cases h
  · obtain ⟨h1, h2, h3⟩ := resolve_project h
    exact ⟨by rw [hv, h1, h2], h3⟩

theorem evaluate_calls (docker : Docker) {workingDir workingDir' : Text} {files files' : List Text}
    (h : validateInputs workingDir files = .ok (workingDir', files')) :
    (evaluate docker workingDir files).1 ≠ [] ∧
    ∀ args ∈ (evaluate docker workingDir files).1,
      ∃ allProfiles, args = modelArgs workingDir' files' allProfiles := by
  unfold evaluate
  rw [h]
  simp only
  split
  · simp only [ne_eq, cons_ne_nil, not_false_eq_true, mem_singleton, true_and]
    intro args hargs
    exact ⟨false, hargs⟩
  have hpair : ∀ args ∈ [modelArgs workingDir' files' false, modelArgs workingDir' files' true],
      ∃ allProfiles, args = modelArgs workingDir' files' allProfiles := by
    intro args hargs
    simp only [mem_cons, not_mem_nil, or_false] at hargs
    rcases hargs with hargs | hargs
    · exact ⟨false, hargs⟩
    · exact ⟨true, hargs⟩
  split
  · exact ⟨by simp, hpair⟩
  · exact ⟨by simp, hpair⟩

theorem fileArgs_inj {fs fs' : List Text}
    (h : (fs.flatMap fun f => [text "--file", f]) = fs'.flatMap fun f => [text "--file", f]) :
    fs = fs' := by
  induction fs generalizing fs' with
  | nil =>
    cases fs' with
    | nil => rfl
    | cons f' fs' => simp at h
  | cons f fs ih =>
    cases fs' with
    | nil => simp at h
    | cons f' fs' =>
      simp only [flatMap_cons, cons_append, nil_append, List.cons.injEq, true_and] at h
      rw [h.1, ih h.2]

theorem modelArgs_inj {w w' : Text} {fs fs' : List Text} {p p' : Bool}
    (hl : fs.length = fs'.length) (h : modelArgs w fs p = modelArgs w' fs' p') : fs = fs' := by
  have hlen : ∀ l : List Text, (l.flatMap fun f => [text "--file", f]).length = 2 * l.length := by
    intro l
    induction l with
    | nil => rfl
    | cons f l ih =>
      simp only [flatMap_cons, length_append, ih, length_cons, length_nil]
      omega
  simp only [modelArgs, append_assoc] at h
  exact fileArgs_inj (append_inj (append_inj h rfl).2 (by rw [hlen, hlen, hl])).1

/-! ## The inputs of a project directory -/

section Directory

variable {d : CleanPath}

theorem validateFiles_child {names : List Text} (hroot : d.components ≠ [])
    (hnames : ∀ n ∈ names, Component n) (result : List Text) :
    validateFiles d.path result (names.map (d.stem ++ ·)) =
      some (names.foldl (fun r n => if d.stem ++ n ∈ r then r else r ++ [d.stem ++ n]) result) := by
  induction names generalizing result with
  | nil => rfl
  | cons n names ih =>
    have ih := ih fun m hm => hnames m (mem_cons_of_mem _ hm)
    have hn := hnames n mem_cons_self
    have hpath := path_child d hn
    have hok : ¬ (d.stem ++ n = [] ∨ ¬ isAbs (d.stem ++ n) ∨ 0 ∈ d.stem ++ n) := by
      rw [← hpath]
      simp [isAbs_path, nul_not_mem_path, path_ne_nil]
    have hclean : clean (d.stem ++ n) = d.stem ++ n := by
      rw [← hpath, clean_path]
    have hin : (d.path ++ [slash]) <+: d.stem ++ n := by
      rw [path_append_slash hroot]
      exact prefix_append _ _
    rw [map_cons, validateFiles, if_neg hok]
    simp only [hclean]
    rw [if_neg (by simp [hin]), foldl_cons]
    split
    · exact ih _
    · exact ih _

theorem validateInputs_root {names : List Text} (hroot : d.components = [])
    (hnames : ∀ n ∈ names, Component n) :
    validateInputs d.path (names.map (d.stem ++ ·)) = .error (.invalidProject "") := by
  unfold validateInputs
  split
  · rfl
  rename_i hok
  simp only [not_or] at hok
  cases names with
  | nil => simp at hok
  | cons n names =>
    have hn := hnames n mem_cons_self
    have hpath := path_child d hn
    have hclean : clean (d.stem ++ n) = d.stem ++ n := by
      rw [← hpath, clean_path]
    have hd : d.path = [slash] := by simp [path, hroot]
    have hstem : d.stem = [slash] := by simp [stem, hroot]
    have hne : slash :: n ≠ [slash] := by simp [hn.ne_nil]
    have hpre : ¬ ([slash] ++ [slash]) <+: slash :: n := by
      intro h
      simp only [singleton_append, cons_prefix_cons, true_and] at h
      exact hn.slash_not_mem (h.subset mem_cons_self)
    rw [map_cons, validateFiles, clean_path]
    rw [hstem, singleton_append] at hclean
    simp only [hd, hstem, singleton_append, hclean]
    split
    · rename_i hn
      rfl
    rename_i hn
    split at hn
    · cases hn
    · rw [if_pos ⟨hne, by simpa using hpre⟩] at hn
      cases hn

end Directory

end DockLattice.Compose
