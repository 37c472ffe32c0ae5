import DockLattice.Compose.Observe

/-!
# DockLattice.Compose.Entry

The entry of one project, and the entry that a second scan of the same filesystem makes of it.

A published entry holds the facts of the project's sources, of the env files that the entry before
it referred to, and of those it refers to itself (`Entered.files_eq`); the next scan publishes the
same project exactly if the entry before left nothing behind (`Entered.steady_iff`).
-/

namespace DockLattice.Compose

open Bytes DockLattice.Path Keyed Project

variable {cached : Option Project} {env : Env} {failed : Option CatalogError} {fp : Text}
  {fresh project : Project}

/-! ## One directory -/

abbrev Reusable (known project : Project) (fingerprint : Text) : Prop :=
  known.currentFingerprint = fingerprint ∧ known.composeExecutable = true ∧
    known.sourceGraphComplete = true ∧ project.sourceGraphComplete = true

def Project.located (fresh : Project) (env : Env) (known : Option Project) (fingerprint : Text) :
    Project :=
  { fresh.withSources env known with currentFingerprint := fingerprint }

def Project.broken (project : Project) : Project :=
  { project with
    composeExecutable := false
    capabilityReason := "Compose configuration evaluation failed" }

/-- The four ways in which `rescan` comes to the entry of a directory. -/
inductive Scanned (env : Env) (cached : Option Project) (fresh : Project) :
    Project → Option CatalogError → Prop
  | denied {fp : Text} (hexec : fresh.composeExecutable = false)
      (hfp : env.fingerprint fresh.files = some fp) :
      Scanned env cached fresh { fresh with currentFingerprint := fp } none
  | reused {known : Project} {fp : Text} (hexec : fresh.composeExecutable = true)
      (hknown : cached = some known)
      (hfp : env.fingerprint (fresh.withSources env cached).files = some fp)
      (hreuse : Reusable known (fresh.withSources env cached) fp) :
      Scanned env cached fresh ((fresh.located env cached fp).reuse known) none
  | failed {fp : Text} {e : EvalError} (hexec : fresh.composeExecutable = true)
      (hfp : env.fingerprint (fresh.withSources env cached).files = some fp)
      (hnot : ∀ known, cached = some known → ¬ Reusable known (fresh.withSources env cached) fp)
      (heval : (evaluate env.docker fresh.workingDir fresh.composeFiles).2 = .error e) :
      Scanned env cached fresh (fresh.located env cached fp).broken
        (some (.evaluate fresh.workingDir e))
  | evaluated {fp : Text} {r : EvalResult} {project : Project}
      (hexec : fresh.composeExecutable = true)
      (hfp : env.fingerprint (fresh.withSources env cached).files = some fp)
      (hnot : ∀ known, cached = some known → ¬ Reusable known (fresh.withSources env cached) fp)
      (heval : (evaluate env.docker fresh.workingDir fresh.composeFiles).2 = .ok r)
      (hresolved : (fresh.located env cached fp).resolved env r = .ok project) :
      Scanned env cached fresh project none

def freshProject (env : Env) (uid directory : Text) (files : List File) : Project :=
  newProject env uid (((sortByPath files).head?.map (·.root)).getD []) directory files

def scanned (env : Env) (cached : Option Project) (fresh : Project) :
    Except CatalogError (Project × Option CatalogError) :=
  if ¬ fresh.composeExecutable then
    match env.fingerprint fresh.files with
    | none => .error .invalidFact
    | some fp => .ok ({ fresh with currentFingerprint := fp }, none)
  else
    match env.fingerprint (fresh.withSources env cached).files with
    | none => .error .invalidFact
    | some fp =>
      match cached.filter (fun known => Reusable known (fresh.withSources env cached) fp) with
      | some known => .ok ((fresh.located env cached fp).reuse known, none)
      | none =>
        match (evaluate env.docker fresh.workingDir fresh.composeFiles).2 with
        | .error e =>
          .ok ((fresh.located env cached fp).broken, some (.evaluate fresh.workingDir e))
        | .ok r =>
          match (fresh.located env cached fp).resolved env r with
          | .error e => .error e
          | .ok project => .ok (project, none)

theorem rescanDirectory_eq {previous : List (Text × Project)} {directory uid : Text}
    {files : List File} (huid : env.uid directory = some uid) (hpaths : composePaths files ≠ []) :
    rescanDirectory env previous directory files =
      scanned env (previous.lookup uid) (freshProject env uid directory files) := by
  unfold rescanDirectory
  rw [huid]
  dsimp only
  rw [if_neg hpaths]
  rfl

theorem scanned_ok (h : scanned env cached fresh = .ok (project, failed)) :
    Scanned env cached fresh project failed := by
  unfold scanned at h
  split at h
  · rename_i hexec
    split at h
    · cases h
    · rename_i fp hfp
      cases h
      exact .denied (by simpa using hexec) hfp
  rename_i hexec
  have hexec : fresh.composeExecutable = true := by simpa using hexec
  split at h
  · cases h
  rename_i fp hfp
  split at h
  · rename_i known hknown
    obtain ⟨hc, hr⟩ := Option.filter_eq_some_iff.mp hknown
    cases h
    exact .reused hexec hc hfp (of_decide_eq_true hr)
  rename_i hnone
  have hnot : ∀ known, cached = some known →
      ¬ Reusable known (fresh.withSources env cached) fp := by
    intro known hk hr
    rw [Option.filter_eq_none_iff] at hnone
    exact hnone known hk (decide_eq_true hr)
  split at h
  · rename_i e he
    cases h
    exact .failed hexec hfp hnot he
  · rename_i r hr
    split at h
    · cases h
    · rename_i resolved hresolved
      cases h
      exact .evaluated hexec hfp hnot hr hresolved

theorem Scanned.scanned_eq (h : Scanned env cached fresh project failed) :
    scanned env cached fresh = .ok (project, failed) := by
  have hfilter : ∀ fp, (∀ known, cached = some known →
      ¬ Reusable known (fresh.withSources env cached) fp) →
      cached.filter (fun known => Reusable known (fresh.withSources env cached) fp) = none := by
    intro fp hnot
    rw [Option.filter_eq_none_iff]
    intro known hk hr
    exact hnot known hk (of_decide_eq_true hr)
  cases h with
  | denied hexec hfp => simp [scanned, hexec, hfp]
  | @reused known fp hexec hknown hfp hreuse =>
    have hsome : cached.filter
        (fun known => Reusable known (fresh.withSources env cached) fp) = some known :=
      Option.filter_eq_some_iff.mpr ⟨hknown, decide_eq_true hreuse⟩
    simp only [scanned, hexec, hfp, not_true, if_false, hsome]
  | failed hexec hfp hnot heval =>
    simp only [scanned, hexec, hfp, not_true, if_false, hfilter _ hnot, heval]
  | evaluated hexec hfp hnot heval hresolved =>
    simp only [scanned, hexec, hfp, not_true, if_false, hfilter _ hnot, heval, hresolved]

/-! ## Where the facts of an entry come from -/

def Project.sources (fresh : Project) (env : Env) : List FileFact :=
  (env.sourceGraph fresh.root fresh.workingDir fresh.composeFiles fresh.files).1

def Project.envFacts (fresh : Project) (env : Env) : Option Project → List FileFact
  | none => []
  | some known =>
    (env.classifyEnv fresh.root fresh.workingDir (known.envFiles.map (·.path))).2.1

theorem withSources_files_some (fresh : Project) (env : Env) (known : Project) :
    (fresh.withSources env (some known)).files =
      mergeFileFacts (fresh.sources env) (fresh.envFacts env (some known)) := rfl

theorem withSources_congr {known known' : Project} (h : known.envFiles = known'.envFiles)
    (fresh : Project) (env : Env) :
    fresh.withSources env (some known) = fresh.withSources env (some known') := by
  unfold withSources
  dsimp only
  rw [h]

/-- The entry of a project that may be executed: taken over, failed, or evaluated. -/
inductive Entered (env : Env) (cached : Option Project) (fresh : Project) : Project → Prop
  | reused {known : Project} {fp : Text} (hknown : cached = some known)
      (hfp : env.fingerprint (fresh.withSources env cached).files = some fp)
      (hreuse : Reusable known (fresh.withSources env cached) fp) :
      Entered env cached fresh ((fresh.located env cached fp).reuse known)
  | failed {fp : Text} {e : EvalError}
      (hfp : env.fingerprint (fresh.withSources env cached).files = some fp)
      (heval : (evaluate env.docker fresh.workingDir fresh.composeFiles).2 = .error e) :
      Entered env cached fresh (fresh.located env cached fp).broken
  | evaluated {fp : Text} {r : EvalResult} {project : Project}
      (hfp : env.fingerprint (fresh.withSources env cached).files = some fp)
      (heval : (evaluate env.docker fresh.workingDir fresh.composeFiles).2 = .ok r)
      (hresolved : (fresh.located env cached fp).resolved env r = .ok project) :
      Entered env cached fresh project

theorem Scanned.entered (h : Scanned env cached fresh project failed)
    (hexec : fresh.composeExecutable = true) : Entered env cached fresh project := by
  cases h with
  | denied hd hfp =>
    rw [hexec] at hd
    cases hd
  | reused _ hknown hfp hreuse => exact .reused hknown hfp hreuse
  | failed _ hfp _ heval => exact .failed hfp heval
  | evaluated _ hfp _ heval hresolved => exact .evaluated hfp heval hresolved

theorem resolved_ok_iff {q : Project} {r : EvalResult} :
    project.resolved env r = .ok q ↔
      (r.project.workingDir = project.workingDir ∧ r.project.name ≠ [] ∧
        r.project.files = project.composeFiles) ∧
      ∃ fp, env.fingerprint (mergeFileFacts project.files
          (env.classifyEnv project.root project.workingDir r.envFiles).2.1) = some fp ∧
        q = { project with
          name := r.project.name
          services := r.services
          serviceModels := r.project.services
          envFiles := (env.classifyEnv project.root project.workingDir r.envFiles).1
          secrets := r.secrets
          configs := r.configs
          files := mergeFileFacts project.files
            (env.classifyEnv project.root project.workingDir r.envFiles).2.1
          sourceGraphComplete := project.sourceGraphComplete &&
            (env.classifyEnv project.root project.workingDir r.envFiles).2.2
          currentFingerprint := fp } := by
  unfold resolved
  split
  · next hid =>
    have hnot : ¬ (r.project.workingDir = project.workingDir ∧ r.project.name ≠ [] ∧
        r.project.files = project.composeFiles) := by
      intro hall
      obtain ⟨h1, h2, h3⟩ := hall
      simp [h1, h2, h3] at hid
    simp [hnot]
  · next hid =>
    simp only [not_or, not_not, ne_eq] at hid
    dsimp only
    split
    · rename_i hnone
      simp [hnone]
    · rename_i fp hfp
      simp [hfp, hid, eq_comm]

structure Fresh (fresh : Project) : Prop where
  sorted : fresh.files.Pairwise fun a b => a.path ≤ b.path
  envFiles : fresh.envFiles = []
  dir : (0 : Byte) ∉ fresh.workingDir

section Withs

variable (fresh : Project) (env : Env) (known : Option Project)

@[simp] theorem withSources_uid : (fresh.withSources env known).uid = fresh.uid := by
  cases known <;> rfl

@[simp] theorem withSources_root : (fresh.withSources env known).root = fresh.root := by
  cases known <;> rfl

@[simp] theorem withSources_name : (fresh.withSources env known).name = fresh.name := by
  cases known <;> rfl

@[simp] theorem withSources_services :
    (fresh.withSources env known).services = fresh.services := by
  cases known <;> rfl

@[simp] theorem withSources_envFiles :
    (fresh.withSources env known).envFiles = fresh.envFiles := by
  cases known <;> rfl

@[simp] theorem withSources_composeExecutable :
    (fresh.withSources env known).composeExecutable = fresh.composeExecutable := by
  cases known <;> rfl

@[simp] theorem withSources_stale : (fresh.withSources env known).stale = fresh.stale := by
  cases known <;> rfl

end Withs

/-- Facts that agree where they meet: `known` adds nothing to the sources and `own` exactly if
each of its facts is among them. -/
theorem merge_merge_eq_iff {sources known own : List FileFact}
    (hagree : ∀ f ∈ known, ∀ g ∈ known ++ own, f.path = g.path → f = g) :
    mergeFileFacts (mergeFileFacts sources known) own = mergeFileFacts sources own ↔
      ∀ f ∈ known, f ∈ mergeFileFacts sources own := by
  have hlatest : ∀ f ∈ known, latest FileFact.path known f.path = some f := by
    intro f hf
    obtain ⟨g, hg⟩ : ∃ g, latest FileFact.path known f.path = some g := latest_isSome hf
    obtain ⟨hmem, hpath⟩ := mem_of_latest hg
    rw [hg, hagree f hf g (List.mem_append_left _ hmem) hpath.symm]
  constructor
  · intro h f hf
    rw [← h, (strict_mergeFileFacts _ _).mem_iff, latest_mergeFileFacts, latest_mergeFileFacts,
      hlatest f hf]
    cases hown : latest FileFact.path own f.path with
    | none => rfl
    | some g =>
      obtain ⟨hmem, hpath⟩ := mem_of_latest hown
      rw [hagree f hf g (List.mem_append_right _ hmem) hpath.symm]
      rfl
  intro h
  refine (strict_mergeFileFacts _ _).eq_of_latest (strict_mergeFileFacts _ _) ?_
  intro path
  rw [latest_mergeFileFacts, latest_mergeFileFacts, latest_mergeFileFacts]
  cases hown : latest FileFact.path own path with
  | some g => rfl
  | none =>
    cases hknown : latest FileFact.path known path with
    | none => rfl
    | some f =>
      obtain ⟨hmem, hpath⟩ := mem_of_latest hknown
      have hf := h f hmem
      rw [(strict_mergeFileFacts _ _).mem_iff, latest_mergeFileFacts, hpath, hown] at hf
      simpa using hf.symm

theorem merge_own (sources own : List FileFact) :
    mergeFileFacts (mergeFileFacts sources own) own = mergeFileFacts sources own := by
  refine (strict_mergeFileFacts _ _).eq_of_latest (strict_mergeFileFacts _ _) ?_
  intro path
  rw [latest_mergeFileFacts, latest_mergeFileFacts]
  cases latest FileFact.path own path <;> rfl

theorem merge_nil_of_strict {facts : List FileFact} (h : Strict FileFact.path facts) :
    mergeFileFacts facts [] = facts := by
  rw [mergeFileFacts_eq, List.append_nil, canonical_of_strict h]

section Disk

variable {disk : Disk} {uidOf : Text → Option Text}

theorem envFacts_agree {known known' : Option Project} {f g : FileFact}
    (hf : f ∈ fresh.envFacts (disk.env uidOf) known)
    (hg : g ∈ fresh.envFacts (disk.env uidOf) known') (hpath : f.path = g.path) : f = g := by
  have hread : ∀ (known : Option Project) (f : FileFact),
      f ∈ fresh.envFacts (disk.env uidOf) known →
      disk.safe.digest fresh.root f.path = some f.facts := by
    intro known f hf
    cases known with
    | none => cases hf
    | some known => exact mem_classify_facts hf
  have h1 := hread known f hf
  have h2 := hread known' g hg
  rw [hpath, h2, Option.some.injEq] at h1
  cases f
  cases g
  simp_all

section

variable (hfresh : Fresh fresh)

include hfresh

theorem withSources_files
    (hfp : (disk.env uidOf).fingerprint (fresh.withSources (disk.env uidOf) cached).files = some fp) :
    (fresh.withSources (disk.env uidOf) cached).files =
      mergeFileFacts (fresh.sources (disk.env uidOf))
        (fresh.envFacts (disk.env uidOf) cached) := by
  cases cached with
  | some known => rfl
  | none =>
    exact (merge_nil_of_strict
      (strict_of_fingerprint (sourceGraphFacts_sorted hfresh.sorted) hfp)).symm

theorem envFacts_resolved {r : EvalResult}
    (h : (fresh.located (disk.env uidOf) cached fp).resolved (disk.env uidOf) r = .ok project) :
    fresh.envFacts (disk.env uidOf) (some project) =
      ((disk.env uidOf).classifyEnv fresh.root fresh.workingDir r.envFiles).2.1 := by
  obtain ⟨_, _, _, hp⟩ := resolved_ok_iff.mp h
  have hfiles : project.envFiles =
      ((disk.env uidOf).classifyEnv fresh.root fresh.workingDir r.envFiles).1 := by
    rw [hp]
    simp [located]
  rw [envFacts, hfiles]
  exact congrArg (fun c => c.2.1) (classify_resolved disk.safe fresh.root hfresh.dir r.envFiles)

theorem Entered.files_eq
    (h : Entered (disk.env uidOf) cached fresh project) :
    project.files = mergeFileFacts (mergeFileFacts (fresh.sources (disk.env uidOf))
      (fresh.envFacts (disk.env uidOf) cached))
      (fresh.envFacts (disk.env uidOf) (some project)) := by
  cases h with
  | @reused known fp hknown hfp hreuse =>
    have hown : fresh.envFacts (disk.env uidOf)
        (some ((fresh.located (disk.env uidOf) cached fp).reuse known)) =
        fresh.envFacts (disk.env uidOf) cached := by rw [hknown]; rfl
    rw [hown, merge_own]
    exact withSources_files hfresh hfp
  | @failed fp e hfp heval =>
    have hown : fresh.envFacts (disk.env uidOf)
        (some (fresh.located (disk.env uidOf) cached fp).broken) = [] := by
      have hnone : (fresh.located (disk.env uidOf) cached fp).broken.envFiles = [] := by
        simp [broken, located, hfresh.envFiles]
      simp only [envFacts, hnone, List.map_nil]
      exact congrArg (fun c => c.2.1) (classify_nil disk.safe fresh.root fresh.workingDir)
    rw [hown, merge_nil_of_strict (strict_mergeFileFacts _ _)]
    exact withSources_files hfresh hfp
  | @evaluated fp r _ hfp heval hresolved =>
    obtain ⟨_, _, _, hp⟩ := resolved_ok_iff.mp hresolved
    rw [envFacts_resolved hfresh hresolved, ← withSources_files hfresh hfp, hp]
    simp [located]

/-- The facts that a scan of the same filesystem starts from are those of the entry exactly if
each env file known before it is a source or one of its own. -/
theorem Entered.settled_iff
    (h : Entered (disk.env uidOf) cached fresh project) :
    (fresh.withSources (disk.env uidOf) (some project)).files = project.files ↔
      ∀ f ∈ fresh.envFacts (disk.env uidOf) cached,
        f ∈ mergeFileFacts (fresh.sources (disk.env uidOf))
          (fresh.envFacts (disk.env uidOf) (some project)) := by
  rw [withSources_files_some, eq_comm, h.files_eq hfresh]
  refine merge_merge_eq_iff ?_
  intro f hf g hg hpath
  rcases List.mem_append.mp hg with hg | hg
  · exact envFacts_agree hf hg hpath
  · exact envFacts_agree hf hg hpath

end

theorem Entered.fingerprint_eq (h : Entered (disk.env uidOf) cached fresh project) :
    fingerprint project.files = some project.currentFingerprint := by
  cases h with
  | reused hknown hfp hreuse | failed hfp heval => exact hfp
  | evaluated hfp heval hresolved =>
    obtain ⟨_, fp, hfp, hp⟩ := resolved_ok_iff.mp hresolved
    rw [hp]
    exact hfp

end Disk

/-! ## The second scan -/

structure Steady (p q : Project) : Prop where
  files : q.files = p.files
  currentFingerprint : q.currentFingerprint = p.currentFingerprint
  name : q.name = p.name
  services : q.services = p.services
  envFiles : q.envFiles = p.envFiles

theorem Steady.refl (p : Project) : Steady p p := ⟨rfl, rfl, rfl, rfl, rfl⟩

section Second

variable {disk : Disk} {uidOf : Text → Option Text}

theorem again_reused {known : Project} (hexec : fresh.composeExecutable = true)
    (hfp : (disk.env uidOf).fingerprint (fresh.withSources (disk.env uidOf) (some known)).files = some fp)
    (hreuse : Reusable known (fresh.withSources (disk.env uidOf) (some known)) fp)
    (hp : project = (fresh.located (disk.env uidOf) (some known) fp).reuse known) :
    (disk.env uidOf).fingerprint
      (fresh.withSources (disk.env uidOf) (some project)).files = some fp ∧
    Reusable project (fresh.withSources (disk.env uidOf) (some project)) fp := by
  have hsame : fresh.withSources (disk.env uidOf) (some project) =
      fresh.withSources (disk.env uidOf) (some known) :=
    withSources_congr (by rw [hp]; rfl) fresh _
  rw [hsame]
  refine ⟨hfp, ?_, ?_, ?_, hreuse.2.2.2⟩
  · rw [hp]
    rfl
  · rw [hp]
    simpa [reuse, located] using hexec
  · rw [hp]
    exact hreuse.2.2.2

theorem Entered.again (hfresh : Fresh fresh) (hexec : fresh.composeExecutable = true)
    (h : Entered (disk.env uidOf) cached fresh project)
    (hsettled : (fresh.withSources (disk.env uidOf) (some project)).files = project.files) :
    ∃ q failed, Scanned (disk.env uidOf) (some project) fresh q failed ∧ Steady project q := by
  have hfp' : (disk.env uidOf).fingerprint
      (fresh.withSources (disk.env uidOf) (some project)).files =
      some project.currentFingerprint := by
    rw [hsettled]
    exact h.fingerprint_eq
  -- an entry that can be taken over is
  by_cases hreuse : Reusable project (fresh.withSources (disk.env uidOf) (some project))
      project.currentFingerprint
  · exact ⟨_, none, .reused hexec rfl hfp' hreuse, ⟨hsettled, rfl, rfl, rfl, rfl⟩⟩
  have hnot : ∀ known, some project = some known → ¬ Reusable known
      (fresh.withSources (disk.env uidOf) (some project)) project.currentFingerprint := by
    intro known hk
    rw [← Option.some.inj hk]
    exact hreuse
  cases h with
  | @reused known fp hknown hfp hr =>
    subst hknown
    exact absurd (again_reused hexec hfp hr rfl).2 hreuse
  | @failed fp e hfp heval =>
    refine ⟨_, _, .failed hexec hfp' hnot heval, ⟨hsettled, rfl, ?_, ?_, ?_⟩⟩
    · simp [broken, located]
    · simp [broken, located]
    · simp [broken, located]
  | @evaluated fp r _ hfp heval hresolved =>
    obtain ⟨hid, fp', hfpr, hp⟩ := resolved_ok_iff.mp hresolved
    have hown := envFacts_resolved hfresh hresolved
    have hfiles : mergeFileFacts (fresh.withSources (disk.env uidOf) (some project)).files
        ((disk.env uidOf).classifyEnv fresh.root fresh.workingDir r.envFiles).2.1 =
        project.files := by
      rw [← hown, withSources_files_some, merge_own, ← withSources_files_some, hsettled]
    obtain ⟨q, hq, hsteady⟩ : ∃ q, (fresh.located (disk.env uidOf) (some project)
        project.currentFingerprint).resolved (disk.env uidOf) r = .ok q ∧ Steady project q := by
      refine ⟨_, resolved_ok_iff.mpr ⟨by simpa [located] using hid,
        project.currentFingerprint, ?_, rfl⟩, ⟨?_, rfl, ?_, ?_, ?_⟩⟩
      · simp only [located, withSources_root, withSources_workingDir, hfiles]
        rw [← hsettled]
        exact hfp'
      · simp only [located, withSources_root, withSources_workingDir, hfiles]
      · rw [hp]
      · rw [hp]
      · rw [hp]
        simp [located]
    exact ⟨q, none, .evaluated hexec hfp' hnot heval hq, hsteady⟩

theorem Entered.again_files (hfresh : Fresh fresh) (hexec : fresh.composeExecutable = true)
    (h : Entered (disk.env uidOf) cached fresh project) {q : Project}
    (hq : Scanned (disk.env uidOf) (some project) fresh q failed) :
    q.files = (fresh.withSources (disk.env uidOf) (some project)).files := by
  cases hq with
  | denied hd =>
    rw [hexec] at hd
    cases hd
  | reused | failed => rfl
  | @evaluated fp r _ _ hfp hnot heval hresolved =>
    obtain ⟨_, _, _, hp⟩ := resolved_ok_iff.mp hresolved
    have hfiles : q.files = mergeFileFacts
        (fresh.withSources (disk.env uidOf) (some project)).files
        ((disk.env uidOf).classifyEnv fresh.root fresh.workingDir r.envFiles).2.1 := by
      rw [hp]
      simp [located]
    -- the evaluation is the one the first entry came from
    cases h with
    | @reused known fp' hknown hfp' hreuse =>
      subst hknown
      obtain ⟨hsame, hagain⟩ := again_reused hexec hfp' hreuse rfl
      rw [hsame, Option.some.injEq] at hfp
      exact absurd (hfp ▸ hagain) (hnot _ rfl)
    | failed _ heval' =>
      rw [heval] at heval'
      cases heval'
    | evaluated _ heval' hresolved' =>
      rw [heval, Except.ok.injEq] at heval'
      subst heval'
      rw [hfiles, ← envFacts_resolved hfresh hresolved', withSources_files_some, merge_own]

/-- For an entry that may be executed: a scan of the same filesystem publishes it unchanged
exactly if each env file known before it is a source or one of its own. -/
theorem Entered.steady_iff (hfresh : Fresh fresh) (hexec : fresh.composeExecutable = true)
    (h : Entered (disk.env uidOf) cached fresh project) :
    (∃ q failed, Scanned (disk.env uidOf) (some project) fresh q failed ∧ Steady project q) ↔
      ∀ f ∈ fresh.envFacts (disk.env uidOf) cached,
        f ∈ mergeFileFacts (fresh.sources (disk.env uidOf))
          (fresh.envFacts (disk.env uidOf) (some project)) := by
  rw [← h.settled_iff hfresh]
  constructor
  · intro hall
    obtain ⟨q, failure, hq, hsteady⟩ := hall
    rw [← h.again_files hfresh hexec hq, hsteady.files]
  · exact h.again hfresh hexec

end Second

end DockLattice.Compose
