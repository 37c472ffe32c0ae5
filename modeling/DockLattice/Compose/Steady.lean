import DockLattice.Compose.Entry

/-!
# DockLattice.Compose.Steady

Rescanning an unchanged filesystem: two full scans (`unchanged_full`), and a targeted refresh with
the full scan after it (`unchanged_refreshed`), from any `Reachable` catalog. The second scan repeats an
executable project exactly if no env file was read only because an earlier entry referred to it.
-/

namespace DockLattice.Compose

open Bytes DockLattice.Path Keyed Assoc List Project

variable {all next projects : List (Text × Project)} {cached : Option Project} {env : Env}
  {errors : List CatalogError} {failure : Option CatalogError} {files : List File}
  {fresh p : Project} {g : Text × List File} {truncated : Bool} {uid : Text}

/-! ## Whole scans -/

theorem freshProject_fresh (env : Env) {directory : Text} (hdir : (0 : Byte) ∉ directory) :
    Fresh (freshProject env uid directory files) := by
  refine ⟨?_, rfl, hdir⟩
  have htotal : Std.Total fun a b : File => a.path ≤ b.path := ⟨fun a b => Std.le_total⟩
  have htrans : IsTrans File fun a b => a.path ≤ b.path := ⟨fun a b c => Std.le_trans⟩
  exact pairwise_map.mpr (pairwise_insertionSort _ _)

section Groups

variable {previous : List (Text × Project)} {groups : List (Text × List File)}

theorem rescanGroups_cons (h : rescanGroups env previous (g :: groups) = .ok (next, errors)) :
    ∃ project failed rest restErrors, rescanDirectory env previous g.1 g.2 = .ok (project, failed) ∧
      rescanGroups env previous groups = .ok (rest, restErrors) ∧
      next = (project.uid, project) :: rest := by
  obtain ⟨directory, files⟩ := g
  unfold rescanGroups at h
  split at h
  · cases h
  rename_i project failed hd
  split at h
  · cases h
  · rename_i rest restErrors hrest
    cases h
    exact ⟨project, failed, rest, restErrors, hd, hrest, rfl⟩

theorem rescanGroups_mem (h : rescanGroups env previous groups = .ok (next, errors))
    (hg : g ∈ groups) :
    ∃ project failed, rescanDirectory env previous g.1 g.2 = .ok (project, failed) ∧
      (project.uid, project) ∈ next := by
  induction groups generalizing next errors with
  | nil => cases hg
  | cons g' groups ih =>
    obtain ⟨project, failed, rest, restErrors, hd, hrest, hnext⟩ := rescanGroups_cons h
    rcases mem_cons.mp hg with he | hmem
    · exact ⟨project, failed, he ▸ hd, by simp [hnext]⟩
    · obtain ⟨p, f, hp, hpm⟩ := ih hrest hmem
      exact ⟨p, f, hp, by simp [hnext, hpm]⟩

theorem rescanGroups_exists (h : ∀ g ∈ groups, ∃ project failed,
    rescanDirectory env previous g.1 g.2 = .ok (project, failed)) :
    ∃ next errors, rescanGroups env previous groups = .ok (next, errors) := by
  induction groups with
  | nil => exact ⟨[], [], rfl⟩
  | cons g groups ih =>
    obtain ⟨directory, files⟩ := g
    obtain ⟨project, failed, hd⟩ := h _ mem_cons_self
    obtain ⟨next, errors, hr⟩ := ih fun g hg => h g (mem_cons_of_mem _ hg)
    refine ⟨(project.uid, project) :: next, failed.toList ++ errors, ?_⟩
    simp only [rescanGroups, hd, hr]

theorem Scanned.uid_eq {project : Project} {failed : Option CatalogError}
    (h : Scanned env cached fresh project failed) :
    project.uid = fresh.uid ∧ project.workingDir = fresh.workingDir ∧
      project.stale = fresh.stale := by
  cases h with
  | denied => exact ⟨rfl, rfl, rfl⟩
  | reused => simp [reuse, located]
  | failed => simp [broken, located]
  | evaluated _ _ _ _ hresolved =>
    obtain ⟨_, _, _, hp⟩ := resolved_ok_iff.mp hresolved
    simp [hp, located]

theorem rescanDirectory_ok {directory : Text} {project : Project} {failed : Option CatalogError}
    (h : rescanDirectory env previous directory files = .ok (project, failed)) :
    env.uid directory = some project.uid ∧ composePaths files ≠ [] ∧
      Scanned env (previous.lookup project.uid)
        (freshProject env project.uid directory files) project failed := by
  cases huid : env.uid directory with
  | none => simp [rescanDirectory, huid] at h
  | some uid =>
    by_cases hpaths : composePaths files = []
    · simp [rescanDirectory, huid, hpaths] at h
    rw [rescanDirectory_eq huid hpaths] at h
    have hs := scanned_ok h
    have hu : project.uid = uid := hs.uid_eq.1
    rw [hu]
    exact ⟨rfl, hpaths, hs⟩

/-- The directories a scanner finds: paths without a zero byte, with UIDs of their own. -/
structure Found (uidOf : Text → Option Text) (groups : List (Text × List File)) : Prop where
  distinct : (groups.map fun g => uidOf g.1).Nodup
  dir : ∀ g ∈ groups, (0 : Byte) ∉ g.1

section

variable (h : rescanGroups env previous groups = .ok (next, errors))

include h

theorem rescanGroups_keys : (next.map Prod.fst).map some = groups.map fun g => env.uid g.1 := by
  induction groups generalizing next errors with
  | nil =>
    cases h
    rfl
  | cons g groups ih =>
    obtain ⟨project, failed, rest, restErrors, hd, hrest, hnext⟩ := rescanGroups_cons h
    rw [hnext, map_cons, map_cons, map_cons, ih hrest, (rescanDirectory_ok hd).1]

theorem rescanGroups_lookup (hfound : Found env.uid groups) (hg : g ∈ groups) :
    ∃ project failed, rescanDirectory env previous g.1 g.2 = .ok (project, failed) ∧
      next.lookup project.uid = some project := by
  have hkeys : (next.map Prod.fst).Nodup := by
    have hn : ((next.map Prod.fst).map some).Nodup := by
      rw [rescanGroups_keys h]
      exact hfound.distinct
    exact hn.of_map
  obtain ⟨project, failed, hd, hmem⟩ := rescanGroups_mem h hg
  exact ⟨project, failed, hd, (lookup_eq_some_iff hkeys).mpr hmem⟩

theorem rescanGroups_lookup_none (hnot : ∀ g ∈ groups, env.uid g.1 ≠ some uid) :
    next.lookup uid = none := by
  rw [lookup_eq_none_iff]
  intro p hp
  have hmem : some p.1 ∈ groups.map fun g => env.uid g.1 := by
    rw [← rescanGroups_keys h]
    exact mem_map_of_mem (mem_map_of_mem hp)
  obtain ⟨g, hg, he⟩ := mem_map.mp hmem
  have hne : uid ≠ p.1 := fun hu => hnot g hg (hu ▸ he)
  simpa using hne

end

theorem rescan_exists (truncated : Bool)
    (h : rescanGroups env previous groups = .ok (next, errors)) :
    ∃ all, rescan env previous groups truncated = .ok (all, errors) := by
  unfold rescan
  rw [h]
  dsimp only
  split
  · exact ⟨_, rfl⟩
  · exact ⟨_, rfl⟩

section

variable (h : rescan env previous groups truncated = .ok (all, errors))

include h

theorem rescan_ok :
    ∃ next, rescanGroups env previous groups = .ok (next, errors) ∧ ∀ uid, all.lookup uid =
      (next.lookup uid).or
        (if truncated then (previous.lookup uid).map markStale else none) := by
  unfold rescan at h
  split at h
  · cases h
  rename_i next errs hgroups
  split at h
  · rename_i htrunc
    cases h
    refine ⟨next, hgroups, ?_⟩
    intro uid
    rw [List.lookup_append, htrunc]
    cases hn : next.lookup uid with
    | some p => rfl
    | none =>
      exact lookup_filter_map previous (fun uid => (next.lookup uid).isNone)
        markStale (by simp [hn])
  · rename_i htrunc
    cases h
    refine ⟨all, hgroups, ?_⟩
    intro uid
    simp [htrunc]

theorem rescan_uid
    (hg : g ∈ groups) : ∃ uid, env.uid g.1 = some uid := by
  obtain ⟨next, hgroups, -⟩ := rescan_ok h
  obtain ⟨p, failed, hd, -⟩ := rescanGroups_mem hgroups hg
  exact ⟨p.uid, (rescanDirectory_ok hd).1⟩

theorem rescan_entry
    (hfound : Found env.uid groups) (hg : g ∈ groups) (huid : env.uid g.1 = some uid) :
    ∃ p failed, composePaths g.2 ≠ [] ∧
      Scanned env (previous.lookup uid) (freshProject env uid g.1 g.2) p failed ∧
      all.lookup uid = some p := by
  obtain ⟨next, hgroups, hlookup⟩ := rescan_ok h
  obtain ⟨p, failed, hd, hp⟩ := rescanGroups_lookup hgroups hfound hg
  obtain ⟨huid', hpaths, hs⟩ := rescanDirectory_ok hd
  obtain rfl : uid = p.uid := Option.some.inj (huid.symm.trans huid')
  refine ⟨p, failed, hpaths, hs, ?_⟩
  rw [hlookup, hp]
  rfl

theorem rescan_kept
    (hnot : ∀ g ∈ groups, env.uid g.1 ≠ some uid) :
    all.lookup uid =
      if truncated then (previous.lookup uid).map markStale else none := by
  obtain ⟨next, hgroups, hlookup⟩ := rescan_ok h
  rw [hlookup, rescanGroups_lookup_none hgroups hnot]
  rfl

/-- An entry comes from the scan of its directory, or was kept by a truncated scan. -/
theorem rescan_cases
    (hfound : Found env.uid groups) (hp : all.lookup uid = some p) :
    (∃ g ∈ groups, env.uid g.1 = some uid ∧ ∃ failed,
      Scanned env (previous.lookup uid) (freshProject env uid g.1 g.2) p failed) ∨
    (∀ g ∈ groups, env.uid g.1 ≠ some uid) ∧ truncated = true ∧
      ∃ p₀, previous.lookup uid = some p₀ ∧ p₀.markStale = p := by
  by_cases hg : ∃ g ∈ groups, env.uid g.1 = some uid
  · obtain ⟨g, hg, huid⟩ := hg
    obtain ⟨p', failed, -, hs, hp'⟩ := rescan_entry h hfound hg huid
    obtain rfl : p = p' := Option.some.inj (hp.symm.trans hp')
    exact .inl ⟨g, hg, huid, failed, hs⟩
  · have hnot : ∀ g ∈ groups, env.uid g.1 ≠ some uid := fun g hmem he => hg ⟨g, hmem, he⟩
    have hkept := rescan_kept h hnot
    rw [hp] at hkept
    cases truncated with
    | false => cases hkept
    | true => exact .inr ⟨hnot, rfl, Option.map_eq_some_iff.mp hkept.symm⟩

end

end Groups

/-! ## Two full scans -/

/-- Each env file that `known` refers to is a source, or `own` refers to it too. -/
def Settled (env : Env) (fresh : Project) (known own : Option Project) : Prop :=
  ∀ f ∈ fresh.envFacts env known, f ∈ mergeFileFacts (fresh.sources env) (fresh.envFacts env own)

instance (env : Env) (fresh : Project) (known own : Option Project) :
    Decidable (Settled env fresh known own) := inferInstanceAs (Decidable (∀ f ∈ _, _))

def Unchanged (env : Env) (groups : List (Text × List File)) (truncated : Bool)
    (scannedAt : Nat) (first : List (Text × Project)) : Prop :=
  ∃ next errors, rescan env first groups truncated = .ok (next, errors) ∧
    (∀ uid p, first.lookup uid = some p → ∃ q, next.lookup uid = some q ∧ Steady p q) ∧
    externalConfigChanges first next truncated scannedAt = .ok []

section Full

variable {disk : Disk} {uidOf : Text → Option Text} {previous first : List (Text × Project)}
  {groups : List (Text × List File)}

theorem scanned_again (hfresh : Fresh fresh)
    (hs : Scanned (disk.env uidOf) cached fresh p failure)
    (hsettled : fresh.composeExecutable = true → Settled (disk.env uidOf) fresh cached (some p)) :
    ∃ q failure', Scanned (disk.env uidOf) (some p) fresh q failure' ∧ Steady p q := by
  by_cases hexec : fresh.composeExecutable = true
  · exact ((hs.entered hexec).steady_iff hfresh hexec).mpr (hsettled hexec)
  cases hs with
  | denied hd hfp => exact ⟨_, none, .denied hd hfp, .refl _⟩
  | reused he | failed he | evaluated he => exact absurd he hexec

theorem Scanned.fingerprint_eq (hs : Scanned (disk.env uidOf) cached fresh p failure) :
    fingerprint p.files = some p.currentFingerprint := by
  cases hs with
  | denied hd hfp => exact hfp
  | reused _ hknown hfp hreuse => exact (Entered.reused hknown hfp hreuse).fingerprint_eq
  | failed _ hfp _ heval => exact (Entered.failed hfp heval).fingerprint_eq
  | evaluated _ hfp _ heval hr => exact (Entered.evaluated hfp heval hr).fingerprint_eq

/-- After any catalog: a second full scan of the same filesystem changes nothing exactly if every
executable project of the first is settled. -/
theorem unchanged_full (hfound : Found uidOf groups)
    (h : rescan (disk.env uidOf) previous groups truncated = .ok (first, errors))
    (scannedAt : Nat) :
    Unchanged (disk.env uidOf) groups truncated scannedAt first ↔
      ∀ g ∈ groups, ∀ uid p, uidOf g.1 = some uid → first.lookup uid = some p →
        (freshProject (disk.env uidOf) uid g.1 g.2).composeExecutable = true →
        Settled (disk.env uidOf) (freshProject (disk.env uidOf) uid g.1 g.2)
          (previous.lookup uid) (some p) := by
  constructor
  · intro hall g hg uid p huid hp hexec
    obtain ⟨next, nextErrors, hnext, hsteady, _⟩ := hall
    have hfresh : Fresh (freshProject (disk.env uidOf) uid g.1 g.2) :=
      freshProject_fresh _ (hfound.dir g hg)
    obtain ⟨p', failed, -, hs, hp'⟩ := rescan_entry h hfound hg huid
    obtain rfl : p = p' := Option.some.inj (hp.symm.trans hp')
    obtain ⟨q, failed', -, hs', hq⟩ := rescan_entry hnext hfound hg huid
    rw [hp] at hs'
    obtain ⟨q', hq', hst⟩ := hsteady uid p hp
    obtain rfl : q = q' := Option.some.inj (hq.symm.trans hq')
    exact ((hs.entered hexec).steady_iff hfresh hexec).mp ⟨q, failed', hs', hst⟩
  intro hsettled
  have hagain : ∀ g ∈ groups, ∀ uid, uidOf g.1 = some uid → ∃ p q failed',
      first.lookup uid = some p ∧
      rescanDirectory (disk.env uidOf) first g.1 g.2 = .ok (q, failed') ∧ Steady p q := by
    intro g hg uid huid
    obtain ⟨p, failed, hpaths, hs, hp⟩ := rescan_entry h hfound hg huid
    obtain ⟨q, failed', hq, hst⟩ := scanned_again (freshProject_fresh _ (hfound.dir g hg)) hs
      (hsettled g hg uid p huid hp)
    refine ⟨p, q, failed', hp, ?_, hst⟩
    rw [rescanDirectory_eq huid hpaths, hp]
    exact hq.scanned_eq
  obtain ⟨entries, nextErrors, hentries⟩ := rescanGroups_exists fun g hg => by
    obtain ⟨uid, huid⟩ := rescan_uid h hg
    obtain ⟨p, q, failed', -, hd, -⟩ := hagain g hg uid huid
    exact ⟨q, failed', hd⟩
  obtain ⟨next, hnext⟩ := rescan_exists truncated hentries
  have hentry : ∀ uid p, first.lookup uid = some p → ∃ q, next.lookup uid = some q ∧
      Steady p q ∧ (externallyManaged p = true →
        fingerprint p.files = some p.currentFingerprint) := by
    intro uid p hp
    rcases rescan_cases h hfound hp with ⟨g, hg, huid, failed, hs⟩ | ⟨hnot, rfl, p₀, -, he⟩
    · obtain ⟨p', q, failed', hp', hd, hst⟩ := hagain g hg uid huid
      obtain rfl : p = p' := Option.some.inj (hp.symm.trans hp')
      obtain ⟨q', failed'', hpaths, hs', hq'⟩ := rescan_entry hnext hfound hg huid
      rw [rescanDirectory_eq huid hpaths, hs'.scanned_eq, Except.ok.injEq, Prod.mk.injEq] at hd
      exact ⟨q, hd.1 ▸ hq', hst, fun _ => hs.fingerprint_eq⟩
    · have hkept := rescan_kept hnext hnot
      rw [hp] at hkept
      refine ⟨p.markStale, hkept, ⟨rfl, rfl, rfl, rfl, rfl⟩, ?_⟩
      intro hmanaged
      have hstale := not_stale_of_managed hmanaged
      rw [← he] at hstale
      cases hstale
  refine ⟨next, nextErrors, hnext, ?_, ?_⟩
  · intro uid p hp
    obtain ⟨q, hq, hst, -⟩ := hentry uid p hp
    exact ⟨q, hq, hst⟩
  · refine changesOf_nil ?_
    intro uid _
    cases hp : first.lookup uid with
    | none => simp [externalConfigChange, hp]
    | some p =>
      obtain ⟨q, hq, hst, hfp⟩ := hentry uid p hp
      exact externalConfigChange_same hp hq hst.files hfp

end Full

/-! ## A targeted refresh -/

def Project.keeping (fresh previous : Project) (fingerprint : Text) : Project :=
  { fresh with
    currentFingerprint := fingerprint
    name := previous.name
    services := previous.services
    serviceModels := previous.serviceModels
    secrets := previous.secrets
    configs := previous.configs }

/-- What a refresh of the entry `previous` starts from. -/
abbrev Project.anew (previous : Project) (env : Env) (files : List File) : Project :=
  freshProject env previous.uid previous.workingDir files

section Refreshes

variable {previous : Project}

theorem projectFromFiles_ok (h : projectFromFiles env previous files = .ok p) :
    composePaths files ≠ [] ∧
    ((previous.anew env files).composeExecutable = true ∧
      Entered env (some previous) (previous.anew env files) p ∨
    (previous.anew env files).composeExecutable = false ∧
      ∃ fp, env.fingerprint (previous.anew env files).files = some fp ∧
        p = (previous.anew env files).keeping previous fp) := by
  unfold projectFromFiles at h
  split at h
  · cases h
  rename_i hidentity
  split at h
  · cases h
  rename_i hpaths
  refine ⟨hpaths, ?_⟩
  -- every file has the root of the entry, so the first one has it
  have hfresh : previous.anew env files =
      newProject env previous.uid previous.root previous.workingDir files := by
    unfold anew freshProject
    congr 1
    cases hs : sortByPath files with
    | nil =>
      refine absurd ?_ hpaths
      rw [composePaths, hs]
      rfl
    | cons f fs =>
      rw [hs, any_cons, Bool.or_eq_true, not_or] at hidentity
      have hroot := hidentity.1
      simp only [decide_eq_true_eq, not_or, ne_eq, not_not] at hroot
      exact hroot.1
  rw [hfresh]
  dsimp only at h
  split at h
  · rename_i hexec
    split at h
    · cases h
    · rename_i fp hfp
      cases h
      exact .inr ⟨by simpa using hexec, fp, hfp, rfl⟩
  rename_i hexec
  refine .inl ⟨by simpa using hexec, ?_⟩
  split at h
  · cases h
  rename_i fp hfp
  split at h
  · rename_i hreuse
    cases h
    exact .reused rfl hfp ⟨hreuse.1, hreuse.2.1, hreuse.2.2.2.1, hreuse.2.2.2.2⟩
  · split at h
    · cases h
    · rename_i r hr
      simp only [withSources_workingDir, withSources_composeFiles] at hr
      exact .evaluated hfp hr h

theorem Entered.uid_eq (h : Entered env cached fresh p) :
    p.uid = fresh.uid ∧ p.workingDir = fresh.workingDir := by
  cases h with
  | reused => simp [reuse, located]
  | failed => simp [broken, located]
  | evaluated _ _ hresolved =>
    obtain ⟨_, _, _, hp⟩ := resolved_ok_iff.mp hresolved
    simp [hp, located]

theorem projectFromFiles_uid (h : projectFromFiles env previous files = .ok p) :
    p.uid = previous.uid ∧ p.workingDir = previous.workingDir := by
  obtain ⟨-, ⟨-, hentered⟩ | ⟨-, fp, -, hp⟩⟩ := projectFromFiles_ok h
  · exact hentered.uid_eq
  · rw [hp]
    exact ⟨rfl, rfl⟩

end Refreshes

theorem rescanProject_ok {scanned : Except ScanError (List File)}
    (h : rescanProject env projects uid scanned = .ok next) :
    ∃ previous files p, projects.lookup uid = some previous ∧ previous.stale = false ∧
      scanned = .ok files ∧ projectFromFiles env previous files = .ok p ∧
      ∀ u, next.lookup u = if u = uid then some p else projects.lookup u := by
  unfold rescanProject at h
  split at h
  · cases h
  rename_i previous hprevious
  split at h
  · cases h
  rename_i hstale
  split at h
  · cases h
  rename_i files
  split at h
  · cases h
  rename_i p hp
  cases h
  refine ⟨previous, files, p, hprevious, by simpa using hstale, rfl, hp, ?_⟩
  exact lookup_replace hprevious p

section Targeted

variable {disk : Disk} {uidOf : Text → Option Text} {groups : List (Text × List File)}

/-- What a targeted refresh must have found for the next full scan to repeat it. -/
def RefreshSettled (env : Env) (previous p : Project) (files : List File) : Prop :=
  if (freshProject env previous.uid previous.workingDir files).composeExecutable then
    Settled env (freshProject env previous.uid previous.workingDir files) (some previous) (some p)
  else previous.name = [] ∧ previous.services = []

theorem projectFromFiles_fingerprint {previous : Project}
    (h : projectFromFiles (disk.env uidOf) previous files = .ok p) :
    fingerprint p.files = some p.currentFingerprint := by
  obtain ⟨-, ⟨-, hentered⟩ | ⟨-, fp, hfp, he⟩⟩ := projectFromFiles_ok h
  · exact hentered.fingerprint_eq
  · rw [he]
    exact hfp

theorem steady_refreshed {previous q : Project} (hdir : (0 : Byte) ∉ previous.workingDir)
    (h : projectFromFiles (disk.env uidOf) previous files = .ok p)
    (hq : Scanned (disk.env uidOf) (some p) (previous.anew (disk.env uidOf) files) q failure) :
    Steady p q ↔ RefreshSettled (disk.env uidOf) previous p files := by
  have hfresh : Fresh (previous.anew (disk.env uidOf) files) := freshProject_fresh _ hdir
  unfold RefreshSettled
  obtain ⟨-, ⟨hexec, hentered⟩ | ⟨hexec, fp, hfp, hp⟩⟩ := projectFromFiles_ok h
  · rw [if_pos hexec]
    unfold Settled
    rw [← hentered.steady_iff hfresh hexec]
    constructor
    · intro hst
      exact ⟨q, failure, hq, hst⟩
    · intro hall
      obtain ⟨q', failure', hq', hst⟩ := hall
      have hsame := hq.scanned_eq
      rw [hq'.scanned_eq, Except.ok.injEq, Prod.mk.injEq] at hsame
      exact hsame.1 ▸ hst
  rw [if_neg (by simp [hexec])]
  cases hq with
  | @denied fp' _ hfp' =>
    rw [hfp, Option.some.injEq] at hfp'
    subst hfp'
    rw [hp]
    constructor
    · intro hst
      exact ⟨hst.name.symm, hst.services.symm⟩
    · intro hall
      obtain ⟨hname, hservices⟩ := hall
      exact ⟨rfl, rfl, hname.symm, hservices.symm, rfl⟩
  | reused he | failed he | evaluated he => rw [hexec] at he; cases he

/-- The catalogs that full scans and refreshes lead to, on filesystems that change in between. -/
inductive Reachable (uidOf : Text → Option Text) : List (Text × Project) → Prop
  | empty : Reachable uidOf []
  | scan {disk : Disk} {projects next : List (Text × Project)} {groups : List (Text × List File)}
      {truncated : Bool} {errors : List CatalogError} (h : Reachable uidOf projects)
      (hfound : Found uidOf groups)
      (hscan : rescan (disk.env uidOf) projects groups truncated = .ok (next, errors)) :
      Reachable uidOf next
  | refresh {disk : Disk} {projects next : List (Text × Project)} {uid : Text}
      {scanned : Except ScanError (List File)} (h : Reachable uidOf projects)
      (hrefresh : rescanProject (disk.env uidOf) projects uid scanned = .ok next) :
      Reachable uidOf next

structure KeyedBy (uidOf : Text → Option Text) (key : Text) (p : Project) : Prop where
  uid : p.uid = key
  directory : uidOf p.workingDir = some key
  dir : (0 : Byte) ∉ p.workingDir

theorem Reachable.entry (h : Reachable uidOf projects) (hp : projects.lookup uid = some p) :
    KeyedBy uidOf uid p ∧ fingerprint p.files = some p.currentFingerprint := by
  induction h generalizing uid p with
  | empty => cases hp
  | @scan disk projects next groups truncated errors _ hfound hscan ih =>
    rcases rescan_cases hscan hfound hp with ⟨g, hg, huid, failed, hs⟩ | ⟨-, -, p₀, hp₀, rfl⟩
    · obtain ⟨h1, h2, -⟩ := hs.uid_eq
      exact ⟨⟨h1, by rw [h2]; exact huid, by rw [h2]; exact hfound.dir g hg⟩, hs.fingerprint_eq⟩
    · obtain ⟨⟨h1, h2, h3⟩, hfp⟩ := ih hp₀
      exact ⟨⟨h1, h2, h3⟩, hfp⟩
  | @refresh disk projects next uid' scanned _ hrefresh ih =>
    obtain ⟨previous, files, p', hprevious, -, -, hfrom, hlookup⟩ := rescanProject_ok hrefresh
    rw [hlookup] at hp
    split at hp
    · rename_i he
      obtain rfl : p' = p := Option.some.inj hp
      obtain ⟨⟨h1, h2, h3⟩, -⟩ := ih hprevious
      have hsame := projectFromFiles_uid hfrom
      rw [he]
      exact ⟨⟨hsame.1.trans h1, by rw [hsame.2]; exact h2, by rw [hsame.2]; exact h3⟩,
        projectFromFiles_fingerprint hfrom⟩
    · exact ih hp

/-- After a refresh of one project on the same filesystem: the full scan repeats its entry and
reports no change for it exactly if the refresh is settled. -/
theorem unchanged_refreshed {first : List (Text × Project)} (hreach : Reachable uidOf projects)
    (hfound : Found uidOf groups) {previous : Project}
    (h : rescanProject (disk.env uidOf) projects uid (.ok files) = .ok first)
    (hprevious : projects.lookup uid = some previous) (hp : first.lookup uid = some p)
    (hg : (previous.workingDir, files) ∈ groups)
    (hnext : rescan (disk.env uidOf) first groups truncated = .ok (next, errors))
    (scannedAt : Nat) :
    ((∃ q, next.lookup uid = some q ∧ Steady p q) ∧
      externalConfigChange first next truncated scannedAt uid = .ok none) ↔
      RefreshSettled (disk.env uidOf) previous p files := by
  obtain ⟨⟨hkey, huid, hdir⟩, -⟩ := hreach.entry hprevious
  obtain ⟨previous', files', p', hprevious', -, hfiles, hfrom, hlookup⟩ := rescanProject_ok h
  obtain rfl : previous = previous' := Option.some.inj (hprevious.symm.trans hprevious')
  obtain rfl : files = files' := Except.ok.inj hfiles
  have hp' := hlookup uid
  rw [if_pos rfl, hp, Option.some.injEq] at hp'
  subst hp'
  obtain ⟨q, failed, -, hs, hq⟩ := rescan_entry hnext hfound hg huid
  rw [hp, ← hkey] at hs
  rw [← steady_refreshed hdir hfrom hs]
  constructor
  · intro hall
    obtain ⟨⟨q', hq', hst⟩, _⟩ := hall
    obtain rfl : q = q' := Option.some.inj (hq.symm.trans hq')
    exact hst
  · intro hst
    exact ⟨⟨q, hq, hst⟩,
      externalConfigChange_same hp hq hst.files fun _ => projectFromFiles_fingerprint hfrom⟩

end Targeted

/-- For every reachable catalog and every filesystem, two scans in a row: two full scans publish
the same projects and report nothing exactly if every executable project of the first is settled;
after a targeted refresh the full scan repeats the project exactly if the refresh is. -/
theorem rescan_unchanged_iff {uidOf : Text → Option Text} {projects : List (Text × Project)}
    (hreach : Reachable uidOf projects) {groups : List (Text × List File)}
    (hfound : Found uidOf groups) (disk : Disk) (truncated : Bool) (scannedAt : Nat) :
    (∀ first errors, rescan (disk.env uidOf) projects groups truncated = .ok (first, errors) →
      (Unchanged (disk.env uidOf) groups truncated scannedAt first ↔
        ∀ g ∈ groups, ∀ uid p, uidOf g.1 = some uid → first.lookup uid = some p →
          (freshProject (disk.env uidOf) uid g.1 g.2).composeExecutable = true →
          Settled (disk.env uidOf) (freshProject (disk.env uidOf) uid g.1 g.2)
            (projects.lookup uid) (some p))) ∧
    ∀ uid files first previous p next errors,
      rescanProject (disk.env uidOf) projects uid (.ok files) = .ok first →
      projects.lookup uid = some previous → first.lookup uid = some p →
      (previous.workingDir, files) ∈ groups →
      rescan (disk.env uidOf) first groups truncated = .ok (next, errors) →
      (((∃ q, next.lookup uid = some q ∧ Steady p q) ∧
        externalConfigChange first next truncated scannedAt uid = .ok none) ↔
        RefreshSettled (disk.env uidOf) previous p files) := by
  constructor
  · intro first errors h
    exact unchanged_full hfound h scannedAt
  · intro uid files first previous p next errors h hprevious hp hg hnext
    exact unchanged_refreshed hreach hfound h hprevious hp hg hnext scannedAt

/-! ## A reference that is dropped -/

/-- A filesystem with `/srv/old.env`, where Docker Compose prints this model. -/
def srvDisk (model : ComposeModel) : Disk where
  policy := fun _ => (true, "")
  writePolicy := fun _ => (true, "")
  sourceGraph := none
  safe :=
    { openRoot := fun _ _ => true
      digestReadOnly := fun _ path => if path = text "old.env" then some ⟨1, hashA⟩ else none }
  docker := fun _ => .ok model

/-- A model with a service that reads `old.env`. -/
def referringModel : ComposeModel :=
  ⟨text "p", [(text "web", ⟨text "web:1", false, [], [], some [], some [text "/srv/old.env"]⟩)],
    [], []⟩

def srvGroups (sha256 : Text) : List (Text × List File) := [(srv.path, [srvFile sha256])]

theorem srvGroups_found (sha256 : Text) : Found some (srvGroups sha256) := by
  refine ⟨by simp [srvGroups], ?_⟩
  intro g hg
  rw [mem_singleton.mp hg]
  exact srv.nul_not_mem_path

def srvScan (model : ComposeModel) (sha256 : Text) (projects : List (Text × Project)) :
    List (Text × Project) :=
  match rescan ((srvDisk model).env some) projects (srvGroups sha256) false with
  | .error _ => []
  | .ok (next, _) => next

def srvScans (model : ComposeModel) (sha256 : Text) (projects : List (Text × Project)) : Bool :=
  (rescan ((srvDisk model).env some) projects (srvGroups sha256) false).isOk

theorem rescan_srvScan {model : ComposeModel} {sha256 : Text} {projects : List (Text × Project)}
    (h : srvScans model sha256 projects = true) :
    ∃ errors, rescan ((srvDisk model).env some) projects (srvGroups sha256) false =
      .ok (srvScan model sha256 projects, errors) := by
  unfold srvScans at h
  unfold srvScan
  split
  · next hr => rw [hr] at h; cases h
  · next hr => exact ⟨_, hr⟩

/-- The Compose file changed and the reference to `old.env` stayed: two scans after that agree. -/
theorem srvScan_repeats :
    ∃ projects first errors, Reachable some projects ∧
      (projects.lookup srv.path).any (fun p => p.envFiles.length == 1) ∧
      rescan ((srvDisk referringModel).env some) projects (srvGroups hashB) false =
        .ok (first, errors) ∧
      Unchanged ((srvDisk referringModel).env some) (srvGroups hashB) false 3 first := by
  let env := (srvDisk referringModel).env some
  let known := srvScan referringModel hashA []
  have hfacts : srvScans referringModel hashA [] = true ∧
      srvScans referringModel hashB known = true ∧
      (known.lookup srv.path).any (fun p => p.envFiles.length == 1) = true ∧
      Settled env (freshProject env srv.path srv.path [srvFile hashB]) (known.lookup srv.path)
        ((srvScan referringModel hashB known).lookup srv.path) := by decide +kernel
  obtain ⟨hok0, hok1, hrefers, hsettled⟩ := hfacts
  obtain ⟨_, h0⟩ := rescan_srvScan hok0
  obtain ⟨_, h1⟩ := rescan_srvScan hok1
  have hreach := Reachable.scan .empty (srvGroups_found hashA) h0
  refine ⟨_, _, _, hreach, hrefers, h1, ?_⟩
  refine ((rescan_unchanged_iff hreach (srvGroups_found hashB) (srvDisk referringModel) false
    3).1 _ _ h1).mpr ?_
  intro g hg uid p huid hp _
  rw [mem_singleton.mp hg, Option.some.injEq] at huid
  subst huid
  rw [mem_singleton.mp hg, ← hp]
  exact hsettled

/-- The service dropped its reference together with a change of the Compose file: the first scan
after that still holds the fact of `old.env`, the second does not. -/
theorem dropped_reference_changes :
    ∃ projects first errors, Reachable some projects ∧
      rescan ((srvDisk bareModel).env some) projects (srvGroups hashB) false =
        .ok (first, errors) ∧
      ¬ Unchanged ((srvDisk bareModel).env some) (srvGroups hashB) false 3 first := by
  let known := srvScan referringModel hashA []
  let first := srvScan bareModel hashB known
  have hfacts : srvScans referringModel hashA [] = true ∧ srvScans bareModel hashB known = true ∧
      srvScans bareModel hashB first = true ∧ (first.lookup srv.path).isSome = true ∧
      ((srvScan bareModel hashB first).lookup srv.path).map (·.files) ≠
        (first.lookup srv.path).map (·.files) := by decide +kernel
  obtain ⟨hok0, hok1, hok2, hsome, hdiffer⟩ := hfacts
  obtain ⟨_, h0⟩ := rescan_srvScan hok0
  obtain ⟨_, h1⟩ := rescan_srvScan hok1
  obtain ⟨_, h2⟩ := rescan_srvScan hok2
  refine ⟨_, _, _, .scan .empty (srvGroups_found hashA) h0, h1, ?_⟩
  intro hall
  obtain ⟨next, errors, hnext, hsteady, _⟩ := hall
  rw [h2, Except.ok.injEq, Prod.mk.injEq] at hnext
  obtain ⟨p, hp⟩ := Option.isSome_iff_exists.mp hsome
  obtain ⟨q, hq, hst⟩ := hsteady srv.path p hp
  rw [← hnext.1] at hq
  rw [hp, hq, Option.map_some, Option.map_some, hst.files] at hdiffer
  exact hdiffer rfl

end DockLattice.Compose
