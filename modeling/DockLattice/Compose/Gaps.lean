import DockLattice.Compose.Steady

/-!
# DockLattice.Compose.Gaps

Whether a sequence of periodic scans loses a change. A scan compares with managed entries only, so a
project that one scan does not reach, or cannot evaluate, is not compared when it comes back.

`Scan.look` is what a scan finds of a project, `Look.Tells` what it can tell from that. A run reports
all changes exactly if, over every gap, the scan that ends it reads the files of the scan before it,
or the first scan in it could tell (`changes_reported_iff`).
-/

namespace DockLattice.Compose

open Bytes List Project

variable {p q : Project} {projects : List (Text × Project)} {scan : Scan} {scans : List Scan}
  {publication : Publication} {uid : Text} {env : Env} {known : Option Project} {fresh : Project}

/-! ## What a scan finds of a project -/

inductive Look where
  /-- The walk was truncated before it came to the project. -/
  | unreached
  | gone
  | read (executable : Bool) (files : List FileFact)
  deriving DecidableEq, Repr

/-- What a scan reads for a project: its Compose files alone if the policy forbids more, otherwise
their sources and the env files that the known entry refers to. If it cannot take that entry over, it
reads the env files that the evaluation names as well. -/
def Project.reading (fresh : Project) (env : Env) (known : Option Project) : Look :=
  let sourced := fresh.withSources env known
  if fresh.composeExecutable = false then .read false fresh.files
  else if known.any fun k => decide (env.fingerprint sourced.files = some k.currentFingerprint) &&
      k.composeExecutable && k.sourceGraphComplete && sourced.sourceGraphComplete then
    .read true sourced.files
  else
    match (evaluate env.docker fresh.workingDir fresh.composeFiles).2 with
    | .error _ => .read false sourced.files
    | .ok r => .read true (mergeFileFacts sourced.files
        (env.classifyEnv fresh.root fresh.workingDir r.envFiles).2.1)

def Scan.look (scan : Scan) (projects : List (Text × Project)) (uid : Text) : Look :=
  match scan.found with
  | .error _ => .unreached
  | .ok groups =>
    match groups.find? fun g => scan.env.uid g.1 = some uid with
    | none => if scan.truncated then .unreached else .gone
    | some g => (freshProject scan.env uid g.1 g.2).reading scan.env (projects.lookup uid)

/-- A complete walk in which the policy permits every project and every evaluation succeeds. -/
def Scan.Clear (scan : Scan) : Prop :=
  scan.truncated = false ∧ ∀ groups, scan.found = .ok groups → ∀ g ∈ groups,
    (scan.env.policy (((sortByPath g.2).head?.map (·.root)).getD [])).1 = true ∧
    (evaluate scan.env.docker g.1 (composePaths g.2)).2.isOk = true

/-- What was found differs from these files, as far as the scan can tell. -/
def Look.Tells (files : List FileFact) : Look → Prop
  | .unreached => False
  | .gone => True
  | .read _ found => ¬ SameHashes files found

/-- The entry that a scan leaves. -/
def Look.Leaves (truncated : Bool) (entry : Option Project) : Look → Prop
  | .unreached => truncated = true ∧ ∀ q, entry = some q → q.stale = true
  | .gone => truncated = false ∧ entry = none
  | .read executable files => ∃ q, entry = some q ∧ q.files = files ∧ q.stale = false ∧
      q.composeExecutable = executable

theorem Scanned.leaves {failed : Option CatalogError} (h : Scanned env known fresh q failed)
    (hstale : fresh.stale = false) (truncated : Bool) :
    (fresh.reading env known).Leaves truncated (some q) := by
  have hnot : ∀ fp, env.fingerprint (fresh.withSources env known).files = some fp →
      (∀ k, known = some k → ¬ Reusable k (fresh.withSources env known) fp) →
      ¬ (known.any fun k => decide (env.fingerprint (fresh.withSources env known).files =
        some k.currentFingerprint) && k.composeExecutable && k.sourceGraphComplete &&
          (fresh.withSources env known).sourceGraphComplete) = true := by
    intro fp hfp hnone hany
    obtain ⟨k, hk, hr⟩ := Option.any_eq_true _ _ |>.mp hany
    simp only [Bool.and_eq_true, decide_eq_true_eq, hfp, Option.some.injEq] at hr
    exact hnone k hk ⟨hr.1.1.1.symm, hr.1.1.2, hr.1.2, hr.2⟩
  unfold Project.reading
  cases h with
  | denied hexec hfp =>
    rw [if_pos hexec]
    exact ⟨_, rfl, rfl, hstale, hexec⟩
  | @reused k fp hexec hknown hfp hreuse =>
    rw [if_neg (by simp [hexec]), if_pos]
    · exact ⟨_, rfl, rfl, by simpa [reuse, located] using hstale,
        by simpa [reuse, located] using hexec⟩
    · obtain ⟨h1, h2, h3, h4⟩ := hreuse
      exact (Option.any_eq_true _ _).mpr ⟨k, hknown, by simp [hfp, h1, h2, h3, h4]⟩
  | failed hexec hfp hnone heval =>
    rw [if_neg (by simp [hexec]), if_neg (hnot _ hfp hnone)]
    simp only [heval]
    exact ⟨_, rfl, rfl, by simpa [broken, located] using hstale, rfl⟩
  | evaluated hexec hfp hnone heval hresolved =>
    obtain ⟨_, _, _, hq⟩ := resolved_ok_iff.mp hresolved
    rw [if_neg (by simp [hexec]), if_neg (hnot _ hfp hnone)]
    simp only [heval]
    refine ⟨_, rfl, ?_, ?_, ?_⟩
    · rw [hq]; simp [located]
    · rw [hq]; simpa [located] using hstale
    · rw [hq]; simpa [located] using hexec

theorem rescanGroups_find {previous next : List (Text × Project)} {errors : List CatalogError}
    {groups : List (Text × List File)} (h : rescanGroups env previous groups = .ok (next, errors))
    (uid : Text) :
    match groups.find? fun g => env.uid g.1 = some uid with
    | none => next.lookup uid = none
    | some g => ∃ p failed, next.lookup uid = some p ∧
        Scanned env (previous.lookup uid) (freshProject env uid g.1 g.2) p failed := by
  induction groups generalizing next errors with
  | nil =>
    cases h
    rfl
  | cons g groups ih =>
    obtain ⟨p, failed, rest, restErrors, hd, hrest, hnext⟩ := rescanGroups_cons h
    obtain ⟨huid, -, hs⟩ := rescanDirectory_ok hd
    rw [find?_cons, huid, hnext, lookup_cons]
    by_cases he : p.uid = uid
    · simp only [he, decide_true, beq_self_eq_true]
      exact ⟨p, failed, rfl, he ▸ hs⟩
    · simpa [he, beq_eq_false_iff_ne.mpr (Ne.symm he)] using ih hrest

theorem Scan.look_leaves (h : rescanForExternalChanges projects scan = some publication)
    (uid : Text) : (scan.look projects uid).Leaves scan.truncated
      (publication.projects.lookup uid) := by
  obtain ⟨groups, errors, hfound, hrescan, -⟩ := rescanForExternalChanges_some h
  obtain ⟨next, hgroups, hlookup⟩ := rescan_ok hrescan
  have hfind := rescanGroups_find hgroups uid
  unfold Scan.look
  rw [hlookup, hfound]
  dsimp only
  split at hfind
  · next hnone =>
    simp only [hfind, Option.none_or]
    by_cases ht : scan.truncated = true
    · rw [if_pos ht, if_pos ht]
      refine ⟨ht, fun q hq => ?_⟩
      obtain ⟨p, -, rfl⟩ := Option.map_eq_some_iff.mp hq
      rfl
    · rw [if_neg ht, if_neg ht]
      exact ⟨by simpa using ht, rfl⟩
  · next g hg =>
    obtain ⟨p, failed, hp, hs⟩ := hfind
    simp only [hp, Option.some_or]
    exact hs.leaves rfl _

/-- A scan reports the projects that had a managed entry and of which it can tell a change. -/
theorem Scan.reports_iff (h : rescanForExternalChanges projects scan = some publication) :
    publication.reports uid ↔ ∃ p, projects.lookup uid = some p ∧ externallyManaged p = true ∧
      (scan.look projects uid).Tells p.files := by
  obtain ⟨_, _, -, -, hchanges⟩ := rescanForExternalChanges_some h
  rw [Publication.reports, mem_changesOf hchanges]
  cases hp : projects.lookup uid with
  | none => simp [externalConfigChange, hp]
  | some p =>
    obtain ⟨found, hfound⟩ := changesOf_each hchanges (mem_uids hp)
    by_cases hmanaged : externallyManaged p = true
    swap
    · simp [externalConfigChange, hp, hmanaged]
    have hleaves := Scan.look_leaves h uid
    simp only [mem_uids hp, true_and, Option.some.injEq, exists_eq_left', hmanaged]
    cases hlook : scan.look projects uid with
    | unreached =>
      rw [hlook] at hleaves
      obtain ⟨ht, hstale⟩ := hleaves
      cases hq : publication.projects.lookup uid with
      | none => simp [externalConfigChange, hp, hmanaged, hq, ht, Look.Tells]
      | some q => simp [externalConfigChange, hp, hmanaged, hq, hstale q hq, Look.Tells]
    | gone =>
      rw [hlook] at hleaves
      simp [externalConfigChange, hp, hmanaged, hleaves.2, hleaves.1, Look.Tells]
    | read executable files =>
      rw [hlook] at hleaves
      obtain ⟨q, hq, rfl, hstale, -⟩ := hleaves
      rw [externalConfigChange_managed hp hmanaged hq hstale] at hfound ⊢
      cases hchanged : changedFiles p.files q.files with
      | none => simp [hchanged] at hfound
      | some changed =>
        rw [Look.Tells, ← changedFiles_nil_iff hchanged]
        by_cases hnil : changed = [] <;> simp [hnil]

/-! ## Runs -/

/-- A scan that published, with the catalog before it. -/
structure Round where
  projects : List (Text × Project)
  scan : Scan
  publication : Publication

def rounds (projects : List (Text × Project)) : List Scan → List Round
  | [] => []
  | scan :: scans =>
    match rescanForExternalChanges projects scan with
    | none => rounds projects scans
    | some publication => ⟨projects, scan, publication⟩ :: rounds publication.projects scans

section Runs

variable (run : List Round)

def entryAt (i : Nat) (uid : Text) : Option Project :=
  run[i]?.bind fun r => r.publication.projects.lookup uid

def lookAt (i : Nat) (uid : Text) : Option Look := run[i]?.map fun r => r.scan.look r.projects uid

/-- The observer was told about the project after publication `i` and up to publication `j`. -/
def ReportedWithin (i j : Nat) (uid : Text) : Prop :=
  ∃ k r, i < k ∧ k ≤ j ∧ run[k]? = some r ∧ r.publication.reports uid

/-- Whenever a project was published managed and is later published again, not stale, with other
files, a change was reported in between. -/
def ChangesReported : Prop :=
  ∀ i j uid p q, i < j → entryAt run i uid = some p → externallyManaged p = true →
    entryAt run j uid = some q → q.stale = false → ¬ SameHashes p.files q.files →
    ReportedWithin run i j uid

/-- Where one or more scans between two that read the project did not read it as executable: the
second reads the files of the first, or the scan right after the first could tell a change. -/
def GapsTold : Prop :=
  ∀ i j uid files executable files', i + 1 < j →
    lookAt run i uid = some (.read true files) →
    (∀ k found, i < k → k < j → lookAt run k uid ≠ some (.read true found)) →
    lookAt run j uid = some (.read executable files') →
    SameHashes files files' ∨ ∃ look, lookAt run (i + 1) uid = some look ∧ look.Tells files

variable {run}

theorem ReportedWithin.mono {i i' j j' : Nat} (h : ReportedWithin run i j uid) (hi : i' ≤ i)
    (hj : j ≤ j') : ReportedWithin run i' j' uid := by
  obtain ⟨k, c, hik, hkj, hc, hr⟩ := h
  exact ⟨k, c, by omega, by omega, hc, hr⟩

theorem exists_last_managed {i j : Nat} (hij : i < j) (hp : entryAt run i uid = some p)
    (hmanaged : externallyManaged p = true) :
    ∃ m r, i ≤ m ∧ m < j ∧ entryAt run m uid = some r ∧ externallyManaged r = true ∧
      ∀ k s, m < k → k < j → entryAt run k uid = some s → externallyManaged s = false := by
  induction j, hij using Nat.le_induction with
  | base =>
    refine ⟨i, p, le_refl i, Nat.lt_succ_self i, hp, hmanaged, ?_⟩
    intro k s hk hk'
    omega
  | succ j hij ih =>
    by_cases hj : ∃ r, entryAt run j uid = some r ∧ externallyManaged r = true
    · obtain ⟨r, hr, hm⟩ := hj
      refine ⟨j, r, by omega, Nat.lt_succ_self j, hr, hm, ?_⟩
      intro k s hk hk'
      omega
    · obtain ⟨m, r, him, hmj, hr, hm, hlast⟩ := ih
      refine ⟨m, r, him, by omega, hr, hm, ?_⟩
      intro k s hk hk' hs
      by_cases he : k = j
      · rw [he] at hs
        simpa using fun h => hj ⟨s, hs, h⟩
      · exact hlast k s hk (by omega) hs

end Runs

theorem rounds_at {i : Nat} {r : Round} (h : (rounds projects scans)[i]? = some r) :
    r.scan ∈ scans ∧ rescanForExternalChanges r.projects r.scan = some r.publication := by
  induction scans generalizing projects i with
  | nil => cases h
  | cons scan scans ih =>
    unfold rounds at h
    split at h
    · exact (ih h).imp_left (mem_cons_of_mem _)
    next publication hsome =>
    cases i with
    | zero => cases h; exact ⟨mem_cons_self, hsome⟩
    | succ i => exact (ih h).imp_left (mem_cons_of_mem _)

theorem rounds_next {i : Nat} {r s : Round} (hr : (rounds projects scans)[i]? = some r)
    (hs : (rounds projects scans)[i + 1]? = some s) : s.projects = r.publication.projects := by
  have hfirst : ∀ {projects : List (Text × Project)} {scans : List Scan} {s : Round},
      (rounds projects scans)[0]? = some s → s.projects = projects := by
    intro projects scans s hs
    induction scans with
    | nil => cases hs
    | cons scan scans ih =>
      unfold rounds at hs
      split at hs
      · exact ih hs
      · cases hs; rfl
  induction scans generalizing projects i with
  | nil => cases hr
  | cons scan scans ih =>
    unfold rounds at hr hs
    split at hr
    · next hnone =>
      rw [hnone] at hs
      exact ih hr hs
    next publication hsome =>
    rw [hsome] at hs
    cases i with
    | zero => cases hr; exact hfirst hs
    | succ i => exact ih hr hs

section Run

variable {i : Nat} {files : List FileFact}

theorem lookAt_leaves {look : Look} (h : lookAt (rounds projects scans) i uid = some look) :
    ∃ truncated, look.Leaves truncated (entryAt (rounds projects scans) i uid) := by
  obtain ⟨r, hr, rfl⟩ := Option.map_eq_some_iff.mp h
  refine ⟨r.scan.truncated, ?_⟩
  rw [entryAt, hr]
  exact Scan.look_leaves (rounds_at hr).2 uid

theorem exists_lookAt (h : entryAt (rounds projects scans) i uid = some p) :
    ∃ look, lookAt (rounds projects scans) i uid = some look := by
  obtain ⟨r, hr, -⟩ := Option.bind_eq_some_iff.mp h
  exact ⟨_, by rw [lookAt, hr]; rfl⟩

/-- A project is published not stale exactly if the scan read it. -/
theorem look_of_entry (h : entryAt (rounds projects scans) i uid = some p) (hp : p.stale = false) :
    lookAt (rounds projects scans) i uid = some (.read p.composeExecutable p.files) := by
  obtain ⟨look, hlook⟩ := exists_lookAt h
  obtain ⟨truncated, hleaves⟩ := lookAt_leaves hlook
  rw [h] at hleaves
  rw [hlook]
  cases look with
  | unreached => rw [hleaves.2 p rfl] at hp; cases hp
  | gone => cases hleaves.2
  | read executable files =>
    obtain ⟨q, hq, rfl, -, rfl⟩ := hleaves
    cases hq
    rfl

theorem entry_of_look {executable : Bool}
    (h : lookAt (rounds projects scans) i uid = some (.read executable files)) :
    ∃ p, entryAt (rounds projects scans) i uid = some p ∧ p.files = files ∧ p.stale = false ∧
      p.composeExecutable = executable := (lookAt_leaves h).elim fun _ hp => hp

theorem reported_iff (hp : entryAt (rounds projects scans) i uid = some p)
    (hmanaged : externallyManaged p = true) :
    ReportedWithin (rounds projects scans) i (i + 1) uid ↔
      ∃ look, lookAt (rounds projects scans) (i + 1) uid = some look ∧ look.Tells p.files := by
  obtain ⟨r, hr, hrp⟩ := Option.bind_eq_some_iff.mp hp
  have hiff : ∀ s, (rounds projects scans)[i + 1]? = some s →
      (s.publication.reports uid ↔ (s.scan.look s.projects uid).Tells p.files) := by
    intro s hs
    rw [Scan.reports_iff (rounds_at hs).2, rounds_next hr hs, hrp]
    simp [hmanaged]
  constructor
  · rintro ⟨k, s, hik, hki, hs, hrep⟩
    obtain rfl : k = i + 1 := by omega
    exact ⟨_, by rw [lookAt, hs]; rfl, (hiff s hs).mp hrep⟩
  · rintro ⟨look, hlook, htells⟩
    obtain ⟨s, hs, rfl⟩ := Option.map_eq_some_iff.mp hlook
    exact ⟨i + 1, s, by omega, le_refl _, hs, (hiff s hs).mpr htells⟩

theorem managed_before_report {k : Nat} {r : Round}
    (hr : (rounds projects scans)[k + 1]? = some r) (hrep : r.publication.reports uid) :
    ∃ p, entryAt (rounds projects scans) k uid = some p ∧ externallyManaged p = true := by
  obtain ⟨p, hp, hmanaged, -⟩ := (Scan.reports_iff (rounds_at hr).2).mp hrep
  have hk : k < (rounds projects scans).length := by
    have := (List.getElem?_eq_some_iff.mp hr).1
    omega
  refine ⟨p, ?_, hmanaged⟩
  rw [entryAt, getElem?_eq_getElem hk, Option.bind_some]
  rwa [rounds_next (getElem?_eq_getElem hk) hr] at hp

theorem Scan.Clear.look (hc : scan.Clear)
    (h : rescanForExternalChanges projects scan = some publication) (uid : Text) :
    scan.look projects uid = .gone ∨ ∃ files, scan.look projects uid = .read true files := by
  obtain ⟨groups, _, hfound, -, -⟩ := rescanForExternalChanges_some h
  unfold Scan.look
  rw [hfound]
  dsimp only
  split
  · exact .inl (by simp [hc.1])
  next g hg =>
  obtain ⟨hpolicy, heval⟩ := hc.2 groups hfound g (mem_of_find?_eq_some hg)
  right
  unfold Project.reading
  rw [if_neg (by simpa [freshProject, newProject] using hpolicy)]
  split
  · exact ⟨_, rfl⟩
  cases hr : (evaluate scan.env.docker (freshProject scan.env uid g.1 g.2).workingDir
      (freshProject scan.env uid g.1 g.2).composeFiles).2 with
  | ok r => exact ⟨_, rfl⟩
  | error e =>
    have hr' : (evaluate scan.env.docker g.1 (composePaths g.2)).2 = .error e := hr
    rw [hr'] at heval
    cases heval

theorem changesReported_of_gapsTold (h : GapsTold (rounds projects scans)) :
    ChangesReported (rounds projects scans) := by
  intro i j
  induction j using Nat.strongRecOn with
  | ind j ih =>
    intro uid p q hij hp hmanaged hq hstale hdiffer
    obtain ⟨m, r, him, hmj, hr, hm, hlast⟩ := exists_last_managed hij hp hmanaged
    by_cases hsame : SameHashes r.files q.files
    · -- the difference lies before the last managed publication
      have hne : i ≠ m := by
        intro he
        rw [← he, hp, Option.some.injEq] at hr
        exact hdiffer (hr ▸ hsame)
      have hdiffer' : ¬ SameHashes p.files r.files := fun hs => hdiffer (hs.trans hsame)
      exact (ih m hmj uid p r (by omega) hp hmanaged hr (not_stale_of_managed hm)
        hdiffer').mono (le_refl i) (by omega)
    have hlook := look_of_entry hr (not_stale_of_managed hm)
    rw [executable_of_managed hm] at hlook
    have hlookq := look_of_entry hq hstale
    by_cases hnext : m + 1 = j
    · subst hnext
      exact ((reported_iff hr hm).mpr ⟨_, hlookq, hsame⟩).mono him (le_refl _)
    have hgap : ∀ k found, m < k → k < j →
        lookAt (rounds projects scans) k uid ≠ some (.read true found) := by
      intro k found hmk hkj hl
      obtain ⟨s, hs, -, hst, hex⟩ := entry_of_look hl
      have := hlast k s hmk hkj hs
      simp [externallyManaged, hst, hex] at this
    rcases h m j uid r.files q.composeExecutable q.files (by omega) hlook hgap hlookq with hs | ht
    · exact absurd hs hsame
    · exact ((reported_iff hr hm).mpr ht).mono him (by omega)

/-- For every catalog and every sequence of scans: no change is lost exactly if over every gap the
project keeps its files, or the first scan of the gap could tell. Nothing is lost if every walk is
complete, the policy permits every project and every evaluation succeeds. -/
theorem changes_reported_iff (projects : List (Text × Project)) (scans : List Scan) :
    (ChangesReported (rounds projects scans) ↔ GapsTold (rounds projects scans)) ∧
      ((∀ scan ∈ scans, scan.Clear) → ChangesReported (rounds projects scans)) := by
  refine ⟨⟨fun h => ?_, changesReported_of_gapsTold⟩, fun hclear => ?_⟩
  · intro i j uid files executable files' hij hi hgap hj
    obtain ⟨p, hp, rfl, hst, hex⟩ := entry_of_look hi
    obtain ⟨q, hq, rfl, hstq, -⟩ := entry_of_look hj
    have hmanaged : externallyManaged p = true := by simp [externallyManaged, hst, hex]
    by_cases hsame : SameHashes p.files q.files
    · exact .inl hsame
    right
    obtain ⟨k, r, hik, hkj, hr, hrep⟩ := h i j uid p q (by omega) hp hmanaged hq hstq hsame
    -- only the scan right behind a managed publication reports
    obtain ⟨k, rfl⟩ : ∃ k', k = k' + 1 := ⟨k - 1, by omega⟩
    obtain ⟨s, hs, hms⟩ := managed_before_report hr hrep
    have hlook := look_of_entry hs (not_stale_of_managed hms)
    rw [executable_of_managed hms] at hlook
    obtain rfl : k = i := by
      by_contra hne
      exact hgap k s.files (by omega) (by omega) hlook
    exact (reported_iff hp hmanaged).mp ⟨_, r, by omega, le_refl _, hr, hrep⟩
  · refine changesReported_of_gapsTold fun i j uid files executable files' hij hi hgap hj => .inr ?_
    obtain ⟨s, hs⟩ : ∃ s, (rounds projects scans)[i + 1]? = some s := by
      obtain ⟨t, ht, -⟩ := Option.map_eq_some_iff.mp hj
      have := (List.getElem?_eq_some_iff.mp ht).1
      exact ⟨_, getElem?_eq_getElem (by omega)⟩
    have hat : lookAt (rounds projects scans) (i + 1) uid = some (s.scan.look s.projects uid) := by
      rw [lookAt, hs]
      rfl
    refine ⟨_, hat, ?_⟩
    rcases (hclear _ (rounds_at hs).1).look (rounds_at hs).2 uid with hgone | ⟨found, hread⟩
    · rw [hgone]
      trivial
    · exact absurd (hread ▸ hat) (hgap (i + 1) found (by omega) (by omega))

end Run

/-! ## A truncated scan -/

def srvComplete (sha256 : Text) (scannedAt : Nat) : Scan :=
  ⟨srvEnv, .ok [(srv.path, [srvFile sha256])], false, scannedAt, true⟩

theorem srvComplete_clear {sha256 : Text} (scannedAt : Nat)
    (h : (evaluate srvEnv.docker srv.path (composePaths [srvFile sha256])).2.isOk = true) :
    (srvComplete sha256 scannedAt).Clear := by
  refine ⟨rfl, fun groups hg g hmem => ?_⟩
  cases hg
  obtain rfl := mem_singleton.mp hmem
  exact ⟨rfl, h⟩

def clearRun : List Scan := [srvComplete hashA 1, srvComplete hashB 2]

theorem clearRun_reported : ChangesReported (rounds [] clearRun) :=
  (changes_reported_iff [] clearRun).2 (forall_mem_cons.mpr ⟨srvComplete_clear 1 (by decide +kernel),
    forall_mem_singleton.mpr (srvComplete_clear 2 (by decide +kernel))⟩)

def truncatedRun : List Scan :=
  [srvComplete hashA 1, ⟨srvEnv, .ok [], true, 2, true⟩, srvComplete hashB 3]

/-- The project is managed with the first contents, then stale, then managed with the second, and
the observer is told nothing. -/
theorem truncatedRun_loses_change : ¬ ChangesReported (rounds [] truncatedRun) := by
  have hfacts : ((entryAt (rounds [] truncatedRun) 0 srv.path).any fun p =>
        externallyManaged p && hashAt p.files (text "/srv/compose.yaml") = some hashA) = true ∧
      ((entryAt (rounds [] truncatedRun) 2 srv.path).any fun q =>
        !q.stale && hashAt q.files (text "/srv/compose.yaml") = some hashB) = true ∧
      ((rounds [] truncatedRun).all fun r => r.publication.reported = []) = true := by
    decide +kernel
  obtain ⟨hfirst, hlast, hsilent⟩ := hfacts
  rw [Option.any_eq_true] at hfirst hlast
  obtain ⟨p, hp, hpa⟩ := hfirst
  obtain ⟨q, hq, hqb⟩ := hlast
  simp only [Bool.and_eq_true, Bool.not_eq_true', decide_eq_true_eq] at hpa hqb
  have hdiffer : ¬ SameHashes p.files q.files := by
    intro hs
    have hpath := hs (text "/srv/compose.yaml")
    rw [hpa.2, hqb.2] at hpath
    exact absurd hpath (by decide +kernel)
  intro h
  obtain ⟨k, r, -, -, hr, hrep⟩ := h 0 2 srv.path p q (by omega) hp hpa.1 hq hqb.1 hdiffer
  have hempty := all_eq_true.mp hsilent r (mem_of_getElem? hr)
  rw [decide_eq_true_eq] at hempty
  simp [Publication.reports, hempty] at hrep

end DockLattice.Compose
