import DockLattice.Compose.Steady

/-!
# DockLattice.Compose.OwnWrites

Periodic scans next to the Agent's own writes. A managed write replaces files and then refreshes the
catalog entry, under the lock of the project and not that of the scanner: a scan can come at any
time, and the refresh can fail. The scans report nothing if each waits until the entries of the
projects that a replacement touched are made anew (`own_writes_silent`).
-/

namespace DockLattice.Compose

open Bytes DockLattice.Path Keyed Assoc

structure Site where
  disk : Disk
  found : List (Text × List File)
  projects : List (Text × Project)

inductive Event where
  /-- The Agent replaces files: afterwards the filesystem is this one. -/
  | replace (disk : Disk) (found : List (Text × List File))
  /-- `RescanProject` after the replacement; its scan can fail. -/
  | refresh (uid : Text) (failure : Option ScanError)
  /-- A periodic scan; a truncated one visits some of the directories. -/
  | scan (truncated : Bool) (visited : Text → Bool) (scannedAt : Nat) (recorded : Bool)

section Site

variable (uidOf : Text → Option Text)

def Site.groups (site : Site) (truncated : Bool) (visited : Text → Bool) :
    List (Text × List File) :=
  if truncated then site.found.filter fun g => visited g.1 else site.found

def Site.scanProject (site : Site) (uid : Text) (failure : Option ScanError) :
    Except ScanError (List File) :=
  match failure with
  | some e => .error e
  | none =>
    .ok (((site.projects.lookup uid).bind fun p => site.found.lookup p.workingDir).getD [])

def Site.step (site : Site) : Event → Site
  | .replace disk found => { site with disk := disk, found := found }
  | .refresh uid failure =>
    match rescanProject (site.disk.env uidOf) site.projects uid (site.scanProject uid failure) with
    | .error _ => site
    | .ok projects => { site with projects := projects }
  | .scan truncated visited scannedAt recorded =>
    match rescanForExternalChanges site.projects
        ⟨site.disk.env uidOf, .ok (site.groups truncated visited), truncated, scannedAt,
          recorded⟩ with
    | none => site
    | some publication => { site with projects := publication.projects }

def Site.told (site : Site) : Event → List ExternalConfigChange
  | .scan truncated visited scannedAt _ =>
    match rescan (site.disk.env uidOf) site.projects (site.groups truncated visited) truncated with
    | .error _ => []
    | .ok (next, _) =>
      match externalConfigChanges site.projects next truncated scannedAt with
      | .error _ => []
      | .ok changes => changes
  | _ => []

def Silent (site : Site) : List Event → Prop
  | [] => True
  | event :: events => site.told uidOf event = [] ∧ Silent (site.step uidOf event) events

/-- Two filesystems answer alike for a project: its sources, its env files and its evaluation. -/
structure Env.Agree (env env' : Env) (fresh : Project) : Prop where
  sourceGraph : env'.sourceGraph fresh.root fresh.workingDir fresh.composeFiles fresh.files =
    env.sourceGraph fresh.root fresh.workingDir fresh.composeFiles fresh.files
  classifyEnv : env'.classifyEnv fresh.root fresh.workingDir =
    env.classifyEnv fresh.root fresh.workingDir
  evaluation : (evaluate env'.docker fresh.workingDir fresh.composeFiles).2 =
    (evaluate env.docker fresh.workingDir fresh.composeFiles).2

/-- The replacement leaves alone what is read for the project. -/
def Site.Untouched (site : Site) (disk : Disk) (found : List (Text × List File)) (uid : Text) :
    Prop :=
  ∀ g ∈ site.found, uidOf g.1 = some uid → g ∈ found ∧
    freshProject (disk.env uidOf) uid g.1 g.2 = freshProject (site.disk.env uidOf) uid g.1 g.2 ∧
    (site.disk.env uidOf).Agree (disk.env uidOf) (freshProject (site.disk.env uidOf) uid g.1 g.2)

/-- No env file is read for the new entry of the project only because the old one refers to it. -/
def Site.Settles (site : Site) (event : Event) (uid : Text) : Prop :=
  ∀ g ∈ site.found, uidOf g.1 = some uid →
    Settled (site.disk.env uidOf) (freshProject (site.disk.env uidOf) uid g.1 g.2)
      (site.projects.lookup uid) ((site.step uidOf event).projects.lookup uid)

/-- The projects whose entries are made from the files as they are, after the event: a replacement
takes out those it touches; a refresh that succeeds puts its project in, and a scan those it finds. -/
def Site.current (site : Site) (current : Text → Prop) : Event → Text → Prop
  | .replace disk found, uid => current uid ∧ site.Untouched uidOf disk found uid
  | .refresh refreshed failure, uid =>
    match rescanProject (site.disk.env uidOf) site.projects refreshed
        (site.scanProject refreshed failure) with
    | .error _ => current uid
    | .ok _ =>
      if uid = refreshed then site.Settles uidOf (.refresh refreshed failure) uid else current uid
  | .scan truncated visited scannedAt recorded, uid =>
    match rescanForExternalChanges site.projects
        ⟨site.disk.env uidOf, .ok (site.groups truncated visited), truncated, scannedAt,
          recorded⟩ with
    | none => current uid
    | some _ => (∃ g ∈ site.groups truncated visited, uidOf g.1 = some uid) ∧
        site.Settles uidOf (.scan truncated visited scannedAt recorded) uid

/-- A scan comes when each managed project is current, or is cut short before it gets there. -/
def Site.Waits (site : Site) (current : Text → Prop) : Event → Prop
  | .scan truncated visited _ _ =>
    ∀ uid p, site.projects.lookup uid = some p → externallyManaged p = true → current uid ∨
      truncated = true ∧ ∀ g ∈ site.groups truncated visited, uidOf g.1 ≠ some uid
  | _ => True

def InOrder (current : Text → Prop) (site : Site) : List Event → Prop
  | [] => True
  | event :: events => site.Waits uidOf current event ∧
      InOrder (site.current uidOf current event) (site.step uidOf event) events

def Event.Proper : Event → Prop
  | .replace _ found => Found uidOf found
  | _ => True

end Site

section Runs

variable {uidOf : Text → Option Text} {site : Site}

theorem Found.groups (h : Found uidOf site.found) (truncated : Bool) (visited : Text → Bool) :
    Found uidOf (site.groups truncated visited) := by
  unfold Site.groups
  split
  · refine ⟨?_, ?_⟩
    · exact h.distinct.sublist (List.filter_sublist.map _)
    · intro g hg
      exact h.dir g (List.mem_of_mem_filter hg)
  · exact h

theorem Site.groups_subset (site : Site) {truncated : Bool} {visited : Text → Bool}
    {g : Text × List File} (hg : g ∈ site.groups truncated visited) : g ∈ site.found := by
  unfold Site.groups at hg
  split at hg
  · exact List.mem_of_mem_filter hg
  · exact hg

theorem Found.unique {groups : List (Text × List File)} (h : Found uidOf groups)
    {g g' : Text × List File} (hg : g ∈ groups) (hg' : g' ∈ groups) (he : uidOf g.1 = uidOf g'.1) :
    g = g' := List.inj_on_of_nodup_map h.distinct hg hg' he

structure Site.Kept (uidOf : Text → Option Text) (site : Site) : Prop where
  found : Found uidOf site.found
  reachable : Reachable uidOf site.projects

theorem Site.Kept.step (h : site.Kept uidOf) {event : Event} (hevent : event.Proper uidOf) :
    (site.step uidOf event).Kept uidOf := by
  cases event with
  | replace disk found => exact ⟨hevent, h.reachable⟩
  | refresh uid failure =>
    dsimp only [Site.step]
    split
    · exact h
    · rename_i projects hr
      exact ⟨h.found, .refresh h.reachable hr⟩
  | scan truncated visited scannedAt recorded =>
    dsimp only [Site.step]
    split
    · exact h
    rename_i publication hp
    obtain ⟨groups, errors, hg, hr, -⟩ := rescanForExternalChanges_some hp
    cases hg
    exact ⟨h.found, .scan h.reachable (h.found.groups truncated visited) hr⟩

/-! ## Entries made from the files as they are -/

section Made

variable {disk disk' : Disk} {cached : Option Project} {fresh p : Project} {uid : Text}
  {current : Text → Prop}

theorem Env.Agree.withSources {env env' : Env} (ha : env.Agree env' fresh)
    (known : Option Project) : fresh.withSources env' known = fresh.withSources env known := by
  unfold Project.withSources
  rw [ha.sourceGraph, ha.classifyEnv]

theorem Entered.agree (ha : (disk.env uidOf).Agree (disk'.env uidOf) fresh)
    (h : Entered (disk.env uidOf) cached fresh p) : Entered (disk'.env uidOf) cached fresh p := by
  have hsources := ha.withSources
  have hlocated : ∀ fp, fresh.located (disk'.env uidOf) cached fp =
      fresh.located (disk.env uidOf) cached fp := fun fp => by
    rw [Project.located, Project.located, hsources]
  cases h with
  | reused hknown hfp hreuse =>
    rw [← hlocated]
    rw [← hsources] at hfp hreuse
    exact .reused hknown hfp hreuse
  | failed hfp heval =>
    rw [← hlocated]
    rw [← hsources] at hfp
    exact .failed hfp (ha.evaluation.trans heval)
  | @evaluated fp r _ hfp heval hresolved =>
    rw [← hsources] at hfp
    refine .evaluated hfp (ha.evaluation.trans heval) ?_
    rw [hlocated]
    have hroot : (fresh.located (disk.env uidOf) cached fp).root = fresh.root := by
      simp [Project.located]
    have hdir : (fresh.located (disk.env uidOf) cached fp).workingDir = fresh.workingDir := by
      simp [Project.located]
    unfold Project.resolved at hresolved ⊢
    rw [hroot, hdir, ha.classifyEnv]
    rw [hroot, hdir] at hresolved
    exact hresolved

/-- The entry was made from the files as they are, and a scan starts from just its facts. -/
def Site.Made (uidOf : Text → Option Text) (site : Site) (uid : Text) (p : Project) : Prop :=
  ∃ g ∈ site.found, uidOf g.1 = some uid ∧
    (freshProject (site.disk.env uidOf) uid g.1 g.2).composeExecutable = true ∧
    ((freshProject (site.disk.env uidOf) uid g.1 g.2).withSources (site.disk.env uidOf)
      (some p)).files = p.files ∧
    ∃ cached, Entered (site.disk.env uidOf) cached
      (freshProject (site.disk.env uidOf) uid g.1 g.2) p

def Site.AllMade (uidOf : Text → Option Text) (site : Site) (current : Text → Prop) : Prop :=
  ∀ uid p, current uid → site.projects.lookup uid = some p → externallyManaged p = true →
    site.Made uidOf uid p

theorem Scanned.executable {env : Env} {failure : Option CatalogError}
    (h : Scanned env cached fresh p failure) (hp : p.composeExecutable = true) :
    fresh.composeExecutable = true := by
  cases h with
  | denied => exact hp
  | reused hexec | failed hexec | evaluated hexec => exact hexec

theorem Site.AllMade.replace (h : site.AllMade uidOf current) (disk : Disk)
    (found : List (Text × List File)) :
    (site.step uidOf (.replace disk found)).AllMade uidOf
      (site.current uidOf current (.replace disk found)) := by
  rintro uid p ⟨hc, huntouched⟩ hp hmanaged
  obtain ⟨g, hg, huid, hexec, hfiles, cached, hentered⟩ := h uid p hc hp hmanaged
  obtain ⟨hg', hfresh, hagree⟩ := huntouched g hg huid
  refine ⟨g, hg', huid, ?_, ?_, cached, ?_⟩
  · exact (congrArg Project.composeExecutable hfresh).trans hexec
  · show ((freshProject (disk.env uidOf) uid g.1 g.2).withSources (disk.env uidOf) _).files = _
    rw [hfresh, hagree.withSources]
    exact hfiles
  · show Entered (disk.env uidOf) cached (freshProject (disk.env uidOf) uid g.1 g.2) p
    rw [hfresh]
    exact hentered.agree hagree

theorem Site.AllMade.refresh (h : site.AllMade uidOf current) (hkept : site.Kept uidOf)
    (refreshed : Text) (failure : Option ScanError) :
    (site.step uidOf (.refresh refreshed failure)).AllMade uidOf
      (site.current uidOf current (.refresh refreshed failure)) := by
  intro uid p hc hp hmanaged
  cases hr : rescanProject (site.disk.env uidOf) site.projects refreshed
      (site.scanProject refreshed failure) with
  | error e =>
    simp only [Site.current, Site.step, hr] at hc hp ⊢
    exact h uid p hc hp hmanaged
  | ok next =>
    obtain ⟨previous, files, q, hprevious, -, hscanned, hfrom, hlookup⟩ := rescanProject_ok hr
    have hstep : site.step uidOf (.refresh refreshed failure) = { site with projects := next } := by
      simp only [Site.step, hr]
    simp only [Site.current, hr] at hc
    rw [hstep] at hp ⊢
    have hp' : next.lookup uid = some p := hp
    rw [hlookup] at hp'
    by_cases he : uid = refreshed
    swap
    · rw [if_neg he] at hc hp'
      exact h uid p hc hp' hmanaged
    subst he
    rw [if_pos rfl] at hc hp'
    obtain rfl := Option.some.inj hp'
    obtain ⟨⟨hkey, huid, hdir⟩, -⟩ := hkept.reachable.entry hprevious
    obtain ⟨hpaths, ⟨hexec, hentered⟩ | ⟨hexec, fp, -, hq⟩⟩ := projectFromFiles_ok hfrom
    swap
    · -- the policy refused, and a refused entry is not managed
      rw [hq] at hmanaged
      have := executable_of_managed hmanaged
      simp [Project.keeping, hexec] at this
    -- a project without files would have been refused
    have hg : (previous.workingDir, files) ∈ site.found := by
      cases failure with
      | some e => cases hscanned
      | none =>
        simp only [Site.scanProject, hprevious, Option.bind_some, Except.ok.injEq] at hscanned
        cases hl : site.found.lookup previous.workingDir with
        | none =>
          rw [hl] at hscanned
          rw [← hscanned] at hpaths
          exact absurd rfl hpaths
        | some files' =>
          rw [hl] at hscanned
          obtain rfl : files' = files := hscanned
          obtain ⟨l, r, heq, -⟩ := List.lookup_eq_some_iff.mp hl
          rw [heq]
          simp
    have hsettled := hc _ hg huid
    rw [hprevious, hstep, show ({ site with projects := next } : Site).projects.lookup uid =
      some q from hp, ← hkey] at hsettled
    have hfresh : Fresh (previous.anew (site.disk.env uidOf) files) := freshProject_fresh _ hdir
    refine ⟨_, hg, huid, ?_⟩
    rw [← hkey]
    exact ⟨hexec, (hentered.settled_iff hfresh).mpr hsettled, _, hentered⟩

theorem Site.AllMade.scan (h : site.AllMade uidOf current) (hkept : site.Kept uidOf)
    (truncated : Bool) (visited : Text → Bool) (scannedAt : Nat) (recorded : Bool) :
    (site.step uidOf (.scan truncated visited scannedAt recorded)).AllMade uidOf
      (site.current uidOf current (.scan truncated visited scannedAt recorded)) := by
  intro uid p hc hp hmanaged
  cases hr : rescanForExternalChanges site.projects ⟨site.disk.env uidOf,
      .ok (site.groups truncated visited), truncated, scannedAt, recorded⟩ with
  | none =>
    simp only [Site.current, Site.step, hr] at hc hp ⊢
    exact h uid p hc hp hmanaged
  | some publication =>
    have hstep : site.step uidOf (.scan truncated visited scannedAt recorded) =
        { site with projects := publication.projects } := by simp only [Site.step, hr]
    simp only [Site.current, hr] at hc
    obtain ⟨⟨g, hg, huid⟩, hsettles⟩ := hc
    obtain ⟨_, errors, hgroups, hrescan, -⟩ := rescanForExternalChanges_some hr
    cases hgroups
    obtain ⟨q, failure, -, hs, hq⟩ :=
      rescan_entry hrescan (hkept.found.groups truncated visited) hg huid
    have hin := site.groups_subset hg
    have hsettled := hsettles g hin huid
    rw [hstep] at hp hsettled ⊢
    obtain rfl : q = p := Option.some.inj (hq.symm.trans hp)
    have hexec := hs.executable (executable_of_managed hmanaged)
    have hfresh : Fresh (freshProject (site.disk.env uidOf) uid g.1 g.2) :=
      freshProject_fresh _ (hkept.found.dir g hin)
    rw [show ({ site with projects := publication.projects } : Site).projects.lookup uid =
      some q from hq] at hsettled
    exact ⟨g, hin, huid, hexec, ((hs.entered hexec).settled_iff hfresh).mpr hsettled, _,
      hs.entered hexec⟩

end Made

/-! ## Silence -/

theorem Site.AllMade.told_nil {current : Text → Prop} (h : site.AllMade uidOf current)
    (hkept : site.Kept uidOf) {event : Event} (hwaits : site.Waits uidOf current event) :
    site.told uidOf event = [] := by
  cases event with
  | replace | refresh => rfl
  | scan truncated visited scannedAt recorded =>
    have hfound := hkept.found.groups truncated visited
    dsimp only [Site.told]
    cases hr : rescan (site.disk.env uidOf) site.projects (site.groups truncated visited)
        truncated with
    | error e => rfl
    | ok result =>
      obtain ⟨next, errors⟩ := result
      have hnil : externalConfigChanges site.projects next truncated scannedAt = .ok [] := by
        refine changesOf_nil fun uid _ => ?_
        cases hp : site.projects.lookup uid with
        | none => simp [externalConfigChange, hp]
        | some p =>
          by_cases hmanaged : externallyManaged p = true
          swap
          · simp [externalConfigChange, hp, hmanaged]
          have hfp := (hkept.reachable.entry hp).2
          by_cases hvisited : ∃ g ∈ site.groups truncated visited, uidOf g.1 = some uid
          swap
          · -- the walk did not come to the project
            have hnot : ∀ g ∈ site.groups truncated visited, uidOf g.1 ≠ some uid :=
              fun g hg he => hvisited ⟨g, hg, he⟩
            have htrunc : truncated = true := by
              rcases hwaits uid p hp hmanaged with hc | ht
              · obtain ⟨g, hg, huid, -⟩ := h uid p hc hp hmanaged
                cases truncated with
                | true => rfl
                | false => exact absurd ⟨g, hg, huid⟩ hvisited
              · exact ht.1
            have hq := rescan_kept hr hnot
            rw [htrunc, if_pos rfl, hp] at hq
            exact externalConfigChange_same hp hq rfl fun _ => hfp
          obtain ⟨g, hg, huid⟩ := hvisited
          have hc : current uid := by
            rcases hwaits uid p hp hmanaged with hc | ⟨-, hnot⟩
            · exact hc
            · exact absurd huid (hnot g hg)
          obtain ⟨g', hg', huid', hexec, hfiles, cached, hentered⟩ := h uid p hc hp hmanaged
          obtain rfl := hkept.found.unique hg' (site.groups_subset hg) (huid'.trans huid.symm)
          obtain ⟨q, failure, -, hs, hq⟩ := rescan_entry hr hfound hg huid
          rw [hp] at hs
          have hfresh : Fresh (freshProject (site.disk.env uidOf) uid g'.1 g'.2) :=
            freshProject_fresh _ (hkept.found.dir g' hg')
          exact externalConfigChange_same hp hq
            ((hentered.again_files hfresh hexec hs).trans hfiles) fun _ => hfp
      simp only [hnil]

theorem InOrder.silent {current : Text → Prop} (hkept : site.Kept uidOf)
    (h : site.AllMade uidOf current) {events : List Event}
    (hevents : ∀ event ∈ events, event.Proper uidOf) (horder : InOrder uidOf current site events) :
    Silent uidOf site events := by
  induction events generalizing site current with
  | nil => trivial
  | cons event events ih =>
    obtain ⟨hwaits, hrest⟩ := horder
    refine ⟨h.told_nil hkept hwaits, ih (hkept.step (hevents event List.mem_cons_self)) ?_
      (fun e he => hevents e (List.mem_cons_of_mem _ he)) hrest⟩
    cases event with
    | replace disk found => exact h.replace disk found
    | refresh uid failure => exact h.refresh hkept uid failure
    | scan truncated visited scannedAt recorded => exact h.scan hkept _ _ _ _

end Runs

/-! ## A scan between the replacement and the refresh -/

def srvSite : Site := ⟨srvDisk referringModel, srvGroups hashA, []⟩

/-- The Compose file is replaced, the entry refreshed, and the next periodic scan comes after that. -/
def refreshedRun : List Event :=
  [.scan false (fun _ => true) 1 true, .replace (srvDisk referringModel) (srvGroups hashB),
    .refresh srv.path none, .scan false (fun _ => true) 2 true]

def overtakenRun : List Event :=
  [.scan false (fun _ => true) 1 true, .replace (srvDisk referringModel) (srvGroups hashB),
    .scan false (fun _ => true) 2 true, .refresh srv.path none]

end DockLattice.Compose
