import DockLattice.Server.Projects

/-!
# DockLattice.Server.ProjectRows

What the two merges leave in one row of the project mirror. `fullRow` and `targetedRow` give the row
with a UID after a merge from the row before it, up to the include relations that both merges
recompute at their end (`mergeProjects_get`, `mergeTargeted_get`). A full merge meets every
directory once (`mergeProjectFacts_nodup`), so its loop writes every row at most once.
-/

namespace DockLattice.Server.ProjectMirror

open Bytes Operation DockLattice.Path List

variable {agentId : Text} {docker : List DockerFact} {existing t t' : Table Text Row}
  {filesystem : List Snapshot} {item : Merged} {merged : List Merged} {observedAt : Time}
  {projects : List Project}

def Merged.uid (agentId : Text) (item : Merged) : Text :=
  projectUid agentId item.snapshot.workingDir

def Row.withIncludes (parents : List Text) (row : Row) : Row :=
  { row with flags := { row.flags with includedBy := parents } }

theorem projectUid_injective {d e : Text} (h : projectUid agentId d = projectUid agentId e) :
    d = e := by
  unfold projectUid at h
  simpa using h

theorem projectUid_ne_nil (agentId d : Text) : projectUid agentId d ≠ [] := by
  simp [projectUid]

/-! ## The directories of a snapshot are distinct -/

structure Distinct (agentId : Text) (projects : List Project) : Prop where
  dirs : ((projects.filter fun p => p.workingDir ≠ []).map Project.workingDir).Nodup
  uids : ∀ p ∈ projects, p.workingDir ≠ [] → p.uid = projectUid agentId p.workingDir
  unlabelled : ∀ p ∈ projects, p.workingDir = [] → p.uid = []

theorem Distinct.map (h : Distinct agentId projects) {f : Project → Project}
    (hdir : ∀ p, (f p).workingDir = p.workingDir) (huid : ∀ p, (f p).uid = p.uid) :
    Distinct agentId (projects.map f) where
  dirs := by
    have hcomp : (fun p : Project => decide (p.workingDir ≠ [])) ∘ f =
        fun p => decide (p.workingDir ≠ []) := by
      funext p
      simp [hdir]
    rw [filter_map, map_map, hcomp]
    have hdirs : Project.workingDir ∘ f = Project.workingDir := funext hdir
    rw [hdirs]
    exact h.dirs
  uids := by
    intro p hp hne
    obtain ⟨q, hq, rfl⟩ := mem_map.mp hp
    rw [hdir] at hne
    rw [huid, hdir]
    exact h.uids q hq hne
  unlabelled := by
    intro p hp hnil
    obtain ⟨q, hq, rfl⟩ := mem_map.mp hp
    rw [hdir] at hnil
    rw [huid]
    exact h.unlabelled q hq hnil

theorem Distinct.attach (h : Distinct agentId projects) (fact : DockerFact) :
    Distinct agentId (attach agentId projects fact) := by
  unfold ProjectMirror.attach
  split
  · refine ⟨?_, ?_, ?_⟩
    · rw [filter_append]
      simpa [unmanagedProject] using h.dirs
    · exact forall_mem_append.mpr ⟨h.uids, forall_mem_singleton.mpr fun hne => absurd rfl hne⟩
    · exact forall_mem_append.mpr ⟨h.unlabelled, forall_mem_singleton.mpr fun _ => rfl⟩
  next hlabel =>
  split
  · refine h.map ?_ ?_
    · intro p
      split <;> rfl
    · intro p
      split <;> rfl
  next hknown =>
  refine ⟨?_, ?_, ?_⟩
  · rw [filter_append, map_append, nodup_append]
    refine ⟨h.dirs, ?_, ?_⟩
    · simp [unmanagedProject, hlabel]
    · intro d hd e he hde
      obtain ⟨p, hp, hpd⟩ := mem_map.mp hd
      simp only [unmanagedProject, hlabel, filter_cons, ne_eq, not_false_eq_true, decide_true,
        if_true, filter_nil, map_cons, map_nil, mem_singleton] at he
      refine hknown (any_eq_true.mpr ⟨p, (mem_filter.mp hp).1, ?_⟩)
      simp [hpd, hde, he]
  · exact forall_mem_append.mpr ⟨h.uids, forall_mem_singleton.mpr fun _ => rfl⟩
  · exact forall_mem_append.mpr
      ⟨h.unlabelled, forall_mem_singleton.mpr fun hnil => absurd hnil hlabel⟩

theorem Distinct.foldl (docker : List DockerFact) :
    ∀ {projects : List Project}, Distinct agentId projects →
      Distinct agentId (docker.foldl (ProjectMirror.attach agentId) projects) := by
  induction docker with
  | nil =>
    intro projects h
    exact h
  | cons fact docker ih =>
    intro projects h
    exact ih (h.attach fact)

theorem filesystem_distinct (hdirs : ∀ fact ∈ filesystem, fact.workingDir ≠ [])
    (hnodup : (filesystem.map Snapshot.workingDir).Nodup) :
    Distinct agentId (filesystem.map (filesystemProject agentId)) where
  dirs := by
    have hall : (filesystem.map (filesystemProject agentId)).filter
        (fun p => p.workingDir ≠ []) = filesystem.map (filesystemProject agentId) := by
      rw [filter_eq_self]
      intro p hp
      obtain ⟨fact, hfact, rfl⟩ := mem_map.mp hp
      exact decide_eq_true (hdirs fact hfact)
    rw [hall, map_map]
    exact hnodup
  uids := by
    intro p hp _
    obtain ⟨fact, hfact, rfl⟩ := mem_map.mp hp
    rfl
  unlabelled := by
    intro p hp hnil
    obtain ⟨fact, hfact, rfl⟩ := mem_map.mp hp
    exact absurd hnil (hdirs fact hfact)

theorem merge_distinct (h : merge agentId filesystem docker = some projects) :
    Distinct agentId projects := by
  unfold merge at h
  split at h
  · rename_i hvalid
    simp only [validFacts, Bool.and_eq_true, all_eq_true, decide_eq_true_eq] at hvalid
    have hstart : Distinct agentId (filesystem.map (filesystemProject agentId)) := by
      refine filesystem_distinct ?_ hvalid.1.2
      intro fact hfact
      have hdir := (hvalid.1.1 fact hfact).1
      simp only [canonicalDir, Bool.and_eq_true, decide_eq_true_eq] at hdir
      exact hdir.1.1.1
    have hlinked := (hstart.foldl docker).map
      (f := linkIncludes agentId filesystem) (fun _ => rfl) (fun _ => rfl)
    have hmarked : Distinct agentId (markNameCollisions
        ((docker.foldl (attach agentId) (filesystem.map (filesystemProject agentId))).map
          (linkIncludes agentId filesystem))) :=
      hlinked.map (fun _ => rfl) (fun _ => rfl)
    cases h
    have hperm := perm_insertionSort (fun p q : Project => p.workingDir ≤ q.workingDir)
      (markNameCollisions
        ((docker.foldl (attach agentId) (filesystem.map (filesystemProject agentId))).map
          (linkIncludes agentId filesystem)))
    refine ⟨?_, ?_, ?_⟩
    · exact ((hperm.filter _).map _).nodup_iff.mpr hmarked.dirs
    · intro p hp
      exact hmarked.uids p (hperm.mem_iff.mp hp)
    · intro p hp
      exact hmarked.unlabelled p (hperm.mem_iff.mp hp)
  · cases h

theorem mergedProject_workingDir (filesystem : List Snapshot) (docker : List DockerFact)
    (project : Project) :
    (mergedProject filesystem docker project).snapshot.workingDir = project.workingDir := by
  unfold mergedProject
  cases hfind : filesystem.find? fun fact => fact.workingDir = project.workingDir with
  | none => rfl
  | some fact => simpa using find?_some hfind

theorem mergeProjectFacts_ok (h : mergeProjectFacts agentId filesystem docker = .ok merged) :
    ∃ projects, merge agentId filesystem docker = some projects ∧
      (projects.filter fun p => p.uid ≠ []).map (mergedProject filesystem docker) = merged := by
  unfold mergeProjectFacts at h
  split at h
  · cases h
  · exact ⟨_, ‹_›, Except.ok.inj h⟩

theorem mergeProjectFacts_nodup (h : mergeProjectFacts agentId filesystem docker = .ok merged) :
    (merged.map (Merged.uid agentId)).Nodup := by
  obtain ⟨projects, hmerge, rfl⟩ := mergeProjectFacts_ok h
  have hdistinct := merge_distinct hmerge
  rw [map_map]
  have hlabelled : (projects.filter fun p => p.uid ≠ []) =
      projects.filter fun p => p.workingDir ≠ [] := by
    refine filter_congr ?_
    intro p hp
    by_cases hnil : p.workingDir = []
    · simp [hnil, hdistinct.unlabelled p hp hnil]
    · simp [hnil, hdistinct.uids p hp hnil, projectUid_ne_nil]
  have hcomp : Merged.uid agentId ∘ mergedProject filesystem docker =
      projectUid agentId ∘ Project.workingDir := by
    funext p
    simp [Merged.uid, mergedProject_workingDir]
  rw [hlabelled, hcomp, ← map_map]
  exact hdistinct.dirs.map fun _ _ => projectUid_injective

/-! ## The end of both merges -/

theorem onAgent_get (agentId : Text) (f : Text → Row → Flags) (t : Table Text Row) (uid : Text) :
    (onAgent agentId f t).get uid = (t.get uid).map fun row =>
      if row.agentId = agentId then { row with flags := f uid row } else row := by
  unfold onAgent
  rw [Table.get_map]

theorem reconcileInclude_get (h : reconcileProjectIncludeRelations agentId t = .ok t') :
    ∃ parents : Text → Row → List Text,
      t' = t.map fun uid row => row.withIncludes (parents uid row) := by
  unfold reconcileProjectIncludeRelations at h
  dsimp only at h
  split at h
  · cases h
  split at h
  · cases h
  split at h
  · cases h
  cases h
  refine ⟨fun uid row => if row.agentId = agentId then
    includeParents (agentRows agentId t) uid row else row.flags.includedBy, ?_⟩
  unfold onAgent
  congr 1
  funext uid row
  dsimp only
  by_cases hagent : row.agentId = agentId
  · rw [if_pos hagent, if_pos hagent]
    rfl
  · rw [if_neg hagent, if_neg hagent]
    rfl

/-! ## The full merge -/

def writtenRow (agentId : Text) (item : Merged) (prior : Option Row) (observedAt : Time) : Row where
  agentId := agentId
  workingDir := item.snapshot.workingDir
  name := if fullName item prior ≠ [] then fullName item prior else (prior.map Row.name).getD []
  applied := (prior.map Row.applied).getD []
  flags := fullFlags item prior observedAt

def Late (observedAt : Time) (prior : Option Row) : Prop :=
  ∃ row, prior = some row ∧ isNewerProjectObservation row.flags.lastObservedAt observedAt = false

instance (observedAt : Time) (prior : Option Row) : Decidable (Late observedAt prior) :=
  match prior with
  | none => .isFalse (by simp [Late])
  | some row =>
    if h : isNewerProjectObservation row.flags.lastObservedAt observedAt = false then
      .isTrue ⟨row, rfl, h⟩
    else .isFalse (by simpa [Late] using h)

theorem writeProject_ok {prior : Option Row}
    (hprior : ∀ row, t.get (item.uid agentId) = some row → row.agentId = agentId → prior = some row)
    (hnone : t.get (item.uid agentId) = none → prior = none)
    (h : writeProject agentId item prior observedAt t = .ok t') :
    prior = t.get (item.uid agentId) ∧
      t' = t.set (item.uid agentId) (writtenRow agentId item prior observedAt) := by
  unfold writeProject at h
  change (match t.get (item.uid agentId) with
    | none => _
    | some row => _) = _ at h
  cases hget : t.get (item.uid agentId) with
  | none =>
    rw [hnone hget]
    simp only [hget, hnone hget, Except.ok.injEq] at h
    refine ⟨rfl, ?_⟩
    have hname : (if fullName item none ≠ [] then fullName item none else []) =
        fullName item none := by
      split <;> simp_all
    rw [← h, writtenRow, Option.map_none, Option.getD_none, hname]
    rfl
  | some row =>
    simp only [hget] at h
    split at h
    · rename_i hsame
      have hp := hprior row hget hsame.1
      subst hp
      cases h
      refine ⟨rfl, ?_⟩
      simp [writtenRow, Merged.uid, hsame.1, hsame.2]
    · cases h

theorem mergeItem_ok (hsame : t.get (item.uid agentId) = existing.get (item.uid agentId))
    (h : mergeItem agentId existing observedAt t item = .ok t') :
    (∀ row, existing.get (item.uid agentId) = some row →
      row.agentId = agentId ∧ row.workingDir = item.snapshot.workingDir) ∧
    t' = if Late observedAt (existing.get (item.uid agentId)) then t
      else t.set (item.uid agentId)
        (writtenRow agentId item (existing.get (item.uid agentId)) observedAt) := by
  unfold mergeItem at h
  split at h
  · next hnone =>
    -- a row of another Agent makes the conflict clause refuse the write
    obtain ⟨hget, ht'⟩ := writeProject_ok (fun row hrow hagent => by
      rw [hsame, Merged.uid] at hrow
      simp [priorRow, hrow, hagent] at hnone) (by simp) h
    have hlate : ¬ Late observedAt (none : Option Row) := by simp [Late]
    rw [← hsame, ← hget, if_neg hlate]
    exact ⟨by simp, ht'⟩
  next row hprior =>
  obtain ⟨hget, hagent⟩ := Option.filter_eq_some_iff.mp hprior
  rw [show existing.get (item.uid agentId) = some row from hget] at hsame ⊢
  split at h
  · cases h
  next hdir =>
  refine ⟨?_, ?_⟩
  · intro row' hrow'
    cases hrow'
    exact ⟨by simpa using hagent, not_not.mp hdir⟩
  split at h
  · next hold =>
    have hlate : Late observedAt (some row) := ⟨row, rfl, by simpa using hold⟩
    rw [if_pos hlate]
    cases h
    rfl
  · next hnew =>
    have hlate : ¬ Late observedAt (some row) := by simpa [Late] using hnew
    rw [if_neg hlate]
    exact (writeProject_ok (by simp [hsame]) (by simp [hsame]) h).2

theorem foldlM_mergeItem (merged : List Merged) :
    ∀ {t t' : Table Text Row}, (merged.map (Merged.uid agentId)).Nodup →
      (∀ item ∈ merged, t.get (item.uid agentId) = existing.get (item.uid agentId)) →
      merged.foldlM (mergeItem agentId existing observedAt) t = .ok t' →
      (∀ item ∈ merged, ∀ row, existing.get (item.uid agentId) = some row →
        row.agentId = agentId) ∧
      ∀ uid, t'.get uid =
        match merged.find? fun item => item.uid agentId = uid with
        | none => t.get uid
        | some item =>
          if Late observedAt (existing.get uid) then t.get uid
          else some (writtenRow agentId item (existing.get uid) observedAt) := by
  induction merged with
  | nil =>
    intro t t' _ _ h
    cases h
    exact ⟨nofun, fun uid => rfl⟩
  | cons item merged ih =>
    intro t t' hnodup hsame h
    rw [map_cons, nodup_cons] at hnodup
    rw [foldlM_cons] at h
    cases hstep : mergeItem agentId existing observedAt t item with
    | error e =>
      rw [hstep] at h
      cases h
    | ok mid =>
      rw [hstep] at h
      obtain ⟨howned, hmid⟩ := mergeItem_ok (hsame item mem_cons_self) hstep
      have hother : ∀ u, u ≠ item.uid agentId → mid.get u = t.get u := by
        intro u hu
        rw [hmid]
        split
        · rfl
        · rw [Table.get_set, if_neg hu]
      obtain ⟨hrestOwned, hrest⟩ := ih hnodup.2 (by
        intro other hm
        have hne : other.uid agentId ≠ item.uid agentId := by
          intro heq
          exact hnodup.1 (heq ▸ mem_map_of_mem hm)
        rw [hother _ hne]
        exact hsame other (mem_cons_of_mem _ hm)) h
      refine ⟨forall_mem_cons.mpr ⟨fun row hrow => (howned row hrow).1, hrestOwned⟩, fun uid => ?_⟩
      rw [hrest]
      by_cases hu : item.uid agentId = uid
      · have hnone : merged.find? (fun other => other.uid agentId = uid) = none := by
          rw [find?_eq_none]
          intro other hm heq
          simp only [decide_eq_true_eq] at heq
          exact hnodup.1 (hu.trans heq.symm ▸ mem_map_of_mem hm)
        rw [find?_cons_of_pos (by simpa using hu), hnone]
        subst hu
        dsimp only
        rw [hmid]
        split
        · rfl
        · rw [Table.get_set, if_pos rfl]
      · rw [find?_cons_of_neg (by simpa using hu), hother uid (Ne.symm hu)]

def fullRow (agentId : Text) (truncated : Bool) (merged : List Merged) (observedAt : Time)
    (uid : Text) (prior : Option Row) : Option Row :=
  match merged.find? fun item => item.uid agentId = uid with
  | some item =>
    if Late observedAt prior then prior else some (writtenRow agentId item prior observedAt)
  | none => prior.map fun row =>
    if truncated = false ∧ row.agentId = agentId then
      { row with flags := missingFlags row.flags }
    else row

theorem mergeProjects_get {truncated : Bool} (hnodup : (merged.map (Merged.uid agentId)).Nodup)
    (h : mergeProjects agentId truncated merged observedAt existing = .ok t') (uid : Text) :
    ∃ parents : Row → List Text,
      t'.get uid = (fullRow agentId truncated merged observedAt uid (existing.get uid)).map
        fun row => row.withIncludes (parents row) := by
  unfold mergeProjects at h
  split at h
  · cases h
  next t hfold =>
  obtain ⟨parents, ht'⟩ := reconcileInclude_get h
  refine ⟨parents uid, ?_⟩
  rw [ht', Table.get_map]
  congr 1
  have hget := (foldlM_mergeItem merged hnodup (fun _ _ => rfl) hfold).2 uid
  have hseen : (merged.map fun item => projectUid agentId item.snapshot.workingDir).contains uid =
      (merged.find? fun item => item.uid agentId = uid).isSome := by
    rw [Bool.eq_iff_iff, find?_isSome, contains_iff_mem, mem_map]
    simp only [decide_eq_true_eq]
    rfl
  unfold fullRow
  cases truncated with
  | true =>
    rw [if_pos rfl, hget]
    cases merged.find? fun item => item.uid agentId = uid with
    | some item => rfl
    | none => simp
  | false =>
    rw [if_neg (by simp), markMissing, onAgent_get, hget, hseen]
    cases hfind : merged.find? fun item => item.uid agentId = uid with
    | some | none => simp

theorem mergeProjects_owned {truncated : Bool} (hnodup : (merged.map (Merged.uid agentId)).Nodup)
    (h : mergeProjects agentId truncated merged observedAt existing = .ok t')
    (hitem : item ∈ merged) {row : Row} (hrow : existing.get (item.uid agentId) = some row) :
    row.agentId = agentId := by
  unfold mergeProjects at h
  split at h
  · cases h
  next t hfold => exact (foldlM_mergeItem merged hnodup (fun _ _ => rfl) hfold).1 item hitem row hrow

def Store.accepts (s : Store) (agentId : Text) (scannedAt : Time) : Bool :=
  match s.agents agentId with
  | none => false
  | some agent => !agent.retired && isNewerProjectObservation agent.scannedAt scannedAt

theorem mergeProjectSnapshot_ok {s s' : Store} {status : ScanStatus} {projects : List Snapshot}
    (h : mergeProjectSnapshot s agentId status projects docker observedAt = .ok s') :
    (s.accepts agentId status.scannedAt = false ∧ s' = s) ∨
      s.accepts agentId status.scannedAt = true ∧
        ∃ merged, mergeProjectFacts agentId projects docker = .ok merged ∧
          mergeProjects agentId status.truncated merged observedAt s.projects =
            .ok s'.projects := by
  unfold mergeProjectSnapshot at h
  split at h
  · cases h
  split at h
  · cases h
  next merged hfacts =>
  split at h
  · cases h
  next agent hagent =>
  split at h
  · cases h
  next hretired =>
  split at h
  · next hold =>
    cases h
    exact .inl ⟨by simp_all [Store.accepts], rfl⟩
  next hnew =>
  split at h
  · cases h
  next t hmerge =>
  cases h
  exact .inr ⟨by simp_all [Store.accepts], merged, hfacts, hmerge⟩

/-! ## The targeted merge -/

def targetedRow (item : Snapshot) (establishBaseline : Bool) (observedAt now : Time) (row : Row) :
    Row :=
  let applied := if establishBaseline then item.currentFingerprint else row.applied
  { row with
    name := if item.name = [] then row.name else item.name
    applied := applied
    flags := targetedFlags item row.flags applied observedAt now }

theorem mergeTargeted_get {s s' : Store} {item : Snapshot} {establishBaseline : Bool} {now : Time}
    (h : mergeTargetedProjectSnapshot s agentId item establishBaseline observedAt now = .ok s') :
    ∃ row, s.projects.get (projectUid agentId item.workingDir) = some row ∧
      row.agentId = agentId ∧
      ∃ (parents : Text → Row → List Text) (t : Table Text Row),
        t = (s.projects.set (projectUid agentId item.workingDir)
          (targetedRow item establishBaseline observedAt now row)).map
            (fun uid row => row.withIncludes (parents uid row)) ∧
        s' = { s with projects := reconcileTargetedProjectCollisions agentId t } := by
  unfold mergeTargetedProjectSnapshot at h
  dsimp only at h
  split at h
  · cases h
  cases hprior : priorRow s.projects agentId (projectUid agentId item.workingDir) with
  | none => simp [hprior] at h
  | some row =>
    simp only [hprior] at h
    split at h
    · cases h
    simp only [priorRow, Option.filter_eq_some_iff, decide_eq_true_eq] at hprior
    refine ⟨row, hprior.1, hprior.2, ?_⟩
    split at h
    · cases h
    rename_i t ht
    cases h
    obtain ⟨parents, heq⟩ := reconcileInclude_get ht
    exact ⟨parents, t, heq, rfl⟩

end DockLattice.Server.ProjectMirror
