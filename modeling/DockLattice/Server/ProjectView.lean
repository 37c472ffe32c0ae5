import DockLattice.Lib.Moments
import DockLattice.Server.ProjectRows

/-!
# DockLattice.Server.ProjectView

The project mirror as a history of observations: what committed merges stored of each project, when
the Server asked, and whether it asked for that project alone. A merge absorbs its observations into
the view and does nothing else to it (`run_view`).
-/

namespace DockLattice.Server.ProjectMirror

open Bytes Operation Moments List

structure Observation where
  uid : Text
  observedAt : Time
  targeted : Bool
  /-- Whether a restore has to be recovered; `none` for a project that only Docker's labels name. -/
  recovery : Option Bool
  stale : Bool
  fingerprint : Text
  metadata : Metadata
  deriving DecidableEq, Repr

def Merged.observation (agentId : Text) (filesystem : List Snapshot) (observedAt : Time)
    (item : Merged) : Observation where
  uid := item.uid agentId
  observedAt := observedAt
  targeted := false
  recovery := (filesystem.find? fun fact => fact.workingDir = item.snapshot.workingDir).map
    Snapshot.restoreRecoveryRequired
  stale := item.snapshot.stale
  fingerprint := item.snapshot.currentFingerprint
  metadata := item.snapshot.metadata

def Snapshot.observation (agentId : Text) (observedAt : Time) (item : Snapshot) : Observation where
  uid := projectUid agentId item.workingDir
  observedAt := observedAt
  targeted := true
  recovery := some item.restoreRecoveryRequired
  stale := item.stale
  fingerprint := item.currentFingerprint
  metadata := item.metadata

def scanObservations (s : Store) (agentId : Text) (projects : List Snapshot) (merged : List Merged)
    (observedAt : Time) : List Observation :=
  (merged.filter fun item => ¬ Late observedAt (s.projects.get (item.uid agentId))).map
    (Merged.observation agentId projects observedAt)

def Call.observations (s : Store) (call : Call) : List Observation :=
  match call.result s with
  | .error _ => []
  | .ok _ =>
    match call with
    | full agentId status projects docker observedAt =>
      match mergeProjectFacts agentId projects docker with
      | .error _ => []
      | .ok merged =>
        if s.accepts agentId status.scannedAt then
          scanObservations s agentId projects merged observedAt
        else []
    | targeted agentId item _ observedAt _ => [item.observation agentId observedAt]
    | ended => []

/-! ## The view -/

structure Observed where
  lastObservedAt : Option Time
  metadata : Metadata
  fingerprint : Text
  recovery : Bool
  deriving DecidableEq, Repr

def Row.observed (row : Row) : Observed :=
  ⟨row.flags.lastObservedAt, row.flags.metadata, row.flags.currentFingerprint,
    row.flags.restoreRecoveryRequired⟩

abbrev View := Text → Option Observed

def Store.view (s : Store) : View := fun uid => (s.projects.get uid).map Row.observed

def Observation.stored (o : Observation) (prior : Option Observed) : Observed where
  lastObservedAt := some o.observedAt
  metadata := o.metadata
  fingerprint :=
    match prior with
    | some p => if o.stale then p.fingerprint else o.fingerprint
    | none => o.fingerprint
  recovery := !o.targeted && o.recovery == some true

def View.absorb (v : View) (o : Observation) : View :=
  Function.update v o.uid (some (o.stored (v o.uid)))

theorem View.foldl_absorb (observations : List Observation) :
    ∀ (v : View), (observations.map Observation.uid).Nodup → ∀ uid,
      observations.foldl View.absorb v uid =
        match observations.find? fun o => o.uid = uid with
        | some o => some (o.stored (v uid))
        | none => v uid := by
  induction observations with
  | nil =>
    intro v _ uid
    rfl
  | cons o observations ih =>
    intro v hnodup uid
    rw [map_cons, nodup_cons] at hnodup
    rw [foldl_cons, ih _ hnodup.2]
    by_cases huid : o.uid = uid
    · subst huid
      have hnone : observations.find? (fun o' => o'.uid = o.uid) = none := by
        rw [find?_eq_none]
        intro o' hm heq
        simp only [decide_eq_true_eq] at heq
        exact hnodup.1 (heq ▸ mem_map_of_mem hm)
      rw [hnone, find?_cons_of_pos (by simp)]
      simp [View.absorb]
    · have hv : v.absorb o uid = v uid := Function.update_of_ne (Ne.symm huid) ..
      rw [find?_cons_of_neg (by simpa using huid), hv]

@[simp] theorem observed_withIncludes (parents : List Text) (row : Row) :
    (row.withIncludes parents).observed = row.observed := rfl

theorem writtenRow_observed {agentId : Text} {filesystem : List Snapshot} {docker : List DockerFact}
    {merged : List Merged} (hfacts : mergeProjectFacts agentId filesystem docker = .ok merged)
    {item : Merged} (hitem : item ∈ merged) (prior : Option Row) (observedAt : Time) :
    (writtenRow agentId item prior observedAt).observed =
      (item.observation agentId filesystem observedAt).stored (prior.map Row.observed) := by
  have hrecovery : item.snapshot.restoreRecoveryRequired =
      ((filesystem.find? fun fact => fact.workingDir = item.snapshot.workingDir).map
        Snapshot.restoreRecoveryRequired == some true) := by
    obtain ⟨projects, -, rfl⟩ := mergeProjectFacts_ok hfacts
    obtain ⟨project, -, rfl⟩ := mem_map.mp hitem
    rw [mergedProject_workingDir]
    unfold mergedProject
    cases filesystem.find? fun fact => fact.workingDir = project.workingDir with
    | none => rfl
    | some fact => cases hrec : fact.restoreRecoveryRequired <;> simp [hrec]
  unfold writtenRow Row.observed fullFlags Observation.stored Merged.observation
  cases prior with
  | none => simp [snapshotFlags, hrecovery]
  | some row =>
    cases hstale : item.snapshot.stale with
    | true => simp [snapshotFlags, keepVerified, hrecovery, hstale]
    | false => simp [snapshotFlags, hrecovery, hstale]

theorem targetedRow_observed (agentId : Text) (item : Snapshot) (establishBaseline : Bool)
    (observedAt now : Time) (row : Row) :
    (targetedRow item establishBaseline observedAt now row).observed =
      (item.observation agentId observedAt).stored (some row.observed) := by
  unfold targetedRow Row.observed targetedFlags Observation.stored Snapshot.observation
  cases hstale : item.stale <;> simp [keepVerified]

theorem reconcileCollisions_observed (agentId : Text) (t : Table Text Row) (uid : Text) :
    ((reconcileTargetedProjectCollisions agentId t).get uid).map Row.observed =
      (t.get uid).map Row.observed := by
  rw [reconcileTargetedProjectCollisions, onAgent_get, Option.map_map]
  congr 1
  funext row
  dsimp only [Function.comp]
  split <;> rfl

theorem scanObservations_find (s : Store) (agentId : Text) (projects : List Snapshot)
    (merged : List Merged) (observedAt : Time) (uid : Text) :
    (scanObservations s agentId projects merged observedAt).find? (fun o => o.uid = uid) =
      if Late observedAt (s.projects.get uid) then none
      else (merged.find? fun item => item.uid agentId = uid).map
        (Merged.observation agentId projects observedAt) := by
  unfold scanObservations
  induction merged with
  | nil => simp
  | cons item merged ih =>
    by_cases huid : item.uid agentId = uid
    · subst huid
      by_cases hlate : Late observedAt (s.projects.get (item.uid agentId))
      · simp only [hlate, if_true] at ih
        simpa [hlate] using ih
      · simp [hlate, Merged.observation]
    · have hne : ¬ (item.observation agentId projects observedAt).uid = uid := huid
      rw [find?_cons_of_neg (by simpa using huid), ← ih]
      by_cases hlate : Late observedAt (s.projects.get (item.uid agentId))
      · rw [filter_cons_of_neg (by simpa using hlate)]
      · rw [filter_cons_of_pos (by simpa using hlate), map_cons,
          find?_cons_of_neg (by simpa using hne)]

theorem observations_nodup (s : Store) (call : Call) :
    ((call.observations s).map Observation.uid).Nodup := by
  unfold Call.observations
  split
  · exact nodup_nil
  split
  · split
    · exact nodup_nil
    next merged hfacts =>
    split
    · rw [scanObservations, map_map]
      exact (List.Sublist.map _ filter_sublist).nodup (mergeProjectFacts_nodup hfacts)
    · exact nodup_nil
  · exact nodup_singleton _
  · exact nodup_nil

theorem fullRow_observed {s : Store} {agentId : Text} {truncated : Bool} {projects : List Snapshot}
    {docker : List DockerFact} {merged : List Merged} {observedAt : Time}
    (hfacts : mergeProjectFacts agentId projects docker = .ok merged) (uid : Text) :
    (fullRow agentId truncated merged observedAt uid (s.projects.get uid)).map Row.observed =
      match (scanObservations s agentId projects merged observedAt).find? fun o => o.uid = uid with
      | some o => some (o.stored (s.view uid))
      | none => s.view uid := by
  rw [scanObservations_find]
  unfold fullRow Store.view
  cases hfind : merged.find? fun item => item.uid agentId = uid with
  | some item =>
    by_cases hlate : Late observedAt (s.projects.get uid)
    · simp [hlate]
    · simp only [hlate, if_false, Option.map_some]
      rw [writtenRow_observed hfacts (mem_of_find?_eq_some hfind)]
  | none =>
    have hkeep : ∀ row : Row, Row.observed (if truncated = false ∧ row.agentId = agentId then
        { row with flags := missingFlags row.flags } else row) = row.observed := by
      intro row
      split <;> rfl
    simp only [Option.map_none, ite_self, Option.map_map]
    congr 1
    exact funext hkeep

theorem run_view (s : Store) (call : Call) :
    (call.run s).view = (call.observations s).foldl View.absorb s.view := by
  funext uid
  rw [View.foldl_absorb _ _ (observations_nodup s call)]
  unfold Call.run Call.observations
  cases hresult : call.result s with
  | error e => rfl
  | ok s' =>
    cases call with
    | full agentId status projects docker observedAt =>
      rcases mergeProjectSnapshot_ok hresult with ⟨hold, hsame⟩ | ⟨hnew, merged, hfacts, hmerge⟩
      · subst hsame
        dsimp only
        rw [hold]
        cases mergeProjectFacts agentId projects docker <;> rfl
      · obtain ⟨parents, hget⟩ := mergeProjects_get (mergeProjectFacts_nodup hfacts) hmerge uid
        simp only [hfacts, hnew, if_true]
        rw [← fullRow_observed hfacts, Store.view, hget, Option.map_map]
        rfl
    | targeted agentId item establishBaseline observedAt now =>
      obtain ⟨row, hrow, -, parents, t, ht, hs'⟩ := mergeTargeted_get hresult
      subst hs'
      dsimp only [Store.view]
      rw [reconcileCollisions_observed, ht, Table.get_map, Table.get_set, Option.map_map]
      by_cases huid : uid = projectUid agentId item.workingDir
      · subst huid
        rw [if_pos rfl, find?_cons_of_pos (by simp [Snapshot.observation]), hrow]
        exact congrArg some (targetedRow_observed agentId item establishBaseline observedAt now row)
      · have hne : ¬ (item.observation agentId observedAt).uid = uid := Ne.symm huid
        rw [if_neg huid, find?_cons_of_neg (by simpa using hne), find?_nil]
        rfl
    | ended =>
      cases hresult
      rfl

/-! ## Runs -/

def Store.fresh (agents : Text → Option AgentRow) : Store := ⟨agents, .empty⟩

def runAll (s : Store) (calls : List Call) : Store := calls.foldl Call.run s

def history (s : Store) : List Call → List Observation
  | [] => []
  | call :: calls => call.observations s ++ history (call.run s) calls

theorem runAll_snoc (s : Store) (calls : List Call) (call : Call) :
    runAll s (calls ++ [call]) = call.run (runAll s calls) := by
  rw [runAll, foldl_append]
  rfl

theorem history_snoc (calls : List Call) : ∀ (s : Store) (call : Call),
    history s (calls ++ [call]) = history s calls ++ call.observations (runAll s calls) := by
  induction calls with
  | nil =>
    intro s call
    simp [history, runAll]
  | cons c calls ih =>
    intro s call
    simp only [cons_append, history, ih, append_assoc]
    rfl

theorem run_view_apply (s : Store) (call : Call) (uid : Text) :
    (call.run s).view uid =
      match (call.observations s).find? fun o => o.uid = uid with
      | some o => some (o.stored (s.view uid))
      | none => s.view uid := by
  rw [run_view, View.foldl_absorb _ _ (observations_nodup s call)]

theorem find_observation {s : Store} {call : Call} {o : Observation}
    (ho : o ∈ call.observations s) :
    (call.observations s).find? (fun o' => o'.uid = o.uid) = some o := by
  cases hfind : (call.observations s).find? fun o' => o'.uid = o.uid with
  | none =>
    rw [find?_eq_none] at hfind
    exact absurd (decide_eq_true rfl) (hfind o ho)
  | some o' =>
    have huid : o'.uid = o.uid := by simpa using find?_some hfind
    have hmem := mem_of_find?_eq_some hfind
    rw [inj_on_of_nodup_map (observations_nodup s call) hmem ho huid]

theorem observation_newer {s : Store} {call : Call} {o : Observation}
    (ho : o ∈ call.observations s) (hscan : o.targeted = false) {row : Row}
    (hrow : s.projects.get o.uid = some row) :
    isNewerProjectObservation row.flags.lastObservedAt o.observedAt = true := by
  unfold Call.observations at ho
  split at ho
  · cases ho
  split at ho
  · split at ho
    · cases ho
    split at ho
    · obtain ⟨item, hitem, rfl⟩ := mem_map.mp ho
      have hlate := (mem_filter.mp hitem).2
      rw [decide_eq_true_eq] at hlate
      by_contra hold
      exact hlate ⟨row, hrow, Bool.eq_false_iff.mpr hold⟩
    · cases ho
  · rw [mem_singleton.mp ho] at hscan
    cases hscan
  · cases ho

/-! ## What holds of the flags of every row -/

/-- A property of flags that each of the places that write them establishes or keeps. -/
structure FlagRule (R : Flags → Prop) : Prop where
  full : ∀ item prior observedAt, R (fullFlags item prior observedAt)
  missing : ∀ flags, R (missingFlags flags)
  includes : ∀ (flags : Flags) (parents : List Text), R flags →
    R { flags with includedBy := parents }
  collided : ∀ (flags : Flags) (collision : Bool), (collision = true → flags.missing = false) →
    R { flags with collision := collision, readOnly := projectReadOnly flags collision }

theorem FlagRule.run {R : Flags → Prop} (hR : FlagRule R) {s : Store}
    (h : ∀ uid row, s.projects.get uid = some row → R row.flags) (call : Call) :
    ∀ uid row, (call.run s).projects.get uid = some row → R row.flags := by
  unfold Call.run
  cases hresult : call.result s with
  | error e => exact h
  | ok s' =>
    intro uid row hrow
    dsimp only at hrow
    cases call with
    | full agentId status projects docker observedAt =>
      rcases mergeProjectSnapshot_ok hresult with ⟨-, hsame⟩ | ⟨-, merged, hfacts, hmerge⟩
      · rw [hsame] at hrow
        exact h uid row hrow
      obtain ⟨parents, hget⟩ := mergeProjects_get (mergeProjectFacts_nodup hfacts) hmerge uid
      rw [hrow] at hget
      obtain ⟨row', hrow', heq⟩ := Option.map_eq_some_iff.mp hget.symm
      subst heq
      refine hR.includes _ _ ?_
      unfold fullRow at hrow'
      cases hfind : merged.find? fun item => item.uid agentId = uid with
      | some item =>
        simp only [hfind] at hrow'
        split at hrow'
        · exact h uid row' hrow'
        · cases hrow'
          exact hR.full ..
      | none =>
        simp only [hfind] at hrow'
        obtain ⟨row'', hrow'', heq⟩ := Option.map_eq_some_iff.mp hrow'
        subst heq
        split
        · exact hR.missing _
        · exact h uid row'' hrow''
    | targeted agentId item establishBaseline observedAt now =>
      obtain ⟨prior, hprior, hagent, parents, t, ht, hs'⟩ := mergeTargeted_get hresult
      subst hs'
      rw [reconcileTargetedProjectCollisions, onAgent_get] at hrow
      obtain ⟨row', hrow', heq⟩ := Option.map_eq_some_iff.mp hrow
      subst heq
      split
      · refine hR.collided _ _ ?_
        intro hcollides
        simp only [collides, Bool.and_eq_true, Bool.not_eq_true'] at hcollides
        exact hcollides.1.1
      -- a row of another Agent, which is not the one that was written
      rename_i hother
      rw [ht, Table.get_map, Table.get_set] at hrow'
      obtain ⟨row'', hrow'', heq⟩ := Option.map_eq_some_iff.mp hrow'
      subst heq
      split at hrow''
      · cases hrow''
        exact absurd hagent hother
      · exact hR.includes _ _ (h uid row'' hrow'')
    | ended =>
      cases hresult
      exact h uid row hrow

theorem FlagRule.runAll {R : Flags → Prop} (hR : FlagRule R) (agents : Text → Option AgentRow)
    (calls : List Call) :
    ∀ uid row, (runAll (.fresh agents) calls).projects.get uid = some row → R row.flags := by
  induction calls using List.reverseRecOn with
  | nil =>
    intro uid row hrow
    simp [ProjectMirror.runAll, Store.fresh] at hrow
  | append_singleton calls call ih =>
    rw [runAll_snoc]
    exact hR.run ih call

theorem projectReadOnly_of_recovery {flags : Flags} (h : flags.restoreRecoveryRequired = true)
    (collision : Bool) : projectReadOnly flags collision = true := by
  simp [projectReadOnly, h]

theorem recovery_flagRule :
    FlagRule fun flags : Flags => flags.restoreRecoveryRequired = true → flags.readOnly = true where
  full := fun _ _ _ h => projectReadOnly_of_recovery h _
  missing := fun _ _ => rfl
  includes := fun _ _ h => h
  collided := fun _ _ _ h => projectReadOnly_of_recovery h _

end DockLattice.Server.ProjectMirror
