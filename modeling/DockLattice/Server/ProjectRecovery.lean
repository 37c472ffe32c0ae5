import DockLattice.Server.ProjectView

/-!
# DockLattice.Server.ProjectRecovery

A project whose restore has to be recovered must not be offered for writing. A row with the recovery
flag is always read-only (`recovery_flagRule`); the flag itself is lost by a targeted merge and by a
scan that finds only containers, and in no third way (`recovery_kept_iff`).
-/

namespace DockLattice.Server.ProjectMirror

open Bytes Operation Moments

/-- What the latest observation that speaks of it says of the recovery of a project. -/
def saysRecovery (observations : List Observation) (uid : Text) : Bool :=
  observations.foldl (fun said o => if o.uid = uid then o.recovery.getD said else said) false

theorem saysRecovery_append (h observations : List Observation)
    (hnodup : (observations.map Observation.uid).Nodup) (uid : Text) :
    saysRecovery (h ++ observations) uid =
      match observations.find? fun o => o.uid = uid with
      | some o => o.recovery.getD (saysRecovery h uid)
      | none => saysRecovery h uid := by
  unfold saysRecovery
  rw [List.foldl_append]
  generalize h.foldl (fun said o => if o.uid = uid then o.recovery.getD said else said) false = said
  induction observations generalizing said with
  | nil => rfl
  | cons o observations ih =>
    rw [List.map_cons, List.nodup_cons] at hnodup
    rw [List.foldl_cons, ih hnodup.2]
    by_cases huid : o.uid = uid
    · subst huid
      have hnone : observations.find? (fun o' => o'.uid = o.uid) = none := by
        rw [List.find?_eq_none]
        intro o' hm heq
        simp only [decide_eq_true_eq] at heq
        exact hnodup.1 (heq ▸ List.mem_map_of_mem hm)
      rw [hnone, List.find?_cons_of_pos (by simp), if_pos rfl]
    · rw [List.find?_cons_of_neg (by simpa using huid), if_neg huid]

/-- Every project that the observations say has to be recovered is stored so, and as read-only. -/
def Blocked (s : Store) (observations : List Observation) : Prop :=
  ∀ uid, saysRecovery observations uid = true →
    ∃ row, s.projects.get uid = some row ∧ row.flags.restoreRecoveryRequired = true ∧
      row.flags.readOnly = true

def StaysBlocked (agents : Text → Option AgentRow) (before : List Call) (call : Call) : Prop :=
  Blocked (runAll (.fresh agents) (before ++ [call])) (history (.fresh agents) (before ++ [call]))

/-- No observation that the call stores is a targeted one which says that recovery is required, and
none comes from Docker alone for a project that has to be recovered. -/
def TakesRecoveryOver (agents : Text → Option AgentRow) (before : List Call) (call : Call) : Prop :=
  ∀ o ∈ call.observations (runAll (.fresh agents) before),
    (o.targeted = true → o.recovery ≠ some true) ∧
      (o.recovery = none → saysRecovery (history (.fresh agents) before) o.uid = false)

theorem view_recovery {s : Store} {uid : Text} {seen : Observed} (hview : s.view uid = some seen)
    (hguarded : ∀ uid row, s.projects.get uid = some row →
      row.flags.restoreRecoveryRequired = true → row.flags.readOnly = true)
    (hrec : seen.recovery = true) :
    ∃ row, s.projects.get uid = some row ∧ row.flags.restoreRecoveryRequired = true ∧
      row.flags.readOnly = true := by
  obtain ⟨row, hrow, heq⟩ := Option.map_eq_some_iff.mp hview
  subst heq
  exact ⟨row, hrow, hrec, hguarded uid row hrow hrec⟩

theorem stored_recovery (o : Observation) (prior : Option Observed) :
    (o.stored prior).recovery = true ↔ o.targeted = false ∧ o.recovery = some true := by
  simp [Observation.stored]

theorem staysBlocked_iff {agents : Text → Option AgentRow} {before : List Call}
    (hblocked : Blocked (runAll (.fresh agents) before) (history (.fresh agents) before))
    (call : Call) : StaysBlocked agents before call ↔ TakesRecoveryOver agents before call := by
  unfold StaysBlocked TakesRecoveryOver
  rw [runAll_snoc, history_snoc]
  have hguarded := recovery_flagRule.run (recovery_flagRule.runAll agents before) call
  generalize runAll (.fresh agents) before = s at hblocked hguarded ⊢
  generalize history (.fresh agents) before = h at hblocked ⊢
  have htold := saysRecovery_append h (call.observations s) (observations_nodup s call)
  constructor
  · intro hafter o ho
    have hfind := find_observation ho
    have hview := run_view_apply s call o.uid
    have hsaid := htold o.uid
    rw [hfind] at hview hsaid
    -- a project said to be recovered has the flag in the view
    have hflag : o.recovery.getD (saysRecovery h o.uid) = true →
        o.targeted = false ∧ o.recovery = some true := by
      intro htrue
      obtain ⟨row, hrow, hrec, -⟩ := hafter o.uid (by rw [hsaid]; exact htrue)
      rw [Store.view, hrow] at hview
      have heq : row.observed = o.stored (s.view o.uid) := Option.some.inj hview
      rw [← stored_recovery o (s.view o.uid), ← heq]
      exact hrec
    constructor
    · intro htargeted hrec
      have hscan := (hflag (by rw [hrec]; rfl)).1
      rw [htargeted] at hscan
      cases hscan
    · intro hnone
      cases hsaidh : saysRecovery h o.uid with
      | false => rfl
      | true =>
        have hrec := (hflag (by rw [hnone, hsaidh]; rfl)).2
        rw [hnone] at hrec
        cases hrec
  · intro htakes uid hsaid
    rw [htold] at hsaid
    have hview := run_view_apply s call uid
    cases hfind : (call.observations s).find? fun o => o.uid = uid with
    | none =>
      simp only [hfind] at hsaid hview
      obtain ⟨row, hrow, hrec, -⟩ := hblocked uid hsaid
      rw [Store.view, Store.view, hrow] at hview
      exact view_recovery hview hguarded hrec
    | some o =>
      have huid : o.uid = uid := by simpa using List.find?_some hfind
      obtain ⟨htargeted, hnone⟩ := htakes o (List.mem_of_find?_eq_some hfind)
      simp only [hfind] at hsaid hview
      refine view_recovery hview hguarded ((stored_recovery o _).mpr ?_)
      cases hrec : o.recovery with
      | none =>
        rw [hrec, Option.getD_none, ← huid, hnone hrec] at hsaid
        cases hsaid
      | some required =>
        rw [hrec, Option.getD_some] at hsaid
        subst hsaid
        refine ⟨?_, rfl⟩
        cases ht : o.targeted with
        | false => rfl
        | true => exact absurd hrec (htargeted ht)

/-- Over any merges of any Agents, a project that has to be recovered is blocked at every moment
exactly when no targeted snapshot says so and no such project is merged from Docker's labels. -/
theorem recovery_kept_iff (agents : Text → Option AgentRow) (calls : List Call) :
    AtEachStep (StaysBlocked agents) calls ↔ AtEachStep (TakesRecoveryOver agents) calls := by
  refine atEachStep_iff
    (I := fun before =>
      Blocked (runAll (.fresh agents) before) (history (.fresh agents) before)) ?_ ?_ ?_ calls
  · intro uid hsaid
    cases hsaid
  · intro before call hinv
    exact staysBlocked_iff hinv call
  · intro before call hinv htakes
    exact (staysBlocked_iff hinv call).mpr htakes

/-! ## The flag is lost -/

def oneAgent : Text → Option AgentRow := fun id =>
  if id = text "agent" then some ⟨false, none⟩ else none

def appSnapshot : Snapshot where
  workingDir := text "/srv/app"
  name := text "app"
  metadata := .none
  currentFingerprint := text "f1"
  composeExecutable := true
  filesystemWritable := true
  restoreRecoveryRequired := true
  capabilityReason := []
  stale := false
  verifiedAt := some 1

/-- A scan, and the refresh of its project after an operation; both say that the project has to be
recovered. -/
def scanThenRefresh : List Call :=
  [.full (text "agent") ⟨1, false⟩ [appSnapshot] [] 1,
    .targeted (text "agent") appSnapshot false 2 2]

/-- After the refresh the project is stored as writable. -/
theorem refresh_unblocks :
    ((runAll (.fresh oneAgent) scanThenRefresh).projects.get
      (projectUid (text "agent") (text "/srv/app"))).map
        (fun row => (row.flags.restoreRecoveryRequired, row.flags.readOnly)) =
      some (false, false) ∧
    ¬ AtEachStep (StaysBlocked oneAgent) scanThenRefresh := by
  refine (and_iff_left_of_imp ?_).mpr (by decide +kernel)
  intro hrow hblocked
  have hsaid : saysRecovery (history (.fresh oneAgent) scanThenRefresh)
      (projectUid (text "agent") (text "/srv/app")) = true := by
    decide +kernel
  obtain ⟨row, hget, hrec, -⟩ :=
    hblocked [.full (text "agent") ⟨1, false⟩ [appSnapshot] [] 1] _ [] rfl _ hsaid
  have hget : (runAll (.fresh oneAgent) scanThenRefresh).projects.get
      (projectUid (text "agent") (text "/srv/app")) = some row := hget
  rw [hget] at hrow
  simp [hrec] at hrow

end DockLattice.Server.ProjectMirror
