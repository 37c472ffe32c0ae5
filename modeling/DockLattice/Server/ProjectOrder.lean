import DockLattice.Server.ProjectRecovery

/-!
# DockLattice.Server.ProjectOrder

Whether the project mirror follows the times at which the Server asked. A targeted merge takes its time
before it waits for its turn and then writes without comparing, and a stale snapshot replaces
everything but the fingerprint: the mirror is in order exactly when neither happens
(`in_order_iff`).
-/

namespace DockLattice.Server.ProjectMirror

open Bytes Operation Moments List

variable {o : Observation} {observations : List Observation} {agents : Text → Option AgentRow}

def ofProject (uid : Text) (observations : List Observation) : List Observation :=
  observations.filter fun o => o.uid = uid

/-- `o` is the one observation with the largest time. -/
def Newest (observations : List Observation) (o : Observation) : Prop :=
  ∃ l r, observations = l ++ o :: r ∧ ∀ o' ∈ l ++ r, o'.observedAt < o.observedAt

/-- The time that is stored of a project did not fall, and what is stored is what its newest
observation said. -/
def InOrder (agents : Text → Option AgentRow) (before : List Call) (call : Call) : Prop :=
  (∀ uid row t, (runAll (.fresh agents) before).projects.get uid = some row →
    row.flags.lastObservedAt = some t →
    ∃ row' t', (runAll (.fresh agents) (before ++ [call])).projects.get uid = some row' ∧
      row'.flags.lastObservedAt = some t' ∧ t ≤ t') ∧
  ∀ uid o, Newest (ofProject uid (history (.fresh agents) (before ++ [call]))) o →
    ∃ row, (runAll (.fresh agents) (before ++ [call])).projects.get uid = some row ∧
      row.flags.currentFingerprint = o.fingerprint ∧ row.flags.metadata = o.metadata

/-- A targeted snapshot of the call is not older than the row, and a stale snapshot that is newer
has the fingerprint of the row. -/
def Follows (agents : Text → Option AgentRow) (before : List Call) (call : Call) : Prop :=
  ∀ o ∈ call.observations (runAll (.fresh agents) before), ∀ row t,
    (runAll (.fresh agents) before).projects.get o.uid = some row →
    row.flags.lastObservedAt = some t →
      (o.targeted = true → t ≤ o.observedAt) ∧
      (o.stale = true → t < o.observedAt → row.flags.currentFingerprint = o.fingerprint)

/-! ## One project -/

theorem newest_snoc {last : Observation} :
    Newest (observations ++ [last]) o ↔
      (o = last ∧ ∀ o' ∈ observations, o'.observedAt < last.observedAt) ∨
        (Newest observations o ∧ last.observedAt < o.observedAt) := by
  constructor
  · intro h
    obtain ⟨l, r, hsplit, hbelow⟩ := h
    rcases eq_nil_or_concat r with hnil | ⟨r', x, hr⟩
    · subst hnil
      obtain ⟨hl, ho⟩ := append_inj' hsplit rfl
      cases ho
      subst hl
      refine .inl ⟨rfl, ?_⟩
      intro o' ho'
      exact hbelow o' (mem_append_left _ ho')
    · rw [hr, concat_eq_append, ← cons_append, ← append_assoc] at hsplit
      obtain ⟨hl, hx⟩ := append_inj' hsplit rfl
      cases hx
      rw [hr, concat_eq_append] at hbelow
      refine .inr ⟨⟨l, r', hl, ?_⟩, hbelow last (by simp)⟩
      intro o' ho'
      rcases mem_append.mp ho' with ho' | ho'
      · exact hbelow o' (by simp [ho'])
      · exact hbelow o' (by simp [ho'])
  · intro h
    rcases h with ⟨ho, hbelow⟩ | ⟨⟨l, r, hsplit, hbelow⟩, hlast⟩
    · subst ho
      exact ⟨observations, [], rfl, by simpa using hbelow⟩
    refine ⟨l, r ++ [last], by rw [hsplit, append_assoc, cons_append], ?_⟩
    rw [← append_assoc]
    exact forall_mem_append.mpr ⟨hbelow, forall_mem_singleton.mpr hlast⟩

/-- What is stored of a project has the largest time of its observations, and is what was said at
that time if it was said once. -/
def Tracks (observations : List Observation) : Option Observed → Prop
  | none => observations = []
  | some seen => ∃ t, seen.lastObservedAt = some t ∧
      (∀ o ∈ observations, o.observedAt ≤ t) ∧ (∃ o ∈ observations, o.observedAt = t) ∧
      ∀ o, Newest observations o → seen.fingerprint = o.fingerprint ∧ seen.metadata = o.metadata

theorem Tracks.first (o : Observation) : Tracks [o] (some (o.stored none)) := by
  refine ⟨o.observedAt, rfl, by simp, by simp, ?_⟩
  intro o' hnewest
  have hnewest : Newest ([] ++ [o]) o' := hnewest
  rcases newest_snoc.mp hnewest with ⟨ho', -⟩ | ⟨⟨l, r, hsplit, -⟩, -⟩
  · rw [ho']
    exact ⟨rfl, rfl⟩
  · cases l <;> cases hsplit

theorem Tracks.next {seen : Observed} {t : Time} (h : Tracks observations (some seen))
    (ht : seen.lastObservedAt = some t) (hle : t ≤ o.observedAt)
    (hstale : o.stale = true → t < o.observedAt → seen.fingerprint = o.fingerprint) :
    Tracks (observations ++ [o]) (some (o.stored (some seen))) := by
  obtain ⟨t', ht', hmax, ⟨top, htop, htopt⟩, -⟩ := h
  rw [ht] at ht'
  cases ht'
  refine ⟨o.observedAt, rfl, ?_, ⟨o, by simp, rfl⟩, ?_⟩
  · exact forall_mem_append.mpr ⟨fun o' ho' => (hmax o' ho').trans hle, by simp⟩
  intro o' hnewest
  rcases newest_snoc.mp hnewest with ⟨ho', hbelow⟩ | ⟨hnewest, hlast⟩
  · subst ho'
    have hlt : t < o'.observedAt := htopt ▸ hbelow top htop
    refine ⟨?_, rfl⟩
    cases hs : o'.stale with
    | false => simp [Observation.stored, hs]
    | true => simpa [Observation.stored, hs] using hstale hs hlt
  · -- an older observation cannot be above the one just stored
    obtain ⟨l, r, hsplit, -⟩ := hnewest
    have hle' := hmax o' (by rw [hsplit]; simp)
    exact absurd (hle'.trans hle) (not_le.mpr hlast)

theorem newest_of_lt {t : Time} (hmax : ∀ o' ∈ observations, o'.observedAt ≤ t)
    (hlt : t < o.observedAt) : Newest (observations ++ [o]) o := by
  refine newest_snoc.mpr (.inl ⟨rfl, ?_⟩)
  intro o' ho'
  exact lt_of_le_of_lt (hmax o' ho') hlt

/-! ## All projects -/

theorem ofProject_append (uid : Text) (h observations : List Observation)
    (hnodup : (observations.map Observation.uid).Nodup) :
    ofProject uid (h ++ observations) =
      ofProject uid h ++ (observations.find? fun o => o.uid = uid).toList := by
  unfold ofProject
  rw [filter_append]
  congr 1
  induction observations with
  | nil => rfl
  | cons o observations ih =>
    rw [map_cons, nodup_cons] at hnodup
    by_cases huid : o.uid = uid
    · subst huid
      have hnone : observations.filter (fun o' => o'.uid = o.uid) = [] := by
        rw [filter_eq_nil_iff]
        intro o' hm heq
        simp only [decide_eq_true_eq] at heq
        exact hnodup.1 (heq ▸ mem_map_of_mem hm)
      rw [filter_cons_of_pos (by simp), hnone, find?_cons_of_pos (by simp)]
      rfl
    · rw [filter_cons_of_neg (by simpa using huid), ih hnodup.2,
        find?_cons_of_neg (by simpa using huid)]

def AllTracked (agents : Text → Option AgentRow) (before : List Call) : Prop :=
  ∀ uid, Tracks (ofProject uid (history (.fresh agents) before))
    ((runAll (.fresh agents) before).view uid)

theorem AllTracked.row {calls : List Call} {uid : Text}
    (h : AllTracked agents calls) (ho : o ∈ ofProject uid (history (.fresh agents) calls)) :
    ∃ row t, (runAll (.fresh agents) calls).projects.get uid = some row ∧
      row.flags.lastObservedAt = some t ∧ o.observedAt ≤ t ∧
      ∀ o', Newest (ofProject uid (history (.fresh agents) calls)) o' →
        row.flags.currentFingerprint = o'.fingerprint ∧ row.flags.metadata = o'.metadata := by
  have htracks := h uid
  rw [Store.view] at htracks
  cases hrow : (runAll (.fresh agents) calls).projects.get uid with
  | none =>
    rw [hrow] at htracks
    rw [show ofProject uid _ = [] from htracks] at ho
    cases ho
  | some row =>
    rw [hrow] at htracks
    obtain ⟨t, ht, hmax, -, hcontent⟩ := htracks
    exact ⟨row, t, rfl, ht, hmax o ho, hcontent⟩

theorem AllTracked.next {before : List Call} {call : Call}
    (h : AllTracked agents before) (hfollows : Follows agents before call) :
    AllTracked agents (before ++ [call]) := by
  intro uid
  rw [runAll_snoc, history_snoc, run_view_apply, ofProject_append _ _ _ (observations_nodup _ call)]
  have hold := h uid
  cases hfind : (call.observations (runAll (.fresh agents) before)).find? fun o => o.uid = uid with
  | none => simpa using hold
  | some o =>
    have huid : o.uid = uid := by simpa using find?_some hfind
    have ho := mem_of_find?_eq_some hfind
    subst huid
    dsimp only [Option.toList]
    cases hview : (runAll (.fresh agents) before).view o.uid with
    | none =>
      rw [hview] at hold
      have hempty : ofProject o.uid (history (.fresh agents) before) = [] := hold
      rw [hempty]
      exact .first o
    | some seen =>
      rw [hview] at hold
      obtain ⟨row, hrow, rfl⟩ := Option.map_eq_some_iff.mp hview
      obtain ⟨t, ht, -⟩ := id hold
      obtain ⟨htargeted, hstale⟩ := hfollows o ho row t hrow ht
      refine Tracks.next hold ht ?_ hstale
      cases hkind : o.targeted with
      | true => exact htargeted hkind
      | false =>
        have hnewer := observation_newer ho hkind hrow
        have ht' : row.flags.lastObservedAt = some t := ht
        rw [ht', isNewerProjectObservation, decide_eq_true_eq] at hnewer
        exact hnewer.le

theorem inOrder_iff_follows {before : List Call}
    (h : AllTracked agents before) (call : Call) :
    InOrder agents before call ↔ Follows agents before call := by
  constructor
  · intro hin o ho row t hrow ht
    have hfind := find_observation ho
    have hview := run_view_apply (runAll (.fresh agents) before) call o.uid
    rw [hfind, Store.view, Store.view, hrow, ← runAll_snoc] at hview
    obtain ⟨row', hrow', hseen'⟩ := Option.map_eq_some_iff.mp hview
    constructor
    · intro _
      obtain ⟨row'', t', hrow'', ht', hle⟩ := hin.1 o.uid row t hrow ht
      rw [hrow'] at hrow''
      cases hrow''
      have htime : row'.flags.lastObservedAt = some o.observedAt :=
        congrArg Observed.lastObservedAt hseen'
      rw [ht', Option.some.injEq] at htime
      exact htime ▸ hle
    intro hstale hlt
    have htracks := h o.uid
    rw [Store.view, hrow] at htracks
    obtain ⟨t', ht', hmax, -⟩ := htracks
    have ht'' : row.flags.lastObservedAt = some t' := ht'
    rw [ht, Option.some.injEq] at ht''
    subst ht''
    have hnewest : Newest (ofProject o.uid (history (.fresh agents) (before ++ [call]))) o := by
      rw [history_snoc, ofProject_append _ _ _ (observations_nodup _ call), hfind]
      exact newest_of_lt hmax hlt
    obtain ⟨row'', hrow'', hfp, -⟩ := hin.2 o.uid o hnewest
    rw [hrow'] at hrow''
    cases hrow''
    have hkept : row'.flags.currentFingerprint = row.flags.currentFingerprint := by
      have hstored := congrArg Observed.fingerprint hseen'
      simpa [Observation.stored, hstale, Row.observed] using hstored
    rw [← hkept]
    exact hfp
  · intro hfollows
    have hnext := h.next hfollows
    constructor
    · intro uid row t hrow ht
      have hold := h uid
      rw [Store.view, hrow] at hold
      obtain ⟨t', ht', -, ⟨top, htop, rfl⟩, -⟩ := hold
      obtain rfl : t = top.observedAt := Option.some.inj (ht.symm.trans ht')
      -- what was observed at the time of the row is still part of the history
      have hstill : top ∈ ofProject uid (history (.fresh agents) (before ++ [call])) := by
        rw [history_snoc, ofProject, filter_append]
        exact mem_append_left _ htop
      obtain ⟨row', t', hrow', ht', hle, -⟩ := hnext.row hstill
      exact ⟨row', t', hrow', ht', hle⟩
    · intro uid o hnewest
      obtain ⟨l, r, hsplit, -⟩ := id hnewest
      obtain ⟨row, -, hrow, -, -, hcontent⟩ := hnext.row (o := o) (by rw [hsplit]; simp)
      exact ⟨row, hrow, hcontent o hnewest⟩

/-- Over any merges of any Agents, in any order of commits: the times never fall and every project
holds its newest observation exactly when no targeted merge writes an older snapshot than the row
holds and no newer stale snapshot brings a fingerprint of its own. An observation has the services
that the Compose files define; those of the running containers are facts of Docker, which a targeted
snapshot does not carry, and are left out. -/
theorem in_order_iff (agents : Text → Option AgentRow) (calls : List Call) :
    AtEachStep (InOrder agents) calls ↔ AtEachStep (Follows agents) calls := by
  refine atEachStep_iff (I := AllTracked agents) ?_ ?_ ?_ calls
  · intro uid
    rfl
  · intro before call h
    exact inOrder_iff_follows h call
  · intro before call h hfollows
    exact h.next hfollows

/-! ## The mirror goes backwards -/

def freshSnapshot (fingerprint : Text) : Snapshot :=
  { appSnapshot with currentFingerprint := fingerprint, restoreRecoveryRequired := false }

/-- A scan, and two refreshes of its project: the one that asked at 2 commits after the one that
asked at 3. -/
def overtakenRefresh : List Call :=
  [.full (text "agent") ⟨1, false⟩ [freshSnapshot (text "f1")] [] 1,
    .targeted (text "agent") (freshSnapshot (text "f3")) false 3 3,
    .targeted (text "agent") (freshSnapshot (text "f2")) false 2 4]

theorem overtakenRefresh_falls :
    ((runAll (.fresh oneAgent) overtakenRefresh).projects.get
      (projectUid (text "agent") (text "/srv/app"))).map
        (fun row => (row.flags.lastObservedAt, row.flags.currentFingerprint)) =
      some (some 2, text "f2") ∧
    ¬ AtEachStep (InOrder oneAgent) overtakenRefresh := by
  refine (and_iff_left_of_imp ?_).mpr (by decide +kernel)
  intro hlast hin
  have hbefore : ((runAll (.fresh oneAgent) (overtakenRefresh.take 2)).projects.get
      (projectUid (text "agent") (text "/srv/app"))).map
        (fun row => row.flags.lastObservedAt) = some (some 3) := by
    decide +kernel
  obtain ⟨row, hrow, ht⟩ := Option.map_eq_some_iff.mp hbefore
  obtain ⟨row', t', hrow', ht', hle⟩ :=
    (hin (overtakenRefresh.take 2) _ [] rfl).1 _ row 3 hrow ht
  have hrow' : (runAll (.fresh oneAgent) overtakenRefresh).projects.get
      (projectUid (text "agent") (text "/srv/app")) = some row' := hrow'
  rw [hrow'] at hlast
  simp only [Option.map_some, Option.some.injEq, Prod.mk.injEq] at hlast
  rw [ht', Option.some.injEq] at hlast
  rw [hlast.1] at hle
  exact absurd hle (by decide)

end DockLattice.Server.ProjectMirror
