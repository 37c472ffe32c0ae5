import DockLattice.Server.Idempotent

/-!
# DockLattice.Server.Baseline

The drift baseline of a project: the fingerprint of its files that the Server stores when a
`compose.up` succeeds (`serverapi/projects.go`).

`mergeAndSyncOperation` asks the Agent for the project and stores the answer if the merged row says
`success`. The status is the one of the row, not of the change that the merge made; so a lookup of an
operation that succeeded long ago takes the files of today as the baseline (`established`).
-/

namespace DockLattice.Server

open Bytes Operation Function

variable {agentId uid : Text} {insert : Bool} {op : WebOperation} {projects projects' : Projects}
  {spec : OperationSpec}

/-! ## The targeted refresh of a project -/

structure ProjectSnapshot where
  uid : Text
  workingDir : Text
  name : Text
  stale : Bool
  composeExecutable : Bool
  currentFingerprint : Text
  deriving DecidableEq, Repr

def driftStatus (applied current : Text) : Drift :=
  if applied = [] then .noBaseline else if applied = current then .inSync else .changed

def observedFlags (prior : ProjectFlags) (item : ProjectSnapshot) (applied : Text) :
    ProjectFlags where
  stale := item.stale
  composeExecutable := item.composeExecutable
  currentFingerprint := if item.stale then prior.currentFingerprint else item.currentFingerprint
  lastVerifiedFingerprint :=
    if item.stale then prior.lastVerifiedFingerprint else item.currentFingerprint
  drift := if item.stale then prior.drift else driftStatus applied item.currentFingerprint

def targetedRow (row : ProjectRow) (item : ProjectSnapshot) (establishBaseline : Bool) :
    ProjectRow :=
  let applied := if establishBaseline then item.currentFingerprint else row.applied
  { row with
    name := if item.name = [] then row.name else item.name
    applied := applied
    flags := observedFlags row.flags item applied }

def mergeTargetedProjectSnapshot (projects : Projects) (agentId : Text) (item : ProjectSnapshot)
    (establishBaseline : Bool) : Except ServerError Projects :=
  match projects item.uid with
  | none => .error (.conflict "project is not present in the Server mirror")
  | some row =>
    if row.agentId ≠ agentId then
      .error (.conflict "project is not present in the Server mirror")
    else if row.workingDir ≠ item.workingDir then .error (.corruptData "projects identity")
    else .ok (Function.update projects item.uid (some (targetedRow row item establishBaseline)))

/-- `answer` is what the Agent returns for `project.snapshot`, after the Server's validation. -/
def syncProjectAfterManagedChange (projects : Projects) (agentId projectUid : Text)
    (establishBaseline : Bool) (answer : Except ServerError ProjectSnapshot) :
    Except ServerError Projects :=
  if !hexDigest projectUid then .error (.invalidRequest "invalid project identity")
  else
    match answer with
    | .error e => .error e
    | .ok item =>
      if item.uid ≠ projectUid then .error (.corruptData "Agent targeted project identity")
      else if establishBaseline && (item.stale || !item.composeExecutable) then
        .error (.conflict
          "successful compose.up did not yield a current executable project snapshot")
      else mergeTargetedProjectSnapshot projects agentId item establishBaseline

/-! ## The endpoints -/

structure Mirror where
  operations : Operations
  projects : Projects

def requiresTargetedProjectSync (kind : Text) : Bool :=
  [text "compose.up", text "compose.file.write", text "env.write", text "override.write",
    text "backup.restore"].contains kind

structure Surroundings where
  now : Time
  answer : Except ServerError ProjectSnapshot

def mergeAndSyncOperation (m : Mirror) (spec : OperationSpec) (incoming : WebOperation)
    (insert : Bool) (w : Surroundings) : Mirror × Except ServerError WebOperation :=
  match mergeOperation m.operations spec incoming insert w.now with
  | (rows, .error e) => (⟨rows, m.projects⟩, .error e)
  | (rows, .ok canonical) =>
    if canonical.status ≠ text "success" ∨ requiresTargetedProjectSync spec.kind = false ∨
        spec.projectUid = [] then
      (⟨rows, m.projects⟩, .ok canonical)
    else
      match syncProjectAfterManagedChange m.projects spec.agentId spec.projectUid
        (spec.kind == text "compose.up") w.answer with
      | .error e => (⟨rows, m.projects⟩, .error e)
      | .ok projects => (⟨rows, projects⟩, .ok canonical)

def findOperationSpec (rows : Operations) (agentId operationId : Text) :
    Except ServerError (Option OperationSpec) :=
  match rows operationId with
  | none => .ok none
  | some row =>
    if row.agentId ≠ agentId then .error (.conflict "operation ID belongs to a different Agent")
    else .ok (some (row.spec operationId))

/-- `GetOperation` and `CancelOperation`: they differ in what they ask the Agent, and treat its
reply (`none` if it does not know the operation) alike. -/
def refreshOperation (m : Mirror) (agentId operationId : Text)
    (reply : Except ServerError (Option Response)) (w : Surroundings) :
    Mirror × Except ServerError WebOperation :=
  match findOperationSpec m.operations agentId operationId, reply with
  | .error e, _ => (m, .error e)
  | .ok _, .error e => (m, .error e)
  | .ok _, .ok none => (m, .error (.notFound "operation"))
  | .ok none, .ok (some _) =>
    (m, .error (.conflict "Agent operation has no Server request metadata"))
  | .ok (some spec), .ok (some response) =>
    match operationFromAgent operationId response with
    | .error e => (m, .error e)
    | .ok operation => mergeAndSyncOperation m spec operation false w

def checkOperationSpec (rows : Operations) (spec : OperationSpec) : Except ServerError Unit :=
  match rows spec.id with
  | none => .ok ()
  | some row =>
    if row.spec spec.id ≠ spec then
      .error (.conflict "operation ID is already bound to a different Agent or request")
    else .ok ()

def dispatchOperation (m : Mirror) (spec : OperationSpec) (reply : Except ServerError Response)
    (w : Surroundings) : Mirror × Except ServerError WebOperation :=
  match checkOperationSpec m.operations spec, reply with
  | .error e, _ => (m, .error e)
  | .ok (), .error e => (m, .error e)
  | .ok (), .ok response =>
    match operationFromAgent spec.id response with
    | .error e => (m, .error e)
    | .ok operation => mergeAndSyncOperation m spec operation true w

/-! ## Discovery -/

/-- One project of a whole discovery; `newer` is the comparison of the observation times. -/
structure Discovered where
  snapshot : ProjectSnapshot
  newer : Bool
  deriving DecidableEq, Repr

/-- One turn of the loop of `mergeProjectSnapshotWithDockerObserved`. -/
def mergeDiscovered (agentId : Text) (projects : Projects) (d : Discovered) :
    Except ServerError Projects :=
  let item := d.snapshot
  match projects item.uid with
  | none =>
    .ok (Function.update projects item.uid (some ⟨agentId, item.workingDir, item.name, [],
      ⟨item.stale, item.composeExecutable, item.currentFingerprint, item.currentFingerprint,
        driftStatus [] item.currentFingerprint⟩⟩))
  | some row =>
    if row.agentId ≠ agentId ∨ row.workingDir ≠ item.workingDir then
      .error (.corruptData "projects identity")
    else if !d.newer then .ok projects
    else
      .ok (Function.update projects item.uid (some { row with
        name := if item.stale ∧ row.name ≠ [] ∨ item.name = [] then row.name else item.name
        flags := observedFlags row.flags item row.applied }))

/-- Projects of the Agent that a complete scan did not find stay, as stale ones. -/
def markMissing (agentId : Text) (seen : List Text) (projects : Projects) : Projects := fun uid =>
  (projects uid).map fun row =>
    if row.agentId = agentId ∧ uid ∉ seen then
      { row with flags := { row.flags with stale := true, composeExecutable := false } }
    else row

def mergeProjectSnapshot (projects : Projects) (agentId : Text) (truncated : Bool)
    (items : List Discovered) : Except ServerError Projects :=
  match items.foldlM (mergeDiscovered agentId) projects with
  | .error e => .error e
  | .ok merged =>
    .ok (if truncated then merged else markMissing agentId (items.map (·.snapshot.uid)) merged)

/-! ## Who writes the baseline -/

def baseline (projects : Projects) (uid : Text) : Text :=
  match projects uid with
  | none => []
  | some row => row.applied

def refreshable (projects : Projects) (agentId uid : Text) (item : ProjectSnapshot) : Bool :=
  hexDigest uid && item.uid == uid &&
    (projects uid).any fun row => row.agentId == agentId && row.workingDir == item.workingDir

/-- The fingerprint that `mergeAndSyncOperation` stores as the baseline of its project. -/
def established (m : Mirror) (spec : OperationSpec) (incoming : WebOperation) (insert : Bool)
    (w : Surroundings) : Option Text :=
  match (mergeOperation m.operations spec incoming insert w.now).2, w.answer with
  | .ok canonical, .ok item =>
    if canonical.status = text "success" ∧ spec.kind = text "compose.up" ∧
        refreshable m.projects spec.agentId spec.projectUid item = true ∧ item.stale = false ∧
        item.composeExecutable = true then
      some item.currentFingerprint
    else none
  | _, _ => none

theorem baseline_update (projects : Projects) (uid : Text) (row : ProjectRow) :
    baseline (update projects uid (some row)) =
      update (baseline projects) uid row.applied := by
  funext u
  by_cases h : u = uid
  · subst h; simp [baseline]
  · simp [baseline, update_of_ne h]

theorem baseline_update_self {row row' : ProjectRow} (h : projects uid = some row)
    (ha : row'.applied = row.applied) :
    baseline (update projects uid (some row')) = baseline projects := by
  rw [baseline_update, ha]
  have : baseline projects uid = row.applied := by simp [baseline, h]
  rw [← this, update_eq_self]

theorem sync_ok {establishBaseline : Bool} {item : ProjectSnapshot}
    (h : syncProjectAfterManagedChange projects agentId uid establishBaseline (.ok item) =
      .ok projects') :
    refreshable projects agentId uid item = true ∧
      (establishBaseline = true → item.stale = false ∧ item.composeExecutable = true) ∧
      baseline projects' = if establishBaseline then
        update (baseline projects) uid item.currentFingerprint else baseline projects := by
  unfold syncProjectAfterManagedChange at h
  split at h
  · cases h
  next hhex =>
  dsimp only at h
  split at h
  · cases h
  next huid =>
  split at h
  · cases h
  next hfresh =>
  simp only [ne_eq, Decidable.not_not] at huid
  subst huid
  unfold mergeTargetedProjectSnapshot at h
  split at h
  · cases h
  next row hrow =>
  split at h
  · cases h
  split at h
  · cases h
  next hagent hdir =>
  cases h
  refine ⟨by simp_all [refreshable], fun he => by simpa [he] using hfresh, ?_⟩
  cases establishBaseline with
  | true => exact baseline_update _ _ _
  | false => exact baseline_update_self hrow rfl

theorem sync_succeeds {item : ProjectSnapshot} (h : refreshable projects agentId uid item = true)
    (hstale : item.stale = false) (hexec : item.composeExecutable = true)
    (establishBaseline : Bool) :
    ∃ projects', syncProjectAfterManagedChange projects agentId uid establishBaseline
      (.ok item) = .ok projects' := by
  simp only [refreshable, Bool.and_eq_true, beq_iff_eq] at h
  obtain ⟨⟨hhex, rfl⟩, hrow⟩ := h
  unfold syncProjectAfterManagedChange mergeTargetedProjectSnapshot
  cases hp : projects item.uid with
  | none => rw [hp] at hrow; cases hrow
  | some row =>
    rw [hp] at hrow
    simp only [Option.any_some, Bool.and_eq_true, beq_iff_eq] at hrow
    simp [hhex, hstale, hexec, hp, hrow.1, hrow.2]

theorem mergeAndSync_baseline (m : Mirror) (spec : OperationSpec) (incoming : WebOperation)
    (insert : Bool) (w : Surroundings) :
    baseline (mergeAndSyncOperation m spec incoming insert w).1.projects =
      match established m spec incoming insert w with
      | none => baseline m.projects
      | some f => update (baseline m.projects) spec.projectUid f := by
  obtain ⟨now, answer⟩ := w
  unfold mergeAndSyncOperation established
  dsimp only
  generalize mergeOperation m.operations spec incoming insert now = merged
  obtain ⟨rows, result⟩ := merged
  cases result with
  | error e => rfl
  | ok canonical =>
    dsimp only
    cases answer with
    | error e =>
      have hfail : ∃ e', syncProjectAfterManagedChange m.projects spec.agentId spec.projectUid
          (spec.kind == text "compose.up") (.error e) = .error e' := by
        unfold syncProjectAfterManagedChange
        split <;> exact ⟨_, rfl⟩
      obtain ⟨e', he'⟩ := hfail
      rw [he']
      split <;> rfl
    | ok item =>
      dsimp only
      by_cases hskip : canonical.status ≠ text "success" ∨
          requiresTargetedProjectSync spec.kind = false ∨ spec.projectUid = []
      · -- nothing is refreshed, and none of the three reasons admits a new baseline
        rw [if_pos hskip, if_neg]
        rintro ⟨hs, hk, hr, -⟩
        rcases hskip with h | h | h
        · exact h hs
        · rw [hk] at h; exact absurd h (by decide +kernel)
        · rw [h] at hr; cases hr
      rw [if_neg hskip]
      simp only [not_or, ne_eq, Decidable.not_not] at hskip
      cases hsync : syncProjectAfterManagedChange m.projects spec.agentId spec.projectUid
          (spec.kind == text "compose.up") (.ok item) with
      | error e =>
        dsimp only
        rw [if_neg]
        rintro ⟨-, hk, hr, hstale, hexec⟩
        obtain ⟨p, hp⟩ := sync_succeeds hr hstale hexec (spec.kind == text "compose.up")
        rw [hp] at hsync
        cases hsync
      | ok projects =>
        dsimp only
        obtain ⟨hr, hfresh, hbase⟩ := sync_ok hsync
        rw [hbase]
        by_cases hk : spec.kind = text "compose.up"
        · have hk' : (spec.kind == text "compose.up") = true := by rw [hk]; exact beq_self_eq_true _
          obtain ⟨hstale, hexec⟩ := hfresh hk'
          rw [if_pos hk', if_pos ⟨hskip.1, hk, hr, hstale, hexec⟩]
        · have hk' : ¬ (spec.kind == text "compose.up") = true := by simpa using hk
          rw [if_neg hk', if_neg (fun h => hk h.2.1)]

theorem mergeDiscovered_baseline {d : Discovered}
    (h : mergeDiscovered agentId projects d = .ok projects') :
    baseline projects' = baseline projects := by
  unfold mergeDiscovered at h
  dsimp only at h
  split at h
  · next hnone =>
    cases h
    rw [baseline_update]
    have : baseline projects d.snapshot.uid = [] := by simp [baseline, hnone]
    rw [← this, update_eq_self]
  · next row hrow =>
    repeat' split at h
    all_goals cases h
    · rfl
    all_goals exact baseline_update_self hrow rfl

theorem markMissing_baseline (agentId : Text) (seen : List Text) (projects : Projects) :
    baseline (markMissing agentId seen projects) = baseline projects := by
  funext uid
  unfold baseline markMissing
  cases projects uid with
  | none => rfl
  | some row =>
    simp only [Option.map_some]
    split <;> rfl

theorem foldlM_mergeDiscovered_baseline {items : List Discovered}
    (h : items.foldlM (mergeDiscovered agentId) projects = .ok projects') :
    baseline projects' = baseline projects := by
  induction items generalizing projects with
  | nil => cases h; rfl
  | cons d items ih =>
    rw [List.foldlM_cons] at h
    cases hd : mergeDiscovered agentId projects d with
    | error e => rw [hd] at h; cases h
    | ok next =>
      rw [hd] at h
      exact (ih h).trans (mergeDiscovered_baseline hd)

theorem mergeProjectSnapshot_baseline {truncated : Bool} {items : List Discovered}
    (h : mergeProjectSnapshot projects agentId truncated items = .ok projects') :
    baseline projects' = baseline projects := by
  unfold mergeProjectSnapshot at h
  split at h
  · cases h
  next merged hm =>
  cases h
  split
  · exact foldlM_mergeDiscovered_baseline hm
  · rw [markMissing_baseline, foldlM_mergeDiscovered_baseline hm]

/-! ## Calls for one operation -/

inductive Call where
  | get (reply : Except ServerError (Option Response)) (w : Surroundings)
  | cancel (reply : Except ServerError (Option Response)) (w : Surroundings)
  | start (projectUid kind target : Text) (reply : Except ServerError Response) (w : Surroundings)

def Call.apply (agentId operationId : Text) (m : Mirror) : Call → Mirror
  | .get reply w | .cancel reply w => (refreshOperation m agentId operationId reply w).1
  | .start projectUid kind target reply w =>
    (dispatchOperation m ⟨operationId, agentId, projectUid, kind, target⟩ reply w).1

def Call.surroundings : Call → Surroundings
  | .get _ w | .cancel _ w | .start _ _ _ _ w => w

def Call.response : Call → Option Response
  | .get reply _ | .cancel reply _ => reply.toOption.join
  | .start _ _ _ reply _ => reply.toOption

/-- What a call hands to `mergeAndSyncOperation`, if it comes that far. -/
def Call.merge (agentId operationId : Text) (m : Mirror) :
    Call → Option (OperationSpec × WebOperation × Bool)
  | .get reply _ | .cancel reply _ =>
    match findOperationSpec m.operations agentId operationId, reply with
    | .ok (some spec), .ok (some response) =>
      match operationFromAgent operationId response with
      | .error _ => none
      | .ok operation => some (spec, operation, false)
    | _, _ => none
  | .start projectUid kind target reply _ =>
    match checkOperationSpec m.operations ⟨operationId, agentId, projectUid, kind, target⟩,
      reply with
    | .ok (), .ok response =>
      match operationFromAgent operationId response with
      | .error _ => none
      | .ok operation => some (⟨operationId, agentId, projectUid, kind, target⟩, operation, true)
    | _, _ => none

theorem Call.apply_eq (agentId operationId : Text) (m : Mirror) (c : Call) :
    c.apply agentId operationId m =
      match c.merge agentId operationId m with
      | none => m
      | some (spec, op, insert) => (mergeAndSyncOperation m spec op insert c.surroundings).1 := by
  cases c with
  | get reply w | cancel reply w =>
    unfold Call.apply refreshOperation Call.merge
    rcases findOperationSpec m.operations agentId operationId with e | _ | spec <;>
      rcases reply with e | _ | response <;> try rfl
    dsimp only
    cases operationFromAgent operationId response <;> rfl
  | start projectUid kind target reply w =>
    unfold Call.apply dispatchOperation Call.merge
    dsimp only
    cases checkOperationSpec m.operations ⟨operationId, agentId, projectUid, kind, target⟩ with
    | error e => cases reply <;> rfl
    | ok u =>
      cases reply with
      | error e => rfl
      | ok reply =>
        dsimp only
        cases operationFromAgent operationId reply <;> rfl

theorem Call.merge_spec {operationId : Text} {m : Mirror} {c : Call}
    (h : c.merge agentId operationId m = some (spec, op, insert)) :
    spec.id = operationId ∧
      ∃ response, c.response = some response ∧ op.revision = response.revision := by
  cases c with
  | get reply w | cancel reply w =>
    unfold Call.merge at h
    dsimp only at h
    split at h
    · next hspec =>
      split at h
      · cases h
      next hop =>
      cases h
      refine ⟨?_, _, rfl, operationFromAgent_revision hop⟩
      unfold findOperationSpec at hspec
      split at hspec
      · cases hspec
      · split at hspec
        · cases hspec
        · cases hspec; rfl
    · cases h
  | start projectUid kind target reply w =>
    unfold Call.merge at h
    dsimp only at h
    split at h
    · split at h
      · cases h
      · next hop =>
        cases h
        exact ⟨rfl, _, rfl, operationFromAgent_revision hop⟩
    · cases h

def runCalls (agentId operationId : Text) (m : Mirror) (calls : List Call) : Mirror :=
  calls.foldl (Call.apply agentId operationId) m

/-- The row whose lookups write a baseline: a successful `compose.up` of a project of the Agent. -/
def OperationRow.Rebaselines (row : OperationRow) (projects : Projects) : Prop :=
  row.status = text "success" ∧ row.kind = text "compose.up" ∧
    hexDigest row.projectUid = true ∧ projects.owns row.agentId row.projectUid = true

section Calls

variable {m : Mirror} {operationId : Text} {row : OperationRow}

theorem judgeOperation_status {canonical : WebOperation}
    (h : judgeOperation spec op row = .ok canonical) :
    canonical.status = row.status ∧ row.spec spec.id = spec := by
  unfold judgeOperation scanOperation at h
  by_cases hvalid : Utf8.valid row.outputTail = true
  · rw [if_pos hvalid] at h
    dsimp only at h
    split at h
    · cases h
    next hspec =>
    repeat' split at h
    all_goals cases h
    · exact ⟨rfl, not_not.mp hspec⟩
    · exact ⟨rfl, not_not.mp hspec⟩
  · rw [if_neg hvalid] at h
    cases h

theorem mergeOperation_same_revision {rows : Operations} {now : Time}
    (hrow : rows spec.id = some row) (hrev : op.revision = row.revision) :
    (mergeOperation rows spec op insert now).1 = rows ∧
      ∀ canonical, (mergeOperation rows spec op insert now).2 = .ok canonical →
        canonical.status = row.status ∧ row.spec spec.id = spec := by
  unfold mergeOperation
  rw [persistOperation_self hrow hrev.symm]
  refine ⟨?_, ?_⟩
  · show update rows spec.id (some row) = rows
    rw [← hrow]
    exact update_eq_self spec.id rows
  · intro canonical h
    exact judgeOperation_status h

theorem mergeAndSync_operations (m : Mirror) (spec : OperationSpec) (op : WebOperation)
    (insert : Bool) (w : Surroundings) :
    (mergeAndSyncOperation m spec op insert w).1.operations =
      (mergeOperation m.operations spec op insert w.now).1 := by
  unfold mergeAndSyncOperation
  split
  · next h => rw [h]
  next h =>
  rw [h]
  repeat' split
  all_goals rfl

theorem established_rebaselines {w : Surroundings} {f : Text}
    (hrow : m.operations spec.id = some row) (hrev : op.revision = row.revision)
    (h : established m spec op insert w = some f) : row.Rebaselines m.projects := by
  unfold established at h
  split at h
  · next canonical item hok hanswer =>
    split at h
    · next hcond =>
      obtain ⟨hs, hk, hr, -⟩ := hcond
      obtain ⟨hstatus, hspec⟩ := (mergeOperation_same_revision hrow hrev).2 canonical hok
      have hkind : row.kind = spec.kind := congrArg OperationSpec.kind hspec
      have huid : row.projectUid = spec.projectUid := congrArg OperationSpec.projectUid hspec
      have hagent : row.agentId = spec.agentId := congrArg OperationSpec.agentId hspec
      simp only [refreshable, Bool.and_eq_true] at hr
      refine ⟨hstatus.symm.trans hs, hkind.trans hk, huid ▸ hr.1.1, ?_⟩
      rw [huid, hagent]
      unfold Projects.owns
      cases hp : m.projects spec.projectUid with
      | none => rw [hp] at hr; cases hr.2
      | some p =>
        rw [hp] at hr
        simp only [Option.any_some, Bool.and_eq_true] at hr
        exact hr.2.1
    · cases h
  · cases h

/-- A call that finds its row at the Agent's revision keeps the row, and keeps every baseline unless
the row is that of a successful `compose.up`. -/
theorem Call.apply_same {c : Call} (hrow : m.operations operationId = some row)
    (hrev : ∀ response, c.response = some response → response.revision = row.revision) :
    (c.apply agentId operationId m).operations = m.operations ∧
      (¬ row.Rebaselines m.projects →
        baseline (c.apply agentId operationId m).projects = baseline m.projects) := by
  rw [Call.apply_eq]
  cases hm : c.merge agentId operationId m with
  | none => exact ⟨rfl, fun _ => rfl⟩
  | some p =>
    obtain ⟨spec, op, insert⟩ := p
    obtain ⟨rfl, response, hresponse, hop⟩ := Call.merge_spec hm
    have hrev' : op.revision = row.revision := hop.trans (hrev response hresponse)
    refine ⟨?_, fun hnot => ?_⟩
    · dsimp only
      rw [mergeAndSync_operations, (mergeOperation_same_revision hrow hrev').1]
    dsimp only
    rw [mergeAndSync_baseline]
    cases he : established m spec op insert c.surroundings with
    | none => rfl
    | some f => exact absurd (established_rebaselines hrow hrev' he) hnot

theorem sync_owns {establishBaseline : Bool} {answer : Except ServerError ProjectSnapshot}
    (h : syncProjectAfterManagedChange projects agentId uid establishBaseline answer = .ok projects') :
    projects'.owns = projects.owns := by
  unfold syncProjectAfterManagedChange mergeTargetedProjectSnapshot at h
  repeat' split at h
  all_goals cases h
  next row hrow _ _ =>
  funext a u
  unfold Projects.owns
  by_cases hu : u = ‹ProjectSnapshot›.uid
  · subst hu
    rw [update_self, hrow]
    rfl
  · rw [update_of_ne hu]

theorem Call.apply_owns (agentId operationId : Text) (m : Mirror) (c : Call) :
    (c.apply agentId operationId m).projects.owns = m.projects.owns := by
  rw [Call.apply_eq]
  split
  · rfl
  · unfold mergeAndSyncOperation
    repeat' split
    all_goals first | rfl | exact sync_owns ‹_›

theorem runCalls_same {calls : List Call} (hrow : m.operations operationId = some row)
    (hrev : ∀ c ∈ calls, ∀ response, c.response = some response →
      response.revision = row.revision) (hnot : ¬ row.Rebaselines m.projects) :
    baseline (runCalls agentId operationId m calls).projects = baseline m.projects := by
  induction calls generalizing m with
  | nil => rfl
  | cons c calls ih =>
    obtain ⟨hops, hbase⟩ := Call.apply_same hrow (hrev c (List.mem_cons_self ..))
    have hnot' : ¬ row.Rebaselines (c.apply agentId operationId m).projects := by
      unfold OperationRow.Rebaselines at *
      rw [Call.apply_owns]
      exact hnot
    have hnext := ih (show (c.apply agentId operationId m).operations operationId = some row by
      rw [hops]; exact hrow) (fun c' hc' => hrev c' (List.mem_cons_of_mem _ hc')) hnot'
    exact hnext.trans (hbase hnot)

theorem exists_moving_call {r : WebOperation} {response : Response}
    (hrow : m.operations operationId = some row) (hagent : row.agentId = agentId)
    (hresponse : operationFromAgent operationId response = .ok r)
    (hm : row.Mirrors (row.spec operationId) r) (hrev : row.revision = r.revision)
    (h : row.Rebaselines m.projects) :
    ∃ c : Call, c.response = some response ∧
      baseline (c.apply agentId operationId m).projects ≠ baseline m.projects := by
  obtain ⟨hstatus, hkind, hhex, howns⟩ := h
  obtain ⟨p, hp, hpagent⟩ : ∃ p, m.projects row.projectUid = some p ∧ p.agentId = row.agentId := by
    unfold Projects.owns at howns
    split at howns
    · next p hp => exact ⟨p, hp, beq_iff_eq.mp howns⟩
    · cases howns
  -- an edit after which the fingerprint is another one than the baseline
  obtain ⟨f, hf⟩ : ∃ f : Text, f ≠ baseline m.projects row.projectUid := by
    by_cases hb : baseline m.projects row.projectUid = List.replicate 64 0x61
    · exact ⟨List.replicate 64 0x62, fun h => absurd (h.trans hb) (by decide)⟩
    · exact ⟨List.replicate 64 0x61, fun h => hb h.symm⟩
  let item : ProjectSnapshot := ⟨row.projectUid, p.workingDir, text "project", false, true, f⟩
  let w : Surroundings := ⟨0, .ok item⟩
  refine ⟨.get (.ok (some response)) w, rfl, ?_⟩
  have hmerge : Call.merge agentId operationId m (.get (.ok (some response)) w) =
      some (row.spec operationId, r, false) := by
    unfold Call.merge findOperationSpec
    simp [hrow, hagent, hresponse]
  rw [Call.apply_eq, hmerge]
  dsimp only
  rw [mergeAndSync_baseline]
  have hestablished : established m (row.spec operationId) r false w = some f := by
    obtain ⟨-, op, hop⟩ := mergeOperation_again hrow hm hrev false w.now
    obtain ⟨hs, -⟩ := (mergeOperation_same_revision hrow hrev.symm).2 op hop
    unfold established
    rw [hop]
    dsimp only [w]
    rw [if_pos]
    refine ⟨hs.trans hstatus, hkind, ?_, rfl, rfl⟩
    simp [refreshable, OperationRow.spec, item, hhex, hp, hpagent]
  rw [show Call.surroundings (.get (.ok (some response)) w) = w from rfl, hestablished]
  intro heq
  have hat : update (baseline m.projects) row.projectUid f row.projectUid =
      baseline m.projects row.projectUid := congrFun heq row.projectUid
  rw [update_self] at hat
  exact hf hat

end Calls

/-! ## Runs of the Server -/

inductive ServerEvent where
  | call (agentId operationId : Text) (c : Call)
  | recover (items : List RecoveredOperation)
  | discover (agentId : Text) (truncated : Bool) (items : List Discovered)

/-- The tables, and per project the fingerprint that was observed when its latest `compose.up` first
became `success` in the table. -/
structure Traced where
  mirror : Mirror
  observed : Text → Text

def succeeded (m : Mirror) (operationId : Text) : Bool :=
  (m.operations operationId).any fun row => row.status == text "success"

def Traced.observe (t : Traced) (c : Call) :
    Option (OperationSpec × WebOperation × Bool) → Text → Text
  | none => t.observed
  | some (spec, op, insert) =>
    match established t.mirror spec op insert c.surroundings with
    | none => t.observed
    | some f =>
      if succeeded t.mirror spec.id then t.observed
      else Function.update t.observed spec.projectUid f

def Traced.step (t : Traced) : ServerEvent → Traced
  | .call agentId operationId c =>
    ⟨c.apply agentId operationId t.mirror, t.observe c (c.merge agentId operationId t.mirror)⟩
  | .recover items =>
    { t with mirror := { t.mirror with
      operations := (mergeRecoveredOperations t.mirror.projects t.mirror.operations items).1 } }
  | .discover agentId truncated items =>
    match mergeProjectSnapshot t.mirror.projects agentId truncated items with
    | .error _ => t
    | .ok projects => { t with mirror := { t.mirror with projects := projects } }

/-- Every baseline is what was observed when the latest `compose.up` became successful. -/
def Traced.Holds (t : Traced) : Prop := baseline t.mirror.projects = t.observed

/-- The event does not write a baseline for an operation that had succeeded before, unless the files
are the ones of the baseline. -/
def Traced.Clean (t : Traced) : ServerEvent → Prop
  | .call agentId operationId c =>
    ∀ spec op insert, c.merge agentId operationId t.mirror = some (spec, op, insert) →
      succeeded t.mirror spec.id = true → ∀ f,
      established t.mirror spec op insert c.surroundings = some f → f = t.observed spec.projectUid
  | .recover _ | .discover _ _ _ => True

def Traced.HoldsThroughout (t : Traced) : List ServerEvent → Prop
  | [] => t.Holds
  | e :: events => t.Holds ∧ (t.step e).HoldsThroughout events

def Traced.CleanThroughout (t : Traced) : List ServerEvent → Prop
  | [] => True
  | e :: events => t.Clean e ∧ (t.step e).CleanThroughout events

theorem Traced.holds_step_iff {t : Traced} (h : t.Holds) (e : ServerEvent) :
    (t.step e).Holds ↔ t.Clean e := by
  unfold Traced.Holds at h
  cases e with
  | recover items => exact iff_of_true h trivial
  | discover agentId truncated items =>
    refine iff_of_true ?_ trivial
    unfold Traced.step
    dsimp only
    split
    · exact h
    · next projects hp => exact (mergeProjectSnapshot_baseline hp).trans h
  | call agentId operationId c =>
    unfold Traced.Holds Traced.step Traced.Clean
    dsimp only
    rw [Call.apply_eq]
    cases hm : c.merge agentId operationId t.mirror with
    | none => exact iff_of_true h (fun _ _ _ hc => (nomatch hc))
    | some p =>
      obtain ⟨spec, op, insert⟩ := p
      dsimp only [Traced.observe]
      rw [mergeAndSync_baseline, h]
      cases he : established t.mirror spec op insert c.surroundings with
      | none =>
        refine iff_of_true rfl fun _ _ _ hc _ f hf => ?_
        cases hc
        rw [he] at hf
        cases hf
      | some f =>
        dsimp only
        by_cases hs : succeeded t.mirror spec.id = true
        · rw [if_pos hs]
          constructor
          · intro heq spec' op' insert' hc _ f' hf'
            cases hc
            rw [he] at hf'
            cases hf'
            have := congrFun heq spec.projectUid
            rwa [update_self] at this
          · intro hclean
            rw [hclean spec op insert rfl hs f he, update_eq_self]
        · rw [if_neg hs]
          refine iff_of_true rfl fun _ _ _ hc hs' => ?_
          cases hc
          exact absurd hs' hs

theorem Traced.holdsThroughout_iff {t : Traced} (h : t.Holds) (events : List ServerEvent) :
    t.HoldsThroughout events ↔ t.CleanThroughout events := by
  induction events generalizing t with
  | nil => exact iff_of_true h trivial
  | cons e events ih =>
    constructor
    · rintro ⟨-, hrest⟩
      have hnext : (t.step e).Holds := by
        cases events with
        | nil => exact hrest
        | cons e' events => exact hrest.1
      exact ⟨(t.holds_step_iff h e).mp hnext, (ih hnext).mp hrest⟩
    · rintro ⟨hclean, hrest⟩
      have hnext := (Traced.holds_step_iff h e).mpr hclean
      exact ⟨h, (ih hnext).mpr hrest⟩

/-- Who moves a baseline of the table `m`.

1. For a row at the Agent's revision, no sequence of lookups, cancellations and repeated starts
   moves a baseline, whatever happens to the files meanwhile, exactly if it is not the row of a
   successful `compose.up` of a project in the table.
2. Along a run of the Server every baseline is the fingerprint observed when the latest `compose.up`
   first became successful, exactly if no call for an operation that had already succeeded writes
   another fingerprint. -/
theorem baseline_kept_iff (m : Mirror) :
    (∀ {operationId : Text} {row : OperationRow} {r : WebOperation},
      m.operations operationId = some row → AgentRecord operationId r →
      row.Mirrors (row.spec operationId) r → row.revision = r.revision →
      ((∀ calls : List Call, (∀ c ∈ calls, ∀ response, c.response = some response →
          response.revision = row.revision) →
        baseline (runCalls row.agentId operationId m calls).projects = baseline m.projects) ↔
      ¬ row.Rebaselines m.projects)) ∧
    (∀ t : Traced, t.mirror = m → t.Holds →
      ∀ events, t.HoldsThroughout events ↔ t.CleanThroughout events) := by
  refine ⟨?_, fun _ _ h events => Traced.holdsThroughout_iff h events⟩
  intro operationId row r hrow hr hm hrev
  obtain ⟨response, hresponse⟩ := hr
  constructor
  · intro hall hre
    obtain ⟨c, hc, hmove⟩ := exists_moving_call hrow rfl hresponse hm hrev hre
    refine hmove (hall [c] fun c' hc' response' hr' => ?_)
    rw [List.mem_singleton.mp hc', hc] at hr'
    cases hr'
    rw [hrev, operationFromAgent_revision hresponse]
  · intro hnot calls hcalls
    exact runCalls_same hrow hcalls hnot

/-! ## A concrete Server -/

def webUid : Text := List.replicate 64 0x30

def appliedFiles : Text := List.replicate 64 0x61

def editedFiles : Text := List.replicate 64 0x62

def upSucceeded : Response :=
  ⟨text "success", text "finished", 6, false, [], [], false, text "BEST_EFFORT_PARTIAL", false,
    text "operation is terminal", 1767225600 * second, 1767225600 * second, 1767225601 * second⟩

def webUp (kind : Text) : OperationSpec := ⟨text "op-1", text "agent-1", webUid, kind, []⟩

def webSnapshot (fingerprint : Text) : ProjectSnapshot :=
  ⟨webUid, text "/srv/web", text "web", false, true, fingerprint⟩

def discovered : Traced :=
  ⟨⟨fun _ => none, fun uid => if uid = webUid then
      some ⟨text "agent-1", text "/srv/web", text "web", [],
        ⟨false, true, appliedFiles, appliedFiles, .noBaseline⟩⟩ else none⟩, fun _ => []⟩

def startUp (kind fingerprint : Text) : ServerEvent :=
  .call (text "agent-1") (text "op-1")
    (.start webUid kind [] (.ok upSucceeded) ⟨1767225602 * second, .ok (webSnapshot fingerprint)⟩)

def lookUp (fingerprint : Text) : ServerEvent :=
  .call (text "agent-1") (text "op-1")
    (.get (.ok (some upSucceeded)) ⟨1767225602 * second, .ok (webSnapshot fingerprint)⟩)

def afterStart (kind : Text) : Mirror :=
  (discovered.step (startUp kind appliedFiles)).mirror

theorem envWrite_keeps_baseline :
    baseline (runCalls (text "agent-1") (text "op-1") (afterStart (text "env.write"))
        [.get (.ok (some upSucceeded)) ⟨0, .ok (webSnapshot editedFiles)⟩,
          .cancel (.ok (some upSucceeded)) ⟨0, .ok (webSnapshot editedFiles)⟩]).projects =
      baseline (afterStart (text "env.write")).projects ∧
    discovered.HoldsThroughout [startUp (text "compose.up") appliedFiles] := by
  obtain ⟨r, hr, hops⟩ : ∃ r, operationFromAgent (text "op-1") upSucceeded = .ok r ∧
      (afterStart (text "env.write")).operations (text "op-1") =
        some (insertRow (webUp (text "env.write")) r r.requestedAt) :=
    exists_ok_of_decide (by decide +kernel)
  have hm : (insertRow (webUp (text "env.write")) r r.requestedAt).Mirrors
      (webUp (text "env.write")) r :=
    ⟨rfl, Nat.le_refl _, fun _ => insertRow_holds _ _ _, fun _ h => h, (AgentRecord.spec ⟨_, hr⟩).2⟩
  refine ⟨((baseline_kept_iff _).1 hops ⟨_, hr⟩ hm rfl).mpr ?_ _ ?_, ?_⟩
  · rintro ⟨-, hkind, -⟩
    exact absurd (show text "env.write" = text "compose.up" from hkind) (by decide +kernel)
  · intro c hc response hresponse
    have hrev : r.revision = 6 := operationFromAgent_revision hr
    rcases List.mem_cons.mp hc with rfl | hc
    · cases hresponse; exact hrev.symm
    · rw [List.mem_singleton.mp hc] at hresponse
      cases hresponse; exact hrev.symm
  refine ((baseline_kept_iff _).2 _ rfl ?_ _).mpr ⟨?_, trivial⟩
  · funext uid
    simp only [baseline, discovered]
    split
    · rfl
    next row hrow =>
    split at hrow
    · cases hrow; rfl
    · cases hrow
  · intro spec op insert hmerge hs
    rw [(Call.merge_spec hmerge).1] at hs
    cases hs

/-- A `compose.up` succeeds with one set of files; then they are edited and the operation is looked
up: the edit becomes the baseline, and the project is reported in sync. -/
theorem lookup_moves_baseline :
    let up := discovered.step (startUp (text "compose.up") appliedFiles)
    let looked := up.step (lookUp editedFiles)
    baseline up.mirror.projects webUid = appliedFiles ∧
      baseline looked.mirror.projects webUid = editedFiles ∧
      looked.observed webUid = appliedFiles ∧
      (looked.mirror.projects webUid).map (fun row => row.flags.drift) = some .inSync := by
  decide +kernel

end DockLattice.Server
