import DockLattice.Operation.Start
import DockLattice.Server.Mirror
import DockLattice.Server.Snapshot

/-!
# DockLattice.Server.Recovery

An operation's specification on its way from the Server to the Agent and back. The Agent keeps a
container operation without a project under the project key `container:` followed by the target. The
Server reads that key as the UID of a project, finds none, and refuses the whole list.
-/

namespace DockLattice.Server

open Bytes Operation List

variable {previousId : Option Text} {r : Record}

/-! ## Dispatch -/

structure Dispatch where
  agentId : Text
  operationId : Text
  projectUid : Text
  kind : Text
  target : Text
  payload : List Byte
  deriving DecidableEq, Repr

def Dispatch.spec (d : Dispatch) : OperationSpec :=
  ⟨d.operationId, d.agentId, d.projectUid, d.kind, d.target⟩

def Dispatch.request (d : Dispatch) : Request :=
  ⟨d.operationId, d.kind, d.projectUid, d.target, d.payload⟩

/-- What every endpoint checks before it dispatches: a safe operation ID, a target of bounded valid
text, and a project of this Agent, if there is one. (Some endpoints refuse more than that.) -/
def Dispatch.admissible (projects : Projects) (d : Dispatch) : Bool :=
  validOpaqueID d.operationId && d.target.length ≤ 1024 && Utf8.valid d.target &&
    (d.projectUid.isEmpty || validOpaqueID d.projectUid && projects.owns d.agentId d.projectUid)

/-! ## The list of running operations -/

structure ActiveOperation where
  operationId : Text
  type : Text
  projectKey : Text
  target : Text
  operation : Response
  deriving DecidableEq, Repr

def activeOperation (r : Record) : ActiveOperation :=
  ⟨r.operationId, r.kind.text, r.projectKey, r.target, (responseFromRecord r).overWire⟩

def maxActiveOperationCount : Nat := 500

def validMetadata (previousId : Option Text) (active : ActiveOperation) : Bool :=
  validOpaqueID active.operationId && !active.type.isEmpty && active.type.length ≤ 128 &&
    Utf8.valid active.type && active.projectKey.length ≤ 1024 && Utf8.valid active.projectKey &&
    active.target.length ≤ 1024 && Utf8.valid active.target &&
    match previousId with
    | none => true
    | some previous => previous < active.operationId

def recoveredSpec (agentId : Text) (active : ActiveOperation) : OperationSpec :=
  ⟨active.operationId, agentId, active.projectKey, active.type, active.target⟩

/-- One turn of the loop of `reconcileAgentOperations`. -/
@[irreducible] def validateOne (agentId : Text) (previousId : Option Text) (active : ActiveOperation) :
    Except ServerError RecoveredOperation :=
  if !validMetadata previousId active then .error (.corruptData "Agent active operation recovery")
  else
    match operationFromAgent active.operationId active.operation with
    | .error e => .error e
    | .ok operation => .ok ⟨recoveredSpec agentId active, operation⟩

def validateActive (agentId : Text) :
    Option Text → List ActiveOperation → Except ServerError (List RecoveredOperation)
  | _, [] => .ok []
  | previousId, active :: rest =>
    match validateOne agentId previousId active with
    | .error e => .error e
    | .ok item =>
      match validateActive agentId (some active.operationId) rest with
      | .error e => .error e
      | .ok items => .ok (item :: items)

def reconcileAgentOperations (projects : Projects) (rows : Operations) (agentId : Text)
    (actives : List ActiveOperation) : Operations × Except ServerError Unit :=
  if maxActiveOperationCount < actives.length then
    (rows, .error (.corruptData "Agent active operation recovery"))
  else
    match validateActive agentId none actives with
    | .error e => (rows, .error e)
    | .ok items => mergeRecoveredOperations projects rows items

/-! ## What the Agent keeps of a dispatch -/

/-- `r` is a record of the operation that the Agent made of the dispatch, after any events of the
engine, and it is still active. -/
structure Running (b : Boundary) (c : Config) (d : Dispatch) (r : Record) : Prop where
  run : ∃ spec now events, startOperation b d.request = .ok spec ∧
    snapshot c spec now events = some r
  active : r.status.terminal = false

structure Names (spec : Spec) (r : Record) : Prop where
  operationId : r.operationId = spec.operationId
  kind : r.kind = spec.kind
  projectKey : r.projectKey = spec.projectKey
  target : r.target = spec.target

structure Plain (spec : Spec) : Prop where
  operationId : Utf8.valid spec.operationId = true
  projectKey : Utf8.valid spec.projectKey = true
  target : Utf8.valid spec.target = true

theorem Names.progress {spec : Spec} {readings : List Time} {texts : List Text} {r' : Record}
    (h : Names spec r) (hp : Progress readings texts r r') : Names spec r' := by
  have hspec := hp.spec
  simp only [Record.spec, Spec.mk.injEq] at hspec
  obtain ⟨h1, h2, h3, h4, -⟩ := hspec
  exact ⟨h1.trans h.operationId, h4.trans h.kind, h2.trans h.projectKey, h3.trans h.target⟩

theorem Names.journaled {spec : Spec} (hspec : Plain spec) (h : Names spec r) :
    Names spec r.journaled where
  operationId := by
    show Utf8.toValid r.operationId = _
    rw [h.operationId, Utf8.toValid_of_valid hspec.operationId]
  kind := h.kind
  projectKey := by
    show Utf8.toValid r.projectKey = _
    rw [h.projectKey, Utf8.toValid_of_valid hspec.projectKey]
  target := by
    show Utf8.toValid r.target = _
    rw [h.target, Utf8.toValid_of_valid hspec.target]

theorem run_names {c : Config} {spec : Spec} (hspec : Plain spec) (events : List Event) {it : Item}
    (h : it.Holds (Names spec)) : (it.run c events).Holds (Names spec) := by
  refine foldlRecOn (motive := Item.Holds _) events _ h fun it h e _ => ?_
  exact h.step (fun _ hr => hr) (fun _ _ hr hp => hr.progress hp)
    (fun _ hr => hr.journaled hspec) fun r tail truncated hr =>
      { hr with }

theorem snapshot_names {c : Config} {spec : Spec} {now : Time} {events : List Event}
    (hspec : Plain spec) (h : snapshot c spec now events = some r) : Names spec r := by
  obtain ⟨it, o, hit, ho, rfl⟩ := snapshot_eq_some h
  have hnew : Names spec (newRecord spec now) := ⟨rfl, rfl, rfl, rfl⟩
  refine (run_names hspec events ?_).memory o ho
  rw [accept_eq hit]
  refine ⟨fun x hx => ?_, hnew.journaled hspec⟩
  cases hx
  exact hnew

theorem validOpaqueID_valid {s : Text} (h : validOpaqueID s = true) : Utf8.valid s = true := by
  simp only [validOpaqueID, safeOpaqueID, Bool.and_eq_true, all_eq_true] at h
  refine Utf8.valid_of_ascii fun b hb => ?_
  have := h.1.1.2 b hb
  simp only [isSafeByte, Bool.or_eq_true, Bool.and_eq_true, decide_eq_true_eq] at this
  rcases this with ((((h | h) | h) | rfl) | rfl) | rfl
  · exact UInt8.le_trans h.2 (by decide)
  · exact UInt8.le_trans h.2 (by decide)
  · exact UInt8.le_trans h.2 (by decide)
  all_goals decide

theorem validOpaqueID_length {s : Text} (h : validOpaqueID s = true) : s.length ≤ 128 := by
  simp only [validOpaqueID, safeOpaqueID, Bool.and_eq_true, decide_eq_true_eq] at h
  exact h.1.1.1.2

section RoundTrip

variable {projects : Projects} {b : Boundary} {c : Config} {d : Dispatch}

structure Admitted (projects : Projects) (d : Dispatch) : Prop where
  operationId : validOpaqueID d.operationId = true
  target_le : d.target.length ≤ 1024
  target : Utf8.valid d.target = true
  project : d.projectUid = [] ∨
    validOpaqueID d.projectUid = true ∧ projects.owns d.agentId d.projectUid = true

theorem admissible_iff : d.admissible projects = true ↔ Admitted projects d := by
  constructor
  · intro h
    simp only [Dispatch.admissible, Bool.and_eq_true, Bool.or_eq_true, decide_eq_true_eq,
      List.isEmpty_iff] at h
    exact ⟨h.1.1.1, h.1.1.2, h.1.2, h.2⟩
  · intro h
    simp only [Dispatch.admissible, Bool.and_eq_true, Bool.or_eq_true, decide_eq_true_eq,
      List.isEmpty_iff]
    exact ⟨⟨⟨h.operationId, h.target_le⟩, h.target⟩, h.project⟩

def Dispatch.Loose (d : Dispatch) : Prop :=
  (Kind.parse d.kind).any Kind.isContainerOperation = true ∧ d.projectUid = []

instance (d : Dispatch) : Decidable d.Loose := by unfold Dispatch.Loose; infer_instance

structure Listed (d : Dispatch) (r : Record) : Prop where
  operationId : r.operationId = d.operationId
  type : r.kind.text = d.kind
  target : r.target = d.target
  projectKey : r.projectKey =
    if d.Loose then text "container:" ++ d.target else d.projectUid

theorem Running.listed (hd : Admitted projects d) (h : Running b c d r) : Listed d r := by
  obtain ⟨spec, now, events, hstart, hsnap⟩ := h.run
  obtain ⟨hkind, hid, -, -, hkey, -, htarget, -, -, -⟩ := startOperation_ok hstart
  have hproject : Utf8.valid d.projectUid = true := by
    rcases hd.project with hp | hp
    · rw [hp]; rfl
    · exact validOpaqueID_valid hp.1
  have hkey' : spec.projectKey =
      if d.Loose then text "container:" ++ d.target else d.projectUid := by
    rw [hkey, storedProjectKey]
    have hloose : d.Loose ↔
        (spec.kind.isContainerOperation && d.request.projectKey.isEmpty) = true := by
      have hk : Kind.parse d.kind = some spec.kind := hkind
      simp [Dispatch.Loose, Dispatch.request, hk]
    by_cases hl : d.Loose
    · rw [if_pos hl, if_pos (hloose.mp hl)]
      rfl
    · rw [if_neg hl, if_neg (fun h => hl (hloose.mpr h))]
      rfl
  have hplain : Plain spec := by
    refine ⟨hid ▸ validOpaqueID_valid hd.operationId, ?_, htarget ▸ hd.target⟩
    rw [hkey']
    split
    · exact Utf8.valid_append (by decide +kernel) hd.target
    · exact hproject
  have hn := snapshot_names hplain hsnap
  exact ⟨hn.operationId.trans hid, by rw [hn.kind]; exact Kind.text_of_parse hkind,
    hn.target.trans htarget, hn.projectKey.trans hkey'⟩

theorem not_hexDigest_container (t : Text) : hexDigest (text "container:" ++ t) = false := by
  have h : (0x6F : Byte) ∈ text "container:" ++ t :=
    mem_append_left _ (by decide +kernel)
  rw [← Bool.not_eq_true]
  intro hhex
  have := (hexDigest_ascii hhex).2 _ h
  exact absurd this.2 (by decide)

section

variable (hhex : ∀ uid, projects uid ≠ none → hexDigest uid = true)

include hhex

theorem owns_hex {agentId uid : Text}
    (h : projects.owns agentId uid = true) : hexDigest uid = true := by
  refine hhex uid fun hnone => ?_
  simp [Projects.owns, hnone] at h

theorem spec_rebuilt_iff
    (hd : Admitted projects d) (h : Listed d r) :
    (recoveredSpec d.agentId (activeOperation r) = d.spec ∧
      (r.projectKey = [] ∨ projects.owns d.agentId r.projectKey = true)) ↔ ¬ d.Loose := by
  constructor
  · rintro ⟨-, howned⟩ hl
    rw [h.projectKey, if_pos hl] at howned
    rcases howned with hnil | howned
    · exact absurd (append_eq_nil_iff.mp hnil).1 (by decide +kernel)
    · have := owns_hex hhex howned
      rw [not_hexDigest_container] at this
      cases this
  · intro hl
    have hkey : r.projectKey = d.projectUid := by rw [h.projectKey, if_neg hl]
    refine ⟨?_, ?_⟩
    · simp only [recoveredSpec, activeOperation, Dispatch.spec, h.operationId, h.type, h.target,
        hkey]
    · rw [hkey]
      exact hd.project.imp id And.right

end

end RoundTrip

/-! ## The whole list -/

theorem foldlM_error_of_mem {α β ε : Type} {f : β → α → Except ε β} {l : List α} {x : α}
    (hx : x ∈ l) (hf : ∀ s, ∃ e, f s x = .error e) (s : β) : ∃ e, l.foldlM f s = .error e := by
  induction l generalizing s with
  | nil => cases hx
  | cons y l ih =>
    rw [foldlM_cons]
    cases hy : f s y with
    | error e => exact ⟨e, rfl⟩
    | ok s' =>
      rcases mem_cons.mp hx with rfl | hx
      · obtain ⟨e, he⟩ := hf s
        rw [he] at hy
        cases hy
      · exact ih hx s'

section Whole

variable {projects : Projects} {rows rows' : Operations} {agentId : Text}
  {item : RecoveredOperation} {items : List RecoveredOperation}

def RecoveredOperation.Owned (projects : Projects) (item : RecoveredOperation) : Prop :=
  item.spec.projectUid = [] ∨ projects.owns item.spec.agentId item.spec.projectUid = true

/-- The row of an operation, if there is one: it has the specification, can be read, and is not of
the revision that is listed. -/
def Mergeable (rows : Operations) (spec : OperationSpec) (revision : Nat) : Prop :=
  ∀ row, rows spec.id = some row →
    row.spec spec.id = spec ∧ Utf8.valid row.outputTail = true ∧ row.revision ≠ revision

theorem mergeRecoveredOperation_missing (h : ¬ item.Owned projects) (rows : Operations) :
    mergeRecoveredOperation projects rows item = .error missingProject := by
  unfold mergeRecoveredOperation
  rw [if_pos]
  rw [RecoveredOperation.Owned, not_or] at h
  simpa using h

theorem mergeRecoveredOperation_ok (howned : item.Owned projects)
    (hrow : Mergeable rows item.spec item.operation.revision) :
    ∃ rows', mergeRecoveredOperation projects rows item = .ok rows' ∧
      ∀ id, id ≠ item.spec.id → rows' id = rows id := by
  have hother : ∀ row id, id ≠ item.spec.id → Function.update rows item.spec.id row id = rows id :=
    fun row id hid => Function.update_of_ne hid row rows
  unfold mergeRecoveredOperation
  rw [if_neg (by rcases howned with ho | ho <;> simp [ho])]
  cases hget : rows item.spec.id with
  | none => exact ⟨_, rfl, hother _⟩
  | some row =>
    obtain ⟨hspec, hvalid, hrevision⟩ := hrow row hget
    simp only [loadStoredOperationTx, hvalid, if_true, hspec, not_true_eq_false, ne_eq, if_false]
    rw [if_neg (show ¬ (row.operation item.spec.id).revision = item.operation.revision from hrevision)]
    split
    · exact ⟨rows, rfl, fun _ _ => rfl⟩
    · exact ⟨_, rfl, hother _⟩

theorem foldlM_merge_ok (howned : ∀ item ∈ items, item.Owned projects)
    (hrows : ∀ item ∈ items, Mergeable rows item.spec item.operation.revision)
    (hids : items.Pairwise fun a b => b.spec.id ≠ a.spec.id) :
    ∃ rows', items.foldlM (mergeRecoveredOperation projects) rows = .ok rows' := by
  induction items generalizing rows with
  | nil => exact ⟨rows, rfl⟩
  | cons item items ih =>
    rw [pairwise_cons] at hids
    obtain ⟨hitem, hitems⟩ := forall_mem_cons.mp howned
    obtain ⟨hrow, hrest⟩ := forall_mem_cons.mp hrows
    obtain ⟨rows', hstep, hother⟩ := mergeRecoveredOperation_ok hitem hrow
    rw [foldlM_cons, hstep]
    refine ih hitems (fun x hx row hget => hrest x hx row ?_) hids.2
    rwa [hother _ (hids.1 x hx)] at hget

theorem validateOne_item {active : ActiveOperation}
    (h : validateOne agentId previousId active = .ok item) :
    item.spec = recoveredSpec agentId active ∧
      item.operation.revision = active.operation.revision := by
  unfold validateOne at h
  split at h
  · cases h
  · split at h
    · cases h
    · next op hop =>
      cases h
      exact ⟨rfl, operationFromAgent_revision hop⟩

theorem validateActive_items {actives : List ActiveOperation}
    (h : validateActive agentId previousId actives = .ok items) :
    items.map (fun item => (item.spec, item.operation.revision)) =
      actives.map fun active => (recoveredSpec agentId active, active.operation.revision) := by
  induction actives generalizing previousId items with
  | nil =>
    simp only [validateActive, Except.ok.injEq] at h
    rw [← h, map_nil, map_nil]
  | cons active rest ih =>
    rw [validateActive] at h
    split at h
    · cases h
    next item hitem =>
    split at h
    · cases h
    · next items' hrest =>
      cases h
      rw [map_cons, map_cons, ih hrest, (validateOne_item hitem).1, (validateOne_item hitem).2]

theorem validMetadata_of_listed {d : Dispatch} (hd : Admitted projects d) (h : Listed d r)
    (hloose : ¬ d.Loose) (hprevious : ∀ p, previousId = some p → p < d.operationId) :
    validMetadata previousId (activeOperation r) = true := by
  have hkey : r.projectKey = d.projectUid := by rw [h.projectKey, if_neg hloose]
  have hproject : d.projectUid.length ≤ 1024 ∧ Utf8.valid d.projectUid = true := by
    rcases hd.project with hp | hp
    · rw [hp]; exact ⟨by decide, rfl⟩
    · exact ⟨Nat.le_trans (validOpaqueID_length hp.1) (by decide), validOpaqueID_valid hp.1⟩
  have htype : (!r.kind.text.isEmpty && r.kind.text.length ≤ 128 && Utf8.valid r.kind.text) =
      true := by
    cases r.kind <;> decide +kernel
  simp only [Bool.and_eq_true, decide_eq_true_eq] at htype
  simp only [validMetadata, activeOperation, Bool.and_eq_true, decide_eq_true_eq, h.operationId,
    hkey, h.target]
  refine ⟨⟨⟨⟨⟨⟨⟨⟨hd.operationId, htype.1.1⟩, htype.1.2⟩, htype.2⟩, hproject.1⟩, hproject.2⟩,
    hd.target_le⟩, hd.target⟩, ?_⟩
  cases previousId with
  | none => rfl
  | some p => exact decide_eq_true (hprevious p rfl)

theorem validateActive_ok {ds : List (Dispatch × Record)}
    (hd : ∀ p ∈ ds, Admitted projects p.1 ∧ Listed p.1 p.2 ∧ ¬ p.1.Loose ∧ Accepted p.2)
    (hsorted : ds.Pairwise fun p q => p.1.operationId < q.1.operationId)
    (hprevious : ∀ id, previousId = some id → ∀ p ∈ ds, id < p.1.operationId) :
    ∃ items, validateActive agentId previousId (ds.map fun p => activeOperation p.2) =
      .ok items := by
  induction ds generalizing previousId with
  | nil => exact ⟨[], rfl⟩
  | cons p ds ih =>
    have hp : p ∈ p :: ds := mem_cons_self ..
    obtain ⟨hadm, hlisted, hloose, op, hop⟩ := hd p hp
    rw [pairwise_cons] at hsorted
    have hnext : ∀ id, some (activeOperation p.2).operationId = some id →
        ∀ q ∈ ds, id < q.1.operationId := by
      intro id hid q hq
      cases hid
      show p.2.operationId < _
      rw [hlisted.operationId]
      exact hsorted.1 q hq
    obtain ⟨items, hitems⟩ := ih (fun q hq => hd q (mem_cons_of_mem _ hq)) hsorted.2 hnext
    have hmeta := validMetadata_of_listed hadm hlisted hloose
      fun id hid => hprevious id hid p hp
    have hone : validateOne agentId previousId (activeOperation p.2) =
        .ok ⟨recoveredSpec agentId (activeOperation p.2), op⟩ := by
      have hop' : operationFromAgent (activeOperation p.2).operationId
          (activeOperation p.2).operation = .ok op := hop
      unfold validateOne
      rw [hmeta, hop']
      rfl
    rw [map_cons, validateActive, hone]
    dsimp only
    rw [hitems]
    exact ⟨_, rfl⟩

end Whole

/-- The running operations of one Agent, with the dispatch each of them came from. -/
structure Roster (projects : Projects) (b : Boundary) (c : Config) (agentId : Text)
    (ds : List (Dispatch × Record)) : Prop where
  agent : ∀ p ∈ ds, p.1.agentId = agentId
  admissible : ∀ p ∈ ds, p.1.admissible projects = true
  running : ∀ p ∈ ds, Running b c p.1 p.2
  sorted : ds.Pairwise fun p q => p.1.operationId < q.1.operationId
  count : ds.length ≤ maxActiveOperationCount

def shopUid : Text := List.replicate 64 0x61

def oneProject : Projects := fun uid =>
  if uid = shopUid then
    some ⟨text "agent-1", text "/srv/shop", text "shop", [], ⟨false, true, [], [], .noBaseline⟩⟩
  else none

theorem oneProject_hex : ∀ uid, oneProject uid ≠ none → hexDigest uid = true := by
  intro uid h
  unfold oneProject at h
  split at h
  · next huid => rw [huid]; decide +kernel
  · exact absurd rfl h

def shopBoundary : Boundary where
  project := fun key => key == shopUid
  project_hex := fun key h => by rw [beq_iff_eq.mp h]; decide +kernel
  mutationAllowed := fun _ => true
  approvedFiles := fun _ => true
  decoded := fun _ => ⟨0, none, none, none⟩
  services := fun _ _ _ => true

def upDispatch : Dispatch := ⟨text "agent-1", text "op-1", shopUid, text "compose.up", [], []⟩

def restartDispatch : Dispatch :=
  ⟨text "agent-1", text "op-2", [], text "container.restart", text "web", []⟩

def acceptedRecord (d : Dispatch) : Option Record :=
  (startOperation shopBoundary d.request).toOption.bind fun spec =>
    snapshot tailConfig spec newYear []

theorem acceptedRecord_running {d : Dispatch} (h : acceptedRecord d = some r)
    (hactive : r.status.terminal = false) : Running shopBoundary tailConfig d r := by
  obtain ⟨spec, hspec, hsnap⟩ := Option.bind_eq_some_iff.mp h
  refine ⟨⟨spec, newYear, [], ?_, hsnap⟩, hactive⟩
  cases hstart : startOperation shopBoundary d.request with
  | error e => rw [hstart] at hspec; cases hspec
  | ok spec' => rw [hstart] at hspec; cases hspec; rfl

def upRecord : Record := (acceptedRecord upDispatch).get (by decide +kernel)

def restartRecord : Record := (acceptedRecord restartDispatch).get (by decide +kernel)

end DockLattice.Server
