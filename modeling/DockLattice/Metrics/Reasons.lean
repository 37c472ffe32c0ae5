import DockLattice.Lib.Utf8

/-!
# DockLattice.Metrics.Reasons

The texts of the metrics stream: the Agent's frames (`agentproduct/matrix.go`,
`livematrix/matrix.go`) and the Server's views of them (`servermatrix/matrix.go`). Three helpers cut
the text of an error behind 200 bytes, wherever that is in a character, and a frame with an invalid
text is not sent.
-/

namespace DockLattice.Metrics

open Bytes List Utf8

/-! ## Frames and views -/

/-- The helper `boundedReason` of each of the three packages, with its text for an empty message. -/
def boundedReason (empty message : Text) : Text :=
  (if message.isEmpty then empty else message).take 200

def filesystemReason : Text → Text := boundedReason (text "filesystem is unavailable")

def dockerReason : Text → Text := boundedReason (text "Docker listing failed")

def lookupReason : Text → Text := boundedReason (text "container context lookup failed")

structure Usage where
  device : Nat
  totalBytes : Nat
  freeBytes : Nat
  deriving DecidableEq, Repr

structure Filesystem where
  path : Text
  totalBytes : Nat
  freeBytes : Nat
  unavailable : Bool
  reason : Text
  deriving DecidableEq, Repr

/-- `filesystems`, with the devices seen so far. -/
def filesystems (probe : Text → Except Text Usage) (seen : List Nat) : List Text → List Filesystem
  | [] => []
  | path :: paths =>
    if path.isEmpty then filesystems probe seen paths
    else
      match probe path with
      | .error e => ⟨path, 0, 0, true, filesystemReason e⟩ :: filesystems probe seen paths
      | .ok usage =>
        if seen.contains usage.device then filesystems probe seen paths
        else
          ⟨path, usage.totalBytes, usage.freeBytes, false, []⟩ ::
            filesystems probe (usage.device :: seen) paths

/-- The reasons and filesystems that the Agent's relay and the Server's keep between two frames. -/
structure Relays where
  capacity : Option (List Filesystem)
  staleReason : Text
  workloadReason : Text
  haveContext : Bool
  contextReason : Text
  deriving DecidableEq, Repr

inductive Refresh where
  | membership (running : Except Text Unit)
  | workload (info : Except Text Unit) (probe : Text → Except Text Usage)
  | context (mapping : Except Text Unit)

/-- `reconcileMembership`, `refreshWorkload` and `refreshContext` -/
def Relays.refresh (paths : List Text) (r : Relays) : Refresh → Relays
  | .membership (.ok _) => { r with staleReason := [] }
  | .membership (.error e) => { r with staleReason := dockerReason e }
  | .workload (.ok _) probe =>
    { r with capacity := some (filesystems probe [] paths), workloadReason := [] }
  | .workload (.error e) _ => { r with workloadReason := dockerReason e }
  | .context (.ok _) => { r with haveContext := true, contextReason := [] }
  | .context (.error e) => { r with contextReason := lookupReason e }

structure View where
  filesystems : List Filesystem
  membershipStale : Bool
  membershipReason : Text
  workloadStale : Bool
  workloadReason : Text
  contextStale : Bool
  contextReason : Text
  deriving DecidableEq, Repr

/-- The frame of `publish`, with what `assemble` adds to it. -/
def Relays.view (r : Relays) : View where
  filesystems := r.capacity.getD []
  membershipStale := !r.staleReason.isEmpty
  membershipReason := r.staleReason
  workloadStale := !r.workloadReason.isEmpty || r.capacity.isNone
  workloadReason := r.workloadReason
  contextStale := !r.haveContext || !r.contextReason.isEmpty
  contextReason := r.contextReason

def View.texts (v : View) : List Text :=
  [v.membershipReason, v.workloadReason, v.contextReason] ++
    v.filesystems.flatMap fun f => [f.path, f.reason]

def Relays.start : Relays := ⟨none, [], [], false, []⟩

/-! ## What the views say -/

def probeErrors (probe : Text → Except Text Usage) : List Text → List Text
  | [] => []
  | path :: paths =>
    match path.isEmpty, probe path with
    | false, .error e => e :: probeErrors probe paths
    | _, _ => probeErrors probe paths

def Refresh.errors (paths : List Text) : Refresh → List Text
  | .membership (.error e) | .workload (.error e) _ | .context (.error e) => [e]
  | .workload (.ok _) probe => probeErrors probe paths
  | .membership (.ok _) | .context (.ok _) => []

variable {paths : List Text} {r : Relays}

theorem valid_nil : valid [] = true := rfl

theorem valid_boundedReason {empty : Text} (h : valid (empty.take 200) = true) (e : Text) :
    valid (boundedReason empty e) = true ↔ valid (e.take 200) = true := by
  unfold boundedReason
  split
  · next he => simp only [isEmpty_iff.mp he, h, take_nil, valid_nil]
  · rfl

theorem valid_filesystemReason (e : Text) :
    valid (filesystemReason e) = true ↔ valid (e.take 200) = true :=
  valid_boundedReason (by decide +kernel) e

theorem valid_dockerReason (e : Text) :
    valid (dockerReason e) = true ↔ valid (e.take 200) = true :=
  valid_boundedReason (by decide +kernel) e

theorem valid_lookupReason (e : Text) :
    valid (lookupReason e) = true ↔ valid (e.take 200) = true :=
  valid_boundedReason (by decide +kernel) e

theorem valid_filesystems (probe : Text → Except Text Usage) (seen : List Nat)
    (h : ∀ p ∈ paths, valid p = true) :
    (∀ f ∈ filesystems probe seen paths, valid f.path = true ∧ valid f.reason = true) ↔
      ∀ e ∈ probeErrors probe paths, valid (e.take 200) = true := by
  induction paths generalizing seen with
  | nil => simp [filesystems, probeErrors]
  | cons path paths ih =>
    obtain ⟨hpath, h⟩ := forall_mem_cons.mp h
    unfold filesystems probeErrors
    cases hempty : path.isEmpty with
    | true => exact ih seen h
    | false =>
      cases hprobe : probe path with
      | error e => simp [ih seen h, hpath, valid_filesystemReason]
      | ok usage =>
        rw [if_neg (by simp)]
        dsimp only
        split
        · exact ih seen h
        · simp [ih _ h, hpath, valid_nil]

theorem Relays.valid_iff : (∀ t ∈ r.view.texts, valid t = true) ↔
    (valid r.staleReason = true ∧ valid r.workloadReason = true ∧
      valid r.contextReason = true) ∧ ∀ f ∈ r.capacity.getD [],
        valid f.path = true ∧ valid f.reason = true := by
  rw [View.texts, forall_mem_append, forall_mem_flatMap]
  simp [Relays.view]

theorem Relays.valid_refresh (h : ∀ p ∈ paths, valid p = true)
    (hr : ∀ t ∈ r.view.texts, valid t = true) (a : Refresh) :
    (∀ t ∈ (r.refresh paths a).view.texts, valid t = true) ↔
      ∀ e ∈ a.errors paths, valid (e.take 200) = true := by
  rw [Relays.valid_iff] at hr ⊢
  obtain ⟨⟨hs, hw, hc⟩, hf⟩ := hr
  rcases a with (e | _) | ⟨e | _, probe⟩ | (e | _)
  case workload.ok => simp [refresh, Refresh.errors, hs, hc, valid_nil, valid_filesystems probe [] h]
  all_goals
    simp only [refresh, Refresh.errors, hs, hw, hc, eq_true hf, valid_nil, valid_dockerReason,
      valid_lookupReason, and_true, true_and, mem_singleton, forall_eq, not_mem_nil,
      false_imp_iff, implies_true]

/-- For paths of valid text: every text of every view is valid exactly if no error text that came up
is cut inside a character. -/
theorem views_valid_iff (h : ∀ p ∈ paths, Utf8.valid p = true) (answers : List Refresh) :
    (∀ shown, shown <+: answers → ∀ t ∈ (shown.foldl (Relays.refresh paths) .start).view.texts,
        Utf8.valid t = true) ↔
      ∀ a ∈ answers, ∀ e ∈ a.errors paths, Utf8.valid (e.take 200) = true := by
  -- from the last answer on: what was shown before it was valid already
  induction answers using List.reverseRecOn with
  | nil => simp [Relays.start, Relays.view, View.texts, valid_nil]
  | append_singleton answers a ih =>
    rw [forall_mem_append, ← ih]
    constructor
    · intro hall
      have hbefore := fun shown (hs : shown <+: answers) => hall shown (hs.trans (prefix_append _ _))
      refine ⟨hbefore, fun b hb => ?_⟩
      rw [mem_singleton.mp hb, ← Relays.valid_refresh h (hbefore _ prefix_rfl)]
      simpa using hall _ prefix_rfl
    · rintro ⟨hbefore, hlast⟩ shown hs
      rcases prefix_concat_iff.mp hs with rfl | hs
      · rw [foldl_concat, Relays.valid_refresh h (hbefore _ prefix_rfl)]
        exact hlast a mem_cons_self
      · exact hbefore shown hs

/-- A listing error whose 200th byte is in the middle of a character. -/
def longError : Text := replicate 199 97 ++ [0xC3, 0xA9]

theorem longError_view_invalid :
    Utf8.valid longError = true ∧
      ∃ t ∈ (Relays.start.refresh [] (.membership (.error longError))).view.texts,
        Utf8.valid t = false := by
  refine ⟨by decide +kernel, longError.take 200, ?_, by decide +kernel⟩
  decide +kernel

theorem shortError_views_valid :
    Utf8.valid [47] = true ∧ ∀ shown, shown <+: [Refresh.membership (.error [0xC3, 0xA9])] →
      ∀ t ∈ (shown.foldl (Relays.refresh [[47]]) .start).view.texts, Utf8.valid t = true :=
  ⟨rfl, (views_valid_iff (by decide) [.membership (.error [0xC3, 0xA9])]).mpr (by decide)⟩

end DockLattice.Metrics
