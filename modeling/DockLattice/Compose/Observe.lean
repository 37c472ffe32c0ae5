import DockLattice.Compose.Sources

/-!
# DockLattice.Compose.Observe

`RescanForExternalChanges`: a scan that tells an observer which managed projects have other files
than before. It compares with the catalog right before it, and only entries that are executable and
not stale there.
-/

namespace DockLattice.Compose

open Bytes List

variable {p q : Project} {projects : List (Text × Project)} {uid : Text} {uids : List Text}

structure ExternalConfigChange where
  projectUID : Text
  changedFileCount : Nat
  observedAt : Nat
  deriving DecidableEq, Repr

def externallyManaged (project : Project) : Bool := !project.stale && project.composeExecutable

section Changes

variable (previous next : List (Text × Project)) (truncated : Bool) (observedAt : Nat)

/-- The loop body of `externalConfigChanges`, for one UID of the previous catalog. -/
def externalConfigChange (uid : Text) : Except CatalogError (Option ExternalConfigChange) :=
  match previous.lookup uid with
  | none => .ok none
  | some before =>
    if externallyManaged before = false then .ok none
    else
      match next.lookup uid with
      -- a truncated walk cannot tell that a project was removed
      | none => .ok (if truncated then none else some ⟨uid, before.files.length, observedAt⟩)
      | some after =>
        if after.stale then .ok none
        else
          match changedFiles before.files after.files with
          | none => .error .invalidFact
          | some changed =>
            .ok (if changed = [] then none else some ⟨uid, changed.length, observedAt⟩)

def changesOf : List Text → Except CatalogError (List ExternalConfigChange)
  | [] => .ok []
  | uid :: uids =>
    match externalConfigChange previous next truncated observedAt uid with
    | .error e => .error e
    | .ok change =>
      match changesOf uids with
      | .error e => .error e
      | .ok changes => .ok (change.toList ++ changes)

def externalConfigChanges : Except CatalogError (List ExternalConfigChange) :=
  changesOf previous next truncated observedAt (sortStrings (previous.map Prod.fst).dedup)

end Changes

/-- One periodic scan: what the scanner finds, and whether the observer records what it is told. -/
structure Scan where
  env : Env
  found : Except ScanError (List (Text × List File))
  truncated : Bool
  scannedAt : Nat
  recorded : Bool

structure Publication where
  projects : List (Text × Project)
  reported : List ExternalConfigChange

/-- `RescanForExternalChanges`; a scan that fails publishes nothing. -/
def rescanForExternalChanges (projects : List (Text × Project)) (scan : Scan) :
    Option Publication :=
  match scan.found with
  | .error _ => none
  | .ok groups =>
    match rescan scan.env projects groups scan.truncated with
    | .error _ => none
    | .ok (next, _) =>
      match externalConfigChanges projects next scan.truncated scan.scannedAt with
      | .error _ => none
      | .ok changes =>
        if changes ≠ [] ∧ scan.recorded = false then none else some ⟨next, changes⟩

def Publication.reports (publication : Publication) (uid : Text) : Prop :=
  uid ∈ publication.reported.map (·.projectUID)

/-! ## One scan -/

section Step

variable {previous next : List (Text × Project)} {truncated : Bool} {observedAt : Nat}
  {changes : List ExternalConfigChange}

theorem externalConfigChange_uid {change : ExternalConfigChange}
    (h : externalConfigChange previous next truncated observedAt uid = .ok (some change)) :
    change.projectUID = uid := by
  unfold externalConfigChange at h
  repeat (split at h; · cases h)
  split at h
  · split at h
    · cases h
    · cases h; rfl
  split at h
  · cases h
  split at h
  · cases h
  split at h
  · cases h
  · cases h; rfl

theorem mem_changesOf (h : changesOf previous next truncated observedAt uids = .ok changes) :
    uid ∈ changes.map (·.projectUID) ↔ uid ∈ uids ∧
      ∃ change, externalConfigChange previous next truncated observedAt uid = .ok (some change) := by
  induction uids generalizing changes with
  | nil =>
    cases h
    simp
  | cons u uids ih =>
    unfold changesOf at h
    split at h
    · cases h
    next found hfound =>
    split at h
    · cases h
    next rest hrest =>
    cases h
    rw [map_append, mem_append, ih hrest, mem_cons]
    constructor
    · rintro (hmem | ⟨hmem, hc⟩)
      · obtain ⟨change, hchange, rfl⟩ := mem_map.mp hmem
        obtain rfl : found = some change := Option.mem_toList.mp hchange
        rw [externalConfigChange_uid hfound]
        exact ⟨.inl rfl, change, hfound⟩
      · exact ⟨.inr hmem, hc⟩
    · rintro ⟨rfl | hmem, change, hc⟩
      · obtain rfl : found = some change := Except.ok.inj (hfound.symm.trans hc)
        exact .inl (by simp [externalConfigChange_uid hc])
      · exact .inr ⟨hmem, change, hc⟩

theorem changesOf_each (h : changesOf previous next truncated observedAt uids = .ok changes)
    (huid : uid ∈ uids) :
    ∃ found, externalConfigChange previous next truncated observedAt uid = .ok found := by
  induction uids generalizing changes with
  | nil => cases huid
  | cons u uids ih =>
    unfold changesOf at h
    split at h
    · cases h
    next found hfound =>
    split at h
    · cases h
    next rest hrest =>
    rcases mem_cons.mp huid with rfl | hmem
    · exact ⟨found, hfound⟩
    · exact ih hrest hmem

theorem changesOf_nil
    (h : ∀ uid ∈ uids, externalConfigChange previous next truncated observedAt uid = .ok none) :
    changesOf previous next truncated observedAt uids = .ok [] := by
  induction uids with
  | nil => rfl
  | cons uid uids ih =>
    have hhead := h uid mem_cons_self
    have htail := ih fun u hu => h u (mem_cons_of_mem _ hu)
    simp only [changesOf, hhead, htail]
    rfl

theorem mem_uids (h : previous.lookup uid = some p) :
    uid ∈ sortStrings (previous.map Prod.fst).dedup := by
  obtain ⟨l, r, he, -⟩ := List.lookup_eq_some_iff.mp h
  rw [sortStrings, mem_insertionSort, mem_dedup, he]
  simp

theorem externalConfigChange_managed (hp : previous.lookup uid = some p)
    (hmanaged : externallyManaged p = true) (hq : next.lookup uid = some q)
    (hstale : q.stale = false) :
    externalConfigChange previous next truncated observedAt uid =
      match changedFiles p.files q.files with
      | none => .error .invalidFact
      | some changed =>
        .ok (if changed = [] then none else some ⟨uid, changed.length, observedAt⟩) := by
  simp only [externalConfigChange, hp, hmanaged, hq, hstale, Bool.true_eq_false,
    Bool.false_eq_true, if_false]

theorem externalConfigChange_same {fp : Text} (hp : previous.lookup uid = some p)
    (hq : next.lookup uid = some q) (hfiles : q.files = p.files)
    (hfp : externallyManaged p = true → fingerprint p.files = some fp) :
    externalConfigChange previous next truncated observedAt uid = .ok none := by
  by_cases hmanaged : externallyManaged p = true
  · by_cases hstale : q.stale = true
    · simp [externalConfigChange, hp, hmanaged, hq, hstale]
    · obtain ⟨changed, hc⟩ := changedFiles_isSome (hfp hmanaged) (hfp hmanaged)
      have hnil := (changedFiles_nil_iff hc).mpr (.refl _)
      rw [externalConfigChange_managed hp hmanaged hq (by simpa using hstale), hfiles, hc]
      simp [hnil]
  · simp [externalConfigChange, hp, hmanaged]

theorem rescanForExternalChanges_some {scan : Scan} {publication : Publication}
    (h : rescanForExternalChanges projects scan = some publication) :
    ∃ groups errors, scan.found = .ok groups ∧
      rescan scan.env projects groups scan.truncated = .ok (publication.projects, errors) ∧
      externalConfigChanges projects publication.projects scan.truncated scan.scannedAt =
        .ok publication.reported := by
  unfold rescanForExternalChanges at h
  split at h
  · cases h
  rename_i groups hfound
  split at h
  · cases h
  rename_i next errors hrescan
  split at h
  · cases h
  rename_i changes hchanges
  split at h
  · cases h
  · cases h
    exact ⟨groups, errors, hfound, hrescan, hchanges⟩

end Step

theorem not_stale_of_managed (h : externallyManaged p = true) : p.stale = false := by
  simp only [externallyManaged, Bool.and_eq_true, Bool.not_eq_true'] at h
  exact h.1

theorem executable_of_managed (h : externallyManaged p = true) : p.composeExecutable = true :=
  (Bool.and_eq_true_iff.mp h).2

/-! ## A directory -/

def srvFile (sha256 : Text) : File := ⟨srv.path, text "/srv/compose.yaml", .compose, ⟨1, sha256⟩⟩

def hashA : Text := List.replicate 64 97
def hashB : Text := List.replicate 64 98

def srvEnv : Env := { permissiveEnv with fingerprint := fingerprint }

end DockLattice.Compose
