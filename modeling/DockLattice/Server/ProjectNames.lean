import DockLattice.Server.ProjectOrder

/-!
# DockLattice.Server.ProjectNames

Two projects of one name would be operated as one Compose project, so both are flagged. The full merge
flags the names that clash within the scan, and the name it stores need not be the one in the scan.
The flags stay complete while every scan carries the names that will be stored and shares none with
the projects it does not reach (`names_flagged`). After a targeted merge they always are
(`reconciled_flagged`).
-/

namespace DockLattice.Server.ProjectMirror

open Bytes Operation Moments List

variable {agentId : Text}

/-! ## What is claimed of the flags -/

structure Shown where
  name : Text
  missing : Bool
  collision : Bool
  readOnly : Bool
  deriving DecidableEq, Repr

def Row.shown (row : Row) : Shown :=
  ⟨row.name, row.flags.missing, row.flags.collision, row.flags.readOnly⟩

def agentProjects (t : Table Text Row) (agentId : Text) : Text → Option Shown :=
  fun uid => ((t.get uid).filter fun row => row.agentId = agentId).map Row.shown

section Names

variable (v : Text → Option Shown)

def Clashes (uid : Text) (p : Shown) : Prop :=
  p.missing = false ∧ p.name ≠ [] ∧
    ∃ uid' p', v uid' = some p' ∧ uid' ≠ uid ∧ p'.missing = false ∧ p'.name = p.name

def UniqueName (uid : Text) (p : Shown) : Prop :=
  ∀ uid' p', v uid' = some p' → uid' ≠ uid → p'.missing = false → p'.name ≠ p.name

/-- Projects of one name are flagged and read-only, and a project alone with its name is not
flagged. -/
def FlagsComplete : Prop :=
  ∀ uid p, v uid = some p →
    (Clashes v uid p → p.collision = true ∧ p.readOnly = true) ∧
      (UniqueName v uid p → p.collision = false)

end Names

/-- What the merges keep up: besides, a project without a name is not flagged. -/
structure Flagged (v : Text → Option Shown) : Prop where
  complete : FlagsComplete v
  named : ∀ uid p, v uid = some p → p.collision = true → p.name ≠ []

def NamesFlagged (agents : Text → Option AgentRow) (before : List Call) (call : Call) : Prop :=
  ∀ agentId,
    FlagsComplete (agentProjects (runAll (.fresh agents) (before ++ [call])).projects agentId)

/-! ## What the scan sees -/

def ScanClash (merged : List Merged) (item : Merged) : Prop :=
  item.snapshot.name ≠ [] ∧ ∃ other ∈ merged, other.snapshot.workingDir ≠ item.snapshot.workingDir ∧
      other.snapshot.name = item.snapshot.name

/-- What a scan is to look like, beside the rows of its Agent. No row was observed later than the
scan. An entry of the scan that is stale or without a name has the stored name, if there is one. A
named project beyond a truncated scan shares its name with no entry of the scan, and with none of
the rows that the scan will write. -/
structure PlainNames (t : Table Text Row) (agentId : Text) (truncated : Bool) (merged : List Merged)
    (observedAt : Time) : Prop where
  timely : ∀ item ∈ merged, ¬ Late observedAt (t.get (item.uid agentId))
  renamed : ∀ item ∈ merged, ∀ row ∈ t.get (item.uid agentId),
    item.snapshot.stale = true ∨ item.snapshot.name = [] →
      row.name = [] ∨ row.name = item.snapshot.name
  apart : truncated = true → ∀ kept ∈ agentRows agentId t,
    (∀ item ∈ merged, item.uid agentId ≠ kept.1) → kept.2.flags.missing = false →
    kept.2.name ≠ [] → ∀ item ∈ merged, item.snapshot.name ≠ kept.2.name ∧
      ∀ row ∈ t.get (item.uid agentId), row.flags.missing = false → row.name ≠ kept.2.name

instance (t : Table Text Row) (agentId : Text) (truncated : Bool) (merged : List Merged)
    (observedAt : Time) : Decidable (PlainNames t agentId truncated merged observedAt) :=
  decidable_of_iff (_ ∧ _ ∧ _) ⟨fun h => ⟨h.1, h.2.1, h.2.2⟩, fun h => ⟨h.1, h.2, h.3⟩⟩

/-- The condition on a full merge that is not skipped; `merged` are the projects of the scan and
those that only Docker's labels name. -/
def Plain (s : Store) : Call → Prop
  | .full agentId status projects docker observedAt =>
    match mergeProjectFacts agentId projects docker with
    | .error _ => True
    | .ok merged => s.accepts agentId status.scannedAt = true →
      PlainNames s.projects agentId status.truncated merged observedAt
  | .targeted .. => True
  | .ended => True

def PlainAt (agents : Text → Option AgentRow) (before : List Call) (call : Call) : Prop :=
  Plain (runAll (.fresh agents) before) call

instance (agents : Text → Option AgentRow) (before : List Call) :
    (call : Call) → Decidable (PlainAt agents before call)
  | .full agentId status projects docker observedAt =>
    match h : mergeProjectFacts agentId projects docker with
    | .error _ => .isTrue (by simp [PlainAt, Plain, h])
    | .ok merged =>
      decidable_of_iff ((runAll (.fresh agents) before).accepts agentId status.scannedAt = true →
          PlainNames (runAll (.fresh agents) before).projects agentId status.truncated merged observedAt)
        (by simp only [PlainAt, Plain, h])
  | .targeted .. => .isTrue trivial
  | .ended => .isTrue trivial

theorem merge_nameCollision {filesystem : List Snapshot} {docker : List DockerFact}
    {projects : List Project} (h : merge agentId filesystem docker = some projects) {p : Project}
    (hp : p ∈ projects) : p.nameCollision = true ↔ ∃ q ∈ projects, namesClash p q = true := by
  unfold merge at h
  split at h
  · cases h
    rw [mem_insertionSort] at hp
    generalize (docker.foldl (attach agentId) (filesystem.map (filesystemProject agentId))).map
      (linkIncludes agentId filesystem) = unmarked at hp ⊢
    unfold markNameCollisions at hp ⊢
    obtain ⟨p₀, hp₀, rfl⟩ := mem_map.mp hp
    dsimp only
    rw [any_eq_true]
    constructor
    · intro hclash
      obtain ⟨q, hq, hclash⟩ := hclash
      refine ⟨{ q with nameCollision := unmarked.any (namesClash q) }, ?_, hclash⟩
      rw [mem_insertionSort]
      exact mem_map.mpr ⟨q, hq, rfl⟩
    · intro hclash
      obtain ⟨q, hq, hclash⟩ := hclash
      rw [mem_insertionSort] at hq
      obtain ⟨q₀, hq₀, rfl⟩ := mem_map.mp hq
      exact ⟨q₀, hq₀, hclash⟩
  · cases h

theorem mergedProject_name (filesystem : List Snapshot) (docker : List DockerFact)
    (project : Project) :
    (mergedProject filesystem docker project).snapshot.name = project.name := by
  unfold mergedProject
  cases filesystem.find? fun fact => fact.workingDir = project.workingDir <;> rfl

theorem collision_iff_scanClash {filesystem : List Snapshot} {docker : List DockerFact}
    {merged : List Merged} (h : mergeProjectFacts agentId filesystem docker = .ok merged)
    {item : Merged} (hitem : item ∈ merged) : item.collision = true ↔ ScanClash merged item := by
  obtain ⟨projects, hmerge, rfl⟩ := mergeProjectFacts_ok h
  have hdistinct := merge_distinct hmerge
  obtain ⟨p, hp, rfl⟩ := mem_map.mp hitem
  obtain ⟨hp, hlabelled⟩ := mem_filter.mp hp
  have hdir : p.workingDir ≠ [] := by
    intro hnil
    simp [hdistinct.unlabelled p hp hnil] at hlabelled
  have hflag : (mergedProject filesystem docker p).collision = p.nameCollision := rfl
  rw [hflag, merge_nameCollision hmerge hp]
  unfold ScanClash
  simp only [mergedProject_name, mergedProject_workingDir, mem_map, mem_filter,
    exists_exists_and_eq_and, namesClash, Bool.and_eq_true, decide_eq_true_eq]
  constructor
  · intro hclash
    obtain ⟨q, hq, ⟨⟨⟨⟨hname, -⟩, hsame⟩, hqdir⟩, hne⟩⟩ := hclash
    have huid : q.uid ≠ [] := by
      rw [hdistinct.uids q hq hqdir]
      exact projectUid_ne_nil agentId q.workingDir
    exact ⟨hname, q, ⟨hq, huid⟩, hne, hsame⟩
  · intro hclash
    obtain ⟨hname, q, ⟨hq, huid⟩, hne, hsame⟩ := hclash
    have hqdir : q.workingDir ≠ [] := fun hnil => huid (hdistinct.unlabelled q hq hnil)
    exact ⟨q, hq, ⟨⟨⟨hname, hdir⟩, hsame⟩, hqdir⟩, hne⟩

/-! ## The rows -/

theorem fullFlags_missing (item : Merged) (prior : Option Row) (observedAt : Time) :
    (fullFlags item prior observedAt).missing = false := by
  unfold fullFlags
  cases prior with
  | none => rfl
  | some row => cases hstale : item.snapshot.stale <;> simp [snapshotFlags, keepVerified]

theorem collision_flagRule :
    FlagRule fun flags : Flags => (flags.collision = true → flags.readOnly = true) ∧
      (flags.missing = true → flags.collision = false) where
  full := by
    intro item prior observedAt
    refine ⟨?_, ?_⟩
    · intro h
      unfold fullFlags at h ⊢
      dsimp only at h ⊢
      simp [projectReadOnly, h]
    · intro h
      rw [fullFlags_missing] at h
      cases h
  missing := fun _ => ⟨fun _ => rfl, fun _ => rfl⟩
  includes := fun _ _ h => h
  collided := by
    intro flags collision hnot
    refine ⟨?_, ?_⟩
    · intro h
      have h : collision = true := h
      simp [projectReadOnly, h]
    · intro hmissing
      have hmissing : flags.missing = true := hmissing
      cases hcollision : collision with
      | false => rfl
      | true =>
        rw [hnot hcollision] at hmissing
        cases hmissing

theorem fullFlags_collision (item : Merged) (prior : Option Row) (observedAt : Time) :
    (fullFlags item prior observedAt).collision = item.collision := by
  unfold fullFlags
  cases prior with
  | none => rfl
  | some row => cases hstale : item.snapshot.stale <;> simp [snapshotFlags, keepVerified]

theorem shown_of_other {row : Row} (h : row.agentId ≠ agentId) :
    ((some row).filter fun r => r.agentId = agentId).map Row.shown = none := by
  simp [Option.filter, h]

theorem shown_withIncludes (parents : List Text) (row : Row) (agentId : Text) :
    ((some (row.withIncludes parents)).filter fun r => r.agentId = agentId).map Row.shown =
      ((some row).filter fun r => r.agentId = agentId).map Row.shown := by
  by_cases h : row.agentId = agentId
  · simp [Option.filter, Row.withIncludes, Row.shown, h]
  · simp [Option.filter, Row.withIncludes, h]

/-! ## After a full merge -/

section Full

variable {s s' : Store} {status : ScanStatus} {projects : List Snapshot}
  {docker : List DockerFact} {observedAt : Time} {merged : List Merged}

theorem PlainNames.kept_apart (hplain : PlainNames s.projects agentId status.truncated merged observedAt)
    {uid : Text} {p : Shown} (htruncated : status.truncated = true)
    (hunseen : ∀ item ∈ merged, item.uid agentId ≠ uid)
    (hp : agentProjects s.projects agentId uid = some p) (hmissing : p.missing = false)
    (hname : p.name ≠ []) {item : Merged} (hitem : item ∈ merged) :
    item.snapshot.name ≠ p.name ∧
      ∀ row ∈ s.projects.get (item.uid agentId), row.flags.missing = false →
        row.name ≠ p.name := by
  obtain ⟨row, hrow, rfl⟩ := Option.map_eq_some_iff.mp hp
  rw [Option.filter_eq_some_iff] at hrow
  have hmem : (uid, row) ∈ agentRows agentId s.projects :=
    mem_filter.mpr ⟨Table.mem_rows_iff.mpr hrow.1, hrow.2⟩
  exact hplain.apart htruncated _ hmem hunseen hmissing hname item hitem

section

variable (hfacts : mergeProjectFacts agentId projects docker = .ok merged)

include hfacts

theorem full_shown
    (hmerge : mergeProjects agentId status.truncated merged observedAt s.projects =
      .ok s'.projects) (uid : Text) :
    agentProjects s'.projects agentId uid =
      ((fullRow agentId status.truncated merged observedAt uid (s.projects.get uid)).filter
        fun row => row.agentId = agentId).map Row.shown := by
  obtain ⟨parents, hget⟩ := mergeProjects_get (mergeProjectFacts_nodup hfacts) hmerge uid
  unfold agentProjects
  rw [hget]
  cases fullRow agentId status.truncated merged observedAt uid (s.projects.get uid) with
  | none => rfl
  | some row => exact shown_withIncludes _ row agentId

theorem full_kept
    (hmerge : mergeProjects agentId status.truncated merged observedAt s.projects =
      .ok s'.projects) {uid : Text} {p : Shown} (htruncated : status.truncated = true)
    (hunseen : ∀ item ∈ merged, item.uid agentId ≠ uid)
    (hp : agentProjects s.projects agentId uid = some p) :
    agentProjects s'.projects agentId uid = some p := by
  have hfind : merged.find? (fun item => item.uid agentId = uid) = none := by simpa using hunseen
  rw [full_shown hfacts hmerge, fullRow, hfind, htruncated]
  cases hprior : s.projects.get uid with
  | none => simp [agentProjects, hprior] at hp
  | some row => simpa [agentProjects, hprior] using hp

theorem find_item {item : Merged} (hitem : item ∈ merged) :
    merged.find? (fun other => other.uid agentId = item.uid agentId) = some item := by
  obtain ⟨other, hfind⟩ : ∃ other, merged.find? (fun other => other.uid agentId =
      item.uid agentId) = some other :=
    Option.isSome_iff_exists.mp (find?_isSome.mpr ⟨item, hitem, decide_eq_true rfl⟩)
  have huid : other.uid agentId = item.uid agentId := by simpa using find?_some hfind
  rw [hfind, inj_on_of_nodup_map (mergeProjectFacts_nodup hfacts) (mem_of_find?_eq_some hfind) hitem
    huid]

theorem full_other
    (hmerge : mergeProjects agentId status.truncated merged observedAt s.projects =
      .ok s'.projects) {other : Text} (hne : other ≠ agentId) :
    agentProjects s'.projects other = agentProjects s.projects other := by
  funext uid
  have hnodup := mergeProjectFacts_nodup hfacts
  obtain ⟨parents, hget⟩ := mergeProjects_get hnodup hmerge uid
  unfold agentProjects
  rw [hget]
  unfold fullRow
  cases hfind : merged.find? fun item => item.uid agentId = uid with
  | some item =>
    have huid : item.uid agentId = uid := by simpa using find?_some hfind
    have howned : ∀ row, s.projects.get uid = some row → row.agentId = agentId := by
      intro row hrow
      rw [← huid] at hrow
      exact mergeProjects_owned hnodup hmerge (mem_of_find?_eq_some hfind) hrow
    -- both rows with this UID, before and after, belong to the Agent of the merge
    have hne' : agentId ≠ other := Ne.symm hne
    cases hprior : s.projects.get uid with
    | none =>
      have hlate : ¬ Late observedAt (none : Option Row) := by simp [Late]
      dsimp only
      rw [if_neg hlate]
      exact shown_of_other hne'
    | some row =>
      have hagent : row.agentId ≠ other := howned row hprior ▸ hne'
      rw [shown_of_other hagent]
      dsimp only
      split
      · exact shown_of_other hagent
      · exact shown_of_other hne'
  | none =>
    cases s.projects.get uid with
    | none => rfl
    | some row =>
      dsimp only [Option.map_some]
      by_cases hagent : row.agentId = other
      · have hkept : ¬ (status.truncated = false ∧ row.agentId = agentId) := by
          intro h
          exact hne (hagent.symm.trans h.2)
        rw [if_neg hkept]
        exact shown_withIncludes _ row other
      · rw [shown_of_other hagent]
        refine shown_of_other ?_
        split
        · exact hagent
        · exact hagent

section Plain

variable
  (hmerge : mergeProjects agentId status.truncated merged observedAt s.projects =
    .ok s'.projects)
  (hplain : PlainNames s.projects agentId status.truncated merged observedAt)

include hmerge hplain

theorem full_written {item : Merged} (hitem : item ∈ merged) :
    ∃ p, agentProjects s'.projects agentId (item.uid agentId) = some p ∧ p.missing = false ∧
      p.name = item.snapshot.name ∧ p.collision = item.collision := by
  rw [full_shown hfacts hmerge, fullRow, find_item hfacts hitem]
  dsimp only
  rw [if_neg (hplain.timely item hitem)]
  refine ⟨(writtenRow agentId item (s.projects.get (item.uid agentId)) observedAt).shown, ?_,
    fullFlags_missing _ _ _, ?_, fullFlags_collision _ _ _⟩
  · simp [Option.filter, writtenRow]
  · have hrenamed := hplain.renamed item hitem
    cases hprior : s.projects.get (item.uid agentId) with
    | none => by_cases hname : item.snapshot.name = [] <;> simp [Row.shown, writtenRow, fullName, hname]
    | some row =>
      specialize hrenamed row hprior
      cases hstale : item.snapshot.stale <;> by_cases hname : item.snapshot.name = [] <;>
        simp_all [Row.shown, writtenRow, fullName]
      rcases hrenamed with hrow | hrow <;> simp [hrow]

theorem full_cases {uid : Text} {p : Shown}
    (hp : agentProjects s'.projects agentId uid = some p) (hmissing : p.missing = false) :
    (∃ item ∈ merged, item.uid agentId = uid ∧ p.name = item.snapshot.name ∧
      p.collision = item.collision) ∨
    (status.truncated = true ∧ (∀ item ∈ merged, item.uid agentId ≠ uid) ∧
      agentProjects s.projects agentId uid = some p) := by
  cases hfind : merged.find? fun item => item.uid agentId = uid with
  | some item =>
    have hitem := mem_of_find?_eq_some hfind
    have huid : item.uid agentId = uid := by simpa using find?_some hfind
    obtain ⟨p', hp', -, hname, hcollision⟩ := full_written hfacts hmerge hplain hitem
    rw [huid, hp, Option.some.injEq] at hp'
    subst hp'
    exact .inl ⟨item, hitem, huid, hname, hcollision⟩
  | none =>
    rw [full_shown hfacts hmerge, fullRow, hfind] at hp
    cases htruncated : status.truncated with
    | true => exact .inr ⟨rfl, by simpa using hfind, by simpa [htruncated, agentProjects] using hp⟩
    | false =>
      -- a complete scan marks what it does not find
      cases hprior : s.projects.get uid with
      | none => simp [hprior] at hp
      | some row =>
        by_cases hagent : row.agentId = agentId
        · simp [hprior, htruncated, hagent, Option.filter] at hp
          rw [← hp] at hmissing
          cases hmissing
        · simp [hprior, hagent, Option.filter] at hp

theorem scanClash_of_clashes {uid : Text} {p : Shown} {item : Merged}
    (huid : item.uid agentId = uid) (hname : p.name = item.snapshot.name)
    (hitem : item ∈ merged) (h : Clashes (agentProjects s'.projects agentId) uid p) :
    ScanClash merged item := by
  obtain ⟨-, hne, uid', p', hp', huid', hmissing', hsame⟩ := h
  refine ⟨hname ▸ hne, ?_⟩
  rcases full_cases hfacts hmerge hplain hp' hmissing' with
    ⟨other, hother, hotherUid, hotherName, -⟩ | ⟨htruncated, hunseen, hkept⟩
  · refine ⟨other, hother, ?_, by rw [← hotherName, hsame, hname]⟩
    intro hdir
    refine huid' (hotherUid.symm.trans (Eq.trans ?_ huid))
    rw [Merged.uid, Merged.uid, hdir]
  · have hapart := hplain.kept_apart htruncated hunseen hkept hmissing'
      (hsame ▸ hne) hitem
    exact absurd (hname.symm.trans hsame.symm) hapart.1

theorem full_flagged (h : Flagged (agentProjects s.projects agentId))
    (hrule : ∀ uid p, agentProjects s'.projects agentId uid = some p →
      (p.collision = true → p.readOnly = true) ∧ (p.missing = true → p.collision = false)) :
    Flagged (agentProjects s'.projects agentId) := by
  refine ⟨fun uid p hp => ?_, fun uid p hp hcollision => ?_⟩
  · obtain ⟨hreadOnly, hunflagged⟩ := hrule uid p hp
    cases hmissing : p.missing with
    | true =>
      refine ⟨fun hclash => ?_, fun _ => hunflagged hmissing⟩
      rw [hclash.1] at hmissing
      cases hmissing
    | false =>
      suffices hflag : (Clashes (agentProjects s'.projects agentId) uid p → p.collision = true) ∧
          (UniqueName (agentProjects s'.projects agentId) uid p → p.collision = false) from
        ⟨fun hclash => ⟨hflag.1 hclash, hreadOnly (hflag.1 hclash)⟩, hflag.2⟩
      rcases full_cases hfacts hmerge hplain hp hmissing with
        ⟨item, hitem, huid, hname, hcollision⟩ | ⟨htruncated, hunseen, hkept⟩
      · rw [hcollision]
        refine ⟨fun hclash => (collision_iff_scanClash hfacts hitem).mpr
          (scanClash_of_clashes hfacts hmerge hplain huid hname hitem hclash), fun hunique => ?_⟩
        rw [Bool.eq_false_iff, ne_eq, collision_iff_scanClash hfacts hitem]
        rintro ⟨-, other, hother, hdir, hsame⟩
        obtain ⟨p', hp', hmissing', hname', -⟩ := full_written hfacts hmerge hplain hother
        refine hunique _ p' hp' ?_ hmissing' (by rw [hname', hsame, hname])
        rw [← huid]
        exact fun he => hdir (projectUid_injective he)
      · obtain ⟨hclashes, hunflagged⟩ := h.complete uid p hkept
        refine ⟨?_, ?_⟩
        · rintro ⟨-, hne, uid', p', hp', huid', hmissing', hsame⟩
          rcases full_cases hfacts hmerge hplain hp' hmissing' with
            ⟨other, hother, -, hotherName, -⟩ | ⟨-, -, hkept'⟩
          · have hapart := hplain.kept_apart htruncated hunseen hkept hmissing hne hother
            exact absurd (hotherName.symm.trans hsame) hapart.1
          · exact (hclashes ⟨hmissing, hne, uid', p', hkept', huid', hmissing', hsame⟩).1
        · intro hunique
          by_contra hcollision
          rw [Bool.not_eq_false] at hcollision
          have hne := h.named uid p hkept hcollision
          rw [hunflagged ?_] at hcollision
          · cases hcollision
          -- a partner before was not written, so it is still there
          intro uid' p' hp' huid' hmissing' hsame
          by_cases hseen : ∃ item ∈ merged, item.uid agentId = uid'
          · obtain ⟨item, hitem, rfl⟩ := hseen
            obtain ⟨row', hrow', rfl⟩ := Option.map_eq_some_iff.mp hp'
            rw [Option.filter_eq_some_iff] at hrow'
            have hapart := hplain.kept_apart htruncated hunseen hkept hmissing hne hitem
            exact hapart.2 row' hrow'.1 hmissing' hsame
          · have hunseen' : ∀ item ∈ merged, item.uid agentId ≠ uid' :=
              fun item hitem he => hseen ⟨item, hitem, he⟩
            exact hunique uid' p' (full_kept hfacts hmerge htruncated hunseen' hp') huid'
              hmissing' hsame
  · cases hmissing : p.missing with
    | true =>
      rw [(hrule uid p hp).2 hmissing] at hcollision
      cases hcollision
    | false =>
      rcases full_cases hfacts hmerge hplain hp hmissing with
        ⟨item, hitem, -, hname, hflag⟩ | ⟨-, -, hkept⟩
      · rw [hname]
        exact ((collision_iff_scanClash hfacts hitem).mp (hflag ▸ hcollision)).1
      · exact h.named uid p hkept hcollision

end Plain

end

end Full

/-! ## After a targeted merge -/

theorem agentProjects_reconciled (t : Table Text Row) (agentId uid : Text) :
    agentProjects (reconcileTargetedProjectCollisions agentId t) agentId uid =
      ((t.get uid).filter fun row => row.agentId = agentId).map fun row =>
        ⟨row.name, row.flags.missing, collides (agentRows agentId t) row,
          projectReadOnly row.flags (collides (agentRows agentId t) row)⟩ := by
  unfold agentProjects reconcileTargetedProjectCollisions
  rw [onAgent_get]
  cases t.get uid with
  | none => rfl
  | some row =>
    by_cases hagent : row.agentId = agentId
    · simp [Option.filter, hagent, Row.shown]
    · simp [Option.filter, hagent]

theorem collides_iff {t : Table Text Row} {uid : Text} {row : Row} (hrow : t.get uid = some row)
    (hagent : row.agentId = agentId) :
    collides (agentRows agentId t) row = true ↔
      row.flags.missing = false ∧ row.name ≠ [] ∧
        ∃ uid' row', t.get uid' = some row' ∧ uid' ≠ uid ∧ row'.agentId = agentId ∧
          row'.flags.missing = false ∧ row'.name = row.name := by
  have hcount : nameCount (agentRows agentId t) row.name = t.rows.countP fun p =>
      (!p.2.flags.missing && decide (p.2.name = row.name)) && decide (p.2.agentId = agentId) := by
    unfold nameCount agentRows
    rw [countP_filter]
  unfold collides
  rw [hcount]
  simp only [Bool.and_eq_true, Bool.not_eq_true', decide_eq_true_eq, and_assoc]
  refine and_congr_right fun hmissing => and_congr_right fun hname => ?_
  rw [Table.one_lt_countP hrow (by simp [hmissing, hagent])]
  simp only [Bool.and_eq_true, Bool.not_eq_true', decide_eq_true_eq]
  constructor
  · intro h
    obtain ⟨uid', row', hget, hne, ⟨hmissing', hname'⟩, hagent'⟩ := h
    exact ⟨uid', row', hget, hne, hagent', hmissing', hname'⟩
  · intro h
    obtain ⟨uid', row', hget, hne, hagent', hmissing', hname'⟩ := h
    exact ⟨uid', row', hget, hne, ⟨hmissing', hname'⟩, hagent'⟩

theorem reconciled_complete (t : Table Text Row) (agentId : Text) :
    FlagsComplete (agentProjects (reconcileTargetedProjectCollisions agentId t) agentId) := by
  intro uid p hp
  rw [agentProjects_reconciled] at hp
  obtain ⟨row, hrow, rfl⟩ := Option.map_eq_some_iff.mp hp
  rw [Option.filter_eq_some_iff, decide_eq_true_eq] at hrow
  have hiff := collides_iff hrow.1 hrow.2
  constructor
  · intro hclash
    obtain ⟨hmissing, hname, uid', p', hp', hne, hmissing', hname'⟩ := hclash
    rw [agentProjects_reconciled] at hp'
    obtain ⟨row', hrow', rfl⟩ := Option.map_eq_some_iff.mp hp'
    rw [Option.filter_eq_some_iff, decide_eq_true_eq] at hrow'
    have hcollides := hiff.mpr
      ⟨hmissing, hname, uid', row', hrow'.1, hne, hrow'.2, hmissing', hname'⟩
    exact ⟨hcollides, by simp [projectReadOnly, hcollides]⟩
  · intro hunique
    dsimp only
    rw [Bool.eq_false_iff]
    intro hcollides
    obtain ⟨-, -, uid', row', hget, hne, hagent', hmissing', hname'⟩ := hiff.mp hcollides
    refine hunique uid' ⟨row'.name, row'.flags.missing, collides (agentRows agentId t) row',
      projectReadOnly row'.flags (collides (agentRows agentId t) row')⟩ ?_ hne hmissing' hname'
    rw [agentProjects_reconciled, hget]
    simp [hagent']

theorem reconciled_flagged (t : Table Text Row) (agentId : Text) :
    Flagged (agentProjects (reconcileTargetedProjectCollisions agentId t) agentId) := by
  refine ⟨reconciled_complete t agentId, fun uid p hp hcollides => ?_⟩
  rw [agentProjects_reconciled] at hp
  obtain ⟨row, -, rfl⟩ := Option.map_eq_some_iff.mp hp
  unfold collides at hcollides
  simp only [Bool.and_eq_true, decide_eq_true_eq] at hcollides
  exact hcollides.1.2

theorem targeted_other {s s' : Store} {item : Snapshot} {establishBaseline : Bool}
    {observedAt now : Time}
    (h : mergeTargetedProjectSnapshot s agentId item establishBaseline observedAt now = .ok s')
    {other : Text} (hne : other ≠ agentId) :
    agentProjects s'.projects other = agentProjects s.projects other := by
  obtain ⟨row, hrow, hagent, parents, t, ht, hs'⟩ := mergeTargeted_get h
  subst hs'
  funext uid
  unfold agentProjects
  dsimp only
  rw [reconcileTargetedProjectCollisions, onAgent_get, ht, Table.get_map, Table.get_set]
  by_cases huid : uid = projectUid agentId item.workingDir
  · have hother : row.agentId ≠ other := fun h => hne (h.symm.trans hagent)
    rw [if_pos huid, huid, hrow, shown_of_other hother]
    refine shown_of_other ?_
    dsimp only
    split <;> exact hother
  rw [if_neg huid]
  cases s.projects.get uid with
  | none => rfl
  | some row' =>
    dsimp only [Option.map_some]
    by_cases hmine : row'.agentId = agentId
    · have hother : row'.agentId ≠ other := fun h => hne (h.symm.trans hmine)
      rw [shown_of_other hother]
      refine shown_of_other ?_
      split <;> exact hother
    · have hmine' : (row'.withIncludes (parents uid row')).agentId ≠ agentId := hmine
      rw [if_neg hmine']
      exact shown_withIncludes _ row' other

/-! ## Runs -/

theorem step_flagged {agents : Text → Option AgentRow} {before : List Call}
    (h : ∀ agentId, Flagged (agentProjects (runAll (.fresh agents) before).projects agentId))
    {call : Call} (hplain : PlainAt agents before call) (agentId : Text) :
    Flagged (agentProjects (runAll (.fresh agents) (before ++ [call])).projects agentId) := by
  have hrule := collision_flagRule.run (collision_flagRule.runAll agents before) call
  unfold PlainAt at hplain
  rw [runAll_snoc]
  generalize runAll (.fresh agents) before = s at h hrule hplain ⊢
  unfold Call.run at hrule ⊢
  cases hresult : call.result s with
  | error e => exact h agentId
  | ok s' =>
    simp only [hresult] at hrule ⊢
    cases call with
    | full merging status projects docker observedAt =>
      rcases mergeProjectSnapshot_ok hresult with ⟨-, hsame⟩ | ⟨hnew, merged, hfacts, hmerge⟩
      · rw [hsame]
        exact h agentId
      by_cases hother : agentId = merging
      · subst hother
        simp only [Plain, hfacts] at hplain
        refine full_flagged hfacts hmerge (hplain hnew) (h agentId) ?_
        intro uid p hp
        obtain ⟨row, hrow, rfl⟩ := Option.map_eq_some_iff.mp hp
        rw [Option.filter_eq_some_iff] at hrow
        exact hrule uid row hrow.1
      · rw [full_other hfacts hmerge hother]
        exact h agentId
    | targeted merging item establishBaseline observedAt now =>
      by_cases hother : agentId = merging
      · subst hother
        obtain ⟨-, -, -, -, t, -, hs'⟩ := mergeTargeted_get hresult
        rw [hs']
        exact reconciled_flagged t agentId
      · rw [targeted_other hresult hother]
        exact h agentId
    | ended =>
      cases hresult
      exact h agentId

/-- Over any merges of any Agents: while every full merge is given a plain scan, the flags are
complete after every call. -/
theorem names_flagged (agents : Text → Option AgentRow) (calls : List Call)
    (h : AtEachStep (PlainAt agents) calls) : AtEachStep (NamesFlagged agents) calls := by
  have hboth : AtEachStep (fun before call => PlainAt agents before call ∧
      NamesFlagged agents before call) calls := by
    refine (atEachStep_iff (I := fun before => ∀ agentId,
      Flagged (agentProjects (runAll (.fresh agents) before).projects agentId)) ?_ ?_ ?_ calls).mpr h
    · intro agentId
      refine ⟨?_, ?_⟩
      · intro uid p hp
        cases hp
      · intro uid p hp
        cases hp
    · intro before call hflagged
      exact and_iff_left_of_imp fun hplain agentId => (step_flagged hflagged hplain agentId).complete
    · intro before call hflagged hplain agentId
      exact step_flagged hflagged hplain agentId
  exact fun before call after hsplit => (hboth before call after hsplit).2

/-! ## A name that is kept -/

def namedSnapshot (workingDir name : Text) (stale : Bool) : Snapshot :=
  { appSnapshot with
    workingDir := workingDir
    name := name
    composeExecutable := !stale
    restoreRecoveryRequired := false
    stale := stale }

/-- Two projects of one name; a truncated scan that finds a third one; then a complete scan in which
the first one is stale and the second one has another name. -/
def plainScans : List Call :=
  [.full (text "agent") ⟨1, false⟩
      [namedSnapshot (text "/srv/a") (text "a") false, namedSnapshot (text "/srv/b") (text "a") false]
      [] 1,
    .full (text "agent") ⟨2, true⟩ [namedSnapshot (text "/srv/c") (text "c") false] [] 2,
    .full (text "agent") ⟨3, false⟩
      [namedSnapshot (text "/srv/a") (text "a") true, namedSnapshot (text "/srv/b") (text "b") false]
      [] 3]

theorem plainScans_flagged :
    AtEachStep (PlainAt oneAgent) plainScans ∧ AtEachStep (NamesFlagged oneAgent) plainScans := by
  have hplain : AtEachStep (PlainAt oneAgent) plainScans := by
    rw [show plainScans = [] ++ plainScans.take 1 ++ (plainScans.drop 1).take 1 ++ plainScans.drop 2
      from rfl]
    refine atEachStep_snoc.mpr ⟨atEachStep_snoc.mpr ⟨atEachStep_snoc.mpr ⟨atEachStep_nil _, ?_⟩, ?_⟩,
      ?_⟩
    all_goals decide +kernel
  exact ⟨hplain, names_flagged oneAgent plainScans hplain⟩

/-- Two projects `a` and `b`; then `a` is stale and without a name, and `b` is called `a`. -/
def renamedScans : List Call :=
  [.full (text "agent") ⟨1, false⟩
      [namedSnapshot (text "/srv/a") (text "a") false, namedSnapshot (text "/srv/b") (text "b") false]
      [] 1, .full (text "agent") ⟨2, false⟩
      [namedSnapshot (text "/srv/a") [] true, namedSnapshot (text "/srv/b") (text "a") false] [] 2]

/-- Both projects are stored under the name `a`, none is flagged, and the second one is writable. -/
theorem renamedScans_unflagged :
    agentProjects (runAll (.fresh oneAgent) renamedScans).projects (text "agent")
        (projectUid (text "agent") (text "/srv/a")) = some ⟨text "a", false, false, true⟩ ∧
      agentProjects (runAll (.fresh oneAgent) renamedScans).projects (text "agent")
        (projectUid (text "agent") (text "/srv/b")) = some ⟨text "a", false, false, false⟩ ∧
      ¬ AtEachStep (NamesFlagged oneAgent) renamedScans := by
  rw [← and_assoc]
  refine (and_iff_left_of_imp ?_).mpr ⟨by decide +kernel, by decide +kernel⟩
  rintro ⟨ha, hb⟩ hflagged
  have hcomplete := hflagged (renamedScans.take 1) _ [] rfl (text "agent")
  have hcomplete : FlagsComplete
      (agentProjects (runAll (.fresh oneAgent) renamedScans).projects (text "agent")) := hcomplete
  have hclash := (hcomplete _ _ hb).1
    ⟨rfl, by decide +kernel, _, _, ha, by decide +kernel, rfl, rfl⟩
  cases hclash.1

end DockLattice.Server.ProjectMirror
