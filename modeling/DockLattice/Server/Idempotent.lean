import DockLattice.Server.Mirror

/-!
# DockLattice.Server.Idempotent

Merging one record twice. `OperationRow.Mirrors` is what a run of merges of earlier records leaves in
the row, seen from a later record. A record without cancel fields and times keeps it on both paths;
`mergeOperation` takes any record whose request time the run agrees on; the recovery path drops the
cancel fields and the times, so every other record is refused there at its own revision.
-/

namespace DockLattice.Server

open Bytes Operation

variable {path : MergePath} {r : WebOperation}

def WebOperation.Bare (r : WebOperation) : Prop :=
  r.cancelMode = [] ∧ r.canCancel = false ∧ r.cancelabilityReason = [] ∧ r.requestedAt = none ∧
    r.startedAt = none ∧ r.finishedAt = none

instance (r : WebOperation) : Decidable r.Bare := by unfold WebOperation.Bare; infer_instance

/-- `stored` is the time of the record, where the record carries one. -/
def Known (stored incoming : Option Time) : Prop := ∀ t, incoming = some t → stored = some t

theorem timePointerEqualWhenKnown_iff {stored incoming : Option Time} :
    timePointerEqualWhenKnown stored incoming = true ↔ Known stored incoming := by
  cases incoming <;> simp [timePointerEqualWhenKnown, Known]

theorem Known.of_none {stored incoming : Option Time} (h : incoming = none) :
    Known stored incoming := by
  simp [Known, h]

theorem Known.orElse (incoming old : Option Time) : Known (incoming <|> old) incoming := by
  intro t h
  simp [h]

/-! ## What a row holds of a record -/

structure OperationRow.Holds (row : OperationRow) (spec : OperationSpec) (r : WebOperation) :
    Prop where
  status : row.status = r.status
  phase : row.phase = r.phase
  summary : row.summary = operationSummary spec r
  outputTail : row.outputTail = r.outputTail
  outputTruncated : row.outputTruncated = r.outputTruncated
  startedAt : Known row.startedAt r.startedAt
  finishedAt : Known row.finishedAt r.finishedAt

structure OperationRow.Mirrors (row : OperationRow) (spec : OperationSpec) (r : WebOperation) :
    Prop where
  same_spec : row.spec spec.id = spec
  revision_le : row.revision ≤ r.revision
  holds : row.revision = r.revision → row.Holds spec r
  requestedAt : Known row.requestedAt r.requestedAt
  valid : Utf8.valid row.outputTail = true

theorem insertRow_holds (spec : OperationSpec) (r : WebOperation) (t : Option Time) :
    (insertRow spec r t).Holds spec r :=
  ⟨rfl, rfl, rfl, rfl, rfl, fun _ h => h, fun _ h => h⟩

theorem recoveredSummary_of_bare {spec : OperationSpec} (h : r.Bare) :
    recoveredOperationSummary ⟨spec, r⟩ = operationSummary spec r := by
  obtain ⟨h1, h2, h3, _⟩ := h
  simp [recoveredOperationSummary, operationSummary, h1, h2, h3]

/-! ## A record of the run, seen from the later record -/

/-- `m` is a record of the same operation, not newer than `r`, equal to `r` at its revision. -/
structure WebOperation.Earlier (m r : WebOperation) : Prop where
  revision_le : m.revision ≤ r.revision
  equal : m.revision = r.revision → m = r
  valid : Utf8.valid m.outputTail = true

theorem WebOperation.Earlier.refl (h : Utf8.valid r.outputTail = true) :
    r.Earlier r := ⟨Nat.le_refl _, fun _ => rfl, h⟩

/-- The paths on which a run may take records without losing what `r` carries. -/
def Lossless (r : WebOperation) (path : MergePath) (m : WebOperation) : Prop :=
  r.Bare ∨ (path ≠ .recover ∧ m.requestedAt = r.requestedAt)

section Steps

variable {spec : OperationSpec} {m : WebOperation} {row : OperationRow}

theorem Mirrors.insertRow (he : m.Earlier r) (hreq : r.Bare ∨ m.requestedAt = r.requestedAt)
    (now : Time) : (insertRow spec m (m.requestedAt <|> some now)).Mirrors spec r where
  same_spec := rfl
  revision_le := he.revision_le
  holds := fun hrev => he.equal hrev ▸ insertRow_holds spec m _
  requestedAt := by
    rcases hreq with hb | hreq
    · exact .of_none hb.2.2.2.1
    · rw [← hreq]; exact Known.orElse _ _
  valid := he.valid

theorem Mirrors.updateRow (h : row.Mirrors spec r) (he : m.Earlier r) :
    (updateRow spec m row).Mirrors spec r where
  same_spec := by
    have hs := h.same_spec
    simp only [OperationRow.spec, Server.updateRow, operationSummary] at hs ⊢
    rw [← hs]
  revision_le := he.revision_le
  holds := fun hrev => by
    obtain rfl := he.equal hrev
    exact ⟨rfl, rfl, rfl, rfl, rfl, Known.orElse _ _, Known.orElse _ _⟩
  requestedAt := h.requestedAt
  valid := he.valid

theorem Mirrors.insertRecovered (he : m.Earlier r) (hb : r.Bare) :
    (insertRecoveredOperation ⟨spec, m⟩).Mirrors spec r where
  same_spec := rfl
  revision_le := he.revision_le
  holds := fun hrev => by
    obtain rfl := he.equal hrev
    exact ⟨rfl, rfl, recoveredSummary_of_bare hb, rfl, rfl, .of_none hb.2.2.2.2.1,
      .of_none hb.2.2.2.2.2⟩
  requestedAt := .of_none hb.2.2.2.1
  valid := he.valid

theorem Mirrors.updateRecovered (h : row.Mirrors spec r) (he : m.Earlier r) (hb : r.Bare) :
    (updateRecoveredOperation ⟨spec, m⟩ row).Mirrors spec r where
  same_spec := by
    have hs := h.same_spec
    simp only [OperationRow.spec, updateRecoveredOperation, recoveredOperationSummary] at hs ⊢
    rw [← hs]
  revision_le := he.revision_le
  holds := fun hrev => by
    obtain rfl := he.equal hrev
    exact ⟨rfl, rfl, recoveredSummary_of_bare hb, rfl, rfl, .of_none hb.2.2.2.2.1,
      .of_none hb.2.2.2.2.2⟩
  requestedAt := h.requestedAt
  valid := he.valid

end Steps

/-! ## The effect of one merge on the row -/

def RowMirrors (spec : OperationSpec) (r : WebOperation) (rows : Operations) : Prop :=
  ∀ row, rows spec.id = some row → row.Mirrors spec r

section Run

variable {projects : Projects} {spec : OperationSpec} {m : WebOperation} {rows : Operations}

theorem persistOperation_mirrors (h : RowMirrors spec r rows) (he : m.Earlier r)
    (hreq : r.Bare ∨ m.requestedAt = r.requestedAt) {insert : Bool} {now : Time}
    {row : OperationRow}
    (hp : persistOperation spec m insert now (rows spec.id) = some row) : row.Mirrors spec r := by
  cases hrow : rows spec.id with
  | none =>
    rw [hrow] at hp
    simp only [persistOperation] at hp
    split at hp
    · cases hp; exact Mirrors.insertRow he hreq now
    · cases hp
  | some old =>
    have hold := h old hrow
    rw [hrow] at hp
    simp only [persistOperation] at hp
    split at hp
    · cases hp; exact Mirrors.updateRow hold he
    · cases hp; exact hold

theorem RowMirrors.mergeOperation (h : RowMirrors spec r rows) (he : m.Earlier r)
    (hreq : r.Bare ∨ m.requestedAt = r.requestedAt) (insert : Bool) (now : Time) :
    RowMirrors spec r (mergeOperation rows spec m insert now).1 := by
  unfold Server.mergeOperation
  split
  · exact h
  rename_i row hp
  intro row' hrow'
  simp only [Function.update_self, Option.some.injEq] at hrow'
  subst hrow'
  exact persistOperation_mirrors h he hreq hp

theorem mergeRecoveredOperations_single (item : RecoveredOperation) :
    mergeRecoveredOperations projects rows [item] =
      match mergeRecoveredOperation projects rows item with
      | .error e => (rows, .error e)
      | .ok rows' => (rows', .ok ()) := by
  unfold mergeRecoveredOperations
  cases h : mergeRecoveredOperation projects rows item <;>
    simp [List.foldlM, h, bind, Except.bind, pure, Except.pure]

section

variable (h : RowMirrors spec r rows)

include h

theorem RowMirrors.recover (he : m.Earlier r) (hb : r.Bare) :
    RowMirrors spec r (mergeRecoveredOperations projects rows [⟨spec, m⟩]).1 := by
  rw [mergeRecoveredOperations_single]
  unfold mergeRecoveredOperation
  split
  · exact h
  rename_i rows' hrec
  dsimp only at hrec
  split at hrec
  · cases hrec
  split at hrec
  · cases hrec
    intro row hrow
    simp only [Function.update_self, Option.some.injEq] at hrow
    subst hrow
    exact Mirrors.insertRecovered he hb
  rename_i old hold
  split at hrec
  · cases hrec
  repeat' split at hrec
  all_goals cases hrec
  · exact h
  · exact h
  intro row hrow
  simp only [Function.update_self, Option.some.injEq] at hrow
  subst hrow
  exact Mirrors.updateRecovered (h old hold) he hb

theorem RowMirrors.mergeBy (he : m.Earlier r)
    (hp : Lossless r path m) (now : Time) :
    RowMirrors spec r (mergeBy projects spec path m now rows).1 := by
  have hreq : r.Bare ∨ m.requestedAt = r.requestedAt := hp.imp id And.right
  cases path with
  | start | refresh => exact h.mergeOperation he hreq _ now
  | recover =>
    rcases hp with hb | ⟨hne, _⟩
    · exact h.recover he hb
    · exact absurd rfl hne

theorem RowMirrors.mergeAll {history : List Merge}
    (hm : ∀ m ∈ history, m.operation.Earlier r ∧ Lossless r m.path m.operation) :
    RowMirrors spec r (mergeAll projects spec rows history) := by
  induction history generalizing rows with
  | nil => exact h
  | cons m history ih =>
    obtain ⟨he, hp⟩ := hm m (List.mem_cons_self ..)
    exact ih (h.mergeBy he hp m.now) fun m' hm' => hm m' (List.mem_cons_of_mem _ hm')

end

end Run

/-! ## A row of the record's own revision -/

section Twice

variable {projects : Projects} {spec : OperationSpec} {rows : Operations} {row : OperationRow}
  (hrow : rows spec.id = some row) (hid : r.id = spec.id)
  (howned : spec.projectUid = [] ∨ projects.owns spec.agentId spec.projectUid = true)

include hrow in
theorem persistOperation_self (hrev : row.revision = r.revision) (insert : Bool) (now : Time) :
    persistOperation spec r insert now (rows spec.id) = some row := by
  rw [hrow]
  simp [persistOperation, hrev]

section Same

variable (h : row.Mirrors spec r) (hrev : row.revision = r.revision)

include h hrev

theorem judgeOperation_ok : ∃ op, judgeOperation spec r row = .ok op := by
  obtain ⟨h1, h2, h3, h4, h5, h6, h7⟩ := h.holds hrev
  have hs := h.same_spec
  unfold judgeOperation scanOperation
  rw [if_pos h.valid]
  dsimp only
  rw [if_neg (not_not_intro hs), if_pos (show (row.operation spec.id).revision = _ from hrev),
    if_neg]
  · exact ⟨_, rfl⟩
  have hsame : sameAgentOperationState (row.operation spec.id) r = true := by
    simp only [sameAgentOperationState, Bool.and_eq_true, beq_iff_eq, timePointerEqualWhenKnown_iff]
    exact ⟨⟨⟨⟨⟨⟨⟨⟨⟨⟨h1, h2⟩, hrev⟩, congrArg (·.partialEffectsPossible) h3⟩,
      congrArg (·.error) h3⟩, congrArg (·.cancelMode) h3⟩, congrArg (·.canCancel) h3⟩,
      congrArg (·.cancelabilityReason) h3⟩, h.requestedAt⟩, h6⟩, h7⟩
  rw [hsame]
  simp [OperationRow.operation, h4, h5]

include hrow in
theorem mergeOperation_again (insert : Bool) (now : Time) :
    (mergeOperation rows spec r insert now).1 = rows ∧
      ∃ op, (mergeOperation rows spec r insert now).2 = .ok op := by
  unfold mergeOperation
  rw [persistOperation_self hrow hrev]
  refine ⟨?_, judgeOperation_ok h hrev⟩
  show Function.update rows spec.id (some row) = rows
  rw [← hrow]
  exact Function.update_eq_self spec.id rows

include hid

theorem loadStoredOperationTx_eq_iff : loadStoredOperationTx spec.id row = .ok r ↔ r.Bare := by
  obtain ⟨h1, h2, h3, h4, h5, -, -⟩ := h.holds hrev
  unfold loadStoredOperationTx
  rw [if_pos h.valid]
  cases r
  simp_all [WebOperation.Bare, operationSummary, OperationRow.operation]
  grind

include hrow howned

theorem recover_again :
    mergeRecoveredOperations projects rows [⟨spec, r⟩] =
      (rows, if r.Bare then .ok () else .error recoveredChanged) := by
  rw [mergeRecoveredOperations_single]
  unfold mergeRecoveredOperation
  have hload := loadStoredOperationTx_eq_iff hid h hrev
  dsimp only
  rw [if_neg (by rcases howned with ho | ho <;> simp [ho]), hrow]
  dsimp only
  have hok : ∃ c, loadStoredOperationTx spec.id row = .ok c ∧ c.revision = r.revision := by
    unfold loadStoredOperationTx
    rw [if_pos h.valid]
    exact ⟨_, rfl, hrev⟩
  obtain ⟨c, hc, hcrev⟩ := hok
  rw [hc] at hload ⊢
  dsimp only
  rw [if_neg (not_not_intro h.same_spec), if_neg (by omega), if_pos hcrev]
  by_cases hb : r.Bare
  · rw [if_neg (not_not_intro (Except.ok.inj (hload.mpr hb))), if_pos hb]
  · rw [if_pos (fun heq => hb (hload.mp (congrArg _ heq))), if_neg hb]

theorem mergeBy_again (hp : Lossless r path r) (now : Time) :
    mergeBy projects spec path r now rows = (rows, .ok ()) := by
  cases path with
  | start =>
    obtain ⟨h1, op, h2⟩ := mergeOperation_again hrow h hrev true now
    simp only [mergeBy, h1, h2, Except.map]
  | refresh =>
    obtain ⟨h1, op, h2⟩ := mergeOperation_again hrow h hrev false now
    simp only [mergeBy, h1, h2, Except.map]
  | recover =>
    rcases hp with hb | ⟨hne, _⟩
    · simp only [mergeBy, recover_again hrow hid howned h hrev, if_pos hb]
    · exact absurd rfl hne

end Same

variable (h : RowMirrors spec r rows)

include hrow h

theorem mergeOperation_first (hvalid : Utf8.valid r.outputTail = true) (insert : Bool)
    (now : Time) :
    ∃ row', (mergeOperation rows spec r insert now).1 spec.id = some row' ∧
      row'.revision = r.revision ∧ ∃ op, (mergeOperation rows spec r insert now).2 = .ok op := by
  obtain ⟨row', hp, hrev⟩ : ∃ row', persistOperation spec r insert now (rows spec.id) = some row' ∧
      row'.revision = r.revision := by
    have hold := h row hrow
    rw [hrow]
    simp only [persistOperation]
    split
    · exact ⟨_, rfl, rfl⟩
    rename_i hnot
    refine ⟨row, rfl, ?_⟩
    have hge : ¬ row.revision < r.revision := fun hlt => hnot ⟨hold.same_spec, hlt⟩
    have := hold.revision_le
    omega
  have hm := persistOperation_mirrors h (.refl hvalid) (.inr rfl) hp
  unfold mergeOperation
  rw [hp]
  exact ⟨row', Function.update_self .., hrev, judgeOperation_ok hm hrev⟩

include hid howned

theorem recover_first (hb : r.Bare) :
    ∃ row', (mergeRecoveredOperations projects rows [⟨spec, r⟩]).1 spec.id = some row' ∧
      row'.revision = r.revision ∧
      (mergeRecoveredOperations projects rows [⟨spec, r⟩]).2 = .ok () := by
  have hold := h row hrow
  by_cases hrev : row.revision = r.revision
  · rw [recover_again hrow hid howned hold hrev, if_pos hb]
    exact ⟨row, hrow, hrev, rfl⟩
  have hlt : row.revision < r.revision := by have := hold.revision_le; omega
  rw [mergeRecoveredOperations_single]
  unfold mergeRecoveredOperation loadStoredOperationTx
  dsimp only
  rw [if_neg (by rcases howned with ho | ho <;> simp [ho]), hrow]
  dsimp only
  rw [if_pos hold.valid]
  dsimp only [OperationRow.operation]
  rw [if_neg (not_not_intro hold.same_spec), if_neg (by omega), if_neg hrev]
  exact ⟨_, Function.update_self .., rfl, rfl⟩

theorem mergeBy_first (hvalid : Utf8.valid r.outputTail = true) (hp : Lossless r path r)
    (now : Time) :
    ∃ row', (mergeBy projects spec path r now rows).1 spec.id = some row' ∧
      row'.revision = r.revision ∧ (mergeBy projects spec path r now rows).2 = .ok () := by
  cases path with
  | start =>
    obtain ⟨row', h1, h2, op, h3⟩ := mergeOperation_first hrow h hvalid true now
    exact ⟨row', h1, h2, by simp only [mergeBy, h3, Except.map]⟩
  | refresh =>
    obtain ⟨row', h1, h2, op, h3⟩ := mergeOperation_first hrow h hvalid false now
    exact ⟨row', h1, h2, by simp only [mergeBy, h3, Except.map]⟩
  | recover =>
    rcases hp with hb | ⟨hne, _⟩
    · exact recover_first hrow hid howned h hb
    · exact absurd rfl hne

end Twice

/-! ## Merging a record twice -/

def AgentRecord (id : Text) (r : WebOperation) : Prop :=
  ∃ response, operationFromAgent id response = .ok r

theorem AgentRecord.spec {id : Text} (h : AgentRecord id r) :
    r.id = id ∧ Utf8.valid r.outputTail = true := by
  obtain ⟨response, h⟩ := h
  unfold operationFromAgent at h
  split at h
  · rename_i hacc
    cases h
    simp only [Response.acceptable, Bool.and_eq_true] at hacc
    exact ⟨rfl, by simp [hacc]⟩
  · cases h

/-- Whatever accepted records of the operation, none newer than `r` and none of `r`'s revision but
`r` itself, made its row, merging `r` twice succeeds and the second merge changes nothing. `allow`
says which paths and records the run may use. -/
def MergesTwice (projects : Projects) (spec : OperationSpec) (r : WebOperation)
    (allow : MergePath → WebOperation → Prop) : Prop :=
  ∀ (rows : Operations) (history : List Merge), rows spec.id = none →
    (∀ m ∈ history, AgentRecord spec.id m.operation ∧ m.operation.revision ≤ r.revision ∧
      (m.operation.revision = r.revision → m.operation = r) ∧ allow m.path m.operation) →
    (mergeAll projects spec rows history spec.id).isSome = true →
    ∀ (p q : MergePath) (t u : Time), allow p r → allow q r →
      let first := mergeBy projects spec p r t (mergeAll projects spec rows history)
      first.2 = .ok () ∧ mergeBy projects spec q r u first.1 = (first.1, .ok ())

theorem mergesTwice_of_lossless {projects : Projects} {spec : OperationSpec}
    {allow : MergePath → WebOperation → Prop} (hr : AgentRecord spec.id r)
    (howned : spec.projectUid = [] ∨ projects.owns spec.agentId spec.projectUid = true)
    (hallow : ∀ path m, allow path m → Lossless r path m) : MergesTwice projects spec r allow := by
  obtain ⟨hid, hvalid⟩ := hr.spec
  intro rows history hnone hhist hsome p q t u hp hq
  have hm : RowMirrors spec r (mergeAll projects spec rows history) := by
    refine RowMirrors.mergeAll (fun row hrow => ?_) fun m hm => ?_
    · rw [hnone] at hrow; cases hrow
    · obtain ⟨hacc, hle, heq, ha⟩ := hhist m hm
      exact ⟨⟨hle, heq, hacc.spec.2⟩, hallow _ _ ha⟩
  obtain ⟨row, hrow⟩ := Option.isSome_iff_exists.mp hsome
  obtain ⟨row', hrow', hrev, hok⟩ :=
    mergeBy_first hrow hid howned hm hvalid (hallow _ _ hp) t
  have hm' : RowMirrors spec r
      (mergeBy projects spec p r t (mergeAll projects spec rows history)).1 :=
    hm.mergeBy (.refl hvalid) (hallow _ _ hp) t
  exact ⟨hok, mergeBy_again hrow' hid howned (hm' row' hrow') hrev (hallow _ _ hq) u⟩

theorem cancelMode_text_ne_nil (mode : CancelMode) : mode.text ≠ [] := by
  cases mode <;> decide +kernel

theorem not_bare_of_record {id : Text} {record : Record}
    (h : operationFromAgent id (responseFromRecord record).overWire = .ok r) : ¬ r.Bare := by
  unfold operationFromAgent at h
  split at h
  · cases h
    intro hb
    exact cancelMode_text_ne_nil _ hb.1
  · cases h

/-- A record merges twice by any combination of the paths exactly if it carries no cancel fields and
no times, which no record of an Agent's engine does. Without the recovery path every record merges
twice, as long as the operation's records agree on the time of the request. -/
theorem mergesTwice_iff {projects : Projects} {spec : OperationSpec} {r : WebOperation}
    (hr : AgentRecord spec.id r)
    (howned : spec.projectUid = [] ∨ projects.owns spec.agentId spec.projectUid = true) :
    (MergesTwice projects spec r (fun _ _ => True) ↔ r.Bare) ∧
      MergesTwice projects spec r
        (fun path m => path ≠ .recover ∧ m.requestedAt = r.requestedAt) ∧
      ∀ record, operationFromAgent spec.id (responseFromRecord record).overWire = .ok r →
        ¬ r.Bare := by
  refine ⟨⟨fun h => ?_, fun hb => ?_⟩, ?_, fun record => not_bare_of_record⟩
  · -- `r` itself made the row; the recovery path then compares the whole record
    obtain ⟨hid, hvalid⟩ := hr.spec
    by_contra hb
    let start : Merge := ⟨.start, r, 0⟩
    have hrow : mergeAll projects spec (fun _ => none) [start] spec.id =
        some (insertRow spec r (r.requestedAt <|> some 0)) := by
      simp [mergeAll, mergeBy, mergeOperation, persistOperation, start]
    have hm : (insertRow spec r (r.requestedAt <|> some 0)).Mirrors spec r :=
      Mirrors.insertRow (.refl hvalid) (.inr rfl) 0
    have hfirst := (h (fun _ => none) [start] rfl
      (by simpa [start] using hr) (by rw [hrow]; rfl) .recover .recover 0 0 trivial trivial).1
    simp only [mergeBy, recover_again hrow hid howned hm rfl, if_neg hb] at hfirst
    cases hfirst
  · exact mergesTwice_of_lossless hr howned fun _ _ _ => .inl hb
  · exact mergesTwice_of_lossless hr howned fun _ _ ha => .inr ha

def shopProjects : Projects := fun uid =>
  if uid = text "shop" then
    some ⟨text "agent-1", text "/srv/shop", text "shop", [], ⟨false, true, [], [], .noBaseline⟩⟩
  else none

def shopUp : OperationSpec :=
  ⟨text "op-1", text "agent-1", text "shop", text "compose.up", []⟩

def bareRunning : Response :=
  ⟨text "running", text "executing", 3, false, [], [], false, [], false, [], zeroTime, zeroTime,
    zeroTime⟩

theorem bareRunning_mergesTwice :
    ∃ r, operationFromAgent (text "op-1") bareRunning = .ok r ∧
      MergesTwice shopProjects shopUp r (fun _ _ => True) := by
  obtain ⟨r, hr, hbare⟩ : ∃ r, operationFromAgent (text "op-1") bareRunning = .ok r ∧ r.Bare :=
    exists_ok_of_decide (by decide +kernel)
  exact ⟨r, hr, (mergesTwice_iff ⟨_, hr⟩ (.inr (by decide +kernel))).1.mpr hbare⟩

def composeRunning : Response :=
  ⟨text "running", text "executing", 3, false, [], [], false, text "BEST_EFFORT_PARTIAL", true, [],
    1767225600 * second, 1767225600 * second, zeroTime⟩

/-- The Server records the run as it starts; after a reconnect the Agent lists the same record, and
the Server reports a conflict. -/
theorem relisting_conflicts :
    ∃ r, operationFromAgent (text "op-1") composeRunning = .ok r ∧
      (mergeBy shopProjects shopUp .recover r 0
        (mergeAll shopProjects shopUp (fun _ => none) [⟨.start, r, 0⟩])).2 =
          .error recoveredChanged ∧
      (mergeBy shopProjects shopUp .recover r 0
        (mergeAll shopProjects shopUp (fun _ => none) [⟨.recover, r, 0⟩])).2 =
          .error recoveredChanged := by
  exact exists_ok_of_decide (by decide +kernel)

end DockLattice.Server
