import DockLattice.Server.Mirror

/-!
# DockLattice.Server.Monotone

The mirror of the operations only moves forward. The upsert, the guarded update and the recovery
update write different columns, but each of them replaces a row only by one that `Advances` it, and
only when the record has the higher revision; a whole run of calls for any operations then advances
every row (`mirror_monotone`).
-/

namespace DockLattice.Server

open Bytes Operation

structure OperationRow.Advances (row row' : OperationRow) : Prop where
  revision : row.revision ≤ row'.revision
  agentId : row'.agentId = row.agentId
  projectUid : row'.projectUid = row.projectUid
  kind : row'.kind = row.kind
  target : row'.summary.target = row.summary.target
  started : row.startedAt.isSome → row'.startedAt.isSome
  finished : row.finishedAt.isSome → row'.finishedAt.isSome

namespace OperationRow
namespace Advances

theorem refl (row : OperationRow) : row.Advances row where
  revision := le_refl _
  agentId := rfl
  projectUid := rfl
  kind := rfl
  target := rfl
  started := id
  finished := id

theorem trans {a b c : OperationRow} (h : a.Advances b) (h' : b.Advances c) : a.Advances c where
  revision := h.revision.trans h'.revision
  agentId := h'.agentId.trans h.agentId
  projectUid := h'.projectUid.trans h.projectUid
  kind := h'.kind.trans h.kind
  target := h'.target.trans h.target
  started := fun hs => h'.started (h.started hs)
  finished := fun hf => h'.finished (h.finished hf)

end Advances

theorem target_of_spec {row : OperationRow} {id : Text} {spec : OperationSpec}
    (h : row.spec id = spec) : row.summary.target = spec.target := by
  rw [← h]
  rfl

end OperationRow

theorem updateRow_advances {spec : OperationSpec} {op : WebOperation} {row : OperationRow}
    (hspec : row.spec spec.id = spec) (hrev : row.revision < op.revision) :
    row.Advances (updateRow spec op row) where
  revision := hrev.le
  agentId := rfl
  projectUid := rfl
  kind := rfl
  target := (OperationRow.target_of_spec hspec).symm
  started := by
    intro h
    cases hop : op.startedAt with
    | none => simpa [updateRow, hop] using h
    | some t => simp [updateRow, hop]
  finished := by
    intro h
    cases hop : op.finishedAt with
    | none => simpa [updateRow, hop] using h
    | some t => simp [updateRow, hop]

theorem updateRecoveredOperation_advances {item : RecoveredOperation} {row : OperationRow}
    (hspec : row.spec item.spec.id = item.spec) (hrev : row.revision < item.operation.revision) :
    row.Advances (updateRecoveredOperation item row) where
  revision := hrev.le
  agentId := rfl
  projectUid := rfl
  kind := rfl
  target := (OperationRow.target_of_spec hspec).symm
  started := id
  finished := id

/-! ## Tables -/

/-- What one call with records of these operations and revisions may do to the table: a row moves
forward, and one that no record overtakes stays. -/
structure Operations.Moves (carried : Text → Nat → Prop) (rows rows' : Operations) : Prop where
  advances : ∀ id row, rows id = some row → ∃ row', rows' id = some row' ∧ row.Advances row'
  stays : ∀ id row, rows id = some row → (∀ n, carried id n → n ≤ row.revision) →
    rows' id = some row

namespace Operations
namespace Moves

variable {carried : Text → Nat → Prop} {rows rows' rows'' : Operations}

theorem refl (carried : Text → Nat → Prop) (rows : Operations) : Moves carried rows rows where
  advances := fun _ row h => ⟨row, h, .refl row⟩
  stays := fun _ _ h _ => h

theorem trans (h : Moves carried rows rows') (h' : Moves carried rows' rows'') :
    Moves carried rows rows'' where
  advances := by
    intro id row hrow
    obtain ⟨row', hrow', hadv⟩ := h.advances id row hrow
    obtain ⟨row'', hrow'', hadv'⟩ := h'.advances id row' hrow'
    exact ⟨row'', hrow'', hadv.trans hadv'⟩
  stays := by
    intro id row hrow hold
    exact h'.stays id row (h.stays id row hrow hold) hold

theorem update {id : Text} {new : OperationRow}
    (h : ∀ row, rows id = some row →
      row.Advances new ∧ (row = new ∨ ∃ n, carried id n ∧ row.revision < n)) :
    Moves carried rows (Function.update rows id (some new)) where
  advances := by
    intro id' row hrow
    by_cases hid : id' = id
    · subst hid
      exact ⟨new, Function.update_self .., (h row hrow).1⟩
    · exact ⟨row, by rw [Function.update_of_ne hid, hrow], .refl row⟩
  stays := by
    intro id' row hrow hold
    by_cases hid : id' = id
    · subst hid
      rw [Function.update_self]
      rcases (h row hrow).2 with heq | ⟨n, hn, hlt⟩
      · rw [heq]
      · exact absurd (hold n hn) (by omega)
    · rw [Function.update_of_ne hid, hrow]

end Moves
end Operations

/-! ## The two merges -/

theorem mergeOperation_moves (rows : Operations) (spec : OperationSpec) (incoming : WebOperation)
    (insert : Bool) (now : Time) :
    rows.Moves (fun id n => id = spec.id ∧ n = incoming.revision)
      (mergeOperation rows spec incoming insert now).1 := by
  unfold mergeOperation
  cases hnew : persistOperation spec incoming insert now (rows spec.id) with
  | none => exact .refl _ rows
  | some new =>
    refine .update ?_
    intro row hrow
    rw [hrow] at hnew
    dsimp only [persistOperation] at hnew
    split at hnew
    · rename_i hguard
      cases hnew
      exact ⟨updateRow_advances hguard.1 hguard.2, .inr ⟨_, ⟨rfl, rfl⟩, hguard.2⟩⟩
    · cases hnew
      exact ⟨.refl _, .inl rfl⟩

theorem mergeRecoveredOperation_moves {projects : Projects} {rows rows' : Operations}
    {item : RecoveredOperation} (h : mergeRecoveredOperation projects rows item = .ok rows') :
    rows.Moves (fun id n => id = item.spec.id ∧ n = item.operation.revision) rows' := by
  unfold mergeRecoveredOperation at h
  split at h
  · cases h
  cases hrow : rows item.spec.id with
  | none =>
    simp only [hrow, Except.ok.injEq] at h
    rw [← h]
    refine .update ?_
    intro row hrow'
    rw [hrow] at hrow'
    cases hrow'
  | some row =>
    simp only [hrow] at h
    cases hload : loadStoredOperationTx item.spec.id row with
    | error e => simp [hload] at h
    | ok canonical =>
      have hrevision : canonical.revision = row.revision := by
        unfold loadStoredOperationTx at hload
        split at hload
        · cases hload
          rfl
        · cases hload
      simp only [hload] at h
      split at h
      · cases h
      rename_i hspec
      rw [not_not] at hspec
      split at h
      · cases h
        exact .refl _ rows
      rename_i hnot
      split at h
      · split at h
        · cases h
        · cases h
          exact .refl _ rows
      rename_i hne
      cases h
      have hlt : row.revision < item.operation.revision := by omega
      refine .update ?_
      intro row' hrow'
      rw [hrow] at hrow'
      cases hrow'
      exact ⟨updateRecoveredOperation_advances hspec hlt, .inr ⟨_, ⟨rfl, rfl⟩, hlt⟩⟩

theorem Operations.Moves.weaken {carried carried' : Text → Nat → Prop} {rows rows' : Operations}
    (h : rows.Moves carried rows') (hsub : ∀ id n, carried id n → carried' id n) :
    rows.Moves carried' rows' where
  advances := h.advances
  stays := fun id row hrow hold => h.stays id row hrow fun n hn => hold n (hsub id n hn)

theorem foldlM_moves {projects : Projects} (carried : Text → Nat → Prop)
    (items : List RecoveredOperation) :
    ∀ {rows rows' : Operations}, (∀ item ∈ items, carried item.spec.id item.operation.revision) →
      items.foldlM (mergeRecoveredOperation projects) rows = .ok rows' →
      rows.Moves carried rows' := by
  induction items with
  | nil =>
    intro rows rows' _ h
    cases h
    exact .refl _ rows
  | cons item items ih =>
    intro rows rows' hcarried h
    rw [List.foldlM_cons] at h
    cases hstep : mergeRecoveredOperation projects rows item with
    | error e =>
      rw [hstep] at h
      cases h
    | ok mid =>
      rw [hstep] at h
      have hfirst : rows.Moves carried mid := by
        refine (mergeRecoveredOperation_moves hstep).weaken ?_
        intro id n hn
        rw [hn.1, hn.2]
        exact hcarried item List.mem_cons_self
      exact hfirst.trans (ih (fun i hi => hcarried i (List.mem_cons_of_mem _ hi)) h)

theorem mergeRecoveredOperations_moves (projects : Projects) (rows : Operations)
    (items : List RecoveredOperation) :
    rows.Moves (fun id n => ∃ item ∈ items, item.spec.id = id ∧ item.operation.revision = n)
      (mergeRecoveredOperations projects rows items).1 := by
  unfold mergeRecoveredOperations
  cases hfold : items.foldlM (mergeRecoveredOperation projects) rows with
  | error e => exact .refl _ rows
  | ok rows' => exact foldlM_moves _ items (fun item hi => ⟨item, hi, rfl, rfl⟩) hfold

/-! ## Runs -/

/-- A call that writes the mirror, with the projects it finds; a call that its context or the store
ends before anything is committed is `ended`. -/
inductive MirrorCall where
  | operation (spec : OperationSpec) (incoming : WebOperation) (insert : Bool) (now : Time)
  | recovered (projects : Projects) (items : List RecoveredOperation)
  | ended

namespace MirrorCall

def run (rows : Operations) : MirrorCall → Operations
  | operation spec incoming insert now => (mergeOperation rows spec incoming insert now).1
  | recovered projects items => (mergeRecoveredOperations projects rows items).1
  | ended => rows

def Carries : MirrorCall → Text → Nat → Prop
  | operation spec incoming _ _, id, n => id = spec.id ∧ n = incoming.revision
  | recovered _ items, id, n => ∃ item ∈ items, item.spec.id = id ∧ item.operation.revision = n
  | ended, _, _ => False

theorem run_moves (call : MirrorCall) (rows : Operations) :
    rows.Moves call.Carries (call.run rows) := by
  cases call with
  | operation spec incoming insert now => exact mergeOperation_moves rows spec incoming insert now
  | recovered projects items => exact mergeRecoveredOperations_moves projects rows items
  | ended => exact .refl _ rows

def runAll (rows : Operations) (calls : List MirrorCall) : Operations :=
  calls.foldl run rows

theorem runAll_advances (calls : List MirrorCall) :
    ∀ {rows : Operations} {id : Text} {row : OperationRow}, rows id = some row →
      ∃ row', runAll rows calls id = some row' ∧ row.Advances row' := by
  induction calls with
  | nil =>
    intro rows id row h
    exact ⟨row, h, .refl row⟩
  | cons call calls ih =>
    intro rows id row h
    obtain ⟨mid, hmid, hadv⟩ := (call.run_moves rows).advances id row h
    obtain ⟨row', hrow', hadv'⟩ := ih hmid
    exact ⟨row', hrow', hadv.trans hadv'⟩

end MirrorCall

open MirrorCall in
/-- From any table, over any calls: between any two moments of the run every stored operation
advances; a call whose records of an operation are not above the stored revision leaves its row; and
a recovery that returns an error leaves every row. -/
theorem mirror_monotone (rows : Operations) (before between : List MirrorCall) :
    (∀ id row, runAll rows before id = some row →
      ∃ row', runAll rows (before ++ between) id = some row' ∧ row.Advances row') ∧
    (∀ (call : MirrorCall) id row, runAll rows before id = some row →
      (∀ n, call.Carries id n → n ≤ row.revision) →
      call.run (runAll rows before) id = some row) ∧
    ∀ projects items e,
      (mergeRecoveredOperations projects (runAll rows before) items).2 = .error e →
      (mergeRecoveredOperations projects (runAll rows before) items).1 = runAll rows before := by
  refine ⟨?_, ?_, ?_⟩
  · intro id row hrow
    have hsplit : runAll rows (before ++ between) = runAll (runAll rows before) between :=
      List.foldl_append ..
    rw [hsplit]
    exact runAll_advances between hrow
  · intro call id row hrow hold
    exact (call.run_moves _).stays id row hrow hold
  · intro projects items e herror
    unfold mergeRecoveredOperations at herror ⊢
    cases hfold : items.foldlM (mergeRecoveredOperation projects) (runAll rows before) with
    | error e' => rfl
    | ok rows' => simp [hfold] at herror

end DockLattice.Server
