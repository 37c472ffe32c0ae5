import DockLattice.Store.Machine

/-!
# DockLattice.Store.Gaps

What `recomputeEffective` leaves in the ledger: the Agent's live gaps hold exactly the cursors that
the claims of its revision explain and the archive does not hold (`Recomputed`). All other rows that
count stay as they are.
-/

namespace DockLattice.Store

open List CoverageRow

variable {agentId : String} {c : Cursor} {d : DesiredCoverage} {db : Db} {r : CoverageRow}
  {state : CursorRow}

/-! ## Claims as sets of cursors -/

def GapClaim.Contains (g : GapClaim) (c : Cursor) : Prop :=
  g.incarnation = c.incarnation ∧ g.fromSeq ≤ c.seq ∧ c.seq < g.untilSeq

/-- The claim, at this point of delivery, says why the cursor may be missing. -/
def Claim.Explains (next : Option Cursor) (c : Cursor) : Claim → Prop
  | .gap g => g.inForce next = true ∧ g.Contains c
  | .coverageUnknown incarnation => incarnation = c.incarnation

def Db.Claimed (db : Db) (state : CursorRow) (c : Cursor) : Prop :=
  ∃ claim ∈ db.claimsAt state.agentId state.revision, claim.Explains state.next c

theorem mem_claims {revision : Nat} {g : GapClaim} :
    g ∈ (loadLatestClaims db agentId revision).1 ↔ .gap g ∈ db.claimsAt agentId revision := by
  simp only [loadLatestClaims, mem_filterMap, mem_insertionSort]
  constructor
  · rintro ⟨claim, hmem, hg⟩
    cases claim with
    | gap h => cases hg; exact hmem
    | coverageUnknown i => cases hg
  · intro hmem
    exact ⟨_, hmem, rfl⟩

theorem mem_unknown {revision i : Nat} :
    i ∈ (loadLatestClaims db agentId revision).2 ↔
      .coverageUnknown i ∈ db.claimsAt agentId revision := by
  simp only [loadLatestClaims, mem_filterMap, mem_insertionSort]
  constructor
  · rintro ⟨claim, hmem, hi⟩
    cases claim with
    | gap h => cases hi
    | coverageUnknown j => cases hi; exact hmem
  · intro hmem
    exact ⟨_, hmem, rfl⟩

/-! ## What is missing of a claim -/

def Range.Contains (r : Range) (c : Cursor) : Prop :=
  r.start.incarnation = c.incarnation ∧ r.start.seq ≤ c.seq ∧ c.seq < r.stop.seq

theorem mem_heldSeqs {incarnation first past n : Nat} :
    n ∈ heldSeqs db agentId incarnation first past ↔
      first ≤ n ∧ n < past ∧ db.Holds agentId ⟨incarnation, n⟩ := by
  simp only [heldSeqs, mem_insertionSort, mem_map, mem_filter, Bool.and_eq_true,
    beq_iff_eq, decide_eq_true_eq]
  constructor
  · rintro ⟨e, ⟨he, ⟨⟨ha, hi⟩, hf⟩, hp⟩, rfl⟩
    exact ⟨hf, hp, e, he, ha, Cursor.ext hi rfl⟩
  · rintro ⟨hf, hp, e, he, ha, hc⟩
    refine ⟨e, ⟨he, ⟨⟨ha, ?_⟩, ?_⟩, ?_⟩, ?_⟩ <;> rw [hc] <;> assumption

theorem missingRanges_contains {g : GapClaim} :
    (∃ r ∈ missingRanges db agentId g, r.Contains c) ↔ g.Contains c ∧ ¬ db.Holds agentId c := by
  have hle : ∀ t ∈ (heldSeqs db agentId g.incarnation g.fromSeq g.untilSeq).map Span.single,
      t.start ≤ g.untilSeq := by
    intro t ht
    obtain ⟨n, hn, rfl⟩ := mem_map.mp ht
    exact Nat.le_of_lt (mem_heldSeqs.mp hn).2.1
  have hmem := Span.mem_uncovered (n := c.seq) g.fromSeq
    (pairwise_map.mpr (pairwise_insertionSort (· ≤ ·) _)) hle
  have hrange : (∃ r ∈ missingRanges db agentId g, r.Contains c) ↔
      g.incarnation = c.incarnation ∧ ∃ s ∈ Span.uncovered g.fromSeq g.untilSeq
        ((heldSeqs db agentId g.incarnation g.fromSeq g.untilSeq).map Span.single), c.seq ∈ s := by
    constructor
    · rintro ⟨r, hr, hi, hc⟩
      obtain ⟨s, hs, rfl⟩ := mem_map.mp hr
      exact ⟨hi, s, hs, hc⟩
    · rintro ⟨hi, s, hs, hc⟩
      exact ⟨_, mem_map_of_mem hs, hi, hc⟩
  rw [hrange, hmem]
  simp only [forall_mem_map, Span.mem_single, mem_heldSeqs]
  constructor
  · rintro ⟨hi, hf, hu, hout⟩
    refine ⟨⟨hi, hf, hu⟩, fun hc => hout c.seq ⟨hf, hu, ?_⟩ rfl⟩
    rw [hi]
    exact hc
  · rintro ⟨⟨hi, hf, hu⟩, hc⟩
    refine ⟨hi, hf, hu, ?_⟩
    rintro n ⟨-, -, hn⟩ rfl
    rw [hi] at hn
    exact hc hn

/-! ## Desired coverage -/

def DesiredCoverage.Covers (d : DesiredCoverage) (c : Cursor) : Prop :=
  match d.range with
  | none => d.unknownIncarnation = c.incarnation
  | some r => r.Contains c

/-- Entries as `recomputeEffective` builds them. -/
def DesiredCoverage.Built (d : DesiredCoverage) : Prop :=
  match d.range with
  | none => d.precision = .unknown
  | some _ => d.unknownIncarnation = 0

theorem mem_desiredCoverage :
    d ∈ desiredCoverage db state ↔
      (∃ g, .gap g ∈ db.claimsAt state.agentId state.revision ∧ g.inForce state.next = true ∧
        ∃ r ∈ missingRanges db state.agentId g, d = ⟨0, some r, g.precision⟩) ∨
      ∃ i, .coverageUnknown i ∈ db.claimsAt state.agentId state.revision ∧
        d = ⟨i, none, .unknown⟩ := by
  simp only [desiredCoverage, sortDesired, mem_insertionSort, mem_append, mem_flatMap, mem_filter,
    mem_map, mem_claims, mem_unknown, and_assoc, eq_comm (a := d)]

theorem desiredCoverage_built (h : d ∈ desiredCoverage db state) : d.Built := by
  rcases mem_desiredCoverage.mp h with ⟨g, -, -, r, -, rfl⟩ | ⟨i, -, rfl⟩
  · rfl
  · rfl

theorem desiredCoverage_covers :
    (∃ d ∈ desiredCoverage db state, d.Covers c) ↔
      (∃ claim ∈ db.claimsAt state.agentId state.revision, claim.Explains state.next c ∧
        (claim.gap?.isSome = true → ¬ db.Holds state.agentId c)) := by
  constructor
  · rintro ⟨d, hd, hc⟩
    rcases mem_desiredCoverage.mp hd with ⟨g, hg, hforce, r, hr, rfl⟩ | ⟨i, hi, rfl⟩
    · obtain ⟨hcont, hnot⟩ := missingRanges_contains.mp ⟨r, hr, hc⟩
      exact ⟨_, hg, ⟨hforce, hcont⟩, fun _ => hnot⟩
    · exact ⟨_, hi, hc, fun h => (nomatch h)⟩
  · rintro ⟨claim, hmem, hexp, hnot⟩
    cases claim with
    | gap g =>
      obtain ⟨r, hr, hc⟩ := missingRanges_contains.mpr ⟨hexp.2, hnot rfl⟩
      exact ⟨_, mem_desiredCoverage.mpr (.inl ⟨g, hmem, hexp.1, r, hr, rfl⟩), hc⟩
    | coverageUnknown i => exact ⟨_, mem_desiredCoverage.mpr (.inr ⟨i, hmem, rfl⟩), hexp⟩

theorem CoverageRow.desired_covers : r.desired.Covers c ↔ r.Covers c := by
  unfold desired CoverageRow.Covers
  cases hf : r.fromSeq with
  | none => simp [DesiredCoverage.Covers]
  | some first =>
    cases hu : r.untilSeq with
    | none | some => simp [DesiredCoverage.Covers, Range.Contains]

/-! ## Row ids -/

theorem newId_not_mem (ids : List Nat) : newId ids ∉ ids := by
  intro h
  have hle := le_max_of_le h (Nat.le_refl _)
  rw [← foldl_eq_foldr] at hle
  exact absurd hle (Nat.not_succ_le_self _)

theorem nodup_newId {α : Type} {f : α → Nat} {rows : List α} (h : (rows.map f).Nodup) {row : α}
    (hid : f row = newId (rows.map f)) : ((rows ++ [row]).map f).Nodup := by
  rw [map_append, map_singleton, hid, ← concat_eq_append]
  exact h.concat (newId_not_mem _)

def Db.CoverageIds (db : Db) : Prop := (db.coverage.map CoverageRow.id).Nodup

theorem Db.CoverageIds.insert (h : db.CoverageIds) {row : Nat → CoverageRow}
    (hid : ∀ n, (row n).id = n) : (db.insertCoverage row).CoverageIds :=
  nodup_newId h (hid _)

theorem Db.CoverageIds.eq (h : db.CoverageIds) {s : CoverageRow} (hr : r ∈ db.coverage)
    (hs : s ∈ db.coverage) (hid : r.id = s.id) : r = s :=
  inj_on_of_nodup_map h hr hs hid

/-! ## Recomputing -/

structure SameTables (db db' : Db) : Prop where
  archive : db'.currentArchive = db.currentArchive
  events : db'.events = db.events
  claims : db'.claims = db.claims
  cursors : db'.cursors = db.cursors

theorem SameTables.refl (db : Db) : SameTables db db := ⟨rfl, rfl, rfl, rfl⟩

theorem SameTables.trans {a b c : Db} (h : SameTables a b) (h' : SameTables b c) :
    SameTables a c :=
  ⟨h'.archive.trans h.archive, h'.events.trans h.events, h'.claims.trans h.claims,
    h'.cursors.trans h.cursors⟩

structure Recomputed (archiveId agentId : String) (db db' : Db) : Prop where
  tables : SameTables db db'
  kept : ∀ r ∈ db.coverage, r.agentGap archiveId agentId = false → r ∈ db'.coverage
  others : ∀ r ∈ db'.coverage, r.live = true → r.agentGap archiveId agentId = false →
    r ∈ db.coverage
  gaps : ∃ state, db.cursorRow? archiveId agentId = some state ∧
    ∀ d, (∃ r ∈ db'.coverage, r.agentGap archiveId agentId = true ∧ r.desired = d) ↔
      d ∈ desiredCoverage db state
  ids : db.CoverageIds → db'.CoverageIds

theorem loadCursorState_eq {p : Platform} {archiveId : String}
    (h : loadCursorState p db archiveId agentId = .ok state) :
    db.cursorRow? archiveId agentId = some state := by
  unfold loadCursorState at h
  split at h
  · cases h
  next row hrow =>
    split at h
    · cases h
    · cases h
      exact hrow

section Recompute

variable {p : Platform} {archiveId : String} {now : Time}

theorem mem_resolveAgentGaps :
    r ∈ (resolveAgentGaps p archiveId agentId now db).coverage ↔
      (r ∈ db.coverage ∧ r.agentGap archiveId agentId = false) ∨
      ∃ s ∈ db.coverage, s.agentGap archiveId agentId = true ∧
        { s with resolvedAt := some (p.format now) } = r := by
  simp only [resolveAgentGaps, mem_map]
  constructor
  · rintro ⟨s, hs, rfl⟩
    split
    · next hg => exact .inr ⟨s, hs, hg, rfl⟩
    · next hg => exact .inl ⟨hs, by simpa using hg⟩
  · rintro (⟨hr, hg⟩ | ⟨s, hs, hg, rfl⟩)
    · exact ⟨r, hr, by rw [if_neg (by simp [hg])]⟩
    · exact ⟨s, hs, by rw [if_pos hg]⟩

theorem DesiredCoverage.row_agentGap (d : DesiredCoverage) (id : Nat) :
    (d.row p archiveId agentId now id).agentGap archiveId agentId = true := by
  unfold DesiredCoverage.row
  split <;> simp [agentGap, of, live]

theorem DesiredCoverage.row_id (d : DesiredCoverage) (id : Nat) :
    (d.row p archiveId agentId now id).id = id := by
  unfold DesiredCoverage.row
  split <;> rfl

theorem DesiredCoverage.row_desired (h : d.Built) (id : Nat) :
    (d.row p archiveId agentId now id).desired = d := by
  obtain ⟨unknown, range, precision⟩ := d
  cases range with
  | none | some => cases h; rfl

structure Inserted (archiveId agentId : String) (ds : List DesiredCoverage) (db db' : Db) :
    Prop where
  tables : SameTables db db'
  ids : db.CoverageIds → db'.CoverageIds
  kept : ∀ r ∈ db.coverage, r ∈ db'.coverage
  new : ∀ r ∈ db'.coverage, r ∈ db.coverage ∨
    (r.agentGap archiveId agentId = true ∧ r.desired ∈ ds)
  all : ∀ d ∈ ds, ∃ r ∈ db'.coverage, r.agentGap archiveId agentId = true ∧ r.desired = d

theorem insertDesired_inserted (h : d.Built) (db : Db) :
    Inserted archiveId agentId [d] db (insertDesired p archiveId agentId now db d) := by
  change Inserted archiveId agentId [d] db (db.insertCoverage (d.row p archiveId agentId now))
  refine ⟨⟨rfl, rfl, rfl, rfl⟩, fun hids => hids.insert fun _ => d.row_id _, ?_, ?_, ?_⟩
  · intro r hr
    exact mem_append_left _ hr
  · intro r hr
    rcases mem_append.mp hr with hr | hr
    · exact .inl hr
    · rw [mem_singleton.mp hr, d.row_desired h]
      exact .inr ⟨d.row_agentGap _, mem_singleton_self d⟩
  · intro d' hd
    rw [mem_singleton.mp hd]
    exact ⟨_, mem_append_right _ (mem_singleton_self _), d.row_agentGap _, d.row_desired h _⟩

theorem insertAll_inserted {ds : List DesiredCoverage} :
    ∀ db : Db, (∀ d ∈ ds, d.Built) →
      Inserted archiveId agentId ds db (ds.foldl (insertDesired p archiveId agentId now) db) := by
  induction ds with
  | nil =>
    intro db _
    exact ⟨.refl db, id, fun _ h => h, fun _ h => .inl h, fun _ h => (nomatch h)⟩
  | cons d ds ih =>
    intro db h
    rw [foldl_cons]
    have hfirst : Inserted archiveId agentId [d] db (insertDesired p archiveId agentId now db d) :=
      insertDesired_inserted (h d mem_cons_self) db
    have hrest := ih (insertDesired p archiveId agentId now db d) fun e he =>
      h e (mem_cons_of_mem _ he)
    refine ⟨hfirst.tables.trans hrest.tables, fun hids => hrest.ids (hfirst.ids hids),
      fun r hr => hrest.kept r (hfirst.kept r hr), fun r hr => ?_, fun e he => ?_⟩
    · rcases hrest.new r hr with hr | ⟨hg, hd⟩
      · rcases hfirst.new r hr with hr | ⟨hg, hd⟩
        · exact .inl hr
        · exact .inr ⟨hg, mem_cons.mpr (.inl (mem_singleton.mp hd))⟩
      · exact .inr ⟨hg, mem_cons_of_mem _ hd⟩
    · rcases mem_cons.mp he with rfl | he
      · obtain ⟨r, hr, hg⟩ := hfirst.all e (mem_singleton_self e)
        exact ⟨r, hrest.kept r hr, hg⟩
      · exact hrest.all e he

theorem resolveAgentGaps_ids (h : db.CoverageIds) :
    (resolveAgentGaps p archiveId agentId now db).CoverageIds := by
  unfold Db.CoverageIds resolveAgentGaps
  rw [map_map, show CoverageRow.id ∘ _ = CoverageRow.id from ?_]
  · exact h
  · funext r
    dsimp only [Function.comp_apply]
    split <;> rfl

theorem mem_loadCurrentEffective :
    d ∈ loadCurrentEffective db archiveId agentId ↔
      ∃ r ∈ db.coverage, r.agentGap archiveId agentId = true ∧ r.desired = d := by
  simp only [loadCurrentEffective, sortDesired, mem_insertionSort, mem_map, mem_filter, and_assoc]

theorem recomputeEffective_recomputed {db' : Db}
    (h : recomputeEffective p archiveId agentId now db = .ok db') :
    Recomputed archiveId agentId db db' := by
  unfold recomputeEffective at h
  split at h
  · cases h
  next state hstate =>
  have hrow := loadCursorState_eq hstate
  dsimp only at h
  split at h
  next hsame =>
    -- the ledger says already what is desired
    cases h
    refine ⟨.refl db, fun _ h _ => h, fun _ h _ _ => h, ⟨state, hrow, fun d => ?_⟩, id⟩
    rw [← hsame, mem_loadCurrentEffective]
  next hdiff =>
    cases h
    have hins : Inserted archiveId agentId (desiredCoverage db state)
        (resolveAgentGaps p archiveId agentId now db)
        ((desiredCoverage db state).foldl (insertDesired p archiveId agentId now)
          (resolveAgentGaps p archiveId agentId now db)) :=
      insertAll_inserted _ fun d hd => desiredCoverage_built hd
    refine ⟨⟨hins.tables.archive, hins.tables.events, hins.tables.claims, hins.tables.cursors⟩,
      fun r hr hg => hins.kept r (mem_resolveAgentGaps.mpr (.inl ⟨hr, hg⟩)), ?_, ⟨state, hrow,
      fun d => ⟨?_, fun hd => hins.all d hd⟩⟩, fun hids => hins.ids (resolveAgentGaps_ids hids)⟩
    · intro r hr hlive hg
      rcases hins.new r hr with hr | ⟨hg', -⟩
      · rcases mem_resolveAgentGaps.mp hr with ⟨hr, -⟩ | ⟨s, -, -, rfl⟩
        · exact hr
        · simp [live] at hlive
      · rw [hg] at hg'
        cases hg'
    · rintro ⟨r, hr, hg, rfl⟩
      rcases hins.new r hr with hr | ⟨-, hd⟩
      · rcases mem_resolveAgentGaps.mp hr with ⟨-, hg'⟩ | ⟨s, -, -, rfl⟩
        · rw [hg] at hg'
          cases hg'
        · simp [agentGap, live] at hg
      · exact hd

end Recompute

/-! ## The Agent's gaps as a set -/

def Db.Gapped (db : Db) (archiveId agentId : String) (c : Cursor) : Prop :=
  ∃ r ∈ db.coverage, r.agentGap archiveId agentId = true ∧ r.Covers c

theorem CoverageRow.agentGap_explaining {archiveId : String}
    (h : r.agentGap archiveId agentId = true) : r.explaining archiveId agentId = true := by
  simp only [agentGap, explaining, Bool.and_eq_true, beq_iff_eq, Bool.or_eq_true] at *
  exact ⟨⟨h.1.1.1, h.2⟩, .inl h.1.1.2⟩

variable {archiveId : String} {db' : Db}

theorem Recomputed.gapped (h : Recomputed archiveId agentId db db')
    (hstate : db.cursorRow? archiveId agentId = some state) :
    db'.Gapped archiveId agentId c ↔
      ∃ claim ∈ db.claimsAt state.agentId state.revision, claim.Explains state.next c ∧
        (claim.gap?.isSome = true → ¬ db.Holds state.agentId c) := by
  obtain ⟨state', hrow, hgaps⟩ := h.gaps
  rw [hstate] at hrow
  cases hrow
  rw [← desiredCoverage_covers]
  constructor
  · rintro ⟨r, hr, hg, hc⟩
    exact ⟨r.desired, (hgaps _).mp ⟨r, hr, hg, rfl⟩, desired_covers.mpr hc⟩
  · rintro ⟨d, hd, hc⟩
    obtain ⟨r, hr, hg, rfl⟩ := (hgaps d).mpr hd
    exact ⟨r, hr, hg, desired_covers.mp hc⟩

end DockLattice.Store
