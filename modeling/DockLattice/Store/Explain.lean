import DockLattice.Store.Purge

/-!
# DockLattice.Store.Explain

What holds over whole lives of an archive. `Db.Ok` is kept by every operation, and `Stepped` says once
what an operation does; from it follow

* `explanations_kept`: a cursor that has an event or lies in effective coverage keeps one of the two;
* `retention_accounted`: the effective retention ranges hold exactly the cursors whose events
  retention deleted.
-/

namespace DockLattice.Store

open List CoverageRow

variable {p : Platform} {A : String} {agentId : String} {db db' : Db} {C E : Prop} {r : CoverageRow}
variable {a agentId' : String} {b : Option Cursor} {c : Cursor} {f : CursorRow → CursorRow}
  {reason : Reason} {revision : Nat} {state : CursorRow}

/-! ## Cursor rows -/

theorem cursorRow?_key (h : db.cursorRow? a agentId = some state) :
    state.archiveId = a ∧ state.agentId = agentId := by
  have hkey := find?_some h
  simpa using hkey

/-- An update that leaves the key of a cursor row as it is. -/
def KeepsKey (f : CursorRow → CursorRow) : Prop :=
  ∀ r, (f r).archiveId = r.archiveId ∧ (f r).agentId = r.agentId

theorem cursorRow?_update (hf : KeepsKey f)
    (a' agentId' : String) :
    (db.updateCursor a agentId f).cursorRow? a' agentId' = (db.cursorRow? a' agentId').map fun r =>
      if r.archiveId = a ∧ r.agentId = agentId then f r else r := by
  unfold Db.updateCursor Db.cursorRow?
  dsimp only
  rw [find?_map]
  congr 2
  funext r
  dsimp only [Function.comp_apply]
  split
  · rw [(hf r).1, (hf r).2]
  · rfl

theorem cursorRow?_update_self (hf : KeepsKey f)
    (h : db.cursorRow? A agentId = some state) :
    (db.updateCursor A agentId f).cursorRow? A agentId = some (f state) := by
  rw [cursorRow?_update hf, h, Option.map_some, if_pos (cursorRow?_key h)]

theorem cursorRow?_update_other (hf : KeepsKey f)
    (hne : agentId' ≠ agentId) :
    (db.updateCursor A agentId f).cursorRow? A agentId' = db.cursorRow? A agentId' := by
  rw [cursorRow?_update hf]
  cases hrow : db.cursorRow? A agentId' with
  | none => rfl
  | some state =>
    rw [Option.map_some, if_neg fun h => hne ((cursorRow?_key hrow).2.symm.trans h.2)]

def NotBefore (a b : Option Cursor) : Prop := ∀ c, a = some c → ∃ d, b = some d ∧ c ≤ d

theorem NotBefore.refl (a : Option Cursor) : NotBefore a a := fun c h => ⟨c, h, le_refl c⟩

theorem NotBefore.trans {a c : Option Cursor} (h : NotBefore a b) (h' : NotBefore b c) :
    NotBefore a c := by
  intro x hx
  obtain ⟨y, hy, hxy⟩ := h x hx
  obtain ⟨z, hz, hyz⟩ := h' y hy
  exact ⟨z, hz, le_trans hxy hyz⟩

def Advances (A : String) (db db' : Db) : Prop :=
  ∀ agentId state, db.cursorRow? A agentId = some state →
    ∃ state', db'.cursorRow? A agentId = some state' ∧ NotBefore state.ack state'.ack ∧
      NotBefore state.next state'.next

theorem Advances.refl (A : String) (db : Db) : Advances A db db :=
  fun _ state h => ⟨state, h, .refl _, .refl _⟩

theorem Advances.trans {a b c : Db} (h : Advances A a b) (h' : Advances A b c) :
    Advances A a c := by
  intro agentId state hstate
  obtain ⟨state₁, hstate₁, hack₁, hnext₁⟩ := h agentId state hstate
  obtain ⟨state₂, hstate₂, hack₂, hnext₂⟩ := h' agentId state₁ hstate₁
  exact ⟨state₂, hstate₂, hack₁.trans hack₂, hnext₁.trans hnext₂⟩

theorem Advances.of_cursors (h : db'.cursors = db.cursors) : Advances A db db' :=
  fun _ state hstate => ⟨state, (cursorRow?_congr h _ _).trans hstate, .refl _, .refl _⟩

theorem Advances.update (hf : KeepsKey f)
    (hstate : db.cursorRow? A agentId = some state) (hack : NotBefore state.ack (f state).ack)
    (hnext : NotBefore state.next (f state).next) :
    Advances A db (db.updateCursor A agentId f) := by
  intro agentId' state' hstate'
  by_cases ha : agentId' = agentId
  · subst ha
    rw [hstate] at hstate'
    cases hstate'
    exact ⟨_, cursorRow?_update_self hf hstate, hack, hnext⟩
  · exact ⟨state', (cursorRow?_update_other hf ha).trans hstate', .refl _, .refl _⟩

/-! ## The invariant and the step -/

structure Db.Ok (A : String) (db : Db) : Prop where
  tables : Tables A db
  ledger : Ledger db
  gaps : ∀ agentId c, db.Gapped A agentId c →
    ∃ state, db.cursorRow? A agentId = some state ∧ db.Claimed state c

def Db.ClaimedFor (db : Db) (A agentId : String) (c : Cursor) : Prop :=
  ∃ state, db.cursorRow? A agentId = some state ∧ db.Claimed state c

/-- What an operation does to a well-formed archive. `C` is what the operation needs so as not to
withdraw an explanation, `E` says that it deletes no event. -/
structure Stepped (A : String) (C E : Prop) (db db' : Db) : Prop where
  ok : db'.Ok A
  advances : Advances A db db'
  accounts : ∀ agentId c, db'.Retained A agentId c ↔
    db.Retained A agentId c ∨ (db.Holds agentId c ∧ ¬ db'.Holds agentId c)
  explained : C → ∀ agentId c, db.Explained A agentId c → db'.Explained A agentId c
  held : E → ∀ agentId c, db.Holds agentId c → db'.Holds agentId c

theorem Stepped.refl (h : db.Ok A) : Stepped A C E db db :=
  ⟨h, .refl A db, fun _ _ => ⟨.inl, fun h => h.elim id fun h => absurd h.1 h.2⟩, fun _ _ _ h => h,
    fun _ _ _ h => h⟩

theorem CoverageRow.retention_explaining (h : Ledger db) (hr : r ∈ db.coverage)
    (hret : r.retention A agentId = true) : r.explaining A agentId = true := by
  obtain ⟨hof, hsource, hlive⟩ := retention_iff.mp hret
  simp [explaining, of, hof, hlive, (h.ranged r hr hsource hlive).gap]

theorem Db.Retained.covered (hl : Ledger db) (h : db.Retained A agentId c) :
    db.Covered A agentId c := by
  obtain ⟨r, hr, hret, hc⟩ := h
  exact ⟨r, hr, r.retention_explaining hl hr hret, hc⟩

theorem CoverageRow.agentGap_of (h : r.agentGap A agentId' = true)
    (hof : r.of A agentId = true) : agentId' = agentId := by
  simp only [agentGap, of, Bool.and_eq_true, beq_iff_eq] at h hof
  exact h.1.1.1.2.symm.trans hof.2

theorem CoverageRow.agentGap_source (h : r.agentGap A agentId = true) :
    r.of A agentId = true ∧ r.live = true ∧ r.source = .agentGap := by
  simp only [agentGap, Bool.and_eq_true, beq_iff_eq] at h
  exact ⟨h.1.1.1, h.2, h.1.2⟩

theorem Stepped.of_quiet (hok : db.Ok A) (htables : Tables A db') (hids : db'.CoverageIds)
    (hevents : ∀ e ∈ db.events, e ∈ db'.events)
    (hkept : ∀ r ∈ db.coverage, r.live = true →
      r ∈ db'.coverage ∨ ∃ agentId, r.agentGap A agentId = true)
    (hretention : ∀ r ∈ db'.coverage, r.live = true → r.source = .retention → r ∈ db.coverage)
    (hgaps : ∀ agentId c, db'.Gapped A agentId c → db'.ClaimedFor A agentId c)
    (hadvances : Advances A db db')
    (hgapped : C → ∀ agentId c, db.Gapped A agentId c → db'.Explained A agentId c) :
    Stepped A C E db db' := by
  have hholds : ∀ agentId c, db.Holds agentId c → db'.Holds agentId c := by
    rintro agentId c ⟨e, he, hkey⟩
    exact ⟨e, hevents e he, hkey⟩
  refine ⟨⟨htables, ⟨hids, ?_, ?_⟩, hgaps⟩, hadvances, ?_, ?_, fun _ => hholds⟩
  · exact fun r hr hs hl => hok.ledger.ranged r (hretention r hr hl hs) hs hl
  · intro r hr s hs hne hsr hlr hss hls
    exact hok.ledger.apart r (hretention r hr hlr hsr) s (hretention s hs hls hss) hne hsr hlr hss
      hls
  · intro agentId c
    constructor
    · rintro ⟨r, hr, hret, hc⟩
      obtain ⟨-, hsource, hlive⟩ := retention_iff.mp hret
      exact .inl ⟨r, hretention r hr hlive hsource, hret, hc⟩
    · rintro (⟨r, hr, hret, hc⟩ | ⟨hheld, hgone⟩)
      · obtain ⟨-, hsource, hlive⟩ := retention_iff.mp hret
        rcases hkept r hr hlive with hr | ⟨agentId', hgap⟩
        · exact ⟨r, hr, hret, hc⟩
        · cases hsource.symm.trans (r.agentGap_source hgap).2.2
      · exact absurd (hholds agentId c hheld) hgone
  · rintro hC agentId c (hheld | ⟨r, hr, hexp, hc⟩)
    · exact .inl (hholds agentId c hheld)
    have hexp' := hexp
    simp only [explaining, Bool.and_eq_true] at hexp'
    rcases hkept r hr hexp'.1.2 with hr | ⟨agentId', hgap⟩
    · exact .inr ⟨r, hr, hexp, hc⟩
    · have ha := agentGap_of hgap hexp'.1.1
      subst ha
      exact hgapped hC agentId' c ⟨r, hr, hgap, hc⟩

theorem Stepped.of_purged (hok : db.Ok A) (hE : ¬ E) (h : Purged A db db') :
    Stepped A C E db db' := by
  refine ⟨⟨h.tables hok.tables, h.ledger, ?_⟩, .of_cursors h.cursors, h.retained, ?_,
    fun h => absurd h hE⟩
  · rintro agentId c ⟨r, hr, hgap, hc⟩
    obtain ⟨-, hlive, hsource⟩ := r.agentGap_source hgap
    obtain ⟨state, hstate, claim, hmem, hexp⟩ :=
      hok.gaps agentId c ⟨r, (h.others r hlive (by rw [hsource]; decide)).mp hr, hgap, hc⟩
    refine ⟨state, (h.cursorRow _ _).trans hstate, claim, ?_, hexp⟩
    rw [(cursorRow?_key hstate).2] at *
    rw [h.current agentId state hstate]
    exact hmem
  rintro - agentId c (hheld | ⟨r, hr, hexp, hc⟩)
  · by_cases hheld' : db'.Holds agentId c
    · exact .inl hheld'
    · exact .inr (((h.retained agentId c).mpr (.inr ⟨hheld, hheld'⟩)).covered h.ledger)
  · have hexp' := hexp
    simp only [explaining, Bool.and_eq_true] at hexp'
    by_cases hsource : r.source = .retention
    · -- the ranges may be joined, and still hold the cursor
      have hret : db.Retained A agentId c :=
        ⟨r, hr, by simp [retention, hexp'.1.1, hexp'.1.2, hsource], hc⟩
      exact .inr (((h.retained agentId c).mpr (.inl hret)).covered h.ledger)
    · exact .inr ⟨r, (h.others r hexp'.1.2 hsource).mpr hr, hexp, hc⟩

/-! ## Recomputed gaps -/

theorem claimsAt_congr (h : db'.claims = db.claims) (agentId : String) (revision : Nat) :
    db'.claimsAt agentId revision = db.claimsAt agentId revision := by
  unfold Db.claimsAt
  rw [h]

theorem Tables.of_rows (h : Tables A db) (hevents : db'.events = db.events)
    (hclaims : db'.claims = db.claims)
    (hrows : ∀ agentId state, db.cursorRow? A agentId = some state →
      ∃ state', db'.cursorRow? A agentId = some state' ∧ state.revision ≤ state'.revision) :
    Tables A db' := by
  refine ⟨?_, ?_, ?_, ?_⟩
  · rw [hevents]; exact h.eventIds
  · rw [hevents]; exact h.eventKeys
  · rw [hclaims]; exact h.claimIds
  rw [hclaims]
  intro r hr
  obtain ⟨state, hstate, hle⟩ := h.claims r hr
  obtain ⟨state', hstate', hle'⟩ := hrows _ state hstate
  exact ⟨state', hstate', Nat.le_trans hle hle'⟩

theorem Tables.congr (h : Tables A db) (hsame : SameTables db db') : Tables A db' :=
  h.of_rows hsame.events hsame.claims fun _ state hstate =>
    ⟨state, (cursorRow?_congr hsame.cursors _ _).trans hstate, Nat.le_refl _⟩

theorem Stepped.of_recomputed {mid : Db} (hok : db.Ok A) (hrec : Recomputed A agentId mid db')
    (hcoverage : mid.coverage = db.coverage) (htables : Tables A mid)
    (hevents : ∀ e ∈ db.events, e ∈ mid.events) (hadvances : Advances A db mid)
    (hothers : ∀ agentId' ≠ agentId, ∀ c, db.ClaimedFor A agentId' c → mid.ClaimedFor A agentId' c)
    (hclaimed : C → ∀ c, db.ClaimedFor A agentId c → mid.ClaimedFor A agentId c) :
    Stepped A C E db db' := by
  have hrow := cursorRow?_congr hrec.tables.cursors A
  have hclaims : ∀ agentId' c, db'.ClaimedFor A agentId' c ↔ mid.ClaimedFor A agentId' c := by
    intro agentId' c
    unfold Db.ClaimedFor Db.Claimed
    simp only [hrow, claimsAt_congr hrec.tables.claims]
  have hother : ∀ {r : CoverageRow} {agentId' : String}, r.agentGap A agentId' = true →
      agentId' ≠ agentId → r.agentGap A agentId = false := by
    intro r agentId' hgap hne
    by_contra hgap'
    rw [Bool.not_eq_false] at hgap'
    exact hne (r.agentGap_of hgap (r.agentGap_source hgap').1)
  refine Stepped.of_quiet hok (htables.congr hrec.tables) (hrec.ids ?_) ?_ ?_ ?_ ?_ ?_ ?_
  · rw [Db.CoverageIds, hcoverage]
    exact hok.ledger.ids
  · rw [hrec.tables.events]
    exact hevents
  · intro r hr _
    by_cases hgap : r.agentGap A agentId = true
    · exact .inr ⟨agentId, hgap⟩
    · exact .inl (hrec.kept r (hcoverage ▸ hr) (by simpa using hgap))
  · intro r hr hl hsource
    rw [← hcoverage]
    refine hrec.others r hr hl ?_
    simp [agentGap, hsource]
  · intro agentId' c hgapped
    rw [hclaims]
    by_cases ha : agentId' = agentId
    · subst ha
      obtain ⟨state, hstate, -⟩ := hrec.gaps
      obtain ⟨claim, hmem, hexp, -⟩ := (hrec.gapped hstate).mp hgapped
      exact ⟨state, hstate, claim, hmem, hexp⟩
    · obtain ⟨r, hr, hgap, hc⟩ := hgapped
      have hr : r ∈ db.coverage := hcoverage ▸
        hrec.others r hr (r.agentGap_source hgap).2.1 (hother hgap ha)
      exact hothers agentId' ha c (hok.gaps agentId' c ⟨r, hr, hgap, hc⟩)
  · intro agentId' state hstate
    rw [hrow]
    exact hadvances agentId' state hstate
  · intro hC agentId' c hgapped
    by_cases ha : agentId' = agentId
    · subst ha
      obtain ⟨state', hstate', claim, hmem, hexp⟩ := hclaimed hC c (hok.gaps agentId' c hgapped)
      -- what is claimed has an event or is in a recomputed gap
      by_cases hheld : mid.Holds agentId' c
      · left
        unfold Db.Holds
        rw [hrec.tables.events]
        exact hheld
      · obtain ⟨r, hr, hgap, hc⟩ := (hrec.gapped hstate').mpr ⟨claim, hmem, hexp, fun _ => by
          rw [(cursorRow?_key hstate').2]
          exact hheld⟩
        exact .inr ⟨r, hr, r.agentGap_explaining hgap, hc⟩
    · obtain ⟨r, hr, hgap, hc⟩ := hgapped
      exact .inr ⟨r, hrec.kept r (hcoverage ▸ hr) (hother hgap ha), r.agentGap_explaining hgap, hc⟩

/-! ## The operations -/

section Ops

variable {now : Time}

theorem Stepped.insert (hok : db.Ok A) {row : Nat → CoverageRow} (hid : ∀ n, (row n).id = n)
    (hgap : ∀ n agentId, (row n).agentGap A agentId = false)
    (hsource : ∀ n, (row n).source ≠ .retention) : Stepped A C E db (db.insertCoverage row) := by
  have hold : ∀ r ∈ db.coverage, r ∈ (db.insertCoverage row).coverage :=
    fun r hr => mem_append_left _ hr
  have hnew : ∀ r ∈ (db.insertCoverage row).coverage, r ∈ db.coverage ∨ ∃ n, r = row n := by
    intro r hr
    rcases mem_append.mp hr with hr | hr
    · exact .inl hr
    · exact .inr ⟨_, mem_singleton.mp hr⟩
  refine Stepped.of_quiet hok (hok.tables.congr ⟨rfl, rfl, rfl, rfl⟩) (hok.ledger.ids.insert hid)
    (fun _ h => h) (fun r hr _ => .inl (hold r hr)) ?_ ?_ (.of_cursors rfl) ?_
  · intro r hr _ hs
    rcases hnew r hr with hr | ⟨n, rfl⟩
    · exact hr
    · exact absurd hs (hsource n)
  · rintro agentId c ⟨r, hr, hg, hc⟩
    rcases hnew r hr with hr | ⟨n, rfl⟩
    · exact hok.gaps agentId c ⟨r, hr, hg, hc⟩
    · rw [hgap] at hg
      cases hg
  · rintro - agentId c ⟨r, hr, hg, hc⟩
    exact .inr ⟨r, hold r hr, r.agentGap_explaining hg, hc⟩

theorem ensureCursorRow_row {start : Cursor} (h : db.cursorRow? a agentId' = some state) :
    (ensureCursorRow p A agentId start now db).cursorRow? a agentId' = some state := by
  unfold ensureCursorRow
  split
  · exact h
  · unfold Db.cursorRow? at *
    rw [find?_append, h, Option.some_or]

theorem ensureCursorRow_stepped (hok : db.Ok A) (start : Cursor) :
    Stepped A C E db (ensureCursorRow p A agentId start now db) := by
  have hrow : ∀ {agentId' : String} {state : CursorRow}, db.cursorRow? A agentId' = some state →
      (ensureCursorRow p A agentId start now db).cursorRow? A agentId' = some state :=
    ensureCursorRow_row
  have hsame : (ensureCursorRow p A agentId start now db).events = db.events ∧
      (ensureCursorRow p A agentId start now db).claims = db.claims ∧
      (ensureCursorRow p A agentId start now db).coverage = db.coverage := by
    unfold ensureCursorRow
    split <;> exact ⟨rfl, rfl, rfl⟩
  generalize ensureCursorRow p A agentId start now db = db' at hrow hsame ⊢
  obtain ⟨hevents, hclaims, hcoverage⟩ := hsame
  refine Stepped.of_quiet hok (hok.tables.of_rows hevents hclaims fun _ state hstate =>
    ⟨state, hrow hstate, Nat.le_refl _⟩) ?_ ?_ ?_ ?_ ?_ ?_ ?_
  · rw [Db.CoverageIds, hcoverage]; exact hok.ledger.ids
  · rw [hevents]; exact fun _ h => h
  · rw [hcoverage]; exact fun _ h _ => .inl h
  · rw [hcoverage]; exact fun _ h _ _ => h
  · unfold Db.Gapped
    rw [hcoverage]
    intro agentId' c hgapped
    obtain ⟨state, hstate, claim, hmem, hexp⟩ := hok.gaps agentId' c hgapped
    exact ⟨state, hrow hstate, claim, by rw [claimsAt_congr hclaims]; exact hmem, hexp⟩
  · exact fun agentId' state hstate => ⟨state, hrow hstate, .refl _, .refl _⟩
  · rintro - agentId' c ⟨r, hr, hg, hc⟩
    exact .inr ⟨r, hcoverage ▸ hr, r.agentGap_explaining hg, hc⟩

theorem Stepped.trans {mid : Db} (h : Stepped A C E db mid) (h' : Stepped A C E mid db')
    (hevents : mid.events = db.events) : Stepped A C E db db' := by
  refine ⟨h'.ok, h.advances.trans h'.advances, fun agentId c => ?_, fun hC agentId c hc =>
    h'.explained hC agentId c (h.explained hC agentId c hc), fun hE agentId c hc =>
    h'.held hE agentId c (h.held hE agentId c hc)⟩
  have hholds : mid.Holds agentId c ↔ db.Holds agentId c := by
    unfold Db.Holds
    rw [hevents]
  rw [h'.accounts, h.accounts, hholds]
  constructor
  · rintro ((hret | ⟨hheld, hgone⟩) | hgone)
    · exact .inl hret
    · exact absurd hheld hgone
    · exact .inr hgone
  · rintro (hret | hgone)
    · exact .inl (.inl hret)
    · exact .inr hgone

theorem establishCoverageStart_stepped (hok : db.Ok A) {start : Cursor} {r : Unit}
    (h : establishCoverageStart p A agentId start reason now db = .ok (db', r)) :
    Stepped A C E db db' := by
  unfold establishCoverageStart at h
  split at h
  · cases h
  split at h
  · split at h
    · cases h
      exact ensureCursorRow_stepped hok start
    · cases h
  · cases h
    have hins : Stepped A C E db (db.insertCoverage fun id =>
        ⟨id, A, agentId, .lowerBound, start.incarnation, some start.seq, none, none,
          .coverageStart, .exact, false, p.format now, none, some reason⟩) :=
      Stepped.insert hok (fun _ => rfl) (fun _ _ => by simp [agentGap])
        fun _ h => (nomatch h)
    exact hins.trans (ensureCursorRow_stepped hins.ok start) rfl

theorem Tables.update (h : Tables A db) (hf : KeepsKey f)
    (hstate : db.cursorRow? A agentId = some state) (hrev : state.revision ≤ (f state).revision) :
    Tables A (db.updateCursor A agentId f) := by
  refine h.of_rows rfl rfl fun agentId' state' hstate' => ?_
  by_cases ha : agentId' = agentId
  · subst ha
    rw [hstate] at hstate'
    cases hstate'
    exact ⟨_, cursorRow?_update_self hf hstate, hrev⟩
  · exact ⟨state', (cursorRow?_update_other hf ha).trans hstate', Nat.le_refl _⟩

theorem Stepped.update (hok : db.Ok A) (hf : KeepsKey f)
    (hstate : db.cursorRow? A agentId = some state) (hrev : (f state).revision = state.revision)
    (hnext : (f state).next = state.next) (hack : NotBefore state.ack (f state).ack) :
    Stepped A C E db (db.updateCursor A agentId f) := by
  refine Stepped.of_quiet hok (hok.tables.update hf hstate (Nat.le_of_eq hrev.symm)) hok.ledger.ids
    (fun _ h => h) (fun _ h _ => .inl h) (fun _ h _ _ => h) ?_
    (.update hf hstate hack (by rw [hnext]; exact .refl _)) ?_
  · intro agentId' c hgapped
    obtain ⟨state', hstate', claim, hmem, hexp⟩ := hok.gaps agentId' c hgapped
    by_cases ha : agentId' = agentId
    · subst ha
      rw [hstate] at hstate'
      cases hstate'
      refine ⟨_, cursorRow?_update_self hf hstate, claim, ?_, by rw [hnext]; exact hexp⟩
      rw [(hf state).2, hrev]
      exact hmem
    · exact ⟨state', (cursorRow?_update_other hf ha).trans hstate', claim, hmem, hexp⟩
  · rintro - agentId' c ⟨r, hr, hg, hc⟩
    exact .inr ⟨r, hr, r.agentGap_explaining hg, hc⟩

theorem checkAndAdvanceACK_stepped (hok : db.Ok A) {proposed : Cursor} {r : ACKResult}
    (h : checkAndAdvanceACK p A agentId proposed revision now db = .ok (db', r)) :
    Stepped A C E db db' := by
  unfold checkAndAdvanceACK at h
  split at h
  · cases h
  split at h
  · cases h
  next state hstate =>
  have hrow := loadCursorState_eq hstate
  split at h
  · cases h
  next hrev =>
  split at h
  · cases h
  next hback =>
  split at h
  · cases h
    exact .refl hok
  split at h
  · cases h
  split at h
  · cases h
  split at h
  · cases h
  · cases h
    refine Stepped.update hok (fun _ => ⟨rfl, rfl⟩) hrow (not_not.mp hrev) rfl fun ack hack => ?_
    refine ⟨proposed, rfl, ?_⟩
    rw [hack, Option.any_some, decide_eq_true_eq] at hback
    exact not_lt.mp hback
  · cases h

theorem recordBlocked_stepped {resumedAt : Cursor} {blocked : List Range} :
    ∀ {db db' : Db} {recorded : List Range}, db.Ok A →
      recordBlocked p A agentId resumedAt reason now db blocked = .ok (db', recorded) →
      Stepped A C E db db' := by
  induction blocked with
  | nil =>
    intro db db' recorded hok h
    cases h
    exact .refl hok
  | cons range rest ih =>
    intro db db' recorded hok h
    unfold recordBlocked at h
    split at h
    · exact ih hok h
    split at h
    · cases h
    next db₁ hins =>
    split at h
    · cases h
    next db₂ recorded' hrest =>
    cases h
    unfold insertRegressionGap at hins
    split at hins
    · cases hins
    split at hins
    · cases hins
    cases hins
    have hone : Stepped A C E db (db.insertCoverage fun id => ⟨id, A, agentId, .regression,
        range.start.incarnation, some range.start.seq, some range.stop.incarnation,
        some range.stop.seq, .cursorRegression, .exact, true, p.format now, none, some reason⟩) :=
      .insert hok (fun _ => rfl) (fun _ _ => by simp [agentGap]) fun _ h => (nomatch h)
    exact hone.trans (ih hone.ok hrest) rfl

theorem recordCursorRegression_stepped (hok : db.Ok A) {proposed resumedAt : Cursor}
    {recorded : List Range}
    (h : recordCursorRegression p A agentId proposed resumedAt reason now db = .ok (db', recorded)) :
    Stepped A C E db db' := by
  unfold recordCursorRegression at h
  split at h
  · cases h
  split at h
  · cases h
  split at h
  · cases h
  split at h
  · cases h
  split at h
  · cases h
    exact .refl hok
  split at h
  · cases h
    exact .refl hok
  split at h
  · cases h
  · exact recordBlocked_stepped hok h

/-! ### Ingest -/

structure Ingested (db db' : Db) : Prop where
  claims : db'.claims = db.claims
  coverage : db'.coverage = db.coverage
  cursors : db'.cursors = db.cursors
  events : ∀ e ∈ db.events, e ∈ db'.events
  ids : (db.events.map EventRow.id).Nodup → (db'.events.map EventRow.id).Nodup
  keys : (db.events.map fun e => (e.agentId, e.cursor)).Nodup →
    (db'.events.map fun e => (e.agentId, e.cursor)).Nodup

theorem Ingested.refl (db : Db) : Ingested db db :=
  ⟨rfl, rfl, rfl, fun _ h => h, id, id⟩

theorem Ingested.trans {a b c : Db} (h : Ingested a b) (h' : Ingested b c) : Ingested a c :=
  ⟨h'.claims.trans h.claims, h'.coverage.trans h.coverage, h'.cursors.trans h.cursors,
    fun e he => h'.events e (h.events e he), fun hn => h'.ids (h.ids hn),
    fun hn => h'.keys (h.keys hn)⟩

theorem ingestOne_ingested {event : AuditEvent} {new : Bool}
    (h : ingestOne p agentId db event = .ok (db', new)) : Ingested db db' := by
  unfold ingestOne at h
  split at h
  next hnone =>
    cases h
    refine ⟨rfl, rfl, rfl, fun e he => mem_append_left _ he, (nodup_newId · rfl), fun hn => ?_⟩
    rw [map_append, map_singleton, ← concat_eq_append]
    refine hn.concat fun hmem => ?_
    obtain ⟨e, he, hkey⟩ := mem_map.mp hmem
    have := find?_eq_none.mp hnone e he
    simp only [AuditEvent.row, Prod.mk.injEq] at hkey
    simp [hkey.1, hkey.2] at this
  · split at h
    · cases h
      exact .refl _
    · cases h

theorem ingestAll_ingested {events : List AuditEvent} :
    ∀ {db db' : Db} {before after : IngestResult},
      ingestAll p agentId before db events = .ok (db', after) → Ingested db db' := by
  induction events with
  | nil =>
    intro db db' before after h
    cases h
    exact .refl _
  | cons event rest ih =>
    intro db db' before after h
    unfold ingestAll at h
    split at h
    · cases h
    next hone => exact (ingestOne_ingested hone).trans (ih h)
    next hone => exact (ingestOne_ingested hone).trans (ih h)

theorem GapClaim.inForce_mono {g : GapClaim} {a : Option Cursor} (h : NotBefore a b)
    (hg : g.inForce a = true) : g.inForce b = true := by
  unfold GapClaim.inForce at *
  split at hg
  next hp =>
    split at hg
    · cases hg
    next next =>
      obtain ⟨d, rfl, hle⟩ := h next rfl
      simp only [decide_eq_true_eq] at hg ⊢
      exact le_trans hg hle
  · rfl

theorem Claim.Explains.mono {claim : Claim} {a : Option Cursor} (h : NotBefore a b)
    (hc : claim.Explains a c) : claim.Explains b c := by
  cases claim with
  | gap g => exact ⟨GapClaim.inForce_mono h hc.1, hc.2⟩
  | coverageUnknown i => exact hc

theorem ingest_stepped (hok : db.Ok A) {events : List AuditEvent} {deliveryNext : Cursor}
    {r : IngestResult} (h : ingest p A agentId events deliveryNext now db = .ok (db', r)) :
    Stepped A C E db db' := by
  unfold ingest at h
  split at h
  · cases h
  split at h
  · cases h
  split at h
  · cases h
  next state hstate =>
  have hrow := loadCursorState_eq hstate
  split at h
  · cases h
  next hback =>
  split at h
  · cases h
  next db₁ result hall =>
  dsimp only at h
  split at h
  · cases h
  next db₂ hrec =>
  cases h
  have hing := ingestAll_ingested hall
  have hrow₁ := cursorRow?_congr hing.cursors A
  have hf : KeepsKey fun r => { r with next := some deliveryNext } := fun _ => ⟨rfl, rfl⟩
  have hnext : NotBefore state.next (some deliveryNext) := by
    intro c hc
    rw [hc, Option.any_some, decide_eq_true_eq] at hback
    exact ⟨deliveryNext, rfl, not_lt.mp hback⟩
  have htables₁ : Tables A db₁ := by
    refine ⟨hing.ids hok.tables.eventIds, hing.keys hok.tables.eventKeys, ?_, ?_⟩
    · rw [hing.claims]; exact hok.tables.claimIds
    rw [hing.claims]
    intro r hr
    obtain ⟨state, hstate, hle⟩ := hok.tables.claims r hr
    exact ⟨state, (hrow₁ _).trans hstate, hle⟩
  refine Stepped.of_recomputed hok (recomputeEffective_recomputed hrec) hing.coverage
    (htables₁.update hf ((hrow₁ _).trans hrow) (Nat.le_refl _)) hing.events ?_ ?_ ?_
  · exact (Advances.of_cursors hing.cursors).trans
      (.update hf ((hrow₁ _).trans hrow) (.refl _) hnext)
  · rintro agentId' hne c ⟨state', hstate', claim, hmem, hexp⟩
    refine ⟨state', (cursorRow?_update_other hf hne).trans ((hrow₁ _).trans hstate'), claim, ?_,
      hexp⟩
    show claim ∈ db₁.claimsAt state'.agentId state'.revision
    rw [claimsAt_congr hing.claims]
    exact hmem
  · rintro - c ⟨state', hstate', claim, hmem, hexp⟩
    rw [hrow] at hstate'
    cases hstate'
    refine ⟨_, cursorRow?_update_self hf ((hrow₁ _).trans hrow), claim, ?_, hexp.mono hnext⟩
    show claim ∈ db₁.claimsAt state.agentId state.revision
    rw [claimsAt_congr hing.claims]
    exact hmem

/-! ### Snapshots -/

/-- Whatever the claims of the revision before explain, the snapshot still explains. -/
def Cumulative (A : String) (db : Db) (snapshot : CoverageSnapshot) : Prop :=
  ∀ state c, db.cursorRow? A snapshot.agentId = some state → db.Claimed state c →
    ∃ claim ∈ snapshot.claims, claim.Explains state.next c

structure Claims (agentId : String) (revision : Nat) (claims : List Claim)
    (rows rows' : List ClaimRow) : Prop where
  split : ∃ new, rows' = rows ++ new ∧ (∀ r ∈ new, r.agentId = agentId ∧ r.revision = revision) ∧
    new.map ClaimRow.claim = claims
  ids : (rows.map ClaimRow.id).Nodup → (rows'.map ClaimRow.id).Nodup

theorem insertClaims_claims {reportedAt : String} {claims : List Claim} : ∀ rows : List ClaimRow,
      Claims agentId revision claims rows
        (insertClaims agentId revision reportedAt rows claims) := by
  induction claims with
  | nil =>
    intro rows
    exact ⟨⟨[], by simp [insertClaims], by simp, rfl⟩, id⟩
  | cons claim rest ih =>
    intro rows
    unfold insertClaims
    have hrest := ih (rows ++
      [⟨newId (rows.map ClaimRow.id), agentId, revision, claim, reportedAt⟩])
    obtain ⟨new, hnew, hkey, hclaims⟩ := hrest.split
    refine ⟨⟨⟨newId (rows.map ClaimRow.id), agentId, revision, claim, reportedAt⟩ :: new, ?_, ?_,
      ?_⟩, fun hn => hrest.ids (nodup_newId hn rfl)⟩
    · rw [hnew, append_assoc, singleton_append]
    · exact forall_mem_cons.mpr ⟨⟨rfl, rfl⟩, hkey⟩
    · rw [map_cons, hclaims]

theorem Claims.claimsAt {claims : List Claim} {rows : List ClaimRow}
    (h : Claims agentId revision claims db.claims rows) :
    (∀ agentId' revision', agentId' ≠ agentId ∨ revision' ≠ revision →
      ({ db with claims := rows } : Db).claimsAt agentId' revision' =
        db.claimsAt agentId' revision') ∧
    ({ db with claims := rows } : Db).claimsAt agentId revision =
      db.claimsAt agentId revision ++ claims := by
  obtain ⟨new, rfl, hkey, hclaims⟩ := h.split
  unfold Db.claimsAt
  dsimp only
  constructor
  · intro agentId' revision' hne
    have hnone : new.filter (fun r => r.agentId == agentId' && r.revision == revision') = [] := by
      refine filter_eq_nil_iff.mpr fun r hr => ?_
      obtain ⟨ha, hrev⟩ := hkey r hr
      simp only [Bool.and_eq_true, beq_iff_eq, not_and]
      rintro rfl hrev'
      rcases hne with hne | hne
      · exact hne ha
      · exact hne (hrev'.symm.trans hrev)
    rw [filter_append, hnone, append_nil]
  · have hall : new.filter (fun r => r.agentId == agentId && r.revision == revision) = new := by
      refine filter_eq_self.mpr fun r hr => ?_
      obtain ⟨ha, hrev⟩ := hkey r hr
      simp [ha, hrev]
    rw [filter_append, map_append, hall, hclaims]

theorem applyCoverageSnapshot_stepped (hok : db.Ok A) {snapshot : CoverageSnapshot}
    {r : ClaimResult} (h : applyCoverageSnapshot p A snapshot now db = .ok (db', r)) :
    Stepped A (Cumulative A db snapshot) E db db' := by
  unfold applyCoverageSnapshot at h
  split at h
  · cases h
  split at h
  · cases h
  split at h
  · cases h
  next state hstate =>
  have hrow := loadCursorState_eq hstate
  split at h
  · cases h
  next hstale =>
  split at h
  · split at h
    · cases h
      exact .refl hok
    · cases h
  next hsame =>
  dsimp only at h
  split at h
  · cases h
  next db₂ hrec =>
  cases h
  have hlt : state.revision < snapshot.revision := by omega
  have hclaims : Claims snapshot.agentId snapshot.revision snapshot.claims db.claims
      (insertClaims snapshot.agentId snapshot.revision (p.format snapshot.generatedAt) db.claims
        snapshot.claims) := insertClaims_claims _
  generalize insertClaims snapshot.agentId snapshot.revision (p.format snapshot.generatedAt)
    db.claims snapshot.claims = rows at hclaims hrec
  obtain ⟨hother, hself⟩ := hclaims.claimsAt
  have hf : KeepsKey fun r => { r with revision := snapshot.revision } := fun _ => ⟨rfl, rfl⟩
  have hrow₁ : ({ db with claims := rows } : Db).cursorRow? A snapshot.agentId = some state := hrow
  refine Stepped.of_recomputed hok (recomputeEffective_recomputed hrec) rfl ⟨?_, ?_, ?_, ?_⟩
    (fun _ h => h) (Advances.update hf hrow₁ (.refl _) (.refl _)) ?_ ?_
  · exact hok.tables.eventIds
  · exact hok.tables.eventKeys
  · exact hclaims.ids hok.tables.claimIds
  · -- the new rows are at the revision the Agent is at now
    intro r hr
    obtain ⟨new, rfl, hkey, -⟩ := hclaims.split
    have hself := cursorRow?_update_self hf hrow₁
    rcases mem_append.mp hr with hr | hr
    · obtain ⟨state', hstate', hle⟩ := hok.tables.claims r hr
      by_cases ha : r.agentId = snapshot.agentId
      · rw [ha] at hstate' ⊢
        rw [hrow] at hstate'
        cases hstate'
        exact ⟨_, hself, Nat.le_trans hle (Nat.le_of_lt hlt)⟩
      · exact ⟨state', (cursorRow?_update_other hf ha).trans hstate', hle⟩
    · obtain ⟨ha, hrev⟩ := hkey r hr
      rw [ha]
      exact ⟨_, hself, Nat.le_of_eq hrev⟩
  · rintro agentId' hne c ⟨state', hstate', claim, hmem, hexp⟩
    refine ⟨state', (cursorRow?_update_other hf hne).trans hstate', claim, ?_, hexp⟩
    rw [(cursorRow?_key hstate').2] at hmem ⊢
    show claim ∈ ({ db with claims := rows } : Db).claimsAt agentId' state'.revision
    rw [hother _ _ (.inl hne)]
    exact hmem
  · rintro hcum c ⟨state', hstate', hcl⟩
    rw [hrow] at hstate'
    cases hstate'
    obtain ⟨claim, hmem, hexp⟩ := hcum state c hrow hcl
    refine ⟨_, cursorRow?_update_self hf hrow₁, claim, ?_, hexp⟩
    show claim ∈ ({ db with claims := rows } : Db).claimsAt state.agentId snapshot.revision
    rw [(cursorRow?_key hrow).2, hself]
    exact mem_append_right _ hmem

end Ops

/-! ## Whole lives -/

def Op.Cumulative (A : String) (db : Db) : Op → Prop
  | .apply _ snapshot _ => Store.Cumulative A db snapshot
  | _ => True

def Op.isRetention : Op → Bool
  | .retain .. | .deleteBatch .. | .compactClaims .. | .compactCoverage .. => true
  | _ => false

theorem Txn.commit_stepped {α : Type} {t : Txn α} (hok : db.Ok A)
    (h : ∀ db' a, t db = .ok (db', a) → Stepped A C E db db') : Stepped A C E db (t.commit db) := by
  unfold Txn.commit
  split
  next db' a heq => exact h db' a heq
  next => exact .refl hok

theorem Db.Ok.step (hok : db.Ok A) {op : Op} (hop : op.archiveId = A) :
    Stepped A (op.Cumulative A db) (op.isRetention = false) db (db.step p op) := by
  subst hop
  cases op with
  | establish a agent start reason now =>
    exact Txn.commit_stepped hok fun _ _ h => establishCoverageStart_stepped hok h
  | ingest a agent events next now =>
    exact Txn.commit_stepped hok fun _ _ h => ingest_stepped hok h
  | apply a snapshot now =>
    exact Txn.commit_stepped hok fun _ _ h => applyCoverageSnapshot_stepped hok h
  | ack a agent proposed revision now =>
    exact Txn.commit_stepped hok fun _ _ h => checkAndAdvanceACK_stepped hok h
  | regress a agent proposed resumedAt reason now =>
    exact Txn.commit_stepped hok fun _ _ h => recordCursorRegression_stepped hok h
  | retain a policy now =>
    exact .of_purged hok (fun h => (nomatch h)) (enforceRetention_purged hok.ledger hok.tables)
  | deleteBatch a plan now tier usage =>
    exact Txn.commit_stepped hok fun _ _ h =>
      .of_purged hok (fun h => (nomatch h)) (deleteBatch_purged hok.ledger hok.tables h)
  | compactClaims a plan usage =>
    exact Txn.commit_stepped hok fun _ _ h =>
      .of_purged hok (fun h => (nomatch h)) (compactClaims_purged hok.ledger hok.tables h)
  | compactCoverage a plan usage =>
    exact Txn.commit_stepped hok fun _ _ h =>
      .of_purged hok (fun h => (nomatch h)) (compactCoverage_purged hok.ledger h)

theorem Db.fresh_ok (A : String) : (Db.fresh A).Ok A := by
  refine ⟨⟨.nil, .nil, .nil, ?_⟩, ⟨.nil, ?_, ?_⟩, ?_⟩
  · intro r hr; cases hr
  · intro r hr; cases hr
  · intro r hr; cases hr
  · rintro agentId c ⟨r, hr, -⟩
    cases hr

def Db.Along (p : Platform) (P : Db → Op → Prop) : Db → List Op → Prop
  | _, [] => True
  | db, op :: ops => P db op ∧ Along p P (db.step p op) ops

theorem Db.run_append (db : Db) (before after : List Op) :
    db.run p (before ++ after) = (db.run p before).run p after := foldl_append

theorem Db.Ok.run {ops : List Op} :
    ∀ {db : Db}, db.Ok A → (∀ op ∈ ops, op.archiveId = A) →
      (db.run p ops).Ok A ∧ Advances A db (db.run p ops) ∧
      (Db.Along p (fun db op => op.Cumulative A db) db ops →
        ∀ agentId c, db.Explained A agentId c → (db.run p ops).Explained A agentId c) := by
  induction ops with
  | nil => intro db hok _; exact ⟨hok, .refl A db, fun _ _ _ h => h⟩
  | cons op ops ih =>
    intro db hok hops
    have hstep := hok.step (p := p) (hops op mem_cons_self)
    obtain ⟨hok', hadv, hexp⟩ := ih hstep.ok fun o ho => hops o (mem_cons_of_mem _ ho)
    exact ⟨hok', hstep.advances.trans hadv, fun hcum agentId c hc =>
      hexp hcum.2 agentId c (hstep.explained hcum.1 agentId c hc)⟩

/-- In every life of an archive, a cursor with an event or in effective coverage keeps an event or
effective coverage from then on, and no acknowledgement or delivery cursor goes back, if each
snapshot that is applied explains what the claims before it explain. -/
theorem explanations_kept (A : String) (before after : List Op)
    (hops : ∀ op ∈ before ++ after, op.archiveId = A)
    (hcum : Db.Along p (fun db op => op.Cumulative A db) ((Db.fresh A).run p before) after) :
    (∀ agentId c, ((Db.fresh A).run p before).Explained A agentId c →
      ((Db.fresh A).run p (before ++ after)).Explained A agentId c) ∧
    Advances A ((Db.fresh A).run p before) ((Db.fresh A).run p (before ++ after)) := by
  have hbefore := (Db.fresh_ok A).run (p := p) fun op hop => hops op (mem_append_left _ hop)
  have hafter := hbefore.1.run (p := p) fun op hop => hops op (mem_append_right _ hop)
  rw [Db.run_append]
  exact ⟨hafter.2.2 hcum, hafter.2.1⟩

/-! ## Retention accounts for what it deletes -/

def Db.Deleted (p : Platform) : Db → List Op → String → Cursor → Prop
  | _, [], _, _ => False
  | db, op :: ops, agentId, c =>
    (op.isRetention = true ∧ db.Holds agentId c ∧ ¬ (db.step p op).Holds agentId c) ∨
      Deleted p (db.step p op) ops agentId c

theorem Db.Ok.retained {ops : List Op} :
    ∀ {db : Db}, db.Ok A → (∀ op ∈ ops, op.archiveId = A) →
      ((db.run p ops).Retained A agentId c ↔
        db.Retained A agentId c ∨ Db.Deleted p db ops agentId c) := by
  induction ops with
  | nil => intro db _ _; exact (or_iff_left id).symm
  | cons op ops ih =>
    intro db hok hops
    have hstep := hok.step (p := p) (hops op mem_cons_self)
    have hrest := ih hstep.ok fun o ho => hops o (mem_cons_of_mem _ ho)
    have honly : (db.Holds agentId c ∧ ¬ (db.step p op).Holds agentId c) ↔
        op.isRetention = true ∧ db.Holds agentId c ∧ ¬ (db.step p op).Holds agentId c := by
      refine ⟨fun h => ⟨?_, h⟩, fun h => h.2⟩
      by_contra hnot
      exact h.2 (hstep.held (by simpa using hnot) agentId c h.1)
    show ((db.step p op).run p ops).Retained A agentId c ↔ _
    rw [hrest, hstep.accounts, honly, or_assoc]
    rfl

theorem Ledger.pairwise (h : Ledger db) (A agentId : String) :
    (db.coverage.filter (·.retention A agentId)).Pairwise fun r s =>
      r.reason = s.reason → r.fromIncarnation = s.fromIncarnation →
        ∃ x y, r.span? = some x ∧ s.span? = some y ∧ x.Apart y := by
  have hnodup : (db.coverage.filter (·.retention A agentId)).Nodup := (List.Nodup.of_map _ h.ids).filter _
  refine hnodup.pairwise_of_forall_ne fun r hr s hs hne hreason hinc => ?_
  obtain ⟨hr, hret⟩ := mem_filter.mp hr
  obtain ⟨hs, hret'⟩ := mem_filter.mp hs
  obtain ⟨⟨harch, hagent⟩, hsr, hlr⟩ := retention_iff.mp hret
  obtain ⟨⟨harch', hagent'⟩, hss, hls⟩ := retention_iff.mp hret'
  obtain ⟨x, hx, -⟩ := (h.ranged r hr hsr hlr).span
  obtain ⟨y, hy, -⟩ := (h.ranged s hs hss hls).span
  exact ⟨x, y, hx, hy, h.apart r hr s hs hne hsr hlr hss hls (harch.trans harch'.symm)
    (hagent.trans hagent'.symm) hreason hinc x y hx hy⟩

/-- In every life of an archive the effective retention ranges of an Agent hold exactly the cursors
whose events retention deleted, and between two of them with one reason, in one incarnation, there
is a cursor that neither holds. -/
theorem retention_accounted (A : String) (ops : List Op) (hops : ∀ op ∈ ops, op.archiveId = A) :
    (∀ agentId c, ((Db.fresh A).run p ops).Retained A agentId c ↔
      Db.Deleted p (Db.fresh A) ops agentId c) ∧
    ∀ agentId, (((Db.fresh A).run p ops).coverage.filter (·.retention A agentId)).Pairwise
      fun r s => r.reason = s.reason → r.fromIncarnation = s.fromIncarnation →
        ∃ x y, r.span? = some x ∧ s.span? = some y ∧ x.Apart y := by
  have hok := ((Db.fresh_ok A).run (p := p) hops).1
  refine ⟨fun agentId c => ?_, fun agentId => hok.ledger.pairwise A agentId⟩
  rw [(Db.fresh_ok A).retained hops]
  refine or_iff_right ?_
  rintro ⟨r, hr, -⟩
  cases hr

/-- In every life of an archive, however often a batch is delivered, no two events have one Agent and
cursor, and what an effective `AGENT_GAP` range holds is what the Agent's claims of the current
revision name. -/
theorem events_once_gaps_claimed (A : String) (ops : List Op)
    (hops : ∀ op ∈ ops, op.archiveId = A) :
    (((Db.fresh A).run p ops).events.map fun e => (e.agentId, e.cursor)).Nodup ∧
    ∀ agentId c, ((Db.fresh A).run p ops).Gapped A agentId c →
      ∃ state, ((Db.fresh A).run p ops).cursorRow? A agentId = some state ∧
        ((Db.fresh A).run p ops).Claimed state c := by
  have hok := ((Db.fresh_ok A).run (p := p) hops).1
  exact ⟨hok.tables.eventKeys, hok.gaps⟩

/-! ## Two lives -/

instance (db : Db) (agentId : String) (c : Cursor) : Decidable (db.Holds agentId c) :=
  inferInstanceAs (Decidable (∃ e ∈ db.events, _))

instance (db : Db) (A agentId : String) (c : Cursor) : Decidable (db.Covered A agentId c) :=
  inferInstanceAs (Decidable (∃ r ∈ db.coverage, _))

instance (db : Db) (A agentId : String) (c : Cursor) : Decidable (db.Explained A agentId c) :=
  inferInstanceAs (Decidable (_ ∨ _))

instance (db : Db) (A agentId : String) (c : Cursor) : Decidable (db.Retained A agentId c) :=
  inferInstanceAs (Decidable (∃ r ∈ db.coverage, _))

def tally : Platform where
  format t := String.ofList (List.replicate t.toNat '|')
  parse s := some s.length
  julianday s := some s.length
  validJSON _ := true

def sampleEvent (seq : Nat) : AuditEvent :=
  ⟨"agent", ⟨1, seq⟩, 2, "started", "", "", "", "", "", "", ""⟩

def deliveredLife : List Op :=
  [.establish "A" "agent" ⟨1, 1⟩ .serverNeverHad 1, .ingest "A" "agent" [sampleEvent 1,
    sampleEvent 2, sampleEvent 3] ⟨1, 4⟩ 3, .ack "A" "agent" ⟨1, 2⟩ 0 3]

def expireAll : Op := .retain "A" (fun _ => .ok ⟨5, false, false, 0⟩) 10

theorem deliveredLife_accounted :
    ((Db.fresh "A").run tally (deliveredLife ++ [expireAll])).events = [] ∧
      ∀ seq ∈ [1, 2, 3], Db.Deleted tally (Db.fresh "A") (deliveredLife ++ [expireAll]) "agent"
        ⟨1, seq⟩ := by
  refine ⟨by decide +kernel, fun seq hseq => ?_⟩
  refine ((retention_accounted "A" _ (by decide)).1 "agent" ⟨1, seq⟩).mp ?_
  revert seq
  decide +kernel

theorem deliveredLife_once :
    ((Db.fresh "A").run tally deliveredLife).events.length = 3 ∧
      (((Db.fresh "A").run tally deliveredLife).events.map fun e => (e.agentId, e.cursor)).Nodup :=
  ⟨by decide +kernel, (events_once_gaps_claimed "A" deliveredLife (by decide)).1⟩

def coalescedSnapshot : CoverageSnapshot := ⟨"agent", 1, 3, [⟨1, 1, 4, "overflow", .coalesced⟩], []⟩

def emptySnapshot : CoverageSnapshot := ⟨"agent", 2, 4, [], []⟩

def coalescedLife : List Op :=
  [.establish "A" "agent" ⟨1, 1⟩ .serverNeverHad 1, .ingest "A" "agent" [] ⟨1, 5⟩ 2,
    .apply "A" coalescedSnapshot 3]

/-- The gap of `coalescedSnapshot`, told as two gaps that reach further. -/
def splitSnapshot : CoverageSnapshot :=
  ⟨"agent", 2, 4, [⟨1, 1, 3, "overflow", .exact⟩, ⟨1, 3, 5, "overflow", .coalesced⟩], []⟩

theorem splitSnapshot_cumulative :
    Cumulative "A" ((Db.fresh "A").run tally coalescedLife) splitSnapshot := by
  have hrow : (((Db.fresh "A").run tally coalescedLife).cursorRow? "A" "agent").map
      (fun r => (r.agentId, r.next, r.revision)) = some ("agent", some ⟨1, 5⟩, 1) := by
    decide +kernel
  have hclaims : ((Db.fresh "A").run tally coalescedLife).claimsAt "agent" 1 =
      [.gap ⟨1, 1, 4, "overflow", .coalesced⟩] := by decide +kernel
  rintro state c hstate ⟨claim, hmem, hexp⟩
  rw [show ((Db.fresh "A").run tally coalescedLife).cursorRow? "A" "agent" = some state from hstate,
    Option.map_some, Option.some.injEq, Prod.mk.injEq, Prod.mk.injEq] at hrow
  obtain ⟨hagent, hnext, hrevision⟩ := hrow
  rw [hagent, hrevision, hclaims, mem_singleton] at hmem
  rw [hnext]
  subst hmem
  obtain ⟨-, hinc, hfrom, huntil⟩ := hexp
  -- the cut between the two gaps of the snapshot is at 3
  rcases Nat.lt_or_ge c.seq 3 with hlt | hge
  · exact ⟨_, mem_cons_self, rfl, hinc, hfrom, hlt⟩
  · exact ⟨_, mem_cons_of_mem _ mem_cons_self, by decide, hinc, hge, Nat.lt_succ_of_lt huntil⟩

theorem coalescedLife_keeps_explanation :
    ((Db.fresh "A").run tally (coalescedLife ++ [.apply "A" splitSnapshot 4, expireAll])).Explained
      "A" "agent" ⟨1, 2⟩ :=
  (explanations_kept "A" coalescedLife [.apply "A" splitSnapshot 4, expireAll] (by decide)
    ⟨splitSnapshot_cumulative, trivial, trivial⟩).1 "agent" ⟨1, 2⟩ (by decide +kernel)

/-- No exact claim is dropped, and yet a cursor loses its explanation. -/
theorem coalesced_withdrawn :
    (∀ g ∈ coalescedSnapshot.gaps, g.precision = .exact → g ∈ emptySnapshot.gaps) ∧
    ((Db.fresh "A").run tally coalescedLife).Explained "A" "agent" ⟨1, 2⟩ ∧
    ¬ ((Db.fresh "A").run tally (coalescedLife ++ [.apply "A" emptySnapshot 4])).Explained "A"
      "agent" ⟨1, 2⟩ := by
  decide +kernel

end DockLattice.Store
