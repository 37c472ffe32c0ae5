import DockLattice.Store.Gaps

/-!
# DockLattice.Store.Purge

What retention does to the archive. `Ledger`: the live retention ranges of one Agent, incarnation and
reason are apart from each other. `Purged`: events go only if a retention range holds them
afterwards, the ranges grow by exactly the cursors whose events went, and everything else stays.
-/

namespace DockLattice.Store

open List CoverageRow

variable {agentId archiveId : String} {c : Cursor} {db db' : Db} {events : List EventRow}
  {i : AgentRange} {r : CoverageRow} {α : Type} {n : Nat}

/-! ## Retention ranges -/

def CoverageRow.retention (r : CoverageRow) (archiveId agentId : String) : Bool :=
  r.of archiveId agentId && r.source == .retention && r.live

theorem CoverageRow.retention_iff : r.retention archiveId agentId = true ↔
    (r.archiveId = archiveId ∧ r.agentId = agentId) ∧ r.source = .retention ∧ r.live = true := by
  simp [retention, of, and_assoc]

def Db.Retained (db : Db) (archiveId agentId : String) (c : Cursor) : Prop :=
  ∃ r ∈ db.coverage, r.retention archiveId agentId = true ∧ r.Covers c

structure CoverageRow.Ranged (r : CoverageRow) : Prop where
  gap : r.entryType = .gap
  exact : r.precision = .exact
  incarnation : r.untilIncarnation = some r.fromIncarnation
  span : ∃ s, r.span? = some s ∧ s.start < s.stop

structure Ledger (db : Db) : Prop where
  ids : db.CoverageIds
  ranged : ∀ r ∈ db.coverage, r.source = .retention → r.live = true → r.Ranged
  apart : ∀ r ∈ db.coverage, ∀ s ∈ db.coverage, r ≠ s → r.source = .retention → r.live = true →
    s.source = .retention → s.live = true → r.archiveId = s.archiveId → r.agentId = s.agentId →
    r.reason = s.reason → r.fromIncarnation = s.fromIncarnation →
    ∀ x y, r.span? = some x → s.span? = some y → x.Apart y

theorem Ledger.congr (h : Ledger db) (hc : db'.coverage = db.coverage) : Ledger db' := by
  refine ⟨?_, ?_, ?_⟩
  · rw [Db.CoverageIds, hc]
    exact h.ids
  · rw [hc]
    exact h.ranged
  · rw [hc]
    exact h.apart

theorem CoverageRow.span?_covers {s : Span} (h : r.span? = some s) :
    r.Covers c ↔ r.fromIncarnation = c.incarnation ∧ c.seq ∈ s := by
  unfold span? at h
  split at h
  next first past hf hu =>
    cases h
    unfold CoverageRow.Covers
    rw [hf, hu]
    rfl
  · cases h

/-! ## Intervals of deleted events -/

def AgentRange.Contains (i : AgentRange) (agentId : String) (c : Cursor) : Prop :=
  i.agentId = agentId ∧ i.incarnation = c.incarnation ∧ c.seq ∈ i.span

theorem pushInterval_contains (e : EventRow) (agentId : String) (c : Cursor)
    {intervals : List AgentRange} (hne : ∀ i ∈ intervals, i.span.start < i.span.stop) :
    (∀ i ∈ pushInterval intervals e, i.span.start < i.span.stop) ∧
    ((∃ i ∈ pushInterval intervals e, i.Contains agentId c) ↔
      (∃ i ∈ intervals, i.Contains agentId c) ∨ (e.agentId = agentId ∧ e.cursor = c)) := by
  have hsingle : AgentRange.Contains ⟨e.agentId, e.cursor.incarnation, .single e.cursor.seq⟩
      agentId c ↔ e.agentId = agentId ∧ e.cursor = c := by
    simp only [AgentRange.Contains, Span.mem_single]
    constructor
    · rintro ⟨ha, hi, hs⟩
      exact ⟨ha, Cursor.ext hi hs.symm⟩
    · rintro ⟨ha, rfl⟩
      exact ⟨ha, rfl, rfl⟩
  unfold pushInterval
  split
  next last rest =>
    have hlast := hne last mem_cons_self
    split
    next h =>
      -- the event extends the last interval by one
      obtain ⟨ha, hi, hs⟩ := h
      have hext : AgentRange.Contains { last with span := ⟨last.span.start, last.span.stop + 1⟩ }
          agentId c ↔ last.Contains agentId c ∨ (e.agentId = agentId ∧ e.cursor = c) := by
        rw [← hsingle]
        simp only [AgentRange.Contains, Span.mem_def, Span.single, ha, hi, hs]
        rw [← and_or_left, ← and_or_left]
        refine and_congr_right fun _ => and_congr_right fun _ => ?_
        omega
      constructor
      · exact forall_mem_cons.mpr ⟨Nat.lt_succ_of_lt hlast, (forall_mem_cons.mp hne).2⟩
      · rw [exists_mem_cons_iff, exists_mem_cons_iff, hext, or_right_comm]
    next h =>
      constructor
      · exact forall_mem_cons.mpr ⟨Nat.lt_succ_self _, hne⟩
      · rw [exists_mem_cons_iff, hsingle, or_comm]
  next =>
    constructor
    · exact forall_mem_singleton.mpr (Nat.lt_succ_self _)
    · rw [exists_mem_cons_iff, hsingle, or_comm]

theorem foldl_pushInterval (agentId : String) (c : Cursor) :
    ∀ intervals : List AgentRange, (∀ i ∈ intervals, i.span.start < i.span.stop) →
      (∀ i ∈ events.foldl pushInterval intervals, i.span.start < i.span.stop) ∧
      ((∃ i ∈ events.foldl pushInterval intervals, i.Contains agentId c) ↔
        (∃ i ∈ intervals, i.Contains agentId c) ∨
          ∃ e ∈ events, e.agentId = agentId ∧ e.cursor = c) := by
  induction events with
  | nil => intro intervals hne; simpa using hne
  | cons e events ih =>
    intro intervals hne
    obtain ⟨hne', hmem⟩ := pushInterval_contains e agentId c hne
    obtain ⟨hne'', hmem'⟩ := ih _ hne'
    refine ⟨hne'', ?_⟩
    rw [foldl_cons, hmem', hmem, exists_mem_cons_iff, or_assoc]

theorem retentionIntervals_nonempty :
    ∀ i ∈ retentionIntervals events, i.span.start < i.span.stop := by
  intro i hi
  rw [retentionIntervals, mem_reverse] at hi
  exact (foldl_pushInterval "" ⟨0, 0⟩ [] (by simp)).1 i hi

theorem retentionIntervals_contains :
    (∃ i ∈ retentionIntervals events, i.Contains agentId c) ↔
      ∃ e ∈ events, e.agentId = agentId ∧ e.cursor = c := by
  simp only [retentionIntervals, mem_reverse]
  rw [(foldl_pushInterval agentId c [] (by simp)).2]
  simp only [mem_insertionSort, not_mem_nil, false_and, exists_false, false_or]

/-! ## Recording an interval -/

section Record

variable {p : Platform} {reason : Reason} {now : Time}

def OthersKept (db db' : Db) : Prop :=
  ∀ r, r.live = true → r.source ≠ .retention → (r ∈ db'.coverage ↔ r ∈ db.coverage)

structure RecordedOne (archiveId : String) (i : AgentRange) (db db' : Db) : Prop where
  tables : SameTables db db'
  others : OthersKept db db'
  ledger : Ledger db'
  retained : ∀ agentId c, db'.Retained archiveId agentId c ↔
    db.Retained archiveId agentId c ∨ i.Contains agentId c

def retentionRow (p : Platform) (archiveId : String) (reason : Reason) (now : Time)
    (i : AgentRange) (hull : Span) (id : Nat) : CoverageRow :=
  ⟨id, archiveId, i.agentId, .gap, i.incarnation, some hull.start, some i.incarnation,
    some hull.stop, .retention, .exact, true, p.format now, none, some reason⟩

def resolveMerged (p : Platform) (archiveId : String) (reason : Reason) (now : Time) (db : Db)
    (i : AgentRange) : Db :=
  let ids := (db.coverage.filter (·.merges archiveId reason i)).map CoverageRow.id
  { db with coverage := db.coverage.map fun r =>
      if r.id ∈ ids then { r with effective := false, resolvedAt := some (p.format now) } else r }

def mergedHull (archiveId : String) (reason : Reason) (db : Db) (i : AgentRange) : Span :=
  i.span.joined ((db.coverage.filter (·.merges archiveId reason i)).filterMap CoverageRow.span?)

theorem recordRetentionInterval_eq
    (h : recordRetentionInterval p archiveId reason now db i = .ok db') :
    db' = (resolveMerged p archiveId reason now db i).insertCoverage
      (retentionRow p archiveId reason now i (mergedHull archiveId reason db i)) := by
  unfold recordRetentionInterval at h
  split at h
  · cases h
  · cases h
    rfl

theorem CoverageRow.merges_iff :
    r.merges archiveId reason i = true ↔ r.sameReason archiveId reason i = true ∧
      ∃ s, r.span? = some s ∧ i.span.Touches s := by
  unfold merges
  cases r.span? with
  | none | some => simp

theorem CoverageRow.sameReason_iff :
    r.sameReason archiveId reason i = true ↔
      r.retention archiveId i.agentId = true ∧ r.reason = some reason ∧
        r.fromIncarnation = i.incarnation ∧ r.entryType = .gap ∧ r.precision = .exact ∧
        r.untilIncarnation = some i.incarnation := by
  simp only [sameReason, retention, Bool.and_eq_true, beq_iff_eq]
  tauto

theorem mem_ids_iff (h : db.CoverageIds) {f : CoverageRow → Bool} (hr : r ∈ db.coverage) :
    r.id ∈ (db.coverage.filter f).map CoverageRow.id ↔ f r = true := by
  constructor
  · intro hmem
    obtain ⟨s, hs, hid⟩ := mem_map.mp hmem
    obtain ⟨hs, hf⟩ := mem_filter.mp hs
    rw [h.eq hr hs hid.symm]
    exact hf
  · intro hf
    exact mem_map_of_mem (mem_filter.mpr ⟨hr, hf⟩)

theorem mem_resolveMerged (p : Platform) (now : Time) (h : db.CoverageIds) (hlive : r.live = true) :
    r ∈ (resolveMerged p archiveId reason now db i).coverage ↔
      r ∈ db.coverage ∧ r.merges archiveId reason i = false := by
  unfold resolveMerged
  dsimp only
  rw [mem_map]
  constructor
  · rintro ⟨s, hs, rfl⟩
    by_cases hm : s.merges archiveId reason i = true
    · rw [if_pos ((mem_ids_iff h hs).mpr hm)] at hlive
      simp [CoverageRow.live] at hlive
    · rw [if_neg fun hid => hm ((mem_ids_iff h hs).mp hid)]
      exact ⟨hs, by simpa using hm⟩
  · rintro ⟨hr, hm⟩
    refine ⟨r, hr, if_neg fun hid => ?_⟩
    rw [(mem_ids_iff h hr).mp hid] at hm
    cases hm

theorem resolveMerged_ids (h : db.CoverageIds) :
    (resolveMerged p archiveId reason now db i).CoverageIds := by
  unfold Db.CoverageIds resolveMerged
  dsimp only
  rw [map_map, show CoverageRow.id ∘ _ = CoverageRow.id from ?_]
  · exact h
  · funext r
    dsimp only [Function.comp_apply]
    split <;> rfl

theorem mem_mergedSpans {t : Span} :
    t ∈ (db.coverage.filter (·.merges archiveId reason i)).filterMap span? ↔
      ∃ r ∈ db.coverage, r.merges archiveId reason i = true ∧ r.span? = some t := by
  simp only [mem_filterMap, mem_filter, and_assoc]

theorem mergedSpans_touch {t : Span}
    (h : t ∈ (db.coverage.filter (·.merges archiveId reason i)).filterMap span?) :
    i.span.Touches t := by
  obtain ⟨r, -, hm, ht⟩ := mem_mergedSpans.mp h
  obtain ⟨-, s, hs, htouch⟩ := merges_iff.mp hm
  rw [ht] at hs
  cases hs
  exact htouch

theorem mergedHull_apart (h : Ledger db) (hr : r ∈ db.coverage)
    (hm : r.merges archiveId reason i = false) (hsource : r.source = .retention)
    (hlive : r.live = true) (harch : r.archiveId = archiveId) (hagent : r.agentId = i.agentId)
    (hreason : r.reason = some reason) (hinc : r.fromIncarnation = i.incarnation) {x : Span}
    (hx : r.span? = some x) : (mergedHull archiveId reason db i).Apart x := by
  have hranged := h.ranged r hr hsource hlive
  have hsame : r.sameReason archiveId reason i = true := by
    refine sameReason_iff.mpr ⟨retention_iff.mpr
      ⟨⟨harch, hagent⟩, hsource, hlive⟩, hreason, hinc, hranged.gap, hranged.exact, ?_⟩
    rw [hranged.incarnation, hinc]
  have hx' : x.start < x.stop := by
    obtain ⟨s, hs, hlt⟩ := hranged.span
    rw [hx] at hs
    cases hs
    exact hlt
  refine Span.Apart.joined hx' (fun t ht => ⟨mergedSpans_touch ht, ?_⟩) ?_
  · obtain ⟨s, hs, hms, hst⟩ := mem_mergedSpans.mp ht
    obtain ⟨hret, hreason', hinc', -⟩ :=
      sameReason_iff.mp (merges_iff.mp hms).1
    obtain ⟨⟨harch', hagent'⟩, hsource', hlive'⟩ := retention_iff.mp hret
    refine h.apart s hs r hr ?_ hsource' hlive' hsource hlive (harch'.trans harch.symm)
      (hagent'.trans hagent.symm) (hreason'.trans hreason.symm) (hinc'.trans hinc.symm) t x hst hx
    rintro rfl
    rw [hms] at hm
    cases hm
  · refine Span.apart_of_not_touches fun htouch => ?_
    rw [merges_iff.mpr ⟨hsame, x, hx, htouch⟩] at hm
    cases hm

theorem retentionRow_covers {id : Nat} :
    ((retentionRow p archiveId reason now i (mergedHull archiveId reason db i) id).retention
        archiveId agentId = true ∧
      (retentionRow p archiveId reason now i (mergedHull archiveId reason db i) id).Covers c) ↔
    (∃ r ∈ db.coverage, r.merges archiveId reason i = true ∧
      r.retention archiveId agentId = true ∧ r.Covers c) ∨ i.Contains agentId c := by
  have hret : (retentionRow p archiveId reason now i (mergedHull archiveId reason db i)
      id).retention archiveId agentId = true ↔ i.agentId = agentId := by
    simp [retentionRow, retention, of, live]
  have hcov : (retentionRow p archiveId reason now i (mergedHull archiveId reason db i)
      id).Covers c ↔ i.incarnation = c.incarnation ∧ c.seq ∈ mergedHull archiveId reason db i :=
    span?_covers rfl
  rw [hret, hcov, mergedHull, Span.mem_joined fun t ht => mergedSpans_touch ht]
  constructor
  · rintro ⟨ha, hi, hin | ⟨t, ht, hin⟩⟩
    · exact .inr ⟨ha, hi, hin⟩
    · obtain ⟨r, hr, hm, hspan⟩ := mem_mergedSpans.mp ht
      obtain ⟨hret, -, hinc, -⟩ := sameReason_iff.mp (merges_iff.mp hm).1
      exact .inl ⟨r, hr, hm, ha ▸ hret, (span?_covers hspan).mpr ⟨hinc.trans hi, hin⟩⟩
  · rintro (⟨r, hr, hm, hret, hc⟩ | ⟨ha, hi, hin⟩)
    · obtain ⟨hsame, t, hspan, -⟩ := merges_iff.mp hm
      obtain ⟨hret', -, hinc, -⟩ := sameReason_iff.mp hsame
      obtain ⟨hi, hin⟩ := (span?_covers hspan).mp hc
      rw [retention_iff] at hret hret'
      exact ⟨hret'.1.2.symm.trans hret.1.2, hinc.symm.trans hi, .inr ⟨t,
        mem_mergedSpans.mpr ⟨r, hr, hm, hspan⟩, hin⟩⟩
    · exact ⟨ha, hi, .inl hin⟩

theorem recordRetentionInterval_spec (h : Ledger db) (hne : i.span.start < i.span.stop)
    (hrec : recordRetentionInterval p archiveId reason now db i = .ok db') :
    RecordedOne archiveId i db db' := by
  rw [recordRetentionInterval_eq hrec]
  have hmem : ∀ {r : CoverageRow}, r.live = true →
      (r ∈ ((resolveMerged p archiveId reason now db i).insertCoverage
        (retentionRow p archiveId reason now i (mergedHull archiveId reason db i))).coverage ↔
      (r ∈ db.coverage ∧ r.merges archiveId reason i = false) ∨
        r = retentionRow p archiveId reason now i (mergedHull archiveId reason db i)
          (newId ((resolveMerged p archiveId reason now db i).coverage.map CoverageRow.id))) := by
    intro r hlive
    rw [← mem_resolveMerged p now h.ids hlive]
    simp only [Db.insertCoverage, mem_append, mem_singleton]
  have hhull : (mergedHull archiveId reason db i).start < (mergedHull archiveId reason db i).stop :=
    Span.nonempty_joined hne
  refine ⟨⟨rfl, rfl, rfl, rfl⟩, ?_, ⟨?_, ?_, ?_⟩, ?_⟩
  · -- the merged rows and the new one are retention's
    intro r hlive hsource
    rw [hmem hlive]
    constructor
    · rintro (⟨hr, -⟩ | rfl)
      · exact hr
      · exact absurd rfl hsource
    · intro hr
      refine .inl ⟨hr, ?_⟩
      by_contra hm
      have hret := (CoverageRow.sameReason_iff.mp
        (CoverageRow.merges_iff.mp (by simpa using hm)).1).1
      exact hsource (CoverageRow.retention_iff.mp hret).2.1
  · exact (resolveMerged_ids h.ids).insert fun _ => rfl
  · intro r hr hsource hlive
    rcases (hmem hlive).mp hr with ⟨hr, -⟩ | rfl
    · exact h.ranged r hr hsource hlive
    · exact ⟨rfl, rfl, rfl, _, rfl, hhull⟩
  · intro r hr s hs hrs hsr hlr hss hls harch hagent hreason hinc x y hx hy
    rcases (hmem hlr).mp hr with ⟨hr, hmr⟩ | rfl
    · rcases (hmem hls).mp hs with ⟨hs, -⟩ | rfl
      · exact h.apart r hr s hs hrs hsr hlr hss hls harch hagent hreason hinc x y hx hy
      · cases hy
        exact (mergedHull_apart h hr hmr hsr hlr harch hagent hreason hinc hx).symm
    · rcases (hmem hls).mp hs with ⟨hs, hms⟩ | rfl
      · cases hx
        exact mergedHull_apart h hs hms hss hls harch.symm hagent.symm hreason.symm hinc.symm hy
      · exact absurd rfl hrs
  · intro agentId c
    constructor
    · rintro ⟨r, hr, hret, hc⟩
      rcases (hmem (CoverageRow.retention_iff.mp hret).2.2).mp hr with ⟨hr, -⟩ | rfl
      · exact .inl ⟨r, hr, hret, hc⟩
      · rcases retentionRow_covers.mp ⟨hret, hc⟩ with ⟨r, hr, -, hret, hc⟩ | hin
        · exact .inl ⟨r, hr, hret, hc⟩
        · exact .inr hin
    · rintro (⟨r, hr, hret, hc⟩ | hin)
      · by_cases hm : r.merges archiveId reason i = true
        · exact ⟨_, mem_append_right _ (mem_singleton_self _),
            retentionRow_covers.mpr (.inl ⟨r, hr, hm, hret, hc⟩)⟩
        · have hlive := (CoverageRow.retention_iff.mp hret).2.2
          exact ⟨r, (hmem hlive).mpr (.inl ⟨hr, by simpa using hm⟩), hret, hc⟩
      · exact ⟨_, mem_append_right _ (mem_singleton_self _), retentionRow_covers.mpr (.inr hin)⟩

theorem OthersKept.trans {a b c : Db} (h : OthersKept a b) (h' : OthersKept b c) :
    OthersKept a c := fun r hlive hs => (h' r hlive hs).trans (h r hlive hs)

theorem recordIntervals_spec {is : List AgentRange} :
    ∀ {db db' : Db}, Ledger db → (∀ i ∈ is, i.span.start < i.span.stop) →
      recordIntervals p archiveId reason now db is = .ok db' →
      SameTables db db' ∧ OthersKept db db' ∧ Ledger db' ∧
      ∀ agentId c, db'.Retained archiveId agentId c ↔
        db.Retained archiveId agentId c ∨ ∃ i ∈ is, i.Contains agentId c := by
  induction is with
  | nil =>
    intro db db' h _ hrec
    cases hrec
    exact ⟨.refl db, fun _ _ _ => Iff.rfl, h, fun _ _ => by simp⟩
  | cons i is ih =>
    intro db db' h hne hrec
    unfold recordIntervals at hrec
    split at hrec
    · cases hrec
    next db₁ hone =>
    have hfirst := recordRetentionInterval_spec h (hne i mem_cons_self) hone
    obtain ⟨htables, hothers, hledger, hret⟩ := ih hfirst.ledger
      (fun j hj => hne j (mem_cons_of_mem _ hj)) hrec
    refine ⟨hfirst.tables.trans htables, hfirst.others.trans hothers, hledger, fun agentId c => ?_⟩
    rw [hret, hfirst.retained, exists_mem_cons_iff, or_assoc]

end Record

/-! ## Purges -/

structure Purged (archiveId : String) (db db' : Db) : Prop where
  archive : db'.currentArchive = db.currentArchive
  cursors : db'.cursors = db.cursors
  events : db'.events.Sublist db.events
  claims : db'.claims.Sublist db.claims
  current : ∀ agentId state, db.cursorRow? archiveId agentId = some state →
    db'.claimsAt agentId state.revision = db.claimsAt agentId state.revision
  others : OthersKept db db'
  ledger : Ledger db'
  retained : ∀ agentId c, db'.Retained archiveId agentId c ↔
    db.Retained archiveId agentId c ∨ (db.Holds agentId c ∧ ¬ db'.Holds agentId c)

structure Tables (archiveId : String) (db : Db) : Prop where
  eventIds : (db.events.map EventRow.id).Nodup
  eventKeys : (db.events.map fun e => (e.agentId, e.cursor)).Nodup
  claimIds : (db.claims.map ClaimRow.id).Nodup
  claims : ∀ r ∈ db.claims, ∃ state, db.cursorRow? archiveId r.agentId = some state ∧
    r.revision ≤ state.revision

theorem Purged.holds (h : Purged archiveId db db') (hc : db'.Holds agentId c) :
    db.Holds agentId c := by
  obtain ⟨e, he, hkey⟩ := hc
  exact ⟨e, h.events.subset he, hkey⟩

theorem cursorRow?_congr (h : db'.cursors = db.cursors) (a agentId : String) :
    db'.cursorRow? a agentId = db.cursorRow? a agentId := by
  unfold Db.cursorRow?
  rw [h]

theorem Purged.cursorRow (h : Purged archiveId db db') (a agentId : String) :
    db'.cursorRow? a agentId = db.cursorRow? a agentId := cursorRow?_congr h.cursors a agentId

theorem Purged.refl (h : Ledger db) : Purged archiveId db db :=
  ⟨rfl, rfl, .refl _, .refl _, fun _ _ _ => rfl, fun _ _ _ => Iff.rfl, h, fun _ _ =>
    ⟨.inl, fun h => h.elim id fun h => absurd h.1 h.2⟩⟩

theorem Purged.trans {a b c : Db} (h : Purged archiveId a b) (h' : Purged archiveId b c) :
    Purged archiveId a c where
  archive := h'.archive.trans h.archive
  cursors := h'.cursors.trans h.cursors
  events := h'.events.trans h.events
  claims := h'.claims.trans h.claims
  current := fun agentId state hstate =>
    (h'.current agentId state ((h.cursorRow _ _).trans hstate)).trans
      (h.current agentId state hstate)
  others := h.others.trans h'.others
  ledger := h'.ledger
  retained := fun agentId cursor => by
    rw [h'.retained, h.retained]
    constructor
    · rintro ((hret | ⟨hheld, hgone⟩) | ⟨hheld, hgone⟩)
      · exact .inl hret
      · exact .inr ⟨hheld, fun hc => hgone (h'.holds hc)⟩
      · exact .inr ⟨h.holds hheld, hgone⟩
    · rintro (hret | ⟨hheld, hgone⟩)
      · exact .inl (.inl hret)
      · by_cases hb : b.Holds agentId cursor
        · exact .inr ⟨hb, hgone⟩
        · exact .inl (.inr ⟨hheld, hb⟩)

theorem Purged.tables (h : Purged archiveId db db') (ht : Tables archiveId db) :
    Tables archiveId db' where
  eventIds := ht.eventIds.sublist (h.events.map _)
  eventKeys := ht.eventKeys.sublist (h.events.map _)
  claimIds := ht.claimIds.sublist (h.claims.map _)
  claims := fun r hr => by
    obtain ⟨state, hstate, hle⟩ := ht.claims r (h.claims.subset hr)
    exact ⟨state, (h.cursorRow _ _).trans hstate, hle⟩

section Batch

variable {p : Platform} {plan : RetentionPlan} {now : Time} {tier : Tier} {usage : Int}

theorem mem_selectRows {pressure : Bool} {row : α} {candidates : List (Candidate α)} :
    ∀ {remaining : Int}, row ∈ selectRows plan pressure remaining candidates →
      ∃ c ∈ candidates, c.row = row := by
  induction candidates with
  | nil => intro remaining h; cases h
  | cons c rest ih =>
    intro remaining h
    unfold selectRows at h
    split at h
    · rcases mem_cons.mp h with rfl | h
      · exact ⟨c, mem_cons_self, rfl⟩
      · obtain ⟨d, hd, hrow⟩ := ih h
        exact ⟨d, mem_cons_of_mem _ hd, hrow⟩
    · cases h

theorem mem_readCandidates {recordedAt : α → String} {bytes : α → Nat} {rows : List α} :
    ∀ {candidates : List (Candidate α)}, readCandidates p recordedAt bytes rows = .ok candidates →
      ∀ c ∈ candidates, c.row ∈ rows := by
  induction rows with
  | nil =>
    intro candidates h c hc
    cases h
    cases hc
  | cons row rest ih =>
    intro candidates h c hc
    unfold readCandidates at h
    split at h
    · cases h
    split at h
    · cases h
    next candidates' hrest =>
    cases h
    rcases mem_cons.mp hc with rfl | hc
    · exact mem_cons_self
    · exact mem_cons_of_mem _ (ih hrest c hc)

theorem mem_selected {recordedAt : α → String} {bytes : α → Nat} {rows : List α} {f g : α → Bool}
    {le : α → α → Prop} [DecidableRel le] {candidates : List (Candidate α)}
    {pressure : Bool} {remaining : Int} {row : α}
    (hread : readCandidates p recordedAt bytes
      (((rows.filter fun r => f r && g r).insertionSort le).take n) = .ok candidates)
    (h : row ∈ selectRows plan pressure remaining candidates) : row ∈ rows ∧ f row = true := by
  obtain ⟨c, hc, rfl⟩ := mem_selectRows h
  have hmem := mem_of_mem_take (mem_readCandidates hread c hc)
  rw [mem_insertionSort, mem_filter, Bool.and_eq_true] at hmem
  exact ⟨hmem.1, hmem.2.1⟩

theorem holds_deleteEvents (ht : Tables archiveId db) (hsub : ∀ e ∈ events, e ∈ db.events)
    {coverage : List CoverageRow} :
    (Db.deleteEvents { db with coverage := coverage } (events.map EventRow.id)).Holds agentId c ↔
      db.Holds agentId c ∧ ¬ ∃ e ∈ events, e.agentId = agentId ∧ e.cursor = c := by
  unfold Db.Holds Db.deleteEvents
  simp only [mem_filter, decide_eq_true_eq, mem_map, not_exists, not_and]
  constructor
  · rintro ⟨e, ⟨he, hid⟩, hkey⟩
    refine ⟨⟨e, he, hkey⟩, fun d hd ha hc => hid d hd ?_⟩
    have hsame : d = e := inj_on_of_nodup_map ht.eventKeys (hsub d hd) he
      (Prod.ext (ha.trans hkey.1.symm) (hc.trans hkey.2.symm))
    rw [hsame]
  · rintro ⟨⟨e, he, hkey⟩, hnot⟩
    refine ⟨e, ⟨he, fun d hd hid => ?_⟩, hkey⟩
    have hsame : d = e := inj_on_of_nodup_map ht.eventIds (hsub d hd) he hid
    subst hsame
    exact hnot d hd hkey.1 hkey.2

theorem retains_retained (h : db.retains archiveId agentId c = true) :
    db.Retained archiveId agentId c := by
  obtain ⟨r, hr, hret⟩ := any_eq_true.mp h
  simp only [retains, Bool.and_eq_true, beq_iff_eq] at hret
  obtain ⟨⟨⟨⟨⟨⟨⟨hof, -⟩, hsource⟩, hlive⟩, hinc⟩, -⟩, hfrom⟩, huntil⟩ := hret
  refine ⟨r, hr, by simp [retention, hof, hsource, hlive], hinc, ?_⟩
  cases hf : r.fromSeq with
  | none => rw [hf] at hfrom; cases hfrom
  | some first =>
    cases hu : r.untilSeq with
    | none => rw [hu] at huntil; cases huntil
    | some past =>
      rw [hf] at hfrom
      rw [hu] at huntil
      simp only [Option.any_some, decide_eq_true_eq] at hfrom huntil
      exact ⟨hfrom, huntil⟩

theorem SameTables.eq_coverage (h : SameTables db db') :
    db' = { db with coverage := db'.coverage } := by
  obtain ⟨archive, events, claims, coverage, cursors⟩ := db'
  obtain ⟨h₁, h₂, h₃, h₄⟩ := h
  cases h₁
  cases h₂
  cases h₃
  cases h₄
  rfl

theorem Tables.removed (ht : Tables archiveId db) (hsub : ∀ e ∈ events, e ∈ db.events)
    {coverage : List CoverageRow} :
    (db.Holds agentId c ∧ ¬ (Db.deleteEvents { db with coverage := coverage }
      (events.map EventRow.id)).Holds agentId c) ↔
    ∃ e ∈ events, e.agentId = agentId ∧ e.cursor = c := by
  rw [holds_deleteEvents ht hsub]
  constructor
  · rintro ⟨hheld, hgone⟩
    by_contra hnot
    exact hgone ⟨hheld, hnot⟩
  · rintro ⟨e, he, hkey⟩
    exact ⟨⟨e, hsub e he, hkey⟩, fun h => h.2 ⟨e, he, hkey⟩⟩

theorem deleteBatch_purged {r : BatchResult} (hl : Ledger db) (ht : Tables archiveId db)
    (h : deleteBatch p archiveId plan now tier usage db = .ok (db', r)) :
    Purged archiveId db db' := by
  unfold deleteBatch at h
  dsimp only at h
  split at h
  · cases h
  split at h
  · cases h
  next candidates hload =>
  have hsel : ∀ e ∈ selectRows plan (plan.pressure usage) usage candidates,
      e ∈ db.events ∧ tier.admits db archiveId e = true := fun e he => mem_selected hload he
  have hsub : ∀ e ∈ selectRows plan (plan.pressure usage) usage candidates, e ∈ db.events :=
    fun e he => (hsel e he).1
  split at h
  · cases h
    exact .refl hl
  split at h
  next hreason =>
    -- the events of this tier lie in retention ranges already
    cases h
    refine ⟨rfl, rfl, filter_sublist, .refl _, fun _ _ _ => rfl, fun _ _ _ => Iff.rfl,
      hl.congr rfl, fun agentId c => ⟨.inl, ?_⟩⟩
    rintro (hret | hgone)
    · exact hret
    obtain ⟨e, he, rfl, rfl⟩ := (ht.removed hsub).mp hgone
    have hadm := (hsel e he).2
    cases tier with
    | acked | unacked => cases hreason
    | covered =>
      unfold Tier.admits at hadm
      split at hadm
      · cases hadm
      · exact retains_retained hadm
  next reason hreason =>
    split at h
    · cases h
    next db₁ hrec =>
    cases h
    obtain ⟨htables, hothers, hledger, hret⟩ :=
      recordIntervals_spec hl retentionIntervals_nonempty hrec
    rw [htables.eq_coverage] at hledger hret hothers ⊢
    refine ⟨rfl, rfl, filter_sublist, .refl _, fun _ _ _ => rfl, hothers,
      hledger.congr rfl, fun agentId c => ?_⟩
    rw [ht.removed hsub, ← retentionIntervals_contains]
    exact hret agentId c

theorem compactClaims_purged (hl : Ledger db) (ht : Tables archiveId db)
    (h : compactClaims p archiveId plan usage db = .ok (db', n)) : Purged archiveId db db' := by
  unfold compactClaims at h
  dsimp only at h
  split at h
  · cases h
  split at h
  · cases h
  next candidates hread =>
  cases h
  refine ⟨rfl, rfl, .refl _, filter_sublist, fun agentId state hstate => ?_,
    fun _ _ _ => Iff.rfl, hl.congr rfl, fun _ _ =>
      ⟨.inl, fun h => h.elim id fun h => absurd h.1 h.2⟩⟩
  unfold Db.claimsAt
  dsimp only
  rw [filter_filter]
  congr 1
  refine filter_congr fun r hr => ?_
  by_cases hcur : (r.agentId == agentId && r.revision == state.revision) = true
  swap
  · simp only [Bool.not_eq_true] at hcur
    rw [hcur, Bool.false_and]
  rw [hcur, Bool.true_and, decide_eq_true_eq]
  -- a claim of the current revision is not older than any other
  intro hid
  obtain ⟨s, hs, hsid⟩ := mem_map.mp hid
  obtain ⟨hmem, hout⟩ := mem_selected hread hs
  rw [show s = r from inj_on_of_nodup_map ht.claimIds hmem hr hsid] at hout
  unfold ClaimRow.outdated at hout
  split at hout
  · cases hout
  split at hout
  · cases hout
  simp only [Bool.and_eq_true, beq_iff_eq] at hcur hout
  obtain ⟨newest, hnewest, hlt⟩ := any_eq_true.mp hout.1
  simp only [Bool.and_eq_true, beq_iff_eq, decide_eq_true_eq] at hlt
  obtain ⟨state', hstate', hle⟩ := ht.claims newest hnewest
  rw [hlt.1, hcur.1, hstate] at hstate'
  cases hstate'
  omega

theorem compactCoverage_purged (hl : Ledger db)
    (h : compactCoverage p archiveId plan usage db = .ok (db', n)) : Purged archiveId db db' := by
  unfold compactCoverage at h
  dsimp only at h
  split at h
  · cases h
  split at h
  · cases h
  next candidates hread =>
  cases h
  have hlive : ∀ r : CoverageRow, r.live = true → (r ∈ (db.coverage.filter fun r =>
      decide (r.id ∉ (selectRows plan (plan.pressure usage) usage candidates).map
        CoverageRow.id)) ↔ r ∈ db.coverage) := by
    intro r hlive
    rw [mem_filter, decide_eq_true_eq]
    refine ⟨fun h => h.1, fun hr => ⟨hr, fun hid => ?_⟩⟩
    obtain ⟨s, hs, hsid⟩ := mem_map.mp hid
    obtain ⟨hmem, hout⟩ := mem_selected hread hs
    rw [hl.ids.eq hmem hr hsid] at hout
    simp only [CoverageRow.outdated, CoverageRow.live, Bool.and_eq_true] at hout hlive
    rw [Option.isNone_iff_eq_none.mp hlive.2] at hout
    cases hout.1.1.2
  refine ⟨rfl, rfl, .refl _, .refl _, fun _ _ _ => rfl, fun r h _ => hlive r h, ⟨?_, ?_, ?_⟩,
    fun agentId c => ?_⟩
  · exact hl.ids.sublist (filter_sublist.map _)
  · exact fun r hr => hl.ranged r (mem_of_mem_filter hr)
  · exact fun r hr s hs => hl.apart r (mem_of_mem_filter hr) s (mem_of_mem_filter hs)
  constructor
  · rintro ⟨r, hr, hret, hc⟩
    exact .inl ⟨r, (hlive r (CoverageRow.retention_iff.mp hret).2.2).mp hr, hret, hc⟩
  · rintro (⟨r, hr, hret, hc⟩ | hgone)
    · exact ⟨r, (hlive r (CoverageRow.retention_iff.mp hret).2.2).mpr hr, hret, hc⟩
    · exact absurd hgone.1 hgone.2

/-! ## Whole calls -/

theorem Txn.map_ok {β : Type} {f : α → β} {t : Txn α} {b : β} (h : t.map f db = .ok (db', b)) :
    ∃ a, t db = .ok (db', a) := by
  unfold Txn.map at h
  split at h
  · cases h
  next db₁ a heq =>
    cases h
    exact ⟨a, heq⟩

theorem repeatBatch_purged (p : Platform) (plan : RetentionPlan) (now : Time) {t : Int → Txn α}
    {f : α → Nat × Nat}
    (hbatch : ∀ {usage db db' a}, Ledger db → Tables archiveId db → t usage db = .ok (db', a) →
      Purged archiveId db db') (fuel : Nat) :
    ∀ {db : Db}, Ledger db → Tables archiveId db → Purged archiveId db
      (repeatBatch p archiveId plan now (fun usage => (t usage).map f) fuel db).1 := by
  induction fuel with
  | zero => intro db hl _; exact .refl hl
  | succ fuel ih =>
    intro db hl ht
    unfold repeatBatch
    split
    · exact .refl hl
    split
    · exact .refl hl
    split
    · exact .refl hl
    next db₁ deleted created hone =>
    obtain ⟨a, ha⟩ := Txn.map_ok hone
    have hfirst := hbatch hl ht ha
    split
    · exact hfirst
    have hrest := ih hfirst.ledger (hfirst.tables ht)
    split
    next hres => rw [hres] at hrest; exact hfirst.trans hrest
    next hres => rw [hres] at hrest; exact hfirst.trans hrest

theorem deleteEventTier_purged (p : Platform) (plan : RetentionPlan) (now : Time) (tier : Tier)
    (hl : Ledger db) (ht : Tables archiveId db) :
    Purged archiveId db (deleteEventTier p archiveId plan now tier db).1 :=
  repeatBatch_purged p plan now deleteBatch_purged _ hl ht

theorem compactCoverageHistory_purged (p : Platform) (plan : RetentionPlan) (now : Time)
    (hl : Ledger db) (ht : Tables archiveId db) :
    Purged archiveId db (compactCoverageHistory p archiveId plan now db).1 := by
  have hclaims := repeatBatch_purged p plan now (t := compactClaims p archiveId plan)
    (f := fun n => (n, 0)) compactClaims_purged (db.claims.length + 1) hl ht
  unfold compactCoverageHistory
  split
  next hres => rw [hres] at hclaims; exact hclaims
  next db₁ claims created hres =>
    rw [hres] at hclaims
    have hcoverage := repeatBatch_purged p plan now (t := compactCoverage p archiveId plan)
      (f := fun n => (n, 0)) (fun hl _ => compactCoverage_purged hl) (db₁.coverage.length + 1)
      hclaims.ledger (hclaims.tables ht)
    split
    next hres => rw [hres] at hcoverage; exact hclaims.trans hcoverage
    next hres => rw [hres] at hcoverage; exact hclaims.trans hcoverage

theorem enforceRetention_purged {policy : RetentionPolicy} (hl : Ledger db)
    (ht : Tables archiveId db) :
    Purged archiveId db (enforceRetention p archiveId policy now db).1 := by
  unfold enforceRetention
  split
  · exact .refl hl
  split
  · exact .refl hl
  split
  · exact .refl hl
  split
  · exact .refl hl
  next plan _ =>
  split
  · exact .refl hl
  have h₁ := deleteEventTier_purged p plan now .acked hl ht
  split
  next hres => rw [hres] at h₁; exact h₁
  next db₁ _ _ hres =>
  rw [hres] at h₁
  have h₂ := h₁.trans (compactCoverageHistory_purged p plan now h₁.ledger (h₁.tables ht))
  split
  next hres => rw [hres] at h₂; exact h₂
  next db₂ _ hres =>
  rw [hres] at h₂
  have h₃ := h₂.trans (deleteEventTier_purged p plan now .covered h₂.ledger (h₂.tables ht))
  split
  next hres => rw [hres] at h₃; exact h₃
  next db₃ _ _ hres =>
  rw [hres] at h₃
  have h₄ := h₃.trans (deleteEventTier_purged p plan now .unacked h₃.ledger (h₃.tables ht))
  split
  next hres => rw [hres] at h₄; exact h₄
  next db₄ _ _ hres =>
  rw [hres] at h₄
  split
  · exact h₄
  · exact h₄

end Batch

end DockLattice.Store
