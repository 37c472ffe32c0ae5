import DockLattice.Wal.Journal

/-!
# DockLattice.Wal.Step

The durable effects of the WAL operations as steps of the journal. Metadata reaches the disk in a step
of its own (`save`). Changing the archive is kept apart (`Rebind`): it is the only effect after which
an acknowledged cursor may be forgotten. Over a run of steps frames are only added at the end and only
dropped at the front, and what was dropped is acknowledged or in a gap (`Steps.frames_eq`).
-/

namespace DockLattice.Wal

open Bytes List Log

variable {o : Options} {c : Cursor} {l l' : Log o} {new : List DecodedFrame} {p : Piece o.maxBytes}
  {rest : List (Piece o.maxBytes)} {m : Metadata}

/-! ## Recording a gap for the oldest piece -/

namespace Log

abbrev gapFor (l : Log o) (p : Piece o.maxBytes) (r : GapReason) : Gap :=
  segmentGap p.segment r (l.metadata.coverageRevision + 1)

def durable (l : Log o) (m : Metadata) : Metadata := durableMetadata { l.wal with metadata := m }

end Log

theorem covers_gapFor (l : Log o) (p : Piece o.maxBytes) (r : GapReason) :
    (l.gapFor p r).Covers p := by
  simp [segmentGap, Gap.Covers]

theorem Log.Placed.gapLe_gapFor {g : Gap} (h : l.Placed g) (hs : l.sealed = p :: rest)
    (hlt : g.fromSeq < g.untilSeq) (r : GapReason) : gapLe g (l.gapFor p r) := by
  rcases h.head p (by simp [hs]) with hb | hc
  · simp only [Gap.EndsBefore] at hb
    simp only [gapLe, segmentGap, Piece.segment_first]; omega
  · obtain ⟨h1, h2, -⟩ := hc
    exact .inr ⟨h1, h2⟩

theorem mem_pushGap {gaps : List Gap} {gap g : Gap} (h : g ∈ pushGap gaps gap) :
    g ∈ gaps ∨ g = gap ∨ ∃ last ∈ gaps, joins last gap = true ∧ g = join last gap := by
  induction gaps with
  | nil => simp only [pushGap, mem_singleton] at h; exact .inr (.inl h)
  | cons k ks ih =>
    cases ks with
    | nil =>
      simp only [pushGap] at h
      split at h
      · rename_i hj
        rw [mem_singleton] at h
        exact .inr (.inr ⟨k, by simp, hj, h⟩)
      · simp only [mem_cons, not_mem_nil, or_false] at h
        rcases h with rfl | rfl
        · exact .inl (by simp)
        · exact .inr (.inl rfl)
    | cons m ms =>
      simp only [pushGap, mem_cons] at h
      rcases h with rfl | h
      · exact .inl (by simp)
      rcases ih h with h | h | ⟨last, hl, hj, h⟩
      · exact .inl (mem_cons_of_mem _ h)
      · exact .inr (.inl h)
      · exact .inr (.inr ⟨last, mem_cons_of_mem _ hl, hj, h⟩)

namespace Log.Ok

theorem withGap_gaps (h : l.Ok) (hs : l.sealed = p :: rest) (r : GapReason) :
    (l.metadata.withGap p.segment r).gaps = pushGap l.metadata.gaps (l.gapFor p r) :=
  mergeGap_eq_pushGap h.valid.gaps_ok fun g hg =>
    (h.placed g hg).gapLe_gapFor hs (h.valid.gaps_ok.each g hg).from_lt r

theorem gapped_withGap (h : l.Ok) (hs : l.sealed = p :: rest) (r : GapReason) :
    Gapped (l.metadata.withGap p.segment r).gaps c ↔
      Gapped l.metadata.gaps c ∨ (l.gapFor p r).Contains c := by
  rw [h.withGap_gaps hs]
  exact gapped_pushGap fun g hg =>
    (h.placed g hg).gapLe_gapFor hs (h.valid.gaps_ok.each g hg).from_lt r

theorem gapFor_placed (h : l.Ok) (hs : l.sealed = p :: rest) (r : GapReason) :
    l.Placed (l.gapFor p r) := by
  have hsorted := h.sorted
  simp only [pieces, hs, cons_append, pairwise_cons, mem_append] at hsorted
  have ends : ∀ c : Cursor, p.last < c → (l.gapFor p r).EndsBefore c := by
    intro c hc
    simp only [Cursor.lt_def, Piece.last_incarnation] at hc
    simp only [Gap.EndsBefore, segmentGap, Piece.segment_first, Piece.segment_last]
    omega
  refine ⟨rfl, ends _ (h.sealed_lt_next (by simp [hs])), ?_, ?_, ?_⟩
  · intro q hq; exact ends _ (hsorted.1 q (.inr (by simp [hq])))
  · intro q hq; rw [hs] at hq; exact ends _ (hsorted.1 q (.inl hq))
  · intro q hq
    rw [hs, head?_cons, Option.some.injEq] at hq
    exact .inr (hq ▸ covers_gapFor l p r)

theorem withGap_placed (h : l.Ok) (hs : l.sealed = p :: rest) (r : GapReason) :
    ∀ g ∈ (l.metadata.withGap p.segment r).gaps, l.Placed g := by
  rw [h.withGap_gaps hs]
  intro g hg
  have hnew := h.gapFor_placed hs r
  rcases mem_pushGap hg with hg | rfl | ⟨last, hl, hj, rfl⟩
  · exact h.placed g hg
  · exact hnew
  -- a joined gap ends where the later of the two does
  have hlast := h.placed last hl
  have hle := hlast.gapLe_gapFor hs (h.valid.gaps_ok.each last hl).from_lt r
  have hinc : last.incarnation = (l.gapFor p r).incarnation := by
    simp only [joins, Bool.and_eq_true, beq_iff_eq] at hj; exact hj.1.1.1
  have ends : ∀ c, last.EndsBefore c → (l.gapFor p r).EndsBefore c →
      (join last (l.gapFor p r)).EndsBefore c := by
    intro c h1 h2
    simp only [Gap.EndsBefore, join] at *
    split <;> omega
  refine ⟨hlast.exact, ends _ hlast.next hnew.next,
    fun q hq => ends _ (hlast.active q hq) (hnew.active q hq),
    fun q hq => ends _ (hlast.tail q hq) (hnew.tail q hq), ?_⟩
  intro q hq
  rw [hs, head?_cons, Option.some.injEq] at hq
  subst hq
  right
  obtain ⟨c1, c2, c3⟩ := covers_gapFor l p r
  refine ⟨by simp only [join]; omega, ?_, ?_⟩
  · simp only [join]; simp only [gapLe] at hle; omega
  · simp only [join]; split <;> omega

end Log.Ok

theorem Metadata.Valid.withGap {seg : Segment} {r : GapReason} (hm : m.Valid)
    (hg : GapsOk m.currentIncarnation (m.coverageRevision + 1) m.coverageUnknownIncarnations
      (m.withGap seg r).gaps) : (m.withGap seg r).Valid :=
  { hm with
    revision := fun h0 => absurd h0 (Nat.succ_ne_zero _)
    assigned := ⟨hm.assigned.none_fresh, hm.assigned.current, hm.assigned.older,
      hm.assigned.durable_le, hm.assigned.ack_le⟩
    unknown_ok := hm.unknown_of rfl rfl
    gaps_ok := hg }

/-! ## The parts of the metadata that `saveMetadataDurableLocked` leaves alone -/

theorem Log.durable_eq (l : Log o) (m : Metadata) :
    ∃ n c, l.durable m = { m with nextSeq := n, lastAssigned := c } := by
  unfold durable durableMetadata
  split
  · exact ⟨_, _, rfl⟩
  · split <;> exact ⟨_, _, rfl⟩

namespace Log

variable (l : Log o) (m : Metadata)

@[simp] theorem durable_gaps : (l.durable m).gaps = m.gaps := by
  obtain ⟨n, c, h⟩ := l.durable_eq m; rw [h]

@[simp] theorem durable_coverageRevision :
    (l.durable m).coverageRevision = m.coverageRevision := by
  obtain ⟨n, c, h⟩ := l.durable_eq m; rw [h]

@[simp] theorem durable_currentIncarnation :
    (l.durable m).currentIncarnation = m.currentIncarnation := by
  obtain ⟨n, c, h⟩ := l.durable_eq m; rw [h]

@[simp] theorem durable_unknown :
    (l.durable m).coverageUnknownIncarnations = m.coverageUnknownIncarnations := by
  obtain ⟨n, c, h⟩ := l.durable_eq m; rw [h]

@[simp] theorem durable_agentId : (l.durable m).agentId = m.agentId := by
  obtain ⟨n, c, h⟩ := l.durable_eq m; rw [h]

@[simp] theorem durable_serverAck : (l.durable m).serverAck = m.serverAck := by
  obtain ⟨n, c, h⟩ := l.durable_eq m; rw [h]

end Log

/-! ## Steps -/

inductive Proposes (l : Log o) : Metadata → Prop where
  | sealing {p : Piece o.maxBytes} : l.active = some p → p.synced = p.content.length →
      p.frames ≠ [] → Proposes l { l.metadata with durableThrough := some p.last }
  | ack {c : Cursor} : l.active = none → (∀ a, l.metadata.serverAck = some a → a < c) →
      Proposes l { l.metadata with serverAck := some c }
  | gap {p : Piece o.maxBytes} {rest : List (Piece o.maxBytes)} {r : GapReason} :
      l.sealed = p :: rest → (∀ a, l.metadata.serverAck = some a → a < p.last) →
      Proposes l (l.durable (l.metadata.withGap p.segment r))
  | reopened : l.active = none → Proposes l l.metadata

def Released (m : Metadata) (p : Piece o.maxBytes) : Prop :=
  (∃ a, m.serverAck = some a ∧ p.last ≤ a) ∨ ∃ g ∈ m.gaps, g.Covers p

def Log.wrote (l : Log o) (p : Piece o.maxBytes) (f : DecodedFrame) (hc : f.cursor = p.next)
    (hf : f.Fits o.maxBytes) : Log o :=
  { l with
    active := some (p.snoc f hc hf)
    metadata := { l.metadata with
      nextSeq := l.metadata.nextSeq + 1, lastAssigned := some f.cursor } }

def Log.Current (l : Log o) : Prop :=
  ∃ m, l.saved = some m ∧ m.currentIncarnation = l.metadata.currentIncarnation

inductive Step : Log o → List DecodedFrame → Log o → Prop where
  | fsync {l : Log o} {p : Piece o.maxBytes} : l.active = some p →
      Step l [] { l with active := some p.sync }
  | create {l : Log o} (now : Instant) : l.active = none → l.Current →
      Step l [] { l with active := some (.fresh l.next now) }
  | write {l : Log o} {p : Piece o.maxBytes} {f : DecodedFrame} (hc : f.cursor = p.next)
      (hf : f.Fits o.maxBytes) : l.active = some p → l.metadata.nextSeq ≠ maxUint64 →
      l.bytes + f.bytes ≤ o.maxBytes → Step l [f] (l.wrote p f hc hf)
  | save {l : Log o} {m : Metadata} : Proposes l m → m.Valid → Step l [] { l with saved := some m }
  | sealing {l : Log o} {p : Piece o.maxBytes} : l.active = some p →
      p.synced = p.content.length → p.frames ≠ [] →
      l.saved = some { l.metadata with durableThrough := some p.last } →
      Step l [] { l with
        metadata := { l.metadata with durableThrough := some p.last }
        sealed := l.sealed ++ [p]
        active := none }
  | ack {l : Log o} {c : Cursor} : l.active = none →
      (∀ a, l.metadata.serverAck = some a → a < c) →
      l.saved = some { l.metadata with serverAck := some c } →
      Step l [] { l with metadata := { l.metadata with serverAck := some c } }
  | gap {l : Log o} {p : Piece o.maxBytes} {rest : List (Piece o.maxBytes)} {r : GapReason} :
      l.sealed = p :: rest → l.saved = some (l.durable (l.metadata.withGap p.segment r)) →
      Step l [] { l with metadata := l.metadata.withGap p.segment r }
  | unlink {l : Log o} {p : Piece o.maxBytes} {rest : List (Piece o.maxBytes)} :
      l.sealed = p :: rest → Released l.metadata p → Step l [] { l with sealed := rest }
  | receipts {l : Log o} (rs : List (String × OnceReceipt)) : Step l [] { l with receipts := rs }
  | temps {l : Log o} (ts : List Nat) : Step l [] { l with temps := ts }
  | background {l : Log o} (e : Option WalError) : Step l [] { l with backgroundErr := e }

/-! ## Every step keeps the journal well formed -/

theorem Metadata.Valid.assign (h : m.Valid) (hn : m.nextSeq ≠ maxUint64) :
    { m with nextSeq := m.nextSeq + 1
             lastAssigned := some ⟨m.currentIncarnation, m.nextSeq⟩ : Metadata }.Valid := by
  have below : ∀ {c x}, m.lastAssigned = some x → c ≤ x → c ≤ ⟨m.currentIncarnation, m.nextSeq⟩ :=
    fun hx hc => le_of_lt (lt_of_le_of_lt hc (h.next_gt hx))
  refine
    { h with
      next_pos := Nat.succ_pos _
      last_ok := ?_
      assigned := ⟨by simp, ?_, ?_, ?_, ?_⟩
      unknown_ok := h.unknown_of rfl rfl }
  · rintro c hc; cases hc; exact ⟨h.incarnation_pos, h.next_pos, Nat.le_refl _⟩
  · rintro last hl -; cases hl; exact ⟨hn, rfl⟩
  · rintro last hl hi; cases hl; exact absurd rfl hi
  · rintro last c hl hd; cases hl
    cases hx : m.lastAssigned with
    | none => rw [(h.assigned.none_fresh hx).1] at hd; cases hd
    | some x => exact below hx (h.assigned.durable_le x c hx hd)
  · rintro last c hl hd; cases hl
    cases hx : m.lastAssigned with
    | none => rw [(h.assigned.none_fresh hx).2.1] at hd; cases hd
    | some x => exact below hx (h.assigned.ack_le x c hx hd)

namespace Log

variable {g : Gap}

theorem Placed.congr (h : l.Placed g) (hn : l'.next = l.next) (hs : l'.sealed = l.sealed)
    (ha : l'.active = l.active) : l'.Placed g :=
  ⟨h.exact, hn ▸ h.next, ha ▸ h.active, hs ▸ h.tail, hs ▸ h.head⟩

theorem Placed.mono (h : l.Placed g) (hn : l.next ≤ l'.next) (hs : l'.sealed = l.sealed)
    (ha : ∀ q, l'.active = some q → l.next ≤ q.key ∨ ∃ p, l.active = some p ∧ p.key = q.key) :
    l'.Placed g := by
  refine ⟨h.exact, h.next.mono hn, fun q hq => ?_, by rw [hs]; exact h.tail, by rw [hs]; exact h.head⟩
  rcases ha q hq with hle | ⟨p, hp, hk⟩
  · exact h.next.mono hle
  · exact hk ▸ h.active p hp

theorem Placed.sealing (h : l.Placed g) (ha : l.active = some p) (hn : l'.next = l.next)
    (hs : l'.sealed = l.sealed ++ [p]) (hnone : l'.active = none) : l'.Placed g := by
  have hp := h.active p ha
  refine ⟨h.exact, hn ▸ h.next, by simp [hnone], ?_, ?_⟩
  · intro q hq
    rw [hs] at hq
    cases hl : l.sealed with
    | nil => simp [hl] at hq
    | cons r rs =>
      rw [hl, cons_append, tail_cons, mem_append] at hq
      rcases hq with hq | hq
      · exact h.tail q (by simpa [hl] using hq)
      · rw [mem_singleton] at hq; exact hq ▸ hp
  · intro q hq
    rw [hs] at hq
    cases hl : l.sealed with
    | nil =>
      rw [hl, nil_append, head?_cons, Option.some.injEq] at hq
      exact .inl (hq ▸ hp)
    | cons r rs => exact h.head q (by simpa [hl] using hq)

theorem Placed.unlink (h : l.Placed g) (hs : l.sealed = p :: rest) (hn : l'.next = l.next)
    (hs' : l'.sealed = rest) (ha : l'.active = l.active) : l'.Placed g := by
  have htail : ∀ q ∈ rest, g.EndsBefore q.key := fun q hq => h.tail q (by simpa [hs] using hq)
  refine ⟨h.exact, hn ▸ h.next, by rw [ha]; exact h.active, ?_, ?_⟩
  · intro q hq; rw [hs'] at hq; exact htail q (mem_of_mem_tail hq)
  · intro q hq; rw [hs'] at hq; exact .inl (htail q (mem_of_mem_head? hq))

theorem SavedOk.mono (h : l.SavedOk m) (ha : l'.agentId = l.agentId)
    (hc : l.metadata.currentIncarnation ≤ l'.metadata.currentIncarnation)
    (hp : ∀ g, l.Placed g → l'.Placed g)
    (hg : ∀ c, Gapped l'.metadata.gaps c → Gapped l.metadata.gaps c) : l'.SavedOk m :=
  ⟨h.valid, h.agent.trans ha.symm, Nat.le_trans h.incarnation_le hc, h.unknown,
    fun g hg' => hp g (h.placed g hg'), fun c hc' => h.gapped c (hg c hc')⟩

theorem Ok.proposed (h : l.Ok) (hp : Proposes l m) (hv : m.Valid) :
    l.SavedOk m := by
  cases hp with
  | sealing | ack | reopened =>
    exact ⟨hv, h.agent, Nat.le_refl _, h.unknown, h.placed, fun _ hc => hc⟩
  | gap hs _ =>
    refine ⟨hv, by simpa [Metadata.withGap] using h.agent, by simp [Metadata.withGap],
      by simpa [Metadata.withGap] using h.unknown, ?_, ?_⟩
    · rw [durable_gaps]; exact h.withGap_placed hs _
    · intro c hc; rw [durable_gaps]; exact (h.gapped_withGap hs _).mpr (.inl hc)

theorem Ok.placing (h : l.Ok) (l' : Log o) (hp : ∀ g, l.Placed g → l'.Placed g)
    (ha : l'.agentId = l.agentId)
    (hc : l'.metadata.currentIncarnation = l.metadata.currentIncarnation)
    (hg : l'.metadata.gaps = l.metadata.gaps) (hs : l'.saved = l.saved) :
    (∀ g ∈ l'.metadata.gaps, l'.Placed g) ∧ ∀ m, l'.saved = some m → l'.SavedOk m := by
  refine ⟨fun g hmem => hp g (h.placed g (hg ▸ hmem)), fun m hm => ?_⟩
  exact (h.saved m (hs ▸ hm)).mono ha (Nat.le_of_eq hc.symm) hp fun _ hc => hg ▸ hc

end Log

namespace Log.Ok

section

variable (h : l.Ok)

include h

/-- The open segment: a new one, or the one that is open with other contents. -/
theorem opened {q : Piece o.maxBytes} {n : Nat} {last : Option Cursor}
    (hkey : (l.active = none ∧ q.key = l.next) ∨ ∃ p, l.active = some p ∧ q.key = p.key)
    (hvalid : { l.metadata with nextSeq := n, lastAssigned := last : Metadata }.Valid)
    (hle : l.metadata.nextSeq ≤ n) (hmax : n ≤ maxUint64) (htail : q.tail = [])
    (hnext : q.next = ⟨l.metadata.currentIncarnation, n⟩)
    (hassigned : ∀ p ∈ l.sealed, ∃ c, last = some c ∧ p.last ≤ c)
    (hsize : (l.sealed.map Piece.bytes).sum + q.bytes ≤ o.maxBytes) :
    Log.Ok { l with
      active := some q
      metadata := { l.metadata with nextSeq := n, lastAssigned := last } } := by
  obtain ⟨hplaced, hsaved⟩ := h.placing { l with
      active := some q
      metadata := { l.metadata with nextSeq := n, lastAssigned := last } } (fun g hg =>
    hg.mono (.inr ⟨rfl, hle⟩) rfl (by
      rintro r hr; cases hr
      rcases hkey with ⟨-, hk⟩ | ⟨p, hp, hk⟩
      · exact .inl (le_of_eq hk.symm)
      · exact .inr ⟨p, hp, hk.symm⟩)) rfl rfl rfl rfl
  have hsorted := h.sorted
  rw [pieces, pairwise_append] at hsorted
  refine
    { h with
      valid := hvalid
      next_le := hmax
      active_tail := by rintro r hr; cases hr; exact htail
      active_next := by rintro r hr; cases hr; exact hnext
      sorted := pairwise_append.mpr ⟨hsorted.1, by simp, ?_⟩
      assigned := hassigned
      size := by simpa [pieces, bytes] using hsize
      active_unacked := ?_
      active_durable := ?_
      idle_durable := by simp
      placed := hplaced
      saved := hsaved }
  · intro p hp r hr
    rw [Option.toList_some, mem_singleton] at hr
    subst hr
    rcases hkey with ⟨-, hk⟩ | ⟨p', hp', hk⟩ <;> rw [hk]
    · exact h.sealed_lt_next hp
    · exact hsorted.2.2 p hp p' (by simp [hp'])
  · rintro r hr; cases hr
    rcases hkey with ⟨-, hk⟩ | ⟨p, hp, hk⟩ <;> rw [hk]
    · exact fun a => h.ack_lt_next
    · exact h.active_unacked p hp
  · rintro r hr; cases hr
    rcases hkey with ⟨hp, hk⟩ | ⟨p, hp, hk⟩ <;> rw [hk]
    · exact h.idle_durable hp
    · exact h.active_durable p hp

theorem fsync (ha : l.active = some p) : Log.Ok { l with active := some p.sync } := by
  refine h.opened (.inr ⟨p, ha, rfl⟩) h.valid (Nat.le_refl _) h.next_le (h.active_tail p ha)
    (h.active_next p ha) h.assigned ?_
  simpa [pieces, bytes, ha] using h.size

theorem create (ha : l.active = none) (now : Instant) :
    Log.Ok { l with active := some (.fresh l.next now) } := by
  refine h.opened (.inl ⟨ha, rfl⟩) h.valid (Nat.le_refl _) h.next_le rfl rfl h.assigned ?_
  simpa [pieces, bytes, ha, Piece.fresh, Piece.bytes] using h.size

theorem write (ha : l.active = some p) {f : DecodedFrame} (hc : f.cursor = p.next)
    (hf : f.Fits o.maxBytes) (hn : l.metadata.nextSeq ≠ maxUint64)
    (hb : l.bytes + f.bytes ≤ o.maxBytes) : (l.wrote p f hc hf).Ok := by
  have hcur : f.cursor = l.next := hc.trans (h.active_next p ha)
  have hinc := h.active_incarnation ha
  have hseq := h.active_seq ha
  have hmax := h.next_le
  refine h.opened (.inr ⟨p, ha, rfl⟩) (by simpa [hcur, next] using h.valid.assign hn)
    (Nat.le_succ _) (by omega) (h.active_tail p ha) ?_ (fun q hq => ?_) ?_
  · ext
    · exact hinc
    · simp [Piece.next, Piece.snoc]; omega
  · exact ⟨f.cursor, rfl, le_of_lt (hcur ▸ h.sealed_lt_next hq)⟩
  · simp [pieces, bytes, ha, Piece.bytes, Piece.snoc] at hb ⊢
    omega

theorem save (hp : Proposes l m) (hv : m.Valid) :
    Log.Ok { l with saved := some m } := by
  have hs := h.proposed hp hv
  have hplace : ∀ g, l.Placed g → Log.Placed { l with saved := some m } g :=
    fun g hg => hg.congr rfl rfl rfl
  exact
    { h with
      placed := fun g hg => hplace g (h.placed g hg)
      saved := by
        rintro m' hm; cases hm
        exact hs.mono rfl (Nat.le_refl _) hplace fun _ hc => hc }

theorem sealing (ha : l.active = some p) (hne : p.frames ≠ [])
    (hs : l.saved = some { l.metadata with durableThrough := some p.last }) :
    Log.Ok { l with
      metadata := { l.metadata with durableThrough := some p.last }
      sealed := l.sealed ++ [p]
      active := none } := by
  have hlast := h.active_last ha hne
  have hinc := h.active_incarnation ha
  have hseq := h.active_seq ha
  have hlen : 0 < p.frames.length := length_pos_of_ne_nil hne
  obtain ⟨hplaced, hsaved⟩ := h.placing { l with
      metadata := { l.metadata with durableThrough := some p.last }
      sealed := l.sealed ++ [p]
      active := none } (fun g hg => hg.sealing ha rfl rfl rfl) rfl rfl rfl rfl
  have hdur : Metadata.durableSeq { l.metadata with durableThrough := some p.last } =
      p.last.seq := by simp [Metadata.durableSeq, hinc]
  have hsorted := h.sorted
  have hsize := h.size
  simp only [pieces, bytes, ha, Option.toList_some] at hsorted hsize
  refine
    { h with
      valid := (h.saved _ hs).valid
      nonempty := ?_
      readable := ?_
      active_tail := by simp
      active_next := by simp
      sorted := by simpa [pieces] using hsorted
      assigned := ?_
      size := by simpa [pieces, bytes] using hsize
      active_unacked := by simp
      active_durable := by simp
      idle_durable := fun _ => by rw [hdur]; simp only [Piece.last_seq]; omega
      last_durable := ?_
      placed := hplaced
      saved := hsaved }
  · exact forall_mem_append.mpr ⟨h.nonempty, forall_mem_singleton.mpr hne⟩
  · refine forall_mem_append.mpr ⟨h.readable, forall_mem_singleton.mpr ?_⟩
    rw [h.active_tail p ha]
    exact frameStream_nil _
  · refine forall_mem_append.mpr ⟨h.assigned, forall_mem_singleton.mpr ?_⟩
    exact ⟨p.last, hlast, le_refl _⟩
  · intro q hq
    rw [getLast?_concat, Option.some.injEq] at hq
    subst hq
    rw [hdur, if_pos hinc]

theorem ack (ha : l.active = none) (hs : l.saved = some { l.metadata with serverAck := some c }) :
    Log.Ok { l with metadata := { l.metadata with serverAck := some c } } := by
  obtain ⟨hplaced, hsaved⟩ := h.placing { l with metadata := { l.metadata with serverAck := some c } }
    (fun g hg => hg.congr rfl rfl rfl) rfl rfl rfl rfl
  exact
    { h with
      valid := (h.saved _ hs).valid
      active_unacked := by simp [ha]
      placed := hplaced
      saved := hsaved }

theorem gap {r : GapReason} (hs : l.sealed = p :: rest)
    (hsaved : l.saved = some (l.durable (l.metadata.withGap p.segment r))) :
    Log.Ok { l with metadata := l.metadata.withGap p.segment r } := by
  have hplace : ∀ g, l.Placed g →
      Log.Placed { l with metadata := l.metadata.withGap p.segment r } g :=
    fun g hg => hg.congr rfl rfl rfl
  have hd := h.saved _ hsaved
  exact
    { h with
      valid := h.valid.withGap (by simpa [Metadata.withGap] using hd.valid.gaps_ok)
      placed := fun g hg => hplace g (h.withGap_placed hs r g hg)
      saved := by
        intro m hm
        have hm' := h.saved m hm
        refine { hm' with placed := fun g hg => hplace g (hm'.placed g hg), gapped := fun c hc => ?_ }
        rw [hsaved, Option.some.injEq] at hm
        rw [← hm, durable_gaps]; exact hc }

theorem unlink (hs : l.sealed = p :: rest) : Log.Ok { l with sealed := rest } := by
  obtain ⟨hplaced, hsaved⟩ := h.placing { l with sealed := rest }
    (fun g hg => hg.unlink hs rfl rfl rfl) rfl rfl rfl rfl
  have hmem : ∀ q ∈ rest, q ∈ l.sealed := fun q hq => by rw [hs]; exact mem_cons_of_mem _ hq
  have hsorted := h.sorted
  have hsize := h.size
  simp only [pieces, bytes, hs, cons_append, map_cons, sum_cons]
    at hsorted hsize
  exact
    { h with
      nonempty := fun q hq => h.nonempty q (hmem q hq)
      readable := fun q hq => h.readable q (hmem q hq)
      sorted := hsorted.tail
      assigned := fun q hq => h.assigned q (hmem q hq)
      size := by simp only [bytes, pieces]; omega
      last_durable := by
        intro q hq
        refine h.last_durable q ?_
        cases rest with
        | nil => cases hq
        | cons r rs => rw [hs, getLast?_cons_cons]; exact hq
      placed := hplaced
      saved := hsaved }

end

end Log.Ok

theorem Step.ok (hs : Step l new l') (h : l.Ok) : l'.Ok := by
  cases hs with
  | fsync ha => exact h.fsync ha
  | create now ha _ => exact h.create ha now
  | write hc hf ha hn hb => exact h.write ha hc hf hn hb
  | save hp hv => exact h.save hp hv
  | sealing ha _ hne hs => exact h.sealing ha hne hs
  | ack ha _ hs => exact h.ack ha hs
  | gap hs hsaved => exact h.gap hs hsaved
  | unlink hs _ => exact h.unlink hs
  | receipts | temps | background =>
    exact
      { h with
        placed := fun g hg => (h.placed g hg).congr rfl rfl rfl
        saved := fun m hm => (h.saved m hm).mono rfl (Nat.le_refl _)
          (fun g hg => hg.congr rfl rfl rfl) fun _ hc => hc }

/-- Changing the archive: on disk alone (the error came late, or the process died), or in memory
too. -/
inductive Rebind : Log o → String → Log o → Prop where
  | save {l : Log o} {archive : String} : l.active = none →
      { l.metadata with acknowledgedArchive := archive, serverAck := none : Metadata }.Valid →
      Rebind l archive { l with
        saved := some { l.metadata with acknowledgedArchive := archive, serverAck := none } }
  | adopt {l : Log o} {archive : String} : l.active = none →
      { l.metadata with acknowledgedArchive := archive, serverAck := none : Metadata }.Valid →
      Rebind l archive { l with
        metadata := { l.metadata with acknowledgedArchive := archive, serverAck := none }
        saved := some { l.metadata with acknowledgedArchive := archive, serverAck := none } }

theorem Rebind.ok {archive : String} (hr : Rebind l archive l') (h : l.Ok) : l'.Ok := by
  cases hr with
  | save ha hv =>
    exact
      { h with
        placed := fun g hg => (h.placed g hg).congr rfl rfl rfl
        saved := by
          rintro m hm; cases hm
          exact ⟨hv, h.agent, Nat.le_refl _, h.unknown,
            fun g hg => (h.placed g hg).congr rfl rfl rfl, fun _ hc => hc⟩ }
  | adopt ha hv =>
    exact
      { h with
        valid := hv
        active_unacked := by simp
        placed := fun g hg => (h.placed g hg).congr rfl rfl rfl
        saved := by
          rintro m hm; cases hm
          exact ⟨hv, h.agent, Nat.le_refl _, h.unknown,
            fun g hg => (h.placed g hg).congr rfl rfl rfl, fun _ hc => hc⟩ }

/-! ## Runs of steps -/

inductive Steps : Log o → List DecodedFrame → Log o → Prop where
  | refl (l : Log o) : Steps l [] l
  | cons {l l' l'' : Log o} {new new' : List DecodedFrame} : Step l new l' → Steps l' new' l'' →
      Steps l (new ++ new') l''

namespace Steps

theorem single (h : Step l new l') : Steps l new l' := by
  simpa using Steps.cons h (.refl l')

theorem trans {l'' : Log o} {new' : List DecodedFrame} (h : Steps l new l')
    (h' : Steps l' new' l'') : Steps l (new ++ new') l'' := by
  induction h with
  | refl l => simpa using h'
  | cons hs _ ih => rw [append_assoc]; exact .cons hs (ih h')

theorem snoc {l'' : Log o} (h : Steps l new l') (h' : Step l' [] l'') : Steps l new l'' := by
  simpa using h.trans (single h')

theorem ok (hs : Steps l new l') (h : l.Ok) : l'.Ok := by
  induction hs with
  | refl l => exact h
  | cons hs _ ih => exact ih (hs.ok h)

end Steps

/-! ## What is dropped is accounted for -/

def Accounted (m : Metadata) (c : Cursor) : Prop :=
  (∃ a, m.serverAck = some a ∧ c ≤ a) ∨ Gapped m.gaps c

theorem Released.accounted (h : Released m p)
    {f : DecodedFrame} (hf : f ∈ p.frames) : Accounted m f.cursor := by
  rcases h with ⟨a, ha, hle⟩ | ⟨g, hg, hcov⟩
  · exact .inl ⟨a, ha, le_trans (p.le_last hf) hle⟩
  · exact .inr ⟨g, hg, hcov.contains hf⟩

theorem Step.accounted_mono (hs : Step l new l') (h : l.Ok)
    (hc : Accounted l.metadata c) : Accounted l'.metadata c := by
  cases hs with
  | ack _ hlt _ =>
    rcases hc with ⟨a, ha, hle⟩ | hg
    · exact .inl ⟨_, rfl, le_trans hle (le_of_lt (hlt a ha))⟩
    · exact .inr hg
  | gap hs _ =>
    rcases hc with ha | hg
    · exact .inl ha
    · exact .inr ((h.gapped_withGap hs _).mpr (.inl hg))
  | fsync | create | write | save | sealing | unlink | receipts | temps | background => exact hc

theorem Step.frames_eq (hs : Step l new l') :
    ∃ dropped, l.frames ++ new = dropped ++ l'.frames ∧
      ∀ f ∈ dropped, Accounted l.metadata f.cursor := by
  cases hs with
  | unlink hs hr =>
    refine ⟨_, ?_, fun f hf => hr.accounted hf⟩
    simp [frames, pieces, hs]
  | write hc hf ha _ _ =>
    exact ⟨[], by simp [frames, pieces, wrote, ha, Piece.snoc], by simp⟩
  | sealing ha _ _ _ | fsync ha => exact ⟨[], by simp [frames, pieces, ha], by simp⟩
  | create now ha _ => exact ⟨[], by simp [frames, pieces, ha, Piece.fresh], by simp⟩
  | save | ack | gap | receipts | temps | background =>
    exact ⟨[], by simp [frames, pieces], by simp⟩

namespace Steps

theorem accounted_mono (hs : Steps l new l') (h : l.Ok) (hc : Accounted l.metadata c) :
    Accounted l'.metadata c := by
  induction hs with
  | refl l => exact hc
  | cons hs _ ih => exact ih (hs.ok h) (hs.accounted_mono h hc)

theorem frames_eq (hs : Steps l new l') (h : l.Ok) :
    ∃ dropped, l.frames ++ new = dropped ++ l'.frames ∧
      ∀ f ∈ dropped, Accounted l'.metadata f.cursor := by
  induction hs with
  | refl l => exact ⟨[], by simp, by simp⟩
  | cons hs hrest ih =>
    obtain ⟨d, hd, hacc⟩ := hs.frames_eq
    obtain ⟨d', hd', hacc'⟩ := ih (hs.ok h)
    refine ⟨d ++ d', ?_, ?_⟩
    · rw [← append_assoc, hd, append_assoc, hd', append_assoc]
    refine forall_mem_append.mpr ⟨fun f hf => ?_, hacc'⟩
    exact hrest.accounted_mono (hs.ok h) (hs.accounted_mono h (hacc f hf))

end Steps

end DockLattice.Wal
