import DockLattice.Wal.Types

/-!
# DockLattice.Wal.Meta

The coverage metadata: what `validateMetadata` accepts, how a new gap is merged into the recorded
ones (`mergeGap`), and when a missing range counts as explained (`rangeExplained`).

* `validateMetadata_ok`: the checks of the source, as the structure `Metadata.Valid`.
-/

namespace DockLattice.Wal

variable {m : Metadata}

/-! ## validateMetadata -/

def cursorProblem (m : Metadata) (name : String) : Option Cursor → Option String
  | none => none
  | some c =>
    if c.incarnation = 0 ∨ c.seq = 0 ∨ c.incarnation > m.currentIncarnation then
      some ("invalid " ++ name ++ " cursor")
    else none

def exceeds (c : Option Cursor) (last : Cursor) : Bool :=
  match c with
  | none => false
  | some c => compareCursor c last > 0

def assignmentProblem (m : Metadata) : Option String :=
  match m.lastAssigned with
  | none =>
    if m.durableThrough.isSome ∨ m.serverAck.isSome ∨ m.nextSeq ≠ 1 then
      some "cursor state exists without a last-assigned cursor"
    else none
  | some last =>
    if last.incarnation = m.currentIncarnation ∧
        (last.seq = maxUint64 ∨ m.nextSeq ≠ last.seq + 1) then
      some "next sequence does not follow last assigned"
    else if last.incarnation ≠ m.currentIncarnation ∧ m.nextSeq ≠ 1 then
      some "new incarnation must begin at sequence one"
    else if exceeds m.durableThrough last ∨ exceeds m.serverAck last then
      some "durable or ACK cursor exceeds last assigned"
    else none

/-- `sort.SliceIsSorted` for `<`. -/
def sliceIsSorted : List Nat → Bool
  | [] => true
  | [_] => true
  | a :: b :: rest => decide (a ≤ b) && sliceIsSorted (b :: rest)

def unknownProblem (m : Metadata) : Option Nat → List Nat → Option String
  | _, [] => none
  | previous, incarnation :: rest =>
    if incarnation = 0 ∨ incarnation > m.currentIncarnation ∨ previous = some incarnation then
      some "invalid coverage-unknown incarnation"
    else unknownProblem m (some incarnation) rest

def gapProblem (m : Metadata) (previous : Option Gap) (gap : Gap) : Option String :=
  if gap.incarnation = 0 ∨ gap.incarnation > m.currentIncarnation ∨ gap.fromSeq = 0 ∨
      gap.untilSeq ≤ gap.fromSeq ∨ gap.lastLossRevision = 0 ∨
      gap.lastLossRevision > m.coverageRevision then
    some "invalid coverage gap"
  else if previous.any fun p => gap.incarnation < p.incarnation ||
      (gap.incarnation == p.incarnation && gap.fromSeq < p.untilSeq) then
    some "coverage gaps overlap or are unsorted"
  else if previous.any fun p => gap.incarnation == p.incarnation && gap.fromSeq == p.untilSeq &&
      gap.reason == p.reason && gap.precision == p.precision then
    some "adjacent equivalent coverage gaps are not canonicalized"
  else if m.coverageUnknownIncarnations.find? (fun u => decide (u ≥ gap.incarnation)) =
      some gap.incarnation then
    some "gap duplicates a coverage-unknown incarnation"
  else none

def gapsProblem (m : Metadata) : Option Gap → List Gap → Option String
  | _, [] => none
  | previous, gap :: rest =>
    match gapProblem m previous gap with
    | some message => some message
    | none => gapsProblem m (some gap) rest

def coverageProblem (m : Metadata) : Option String :=
  if m.coverageRevision = 0 ∧ (m.gaps ≠ [] ∨ m.coverageUnknownIncarnations ≠ []) then
    some "coverage loss exists at revision zero"
  else if ¬ sliceIsSorted m.coverageUnknownIncarnations then
    some "coverage-unknown incarnations are not sorted"
  else
    match unknownProblem m none m.coverageUnknownIncarnations with
    | some message => some message
    | none => gapsProblem m none m.gaps

def metadataProblem (m : Metadata) : Option String :=
  if m.version ≠ metadataVersion ∨ m.agentId = "" ∨ m.currentIncarnation = 0 ∨ m.nextSeq = 0 then
    some "invalid metadata identity, incarnation, or next sequence"
  else
    [cursorProblem m "last assigned" m.lastAssigned,
      cursorProblem m "durable through" m.durableThrough, cursorProblem m "server ACK" m.serverAck,
      assignmentProblem m, if m.serverAck.isSome ∧ m.acknowledgedArchive = "" then
        some "server ACK exists without acknowledged archive" else none,
      coverageProblem m].findSome? id

def validateMetadata (m : Metadata) : Except WalError Unit :=
  match metadataProblem m with
  | some message => .error (.invariant message)
  | none => .ok ()

/-! ## mergeGap -/

/-- Not after `b` in the order `mergeGap` sorts by. -/
def gapLe (a b : Gap) : Prop :=
  a.incarnation < b.incarnation ∨ (a.incarnation = b.incarnation ∧ a.fromSeq ≤ b.fromSeq)

instance : DecidableRel gapLe := fun a b => by unfold gapLe; infer_instance

def joins (last gap : Gap) : Bool :=
  last.incarnation == gap.incarnation && last.reason == gap.reason &&
    last.precision == gap.precision && decide (gap.fromSeq ≤ last.untilSeq)

def join (last gap : Gap) : Gap :=
  { last with
    untilSeq := if gap.untilSeq > last.untilSeq then gap.untilSeq else last.untilSeq
    lastLossRevision :=
      if gap.lastLossRevision > last.lastLossRevision then gap.lastLossRevision
      else last.lastLossRevision }

def foldGaps (last : Gap) : List Gap → List Gap
  | [] => [last]
  | gap :: rest =>
    if joins last gap then foldGaps (join last gap) rest else last :: foldGaps gap rest

def mergeGap (gaps : List Gap) (incoming : Gap) : List Gap :=
  match (gaps ++ [incoming]).insertionSort gapLe with
  | [] => []
  | gap :: rest => foldGaps gap rest

/-! ## rangeExplained -/

def gapsExplain (incarnation untilSeq : Nat) : Nat → List Gap → Bool
  | _, [] => false
  | fromSeq, gap :: gaps =>
    if gap.incarnation ≠ incarnation ∨ gap.untilSeq ≤ fromSeq ∨ gap.fromSeq > fromSeq then
      gapsExplain incarnation untilSeq fromSeq gaps
    else if gap.untilSeq ≥ untilSeq then true
    else gapsExplain incarnation untilSeq gap.untilSeq gaps

def rangeExplained (m : Metadata) (incarnation fromSeq untilSeq : Nat) : Bool :=
  if fromSeq ≥ untilSeq then true
  else if m.coverageUnknownIncarnations.contains incarnation then true
  else
    match m.serverAck with
    | none => gapsExplain incarnation untilSeq fromSeq m.gaps
    | some ack =>
      if ack.incarnation > incarnation then true
      else if ack.incarnation = incarnation ∧ ack.seq ≥ fromSeq then
        if ack.seq = maxUint64 ∨ ack.seq + 1 ≥ untilSeq then true
        else gapsExplain incarnation untilSeq (ack.seq + 1) m.gaps
      else gapsExplain incarnation untilSeq fromSeq m.gaps

/-! ## What the checks mean -/

def CursorOk (m : Metadata) (c : Cursor) : Prop :=
  0 < c.incarnation ∧ 0 < c.seq ∧ c.incarnation ≤ m.currentIncarnation

structure GapOk (currentIncarnation coverageRevision : Nat) (unknown : List Nat) (g : Gap) :
    Prop where
  incarnation_pos : 0 < g.incarnation
  incarnation_le : g.incarnation ≤ currentIncarnation
  from_pos : 0 < g.fromSeq
  from_lt : g.fromSeq < g.untilSeq
  revision_pos : 0 < g.lastLossRevision
  revision_le : g.lastLossRevision ≤ coverageRevision
  not_unknown : unknown.find? (fun u => decide (u ≥ g.incarnation)) ≠ some g.incarnation

/-- `g` may stand right after `p` in the recorded list. -/
structure Follows (p g : Gap) : Prop where
  after : p.incarnation < g.incarnation ∨
    (p.incarnation = g.incarnation ∧ p.untilSeq ≤ g.fromSeq)
  apart : ¬ (g.incarnation = p.incarnation ∧ g.fromSeq = p.untilSeq ∧ g.reason = p.reason ∧
    g.precision = p.precision)

structure GapsOk (currentIncarnation coverageRevision : Nat) (unknown : List Nat)
    (gaps : List Gap) : Prop where
  each : ∀ g ∈ gaps, GapOk currentIncarnation coverageRevision unknown g
  chain : gaps.IsChain Follows

structure Assigned (m : Metadata) : Prop where
  none_fresh : m.lastAssigned = none →
    m.durableThrough = none ∧ m.serverAck = none ∧ m.nextSeq = 1
  current : ∀ last, m.lastAssigned = some last → last.incarnation = m.currentIncarnation →
    last.seq ≠ maxUint64 ∧ m.nextSeq = last.seq + 1
  older : ∀ last, m.lastAssigned = some last → last.incarnation ≠ m.currentIncarnation →
    m.nextSeq = 1
  durable_le : ∀ last c, m.lastAssigned = some last → m.durableThrough = some c → c ≤ last
  ack_le : ∀ last c, m.lastAssigned = some last → m.serverAck = some c → c ≤ last

structure Metadata.Valid (m : Metadata) : Prop where
  version : m.version = metadataVersion
  agent : m.agentId ≠ ""
  incarnation_pos : 0 < m.currentIncarnation
  next_pos : 0 < m.nextSeq
  last_ok : ∀ c, m.lastAssigned = some c → CursorOk m c
  durable_ok : ∀ c, m.durableThrough = some c → CursorOk m c
  ack_ok : ∀ c, m.serverAck = some c → CursorOk m c
  assigned : Assigned m
  archive : m.serverAck ≠ none → m.acknowledgedArchive ≠ ""
  revision : m.coverageRevision = 0 → m.gaps = [] ∧ m.coverageUnknownIncarnations = []
  unknown_sorted : sliceIsSorted m.coverageUnknownIncarnations = true
  unknown_ok : unknownProblem m none m.coverageUnknownIncarnations = none
  gaps_ok : GapsOk m.currentIncarnation m.coverageRevision m.coverageUnknownIncarnations m.gaps

theorem cursorProblem_eq_none {name : String} {c : Option Cursor} :
    cursorProblem m name c = none ↔ ∀ x, c = some x → CursorOk m x := by
  cases c with
  | none => simp [cursorProblem]
  | some c =>
    simp only [cursorProblem, CursorOk, Option.some.injEq, forall_eq']
    split <;> simp <;> omega

theorem exceeds_eq_false {c : Option Cursor} {last : Cursor} :
    exceeds c last = false ↔ ∀ x, c = some x → x ≤ last := by
  cases c with
  | none => simp [exceeds]
  | some c => simp [exceeds, not_lt]

theorem assignmentProblem_eq_none : assignmentProblem m = none ↔ Assigned m := by
  unfold assignmentProblem
  cases hl : m.lastAssigned with
  | none =>
    constructor
    · intro h
      have h' : m.durableThrough = none ∧ m.serverAck = none ∧ m.nextSeq = 1 := by
        simpa using h
      exact ⟨fun _ => h', by simp [hl], by simp [hl], by simp [hl], by simp [hl]⟩
    · intro h
      obtain ⟨hd, ha, hn⟩ := h.none_fresh hl
      simp [hd, ha, hn]
  | some last =>
    constructor
    · intro h
      dsimp only at h
      split at h
      · cases h
      rename_i h1
      split at h
      · cases h
      rename_i h2
      split at h
      · cases h
      rename_i h3
      simp only [not_or, Bool.not_eq_true, exceeds_eq_false] at h3
      refine ⟨by simp [hl], ?_, ?_, ?_, ?_⟩
      · intro l hl' hi; rw [hl] at hl'; cases hl'
        exact ⟨by omega, by omega⟩
      · intro l hl' hi; rw [hl] at hl'; cases hl'
        omega
      · intro l c hl' hc; rw [hl] at hl'; cases hl'; exact h3.1 c hc
      · intro l c hl' hc; rw [hl] at hl'; cases hl'; exact h3.2 c hc
    · intro h
      have h1 := h.current last hl
      have h2 := h.older last hl
      have h3 : exceeds m.durableThrough last = false :=
        exceeds_eq_false.mpr fun c hc => h.durable_le last c hl hc
      have h4 : exceeds m.serverAck last = false :=
        exceeds_eq_false.mpr fun c hc => h.ack_le last c hl hc
      dsimp only
      rw [if_neg (by rintro ⟨hi, hc⟩; have := h1 hi; omega),
        if_neg (by rintro ⟨hi, hc⟩; exact hc (h2 hi)), if_neg (by simp [h3, h4])]

theorem unknownProblem_congr {m' : Metadata} (h : m.currentIncarnation = m'.currentIncarnation)
    (previous : Option Nat) (unknown : List Nat) :
    unknownProblem m previous unknown = unknownProblem m' previous unknown := by
  induction unknown generalizing previous with
  | nil => rfl
  | cons u us ih => simp only [unknownProblem, h, ih]

theorem Metadata.Valid.unknown_of {m' : Metadata} (h : m.Valid)
    (hc : m'.currentIncarnation = m.currentIncarnation)
    (hu : m'.coverageUnknownIncarnations = m.coverageUnknownIncarnations) :
    unknownProblem m' none m'.coverageUnknownIncarnations = none := by
  rw [hu, unknownProblem_congr hc]; exact h.unknown_ok

theorem gapProblem_eq_none {previous : Option Gap} {g : Gap} :
    gapProblem m previous g = none ↔
      GapOk m.currentIncarnation m.coverageRevision m.coverageUnknownIncarnations g ∧
        ∀ p, previous = some p → Follows p g := by
  unfold gapProblem
  constructor
  · intro h
    split at h
    · cases h
    rename_i h1
    split at h
    · cases h
    rename_i h2
    split at h
    · cases h
    rename_i h3
    split at h
    · cases h
    rename_i h4
    refine ⟨⟨by omega, by omega, by omega, by omega, by omega, by omega, h4⟩, ?_⟩
    rintro p rfl
    simp at h2 h3
    refine ⟨?_, ?_⟩
    · by_cases hi : g.incarnation = p.incarnation
      · exact .inr ⟨hi.symm, h2.2 hi⟩
      · exact .inl (by omega)
    · rintro ⟨ha, hb, hc, hd⟩; exact h3 ha hb hc hd
  · rintro ⟨ok, hf⟩
    rw [if_neg (by have := ok.1; have := ok.2; have := ok.3; have := ok.4; have := ok.5
                   have := ok.6; omega)]
    cases previous with
    | none => simp [ok.not_unknown]
    | some p =>
      obtain ⟨ha, hb⟩ := hf p rfl
      rw [if_neg, if_neg, if_neg ok.not_unknown]
      · simp only [Option.any_some, Bool.and_eq_true, beq_iff_eq]
        rintro ⟨⟨⟨h1, h2⟩, h3⟩, h4⟩; exact hb ⟨h1, h2, h3, h4⟩
      · simp only [Option.any_some, Bool.or_eq_true, Bool.and_eq_true, beq_iff_eq,
          decide_eq_true_eq]
        omega

theorem gapsProblem_eq_none {previous : Option Gap} {gaps : List Gap} :
    gapsProblem m previous gaps = none ↔
      (∀ g ∈ gaps, GapOk m.currentIncarnation m.coverageRevision m.coverageUnknownIncarnations g) ∧
        (previous.toList ++ gaps).IsChain Follows := by
  induction gaps generalizing previous with
  | nil =>
    cases previous <;> simp [gapsProblem]
  | cons g gs ih =>
    simp only [gapsProblem]
    cases hp : gapProblem m previous g with
    | some message =>
      have hne : ¬ gapProblem m previous g = none := by rw [hp]; simp
      rw [gapProblem_eq_none] at hne
      constructor
      · intro h; cases h
      rintro ⟨hall, hch⟩
      refine absurd ⟨hall g List.mem_cons_self, ?_⟩ hne
      rintro p rfl
      simp only [Option.toList_some, List.cons_append, List.nil_append,
        List.isChain_cons_cons] at hch
      exact hch.1
    | none =>
      obtain ⟨hg, hf⟩ := gapProblem_eq_none.mp hp
      dsimp only
      rw [ih]
      cases previous with
      | none => simp [hg]
      | some p =>
        have := hf p rfl
        simp [hg, this]

theorem metadataProblem_eq_none : metadataProblem m = none ↔ m.Valid := by
  unfold metadataProblem
  constructor
  · intro h
    split at h
    · cases h
    rename_i h0
    simp only [List.findSome?_eq_none_iff, id_eq, List.forall_mem_cons] at h
    obtain ⟨h1, h2, h3, h4, h5, h6, -⟩ := h
    unfold coverageProblem at h6
    split at h6
    · cases h6
    rename_i h7
    split at h6
    · cases h6
    rename_i h8
    cases hu : unknownProblem m none m.coverageUnknownIncarnations with
    | some message => rw [hu] at h6; cases h6
    | none =>
      rw [hu] at h6
      obtain ⟨h9, h10⟩ := gapsProblem_eq_none.mp h6
      refine ⟨?_, ?_, by omega, by omega, cursorProblem_eq_none.mp h1,
        cursorProblem_eq_none.mp h2, cursorProblem_eq_none.mp h3,
        assignmentProblem_eq_none.mp h4, ?_, ?_, by simpa using h8, hu, ⟨h9, by simpa using h10⟩⟩
      · exact Decidable.not_not.mp fun hv => h0 (.inl hv)
      · exact fun ha => h0 (.inr (.inl ha))
      · intro hs ha
        have : m.serverAck.isSome = true := Option.isSome_iff_ne_none.mpr hs
        simp [this, ha] at h5
      · intro hr
        constructor
        · exact Decidable.not_not.mp fun hg => h7 ⟨hr, .inl hg⟩
        · exact Decidable.not_not.mp fun hg => h7 ⟨hr, .inr hg⟩
  · intro h
    rw [if_neg (by
      have := h.incarnation_pos
      have := h.next_pos
      rintro (h' | h' | h' | h')
      · exact h' h.version
      · exact h.agent h'
      · omega
      · omega)]
    rw [cursorProblem_eq_none.mpr h.last_ok, cursorProblem_eq_none.mpr h.durable_ok,
      cursorProblem_eq_none.mpr h.ack_ok, assignmentProblem_eq_none.mpr h.assigned]
    have harch : ¬ (m.serverAck.isSome = true ∧ m.acknowledgedArchive = "") := by
      rintro ⟨hs, ha⟩
      exact h.archive (Option.isSome_iff_ne_none.mp hs) ha
    rw [if_neg harch]
    have hgaps := (@gapsProblem_eq_none m none m.gaps).mpr
      ⟨h.gaps_ok.each, by simpa using h.gaps_ok.chain⟩
    have hrev : ¬ (m.coverageRevision = 0 ∧ (m.gaps ≠ [] ∨ m.coverageUnknownIncarnations ≠ [])) := by
      rintro ⟨hr, hg | hu⟩
      · exact hg (h.revision hr).1
      · exact hu (h.revision hr).2
    have hcov : coverageProblem m = none := by
      unfold coverageProblem
      rw [if_neg hrev, if_neg (by simp [h.unknown_sorted]), h.unknown_ok]
      exact hgaps
    rw [hcov]
    rfl

theorem validateMetadata_ok : validateMetadata m = .ok () ↔ m.Valid := by
  rw [← metadataProblem_eq_none]
  unfold validateMetadata
  cases metadataProblem m <;> simp

end DockLattice.Wal
