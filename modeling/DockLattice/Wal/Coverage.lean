import DockLattice.Wal.Meta

/-!
# DockLattice.Wal.Coverage

Recorded gaps as sets of cursors. Deletion is oldest-first, so merging only ever touches the last gap
(`mergeGap_eq_pushGap`), and the walk over the recorded gaps decides exactly whether every missing
cursor is acknowledged, in a gap, or in an incarnation without coverage (`rangeExplained_iff`).
-/

namespace DockLattice.Wal

open List

variable {c : Cursor} {cur fromSeq incarnation rev untilSeq : Nat} {g gap last p : Gap}
  {gaps : List Gap} {unknown : List Nat}

/-! ## Gaps as sets -/

def Gap.Contains (g : Gap) (c : Cursor) : Prop :=
  g.incarnation = c.incarnation ∧ g.fromSeq ≤ c.seq ∧ c.seq < g.untilSeq

instance (g : Gap) (c : Cursor) : Decidable (g.Contains c) := by
  unfold Gap.Contains; infer_instance

def Gapped (gaps : List Gap) (c : Cursor) : Prop := ∃ g ∈ gaps, g.Contains c

instance (gaps : List Gap) (c : Cursor) : Decidable (Gapped gaps c) := by
  unfold Gapped; infer_instance

/-- Why `c` may be missing from the segments. -/
def Covered (m : Metadata) (c : Cursor) : Prop :=
  c.incarnation ∈ m.coverageUnknownIncarnations ∨ (∃ ack, m.serverAck = some ack ∧ c ≤ ack) ∨
    Gapped m.gaps c

/-- All of `p` lies before all of `g`. -/
def Before (p g : Gap) : Prop :=
  p.incarnation < g.incarnation ∨ (p.incarnation = g.incarnation ∧ p.untilSeq ≤ g.fromSeq)

theorem GapsOk.pairwise (h : GapsOk cur rev unknown gaps) : gaps.Pairwise Before := by
  obtain ⟨each, chain⟩ := h
  induction gaps with
  | nil => exact .nil
  | cons g gs ih =>
    have hgs : gs.Pairwise Before :=
      ih (fun x hx => each x (mem_cons_of_mem _ hx)) chain.tail
    refine pairwise_cons.mpr ⟨?_, hgs⟩
    cases gs with
    | nil => intro x hx; cases hx
    | cons k ks =>
      have hgk : Before g k := (isChain_cons_cons.mp chain).1.after
      intro x hx
      rcases mem_cons.mp hx with rfl | hx
      · exact hgk
      have hkx := (pairwise_cons.mp hgs).1 x hx
      have hk := (each k (by simp)).from_lt
      unfold Before at *
      omega

/-! ## Merging at the end -/

/-- Append `gap`, joining it with the last recorded gap where they touch for the same reason. -/
def pushGap : List Gap → Gap → List Gap
  | [], gap => [gap]
  | [last], gap => if joins last gap then [join last gap] else [last, gap]
  | first :: second :: rest, gap => first :: pushGap (second :: rest) gap

theorem Follows.not_joins (h : Follows p g) : joins p g = false := by
  rw [Bool.eq_false_iff]
  intro hj
  simp only [joins, Bool.and_eq_true, beq_iff_eq, decide_eq_true_eq] at hj
  have := h.after
  exact h.apart ⟨by omega, by omega, hj.1.1.2.symm, hj.1.2.symm⟩

theorem foldGaps_append (h : (last :: gaps).IsChain Follows) (gap : Gap) :
    foldGaps last (gaps ++ [gap]) = pushGap (last :: gaps) gap := by
  induction gaps generalizing last with
  | nil =>
    simp only [nil_append, foldGaps, pushGap]
  | cons g gs ih =>
    have hlg := (isChain_cons_cons.mp h).1
    simp only [cons_append, foldGaps, hlg.not_joins, Bool.false_eq_true, if_false, pushGap]
    rw [ih h.tail]

theorem gapLe_of_before (hp : p.fromSeq < p.untilSeq) (h : Before p g) : gapLe p g := by
  unfold Before at h; unfold gapLe; omega

theorem mergeGap_eq_pushGap (h : GapsOk cur rev unknown gaps) (hle : ∀ g ∈ gaps, gapLe g gap) :
    mergeGap gaps gap = pushGap gaps gap := by
  have hsorted : (gaps ++ [gap]).Pairwise gapLe := by
    rw [pairwise_append]
    refine ⟨?_, by simp, by simpa using hle⟩
    exact h.pairwise.imp_of_mem fun {a b} ha _ hab => gapLe_of_before (h.each a ha).from_lt hab
  unfold mergeGap
  rw [hsorted.insertionSort_eq]
  cases gaps with
  | nil => simp [foldGaps, pushGap]
  | cons g gs => exact foldGaps_append h.chain gap

theorem gapped_cons : Gapped (g :: gaps) c ↔ g.Contains c ∨ Gapped gaps c := by
  unfold Gapped; simp

theorem join_contains (hj : joins last gap = true) (hf : last.fromSeq ≤ gap.fromSeq) :
    (join last gap).Contains c ↔ last.Contains c ∨ gap.Contains c := by
  simp only [joins, Bool.and_eq_true, beq_iff_eq, decide_eq_true_eq] at hj
  simp only [join, Gap.Contains]
  split <;> omega

theorem gapped_pushGap (hle : ∀ g ∈ gaps, gapLe g gap) :
    Gapped (pushGap gaps gap) c ↔ Gapped gaps c ∨ gap.Contains c := by
  induction gaps with
  | nil => simp [pushGap, Gapped]
  | cons g gs ih =>
    cases gs with
    | nil =>
      simp only [pushGap]
      split
      · rename_i hj
        have hle' := hle g (by simp)
        have hinc : g.incarnation = gap.incarnation := by
          simp only [joins, Bool.and_eq_true, beq_iff_eq] at hj; exact hj.1.1.1
        rw [gapped_cons, join_contains hj (by unfold gapLe at hle'; omega)]
        simp [Gapped]
      · simp [Gapped]
    | cons k ks =>
      simp only [pushGap]
      rw [gapped_cons, ih (fun x hx => hle x (mem_cons_of_mem _ hx)), gapped_cons (g := g),
        or_assoc]

/-- A new gap either lies behind every recorded one, or continues the last one for the same
reason. -/
def Pushable (gaps : List Gap) (gap : Gap) : Prop :=
  ∀ last, gaps.getLast? = some last →
    Before last gap ∨ (joins last gap = true ∧ last.fromSeq ≤ gap.fromSeq)

theorem GapOk.mono {cur' rev' : Nat} (h : GapOk cur rev unknown g) (hc : cur ≤ cur')
    (hr : rev ≤ rev') :
    GapOk cur' rev' unknown g :=
  ⟨h.1, by have := h.2; omega, h.3, h.4, h.5, by have := h.6; omega, h.7⟩

theorem GapsOk.mono {cur' rev' : Nat} (h : GapsOk cur rev unknown gaps) (hc : cur ≤ cur')
    (hr : rev ≤ rev') :
    GapsOk cur' rev' unknown gaps :=
  ⟨fun g hg => (h.each g hg).mono hc hr, h.chain⟩

theorem GapOk.join (hl : GapOk cur rev unknown last) (hg : GapOk cur rev unknown gap) :
    GapOk cur rev unknown (join last gap) := by
  have h4 := hl.from_lt
  have h5 := hl.revision_pos
  have h6 := hl.revision_le
  have h7 := hg.revision_le
  refine ⟨hl.1, hl.2, hl.3, ?_, ?_, ?_, hl.7⟩ <;> simp only [Wal.join] <;> split <;> omega

theorem join_follows (h : Follows p last) : Follows p (join last gap) :=
  ⟨h.after, h.apart⟩

theorem follows_of_before (h : Before p g) (hj : joins p g = false) : Follows p g := by
  refine ⟨h, ?_⟩
  rintro ⟨hi, hf, hr, hp⟩
  have : joins p g = true := by simp [joins, hi, hr, hp, hf]
  rw [this] at hj; cases hj

theorem GapsOk.push (h : GapsOk cur rev unknown gaps) (hg : GapOk cur rev unknown gap)
    (hp : Pushable gaps gap) : GapsOk cur rev unknown (pushGap gaps gap) := by
  obtain ⟨each, chain⟩ := h
  induction gaps with
  | nil => exact ⟨by simpa [pushGap] using hg, by simp [pushGap]⟩
  | cons g gs ih =>
    cases gs with
    | nil =>
      simp only [pushGap]
      have hgl := each g (by simp)
      split
      · exact ⟨by simpa using hgl.join hg, by simp⟩
      rename_i hj
      have hj' : joins g gap = false := by simpa using hj
      rcases hp g (by simp) with hb | ⟨hjt, -⟩
      · exact ⟨by simp [hgl, hg], by simpa using follows_of_before hb hj'⟩
      · rw [hj'] at hjt; cases hjt
    | cons k ks =>
      have hrest := ih (fun last hl => hp last (by simpa [getLast?_cons_cons] using hl))
        (fun x hx => each x (mem_cons_of_mem _ hx)) chain.tail
      have hgk := (isChain_cons_cons.mp chain).1
      simp only [pushGap]
      refine ⟨?_, ?_⟩
      · exact forall_mem_cons.mpr ⟨each _ (by simp), hrest.each⟩
      -- the head of the rest keeps its start, so `g` may still stand before it
      cases ks with
      | nil =>
        simp only [pushGap] at hrest ⊢
        split
        · simpa using join_follows hgk
        · rename_i hj
          rw [if_neg hj] at hrest
          exact isChain_cons_cons.mpr ⟨hgk, hrest.chain⟩
      | cons l ls =>
        exact isChain_cons_cons.mpr ⟨hgk, hrest.chain⟩

/-! ## Explained ranges -/

theorem gapped_of_gapsExplain (h : gapsExplain incarnation untilSeq fromSeq gaps = true) :
    ∀ q, fromSeq ≤ q → q < untilSeq → Gapped gaps ⟨incarnation, q⟩ := by
  induction gaps generalizing fromSeq with
  | nil => simp [gapsExplain] at h
  | cons g gs ih =>
    intro q hq hu
    simp only [gapsExplain] at h
    rw [gapped_cons]
    split at h
    · exact .inr (ih h q hq hu)
    rename_i hg
    split at h
    · exact .inl ⟨by simp; omega, by simp; omega, by simp; omega⟩
    · by_cases hqg : q < g.untilSeq
      · exact .inl ⟨by simp; omega, by simp; omega, by simpa using hqg⟩
      · exact .inr (ih h q (by omega) hu)

theorem gapsExplain_iff (hsorted : gaps.Pairwise Before) (hne : fromSeq < untilSeq) :
    gapsExplain incarnation untilSeq fromSeq gaps = true ↔
      ∀ q, fromSeq ≤ q → q < untilSeq → Gapped gaps ⟨incarnation, q⟩ := by
  refine ⟨gapped_of_gapsExplain, fun h => ?_⟩
  induction gaps generalizing fromSeq with
  | nil => obtain ⟨g, hg, -⟩ := h fromSeq (Nat.le_refl _) hne; cases hg
  | cons g gs ih =>
    obtain ⟨hfirst, hrest⟩ := pairwise_cons.mp hsorted
    simp only [gapsExplain]
    split
    · rename_i hskip
      refine ih hrest hne fun q hq hu => ?_
      rcases gapped_cons.mp (h q hq hu) with hc | hc
      · -- `g` starts past `fromSeq`, and so do all later gaps: nothing covers `fromSeq`
        obtain ⟨k, hk, hkc⟩ := h fromSeq (Nat.le_refl _) hne
        simp only [Gap.Contains] at hc hkc
        rcases mem_cons.mp hk with rfl | hk
        · omega
        · have := hfirst k hk
          unfold Before at this
          omega
      · exact hc
    · rename_i htake
      split
      · rfl
      refine ih hrest (by omega) fun q hq hu => ?_
      rcases gapped_cons.mp (h q (by omega) hu) with hc | hc
      · simp only [Gap.Contains] at hc; omega
      · exact hc

theorem rangeExplained_iff {m : Metadata} (hsorted : m.gaps.Pairwise Before)
    (hu : untilSeq ≤ maxUint64 + 1) :
    rangeExplained m incarnation fromSeq untilSeq = true ↔
      ∀ q, fromSeq ≤ q → q < untilSeq → Covered m ⟨incarnation, q⟩ := by
  unfold rangeExplained
  by_cases h0 : fromSeq ≥ untilSeq
  · simp only [h0, if_true, true_iff]; intro q h1 h2; omega
  rw [if_neg h0]
  by_cases hun : m.coverageUnknownIncarnations.contains incarnation = true
  · simp only [hun, if_true, true_iff]
    exact fun q _ _ => .inl (by simpa using hun)
  rw [if_neg hun]
  have hun' : incarnation ∉ m.coverageUnknownIncarnations := by simpa using hun
  cases hack : m.serverAck with
  | none =>
    have hcov : ∀ q, Covered m ⟨incarnation, q⟩ ↔ Gapped m.gaps ⟨incarnation, q⟩ := by
      intro q; simp [Covered, hack, hun']
    simp only [hcov, gapsExplain_iff hsorted (Nat.not_le.mp h0)]
  | some ack =>
    have hcov : ∀ q, Covered m ⟨incarnation, q⟩ ↔
        (⟨incarnation, q⟩ : Cursor) ≤ ack ∨ Gapped m.gaps ⟨incarnation, q⟩ := by
      intro q; simp [Covered, hack, hun']
    dsimp only
    split
    · rename_i hi
      simp only [true_iff]
      intro q _ _; rw [hcov]; exact .inl (.inl hi)
    split
    · rename_i hi
      split
      · simp only [true_iff]
        intro q h1 h2; rw [hcov]
        exact .inl (.inr ⟨hi.1.symm, by simp only; omega⟩)
      rw [gapsExplain_iff hsorted (by omega)]
      constructor
      · intro h q h1 h2
        rw [hcov]
        by_cases hq : q ≤ ack.seq
        · exact .inl (.inr ⟨hi.1.symm, hq⟩)
        · exact .inr (h q (by omega) h2)
      · intro h q h1 h2
        refine ((hcov q).mp (h q (by omega) h2)).resolve_left ?_
        simp only [Cursor.le_def]
        omega
    · rw [gapsExplain_iff hsorted (by omega)]
      refine forall₃_congr fun q h1 _ => ?_
      rw [hcov, or_iff_right]
      simp only [Cursor.le_def]
      omega

end DockLattice.Wal
