import DockLattice.Wal.Sim

/-!
# DockLattice.Wal.SimOps

The operations of the WAL as runs of the journal, one lemma for each function of the source. The
error postconditions say what can make a function fail: a fault of the environment, a segment that
was opened and never written (`Log.Phantom`), or a gap that would have to be recorded twice for
different reasons (`Log.Mismatch`).
-/

namespace DockLattice.Wal

open Bytes Effect List Log

variable {o : Options} {G : Fault → Prop} {W : List DecodedFrame → Prop}
variable {f : DecodedFrame} {l : Log o} {p : Piece o.maxBytes} {rest : List (Piece o.maxBytes)}

namespace Log

/-- The open piece holds no frame: the write that should have followed its creation failed. -/
def Phantom (l : Log o) : Prop := ∃ p, l.active = some p ∧ p.frames = []

/-- The journal after `syncLocked` sealed `p`. -/
def flushed (l : Log o) (p : Piece o.maxBytes) : Log o :=
  { l with
    metadata := { l.metadata with durableThrough := some p.last }
    saved := some { l.metadata with durableThrough := some p.last }
    sealed := l.sealed ++ [p.sync]
    active := none }

theorem Ok.sealing_valid (h : l.Ok) (ha : l.active = some p) :
    { l.metadata with durableThrough := some p.last : Metadata }.Valid ↔ p.frames ≠ [] := by
  constructor
  · rintro hv hne
    have hlast : p.last = l.next := by
      rw [← h.active_next p ha]; simp [Piece.last, Piece.next, hne]
    cases hl : l.metadata.lastAssigned with
    | none => exact absurd (hv.assigned.none_fresh hl).1 (by simp)
    | some c =>
      have hle := hv.assigned.durable_le c p.last hl rfl
      rw [hlast] at hle
      exact lt_irrefl _ (lt_of_le_of_lt hle (h.valid.next_gt hl))
  intro hne
  have hlast := h.active_last ha hne
  have hpos := p.key_pos hne
  refine
    { h.valid with
      durable_ok := ?_
      assigned := ⟨by simp [hlast], h.valid.assigned.current, h.valid.assigned.older, ?_,
        h.valid.assigned.ack_le⟩
      unknown_ok := h.valid.unknown_of rfl rfl }
  · rintro c hc; cases hc
    exact ⟨hpos.1, by rw [Piece.last_seq]; omega, Nat.le_of_eq (h.active_incarnation ha)⟩
  · rintro last c hl hc; cases hc
    simp only [hlast, Option.some.injEq] at hl
    exact hl ▸ le_refl _

end Log

/-! ## syncLocked -/

theorem syncLocked_runs (hok : Env G W) (h : l.Ok) :
    Runs G W l syncLocked
      (fun _ n m => n = [] ∧ ((l.active = none ∧ m = l) ∨
        ∃ p, l.active = some p ∧ p.frames ≠ [] ∧ m = l.flushed p))
      (fun e n m => n = [] ∧ (¬ l.Phantom → ¬ m.Phantom) ∧
        (IoError G e ∨ (l.Phantom ∧ e.isInvariant = true))) := by
  unfold syncLocked
  refine Runs.get ?_
  cases ha : l.active with
  | none =>
    simp only [toState, wal, ha, Option.map_none]
    exact Runs.pure ⟨rfl, .inl ⟨trivial, rfl⟩⟩
  | some p =>
    simp only [toState, wal, ha, Option.map_some]
    have hfs : Step l [] { l with active := some p.sync } := .fsync ha
    have h₁ := hfs.ok h
    have hphantom : l.Phantom ↔ p.frames = [] := by simp [Log.Phantom, ha]
    refine Runs.bind (Q := fun _ n m => n = [] ∧ m = { l with active := some p.sync })
      (Runs.wrapping ?_) ?_
    · -- forcing the file
      refine (Runs.atomically hok (.single hfs)
        (disk_modify (q := p.sync) (g := .sync) h ha rfl rfl) (by simp [wal, bytes, pieces, ha])).failing ?_
      rintro e n m - ⟨rfl, rfl, hf, hi⟩
      exact ⟨rfl, id, .inl ⟨hf, hi⟩⟩
    rintro _ n m - ⟨rfl, rfl⟩
    let l₁ : Log o := { l with active := some p.sync }
    let d : Metadata := { l.metadata with durableThrough := some p.last }
    have hd : d.Valid ↔ p.frames ≠ [] := h.sealing_valid ha
    have hprop : p.frames ≠ [] → Proposes l₁ d := fun hne =>
      Proposes.sealing (p := p.sync) rfl rfl hne
    have hsave : d.Valid → Steps l₁ [] (l₁.withSaved d) := fun hv =>
      .single (.save (hprop (hd.mp hv)) hv)
    have hseal : d.Valid → Steps l₁ [] (l.flushed p) := fun hv =>
      (hsave hv).snoc (Step.sealing (l := l₁.withSaved d) (p := p.sync) rfl rfl (hd.mp hv) rfl)
    refine Spec.bind (Q := fun _ s => d.Valid ∧ s = ((l₁.withSaved d).withMetadata d).toState)
      ((updateMetadata_spec (l := l₁) (m := d) (d := d) (.wrapped _) hok.ok
        (fun w hw => ?_) (fun e => rfl)).weaken (fun _ h => h) (fun _ _ h => h) ?_ ?_) fun _ => ?_
    · simp only [saveMetadataLocked, Bind.bind, Prog.bind, Prog.get, hw]; rfl
    · rintro e s (⟨hv, hf, hi, rfl | rfl⟩ | ⟨hv, hi, rfl⟩)
      · exact ⟨[], l₁, .refl _, ⟨rfl, by simp [Log.Phantom, l₁, ha], .inl ⟨hf, hi⟩⟩, rfl⟩
      · exact ⟨[], _, hsave hv, ⟨rfl, by simp [Log.Phantom, l₁, ha, withSaved], .inl ⟨hf, hi⟩⟩, rfl⟩
      · refine ⟨[], l₁, .refl _, ⟨rfl, by simp [Log.Phantom, l₁, ha], .inr ⟨?_, hi⟩⟩, rfl⟩
        rw [hphantom]
        exact Decidable.not_not.mp fun hne => hv (hd.mpr hne)
    · rintro s (hs | ⟨hv, hs⟩ | ⟨n, hs⟩)
      · rw [hs]; exact Left.of_steps hok.nil (.refl l₁)
      · rw [hs]; exact Left.of_steps hok.nil (hsave hv)
      · rw [hs]; exact Left.of_steps hok.nil (.single (.temps _))
    -- sealing in memory, then closing the file
    refine Spec.bind (Q := fun _ s => d.Valid ∧ s = (l.flushed p).toState)
      (Spec.modify ?_) fun _ => ?_
    · rintro s ⟨hv, rfl⟩
      refine ⟨hv, ?_⟩
      simp [toState, flushed, withMetadata, withSaved, disk, wal, l₁, d,
        pieces, WAL.sealActive, WAL.segments, bytes]
    · refine Spec.of_state ?_
      rintro _ ⟨hv, rfl⟩
      refine Runs.lift (hseal hv) (Runs.wrapping ((Runs.touch hok).weaken ?_ ?_))
      · rintro _ n m - ⟨rfl, rfl⟩
        exact ⟨rfl, .inr ⟨p, rfl, hd.mp hv, rfl⟩⟩
      · rintro e n m - ⟨rfl, rfl, hf, hi⟩
        exact ⟨rfl, by simp [Log.Phantom, flushed], .inl ⟨hf, hi⟩⟩

/-! ## Deleting the oldest segment -/

theorem deleteSegmentLocked_runs (hok : Env G W) (h : l.Ok) (hs : l.sealed = p :: rest)
    (hr : Released l.metadata p) :
    Runs G W l (deleteSegmentLocked p.segment)
      (fun _ n m => n = [] ∧ m = { l with sealed := rest })
      (fun e n m => n = [] ∧ (m = l ∨ m = { l with sealed := rest }) ∧ Faulty G ∧
        e.isInvariant = false) := by
  let l₁ : Log o := { l with sealed := rest }
  have hstep : Steps l [] l₁ := .single (.unlink hs hr)
  have hfile := file?_of_mem h (p := p) (by simp [pieces, hs])
  have hdisk := disk_unlink h hs
  unfold deleteSegmentLocked
  refine Runs.get ?_
  rw [if_neg (by simp [toState, pieces, hs])]
  refine Spec.bind (Q := fun _ s => s = ⟨l₁.disk, l.wal⟩) ?_ fun _ => ?_
  · unfold removeSegment
    refine Spec.read ?_
    simp only [toState, Piece.segment_first, hfile]
    refine atomically_spec hok.ok hdisk (fun e he => ?_)
      (Left.of_steps hok.nil (.refl l)) (Left.of_steps hok.nil hstep)
    exact ⟨[], l, .refl l, ⟨rfl, .inl rfl, he⟩, rfl⟩
  · refine Spec.bind (Q := fun _ s => s = l₁.toState) (Spec.modify ?_) fun _ => ?_
    · rintro s rfl
      simp [toState, wal, l₁, hs, bytes, pieces]
    · refine Runs.lift hstep ((Runs.touch hok).weaken ?_ ?_)
      · rintro _ n m - ⟨rfl, rfl⟩; exact ⟨rfl, rfl⟩
      · rintro e n m - ⟨rfl, rfl, hf, hi⟩; exact ⟨rfl, .inr rfl, hf, hi⟩

/-! ## Recording the gap first -/

namespace Log

def Mismatch (l : Log o) (r : GapReason) : Prop :=
  ∃ p rest g, l.sealed = p :: rest ∧ g ∈ l.metadata.gaps ∧ g.Covers p ∧ g.reason ≠ r

end Log

theorem Piece.bytes_pos {max : Nat} {p : Piece max} : 0 < p.bytes ↔ p.frames ≠ [] := by
  unfold Piece.bytes
  cases p.frames with
  | nil => simp
  | cons f fs =>
    rw [encodeAll_cons, length_append, DecodedFrame.length_encode, DecodedFrame.bytes]
    simp only [ne_eq, reduceCtorEq, not_false_eq_true, iff_true]
    omega

def laterOf (durable : Option Cursor) (c : Cursor) : Cursor :=
  match durable with
  | none => c
  | some d => if d < c then c else d

theorem Log.durable_idle {m : Metadata} (h : ∀ p, l.active = some p → p.frames = []) :
    l.durable m = m := by
  unfold durable durableMetadata
  cases ha : l.active with
  | none => simp [wal, ha]
  | some p => simp [wal, ha, Piece.bytes, h p ha]

theorem Log.durable_open {m : Metadata} {a q : Piece o.maxBytes} (ha : l.active = some a)
    (hne : a.frames ≠ []) (hq : l.sealed.getLast? = some q) :
    l.durable m = { m with
      nextSeq := a.key.seq, lastAssigned := some (laterOf m.durableThrough q.last) } := by
  have hpos := Piece.bytes_pos.mpr hne
  unfold durable durableMetadata
  simp only [wal, ha, Option.map_some, getLast?_map, hq, Piece.segment_first, laterOf]
  rw [if_pos hpos]
  cases m.durableThrough with
  | none => rfl
  | some d =>
    simp only [compareCursor_gt_zero, Piece.segment_last]
    by_cases hlt : d < q.last
    · rw [if_pos hlt, if_pos hlt]
    · rw [if_neg hlt, if_neg hlt]

namespace Log.Ok

variable {r : GapReason}

theorem gapFor_ok (h : l.Ok) (hs : l.sealed = p :: rest) :
    GapOk l.metadata.currentIncarnation (l.metadata.coverageRevision + 1)
      l.metadata.coverageUnknownIncarnations (l.gapFor p r) := by
  have hmem : p ∈ l.sealed := by simp [hs]
  obtain ⟨hi, -, hsq⟩ := p.key_pos (h.nonempty p hmem)
  have hlt := h.sealed_lt_next hmem
  simp only [Cursor.lt_def, Piece.last_incarnation, next] at hlt
  refine ⟨hi, ?_, hsq, ?_, Nat.succ_pos _, Nat.le_refl _, by simp [h.unknown]⟩
  · simp only [segmentGap, Piece.segment_first]; omega
  · simp only [segmentGap, Piece.segment_first, Piece.segment_last, Piece.last_seq]; omega

theorem pushable (h : l.Ok) (hs : l.sealed = p :: rest) (hm : ¬ l.Mismatch r) :
    Pushable l.metadata.gaps (l.gapFor p r) := by
  intro last hl
  have hmem := mem_of_getLast? hl
  have hplaced := h.placed last hmem
  rcases hplaced.head p (by simp [hs]) with hb | hc
  · left
    simp only [Gap.EndsBefore] at hb
    simp only [Before, segmentGap, Piece.segment_first]
    omega
  · right
    have hreason : last.reason = r :=
      Decidable.not_not.mp fun hne => hm ⟨p, rest, last, hs, hmem, hc, hne⟩
    obtain ⟨h1, h2, h3⟩ := hc
    have hk : p.key.seq ≤ last.untilSeq := by rw [Piece.last_seq] at h3; omega
    refine ⟨?_, h2⟩
    simp [joins, segmentGap, h1, hreason, hplaced.exact, hk]

theorem withGap_valid_of (h : l.Ok) (hs : l.sealed = p :: rest) (hm : ¬ l.Mismatch r) :
    (l.metadata.withGap p.segment r).Valid := by
  have hpush := (h.valid.gaps_ok.mono (Nat.le_refl _)
    (Nat.le_succ l.metadata.coverageRevision)).push (h.gapFor_ok hs) (h.pushable hs hm)
  rw [← h.withGap_gaps hs r] at hpush
  exact h.valid.withGap hpush

theorem first_le (h : l.Ok) (hs : l.sealed = p :: rest) {q : Piece o.maxBytes}
    (hq : q ∈ l.sealed) : p.last ≤ q.last := by
  have hsorted := h.sorted
  simp only [pieces, hs, cons_append, pairwise_cons, mem_append] at hsorted
  rw [hs] at hq
  rcases mem_cons.mp hq with rfl | hq
  · exact le_refl _
  · exact le_of_lt (lt_of_lt_of_le (hsorted.1 q (.inl hq)) q.key_le_last)

theorem open_follows (h : l.Ok) {a q : Piece o.maxBytes} (ha : l.active = some a)
    (hne : a.frames ≠ []) (hlast : l.sealed.getLast? = some q) {c : Cursor}
    (hc : laterOf l.metadata.durableThrough q.last = c) :
    CursorOk l.metadata c ∧
      (c.incarnation = l.metadata.currentIncarnation → c.seq ≠ maxUint64 ∧ a.key.seq = c.seq + 1) ∧
      (c.incarnation ≠ l.metadata.currentIncarnation → a.key.seq = 1) := by
  have hkey := h.active_durable a ha
  have hmax := a.last_seq_lt hne
  have hq := mem_of_getLast? hlast
  obtain ⟨hqi, -, hqs⟩ := q.key_pos (h.nonempty q hq)
  have hqlt := h.sealed_lt_next hq
  have hqd : q.key.incarnation = l.metadata.currentIncarnation →
      l.metadata.durableSeq = q.last.seq := fun hi => by rw [h.last_durable q hlast, if_pos hi]
  have hql : q.last.incarnation = q.key.incarnation := rfl
  simp only [Cursor.lt_def, next] at hqlt
  rw [Piece.last_seq] at hmax
  have hqpos : 0 < q.last.seq := by rw [Piece.last_seq]; omega
  unfold CursorOk
  cases hd : l.metadata.durableThrough with
  | none =>
    have hdur : l.metadata.durableSeq = 0 := by simp [Metadata.durableSeq, hd]
    rw [hd] at hc
    subst hc
    simp only [laterOf]
    omega
  | some d =>
    obtain ⟨hd1, hd2, hd3⟩ := h.valid.durable_ok d hd
    have hdur : l.metadata.durableSeq =
        if d.incarnation = l.metadata.currentIncarnation then d.seq else 0 := by
      simp [Metadata.durableSeq, hd]
    rw [hd] at hc
    simp only [laterOf] at hc
    split at hc
    · rename_i hlt
      subst hc
      simp only [Cursor.lt_def] at hlt
      split at hdur <;> omega
    · rename_i hlt
      subst hc
      split at hdur <;> omega

theorem durable_valid (h : l.Ok) (hs : l.sealed = p :: rest)
    (hack : ∀ a, l.metadata.serverAck = some a → a < p.last) (hm : ¬ l.Mismatch r) :
    (l.durable (l.metadata.withGap p.segment r)).Valid := by
  have hv := h.withGap_valid_of hs hm
  by_cases hph : ∀ a, l.active = some a → a.frames = []
  · rw [durable_idle hph]; exact hv
  simp only [not_forall] at hph
  obtain ⟨a, ha, hne⟩ := hph
  obtain ⟨q, hq⟩ : ∃ q, l.sealed.getLast? = some q := by
    rw [hs]; exact ⟨_, getLast?_eq_some_getLast (by simp)⟩
  have hqmem := mem_of_getLast? hq
  rw [durable_open ha hne hq]
  obtain ⟨hcok, hcur, hold⟩ := h.open_follows ha hne hq rfl
  have hpq : p.last ≤ q.last := h.first_le hs hqmem
  have hqc : q.last ≤ laterOf l.metadata.durableThrough q.last := by
    unfold laterOf
    split
    · exact le_refl _
    · split
      · exact le_refl _
      · rename_i hlt; exact not_lt.mp hlt
  refine
    { hv with
      next_pos := (a.key_pos hne).2.2
      last_ok := by rintro c hc; cases hc; exact hcok
      assigned := ⟨by simp, ?_, ?_, ?_, ?_⟩
      unknown_ok := hv.unknown_of rfl rfl }
  · rintro last hl; cases hl; exact hcur
  · rintro last hl; cases hl; exact hold
  · rintro last c hl hc; cases hl
    change l.metadata.durableThrough = some c at hc
    change c ≤ laterOf l.metadata.durableThrough q.last
    simp only [laterOf, hc]
    split
    · rename_i hlt; exact le_of_lt hlt
    · exact le_refl _
  · rintro last c hl hc; cases hl
    exact le_of_lt (lt_of_lt_of_le (hack c hc) (le_trans hpq hqc))

end Log.Ok

theorem segmentACKed_iff {ack : Option Cursor} :
    segmentACKed p.segment ack = true ↔ ∃ a, ack = some a ∧ p.last ≤ a := by
  cases ack <;> simp [segmentACKed]

theorem not_segmentACKed_iff {ack : Option Cursor} :
    segmentACKed p.segment ack = false ↔ ∀ a, ack = some a → a < p.last := by
  cases ack <;> simp [segmentACKed, not_le]

structure Pruned (l m : Log o) : Prop where
  active : m.active = l.active
  sealed : ∃ pre, l.sealed = pre ++ m.sealed
  metadata : ∃ gaps revision, m.metadata =
    { l.metadata with gaps := gaps, coverageRevision := revision }
  receipts : m.receipts = l.receipts
  backgroundErr : m.backgroundErr = l.backgroundErr

namespace Pruned

variable {m k : Log o}

theorem refl (l : Log o) : Pruned l l := ⟨rfl, ⟨[], rfl⟩, ⟨_, _, rfl⟩, rfl, rfl⟩

section

variable (h : Pruned l m)

include h

theorem trans (h' : Pruned m k) : Pruned l k := by
  obtain ⟨pre, hp⟩ := h.sealed
  obtain ⟨pre', hp'⟩ := h'.sealed
  obtain ⟨_, _, hm⟩ := h.metadata
  obtain ⟨_, _, hm'⟩ := h'.metadata
  exact ⟨h'.active.trans h.active, ⟨pre ++ pre', by rw [hp, hp', append_assoc]⟩, ⟨_, _, by rw [hm',
    hm]⟩, h'.receipts.trans h.receipts, h'.backgroundErr.trans h.backgroundErr⟩

theorem serverAck : m.metadata.serverAck = l.metadata.serverAck := by
  obtain ⟨_, _, hm⟩ := h.metadata; rw [hm]

theorem next : m.next = l.next := by
  obtain ⟨_, _, hm⟩ := h.metadata; simp only [Log.next, hm]

theorem bytes_le : m.bytes ≤ l.bytes := by
  obtain ⟨pre, hp⟩ := h.sealed
  simp only [bytes, pieces, h.active, hp, map_append, sum_append]
  omega

theorem phantom : m.Phantom ↔ l.Phantom := by
  simp only [Log.Phantom, h.active]

end

end Pruned

/-- `p` is gone, and its gap is recorded. -/
def Log.gapped (l : Log o) (p : Piece o.maxBytes) (rest : List (Piece o.maxBytes))
    (r : GapReason) : Log o :=
  { l with
    metadata := l.metadata.withGap p.segment r
    saved := some (l.durable (l.metadata.withGap p.segment r))
    sealed := rest }

def Log.Unacked (l : Log o) : Prop :=
  ∀ p ∈ l.sealed, segmentACKed p.segment l.metadata.serverAck = false

structure Log.Tidy (l : Log o) : Prop where
  unacked : l.Unacked
  clear : ∀ r, ¬ l.Mismatch r
  saved : ∀ m, l.saved = some m →
    m.serverAck = l.metadata.serverAck ∧ m.gaps = l.metadata.gaps

/-- Only a fault, or a segment that was never written, can leave something half done. -/
def Tidies (G : Fault → Prop) (l m : Log o) : Prop :=
  Faulty G ∨ l.Phantom ∨ (l.Tidy → m.Tidy)

theorem Tidies.refl (l : Log o) : Tidies G l l := .inr (.inr id)

theorem Tidies.trans {m k : Log o} (h : Tidies G l m) (hp : ¬ l.Phantom → ¬ m.Phantom)
    (h' : Tidies G m k) : Tidies G l k := by
  rcases h with h | h | h
  · exact .inl h
  · exact .inr (.inl h)
  rcases h' with h' | h' | h'
  · exact .inl h'
  · exact .inr (.inl (Classical.not_not.mp fun hl => hp hl h'))
  · exact .inr (.inr fun ht => h' (h ht))

theorem Tidies.of_mismatch {m : Log o} {r : GapReason} (h : l.Mismatch r) : Tidies G l m :=
  .inr (.inr fun ht => absurd h (ht.clear r))

theorem deleteWithGapLocked_runs (hok : Env G W) (h : l.Ok) (hs : l.sealed = p :: rest)
    (hack : segmentACKed p.segment l.metadata.serverAck = false) (r : GapReason) :
    Runs G W l (deleteWithGapLocked p.segment r) (fun _ n m => n = [] ∧ m = l.gapped p rest r)
      (fun e n m => n = [] ∧ Pruned l m ∧
        (IoError G e ∨ (l.Mismatch r ∧ e.isInvariant = true))) := by
  rw [not_segmentACKed_iff] at hack
  have hlast := p.last_seq_lt (h.nonempty p (by simp [hs]))
  let m' := l.metadata.withGap p.segment r
  let d := l.durable m'
  let l₁ := (l.withSaved d).withMetadata m'
  have hadopt : d.Valid → Step (l.withSaved d) [] l₁ := fun _ =>
    Step.gap (l := l.withSaved d) (p := p) (r := r) hs rfl
  have hprop : Proposes l d := .gap hs hack
  unfold deleteWithGapLocked
  rw [if_neg (by simp only [Piece.segment_last]; omega)]
  refine Runs.get ?_
  refine Runs.bind (Q := fun _ n m => n = [] ∧ d.Valid ∧ m = l₁)
    ((Runs.update (m := m') (d := d) (.wrapped _) hok (fun w hw => ?_) (fun _ => rfl) hprop
      hadopt).failing ?_) ?_
  · simp only [saveMetadataDurableLocked, Bind.bind, Prog.bind, Prog.get, hw]; rfl
  · rintro e n m - ⟨rfl, ⟨hv, hf, hi, rfl | rfl⟩ | ⟨hv, hi, rfl⟩⟩
    · exact ⟨rfl, .refl _, .inl ⟨hf, hi⟩⟩
    · exact ⟨rfl, ⟨rfl, ⟨[], rfl⟩, ⟨_, _, rfl⟩, rfl, rfl⟩, .inl ⟨hf, hi⟩⟩
    · refine ⟨rfl, .refl _, .inr ⟨?_, hi⟩⟩
      exact Classical.not_not.mp fun hm => hv (h.durable_valid hs hack hm)
  rintro _ n m hsteps ⟨rfl, hv, rfl⟩
  have h₁ := hsteps.ok h
  have hrel : Released l₁.metadata p := by
    right
    have hcov : ∀ g ∈ (l.metadata.withGap p.segment r).gaps, l.Placed g := h.withGap_placed hs r
    obtain ⟨f, hf, hfk⟩ := p.exists_first (h.nonempty p (by simp [hs]))
    obtain ⟨g, hg, hgc⟩ := (h.gapped_withGap hs r).mpr
      (.inr ((covers_gapFor l p r).contains hf))
    refine ⟨g, hg, ?_⟩
    rcases (hcov g hg).head p (by simp [hs]) with hb | hc
    · exact absurd (hgc.lt_of_endsBefore hb) (by rw [hfk]; exact lt_irrefl _)
    · exact hc
  refine (deleteSegmentLocked_runs hok h₁ (p := p) hs hrel).weaken ?_ ?_
  · rintro _ n m - ⟨rfl, rfl⟩; exact ⟨rfl, rfl⟩
  rintro e n m - ⟨rfl, hm, hf, hi⟩
  refine ⟨rfl, ?_, .inl ⟨hf, hi⟩⟩
  rcases hm with rfl | rfl
  · exact ⟨rfl, ⟨[], rfl⟩, ⟨_, _, rfl⟩, rfl, rfl⟩
  · exact ⟨rfl, ⟨[p], by simp [hs]⟩, ⟨_, _, rfl⟩, rfl, rfl⟩

/-! ## Deleting from the front -/

theorem Log.Ok.clear {m : Log o} (h : l.Ok) (hs : l.sealed = p :: rest) (hm : m.sealed = rest)
    (hgaps : ∀ g ∈ m.metadata.gaps, l.Placed g) (r : GapReason) : ¬ m.Mismatch r := by
  rintro ⟨q, rest', g, hs', hg, hcov, -⟩
  have hq : q ∈ l.sealed.tail := by simp [hs, ← hm, hs']
  obtain ⟨f, hf, -⟩ := q.exists_first (h.nonempty q (mem_of_mem_tail hq))
  have hb := (hgaps g hg).tail q hq
  exact lt_irrefl _
    (lt_of_le_of_lt (q.key_le hf) ((hcov.contains hf).lt_of_endsBefore hb))

theorem Log.Tidy.unlinked (ht : l.Tidy) (h : l.Ok) (hs : l.sealed = p :: rest) :
    Log.Tidy { l with sealed := rest } :=
  ⟨fun q hq => ht.unacked q (by rw [hs]; exact mem_cons_of_mem _ hq),
    h.clear hs rfl h.placed, ht.saved⟩

theorem Log.Tidy.gapped (ht : l.Tidy) (h : l.Ok) (hs : l.sealed = p :: rest) (r : GapReason) :
    (l.gapped p rest r).Tidy := by
  refine ⟨fun q hq => ht.unacked q (by rw [hs]; exact mem_cons_of_mem _ hq),
    h.clear hs rfl (h.withGap_placed hs r), fun m hm => ?_⟩
  obtain rfl : l.durable (l.metadata.withGap p.segment r) = m := by
    simpa [Log.gapped] using hm
  simp [Log.gapped]

theorem ackLoop_runs (hok : Env G W) {due : WAL → Nat → Segment → Bool}
    (hdue : ∀ w freed seg, due w freed seg = true → segmentACKed seg w.metadata.serverAck = true)
    (h : l.Ok) (freed : Nat) :
    Runs G W l (deleteWhile due deleteSegmentLocked (l.sealed.map Piece.segment) freed)
      (fun _ n m => n = [] ∧ Pruned l m ∧ m = { l with sealed := m.sealed } ∧
        (l.Tidy → m.Tidy) ∧
        (∀ p, m.sealed.head? = some p → ∃ freed, due m.wal freed p.segment = false) ∧
        (m = l ∨ ((∃ p, l.sealed.head? = some p ∧ due l.wal freed p.segment = true) ∧
          ∀ r, ¬ m.Mismatch r)))
      (fun e n m => n = [] ∧ Pruned l m ∧ IoError G e) := by
  generalize hseg : l.sealed = ps
  induction ps generalizing l freed with
  | nil => exact Runs.pure ⟨rfl, .refl l, rfl, id, by simp [hseg], .inl rfl⟩
  | cons p rest ih =>
    simp only [map_cons, deleteWhile]
    refine Runs.get ?_
    cases hc : due l.wal freed p.segment with
    | false =>
      simp only [toState, hc, Bool.false_eq_true, if_false]
      refine Runs.pure ⟨rfl, .refl l, rfl, id, fun q hq => ⟨freed, ?_⟩, .inl rfl⟩
      rw [hseg, head?_cons, Option.some.injEq] at hq
      exact hq ▸ hc
    | true =>
      simp only [toState, hc, if_true]
      have hrel : Released l.metadata p := .inl (segmentACKed_iff.mp (hdue _ _ _ hc))
      have hpr : Pruned l { l with sealed := rest } :=
        ⟨rfl, ⟨[p], by simp [hseg]⟩, ⟨_, _, rfl⟩, rfl, rfl⟩
      refine Runs.bind (Q := fun _ n m => n = [] ∧ m = { l with sealed := rest })
        ((deleteSegmentLocked_runs hok h hseg hrel).failing ?_) ?_
      · rintro e n m - ⟨rfl, rfl | rfl, hf, hi⟩
        · exact ⟨rfl, .refl _, hf, hi⟩
        · exact ⟨rfl, hpr, hf, hi⟩
      rintro _ n m hsteps ⟨rfl, rfl⟩
      refine (ih (hsteps.ok h) (freed + p.segment.bytes) rfl).weaken ?_ ?_
      · rintro _ n m - ⟨rfl, hpm, heq, htidy, hhead, hclear⟩
        refine ⟨rfl, hpr.trans hpm, heq, fun ht => htidy (ht.unlinked h hseg), hhead,
          .inr ⟨⟨p, by simp, hc⟩, ?_⟩⟩
        rcases hclear with rfl | ⟨-, hclear⟩
        · exact h.clear hseg rfl h.placed
        · exact hclear
      · rintro e n m - ⟨rfl, hpm, hf, hi⟩
        exact ⟨rfl, hpr.trans hpm, hf, hi⟩

theorem gapLoop_runs (hok : Env G W) {due : WAL → Nat → Segment → Bool} {r : GapReason} (h : l.Ok)
    (freed : Nat)
    (hun : ∀ (m : Log o) freed p, p ∈ l.sealed → m.metadata.serverAck = l.metadata.serverAck → due m.wal freed p.segment = true → segmentACKed p.segment m.metadata.serverAck = false) :
    Runs G W l (deleteWhile due (deleteWithGapLocked · r) (l.sealed.map Piece.segment) freed)
      (fun _ n m => n = [] ∧ Pruned l m ∧ (l.Tidy → m.Tidy) ∧
        (∀ p, m.sealed.head? = some p → ∃ freed, due m.wal freed p.segment = false) ∧
        ((∀ p, l.sealed.head? = some p → due l.wal freed p.segment = false) → m = l))
      (fun e n m => n = [] ∧ Pruned l m ∧ (IoError G e ∨
        (l.Mismatch r ∧ e.isInvariant = true ∧
          ∀ p, l.sealed.head? = some p → due l.wal freed p.segment = true))) := by
  generalize hseg : l.sealed = ps
  induction ps generalizing l freed with
  | nil => exact Runs.pure ⟨rfl, .refl l, id, by simp [hseg], fun _ => rfl⟩
  | cons p rest ih =>
    simp only [map_cons, deleteWhile]
    refine Runs.get ?_
    cases hc : due l.wal freed p.segment with
    | false =>
      simp only [toState, hc, Bool.false_eq_true, if_false]
      refine Runs.pure ⟨rfl, .refl l, id, fun q hq => ⟨freed, ?_⟩, fun _ => rfl⟩
      rw [hseg, head?_cons, Option.some.injEq] at hq
      exact hq ▸ hc
    | true =>
      simp only [toState, hc, if_true]
      have hack := hun l freed p (by simp [hseg]) rfl hc
      have hpr : Pruned l (l.gapped p rest r) :=
        ⟨rfl, ⟨[p], by simp [hseg, gapped]⟩, ⟨_, _, rfl⟩, rfl, rfl⟩
      refine Runs.bind (Q := fun _ n m => n = [] ∧ m = l.gapped p rest r)
        ((deleteWithGapLocked_runs hok h hseg hack r).failing ?_) ?_
      · rintro e n m - ⟨rfl, hpm, hf | ⟨hm, hi⟩⟩
        · exact ⟨rfl, hpm, .inl hf⟩
        · exact ⟨rfl, hpm, .inr ⟨hm, hi, by simpa using hc⟩⟩
      rintro _ n m hsteps ⟨rfl, rfl⟩
      have hun' : ∀ (m : Log o) freed q, q ∈ (l.gapped p rest r).sealed →
          m.metadata.serverAck = (l.gapped p rest r).metadata.serverAck →
          due m.wal freed q.segment = true →
          segmentACKed q.segment m.metadata.serverAck = false := fun m freed q hq =>
        hun m freed q (by rw [hseg]; exact mem_cons_of_mem _ hq)
      refine (ih (hsteps.ok h) (freed + p.segment.bytes) hun' rfl).weaken ?_ ?_
      · rintro _ n m - ⟨rfl, hpm, htidy, hhead, -⟩
        refine ⟨rfl, hpr.trans hpm, fun ht => htidy (ht.gapped h hseg r), hhead, fun hnot => ?_⟩
        have := hnot p (by simp)
        rw [hc] at this; cases this
      · rintro e n m - ⟨rfl, hpm, hf | ⟨hm, -⟩⟩
        · exact ⟨rfl, hpr.trans hpm, .inl hf⟩
        · exact absurd hm (h.clear hseg rfl (h.withGap_placed hseg r) r)

theorem Log.Ok.unacked (h : l.Ok)
    (hh : ∀ p, l.sealed.head? = some p → segmentACKed p.segment l.metadata.serverAck = false) :
    ∀ p ∈ l.sealed, segmentACKed p.segment l.metadata.serverAck = false := by
  intro q hq
  cases hs : l.sealed with
  | nil => rw [hs] at hq; cases hq
  | cons p rest =>
    have hp := not_segmentACKed_iff.mp (hh p (by simp [hs]))
    exact not_segmentACKed_iff.mpr fun a ha => lt_of_lt_of_le (hp a ha) (h.first_le hs hq)

theorem deleteACKedLocked_runs (hok : Env G W) (h : l.Ok) :
    Runs G W l deleteACKedLocked
      (fun _ n m => n = [] ∧ Pruned l m ∧ m = { l with sealed := m.sealed } ∧
        (l.Tidy → m.Tidy) ∧ m.Unacked ∧ (m = l ∨ ((∃ p, l.sealed.head? = some p ∧
          segmentACKed p.segment l.metadata.serverAck = true) ∧ ∀ r, ¬ m.Mismatch r)))
      (fun e n m => n = [] ∧ Pruned l m ∧ IoError G e) := by
  unfold deleteACKedLocked
  refine Runs.get ((ackLoop_runs hok (fun _ _ _ hd => hd) h 0).weaken ?_ fun _ _ _ _ he => he)
  rintro _ n m hsteps ⟨rfl, hpr, heq, htidy, hhead, hclear⟩
  exact ⟨rfl, hpr, heq, htidy,
    (hsteps.ok h).unacked fun p hp => (hhead p hp).elim fun _ hd => hd, hclear⟩

def Log.Expires (l : Log o) (now : Instant) (incoming : Nat) : Prop :=
  ∀ p, l.sealed.head? = some p → segmentACKed p.segment l.metadata.serverAck = false ∧
    expired l.wal (cutoffAt o now) incoming p.segment = true

def Log.Settled (l : Log o) (now : Instant) (incoming : Nat) : Prop :=
  ∀ p, l.sealed.head? = some p → segmentACKed p.segment l.metadata.serverAck = false ∧
    expired l.wal (cutoffAt o now) incoming p.segment = false

theorem enforceRetentionLocked_runs (hok : Env G W) (h : l.Ok) (now : Instant) (incoming : Nat) :
    Runs G W l (enforceRetentionLocked now incoming)
      (fun _ n m => n = [] ∧ Pruned l m ∧ (l.Tidy → m.Tidy) ∧ m.Settled now incoming ∧
        (l.Settled now incoming → m = l))
      (fun e n m => n = [] ∧ Pruned l m ∧ (IoError G e ∨
        (l.Mismatch .retention ∧ e.isInvariant = true ∧ l.Expires now incoming))) := by
  unfold enforceRetentionLocked
  refine Runs.bind ((deleteACKedLocked_runs hok h).failing ?_) ?_
  · rintro e n m - ⟨rfl, hpr, hf, hi⟩
    exact ⟨rfl, hpr, .inl ⟨hf, hi⟩⟩
  rintro _ n m hsteps ⟨rfl, hpr, -, htidy, hall, hsame⟩
  have hm := hsteps.ok h
  refine Runs.get ((gapLoop_runs hok hm _ ?_).weaken ?_ ?_)
  · intro k freed p hp hk _; rw [hk]; exact hall p hp
  · rintro _ n k hsteps' ⟨rfl, hpr', htidy', hhead', hsame'⟩
    refine ⟨rfl, hpr.trans hpr', fun ht => htidy' (htidy ht), fun p hp => ⟨?_, (hhead' p hp).elim fun _ hd => hd⟩,
      fun hset => ?_⟩
    · obtain ⟨pre, hpre⟩ := hpr'.sealed
      rw [hpr'.serverAck]
      exact hall p (by rw [hpre]; exact mem_append_right _ (mem_of_mem_head? hp))
    · rcases hsame with rfl | ⟨⟨p, hp, hacked⟩, -⟩
      · exact hsame' fun p hp => (hset p hp).2
      · rw [(hset p hp).1] at hacked
        cases hacked
  · rintro e n k - ⟨rfl, hpr', hf | ⟨⟨p, rest, g, hs, hg, hcov, hne⟩, hi, hdue⟩⟩
    · exact ⟨rfl, hpr.trans hpr', .inl hf⟩
    -- a covered piece is still the oldest one: nothing was deleted before it
    refine ⟨rfl, hpr.trans hpr', .inr ?_⟩
    rcases hsame with rfl | ⟨-, hclear⟩
    · exact ⟨⟨p, rest, g, hs, hg, hcov, hne⟩, hi,
        fun q hq => ⟨hall q (mem_of_mem_head? hq), hdue q hq⟩⟩
    · exact absurd ⟨p, rest, g, hs, hg, hcov, hne⟩ (hclear _)

/-! ## Append -/

theorem Log.wal_wrote (ha : l.active = some p) (hc : f.cursor = p.next) (hf : f.Fits o.maxBytes) :
    l.wal.wrote ⟨p.segment, p.bytes⟩ f = (l.wrote p f hc hf).wal := by
  have hlast : (p.snoc f hc hf).last = f.cursor := by
    rw [hc]; simp [Piece.last, Piece.snoc, Piece.next]
  have hnew : (p.snoc f hc hf).newestAt = f.appendedAt := by simp [Piece.newestAt, Piece.snoc]
  have hbytes : (p.snoc f hc hf).bytes = p.bytes + f.bytes := by simp [Piece.bytes, Piece.snoc]
  simp only [WAL.wrote, wal, wrote, Piece.segment, Option.map_some, hlast, hnew, hbytes,
    bytes, pieces, ha, Option.toList_some, map_append, sum_append,
    map_cons, map_nil, sum_cons, sum_nil, WAL.mk.injEq, true_and]
  exact ⟨rfl, by omega, trivial⟩

theorem Log.disk_wrote (h : l.Ok) (ha : l.active = some p) (hc : f.cursor = p.next)
    (hf : f.Fits o.maxBytes) :
    l.disk.modifyFile p.key (.write f.encode) = (l.wrote p f hc hf).disk := by
  rw [disk_modify (q := p.snoc f hc hf) h ha rfl]
  · rfl
  · simp [SegmentFile.write, Piece.file, Piece.content, Piece.snoc, h.active_tail p ha]

theorem Log.disk_torn (h : l.Ok) (ha : l.active = some p) (hf : f.Fits o.maxBytes) {k : Nat}
    (hk : k < f.bytes) :
    l.disk.modifyFile p.key (.write (f.encode.take k)) =
      ({ l with active := some (p.withTail (f.encode.take k) (.inr ⟨f, hf, k, hk, rfl⟩)) } :
        Log o).disk := by
  rw [disk_modify (q := p.withTail (f.encode.take k) (.inr ⟨f, hf, k, hk, rfl⟩)) h ha rfl]
  simp [SegmentFile.write, Piece.file, Piece.content, Piece.withTail, h.active_tail p ha]

theorem writeFrame_runs (hok : Env G W) (hG : ∀ k, G (.torn k) → k = 0) (h : l.Ok)
    (ha : l.active = some p) (hc : f.cursor = p.next) (hf : f.Fits o.maxBytes)
    (hn : l.metadata.nextSeq ≠ maxUint64) (hb : l.bytes + f.bytes ≤ o.maxBytes) {context : String}
    {rest : WalProg Record} {Q : Record → List DecodedFrame → Log o → Prop}
    {E : WalError → List DecodedFrame → Log o → Prop}
    (hE : ∀ e, Faulty G → (∃ k, G (.torn k)) → e.isInvariant = false → E e [] l) (hw : W [f])
    (hrest : Runs G (fun n => W ([f] ++ n)) (l.wrote p f hc hf) rest (fun r n => Q r ([f] ++ n)) (fun e n => E e ([f] ++ n))) :
    Runs G W l (Prog.bind (wrapping context (writeFull p.key f.encode)) fun _ =>
      Prog.bind (Prog.modify fun s => { s with wal := s.wal.wrote ⟨p.segment, p.bytes⟩ f })
        fun _ => rest) Q E := by
  have hstep : Steps l [f] (l.wrote p f hc hf) := .single (.write hc hf ha hn hb)
  refine Spec.bind (Q := fun _ s => s = ⟨(l.wrote p f hc hf).disk, l.wal⟩) ?_ fun _ => ?_
  · refine Spec.attempt (E := fun e s => s = l.toState ∧ Faulty G ∧ (∃ k, G (.torn k)) ∧
      e.isInvariant = false) (Spec.effect hok.ok ?_) fun e => Spec.throw ?_
    · rintro flt s hflt rfl
      have hdone : l.toState.onDisk (·.modifyFile p.key (.write f.encode)) =
          ⟨(l.wrote p f hc hf).disk, l.wal⟩ := by
        simp only [State.onDisk, toState, disk_wrote h ha hc hf]
      cases flt with
      | ok | fail | late => exact hdone
      | torn k =>
        have hk := hG k hflt
        subst hk
        refine ⟨?_, ⟨_, hflt, by simp⟩, ⟨0, hflt⟩, rfl⟩
        simp only [State.onDisk, toState]
        congr 1
        rw [disk_modify (q := p) h ha rfl]
        · cases l; simp_all
        · simp [SegmentFile.write, Piece.file]
      | crash k =>
        refine ⟨?_, k, hflt⟩
        by_cases hk : k < f.bytes
        · exact ⟨[], l, hok.nil, .refl l, .inr ⟨p, _, _, ha, disk_torn h ha hf hk⟩⟩
        · have htake : f.encode.take k = f.encode := take_of_length_le (by simp; omega)
          simp only [htake, hdone]
          exact Left.of_steps hw hstep
    · rintro s ⟨rfl, hflt, ht, hi⟩
      exact ⟨[], l, .refl l, hE _ hflt ht hi, rfl⟩
  · refine Spec.bind (Q := fun _ s => s = (l.wrote p f hc hf).toState) (Spec.modify ?_) fun _ =>
      Runs.lift hstep hrest
    rintro s rfl
    simp only [wal_wrote ha hc hf, toState]

end DockLattice.Wal
