import DockLattice.Wal.SimRecover

/-!
# DockLattice.Wal.SimOpen

`Open` at a new incarnation. Once the segments are scanned the WAL is the journal
`Image.reopened`: every piece sealed, the metadata taken over. The rest of `Open` is a run of steps
from there.
-/

namespace DockLattice.Wal

open Bytes Effect List Piece

variable {o : Options} {G : Fault → Prop} {W : List DecodedFrame → Prop} {agentId : String} {n : Nat} {i : Image o}
  {m : Metadata} {j : Image o}

def Image.adopted (i : Image o) (agentId : String) (n : Nat) : Metadata :=
  match i.saved with
  | none => freshMetadata agentId n
  | some m => m.adopt n

def Image.reopened (i : Image o) (agentId : String) (n : Nat) : Log o where
  agentId := agentId
  metadata := reconcileMetadata (i.adopted agentId n) (i.pieces.map Piece.segment)
  saved := i.saved
  sealed := i.pieces
  active := none
  receipts := i.receipts
  temps := i.temps
  backgroundErr := none

structure Image.Newer (i : Image o) (agentId : String) (n : Nat) : Prop where
  agent : agentId ≠ ""
  pos : 0 < n
  le : n ≤ maxUint64
  newer : ∀ m, i.saved = some m → m.currentIncarnation < n

/-! ## The adopted metadata -/

theorem freshMetadata_valid (ha : agentId ≠ "") (hn : 0 < n) : (freshMetadata agentId n).Valid where
  version := rfl
  agent := ha
  incarnation_pos := hn
  next_pos := Nat.one_pos
  last_ok := by simp [freshMetadata]
  durable_ok := by simp [freshMetadata]
  ack_ok := by simp [freshMetadata]
  assigned := ⟨fun _ => ⟨rfl, rfl, rfl⟩, by simp [freshMetadata], by simp [freshMetadata],
    by simp [freshMetadata], by simp [freshMetadata]⟩
  archive := by simp [freshMetadata]
  revision := fun _ => ⟨rfl, rfl⟩
  unknown_sorted := rfl
  unknown_ok := rfl
  gaps_ok := ⟨by simp [freshMetadata], .nil⟩

theorem Metadata.Valid.adopt (h : m.Valid) (hu : m.coverageUnknownIncarnations = [])
    (hn : m.currentIncarnation < n) : (m.adopt n).Valid := by
  have hne : ∀ c, CursorOk m c → c.incarnation ≠ n := fun c hc => by have := hc.2.2; omega
  have hle : ∀ c, CursorOk m c → 0 < c.incarnation ∧ 0 < c.seq ∧ c.incarnation ≤ n := fun c hc =>
    ⟨hc.1, hc.2.1, by have := hc.2.2; omega⟩
  rw [Metadata.adopt, if_pos hn]
  exact
    { h with
      incarnation_pos := by have := h.incarnation_pos; simp only; omega
      next_pos := Nat.one_pos
      last_ok := fun c hc => hle c (h.last_ok c hc)
      durable_ok := fun c hc => hle c (h.durable_ok c hc)
      ack_ok := fun c hc => hle c (h.ack_ok c hc)
      assigned := ⟨fun hl => ⟨(h.assigned.none_fresh hl).1, (h.assigned.none_fresh hl).2.1, rfl⟩,
        fun c hc hi => absurd hi (hne c (h.last_ok c hc)), fun _ _ _ => rfl,
        h.assigned.durable_le, h.assigned.ack_le⟩
      unknown_ok := by simp [hu, unknownProblem]
      gaps_ok := h.gaps_ok.mono (Nat.le_of_lt hn) (Nat.le_refl _) }

structure Adopted (i : Image o) (agentId : String) (n : Nat) (m : Metadata) : Prop where
  valid : m.Valid
  agent : m.agentId = agentId
  current : m.currentIncarnation = n
  next : m.nextSeq = 1
  unknown : m.coverageUnknownIncarnations = []
  gaps : ∀ g ∈ m.gaps, i.Placed g ∧ g.incarnation < n
  assigned_lt : ∀ c, m.lastAssigned = some c → c.incarnation < n
  durable_lt : ∀ c, m.durableThrough = some c → c.incarnation < n
  pieces_lt : ∀ p ∈ i.pieces, p.key.incarnation < n

theorem Image.Ok.adopted (hi : i.Ok agentId) (hn : i.Newer agentId n) :
    Adopted i agentId n (i.adopted agentId n) := by
  unfold Image.adopted
  cases hs : i.saved with
  | none =>
    have hnil := hi.unsaved hs
    refine ⟨freshMetadata_valid hn.agent hn.pos, rfl, rfl, rfl, rfl, ?_, ?_, ?_, ?_⟩
    · simp [freshMetadata]
    · simp [freshMetadata]
    · simp [freshMetadata]
    · simp [hnil]
  | some m =>
    have hsv := hi.saved m hs
    have hlt := hn.newer m hs
    have had : m.adopt n = { m with currentIncarnation := n, nextSeq := 1 } := if_pos hlt
    have hv := hsv.valid.adopt hsv.unknown hlt
    dsimp only
    rw [had] at hv ⊢
    exact ⟨hv, hsv.agent, rfl, rfl, hsv.unknown, fun g hg => ⟨hsv.placed g hg,
        Nat.lt_of_le_of_lt (hsv.valid.gaps_ok.each g hg).incarnation_le hlt⟩,
      fun c hc => Nat.lt_of_le_of_lt (hsv.valid.last_ok c hc).2.2 hlt,
      fun c hc => Nat.lt_of_le_of_lt (hsv.valid.durable_ok c hc).2.2 hlt,
      fun p hp => Nat.lt_of_le_of_lt (hsv.pieces p hp) hlt⟩

/-! ## Reconciling -/

theorem currentLast_eq_zero {segs : List Segment}
    (h : ∀ seg ∈ segs, seg.last.incarnation ≠ n) : currentLast n segs = 0 := by
  unfold currentLast
  induction segs with
  | nil => rfl
  | cons seg segs ih =>
    rw [foldl_cons, if_neg (fun hc => h seg (by simp) hc.1)]
    exact ih fun s hs => h s (mem_cons_of_mem _ hs)

def assignedWith (last assigned : Option Cursor) : Option Cursor :=
  match last, assigned with
  | none, assigned => assigned
  | some last, none => some last
  | some last, some assigned => if compareCursor last assigned > 0 then some last else some assigned

theorem assignedWith_cases (last assigned : Option Cursor) :
    (last = none ∧ assignedWith last assigned = assigned) ∨
      ∃ c, assignedWith last assigned = some c ∧ (last = some c ∨ assigned = some c) ∧
        (∀ x, last = some x → x ≤ c) ∧ ∀ x, assigned = some x → x ≤ c := by
  cases last with
  | none => exact .inl ⟨rfl, rfl⟩
  | some last =>
    right
    cases assigned with
    | none => exact ⟨last, rfl, .inl rfl, by simp, by simp⟩
    | some c =>
      simp only [assignedWith]
      split
      · rename_i hgt
        rw [gt_iff_lt, compareCursor_gt_zero] at hgt
        exact ⟨last, rfl, .inl rfl, by simp, by simpa using le_of_lt hgt⟩
      · rename_i hle
        rw [gt_iff_lt, compareCursor_gt_zero, not_lt] at hle
        exact ⟨c, rfl, .inr rfl, by simpa using hle, by simp⟩

theorem Adopted.reconcile (h : Adopted i agentId n m) :
    reconcileMetadata m (i.pieces.map segment) =
      { m with lastAssigned := assignedWith (i.pieces.getLast?.map last) m.lastAssigned } := by
  have hzero : currentLast m.currentIncarnation (i.pieces.map segment) = 0 := by
    refine currentLast_eq_zero fun seg hseg => ?_
    obtain ⟨p, hp, rfl⟩ := mem_map.mp hseg
    have := h.pieces_lt p hp
    rw [h.current]
    simp only [segment_last, last_incarnation]
    omega
  have hnext : ¬ 0 ≥ m.nextSeq := by rw [h.next]; omega
  simp only [reconcileMetadata, hzero, if_neg hnext, getLast?_map, Option.map_map]
  rfl

theorem Adopted.reconciled_valid (h : Adopted i agentId n m)
    (hr : ∀ p ∈ i.pieces, p.Readable) :
    { m with lastAssigned :=
        assignedWith (i.pieces.getLast?.map last) m.lastAssigned : Metadata }.Valid := by
  have hv := h.valid
  rcases assignedWith_cases (i.pieces.getLast?.map last) m.lastAssigned with
    ⟨-, heq⟩ | ⟨c, heq, hfrom, -, hle⟩
  · rw [heq]; exact hv
  have hc : CursorOk m c ∧ c.incarnation < n := by
    rcases hfrom with hl | ha
    · obtain ⟨p, hp, rfl⟩ := Option.map_eq_some_iff.mp hl
      have hmem := mem_of_getLast? hp
      have hpos := key_pos (hr p hmem).1
      have hlt := h.pieces_lt p hmem
      have hseq := p.last_seq
      refine ⟨⟨hpos.1, by omega, ?_⟩, hlt⟩
      rw [h.current]; exact Nat.le_of_lt hlt
    · exact ⟨hv.last_ok c ha, h.assigned_lt c ha⟩
  have hold : ∀ x, (∀ old, m.lastAssigned = some old → x ≤ old) →
      m.lastAssigned ≠ none → x ≤ c := by
    intro x hx hne
    obtain ⟨old, hold⟩ := Option.ne_none_iff_exists'.mp hne
    exact le_trans (hx old hold) (hle old hold)
  refine
    { hv with
      last_ok := ?_
      assigned := ⟨by simp [heq], ?_, fun _ _ _ => h.next, ?_, ?_⟩
      unknown_ok := hv.unknown_of rfl rfl }
  · intro x hx
    simp only [heq, Option.some.injEq] at hx
    exact hx ▸ hc.1
  · intro x hx hi
    simp only [heq, Option.some.injEq] at hx
    subst hx
    have := hc.2
    have := h.current
    simp only at hi
    omega
  · intro x d hx hd
    simp only [heq, Option.some.injEq] at hx
    subst hx
    refine hold d (fun old ho => hv.assigned.durable_le old d ho hd) fun hnone => ?_
    have hd' : m.durableThrough = some d := hd
    rw [(hv.assigned.none_fresh hnone).1] at hd'
    cases hd'
  · intro x d hx hd
    simp only [heq, Option.some.injEq] at hx
    subst hx
    refine hold d (fun old ho => hv.assigned.ack_le old d ho hd) fun hnone => ?_
    have hd' : m.serverAck = some d := hd
    rw [(hv.assigned.none_fresh hnone).2.1] at hd'
    cases hd'

/-! ## The reopened journal -/

section

variable (hi : i.Ok agentId)

include hi

theorem Image.Ok.reopened_metadata (hn : i.Newer agentId n) :
    (i.reopened agentId n).metadata =
      { i.adopted agentId n with
        lastAssigned :=
          assignedWith (i.pieces.getLast?.map last) (i.adopted agentId n).lastAssigned } :=
  (hi.adopted hn).reconcile

theorem Image.Ok.last_le {p q : Piece o.maxBytes} (hp : p ∈ i.pieces)
    (hq : i.pieces.getLast? = some q) : p.last ≤ q.last := by
  obtain ⟨older, hsplit⟩ := getLast?_eq_some_iff.mp hq
  have hsorted := hi.sorted
  rw [hsplit] at hp hsorted
  rcases mem_append.mp hp with hp | hp
  · have := (pairwise_append.mp hsorted).2.2 p hp q (by simp)
    exact le_of_lt (lt_of_lt_of_le this q.key_le_last)
  · rw [mem_singleton] at hp
    exact hp ▸ le_refl _

theorem Image.Ok.reopened (hn : i.Newer agentId n)
    (hr : ∀ p ∈ i.pieces, p.Readable) : (i.reopened agentId n).Ok := by
  have had := hi.adopted hn
  have hmeta := hi.reopened_metadata hn
  have hplaced : ∀ g, i.Placed g → g.incarnation < n → (i.reopened agentId n).Placed g := by
    intro g hg hlt
    refine ⟨hg.exact, .inl ?_, by simp [Image.reopened], hg.tail, hg.head⟩
    simp only [Log.next, hmeta, had.current]
    exact hlt
  have hdurable : (i.reopened agentId n).metadata.durableSeq = 0 := by
    rw [hmeta, Metadata.durableSeq]
    simp only [had.current]
    split
    · rfl
    · rename_i d hd
      rw [if_neg (by have := had.durable_lt d hd; omega)]
  refine
    { valid := hmeta ▸ had.reconciled_valid hr
      agent := by rw [hmeta]; exact had.agent
      incarnation_le := by rw [hmeta]; simp only [had.current]; exact hn.le
      next_le := by rw [hmeta]; simp only [had.next]; decide
      unknown := by rw [hmeta]; exact had.unknown
      nonempty := fun p hp => (hr p hp).1
      readable := fun p hp => (hr p hp).2
      active_tail := by simp [Image.reopened]
      active_next := by simp [Image.reopened]
      sorted := by simpa [Log.pieces, Image.reopened] using hi.sorted
      assigned := ?_
      size := by simpa [Log.bytes, Image.bytes, Log.pieces, Image.reopened] using hi.size
      active_unacked := by simp [Image.reopened]
      active_durable := by simp [Image.reopened]
      idle_durable := fun _ => by rw [hdurable, hmeta]; exact had.next
      last_durable := ?_
      placed := ?_
      saved := ?_ }
  · intro p hp
    rw [hmeta]
    rcases assignedWith_cases (i.pieces.getLast?.map last)
      (i.adopted agentId n).lastAssigned with ⟨hnone, -⟩ | ⟨c, heq, -, hle, -⟩
    · have hnil : i.pieces = [] := by simpa using hnone
      have hp' : p ∈ i.pieces := hp
      rw [hnil] at hp'
      cases hp'
    · obtain ⟨q, hq⟩ : ∃ q, i.pieces.getLast? = some q :=
        ⟨_, getLast?_eq_some_getLast (ne_nil_of_mem hp)⟩
      exact ⟨c, heq, le_trans (hi.last_le hp hq) (hle q.last (by rw [hq]; rfl))⟩
  · intro p hp
    have := had.pieces_lt p (mem_of_getLast? hp)
    rw [hdurable, hmeta, if_neg (by simp only [had.current]; omega)]
  · intro g hg
    rw [hmeta] at hg
    exact hplaced g (had.gaps g hg).1 (had.gaps g hg).2
  · intro m hm
    have hs : i.saved = some m := hm
    have hsv := hi.saved m hs
    have hlt := hn.newer m hs
    refine ⟨hsv.valid, hsv.agent, ?_, hsv.unknown, fun g hg => ?_, fun c hc => ?_⟩
    · rw [hmeta]; simp only [had.current]; omega
    · exact hplaced g (hsv.placed g hg)
        (Nat.lt_of_le_of_lt (hsv.valid.gaps_ok.each g hg).incarnation_le hlt)
    · rw [hmeta] at hc
      simpa [Image.adopted, hs, Metadata.adopt, hlt] using hc

theorem Image.Ok.reopened_rooted : (i.reopened agentId n).Rooted := by
  refine ⟨fun m hm p hp => (hi.saved m hm).pieces p ?_, fun hs => ?_⟩
  · simpa [Log.pieces, Image.reopened] using hp
  · simpa [Log.pieces, Image.reopened] using hi.unsaved hs

end

theorem not_overlapping {ps : List (Piece o.maxBytes)} : ∀ (prev : Option (Piece o.maxBytes)),
    (prev.toList ++ ps).Pairwise (fun p q => p.last < q.key) →
    overlapping (prev.map last) (ps.map segment) = false := by
  induction ps with
  | nil => intro prev _; rfl
  | cons p ps ih =>
    intro prev hs
    have hrest := ih (some p) (hs.sublist (sublist_append_right _ _))
    rw [map_cons, overlapping, Bool.or_eq_false_iff]
    refine ⟨?_, hrest⟩
    cases prev with
    | none => rfl
    | some r =>
      have hlt := (pairwise_append.mp hs).2.2 r (by simp) p (by simp)
      simp [compareCursor_le_zero, not_le, hlt]

theorem Image.Ok.loadMetadata (hi : i.Ok agentId) (hn : i.Newer agentId n) :
    loadMetadata i.disk agentId n = .ok (i.adopted agentId n) := by
  unfold Wal.loadMetadata
  rw [hi.readMetadata]
  have had := (hi.adopted hn).valid
  unfold Image.adopted at had ⊢
  cases hs : i.saved with
  | none => rfl
  | some m =>
    rw [hs] at had
    have hlt := hn.newer m hs
    simp only [(hi.saved m hs).identity, Bool.false_eq_true, if_false]
    rw [if_neg (by omega), validateMetadata_ok.mpr had]

/-! ## Open -/

theorem reopen_runs (hok : Env G W) {l : Log o} (h : l.Ok) (ha : l.active = none) (now : Instant) :
    Runs G W l
      (Prog.bind (enforceRetentionLocked now 0) fun _ => Prog.bind Prog.get fun s =>
        wrapping "auditwal: persist recovered metadata" (saveMetadata s.wal.metadata))
      (fun _ n m => n = [] ∧ m.saved = some m.metadata ∧ m.active = none ∧ m.Settled now 0 ∧
        (l.Settled now 0 → m = l.withSaved l.metadata) ∧ m.backgroundErr = l.backgroundErr ∧
        (l.Tidy → m.Tidy))
      (fun e n _ => n = [] ∧ (IoError G e ∨
        (e.isInvariant = true ∧ l.Blocked now 0))) := by
  refine Runs.bind ((enforceRetentionLocked_runs hok h now 0).failing ?_) ?_
  · rintro e n m - ⟨rfl, -, hio | ⟨hm, hi, he⟩⟩
    · exact ⟨rfl, .inl hio⟩
    · exact ⟨rfl, .inr ⟨hi, hm, he⟩⟩
  rintro _ n m hs ⟨rfl, hpr, htidy, hset, hsame⟩
  have hm := hs.ok h
  have hma : m.active = none := hpr.active.trans ha
  have hsave : Steps m [] (m.withSaved m.metadata) := .single (.save (.reopened hma) hm.valid)
  refine Runs.get (Runs.wrapping ((saveMetadata_spec hok.ok m.toState).weaken (fun _ h => h)
    ?_ ?_ ?_))
  · rintro _ s ⟨-, rfl⟩
    refine ⟨[], _, hsave, ⟨rfl, rfl, hma, hset, fun hl => by rw [hsame hl], hpr.backgroundErr,
      fun ht => ⟨(htidy ht).unacked, (htidy ht).clear, ?_⟩⟩, rfl⟩
    rintro d hd; cases hd; exact ⟨rfl, rfl⟩
  · rintro e s (⟨-, hf, hi, rfl | rfl⟩ | ⟨hv, -⟩)
    · exact ⟨[], m, .refl m, ⟨rfl, .inl ⟨hf, hi⟩⟩, rfl⟩
    · exact ⟨[], _, hsave, ⟨rfl, .inl ⟨hf, hi⟩⟩, rfl⟩
    · exact absurd hm.valid hv
  · rintro s (rfl | ⟨-, rfl⟩ | ⟨n, rfl⟩)
    · exact Left.of_steps hok.nil (.refl m)
    · exact Left.of_steps hok.nil hsave
    · exact Left.of_steps hok.nil (m := { m with temps := m.temps ++ [n] }) (.single (.temps _))

structure Mended (i j : Image o) : Prop where
  mends : Mends i j
  readable : ∀ p ∈ j.pieces, p.Readable

theorem Mended.ok (h : Mended i j) (hi : i.Ok agentId) : j.Ok agentId := h.mends.ok hi

theorem Mended.newer (h : Mended i j) (hn : i.Newer agentId n) :
    j.Newer agentId n :=
  ⟨hn.agent, hn.pos, hn.le, fun m hm => hn.newer m (h.mends.saved ▸ hm)⟩

theorem Mended.reopened (h : Mended i j) (hi : i.Ok agentId)
    (hn : i.Newer agentId n) : (j.reopened agentId n).Ok :=
  (h.ok hi).reopened (h.newer hn) h.readable

structure Opened (agentId : String) (n : Nat) (now : Instant) (i j : Image o) (l : Log o) : Prop where
  mended : Mended i j
  steps : Steps (j.reopened agentId n) [] l
  saved : l.saved = some l.metadata
  active : l.active = none
  background : l.backgroundErr = none
  settled : l.Settled now 0
  tidy : (j.reopened agentId n).Tidy → l.Tidy
  same : (j.reopened agentId n).Settled now 0 →
    l = (j.reopened agentId n).withSaved (j.reopened agentId n).metadata

theorem openWAL_spec (hok : Env G W) (hi : i.Ok agentId) (hn : i.Newer agentId n) (now : Instant) :
    Spec G (fun s => s.disk = i.disk) (openWAL agentId n o now)
      (fun _ s => ∃ j l, Opened agentId n now i j l ∧ s = l.toState)
      (fun e s => RecoveryFails G i (i.adopted agentId n) e s.disk ∨
        ∃ j l, Mended i j ∧ Steps (j.reopened agentId n) [] l ∧ s.disk = l.disk ∧
          (IoError G e ∨ (e.isInvariant = true ∧ (j.reopened agentId n).Blocked now 0)))
      (fun s => i.Mending s ∨ ∃ j, Mended i j ∧ Left W (j.reopened agentId n) s.disk) := by
  unfold openWAL
  rw [if_neg (by
    rintro (h | h)
    · exact hn.agent h
    · have := hn.pos; omega)]
  refine Spec.get fun s hs => ?_
  simp only [hs, hi.loadMetadata hn]
  refine Spec.bind (Q := fun _ s => s = ⟨i.disk, .start agentId o (i.adopted agentId n)⟩)
    (Spec.modify fun t ht => by rw [ht, ← hs]) fun _ => ?_
  refine Spec.bind (Q := fun _ s => ∃ j, Mended i j ∧
      s = ⟨j.disk, (WAL.start agentId o (i.adopted agentId n)).holding j.pieces⟩)
    ((recoverSegments_spec hok.ok hi (.inl (hi.adopted hn).valid)).weaken (fun _ h => h) ?_
      (fun _ _ h => .inl h) fun _ h => .inl h) fun _ => ?_
  · rintro _ s ⟨j, hj, hall, rfl⟩; exact ⟨j, ⟨hj, hall⟩, rfl⟩
  refine Spec.bind (Q := fun _ s => ∃ j, Mended i j ∧ s = (j.reopened agentId n).toState)
    ?_ fun _ => Spec.of_state ?_
  · -- reconciling what was found
    unfold reconcileRecoveredState
    refine Spec.get ?_
    rintro s ⟨j, hj, rfl⟩
    have hov : overlapping none (j.pieces.map segment) = false :=
      not_overlapping none (by simpa using (hj.ok hi).sorted)
    simp only [WAL.start_segments, hov, Bool.false_eq_true, if_false]
    refine Spec.modify ?_
    rintro s rfl
    have hadopt : i.adopted agentId n = j.adopted agentId n := by
      simp only [Image.adopted, hj.mends.saved]
    refine ⟨j, hj, ?_⟩
    simp only [State.setMetadata, WAL.start_segments]
    simp only [hadopt, Image.reopened, Log.toState, Log.wal, Log.disk, Log.pieces, Log.bytes,
      Image.disk, WAL.holding, WAL.start, Option.toList_none, append_nil, nil_append,
      Nat.zero_add, Option.map_none]
  · rintro _ ⟨j, hj, rfl⟩
    refine Spec.weaken (reopen_runs hok (hj.reopened hi hn) rfl now) (fun _ h => h) ?_ ?_ ?_
    · rintro _ s ⟨n, l, hs, ⟨rfl, hsv, ha, hset, hsame, hbg, htidy⟩, rfl⟩
      exact ⟨j, l, ⟨hj, hs, hsv, ha, hbg, hset, htidy, hsame⟩, rfl⟩
    · rintro e s ⟨n, l, hs, ⟨rfl, hwhy⟩, rfl⟩
      exact .inr ⟨j, l, hj, hs, rfl, hwhy⟩
    · intro s hs
      exact .inr ⟨j, hj, hs⟩

end DockLattice.Wal
