import DockLattice.Wal.Explain

/-!
# DockLattice.Wal.Restart

Closing a WAL and opening it again when nothing fails: the directory reads back as it was, as long as
no change of the archive drops an acknowledged cursor that is still needed to explain a missing
prefix. `RebindArchive` does not check this (`rebind_strands_prefix`).
-/

namespace DockLattice.Wal

open Bytes Effect List

variable {o : Options} {agentId : String}
variable {i j : Image o} {l m : Log o} {n : Nat} {q : Piece o.maxBytes}

/-! ## The condition -/

def WAL.floor (w : WAL) : Cursor := (w.segments.head?.map (·.first)).getD w.nextCursor

/-- Recovery would explain what is missing below the floor without the acknowledged cursor. -/
def WAL.forgettable (w : WAL) : Bool :=
  rangeExplained { w.metadata with serverAck := none } w.floor.incarnation 1 w.floor.seq

/-- `RebindArchive` with this argument changes nothing, or does not need the acknowledged cursor. -/
def WAL.mayRebind (w : WAL) (archive : String) : Bool :=
  archive = "" || w.metadata.acknowledgedArchive = archive || w.forgettable

def Event.calm (m : Machine) : Event → Bool
  | .call (.rebindArchive archive) faults =>
      faults.isEmpty && m.node.state?.all (·.wal.mayRebind archive)
  | .call _ faults => faults.isEmpty
  | .close faults => faults.isEmpty
  | .recover faults => faults.isEmpty
  | .reopen _ faults => faults.isEmpty
  | .die => false
  | .lose _ => false

theorem Event.calm_faults {m : Machine} {e : Event} (h : e.calm m = true) : e.faults = [] := by
  cases e with
  | call c fs =>
    cases c with
    | rebindArchive a => exact List.isEmpty_iff.mp (Bool.and_eq_true_iff.mp h).1
    | _ => exact List.isEmpty_iff.mp h
  | close | recover | reopen => exact List.isEmpty_iff.mp h
  | die | lose => rfl

theorem only_nil {f : Fault} : Only [] f ↔ f = .ok := by simp [Only]

theorem not_faulty_nil : ¬ Faulty (Only []) := by
  rintro ⟨f, hf, hne⟩
  exact hne (only_nil.mp hf)

theorem not_deadly_nil : ¬ Deadly (Only []) := by
  rintro ⟨k, hk⟩
  cases only_nil.mp hk

/-! ## The invariant -/

structure Log.Steady (l : Log o) : Prop where
  tidy : l.Tidy
  filled : ¬ l.Phantom
  healthy : l.backgroundErr = none
  explained : l.Explained
  solid : l.Solid

structure Image.Steady (i : Image o) : Prop where
  readable : ∀ p ∈ i.pieces, p.Readable
  explained : ∀ m, i.saved = some m → i.Spans (Accounted m)
  solid : i.Spans fun c => ∀ k ∈ i.keys, c < k
  unacked : ∀ m, i.saved = some m → ∀ p ∈ i.pieces, segmentACKed p.segment m.serverAck = false
  clear : ∀ m, i.saved = some m → ∀ p, i.pieces.head? = some p → ∀ r, ∀ g ∈ m.gaps,
    g.Covers p → g.reason = r

theorem Image.Steady.empty : (Image.empty : Image o).Steady where
  readable := by simp [Image.empty]
  explained := by simp [Image.empty]
  solid := by rintro c - ⟨k, hk, -⟩; cases hk
  unacked := by simp [Image.empty]
  clear := by simp [Image.empty]

def View.Steady : View o → Prop
  | .up l => l.Steady
  | .down _ i => i.Steady

theorem Log.Tidy.uncovered (ht : l.Tidy) {p : Piece o.maxBytes} (hp : l.sealed.head? = some p)
    {g : Gap} (hg : g ∈ l.metadata.gaps) (hc : g.Covers p) (r : GapReason) : g.reason = r := by
  obtain ⟨rest, hs⟩ := head?_eq_some_iff.mp hp
  by_contra hne
  exact ht.clear r ⟨p, rest, g, hs, hg, hc, hne⟩

theorem Log.Steady.image (hl : l.Steady) (h : l.Ok) (ha : l.active = none) : l.image.Steady := by
  have hp : l.pieces = l.sealed := by simp [Log.pieces, ha]
  refine ⟨h.pieces_readable hl.filled, fun m hm => (hl.explained.saved m hm).image, hl.solid.image,
    fun m hm p hmem => ?_, fun m hm p hh r g hg hc => ?_⟩
  · rw [(hl.tidy.saved m hm).1]
    exact hl.tidy.unacked p (hp ▸ hmem)
  · rw [(hl.tidy.saved m hm).2] at hg
    exact hl.tidy.uncovered (hp ▸ hh) hg hc r

/-! ## Mending an image -/

theorem Mends.piece (h : Mends i j) (hq : q ∈ j.pieces) :
    ∃ p ∈ i.pieces, q.key = p.key ∧ q.frames = p.frames := by
  cases h with
  | same => exact ⟨q, hq, rfl, rfl⟩
  | @repair older p r hp hk hf _ =>
    rcases mem_append.mp hq with hq | hq
    · exact ⟨q, by rw [hp]; exact mem_append_left _ hq, rfl, rfl⟩
    · rw [mem_singleton] at hq
      subst hq
      exact ⟨p, by rw [hp]; simp, hk, hf⟩
  | drop hp _ => exact ⟨q, by rw [hp]; exact mem_append_left _ hq, rfl, rfl⟩

theorem Mends.head (h : Mends i j) (hq : j.pieces.head? = some q) :
    ∃ p, i.pieces.head? = some p ∧ q.key = p.key ∧ q.frames = p.frames := by
  cases h with
  | same => exact ⟨q, hq, rfl, rfl⟩
  | @repair older p r hp hk hf _ =>
    cases older with
    | nil =>
      rw [nil_append, head?_cons, Option.some.injEq] at hq
      subst hq
      exact ⟨p, by rw [hp]; rfl, hk, hf⟩
    | cons s older => exact ⟨q, by rw [hp]; exact hq, rfl, rfl⟩
  | @drop older p hp _ =>
    cases older with
    | nil => cases hq
    | cons s older => exact ⟨q, by rw [hp]; exact hq, rfl, rfl⟩

theorem Piece.last_congr {max : Nat} {p q : Piece max} (hk : q.key = p.key)
    (hf : q.frames = p.frames) : q.last = p.last := by rw [Piece.last, Piece.last, hk, hf]

theorem Image.Steady.mends (hi : i.Steady) (hm : Mends i j) (hr : ∀ p ∈ j.pieces, p.Readable) :
    j.Steady := by
  refine ⟨hr, fun m hs => (hi.explained m (hm.saved ▸ hs)).mends hm, ?_, fun m hs q hq => ?_,
    fun m hs q hq r g hg hc => ?_⟩
  · intro c hpos hb
    rcases hi.solid.mends hm c hpos hb with hon | hlt
    · exact .inl hon
    · exact .inr fun k hk => hlt k (hm.keys_subset k hk)
  · obtain ⟨p, hp, hk, hf⟩ := hm.piece hq
    have := hi.unacked m (hm.saved ▸ hs) p hp
    rw [not_segmentACKed_iff] at this ⊢
    rwa [Piece.last_congr hk hf]
  · obtain ⟨p, hp, hk, hf⟩ := hm.head hq
    refine hi.clear m (hm.saved ▸ hs) p hp r g hg ?_
    rwa [Gap.Covers, hk, Piece.last_congr hk hf] at hc

theorem Image.Steady.sound (hi : i.Steady) : i.Sound := fun p hp =>
  hi.readable p (dropLast_subset _ hp)

theorem Image.Steady.not_rejected (hi : i.Steady) (hm : Mends i j) {m : Metadata} {e : WalError}
    (hspans : i.Spans (Accounted m)) : ¬ Rejects (Only []) i j m e := by
  rintro (⟨-, hf | hs⟩ | ⟨-, -, hu⟩)
  · exact not_faulty_nil hf
  · exact hs hi.sound
  · exact (hspans.mends hm).not_unexplained hu

theorem Image.Steady.reopened_tidy (hi : i.Steady) (hok : i.Ok agentId) (hn : i.Newer agentId n) :
    (i.reopened agentId n).Tidy := by
  obtain ⟨hack, hgaps⟩ := hok.reopened_coverage hn
  refine ⟨fun p hp => ?_, ?_, fun m hm => ?_⟩
  · rw [hack]
    cases hs : i.saved with
    | none => rfl
    | some m => exact hi.unacked m hs p hp
  · rintro r ⟨p, rest, g, hp, hg, hc, hne⟩
    rw [hgaps] at hg
    cases hs : i.saved with
    | none => rw [hs] at hg; cases hg
    | some m =>
      rw [hs] at hg
      have hhead : i.pieces.head? = some p := congrArg List.head? hp
      exact hne (hi.clear m hs p hhead r g hg hc)
  · have hs : i.saved = some m := hm
    rw [hack, hgaps, hs]
    exact ⟨rfl, rfl⟩

/-! ## Whole runs -/

theorem Opened.steady {now : Instant} (hop : Opened agentId n now i j l) (hi : i.Steady)
    (hok : i.Ok agentId) (hn : i.Newer agentId n) : l.Steady := by
  have hj : j.Steady := hi.mends hop.mended.mends hop.mended.readable
  have hjok := hop.mended.ok hok
  have hjn := hop.mended.newer hn
  have hre := hop.mended.reopened hok hn
  refine ⟨hop.tidy (hj.reopened_tidy hjok hjn), ?_, hop.background,
    hop.steps.explained hre (hjok.reopened_explained hjn hj.explained),
    hop.steps.solid hre (hjok.reopened_solid hjn hj.solid)⟩
  simp [Log.Phantom, hop.active]

theorem Log.Ok.head_le (h : l.Ok) {p : Piece o.maxBytes} (hp : l.pieces.head? = some p)
    (hq : q ∈ l.pieces) : p.key ≤ q.key := by
  obtain ⟨rest, hps⟩ := head?_eq_some_iff.mp hp
  have hsorted := h.sorted
  rw [hps] at hq hsorted
  rcases mem_cons.mp hq with rfl | hq
  · exact le_refl _
  · exact le_of_lt (lt_of_le_of_lt p.key_le_last
      ((pairwise_cons.mp hsorted).1 q hq))

theorem Log.wal_floor (l : Log o) :
    l.wal.floor = (l.pieces.head?.map Piece.key).getD l.next := by
  simp only [WAL.floor, Log.wal_segments, head?_map, Option.map_map]
  rfl

theorem Log.Solid.below_floor (hl : l.Solid) (h : l.Ok) {c : Cursor} (hc : l.Reached c)
    (hoff : ¬ l.Holds c) : c.incarnation = l.wal.floor.incarnation ∧ c.seq < l.wal.floor.seq := by
  have hlt := (hl c hc).resolve_left hoff
  rw [Log.wal_floor]
  cases hp : l.pieces.head? with
  | none =>
    have hnil : l.keys = [] := by simp [Log.keys, head?_eq_none_iff.mp hp]
    rcases hc.2 with hcur | ⟨k, hk, -⟩
    · exact hcur
    · rw [hnil] at hk; cases hk
  | some p =>
    have hmem : p ∈ l.pieces := mem_of_mem_head? hp
    have hbelow := hlt p.key (mem_map.mpr ⟨p, hmem, rfl⟩)
    -- its incarnation is not older than the one of the floor
    have hinc : p.key.incarnation ≤ c.incarnation := by
      rcases hc.2 with ⟨hcur, -⟩ | ⟨k, hk, hki, -⟩
      · have := h.key_le_next hmem
        simp only [Cursor.le_def, Log.next] at this
        omega
      · obtain ⟨q, hq, rfl⟩ := mem_map.mp hk
        have := h.head_le hp hq
        simp only [Cursor.le_def] at this
        omega
    simp only [Cursor.lt_def] at hbelow
    simp only [Option.map_some, Option.getD_some]
    omega

theorem Log.Ok.floor_seq (h : l.Ok) (hf : ¬ l.Phantom) :
    0 < l.wal.floor.incarnation ∧ 0 < l.wal.floor.seq ∧ l.wal.floor.seq ≤ maxUint64 := by
  rw [Log.wal_floor]
  cases hp : l.pieces.head? with
  | none => exact ⟨h.valid.incarnation_pos, h.valid.next_pos, h.next_le⟩
  | some p =>
    have hne := (h.pieces_readable hf p (mem_of_mem_head? hp)).1
    have hlast := p.last_seq_lt hne
    have hkey := p.key_pos hne
    have := p.last_seq
    simp only [Option.map_some, Option.getD_some]
    omega

theorem Log.Solid.forgettable (hl : l.Solid) (h : l.Ok) (hfill : ¬ l.Phantom) (hun : l.Unacked)
    (hf : l.wal.forgettable = true) : l.Forgettable := by
  refine ⟨fun c hc => ?_, hun⟩
  by_cases hoff : l.Holds c
  · exact .inl hoff
  obtain ⟨hinc, hseq⟩ := hl.below_floor h hc hoff
  have hle := (h.floor_seq hfill).2.2
  have hcov := (rangeExplained_iff (m := { l.metadata with serverAck := none })
    h.valid.gaps_ok.pairwise (Nat.le_succ_of_le hle)).mp hf c.seq hc.1 hseq
  rcases hcov with hu | ⟨a, ha, -⟩ | hg
  · rw [show Metadata.coverageUnknownIncarnations { l.metadata with serverAck := none } = [] from
      h.unknown] at hu
    cases hu
  · cases ha
  · rw [← hinc] at hg
    exact .inr hg

theorem Behaves.steady {c : Call} {n : List DecodedFrame} (hb : Behaves [] c l n m)
    (hl : l.Steady) (h : l.Ok) (hc : ∀ a, c = .rebindArchive a → l.wal.mayRebind a = true) :
    m.Steady := by
  have htidy : m.Tidy := by
    rcases hb.tidies with hf | hp | ht
    · exact absurd hf not_faulty_nil
    · exact absurd hp hl.filled
    · exact ht hl.tidy
  have hfilled : ¬ m.Phantom := by
    rcases hb.filled with hp | ⟨k, hk⟩
    · exact hp hl.filled
    · cases only_nil.mp hk
  have hhealthy : m.backgroundErr = none := by
    rcases hb.background with hbg | ⟨-, hbg⟩ | ⟨now, -, x, -, ⟨hf, -⟩ | hp | hbl⟩
    · exact hbg.trans hl.healthy
    · exact hbg
    · exact absurd hf not_faulty_nil
    · exact absurd hp hl.filled
    · exact absurd hbl.1 (hl.tidy.clear _)
  rcases hb.moves with hs | ⟨-, a, hca, hr⟩
  · exact ⟨htidy, hfilled, hhealthy, hs.explained h hl.explained, hs.solid h hl.solid⟩
  have hforget : l.Forgettable := by
    have hmay := hc a hca
    simp only [WAL.mayRebind, Bool.or_eq_true, decide_eq_true_eq] at hmay
    rcases hmay with (ha | ha) | hf
    · exact absurd ha hr.1
    · exact absurd ha hr.2.1
    · exact hl.solid.forgettable h hl.filled hl.tidy.unacked hf
  exact ⟨htidy, hfilled, hhealthy, hr.explained h hl.explained hforget, hr.solid h hl.solid⟩

theorem Log.Steady.flushed (hl : l.Steady) (h : l.Ok) (hs : Steps l [] m) (hfl : Flushed l m) :
    m.Steady :=
  ⟨hfl.tidy h hl.tidy, hfl.not_phantom, hfl.backgroundErr.trans hl.healthy,
    hs.explained h hl.explained, hs.solid h hl.solid⟩

/-! ## Nothing goes wrong in a steady view -/

section Quiet

variable {v' : View o} {r : Reply}

theorem Trans.close_steady (ht : Trans agentId (.up l) (.close []) v' r) (hl : l.Steady) :
    ∃ m, Steps l [] m ∧ Flushed l m ∧ v' = .down l.metadata.currentIncarnation m.image ∧
      r = .done none := by
  cases ht with
  | close hst hfl _ _ => exact ⟨_, hst, hfl, rfl, rfl⟩
  | closeFailed _ _ _ hwhy =>
    rcases hwhy with ⟨hf, -⟩ | hp | hb
    · exact absurd hf not_faulty_nil
    · exact absurd hp hl.filled
    · rw [hl.healthy] at hb; cases hb
  | closeDied _ hd _ _ => exact absurd hd not_deadly_nil
  | ignored hig => exact hig.elim

theorem Trans.recover_steady (ht : Trans agentId (.down n i) (.recover []) v' r) (hi : i.Steady)
    (hok : i.Ok agentId) : ∃ j q, Mended i j ∧ v' = .down n j ∧ r = .recovered q := by
  cases ht with
  | recover hm => exact ⟨_, _, hm, rfl, rfl⟩
  | recoverFailed hm hrej => exact absurd hrej (hi.not_rejected hm (hok.spans_saved hi.explained))
  | recoverDied hd _ => exact absurd hd not_deadly_nil
  | ignored hig => exact hig.elim

theorem Trans.reopen_steady (hagent : agentId ≠ "") {now : Instant}
    (ht : Trans agentId (.down n i) (.reopen now []) v' r) (hi : i.Steady)
    (hv : (View.down n i).Ok agentId) (hn : n < maxUint64) :
    ∃ j l, Opened agentId (n + 1) now i j l ∧ v' = .up l ∧ r = .done none := by
  cases ht with
  | reopen _ hop _ => exact ⟨_, _, hop, rfl, rfl⟩
  | reopenRejected _ hm hrej => exact absurd hrej (hi.not_rejected hm (hv.1.spans_adopted hi.explained _))
  | reopenFailed _ hm _ _ hwhy =>
    rcases hwhy with ⟨hf, -⟩ | ⟨-, hb⟩
    · exact absurd hf not_faulty_nil
    · have htidy := (hi.mends hm.mends hm.readable).reopened_tidy (hm.ok hv.1)
        (hm.newer (hv.newer hagent hn))
      exact absurd hb.1 (htidy.clear _)
  | reopenDiedEarly _ hd _ | reopenDied _ _ hd _ _ _ => exact absurd hd not_deadly_nil
  | ignored hig => exact absurd hn hig

end Quiet

theorem Trans.steady (hagent : agentId ≠ "") {v v' : View o} {e : Event} {r : Reply}
    (ht : Trans agentId v e v' r) (hv : v.Ok agentId) (hs : v.Steady) (hc : e.calm v.machine = true) :
    v'.Steady := by
  have hnil := Event.calm_faults hc
  cases v with
  | up l =>
    cases e with
    | call c fs =>
      cases hnil
      have hcall : ∀ a, c = .rebindArchive a → l.wal.mayRebind a = true := by
        rintro a rfl
        have hmay : l.toState.wal.mayRebind a = true := by
          simpa [Event.calm, View.machine, Node.state?] using hc
        exact hmay
      cases ht with
      | call r hb | callFailed hb _ => exact hb.steady hs hv.1 hcall
      | callDied hd => exact absurd hd.deadly not_deadly_nil
      | ignored hig => exact hig.elim
    | close fs =>
      cases hnil
      obtain ⟨m, hst, hfl, rfl, -⟩ := ht.close_steady hs
      exact (hs.flushed hv.1 hst hfl).image (hst.ok hv.1) hfl.active
    | die | lose => cases hc
    | recover | reopen => cases ht; exact hs
  | down n i =>
    cases e with
    | call | close => cases ht; exact hs
    | die | lose => cases hc
    | recover fs =>
      cases hnil
      obtain ⟨j, q, hm, rfl, -⟩ := ht.recover_steady hs hv.1
      exact hs.mends hm.mends hm.readable
    | reopen now fs =>
      cases hnil
      by_cases hn : n < maxUint64
      · obtain ⟨j, l, hop, rfl, -⟩ := ht.reopen_steady hagent hs hv hn
        exact hop.steady hs hv.1 (hv.newer hagent hn)
      cases ht with
      | ignored _ => exact hs
      | reopen h _ _ | reopenRejected h _ _ | reopenFailed h _ _ _ _ | reopenDiedEarly h _ _ =>
        exact absurd h hn
      | reopenDied _ h _ _ _ _ => exact absurd h hn

/-! ## What reads back -/

def State.retained (s : State) : List Record :=
  (s.disk.frames s.wal.options.maxBytes).map (Record.of s.wal.agentId)

theorem Image.disk_frames (i : Image o) : i.disk.frames o.maxBytes = i.frames := by
  simp only [Disk.frames, Image.disk, Image.frames, flatMap_map]
  exact flatMap_congr fun p _ => p.stream_frames

theorem Log.disk_frames (l : Log o) : l.disk.frames o.maxBytes = l.frames :=
  l.image.disk_frames

theorem Log.retained (l : Log o) : l.toState.retained = l.frames.map (Record.of l.agentId) := by
  rw [← l.disk_frames]
  rfl

theorem readAuditFrom_floor (h : l.Ok) (hf : ¬ l.Phantom) (now : Instant) {limit : Int}
    (hlimit : 0 < limit) (hlen : (l.frames.length : Int) ≤ limit) (fs : List Fault) :
    readAuditFrom false now l.wal.floor limit ⟨l.toState, fs⟩ =
      .done ⟨l.frames.map (Record.of l.agentId), none⟩ ⟨l.toState, fs⟩ := by
  obtain ⟨hi, hs, -⟩ := h.floor_seq hf
  have hfloor : ∀ p, l.pieces.head? = some p → l.wal.floor = p.key := by
    intro p hp
    rw [Log.wal_floor, hp]
    rfl
  have hall : ∀ f ∈ l.frames, l.wal.floor ≤ f.cursor := by
    intro f hfm
    obtain ⟨q, hq, hfq⟩ := mem_flatMap.mp hfm
    obtain ⟨p, hp⟩ : ∃ p, l.pieces.head? = some p := by
      cases hps : l.pieces with
      | nil => rw [hps] at hq; cases hq
      | cons p rest => exact ⟨p, rfl⟩
    rw [hfloor p hp]
    exact le_trans (h.head_le hp hq) (q.key_le hfq)
  rw [readAuditFrom_eq h hf ⟨by omega, by omega⟩ hlimit
    (fun p hp => by rw [hfloor p hp]), selected_eq_map hall,
    take_of_length_le (by rw [length_map]; omega)]

theorem Flushed.head (h : Flushed l m) (hq : m.pieces.head? = some q) :
    ∃ p, l.pieces.head? = some p ∧ q.frames = p.frames := by
  cases h with
  | idle _ => exact ⟨q, hq, rfl⟩
  | @sealed p ha _ =>
    cases hs : l.sealed with
    | nil =>
      simp only [Log.pieces, Log.flushed, hs, nil_append, Option.toList_none,
        append_nil, head?_cons, Option.some.injEq] at hq
      exact ⟨p, by simp [Log.pieces, hs, ha], by rw [← hq]; rfl⟩
    | cons r rest =>
      simp only [Log.pieces, Log.flushed, hs, cons_append, head?_cons, Option.some.injEq] at hq
      exact ⟨r, by simp [Log.pieces, hs], by rw [hq]⟩

theorem Piece.newestAt_congr {max : Nat} {p q : Piece max} (hf : q.frames = p.frames)
    (hne : q.frames ≠ []) : q.newestAt = p.newestAt := by
  obtain ⟨f, hlast⟩ : ∃ f, q.frames.getLast? = some f := ⟨_, getLast?_eq_some_getLast hne⟩
  have hlast' : p.frames.getLast? = some f := hf ▸ hlast
  rw [Piece.newestAt, Piece.newestAt, hlast, hlast']
  rfl

theorem Image.Steady.reopened_settled (hi : i.Steady) (hok : i.Ok agentId)
    (hn : i.Newer agentId n) (now : Instant)
    (hage : ∀ p, i.pieces.head? = some p → cutoffAt o now < p.newestAt.nanos) :
    (i.reopened agentId n).Settled now 0 := by
  intro p hp
  have hhead : i.pieces.head? = some p := hp
  refine ⟨(hi.reopened_tidy hok hn).unacked p (mem_of_mem_head? hp), ?_⟩
  have hsize : (i.reopened agentId n).wal.totalBytes ≤ o.maxBytes := by
    have := hok.size
    simpa [Log.wal, Log.bytes, Image.bytes, Image.reopened_pieces] using this
  have hnew := hage p hhead
  simp only [expired, Bool.or_eq_false_iff, decide_eq_false_iff_not]
  exact ⟨by simp only [Piece.segment]; omega, by simpa [Log.wal] using hsize⟩

/-! ## Close, Recover, Open -/

/-- From the open WAL `s` of incarnation `k`: closing it, recovery, and opening the next incarnation
at `now` all succeed, and the WAL is then `s'`. -/
def Reopens (agentId : String) (o : Options) (k : Nat) (s : State) (now : Instant) (s' : State) :
    Prop :=
  ∃ m₁ m₂ q, Machine.step agentId o ⟨k, .up s⟩ (.close []) = (m₁, .done none) ∧
    Machine.step agentId o m₁ (.recover []) = (m₂, .recovered q) ∧
    Machine.step agentId o m₂ (.reopen now []) = (⟨k + 1, .up s'⟩, .done none)

/-- The oldest retained segment is not over age at `now`. -/
def State.Fresh (o : Options) (now : Instant) (s : State) : Prop :=
  ∀ seg, s.wal.segments.head? = some seg → cutoffAt o now < seg.newestAt.nanos

theorem Log.Steady.reopens (hagent : agentId ≠ "") (hv : (View.up l).Ok agentId) (hl : l.Steady)
    (hk : l.metadata.currentIncarnation < maxUint64) (now : Instant) :
    ∃ (i j : Image o) (l' : Log o), i.Steady ∧ (View.down l.metadata.currentIncarnation i).Ok agentId ∧
      i.frames = l.frames ∧
      (∀ q, i.pieces.head? = some q → ∃ p, l.pieces.head? = some p ∧ q.frames = p.frames) ∧
      Opened agentId (l.metadata.currentIncarnation + 1) now i j l' ∧
      Reopens agentId o l.metadata.currentIncarnation l.toState now l'.toState := by
  have hwhole : Whole [] := fun _ h => by cases h
  obtain ⟨v₁, ht₁, hm₁⟩ := step_trans hagent hv (e := .close []) hwhole
  obtain ⟨m, hst, hfl, rfl, hr₁⟩ := ht₁.close_steady hl
  have hv₁ := ht₁.ok hagent hv
  have hs₁ : m.image.Steady := (hl.flushed hv.1 hst hfl).image (hst.ok hv.1) hfl.active
  obtain ⟨v₂, ht₂, hm₂⟩ := step_trans hagent hv₁ (e := .recover []) hwhole
  obtain ⟨i, q, hi, rfl, hr₂⟩ := ht₂.recover_steady hs₁ hv₁.1
  have hv₂ := ht₂.ok hagent hv₁
  have hs₂ : i.Steady := hs₁.mends hi.mends hi.readable
  obtain ⟨v₃, ht₃, hm₃⟩ := step_trans hagent hv₂ (e := .reopen now []) hwhole
  obtain ⟨j, l', hop, rfl, hr₃⟩ := ht₃.reopen_steady hagent hs₂ hv₂ hk
  refine ⟨i, j, l', hs₂, hv₂, ?_, fun p hp => ?_, hop, _, _, q, Prod.ext hm₁ hr₁,
    Prod.ext hm₂ hr₂, Prod.ext ?_ hr₃⟩
  · rw [hi.mends.frames, Log.image_frames, hfl.frames]
  · obtain ⟨p', hp', -, hf⟩ := hi.mends.head hp
    obtain ⟨p'', hp'', hf'⟩ := hfl.head hp'
    exact ⟨p'', hp'', hf.trans hf'⟩
  · have hn := hv₂.newer hagent hk
    have hcur : l'.metadata.currentIncarnation = l.metadata.currentIncarnation + 1 :=
      hop.steps.incarnation.trans (hop.mended.reopened_incarnation hv₂.1 hn)
    exact hm₃.trans (by rw [View.machine, hcur])

/-- Restart safety: after any calm run, the WAL can be closed, recovered and opened again, and
reading from its floor returns what was retained before the close, except for segments that `Open`
itself deleted because they had become too old. -/
theorem calm_run_reopens (hagent : agentId ≠ "") (n : Nat) (es : List Event)
    (hes : Machine.Along agentId o (fun m e => e.calm m = true) (.fresh n) es) {k : Nat} {s : State}
    (hup : Machine.run agentId o (.fresh n) es = ⟨k, .up s⟩) (hk : k < maxUint64) (now : Instant) :
    ∃ s', Reopens agentId o k s now s' ∧
      ∀ (now' : Instant) (limit : Int), 0 < limit → s.retained.length ≤ limit →
        ∃ dropped records,
          readAuditFrom false now' s'.wal.floor limit ⟨s', []⟩ = .done ⟨records, none⟩ ⟨s', []⟩ ∧
          s.retained = dropped ++ records ∧
          (∀ r ∈ dropped, Accounted s'.wal.metadata r.cursor) ∧
          (s.Fresh o now → dropped = []) := by
  obtain ⟨v, hrun, hv, hs⟩ := run_view (o := o) hagent (C := fun m e => e.calm m = true)
    (I := View.Steady) (fun m e hc => by rw [Event.calm_faults hc]; exact fun _ h => by cases h)
    (fun hv hs hc ht => ht.steady hagent hv hs hc) es (v := .down n .empty) (View.fresh_ok n)
    Image.Steady.empty hes
  obtain ⟨l, rfl, rfl, rfl⟩ := View.eq_up (hrun.symm.trans hup)
  obtain ⟨i, j, l', hi, hvi, hfr, hhead, hop, hre⟩ := hs.reopens hagent hv hk now
  have hn := hvi.newer hagent hk
  have hok' := hop.steps.ok (hop.mended.reopened hvi.1 hn)
  have hl' := hop.steady hi hvi.1 hn
  have hjfr : (j.reopened agentId (l.metadata.currentIncarnation + 1)).frames = l.frames := by
    rw [Log.frames, Image.reopened_pieces, ← hfr, ← hop.mended.mends.frames]
    rfl
  obtain ⟨dropped, hsplit, hacc⟩ := hop.steps.frames_eq (hop.mended.reopened hvi.1 hn)
  rw [hjfr, append_nil] at hsplit
  have hagent' : l'.agentId = l.agentId := hop.steps.agentId.trans hv.2.2.symm
  refine ⟨l'.toState, hre, fun now' limit hlimit hlen => ?_⟩
  rw [Log.retained, length_map] at hlen
  refine ⟨dropped.map (Record.of l.agentId), l'.frames.map (Record.of l.agentId), ?_, ?_, ?_, ?_⟩
  · rw [← hagent']
    refine readAuditFrom_floor hok' hl'.filled now' hlimit ?_ []
    have := congrArg List.length hsplit
    rw [length_append] at this
    omega
  · rw [Log.retained, hsplit, map_append]
  · intro r hr
    obtain ⟨f, hf, rfl⟩ := mem_map.mp hr
    exact hacc f hf
  intro hfresh
  have hset := (hi.mends hop.mended.mends hop.mended.readable).reopened_settled
    (hop.mended.ok hvi.1) (hop.mended.newer hn) now fun p hp => by
      obtain ⟨p', hp', -, hf'⟩ := hop.mended.mends.head hp
      obtain ⟨p'', hp'', hf''⟩ := hhead p' hp'
      rw [Piece.newestAt_congr (hf'.trans hf'') (hop.mended.readable p
        (mem_of_mem_head? hp)).1]
      exact hfresh p''.segment (by
        rw [show l.toState.wal.segments = l.pieces.map Piece.segment from Log.wal_segments l,
          head?_map, hp'']
        rfl)
  have hsame : l'.frames = l.frames := by
    rw [hop.same hset, ← hjfr]
    rfl
  have hlen := congrArg List.length hsplit
  rw [hsame, length_append] at hlen
  have hnil : dropped = [] := length_eq_zero_iff.mp (by omega)
  rw [hnil, map_nil]

def calmRun : List Event :=
  [.reopen (unixTime 1) [], .call (.append false (unixTime 2) [1]) [], .call .sync [],
    .call (.rebindArchive "A") [], .call (.ackAudit (unixTime 3) "A" ⟨1, 1⟩ 0) [],
    .call (.append false (unixTime 4) [2]) []]

theorem calmRun_up :
    ∃ s, Machine.run "agent" (normalizeOptions ⟨0, 0, 0⟩) (.fresh 0) calmRun = ⟨1, .up s⟩ := by
  have hk : (Machine.run "agent" (normalizeOptions ⟨0, 0, 0⟩) (.fresh 0) calmRun).incarnation = 1 ∧
      (Machine.run "agent" (normalizeOptions ⟨0, 0, 0⟩) (.fresh 0) calmRun).node.state?.isSome =
        true := by decide +kernel
  generalize Machine.run "agent" (normalizeOptions ⟨0, 0, 0⟩) (.fresh 0) calmRun = m at hk
  obtain ⟨n, s | d⟩ := m
  · cases hk.1
    exact ⟨s, rfl⟩
  · cases hk.2

theorem calmRun_reopens :
    ∃ s, Machine.run "agent" (normalizeOptions ⟨0, 0, 0⟩) (.fresh 0) calmRun = ⟨1, .up s⟩ ∧
      ∃ s', Reopens "agent" (normalizeOptions ⟨0, 0, 0⟩) 1 s (unixTime 5) s' := by
  obtain ⟨s, hrun⟩ := calmRun_up
  obtain ⟨s', hre, -⟩ := calm_run_reopens (by decide) 0 calmRun (by decide +kernel) hrun
    (by decide) (unixTime 5)
  exact ⟨s, hrun, s', hre⟩

/-- At every moment of a life, whatever fails or is cut off in it, an open WAL knows its size, which
is at most `MaxBytes`, and its segments are in order and do not overlap. -/
theorem size_bounded (hagent : agentId ≠ "") (n : Nat) (es : List Event)
    (hes : Machine.Along agentId o (fun _ e => Whole e.faults) (.fresh n) es) {k : Nat} {s : State}
    (hup : Machine.run agentId o (.fresh n) es = ⟨k, .up s⟩) :
    s.wal.totalBytes = (s.wal.segments.map Segment.bytes).sum ∧ s.wal.totalBytes ≤ o.maxBytes ∧
      s.wal.segments.Pairwise (·.last < ·.first) := by
  obtain ⟨v, hrun, hv, -⟩ := run_view (o := o) (I := fun _ => True) hagent (fun _ _ h => h)
    (fun _ _ _ _ => trivial) es (v := .down n .empty) (View.fresh_ok n) trivial hes
  obtain ⟨l, rfl, -, rfl⟩ := View.eq_up (hrun.symm.trans hup)
  have hsegments : l.toState.wal.segments = l.pieces.map Piece.segment := Log.wal_segments l
  rw [hsegments, map_map, pairwise_map]
  exact ⟨rfl, hv.1.size, hv.1.sorted⟩

theorem calmRun_bounded :
    ∃ s, Machine.run "agent" (normalizeOptions ⟨0, 0, 0⟩) (.fresh 0) calmRun = ⟨1, .up s⟩ ∧
      s.wal.totalBytes ≤ (normalizeOptions ⟨0, 0, 0⟩).maxBytes := by
  obtain ⟨s, hrun⟩ := calmRun_up
  refine ⟨s, hrun, (size_bounded (by decide) 0 calmRun ?_ hrun).2.1⟩
  simp [calmRun, Machine.Along, Whole, Event.faults]

/-! ## Where the cursor is still needed -/

def strandingRun : List Event :=
  [.reopen (unixTime 1) [], .call (.append false (unixTime 2) [1]) [], .call .sync [],
    .call (.append false (unixTime 3) [2]) [], .call .sync [], .call (.rebindArchive "A") [],
    .call (.ackAudit (unixTime 4) "A" ⟨1, 1⟩ 0) [], .call (.rebindArchive "B") []]

theorem rebind_strands_prefix :
    let m := Machine.run "agent" (normalizeOptions ⟨0, 0, 0⟩) (.fresh 0) strandingRun
    let closed := Machine.step "agent" (normalizeOptions ⟨0, 0, 0⟩) m (.close [])
    closed.2 = .done none ∧
      (Machine.step "agent" (normalizeOptions ⟨0, 0, 0⟩) closed.1 (.recover [])).2 =
        .failed (.invariant "unexplained missing prefix") := by
  decide +kernel

end DockLattice.Wal
