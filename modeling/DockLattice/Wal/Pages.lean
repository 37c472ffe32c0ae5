import DockLattice.Lib.Paging
import DockLattice.Wal.Restart

/-!
# DockLattice.Wal.Pages

Reading the WAL page by page, as `SyncAudit` does: `ReadAuditFrom` from a cursor, then again from
the successor of the last record, until a page is empty.

A failed write leaves a segment open that has no frame. It counts as a segment that ends at its first
cursor, so a reader that comes to it finds its boundary changed.

What reads back is what the calls of the run were given (`run_written`).
-/

namespace DockLattice.Wal

open Effect Paging List

variable {o : Options} {agentId : String} {l : Log o} {start : Cursor} {limit : Int} {now : Instant}

def State.recordsFrom (s : State) (start : Cursor) : List Record :=
  s.retained.filter fun r => decide (start ≤ r.cursor)

/-- The pages that `SyncAudit` reads until one is empty. -/
def syncPages (s : State) (now : Instant) (limit : Int) : Nat → Cursor → Option (List Record)
  | 0, _ => none
  | fuel + 1, start =>
    match (readAuditFrom false now start limit ⟨s, []⟩).value? with
    | some ⟨records, none⟩ =>
      match records.getLast? with
      | none => some []
      | some last =>
        if records.any fun r => r.cursor.seq = maxUint64 then none
        else (syncPages s now limit fuel ⟨last.cursor.incarnation, last.cursor.seq + 1⟩).map
          (records ++ ·)
    | _ => none

/-- Every page from a cursor at or above the floor is what it should be, in order, and the pages that
follow it hold every record behind the cursor once. -/
def State.PagedExactly (s : State) : Prop :=
  s.retained.Pairwise (·.cursor < ·.cursor) ∧
  ∀ (now : Instant) (start : Cursor) (limit : Int), start.incarnation ≠ 0 → start.seq ≠ 0 →
    (∀ floor, (boundsLocked s.wal).walFloor = some floor → floor ≤ start) → 0 < limit →
    readAuditFrom false now start limit ⟨s, []⟩ =
      .done ⟨(s.recordsFrom start).take limit.toNat, none⟩ ⟨s, []⟩ ∧
    ∀ fuel, (s.recordsFrom start).length < fuel →
      syncPages s now limit fuel start = some (s.recordsFrom start)

/-- The record is that of an `Append` or `AppendOnce` of the run: the call was given its payload at
its time, when its cursor was the next one, and left it on disk. -/
def Record.Written (agentId : String) (o : Options) (m : Machine) (es : List Event) (r : Record) :
    Prop :=
  ∃ before c fs after, es = before ++ .call c fs :: after ∧ c.Writes r.appendedAt r.payload ∧
    (∃ s, (Machine.run agentId o m before).node.state? = some s ∧ s.wal.nextCursor = r.cursor) ∧
    ⟨r.cursor, r.appendedAt, r.payload⟩ ∈
      (Machine.run agentId o m (before ++ [.call c fs])).node.disk.frames o.maxBytes

/-! ## Where the records come from -/

section Written

variable {l m : Log o} {i : Image o} {f : DecodedFrame} {v v' : View o} {e : Event} {r : Reply}

@[simp] def View.frames : View o → List DecodedFrame
  | .up l => l.frames
  | .down _ i => i.frames

theorem View.disk_frames (v : View o) : v.machine.node.disk.frames o.maxBytes = v.frames := by
  cases v with
  | up l => exact l.disk_frames
  | down n i => exact i.disk_frames

theorem Steps.mem_frames {new : List DecodedFrame} (hs : Steps l new m) (h : l.Ok)
    (hf : f ∈ m.frames) : f ∈ l.frames ∨ f ∈ new := by
  obtain ⟨dropped, heq, -⟩ := hs.frames_eq h
  rw [← mem_append, heq]
  exact mem_append_right _ hf

theorem Steps.no_frames (hs : Steps l [] m) (h : l.Ok) (hf : f ∈ m.frames) : f ∈ l.frames := by
  simpa using hs.mem_frames h hf

theorem Mended.mem_frames {j : Image o} {n : Nat} (hm : Mended i j) (hi : i.Ok agentId)
    (hn : i.Newer agentId n) (hs : Steps (j.reopened agentId n) [] l) (hf : f ∈ l.frames) :
    f ∈ i.frames := by
  have := hs.no_frames (hm.reopened hi hn) hf
  rwa [Log.frames, Image.reopened_pieces, ← Image.frames, hm.mends.frames] at this

theorem Image.mem_of_lose {keep : Cursor → Nat} (hf : f ∈ (i.lose keep).frames) : f ∈ i.frames := by
  obtain ⟨q, hq, hfq⟩ := mem_flatMap.mp hf
  obtain ⟨p, hp, rfl⟩ := mem_map.mp hq
  exact mem_flatMap.mpr ⟨p, hp, mem_of_mem_take hfq⟩

theorem Call.MayWrite.frame {c : Call} {new : List DecodedFrame} (h : c.MayWrite l new)
    (hf : f ∈ new) : ∃ now payload, c.Writes now payload ∧ f = l.frameFor now payload := by
  rcases h with rfl | ⟨now, payload, hw, rfl⟩
  · cases hf
  · exact ⟨now, payload, hw, mem_singleton.mp hf⟩

/-- A transition leaves no frame that was not there, except the one its call was given. -/
theorem Trans.frames (hagent : agentId ≠ "") (ht : Trans agentId v e v' r) (hv : v.Ok agentId)
    (hf : f ∈ v'.frames) : f ∈ v.frames ∨ ∃ l c fs now payload, v = .up l ∧ e = .call c fs ∧
      c.Writes now payload ∧ f = l.frameFor now payload := by
  cases ht with
  | call r hb | callFailed hb _ =>
    rcases hb.moves with hs | ⟨-, a, -, hr⟩
    · refine (hs.mem_frames hv.1 hf).imp_right fun hnew => ?_
      obtain ⟨now, payload, hw, he⟩ := hb.written.frame hnew
      exact ⟨_, _, _, now, payload, rfl, rfl, hw, he⟩
    · exact .inl (by simpa [hr.frames] using hf)
  | callDied hd =>
    rcases hd.left with ⟨new, k, tail, ht, hwr, hs, rfl⟩ | ⟨a, m, -, hr, rfl⟩
    · have hf' : f ∈ k.frames := by simpa using hf
      refine (hs.mem_frames hv.1 hf').imp_right fun hnew => ?_
      obtain ⟨now, payload, hw, he⟩ := hwr.frame hnew
      exact ⟨_, _, _, now, payload, rfl, rfl, hw, he⟩
    · exact .inl (by simpa [hr.frames] using hf)
  | close hs _ _ _ | closeFailed _ hs _ _ => exact .inl (hs.no_frames hv.1 hf)
  | closeDied ht _ hs _ => exact .inl (hs.no_frames hv.1 (by simpa using hf))
  | die => exact .inl hf
  | lose keep => exact .inl (Image.mem_of_lose hf)
  | recover hm => exact .inl (by simpa [hm.mends.frames] using hf)
  | recoverFailed hm _ | recoverDied _ hm | reopenRejected _ hm _ | reopenDiedEarly _ _ hm =>
    exact .inl (by simpa [hm.frames] using hf)
  | reopen hn hop _ => exact .inl (hop.mended.mem_frames hv.1 (hv.newer hagent hn) hop.steps hf)
  | reopenFailed hn hm hs _ _ => exact .inl (hm.mem_frames hv.1 (hv.newer hagent hn) hs hf)
  | reopenDied ht hn _ hm hs _ =>
    exact .inl (hm.mem_frames hv.1 (hv.newer hagent hn) hs (by simpa using hf))
  | ignored _ => exact .inl hf

theorem Machine.run_snoc (m : Machine) (es : List Event) (e : Event) :
    Machine.run agentId o m (es ++ [e]) = (Machine.step agentId o (m.run agentId o es) e).1 := by
  induction es generalizing m with
  | nil => rfl
  | cons d es ih => exact ih _

theorem run_written (hagent : agentId ≠ "") (n : Nat) (es : List Event)
    (hes : ∀ e ∈ es, Whole e.faults) :
    ∃ v : View o, Machine.run agentId o (.fresh n) es = v.machine ∧ v.Ok agentId ∧
      ∀ f ∈ v.frames, (Record.of agentId f).Written agentId o (.fresh n) es := by
  -- the events are taken from the end: the last one either wrote the frame or found it there
  induction es using List.reverseRecOn with
  | nil => exact ⟨.down n .empty, rfl, View.fresh_ok n, fun f hf => by cases hf⟩
  | append_singleton es e ih =>
    obtain ⟨v, hrun, hv, hw⟩ := ih fun d hd => hes d (mem_append_left _ hd)
    obtain ⟨v', ht, hm⟩ := step_trans hagent hv (hes e (by simp))
    have hrun' : Machine.run agentId o (.fresh n) (es ++ [e]) = v'.machine := by
      rw [Machine.run_snoc, hrun, hm]
    refine ⟨v', hrun', ht.ok hagent hv, fun f hf => ?_⟩
    rcases ht.frames hagent hv hf with hold | ⟨l, c, fs, now, payload, rfl, rfl, hwr, rfl⟩
    · obtain ⟨before, c, fs, after, rfl, h⟩ := hw f hold
      exact ⟨before, c, fs, after ++ [e], by simp, h⟩
    · refine ⟨es, c, fs, [], rfl, hwr, ⟨l.toState, by rw [hrun]; rfl, rfl⟩, ?_⟩
      rw [hrun', v'.disk_frames]
      exact hf

end Written

/-! ## Pages of a journal -/

theorem Log.recordsFrom_eq (l : Log o) (start : Cursor) :
    l.toState.recordsFrom start = selected l.agentId start l.frames := by
  simp only [State.recordsFrom, Log.retained, selected, filter_map, compareCursor_ge_zero,
    ge_iff_le]
  rfl

theorem numbered_pairwise {c : Cursor} {fs : List DecodedFrame} (h : Numbered c fs) :
    fs.Pairwise (·.cursor < ·.cursor) := by
  induction fs generalizing c with
  | nil => exact .nil
  | cons f fs ih =>
    obtain ⟨hc, hrest⟩ := h
    refine .cons (fun g hg => ?_) (ih hrest)
    obtain ⟨n, -, hn⟩ := hrest.mem hg
    rw [hc, hn, Cursor.plus_plus]
    exact .inr ⟨rfl, by simp⟩

theorem frames_pairwise {max : Nat} {ps : List (Piece max)}
    (h : ps.Pairwise fun p q => p.last < q.key) :
    (ps.flatMap Piece.frames).Pairwise (·.cursor < ·.cursor) := by
  rw [pairwise_flatMap]
  refine ⟨fun p _ => numbered_pairwise p.numbered, h.imp fun {p q} hpq f hf g hg => ?_⟩
  exact lt_of_le_of_lt (p.le_last hf) (lt_of_lt_of_le hpq (q.key_le hg))

theorem Log.Ok.retained_pairwise (h : l.Ok) : l.toState.retained.Pairwise (·.cursor < ·.cursor) := by
  rw [Log.retained, pairwise_map]
  exact frames_pairwise h.sorted

theorem recordsFrom_next {s : State} (hs : s.retained.Pairwise (·.cursor < ·.cursor)) {n : Nat}
    {last : Record} (hlast : ((s.recordsFrom start).take n).getLast? = some last) :
    s.recordsFrom ⟨last.cursor.incarnation, last.cursor.seq + 1⟩ = (s.recordsFrom start).drop n := by
  have hmem : last ∈ s.recordsFrom start := mem_of_mem_take (mem_of_getLast? hlast)
  have hstart : start ≤ last.cursor := by simpa using (mem_filter.mp hmem).2
  refine Eq.trans ?_ (filter_behind ⟨lt_irrefl, lt_trans⟩ (hs.filter _) n hlast)
  rw [State.recordsFrom, filter_filter]
  refine filter_congr fun r _ => ?_
  rw [← Bool.decide_and, decide_eq_decide]
  simp only [Cursor.le_def, Cursor.lt_def] at hstart ⊢
  omega

theorem syncPages_eq (h : l.Ok) (hp : ¬ l.Phantom) (hlimit : 0 < limit) (fuel : Nat) :
    ∀ start : Cursor, start.incarnation ≠ 0 → start.seq ≠ 0 →
      (∀ p, l.pieces.head? = some p → p.key ≤ start) →
      (l.toState.recordsFrom start).length < fuel →
      syncPages l.toState now limit fuel start = some (l.toState.recordsFrom start) := by
  induction fuel with
  | zero => intro start _ _ _ hlen; omega
  | succ fuel ih =>
    intro start hi hs hfloor hlen
    rw [syncPages, readAuditFrom_eq h hp ⟨hi, hs⟩ hlimit hfloor, ← l.recordsFrom_eq]
    simp only [Outcome.value?]
    cases hlast : ((l.toState.recordsFrom start).take limit.toNat).getLast? with
    | none =>
      rw [getLast?_eq_none_iff, take_eq_nil_iff] at hlast
      rcases hlast with hz | hnil
      · omega
      · simp [hnil]
    | some last =>
      have hmem : last ∈ l.toState.recordsFrom start :=
        mem_of_mem_take (mem_of_getLast? hlast)
      have hle : start ≤ last.cursor := by simpa using (mem_filter.mp hmem).2
      have hmax : ((l.toState.recordsFrom start).take limit.toNat).any
          (fun r => r.cursor.seq = maxUint64) = false := by
        rw [any_eq_false]
        intro r hr
        have hr' := (mem_filter.mp (mem_of_mem_take hr)).1
        rw [Log.retained] at hr'
        obtain ⟨f, hf, rfl⟩ := mem_map.mp hr'
        obtain ⟨q, hq, hfq⟩ := mem_flatMap.mp hf
        have := (q.fits f hfq).seq_lt
        simp only [Record.of]
        exact fun hd => Nat.ne_of_lt this (of_decide_eq_true hd)
      have hne : l.toState.recordsFrom start ≠ [] := ne_nil_of_mem hmem
      have hnext := recordsFrom_next h.retained_pairwise hlast
      have hrest := ih ⟨last.cursor.incarnation, last.cursor.seq + 1⟩
        (by simp only [Cursor.le_def] at hle; dsimp only; omega) (by simp)
        (fun p hp => le_trans (hfloor p hp) (le_trans hle (.inr ⟨rfl, Nat.le_succ _⟩)))
        (by
          have := length_pos_of_ne_nil hne
          rw [hnext, length_drop]
          omega)
      simp only [hmax, Bool.false_eq_true, if_false, hrest, hnext, Option.map_some,
        take_append_drop]

theorem readSegments_skip {s : State} {n : Nat} {segs rest : List Segment} {records : List Record}
    (h : ∀ seg ∈ segs, seg.last < start) :
    readSegments s false start n (segs ++ rest) records =
      readSegments s false start n rest records := by
  induction segs with
  | nil => rfl
  | cons seg segs ih =>
    rw [cons_append, readSegments, if_pos (compareCursor_lt_zero.mpr (h seg mem_cons_self))]
    exact ih fun t ht => h t (mem_cons_of_mem _ ht)

theorem Log.Ok.floor_le_next (h : l.Ok) (floor : Cursor)
    (hf : (boundsLocked l.toState.wal).walFloor = some floor) : floor ≤ l.next := by
  rw [l.walFloor] at hf
  obtain ⟨q, hq, rfl⟩ := Option.map_eq_some_iff.mp hf
  exact h.key_le_next (mem_of_mem_head? hq)

theorem readAuditFrom_phantom (now : Instant) (h : l.Ok) (hp : l.Phantom) :
    ∃ e, readAuditFrom false now l.next 1 ⟨l.toState, []⟩ = .fail e ⟨l.toState, []⟩ := by
  obtain ⟨p, ha, hnil⟩ := hp
  have hkey : p.key = l.next := by
    rw [← h.active_next p ha, Piece.next, hnil]
    rfl
  have hlast : p.last = p.key := by rw [Piece.last, hnil]; rfl
  have hpieces : l.toState.wal.segments = l.sealed.map Piece.segment ++ [p.segment] := by
    rw [show l.toState.wal.segments = l.pieces.map Piece.segment from l.wal_segments]
    simp [Log.pieces, ha]
  have hskip : ∀ seg ∈ l.sealed.map Piece.segment, seg.last < l.next := by
    intro seg hseg
    obtain ⟨q, hq, rfl⟩ := mem_map.mp hseg
    exact h.sealed_lt_next hq
  have hfile : l.toState.disk.file? p.key = some ⟨[], p.synced⟩ := by
    refine (Log.file?_of_mem h (Log.Ok.mem_pieces.mpr (.inr ha))).trans ?_
    rw [Piece.file, Piece.content, hnil, h.active_tail p ha]
    rfl
  have hpos := h.valid.incarnation_pos
  have hseq := h.valid.next_pos
  rw [readAuditFrom_run rfl ⟨Nat.ne_of_gt hpos, Nat.ne_of_gt hseq⟩ Int.one_pos h.floor_le_next,
    hpieces, readSegments_skip hskip, readSegments, if_neg (by simp [hlast, hkey]),
    Piece.segment_first, hfile]
  simp [readSegment]

/-- Without partial writes, paged reading is exact if and only if the open segment has a frame, and
what is retained is what the calls of the run were given. -/
theorem paged_reading_iff (hagent : agentId ≠ "") (n : Nat) (es : List Event)
    (hes : ∀ e ∈ es, Whole e.faults) {k : Nat} {s : State}
    (hup : Machine.run agentId o (.fresh n) es = ⟨k, .up s⟩) :
    (s.PagedExactly ↔ ∀ a, s.wal.active = some a → a.segment.bytes ≠ 0) ∧
      ∀ r ∈ s.retained, r.agentId = agentId ∧ r.Written agentId o (.fresh n) es := by
  obtain ⟨v, hrun, hv, hwritten⟩ := run_written (o := o) hagent n es hes
  obtain ⟨l, rfl, rfl, rfl⟩ := View.eq_up (hrun.symm.trans hup)
  have hl := hv.1
  refine ⟨?_, fun r hr => ?_⟩
  swap
  · rw [Log.retained, hv.2.2] at hr
    obtain ⟨f, hf, rfl⟩ := mem_map.mp hr
    exact ⟨rfl, hwritten f hf⟩
  have hphantom : (∀ a, l.toState.wal.active = some a → a.segment.bytes ≠ 0) ↔ ¬ l.Phantom := by
    simp only [Log.toState, Log.wal, Log.Phantom]
    cases ha : l.active with
    | none => simp
    | some p => cases hf : p.frames <;> simp [Piece.bytes, hf, DecodedFrame.bytes]
  rw [hphantom]
  constructor
  · rintro ⟨-, hexact⟩ hp
    obtain ⟨e, he⟩ := readAuditFrom_phantom (unixTime 0) hl hp
    have := hexact (unixTime 0) l.next 1 (Nat.ne_of_gt hl.valid.incarnation_pos)
      (Nat.ne_of_gt hl.valid.next_pos) hl.floor_le_next Int.one_pos
    rw [he] at this
    cases this.1
  · intro hp
    refine ⟨hl.retained_pairwise, fun now start limit hi hs hfloor hlimit => ?_⟩
    have hhead : ∀ p, l.pieces.head? = some p → p.key ≤ start := fun p hp =>
      hfloor p.key (by rw [l.walFloor, hp]; rfl)
    refine ⟨?_, fun fuel hfuel => syncPages_eq hl hp hlimit fuel start hi hs hhead hfuel⟩
    rw [l.recordsFrom_eq]
    exact readAuditFrom_eq hl hp ⟨hi, hs⟩ hlimit hhead now []

theorem calmRun_pagedExactly :
    ∃ s, Machine.run "agent" (normalizeOptions ⟨0, 0, 0⟩) (.fresh 0) calmRun = ⟨1, .up s⟩ ∧
      s.PagedExactly ∧ ∀ r ∈ s.retained,
        r.Written "agent" (normalizeOptions ⟨0, 0, 0⟩) (.fresh 0) calmRun := by
  obtain ⟨s, hrun⟩ := calmRun_up
  have hall := paged_reading_iff (by decide) 0 calmRun (by simp [calmRun, Whole, Event.faults]) hrun
  refine ⟨s, hrun, hall.1.mpr ?_, fun r hr => (hall.2 r hr).2⟩
  have h : ((Machine.run "agent" (normalizeOptions ⟨0, 0, 0⟩) (.fresh 0)
      calmRun).node.state?.all fun s => s.wal.active.all fun a => a.segment.bytes ≠ 0) = true := by
    decide +kernel
  intro a ha
  rw [hrun] at h
  simpa [Node.state?, ha] using h

def failedWriteRun : List Event :=
  [.reopen (unixTime 1) [], .call (.append false (unixTime 2) [1]) [.ok, .torn 0]]

/-- Nothing is retained, and reading from the first cursor fails. -/
theorem failedWrite_unreadable :
    (Machine.run "agent" (normalizeOptions ⟨0, 0, 0⟩) (.fresh 0) failedWriteRun).node.state?.map
      (fun s => (s.retained, (boundsLocked s.wal).walFloor,
        (readAuditFrom false (unixTime 3) ⟨1, 1⟩ 1 ⟨s, []⟩).value?)) =
      some ([], some ⟨1, 1⟩, none) := by
  decide +kernel

end DockLattice.Wal
