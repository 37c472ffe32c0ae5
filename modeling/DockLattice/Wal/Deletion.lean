import DockLattice.Wal.Loss
import DockLattice.Wal.Restart

/-!
# DockLattice.Wal.Deletion

Deletions that are interrupted between recording the gap and removing the file. Deleting the segment
again for the same reason finishes; for another reason it records a second gap over the first one,
which `validateMetadata` refuses (`second_reason_stuck`).
-/

namespace DockLattice.Wal

open Bytes Effect List Piece

variable {o : Options} {agentId : String} {e : Event}

/-! ## The condition -/

def Metadata.recordedOtherwise (m : Metadata) (reason : GapReason) (seg : Segment) : Bool :=
  m.gaps.any fun g => decide (g.incarnation = seg.first.incarnation ∧ g.fromSeq ≤ seg.first.seq ∧
    seg.last.seq < g.untilSeq ∧ g.reason ≠ reason)

/-- Retention would have to record the oldest segment, which disk pressure has recorded. -/
def WAL.blocked (w : WAL) (now : Instant) (incoming : Nat) : Bool :=
  w.sealed.head?.any fun seg => !segmentACKed seg w.metadata.serverAck &&
    expired w (cutoffAt w.options now) incoming seg && w.metadata.recordedOtherwise .retention seg

/-- Disk pressure would have to record the oldest segment, which retention has recorded. -/
def WAL.pressed (w : WAL) (bytesNeeded : Int) : Bool :=
  w.sealed.head?.any fun seg => decide (0 < bytesNeeded) &&
    !segmentACKed seg w.metadata.serverAck && w.metadata.recordedOtherwise .diskPressure seg

def WAL.stuck (w : WAL) : Call → Bool
  | .append _ now payload => w.blocked now (DecodedFrame.bytes ⟨w.nextCursor, now, payload⟩)
  | .appendOnce _ now _ payload => w.blocked now (DecodedFrame.bytes ⟨w.nextCursor, now, payload⟩)
  | .enforceLimits now => w.blocked now 0
  | .tick now => w.blocked now 0
  | .reclaimUnacked _ bytesNeeded => w.pressed bytesNeeded
  | .reclaim _ bytesNeeded => w.pressed bytesNeeded
  | _ => false

/-- A change of the archive leaves nothing behind that hinges on the acknowledged cursor. -/
def WAL.mayForget (w : WAL) : Call → Bool
  | .rebindArchive archive => w.mayRebind archive &&
      (archive = "" || w.metadata.acknowledgedArchive = archive ||
        w.sealed.all fun seg => !segmentACKed seg w.metadata.serverAck)
  | _ => true

/-- The WAL as `Open` finds it in the directory, before it enforces the retention limits. -/
def Disk.found (d : Disk) (agentId : String) (incarnation : Nat) (o : Options) : Option WAL :=
  match loadMetadata d agentId incarnation with
  | .error _ => none
  | .ok m =>
    match recoverFrom o.maxBytes (segmentNames d) ⟨⟨d, .start agentId o m⟩, []⟩ with
    | .done _ w => some w.st.wal
    | _ => none

def untorn (faults : List Fault) : Bool :=
  faults.all fun
    | .torn _ => false
    | _ => true

/-- No failed segment write leaves a part of its bytes behind, and a change of the archive is one
that `mayForget` allows. Any other effect may fail, or be the last one before the process dies or
the power fails. -/
def Event.careful (m : Machine) (e : Event) : Bool :=
  untorn e.faults && match e with
    | .call c _ => m.node.state?.all fun s => s.wal.mayForget c
    | _ => true

/-- A careful event that does not run into a gap recorded for another reason. -/
def Event.orderly (agentId : String) (o : Options) (m : Machine) (e : Event) : Bool :=
  e.careful m && match e with
    | .call c _ => m.node.state?.all fun s => !s.wal.stuck c
    | .reopen now _ =>
      match m.node with
      | .up _ => true
      | .down d => (d.found agentId (m.incarnation + 1) o).all fun w => !w.blocked now 0
    | _ => true

theorem untorn.only {fs : List Fault} (h : untorn fs = true) (k : Nat) : ¬ Only fs (.torn k) := by
  rintro (hk | hk)
  · cases hk
  · cases all_eq_true.mp h _ hk

theorem untorn.whole {fs : List Fault} (h : untorn fs = true) : Whole fs :=
  fun k hk => absurd (.inr hk) (untorn.only h k)

theorem Event.careful_whole {m : Machine} (h : e.careful m = true) : Whole e.faults :=
  untorn.whole (Bool.and_eq_true_iff.mp h).1

theorem Event.orderly_careful {m : Machine} (h : e.orderly agentId o m = true) :
    e.careful m = true := (Bool.and_eq_true_iff.mp h).1

/-! ## What the condition says about the journal -/

section Condition

variable {l : Log o}

theorem Gap.Covers.recordedOtherwise {p : Piece o.maxBytes} {g : Gap} {m : Metadata} {r : GapReason}
    (hc : g.Covers p) (hg : g ∈ m.gaps) (hr : g.reason ≠ r) :
    m.recordedOtherwise r p.segment = true := by
  refine any_eq_true.mpr ⟨g, hg, decide_eq_true ?_⟩
  exact ⟨hc.1, hc.2.1, hc.2.2, hr⟩

theorem Log.Blocked.blocked {now : Instant} {incoming : Nat} (hb : l.Blocked now incoming) :
    l.wal.blocked now incoming = true := by
  obtain ⟨⟨p, rest, g, hs, hg, hc, hr⟩, hex⟩ := hb
  obtain ⟨hack, hexp⟩ := hex p (by rw [hs]; rfl)
  have hcov : l.wal.metadata.recordedOtherwise .retention p.segment = true :=
    hc.recordedOtherwise hg hr
  have hhead : l.wal.sealed.head? = some p.segment := by simp [Log.wal, hs]
  have hack' : segmentACKed p.segment l.wal.metadata.serverAck = false := hack
  have hexp' : expired l.wal (cutoffAt l.wal.options now) incoming p.segment = true := hexp
  rw [WAL.blocked, hhead, Option.any_some, hack', hexp', hcov]
  rfl

theorem Log.Pressed.pressed {bytesNeeded : Int} (hp : l.Pressed bytesNeeded) :
    l.wal.pressed bytesNeeded = true := by
  obtain ⟨⟨p, rest, g, hs, hg, hc, hr⟩, hpos, hall⟩ := hp
  have hcov : l.wal.metadata.recordedOtherwise .diskPressure p.segment = true :=
    hc.recordedOtherwise hg hr
  have hhead : l.wal.sealed.head? = some p.segment := by simp [Log.wal, hs]
  have hack : segmentACKed p.segment l.wal.metadata.serverAck = false := hall p (by rw [hs]; rfl)
  rw [WAL.pressed, hhead, Option.any_some, hack, hcov, decide_eq_true hpos]
  rfl

theorem Call.Stuck.stuck {c : Call} (hs : c.Stuck l) : l.wal.stuck c = true := by
  cases c with
  | append | appendOnce | enforceLimits | tick => exact Log.Blocked.blocked hs
  | reclaimUnacked | reclaim => exact Log.Pressed.pressed hs
  | _ => exact hs.elim

theorem Rebinds.forgettable {m : Log o} {a : String} (hr : Rebinds l a m) (h : l.Ok)
    (hfill : ¬ l.Phantom) (hsolid : l.Solid) (hc : l.wal.mayForget (.rebindArchive a) = true) :
    l.Forgettable := by
  obtain ⟨hmay, hun⟩ := Bool.and_eq_true_iff.mp hc
  simp only [WAL.mayRebind, Bool.or_eq_true, decide_eq_true_eq] at hmay hun
  rcases hun with (ha | ha) | hun
  · exact absurd ha hr.1
  · exact absurd ha hr.2.1
  rcases hmay with (ha | ha) | hf
  · exact absurd ha hr.1
  · exact absurd ha hr.2.1
  refine hsolid.forgettable h hfill (fun p hp => ?_) hf
  have hp' : (!segmentACKed p.segment l.metadata.serverAck) = true :=
    all_eq_true.mp hun p.segment (mem_map.mpr ⟨p, hp, rfl⟩)
  simpa using hp'

end Condition

/-! ## The segments that recovery finds -/

section Found

variable {i j : Image o} {n : Nat}

theorem Piece.segment_congr {max : Nat} {p q : Piece max} (hk : q.key = p.key)
    (hf : q.frames = p.frames) (hne : q.frames ≠ []) : q.segment = p.segment := by
  rw [segment, segment, hk, last_congr hk hf, newestAt_congr hf hne, bytes, bytes, hf]

theorem filter_readable {ps : List (Piece o.maxBytes)} (h : ∀ p ∈ ps, p.Readable) :
    ps.filter (fun p => !p.frames.isEmpty) = ps := by
  refine filter_eq_self.mpr fun p hp => ?_
  have := (h p hp).1
  simpa using this

theorem Mended.segments (hm : Mended i j) : j.pieces.map segment =
    (i.pieces.filter fun p => !p.frames.isEmpty).map segment := by
  obtain ⟨hm, hr⟩ := hm
  cases hm with
  | same => rw [filter_readable hr]
  | @repair older p q hp hk hf _ =>
    have hq := hr q (by simp)
    have hpne : p.frames ≠ [] := hf ▸ hq.1
    have hlast : [p].filter (fun p => !p.frames.isEmpty) = [p] := by simpa using hpne
    rw [hp, filter_append, filter_readable fun r hr' => hr r (mem_append_left _ hr'), hlast,
      map_append, map_append, map_singleton, map_singleton, segment_congr hk hf hq.1]
  | @drop older p hp hf =>
    have hlast : [p].filter (fun p => !p.frames.isEmpty) = [] := by simpa using hf
    rw [hp, filter_append, filter_readable hr, hlast, append_nil]

theorem Mended.sound (hm : Mended i j) : i.Sound := by
  obtain ⟨hm, hr⟩ := hm
  intro p hp
  cases hm with
  | same => exact hr p (dropLast_subset _ hp)
  | repair hi _ _ _ =>
    rw [hi, dropLast_concat] at hp
    exact hr p (mem_append_left _ hp)
  | drop hi _ =>
    rw [hi, dropLast_concat] at hp
    exact hr p hp

theorem Image.Ok.found (hi : i.Ok agentId) (hn : i.Newer agentId n) (hs : i.Sound) :
    ∃ k, Mended i k ∧ i.disk.found agentId n o =
      some ((WAL.start agentId o (i.adopted agentId n)).holding k.pieces) := by
  have hspec := recoverFrom_spec (G := Only []) (.ok []) hi i.pieces [] (.start agentId o
    (i.adopted agentId n)) rfl ⟨⟨i.disk, .start agentId o (i.adopted agentId n)⟩, []⟩ rfl
    (Only.allowed _ _)
  simp only [Disk.found, hi.loadMetadata hn, hi.segmentNames]
  cases ho : recoverFrom o.maxBytes (i.pieces.map key)
      ⟨⟨i.disk, .start agentId o (i.adopted agentId n)⟩, []⟩ with
  | done u w =>
    rw [ho] at hspec
    obtain ⟨⟨k, found, hm, hk, hall, hw⟩, -⟩ := hspec
    rw [nil_append] at hk
    subst hk
    exact ⟨k, ⟨hm, hall⟩, congrArg (fun s => some s.wal) hw⟩
  | fail e w =>
    rw [ho] at hspec
    obtain ⟨⟨-, -, hf | hns⟩, -⟩ := hspec
    · exact absurd hf not_faulty_nil
    · exact absurd hs hns
  | crash w =>
    rw [ho] at hspec
    exact absurd hspec.2 not_deadly_nil

theorem Mended.found_blocked (hm : Mended i j) (hi : i.Ok agentId) (hn : i.Newer agentId n)
    {now : Instant} (hb : (j.reopened agentId n).Blocked now 0) :
    ∃ w, i.disk.found agentId n o = some w ∧ w.blocked now 0 = true := by
  obtain ⟨k, hk, hfound⟩ := hi.found hn hm.sound
  refine ⟨_, hfound, ?_⟩
  have hsegs : k.pieces.map segment = j.pieces.map segment :=
    hk.segments.trans hm.segments.symm
  have hbytes : (k.pieces.map bytes).sum = (j.pieces.map bytes).sum := by
    have := congrArg (fun ss => (ss.map Segment.bytes).sum) hsegs
    simpa [Function.comp_def] using this
  obtain ⟨hack, hgaps⟩ := (hm.ok hi).reopened_coverage (hm.newer hn)
  obtain ⟨hack', hgaps'⟩ := i.adopted_coverage agentId n
  rw [hm.mends.saved] at hack hgaps
  have hsum : (j.reopened agentId n).bytes = (j.pieces.map bytes).sum := by
    rw [Log.bytes, Image.reopened_pieces]
  have hblocked := hb.blocked
  simp only [WAL.blocked, Log.wal, Metadata.recordedOtherwise, expired, hack, hgaps, hsum]
    at hblocked
  simp only [WAL.blocked, WAL.holding, WAL.start, nil_append, Nat.zero_add,
    Metadata.recordedOtherwise, expired, hack', hgaps', hsegs, hbytes]
  exact hblocked

end Found

/-! ## The invariant -/

structure Log.Grounded (l : Log o) : Prop where
  explained : l.Explained
  solid : l.Solid
  forced : l.Forced

structure Image.Grounded (i : Image o) : Prop where
  explained : ∀ m, i.saved = some m → i.Spans (Accounted m)
  solid : i.Spans fun c => ∀ k ∈ i.keys, c < k
  trails : Trails i.pieces

section Grounded

variable {l m : Log o} {i j : Image o}

theorem Steps.grounded {new : List DecodedFrame} (hs : Steps l new m) (h : l.Ok) (hl : l.Grounded) :
    m.Grounded :=
  ⟨hs.explained h hl.explained, hs.solid h hl.solid, hs.forced h hl.forced⟩

theorem Rebinds.grounded {a : String} (hr : Rebinds l a m) (h : l.Ok) (hl : l.Grounded)
    (hf : l.Forgettable) : m.Grounded :=
  ⟨hr.explained h hl.explained hf, hr.solid h hl.solid, hr.forced h hl.forced⟩

theorem Log.Grounded.image (hl : l.Grounded) (h : l.Ok) : l.image.Grounded :=
  ⟨fun m hm => (hl.explained.saved m hm).image, hl.solid.image, hl.forced.image h⟩

theorem Log.torn_keys (l : Log o) (tail : List Byte) (ht : Torn o.maxBytes tail) :
    (l.torn tail ht).image.keys = l.image.keys := by
  cases ha : l.active <;>
    simp [Image.keys, Log.image, Log.pieces, Log.torn, ha, withTail]

theorem Log.Grounded.torn_image (hl : l.Grounded) (h : l.Ok) (tail : List Byte)
    (ht : Torn o.maxBytes tail) : (l.torn tail ht).image.Grounded := by
  have hkeys := l.torn_keys tail ht
  have hframes : (l.torn tail ht).image.frames = l.image.frames := l.torn_frames tail ht
  have hi := hl.image h
  refine ⟨fun m hm => ?_, ?_, hl.forced.torn_image h tail ht⟩
  · rw [Image.Spans, hkeys, hframes]
    exact hi.explained m hm
  · rw [Image.Spans, hkeys, hframes]
    exact hi.solid

theorem Image.Grounded.mends (hi : i.Grounded) (hm : Mends i j) : j.Grounded := by
  refine ⟨fun m hs => (hi.explained m (hm.saved ▸ hs)).mends hm, ?_, hm.trails hi.trails⟩
  intro c hpos hb
  rcases hi.solid.mends hm c hpos hb with hon | hlt
  · exact .inl hon
  · exact .inr fun k hk => hlt k (hm.keys_subset k hk)

theorem Image.Grounded.lose (hi : i.Grounded) (hok : i.Ok agentId) (keep : Cursor → Nat) :
    (i.lose keep).Grounded := by
  refine ⟨fun m hm => (hi.explained m hm).lose hok hi.trails keep, ?_, i.lose_trails keep⟩
  rw [Image.lose_keys]
  exact hi.solid.lose hok hi.trails keep

theorem Image.Grounded.reopened {n : Nat} (hi : i.Grounded) (hok : i.Ok agentId)
    (hn : i.Newer agentId n) : (i.reopened agentId n).Grounded :=
  ⟨hok.reopened_explained hn hi.explained, hok.reopened_solid hn hi.solid,
    hok.reopened_forced hn hi.trails⟩

theorem Mended.grounded {n : Nat} (hm : Mended i j) (hi : i.Grounded) (hok : i.Ok agentId)
    (hn : i.Newer agentId n) : (j.reopened agentId n).Grounded :=
  (hi.mends hm.mends).reopened (hm.ok hok) (hm.newer hn)

theorem Image.Grounded.empty : (Image.empty : Image o).Grounded where
  explained := by simp [Image.empty]
  solid := by rintro c - ⟨k, hk, -⟩; cases hk
  trails := .nil

theorem Image.Spans.not_rejected (hm : Mends i j) {G : Fault → Prop} {d : Metadata} {e : WalError}
    (hspans : i.Spans (Accounted d)) (hr : Rejects G i j d e) : e.isInvariant = false := by
  rcases hr with ⟨he, -⟩ | ⟨-, -, hu⟩
  · exact he
  · exact absurd hu (hspans.mends hm).not_unexplained

end Grounded

structure Log.Firm (l : Log o) : Prop where
  filled : ¬ l.Phantom
  grounded : l.Grounded

def View.Firm : View o → Prop
  | .up l => l.Firm
  | .down _ i => i.Grounded

/-- What the background loop has kept is not an invariant error either. -/
structure View.Sturdy (v : View o) : Prop where
  firm : v.Firm
  healthy : ∀ l, v = .up l → ∀ e, l.backgroundErr = some e → e.isInvariant = false

section Run

variable {l m : Log o} {i : Image o} {fs : List Fault} {c : Call}

theorem Moves.filled_of_untorn {n : List DecodedFrame} (hm : Moves fs c l n m)
    (hu : untorn fs = true) (hl : ¬ l.Phantom) : ¬ m.Phantom := by
  rcases hm.filled with hp | ⟨k, hk⟩
  · exact hp hl
  · exact absurd hk (untorn.only hu k)

theorem Behaves.firm {n : List DecodedFrame} (hb : Behaves fs c l n m) (hu : untorn fs = true)
    (h : l.Ok) (hl : l.Firm) (hforget : l.wal.mayForget c = true) : m.Firm := by
  refine ⟨hb.filled_of_untorn hu hl.filled, ?_⟩
  rcases hb.moves with hs | ⟨-, a, rfl, hr⟩
  · exact hs.grounded h hl.grounded
  · exact hr.grounded h hl.grounded (hr.forgettable h hl.filled hl.grounded.solid hforget)

theorem Behaves.healthy {n : List DecodedFrame} (hb : Behaves fs c l n m)
    (hl : (View.up l).Sturdy) (hstuck : l.wal.stuck c = false) {e : WalError}
    (he : m.backgroundErr = some e) : e.isInvariant = false := by
  rcases hb.background with hbg | ⟨-, hbg⟩ | ⟨now, rfl, x, hx, hwhy⟩
  · exact hl.healthy l rfl e (hbg ▸ he)
  · rw [hbg] at he; cases he
  · rw [hx] at he
    cases he
    rcases hwhy with ⟨-, hi⟩ | hp | hbl
    · exact hi
    · exact absurd hp hl.firm.filled
    · have : l.wal.stuck (.tick now) = true := hbl.blocked
      rw [hstuck] at this
      cases this

theorem Dies.grounded (hd : Dies fs c l i) (h : l.Ok) (hl : l.Firm)
    (hforget : l.wal.mayForget c = true) : i.Grounded := by
  rcases hd.left with ⟨new, k, tail, ht, -, hs, rfl⟩ | ⟨a, k, rfl, hr, rfl⟩
  · exact (hs.grounded h hl.grounded).torn_image (hs.ok h) tail ht
  · exact (hr.grounded h hl.grounded
      (hr.forgettable h hl.filled hl.grounded.solid hforget)).image (hr.ok h)

theorem View.careful_call {l : Log o}
    (hc : (Event.call c fs).careful (View.up l).machine = true) :
    untorn fs = true ∧ l.wal.mayForget c = true := Bool.and_eq_true_iff.mp hc

theorem View.orderly_call {l : Log o}
    (hc : (Event.call c fs).orderly agentId o (View.up l).machine = true) :
    l.wal.stuck c = false := by
  have hs : (!l.wal.stuck c) = true := (Bool.and_eq_true_iff.mp hc).2
  simpa using hs

theorem Trans.firm (hagent : agentId ≠ "") {v v' : View o} {r : Reply}
    (ht : Trans agentId v e v' r) (hv : v.Ok agentId) (hs : v.Firm)
    (hc : e.careful v.machine = true) : v'.Firm := by
  cases ht with
  | call r hb | callFailed hb _ =>
    obtain ⟨hu, hforget⟩ := View.careful_call hc
    exact hb.firm hu hv.1 hs hforget
  | callDied hd => exact hd.grounded hv.1 hs (View.careful_call hc).2
  | close hst _ _ _ | closeFailed _ hst _ _ =>
    exact (hst.grounded hv.1 hs.grounded).image (hst.ok hv.1)
  | closeDied ht _ hst _ => exact (hst.grounded hv.1 hs.grounded).torn_image (hst.ok hv.1) _ ht
  | die => exact hs.grounded.image hv.1
  | lose keep => exact Image.Grounded.lose hs hv.1 keep
  | recover hm => exact Image.Grounded.mends hs hm.mends
  | recoverFailed hm _ | recoverDied _ hm => exact Image.Grounded.mends hs hm
  | reopen hn hop _ =>
    have hnew := hv.newer hagent hn
    exact ⟨by simp [Log.Phantom, hop.active],
      hop.steps.grounded (hop.mended.reopened hv.1 hnew) (hop.mended.grounded hs hv.1 hnew)⟩
  | reopenRejected _ hm _ => exact Image.Grounded.mends hs hm
  | reopenFailed hn hm hst _ _ =>
    have hnew := hv.newer hagent hn
    have hok := hm.reopened hv.1 hnew
    exact (hst.grounded hok (hm.grounded hs hv.1 hnew)).image (hst.ok hok)
  | reopenDiedEarly _ _ hm => exact Image.Grounded.mends hs hm
  | reopenDied ht hn _ hm hst _ =>
    have hnew := hv.newer hagent hn
    have hok := hm.reopened hv.1 hnew
    exact (hst.grounded hok (hm.grounded hs hv.1 hnew)).torn_image (hst.ok hok) _ ht
  | ignored _ => exact hs

theorem Trans.sturdy (hagent : agentId ≠ "") {v v' : View o} {r : Reply}
    (ht : Trans agentId v e v' r) (hv : v.Ok agentId) (hs : v.Sturdy)
    (hc : e.orderly agentId o v.machine = true) : v'.Sturdy := by
  refine ⟨ht.firm hagent hv hs.firm (Event.orderly_careful hc), ?_⟩
  rintro m rfl e he
  cases ht with
  | call r hb | callFailed hb _ => exact hb.healthy hs (View.orderly_call hc) he
  | reopen _ hop _ => rw [hop.background] at he; cases he
  | ignored _ => exact hs.healthy m rfl e he

/-! ## Errors -/

theorem Call.Blames.mayRefuse {e : WalError} (hb : c.Blames l e) (hl : (View.up l).Sturdy)
    (hstuck : l.wal.stuck c = false) (he : e.isInvariant = true) : c.MayRefuse e := by
  rcases hb with hr | hbg | hp | hs
  · exact hr
  · rw [hl.healthy l rfl e hbg] at he; cases he
  · exact absurd hp hl.firm.filled
  · rw [hs.stuck] at hstuck; cases hstuck

theorem Trans.mayRefuse (hagent : agentId ≠ "") {v v' : View o} {err : WalError}
    (ht : Trans agentId v e v' (.failed err)) (hv : v.Ok agentId) (hs : v.Sturdy)
    (hc : e.orderly agentId o v.machine = true) (herr : err.isInvariant = true) :
    ∃ c fs, e = .call c fs ∧ c.MayRefuse err := by
  have clean : err.isInvariant ≠ false := by simp [herr]
  cases ht with
  | callFailed hb hwhy =>
    refine ⟨_, _, rfl, ?_⟩
    rcases hwhy with hi | hbl
    · exact absurd hi clean
    · exact hbl.mayRefuse hs (View.orderly_call hc) herr
  | closeFailed _ _ _ hwhy =>
    rcases hwhy with ⟨-, hi⟩ | hp | hb
    · exact absurd hi clean
    · exact absurd hp hs.firm.filled
    · exact absurd (hs.healthy _ rfl err hb) clean
  | recoverFailed hm hrej =>
    exact absurd ((hv.1.spans_saved hs.firm.explained).not_rejected hm hrej) clean
  | reopenRejected _ hm hrej =>
    exact absurd ((hv.1.spans_adopted hs.firm.explained _).not_rejected hm hrej) clean
  | reopenFailed hn hm _ _ hwhy =>
    rcases hwhy with ⟨-, hi⟩ | ⟨-, hb⟩
    · exact absurd hi clean
    obtain ⟨w, hw, hblocked⟩ := hm.found_blocked hv.1 (hv.newer hagent hn) hb
    have hfree := (Bool.and_eq_true_iff.mp hc).2
    simp only [View.machine, hw, Option.all_some, hblocked, Bool.not_true,
      Bool.false_eq_true] at hfree

end Run

theorem View.Ok.metadata_valid {v : View o} (hv : v.Ok agentId) :
    (∀ s, v.machine.node.state? = some s → validateMetadata s.wal.metadata = .ok ()) ∧
      ∀ d, v.machine.node.disk.metadata = some d → validateMetadata d = .ok () := by
  cases v with
  | up l =>
    refine ⟨fun s hs => ?_, fun d hd => validateMetadata_ok.mpr (hv.1.saved d hd).valid⟩
    cases hs
    exact validateMetadata_ok.mpr hv.1.valid
  | down n i =>
    refine ⟨fun s hs => ?_, fun d hd => validateMetadata_ok.mpr (hv.1.saved d hd).valid⟩
    cases hs

/-- After any orderly run, whatever failed or was cut off in it, the metadata in memory and on disk
is valid, and the next event reports no invariant error other than those of `Call.MayRefuse`. -/
theorem orderly_run_stays_valid (hagent : agentId ≠ "") (n : Nat) (es : List Event)
    (hes : Machine.Along agentId o (fun m e => e.orderly agentId o m = true) (.fresh n) es) :
    let m := Machine.run agentId o (.fresh n) es
    (∀ s, m.node.state? = some s → validateMetadata s.wal.metadata = .ok ()) ∧
      (∀ d, m.node.disk.metadata = some d → validateMetadata d = .ok ()) ∧
      ∀ e err, e.orderly agentId o m = true → (Machine.step agentId o m e).2 = .failed err →
        err.isInvariant = true → ∃ c fs, e = .call c fs ∧ c.MayRefuse err := by
  obtain ⟨v, hrun, hv, hs⟩ := run_view (o := o) hagent
    (C := fun m e => e.orderly agentId o m = true) (I := View.Sturdy)
    (fun m e hc => Event.careful_whole (Event.orderly_careful hc))
    (fun hv hs hc ht => ht.sturdy hagent hv hs hc) es (v := .down n .empty) (View.fresh_ok n)
    ⟨Image.Grounded.empty, by simp⟩ hes
  have hm : Machine.run agentId o (.fresh n) es = v.machine := hrun
  rw [hm]
  obtain ⟨hmem, hdisk⟩ := hv.metadata_valid
  refine ⟨hmem, hdisk, fun e err hc hr herr => ?_⟩
  obtain ⟨v', ht, -⟩ := step_trans hagent hv (Event.careful_whole (Event.orderly_careful hc))
  rw [hr] at ht
  exact ht.mayRefuse hagent hv hs hc herr

def interruptedRun : List Event :=
  [.reopen (unixTime 1) [], .call (.append false (unixTime 2) [1]) [], .call .sync [],
    .call (.reclaimUnacked (unixTime 3) 1) [.ok, .fail]]

theorem interruptedRun_stays_valid :
    let m := Machine.run "agent" (normalizeOptions ⟨0, 0, 0⟩) (.fresh 0) interruptedRun
    (Machine.step "agent" (normalizeOptions ⟨0, 0, 0⟩) m
        (.call (.reclaimUnacked (unixTime 4) 1) [])).2 = .done none ∧
      ∀ d, m.node.disk.metadata = some d → validateMetadata d = .ok () := by
  refine ⟨by decide +kernel, ?_⟩
  exact (orderly_run_stays_valid (by decide) 0 interruptedRun (by decide +kernel)).2.1

/-- The same segment once it is too old as well: retention cannot delete it any more, and the WAL
cannot be opened any more. -/
theorem second_reason_stuck :
    let m := Machine.run "agent" (normalizeOptions ⟨0, 0, 0⟩) (.fresh 0) interruptedRun
    let late := unixTime (2 * defaultMaxAge)
    let overlap : WalError := .wrapped "auditwal: persist coverage before deletion"
      (.invariant "coverage gaps overlap or are unsorted")
    (Machine.step "agent" (normalizeOptions ⟨0, 0, 0⟩) m (.call (.enforceLimits late) [])).2 =
        .failed overlap ∧
      (Machine.step "agent" (normalizeOptions ⟨0, 0, 0⟩)
        (Machine.step "agent" (normalizeOptions ⟨0, 0, 0⟩) m .die).1 (.reopen late [])).2 =
          .failed overlap := by
  decide +kernel

end DockLattice.Wal
