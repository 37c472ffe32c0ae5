import DockLattice.Wal.Once
import DockLattice.Wal.SimOps

/-!
# DockLattice.Wal.SimCalls

The calls of an open WAL as runs of the journal: `Append`, `AppendOnce`, `Sync`, `AckAudit`,
`EnforceLimits`, the reclaim calls and one turn of the background loop. `RebindArchive` is a run
followed by a change of archive.
-/

namespace DockLattice.Wal

open Bytes Effect Log

variable {o : Options} {G : Fault → Prop} {W : List DecodedFrame → Prop}
variable {f : DecodedFrame} {incoming : Nat} {l l' m : Log o} {new : List DecodedFrame}
  {now : Instant} {p : Piece o.maxBytes}

theorem Step.agentId (h : Step l new l') :
    l'.agentId = l.agentId := by cases h <;> rfl

theorem Steps.agentId (h : Steps l new l') : l'.agentId = l.agentId := by
  induction h with
  | refl l => rfl
  | cons hs _ ih => exact ih.trans hs.agentId

theorem Step.incarnation (h : Step l new l') :
    l'.metadata.currentIncarnation = l.metadata.currentIncarnation := by cases h <;> rfl

theorem Steps.incarnation (h : Steps l new l') :
    l'.metadata.currentIncarnation = l.metadata.currentIncarnation := by
  induction h with
  | refl l => rfl
  | cons hs _ ih => exact ih.trans hs.incarnation

theorem Step.saves_current {m : Metadata} (h : Proposes l m) :
    Log.Current { l with saved := some m } := by
  cases h with
  | gap _ _ => exact ⟨_, rfl, by simp [Metadata.withGap]⟩
  | sealing | ack | reopened => exact ⟨_, rfl, rfl⟩

theorem Step.current (h : Step l new l') (hcur : l.Current) : l'.Current := by
  cases h with
  | save hp _ => exact saves_current hp
  | _ => exact hcur

theorem Steps.current (h : Steps l new l') (hcur : l.Current) : l'.Current := by
  induction h with
  | refl l => exact hcur
  | cons hs _ ih => exact ih (hs.current hcur)

/-! ## Append -/

/-- A gap that retention would record at this moment overlaps one recorded for disk pressure. -/
def Log.Blocked (l : Log o) (now : Instant) (incoming : Nat) : Prop :=
  l.Mismatch .retention ∧ l.Expires now incoming

theorem flushed_head (h : l.Ok) (ha : l.active = some p) (hne : p.frames ≠ []) {r : GapReason}
    (hm : (l.flushed p).Mismatch r) : ∃ q rest, l.sealed = q :: rest := by
  obtain ⟨q, rest, g, hs, hg, hcov, -⟩ := hm
  cases hl : l.sealed with
  | cons q rest => exact ⟨q, rest, rfl⟩
  | nil =>
    have hq : p.sync = q := by simpa [flushed, hl] using congrArg List.head? hs
    subst hq
    obtain ⟨f, hf, -⟩ := p.exists_first hne
    have hb := (h.placed g hg).active p ha
    exact absurd (lt_of_le_of_lt (p.key_le hf)
      ((hcov.contains (p := p.sync) hf).lt_of_endsBefore hb)) (lt_irrefl _)

theorem flushed_bytes (ha : l.active = some p) : (l.flushed p).bytes = l.bytes := by
  simp [bytes, pieces, flushed, ha]

theorem flushed_mismatch (h : l.Ok) (ha : l.active = some p) (hne : p.frames ≠ []) {r : GapReason}
    (hm : (l.flushed p).Mismatch r) : l.Mismatch r := by
  obtain ⟨q, rest, hl⟩ := flushed_head h ha hne hm
  obtain ⟨q', rest', g, hs, hg, hcov, hr⟩ := hm
  have hq : q = q' := by simpa [flushed, hl] using congrArg List.head? hs
  exact ⟨q, rest, g, hl, hg, hq ▸ hcov, hr⟩

theorem flushed_blocked (h : l.Ok) (ha : l.active = some p) (hne : p.frames ≠ [])
    (hb : (l.flushed p).Blocked now incoming) : l.Blocked now incoming := by
  obtain ⟨hm, he⟩ := hb
  obtain ⟨q, rest, hl⟩ := flushed_head h ha hne hm
  refine ⟨flushed_mismatch h ha hne hm, ?_⟩
  intro q' hq'
  have := he q' (by simpa [flushed, hl] using hq')
  have hack : (l.flushed p).metadata.serverAck = l.metadata.serverAck := rfl
  simpa [expired, wal, flushed_bytes ha, hack] using this

inductive Flushed (l : Log o) : Log o → Prop where
  | idle : l.active = none → Flushed l l
  | sealed {p : Piece o.maxBytes} : l.active = some p → p.frames ≠ [] → Flushed l (l.flushed p)

namespace Flushed

section

variable (h : Flushed l m)

include h

theorem active : m.active = none := by
  cases h with
  | idle ha => exact ha
  | sealed _ _ => rfl

theorem next : m.next = l.next := by cases h <;> rfl

theorem backgroundErr : m.backgroundErr = l.backgroundErr := by cases h <;> rfl

theorem frames : m.frames = l.frames := by
  cases h with
  | idle _ => rfl
  | sealed ha _ => simp [frames, pieces, flushed, ha]

theorem not_phantom : ¬ m.Phantom := by
  simp [Log.Phantom, h.active]

theorem blocked (hok : l.Ok) (hb : m.Blocked now incoming) : l.Blocked now incoming := by
  cases h with
  | idle _ => exact hb
  | sealed ha hne => exact flushed_blocked hok ha hne hb

theorem tidy (hok : l.Ok) (ht : l.Tidy) : m.Tidy := by
  cases h with
  | idle _ => exact ht
  | @sealed p ha hne =>
    refine ⟨fun q hq => ?_, fun r hm => ht.clear r (flushed_mismatch hok ha hne hm), ?_⟩
    · rcases List.mem_append.mp hq with hq | hq
      · exact ht.unacked q hq
      rw [List.mem_singleton] at hq
      subst hq
      exact not_segmentACKed_iff.mpr fun a hack =>
        lt_of_lt_of_le (hok.active_unacked p ha a hack) p.key_le_last
    · rintro d hd; cases hd; exact ⟨rfl, rfl⟩

theorem tidies (hok : l.Ok) : Tidies G l m := .inr (.inr (h.tidy hok))

end

end Flushed

theorem Log.mem_frames_wrote (hc : f.cursor = p.next) (hf : f.Fits o.maxBytes) :
    f ∈ (l.wrote p f hc hf).frames := by
  simp [frames, pieces, wrote, Piece.snoc]

theorem syncLocked_flushes (hok : Env G W) (h : l.Ok) :
    Runs G W l syncLocked (fun _ n m => n = [] ∧ Flushed l m)
      (fun e n m => n = [] ∧ (¬ l.Phantom → ¬ m.Phantom) ∧
        (IoError G e ∨ (l.Phantom ∧ e.isInvariant = true))) := by
  refine (syncLocked_runs hok h).weaken ?_ fun _ _ _ _ he => he
  rintro _ n m - ⟨rfl, ⟨ha, rfl⟩ | ⟨p, ha, hne, rfl⟩⟩
  · exact ⟨rfl, .idle ha⟩
  · exact ⟨rfl, .sealed ha hne⟩

theorem createActiveLocked_runs (hok : Env G W) (h : l.Ok) (ha : l.active = none)
    (hcur : l.Current) (now : Instant) :
    Runs G W l (createActiveLocked l.next now)
      (fun _ n m => n = [] ∧ m = { l with active := some (.fresh l.next now) })
      (fun e n m => n = [] ∧ m = l ∧ IoError G e) := by
  let l₁ : Log o := { l with active := some (.fresh l.next now) }
  have hstep : Steps l [] l₁ := .single (.create now ha hcur)
  unfold createActiveLocked
  refine Spec.bind (Q := fun _ s => s = ⟨l₁.disk, l.wal⟩) ?_ fun _ => ?_
  · refine Spec.attempt (E := fun e s => s = l.toState ∧ IoError G e)
      ?_ fun e => Spec.throw ?_
    · unfold createFile
      refine Spec.read ?_
      simp only [toState, file?_next h ha]
      exact atomically_spec hok.ok (disk_create ha now)
        (fun _ he => ⟨rfl, he⟩) (Left.of_steps hok.nil (.refl l)) (Left.of_steps hok.nil hstep)
    · rintro s ⟨rfl, hf, hi⟩; exact ⟨[], l, .refl l, ⟨rfl, rfl, hf, hi⟩, rfl⟩
  · refine Spec.modify ?_
    rintro s rfl
    refine ⟨[], l₁, hstep, ⟨rfl, rfl⟩, ?_⟩
    simp [toState, wal, l₁, Piece.segment, Piece.fresh, Piece.last, Piece.newestAt,
      Piece.bytes, bytes, pieces, ha]

def AppendFails (G : Fault → Prop) (l : Log o) (now : Instant) (incoming : Nat) (e : WalError) :
    Prop :=
  (Faulty G ∧ e.isInvariant = false) ∨
    (e.isInvariant = true ∧ (l.Phantom ∨ l.Blocked now incoming))

theorem AppendFails.tidies {e : WalError} (h : AppendFails G l now incoming e) : Tidies G l m := by
  rcases h with ⟨hf, -⟩ | ⟨-, hp | hb⟩
  · exact .inl hf
  · exact .inr (.inl hp)
  · exact .of_mismatch hb.1

def StaysFilled (G : Fault → Prop) (l m : Log o) : Prop :=
  (¬ l.Phantom → ¬ m.Phantom) ∨ ∃ k, G (.torn k)

theorem Log.Tidy.wrote {k : Log o} (ht : l.Tidy) (hc : f.cursor = p.next) (hf : f.Fits o.maxBytes)
    (hs : k.sealed = l.sealed) (hm : k.metadata = l.metadata) (hsv : k.saved = l.saved) :
    (k.wrote p f hc hf).Tidy := by
  refine ⟨fun q hq => ?_, fun r hmis => ht.clear r ?_, fun d hd => ?_⟩
  · have := ht.unacked q (hs ▸ hq)
    rw [← hm] at this
    exact this
  · obtain ⟨q, rest, g, hq, hg, hcov, hr⟩ := hmis
    exact ⟨q, rest, g, hs ▸ hq, hm ▸ hg, hcov, hr⟩
  · have := ht.saved d (hsv ▸ hd)
    rw [← hm] at this
    exact this

theorem appendFrame_runs (hok : Env G W) (hG : ∀ k, G (.torn k) → k = 0) (h : l.Ok)
    (hcur : l.Current) (hc : f.cursor = l.next) (hf : f.Fits o.maxBytes)
    (hn : l.metadata.nextSeq ≠ maxUint64) (hw : W [f]) :
    Runs G W l (appendFrame f f.encode)
      (fun r n m => n = [f] ∧ r = Record.of l.agentId f ∧ ¬ m.Phantom ∧ (l.Tidy → m.Tidy) ∧
        f ∈ m.frames)
      (fun e n m => (n = [] ∨ n = [f]) ∧ StaysFilled G l m ∧
        AppendFails G l f.appendedAt f.bytes e) := by
  unfold appendFrame
  refine Runs.get ?_
  -- make room by sealing the open segment
  refine Runs.bind (Q := fun _ n m => n = [] ∧ m.next = l.next ∧ (l.Tidy → m.Tidy) ∧
      (¬ l.Phantom → ¬ m.Phantom) ∧
      (m.Blocked f.appendedAt f.bytes → l.Blocked f.appendedAt f.bytes) ∧
      (m.active = none ∨ m.bytes + f.bytes ≤ o.maxBytes))
    (Runs.when (fun hcond => (syncLocked_flushes hok h).weaken ?_ ?_) fun hcond => ?_) ?_
  · rintro _ n m - ⟨rfl, hfl⟩
    exact ⟨rfl, hfl.next, hfl.tidy h, fun _ => hfl.not_phantom, hfl.blocked h, .inl hfl.active⟩
  · rintro e n m - ⟨rfl, hph, hfails⟩
    exact ⟨.inl rfl, .inl hph, hfails.imp_right fun hx => ⟨hx.2, .inl hx.1⟩⟩
  · refine ⟨rfl, rfl, id, id, id, ?_⟩
    simp only [toState, wal, Option.isSome_map, DecodedFrame.length_encode, not_and,
      Nat.not_lt, gt_iff_lt] at hcond
    cases ha : l.active with
    | none => exact .inl rfl
    | some p => exact .inr (hcond (by simp [ha]))
  rintro _ n l₁ hs₁ ⟨rfl, hnext₁, htidy₁, hph₁, hbl₁, hroom₁⟩
  have h₁ := hs₁.ok h
  -- age and size retention
  refine Runs.bind (Q := fun _ n m => n = [] ∧ Pruned l₁ m ∧ (l₁.Tidy → m.Tidy) ∧
      m.Settled f.appendedAt f.bytes)
    ((enforceRetentionLocked_runs hok h₁ f.appendedAt f.encode.length).weaken ?_ ?_) ?_
  · rintro _ n m - ⟨rfl, hpr, htidy, hset, -⟩
    exact ⟨rfl, hpr, htidy, by simpa using hset⟩
  · rintro e n m - ⟨rfl, hpr, hfails⟩
    refine ⟨.inl rfl, .inl fun hp => by rw [hpr.phantom]; exact hph₁ hp, hfails.imp_right ?_⟩
    exact fun hx => ⟨hx.2.1, .inr (hbl₁ ⟨hx.1, by simpa using hx.2.2⟩)⟩
  rintro _ n l₂ hs₂ ⟨rfl, hpr, htidy₂, hset⟩
  have h₂ := hs₂.ok h₁
  have hnext₂ : l₂.next = l.next := hpr.next.trans hnext₁
  have hroom₂ : l₂.bytes + f.bytes ≤ o.maxBytes := by
    rcases hroom₁ with ha | hb
    · cases hs : l₂.sealed with
      | nil =>
        have hfit := hf.bytes_le
        simp [bytes, pieces, hs, hpr.active, ha]; exact hfit
      | cons q rest =>
        have := (hset q (by simp [hs])).2
        simp only [expired, Bool.or_eq_false_iff, decide_eq_false_iff_not] at this
        simpa [wal] using this.2
    · have := hpr.bytes_le; omega
  have hn₂ : l₂.metadata.nextSeq ≠ maxUint64 := by
    have hseq := congrArg Cursor.seq hnext₂
    simp only [next] at hseq
    rw [hseq]; exact hn
  refine Runs.get ?_
  -- open a segment if there is none
  refine Runs.bind (Q := fun _ n m => n = [] ∧ m.bytes + f.bytes ≤ o.maxBytes ∧
      m.active.isSome = true ∧ m.sealed = l₂.sealed ∧ m.metadata = l₂.metadata ∧
      m.saved = l₂.saved)
    (Runs.when (fun hcond => ?_) fun hcond => ?_) ?_
  · have ha : l₂.active = none := by simpa [toState, wal] using hcond
    rw [hc.trans hnext₂.symm]
    refine (createActiveLocked_runs hok h₂ ha (hs₂.current (hs₁.current hcur))
      f.appendedAt).weaken ?_ ?_
    · rintro _ n m - ⟨rfl, rfl⟩
      refine ⟨rfl, ?_, rfl, rfl, rfl, rfl⟩
      simpa [bytes, pieces, ha, Piece.fresh, Piece.bytes] using hroom₂
    · rintro e n m - ⟨rfl, rfl, hio⟩
      exact ⟨.inl rfl, .inl fun hp => by rw [hpr.phantom]; exact hph₁ hp, .inl hio⟩
  · refine ⟨rfl, hroom₂, ?_, rfl, rfl, rfl⟩
    simpa [toState, wal, Option.isSome_iff_ne_none] using hcond
  rintro _ n l₃ hs₃ ⟨rfl, hroom₃, hsome, hseal₃, hmeta₃, hsaved₃⟩
  have h₃ := hs₃.ok h₂
  have hagent : l₃.agentId = l.agentId :=
    hs₃.agentId.trans (hs₂.agentId.trans hs₁.agentId)
  have hnext₃ : l₃.next = l.next := by
    rw [← hnext₂]; simp only [next, hmeta₃]
  obtain ⟨p, hp⟩ := Option.isSome_iff_exists.mp hsome
  have hcp : f.cursor = p.next := by rw [hc, ← hnext₃, h₃.active_next p hp]
  refine Runs.get ?_
  simp only [toState, wal, hp, Option.map_some]
  refine writeFrame_runs hok hG h₃ hp hcp hf (hmeta₃ ▸ hn₂) hroom₃ ?_ hw ?_
  · intro e hflt ht hi
    exact ⟨.inl rfl, .inr ht, .inl ⟨hflt, hi⟩⟩
  -- sync once enough is pending
  have h₄ : (l₃.wrote p f hcp hf).Ok := h₃.write hp hcp hf (hmeta₃ ▸ hn₂) hroom₃
  have hfull : ¬ (l₃.wrote p f hcp hf).Phantom := by
    simp [Log.Phantom, wrote, Piece.snoc]
  have htidy₄ : l.Tidy → (l₃.wrote p f hcp hf).Tidy := fun ht =>
    (htidy₂ (htidy₁ ht)).wrote hcp hf hseal₃ hmeta₃ hsaved₃
  have hmem : f ∈ (l₃.wrote p f hcp hf).frames := mem_frames_wrote hcp hf
  refine Runs.get (Runs.bind (Q := fun _ n m => n = [] ∧ ¬ m.Phantom ∧
      (l.Tidy → m.Tidy) ∧ f ∈ m.frames)
    (Runs.when (fun _ => (syncLocked_flushes ⟨hok.ok, hw⟩ h₄).weaken ?_ ?_)
      fun _ => ⟨rfl, hfull, htidy₄, hmem⟩) ?_)
  · rintro _ n m - ⟨rfl, hfl⟩
    exact ⟨rfl, hfl.not_phantom, fun ht => hfl.tidy h₄ (htidy₄ ht), by
      rw [hfl.frames]; exact hmem⟩
  · rintro e n m - ⟨rfl, hph, hio | ⟨hp', -⟩⟩
    · exact ⟨.inr rfl, .inl fun _ => hph hfull, .inl hio⟩
    · exact absurd hp' hfull
  · rintro _ n m - ⟨rfl, hph, htidy, hin⟩
    exact Runs.pure ⟨rfl, by simp [toState, wal, wrote, hagent], hph, htidy, hin⟩

def Refused (l : Log o) (e : WalError) : Prop :=
  l.backgroundErr = some e ∨ e = .canceled ∨ e = .recordTooLarge ∨
    (l.metadata.nextSeq = maxUint64 ∧ e = .invariant "sequence exhausted")

def Log.frameFor (l : Log o) (now : Instant) (payload : List Byte) : DecodedFrame :=
  ⟨l.next, now, payload⟩

theorem appendLocked_runs (hok : Env G W) (hG : ∀ k, G (.torn k) → k = 0) (h : l.Ok)
    (hcur : l.Current) (canceled : Bool) (now : Instant) (payload : List Byte)
    (hw : W [l.frameFor now payload]) :
    Runs G W l (appendLocked canceled now payload)
      (fun r n m => n = [l.frameFor now payload] ∧
        r = Record.of l.agentId (l.frameFor now payload) ∧ ¬ m.Phantom ∧ (l.Tidy → m.Tidy) ∧
        l.frameFor now payload ∈ m.frames)
      (fun e n m => (n = [] ∧ m = l ∧ Refused l e) ∨
        ((n = [] ∨ n = [l.frameFor now payload]) ∧ StaysFilled G l m ∧
          AppendFails G l now (l.frameFor now payload).bytes e)) := by
  unfold appendLocked
  refine Runs.get ?_
  rw [if_neg (by simp [toState, wal])]
  cases hbg : l.backgroundErr with
  | some e =>
    simp only [toState, wal, hbg]
    exact Runs.throw (.inl ⟨rfl, rfl, .inl hbg⟩)
  | none =>
    have hb : l.toState.wal.backgroundErr = none := hbg
    simp only [hb]
    split
    · exact Runs.throw (.inl ⟨rfl, rfl, .inr (.inl rfl)⟩)
    split
    · next hn => exact Runs.throw (.inl ⟨rfl, rfl, .inr (.inr (.inr ⟨hn, rfl⟩))⟩)
    next hn =>
    have hseq : l.metadata.nextSeq ≠ maxUint64 := hn
    split
    · exact Runs.throw (.inl ⟨rfl, rfl, .inr (.inr (.inl rfl))⟩)
    unfold encodeFrame
    by_cases hbody : envelopeHeaderBytes + payload.length > maxUint32
    · rw [if_pos hbody]; exact Runs.throw (.inl ⟨rfl, rfl, .inr (.inr (.inl rfl))⟩)
    rw [if_neg hbody]
    dsimp only
    split
    · exact Runs.throw (.inl ⟨rfl, rfl, .inr (.inr (.inl rfl))⟩)
    next hlen =>
    have hfits : (l.frameFor now payload).Fits o.maxBytes :=
      ⟨h.valid.incarnation_pos, h.incarnation_le, h.valid.next_pos,
        by have := h.next_le; simp only [frameFor, next]; omega, Nat.not_lt.mp hbody,
        by rw [← DecodedFrame.length_encode]; exact Nat.not_lt.mp hlen⟩
    exact (appendFrame_runs hok hG h hcur (f := l.frameFor now payload) rfl hfits hseq hw).failing fun _ _ _ _ he => .inr he

/-! ## Sync, retention and reclaim -/

theorem Runs.whenOpen {α : Type} {p : WalProg α} {Q : α → List DecodedFrame → Log o → Prop}
    {E : WalError → List DecodedFrame → Log o → Prop} (h : Runs G W l p Q E) :
    Runs G W l (Wal.whenOpen p) Q E := by
  unfold Wal.whenOpen
  refine Runs.get ?_
  simp only [toState, wal, Bool.false_eq_true, if_false]
  exact h

structure Quietly (G : Fault → Prop) (l m : Log o) (n : List DecodedFrame) : Prop where
  nothing : n = []
  filled : ¬ l.Phantom → ¬ m.Phantom
  tidies : Tidies G l m

theorem Quietly.refl (l : Log o) : Quietly G l l [] := ⟨rfl, id, .refl l⟩

theorem Flushed.quietly (h : Flushed l m) (hok : l.Ok) : Quietly G l m [] :=
  ⟨rfl, fun _ => h.not_phantom, h.tidies hok⟩

theorem Quietly.trans {k : Log o} {n n' : List DecodedFrame} (h : Quietly G l m n)
    (h' : Quietly G m k n') : Quietly G l k (n ++ n') :=
  ⟨by rw [h.nothing, h'.nothing]; rfl, fun hp => h'.filled (h.filled hp),
    h.tidies.trans h.filled h'.tidies⟩

theorem Pruned.quietly (h : Pruned l m) (ht : Tidies G l m) : Quietly G l m [] :=
  ⟨rfl, fun hp => by rwa [h.phantom], ht⟩

section

variable (hok : Env G W)

include hok

theorem syncLocked_quietly (h : l.Ok) :
    Runs G W l syncLocked (fun _ n m => n = [] ∧ Flushed l m)
      (fun e n m => Quietly G l m n ∧ (IoError G e ∨ l.Phantom)) := by
  refine (syncLocked_flushes hok h).failing ?_
  rintro e n m - ⟨rfl, hph, hio | ⟨hp, -⟩⟩
  · exact ⟨⟨rfl, hph, .inl hio.1⟩, .inl hio⟩
  · exact ⟨⟨rfl, hph, .inr (.inl hp)⟩, .inr hp⟩

theorem sync_runs (h : l.Ok) :
    Runs G W l sync (fun _ n m => Quietly G l m n)
      (fun e n m => Quietly G l m n ∧ (IoError G e ∨ l.Phantom)) := by
  unfold sync
  refine Runs.whenOpen (Runs.bind (syncLocked_quietly hok h) ?_)
  rintro _ n m - ⟨rfl, hfl⟩
  refine Runs.modify (.single (.background none)) rfl ⟨rfl, fun _ => hfl.not_phantom, ?_⟩
  exact .inr (.inr fun ht => ⟨(hfl.tidy h ht).unacked, (hfl.tidy h ht).clear,
    (hfl.tidy h ht).saved⟩)

theorem enforceRetentionLocked_quietly (h : l.Ok) (now : Instant) (incoming : Nat) :
    Runs G W l (enforceRetentionLocked now incoming)
      (fun _ n m => Quietly G l m n ∧ m.backgroundErr = l.backgroundErr)
      (fun e n m => Quietly G l m n ∧ m.backgroundErr = l.backgroundErr ∧
        (IoError G e ∨ l.Blocked now incoming)) := by
  refine (enforceRetentionLocked_runs hok h now incoming).weaken ?_ ?_
  · rintro _ n m - ⟨rfl, hpr, htidy, -, -⟩
    exact ⟨hpr.quietly (.inr (.inr htidy)), hpr.backgroundErr⟩
  · rintro e n m - ⟨rfl, hpr, hio | ⟨hm, -, he⟩⟩
    · exact ⟨hpr.quietly (.inl hio.1), hpr.backgroundErr, .inl hio⟩
    · exact ⟨hpr.quietly (.of_mismatch hm), hpr.backgroundErr, .inr ⟨hm, he⟩⟩

theorem enforceLimits_runs (h : l.Ok) (now : Instant) :
    Runs G W l (enforceLimits now) (fun _ n m => Quietly G l m n)
      (fun e n m => Quietly G l m n ∧ (IoError G e ∨
        l.Phantom ∨ l.Blocked now 0)) := by
  unfold enforceLimits
  refine Runs.whenOpen (Runs.bind ((syncLocked_quietly hok h).failing ?_) ?_)
  · rintro e n m - ⟨hq, hio | hp⟩
    · exact ⟨hq, .inl hio⟩
    · exact ⟨hq, .inr (.inl hp)⟩
  · rintro _ n m hsteps ⟨rfl, hfl⟩
    refine (enforceRetentionLocked_quietly hok (hsteps.ok h) now 0).weaken ?_ ?_
    · rintro _ n k - ⟨hq, -⟩
      exact (hfl.quietly h).trans hq
    · rintro e n k - ⟨hq, -, hio | hb⟩
      · exact ⟨(hfl.quietly h).trans hq, .inl hio⟩
      · exact ⟨(hfl.quietly h).trans hq, .inr (.inr (hfl.blocked h hb))⟩

theorem reclaimACKedForDiskPressure_runs (h : l.Ok) (now : Instant)
    (bytesNeeded : Int) :
    Runs G W l (reclaimACKedForDiskPressure now bytesNeeded)
      (fun _ n m => Quietly G l m n ∧ (m = l ∨ ∀ r, ¬ m.Mismatch r))
      (fun e n m => Quietly G l m n ∧ IoError G e) := by
  unfold reclaimACKedForDiskPressure
  refine Runs.whenOpen (Runs.get ?_)
  split
  · exact Runs.pure ⟨.refl l, .inl rfl⟩
  refine Runs.bind ((ackLoop_runs hok ?_ h 0).failing ?_) ?_
  · intro w freed seg hd
    simp only [Bool.and_eq_true] at hd
    exact hd.2
  · rintro e n m - ⟨rfl, hpr, hio⟩
    exact ⟨hpr.quietly (.inl hio.1), hio⟩
  · rintro freed n m - ⟨rfl, hpr, -, htidy, -, hclear⟩
    refine Runs.get (Runs.pure ⟨hpr.quietly (.inr (.inr htidy)), ?_⟩)
    rcases hclear with rfl | ⟨-, hclear⟩
    · exact .inl rfl
    · exact .inr hclear

end

/-- Disk pressure would record a gap over one recorded for retention. -/
def Log.Pressed (l : Log o) (bytesNeeded : Int) : Prop :=
  l.Mismatch .diskPressure ∧ 0 < bytesNeeded ∧
    ∀ p, l.sealed.head? = some p → segmentACKed p.segment l.metadata.serverAck = false

theorem reclaimUnackedForDiskPressure_runs (hok : Env G W) (h : l.Ok) (now : Instant)
    (bytesNeeded : Int) :
    Runs G W l (reclaimUnackedForDiskPressure now bytesNeeded)
      (fun _ n m => Quietly G l m n)
      (fun e n m => Quietly G l m n ∧ (IoError G e ∨
        l.Pressed bytesNeeded)) := by
  unfold reclaimUnackedForDiskPressure
  refine Runs.whenOpen (Runs.get ?_)
  split
  · exact Runs.pure (.refl l)
  rename_i hpos
  refine Runs.bind ((gapLoop_runs hok h 0 ?_).failing ?_) ?_
  · intro m freed p _ hm hd
    simp only [Bool.and_eq_true, Bool.not_eq_true'] at hd
    exact hd.2
  · rintro e n m - ⟨rfl, hpr, hio | ⟨hm, -, hdue⟩⟩
    · exact ⟨hpr.quietly (.inl hio.1), .inl hio⟩
    · refine ⟨hpr.quietly (.of_mismatch hm), .inr ⟨hm, by omega, fun p hp => ?_⟩⟩
      have := hdue p hp
      simp only [Bool.and_eq_true, Bool.not_eq_true'] at this
      exact this.2
  · rintro freed n m - ⟨rfl, hpr, htidy, -, -⟩
    exact Runs.get (Runs.pure (hpr.quietly (.inr (.inr htidy))))

theorem reclaimForDiskPressure_runs (hok : Env G W) (h : l.Ok) (now : Instant) (bytesNeeded : Int) :
    Runs G W l (reclaimForDiskPressure now bytesNeeded)
      (fun _ n m => Quietly G l m n)
      (fun e n m => Quietly G l m n ∧ (IoError G e ∨
        l.Pressed bytesNeeded)) := by
  unfold reclaimForDiskPressure
  refine Runs.bind ((reclaimACKedForDiskPressure_runs hok h now bytesNeeded).failing ?_) ?_
  · rintro e n m - ⟨hq, hio⟩; exact ⟨hq, .inl hio⟩
  rintro acked n m hsteps ⟨hq, hclear⟩
  obtain rfl := hq.nothing
  split
  · exact Runs.pure (by simpa using hq)
  refine Runs.bind ((reclaimUnackedForDiskPressure_runs hok (hsteps.ok h) now _).failing ?_) ?_
  · rintro e n' k - ⟨hq', hio | ⟨hm, hpos, hun⟩⟩
    · exact ⟨hq.trans hq', .inl hio⟩
    · refine ⟨hq.trans hq', .inr ?_⟩
      rcases hclear with rfl | hclear
      · exact ⟨hm, by omega, hun⟩
      · exact absurd hm (hclear _)
  · rintro unacked n' k - hq'
    exact Runs.pure (by simpa using hq.trans hq')

theorem reclaimTempsFrom_runs (hok : Env G W) (canceled : Bool) (bytesNeeded : Int)
    (sizes : List Nat) (freed : Nat) :
    Runs G W l (reclaimTempsFrom canceled bytesNeeded sizes freed)
      (fun _ n m => n = [] ∧ ∃ ts, m = { l with temps := ts })
      (fun e n m => (n = [] ∧ ∃ ts, m = { l with temps := ts }) ∧ e.isInvariant = false) := by
  induction sizes generalizing l freed with
  | nil => exact Runs.pure ⟨rfl, l.temps, rfl⟩
  | cons size rest ih =>
    simp only [reclaimTempsFrom]
    split
    · exact Runs.pure ⟨rfl, l.temps, rfl⟩
    split
    · exact Runs.throw ⟨⟨rfl, l.temps, rfl⟩, rfl⟩
    refine Runs.bind ((Runs.atomically (m := { l with temps := l.temps.tail }) hok
      (.single (.temps _)) rfl rfl).failing ?_) ?_
    · rintro e n m - ⟨rfl, rfl, -, hi⟩; exact ⟨⟨rfl, m.temps, rfl⟩, hi⟩
    rintro _ n m - ⟨rfl, rfl⟩
    refine (ih (freed + size)).weaken ?_ ?_
    · rintro _ n k - ⟨rfl, ts, rfl⟩; exact ⟨rfl, ts, rfl⟩
    · rintro _ n k - ⟨⟨rfl, ts, rfl⟩, hi⟩; exact ⟨⟨rfl, ts, rfl⟩, hi⟩

theorem Quietly.temps (l : Log o) (ts : List Nat) : Quietly G l { l with temps := ts } [] :=
  ⟨rfl, id, .inr (.inr fun ht => ⟨ht.unacked, ht.clear, ht.saved⟩)⟩

theorem reclaimAbandonedTempForDiskPressure_runs (hok : Env G W) (canceled : Bool)
    (bytesNeeded : Int) :
    Runs G W l (reclaimAbandonedTempForDiskPressure canceled bytesNeeded)
      (fun _ n m => Quietly G l m n) (fun e n m => Quietly G l m n ∧ e.isInvariant = false) := by
  unfold reclaimAbandonedTempForDiskPressure
  refine Runs.whenOpen (Runs.get ?_)
  split
  · exact Runs.pure (.refl l)
  refine Runs.bind ((reclaimTempsFrom_runs hok canceled bytesNeeded _ 0).failing ?_) ?_
  · rintro e n m - ⟨⟨rfl, ts, rfl⟩, hi⟩; exact ⟨.temps l ts, hi⟩
  rintro freed n m - ⟨rfl, ts, rfl⟩
  refine Runs.bind (Q := fun _ n k => n = [] ∧ k = { l with temps := ts })
    (Runs.when (fun _ => (Runs.touch hok).failing ?_)
      fun _ => ⟨rfl, rfl⟩) ?_
  · rintro e n k - ⟨rfl, rfl, -, hi⟩; exact ⟨.temps l ts, hi⟩
  · rintro _ n k - ⟨rfl, rfl⟩; exact Runs.pure (.temps l ts)

end DockLattice.Wal
