import DockLattice.Wal.SimCalls

/-!
# DockLattice.Wal.SimSession

The remaining calls as runs of the journal: acknowledging, the background loop, idempotent appends,
changing the archive, and closing.
-/

namespace DockLattice.Wal

open Bytes Effect

variable {o : Options} {G : Fault → Prop} {W : List DecodedFrame → Prop}
variable {archive : String} {l m : Log o}

/-! ## AckAudit -/

theorem Metadata.Valid.acked {d : Metadata} {c last : Cursor} (h : d.Valid)
    (hi : c.incarnation ≠ 0) (hseq : c.seq ≠ 0) (harchive : d.acknowledgedArchive ≠ "")
    (hlast : d.lastAssigned = some last) (hle : c ≤ last) :
    { d with serverAck := some c : Metadata }.Valid where
  version := h.version
  agent := h.agent
  incarnation_pos := h.incarnation_pos
  next_pos := h.next_pos
  last_ok := h.last_ok
  durable_ok := h.durable_ok
  ack_ok := by
    rintro x ⟨⟩
    have := (h.last_ok last hlast).2.2
    rw [Cursor.le_def] at hle
    exact ⟨Nat.pos_of_ne_zero hi, Nat.pos_of_ne_zero hseq, by show _ ≤ d.currentIncarnation; omega⟩
  assigned :=
    { h.assigned with
      none_fresh := fun hn => by rw [show d.lastAssigned = none from hn] at hlast; cases hlast
      ack_le := by
        rintro l x hl ⟨⟩
        rw [show d.lastAssigned = some l from hl] at hlast
        cases hlast
        exact hle }
  archive := fun _ => harchive
  revision := h.revision
  unknown_sorted := h.unknown_sorted
  unknown_ok := h.unknown_of rfl rfl
  gaps_ok := h.gaps_ok

theorem advanceAck_runs (hok : Env G W) (h : l.Ok) (ha : l.active = none) {c : Cursor}
    (hlt : ∀ a, l.metadata.serverAck = some a → a < c)
    (hvalid : { l.metadata with serverAck := some c : Metadata }.Valid) :
    Runs G W l (advanceAck c) (fun _ n m => Quietly G l m n)
      (fun e n m => Quietly G l m n ∧ e.isInvariant = false) := by
  let d : Metadata := { l.metadata with serverAck := some c }
  let l₁ := (l.withSaved d).withMetadata d
  have hadopt : d.Valid → Step (l.withSaved d) [] l₁ := fun _ =>
    Step.ack (l := l.withSaved d) ha hlt rfl
  have hnone : ∀ m : Log o, m.active = none → ¬ m.Phantom := fun m hm => by simp [Log.Phantom, hm]
  unfold advanceAck
  refine Runs.get (Runs.bind (Q := fun _ n m => n = [] ∧ m = l₁)
    ((Runs.update (m := d) (d := d) (.wrapped _) hok (fun w hw => ?_) (fun _ => rfl)
      (.ack ha hlt) hadopt).weaken ?_ ?_) ?_)
  · simp only [saveMetadataLocked, Bind.bind, Prog.bind, Prog.get, hw]; rfl
  · rintro _ n m - ⟨rfl, -, rfl⟩; exact ⟨rfl, rfl⟩
  · rintro e n m - ⟨rfl, ⟨-, hf, hi, rfl | rfl⟩ | ⟨hv, -, -⟩⟩
    · exact ⟨⟨rfl, id, .inl hf⟩, hi⟩
    · exact ⟨⟨rfl, id, .inl hf⟩, hi⟩
    · exact absurd hvalid hv
  rintro _ n m hsteps ⟨rfl, rfl⟩
  refine Runs.bind ((deleteACKedLocked_runs hok (hsteps.ok h)).failing ?_) ?_
  · rintro e n m - ⟨rfl, hpr, hf, hi⟩
    exact ⟨⟨rfl, fun _ => hnone m (hpr.active.trans ha), .inl hf⟩, hi⟩
  rintro _ n m - ⟨rfl, hpr, heq, -, hun, hclear⟩
  refine Runs.pure ⟨rfl, fun _ => hnone m (hpr.active.trans ha), .inr (.inr fun ht => ?_)⟩
  -- what the new cursor covers is gone, and disk and memory agree on it
  refine ⟨hun, ?_, ?_⟩
  · rcases hclear with rfl | ⟨-, hclear⟩
    · exact ht.clear
    · exact hclear
  · rw [heq]
    rintro k hk; cases hk; exact ⟨rfl, rfl⟩

/-- The invariant errors of `AckAudit`: about its arguments, and about a coverage revision that the
WAL has not reached. -/
def AckRefuses (archive : String) (proposed : Cursor) (e : WalError) : Prop :=
  ((archive = "" ∨ proposed.incarnation = 0 ∨ proposed.seq = 0) ∧
      e = .invariant "archive and cursor required") ∨
    e = .invariant "seen coverage revision exceeds current"

theorem ackProblem_refuses {w : WAL} {now : Instant} {proposed : Cursor} {seen : Nat} {e : WalError}
    (h : ackProblem w now proposed seen = some e) :
    e.isInvariant = false ∨ AckRefuses archive proposed e := by
  unfold ackProblem at h
  split at h
  · cases h; exact .inr (.inr rfl)
  split at h
  · cases h; exact .inl rfl
  split at h
  · cases h; exact .inl rfl
  · cases h

theorem ackProblem_none {w : WAL} {now : Instant} {proposed : Cursor} {seen : Nat}
    (h : ackProblem w now proposed seen = none) :
    ∃ last, w.metadata.lastAssigned = some last ∧ proposed ≤ last := by
  unfold ackProblem at h
  split at h
  · cases h
  split at h
  · cases h
  next hall =>
  cases hl : w.metadata.lastAssigned with
  | none => simp [hl] at hall
  | some last => exact ⟨last, rfl, by simpa [hl] using hall⟩

theorem ackAudit_runs (hok : Env G W) (h : l.Ok) (now : Instant) (archive : String)
    (proposed : Cursor) (seen : Nat) :
    Runs G W l (ackAudit now archive proposed seen) (fun _ n m => Quietly G l m n)
      (fun e n m => Quietly G l m n ∧
        (e.isInvariant = false ∨ AckRefuses archive proposed e ∨ l.Phantom)) := by
  unfold ackAudit
  refine Runs.whenOpen (Runs.get ?_)
  split
  · next hargs => exact Runs.throw ⟨.refl l, .inr (.inl (.inl ⟨hargs, rfl⟩))⟩
  next hargs =>
  split
  · exact Runs.throw ⟨.refl l, .inl rfl⟩
  next harchive =>
  refine Runs.bind ((syncLocked_quietly hok h).failing ?_) ?_
  · rintro e n m - ⟨hq, ⟨-, hi⟩ | hp⟩
    · exact ⟨hq, .inl hi⟩
    · exact ⟨hq, .inr (.inr hp)⟩
  rintro _ n m hsteps ⟨rfl, hfl⟩
  have hq : Quietly G l m [] := hfl.quietly h
  refine Runs.get ?_
  split
  · exact Runs.throw ⟨hq, .inl rfl⟩
  next hback =>
  split
  · refine Runs.bind ((deleteACKedLocked_runs hok (hsteps.ok h)).failing ?_) ?_
    · rintro e n k - ⟨rfl, hpr, hio⟩
      exact ⟨hq.trans (hpr.quietly (.inl hio.1)), .inl hio.2⟩
    · rintro _ n k - ⟨rfl, hpr, -, htidy, -⟩
      exact Runs.pure (hq.trans (hpr.quietly (.inr (.inr htidy))))
  next heq =>
  cases hprob : ackProblem m.toState.wal now proposed seen with
  | some e => exact Runs.throw ⟨hq, (ackProblem_refuses hprob).imp_right .inl⟩
  | none =>
    have hlt : ∀ a, m.metadata.serverAck = some a → a < proposed := by
      intro a hsome
      have hs : m.toState.wal.metadata.serverAck = some a := hsome
      rw [hs] at hback heq
      simp only [Option.any_some, decide_eq_true_eq, compareCursor_lt_zero, not_lt]
        at hback
      exact lt_of_le_of_ne hback fun he => heq (by rw [he])
    obtain ⟨last, hlast, hle⟩ := ackProblem_none hprob
    have hvalid : { m.metadata with serverAck := some proposed : Metadata }.Valid := by
      simp only [not_or] at hargs
      refine (hsteps.ok h).valid.acked hargs.2.1 hargs.2.2 ?_ hlast hle
      have hbound : m.metadata.acknowledgedArchive = archive := by
        cases hfl <;> exact not_not.mp harchive
      rw [hbound]
      exact hargs.1
    exact (advanceAck_runs hok (hsteps.ok h) hfl.active hlt hvalid).weaken
      (fun _ _ _ _ hk => hq.trans hk) fun _ _ _ _ hk => ⟨hq.trans hk.1, .inl hk.2⟩

/-! ## The background loop -/

/-- Why the background loop may have kept the error `e`. -/
def Stalls (G : Fault → Prop) (l : Log o) (now : Instant) (e : Option WalError) : Prop :=
  ∃ x, e = some x ∧ ((Faulty G ∧ x.isInvariant = false) ∨ l.Phantom ∨ l.Blocked now 0)

theorem Quietly.background {n : List DecodedFrame} (h : Quietly G l m n) (e : Option WalError) :
    Quietly G l { m with backgroundErr := e } n := by
  refine ⟨h.nothing, h.filled, ?_⟩
  rcases h.tidies with hf | hp | ht
  · exact .inl hf
  · exact .inr (.inl hp)
  · exact .inr (.inr fun hl => ⟨(ht hl).unacked, (ht hl).clear, (ht hl).saved⟩)

theorem syncTick_runs (hok : Env G W) (h : l.Ok) (now : Instant) :
    Runs G W l (syncTick now)
      (fun _ n m => Quietly G l m n ∧
        (m.backgroundErr = l.backgroundErr ∨ Stalls G l now m.backgroundErr))
      (fun _ _ _ => False) := by
  unfold syncTick
  refine Runs.get ?_
  rw [if_neg (by simp [Log.toState, Log.wal])]
  -- the first half: flush what is pending
  refine Runs.bind (Q := fun _ n m => Quietly G l m n ∧
      ((m.backgroundErr = l.backgroundErr ∧ (m.Blocked now 0 → l.Blocked now 0)) ∨
        Stalls G l now m.backgroundErr))
    (Runs.when (fun _ => Runs.attempt ((syncLocked_quietly hok h).weaken
      (S := fun _ n m => Quietly G l m n ∧
        ((m.backgroundErr = l.backgroundErr ∧ (m.Blocked now 0 → l.Blocked now 0)) ∨
          Stalls G l now m.backgroundErr))
      ?_ fun _ _ _ _ he => he) ?_) fun _ => ⟨.refl l, .inl ⟨rfl, id⟩⟩) ?_
  · rintro _ n m - ⟨rfl, hfl⟩
    exact ⟨hfl.quietly h, .inl ⟨hfl.backgroundErr, hfl.blocked h⟩⟩
  · rintro e n m - ⟨hq, hwhy⟩
    refine Runs.modify (.single (.background (some e))) rfl
      ⟨by simpa using hq.background (some e), .inr ⟨e, rfl, ?_⟩⟩
    rcases hwhy with hio | hp
    · exact .inl hio
    · exact .inr (.inl hp)
  -- the second half: retention, unless an error is pending
  rintro _ n m hsteps ⟨hq, hm⟩
  obtain rfl := hq.nothing
  refine Runs.get (Runs.when (fun hnone => ?_) fun hsome => ?_)
  · have hnone' : m.backgroundErr = none := by simpa [Log.toState, Log.wal] using hnone
    rcases hm with ⟨hbg, hbl⟩ | ⟨x, hx, -⟩
    · refine Runs.attempt (E := fun e n k => Quietly G m k n ∧
        (IoError G e ∨ m.Blocked now 0))
        (Runs.bind ((enforceRetentionLocked_quietly hok (hsteps.ok h) now 0).failing fun _ _ _ _ he => ⟨he.1, he.2.2⟩) ?_) ?_
      · rintro _ n' k - ⟨hq', hbg'⟩
        exact Runs.pure ⟨by simpa using hq.trans hq', .inl (hbg'.trans hbg)⟩
      · rintro e n' k - ⟨hq', hwhy⟩
        refine Runs.modify (.single (.background (some e))) rfl
          ⟨by simpa using (hq.trans hq').background (some e), .inr ⟨e, rfl, ?_⟩⟩
        rcases hwhy with hio | hb
        · exact .inl hio
        · exact .inr (.inr (hbl hb))
    · rw [hnone'] at hx; cases hx
  · rcases hm with ⟨hbg, -⟩ | hst
    · exact ⟨by simpa using hq, .inl hbg⟩
    · exact ⟨by simpa using hq, .inr hst⟩

/-! ## Idempotent appends -/

theorem loadOnceReceiptLocked_error {d : Disk} {key : String} {e : WalError}
    (h : loadOnceReceiptLocked d key = .error e) :
    e = .invariant "invalid idempotency receipt" := by
  unfold loadOnceReceiptLocked at h
  split at h
  · cases h
  split at h
  · cases h
  · cases h; rfl

theorem findFrame_error {payload : List Byte} {e : WalError} : ∀ {fs : FrameStream},
    findFrame payload fs = .error e → e.isInvariant = false
  | .stop .eof, h => by cases h
  | .stop .unexpectedEOF, h => by cases h; rfl
  | .stop (.corrupt _ _), h => by cases h; rfl
  | .frame f next, h => by
    rw [findFrame] at h
    split at h
    · cases h
    · exact findFrame_error h

theorem findPayload_error {s : State} {payload : List Byte} {e : WalError} :
    ∀ {segments : List Segment}, findPayload s payload segments = .error e → e.isInvariant = false
  | [], h => by cases h
  | seg :: rest, h => by
    rw [findPayload] at h
    split at h
    · cases h; rfl
    split at h
    · next hframe => cases h; exact findFrame_error hframe
    · cases h
    · exact findPayload_error h

def Log.withReceipts (l : Log o) (rs : List (String × OnceReceipt)) : Log o :=
  { l with receipts := rs }

theorem saveOnceReceiptLocked_runs (hok : Env G W) (receipt : OnceReceipt) :
    Runs G W l (saveOnceReceiptLocked receipt)
      (fun _ n m => n = [] ∧ ∃ rs, m = l.withReceipts rs)
      (fun e n m => n = [] ∧ (∃ rs, m = l.withReceipts rs) ∧
        (e.isInvariant = false ∨ e = .invariant "invalid idempotency receipt")) := by
  unfold saveOnceReceiptLocked
  split
  · let rs := (l.disk.putReceipt (onceReceiptName receipt.key) receipt).receipts
    have hstep : Steps l [] (l.withReceipts rs) := .single (.receipts rs)
    refine (replaceFile_spec hok.ok l.toState).weaken (fun _ h => h) ?_ ?_ ?_
    · rintro _ s rfl; exact ⟨[], _, hstep, ⟨rfl, rs, rfl⟩, rfl⟩
    · rintro e s ⟨rfl | rfl, -, rfl⟩
      · exact ⟨[], l, .refl l, ⟨rfl, ⟨l.receipts, rfl⟩, .inl rfl⟩, rfl⟩
      · exact ⟨[], _, hstep, ⟨rfl, ⟨rs, rfl⟩, .inl rfl⟩, rfl⟩
    · rintro s (rfl | rfl | ⟨n, rfl⟩)
      · exact Left.of_steps hok.nil (.refl l)
      · exact Left.of_steps hok.nil hstep
      · exact Left.of_steps hok.nil (m := { l with temps := l.temps ++ [n] }) (.single (.temps _))
  · exact Runs.throw ⟨rfl, ⟨l.receipts, rfl⟩, .inr rfl⟩

theorem Quietly.withReceipts {n : List DecodedFrame} (h : Quietly G l m n)
    (rs : List (String × OnceReceipt)) : Quietly G l (m.withReceipts rs) n := by
  refine ⟨h.nothing, h.filled, ?_⟩
  rcases h.tidies with hf | hp | ht
  · exact .inl hf
  · exact .inr (.inl hp)
  · exact .inr (.inr fun hl => ⟨(ht hl).unacked, (ht hl).clear, (ht hl).saved⟩)

structure Appended (G : Fault → Prop) (l m : Log o) (now : Instant) (payload : List Byte)
    (n : List DecodedFrame) : Prop where
  written : n = [] ∨ n = [l.frameFor now payload]
  filled : StaysFilled G l m
  tidies : Tidies G l m

theorem Appended.idle {now : Instant} {payload : List Byte} (rs : List (String × OnceReceipt)) :
    Appended G l (l.withReceipts rs) now payload [] :=
  ⟨.inl rfl, .inl id, ((Quietly.refl l).withReceipts rs).tidies⟩

theorem append_runs (hok : Env G W) (hG : ∀ k, G (.torn k) → k = 0) (h : l.Ok) (hcur : l.Current)
    (canceled : Bool) (now : Instant) (payload : List Byte) (hw : W [l.frameFor now payload]) :
    Runs G W l (append canceled now payload)
      (fun r n m => Appended G l m now payload n ∧ n = [l.frameFor now payload] ∧
        r = Record.of l.agentId (l.frameFor now payload) ∧ l.frameFor now payload ∈ m.frames)
      (fun e n m => Appended G l m now payload n ∧ (Refused l e ∨
        AppendFails G l now (l.frameFor now payload).bytes e)) := by
  refine (appendLocked_runs hok hG h hcur canceled now payload hw).weaken ?_ ?_
  · rintro r n m - ⟨rfl, hr, hfull, htidy, hin⟩
    exact ⟨⟨.inr rfl, .inl fun _ => hfull, .inr (.inr htidy)⟩, rfl, hr, hin⟩
  · rintro e n m - (⟨rfl, rfl, hr⟩ | ⟨hn, hfill, hwhy⟩)
    · exact ⟨.idle m.receipts, .inl hr⟩
    · exact ⟨⟨hn, hfill, hwhy.tidies⟩, .inr hwhy⟩

/-- The invariant errors of `AppendOnce` about its key and the receipt of the key. -/
def OnceRefuses (key : String) (e : WalError) : Prop :=
  (validOnceKey key = false ∧ e = .invariant "invalid idempotency key") ∨
    e = .invariant "invalid idempotency receipt" ∨
    e = .invariant "idempotency key reused with different payload"

/-- Why `AppendOnce` may fail with the error `e`. -/
def OnceFails (G : Fault → Prop) (l : Log o) (now : Instant) (key : String) (payload : List Byte)
    (e : WalError) : Prop :=
  e.isInvariant = false ∨ OnceRefuses key e ∨
    (Refused l e ∨ AppendFails G l now (l.frameFor now payload).bytes e)

theorem appendAndComplete_runs (hok : Env G W) (hG : ∀ k, G (.torn k) → k = 0) (h : l.Ok)
    (hcur : l.Current) (canceled : Bool) (now : Instant) (receipt : OnceReceipt)
    (payload : List Byte) (hw : W [l.frameFor now payload]) :
    Runs G W l (appendAndComplete canceled now receipt payload)
      (fun _ n m => Appended G l m now payload n ∧ l.frameFor now payload ∈ m.frames)
      (fun e n m => Appended G l m now payload n ∧ ∀ key, OnceFails G l now key payload e) := by
  unfold appendAndComplete
  refine Runs.bind ((appendLocked_runs hok hG h hcur canceled now payload hw).failing ?_) ?_
  · rintro e n m - (⟨rfl, rfl, hr⟩ | ⟨hn, hfill, hwhy⟩)
    · exact ⟨.idle m.receipts, fun _ => .inr (.inr (.inl hr))⟩
    · exact ⟨⟨hn, hfill, hwhy.tidies⟩, fun _ => .inr (.inr (.inr hwhy))⟩
  rintro record n m hsteps ⟨rfl, -, hfull, htidy, hin⟩
  have hm := hsteps.ok h
  have hdone : ∀ {k : Log o} {n : List DecodedFrame}, Quietly G m k n →
      Appended G l k now payload ([l.frameFor now payload] ++ n) := fun {k n} hk =>
    ⟨.inr (by rw [hk.nothing]; rfl), .inl fun _ => hk.filled hfull,
      Tidies.trans (.inr (.inr htidy)) (fun _ => hfull) hk.tidies⟩
  have hok' : Env G (fun n => W ([l.frameFor now payload] ++ n)) := ⟨hok.ok, hw⟩
  refine Runs.bind (Q := fun _ n k => Quietly G m k n ∧ l.frameFor now payload ∈ k.frames)
    ((syncLocked_quietly hok' hm).weaken ?_ ?_) ?_
  · rintro _ n k - ⟨rfl, hfl⟩; exact ⟨hfl.quietly hm, hfl.frames ▸ hin⟩
  · rintro e n k - ⟨hk, ⟨-, hi⟩ | hp⟩
    · exact ⟨hdone hk, fun _ => .inl hi⟩
    · exact absurd hp hfull
  rintro _ n k - ⟨hk, hin⟩
  obtain rfl := hk.nothing
  refine Runs.bind ((saveOnceReceiptLocked_runs hok' _).failing ?_) ?_
  · rintro e n' j - ⟨rfl, ⟨rs, rfl⟩, hi | hr⟩
    · exact ⟨by simpa using hdone (hk.withReceipts rs), fun _ => .inl hi⟩
    · exact ⟨by simpa using hdone (hk.withReceipts rs), fun _ => .inr (.inl (.inr (.inl hr)))⟩
  · rintro _ n' j - ⟨rfl, rs, rfl⟩
    refine Runs.pure ⟨?_, hin⟩
    simpa using hdone (hk.withReceipts rs)

theorem appendOnce_runs (hok : Env G W) (hG : ∀ k, G (.torn k) → k = 0) (h : l.Ok)
    (hcur : l.Current) (canceled : Bool) (now : Instant) (key : String) (payload : List Byte)
    (hw : W [l.frameFor now payload]) :
    Runs G W l (appendOnce canceled now key payload)
      (fun _ n m => Appended G l m now payload n)
      (fun e n m => Appended G l m now payload n ∧ OnceFails G l now key payload e) := by
  have hreceipt : ∀ e, (e.isInvariant = false ∨ e = .invariant "invalid idempotency receipt") →
      OnceFails G l now key payload e := fun e he => he.imp_right fun hr => .inl (.inr (.inl hr))
  unfold appendOnce
  split
  · next hkey => exact Runs.throw ⟨.idle l.receipts, .inr (.inl (.inl ⟨hkey, rfl⟩))⟩
  refine Runs.get ?_
  rw [if_neg (by simp [Log.toState, Log.wal])]
  split
  · next hbg => exact Runs.throw ⟨.idle l.receipts, .inr (.inr (.inl (.inl hbg)))⟩
  split
  · exact Runs.throw ⟨.idle l.receipts, .inl rfl⟩
  split
  · next hload =>
    exact Runs.throw ⟨.idle l.receipts, hreceipt _ (.inr (loadOnceReceiptLocked_error hload))⟩
  · -- the key has a receipt
    split
    · exact Runs.throw ⟨.idle l.receipts, .inr (.inl (.inr (.inr rfl)))⟩
    split
    · exact Runs.pure (.idle l.receipts)
    split
    · next hfind => exact Runs.throw ⟨.idle l.receipts, .inl (findPayload_error hfind)⟩
    · refine Runs.bind ((saveOnceReceiptLocked_runs hok _).failing ?_) ?_
      · rintro e n m - ⟨rfl, ⟨rs, rfl⟩, he⟩; exact ⟨.idle rs, hreceipt e he⟩
      · rintro _ n m - ⟨rfl, rs, rfl⟩; exact Runs.pure (.idle rs)
    · exact (appendAndComplete_runs hok hG h hcur canceled now _ payload hw).weaken
        (fun _ _ _ _ hk => hk.1) fun _ _ _ _ hk => ⟨hk.1, hk.2 key⟩
  · -- the key is new
    refine Runs.bind ((saveOnceReceiptLocked_runs hok _).failing ?_) ?_
    · rintro e n m - ⟨rfl, ⟨rs, rfl⟩, he⟩; exact ⟨.idle rs, hreceipt e he⟩
    rintro _ n m hsteps ⟨rfl, rs, rfl⟩
    have hrs : Tidies G l (l.withReceipts rs) := ((Quietly.refl l).withReceipts rs).tidies
    refine (appendAndComplete_runs hok hG (hsteps.ok h) (hsteps.current hcur) canceled now _
      payload hw).weaken ?_ ?_
    · rintro _ n k - ⟨hk, -⟩
      exact ⟨hk.written, hk.filled, hrs.trans id hk.tidies⟩
    · rintro _ n k - ⟨hk, hwhy⟩
      exact ⟨⟨hk.written, hk.filled, hrs.trans id hk.tidies⟩, hwhy key⟩

theorem forgetOnce_runs (hok : Env G W) (key : String) :
    Runs G W l (forgetOnce key) (fun _ n m => Quietly G l m n)
      (fun e n m => Quietly G l m n ∧ (e.isInvariant = false ∨
        (validOnceKey key = false ∧ e = .invariant "invalid idempotency key"))) := by
  have hkeep : ∀ rs, Quietly G l (l.withReceipts rs) [] := (Quietly.refl l).withReceipts
  unfold forgetOnce
  split
  · next hkey => exact Runs.throw ⟨.refl l, .inr ⟨hkey, rfl⟩⟩
  refine Runs.whenOpen (Runs.bind (Q := fun _ n m => n = [] ∧ ∃ rs, m = l.withReceipts rs)
    ?_ ?_)
  · unfold removeOnceReceipt
    refine Runs.get (Runs.when (fun _ => Runs.wrapping ((Runs.atomically
      (m := l.withReceipts (l.disk.removeReceipt (onceReceiptName key)).receipts) hok
      (.single (.receipts _)) rfl rfl).weaken ?_ ?_)) fun _ => ⟨rfl, l.receipts, rfl⟩)
    · rintro _ n m - ⟨rfl, rfl⟩; exact ⟨rfl, _, rfl⟩
    · rintro e n m - ⟨rfl, rfl, -, hi⟩; exact ⟨.refl _, .inl hi⟩
  · rintro _ n m - ⟨rfl, rs, rfl⟩
    refine (Runs.touch hok).weaken ?_ ?_
    · rintro _ n m - ⟨rfl, rfl⟩; exact hkeep rs
    · rintro e n m - ⟨rfl, rfl, -, hi⟩; exact ⟨hkeep rs, .inl hi⟩

/-! ## Changing the archive -/

/-- From `l`, with nothing pending any more, to the journal bound to another archive; the memory may
still have to follow. -/
def Rebinds (l : Log o) (archive : String) (m : Log o) : Prop :=
  archive ≠ "" ∧ l.metadata.acknowledgedArchive ≠ archive ∧
    ∃ k, Steps l [] k ∧ Flushed l k ∧ Rebind k archive m

section

variable (hr : Rebinds l archive m)

include hr

theorem Rebinds.ok (h : l.Ok) : m.Ok := by
  obtain ⟨-, -, k, hs, -, hk⟩ := hr
  exact hk.ok (hs.ok h)

theorem Rebinds.frames : m.frames = l.frames := by
  obtain ⟨-, -, k, -, hfl, hk⟩ := hr
  rw [← hfl.frames]
  cases hk <;> rfl

theorem Rebinds.agentId : m.agentId = l.agentId := by
  obtain ⟨-, -, k, hs, -, hk⟩ := hr
  rw [← hs.agentId]
  cases hk <;> rfl

theorem Rebinds.incarnation : m.metadata.currentIncarnation = l.metadata.currentIncarnation := by
  obtain ⟨-, -, k, hs, -, hk⟩ := hr
  rw [← hs.incarnation]
  cases hk <;> rfl

theorem Rebinds.current : m.Current := by
  obtain ⟨-, -, k, -, -, hk⟩ := hr
  cases hk with
  | save | adopt => exact ⟨_, rfl, rfl⟩

end

theorem Metadata.Valid.rebound {d : Metadata} (h : d.Valid) (archive : String) :
    { d with acknowledgedArchive := archive, serverAck := none : Metadata }.Valid :=
  { h with
    ack_ok := by simp
    assigned :=
      { h.assigned with
        none_fresh := fun hn => ⟨(h.assigned.none_fresh hn).1, rfl, (h.assigned.none_fresh hn).2.2⟩
        ack_le := by simp }
    archive := by simp
    unknown_ok := h.unknown_of rfl rfl }

theorem rebindArchive_spec (hok : Env G W) (h : l.Ok) (archive : String) :
    Spec G (fun s => s = l.toState) (rebindArchive archive)
      (fun _ s => ∃ m, Quietly G l m [] ∧ (m = l ∨ Rebinds l archive m) ∧ s = m.toState)
      (fun e s => ∃ m, Quietly G l m [] ∧ (Steps l [] m ∨ (Faulty G ∧ Rebinds l archive m)) ∧
        (e.isInvariant = false ∨ (archive = "" ∧ e = .invariant "empty archive id") ∨
          l.Phantom) ∧ s = m.toState)
      (fun s => Left W l s.disk ∨ ∃ m, Rebinds l archive m ∧ s.disk = m.disk) := by
  unfold rebindArchive whenOpen
  refine Spec.read ?_
  rw [if_neg (by simp [Log.toState, Log.wal])]
  refine Spec.read ?_
  split
  · next hempty =>
    exact Spec.throw fun s hs => ⟨l, .refl l, .inl (.refl l), .inr (.inl ⟨hempty, rfl⟩), hs⟩
  next hempty =>
  split
  · exact Spec.ret fun s hs => ⟨l, .refl l, .inl rfl, hs⟩
  next hsame =>
  refine Spec.bind (Q := fun _ s => ∃ m, Steps l [] m ∧ Flushed l m ∧ s = m.toState)
    (Spec.weaken (syncLocked_quietly hok h) (fun _ h => h) ?_ ?_ fun _ h => .inl h) fun _ =>
      Spec.get ?_
  · rintro _ s ⟨n, m, hs, ⟨rfl, hm⟩, rfl⟩; exact ⟨m, hs, hm, rfl⟩
  · rintro e s ⟨n, m, hs, ⟨hq, hwhy⟩, rfl⟩
    obtain rfl := hq.nothing
    refine ⟨m, hq, .inl hs, ?_, rfl⟩
    rcases hwhy with ⟨-, hi⟩ | hp
    · exact .inl hi
    · exact .inr (.inr hp)
  rintro s ⟨m, hs, hfl, rfl⟩
  let d : Metadata := { m.metadata with acknowledgedArchive := archive, serverAck := none }
  have hq : Quietly G l m [] := hfl.quietly h
  have hsave : d.Valid → Rebinds l archive (m.withSaved d) := fun hv =>
    ⟨hempty, hsame, m, hs, hfl, .save hfl.active hv⟩
  have hadopt : d.Valid → Rebinds l archive ((m.withSaved d).withMetadata d) := fun hv =>
    ⟨hempty, hsame, m, hs, hfl, .adopt hfl.active hv⟩
  refine (updateMetadata_spec (l := m) (m := d) (d := d) id hok.ok (fun w hw => ?_)
    (fun _ => rfl)).weaken (fun _ h => h) ?_ ?_ ?_
  · simp only [saveMetadataLocked, Bind.bind, Prog.bind, Prog.get, hw]; rfl
  · rintro _ s ⟨hv, rfl⟩
    refine ⟨(m.withSaved d).withMetadata d, ⟨rfl, hq.filled, .inr (.inr fun ht => ?_)⟩,
      .inr (hadopt hv), rfl⟩
    exact ⟨fun _ _ => rfl, (hfl.tidy h ht).clear, by rintro k hk; cases hk; exact ⟨rfl, rfl⟩⟩
  · rintro e s (⟨hv, hf, hi, rfl | rfl⟩ | ⟨hv, hi, rfl⟩)
    · exact ⟨m, hq, .inl hs, .inl hi, rfl⟩
    · exact ⟨m.withSaved d, ⟨rfl, hq.filled, .inl hf⟩, .inr ⟨hf, hsave hv⟩, .inl hi, rfl⟩
    · exact absurd ((hs.ok h).valid.rebound archive) hv
  · rintro s (hd | ⟨hv, hd⟩ | ⟨n, hd⟩)
    · exact .inl (hd ▸ Left.of_steps hok.nil hs)
    · exact .inr ⟨_, hsave hv, hd⟩
    · exact .inl (hd ▸ Left.of_steps hok.nil (hs.snoc (.temps _)))

/-! ## Close -/

theorem errorOf_syncLocked_spec (hok : Env G W) (h : l.Ok) :
    Spec G (fun s => s = l.toState) (errorOf syncLocked)
      (fun failed s => ∃ m, Steps l [] m ∧ s = m.toState ∧
        ((failed = none ∧ Flushed l m) ∨
          ∃ e, failed = some e ∧ (IoError G e ∨ l.Phantom)))
      (fun _ _ => False) (fun s => Left W l s.disk) := by
  refine Spec.attempt (E := fun e s => ∃ m, Steps l [] m ∧ s = m.toState ∧
    (IoError G e ∨ l.Phantom)) (Spec.bind (Q := fun _ s => ∃ m,
      Steps l [] m ∧ Flushed l m ∧ s = m.toState)
      (Spec.weaken (syncLocked_quietly hok h) (fun _ h => h) ?_ ?_ fun _ h => h)
      fun _ => Spec.ret ?_) fun e => Spec.ret ?_
  · rintro _ s ⟨n, m, hs, ⟨rfl, hm⟩, rfl⟩; exact ⟨m, hs, hm, rfl⟩
  · rintro e s ⟨n, m, hs, ⟨⟨rfl, -, -⟩, hwhy⟩, rfl⟩
    exact ⟨m, hs, rfl, hwhy⟩
  · rintro s ⟨m, hs, hm, rfl⟩; exact ⟨m, hs, rfl, .inl ⟨rfl, hm⟩⟩
  · rintro s ⟨m, hs, rfl, hwhy⟩; exact ⟨m, hs, rfl, .inr ⟨e, rfl, hwhy⟩⟩

theorem closeActive_spec (hok : Env G W) (s₀ : State) (active : Option ActiveSegment)
    (failed : Option WalError) :
    Spec G (fun s => s = s₀) (closeActive active failed)
      (fun failed' s => s = s₀ ∧ (failed' = failed ∨
        (failed = none ∧ ∃ e, failed' = some e ∧ IoError G e)))
      (fun _ _ => False) (fun s => s = s₀) := by
  unfold closeActive
  split
  · exact Spec.ret fun s hs => ⟨hs, .inl rfl⟩
  refine Spec.bind (Q := fun c s => s = s₀ ∧ (c = none ∨
      ∃ e, c = some e ∧ IoError G e))
    (Spec.attempt (E := fun e s => s = s₀ ∧ IoError G e)
      (Spec.bind (Q := fun _ s => s = s₀)
        (atomically_spec hok.ok rfl (fun _ he => ⟨rfl, he⟩) rfl rfl)
        fun _ => Spec.ret fun s hs => ⟨hs, .inl rfl⟩)
      fun e => Spec.ret fun s hs => ⟨hs.1, .inr ⟨e, rfl, hs.2⟩⟩) fun c => Spec.ret ?_
  rintro s ⟨rfl, rfl | ⟨e, rfl, he⟩⟩
  · exact ⟨rfl, .inl (Option.or_none)⟩
  · cases failed with
    | none => exact ⟨rfl, .inr ⟨rfl, e, rfl, he⟩⟩
    | some x => exact ⟨rfl, .inl rfl⟩

theorem close_spec (hok : Env G W) (h : l.Ok) :
    Spec G (fun s => s = l.toState) close
      (fun _ s => ∃ m, Steps l [] m ∧ Flushed l m ∧ l.backgroundErr = none ∧ s.disk = m.disk)
      (fun e s => ∃ m, Steps l [] m ∧ s.disk = m.disk ∧
        (IoError G e ∨ l.Phantom ∨ l.backgroundErr = some e))
      (fun s => Left W l s.disk) := by
  unfold close
  refine Spec.read ?_
  rw [if_neg (by simp [Log.toState, Log.wal])]
  refine Spec.bind ((errorOf_syncLocked_spec hok h).weaken (fun _ h => h) (fun _ _ h => h)
    (fun _ _ h => h.elim) fun _ h => h) fun failed => Spec.of_state ?_
  rintro _ ⟨m, hs, rfl, hm⟩
  refine Spec.read ?_
  refine Spec.bind ((closeActive_spec hok m.toState _ _).weaken (fun _ h => h) (fun _ _ h => h)
    (fun _ _ h => h.elim) fun s hs' => by rw [hs']; exact Left.of_steps hok.nil hs) fun failed' => ?_
  refine Spec.bind (Q := fun _ s => s.disk = m.disk ∧ (failed' = failed.or m.backgroundErr ∨
      (failed.or m.backgroundErr = none ∧
        ∃ e, failed' = some e ∧ IoError G e))) (Spec.modify ?_) fun _ => ?_
  · rintro s ⟨rfl, hf⟩; exact ⟨rfl, hf⟩
  have hbg : Flushed l m → m.backgroundErr = l.backgroundErr := fun hfl => by cases hfl <;> rfl
  cases failed' with
  | some e =>
    refine Spec.throw fun s hs' => ⟨m, hs, hs'.1, ?_⟩
    rcases hs'.2 with heq | ⟨-, x, hx, hf⟩
    · rcases hm with ⟨rfl, hfl⟩ | ⟨x, rfl, hwhy⟩
      · rw [Option.none_or, hbg hfl] at heq
        exact .inr (.inr heq.symm)
      · rw [Option.some_or, Option.some.injEq] at heq
        subst heq
        rcases hwhy with hf | hp
        · exact .inl hf
        · exact .inr (.inl hp)
    · cases hx
      exact .inl hf
  | none =>
    refine Spec.ret ?_
    rintro s ⟨hd, heq | ⟨-, x, hx, -⟩⟩
    · obtain ⟨hf, hmb⟩ := Option.or_eq_none_iff.mp heq.symm
      rcases hm with ⟨-, hfl⟩ | ⟨x, hx, -⟩
      · exact ⟨m, hs, hfl, (hbg hfl) ▸ hmb, hd⟩
      · rw [hf] at hx; cases hx
    · cases hx

end DockLattice.Wal
