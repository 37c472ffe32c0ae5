import DockLattice.Wal.Machine
import DockLattice.Wal.Sim

/-!
# DockLattice.Wal.Keeps

What the operations leave alone, whatever goes wrong in them: only the idempotent appends touch the
receipts, and only `Sync` and the background loop touch the pending background error.
-/

namespace DockLattice.Wal

open Bytes Effect

variable {α β : Type} {R : List (String × OnceReceipt) → Prop} {B : Option WalError → Prop}
  {g : Disk → Disk} {what : String} {handler : WalError → WalProg α} {p : WalProg α}
  {f : State → State}

structure Kept (R : List (String × OnceReceipt) → Prop) (B : Option WalError → Prop) (s : State) :
    Prop where
  receipts : R s.disk.receipts
  background : B s.wal.backgroundErr

/-- `p` keeps `R` of the receipts and `B` of the background error; a crash in it keeps `R`. -/
def Keeps (R : List (String × OnceReceipt) → Prop) (B : Option WalError → Prop) (p : WalProg α) :
    Prop :=
  ∀ (G : Fault → Prop), G .ok → Stays G (Kept R B) (fun s => R s.disk.receipts) p

namespace Keeps

theorem pure (a : α) : Keeps R B (Prog.pure a) := fun _ _ => Spec.ret fun _ h => h

theorem throw (e : WalError) : Keeps R B (Prog.throw e : WalProg α) :=
  fun _ _ => Spec.throw fun _ h => h

theorem bind {k : α → WalProg β} (hp : Keeps R B p) (hk : ∀ a, Keeps R B (k a)) :
    Keeps R B (Prog.bind p k) :=
  fun G hok => Spec.bind (hp G hok) fun a => hk a G hok

theorem get {k : State → WalProg β} (hk : ∀ s, Keeps R B (k s)) : Keeps R B (Prog.bind Prog.get k) :=
  fun G hok => Spec.get fun s hs => (hk s G hok).pre fun t ht => by rw [ht]; exact hs

theorem modify (hd : ∀ s, (f s).disk.receipts = s.disk.receipts)
    (hb : ∀ s, (f s).wal.backgroundErr = s.wal.backgroundErr) : Keeps R B (Prog.modify f) :=
  fun _ _ => Spec.modify fun s hs => ⟨(hd s) ▸ hs.receipts, (hb s) ▸ hs.background⟩

theorem attempt (hp : Keeps R B p)
    (hh : ∀ e, Keeps R B (handler e)) : Keeps R B (Prog.attempt p handler) :=
  fun G hok => Spec.attempt (hp G hok) fun e => hh e G hok

theorem when {c : Prop} [Decidable c] {p : WalProg Unit} (hp : Keeps R B p) : Keeps R B (Prog.when c p) := by
  unfold Prog.when
  split
  · exact hp
  · exact pure ()

theorem wrapping {context : String} (hp : Keeps R B p) :
    Keeps R B (Wal.wrapping context p) := attempt hp fun _ => throw _

theorem atomically
    (hg : ∀ d, R d.receipts → R (g d).receipts) : Keeps R B (Wal.atomically what g) := by
  refine fun _ hok => Spec.of_state fun s hs => ?_
  have hkeep : Kept R B (s.onDisk g) := ⟨hg _ hs.receipts, hs.background⟩
  refine (atomically_spec hok rfl (fun _ _ => hs) hs.receipts hkeep.receipts).post ?_
  rintro _ _ rfl
  exact hkeep

theorem replaceFile
    (hg : ∀ d, R d.receipts → R (g d).receipts) : Keeps R B (Wal.replaceFile what g) := by
  refine fun _ hok => Spec.of_state fun s hs => ?_
  have hkeep : Kept R B (s.onDisk g) := ⟨hg _ hs.receipts, hs.background⟩
  refine (replaceFile_spec hok s).weaken (fun _ h => h) ?_ ?_ ?_
  · rintro _ _ rfl; exact hkeep
  · rintro _ _ ⟨rfl | rfl, -⟩
    · exact hs
    · exact hkeep
  · rintro _ (rfl | rfl | ⟨_, rfl⟩)
    · exact hs.receipts
    · exact hkeep.receipts
    · exact hs.receipts

theorem writeFull (name : Cursor) (bytes : List Byte) : Keeps R B (Wal.writeFull name bytes) := by
  intro G hok
  refine Spec.effect hok fun f s hf hs => ?_
  have hkeep : ∀ g, Kept R B (s.onDisk (·.modifyFile name g)) := fun _ =>
    ⟨hs.receipts, hs.background⟩
  cases f with
  | crash k => exact ⟨(hkeep _).receipts, _, hf⟩
  | _ => exact hkeep _

end Keeps

def Disk.withReceipts (d : Disk) (rs : List (String × OnceReceipt)) : Disk :=
  { d with receipts := rs }

def State.withReceipts (s : State) (rs : List (String × OnceReceipt)) : State :=
  s.onDisk (·.withReceipts rs)

def reworld (rs : List (String × OnceReceipt)) (w : World State) : World State :=
  ⟨w.st.withReceipts rs, w.faults⟩

/-- `p` does not depend on the receipts, and does not close the WAL; where nothing goes wrong any
more, nothing goes wrong after it. -/
structure Aside (p : WalProg α) : Prop where
  blind : ∀ rs w, p (reworld rs w) = (p w).mapState (reworld rs)
  opened : ∀ w, (p w).state.st.wal.closed = w.st.wal.closed
  settled : ∀ w, w.faults = [] → (p w).state.faults = []

namespace Aside

theorem pure (a : α) : Aside (Prog.pure a) := ⟨fun _ _ => rfl, fun _ => rfl, fun _ h => h⟩

theorem throw (e : WalError) : Aside (Prog.throw e : WalProg α) :=
  ⟨fun _ _ => rfl, fun _ => rfl, fun _ h => h⟩

theorem modify (hf : ∀ s rs, f (s.withReceipts rs) = (f s).withReceipts rs)
    (hc : ∀ s, (f s).wal.closed = s.wal.closed) : Aside (Prog.modify f) := by
  refine ⟨fun rs w => ?_, fun w => hc w.st, fun _ h => h⟩
  simp only [Prog.modify, reworld, Outcome.mapState, hf]

theorem bind (hp : Aside p) (hk : ∀ a, Aside (k a)) : Aside (Prog.bind p k) := by
  constructor
  · intro rs w
    unfold Prog.bind
    rw [hp.blind rs w]
    cases p w with
    | done a v => exact (hk a).blind rs v
    | fail | crash => rfl
  · intro w
    have ho := hp.opened w
    unfold Prog.bind
    cases hpw : p w with
    | done a v =>
      rw [hpw] at ho
      exact ((hk a).opened v).trans ho
    | fail | crash => rw [hpw] at ho; exact ho
  · intro w hw
    have ho := hp.settled w hw
    unfold Prog.bind
    cases hpw : p w with
    | done a v =>
      rw [hpw] at ho
      exact (hk a).settled v ho
    | fail | crash => rw [hpw] at ho; exact ho

theorem get {k : State → WalProg β} (hk : ∀ s, Aside (k s))
    (hb : ∀ s rs, k (s.withReceipts rs) = k s) : Aside (Prog.bind Prog.get k) := by
  refine ⟨fun rs w => ?_, fun w => (hk w.st).opened w, fun w => (hk w.st).settled w⟩
  change k (w.st.withReceipts rs) (reworld rs w) = _
  rw [hb]
  exact (hk w.st).blind rs w

theorem attempt (hp : Aside p) (hh : ∀ e, Aside (handler e)) :
    Aside (Prog.attempt p handler) := by
  constructor
  · intro rs w
    unfold Prog.attempt
    rw [hp.blind rs w]
    cases p w with
    | done | crash => rfl
    | fail e v => exact (hh e).blind rs v
  · intro w
    have ho := hp.opened w
    unfold Prog.attempt
    cases hpw : p w with
    | done | crash => rw [hpw] at ho; exact ho
    | fail e v =>
      rw [hpw] at ho
      exact ((hh e).opened v).trans ho
  · intro w hw
    have ho := hp.settled w hw
    unfold Prog.attempt
    cases hpw : p w with
    | done | crash => rw [hpw] at ho; exact ho
    | fail e v =>
      rw [hpw] at ho
      exact (hh e).settled v ho

theorem effect {run : Fault → State → Outcome State WalError α}
    (hb : ∀ f s rs, run f (s.withReceipts rs) = (run f s).mapState (·.withReceipts rs))
    (hc : ∀ f s, (run f s).state.wal.closed = s.wal.closed) : Aside (Prog.effect run) := by
  constructor
  · intro rs w
    unfold Prog.effect
    cases hf : w.faults with
    | nil => simp only [reworld, hf, hb]; cases run .ok w.st <;> rfl
    | cons f fs => simp only [reworld, hf, hb]; cases run f w.st <;> rfl
  · intro w
    unfold Prog.effect
    cases hf : w.faults with
    | nil =>
      have ho := hc .ok w.st
      dsimp only
      cases hr : run .ok w.st <;> rw [hr] at ho <;> exact ho
    | cons f fs =>
      have ho := hc f w.st
      dsimp only
      cases hr : run f w.st <;> rw [hr] at ho <;> exact ho
  · intro w hw
    unfold Prog.effect
    rw [hw]
    dsimp only
    cases run .ok w.st <;> rfl

theorem atomically
    (hg : ∀ d rs, g (d.withReceipts rs) = (g d).withReceipts rs) :
    Aside (Wal.atomically what g) := by
  refine effect (fun f s rs => ?_) fun f s => ?_
  · cases f with
    | crash k =>
      cases k <;> simp [Outcome.mapState, State.withReceipts, State.onDisk, hg]
    | _ => simp [Outcome.mapState, State.withReceipts, State.onDisk, hg]
  · cases f with
    | crash k => cases k <;> rfl
    | _ => rfl

theorem replaceFile
    (hg : ∀ d rs, g (d.withReceipts rs) = (g d).withReceipts rs) :
    Aside (Wal.replaceFile what g) := by
  refine effect (fun f s rs => ?_) fun f s => ?_
  · cases f with
    | crash k =>
      match k with
      | 0 => rfl
      | 1 => simp [Outcome.mapState, State.withReceipts, State.onDisk, hg]
      | k + 2 => rfl
    | _ => simp [Outcome.mapState, State.withReceipts, State.onDisk, hg]
  · cases f with
    | crash k =>
      match k with
      | 0 => rfl
      | 1 => rfl
      | k + 2 => rfl
    | _ => rfl

theorem writeFull (name : Cursor) (bytes : List Byte) : Aside (Wal.writeFull name bytes) :=
  effect (fun f _ _ => by cases f <;> rfl) fun f _ => by cases f <;> rfl

end Aside

/-! ## The operations -/

structure Foreign (p : WalProg α) : Prop where
  aside : Aside p
  keeps : ∀ {R B}, Keeps R B p

namespace Foreign

theorem pure (a : α) : Foreign (Prog.pure a) := ⟨.pure a, .pure a⟩

theorem throw (e : WalError) : Foreign (Prog.throw e : WalProg α) := ⟨.throw e, .throw e⟩

theorem bind (hp : Foreign p) (hk : ∀ a, Foreign (k a)) : Foreign (Prog.bind p k) :=
  ⟨hp.aside.bind fun a => (hk a).aside, hp.keeps.bind fun a => (hk a).keeps⟩

theorem get {k : State → WalProg β} (hk : ∀ s, Foreign (k s))
    (hb : ∀ s rs, k (s.withReceipts rs) = k s) : Foreign (Prog.bind Prog.get k) :=
  ⟨.get (fun s => (hk s).aside) hb, .get fun s => (hk s).keeps⟩

theorem modify (hf : ∀ s rs, f (s.withReceipts rs) = (f s).withReceipts rs)
    (hc : ∀ s, (f s).wal.closed = s.wal.closed)
    (hb : ∀ s, (f s).wal.backgroundErr = s.wal.backgroundErr) : Foreign (Prog.modify f) :=
  ⟨.modify hf hc, .modify (fun s => congrArg (·.disk.receipts) (hf s s.disk.receipts)) hb⟩

theorem attempt (hp : Foreign p)
    (hh : ∀ e, Foreign (handler e)) : Foreign (Prog.attempt p handler) :=
  ⟨hp.aside.attempt fun e => (hh e).aside, hp.keeps.attempt fun e => (hh e).keeps⟩

theorem wrapping {context : String} (hp : Foreign p) : Foreign (Wal.wrapping context p) :=
  attempt hp fun _ => throw _

theorem when {c : Prop} [Decidable c] {p : WalProg Unit} (hp : Foreign p) :
    Foreign (Prog.when c p) := by
  unfold Prog.when
  split
  · exact hp
  · exact pure ()

theorem atomically
    (hg : ∀ d rs, g (d.withReceipts rs) = (g d).withReceipts rs) :
    Foreign (Wal.atomically what g) :=
  ⟨.atomically hg, .atomically fun d h => congrArg (·.receipts) (hg d d.receipts) ▸ h⟩

theorem replaceFile
    (hg : ∀ d rs, g (d.withReceipts rs) = (g d).withReceipts rs) :
    Foreign (Wal.replaceFile what g) :=
  ⟨.replaceFile hg, .replaceFile fun d h => congrArg (·.receipts) (hg d d.receipts) ▸ h⟩

theorem writeFull (name : Cursor) (bytes : List Byte) : Foreign (Wal.writeFull name bytes) :=
  ⟨.writeFull name bytes, .writeFull name bytes⟩

end Foreign

theorem saveMetadata_foreign (m : Metadata) : Foreign (saveMetadata m) := by
  unfold saveMetadata
  split
  · exact .throw _
  · exact .replaceFile fun _ _ => rfl

theorem updateMetadata_foreign {m : Metadata} {save : WalProg Unit} {wrap : WalError → WalError}
    (hs : Foreign save) : Foreign (updateMetadata m save wrap) := by
  unfold updateMetadata
  refine .get (fun s => .bind (.modify (fun _ _ => rfl) (fun _ => rfl) fun _ => rfl) fun _ => ?_) fun _ _ => rfl
  exact .attempt hs fun e => .bind (.modify (fun _ _ => rfl) (fun _ => rfl) fun _ => rfl) fun _ => .throw _

theorem saveMetadataLocked_foreign : Foreign saveMetadataLocked := by
  unfold saveMetadataLocked
  exact .get (fun _ => saveMetadata_foreign _) fun _ _ => rfl

theorem saveMetadataDurableLocked_foreign : Foreign saveMetadataDurableLocked := by
  unfold saveMetadataDurableLocked
  exact .get (fun _ => saveMetadata_foreign _) fun _ _ => rfl

theorem removeSegment_foreign (name : Cursor) : Foreign (removeSegment name) := by
  unfold removeSegment
  refine .get (fun s => ?_) fun _ _ => rfl
  split
  · exact .throw _
  · exact .atomically fun _ _ => rfl

theorem createFile_foreign (name : Cursor) : Foreign (createFile name) := by
  unfold createFile
  refine .get (fun s => ?_) fun _ _ => rfl
  split
  · exact .throw _
  · exact .atomically fun _ _ => rfl

theorem touch_foreign (what : String) : Foreign (touch what) := .atomically fun _ _ => rfl

theorem syncLocked_foreign : Foreign syncLocked := by
  unfold syncLocked
  refine .get (fun s => ?_) fun _ _ => rfl
  split
  · exact .pure ()
  · refine .bind (.wrapping (.atomically fun _ _ => rfl)) fun _ => ?_
    refine .bind (updateMetadata_foreign saveMetadataLocked_foreign) fun _ => ?_
    exact .bind (.modify (fun _ _ => rfl) (fun _ => rfl) fun _ => rfl) fun _ => .wrapping (touch_foreign _)

theorem deleteSegmentLocked_foreign (seg : Segment) : Foreign (deleteSegmentLocked seg) := by
  unfold deleteSegmentLocked
  refine .get (fun s => ?_) fun _ _ => rfl
  split
  · exact .throw _
  · exact .bind (removeSegment_foreign _) fun _ =>
      .bind (.modify (fun _ _ => rfl) (fun _ => rfl) fun _ => rfl) fun _ => touch_foreign _

theorem deleteWithGapLocked_foreign (seg : Segment) (r : GapReason) :
    Foreign (deleteWithGapLocked seg r) := by
  unfold deleteWithGapLocked
  split
  · exact .throw _
  · exact .get (fun s => .bind (updateMetadata_foreign saveMetadataDurableLocked_foreign) fun _ =>
      deleteSegmentLocked_foreign _) fun _ _ => rfl

theorem deleteWhile_foreign {due : WAL → Nat → Segment → Bool} {delete : Segment → WalProg Unit}
    (hd : ∀ seg, Foreign (delete seg)) (segs : List Segment) (freed : Nat) :
    Foreign (deleteWhile due delete segs freed) := by
  induction segs generalizing freed with
  | nil => exact .pure _
  | cons seg rest ih =>
    unfold deleteWhile
    refine .get (fun s => ?_) fun _ _ => rfl
    split
    · exact .bind (hd seg) fun _ => ih _
    · exact .pure _

theorem deleteACKedLocked_foreign : Foreign deleteACKedLocked := by
  unfold deleteACKedLocked
  exact .get (fun _ => deleteWhile_foreign deleteSegmentLocked_foreign _ _) fun _ _ => rfl

theorem enforceRetentionLocked_foreign (now : Instant) (incoming : Nat) :
    Foreign (enforceRetentionLocked now incoming) :=
  .bind deleteACKedLocked_foreign fun _ =>
    .get (fun _ => deleteWhile_foreign (fun _ => deleteWithGapLocked_foreign _ _) _ _) fun _ _ => rfl

theorem createActiveLocked_foreign (c : Cursor) (now : Instant) : Foreign (createActiveLocked c now) :=
  .bind (.wrapping (createFile_foreign c)) fun _ => .modify (fun _ _ => rfl) (fun _ => rfl) fun _ => rfl

theorem appendFrame_foreign (f : DecodedFrame) (bytes : List Byte) : Foreign (appendFrame f bytes) := by
  unfold appendFrame
  refine .get (fun s => .bind (.when syncLocked_foreign) fun _ => ?_) fun _ _ => rfl
  refine .bind (enforceRetentionLocked_foreign _ _) fun _ => .get (fun s => ?_) fun _ _ => rfl
  refine .bind (.when (createActiveLocked_foreign _ _)) fun _ => .get (fun s => ?_) fun _ _ => rfl
  split
  · exact .throw _
  · refine .bind (.wrapping (.writeFull _ _)) fun _ => ?_
    refine .bind (.modify (fun _ _ => rfl) (fun _ => rfl) fun _ => rfl) fun _ => .get (fun s => ?_) fun _ _ => rfl
    exact .bind (.when syncLocked_foreign) fun _ => .pure _

theorem appendLocked_foreign (canceled : Bool) (now : Instant) (payload : List Byte) :
    Foreign (appendLocked canceled now payload) := by
  unfold appendLocked
  refine .get (fun s => ?_) fun _ _ => rfl
  split
  · exact .throw _
  split
  · exact .throw _
  split
  · exact .throw _
  split
  · exact .throw _
  split
  · exact .throw _
  split
  · exact .throw _
  split
  · exact .throw _
  · exact appendFrame_foreign _ _

theorem whenOpen_keeps (hp : Keeps R B p) : Keeps R B (whenOpen p) := by
  unfold whenOpen
  refine .get fun s => ?_
  split
  · exact .throw _
  · exact hp

theorem rebindArchive_keeps (archive : String) : Keeps R B (rebindArchive archive) := by
  unfold rebindArchive
  refine whenOpen_keeps (.get fun s => ?_)
  split
  · exact .throw _
  split
  · exact .pure _
  · exact .bind syncLocked_foreign.keeps fun _ => .get fun _ =>
      (updateMetadata_foreign saveMetadataLocked_foreign).keeps

theorem advanceAck_keeps (c : Cursor) : Keeps R B (advanceAck c) := by
  unfold advanceAck
  exact .get fun _ => .bind (updateMetadata_foreign saveMetadataLocked_foreign).keeps fun _ =>
    .bind deleteACKedLocked_foreign.keeps fun _ => .pure _

section

variable (now : Instant)

include now

theorem ackAudit_keeps (archive : String) (proposed : Cursor) (seen : Nat) :
    Keeps R B (ackAudit now archive proposed seen) := by
  unfold ackAudit
  refine whenOpen_keeps (.get fun s => ?_)
  split
  · exact .throw _
  split
  · exact .throw _
  refine .bind syncLocked_foreign.keeps fun _ => .get fun s => ?_
  split
  · exact .throw _
  split
  · exact .bind deleteACKedLocked_foreign.keeps fun _ => .pure _
  split
  · exact .throw _
  · exact advanceAck_keeps _

theorem enforceLimits_keeps : Keeps R B (enforceLimits now) :=
  whenOpen_keeps (.bind syncLocked_foreign.keeps fun _ => (enforceRetentionLocked_foreign _ _).keeps)

theorem reclaimACKedForDiskPressure_keeps (n : Int) :
    Keeps R B (reclaimACKedForDiskPressure now n) := by
  unfold reclaimACKedForDiskPressure
  refine whenOpen_keeps (.get fun s => ?_)
  split
  · exact .pure _
  · exact .bind (deleteWhile_foreign deleteSegmentLocked_foreign _ _).keeps fun _ => .get fun _ => .pure _

theorem reclaimUnackedForDiskPressure_keeps (n : Int) :
    Keeps R B (reclaimUnackedForDiskPressure now n) := by
  unfold reclaimUnackedForDiskPressure
  refine whenOpen_keeps (.get fun s => ?_)
  split
  · exact .pure _
  · exact .bind (deleteWhile_foreign (fun _ => deleteWithGapLocked_foreign _ _) _ _).keeps fun _ =>
      .get fun _ => .pure _

theorem reclaimForDiskPressure_keeps (n : Int) :
    Keeps R B (reclaimForDiskPressure now n) := by
  unfold reclaimForDiskPressure
  refine .bind (reclaimACKedForDiskPressure_keeps _ _) fun acked => ?_
  split
  · exact .pure _
  · exact .bind (reclaimUnackedForDiskPressure_keeps _ _) fun _ => .pure _

end

theorem reclaimTempsFrom_keeps (canceled : Bool) (n : Int) (sizes : List Nat) (freed : Nat) :
    Keeps R B (reclaimTempsFrom canceled n sizes freed) := by
  induction sizes generalizing freed with
  | nil => exact .pure _
  | cons size rest ih =>
    unfold reclaimTempsFrom
    split
    · exact .pure _
    split
    · exact .throw _
    · exact .bind (.atomically fun _ h => h) fun _ => ih _

theorem reclaimAbandonedTempForDiskPressure_keeps (canceled : Bool) (n : Int) :
    Keeps R B (reclaimAbandonedTempForDiskPressure canceled n) := by
  unfold reclaimAbandonedTempForDiskPressure
  refine whenOpen_keeps (.get fun s => ?_)
  split
  · exact .pure _
  · exact .bind (reclaimTempsFrom_keeps _ _ _ _) fun _ =>
      .bind (.when (touch_foreign _).keeps) fun _ => .pure _

/-! ## Idempotent appends -/

structure Stable (R : List (String × OnceReceipt) → Prop) : Prop where
  put : ∀ (d : Disk) name r, R d.receipts → R (d.putReceipt name r).receipts
  remove : ∀ (d : Disk) name, R d.receipts → R (d.removeReceipt name).receipts

theorem saveOnceReceiptLocked_keeps (hR : Stable R) (receipt : OnceReceipt) :
    Keeps R B (saveOnceReceiptLocked receipt) := by
  unfold saveOnceReceiptLocked
  split
  · exact .replaceFile fun _ h => hR.put _ _ _ h
  · exact .throw _

theorem appendAndComplete_keeps (hR : Stable R) (canceled : Bool) (now : Instant)
    (receipt : OnceReceipt) (payload : List Byte) :
    Keeps R B (appendAndComplete canceled now receipt payload) :=
  .bind (appendLocked_foreign _ _ _).keeps fun _ => .bind syncLocked_foreign.keeps fun _ =>
    .bind (saveOnceReceiptLocked_keeps hR _) fun _ => .pure _

theorem appendOnce_keeps (hR : Stable R) (canceled : Bool) (now : Instant) (key : String)
    (payload : List Byte) : Keeps R B (appendOnce canceled now key payload) := by
  unfold appendOnce
  split
  · exact .throw _
  refine .get fun s => ?_
  split
  · exact .throw _
  split
  · exact .throw _
  split
  · exact .throw _
  split
  · exact .throw _
  · split
    · exact .throw _
    split
    · exact .pure _
    split
    · exact .throw _
    · exact .bind (saveOnceReceiptLocked_keeps hR _) fun _ => .pure _
    · exact appendAndComplete_keeps hR _ _ _ _
  · exact .bind (saveOnceReceiptLocked_keeps hR _) fun _ => appendAndComplete_keeps hR _ _ _ _

theorem forgetOnce_keeps (hR : Stable R) (key : String) : Keeps R B (forgetOnce key) := by
  unfold forgetOnce
  split
  · exact .throw _
  refine whenOpen_keeps (.bind ?_ fun _ => (touch_foreign _).keeps)
  unfold removeOnceReceipt
  exact .get fun s => .when (.wrapping (.atomically fun _ h => hR.remove _ _ h))

/-! ## Sync, the background loop, closing and opening -/

theorem sync_keeps (hB : B none) : Keeps R B sync :=
  whenOpen_keeps (.bind syncLocked_foreign.keeps fun _ => fun _ _ =>
    Spec.modify fun _ hs => ⟨hs.receipts, hB⟩)

theorem syncTick_keeps (hB : ∀ e, B (some e)) (now : Instant) : Keeps R B (syncTick now) := by
  have hfails : ∀ e, Keeps R B (Prog.modify fun s =>
      { s with wal := { s.wal with backgroundErr := some e } } : WalProg Unit) := fun e _ _ =>
    Spec.modify fun _ hs => ⟨hs.receipts, hB e⟩
  unfold syncTick
  refine .get fun s => ?_
  split
  · exact .pure _
  · refine .bind (.when (.attempt syncLocked_foreign.keeps hfails)) fun _ => .get fun s => ?_
    exact .when (.attempt (.bind (enforceRetentionLocked_foreign _ _).keeps fun _ => .pure _) hfails)

theorem errorOf_keeps {p : WalProg Unit} (hp : Keeps R B p) : Keeps R B (errorOf p) :=
  .attempt (.bind hp fun _ => .pure _) fun _ => .pure _

theorem close_keeps : Keeps R B close := by
  unfold close
  refine .get fun s => ?_
  split
  · exact .pure _
  refine .bind (errorOf_keeps syncLocked_foreign.keeps) fun failed => .get fun s => ?_
  refine .bind ?_ fun failed => .bind (.modify (fun _ => rfl) fun s => ?_) fun _ => ?_
  · unfold closeActive
    split
    · exact .pure _
    · exact .bind (errorOf_keeps (touch_foreign _).keeps) fun _ => .pure _
  · simp only [WAL.sealActive]
  · split
    · exact .throw _
    · exact .pure _

theorem finishScan_keeps (name : Cursor) (repairTail : Bool) (seg : Option Segment) (n : Nat) :
    Keeps R B (finishScan name repairTail seg n) := by
  unfold finishScan
  split
  · split
    · exact .bind (removeSegment_foreign _).keeps fun _ => .bind (touch_foreign _).keeps fun _ => .pure _
    · exact .throw _
  · split
    · exact .throw _
    · exact .pure _

theorem scanSegment_keeps (name : Cursor) (repairTail : Bool) (max : Nat) :
    Keeps R B (scanSegment name repairTail max) := by
  unfold scanSegment
  refine .get fun s => ?_
  split
  · exact .throw _
  split
  · exact .throw _
  split
  · exact finishScan_keeps _ _ _ _
  split
  · exact .bind (.atomically fun _ h => h) fun _ => .bind (.atomically fun _ h => h) fun _ =>
      finishScan_keeps _ _ _ _
  · exact .throw _

theorem recoverFrom_keeps (max : Nat) (names : List Cursor) :
    Keeps R B (recoverFrom max names) := by
  induction names with
  | nil => exact .pure _
  | cons name rest ih =>
    refine .bind (scanSegment_keeps _ _ _) fun seg => .bind (.modify (fun _ => rfl) fun s => ?_)
      fun _ => ih
    cases seg <;> rfl

theorem recoverSegments_keeps : Keeps R B recoverSegments := by
  unfold recoverSegments
  refine .get fun s => .bind (recoverFrom_keeps _ _) fun _ => .get fun s => ?_
  split
  · exact .throw _
  · exact .pure _

theorem openWAL_keeps (agentId : String) (incarnation : Nat) (options : Options) (now : Instant) :
    Keeps R (fun _ => True) (openWAL agentId incarnation options now) := by
  unfold openWAL
  split
  · exact .throw _
  refine .get fun s => ?_
  split
  · exact .throw _
  refine .bind (fun _ _ => Spec.modify fun _ hs => ⟨hs.receipts, trivial⟩) fun _ =>
    .bind recoverSegments_keeps fun _ => .bind ?_ fun _ =>
    .bind (enforceRetentionLocked_foreign _ _).keeps fun _ => .get fun s => .wrapping (saveMetadata_foreign _).keeps
  unfold reconcileRecoveredState
  refine .get fun s => ?_
  split
  · exact .throw _
  · exact .modify (fun _ => rfl) fun _ => rfl

/-! ## Calls -/

def Call.isOnce : Call → Bool
  | .appendOnce .. => true
  | .forgetOnce _ => true
  | _ => false

structure Call.Permits (c : Call) (B : Option WalError → Prop) : Prop where
  cleared : c = .sync → B none
  stored : ∀ now, c = .tick now → ∀ e, B (some e)

theorem quietly_keeps (hp : Keeps R B p) : Keeps R B (quietly p) :=
  .bind hp fun _ => .pure _

theorem recording_keeps {p : WalProg Record} (hp : Keeps R B p) : Keeps R B (recording p) :=
  .bind hp fun _ => .pure _

theorem Call.run_keeps (c : Call) (hR : c.isOnce = true → Stable R) (hB : c.Permits B) :
    Keeps R B c.run := by
  cases c with
  | append canceled now payload => exact recording_keeps (appendLocked_foreign _ _ _).keeps
  | appendOnce canceled now key payload =>
    exact recording_keeps (appendOnce_keeps (hR rfl) _ _ _ _)
  | forgetOnce key => exact quietly_keeps (forgetOnce_keeps (hR rfl) _)
  | sync => exact quietly_keeps (sync_keeps (hB.cleared rfl))
  | ackAudit now archive proposed seen => exact quietly_keeps (ackAudit_keeps _ _ _ _)
  | rebindArchive archive => exact quietly_keeps (rebindArchive_keeps _)
  | enforceLimits now => exact quietly_keeps (enforceLimits_keeps _)
  | reclaimACKed now n => exact quietly_keeps (reclaimACKedForDiskPressure_keeps _ _)
  | reclaimUnacked now n => exact quietly_keeps (reclaimUnackedForDiskPressure_keeps _ _)
  | reclaim now n => exact quietly_keeps (reclaimForDiskPressure_keeps _ _)
  | reclaimTemp canceled n => exact quietly_keeps (reclaimAbandonedTempForDiskPressure_keeps _ _)
  | tick now => exact quietly_keeps (syncTick_keeps (hB.stored now rfl) _)

end DockLattice.Wal
