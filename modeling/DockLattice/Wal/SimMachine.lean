import DockLattice.Wal.Keeps
import DockLattice.Wal.SimOpen

/-!
# DockLattice.Wal.SimMachine

The machine as journals and images. `Trans` says once what an event can do to a well-formed view of
the directory; every invariant of a whole run is derived from it.

* `step_trans`: each step of the machine is a transition of its view.
* `Trans.ok`: transitions keep views well formed.
-/

namespace DockLattice.Wal

open Bytes Effect Machine

variable {o : Options} {agentId : String} {c : Call} {fs : List Fault} {i j : Image o} {l m : Log o}
  {n : Nat}

/-! ## Calls -/

/-- The decisions the environment may take when `fs` lists those that it did take. -/
def Only (fs : List Fault) (f : Fault) : Prop := f = .ok ∨ f ∈ fs

theorem Only.ok (fs : List Fault) : Only fs .ok := .inl rfl

theorem Only.allowed {σ : Type} (s : σ) (fs : List Fault) : Allowed (Only fs) (⟨s, fs⟩ : World σ) :=
  fun _ hf => .inr hf

def Whole (fs : List Fault) : Prop := ∀ k, Fault.torn k ∈ fs → k = 0

theorem Whole.only (h : Whole fs) : ∀ k, Only fs (.torn k) → k = 0 := by
  rintro k (hk | hk)
  · cases hk
  · exact h k hk

def Call.Writes (c : Call) (now : Instant) (payload : List Byte) : Prop :=
  match c with
  | .append _ now' payload' => now' = now ∧ payload' = payload
  | .appendOnce _ now' _ payload' => now' = now ∧ payload' = payload
  | _ => False

def Call.MayWrite (c : Call) (l : Log o) (n : List DecodedFrame) : Prop :=
  n = [] ∨ ∃ now payload, c.Writes now payload ∧ n = [l.frameFor now payload]

/-- The deletion the call would make is recorded already, for the other reason. -/
def Call.Stuck (c : Call) (l : Log o) : Prop :=
  match c with
  | .append _ now payload => l.Blocked now (l.frameFor now payload).bytes
  | .appendOnce _ now _ payload => l.Blocked now (l.frameFor now payload).bytes
  | .enforceLimits now => l.Blocked now 0
  | .reclaimUnacked _ bytesNeeded => l.Pressed bytesNeeded
  | .reclaim _ bytesNeeded => l.Pressed bytesNeeded
  | .tick now => l.Blocked now 0
  | _ => False

/-- The invariant errors that a call raises about its arguments, about the receipt of its key, or
when it has run out of numbers. -/
def Call.MayRefuse (c : Call) (e : WalError) : Prop :=
  match c with
  | .append .. => e = .invariant "sequence exhausted"
  | .appendOnce _ _ key _ => e = .invariant "sequence exhausted" ∨ OnceRefuses key e
  | .forgetOnce key => validOnceKey key = false ∧ e = .invariant "invalid idempotency key"
  | .ackAudit _ archive proposed _ => AckRefuses archive proposed e
  | .rebindArchive archive => archive = "" ∧ e = .invariant "empty archive id"
  | _ => False

/-- Why a call may report the invariant error `e`. -/
def Call.Blames (c : Call) (l : Log o) (e : WalError) : Prop :=
  c.MayRefuse e ∨ l.backgroundErr = some e ∨ l.Phantom ∨ c.Stuck l

structure Moves (fs : List Fault) (c : Call) (l : Log o) (n : List DecodedFrame) (m : Log o) :
    Prop where
  moves : Steps l n m ∨ (n = [] ∧ ∃ a, c = .rebindArchive a ∧ Rebinds l a m)
  written : c.MayWrite l n
  filled : StaysFilled (Only fs) l m
  tidies : Tidies (Only fs) l m
  stalls : ∀ now, c = .tick now →
    m.backgroundErr = l.backgroundErr ∨ Stalls (Only fs) l now m.backgroundErr

/-- How a program that runs for the call `c` ends. -/
def Call.Ends (fs : List Fault) (c : Call) (l : Log o) {α : Type} (p : WalProg α) : Prop :=
  Spec (Only fs) (fun s => s = l.toState) p
    (fun _ s => ∃ n m, Moves fs c l n m ∧ s = m.toState)
    (fun e s => ∃ n m, Moves fs c l n m ∧ (e.isInvariant = false ∨ c.Blames l e) ∧ s = m.toState)
    (fun s => Left (c.MayWrite l) l s.disk ∨
      ∃ a m, c = .rebindArchive a ∧ Rebinds l a m ∧ s.disk = m.disk)

section Ends

variable {n : List DecodedFrame} {α β : Type} {p : WalProg α}

theorem Call.MayWrite.env (fs : List Fault) (c : Call) (l : Log o) :
    Env (Only fs) (c.MayWrite l) := ⟨.ok fs, .inl rfl⟩

theorem Moves.of_quietly (hs : Steps l n m) (hq : Quietly (Only fs) l m n)
    (ht : ∀ now, c ≠ .tick now) : Moves fs c l n m :=
  ⟨.inl hs, .inl hq.nothing, .inl hq.filled, hq.tidies, fun now h => absurd h (ht now)⟩

theorem Moves.of_appended {now : Instant} {payload : List Byte} (hs : Steps l n m)
    (ha : Appended (Only fs) l m now payload n) (hc : c.Writes now payload) : Moves fs c l n m := by
  refine ⟨.inl hs, ?_, ha.filled, ha.tidies, ?_⟩
  · rcases ha.written with hn | hn
    · exact .inl hn
    · exact .inr ⟨now, payload, hc, hn⟩
  · rintro t rfl; exact hc.elim

theorem Call.Ends.of_runs {k : α → β}
    {Q : α → List DecodedFrame → Log o → Prop} {E : WalError → List DecodedFrame → Log o → Prop}
    (hp : Runs (Only fs) (c.MayWrite l) l p Q E)
    (hQ : ∀ a n m, Steps l n m → Q a n m → Moves fs c l n m)
    (hE : ∀ e n m, Steps l n m → E e n m →
      Moves fs c l n m ∧ (e.isInvariant = false ∨ c.Blames l e)) :
    c.Ends fs l (Prog.bind p fun a => Prog.pure (k a)) := by
  refine Spec.bind (Q := fun _ s => ∃ n m, Moves fs c l n m ∧ s = m.toState)
    (Spec.weaken hp (fun _ h => h) ?_ ?_ fun _ h => .inl h) fun _ => Spec.ret fun _ h => h
  · rintro a s ⟨n, m, hs, hq, rfl⟩
    exact ⟨n, m, hQ a n m hs hq, rfl⟩
  · rintro e s ⟨n, m, hs, he, rfl⟩
    exact ⟨n, m, (hE e n m hs he).1, (hE e n m hs he).2, rfl⟩

theorem Call.Ends.of_quietly {V : WalError → Prop} (ht : ∀ now, c ≠ .tick now)
    (hp : Runs (Only fs) (c.MayWrite l) l p (fun _ n m => Quietly (Only fs) l m n)
      (fun e n m => Quietly (Only fs) l m n ∧ V e))
    (hV : ∀ e, V e → e.isInvariant = false ∨ c.Blames l e) : c.Ends fs l (quietly p) :=
  .of_runs hp (fun _ _ _ hs hq => .of_quietly hs hq ht)
    fun _ _ _ hs he => ⟨.of_quietly hs he.1 ht, hV _ he.2⟩

theorem Call.Blames.of_append {e : WalError} {now : Instant} {incoming : Nat}
    (hc : l.Blocked now incoming → c.Stuck l) (hx : c.MayRefuse (.invariant "sequence exhausted"))
    (hwhy : Refused l e ∨ AppendFails (Only fs) l now incoming e) :
    e.isInvariant = false ∨ c.Blames l e := by
  rcases hwhy with (hb | rfl | rfl | ⟨-, rfl⟩) | (⟨-, hi⟩ | ⟨-, hp | hb⟩)
  · exact .inr (.inr (.inl hb))
  · exact .inl rfl
  · exact .inl rfl
  · exact .inr (.inl hx)
  · exact .inl hi
  · exact .inr (.inr (.inr (.inl hp)))
  · exact .inr (.inr (.inr (.inr (hc hb))))

theorem Call.run_ends (hw : Whole fs) (h : l.Ok) (hcur : l.Current) (c : Call) :
    c.Ends fs l c.run := by
  have henv := Call.MayWrite.env fs c l
  cases c with
  | append canceled now payload =>
    refine .of_runs (append_runs henv hw.only h hcur canceled now payload
      (.inr ⟨now, payload, ⟨rfl, rfl⟩, rfl⟩)) ?_ ?_
    · intro r n m hs hq; exact .of_appended hs hq.1 ⟨rfl, rfl⟩
    · rintro e n m hs ⟨hq, hwhy⟩
      exact ⟨.of_appended hs hq ⟨rfl, rfl⟩, Call.Blames.of_append id rfl hwhy⟩
  | appendOnce canceled now key payload =>
    refine .of_runs (appendOnce_runs henv hw.only h hcur canceled now key payload
      (.inr ⟨now, payload, ⟨rfl, rfl⟩, rfl⟩)) ?_ ?_
    · intro r n m hs hq; exact .of_appended hs hq ⟨rfl, rfl⟩
    · rintro e n m hs ⟨hq, hwhy⟩
      refine ⟨.of_appended hs hq ⟨rfl, rfl⟩, ?_⟩
      rcases hwhy with hi | hr | hwhy
      · exact .inl hi
      · exact .inr (.inl (.inr hr))
      · exact Call.Blames.of_append id (.inl rfl) hwhy
  | forgetOnce key =>
    exact .of_quietly (by simp) (forgetOnce_runs henv key) fun _ he => he.imp_right .inl
  | sync =>
    exact .of_quietly (by simp) (sync_runs henv h) fun _ he =>
      he.imp And.right fun hp => .inr (.inr (.inl hp))
  | ackAudit now archive proposed seen =>
    exact .of_quietly (by simp) (ackAudit_runs henv h now archive proposed seen) fun _ he =>
      he.imp_right (Or.imp_right fun hp => .inr (.inl hp))
  | rebindArchive archive =>
    refine Spec.bind (Q := fun _ s => ∃ n m, Moves fs (.rebindArchive archive) l n m ∧
      s = m.toState) ((rebindArchive_spec henv h archive).weaken (fun _ h => h) ?_ ?_ ?_)
      fun _ => Spec.ret fun _ h => h
    · rintro _ s ⟨m, hq, hm, rfl⟩
      refine ⟨[], m, ⟨?_, .inl rfl, .inl hq.filled, hq.tidies, by simp⟩, rfl⟩
      rcases hm with rfl | hr
      · exact .inl (.refl _)
      · exact .inr ⟨rfl, archive, rfl, hr⟩
    · rintro e s ⟨m, hq, hm, he, rfl⟩
      refine ⟨[], m, ⟨?_, .inl rfl, .inl hq.filled, hq.tidies, by simp⟩,
        he.imp_right (Or.imp_right fun hp => .inr (.inl hp)), rfl⟩
      rcases hm with hs | ⟨-, hr⟩
      · exact .inl hs
      · exact .inr ⟨rfl, archive, rfl, hr⟩
    · rintro s (hl | ⟨m, hr, hd⟩)
      · exact .inl hl
      · exact .inr ⟨archive, m, rfl, hr, hd⟩
  | enforceLimits now =>
    exact .of_quietly (by simp) (enforceLimits_runs henv h now) fun _ he =>
      he.imp And.right fun hwhy => .inr (.inr hwhy)
  | reclaimACKed now n =>
    refine .of_runs (reclaimACKedForDiskPressure_runs henv h now n) ?_ ?_
    · intro r k m hs hq; exact .of_quietly hs hq.1 (by simp)
    · intro e k m hs he; exact ⟨.of_quietly hs he.1 (by simp), .inl he.2.2⟩
  | reclaimUnacked now n =>
    exact .of_quietly (by simp) (reclaimUnackedForDiskPressure_runs henv h now n)
      fun _ he => he.imp And.right fun hp => .inr (.inr (.inr hp))
  | reclaim now n =>
    exact .of_quietly (by simp) (reclaimForDiskPressure_runs henv h now n)
      fun _ he => he.imp And.right fun hp => .inr (.inr (.inr hp))
  | reclaimTemp canceled n =>
    exact .of_quietly (by simp) (reclaimAbandonedTempForDiskPressure_runs henv canceled n)
      fun _ hi => .inl hi
  | tick now =>
    refine .of_runs (syncTick_runs henv h now) ?_ fun _ _ _ _ he => he.elim
    rintro r n m hs ⟨hq, hb⟩
    refine ⟨.inl hs, .inl hq.nothing, .inl hq.filled, hq.tidies, ?_⟩
    intro t ht
    cases ht
    exact hb

/-- `Moves`, with what the call leaves alone. -/
structure Behaves (fs : List Fault) (c : Call) (l : Log o) (n : List DecodedFrame) (m : Log o) :
    Prop extends Moves fs c l n m where
  receipts : c.isOnce = false → m.receipts = l.receipts
  background : m.backgroundErr = l.backgroundErr ∨ (c = .sync ∧ m.backgroundErr = none) ∨
    ∃ now, c = .tick now ∧ Stalls (Only fs) l now m.backgroundErr

structure Dies (fs : List Fault) (c : Call) (l : Log o) (i : Image o) : Prop where
  deadly : Deadly (Only fs)
  left : (∃ new k tail, ∃ ht : Torn o.maxBytes tail, c.MayWrite l new ∧ Steps l new k ∧
      i = (k.torn tail ht).image) ∨
    ∃ a m, c = .rebindArchive a ∧ Rebinds l a m ∧ i = m.image
  receipts : c.isOnce = false → i.receipts = l.receipts

theorem Call.run_spec (hw : Whole fs) (h : l.Ok) (hcur : l.Current) (c : Call) :
    Meets (Only fs) (fun _ s => ∃ n m, Behaves fs c l n m ∧ s = m.toState)
      (fun e s => ∃ n m, Behaves fs c l n m ∧ (e.isInvariant = false ∨ c.Blames l e) ∧
        s = m.toState)
      (fun s => ∃ i, Dies fs c l i ∧ s.disk = i.disk) (c.run ⟨l.toState, fs⟩) := by
  let R : List (String × OnceReceipt) → Prop := fun rs => c.isOnce = false → rs = l.receipts
  let B : Option WalError → Prop := fun b => (∀ now, c ≠ .tick now) →
    b = l.backgroundErr ∨ (c = .sync ∧ b = none)
  have hR : c.isOnce = true → Stable R := fun ho =>
    ⟨fun _ _ _ _ hf => (by simp [ho] at hf), fun _ _ _ hf => (by simp [ho] at hf)⟩
  have hB : c.Permits B :=
    ⟨fun hc _ => .inr ⟨hc, rfl⟩, fun now hc _ hne => absurd hc (hne now)⟩
  have hkept : Kept R B l.toState := ⟨fun _ => rfl, fun _ => .inl rfl⟩
  have hback : ∀ {n m}, Moves fs c l n m → Kept R B m.toState → Behaves fs c l n m := by
    intro n m hm hk
    refine ⟨hm, hk.receipts, ?_⟩
    by_cases ht : ∃ now, c = .tick now
    · obtain ⟨now, rfl⟩ := ht
      rcases hm.stalls now rfl with hb | hs
      · exact .inl hb
      · exact .inr (.inr ⟨now, rfl, hs⟩)
    · rcases hk.background fun now hc => ht ⟨now, hc⟩ with hb | hb
      · exact .inl hb
      · exact .inr (.inl hb)
  have hspec := (Spec.and (Call.run_ends hw h hcur c) (c.run_keeps hR hB _ (.ok fs)))
    ⟨l.toState, fs⟩ ⟨rfl, hkept⟩ (Only.allowed _ fs)
  generalize c.run ⟨l.toState, fs⟩ = out at hspec ⊢
  cases out with
  | done r w =>
    obtain ⟨⟨⟨n, m, hm, hs⟩, hk⟩, hg⟩ := hspec
    rw [hs] at hk
    exact ⟨⟨n, m, hback hm hk, hs⟩, hg⟩
  | fail e w =>
    obtain ⟨⟨⟨n, m, hm, he, hs⟩, hk⟩, hg⟩ := hspec
    rw [hs] at hk
    exact ⟨⟨n, m, hback hm hk, he, hs⟩, hg⟩
  | crash w =>
    obtain ⟨⟨hleft, hk⟩, hd⟩ := hspec
    refine ⟨?_, hd⟩
    rcases hleft with hl | ⟨a, m, hc, hr, hdisk⟩
    · obtain ⟨new, k, tail, ht, hwr, hs, hdisk⟩ := hl.torn h
      refine ⟨(k.torn tail ht).image, ⟨hd, .inl ⟨new, k, tail, ht, hwr, hs, rfl⟩, ?_⟩, hdisk⟩
      exact fun hc => (congrArg Disk.receipts hdisk).symm.trans (hk hc)
    · refine ⟨m.image, ⟨hd, .inr ⟨a, m, hc, hr, rfl⟩, ?_⟩, hdisk⟩
      exact fun hc => (congrArg Disk.receipts hdisk).symm.trans (hk hc)

end Ends

/-! ## Views -/

inductive View (o : Options) where
  | up (l : Log o)
  | down (n : Nat) (i : Image o)

def View.machine : View o → Machine
  | .up l => ⟨l.metadata.currentIncarnation, .up l.toState⟩
  | .down n i => ⟨n, .down i.disk⟩

def View.Ok (agentId : String) : View o → Prop
  | .up l => l.Ok ∧ l.Current ∧ l.agentId = agentId
  | .down n i => i.Ok agentId ∧ ∀ m, i.saved = some m → m.currentIncarnation ≤ n

def Event.faults : Event → List Fault
  | .call _ fs => fs
  | .close fs => fs
  | .recover fs => fs
  | .reopen _ fs => fs
  | _ => []

def View.Ignores : View o → Event → Prop
  | .up _, .lose _ => True
  | .up _, .recover _ => True
  | .up _, .reopen .. => True
  | .up _, _ => False
  | .down .., .call .. => True
  | .down .., .close _ => True
  | .down .., .die => True
  | .down n _, .reopen .. => ¬ n < maxUint64
  | .down .., _ => False

inductive Trans (agentId : String) : View o → Event → View o → Reply → Prop where
  | call {fs : List Fault} {c : Call} {l m : Log o} {n : List DecodedFrame} (r : Option Record) :
      Behaves fs c l n m → Trans agentId (.up l) (.call c fs) (.up m) (.done r)
  | callFailed {fs : List Fault} {c : Call} {l m : Log o} {n : List DecodedFrame} {e : WalError} :
      Behaves fs c l n m → (e.isInvariant = false ∨ c.Blames l e) →
      Trans agentId (.up l) (.call c fs) (.up m) (.failed e)
  | callDied {fs : List Fault} {c : Call} {l : Log o} {i : Image o} : Dies fs c l i →
      Trans agentId (.up l) (.call c fs) (.down l.metadata.currentIncarnation i) .crashed
  | close {fs : List Fault} {l m : Log o} : Steps l [] m → Flushed l m → l.backgroundErr = none →
      m.receipts = l.receipts →
      Trans agentId (.up l) (.close fs) (.down l.metadata.currentIncarnation m.image) (.done none)
  | closeFailed {fs : List Fault} {l m : Log o} (e : WalError) : Steps l [] m →
      m.receipts = l.receipts → ((Faulty (Only fs) ∧ e.isInvariant = false) ∨ l.Phantom ∨
        l.backgroundErr = some e) →
      Trans agentId (.up l) (.close fs) (.down l.metadata.currentIncarnation m.image) (.failed e)
  | closeDied {fs : List Fault} {l m : Log o} {tail : List Byte} (ht : Torn o.maxBytes tail) :
      Deadly (Only fs) → Steps l [] m → m.receipts = l.receipts →
      Trans agentId (.up l) (.close fs)
        (.down l.metadata.currentIncarnation (m.torn tail ht).image) .crashed
  | die {l : Log o} :
      Trans agentId (.up l) .die (.down l.metadata.currentIncarnation l.image) .crashed
  | lose {n : Nat} {i : Image o} (keep : Cursor → Nat) :
      Trans agentId (.down n i) (.lose keep) (.down n (i.lose keep)) .crashed
  | recover {fs : List Fault} {n : Nat} {i j : Image o} : Mended i j →
      Trans agentId (.down n i) (.recover fs) (.down n j)
        (.recovered ⟨j.pieces.getLast?.map Piece.last, i.saved.bind (·.durableThrough)⟩)
  | recoverFailed {fs : List Fault} {n : Nat} {i j : Image o} {e : WalError} : Mends i j →
      Rejects (Only fs) i j (i.saved.getD zeroMetadata) e →
      Trans agentId (.down n i) (.recover fs) (.down n j) (.failed e)
  | recoverDied {fs : List Fault} {n : Nat} {i j : Image o} : Deadly (Only fs) → Mends i j →
      Trans agentId (.down n i) (.recover fs) (.down n j) .crashed
  | reopen {fs : List Fault} {now : Instant} {n : Nat} {i j : Image o} {l : Log o} :
      n < maxUint64 → Opened agentId (n + 1) now i j l → l.receipts = i.receipts →
      Trans agentId (.down n i) (.reopen now fs) (.up l) (.done none)
  | reopenRejected {fs : List Fault} {now : Instant} {n : Nat} {i j : Image o} {e : WalError} :
      n < maxUint64 → Mends i j → Rejects (Only fs) i j (i.adopted agentId (n + 1)) e →
      Trans agentId (.down n i) (.reopen now fs) (.down (n + 1) j) (.failed e)
  | reopenFailed {fs : List Fault} {now : Instant} {n : Nat} {i j : Image o} {l : Log o}
      {e : WalError} : n < maxUint64 → Mended i j → Steps (j.reopened agentId (n + 1)) [] l →
      l.receipts = i.receipts → ((Faulty (Only fs) ∧ e.isInvariant = false) ∨
        (e.isInvariant = true ∧ (j.reopened agentId (n + 1)).Blocked now 0)) →
      Trans agentId (.down n i) (.reopen now fs) (.down (n + 1) l.image) (.failed e)
  | reopenDiedEarly {fs : List Fault} {now : Instant} {n : Nat} {i j : Image o} :
      n < maxUint64 → Deadly (Only fs) → Mends i j →
      Trans agentId (.down n i) (.reopen now fs) (.down (n + 1) j) .crashed
  | reopenDied {fs : List Fault} {now : Instant} {n : Nat} {i j : Image o} {l : Log o}
      {tail : List Byte} (ht : Torn o.maxBytes tail) : n < maxUint64 → Deadly (Only fs) →
      Mended i j → Steps (j.reopened agentId (n + 1)) [] l → l.receipts = i.receipts →
      Trans agentId (.down n i) (.reopen now fs) (.down (n + 1) (l.torn tail ht).image) .crashed
  | ignored {v : View o} {e : Event} : v.Ignores e → Trans agentId v e v .ignored

/-! ## Transitions keep views well formed -/

theorem Log.Ok.torn_down (h : l.Ok) (hr : l.Rooted)
    (hn : l.metadata.currentIncarnation ≤ n) (tail : List Byte) (ht : Torn o.maxBytes tail) :
    (View.down n (l.torn tail ht).image).Ok l.agentId :=
  ⟨h.torn_image hr tail ht, fun m hm => Nat.le_trans (h.saved m hm).incarnation_le hn⟩

theorem Log.Ok.down (h : l.Ok) (hr : l.Rooted)
    (hn : l.metadata.currentIncarnation ≤ n) : (View.down n l.image).Ok l.agentId :=
  ⟨h.image hr, fun m hm => Nat.le_trans (h.saved m hm).incarnation_le hn⟩

theorem Behaves.ok {new : List DecodedFrame} (hb : Behaves fs c l new m) (h : l.Ok) (hcur : l.Current) : m.Ok ∧ m.Current ∧
      m.agentId = l.agentId ∧ m.metadata.currentIncarnation = l.metadata.currentIncarnation := by
  rcases hb.moves with hs | ⟨-, a, -, hr⟩
  · exact ⟨hs.ok h, hs.current hcur, hs.agentId, hs.incarnation⟩
  · exact ⟨hr.ok h, hr.current, hr.agentId, hr.incarnation⟩

theorem Dies.ok (hd : Dies fs c l i) (h : l.Ok) (hcur : l.Current) :
    (View.down l.metadata.currentIncarnation i).Ok l.agentId := by
  rcases hd.left with ⟨new, k, tail, ht, -, hs, rfl⟩ | ⟨a, m, -, hr, rfl⟩
  · rw [← hs.agentId, ← hs.incarnation]
    exact (hs.ok h).torn_down (.of_current (hs.ok h) (hs.current hcur)) (Nat.le_refl _) tail ht
  · rw [← hr.agentId, ← hr.incarnation]
    exact (hr.ok h).down (.of_current (hr.ok h) hr.current) (Nat.le_refl _)

theorem Mended.reopened_incarnation (h : Mended i j) (hi : i.Ok agentId)
    (hn : i.Newer agentId n) :
    (j.reopened agentId n).metadata.currentIncarnation = n := by
  rw [(h.ok hi).reopened_metadata (h.newer hn)]
  exact ((h.ok hi).adopted (h.newer hn)).current

theorem View.Ok.newer (h : (View.down n i).Ok agentId)
    (hagent : agentId ≠ "") (hn : n < maxUint64) : i.Newer agentId (n + 1) :=
  ⟨hagent, Nat.succ_pos n, hn, fun m hm => Nat.lt_succ_of_le (h.2 m hm)⟩

theorem View.Ok.reopened (h : (View.down n i).Ok agentId) (hagent : agentId ≠ "")
    (hn : n < maxUint64) (hm : Mended i j) (hs : Steps (j.reopened agentId (n + 1)) [] l) :
    l.Ok ∧ l.Rooted ∧ l.metadata.currentIncarnation ≤ n + 1 ∧ l.agentId = agentId := by
  have hnew := h.newer hagent hn
  have hok := hm.reopened h.1 hnew
  exact ⟨hs.ok hok, ((hm.ok h.1).reopened_rooted).steps hok hs,
    (hs.incarnation.trans (hm.reopened_incarnation h.1 hnew)).le, hs.agentId⟩

theorem Trans.ok (hagent : agentId ≠ "") {v v' : View o} {e : Event} {r : Reply}
    (ht : Trans agentId v e v' r) (hv : v.Ok agentId) : v'.Ok agentId := by
  cases ht with
  | call r hb | callFailed hb _ =>
    obtain ⟨h1, h2, h3, -⟩ := hb.ok hv.1 hv.2.1
    exact ⟨h1, h2, h3.trans hv.2.2⟩
  | callDied hd => exact hv.2.2 ▸ hd.ok hv.1 hv.2.1
  | close hs _ _ _ | closeFailed _ hs _ _ =>
    rw [← hv.2.2, ← hs.agentId, ← hs.incarnation]
    exact (hs.ok hv.1).down (.of_current (hs.ok hv.1) (hs.current hv.2.1)) (Nat.le_refl _)
  | closeDied ht _ hs _ =>
    rw [← hv.2.2, ← hs.agentId, ← hs.incarnation]
    exact (hs.ok hv.1).torn_down (.of_current (hs.ok hv.1) (hs.current hv.2.1)) (Nat.le_refl _) _ ht
  | die => exact hv.2.2 ▸ hv.1.down (.of_current hv.1 hv.2.1) (Nat.le_refl _)
  | lose keep => exact ⟨hv.1.lose keep, hv.2⟩
  | recover hm => exact ⟨hm.ok hv.1, fun m hs => hv.2 m (hm.mends.saved ▸ hs)⟩
  | recoverFailed hm _ | recoverDied _ hm => exact ⟨hm.ok hv.1, fun m hs => hv.2 m (hm.saved ▸ hs)⟩
  | reopen hn hop _ =>
    have hok := hop.mended.reopened hv.1 (hv.newer hagent hn)
    exact ⟨hop.steps.ok hok, ⟨_, hop.saved, rfl⟩, hop.steps.agentId⟩
  | reopenRejected hn hm _ | reopenDiedEarly hn _ hm =>
    exact ⟨hm.ok hv.1, fun m hs => Nat.le_succ_of_le (hv.2 m (hm.saved ▸ hs))⟩
  | reopenFailed hn hm hs _ _ =>
    obtain ⟨hok, hroot, hle, ha⟩ := hv.reopened hagent hn hm hs
    exact ha ▸ hok.down hroot hle
  | reopenDied ht hn _ hm hs _ =>
    obtain ⟨hok, hroot, hle, ha⟩ := hv.reopened hagent hn hm hs
    exact ha ▸ hok.torn_down hroot hle _ ht
  | ignored _ => exact hv

/-! ## Every step of the machine is a transition -/

abbrev View.Continues (agentId : String) (v : View o) (e : Event) : Prop :=
  ∃ v', Trans agentId v e v' (Machine.step agentId o v.machine e).2 ∧
    (Machine.step agentId o v.machine e).1 = v'.machine

section Step

variable {n : Nat}

theorem step_call (hw : Whole fs) (hl : (View.up l).Ok agentId) (c : Call) :
    (View.up l).Continues agentId (.call c fs) := by
  obtain ⟨h, hcur, -⟩ := hl
  have hspec := Call.run_spec hw h hcur c
  simp only [View.Continues, step, View.machine]
  generalize c.run ⟨l.toState, fs⟩ = out at hspec ⊢
  cases out with
  | done r w =>
    obtain ⟨⟨n, m, hb, hs⟩, -⟩ := hspec
    refine ⟨.up m, .call r hb, ?_⟩
    simp only [called, hs, (hb.ok h hcur).2.2.2]
  | fail e w =>
    obtain ⟨⟨n, m, hb, he, hs⟩, -⟩ := hspec
    refine ⟨.up m, .callFailed hb he, ?_⟩
    simp only [called, hs, (hb.ok h hcur).2.2.2]
  | crash w =>
    obtain ⟨⟨i, hd, hdisk⟩, -⟩ := hspec
    exact ⟨_, .callDied hd, by simp only [called, hdisk]⟩

theorem step_close (hl : (View.up l).Ok agentId) (fs : List Fault) :
    (View.up l).Continues agentId (.close fs) := by
  obtain ⟨h, -, -⟩ := hl
  have henv : Env (Only fs) (· = []) := ⟨.ok fs, rfl⟩
  have hspec := (Spec.and (close_spec henv h) (close_keeps (R := (· = l.receipts))
    (B := fun _ => True) _ (.ok fs))) ⟨l.toState, fs⟩ ⟨rfl, rfl, trivial⟩ (Only.allowed _ fs)
  simp only [View.Continues, step, View.machine]
  generalize Wal.close ⟨l.toState, fs⟩ = out at hspec ⊢
  cases out with
  | done u w =>
    obtain ⟨⟨⟨m, hs, hfl, hb, hd⟩, hk⟩, -⟩ := hspec
    refine ⟨_, .close hs hfl hb ?_, by simp only [closed, hd, Log.image_disk]⟩
    exact (congrArg Disk.receipts hd).symm.trans hk.receipts
  | fail e w =>
    obtain ⟨⟨⟨m, hs, hd, hwhy⟩, hk⟩, -⟩ := hspec
    refine ⟨_, .closeFailed e hs ?_ hwhy, by
      simp only [closed, hd, Log.image_disk]⟩
    exact (congrArg Disk.receipts hd).symm.trans hk.receipts
  | crash w =>
    obtain ⟨⟨hleft, hk⟩, hdeadly⟩ := hspec
    obtain ⟨new, k, tail, ht, rfl, hs, hd⟩ := hleft.torn h
    refine ⟨_, .closeDied ht hdeadly hs ?_, by
      simp only [closed, hd, Log.image_disk]⟩
    rw [hd] at hk
    exact hk

theorem step_recover (hi : i.Ok agentId) (n : Nat) (fs : List Fault) :
    (View.down n i).Continues agentId (.recover fs) := by
  have hspec := recover_spec (Only.ok fs) hi ⟨i.disk.closedState agentId o, fs⟩ rfl
    (Only.allowed _ fs)
  simp only [View.Continues, step, View.machine]
  generalize Wal.recover agentId o ⟨i.disk.closedState agentId o, fs⟩ = out at hspec ⊢
  cases out with
  | done r w =>
    obtain ⟨⟨j, hm, hr, hd, rfl⟩, -⟩ := hspec
    exact ⟨.down n j, .recover ⟨hm, hr⟩, by simp only [recovered, hd]⟩
  | fail e w =>
    obtain ⟨⟨j, hm, hd, hwhy⟩, -⟩ := hspec
    exact ⟨.down n j, .recoverFailed hm hwhy, by simp only [recovered, hd]⟩
  | crash w =>
    obtain ⟨⟨j, hm, hd⟩, hdeadly⟩ := hspec
    exact ⟨.down n j, .recoverDied hdeadly hm, by
      simp only [recovered, hd]⟩

theorem step_reopen (hagent : agentId ≠ "") (hi : (View.down n i).Ok agentId) (now : Instant)
    (fs : List Fault) : (View.down n i).Continues agentId (.reopen now fs) := by
  obtain ⟨hi, hle⟩ := hi
  unfold View.Continues
  have hstep : step agentId o (View.down n i).machine (.reopen now fs) =
      if n < maxUint64 then reopened (n + 1)
        (openWAL agentId (n + 1) o now ⟨i.disk.closedState agentId o, fs⟩)
      else ((View.down n i).machine, .ignored) := rfl
  rw [hstep]
  by_cases hn : n < maxUint64
  swap
  · rw [if_neg hn]
    exact ⟨.down n i, .ignored hn, rfl⟩
  rw [if_pos hn]
  have hnew : i.Newer agentId (n + 1) := View.Ok.newer ⟨hi, hle⟩ hagent hn
  have henv : Env (Only fs) (· = []) := ⟨.ok fs, rfl⟩
  have hspec := (Spec.and (openWAL_spec henv hi hnew now) (openWAL_keeps (R := (· = i.receipts))
    agentId (n + 1) o now _ (.ok fs))) ⟨i.disk.closedState agentId o, fs⟩ ⟨rfl, rfl, trivial⟩
    (Only.allowed _ fs)
  generalize openWAL agentId (n + 1) o now ⟨i.disk.closedState agentId o, fs⟩ = out at hspec ⊢
  cases out with
  | done u w =>
    obtain ⟨⟨⟨j, l, hop, hs⟩, hk⟩, -⟩ := hspec
    refine ⟨.up l, .reopen hn hop ?_, ?_⟩
    · exact (congrArg (·.disk.receipts) hs).symm.trans hk.receipts
    · have hcur : l.metadata.currentIncarnation = n + 1 :=
        hop.steps.incarnation.trans (hop.mended.reopened_incarnation hi hnew)
      simp only [reopened, View.machine, hs, hcur]
  | fail e w =>
    obtain ⟨⟨⟨j, hm, hd, hwhy⟩ | ⟨j, l, hm, hs, hd, hwhy⟩, hk⟩, -⟩ := hspec
    · exact ⟨.down (n + 1) j, .reopenRejected hn hm hwhy, by
        simp only [reopened, View.machine, hd]⟩
    refine ⟨.down (n + 1) l.image, .reopenFailed hn hm hs ?_ hwhy, by
      simp only [reopened, View.machine, hd, Log.image_disk]⟩
    exact (congrArg Disk.receipts hd).symm.trans hk.receipts
  | crash w =>
    obtain ⟨⟨⟨j, hm, hd⟩ | ⟨j, hm, hleft⟩, hk⟩, hdeadly⟩ := hspec
    · exact ⟨.down (n + 1) j, .reopenDiedEarly hn hdeadly hm, by
        simp only [reopened, View.machine, hd]⟩
    obtain ⟨new, l, tail, ht, rfl, hs, hd⟩ := hleft.torn (hm.reopened hi hnew)
    refine ⟨.down (n + 1) (l.torn tail ht).image, .reopenDied ht hn hdeadly hm hs ?_, by
      simp only [reopened, View.machine, hd, Log.image_disk]⟩
    rw [hd] at hk
    exact hk

theorem step_trans (hagent : agentId ≠ "") {v : View o} (hv : v.Ok agentId) {e : Event}
    (hw : Whole e.faults) : v.Continues agentId e := by
  cases v with
  | up l =>
    cases e with
    | call c fs => exact step_call hw hv c
    | close fs => exact step_close hv fs
    | die => exact ⟨_, .die, rfl⟩
    | lose | recover | reopen => exact ⟨.up l, .ignored trivial, rfl⟩
  | down n i =>
    cases e with
    | call | close | die => exact ⟨.down n i, .ignored trivial, rfl⟩
    | lose keep => exact ⟨_, .lose keep, by simp only [step, View.machine, Image.disk_lose]⟩
    | recover fs => exact step_recover hv.1 _ fs
    | reopen now fs => exact step_reopen hagent hv now fs

end Step

/-! ## Whole runs -/

def Image.empty : Image o := ⟨[], none, [], []⟩

theorem View.fresh_ok (n : Nat) : (View.down n (Image.empty (o := o))).Ok agentId :=
  ⟨⟨.nil, Nat.zero_le _, by simp [Image.empty], fun _ => rfl⟩, by simp [Image.empty]⟩

theorem View.eq_up {v : View o} {k : Nat} {s : State} (h : v.machine = ⟨k, .up s⟩) :
    ∃ l, v = .up l ∧ l.metadata.currentIncarnation = k ∧ l.toState = s := by
  cases v with
  | down n i => cases h
  | up l =>
    injection h with h1 h2
    injection h2 with h2
    exact ⟨l, rfl, h1, h2⟩

theorem run_view (hagent : agentId ≠ "") {C : Machine → Event → Prop} {I : View o → Prop}
    (hC : ∀ m e, C m e → Whole e.faults)
    (hstep : ∀ {v e v' r}, v.Ok agentId → I v → C v.machine e → Trans agentId v e v' r → I v')
    (es : List Event) : ∀ {v : View o}, v.Ok agentId → I v →
      Machine.Along agentId o C v.machine es →
      ∃ v', run agentId o v.machine es = v'.machine ∧ v'.Ok agentId ∧ I v' := by
  induction es with
  | nil => intro v hv hI _; exact ⟨v, rfl, hv, hI⟩
  | cons e es ih =>
    intro v hv hI hes
    obtain ⟨hc, hrest⟩ := hes
    obtain ⟨v', ht, hm⟩ := step_trans hagent hv (hC _ _ hc)
    rw [hm] at hrest
    obtain ⟨v'', hrun, hok, hI'⟩ := ih (ht.ok hagent hv) (hstep hv hI hc ht) hrest
    exact ⟨v'', by rw [run, hm, hrun], hok, hI'⟩

end DockLattice.Wal
