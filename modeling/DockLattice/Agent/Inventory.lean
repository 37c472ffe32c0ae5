import DockLattice.Wal.Aside
import DockLattice.Wal.Restart

/-!
# DockLattice.Agent.Inventory

Reconciliation of the stored container inventory (`docker_snapshot.go`): if the inventory differs
from the digest that is stored, a record is appended under a key made of the new digest, the digest is
stored, and the key's receipt is removed.

The payload of the record holds the time, so a receipt left behind by an interrupted reconciliation
belongs to another payload than the next one asks for: `reconciles_iff` says that nothing else can
make a reconciliation on a working store and WAL fail.
-/

namespace DockLattice

open Bytes Effect Wal

namespace Wal

variable {o : Options} {agentId : String} {G : Fault → Prop} {W : List DecodedFrame → Prop}
  {now : Instant} {l : Log o} {e : Event}

/-! ## What idempotent calls do to the segments -/

theorem appendOnce_writes (hok : Env G W) (hG : ∀ k, G (.torn k) → k = 0) (h : l.Ok)
    (hcur : l.Current) (now : Instant) {key : String} (payload : List Byte)
    (hnew : l.disk.receipt? (onceReceiptName key) = none) (hw : W [l.frameFor now payload]) :
    Runs G W l (appendOnce false now key payload)
      (fun _ _ m => l.frameFor now payload ∈ m.frames) (fun _ _ _ => True) := by
  have hload : loadOnceReceiptLocked l.toState.disk key = .ok none := by
    unfold loadOnceReceiptLocked
    rw [show l.toState.disk = l.disk from rfl, hnew]
  unfold appendOnce
  split
  · exact Runs.throw trivial
  refine Runs.get ?_
  rw [if_neg (by simp [Log.toState, Log.wal])]
  split
  · exact Runs.throw trivial
  rw [if_neg (by simp), hload]
  dsimp only
  refine Runs.bind ((saveOnceReceiptLocked_runs hok _).failing fun _ _ _ _ _ => trivial) ?_
  rintro _ n m hsteps ⟨rfl, rs, rfl⟩
  exact (appendAndComplete_runs hok hG (hsteps.ok h) (hsteps.current hcur) false now _ payload
    hw).weaken (fun _ _ _ _ hk => hk.2) fun _ _ _ _ _ => trivial

theorem step_appendOnce_frames (hv : (View.up l).Ok agentId) {fs : List Fault}
    (hfs : Whole fs) {key : String} {payload : List Byte}
    (hnew : l.disk.receipt? (onceReceiptName key) = none) {m : Machine} {r : Option Record}
    (hstep : Machine.step agentId o (View.up l).machine
      (.call (.appendOnce false now key payload) fs) = (m, .done r)) :
    l.frameFor now payload ∈ m.node.disk.frames o.maxBytes := by
  have hspec := appendOnce_writes (W := fun _ => True) ⟨Only.ok fs, trivial⟩ hfs.only hv.1 hv.2.1
    now payload hnew trivial ⟨l.toState, fs⟩ rfl (Only.allowed _ fs)
  simp only [Machine.step, View.machine] at hstep
  have hcall : (Call.appendOnce false now key payload).run ⟨l.toState, fs⟩ =
      Prog.bind (appendOnce false now key payload) (fun r => Prog.pure (some r)) ⟨l.toState, fs⟩ :=
    rfl
  rw [hcall] at hstep
  unfold Prog.bind at hstep
  cases ho : appendOnce false now key payload ⟨l.toState, fs⟩ with
  | done r w =>
    rw [ho] at hstep hspec
    obtain ⟨⟨new, k, -, hin, hk⟩, -⟩ := hspec
    obtain ⟨rfl, -⟩ := Prod.mk.inj hstep
    change _ ∈ w.st.disk.frames o.maxBytes
    rw [hk, Log.toState, k.disk_frames]
    exact hin
  | fail | crash => rw [ho] at hstep; cases (Prod.mk.inj hstep).2

theorem forgetOnce_segments (hok : G .ok) (key : String) (x : List (Cursor × SegmentFile)) :
    Stays G (fun s => s.disk.segments = x) (fun s => s.disk.segments = x) (forgetOnce key) := by
  have hatomic : ∀ (what : String) (g : Disk → Disk), (∀ d, (g d).segments = d.segments) →
      Stays G (fun s => s.disk.segments = x) (fun s => s.disk.segments = x)
        (atomically what g) := by
    intro what g hg
    refine Spec.of_state fun s hs => ?_
    have hkeep : (g s.disk).segments = x := (hg s.disk).trans hs
    refine (atomically_spec hok rfl (fun _ _ => hs) hs hkeep).post ?_
    rintro _ _ rfl
    exact hkeep
  unfold forgetOnce
  split
  · exact Spec.throw fun _ h => h
  unfold whenOpen
  refine Spec.get fun s hs => ?_
  split
  · exact .throw_at hs
  refine Spec.bind (Q := fun _ (s : State) => s.disk.segments = x) ?_ fun _ =>
    hatomic "fsync directory" id fun _ => rfl
  unfold removeOnceReceipt
  refine Spec.pre (P := fun s => s.disk.segments = x) ?_ fun _ h => h ▸ hs
  refine Spec.get fun s hs => ?_
  unfold Prog.when
  split
  · refine Spec.attempt (E := fun _ s => s.disk.segments = x)
      ((hatomic "remove" (·.removeReceipt (onceReceiptName key)) fun _ => rfl).pre ?_)
      fun e => Spec.throw fun _ h => h
    rintro _ rfl
    exact hs
  · exact Spec.ret fun _ h => h ▸ hs

theorem step_forgetOnce_segments (m : Machine) (key : String) (fs : List Fault) :
    (m.step agentId o (.call (.forgetOnce key) fs)).1.node.disk.segments =
      m.node.disk.segments := by
  unfold Machine.step
  cases hn : m.node with
  | down d => simp [hn]
  | up s =>
    have hspec := forgetOnce_segments (Only.ok fs) key s.disk.segments ⟨s, fs⟩ rfl
      (Only.allowed s fs)
    dsimp only
    have hcall : (Call.forgetOnce key).run ⟨s, fs⟩ =
        Prog.bind (forgetOnce key) (fun _ => Prog.pure none) ⟨s, fs⟩ := rfl
    rw [hcall]
    unfold Prog.bind
    cases ho : forgetOnce key ⟨s, fs⟩ with
    | done | fail | crash => rw [ho] at hspec; exact hspec.1

end Wal

namespace Agent
variable {h : Host} {key : String} {payload : List Byte} {s : Wal.State}

namespace Inventory

/-! ## The digest of an inventory -/

structure Container where
  id : String
  image : String
  state : String
  status : String
  health : String
  exitCode : Int
  deriving DecidableEq, Repr

def writeSnapshotField (value : String) : List Byte :=
  beBytes 8 value.utf8ByteSize ++ value.toUTF8.toList

/-- The order of the digest. Containers with the same identifier and image stay as listed. -/
def Container.ordered (a b : Container) : Bool :=
  decide (a.id < b.id) || (decide (a.id = b.id) && decide (a.image ≤ b.image))

def Container.fields (c : Container) : List String :=
  [c.id, c.image, c.state, c.status, c.health, toString c.exitCode]

def dockerSnapshotDigest (containers : List Container) : String :=
  let ordered := containers.insertionSort fun a b => a.ordered b
  Sha256.encodeToString (Sha256.sum256
    ((toString ordered.length :: ordered.flatMap Container.fields).flatMap writeSnapshotField))

def dockerSnapshotOncePrefix : String := "docker-snapshot:"

def onceKey (digest : String) : String := dockerSnapshotOncePrefix ++ digest

structure Change where
  previousSnapshotSha256 : String
  currentSnapshotSha256 : String
  containerCount : Nat
  observedAt : Instant
  deriving DecidableEq, Repr

/-! ## The Agent -/

/-- The stored digest in the state file, the state store in memory, and the WAL. The process runs
as long as the WAL is open. -/
structure Host where
  file : String
  state : String
  ready : Bool
  wal : Wal.Machine
  deriving DecidableEq, Repr

inductive HostError where
  | wal (e : Wal.WalError)
  | invalidDigest
  | notReady
  | writeState
  deriving DecidableEq, Repr

inductive Reply where
  | done
  | failed (e : HostError)
  | crashed
  | ignored
  deriving DecidableEq, Repr

structure Faults where
  append : List Fault
  commit : Fault
  forget : List Fault
  deriving DecidableEq, Repr

def Faults.none : Faults := ⟨[], .ok, []⟩

section Life

variable (agentId : String) (o : Wal.Options)

def Host.dead (h : Host) : Host :=
  { h with ready := false, wal := (h.wal.step agentId o .die).1 }

def Host.commitLocked (h : Host) (digest : String) : Fault → Host × Reply
  | .ok => ({ h with file := digest, state := digest }, .done)
  | .fail | .torn _ => ({ h with ready := false }, .failed .writeState)
  | .late => ({ h with file := digest, ready := false }, .failed .writeState)
  | .crash 0 => (h.dead agentId o, .crashed)
  | .crash (_ + 1) => ({ h with file := digest }.dead agentId o, .crashed)

def Host.setDockerSnapshotSHA256 (h : Host) (digest : String) (f : Fault) : Host × Reply :=
  if Wal.validDigest digest = false then (h, .failed .invalidDigest)
  else if h.ready = false then (h, .failed .notReady)
  else if h.state = digest then (h, .done)
  else h.commitLocked agentId o digest f

def Host.called (h : Host) : Wal.Machine × Wal.Reply → Host × Reply
  | (wal, .done _) => ({ h with wal := wal }, .done)
  | (wal, .failed e) => ({ h with wal := wal }, .failed (.wal e))
  | (wal, _) => ({ h with ready := false, wal := wal }, .crashed)

def Host.appendOnce (h : Host) (now : Instant) (key : String) (payload : List Byte)
    (fs : List Fault) : Host × Reply :=
  h.called (h.wal.step agentId o (.call (.appendOnce false now key payload) fs))

def Host.forgetOnce (h : Host) (key : String) (fs : List Fault) : Host × Reply :=
  h.called (h.wal.step agentId o (.call (.forgetOnce key) fs))

variable (encode : Change → List Byte)

def Host.change (h : Host) (containers : List Container) (now : Instant) : Change :=
  ⟨h.state, dockerSnapshotDigest containers, containers.length, now⟩

/-- `containers` is the answer of the Docker daemon; a call without one touches nothing. -/
def Host.reconcileDockerSnapshot (h : Host) (containers : List Container) (now : Instant)
    (f : Faults) : Host × Reply :=
  let digest := dockerSnapshotDigest containers
  let key := onceKey digest
  if h.state = digest then h.forgetOnce agentId o key f.forget
  else if h.state = "" then h.setDockerSnapshotSHA256 agentId o digest f.commit
  else
    match h.appendOnce agentId o now key (encode (h.change containers now)) f.append with
    | (h₁, .done) =>
      match h₁.setDockerSnapshotSHA256 agentId o digest f.commit with
      | (h₂, .done) => h₂.forgetOnce agentId o key f.forget
      | failed => failed
    | failed => failed

/-- `wal` is anything else that happens to the WAL: other calls on it, its close, the death of the
process, a loss of power, recovery and the next boot. -/
inductive Event where
  | wal (e : Wal.Event)
  | reconcile (containers : List Container) (now : Instant) (f : Faults)

def Host.adopt (h : Host) (wal : Wal.Machine) : Host :=
  match h.wal.node, wal.node with
  | .down _, .up _ => ⟨h.file, h.file, true, wal⟩
  | _, _ => { h with wal := wal }

def Host.step (h : Host) : Event → Host × Reply
  | .wal e => (h.adopt (h.wal.step agentId o e).1, .ignored)
  | .reconcile containers now f =>
    match h.wal.node with
    | .up _ => h.reconcileDockerSnapshot agentId o encode containers now f
    | .down _ => (h, .ignored)

def Host.Along (C : Host → Event → Prop) : Host → List Event → Prop
  | _, [] => True
  | h, e :: es => C h e ∧ Host.Along C (h.step agentId o encode e).1 es

instance Host.decidableAlong (C : Host → Event → Prop) [∀ h e, Decidable (C h e)] :
    ∀ h es, Decidable (Host.Along agentId o encode C h es)
  | _, [] => isTrue trivial
  | h, e :: es =>
    have := decidableAlong C (h.step agentId o encode e).1 es
    inferInstanceAs (Decidable (C h e ∧ Host.Along agentId o encode C _ es))

end Life

def Host.fresh : Host := ⟨"", "", false, Wal.Machine.fresh 0⟩

/-! ## When a reconciliation succeeds -/

section Succeeds

variable {agentId : String} {o : Wal.Options} {encode : Change → List Byte}

def Host.changed (h : Host) (containers : List Container) : Bool :=
  h.state ≠ dockerSnapshotDigest containers && h.state ≠ ""

def Host.receipt? (h : Host) (containers : List Container) : Option Wal.OnceReceipt :=
  h.wal.node.disk.receipt? (Wal.onceReceiptName (onceKey (dockerSnapshotDigest containers)))

/-- No receipt is left for the inventory of this call, if a record is due. -/
def Host.unreserved (h : Host) : Event → Bool
  | .wal _ => true
  | .reconcile containers _ _ => !h.changed containers || (h.receipt? containers).isNone

/-- The clock has moved: a receipt left for this inventory is not for the payload of this call. -/
def Host.advanced (encode : Change → List Byte) (h : Host) : Event → Bool
  | .wal _ => true
  | .reconcile containers now _ => !h.changed containers || (h.receipt? containers).all fun r =>
      r.payloadSha256 ≠ Wal.payloadDigest (encode (h.change containers now))

/-- A call in which nothing goes wrong, on a state store that is ready and a WAL that takes the
record. -/
def Host.working (encode : Change → List Byte) (h : Host) : Event → Bool
  | .wal _ => false
  | .reconcile containers now f => f = Faults.none && h.ready &&
      h.wal.node.state?.any (·.takes now (encode (h.change containers now)))

theorem validDigest_dockerSnapshotDigest (containers : List Container) :
    validDigest (dockerSnapshotDigest containers) = true :=
  validDigest_sum256 _

theorem validOnceKey_onceKey (containers : List Container) :
    validOnceKey (onceKey (dockerSnapshotDigest containers)) = true := by
  refine validOnceKey_append (by decide) (by decide) ?_
    (validDigest_dockerSnapshotDigest containers)
  simp [dockerSnapshotOncePrefix, Char.utf8Size]

variable (agentId o) in
theorem Host.appendOnce_new (hs : h.wal.node = .up s)
    (hkey : Wal.validOnceKey key = true) (hnew : s.disk.receipt? (Wal.onceReceiptName key) = none)
    (ht : s.takes now payload = true) :
    ∃ t, t.wal.closed = false ∧ h.appendOnce agentId o now key payload [] =
      ({ h with wal := ⟨h.wal.incarnation, .up t⟩ }, .done) := by
  obtain ⟨r, t, hrun, hopen⟩ := Wal.appendOnce_new hkey hnew ht
  refine ⟨t, hopen, ?_⟩
  unfold Host.appendOnce Wal.Machine.step
  rw [hs]
  have hcall : (Wal.Call.appendOnce false now key payload).run ⟨s, []⟩ = .done (some r) ⟨t, []⟩ :=
    Wal.bind_of_done hrun
  simp only [hcall, Wal.Machine.called, Host.called]

variable (agentId o) in
theorem Host.appendOnce_reserved (now : Instant) {r : Wal.OnceReceipt} (hs : h.wal.node = .up s)
    (hr : s.disk.receipt? (Wal.onceReceiptName key) = some r)
    (hne : r.payloadSha256 ≠ Wal.payloadDigest payload) (fs : List Fault) :
    ∃ e, h.appendOnce agentId o now key payload fs = (h, .failed e) := by
  obtain ⟨e, hrun⟩ := Wal.appendOnce_reserved now hr hne fs
  refine ⟨.wal e, ?_⟩
  unfold Host.appendOnce Wal.Machine.step
  rw [hs]
  have hcall : (Wal.Call.appendOnce false now key payload).run ⟨s, fs⟩ = .fail e ⟨s, fs⟩ := by
    change Prog.bind _ _ _ = _
    unfold Prog.bind
    rw [hrun]
  simp only [hcall, Wal.Machine.called, Host.called, ← hs]

theorem Host.forgetOnce_done (hs : h.wal.node = .up s) (hkey : Wal.validOnceKey key = true)
    (hopen : s.wal.closed = false) : (h.forgetOnce agentId o key []).2 = .done := by
  unfold Host.forgetOnce Wal.Machine.step
  rw [hs]
  have hcall : (Wal.Call.forgetOnce key).run ⟨s, []⟩ =
      .done none ⟨s.onDisk (·.removeReceipt (Wal.onceReceiptName key)), []⟩ :=
    Wal.bind_of_done (Wal.forgetOnce_done hkey hopen)
  simp only [hcall, Wal.Machine.called, Host.called]

theorem Host.setDockerSnapshotSHA256_done {digest : String} (hd : validDigest digest = true)
    (hready : h.ready = true) :
    h.setDockerSnapshotSHA256 agentId o digest .ok =
      ({ h with file := if h.state = digest then h.file else digest, state := digest }, .done) := by
  unfold Host.setDockerSnapshotSHA256
  rw [if_neg (by simp [hd]), if_neg (by simp [hready])]
  by_cases he : h.state = digest
  · rw [if_pos he, if_pos he, ← he]
  · rw [if_neg he, if_neg he]
    rfl

theorem Host.reconcile_done_iff (hadv : h.advanced encode e = true)
    (hw : h.working encode e = true) :
    (h.step agentId o encode e).2 = .done ↔ h.unreserved e = true := by
  cases e with
  | wal e => cases hw
  | reconcile containers now f =>
    simp only [Host.working, Bool.and_eq_true, decide_eq_true_eq] at hw
    obtain ⟨⟨rfl, hready⟩, hwal⟩ := hw
    cases hs : h.wal.node with
    | down d => rw [hs] at hwal; cases hwal
    | up s =>
    rw [hs] at hwal
    have htakes : s.takes now (encode (h.change containers now)) = true := hwal
    have hkey := validOnceKey_onceKey containers
    have hvalid := validDigest_dockerSnapshotDigest containers
    have hopen := Wal.State.takes_open htakes
    have hstep : h.step agentId o encode (.reconcile containers now .none) =
        h.reconcileDockerSnapshot agentId o encode containers now .none := by
      simp only [Host.step, hs]
    rw [hstep]
    unfold Host.reconcileDockerSnapshot
    simp only [Faults.none]
    by_cases hsame : h.state = dockerSnapshotDigest containers
    · rw [if_pos hsame, Host.forgetOnce_done hs hkey hopen]
      simp [Host.unreserved, Host.changed, hsame]
    rw [if_neg hsame]
    by_cases hempty : h.state = ""
    · rw [if_pos hempty, Host.setDockerSnapshotSHA256_done hvalid hready]
      simp [Host.unreserved, Host.changed, hempty]
    rw [if_neg hempty]
    have hchanged : h.changed containers = true := by simp [Host.changed, hsame, hempty]
    have hreceipt : h.receipt? containers =
        s.disk.receipt? (onceReceiptName (onceKey (dockerSnapshotDigest containers))) := by
      simp only [Host.receipt?, hs, Wal.Node.disk]
    cases hr : h.receipt? containers with
    | none =>
      obtain ⟨t, hopen', happ⟩ := Host.appendOnce_new agentId o hs hkey
        (hreceipt ▸ hr) htakes
      rw [happ]
      dsimp only
      rw [Host.setDockerSnapshotSHA256_done (h := { h with wal := ⟨h.wal.incarnation, .up t⟩ })
        hvalid hready]
      dsimp only
      rw [Host.forgetOnce_done rfl hkey hopen']
      simp [Host.unreserved, hr]
    | some r =>
      simp only [Host.advanced, hchanged, hr, Bool.not_true, Bool.false_or, Option.all_some,
        decide_eq_true_eq] at hadv
      obtain ⟨e, happ⟩ := Host.appendOnce_reserved agentId o now hs
        (hreceipt ▸ hr) hadv []
      rw [happ]
      simp [Host.unreserved, hchanged, hr]

end Succeeds

/-! ## What a new stored digest leaves behind -/

section Backed

variable {agentId : String} {o : Wal.Options} {encode : Change → List Byte}

def Event.Whole : Event → Prop
  | .wal e => Wal.Whole e.faults
  | .reconcile _ _ f => Wal.Whole f.append ∧ Wal.Whole f.forget

/-- If one inventory's digest took the place of another's, the WAL holds a record with both. -/
def Host.Backed (o : Wal.Options) (encode : Change → List Byte) (h h' : Host) : Prop :=
  h.file ≠ "" → h'.file ≠ "" → h.file ≠ h'.file →
    ∃ count now, ∃ f ∈ h'.wal.node.disk.frames o.maxBytes,
      f.payload = encode ⟨h.file, h'.file, count, now⟩

/-- The WAL is well formed, and the state store in memory is the file unless a commit failed. -/
structure Host.Sound (agentId : String) (o : Wal.Options) (h : Host) : Prop where
  wal : ∃ v : Wal.View o, v.Ok agentId ∧ h.wal = v.machine
  store : h.ready = true → h.state = h.file

theorem Host.Sound.fresh : Host.fresh.Sound agentId o :=
  ⟨⟨.down 0 Wal.Image.empty, Wal.View.fresh_ok 0, rfl⟩, fun h => by cases h⟩

section

variable (hagent : agentId ≠ "")

include hagent

theorem Host.Sound.stepped (hs : h.Sound agentId o) {e : Wal.Event} (hw : Wal.Whole e.faults) :
    ∃ v : Wal.View o, v.Ok agentId ∧ (h.wal.step agentId o e).1 = v.machine := by
  obtain ⟨v, hv, hm⟩ := hs.wal
  obtain ⟨v', ht, hm'⟩ := step_trans hagent hv hw
  exact ⟨v', ht.ok hagent hv, hm ▸ hm'⟩

theorem Host.Sound.called (hs : h.Sound agentId o) {e : Wal.Event} (hw : Wal.Whole e.faults) :
    (h.called (h.wal.step agentId o e)).1.Sound agentId o := by
  have hv := hs.stepped hagent hw
  generalize h.wal.step agentId o e = p at hv
  obtain ⟨wal, r⟩ := p
  cases r with
  | done | failed => exact ⟨hv, hs.store⟩
  | recovered | crashed | ignored => exact ⟨hv, fun h => by cases h⟩

theorem Host.Sound.dead (hs : ∃ v : Wal.View o, v.Ok agentId ∧ h.wal = v.machine) :
    (h.dead agentId o).Sound agentId o := by
  obtain ⟨v, hv, hm⟩ := hs
  obtain ⟨v', ht, hm'⟩ := step_trans hagent hv (e := .die) (fun k hk => by cases hk)
  exact ⟨⟨v', ht.ok hagent hv, by rw [Host.dead, hm]; exact hm'⟩, fun h => by cases h⟩

theorem Host.Sound.set (hs : h.Sound agentId o) (digest : String) (f : Fault) :
    (h.setDockerSnapshotSHA256 agentId o digest f).1.Sound agentId o := by
  unfold Host.setDockerSnapshotSHA256
  split
  · exact hs
  split
  · exact hs
  split
  · exact hs
  cases f with
  | ok => exact ⟨hs.wal, fun _ => rfl⟩
  | fail | late | torn => exact ⟨hs.wal, fun h => by cases h⟩
  | crash k =>
    cases k with
    | zero => exact .dead hagent hs.wal
    | succ k => exact .dead (h := { h with file := digest }) hagent hs.wal

theorem Host.Sound.step (hs : h.Sound agentId o) (hw : e.Whole) :
    (h.step agentId o encode e).1.Sound agentId o := by
  cases e with
  | wal e =>
    have hv := hs.stepped hagent hw
    unfold Host.step Host.adopt
    dsimp only
    split
    · exact ⟨hv, fun _ => rfl⟩
    · exact ⟨hv, hs.store⟩
  | reconcile containers now f =>
    unfold Host.step
    dsimp only
    split
    · unfold Host.reconcileDockerSnapshot
      dsimp only
      split
      · exact hs.called hagent hw.2
      split
      · exact hs.set hagent _ _
      have happ : (h.appendOnce agentId o now (onceKey (dockerSnapshotDigest containers))
        (encode (h.change containers now)) f.append).1.Sound agentId o := hs.called hagent hw.1
      split
      next h₁ heq =>
        rw [heq] at happ
        have hset := Host.Sound.set hagent happ (dockerSnapshotDigest containers) f.commit
        split
        next h₂ heq' =>
          rw [heq'] at hset
          exact hset.called hagent hw.2
        next => exact hset
      next => exact happ
    · exact hs

end

theorem Host.called_file (h : Host) (p : Wal.Machine × Wal.Reply) : (h.called p).1.file = h.file := by
  obtain ⟨wal, r⟩ := p
  cases r <;> rfl

theorem Host.called_wal (h : Host) (p : Wal.Machine × Wal.Reply) : (h.called p).1.wal = p.1 := by
  obtain ⟨wal, r⟩ := p
  cases r <;> rfl

theorem Host.called_done {h' : Host} {p : Wal.Machine × Wal.Reply} (hp : h.called p = (h', .done)) :
    h' = { h with wal := p.1 } := by
  obtain ⟨wal, r⟩ := p
  cases r with
  | done r => exact (Prod.mk.inj hp).1.symm
  | _ => cases (Prod.mk.inj hp).2

theorem Host.dead_disk (h : Host) : (h.dead agentId o).wal.node.disk = h.wal.node.disk := by
  unfold Host.dead Wal.Machine.step
  cases hn : h.wal.node with
  | up s => simp [Wal.Node.disk]
  | down d => simp [hn]

variable (agentId o) in
theorem Host.set_file (h : Host) (digest : String) (f : Fault) :
    let h' := (h.setDockerSnapshotSHA256 agentId o digest f).1
    h'.wal.node.disk = h.wal.node.disk ∧
      (h'.file = h.file ∨ (h.ready = true ∧ h'.file = digest)) := by
  unfold Host.setDockerSnapshotSHA256
  dsimp only
  split
  · exact ⟨rfl, .inl rfl⟩
  split
  · exact ⟨rfl, .inl rfl⟩
  split
  · exact ⟨rfl, .inl rfl⟩
  next hready _ =>
  have hr : h.ready = true := by simpa using hready
  cases f with
  | ok | late => exact ⟨rfl, .inr ⟨hr, rfl⟩⟩
  | fail | torn => exact ⟨rfl, .inl rfl⟩
  | crash k =>
    cases k with
    | zero => exact ⟨h.dead_disk, .inl rfl⟩
    | succ k => exact ⟨Host.dead_disk { h with file := digest }, .inr ⟨hr, rfl⟩⟩

theorem Host.appendOnce_frames (hs : h.Sound agentId o) {fs : List Fault} (hw : Wal.Whole fs)
    (hup : h.wal.node = .up s)
    (hadv : ∀ r, h.wal.node.disk.receipt? (onceReceiptName key) = some r → r.payloadSha256 ≠ payloadDigest payload)
    {h₁ : Host} (hdone : h.appendOnce agentId o now key payload fs = (h₁, .done)) :
    ∃ f ∈ h₁.wal.node.disk.frames o.maxBytes, f.payload = payload := by
  obtain ⟨v, hv, hm⟩ := hs.wal
  cases v with
  | down n i => rw [hm] at hup; cases hup
  | up l =>
    have hnew : l.disk.receipt? (onceReceiptName key) = none := by
      cases hr : l.disk.receipt? (onceReceiptName key) with
      | none => rfl
      | some r =>
        have hr' : h.wal.node.disk.receipt? (onceReceiptName key) = some r := by rw [hm]; exact hr
        obtain ⟨e, he⟩ := Host.appendOnce_reserved agentId o now hup
          (by rwa [hup] at hr') (hadv r hr') fs
        rw [he] at hdone
        cases (Prod.mk.inj hdone).2
    have hw₁ := h.called_wal (h.wal.step agentId o (.call (.appendOnce false now key payload) fs))
    change (h.appendOnce agentId o now key payload fs).1.wal = _ at hw₁
    rw [hdone, hm] at hw₁
    cases hstep : Wal.Machine.step agentId o (Wal.View.up l).machine
        (.call (.appendOnce false now key payload) fs) with
    | mk m r =>
      rw [hstep] at hw₁
      unfold Host.appendOnce at hdone
      rw [hm, hstep] at hdone
      cases r with
      | done r =>
        refine ⟨l.frameFor now payload, ?_, rfl⟩
        rw [hw₁]
        exact step_appendOnce_frames hv hw hnew hstep
      | failed | recovered | crashed | ignored => cases (Prod.mk.inj hdone).2

theorem Host.Backed.of_file {h' : Host} (hf : h'.file = h.file) : h.Backed o encode h' :=
  fun _ _ hne => absurd hf.symm hne

theorem Host.Sound.backed (hs : h.Sound agentId o) (hw : e.Whole)
    (hadv : h.advanced encode e = true) : h.Backed o encode (h.step agentId o encode e).1 := by
  cases e with
  | wal e =>
    refine .of_file ?_
    unfold Host.step Host.adopt
    dsimp only
    split <;> rfl
  | reconcile containers now f =>
    unfold Host.step
    dsimp only
    split
    next s hup =>
      unfold Host.reconcileDockerSnapshot
      dsimp only
      split
      · exact .of_file (h.called_file _)
      next hsame =>
      split
      next hempty =>
        rcases (h.set_file agentId o (dockerSnapshotDigest containers)
          f.commit).2 with hf | ⟨hr, -⟩
        · exact .of_file hf
        · exact fun hne _ _ => absurd ((hs.store hr).symm.trans hempty) hne
      next hempty =>
      split
      next h₁ happ =>
        have hadv' : ∀ r, h.wal.node.disk.receipt? (onceReceiptName
            (onceKey (dockerSnapshotDigest containers))) = some r →
            r.payloadSha256 ≠ payloadDigest (encode (h.change containers now)) := by
          intro r hr
          have hchanged : h.changed containers = true := by simp [Host.changed, hsame, hempty]
          have hr' : h.receipt? containers = some r := hr
          simpa [Host.advanced, hchanged, hr'] using hadv
        obtain ⟨g, hg, hpay⟩ := Host.appendOnce_frames hs hw.1 hup hadv' happ
        have hh₁ := Host.called_done happ
        have hset := h₁.set_file agentId o (dockerSnapshotDigest containers)
          f.commit
        -- whatever happens after the append, its frame stays
        have hback : ∀ h' : Host, h'.wal.node.disk.segments = h₁.wal.node.disk.segments →
            (h'.file = h₁.file ∨ (h₁.ready = true ∧ h'.file = dockerSnapshotDigest containers)) →
            h.Backed o encode h' := by
          intro h' hseg hfile hne _ hdiff
          rcases hfile with hf | ⟨hr, hf⟩
          · rw [hh₁] at hf
            exact absurd hf.symm hdiff
          rw [hh₁] at hr
          refine ⟨containers.length, now, g, ?_, ?_⟩
          · rw [Wal.Disk.frames, hseg]
            exact hg
          · rw [hpay, Host.change, hs.store hr, hf]
        split
        next h₂ heq =>
          rw [heq] at hset
          refine hback _ ?_ ?_
          · rw [Host.forgetOnce, h₂.called_wal, step_forgetOnce_segments, hset.1]
          · rw [Host.forgetOnce, h₂.called_file]
            exact hset.2
        next => exact hback _ (congrArg _ hset.1) hset.2
      next => exact .of_file (h.called_file _)
    next => exact .of_file rfl

end Backed

/-! ## Whole runs -/

section Runs

variable {agentId : String} {o : Wal.Options} {encode : Change → List Byte}

theorem Host.Along.congr {A C D : Host → Event → Prop} (hcd : ∀ h e, A h e → (C h e ↔ D h e)) :
    ∀ {h : Host} {es : List Event}, Host.Along agentId o encode A h es →
      (Host.Along agentId o encode C h es ↔ Host.Along agentId o encode D h es)
  | _, [], _ => Iff.rfl
  | _, _ :: _, hA => and_congr (hcd _ _ hA.1) (congr hcd hA.2)

theorem Host.Along.backed (hagent : agentId ≠ "") :
    ∀ {h : Host} {es : List Event}, h.Sound agentId o → (∀ e ∈ es, e.Whole) →
      Host.Along agentId o encode (fun h e => h.advanced encode e = true) h es →
      Host.Along agentId o encode (fun h e => h.Backed o encode (h.step agentId o encode e).1) h es
  | _, [], _, _, _ => trivial
  | _, _ :: _, hs, hw, hA => ⟨hs.backed (hw _ List.mem_cons_self) hA.1,
      backed hagent (hs.step hagent (hw _ List.mem_cons_self))
        (fun _ he => hw _ (List.mem_cons_of_mem _ he)) hA.2⟩

/-- In every run of an Agent, with reconciliations that fail or die anywhere, anything else
happening to the WAL, and a clock that moves: every reconciliation on a working store and WAL
succeeds if and only if none of them finds a receipt that an earlier one left for its inventory.
If no segment write is torn, each replacement of one stored digest by another has its record in the
WAL. -/
theorem reconciles_iff (hagent : agentId ≠ "") (events : List Event)
    (hclock : Host.Along agentId o encode (fun h e => h.advanced encode e = true) .fresh events) :
    (Host.Along agentId o encode (fun h e => h.working encode e = true →
        (h.step agentId o encode e).2 = .done) .fresh events ↔
      Host.Along agentId o encode (fun h e => h.working encode e = true →
        h.unreserved e = true) .fresh events) ∧
    ((∀ e ∈ events, e.Whole) →
      Host.Along agentId o encode (fun h e => h.Backed o encode (h.step agentId o encode e).1)
        .fresh events) := by
  refine ⟨Host.Along.congr (fun h e hadv => ?_) hclock, fun hw => ?_⟩
  · exact imp_congr_right fun hwork => Host.reconcile_done_iff hadv hwork
  · exact Host.Along.backed hagent .fresh hw hclock

end Runs

/-! ## An interrupted reconciliation -/

def firstInventory : List Container := []

def secondInventory : List Container := [⟨"c", "nginx", "up", "", "", 0⟩]

def sampleEncode (c : Change) : List Byte :=
  (c.previousSnapshotSha256 ++ c.currentSnapshotSha256).toUTF8.toList ++
    beBytes 4 c.containerCount ++ beBytes 8 c.observedAt.nanos.toNat

def steadyRun : List Event :=
  [.wal (.reopen (Wal.unixTime 1) []), .reconcile firstInventory (Wal.unixTime 2) .none, .wal .die,
    .wal (.recover []), .wal (.reopen (Wal.unixTime 3) []),
    .reconcile firstInventory (Wal.unixTime 4) .none]

theorem steadyRun_reconciles :
    Host.Along "agent" (Wal.normalizeOptions ⟨0, 0, 0⟩) sampleEncode
      (fun h e => h.working sampleEncode e = true →
        (h.step "agent" (Wal.normalizeOptions ⟨0, 0, 0⟩) sampleEncode e).2 = .done)
      .fresh steadyRun :=
  (reconciles_iff (by decide) steadyRun (by decide +kernel)).1.mpr (by decide +kernel)

/-- The process dies after the record of the second inventory and before its digest is stored. -/
def blockedRun : List Event :=
  [.wal (.reopen (Wal.unixTime 1) []), .reconcile firstInventory (Wal.unixTime 2) .none,
    .reconcile secondInventory (Wal.unixTime 3) ⟨[], .crash 0, []⟩,
    .wal (.recover []), .wal (.reopen (Wal.unixTime 4) [])]

def Host.run (agentId : String) (o : Wal.Options) (encode : Change → List Byte) (h : Host)
    (events : List Event) : Host :=
  events.foldl (fun h e => (h.step agentId o encode e).1) h

/-- The next boot meets the receipt of the interrupted call and fails. -/
theorem interrupted_blocks_boot :
    let o := Wal.normalizeOptions ⟨0, 0, 0⟩
    let h := Host.run "agent" o sampleEncode .fresh blockedRun
    let next := Event.reconcile secondInventory (Wal.unixTime 5) .none
    h.advanced sampleEncode next = true ∧ h.working sampleEncode next = true ∧
      (h.step "agent" o sampleEncode next).2 =
        .failed (.wal (.invariant "idempotency key reused with different payload")) := by
  decide +kernel

end Inventory
end Agent
end DockLattice
