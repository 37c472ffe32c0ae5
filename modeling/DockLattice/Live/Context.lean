import DockLattice.Lib.Moments

/-!
# DockLattice.Live.Context

Which containers a relay of `servermatrix` asks discovery about. A frame with a container that is in
neither the mapping nor `unmatchedIDs` makes the next refresh due early. The answer of a refresh
counts the containers of the newest frame as asked about, whether or not they were there when its
call began.
-/

namespace DockLattice.Live

open List Moments

variable {ι κ : Type}

structure ContextConfig where
  contextRefresh : Int
  contextRetryInterval : Int

/-- What of a `hostRelay` the refreshes read and write. -/
structure HostRelay (ι κ : Type) where
  registered : Bool
  contextByID : ι → Option κ
  contextTried : Option Int
  refreshing : Bool
  lastFrameIDs : List ι
  unmatchedIDs : List ι

/-- The relay with the steps its goroutines are at: `unknown` is what `noteFrameMembership` has
answered, `call` the containers noted before the call of discovery that is running, and `asked` those
noted before the call whose answer made `unmatchedIDs`. -/
structure Refreshes (ι κ : Type) where
  relay : HostRelay ι κ
  unknown : Bool
  noted : List ι
  call : Option (List ι)
  asked : List ι

inductive Move (ι κ : Type) where
  | noteFrame (containers pending : List ι)
  | maybeRefresh (now : Int)
  | beginRefresh
  | ask
  | answer (mapping : Option (ι → Option κ)) (now : Int)
  | stopRelay

namespace Refreshes

def start : Refreshes ι κ := ⟨⟨true, fun _ => none, none, false, [], []⟩, false, [], none, []⟩

variable [DecidableEq ι]

def step (c : ContextConfig) (r : Refreshes ι κ) : Move ι κ → Refreshes ι κ
  | .noteFrame containers pending =>
    if r.relay.registered then
      { r with
        relay := { r.relay with lastFrameIDs := containers ++ pending }
        unknown := (containers ++ pending).any fun id =>
          (r.relay.contextByID id).isNone && !r.relay.unmatchedIDs.contains id
        noted := r.noted ++ (containers ++ pending) }
    else r
  | .maybeRefresh now =>
    let interval := if r.unknown then c.contextRetryInterval else c.contextRefresh
    if r.relay.registered && !r.relay.refreshing &&
        r.relay.contextTried.all fun tried => interval ≤ now - tried then
      { r with relay := { r.relay with refreshing := true } }
    else r
  | .beginRefresh =>
    if !r.relay.registered || r.relay.refreshing then r
    else { r with relay := { r.relay with refreshing := true } }
  | .ask => if r.relay.refreshing && r.call.isNone then { r with call := some r.noted } else r
  | .answer mapping now =>
    match r.call with
    | none => r
    | some asked =>
      let r := { r with relay := { r.relay with refreshing := false }, call := none }
      if !r.relay.registered then r
      else
        match mapping with
        | none => { r with relay := { r.relay with contextTried := some now } }
        | some mapping =>
          { r with
            relay := { r.relay with
              contextTried := some now
              contextByID := mapping
              unmatchedIDs := r.relay.lastFrameIDs.filter fun id => (mapping id).isNone }
            asked := asked }
  | .stopRelay => { r with relay := { r.relay with registered := false } }

def run (c : ContextConfig) (moves : List (Move ι κ)) : Refreshes ι κ := moves.foldl (step c) start

/-- Nothing counts as asked about that no frame had before the call. -/
def Sound (r : Refreshes ι κ) : Prop := ∀ id ∈ r.relay.unmatchedIDs, id ∈ r.asked

/-- The answer leaves out only containers that were noted before its call. -/
def InTime (r : Refreshes ι κ) : Move ι κ → Prop
  | .answer (some mapping) _ => r.relay.registered = true → ∀ asked ∈ r.call,
    ∀ id ∈ r.relay.lastFrameIDs, mapping id = none → id ∈ asked
  | _ => True

theorem step_sound_iff (c : ContextConfig) {r : Refreshes ι κ} (h : r.Sound) (move : Move ι κ) :
    (r.step c move).Sound ↔ r.InTime move := by
  cases move with
  | noteFrame | beginRefresh | ask =>
    simp only [step, InTime, iff_true]
    split <;> exact h
  | maybeRefresh now =>
    simp only [step, InTime, iff_true]
    split <;> split <;> exact h
  | stopRelay => exact iff_of_true h trivial
  | answer mapping now =>
    simp only [step]
    cases hcall : r.call with
    | none => cases mapping <;> simpa [InTime, hcall] using h
    | some asked =>
      cases hregistered : r.relay.registered <;> cases mapping <;>
        simp_all [InTime, Sound]

end Refreshes

/-- Over every run of frames and refreshes: what counts as asked about was in a frame before the call,
at each step, if and only if no answer leaves out a container that was first noted while its call was
running. -/
theorem suppressed_iff [DecidableEq ι] (c : ContextConfig) (moves : List (Move ι κ)) :
    AtEachStep (fun before move => ((Refreshes.run c before).step c move).Sound) moves ↔
      AtEachStep (fun before move => (Refreshes.run c before).InTime move) moves := by
  refine atEachStep_iff (I := fun before => (Refreshes.run c before).Sound) nofun
    (fun before move h => Refreshes.step_sound_iff c h move) (fun before move h hmove => ?_) moves
  have hsound := (Refreshes.step_sound_iff c h move).mpr hmove
  simpa [Refreshes.run] using hsound

/-- Container 2 is first seen while discovery is asked about container 1: the answer counts it as
asked about, and the next frame makes no early refresh due. -/
theorem late_container :
    let r := Refreshes.run (κ := Nat) ⟨60, 10⟩ [.noteFrame [1] [], .maybeRefresh 0, .ask,
      .noteFrame [1, 2] [], .answer (some fun _ => none) 1, .noteFrame [1, 2] []]
    r.relay.unmatchedIDs = [1, 2] ∧ r.asked = [1] ∧ r.unknown = false := by
  decide

end DockLattice.Live
