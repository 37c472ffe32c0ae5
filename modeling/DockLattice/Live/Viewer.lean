import Mathlib

/-!
# DockLattice.Live.Viewer

The subscription of a viewer, which `livestats`, `livematrix` and `servermatrix` each write down:
one place for the newest item, a count of the items replaced in it, a wake-up channel and the end.
A call of `Next` looks at the place and, if it is empty, waits for the first of the wake-up, the end
and its own context; between the look and the choice anything can happen.
-/

namespace DockLattice.Live

open List

inductive Hub where
  | livestats
  | livematrix
  | servermatrix
  deriving DecidableEq, Repr

/-- A sample, a frame or a view; only a view has the count. -/
structure Item (β : Type) where
  body : β
  viewerDropped : Nat
  deriving DecidableEq, Repr

variable {β ε : Type}

def Hub.stamp (dropped : Nat) (item : Item β) : Hub → Item β
  | servermatrix => { item with viewerDropped := dropped }
  | livestats | livematrix => item

/-- `latest` is empty when the source's `has` is false; `notify` is the channel's one place. -/
structure Subscription (β ε : Type) where
  latest : Option (Item β)
  notify : Bool
  done : Bool
  err : Option ε
  dropped : Nat
  deriving DecidableEq, Repr

namespace Subscription

/-- `put` up to where it gives the lock back. -/
def put (hub : Hub) (s : Subscription β ε) (item : Item β) : Subscription β ε :=
  let dropped := if s.latest.isSome then s.dropped + 1 else s.dropped
  { s with latest := some (hub.stamp dropped item), dropped := dropped }

def finish (s : Subscription β ε) (err : Option ε) : Subscription β ε :=
  if s.done then s else { s with err := err, done := true }

end Subscription

inductive Step (β ε : Type) where
  | put (item : Item β)
  | signal
  | finish (err : Option ε)
  | look (call : Nat)
  | wake (call : Nat)
  | ended (call : Nat)
  | canceled (call : Nat)

inductive Answer (β ε : Type) where
  | item (x : Item β)
  | ended (err : Option ε)
  | canceled
  deriving DecidableEq, Repr

/-- `waiting` has the calls of `Next` that found the place empty, each with the number of items put
before its look. -/
structure Viewer (β ε : Type) where
  sub : Subscription β ε
  waiting : Nat → Option Nat
  puts : List (Item β)
  delivered : List (Item β)

namespace Viewer

def start : Viewer β ε := ⟨⟨none, false, false, none, 0⟩, fun _ => none, [], []⟩

def wait (v : Viewer β ε) (call : Nat) (seen : Option Nat) : Viewer β ε :=
  { v with waiting := fun i => if i = call then seen else v.waiting i }

def step (hub : Hub) (v : Viewer β ε) : Step β ε → Viewer β ε × Option (Answer β ε)
  | .put item => ({ v with sub := v.sub.put hub item, puts := v.puts ++ [item] }, none)
  | .signal => ({ v with sub := { v.sub with notify := true } }, none)
  | .finish err => ({ v with sub := v.sub.finish err }, none)
  | .look call =>
    match v.sub.latest with
    | some x => ({ v.wait call none with
        sub := { v.sub with latest := none }
        delivered := v.delivered ++ [x] }, some (.item x))
    | none => (v.wait call (some v.puts.length), none)
  | .wake call =>
    if (v.waiting call).isSome && v.sub.notify then
      ({ v.wait call none with sub := { v.sub with notify := false } }, none)
    else (v, none)
  | .ended call =>
    if (v.waiting call).isSome && v.sub.done then (v.wait call none, some (.ended v.sub.err))
    else (v, none)
  | .canceled call =>
    if (v.waiting call).isSome then (v.wait call none, some .canceled) else (v, none)

def run (hub : Hub) (v : Viewer β ε) (steps : List (Step β ε)) : Viewer β ε :=
  steps.foldl (fun v s => (v.step hub s).1) v

structure Sound (hub : Hub) (v : Viewer β ε) : Prop where
  count : v.puts.length = v.delivered.length + v.sub.dropped + v.sub.latest.toList.length
  order : (v.delivered ++ v.sub.latest.toList).map Item.body <+ v.puts.map Item.body
  stamped : hub = .servermatrix → ∀ x ∈ v.sub.latest, x.viewerDropped = v.sub.dropped
  waits : ∀ call seen, v.waiting call = some seen →
    seen ≤ v.puts.length ∧ (seen = v.puts.length → v.sub.latest = none)

variable {hub : Hub} {v : Viewer β ε}

theorem Sound.put (h : v.Sound hub) (item : Item β) : (v.step hub (.put item)).1.Sound hub := by
  refine ⟨?_, ?_, ?_, fun call seen hw => ?_⟩
  · have hcount := h.count
    simp only [step, Subscription.put]
    cases hl : v.sub.latest <;> simp_all
    omega
  · have hbody : ∀ n, (hub.stamp n item).body = item.body := by
      cases hub <;> exact fun _ => rfl
    have horder : v.delivered.map Item.body <+ v.puts.map Item.body :=
      (Sublist.map _ (sublist_append_left _ _)).trans h.order
    simp only [step, Subscription.put, Option.toList_some, map_append, map_singleton, hbody]
    exact horder.append_right _
  · rintro rfl x hx
    cases hx
    rfl
  · have hle := (h.waits call seen hw).1
    simp only [step, length_append, length_singleton]
    omega

theorem wait_none {call i seen : Nat} (h : (v.wait call none).waiting i = some seen) :
    v.waiting i = some seen := by
  unfold wait at h
  dsimp only at h
  split at h
  · cases h
  · exact h

theorem Sound.look (h : v.Sound hub) (call : Nat) : (v.step hub (.look call)).1.Sound hub := by
  have hcount := h.count
  have horder := h.order
  cases hx : v.sub.latest with
  | some x =>
    rw [hx, Option.toList_some] at hcount horder
    simp only [step, hx]
    refine ⟨?_, ?_, fun _ => nofun, fun i seen hw => ?_⟩
    · simp [wait, hcount]
      omega
    · simpa [wait] using horder
    · exact ⟨(h.waits i seen (wait_none hw)).1, fun _ => rfl⟩
  | none =>
    simp only [step, hx]
    refine ⟨hcount, horder, h.stamped, fun i seen hw => ?_⟩
    unfold wait at hw
    dsimp only at hw
    split at hw
    · exact ⟨(Option.some.inj hw).ge, fun _ => hx⟩
    · exact h.waits i seen hw

theorem Sound.step (h : v.Sound hub) (s : Step β ε) : (v.step hub s).1.Sound hub := by
  cases s with
  | put item => exact h.put item
  | look call => exact h.look call
  | signal => exact { h with }
  | finish err =>
    simp only [Viewer.step, Subscription.finish]
    split <;> exact { h with }
  | wake call | ended call | canceled call =>
    simp only [Viewer.step]
    split
    · exact ⟨h.count, h.order, h.stamped, fun i seen hw => h.waits i seen (wait_none hw)⟩
    · exact h

theorem start_sound : (start : Viewer β ε).Sound hub := ⟨rfl, .slnil, fun _ => nofun, nofun⟩

theorem Sound.run (h : v.Sound hub) (steps : List (Step β ε)) : (v.run hub steps).Sound hub :=
  foldlRecOn (motive := Sound hub) steps _ h fun _ hv s _ => hv.step s

theorem look_latest (call : Nat) : (v.step hub (.look call)).1.sub.latest = none := by
  cases hx : v.sub.latest <;> simp [step, wait, hx]

theorem run_latest {steps : List (Step β ε)} (h : ∀ i, .look i ∉ steps) :
    (v.run hub steps).sub.latest = none ↔ v.sub.latest = none ∧ ∀ item, .put item ∉ steps := by
  induction steps generalizing v with
  | nil => simp [run]
  | cons s steps ih =>
    have hstep : (v.step hub s).1.sub.latest = none ↔
        v.sub.latest = none ∧ ∀ item, .put item ≠ s := by
      cases s with
      | look i => exact absurd mem_cons_self (h i)
      | put => simp [step, Subscription.put]
      | signal => simp [step]
      | finish | wake | ended | canceled =>
        simp only [step, Subscription.finish]
        split <;> simp [wait]
    refine (ih fun i hi => h i (mem_cons_of_mem _ hi)).trans ?_
    simp only [hstep, mem_cons, not_or, forall_and, and_assoc, ne_eq]

end Viewer

/-- For each hub and every interleaving of `put`, `finish` and any number of calls of `Next`:

1. the items put are those delivered, those dropped and the one held;
2. items are delivered in the order they were put;
3. a view says how many of those put before it were lost;
4. a call that reports the end leaves no item behind, if nothing was put since it looked;
5. it leaves none exactly if nothing was put since the last look of any call. -/
theorem latest_wins (hub : Hub) (steps : List (Step β ε)) :
    let v := Viewer.run hub .start steps
    v.puts.length = v.delivered.length + v.sub.dropped + v.sub.latest.toList.length ∧
    v.delivered.map Item.body <+ v.puts.map Item.body ∧
    (∀ call x, (v.step hub (.look call)).2 = some (.item x) → hub = .servermatrix →
      x.viewerDropped = v.puts.length - 1 - v.delivered.length) ∧
    (∀ call err, (v.step hub (.ended call)).2 = some (.ended err) →
      v.waiting call = some v.puts.length → v.sub.latest = none) ∧
    ∀ before call after, steps = before ++ .look call :: after → (∀ i, .look i ∉ after) →
      (v.sub.latest = none ↔ ∀ item, .put item ∉ after) := by
  intro v
  have h : v.Sound hub := Viewer.start_sound.run steps
  refine ⟨h.count, (Sublist.map _ (sublist_append_left _ _)).trans h.order, ?_,
    fun call err _ hw => (h.waits call _ hw).2 rfl, ?_⟩
  rotate_left
  · rintro before call after rfl hlook
    rw [show v = _ from foldl_append]
    exact (Viewer.run_latest hlook).trans (and_iff_right (Viewer.look_latest call))
  intro call x hx hub
  have hcount := h.count
  cases hl : v.sub.latest with
  | none =>
    simp only [Viewer.step, hl] at hx
    cases hx
  | some y =>
    simp only [Viewer.step, hl] at hx
    cases hx
    rw [h.stamped hub x hl, hcount, hl, Option.toList_some, length_singleton]
    omega

/-- The viewer has looked, then an item is put and the stream ends: `Next` may choose the end. -/
theorem held_behind_end :
    let v := Viewer.run .livestats (.start : Viewer Nat Nat)
      [.look 0, .put ⟨7, 0⟩, .signal, .finish (some 1)]
    (v.step .livestats (.ended 0)).2 = some (.ended (some 1)) ∧
      (v.step .livestats (.ended 0)).1.sub.latest = some ⟨7, 0⟩ := by
  decide

end DockLattice.Live
