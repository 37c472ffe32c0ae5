import DockLattice.Live.Viewer

/-!
# DockLattice.Live.Stats

One relay of the `livestats` hub. The samples of its source are numbered by `version`. A viewer that
joins is given the newest sample if any was published, but a tick goes by the number that was
published last: between a sample and its tick the two are not the same.
-/

namespace DockLattice.Live

open List

variable {β ε : Type}

/-- A subscription, whose items are samples with their numbers; `member` while it is in
`relay.viewers`. -/
structure Watcher (β ε : Type) where
  member : Bool
  viewer : Viewer (Nat × β) ε

namespace Watcher

def step (w : Watcher β ε) (s : Step (Nat × β) ε) : Watcher β ε :=
  { w with viewer := (w.viewer.step .livestats s).1 }

def put (w : Watcher β ε) (version : Nat) (sample : β) : Watcher β ε :=
  w.step (.put ⟨(version, sample), 0⟩)

end Watcher

/-- A relay that is registered; once it is not, only the subscriptions' own steps go on. -/
structure Relay (β ε : Type) where
  viewers : List (Watcher β ε)
  latest : β
  version : Nat
  published : Nat

/-- `act` is a step of a subscription other than a `put`. -/
inductive Event (β ε : Type) where
  | subscribe
  | sample (x : β)
  | tick
  | act (id : Nat) (s : { s : Step (Nat × β) ε // ∀ item, s ≠ .put item })
  | unsubscribe (id : Nat)

namespace Relay

def start (zero : β) : Relay β ε := ⟨[], zero, 0, 0⟩

def step (r : Relay β ε) : Event β ε → Relay β ε
  | .subscribe =>
    let w : Watcher β ε := ⟨true, .start⟩
    { r with viewers := r.viewers ++ [if r.published ≠ 0 then w.put r.version r.latest else w] }
  | .sample x => { r with latest := x, version := r.version + 1 }
  | .tick =>
    if r.version = 0 ∨ r.version = r.published then r
    else { r with
      published := r.version
      viewers := r.viewers.map fun w => if w.member then w.put r.version r.latest else w }
  | .act id s => { r with viewers := r.viewers.modify id (·.step s.1) }
  | .unsubscribe id =>
    { r with viewers := r.viewers.modify id fun w => { w.step (.finish none) with member := false } }

def run (r : Relay β ε) (events : List (Event β ε)) : Relay β ε := events.foldl step r

def received (r : Relay β ε) (id : Nat) : List Nat :=
  (r.viewers[id]?.map fun w => w.viewer.delivered.map (·.body.1)).getD []

end Relay

/-- The samples put to the viewer are in order, and their numbers at most `n`. -/
structure Watcher.Rising (n : Nat) (w : Watcher β ε) : Prop where
  sound : w.viewer.Sound .livestats
  rising : (w.viewer.puts.map (·.body.1)).Pairwise (· < ·)
  bounded : ∀ x ∈ w.viewer.puts, x.body.1 ≤ n

namespace Watcher.Rising

variable {m n : Nat} {w : Watcher β ε}

theorem mono (h : w.Rising m) (hmn : m ≤ n) : w.Rising n :=
  ⟨h.sound, h.rising, fun x hx => (h.bounded x hx).trans hmn⟩

theorem put (h : w.Rising m) (hmn : m < n) (sample : β) : (w.put n sample).Rising n := by
  refine ⟨h.sound.step _, ?_, ?_⟩
  · simp only [Watcher.put, Watcher.step, Viewer.step, map_append, pairwise_append]
    refine ⟨h.rising, by simp, ?_⟩
    simpa using fun x hx => (h.bounded x hx).trans_lt hmn
  · refine forall_mem_append.mpr ⟨fun x hx => ?_, forall_mem_singleton.mpr (Nat.le_refl n)⟩
    exact (h.bounded x hx).trans hmn.le

theorem step (h : w.Rising n) {s : Step (Nat × β) ε} (hs : ∀ item, s ≠ .put item) :
    (w.step s).Rising n := by
  have hputs : (w.step s).viewer.puts = w.viewer.puts := by
    cases s with
    | put item => exact absurd rfl (hs item)
    | signal | finish => rfl
    | look | wake | ended | canceled =>
      simp only [Watcher.step, Viewer.step]
      split <;> rfl
  refine ⟨h.sound.step s, ?_, ?_⟩
  · rw [hputs]
    exact h.rising
  · rw [hputs]
    exact h.bounded

theorem delivered (h : w.Rising n) : (w.viewer.delivered.map (·.body.1)).Pairwise (· < ·) := by
  have hsub := (((sublist_append_left _ _).map Item.body).trans h.sound.order).map Prod.fst
  rw [map_map, map_map] at hsub
  exact h.rising.sublist hsub

end Watcher.Rising

namespace Relay

variable {r : Relay β ε}

theorem step_le (h : r.published ≤ r.version) (e : Event β ε) :
    (r.step e).published ≤ (r.step e).version := by
  cases e with
  | subscribe | act | unsubscribe => exact h
  | sample x => exact Nat.le_succ_of_le h
  | tick =>
    simp only [step]
    split
    · exact h
    · exact Nat.le_refl _

structure Follows (r : Relay β ε) (id : Nat) : Prop where
  le : r.published ≤ r.version
  joined : id < r.viewers.length
  rising : ∀ w ∈ r.viewers[id]?, w.Rising r.published

variable {id : Nat}

theorem Follows.modify (h : r.Follows id) {g : Watcher β ε → Watcher β ε} (i : Nat)
    (hg : ∀ w, w.Rising r.published → (g w).Rising r.published) :
    Follows { r with viewers := r.viewers.modify i g } id := by
  refine ⟨h.le, by simpa using h.joined, fun w hw => ?_⟩
  obtain ⟨w₀, hw₀, rfl⟩ := Option.map_eq_some_iff.mp ((getElem?_modify ..).symm.trans hw)
  split
  · exact hg w₀ (h.rising w₀ hw₀)
  · exact h.rising w₀ hw₀

theorem Follows.step (h : r.Follows id) (e : Event β ε) : (r.step e).Follows id := by
  cases e with
  | subscribe =>
    refine ⟨h.le, ?_, fun w hw => h.rising w ?_⟩
    · simp only [Relay.step, length_append]
      exact Nat.lt_add_right _ h.joined
    · exact (getElem?_append_left h.joined).symm.trans hw
  | sample x => exact ⟨Nat.le_succ_of_le h.le, h.joined, h.rising⟩
  | tick =>
    simp only [Relay.step]
    split
    · exact h
    next hnew =>
    have hlt : r.published < r.version := by
      have := h.le
      omega
    refine ⟨Nat.le_refl _, by simpa using h.joined, fun w hw => ?_⟩
    obtain ⟨w₀, hw₀, rfl⟩ := Option.map_eq_some_iff.mp (getElem?_map.symm.trans hw)
    split
    · exact (h.rising w₀ hw₀).put hlt _
    · exact (h.rising w₀ hw₀).mono hlt.le
  | act i s => exact h.modify i fun w hw => hw.step s.2
  | unsubscribe i =>
    refine h.modify i fun w hw => ?_
    have hfinish : (w.step (.finish none)).Rising r.published := hw.step nofun
    exact ⟨hfinish.sound, hfinish.rising, hfinish.bounded⟩

theorem Follows.run (h : r.Follows id) (events : List (Event β ε)) : (r.run events).Follows id :=
  foldlRecOn (motive := (Follows · id)) events _ h fun _ hr e _ => hr.step e

end Relay

/-- For every run of the relay up to a `Subscribe`: the numbers of the samples the viewer receives
are rising, whatever happens then, unless a sample was collected that is not yet published. -/
theorem samples_once_iff (zero : β) (before : List (Event β ε)) :
    let r := (Relay.start zero).run before
    (∀ after, ((r.run (.subscribe :: after)).received r.viewers.length).Pairwise (· < ·)) ↔
      r.published = 0 ∨ r.published = r.version := by
  intro r
  have hle : r.published ≤ r.version :=
    foldlRecOn (motive := fun r : Relay β ε => r.published ≤ r.version) before _ (Nat.le_refl 0)
      fun _ h e _ => Relay.step_le h e
  constructor
  · intro h
    by_contra hno
    have hversion : r.published ≠ 0 ∧ r.version ≠ 0 ∧ r.version ≠ r.published := by omega
    -- the viewer reads what it was given, and then what the tick gives it
    have htwice := h [.act r.viewers.length ⟨.look 0, by simp⟩, .tick,
      .act r.viewers.length ⟨.look 0, by simp⟩]
    simp [Relay.run, Relay.step, Relay.received, hversion, Watcher.put, Watcher.step, Viewer.step,
      Viewer.start, Viewer.wait, Subscription.put, Hub.stamp] at htwice
  intro h after
  have hstart : Watcher.Rising 0 (⟨true, .start⟩ : Watcher β ε) :=
    ⟨Viewer.start_sound, .nil, by simp [Viewer.start]⟩
  have hfollows : (r.step .subscribe).Follows r.viewers.length := by
    refine ⟨hle, by simp [Relay.step], fun w hw => ?_⟩
    obtain rfl := Option.some.inj (getElem?_concat_length.symm.trans hw)
    split
    · next hpublished =>
      have hsame : r.published = r.version := h.resolve_left hpublished
      exact (hstart.put (Nat.pos_of_ne_zero (hsame ▸ hpublished)) _).mono hsame.ge
    · exact hstart.mono (Nat.zero_le _)
  have hrun := hfollows.run after
  have hw : (r.run (.subscribe :: after)).viewers[r.viewers.length]? = some _ :=
    getElem?_eq_getElem hrun.joined
  rw [Relay.received, hw]
  exact (hrun.rising _ hw).delivered

/-- The second sample has come when the viewer joins, and the tick publishes it again. -/
theorem sample_twice :
    let look : Event Nat Nat := .act 1 ⟨.look 0, by simp⟩
    ((Relay.start 0).run [.subscribe, .sample 7, .tick, .sample 8, .subscribe, look, .tick,
      look]).received 1 = [2, 2] := by
  decide

end DockLattice.Live
