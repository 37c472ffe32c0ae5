import Mathlib

/-!
# DockLattice.Lib.Assoc

Association lists as maps: what `List.lookup` finds after filtering by key, mapping the values and
replacing one of them.
-/

namespace DockLattice.Assoc

open List

variable {α β : Type} [BEq α] [LawfulBEq α]

theorem lookup_eq_some_iff {l : List (α × β)} (hnodup : (l.map Prod.fst).Nodup) {a : α} {b : β} :
    l.lookup a = some b ↔ (a, b) ∈ l := by
  induction l with
  | nil => simp
  | cons p l ih =>
    obtain ⟨k, v⟩ := p
    rw [map_cons, nodup_cons] at hnodup
    rw [lookup_cons]
    by_cases h : a = k
    · subst h
      have hnot : (a, b) ∉ l := fun hm => hnodup.1 (mem_map.mpr ⟨_, hm, rfl⟩)
      simp [hnot, eq_comm]
    · have hbeq : (a == k) = false := by simpa using h
      simp [hbeq, h, ih hnodup.2]

theorem lookup_filter_map (l : List (α × β)) (keep : α → Bool) (f : β → β) {a : α}
    (ha : keep a = true) :
    ((l.filter fun p => keep p.1).map fun p => (p.1, f p.2)).lookup a =
      (l.lookup a).map f := by
  induction l with
  | nil => rfl
  | cons p l ih =>
    obtain ⟨k, v⟩ := p
    rw [lookup_cons]
    by_cases hk : a = k
    · subst hk
      simp [ha]
    have hbeq : (a == k) = false := by simpa using hk
    by_cases hkeep : keep k = true
    · simp [hkeep, lookup_cons, hbeq, ih]
    · simp [hkeep, hbeq, ih]

theorem lookup_map (l : List (α × β)) (f : α → β → β) (a : α) :
    (l.map fun p => (p.1, f p.1 p.2)).lookup a = (l.lookup a).map (f a) := by
  induction l with
  | nil => rfl
  | cons p l ih =>
    obtain ⟨k, v⟩ := p
    rw [map_cons, lookup_cons, lookup_cons]
    by_cases hk : a = k
    · subst hk
      simp
    · have hbeq : (a == k) = false := by simpa using hk
      simp only [hbeq, ih]

theorem lookup_replace [DecidableEq α] {l : List (α × β)} {k : α} {w : β}
    (h : l.lookup k = some w) (v : β) (a : α) :
    (l.map fun p => if p.1 = k then (k, v) else p).lookup a =
      if a = k then some v else l.lookup a := by
  have hmap : (fun p : α × β => if p.1 = k then (k, v) else p) =
      fun p => (p.1, if p.1 = k then v else p.2) := by
    funext p
    split <;> simp [*]
  rw [hmap, lookup_map l fun a b => if a = k then v else b]
  split
  · simp [*]
  · simp

end DockLattice.Assoc
