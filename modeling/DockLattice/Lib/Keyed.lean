import Mathlib

/-!
# DockLattice.Lib.Keyed

Records kept by key: a map that is built by inserting a list of records, where a later record
replaces an earlier one of the same key, and that is then listed in the order of its keys.

`latest l k` is what the map holds at `k`. A strictly ordered list is determined by it
(`Strict.eq_of_latest`), and is its own `canonical` list (`canonical_of_strict`).
-/

namespace DockLattice.Keyed

open List

/-! ## The map -/

section Map

variable {α κ : Type} [DecidableEq κ] (key : α → κ)

def upsert (records : List α) (a : α) : List α :=
  records.filter (fun b => key b ≠ key a) ++ [a]

def collect (l : List α) : List α := l.foldl (upsert key) []

def latest (l : List α) (k : κ) : Option α := l.reverse.find? fun a => key a = k

variable {key} {l : List α} {a : α} {k : κ}

@[simp] theorem collect_nil : collect key [] = [] := rfl

theorem collect_concat (l : List α) (a : α) :
    collect key (l ++ [a]) = upsert key (collect key l) a := by
  simp [collect]

@[simp] theorem latest_nil : latest key [] k = none := rfl

theorem latest_append (l r : List α) (k : κ) :
    latest key (l ++ r) k = (latest key r k).or (latest key l k) := by
  simp [latest, find?_append]

theorem latest_concat (l : List α) (a : α) (k : κ) :
    latest key (l ++ [a]) k = if key a = k then some a else latest key l k := by
  rw [latest_append]
  by_cases h : key a = k
  · simp [latest, h]
  · simp [latest, h]

theorem mem_of_latest (h : latest key l k = some a) : a ∈ l ∧ key a = k := by
  have hmem := mem_of_find?_eq_some h
  have hkey := find?_some h
  exact ⟨mem_reverse.mp hmem, by simpa using hkey⟩

theorem latest_isSome (h : a ∈ l) : ∃ b, latest key l (key a) = some b := by
  have hsome : (latest key l (key a)).isSome = true := by
    rw [latest, find?_isSome]
    exact ⟨a, mem_reverse.mpr h, by simp⟩
  exact Option.isSome_iff_exists.mp hsome

theorem latest_of_nodup (h : (l.map key).Nodup) (ha : a ∈ l) :
    latest key l (key a) = some a := by
  obtain ⟨b, hb⟩ : ∃ b, latest key l (key a) = some b := latest_isSome ha
  obtain ⟨hmem, hkey⟩ := mem_of_latest hb
  rw [hb, inj_on_of_nodup_map h hmem ha hkey]

theorem mem_collect : a ∈ collect key l ↔ latest key l (key a) = some a := by
  induction l using List.reverseRecOn with
  | nil => simp
  | append_singleton l x ih =>
    rw [collect_concat, upsert, latest_concat]
    by_cases h : key x = key a
    · simp [h, eq_comm]
    · have hne : a ≠ x := fun he => h (he ▸ rfl)
      simp [h, hne, Ne.symm h, ih]

theorem collect_keys (l : List α) : (collect key l).Pairwise fun a b => key a ≠ key b := by
  induction l using List.reverseRecOn with
  | nil => simp
  | append_singleton l x ih =>
    rw [collect_concat, upsert, pairwise_append]
    refine ⟨ih.filter _, by simp, ?_⟩
    intro a ha b hb
    rw [mem_singleton] at hb
    rw [mem_filter] at ha
    simpa [hb] using ha.2

end Map

/-! ## Its listing -/

section Listing

variable {α κ : Type} [LE κ] (key : α → κ)

def Strict (l : List α) : Prop := l.Pairwise fun a b => key a ≤ key b ∧ key a ≠ key b

theorem Strict.nodup {key : α → κ} {l : List α} (h : Strict key l) : (l.map key).Nodup :=
  pairwise_map.mpr (h.imp fun hlt => hlt.2)

variable [DecidableEq κ]

theorem Strict.mem_iff {key : α → κ} {l : List α} {a : α} (h : Strict key l) :
    a ∈ l ↔ latest key l (key a) = some a :=
  ⟨latest_of_nodup h.nodup, fun ha => (mem_of_latest ha).1⟩

variable [DecidableLE κ]

def canonical (l : List α) : List α :=
  (collect key l).insertionSort fun a b => key a ≤ key b

variable {key} {l r : List α} {a : α}

theorem mem_canonical : a ∈ canonical key l ↔ latest key l (key a) = some a := by
  rw [canonical, mem_insertionSort, mem_collect]

variable [Std.IsLinearOrder κ]

omit [DecidableEq κ] in
theorem strict_sort (h : l.Pairwise fun a b => key a ≠ key b) :
    Strict key (l.insertionSort fun a b => key a ≤ key b) := by
  have htotal : Std.Total fun a b : α => key a ≤ key b := ⟨fun a b => Std.le_total⟩
  have htrans : IsTrans α fun a b => key a ≤ key b := ⟨fun a b c => Std.le_trans⟩
  have hperm := perm_insertionSort (fun a b : α => key a ≤ key b) l
  exact (pairwise_insertionSort _ _).and ((hperm.pairwise_iff fun h => Ne.symm h).mpr h)

theorem strict_canonical (l : List α) : Strict key (canonical key l) :=
  strict_sort (collect_keys l)

omit [DecidableEq κ] [DecidableLE κ] in
theorem Strict.eq_of_mem (hl : Strict key l) (hr : Strict key r) (h : ∀ a, a ∈ l ↔ a ∈ r) :
    l = r := by
  have hperm : l.Perm r :=
    (perm_ext_iff_of_nodup hl.nodup.of_map hr.nodup.of_map).mpr h
  refine hperm.eq_of_pairwise ?_ hl hr
  intro a b _ _ hab hba
  exact absurd (Std.le_antisymm hab.1 hba.1) hab.2

omit [DecidableLE κ] in
theorem Strict.eq_of_latest (hl : Strict key l) (hr : Strict key r)
    (h : ∀ k, latest key l k = latest key r k) : l = r := by
  refine hl.eq_of_mem hr fun a => ?_
  rw [hl.mem_iff, hr.mem_iff, h]

@[simp] theorem latest_canonical (l : List α) (k : κ) :
    latest key (canonical key l) k = latest key l k := by
  cases h : latest key l k with
  | some a =>
    have hkey := (mem_of_latest h).2
    have hmem : a ∈ canonical key l := mem_canonical.mpr (by rw [hkey, h])
    rw [← hkey]
    exact (strict_canonical l).mem_iff.mp hmem
  | none =>
    cases h' : latest key (canonical key l) k with
    | none => rfl
    | some a =>
      obtain ⟨hmem, hkey⟩ := mem_of_latest h'
      rw [mem_canonical, hkey, h] at hmem
      cases hmem

theorem canonical_of_strict (h : Strict key l) : canonical key l = l :=
  (strict_canonical l).eq_of_latest h (latest_canonical l)

end Listing

end DockLattice.Keyed
