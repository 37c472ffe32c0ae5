import DockLattice.Lib.Assoc

/-!
# DockLattice.Lib.Table

A table with a primary key: rows in some order, no key twice. `set` is `INSERT … ON CONFLICT DO
UPDATE`, `map` an `UPDATE` of every row and `erase` a `DELETE`; what they do is said by what `get`
finds afterwards.
-/

namespace DockLattice

open List

structure Table (κ α : Type) where
  rows : List (κ × α)
  nodup : (rows.map Prod.fst).Nodup

namespace Table

variable {κ α : Type} {t : Table κ α} {k : κ}

def empty : Table κ α := ⟨[], nodup_nil⟩

def keys (t : Table κ α) : List κ := t.rows.map Prod.fst

def map (f : κ → α → α) (t : Table κ α) : Table κ α :=
  ⟨t.rows.map fun p => (p.1, f p.1 p.2), by
    have hkeys : (t.rows.map fun p => (p.1, f p.1 p.2)).map Prod.fst = t.rows.map Prod.fst := by
      rw [map_map]
      rfl
    rw [hkeys]
    exact t.nodup⟩

section Keys

variable [DecidableEq κ]

def get (t : Table κ α) (k : κ) : Option α := t.rows.lookup k

theorem mem_rows_iff {v : α} : (k, v) ∈ t.rows ↔ t.get k = some v :=
  (Assoc.lookup_eq_some_iff t.nodup).symm

theorem mem_keys_iff : k ∈ t.keys ↔ ∃ v, t.get k = some v := by
  simp only [keys, mem_map, Prod.exists, exists_and_right, exists_eq_right, mem_rows_iff]

def set (t : Table κ α) (k : κ) (v : α) : Table κ α :=
  if h : k ∈ t.keys then t.map fun k' v' => if k' = k then v else v'
  else
    ⟨t.rows ++ [(k, v)], by
      rw [map_append, nodup_append]
      refine ⟨t.nodup, by simp, ?_⟩
      intro a ha b hb
      simp only [map_cons, map_nil, mem_singleton] at hb
      intro hab
      rw [hab, hb] at ha
      exact h ha⟩

@[simp, grind =] theorem get_empty (k : κ) : (empty : Table κ α).get k = none := rfl

@[simp, grind =] theorem get_map (f : κ → α → α) (t : Table κ α) (k : κ) :
    (t.map f).get k = (t.get k).map (f k) :=
  Assoc.lookup_map t.rows f k

@[grind =] theorem get_set (t : Table κ α) (k : κ) (v : α) (k' : κ) :
    (t.set k v).get k' = if k' = k then some v else t.get k' := by
  unfold set
  by_cases hk : k ∈ t.keys
  · rw [dif_pos hk, get_map]
    obtain ⟨w, hw⟩ := mem_keys_iff.mp hk
    by_cases hk' : k' = k
    · simp [hk', hw]
    · cases t.get k' <;> simp [hk']
  rw [dif_neg hk]
  unfold get
  rw [List.lookup_append]
  by_cases hk' : k' = k
  · have hnone : t.rows.lookup k = none := by
      cases hget : t.rows.lookup k with
      | none => rfl
      | some w => exact absurd (mem_keys_iff.mpr ⟨w, hget⟩) hk
    simp [hk', hnone]
  · have hbeq : (k' == k) = false := by simpa using hk'
    cases hget : t.rows.lookup k' <;> simp [hk', hbeq, lookup_cons]

def erase (t : Table κ α) (k : κ) : Table κ α :=
  ⟨t.rows.filter fun p => p.1 ≠ k, t.nodup.sublist (List.Sublist.map Prod.fst filter_sublist)⟩

@[grind =] theorem get_erase (t : Table κ α) (k k' : κ) :
    (t.erase k).get k' = if k' = k then none else t.get k' := by
  apply Option.ext
  intro v
  rw [← mem_rows_iff]
  simp only [erase, mem_filter, mem_rows_iff, decide_eq_true_eq]
  by_cases hk : k' = k
  · simp [hk]
  · simp [hk]

theorem one_lt_countP {v : α} (h : t.get k = some v) {p : κ × α → Bool}
    (hp : p (k, v) = true) :
    1 < t.rows.countP p ↔ ∃ k' v', t.get k' = some v' ∧ k' ≠ k ∧ p (k', v') = true := by
  classical
  have hmem : (k, v) ∈ t.rows := mem_rows_iff.mpr h
  have hnodup : (t.rows.filter p).Nodup := (List.Nodup.of_map Prod.fst t.nodup).filter p
  rw [countP_eq_length_filter, ← toFinset_card_of_nodup hnodup, Finset.one_lt_card_iff]
  constructor
  · intro htwo
    obtain ⟨a, b, ha, hb, hab⟩ := htwo
    rw [mem_toFinset, mem_filter] at ha hb
    -- one of the two is not the given row
    obtain ⟨c, hc, hcp, hne⟩ : ∃ c ∈ t.rows, p c = true ∧ c ≠ (k, v) := by
      by_cases hak : a = (k, v)
      · exact ⟨b, hb.1, hb.2, fun hbk => hab (hak.trans hbk.symm)⟩
      · exact ⟨a, ha.1, ha.2, hak⟩
    refine ⟨c.1, c.2, mem_rows_iff.mp hc, ?_, hcp⟩
    intro hkey
    exact hne (inj_on_of_nodup_map t.nodup hc hmem hkey)
  · intro hother
    obtain ⟨k', v', hget, hne, hp'⟩ := hother
    refine ⟨(k, v), (k', v'), ?_, ?_, ?_⟩
    · rw [mem_toFinset, mem_filter]
      exact ⟨hmem, hp⟩
    · rw [mem_toFinset, mem_filter]
      exact ⟨mem_rows_iff.mpr hget, hp'⟩
    · intro heq
      cases heq
      exact hne rfl

end Keys

end Table
end DockLattice
