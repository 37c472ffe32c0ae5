import DockLattice.Compose.Sources

/-!
# DockLattice.Compose.Drift

The two ways of telling that the files of a project changed: its fingerprint is another one, or
`ChangedFiles` names a path. A fingerprint is the hash of the sorted paths and file hashes, each
ended by a zero byte, from which they can be read back (`records_inj`).
-/

namespace DockLattice.Compose

open Bytes Keyed List

variable {a b files : List FileFact} {l r : List (Text × Text)} {changed : List Text}

def FileFact.pair (f : FileFact) : Text × Text := (f.path, f.facts.sha256)

/-- What `Fingerprint` hashes. -/
def records (l : List (Text × Text)) : List Byte := l.flatMap fun x => x.1 ++ 0 :: x.2 ++ [0]

theorem records_cons (x : Text × Text) :
    records (x :: l) = x.1 ++ 0 :: (x.2 ++ 0 :: records l) := by
  simp [records]

theorem append_zero_inj {s t x y : List Byte} (hs : 0 ∉ s) (ht : 0 ∉ t)
    (h : s ++ 0 :: x = t ++ 0 :: y) : s = t ∧ x = y := by
  induction s generalizing t with
  | nil => cases t with
    | nil => exact ⟨rfl, tail_eq_of_cons_eq h⟩
    | cons c t => exact absurd (mem_cons.mpr (.inl (head_eq_of_cons_eq h))) ht
  | cons c s ih => cases t with
    | nil => exact absurd (mem_cons.mpr (.inl (head_eq_of_cons_eq h).symm)) hs
    | cons e t =>
      simp only [cons_append, cons.injEq] at h
      rw [mem_cons, not_or] at hs ht
      obtain ⟨hst, hxy⟩ := ih hs.2 ht.2 h.2
      exact ⟨by rw [h.1, hst], hxy⟩

theorem records_inj (hl : ∀ x ∈ l, 0 ∉ x.1 ∧ 0 ∉ x.2) (hr : ∀ x ∈ r, 0 ∉ x.1 ∧ 0 ∉ x.2)
    (h : records l = records r) : l = r := by
  induction l generalizing r with
  | nil => cases r with
    | nil => rfl
    | cons y r => simp [records] at h
  | cons x l ih => cases r with
    | nil => simp [records] at h
    | cons y r =>
      rw [forall_mem_cons] at hl hr
      rw [records_cons, records_cons] at h
      obtain ⟨hpath, h⟩ := append_zero_inj hl.1.1 hr.1.1 h
      obtain ⟨hhash, h⟩ := append_zero_inj hl.1.2 hr.1.2 h
      rw [ih hl.2 hr.2 h, Prod.ext hpath hhash]

theorem fingerprint_eq_map : fingerprint files = (fileHashes files).map fun hashes =>
    text (Sha256.encodeToString (Sha256.sum256 (records hashes))) := by
  simp [fingerprint, fileHashes, records, flatMap_map, Function.comp_def]

theorem mem_pairs (h : fileHashes files = some l) {p : Text × Text} :
    p ∈ files.map FileFact.pair ↔ p ∈ l := by
  obtain ⟨normalized, hn, rfl⟩ := Option.map_eq_some_iff.mp h
  exact ((normalizeFiles_some hn).2.map _).mem_iff.symm

theorem fileHashes_no_zero (h : fileHashes files = some l) (hnul : ∀ f ∈ files, 0 ∉ f.path) :
    ∀ x ∈ l, 0 ∉ x.1 ∧ 0 ∉ x.2 := by
  intro x hx
  obtain ⟨f, hf, rfl⟩ := mem_map.mp ((mem_pairs h).mpr hx)
  refine ⟨hnul f hf, fun hzero => ?_⟩
  obtain ⟨normalized, hn, -⟩ := Option.map_eq_some_iff.mp h
  unfold normalizeFiles at hn
  split at hn
  · rename_i hc
    have hvalid := all_eq_true.mp hc.1 f hf
    simp only [validFact, validSHA256, Bool.and_eq_true, all_eq_true] at hvalid
    exact absurd (hvalid.2.2 0 hzero) (by decide)
  · cases hn

theorem strict_changedFiles (h : changedFiles a b = some changed) : Strict id changed := by
  obtain ⟨left, right, hl, hr, rfl⟩ := changedFiles_some h
  refine strict_sort (show Nodup _ from nodup_append.mpr ⟨?_, ?_, ?_⟩)
  · exact (strict_fileHashes hl).nodup.sublist (filter_sublist.map _)
  · exact (strict_fileHashes hr).nodup.sublist (filter_sublist.map _)
  -- a path that was removed or changed is not one that was added
  rintro path hold _ hnew rfl
  obtain ⟨p, hp, rfl⟩ := mem_map.mp hold
  obtain ⟨q, hq, hpath⟩ := mem_map.mp hnew
  rw [mem_filter, mem_fileHashes hl] at hp
  rw [mem_filter, fileHashes_lookup hl, hpath, hp.1] at hq
  exact absurd hq.2 (by simp)

theorem changedFiles_comm (h : changedFiles a b = some changed) :
    changedFiles b a = some changed := by
  obtain ⟨left, right, hl, hr, -⟩ := changedFiles_some h
  obtain ⟨back, hback⟩ : ∃ back, changedFiles b a = some back := ⟨_, by rw [changedFiles, hl, hr]⟩
  rw [hback, (strict_changedFiles hback).eq_of_mem (strict_changedFiles h) fun path => ?_]
  rw [mem_changedFiles hback, mem_changedFiles h, ne_comm]

theorem sameHashes_iff (hl : fileHashes a = some l) (hr : fileHashes b = some r) :
    SameHashes a b ↔ l = r := by
  refine ⟨fun h => ?_, fun h path => ?_⟩
  · refine (strict_fileHashes hl).eq_of_mem (strict_fileHashes hr) fun p => ?_
    rw [mem_fileHashes hl, mem_fileHashes hr, h]
  · rw [← fileHashes_lookup hl, ← fileHashes_lookup hr, h]

theorem fingerprint_eq_iff (hl : fileHashes a = some l) (hr : fileHashes b = some r)
    (hnul : ∀ f ∈ a ++ b, 0 ∉ f.path)
    (hsha : Sha256.sum256 (records l) = Sha256.sum256 (records r) → records l = records r) :
    fingerprint a = fingerprint b ↔ l = r := by
  rw [forall_mem_append] at hnul
  rw [fingerprint_eq_map, fingerprint_eq_map, hl, hr, Option.map_some, Option.map_some,
    Option.some_inj, text_injective.eq_iff, Sha256.encodeToString_injective.eq_iff]
  refine ⟨fun h => ?_, fun h => by rw [h]⟩
  exact records_inj (fileHashes_no_zero hl hnul.1) (fileHashes_no_zero hr hnul.2) (hsha h)

/-- What `Fingerprint` hashes for a list of facts. -/
def hashed (files : List FileFact) : List Byte := records ((fileHashes files).getD [])

theorem drift_iff_changed (ha : (normalizeFiles a).isSome) (hb : (normalizeFiles b).isSome)
    (hnul : ∀ f ∈ a ++ b, 0 ∉ f.path)
    (hsha : Sha256.sum256 (hashed a) = Sha256.sum256 (hashed b) → hashed a = hashed b) :
    ∃ changed, changedFiles a b = some changed ∧ changedFiles b a = some changed ∧
      (fingerprint a = fingerprint b ↔ changed = []) ∧
      (changed = [] ↔ ∀ p, p ∈ a.map FileFact.pair ↔ p ∈ b.map FileFact.pair) ∧
      changed.Pairwise (· < ·) ∧
      ∀ path, path ∈ changed ↔
        ∃ hash, ¬ ((path, hash) ∈ a.map FileFact.pair ↔ (path, hash) ∈ b.map FileFact.pair) := by
  obtain ⟨left, hleft⟩ := Option.isSome_iff_exists.mp ha
  obtain ⟨right, hright⟩ := Option.isSome_iff_exists.mp hb
  have hl : fileHashes a = some _ := congrArg (Option.map _) hleft
  have hr : fileHashes b = some _ := congrArg (Option.map _) hright
  obtain ⟨changed, h⟩ : ∃ changed, changedFiles a b = some changed :=
    ⟨_, by rw [changedFiles, hl, hr]⟩
  rw [hashed, hashed, hl, hr] at hsha
  simp only [mem_pairs hl, mem_pairs hr, mem_fileHashes hl, mem_fileHashes hr, Prod.forall]
  refine ⟨changed, h, changedFiles_comm h, ?_, ?_, ?_, fun path => ?_⟩
  · rw [fingerprint_eq_iff hl hr hnul hsha, changedFiles_nil_iff h, sameHashes_iff hl hr]
  · rw [changedFiles_nil_iff h]
    exact forall_congr' fun path => Option.ext_iff
  · exact (strict_changedFiles h).imp fun hlt => Std.lt_of_le_of_ne hlt.1 hlt.2
  · rw [mem_changedFiles h, ne_eq, Option.ext_iff, not_forall]

def fact (name : String) (size : Nat) (digit : Byte) : FileFact :=
  ⟨text name, ⟨size, replicate 64 digit⟩⟩

/-- Neither the order nor the sizes count. -/
theorem drift_iff_changed_reordered :
    fingerprint [fact "/srv/a.yaml" 1 48, fact "/srv/b.yaml" 2 49] =
      fingerprint [fact "/srv/b.yaml" 3 49, fact "/srv/a.yaml" 4 48] := by
  obtain ⟨changed, -, -, hfp, hpairs, -⟩ := drift_iff_changed
    (a := [fact "/srv/a.yaml" 1 48, fact "/srv/b.yaml" 2 49])
    (b := [fact "/srv/b.yaml" 3 49, fact "/srv/a.yaml" 4 48]) (by decide +kernel)
    (by decide +kernel) (by decide +kernel) fun _ => by decide +kernel
  exact hfp.mpr (hpairs.mpr fun p => (Perm.swap (fact "/srv/b.yaml" 3 49).pair
    (fact "/srv/a.yaml" 4 48).pair []).mem_iff)

end DockLattice.Compose
