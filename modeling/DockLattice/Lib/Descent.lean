import DockLattice.Lib.Path

/-!
# DockLattice.Lib.Descent

Clean paths below one another. Whether a path lies below another, how deep it is and what is left
of it below the other are read off the texts in Go; on clean paths they are the prefix relation,
the length and the rest of the list of components.
-/

namespace DockLattice.Path.CleanPath

open Bytes List

theorem ext_components {d e : CleanPath} (h : d.components = e.components) : d = e := by
  cases d
  cases e
  cases h
  rfl

theorem path_inj {d e : CleanPath} : d.path = e.path ↔ d = e := by
  constructor
  · intro h
    refine ext_components ?_
    rw [← d.filter_splitOn_path, ← e.filter_splitOn_path, h]
  · intro h
    rw [h]

theorem path_below {d : CleanPath} (hd : d.components ≠ []) {rest : List Text} (hr : rest ≠ [])
    (h : ∀ c ∈ rest, Component c) :
    (d.below rest h).path = d.path ++ slash :: [slash].intercalate rest := by
  rw [path, path, below, cons_intercalate hd, cons_intercalate hr, cons_intercalate (by simp [hr]),
    flatMap_append]

theorem path_eq_root_iff {d : CleanPath} : d.path = [slash] ↔ d.components = [] := by
  rw [← path_root, path_inj]
  constructor
  · intro h
    rw [h]
    rfl
  · intro h
    exact ext_components h

theorem prefix_slash_iff {d e : CleanPath} (hd : d.components ≠ []) :
    d.path ++ [slash] <+: e.path ↔ ∃ rest, rest ≠ [] ∧ e.components = d.components ++ rest := by
  constructor
  · intro h
    obtain ⟨t, ht⟩ := h
    have hs : e.path.splitOn slash = d.path.splitOn slash ++ t.splitOn slash := by
      rw [← ht, append_assoc]
      exact splitOn_append_cons_self d.path t
    have he : e.components ≠ [] := by
      intro he
      have hlen := congrArg List.length ht
      have hpath : e.path = [slash] := path_eq_root_iff.mpr he
      have hne := length_pos_iff.mpr d.path_ne_nil
      simp only [hpath, length_append, length_singleton] at hlen
      omega
    rw [splitOn_path, splitOn_path, if_neg he, if_neg hd, cons_append, List.cons.injEq] at hs
    exact ⟨t.splitOn slash, splitOn_ne_nil _ _, hs.2⟩
  · intro h
    obtain ⟨rest, hr, he⟩ := h
    have hv : ∀ c ∈ rest, Component c := fun c hc => e.valid c (by rw [he]; simp [hc])
    have hb : e = d.below rest hv := ext_components he
    rw [hb, path_below hd hr]
    exact ⟨[slash].intercalate rest, by simp⟩

theorem join_intercalate (d : CleanPath) {rest : List Text} (hr : rest ≠ [])
    (h : ∀ c ∈ rest, Component c) :
    join d.path ([slash].intercalate rest) = (d.below rest h).path :=
  d.join_below (splitOn_intercalate slash (fun c hc => (h c hc).slash_not_mem) hr) h

theorem count_intercalate {cs : List Text} (h : ∀ c ∈ cs, slash ∉ c) :
    ([slash].intercalate cs).count slash = cs.length - 1 := by
  induction cs with
  | nil => rfl
  | cons c cs ih =>
    have hc : c.count slash = 0 := count_eq_zero.mpr (h c mem_cons_self)
    cases cs with
    | nil => simpa using hc
    | cons e es =>
      have ih := ih fun d hd => h d (mem_cons_of_mem _ hd)
      rw [intercalate_cons_cons, count_append, count_append, hc, ih]
      simp
      omega

theorem intercalate_ends {cs : List Text} (hne : cs ≠ []) (h : ∀ c ∈ cs, Component c) :
    (∃ b t, [slash].intercalate cs = b :: t ∧ b ≠ slash) ∧
      ∃ t b, [slash].intercalate cs = t ++ [b] ∧ b ≠ slash := by
  have hparts : ∀ c, Component c → (∃ b t, c = b :: t ∧ b ≠ slash) ∧
      ∃ t b, c = t ++ [b] ∧ b ≠ slash := by
    intro c hc
    constructor
    · cases c with
      | nil => exact absurd rfl hc.ne_nil
      | cons b t => exact ⟨b, t, rfl, fun hb => hc.slash_not_mem (by simp [hb])⟩
    · obtain ⟨t, b, hb⟩ := eq_nil_or_concat c |>.resolve_left hc.ne_nil
      rw [concat_eq_append] at hb
      exact ⟨t, b, hb, fun hs => hc.slash_not_mem (by simp [hb, hs])⟩
  induction cs with
  | nil => exact absurd rfl hne
  | cons c cs ih =>
    obtain ⟨⟨b, t, hb, hbs⟩, hend⟩ := hparts c (h c mem_cons_self)
    cases cs with
    | nil =>
      have hone : [slash].intercalate [c] = c := by simp
      rw [hone]
      exact ⟨⟨b, t, hb, hbs⟩, hend⟩
    | cons e es =>
      obtain ⟨-, t', b', hb', hbs'⟩ := ih (by simp) fun d hd => h d (mem_cons_of_mem _ hd)
      rw [intercalate_cons_cons]
      refine ⟨⟨b, t ++ [slash] ++ [slash].intercalate (e :: es), by simp [hb], hbs⟩, ?_⟩
      exact ⟨c ++ [slash] ++ t', b', by simp [hb'], hbs'⟩

end DockLattice.Path.CleanPath
