import DockLattice.Lib.Text

/-!
# DockLattice.Lib.Path

Lexical paths, as Go's `path/filepath` has them on Unix.

`clean`, `join`, `base` and `dir` work on arbitrary texts. A `CleanPath` is what they leave
alone: an absolute path given by its components, none of which is empty, `.` or `..` or holds a
separator or a zero byte. On clean paths the four operations are operations on the list of
components.
-/

namespace DockLattice.Path

open Bytes List

variable {c name p : Text}

def slash : Byte := 47

def isAbs (p : Text) : Bool := p.head? = some slash

/-- The effect of one component on the components kept so far, newest first. -/
def cleanStep (rooted : Bool) (out : List Text) (c : Text) : List Text :=
  if c = [] ∨ c = text "." then out
  else if c = text ".." then
    match out with
    | [] => if rooted then [] else [c]
    | d :: rest => if d = text ".." then c :: out else rest
  else c :: out

def clean (p : Text) : Text :=
  let out := ((p.splitOn slash).foldl (cleanStep (isAbs p)) []).reverse
  if isAbs p then slash :: [slash].intercalate out
  else if out = [] then text "."
  else [slash].intercalate out

/-- `filepath.Join` of two elements. -/
def join (d name : Text) : Text :=
  if d = [] then if name = [] then [] else clean name
  else clean (d ++ slash :: name)

def base (p : Text) : Text :=
  if p = [] then text "."
  else
    let stripped := (p.reverse.dropWhile (· = slash)).reverse
    if stripped = [] then [slash]
    else (stripped.reverse.takeWhile (· ≠ slash)).reverse

def dir (p : Text) : Text := clean (p.reverse.dropWhile (· ≠ slash)).reverse

structure Component (c : Text) : Prop where
  ne_nil : c ≠ []
  ne_dot : c ≠ text "."
  ne_dotdot : c ≠ text ".."
  slash_not_mem : slash ∉ c
  nul_not_mem : 0 ∉ c

structure CleanPath where
  components : List Text
  valid : ∀ c ∈ components, Component c

namespace CleanPath

def root : CleanPath := ⟨[], by simp⟩

def child (d : CleanPath) (name : Text) (h : Component name) : CleanPath :=
  ⟨d.components ++ [name], forall_mem_append.mpr ⟨d.valid, forall_mem_singleton.mpr h⟩⟩

def below (d : CleanPath) (rest : List Text) (h : ∀ c ∈ rest, Component c) : CleanPath :=
  ⟨d.components ++ rest, forall_mem_append.mpr ⟨d.valid, h⟩⟩

def path (d : CleanPath) : Text := slash :: [slash].intercalate d.components

def stem (d : CleanPath) : Text := d.components.flatMap (slash :: ·) ++ [slash]

@[simp] theorem path_root : root.path = [slash] := rfl

theorem cons_intercalate {cs : List Text} (h : cs ≠ []) :
    slash :: [slash].intercalate cs = cs.flatMap (slash :: ·) := by
  induction cs with
  | nil => exact absurd rfl h
  | cons c cs ih =>
    cases cs with
    | nil => simp
    | cons e es =>
      rw [intercalate_cons_cons, flatMap_cons, ← ih (by simp)]
      simp

theorem path_child (d : CleanPath) (h : Component name) :
    (d.child name h).path = d.stem ++ name := by
  rw [path, child, cons_intercalate (by simp)]
  simp [stem]

theorem path_append_slash {d : CleanPath} (h : d.components ≠ []) :
    d.path ++ [slash] = d.stem := by
  rw [path, cons_intercalate h]
  rfl

theorem path_ne_nil (d : CleanPath) : d.path ≠ [] := by simp [path]

theorem isAbs_path (d : CleanPath) : isAbs d.path = true := by simp [isAbs, path]

theorem nul_not_mem_path (d : CleanPath) : (0 : Byte) ∉ d.path := by
  by_cases hd : d.components = []
  · simp [path, hd, slash]
  rw [path, cons_intercalate hd, mem_flatMap]
  rintro ⟨c, hc, h0⟩
  rcases mem_cons.mp h0 with h0 | h0
  · cases h0
  · exact (d.valid c hc).nul_not_mem h0

/-! ### The operations on clean paths -/

theorem splitOn_component (h : Component c) : c.splitOn slash = [c] :=
  splitOn_eq_singleton h.slash_not_mem

theorem clean_of_splitOn (habs : isAbs p = true)
    (h : ∀ c ∈ p.splitOn slash, c = [] ∨ Component c) :
    clean p = slash :: [slash].intercalate ((p.splitOn slash).filter (· ≠ [])) := by
  have hfold : ∀ (cs : List Text), (∀ c ∈ cs, c = [] ∨ Component c) → ∀ out,
      cs.foldl (cleanStep true) out = (cs.filter (· ≠ [])).reverse ++ out := by
    intro cs
    induction cs with
    | nil => intro _ out; rfl
    | cons c cs ih =>
      intro h out
      have ih := ih fun d hd => h d (mem_cons_of_mem _ hd)
      rw [foldl_cons, ih]
      rcases h c mem_cons_self with hc | hc
      · simp [cleanStep, hc]
      · simp [cleanStep, hc.ne_nil, hc.ne_dot, hc.ne_dotdot]
  simp only [clean, habs, if_true, hfold _ h, append_nil, reverse_reverse]

theorem splitOn_path (d : CleanPath) : d.path.splitOn slash =
    [] :: (if d.components = [] then [[]] else d.components) := by
  rw [path, ← nil_append (slash :: _), splitOn_append_cons_self, splitOn_nil]
  by_cases hc : d.components = []
  · simp [hc]
  · rw [if_neg hc, splitOn_intercalate slash (fun c hc => (d.valid c hc).slash_not_mem) hc]
    rfl

theorem filter_components {cs : List Text} (h : ∀ c ∈ cs, Component c) :
    cs.filter (· ≠ []) = cs := by
  rw [filter_eq_self]
  intro c hc
  simpa using (h c hc).ne_nil

theorem filter_splitOn_path (d : CleanPath) :
    (d.path.splitOn slash).filter (· ≠ []) = d.components := by
  rw [splitOn_path]
  by_cases hd : d.components = []
  · simp [hd]
  · simpa [hd] using filter_components d.valid

theorem mem_splitOn_path {d : CleanPath} (h : c ∈ d.path.splitOn slash) :
    c = [] ∨ Component c := by
  rw [splitOn_path, mem_cons] at h
  rcases h with h | h
  · exact .inl h
  · split at h
    · exact .inl (mem_singleton.mp h)
    · exact .inr (d.valid c h)

@[simp] theorem clean_path (d : CleanPath) : clean d.path = d.path := by
  rw [clean_of_splitOn d.isAbs_path fun c => mem_splitOn_path, filter_splitOn_path]
  rfl

theorem join_below (d : CleanPath) {rest : List Text} (hp : p.splitOn slash = rest)
    (h : ∀ c ∈ rest, Component c) : join d.path p = (d.below rest h).path := by
  have habs : isAbs (d.path ++ slash :: p) = true := by simp [isAbs, path]
  rw [join, if_neg d.path_ne_nil, clean_of_splitOn habs, splitOn_append_cons_self, filter_append,
    filter_splitOn_path, hp, filter_components h]
  · rfl
  · intro c hc
    rw [splitOn_append_cons_self, mem_append, hp] at hc
    rcases hc with hc | hc
    · exact mem_splitOn_path hc
    · exact .inr (h c hc)

@[simp] theorem join_path (d : CleanPath) (h : Component name) :
    join d.path name = (d.child name h).path :=
  d.join_below (splitOn_component h) (by simpa using h)

theorem mem_splitOn (h : c ∈ p.splitOn slash) : slash ∉ c ∧ c ⊆ p := by
  induction hn : p.length using Nat.strong_induction_on generalizing p with
  | _ n ih =>
    by_cases hp : slash ∈ p
    · obtain ⟨a, q, rfl, ha⟩ := eq_append_cons_of_mem hp
      rw [splitOn_append_cons_self_of_not_mem ha] at h
      rcases mem_cons.mp h with rfl | h
      · exact ⟨ha, subset_append_left _ _⟩
      · obtain ⟨hslash, hsub⟩ := ih q.length (by simp at hn; omega) h rfl
        exact ⟨hslash, fun b hb => mem_append_right a (mem_cons_of_mem _ (hsub hb))⟩
    · rw [splitOn_eq_singleton hp, mem_singleton] at h
      rw [h]
      exact ⟨hp, Subset.refl p⟩

theorem cleanStep_valid {out : List Text} (hslash : slash ∉ c) (hnul : (0 : Byte) ∉ c)
    (h : ∀ d ∈ out, Component d) : ∀ d ∈ cleanStep true out c, Component d := by
  unfold cleanStep
  split
  · exact h
  rename_i hempty
  split
  · cases out with
    | nil => simp
    | cons e rest =>
      have he := (h e mem_cons_self).ne_dotdot
      simp only [he, if_false]
      exact fun d hd => h d (mem_cons_of_mem _ hd)
  · rename_i hdots
    refine forall_mem_cons.mpr ⟨?_, h⟩
    exact ⟨fun he => hempty (.inl he), fun he => hempty (.inr he), hdots, hslash, hnul⟩

theorem exists_path (habs : isAbs p = true) (hnul : (0 : Byte) ∉ p) :
    ∃ d : CleanPath, clean p = d.path := by
  have hvalid : ∀ c ∈ (p.splitOn slash).foldl (cleanStep true) [], Component c := by
    refine foldlRecOn (motive := fun out => ∀ c ∈ out, Component c) _ _ (by simp) ?_
    intro out hout c hc
    obtain ⟨hslash, hsub⟩ := mem_splitOn hc
    exact cleanStep_valid hslash (fun h0 => hnul (hsub h0)) hout
  refine ⟨⟨((p.splitOn slash).foldl (cleanStep true) []).reverse, ?_⟩, ?_⟩
  · intro c hc
    exact hvalid c (mem_reverse.mp hc)
  · simp only [clean, habs, if_true, path]

theorem takeWhile_reverse_child (d : CleanPath) (h : Component name) :
    (d.stem ++ name).reverse.takeWhile (· ≠ slash) = name.reverse ∧
      (d.stem ++ name).reverse.dropWhile (· ≠ slash) = d.stem.reverse := by
  have hall : ∀ b ∈ name.reverse, (decide (b ≠ slash)) = true := by
    intro b hb
    simp only [decide_eq_true_eq]
    intro hb'
    exact h.slash_not_mem (hb' ▸ mem_reverse.mp hb)
  have hstem : d.stem.reverse = slash :: (d.components.flatMap (slash :: ·)).reverse := by
    simp [stem]
  rw [reverse_append, hstem]
  exact ⟨by rw [takeWhile_append_of_pos hall]; simp, by rw [dropWhile_append_of_pos hall]; simp⟩

@[simp] theorem base_child (d : CleanPath) (h : Component name) :
    base (d.child name h).path = name := by
  have hne : d.stem ++ name ≠ [] := by simp [h.ne_nil]
  have hstrip : ((d.stem ++ name).reverse.dropWhile (· = slash)).reverse = d.stem ++ name := by
    obtain ⟨bs, b, hb⟩ := eq_nil_or_concat name |>.resolve_left h.ne_nil
    have hbs : b ≠ slash := by
      intro hb'
      exact h.slash_not_mem (by rw [hb, hb']; simp)
    rw [hb]
    simp [hbs]
  rw [path_child, base, if_neg hne]
  simp only [hstrip, hne, if_false, (d.takeWhile_reverse_child h).1, reverse_reverse]

theorem child_lt_child (d : CleanPath) {a b : Text} (ha : Component a) (hb : Component b) :
    (d.child a ha).path < (d.child b hb).path ↔ a < b := by
  rw [path_child, path_child, Text.append_left_lt_iff]

end CleanPath

/-! ### A component as a relative path -/

namespace Component

theorem isAbs_eq_false (h : Component c) : isAbs c = false := by
  cases c with
  | nil => rfl
  | cons b c =>
    have hb : b ≠ slash := fun he => h.slash_not_mem (he ▸ mem_cons_self)
    simp [isAbs, hb]

theorem clean_eq (h : Component c) : clean c = c := by
  unfold clean
  rw [h.isAbs_eq_false, CleanPath.splitOn_component h]
  simp [cleanStep, h.ne_nil, h.ne_dot, h.ne_dotdot]

end Component
end DockLattice.Path
