import Mathlib

/-!
# DockLattice.Lib.Paging

Reading an ordered list page by page. A page starts behind a cursor, holds at most `limit` rows, and
names its last row as the next cursor if there is a row behind it; that row is looked at too. A row
can be unreadable, and then the page that meets it is.

`Follows` is a reader that asks for the next page until there is none. `follows_iff`: it gets through
if and only if every row behind its cursor is readable, and then it has read exactly those, in order
and each once.
-/

namespace DockLattice.Paging

open List

structure Strict (κ : Type) [LT κ] : Prop where
  irrefl : ∀ a : κ, ¬ a < a
  trans : ∀ {a b c : κ}, a < b → b < c → a < c

variable {α κ : Type} [LT κ] [DecidableLT κ] (key : α → κ) (readable : α → Bool) (limit : Nat)

def behind (rows : List α) : Option κ → List α
  | none => rows
  | some c => rows.filter fun r => decide (c < key r)

def page (rows : List α) (c : Option κ) : Option (List α × Option κ) :=
  let seen := (behind key rows c).take (limit + 1)
  if seen.all readable then
    some (seen.take limit, if limit < seen.length then (seen.take limit).getLast?.map key else none)
  else none

inductive Follows (rows : List α) : Option κ → List α → Prop where
  | last {c : Option κ} {xs : List α} :
      page key readable limit rows c = some (xs, none) → Follows rows c xs
  | more {c : Option κ} {d : κ} {xs ys : List α} :
      page key readable limit rows c = some (xs, some d) → Follows rows (some d) ys →
      Follows rows c (xs ++ ys)

variable {key readable limit}

section Rows

variable {rows : List α} {c : Option κ}

theorem pairwise_behind (h : rows.Pairwise (key · < key ·)) :
    (behind key rows c).Pairwise (key · < key ·) := by
  cases c with
  | none => exact h
  | some c => exact h.filter _

theorem filter_behind (hκ : Strict κ) {l : List α} (h : l.Pairwise (key · < key ·)) {x : α} (n : Nat)
    (hx : (l.take n).getLast? = some x) :
    l.filter (fun r => decide (key x < key r)) = l.drop n := by
  obtain ⟨ys, hys⟩ := getLast?_eq_some_iff.mp hx
  have hsplit : l = (ys ++ [x]) ++ l.drop n := by rw [← hys, take_append_drop]
  rw [hsplit, pairwise_append] at h
  obtain ⟨hfront, -, hcross⟩ := h
  rw [pairwise_append] at hfront
  have hnone : (ys ++ [x]).filter (fun r => decide (key x < key r)) = [] := by
    rw [filter_eq_nil_iff]
    intro r hr
    rcases mem_append.mp hr with hr | hr
    · have := hfront.2.2 r hr x mem_cons_self
      simpa using fun hlt => hκ.irrefl _ (hκ.trans hlt this)
    · obtain rfl := mem_singleton.mp hr
      simpa using hκ.irrefl _
  have hall : (l.drop n).filter (fun r => decide (key x < key r)) = l.drop n := by
    rw [filter_eq_self]
    intro r hr
    simpa using hcross x (by simp) r hr
  calc l.filter (fun r => decide (key x < key r))
      = ((ys ++ [x]) ++ l.drop n).filter (fun r => decide (key x < key r)) := by rw [← hsplit]
    _ = l.drop n := by rw [filter_append, hnone, hall, nil_append]

theorem behind_some (hκ : Strict κ) {rows : List α} {c : Option κ} {x : α} (hx : x ∈ behind key rows c) :
    behind key rows (some (key x)) =
      (behind key rows c).filter fun r => decide (key x < key r) := by
  cases c with
  | none => rfl
  | some c =>
    have hc : c < key x := by simpa using (mem_filter.mp hx).2
    simp only [behind, filter_filter]
    refine filter_congr fun r _ => ?_
    by_cases h : key x < key r
    · simp [h, hκ.trans hc h]
    · simp [h]

theorem page_short (readable : α → Bool) (h : (behind key rows c).length ≤ limit) :
    page key readable limit rows c =
      if (behind key rows c).all readable then some (behind key rows c, none) else none := by
  have hseen : (behind key rows c).take (limit + 1) = behind key rows c :=
    take_of_length_le (by omega)
  simp only [page, hseen, take_of_length_le h, if_neg (Nat.not_lt.mpr h)]

/-- The page names the last of its rows, and behind that are the rows it did not hold. -/
theorem page_long (readable : α → Bool) (hκ : Strict κ) (h : rows.Pairwise (key · < key ·))
    (hl : 0 < limit) (hlong : limit < (behind key rows c).length) :
    ∃ d, behind key rows (some d) = (behind key rows c).drop limit ∧
      page key readable limit rows c =
        if ((behind key rows c).take (limit + 1)).all readable then
          some ((behind key rows c).take limit, some d) else none := by
  have hne : (behind key rows c).take limit ≠ [] := by
    rw [← length_pos_iff, length_take]
    omega
  have hx := getLast?_eq_some_getLast hne
  generalize ((behind key rows c).take limit).getLast hne = x at hx
  have hmem : x ∈ behind key rows c := mem_of_mem_take (mem_of_getLast? hx)
  refine ⟨key x, ?_, ?_⟩
  · rw [behind_some hκ hmem, filter_behind hκ (pairwise_behind h) limit hx]
  · have hlen : limit < ((behind key rows c).take (limit + 1)).length := by
      rw [length_take]
      omega
    simp only [page, if_pos hlen, take_take, Nat.min_eq_left (Nat.le_succ limit), hx, Option.map_some]

theorem follows_iff (hκ : Strict κ) (h : rows.Pairwise (key · < key ·)) (hl : 0 < limit)
    {xs : List α} :
    Follows key readable limit rows c xs ↔
      xs = behind key rows c ∧ ∀ r ∈ behind key rows c, readable r = true := by
  -- each page that is not the last leaves fewer rows behind it
  induction hn : (behind key rows c).length using Nat.strong_induction_on generalizing c xs with
  | _ n ih =>
  rcases Nat.lt_or_ge limit (behind key rows c).length with hlong | hshort
  · obtain ⟨d, hnext, hpage⟩ := page_long readable hκ h hl hlong
    have hrest : ∀ ys, Follows key readable limit rows (some d) ys ↔
        ys = (behind key rows c).drop limit ∧
          ∀ r ∈ (behind key rows c).drop limit, readable r = true := by
      intro ys
      rw [← hnext]
      exact ih _ (by rw [hnext, length_drop]; omega) rfl
    constructor
    · rintro (hp | ⟨hp, hf⟩)
      · rw [hpage] at hp
        split at hp <;> cases hp
      rw [hpage] at hp
      split at hp
      next hall =>
        cases hp
        obtain ⟨rfl, hdrop⟩ := (hrest _).mp hf
        refine ⟨take_append_drop .., fun r hr => ?_⟩
        rw [← take_append_drop (limit + 1) (behind key rows c), mem_append] at hr
        rcases hr with hr | hr
        · exact all_eq_true.mp hall r hr
        · exact hdrop r (drop_subset_drop_left _ (Nat.le_succ limit) hr)
      next => cases hp
    · rintro ⟨rfl, hall⟩
      rw [if_pos (all_eq_true.mpr fun r hr => hall r (mem_of_mem_take hr))] at hpage
      have hmore := Follows.more hpage ((hrest _).mpr ⟨rfl, fun r hr => hall r (mem_of_mem_drop hr)⟩)
      rwa [take_append_drop] at hmore
  · have hpage := page_short readable hshort
    constructor
    · rintro (hp | ⟨hp, -⟩)
      · rw [hpage] at hp
        split at hp
        next hall =>
          cases hp
          exact ⟨rfl, all_eq_true.mp hall⟩
        next => cases hp
      · rw [hpage] at hp
        split at hp <;> cases hp
    · rintro ⟨rfl, hall⟩
      exact .last (hpage.trans (if_pos (all_eq_true.mpr hall)))

end Rows

end DockLattice.Paging
