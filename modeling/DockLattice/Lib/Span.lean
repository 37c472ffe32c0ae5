import Mathlib

/-!
# DockLattice.Lib.Span

Half-open spans of natural numbers.

* `Span.joined s ts`: the least span around `s` and all of `ts`. If every one of `ts` touches `s`,
  it holds exactly the numbers of `s` and of `ts` (`mem_joined`).
* `Span.Apart`: neither overlapping nor adjacent. Joining what touches keeps a family apart
  (`Apart.joined`).
* `Span.uncovered next stop ts`: the walk over spans in order of their starts that returns what of
  `[next, stop)` none of them holds (`mem_uncovered`).
-/

namespace DockLattice

open List

variable {n : Nat} {s t : Span} {ts : List Span}

structure Span where
  start : Nat
  stop : Nat
  deriving DecidableEq, Repr

namespace Span

instance : Membership Nat Span := ⟨fun s n => s.start ≤ n ∧ n < s.stop⟩

theorem mem_def : n ∈ s ↔ s.start ≤ n ∧ n < s.stop := Iff.rfl

instance (s : Span) (n : Nat) : Decidable (n ∈ s) := decidable_of_iff' _ mem_def

def single (n : Nat) : Span := ⟨n, n + 1⟩

theorem mem_single {m : Nat} : m ∈ single n ↔ m = n := by
  simp only [mem_def, single]
  omega

def Touches (s t : Span) : Prop := s.start ≤ t.stop ∧ t.start ≤ s.stop

instance (s t : Span) : Decidable (s.Touches t) := inferInstanceAs (Decidable (_ ∧ _))

def Apart (s t : Span) : Prop := s.stop < t.start ∨ t.stop < s.start

theorem Apart.symm (h : s.Apart t) : t.Apart s := Or.symm h

theorem apart_of_not_touches (h : ¬ s.Touches t) : s.Apart t := by
  unfold Touches at h
  unfold Apart
  omega

/-! ## Joining -/

def hull (s t : Span) : Span := ⟨min s.start t.start, max s.stop t.stop⟩

def joined (s : Span) (ts : List Span) : Span := ts.foldl hull s

theorem mem_hull (h : s.Touches t) : n ∈ s.hull t ↔ n ∈ s ∨ n ∈ t := by
  unfold Touches at h
  simp only [mem_def, hull]
  omega

theorem Touches.hull (u : Span) (h : s.Touches t) : (s.hull u).Touches t := by
  unfold Touches Span.hull at *
  dsimp only
  omega

theorem mem_joined :
    ∀ {s : Span}, (∀ t ∈ ts, s.Touches t) → (n ∈ s.joined ts ↔ n ∈ s ∨ ∃ t ∈ ts, n ∈ t) := by
  induction ts with
  | nil => intro s _; simp [joined]
  | cons t ts ih =>
    intro s h
    have htail : ∀ u ∈ ts, (s.hull t).Touches u := fun u hu =>
      (h u (mem_cons_of_mem _ hu)).hull t
    show n ∈ (s.hull t).joined ts ↔ _
    rw [ih htail, mem_hull (h t mem_cons_self), exists_mem_cons_iff, or_assoc]

theorem nonempty_joined :
    ∀ {s : Span}, s.start < s.stop → (s.joined ts).start < (s.joined ts).stop := by
  induction ts with
  | nil => intro s h; exact h
  | cons t ts ih =>
    intro s h
    refine ih (s := s.hull t) ?_
    unfold hull
    dsimp only
    omega

theorem Apart.hull {u : Span} (hu : u.start < u.stop) (h : s.Touches t) (hsu : s.Apart u)
    (htu : t.Apart u) : (s.hull t).Apart u := by
  unfold Touches Apart Span.hull at *
  dsimp only
  omega

theorem Apart.joined {u : Span} (hu : u.start < u.stop) :
    ∀ {s : Span}, (∀ t ∈ ts, s.Touches t ∧ t.Apart u) → s.Apart u →
      (s.joined ts).Apart u := by
  induction ts with
  | nil => intro s _ h; exact h
  | cons t ts ih =>
    intro s hts hsu
    obtain ⟨htouch, htu⟩ := hts t mem_cons_self
    refine ih (s := s.hull t) ?_ (hsu.hull hu htouch htu)
    intro v hv
    obtain ⟨hvs, hvu⟩ := hts v (mem_cons_of_mem _ hv)
    exact ⟨hvs.hull t, hvu⟩

/-! ## What is left uncovered -/

/-- What lies in front of each span, and behind the last one, of the numbers from `next` on. -/
def uncovered (next stop : Nat) : List Span → List Span
  | [] => if next < stop then [⟨next, stop⟩] else []
  | t :: ts =>
    (if next < t.start then [⟨next, t.start⟩] else []) ++ uncovered (max next t.stop) stop ts

theorem mem_uncovered {stop : Nat} :
    ∀ next : Nat, ts.Pairwise (·.start ≤ ·.start) → (∀ t ∈ ts, t.start ≤ stop) →
      ((∃ s ∈ uncovered next stop ts, n ∈ s) ↔ next ≤ n ∧ n < stop ∧ ∀ t ∈ ts, n ∉ t) := by
  induction ts with
  | nil =>
    intro next _ _
    unfold uncovered
    split
    · simp [mem_def]
    · simp only [not_mem_nil, false_and, exists_false, false_iff]
      omega
  | cons t ts ih =>
    intro next hsort hstop
    obtain ⟨hfirst, htail⟩ := pairwise_cons.mp hsort
    have ht := hstop t mem_cons_self
    have hrec := ih (max next t.stop) htail fun u hu =>
      hstop u (mem_cons_of_mem _ hu)
    have hhead : (∃ s ∈ (if next < t.start then [⟨next, t.start⟩] else [] : List Span), n ∈ s) ↔
        next ≤ n ∧ n < t.start := by
      split
      · simp [mem_def]
      · simp only [not_mem_nil, false_and, exists_false, false_iff]
        omega
    have hsplit : (∃ s ∈ uncovered next stop (t :: ts), n ∈ s) ↔
        (next ≤ n ∧ n < t.start) ∨ ∃ s ∈ uncovered (max next t.stop) stop ts, n ∈ s := by
      rw [← hhead, uncovered]
      simp only [mem_append, or_and_right, exists_or]
    rw [hsplit, hrec, forall_mem_cons]
    simp only [mem_def]
    constructor
    · rintro (⟨h₁, h₂⟩ | ⟨h₁, h₂, h₃⟩)
      · -- a number in front of `t` is in front of all later spans
        refine ⟨h₁, by omega, by omega, fun u hu => ?_⟩
        have := hfirst u hu
        omega
      · exact ⟨by omega, h₂, by omega, h₃⟩
    · rintro ⟨h₁, h₂, h₃, h₄⟩
      by_cases hn : n < t.start
      · exact .inl ⟨h₁, hn⟩
      · exact .inr ⟨by omega, h₂, h₄⟩

end Span
end DockLattice
