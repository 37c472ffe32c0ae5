import Mathlib

/-!
# DockLattice.Lib.Moments

Properties of every step of a run. A run is a list of calls; a step of it is a split of the list into
what came before, the call, and what follows.
-/

namespace DockLattice.Moments

variable {α : Type}

def AtEachStep (P : List α → α → Prop) (calls : List α) : Prop :=
  ∀ before call after, calls = before ++ call :: after → P before call

theorem atEachStep_nil (P : List α → α → Prop) : AtEachStep P [] := by
  intro before call after h
  cases before <;> cases h

theorem atEachStep_snoc {P : List α → α → Prop} {calls : List α} {call : α} :
    AtEachStep P (calls ++ [call]) ↔ AtEachStep P calls ∧ P calls call := by
  constructor
  · intro h
    refine ⟨?_, h calls call [] rfl⟩
    intro before c after hsplit
    exact h before c (after ++ [call]) (by rw [hsplit, List.append_assoc, List.cons_append])
  intro h before c after hsplit
  obtain ⟨hbefore, hlast⟩ := h
  -- the step is the last one, or one of those before it
  rcases List.eq_nil_or_concat after with hnil | ⟨after', last, hafter⟩
  · subst hnil
    obtain ⟨hb, hc⟩ := List.append_inj' hsplit rfl
    cases hc
    rw [← hb]
    exact hlast
  · rw [hafter, List.concat_eq_append, ← List.cons_append, ← List.append_assoc] at hsplit
    obtain ⟨hb, -⟩ := List.append_inj' hsplit rfl
    exact hbefore before c after' hb

theorem atEachStep_forall {p : α → Prop} {calls : List α} :
    AtEachStep (fun _ call => p call) calls ↔ ∀ call ∈ calls, p call := by
  constructor
  · intro h call hcall
    obtain ⟨before, after, hsplit⟩ := List.append_of_mem hcall
    exact h before call after hsplit
  · rintro h before call after rfl
    exact h call (by simp)

theorem atEachStep_iff {P Q : List α → α → Prop} {I : List α → Prop} (hstart : I [])
    (hagree : ∀ before call, I before → (P before call ↔ Q before call))
    (hkeep : ∀ before call, I before → Q before call → I (before ++ [call]))
    (calls : List α) : AtEachStep P calls ↔ AtEachStep Q calls := by
  have key : (AtEachStep P calls ↔ AtEachStep Q calls) ∧ (AtEachStep Q calls → I calls) := by
    induction calls using List.reverseRecOn with
    | nil => exact ⟨iff_of_true (atEachStep_nil P) (atEachStep_nil Q), fun _ => hstart⟩
    | append_singleton calls call ih =>
      obtain ⟨hiff, hinv⟩ := ih
      rw [atEachStep_snoc, atEachStep_snoc, hiff]
      refine ⟨and_congr_right fun hQ => hagree calls call (hinv hQ), ?_⟩
      intro h
      exact hkeep calls call (hinv h.1) h.2
  exact key.1

end DockLattice.Moments
