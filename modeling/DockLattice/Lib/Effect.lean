import Mathlib

/-!
# DockLattice.Lib.Effect

Programs whose durable effects can fail or be cut off.

A `Prog σ ε α` returns, fails with an error the caller can handle, or dies in the middle (`crash`).
The environment decides how each durable effect ends: its decisions are the list `faults` of the
`World`, one entry per effect (an exhausted list means that everything goes well).

* `Spec G P p Q E C`: from a state with `P`, under decisions all in `G`, a return satisfies `Q`, a
  failure `E`, and the state a crash leaves behind `C`.
* `Stays G I C p`: `p` keeps `I` whether it returns or fails, and a crash leaves `C`.
-/

namespace DockLattice.Effect

/-- How the environment lets one durable effect end. `late` is an error that is reported although
the effect took place; `torn k` an error after `k` units of it; `crash k` the death of the process
after `k` units. -/
inductive Fault where
  | ok
  | fail
  | late
  | torn (k : Nat)
  | crash (k : Nat)
  deriving DecidableEq, Repr

inductive Outcome (τ ε α : Type) where
  | done (a : α) (s : τ)
  | fail (e : ε) (s : τ)
  | crash (s : τ)
  deriving DecidableEq, Repr

namespace Outcome

variable {τ τ' ε α : Type}

def state : Outcome τ ε α → τ
  | done _ s => s
  | fail _ s => s
  | crash s => s

def mapState (f : τ → τ') : Outcome τ ε α → Outcome τ' ε α
  | done a s => .done a (f s)
  | fail e s => .fail e (f s)
  | crash s => .crash (f s)

def value? : Outcome τ ε α → Option α
  | done a _ => some a
  | _ => none

end Outcome

structure World (σ : Type) where
  st : σ
  faults : List Fault

def Prog (σ ε α : Type) := World σ → Outcome (World σ) ε α

namespace Prog

variable {σ ε α β : Type} {p : Prog σ ε α}

def pure (a : α) : Prog σ ε α := fun w => .done a w

def bind (p : Prog σ ε α) (k : α → Prog σ ε β) : Prog σ ε β := fun w =>
  match p w with
  | .done a w' => k a w'
  | .fail e w' => .fail e w'
  | .crash w' => .crash w'

instance : Monad (Prog σ ε) where
  pure := Prog.pure
  bind := Prog.bind

def throw (e : ε) : Prog σ ε α := fun w => .fail e w

def get : Prog σ ε σ := fun w => .done w.st w

def modify (f : σ → σ) : Prog σ ε Unit := fun w => .done () { w with st := f w.st }

def attempt (p : Prog σ ε α) (handler : ε → Prog σ ε α) : Prog σ ε α := fun w =>
  match p w with
  | .fail e w' => handler e w'
  | o => o

def when (c : Prop) [Decidable c] (p : Prog σ ε Unit) : Prog σ ε Unit :=
  if c then p else Prog.pure ()

/-- One durable effect, ended the way the next decision of the environment says. -/
def effect (run : Fault → σ → Outcome σ ε α) : Prog σ ε α := fun w =>
  match w.faults with
  | [] => (run .ok w.st).mapState (World.mk · [])
  | f :: fs => (run f w.st).mapState (World.mk · fs)

end Prog

/-! ## Specifications -/

section Spec

variable {σ ε α β : Type} {G : Fault → Prop}

def Allowed (G : Fault → Prop) (w : World σ) : Prop := ∀ f ∈ w.faults, G f

def Deadly (G : Fault → Prop) : Prop := ∃ k, G (.crash k)

def Meets (G : Fault → Prop) (Q : α → σ → Prop) (E : ε → σ → Prop) (C : σ → Prop) :
    Outcome (World σ) ε α → Prop
  | .done a w => Q a w.st ∧ Allowed G w
  | .fail e w => E e w.st ∧ Allowed G w
  | .crash w => C w.st ∧ Deadly G

def Spec (G : Fault → Prop) (P : σ → Prop) (p : Prog σ ε α) (Q : α → σ → Prop)
    (E : ε → σ → Prop) (C : σ → Prop) : Prop :=
  ∀ w, P w.st → Allowed G w → Meets G Q E C (p w)

def Stays (G : Fault → Prop) (I C : σ → Prop) (p : Prog σ ε α) : Prop :=
  Spec G I p (fun _ => I) (fun _ => I) C

variable {P P' : σ → Prop} {Q Q' : α → σ → Prop} {R : β → σ → Prop} {E E' : ε → σ → Prop}
  {I C C' : σ → Prop}

theorem Meets.imp {o : Outcome (World σ) ε α} (h : Meets G Q E C o)
    (hQ : ∀ a s, Q a s → Q' a s) (hE : ∀ e s, E e s → E' e s) (hC : ∀ s, C s → C' s) :
    Meets G Q' E' C' o := by
  cases o with
  | done a w => exact ⟨hQ a w.st h.1, h.2⟩
  | fail e w => exact ⟨hE e w.st h.1, h.2⟩
  | crash w => exact ⟨hC w.st h.1, h.2⟩

theorem Spec.weaken (h : Spec G P p Q E C) (hP : ∀ s, P' s → P s)
    (hQ : ∀ a s, Q a s → Q' a s) (hE : ∀ e s, E e s → E' e s) (hC : ∀ s, C s → C' s) :
    Spec G P' p Q' E' C' :=
  fun w hw hg => (h w (hP w.st hw) hg).imp hQ hE hC

theorem Spec.pre (h : Spec G P p Q E C) (hP : ∀ s, P' s → P s) :
    Spec G P' p Q E C := fun w hw hg => h w (hP w.st hw) hg

theorem Spec.post (h : Spec G P p Q E C) (hQ : ∀ a s, Q a s → Q' a s) :
    Spec G P p Q' E C :=
  h.weaken (fun _ h => h) hQ (fun _ _ h => h) (fun _ h => h)

theorem Spec.and (h : Spec G P p Q E C) (h' : Spec G P' p Q' E' C') :
    Spec G (fun s => P s ∧ P' s) p (fun a s => Q a s ∧ Q' a s) (fun e s => E e s ∧ E' e s)
      (fun s => C s ∧ C' s) := by
  intro w hw hg
  have h₁ := h w hw.1 hg
  have h₂ := h' w hw.2 hg
  cases ho : p w with
  | done | fail | crash => rw [ho] at h₁ h₂; exact ⟨⟨h₁.1, h₂.1⟩, h₁.2⟩

theorem Spec.of_state (h : ∀ s, P s → Spec G (fun t => t = s) p Q E C) :
    Spec G P p Q E C := fun w hw hg => h w.st hw w rfl hg

theorem Spec.ret {a : α} (h : ∀ s, P s → Q a s) : Spec G P (Prog.pure a : Prog σ ε α) Q E C :=
  fun w hw hg => ⟨h w.st hw, hg⟩

theorem Spec.throw {e : ε} (h : ∀ s, P s → E e s) : Spec G P (Prog.throw e : Prog σ ε α) Q E C :=
  fun w hw hg => ⟨h w.st hw, hg⟩

theorem Spec.throw_at {e : ε} {s : σ} (h : E e s) :
    Spec G (fun t => t = s) (Prog.throw e : Prog σ ε α) Q E C := .throw fun _ ht => ht ▸ h

theorem Spec.modify {f : σ → σ} {R : Unit → σ → Prop} (h : ∀ s, P s → R () (f s)) :
    Spec G P (Prog.modify f : Prog σ ε Unit) R E C :=
  fun w hw hg => ⟨h w.st hw, hg⟩

theorem Spec.bind {k : α → Prog σ ε β} (hp : Spec G P p Q E C)
    (hk : ∀ a, Spec G (Q a) (k a) R E C) : Spec G P (Prog.bind p k) R E C := by
  intro w hw hg
  have h := hp w hw hg
  unfold Prog.bind
  cases hpw : p w with
  | done a w' => rw [hpw] at h; exact hk a w' h.1 h.2
  | fail | crash => rw [hpw] at h; exact h

theorem Spec.get {k : σ → Prog σ ε β} (h : ∀ s, P s → Spec G (fun t => t = s) (k s) R E C) :
    Spec G P (Prog.bind Prog.get k) R E C :=
  fun w hw hg => h w.st hw w rfl hg

theorem Spec.read {s : σ} {k : σ → Prog σ ε β} (h : Spec G (fun t => t = s) (k s) R E C) :
    Spec G (fun t => t = s) (Prog.bind Prog.get k) R E C :=
  Spec.get fun t ht => by rw [ht]; exact h

theorem Spec.attempt {handler : ε → Prog σ ε α} (hp : Spec G P p Q E C)
    (hh : ∀ e, Spec G (E e) (handler e) Q E' C) : Spec G P (Prog.attempt p handler) Q E' C := by
  intro w hw hg
  have h := hp w hw hg
  unfold Prog.attempt
  cases hpw : p w with
  | done | crash => rw [hpw] at h; exact h
  | fail e w' => rw [hpw] at h; exact hh e w' h.1 h.2

theorem Spec.effect {run : Fault → σ → Outcome σ ε α} (hok : G .ok)
    (h : ∀ f s, G f → P s →
      match run f s with
      | .done a s' => Q a s'
      | .fail e s' => E e s'
      | .crash s' => C s' ∧ Deadly G) :
    Spec G P (Prog.effect run) Q E C := by
  intro w hw hg
  unfold Prog.effect
  cases hf : w.faults with
  | nil =>
    have := h .ok w.st hok hw
    cases hr : run .ok w.st <;> rw [hr] at this
    · exact ⟨this, fun _ hm => absurd hm List.not_mem_nil⟩
    · exact ⟨this, fun _ hm => absurd hm List.not_mem_nil⟩
    · exact this
  | cons f fs =>
    have hgf : G f := hg f (by rw [hf]; exact List.mem_cons_self)
    have hgs : ∀ x ∈ fs, G x := fun x hx => hg x (by rw [hf]; exact List.mem_cons_of_mem _ hx)
    have := h f w.st hgf hw
    dsimp only
    cases hr : run f w.st <;> rw [hr] at this
    · exact ⟨this, hgs⟩
    · exact ⟨this, hgs⟩
    · exact this

end Spec

end DockLattice.Effect
