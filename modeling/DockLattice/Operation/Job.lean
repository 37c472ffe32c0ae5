import DockLattice.Operation.Exclusion

/-!
# DockLattice.Operation.Job

An operation together with its project lease (`operation.go`, `lock.go`): the transition that makes
it terminal takes the lease out of it, and hands it back if the record cannot be saved.

Only what is in memory is followed here.
-/

namespace DockLattice.Operation

inductive Lease where
  | absent
  /-- granted, but still with the caller of `Acquire` -/
  | inHand
  /-- the field `lease` of the operation -/
  | attached
  /-- taken out of the operation, with `Release` still to come -/
  | leaving
  | released
  deriving DecidableEq, Repr

def Lease.outstanding : Lease → Bool
  | inHand | attached | leaving => true
  | absent | released => false

/-- `finishLocked` takes the lease of the operation, if it has one. -/
def Lease.take : Lease → Lease
  | attached => leaving
  | l => l

inductive Outcome where
  | done
  | illegal
  | unsaved
  deriving DecidableEq, Repr

structure Job where
  op : Op
  lease : Lease
  deriving DecidableEq, Repr

namespace Job

def accepted (spec : Spec) (now : Time) : Job := ⟨⟨newRecord spec now, false⟩, .absent⟩

def terminal (j : Job) : Bool := j.op.record.status.terminal

/-- The common end of the transitions. The lease leaves with the first terminal record. -/
def commit (j : Job) (fate : Fate) (new : Op) : Job × Outcome :=
  if new.record.storable && fate == .ok then
    (⟨new, if new.terminalNotified && !j.op.terminalNotified then j.lease.take else j.lease⟩, .done)
  else (j, .unsaved)

def call (j : Job) (fate : Fate) (f : Op → Option Op) : Job × Outcome :=
  match f j.op with
  | none => (j, .illegal)
  | some new => j.commit fate new

def cancel (j : Job) (reason : CancelReason) (now : Time) (fate : Fate) : Job × CancelOutcome :=
  match cancelWithError j.op reason now with
  | (answer, none) => (j, answer)
  | (answer, some new) =>
    match j.commit fate new with
    | (j', .done) => (j', answer)
    | (j', _) => (j', .notFound)

/-- `attachLease`; the lease of a terminal operation is released at once. -/
def attachLease (j : Job) : Job :=
  if j.terminal then { j with lease := .leaving } else { j with lease := .attached }

/-- `Lease.Release` as far as the operation goes. -/
def release (j : Job) : Job :=
  if j.lease = .leaving then { j with lease := .released } else j

@[simp] theorem release_op (j : Job) : j.release.op = j.op := by
  unfold release
  split <;> rfl

theorem commit_cases (j : Job) (fate : Fate) (new : Op) :
    (new.record.storable = true ∧ fate = .ok ∧ j.commit fate new =
      (⟨new, if new.terminalNotified && !j.op.terminalNotified then j.lease.take else j.lease⟩,
        .done)) ∨
    ((new.record.storable = false ∨ fate ≠ .ok) ∧ j.commit fate new = (j, .unsaved)) := by
  unfold commit
  cases hs : new.record.storable
  · exact .inr ⟨.inl rfl, by simp⟩
  · by_cases hf : fate = .ok
    · exact .inl ⟨rfl, hf, by simp [hf]⟩
    · exact .inr ⟨.inr hf, by simp [hf]⟩

end Job

/-! ## What holds of an operation in memory -/

def Op.Noted (o : Op) : Prop := o.terminalNotified = o.record.status.terminal

section Noted

variable {c : Config} {o o' : Op}

theorem finishLocked_noted {next : Status} {finished : Time} (hs : o.record.status = next)
    (hlive : o.terminalNotified = false) : (finishLocked c o next finished).Noted := by
  unfold finishLocked Op.Noted
  rw [hlive, ← hs]
  cases ht : o.record.status.terminal <;> simp [ht, hlive]

/-- What one transition does to an operation: it keeps the note of its end, a terminal status stays,
and the identity is never touched. -/
structure Op.Moves (o o' : Op) : Prop where
  noted : o'.Noted
  terminal : o.record.status.terminal = true → o'.record.status = o.record.status
  spec : o'.record.spec = o.record.spec

theorem finishLocked_status (c : Config) (o : Op) (next : Status) (finished : Time) :
    (finishLocked c o next finished).record.status = o.record.status := by
  unfold finishLocked
  split <;> rfl

theorem finishLocked_spec (c : Config) (o : Op) (next : Status) (finished : Time) :
    (finishLocked c o next finished).record.spec = o.record.spec := by
  unfold finishLocked
  split <;> rfl

theorem transitionStatus_moves {next : Status} {result errorText : Text} {now finished : Time}
    (hn : o.Noted) (h : transitionStatus c o next result errorText now finished = some o') :
    o.Moves o' := by
  unfold transitionStatus at h
  split at h
  · next hallowed =>
    have hlive : o.record.status.terminal = false := by
      simp only [transitionAllowed, Bool.and_eq_true] at hallowed
      exact not_terminal_of_legal hallowed.1.1
    cases h
    refine ⟨finishLocked_noted rfl (hn.trans hlive), ?_, ?_⟩
    · intro ht
      rw [hlive] at ht
      cases ht
    · rw [finishLocked_spec]
      rfl
  · cases h

theorem reject_moves {cause : Text} {now finished : Time} (hn : o.Noted)
    (h : reject c o cause now finished = some o') : o.Moves o' := by
  unfold reject at h
  split at h
  · cases h
  next hlive =>
  rw [Bool.not_eq_true] at hlive
  cases h
  refine ⟨finishLocked_noted rfl (hn.trans hlive), ?_, ?_⟩
  · intro ht
    rw [hlive] at ht
    cases ht
  · rw [finishLocked_spec]
    rfl

theorem Op.Inner.moves {now : Time} (h : o.Inner now o') (hn : o.Noted) : o.Moves o' := by
  refine ⟨?_, fun _ => h.status, h.progress.spec⟩
  unfold Op.Noted
  rw [h.notified, h.status]
  exact hn

theorem Event.transition_moves {e : Event} {fate : Fate} {f : Op → Option Op}
    (ht : e.transition c = some (fate, f)) (hn : o.Noted) (ho : f o = some o') : o.Moves o' := by
  cases e with
  | transitionStatus next result errorText now finished fate' =>
    cases ht
    exact transitionStatus_moves hn ho
  | reject cause now finished fate' =>
    cases ht
    exact reject_moves hn ho
  | advancePhase next now fate' =>
    cases ht
    exact (advancePhase_inner ho).moves hn
  | enterCommit now fate' =>
    cases ht
    exact (enterCommit_inner ho).moves hn
  | cancel reason now fate' =>
    cases ht
    exact (cancelWithError_inner ho).moves hn
  | advanceProgress now fate' =>
    cases ht
    exact (advanceProgress_inner ho).moves hn
  | markDelivered fate' =>
    cases ht
    simp only [Operation.markDelivered] at ho
    split at ho
    · cases ho
      exact ⟨hn, fun _ => rfl, rfl⟩
    · cases ho
  | writeOutput | flushOutputTail | dropOutput | restart => cases ht

end Noted

end DockLattice.Operation
