import DockLattice.Operation.Progress

/-!
# DockLattice.Operation.Exclusion

Cancellation against commit. `Control` is what the two race for, and `Control.Step` its moves, one for
each mutator of an operation. Every call is at most one such move, however its write to the journal
ends (`Item.step_control`), so a law of `Control.Step` is a law of every interleaving of calls.
-/

namespace DockLattice.Operation

variable {e : Event} {fate : Fate} {now : Time} {o : Op} {reason : CancelReason}

/-! ## The abstract machine -/

structure Control where
  status : Status
  phase : Phase
  mode : CancelMode
  requested : Bool
  committed : Bool
  deriving DecidableEq, Repr

namespace Control

inductive Step : Control → Control → Prop where
  | status {k : Control} (next : Status) (hlegal : legalStatusTransition k.status next = true)
      (hsuccess : next = .success → k.phase = .finalizing)
      (hcanceled : next = .canceled → k.requested = true) :
      Step k { k with status := next }
  | execute {k : Control} (hlive : k.status.terminal = false) (hphase : k.phase = .preparing) :
      Step k { k with phase := .executing }
  | finalize {k : Control} (hlive : k.status.terminal = false)
      (hphase : k.phase = if k.mode = .beforeCommit then .committing else .executing) :
      Step k { k with phase := .finalizing }
  | commit {k : Control} (hlive : k.status.terminal = false) (hmode : k.mode = .beforeCommit)
      (hphase : k.phase = .executing) (hfree : k.requested = false) :
      Step k { k with phase := .committing, committed := true }
  | cancel {k : Control} (hlive : k.status.terminal = false)
      (hearly : k.mode = .beforeCommit →
        k.committed = false ∧ k.phase ≠ .committing ∧ k.phase ≠ .finalizing) :
      Step k { k with requested := true }
  | reject {k : Control} (hlive : k.status.terminal = false) : Step k { k with status := .rejected }

abbrev Steps := Relation.ReflTransGen Step

structure Barred (k : Control) : Prop where
  mode : k.mode = .beforeCommit
  requested : k.requested = true
  phase : k.phase = .preparing ∨ k.phase = .executing
  status : k.status ≠ .success

structure Committed (k : Control) : Prop where
  mode : k.mode = .beforeCommit
  free : k.requested = false
  phase : k.phase = .committing ∨ k.phase = .finalizing
  status : k.status ≠ .canceled

variable {k k' : Control}

theorem Barred.step (h : k.Barred) (hs : Step k k') : k'.Barred := by
  cases hs with
  | status next _ hsuccess _ =>
    refine ⟨h.mode, h.requested, h.phase, fun heq => ?_⟩
    have hfinal := hsuccess heq
    rcases h.phase with hp | hp <;> rw [hp] at hfinal <;> cases hfinal
  | execute _ _ => exact ⟨h.mode, h.requested, .inr rfl, h.status⟩
  | finalize _ hphase =>
    rw [if_pos h.mode] at hphase
    rcases h.phase with hp | hp <;> rw [hp] at hphase <;> cases hphase
  | commit _ _ _ hfree =>
    rw [h.requested] at hfree
    cases hfree
  | cancel _ _ => exact ⟨h.mode, rfl, h.phase, h.status⟩
  | reject _ => exact ⟨h.mode, h.requested, h.phase, by simp⟩

theorem Committed.step (h : k.Committed) (hs : Step k k') : k'.Committed := by
  cases hs with
  | status next _ _ hcanceled =>
    refine ⟨h.mode, h.free, h.phase, fun heq => ?_⟩
    have hrequested := hcanceled heq
    rw [h.free] at hrequested
    cases hrequested
  | execute _ hphase =>
    rcases h.phase with hp | hp <;> rw [hp] at hphase <;> cases hphase
  | finalize _ _ => exact ⟨h.mode, h.free, .inr rfl, h.status⟩
  | commit _ _ _ _ => exact ⟨h.mode, h.free, .inl rfl, h.status⟩
  | cancel _ hearly =>
    obtain ⟨-, hc, hf⟩ := hearly h.mode
    exact (h.phase.elim hc hf).elim
  | reject _ => exact ⟨h.mode, h.free, h.phase, by simp⟩

theorem Step.terminal (ht : k.status.terminal = true) (hs : Step k k') : k'.status = k.status := by
  have hdead : ∀ {p : Prop}, k.status.terminal = false → p := by
    intro p hlive
    rw [ht] at hlive
    cases hlive
  cases hs with
  | status _ hlegal _ _ => exact hdead (not_terminal_of_legal hlegal)
  | execute hlive _ | finalize hlive _ | commit hlive _ _ _ | cancel hlive _ | reject hlive =>
    exact hdead hlive

theorem Barred.steps (h : k.Barred) (hs : Steps k k') : k'.Barred := by
  induction hs with
  | refl => exact h
  | tail _ hlast ih => exact ih.step hlast

theorem Committed.steps (h : k.Committed) (hs : Steps k k') : k'.Committed := by
  induction hs with
  | refl => exact h
  | tail _ hlast ih => exact ih.step hlast

theorem Steps.terminal (ht : k.status.terminal = true) (hs : Steps k k') :
    k'.status = k.status := by
  induction hs with
  | refl => rfl
  | tail _ hlast ih =>
    rw [← ih] at ht
    exact (Step.terminal ht hlast).trans ih

end Control

/-! ## The engine makes these moves -/

def Record.control (r : Record) : Control :=
  ⟨r.status, r.phase, r.cancelMode, !r.cancelRequestedAt.isZero, !r.commitStartedAt.isZero⟩

/-- The event belongs to one life of the Agent, and its clock readings are not the zero time that
stands for "not yet". -/
def Event.Timely (e : Event) : Prop :=
  (∀ now fate started, e ≠ .restart now fate started) ∧ ∀ t ∈ e.readings, t ≠ zeroTime

theorem finishLocked_control (c : Config) (o : Op) (status : Status) (now : Time) :
    (finishLocked c o status now).record.control = o.record.control := by
  unfold finishLocked
  split <;> rfl

theorem not_isZero {t : Time} (h : t ≠ zeroTime) : t.isZero = false := by
  rw [← Bool.not_eq_true, Time.isZero_iff]
  exact h

section Moves

variable {c : Config} {o' : Op} {finished : Time}

theorem transitionStatus_control {next : Status} {result errorText : Text}
    (h : transitionStatus c o next result errorText now finished = some o') :
    Control.Step o.record.control o'.record.control := by
  unfold transitionStatus at h
  split at h
  · next hallowed =>
    simp only [Option.some.injEq] at h
    subst h
    rw [finishLocked_control]
    simp only [transitionAllowed, Bool.and_eq_true, Bool.not_eq_true', Bool.and_eq_false_iff,
      beq_eq_false_iff_ne, ne_eq, bne_eq_false_iff_eq] at hallowed
    obtain ⟨⟨hlegal, hsuccess⟩, hcanceled⟩ := hallowed
    refine .status next hlegal (fun heq => ?_) fun heq => ?_
    · exact hsuccess.resolve_left fun hne => hne heq
    · have hzero := hcanceled.resolve_left fun hne => hne heq
      simp [Record.control, hzero]
  · cases h

theorem advancePhase_control {next : Phase} (h : advancePhase o next now = some o') :
    Control.Step o.record.control o'.record.control := by
  unfold advancePhase at h
  split at h
  · cases h
  next hlive =>
  rw [Bool.not_eq_true] at hlive
  split at h
  · next hallowed =>
    cases h
    simp only [phaseAllowed, Bool.or_eq_true, Bool.and_eq_true, beq_iff_eq] at hallowed
    rcases hallowed with ⟨hphase, rfl⟩ | hrest
    · exact .execute hlive hphase
    split at hrest
    · next hmode =>
      obtain ⟨hphase, rfl⟩ : o.record.phase = .committing ∧ next = .finalizing := by
        simpa using hrest
      exact .finalize hlive (hphase.trans (if_pos hmode).symm)
    · next hmode =>
      obtain ⟨hphase, rfl⟩ : o.record.phase = .executing ∧ next = .finalizing := by
        simpa using hrest
      exact .finalize hlive (hphase.trans (if_neg hmode).symm)
  · cases h

theorem enterCommit_control (hnow : now ≠ zeroTime) (h : enterCommit o now = some o') :
    Control.Step o.record.control o'.record.control ∧ o'.record.control.Committed := by
  unfold enterCommit at h
  split at h
  · cases h
  next hlive =>
  rw [Bool.not_eq_true] at hlive
  split at h
  · cases h
  next hready =>
  simp only [Bool.or_eq_true, bne_iff_ne, ne_eq, not_or, not_not] at hready
  split at h
  · cases h
  next hfree =>
  cases h
  have hstep := Control.Step.commit (k := o.record.control) hlive hready.1 hready.2
    (by simpa [Record.control] using hfree)
  simp only [Record.control, not_isZero hnow] at hstep ⊢
  refine ⟨hstep, hready.1, by simpa using hfree, .inl rfl, fun hc => ?_⟩
  simp only at hc
  rw [hc] at hlive
  cases hlive

theorem cancelWithError_control (hnow : now ≠ zeroTime)
    (h : (cancelWithError o reason now).2 = some o') :
    Control.Step o.record.control o'.record.control ∧ o'.record.control.requested = true := by
  unfold cancelWithError at h
  split at h
  · cases h
  next hlive =>
  rw [Bool.not_eq_true] at hlive
  split at h
  · cases h
  split at h
  · cases h
  next hearly =>
  split at h
  · cases h
  cases h
  have hstep := Control.Step.cancel (k := o.record.control) hlive (fun hmode => by
    have hmode' : o.record.cancelMode = .beforeCommit := hmode
    simpa [hmode', Record.control, not_or, and_assoc] using hearly)
  simp only [Record.control, not_isZero hnow, Bool.not_false] at hstep ⊢
  exact ⟨hstep, trivial⟩

theorem reject_control {cause : Text} (h : reject c o cause now finished = some o') :
    Control.Step o.record.control o'.record.control := by
  unfold reject at h
  split at h
  · cases h
  next hlive =>
  rw [Bool.not_eq_true] at hlive
  cases h
  rw [finishLocked_control]
  exact .reject hlive

theorem Event.transition_control {f : Op → Option Op} (he : e.Timely)
    (ht : e.transition c = some (fate, f)) (ho : f o = some o') :
    Control.Steps o.record.control o'.record.control := by
  obtain ⟨-, hclock⟩ := he
  cases e <;> simp only [Event.transition, Option.some.injEq, Prod.mk.injEq, reduceCtorEq] at ht <;>
    obtain ⟨-, rfl⟩ := ht
  · exact .single (transitionStatus_control ho)
  · exact .single (advancePhase_control ho)
  · exact .single (enterCommit_control (hclock _ List.mem_cons_self) ho).1
  · exact .single (cancelWithError_control (hclock _ List.mem_cons_self) ho).1
  · exact .single (reject_control ho)
  · simp only [Operation.advanceProgress] at ho
    split at ho
    · cases ho
    · cases ho; exact .refl
  · simp only [Operation.markDelivered] at ho
    split at ho
    · cases ho; exact .refl
    · cases ho

end Moves

section Runs

variable {c : Config} {it : Item}

theorem Item.step_control (hm : it.memory = some o) (he : e.Timely) :
    ∃ o', (it.step c e).memory = some o' ∧ Control.Steps o.record.control o'.record.control := by
  have hcases := it.step_cases c e
  generalize it.step c e = it' at hcases
  cases hcases with
  | same | flushed | dropped => exact ⟨o, hm, .refl⟩
  | moved ht ho ho' hcommit =>
    rw [hm] at ho
    cases ho
    cases hcommit with
    | done => exact ⟨_, rfl, Event.transition_control he ht ho'⟩
    | failed | replaced => exact ⟨o, hm, .refl⟩
  | @wrote payload x _ hx =>
    rw [hm] at hx
    cases hx
    obtain ⟨tail, truncated, heq⟩ := writeOutput_eq c.outputTailBytes o.record payload
    exact ⟨_, rfl, by rw [heq]; exact .refl⟩
  | restarted heq => exact absurd heq (he.1 _ _ _)

theorem Item.run_control {events : List Event} (hev : ∀ e ∈ events, e.Timely) :
    ∀ {it : Item} {o : Op}, it.memory = some o →
      ∃ o', (it.run c events).memory = some o' ∧
        Control.Steps o.record.control o'.record.control := by
  induction events with
  | nil => intro it o hm; exact ⟨o, hm, .refl⟩
  | cons e events ih =>
    intro it o hm
    obtain ⟨o₁, hm₁, hfirst⟩ := Item.step_control (c := c) hm (hev e List.mem_cons_self)
    obtain ⟨o', hm', hrest⟩ := ih (fun e he => hev e (List.mem_cons_of_mem _ he)) hm₁
    exact ⟨o', hm', hfirst.trans hrest⟩

end Runs

/-! ## The answers of the calls -/

/-- The answer of `CancelWithError`; a write that fails turns an acceptance into NOT_FOUND, with
an error. -/
def Item.cancelAnswer (it : Item) (reason : CancelReason) (now : Time) (fate : Fate) :
    CancelOutcome :=
  match it.memory with
  | none => .notFound
  | some o =>
    match cancelWithError o reason now with
    | (outcome, none) => outcome
    | (outcome, some o') => if (persist fate it.file o'.record).2 then outcome else .notFound

def Item.entersCommit (it : Item) (now : Time) (fate : Fate) : Bool :=
  match it.memory with
  | none => false
  | some o =>
    match enterCommit o now with
    | none => false
    | some o' => (persist fate it.file o'.record).2

/-- One of the six calls that change a record, and how its write to the journal ends. -/
def Event.call? : Event → Option Fate
  | .transitionStatus _ _ _ _ _ fate | .advancePhase _ _ fate | .enterCommit _ fate
  | .cancel _ _ fate | .reject _ _ _ fate | .advanceProgress _ fate => some fate
  | .writeOutput _ | .flushOutputTail _ | .markDelivered _ | .dropOutput | .restart _ _ _ => none

section Answers

variable {c : Config} {it : Item}

theorem persist_ok {file new : Record} (h : (persist fate file new).2 = true) : fate = .ok := by
  unfold persist at h
  split at h
  · cases fate with
    | ok => rfl
    | failed | replaced => cases h
  · cases h

theorem Item.commit_memory (it : Item) (fate : Fate) (new : Op) :
    (it.commit fate new).memory =
      if (persist fate it.file new.record).2 then some new else it.memory := by
  unfold Item.commit
  generalize persist fate it.file new.record = out
  obtain ⟨file, kept⟩ := out
  cases kept <;> rfl

theorem cancelWithError_barred {out : Option Op} (hnow : now ≠ zeroTime)
    (hmode : o.record.cancelMode = .beforeCommit)
    (h : cancelWithError o reason now = (.accepted, out)) : (out.getD o).record.control.Barred := by
  unfold cancelWithError at h
  split at h
  · cases h
  next hlive =>
  split at h
  · cases h
  split at h
  · cases h
  next hearly =>
  have hphase : o.record.phase = .preparing ∨ o.record.phase = .executing := by
    cases hp : o.record.phase <;> simp [hmode, hp] at hearly ⊢
  have hstatus : o.record.status ≠ .success := by
    intro hs
    rw [hs] at hlive
    exact hlive rfl
  split at h
  · next hrequested =>
    cases h
    exact ⟨hmode, hrequested, hphase, hstatus⟩
  · cases h
    refine ⟨hmode, ?_, hphase, hstatus⟩
    simp [Record.control, not_isZero hnow]

theorem Item.cancel_barred (hm : it.memory = some o) (hnow : now ≠ zeroTime)
    (hmode : o.record.cancelMode = .beforeCommit)
    (h : it.cancelAnswer reason now fate = .accepted) :
    ∃ o', (it.step c (.cancel reason now fate)).memory = some o' ∧ o'.record.control.Barred := by
  simp only [Item.cancelAnswer, hm] at h
  simp only [Item.step, Item.apply, hm]
  generalize hout : cancelWithError o reason now = out at h
  obtain ⟨outcome, new⟩ := out
  cases new with
  | none =>
    cases h
    exact ⟨o, hm, cancelWithError_barred hnow hmode hout⟩
  | some o' =>
    dsimp only at h ⊢
    split at h
    · next hkept =>
      cases h
      exact ⟨o', by rw [Item.commit_memory, if_pos hkept], cancelWithError_barred hnow hmode hout⟩
    · cases h

theorem Item.enterCommit_committed (hnow : now ≠ zeroTime) (h : it.entersCommit now fate = true) :
    ∃ o', (it.step c (.enterCommit now fate)).memory = some o' ∧
      o'.record.control.Committed := by
  unfold Item.entersCommit at h
  cases hm : it.memory with
  | none => simp only [hm, Bool.false_eq_true] at h
  | some o =>
    cases ho : enterCommit o now with
    | none => simp only [hm, ho, Bool.false_eq_true] at h
    | some o' =>
      simp only [hm, ho] at h
      simp only [Item.step, Item.apply, hm, ho]
      exact ⟨o', by rw [Item.commit_memory, if_pos h], (enterCommit_control hnow ho).2⟩

theorem Item.cancelAnswer_committed (hm : it.memory = some o) (h : o.record.control.Committed)
    (reason : CancelReason) (now : Time) (fate : Fate) :
    it.cancelAnswer reason now fate = .tooLate ∨
      it.cancelAnswer reason now fate = .alreadyTerminal := by
  have hmode : o.record.cancelMode = .beforeCommit := h.mode
  have hphase : o.record.phase = .committing ∨ o.record.phase = .finalizing := h.phase
  simp only [Item.cancelAnswer, hm, cancelWithError]
  by_cases hend : o.record.status.terminal = true
  · simp [hend]
  · rcases hphase with hp | hp <;> simp [hend, hmode, hp]

theorem finishLocked_revision (c : Config) (o : Op) (status : Status) (now : Time) :
    (finishLocked c o status now).record.revision = o.record.revision := by
  unfold finishLocked
  split <;> rfl

theorem Event.call_revision (he : e.call? = some fate) :
    ∃ f, e.transition c = some (fate, f) ∧
      ∀ o o', f o = some o' → o'.record.revision = o.record.revision + 1 := by
  cases e <;> simp only [Event.call?, Option.some.injEq, reduceCtorEq] at he <;> subst he <;>
    refine ⟨_, rfl, fun o o' ho => ?_⟩
  · simp only [Operation.transitionStatus] at ho
    split at ho
    · cases ho
      rw [finishLocked_revision]
    · cases ho
  · exact (advancePhase_inner ho).revision
  · exact (enterCommit_inner ho).revision
  · exact (cancelWithError_inner ho).revision
  · simp only [Operation.reject] at ho
    split at ho
    · cases ho
    · cases ho
      rw [finishLocked_revision]
  · exact (advanceProgress_inner ho).revision

theorem Item.call_revision (it : Item) (he : e.call? = some fate) :
    (it.step c e).memory = it.memory ∨
      fate = .ok ∧ ∃ o o', it.memory = some o ∧ (it.step c e).memory = some o' ∧
        o'.record.revision = o.record.revision + 1 := by
  obtain ⟨f, ht, hrev⟩ := Event.call_revision (c := c) he
  rw [Item.step_of_transition ht, Item.apply]
  split
  · exact .inl rfl
  next o hm =>
  split
  · exact .inl rfl
  next o' ho =>
  rw [Item.commit_memory]
  split
  · next hkept => exact .inr ⟨persist_ok hkept, o, o', hm, rfl, hrev o o' ho⟩
  · exact .inl rfl

end Answers

/-- Cancellation and commit exclude each other, for an operation in any state and any calls, output
writes and audit deliveries behind it, whatever becomes of their writes to the journal.

1. Behind an accepted cancel of an operation that can be canceled before its commit, it is never
   committing and never successful.
2. Behind a commit that was entered every cancel is too late or finds the operation at its end, and
   it is never canceled.
3. A call either leaves the operation as it was, and does so whenever its write fails, or makes the
   revision one more.
4. An operation at its end keeps its status. -/
theorem cancel_commit_exclusive (c : Config) {it : Item} {o : Op} (hm : it.memory = some o)
    {events : List Event} (hev : ∀ e ∈ events, e.Timely) :
    (∀ reason now fate, Event.Timely (.cancel reason now fate) →
      o.record.cancelMode = .beforeCommit → it.cancelAnswer reason now fate = .accepted →
      ∃ o', ((it.step c (.cancel reason now fate)).run c events).memory = some o' ∧
        o'.record.phase ≠ .committing ∧ o'.record.status ≠ .success) ∧
    (∀ now fate, Event.Timely (.enterCommit now fate) → it.entersCommit now fate = true →
      let later := (it.step c (.enterCommit now fate)).run c events
      (∀ reason t fate', later.cancelAnswer reason t fate' = .tooLate ∨
        later.cancelAnswer reason t fate' = .alreadyTerminal) ∧
      ∃ o', later.memory = some o' ∧ o'.record.status ≠ .canceled) ∧
    (∀ e fate, e.call? = some fate →
      (fate ≠ .ok → (it.step c e).memory = it.memory) ∧
      ((it.step c e).memory = it.memory ∨
        ∃ o', (it.step c e).memory = some o' ∧
          o'.record.revision = o.record.revision + 1)) ∧
    (o.record.status.terminal = true →
      ∃ o', (it.run c events).memory = some o' ∧ o'.record.status = o.record.status) := by
  refine ⟨?_, ?_, ?_, ?_⟩
  · intro reason now fate hnow hmode haccepted
    obtain ⟨o₁, hm₁, hbarred⟩ := Item.cancel_barred (c := c) hm (hnow.2 now List.mem_cons_self)
      hmode haccepted
    obtain ⟨o', hm', hsteps⟩ := Item.run_control (c := c) hev hm₁
    have hlast := hbarred.steps hsteps
    refine ⟨o', hm', fun hphase => ?_, hlast.status⟩
    rcases hlast.phase with hp | hp
    · exact Phase.noConfusion (hp.symm.trans hphase)
    · exact Phase.noConfusion (hp.symm.trans hphase)
  · intro now fate hnow henters
    obtain ⟨o₁, hm₁, hcommitted⟩ := Item.enterCommit_committed (c := c)
      (hnow.2 now List.mem_cons_self) henters
    obtain ⟨o', hm', hsteps⟩ := Item.run_control (c := c) hev hm₁
    have hlast := hcommitted.steps hsteps
    exact ⟨Item.cancelAnswer_committed hm' hlast, o', hm', hlast.status⟩
  · intro e fate he
    rcases it.call_revision (c := c) he with hsame | ⟨hok, o₁, o', hm₁, hm', hrev⟩
    · exact ⟨fun _ => hsame, .inl hsame⟩
    · rw [hm] at hm₁
      cases hm₁
      exact ⟨fun hne => absurd hok hne, .inr ⟨o', hm', hrev⟩⟩
  · intro hend
    obtain ⟨o', hm', hsteps⟩ := Item.run_control (c := c) hev hm
    exact ⟨o', hm', hsteps.terminal hend⟩

def restartAccepted : Item :=
  let record := newRecord ⟨text "op-1", text "web", text "web-1", .containerRestart, []⟩
    (1767225600 * second)
  ⟨some ⟨record, false⟩, record.journaled, none⟩

theorem canceledRestart_never_commits :
    ∃ o', ((restartAccepted.step ⟨65536, true⟩ (.cancel .user (1767225601 * second) .ok)).run
        ⟨65536, true⟩ [.advancePhase .executing (1767225602 * second) .replaced,
          .enterCommit (1767225603 * second) .ok]).memory = some o' ∧
      o'.record.phase ≠ .committing ∧ o'.record.status ≠ .success := by
  have hm : restartAccepted.memory = some ⟨newRecord ⟨text "op-1", text "web", text "web-1",
    .containerRestart, []⟩ (1767225600 * second), false⟩ := rfl
  refine (cancel_commit_exclusive ⟨65536, true⟩ hm ?_).1 .user (1767225601 * second) .ok ?_ rfl ?_
  · simp [Event.Timely, Event.readings, zeroTime, second]
  · simp [Event.Timely, Event.readings, zeroTime, second]
  · decide +kernel

end DockLattice.Operation
