import DockLattice.Operation.Job

/-!
# DockLattice.Operation.Runner

The goroutine of an operation, from the lock to its last status (`engine.go`, `agentops/service.go`).
It ignores most errors of the calls it makes; a `Script` gives all that is not in its hands.
`settled_iff` says what is left of the operation when the goroutine returns.
-/

namespace DockLattice.Operation

variable {errorText result : Text} {next : Status}

structure CancelRequest where
  reason : CancelReason
  now : Time
  fate : Fate
  deriving DecidableEq, Repr

structure Moment where
  /-- the cancels since the last action: of users, of the timeout, of the shutdown -/
  cancels : List CancelRequest
  now : Time
  finished : Time
  fate : Fate
  errorText : Text
  canceled : Bool
  deriving DecidableEq, Repr

inductive Callback where
  | commit
  | progress
  | output (payload : Text)
  deriving DecidableEq, Repr

structure Script where
  config : Config
  /-- by the number of the action -/
  moments : Nat → Moment
  acquire : Option Text
  admission : Option Text
  callbacks : List Callback
  result : Except Text Text
  refresh : Option Text

structure Goroutine where
  job : Job
  actions : Nat
  last : Option Outcome
  deriving DecidableEq, Repr

namespace Kind

def diskOperation : Kind → Bool
  | discoveryRescan => false
  | _ => true

def requiresTargetedProjectRefresh : Kind → Bool
  | composeUp | composeFileWrite | envWrite | overrideWrite | backupRestore => true
  | _ => false

end Kind

def Callback.givenTo (kind : Kind) : Callback → Bool
  | commit => kind.isFileWriteOperation || kind == .backupRestore
  | progress => kind == .backupRestore
  | output _ => kind.isComposeOperation

def contextCanceled : Text := text "context canceled"

namespace Goroutine

variable (s : Script)

def look (g : Goroutine) : Goroutine × Moment :=
  let m := s.moments g.actions
  ({ g with
      job := m.cancels.foldl (fun j r => (j.cancel r.reason r.now r.fate).1) g.job
      actions := g.actions + 1 }, m)

/-- A call on the operation; what `afterTerminal` does to the lease is part of it. -/
def call (g : Goroutine) (f : Moment → Op → Option Op) : Goroutine × Except Text Unit :=
  let (g, m) := g.look s
  let (job, out) := g.job.call m.fate (f m)
  ({ g with job := job.release, last := some out },
    if out = .done then .ok () else .error m.errorText)

def transitionStatus (g : Goroutine) (next : Status) (result errorText : Text) :=
  g.call s fun m o => Operation.transitionStatus s.config o next result errorText m.now m.finished

def advancePhase (g : Goroutine) (next : Phase) :=
  g.call s fun m o => Operation.advancePhase o next m.now

def enterCommit (g : Goroutine) := g.call s fun m o => Operation.enterCommit o m.now

def advanceProgress (g : Goroutine) := g.call s fun m o => Operation.advanceProgress o m.now

def reject (g : Goroutine) (cause : Text) :=
  g.call s fun m o => Operation.reject s.config o cause m.now m.finished

def writeOutput (g : Goroutine) (payload : Text) : Goroutine :=
  let (g, _) := g.look s
  { g with job :=
    { g.job with op :=
      { g.job.op with record :=
          Operation.writeOutput s.config.outputTailBytes g.job.op.record payload } } }

def callback (g : Goroutine) : Callback → Goroutine
  | .commit => (g.enterCommit s).1
  | .progress => (g.advanceProgress s).1
  | .output payload => g.writeOutput s payload

def finishCanceledOrFailed (g : Goroutine) (runErr : Text) : Goroutine :=
  let (g, m) := g.look s
  if !m.canceled && g.job.op.record.cancelRequestedAt.isZero then
    (g.transitionStatus s .failed [] runErr).1
  else
    let reason := g.job.op.record.cancelReason.getD .user
    let (g, m) := g.look s
    let (job, outcome) := g.job.cancel reason m.now m.fate
    let runErr := if outcome = .notFound then runErr ++ text "\n" ++ m.errorText else runErr
    let g := { g with job := job }
    if outcome = .accepted then (g.transitionStatus s .canceled [] runErr).1
    else (g.transitionStatus s .failed [] runErr).1

/-- `Service.run` behind the executor. The output is flushed at the end, which changes nothing in
memory. -/
def conclude (kind : Kind) (g : Goroutine) : Goroutine :=
  let (g, beforeRefresh) := g.look s
  let runErr : Option Text :=
    match s.result with
    | .error err => some err
    | .ok _ =>
      if !beforeRefresh.canceled && kind.requiresTargetedProjectRefresh then s.refresh else none
  let (g, behind) := g.look s
  match runErr with
  | some err => g.finishCanceledOrFailed s err
  | none =>
    if behind.canceled && g.job.op.record.phase != .committing then
      g.finishCanceledOrFailed s contextCanceled
    else
      match g.advancePhase s .finalizing with
      | (g, .error err) => (g.transitionStatus s .failed [] err).1
      | (g, .ok ()) =>
        let result :=
          if kind.isContainerOperation || kind == .discoveryRescan then []
          else s.result.toOption.getD []
        (g.transitionStatus s .success result []).1

def execute (kind : Kind) (g : Goroutine) : Goroutine :=
  if kind.isContainerOperation then
    match g.enterCommit s with
    | (g, .error err) => g.finishCanceledOrFailed s err
    | (g, .ok ()) => g.conclude s kind
  else
    ((s.callbacks.filter (Callback.givenTo kind)).foldl (callback s) g).conclude s kind

def run (kind : Kind) (g : Goroutine) : Goroutine :=
  match if kind.diskOperation then s.admission else none with
  | some err => (g.reject s err).1
  | none =>
    match g.transitionStatus s .running [] [] with
    | (g, .error _) => g
    | (g, .ok ()) =>
      match g.advancePhase s .executing with
      | (g, .error err) => (g.transitionStatus s .failed [] err).1
      | (g, .ok ()) => g.execute s kind

def dispatch (kind : Kind) (g : Goroutine) : Goroutine :=
  match g.transitionStatus s .dispatched [] [] with
  | (g, .error err) => (g.reject s err).1
  | (g, .ok ()) => g.run s kind

def start (kind : Kind) (g : Goroutine) : Goroutine :=
  if kind.requiresProjectLock then
    let (g, _) := g.look s
    match s.acquire with
    | some err =>
      if !g.job.op.record.cancelRequestedAt.isZero then
        (g.transitionStatus s .canceled [] err).1
      else (g.reject s err).1
    | none => { g with job := g.job.attachLease.release }.dispatch s kind
  else g.dispatch s kind

end Goroutine

def Script.goroutine (s : Script) (spec : Spec) (now : Time) : Goroutine :=
  Goroutine.start s spec.kind ⟨Job.accepted spec now, 0, none⟩

namespace Goroutine

def Settled (g : Goroutine) : Prop := g.job.terminal = true ∧ g.job.lease.outstanding = false

instance (g : Goroutine) : Decidable g.Settled := by
  unfold Settled
  infer_instance

/-! ## The calls -/

/-- The operation is live in the given status, and the goroutine owns its lease, if it has one. -/
structure Live (st : Status) (g : Goroutine) : Prop where
  status : g.job.op.record.status = st
  live : st.terminal = false
  noted : g.job.op.Noted
  lease : g.job.lease = .absent ∨ g.job.lease = .attached

def Ended (g : Goroutine) : Prop :=
  (g.last = some .done ∧ g.Settled) ∨ (g.last = some .unsaved ∧ g.job.terminal = false)

theorem Ended.settled_iff {g : Goroutine} (h : g.Ended) : g.Settled ↔ g.last ≠ some .unsaved := by
  rcases h with ⟨hlast, hsettled⟩ | ⟨hlast, hlive⟩
  · simp [hlast, hsettled]
  · simp [hlast, Settled, hlive]

end Goroutine

/-! ## Steps that leave the operation live -/

/-- The operation keeps its status and phase, its note of the end and its lease, and a cancel request
stays. -/
structure Job.Keeps (j j' : Job) : Prop where
  status : j'.op.record.status = j.op.record.status
  phase : j'.op.record.phase = j.op.record.phase
  notified : j'.op.terminalNotified = j.op.terminalNotified
  lease : j'.lease = j.lease
  requested : j.op.record.cancelRequestedAt.isZero = false →
    j'.op.record.cancelRequestedAt.isZero = false

theorem Job.Keeps.refl (j : Job) : j.Keeps j := ⟨rfl, rfl, rfl, rfl, id⟩

theorem Job.Keeps.trans {j₁ j₂ j₃ : Job} (h : j₁.Keeps j₂) (h' : j₂.Keeps j₃) : j₁.Keeps j₃ :=
  ⟨h'.status.trans h.status, h'.phase.trans h.phase, h'.notified.trans h.notified,
    h'.lease.trans h.lease, fun hr => h'.requested (h.requested hr)⟩

theorem Job.commit_keeps {j : Job} {new : Op} (fate : Fate)
    (hstatus : new.record.status = j.op.record.status)
    (hphase : new.record.phase = j.op.record.phase)
    (hnotified : new.terminalNotified = j.op.terminalNotified)
    (hrequested : new.record.storable = true → j.op.record.cancelRequestedAt.isZero = false →
      new.record.cancelRequestedAt.isZero = false) : j.Keeps (j.commit fate new).1 := by
  rcases j.commit_cases fate new with ⟨hs, -, hnew⟩ | ⟨-, hsame⟩
  · rw [hnew]
    refine ⟨hstatus, hphase, hnotified, ?_, hrequested hs⟩
    simp only [hnotified, Bool.and_not_self]
    rfl
  · rw [hsame]
    exact .refl j

theorem lastProgressAt_ne_zero {r : Record} (h : r.storable = true) :
    r.lastProgressAt.isZero = false := by
  simp only [Record.storable, validateRecord, Bool.and_eq_true, Bool.not_eq_true'] at h
  tauto

theorem cancelWithError_cases (o : Op) (reason : CancelReason) (now : Time) :
    (∃ answer, cancelWithError o reason now = (answer, none) ∧
      (answer = .accepted → o.record.cancelRequestedAt.isZero = false)) ∨
    ∃ new, cancelWithError o reason now = (.accepted, some new) ∧
      new.record.status = o.record.status ∧ new.record.phase = o.record.phase ∧
      new.terminalNotified = o.terminalNotified ∧
      (new.record.storable = true → new.record.cancelRequestedAt.isZero = false) := by
  unfold cancelWithError
  split
  · exact .inl ⟨_, rfl, fun h => by cases h⟩
  split
  · exact .inl ⟨_, rfl, fun h => by cases h⟩
  split
  · exact .inl ⟨_, rfl, fun h => by cases h⟩
  split
  · next hr => exact .inl ⟨_, rfl, fun _ => by simpa using hr⟩
  -- the record is saved only under a clock reading that is not the zero time
  · exact .inr ⟨_, rfl, rfl, rfl, rfl, fun hs => lastProgressAt_ne_zero hs⟩

theorem Job.cancel_keeps (j : Job) (reason : CancelReason) (now : Time) (fate : Fate) :
    j.Keeps (j.cancel reason now fate).1 ∧
      ((j.cancel reason now fate).2 = .accepted →
        (j.cancel reason now fate).1.op.record.cancelRequestedAt.isZero = false) := by
  unfold cancel
  rcases cancelWithError_cases j.op reason now with
    ⟨answer, heq, hbefore⟩ | ⟨new, heq, hstatus, hphase, hnotified, hrequested⟩
  · rw [heq]
    exact ⟨.refl j, hbefore⟩
  simp only [heq]
  have hkeeps := Job.commit_keeps fate hstatus hphase hnotified fun hs _ => hrequested hs
  rcases j.commit_cases fate new with ⟨hs, -, hnew⟩ | ⟨-, hsame⟩
  · rw [hnew] at hkeeps ⊢
    exact ⟨hkeeps, fun _ => hrequested hs⟩
  · rw [hsame]
    exact ⟨.refl j, fun h => by cases h⟩

theorem Job.cancels_keeps (requests : List CancelRequest) (j : Job) :
    j.Keeps (requests.foldl (fun j r => (j.cancel r.reason r.now r.fate).1) j) := by
  induction requests generalizing j with
  | nil => exact .refl j
  | cons r requests ih => exact (j.cancel_keeps r.reason r.now r.fate).1.trans (ih _)

namespace Goroutine

variable {s : Script} {st : Status} {g : Goroutine}

theorem Live.keeps (h : g.Live st) {j : Job} (hk : g.job.Keeps j) (actions : Nat)
    (last : Option Outcome) : Live st ⟨j, actions, last⟩ := by
  refine ⟨hk.status.trans h.status, h.live, ?_, ?_⟩
  · unfold Op.Noted
    rw [hk.notified, hk.status]
    exact h.noted
  · rw [hk.lease]
    exact h.lease

theorem Live.look (h : g.Live st) : (g.look s).1.Live st :=
  h.keeps (Job.cancels_keeps _ _) _ _

theorem release_of_live (h : g.Live st) : g.job.release = g.job := by
  unfold Job.release
  rcases h.lease with hl | hl <;> rw [hl, if_neg (by simp)]

theorem call_cases (s : Script) (g : Goroutine) (f : Moment → Op → Option Op) :
    let g₁ := (g.look s).1
    let m := (g.look s).2
    (f m g₁.job.op = none ∧
      g.call s f = (⟨g₁.job.release, g₁.actions, some .illegal⟩, .error m.errorText)) ∨
    ∃ new, f m g₁.job.op = some new ∧
      ((new.record.storable = true ∧ g.call s f =
        (⟨Job.release ⟨new, if new.terminalNotified && !g₁.job.op.terminalNotified then
            g₁.job.lease.take else g₁.job.lease⟩, g₁.actions, some .done⟩, .ok ())) ∨
      g.call s f = (⟨g₁.job.release, g₁.actions, some .unsaved⟩, .error m.errorText)) := by
  intro g₁ m
  have hcall : g.call s f =
      (⟨(g₁.job.call m.fate (f m)).1.release, g₁.actions, some (g₁.job.call m.fate (f m)).2⟩,
        if (g₁.job.call m.fate (f m)).2 = .done then .ok () else .error m.errorText) := rfl
  rw [hcall]
  cases hf : f m g₁.job.op with
  | none =>
    have hjob : g₁.job.call m.fate (f m) = (g₁.job, .illegal) := by
      unfold Job.call
      rw [hf]
    rw [hjob]
    exact .inl ⟨rfl, rfl⟩
  | some new =>
    have hjob : g₁.job.call m.fate (f m) = g₁.job.commit m.fate new := by
      unfold Job.call
      rw [hf]
    rw [hjob]
    refine .inr ⟨new, rfl, ?_⟩
    rcases g₁.job.commit_cases m.fate new with ⟨hs, -, hnew⟩ | ⟨-, hsame⟩
    · rw [hnew]
      exact .inl ⟨hs, rfl⟩
    · rw [hsame]
      exact .inr rfl

def Within (f : Moment → Op → Option Op) : Prop :=
  ∀ m o o', f m o = some o' → o'.record.status = o.record.status ∧
    o'.terminalNotified = o.terminalNotified

theorem Live.call (h : g.Live st) {f : Moment → Op → Option Op} (hf : Within f) :
    (g.call s f).1.Live st := by
  have h₁ := h.look (s := s)
  rcases call_cases s g f with ⟨-, heq⟩ | ⟨new, hnew, ⟨-, heq⟩ | heq⟩
  · rw [heq, release_of_live h₁]
    exact { h₁ with }
  · obtain ⟨hstatus, hnotified⟩ := hf _ _ _ hnew
    have hlive : Live st ⟨⟨new, (g.look s).1.job.lease⟩, (g.look s).1.actions, some .done⟩ := by
      refine ⟨hstatus.trans h₁.status, h₁.live, ?_, h₁.lease⟩
      unfold Op.Noted
      rw [hnotified, hstatus]
      exact h₁.noted
    rw [heq]
    simp only [hnotified, Bool.and_not_self]
    have hrelease := release_of_live hlive
    simp only [] at hrelease
    rw [if_neg (by simp), hrelease]
    exact hlive
  · rw [heq, release_of_live h₁]
    exact { h₁ with }

theorem advancePhase_within (next : Phase) :
    Within fun m o => Operation.advancePhase o next m.now :=
  fun _ _ _ h => ⟨(advancePhase_inner h).status, (advancePhase_inner h).notified⟩

theorem enterCommit_within : Within fun m o => Operation.enterCommit o m.now :=
  fun _ _ _ h => ⟨(enterCommit_inner h).status, (enterCommit_inner h).notified⟩

theorem advanceProgress_within : Within fun m o => Operation.advanceProgress o m.now :=
  fun _ _ _ h => ⟨(advanceProgress_inner h).status, (advanceProgress_inner h).notified⟩

theorem Live.callback (h : g.Live st) (cb : Callback) : (g.callback s cb).Live st := by
  cases cb with
  | commit => exact h.call enterCommit_within
  | progress => exact h.call advanceProgress_within
  | output payload =>
    have h₁ := h.look (s := s)
    obtain ⟨tail, truncated, heq⟩ :=
      writeOutput_eq s.config.outputTailBytes (g.look s).1.job.op.record payload
    have hout : g.callback s (.output payload) =
        { (g.look s).1 with job :=
          { (g.look s).1.job with op :=
            { (g.look s).1.job.op with record :=
              { (g.look s).1.job.op.record with
                outputTail := tail, outputTruncated := truncated } } } } := by
      rw [← heq]
      rfl
    rw [hout]
    exact { h₁ with }

theorem Live.callbacks (callbacks : List Callback) (h : g.Live st) :
    (callbacks.foldl (Goroutine.callback s) g).Live st :=
  List.foldlRecOn (motive := Live st) callbacks _ h fun _ hg cb _ => hg.callback cb

/-! ## The status changes -/

theorem transitionStatus_status {c : Config} {o o' : Op} {now finished : Time}
    (h : Operation.transitionStatus c o next result errorText now finished = some o') :
    o'.record.status = next := by
  unfold Operation.transitionStatus at h
  split at h
  · cases h
    exact finishLocked_status _ _ _ _
  · cases h

theorem transitionStatus_of_allowed {c : Config} {o : Op} {now finished : Time}
    (h : transitionAllowed o.record next = true) :
    Operation.transitionStatus c o next result errorText now finished ≠ none := by
  unfold Operation.transitionStatus
  rw [if_pos h]
  simp

theorem Live.transition (h : g.Live st) (next : Status) (hnext : next.terminal = false)
    (hlegal : legalStatusTransition st next = true) :
    ((g.transitionStatus s next [] []).2 = .ok () ∧
        (g.transitionStatus s next [] []).1.Live next) ∨
      (∃ err, (g.transitionStatus s next [] []).2 = .error err) ∧
        (g.transitionStatus s next [] []).1.last = some .unsaved ∧
        (g.transitionStatus s next [] []).1.Live st := by
  have h₁ := h.look (s := s)
  have hallowed : transitionAllowed (g.look s).1.job.op.record next = true := by
    unfold transitionAllowed
    rw [h₁.status, hlegal]
    cases next <;> first | rfl | cases hnext
  rcases call_cases s g fun m o =>
      Operation.transitionStatus s.config o next [] [] m.now m.finished with
    ⟨hnone, -⟩ | ⟨new, hnew, ⟨-, heq⟩ | heq⟩
  · exact absurd hnone (transitionStatus_of_allowed hallowed)
  · left
    have hstatus := transitionStatus_status hnew
    have hnoted := (transitionStatus_moves h₁.noted hnew).noted
    have hnot : new.terminalNotified = false := by
      rw [hnoted, hstatus]
      exact hnext
    have hlive : Live next ⟨⟨new, (g.look s).1.job.lease⟩, (g.look s).1.actions, some .done⟩ :=
      ⟨hstatus, hnext, hnoted, h₁.lease⟩
    rw [Goroutine.transitionStatus, heq]
    simp only [hnot, Bool.false_and, Bool.false_eq_true, if_false]
    refine ⟨trivial, ?_⟩
    rw [release_of_live hlive]
    exact hlive
  · right
    rw [Goroutine.transitionStatus, heq, release_of_live h₁]
    exact ⟨⟨_, rfl⟩, rfl, h₁.status, h₁.live, h₁.noted, h₁.lease⟩

theorem Live.ends (h : g.Live st) {f : Moment → Op → Option Op}
    (hf : ∃ new, f (g.look s).2 (g.look s).1.job.op = some new ∧ new.Noted ∧
      new.record.status.terminal = true) : (g.call s f).1.Ended := by
  have h₁ := h.look (s := s)
  have hlive : (g.look s).1.job.terminal = false := by
    unfold Job.terminal
    rw [h₁.status]
    exact h₁.live
  obtain ⟨new, hnew, hnoted, hend⟩ := hf
  rcases call_cases s g f with ⟨hnone, -⟩ | ⟨new', hnew', hcall⟩
  · rw [hnone] at hnew
    cases hnew
  rw [hnew] at hnew'
  cases hnew'
  rcases hcall with ⟨-, heq⟩ | heq
  · left
    rw [heq]
    have hbefore : (g.look s).1.job.op.terminalNotified = false := h₁.noted.trans hlive
    have hafter : new.terminalNotified = true := hnoted.trans hend
    simp only [hbefore, hafter, Bool.not_false, Bool.and_true, if_true]
    refine ⟨trivial, ?_⟩
    rcases h₁.lease with hl | hl <;> rw [hl] <;> exact ⟨hend, rfl⟩
  · right
    rw [heq, release_of_live h₁]
    exact ⟨rfl, hlive⟩

theorem Live.transition_ends (h : g.Live st) (hnext : next.terminal = true)
    (hallowed : transitionAllowed (g.look s).1.job.op.record next) :
    (g.transitionStatus s next result errorText).1.Ended := by
  have h₁ := h.look (s := s)
  refine h.ends ?_
  cases hnew : Operation.transitionStatus s.config (g.look s).1.job.op next result errorText
      (g.look s).2.now (g.look s).2.finished with
  | none => exact absurd hnew (transitionStatus_of_allowed hallowed)
  | some new =>
    refine ⟨new, rfl, (transitionStatus_moves h₁.noted hnew).noted, ?_⟩
    rw [transitionStatus_status hnew]
    exact hnext

theorem Live.failed_ends (h : g.Live .running) :
    (g.transitionStatus s .failed [] errorText).1.Ended := by
  refine h.transition_ends rfl ?_
  have h₁ := h.look (s := s)
  simp [transitionAllowed, h₁.status, legalStatusTransition]

theorem Live.canceled_ends (h : g.Live st) (hst : legalStatusTransition st .canceled = true)
    (hrequested : g.job.op.record.cancelRequestedAt.isZero = false) :
    (g.transitionStatus s .canceled [] errorText).1.Ended := by
  refine h.transition_ends rfl ?_
  have h₁ := h.look (s := s)
  have hlooked : (g.look s).1.job.op.record.cancelRequestedAt.isZero = false :=
    (Job.cancels_keeps _ _).requested hrequested
  simp [transitionAllowed, h₁.status, hst, hlooked]

theorem Live.reject_ends {cause : Text} (h : g.Live st) : (g.reject s cause).1.Ended := by
  have h₁ := h.look (s := s)
  refine h.ends ?_
  cases hnew : Operation.reject s.config (g.look s).1.job.op cause
      (g.look s).2.now (g.look s).2.finished with
  | none =>
    unfold Operation.reject at hnew
    rw [h₁.status, h₁.live] at hnew
    cases hnew
  | some new =>
    refine ⟨new, rfl, (reject_moves h₁.noted hnew).noted, ?_⟩
    unfold Operation.reject at hnew
    rw [h₁.status, h₁.live] at hnew
    cases hnew
    rw [finishLocked_status]
    rfl

/-! ## The goroutine -/

theorem Live.finish_ends (h : g.Live .running) (runErr : Text) :
    (g.finishCanceledOrFailed s runErr).Ended := by
  have h₁ := h.look (s := s)
  have h₂ := h₁.look (s := s)
  unfold finishCanceledOrFailed
  simp only
  split
  · exact h₁.failed_ends
  -- the cancel is accepted, or the run has failed
  have hcancel := (((g.look s).1.look s).1.job.cancel_keeps
    ((g.look s).1.job.op.record.cancelReason.getD .user) ((g.look s).1.look s).2.now
    ((g.look s).1.look s).2.fate)
  split
  · next haccepted =>
    exact (h₂.keeps hcancel.1 _ _).canceled_ends rfl (hcancel.2 haccepted)
  · exact (h₂.keeps hcancel.1 _ _).failed_ends

theorem advancePhase_phase (g : Goroutine) (next : Phase) (h : (g.advancePhase s next).2 = .ok ()) :
    (g.advancePhase s next).1.job.op.record.phase = next := by
  rcases call_cases s g fun m o => Operation.advancePhase o next m.now with
    ⟨-, heq⟩ | ⟨new, hnew, ⟨-, heq⟩ | heq⟩
  · rw [Goroutine.advancePhase, heq] at h
    cases h
  · rw [Goroutine.advancePhase, heq]
    have hphase : new.record.phase = next := by
      simp only [Operation.advancePhase] at hnew
      split at hnew
      · cases hnew
      split at hnew
      · cases hnew
        rfl
      · cases hnew
    rw [Job.release_op]
    exact hphase
  · rw [Goroutine.advancePhase, heq] at h
    cases h

theorem Live.success_ends (h : g.Live .running) (hphase : g.job.op.record.phase = .finalizing) :
    (g.transitionStatus s .success result []).1.Ended := by
  refine h.transition_ends rfl ?_
  have h₁ := h.look (s := s)
  have hlook : (g.look s).1.job.op.record.phase = .finalizing :=
    (Job.cancels_keeps _ _).phase.trans hphase
  simp [transitionAllowed, h₁.status, hlook, legalStatusTransition]

theorem Live.conclude_ends (h : g.Live .running) (kind : Kind) : (g.conclude s kind).Ended := by
  have h₂ := (h.look (s := s)).look (s := s)
  unfold conclude
  simp only
  split
  · exact h₂.finish_ends _
  split
  · exact h₂.finish_ends _
  -- nothing failed: the phase is advanced, and then the status
  have hadvance := h₂.call (s := s) (advancePhase_within .finalizing)
  have hphase := advancePhase_phase (s := s) ((g.look s).1.look s).1 .finalizing
  simp only [Goroutine.advancePhase] at hphase ⊢
  generalize Goroutine.call s ((g.look s).1.look s).1
    (fun m o => Operation.advancePhase o .finalizing m.now) = out at hadvance hphase ⊢
  obtain ⟨g', err | done⟩ := out
  · exact hadvance.failed_ends
  · exact hadvance.success_ends (hphase rfl)

theorem Live.execute_ends (h : g.Live .running) (kind : Kind) : (g.execute s kind).Ended := by
  unfold execute
  split
  · have henter := h.call (s := s) enterCommit_within
    simp only [Goroutine.enterCommit]
    generalize Goroutine.call s g (fun m o => Operation.enterCommit o m.now) = out at henter ⊢
    obtain ⟨g', err | done⟩ := out
    · exact henter.finish_ends err
    · exact henter.conclude_ends kind
  · exact (h.callbacks _).conclude_ends kind

theorem Live.run_ends (h : g.Live .dispatched) (kind : Kind) : (g.run s kind).Ended := by
  unfold run
  split
  · exact h.reject_ends
  have hrunning := h.transition (s := s) .running rfl rfl
  generalize g.transitionStatus s .running [] [] = out at hrunning ⊢
  obtain ⟨g₁, err | done⟩ := out
  · rcases hrunning with ⟨hok, -⟩ | ⟨-, hlast, hlive⟩
    · cases hok
    refine .inr ⟨hlast, ?_⟩
    unfold Job.terminal
    rw [hlive.status]
    rfl
  rcases hrunning with ⟨-, hlive⟩ | ⟨⟨err, herr⟩, -⟩
  · have hadvance := hlive.call (s := s) (advancePhase_within .executing)
    simp only [Goroutine.advancePhase] at hadvance ⊢
    generalize Goroutine.call s g₁ (fun m o => Operation.advancePhase o .executing m.now) = out
      at hadvance ⊢
    obtain ⟨g₂, err | done⟩ := out
    · exact hadvance.failed_ends
    · exact hadvance.execute_ends kind
  · cases herr

theorem Live.dispatch_ends (h : g.Live .requested) (kind : Kind) : (g.dispatch s kind).Ended := by
  unfold dispatch
  have hdispatched := h.transition (s := s) .dispatched rfl rfl
  generalize g.transitionStatus s .dispatched [] [] = out at hdispatched ⊢
  obtain ⟨g₁, err | done⟩ := out
  · rcases hdispatched with ⟨hok, -⟩ | ⟨-, -, hlive⟩
    · cases hok
    · exact hlive.reject_ends
  · rcases hdispatched with ⟨-, hlive⟩ | ⟨⟨err, herr⟩, -⟩
    · exact hlive.run_ends kind
    · cases herr

theorem Live.attach (h : g.Live st) : Live st { g with job := g.job.attachLease.release } := by
  have hlive : g.job.terminal = false := by
    unfold Job.terminal
    rw [h.status]
    exact h.live
  have hattach : g.job.attachLease.release = { g.job with lease := .attached } := by
    unfold Job.attachLease
    rw [hlive]
    rfl
  rw [hattach]
  exact ⟨h.status, h.live, h.noted, .inr rfl⟩

theorem Live.start_ends (h : g.Live .requested) (kind : Kind) : (g.start s kind).Ended := by
  have h₁ := h.look (s := s)
  unfold start
  split
  · simp only
    split
    · split
      · next hrequested => exact h₁.canceled_ends rfl (by simpa using hrequested)
      · exact h₁.reject_ends
    · exact h₁.attach.dispatch_ends kind
  · exact h.dispatch_ends kind

end Goroutine

/-- When the goroutine of an operation has ended, the operation is terminal and its lease released
exactly if the last save that the goroutine tried did not fail: whatever the kind, the answers of
the lock, the disk budget and the executor, the cancels in between, and the saves that failed before.

The goroutine never comes back to a status it could not save. -/
theorem goroutine_settled_iff (s : Script) (spec : Spec) (now : Time) :
    (s.goroutine spec now).Settled ↔ (s.goroutine spec now).last ≠ some .unsaved := by
  have hlive : Goroutine.Live .requested ⟨Job.accepted spec now, 0, none⟩ :=
    ⟨rfl, rfl, rfl, .inl rfl⟩
  exact (hlive.start_ends spec.kind).settled_iff

/-- The start of a container in which every save succeeds but that of the status `running`, the
second one (the first action is `Acquire`). -/
def lostRunning : Script where
  config := ⟨65536, true⟩
  moments := fun n =>
    { cancels := []
      now := (1767225600 + n) * second
      finished := (1767225600 + n) * second
      fate := if n = 2 then .failed else .ok
      errorText := text "no space left on device"
      canceled := false }
  acquire := none
  admission := none
  callbacks := []
  result := .ok []
  refresh := none

/-- One failed save, and the project stays locked by an operation that nothing executes. -/
theorem lostRunning_locks :
    (lostRunning.goroutine ⟨text "op-1", text "web", text "web-1", .containerStart, []⟩
      (1767225599 * second)).job.op.record.status = .dispatched ∧
    (lostRunning.goroutine ⟨text "op-1", text "web", text "web-1", .containerStart, []⟩
      (1767225599 * second)).job.lease = .attached ∧
    ¬ (lostRunning.goroutine ⟨text "op-1", text "web", text "web-1", .containerStart, []⟩
      (1767225599 * second)).Settled := by
  decide +kernel

end DockLattice.Operation
