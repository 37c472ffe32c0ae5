import DockLattice.Operation.System

/-!
# DockLattice.Operation.Locks

Who holds the lock of a project. One invariant of the operation (`Object.Sound`) says where its lease
can be at each stage of its goroutine; one of the engine (`Engine.Locked`) that the locks held are
those of the leases that are outstanding, no two of one project.

An operation keeps its lock until behind the record that makes it terminal: `Engine.Stale` is the
time between the two.
-/

namespace DockLattice.Operation

open List Object

variable {b : Boot} {c : EngineConfig} {e : Engine} {f : Op → Option Op} {fate : Fate}
  {finished now : Time} {i : Nat} {journal : Table Text Record} {key : Text} {o o' : Object}
  {objects : List Object}

/-! ## One operation -/

namespace Lease

variable {l : Lease}

@[simp] theorem take_eq_absent : l.take = .absent ↔ l = .absent := by cases l <;> simp [take]

@[simp] theorem take_eq_inHand : l.take = .inHand ↔ l = .inHand := by cases l <;> simp [take]

@[simp] theorem take_eq_released : l.take = .released ↔ l = .released := by cases l <;> simp [take]

@[simp] theorem take_ne_attached : l.take ≠ .attached := by cases l <;> simp [take]

@[simp] theorem take_eq_leaving : l.take = .leaving ↔ l = .attached ∨ l = .leaving := by
  cases l <;> simp [take]

end Lease

/-- Where the lease of an operation can be, and what has happened to the operation. -/
structure Object.Sound (o : Object) : Prop where
  noted : o.job.op.Noted
  early : o.stage = .waiting ∨ o.stage = .blocked ∨ o.stage = .refused → o.job.lease = .absent
  inHand : o.job.lease = .inHand ↔ o.stage = .granted
  late : o.stage = .late → o.job.lease = .leaving ∧ ∀ finished, o.after ≠ .release true finished
  attached : o.job.lease = .attached → o.terminal = false
  gone : o.job.lease = .leaving ∨ o.job.lease = .released → o.terminal = true
  going : o.job.lease = .leaving → o.stage = .late ∨ ∃ finished, o.after = .release true finished
  carried : ∀ finished, o.after = .release true finished → o.job.lease = .leaving
  granted : o.events.count .granted = if o.job.lease = .absent then 0 else 1
  released : o.events.count .released = if o.job.lease = .released then 1 else 0
  refused : .refused ∈ o.events → o.stage = .refused ∨ o.stage = .ended
  executed : .started ∈ o.events ∨ .created ∈ o.events →
    .refused ∉ o.events ∧ (o.stage = .invoked ∨ o.stage = .created ∨ o.stage = .ended)
  named : o.stage = .waiting ∨ o.stage = .blocked →
    o.spec.projectKey ≠ [] ∧ o.spec.operationId ≠ []

def Object.Holds (o : Object) (key : Text) : Prop :=
  o.spec.projectKey = key ∧ o.job.lease.outstanding = true

namespace Object

def Transition (f : Op → Option Op) : Prop := ∀ op op', op.Noted → f op = some op' → op.Moves op'

theorem transition_of_event {c : Config} {e : Event} (h : e.transition c = some (fate, f)) :
    Transition f :=
  fun _ _ hn ho => Event.transition_moves h hn ho

theorem call_cases (o : Object) (fate : Fate) (f : Op → Option Op) :
    (∃ out, out ≠ .done ∧ o.call fate f = (o, out, [])) ∨
    ∃ new, f o.job.op = some new ∧ new.record.storable = true ∧ fate = .ok ∧
      ((new.terminalNotified = true ∧ o.job.op.terminalNotified = false ∧
          o.call fate f = ({ o with
            job := ⟨new, o.job.lease.take⟩
            after := .release (o.job.lease == .attached) new.record.finishedAt },
            .done, [.save new.record])) ∨
        ((new.terminalNotified = false ∨ o.job.op.terminalNotified = true) ∧
          o.call fate f = ({ o with job := ⟨new, o.job.lease⟩ }, .done, [.save new.record]))) := by
  unfold call Job.call
  cases hf : f o.job.op with
  | none =>
    refine .inl ⟨.illegal, by simp, ?_⟩
    simp
  | some new =>
    simp only
    rcases o.job.commit_cases fate new with ⟨hs, hok, hnew⟩ | ⟨-, hsame⟩
    · refine .inr ⟨new, rfl, hs, hok, ?_⟩
      rw [hnew]
      cases hn : new.terminalNotified <;> cases ho : o.job.op.terminalNotified <;> simp
    · refine .inl ⟨.unsaved, by simp, ?_⟩
      rw [hsame]
      simp

theorem Sound.ending (h : o.Sound) (hlive : o.terminal = false) {new : Op} (hnoted : new.Noted)
    (hend : new.record.status.terminal = true) (hspec : new.record.spec = o.job.op.record.spec) :
    Sound { o with
      job := ⟨new, o.job.lease.take⟩
      after := .release (o.job.lease == .attached) finished } := by
  refine ⟨hnoted, ?_, ?_, ?_, ?_, fun _ => hend, ?_, ?_, ?_, ?_, h.refused, h.executed, ?_⟩
  · simpa using h.early
  · simpa using h.inHand
  · intro hs
    simp [(h.late hs).1]
  · simp
  · intro hl
    rcases Lease.take_eq_leaving.mp hl with hl | hl
    · exact .inr ⟨finished, by simp [hl]⟩
    · rw [h.gone (.inl hl)] at hlive
      cases hlive
  · simp +contextual
  · simpa using h.granted
  · simpa using h.released
  · simpa [spec, hspec] using h.named

theorem Sound.goingOn (h : o.Sound) {new : Op} (hnoted : new.Noted)
    (hterminal : new.record.status.terminal = o.terminal)
    (hspec : new.record.spec = o.job.op.record.spec) :
    Sound { o with job := ⟨new, o.job.lease⟩ } := by
  have hterminal' : terminal { o with job := ⟨new, o.job.lease⟩ } = o.terminal := hterminal
  have hspec' : spec { o with job := ⟨new, o.job.lease⟩ } = o.spec := hspec
  refine { h with noted := hnoted, attached := ?_, gone := ?_, named := ?_ }
  · rw [hterminal']
    exact h.attached
  · rw [hterminal']
    exact h.gone
  · rw [hspec']
    exact h.named

theorem call_sound (h : o.Sound) (fate : Fate) (hf : Transition f) : (o.call fate f).1.Sound := by
  rcases o.call_cases fate f with ⟨out, -, heq⟩ | ⟨new, hnew, -, -, hcase⟩
  · rw [heq]
    exact h
  have hmoves := hf _ _ h.noted hnew
  rcases hcase with ⟨hafter, hbefore, heq⟩ | ⟨hsame, heq⟩
  · rw [heq]
    exact h.ending (h.noted.symm.trans hbefore) hmoves.noted (hmoves.noted.symm.trans hafter)
      hmoves.spec
  rw [heq]
  refine h.goingOn hmoves.noted ?_ hmoves.spec
  rcases hsame with hlive | hdone
  · -- it was live before, too: a terminal status stays
    cases ht : o.terminal with
    | false => exact hmoves.noted.symm.trans hlive
    | true =>
      rw [hmoves.terminal ht]
      exact ht
  · have ht : o.terminal = true := h.noted.symm.trans hdone
    rw [hmoves.terminal ht]
    rfl

theorem call_frame (o : Object) (fate : Fate) (hf : Transition f) (hn : o.job.op.Noted) :
    (o.call fate f).1.stage = o.stage ∧ (o.call fate f).1.spec = o.spec ∧
      (o.call fate f).1.job.lease.outstanding = o.job.lease.outstanding ∧
      (o.call fate f).1.events = o.events ∧ (o.call fate f).1.runner = o.runner ∧
      (o.call fate f).1.shared = o.shared := by
  rcases o.call_cases fate f with ⟨out, -, heq⟩ | ⟨new, hnew, -, -, hcase⟩
  · rw [heq]
    exact ⟨rfl, rfl, rfl, rfl, rfl, rfl⟩
  have hspec := (hf _ _ hn hnew).spec
  rcases hcase with ⟨-, -, heq⟩ | ⟨-, heq⟩
  · rw [heq]
    refine ⟨rfl, hspec, ?_, rfl, rfl, rfl⟩
    cases hl : o.job.lease <;> simp [Lease.take, Lease.outstanding]
  · rw [heq]
    exact ⟨rfl, hspec, rfl, rfl, rfl, rfl⟩

/-! ## The actions of a goroutine -/

section

variable (h : o.Sound)

include h

theorem Sound.advance (hplain : o.stage ≠ .granted ∧ o.stage ≠ .late) (stage : Stage)
    (hstage : stage = .ready ∨ stage = .dispatched ∨ stage = .invoked ∨ stage = .created ∨
      stage = .ended) (new : List Happening) (hnew : ∀ x ∈ new, x = .started ∨ x = .created)
    (hrefused : .refused ∈ o.events → stage = .ended ∧ new = [])
    (hexecuted : .started ∈ o.events ++ new ∨ .created ∈ o.events ++ new →
      stage = .invoked ∨ stage = .created ∨ stage = .ended) :
    Sound { o with stage := stage, events := o.events ++ new } := by
  have hno : ∀ x, x ≠ .started → x ≠ .created → new.count x = 0 := by
    intro x hs hc
    rw [count_eq_zero]
    intro hx
    rcases hnew x hx with heq | heq
    · exact hs heq
    · exact hc heq
  have hmem : .refused ∈ o.events ++ new → .refused ∈ o.events := by
    intro hr
    rcases mem_append.mp hr with hr | hr
    · exact hr
    · rcases hnew _ hr with heq | heq <;> cases heq
  refine ⟨h.noted, ?_, ⟨fun hl => absurd (h.inHand.mp hl) hplain.1, ?_⟩, ?_, h.attached, h.gone,
    fun hl => .inr ((h.going hl).resolve_left hplain.2), h.carried, ?granted, ?released,
    fun hr => .inr (hrefused (hmem hr)).1, ?executed, ?_⟩
  case granted =>
    rw [count_append, hno _ (by simp) (by simp)]
    exact h.granted
  case released =>
    rw [count_append, hno _ (by simp) (by simp)]
    exact h.released
  case executed =>
    intro hx
    refine ⟨fun hr => ?_, hexecuted hx⟩
    -- nothing new has happened to an operation that was refused
    rw [(hrefused (hmem hr)).2, append_nil] at hx
    exact (h.executed hx).1 (hmem hr)
  -- the other fields are about stages before these
  all_goals
    intro hs
    rcases hstage with hst | hst | hst | hst | hst <;> simp [hst] at hs

theorem Sound.advance' (hplain : o.stage ≠ .granted ∧ o.stage ≠ .late)
    {stage : Stage} (hstage : stage = .ready ∨ stage = .dispatched ∨ stage = .ended)
    (hrefused : .refused ∈ o.events → stage = .ended)
    (hexecuted : .started ∈ o.events ∨ .created ∈ o.events → stage = .ended) :
    Sound { o with stage := stage } := by
  have hadvance := h.advance hplain stage (by tauto) [] (by simp)
    (fun hr => ⟨hrefused hr, rfl⟩) (by
      rw [append_nil]
      intro hx
      exact .inr (.inr (hexecuted hx)))
  simpa using hadvance

theorem Sound.quiet
    (hs : o.stage ∉ [Stage.refused, Stage.invoked, Stage.created, Stage.ended]) :
    .refused ∉ o.events ∧ .started ∉ o.events ∧ .created ∉ o.events := by
  simp only [mem_cons, not_mem_nil, or_false, not_or] at hs
  have hexecuted : ¬ (.started ∈ o.events ∨ .created ∈ o.events) := by
    intro hx
    have := (h.executed hx).2
    tauto
  refine ⟨fun hr => ?_, fun hx => hexecuted (.inl hx), fun hx => hexecuted (.inr hx)⟩
  have := h.refused hr
  tauto

theorem Sound.counts {lease : Lease} (hl : o.job.lease = lease) :
    o.events.count .granted = (if lease = .absent then 0 else 1) ∧
      o.events.count .released = if lease = .released then 1 else 0 := by
  subst hl
  exact ⟨h.granted, h.released⟩

theorem Sound.not_carried (hl : o.job.lease ≠ .leaving) (finished : Time) :
    o.after ≠ .release true finished := fun ha => hl (h.carried finished ha)

theorem Sound.settle {after : After} (hbefore : ∀ t, o.after ≠ .release true t)
    (hafter : ∀ t, after ≠ .release true t) : Sound { o with after := after } :=
  { h with
    late := fun hs => ⟨(h.late hs).1, hafter⟩
    going := fun hl => .inl ((h.going hl).resolve_right fun ⟨t, ht⟩ => hbefore t ht)
    carried := fun t ht => absurd ht (hafter t) }

theorem Sound.refusal (hs : o.stage = .waiting ∨ o.stage = .blocked) :
    (o.happen .refused .refused).Sound := by
  have hl : o.job.lease = .absent := h.early (hs.imp id .inl)
  obtain ⟨-, hstarted, hcreated⟩ := h.quiet (by rcases hs with hs | hs <;> simp [hs])
  refine ⟨h.noted, fun _ => hl, ?_, ?_, h.attached, h.gone, ?_, h.carried, ?_, ?_, fun _ => .inl rfl,
    ?_, ?_⟩
  · simp [happen, hl]
  · simp [happen]
  · simp [happen, hl]
  · refine Eq.trans ?_ h.granted
    simp [happen, count_append]
  · refine Eq.trans ?_ h.released
    simp [happen, count_append]
  · simp [happen, hstarted, hcreated]
  · simp [happen]

end

structure Acts (o o' : Object) : Prop where
  sound : o'.Sound
  spec : o'.spec = o.spec
  outstanding : o'.job.lease.outstanding = o.job.lease.outstanding

theorem call_acts (h : o.Sound) (fate : Fate) (hf : Transition f) : o.Acts (o.call fate f).1 := by
  obtain ⟨-, hspec, hout, -⟩ := o.call_frame fate hf h.noted
  exact ⟨o.call_sound h fate hf, hspec, hout⟩

section Actions

variable {writes : List JournalWrite}

theorem giveUp_acts (h : o.Sound) (hf : o.giveUp = some (o', writes)) : o.Acts o' := by
  unfold giveUp at hf
  split at hf
  · next hs =>
    cases hf
    exact ⟨h.refusal (.inr hs), rfl, rfl⟩
  · cases hf

theorem Acts.ended {o₁ : Object} (h : o.Acts o₁) (hplain : o₁.stage ≠ .granted ∧ o₁.stage ≠ .late) :
    o.Acts { o₁ with stage := .ended } :=
  ⟨h.sound.advance' hplain (.inr (.inr rfl)) (fun _ => rfl) fun _ => rfl, h.spec, h.outstanding⟩

theorem refusal_event (c : EngineConfig) (cause : Text) (now finished : Time) (o : Object) :
    ∃ e : Event, e.transition c.toConfig = some (.ok, o.refusal c cause now finished) := by
  unfold refusal
  split
  · exact ⟨.transitionStatus .canceled [] cause now finished .ok, rfl⟩
  · exact ⟨.reject cause now finished .ok, rfl⟩

theorem refuse_acts {cause : Text} (h : o.Sound)
    (hf : o.refuse c cause now finished fate = some (o', writes)) : o.Acts o' := by
  unfold refuse at hf
  split at hf
  · next hs =>
    cases hf
    obtain ⟨event, hevent⟩ := refusal_event c cause now finished o
    have htransition := transition_of_event hevent
    have hcall := call_acts h fate htransition
    have hstage := (o.call_frame fate htransition h.noted).1
    refine hcall.ended ?_
    rw [hstage, hs]
    simp
  · cases hf

theorem Sound.placed (h : o.Sound) (hs : o.stage = .granted ∨ o.stage = .late) (lease : Lease)
    (events : List Happening)
    (hl : (lease = .attached ∧ o.terminal = false ∧ events = []) ∨
      (lease = .released ∧ o.terminal = true ∧ events = [.released])) :
    (goOn { o with job := ⟨o.job.op, lease⟩, events := o.events ++ events }).Sound := by
  obtain ⟨hrefused, hstarted, hcreated⟩ := h.quiet (by rcases hs with hs | hs <;> simp [hs])
  -- the lease was granted, and not released
  have hlease : o.job.lease = .inHand ∨ o.job.lease = .leaving :=
    hs.imp (fun hs => h.inHand.mpr hs) fun hs => (h.late hs).1
  have hafter : ∀ finished, o.after ≠ .release true finished := by
    intro finished ha
    rcases hs with hs | hs
    · exact h.not_carried (by simp [h.inHand.mpr hs]) finished ha
    · exact (h.late hs).2 finished ha
  have hcount : o.events.count .granted = 1 ∧ o.events.count .released = 0 := by
    rcases hlease with hl | hl <;> exact h.counts hl
  unfold goOn
  rcases hl with ⟨rfl, ht, rfl⟩ | ⟨rfl, ht, rfl⟩ <;> split <;>
    refine ⟨h.noted, ?_, ?_, ?_, ?_, ?_, ?_, ?_, ?_, ?_, ?_, ?_, ?_⟩ <;>
    first
    | exact fun _ => ht
    | simp [happen, hafter, hcount, hrefused, hstarted, hcreated]

theorem goOn_frame (o : Object) : o.goOn.job = o.job ∧ o.goOn.after = o.after := by
  unfold goOn
  split <;> exact ⟨rfl, rfl⟩

theorem attach_acts (h : o.Sound) (hf : o.attach = some (o', writes)) : o.Acts o' := by
  unfold attach at hf
  split at hf
  · next hs =>
    have hlease : o.job.lease = .inHand := h.inHand.mpr hs
    obtain ⟨hgranted, hreleased⟩ := h.counts hlease
    obtain ⟨hrefused, hstarted, hcreated⟩ := h.quiet (by simp [hs])
    have hjob : o.job.attachLease = ⟨o.job.op, if o.terminal then .leaving else .attached⟩ := by
      unfold Job.attachLease terminal
      cases o.job.terminal <;> rfl
    cases ht : o.terminal with
    | true =>
      simp only [ht, if_true, hjob, Option.some.injEq, Prod.mk.injEq] at hf
      obtain ⟨rfl, -⟩ := hf
      refine ⟨?_, rfl, by rw [hlease]; rfl⟩
      have hafter := h.not_carried (by simp [hlease])
      exact ⟨h.noted, by simp, by simp, by simp [hafter], by simp, fun _ => ht, by simp,
        by simp [hafter], hgranted, hreleased, by simp [hrefused], by simp [hstarted, hcreated], by simp⟩
    | false =>
      simp only [ht, hjob, Option.some.injEq, Prod.mk.injEq] at hf
      obtain ⟨rfl, -⟩ := hf
      have hplaced := h.placed (.inl hs) .attached [] (.inl ⟨rfl, ht, rfl⟩)
      rw [append_nil] at hplaced
      refine ⟨hplaced, ?_, ?_⟩
      · unfold spec
        rw [if_neg (by simp), (goOn_frame _).1]
      · rw [if_neg (by simp), (goOn_frame _).1, hlease]
        rfl
  · cases hf

section Dispatch

variable {cause : Text} {rejectedNow rejectedFinished : Time} {rejectedFate : Fate}

/-- If the status cannot be changed, the operation is rejected instead. -/
theorem dispatch_cases (hf : o.dispatch c cause now finished fate rejectedNow rejectedFinished
    rejectedFate = some (o', writes)) :
    o.stage = .ready ∧
      ((∃ o₁, (o.call fate fun op => transitionStatus c.toConfig op .dispatched [] [] now finished) =
          (o₁, .done, writes) ∧ o' = { o₁ with stage := .dispatched }) ∨
        ∃ o₁ out, (o.call rejectedFate fun op =>
            reject c.toConfig op cause rejectedNow rejectedFinished) = (o₁, out, writes) ∧
          o' = { o₁ with stage := .ended }) := by
  unfold dispatch at hf
  split at hf
  · next hs =>
    refine ⟨hs, ?_⟩
    rcases o.call_cases fate fun op =>
        transitionStatus c.toConfig op .dispatched [] [] now finished with
      ⟨out, hout, heq⟩ | ⟨new, -, -, -, ⟨-, -, heq⟩ | ⟨-, heq⟩⟩ <;> rw [heq] at hf ⊢
    · cases out with
      | done => exact absurd rfl hout
      | illegal | unsaved =>
        cases hf
        exact .inr ⟨_, _, rfl, rfl⟩
    all_goals
      cases hf
      exact .inl ⟨_, rfl, rfl⟩
  · cases hf

theorem dispatch_acts (h : o.Sound) (hf : o.dispatch c cause now finished fate rejectedNow
    rejectedFinished rejectedFate = some (o', writes)) : o.Acts o' := by
  obtain ⟨hs, ⟨o₁, hcall, rfl⟩ | ⟨o₁, out, hcall, rfl⟩⟩ := dispatch_cases hf
  · have ht := transition_of_event (c := c.toConfig)
      (e := .transitionStatus .dispatched [] [] now finished fate) rfl
    have hacts := call_acts h fate ht
    rw [hcall] at hacts
    have hstage : o₁.stage = .ready :=
      (congrArg (·.1.stage) hcall).symm.trans ((o.call_frame fate ht h.noted).1.trans hs)
    obtain ⟨hrefused, hstarted, hcreated⟩ := hacts.sound.quiet (by simp [hstage])
    refine ⟨?_, hacts.spec, hacts.outstanding⟩
    exact hacts.sound.advance' (by simp [hstage]) (.inr (.inl rfl)) (fun hr => absurd hr hrefused)
      fun hx => (hx.elim hstarted hcreated).elim
  · have ht := transition_of_event (c := c.toConfig)
      (e := .reject cause rejectedNow rejectedFinished rejectedFate) rfl
    rw [show o₁ = _ from (congrArg Prod.fst hcall).symm]
    exact (call_acts h rejectedFate ht).ended
      (by simp [(o.call_frame rejectedFate ht h.noted).1, hs])

end Dispatch

theorem invoke_acts (h : o.Sound) (hf : o.invoke = some (o', writes)) : o.Acts o' := by
  unfold invoke at hf
  split at hf
  · next hs =>
    cases hf
    refine ⟨?_, rfl, rfl⟩
    refine h.advance (by simp [hs]) .invoked (.inr (.inr (.inl rfl))) [.started] (by simp) ?_
      fun _ => .inl rfl
    intro hr
    rcases h.refused hr with hst | hst <;> rw [hs] at hst <;> cases hst
  · cases hf

theorem finish_acts (h : o.Sound) (hf : o.finish = some (o', writes)) : o.Acts o' := by
  unfold finish at hf
  split at hf
  · next hs =>
    cases hf
    exact Acts.ended ⟨h, rfl, rfl⟩ (by simp [hs])
  · cases hf

theorem transition_acts {event : Event} (h : o.Sound)
    (hf : o.transition c event = some (o', writes)) : o.Acts o' := by
  unfold transition at hf
  split at hf
  · split at hf
    · cases hf
    · next fate f ht =>
      cases hf
      exact call_acts h fate (transition_of_event ht)
  · cases hf

theorem cancel_acts {reason : CancelReason} (h : o.Sound)
    (hf : o.cancel reason now fate = some (o', writes)) : o.Acts o' := by
  cases hf
  exact call_acts h fate
    (transition_of_event (c := ⟨0, false⟩) (e := .cancel reason now fate) rfl)

theorem deliver_acts (h : o.Sound) (hf : o.deliver fate = some (o', writes)) : o.Acts o' := by
  cases hf
  exact call_acts h fate (transition_of_event (c := ⟨0, false⟩) (e := .markDelivered fate) rfl)

end Actions

end Object

/-! ## The locks -/

/-- The operation at a place of the list has an outstanding lease, under this key and its ID. -/
def HoldsAt (objects : List Object) (i : Nat) (key id : Text) : Prop :=
  ∃ o, objects[i]? = some o ∧ o.Holds key ∧ o.spec.operationId = id

section HoldsAt

variable {j : Nat} {id : Text}

theorem holdsAt_set_self (hi : objects[i]? = some o) :
    HoldsAt (objects.set i o') i key id ↔ o'.Holds key ∧ o'.spec.operationId = id := by
  unfold HoldsAt
  rw [getElem?_set_self (List.getElem?_eq_some_iff.mp hi).1]
  simp

theorem holdsAt_set_ne (hij : j ≠ i) :
    HoldsAt (objects.set i o') j key id ↔ HoldsAt objects j key id := by
  unfold HoldsAt
  rw [getElem?_set_ne (Ne.symm hij)]

theorem holdsAt_self (hi : objects[i]? = some o) :
    HoldsAt objects i key id ↔ o.Holds key ∧ o.spec.operationId = id := by
  unfold HoldsAt
  rw [hi]
  simp

theorem holdsAt_append (hl : o.job.lease.outstanding = false) :
    HoldsAt (objects ++ [o]) i key id ↔ HoldsAt objects i key id := by
  constructor
  · intro h
    obtain ⟨x, hx, hk, hid⟩ := h
    rw [getElem?_append] at hx
    split at hx
    · exact ⟨x, hx, hk, hid⟩
    have hxo := mem_of_getElem? hx
    rw [mem_singleton] at hxo
    rw [hxo, Object.Holds, hl] at hk
    cases hk.2
  · intro h
    obtain ⟨x, hx, hk, hid⟩ := h
    refine ⟨x, ?_, hk, hid⟩
    rw [getElem?_append_left (List.getElem?_eq_some_iff.mp hx).1]
    exact hx

end HoldsAt

namespace Engine

/-- The locks that are held are those of the outstanding leases, no two of one project. -/
structure Locked (e : Engine) : Prop where
  sound : ∀ o ∈ e.objects, o.Sound
  held : ∀ key id, e.held.get key = some id ↔ ∃ i, HoldsAt e.objects i key id
  one : ∀ i j key a b, HoldsAt e.objects i key a → HoldsAt e.objects j key b → i = j

theorem Locked.congr {e' : Engine} (h : e.Locked) (hobjects : e'.objects = e.objects)
    (hheld : e'.held = e.held) : e'.Locked := by
  refine ⟨?_, ?_, ?_⟩
  · rw [hobjects]
    exact h.sound
  · rw [hobjects, hheld]
    exact h.held
  · rw [hobjects]
    exact h.one

theorem Locked.same (h : e.Locked) (hsound : ∀ o ∈ objects, o.Sound)
    (hholds : ∀ i key id, HoldsAt objects i key id ↔ HoldsAt e.objects i key id) :
    Locked { e with objects := objects } := by
  refine ⟨hsound, ?_, ?_⟩
  · intro key id
    simp only [hholds]
    exact h.held key id
  · intro i j key a b hi hj
    exact h.one i j key a b ((hholds _ _ _).mp hi) ((hholds _ _ _).mp hj)

theorem sound_set (h : ∀ o ∈ objects, o.Sound) (hs : o'.Sound) :
    ∀ o ∈ objects.set i o', o.Sound := by
  intro x hx
  rcases mem_or_eq_of_mem_set hx with hx | hx
  · exact h x hx
  · rw [hx]
    exact hs

section

variable (h : e.Locked)

include h

section

variable (hi : e.objects[i]? = some o)

include hi

theorem Locked.replace (hs : o'.Sound) {held : Table Text Text}
    (hheld : ∀ key id, held.get key = some id ↔ (o'.Holds key ∧ o'.spec.operationId = id) ∨
      ∃ j ≠ i, HoldsAt e.objects j key id)
    (hone : ∀ key, o'.Holds key → ∀ j ≠ i, ∀ id, ¬ HoldsAt e.objects j key id) :
    Locked { e with objects := e.objects.set i o', held := held } := by
  have hset : ∀ j key id, HoldsAt (e.objects.set i o') j key id ↔
      (j = i ∧ o'.Holds key ∧ o'.spec.operationId = id) ∨ (j ≠ i ∧ HoldsAt e.objects j key id) := by
    intro j key id
    by_cases hij : j = i
    · subst hij
      simp [holdsAt_set_self hi]
    · simp [hij, holdsAt_set_ne hij]
  refine ⟨sound_set h.sound hs, ?_, ?_⟩
  · intro key id
    rw [hheld]
    simp [hset, exists_or]
  · intro j k key a b hj hk
    rw [hset] at hj hk
    rcases hj with ⟨rfl, hj, -⟩ | ⟨hji, hj⟩ <;> rcases hk with ⟨rfl, hk, -⟩ | ⟨hki, hk⟩
    · rfl
    · exact absurd hk (hone key hj k hki b)
    · exact absurd hj (hone key hk j hji a)
    · exact h.one j k key a b hj hk

theorem Locked.held_iff (key id : Text) :
    e.held.get key = some id ↔ (o.Holds key ∧ o.spec.operationId = id) ∨
      ∃ j ≠ i, HoldsAt e.objects j key id := by
  rw [h.held, ← holdsAt_self hi]
  constructor
  · rintro ⟨j, hj⟩
    by_cases hij : j = i
    · exact .inl (hij ▸ hj)
    · exact .inr ⟨j, hij, hj⟩
  · rintro (hj | ⟨j, -, hj⟩)
    · exact ⟨i, hj⟩
    · exact ⟨j, hj⟩

theorem Locked.others (hk : o.Holds key) :
    ∀ j ≠ i, ∀ id, ¬ HoldsAt e.objects j key id :=
  fun j hij _ hj => hij (h.one j i key _ _ hj ((holdsAt_self hi).mpr ⟨hk, rfl⟩))

theorem Locked.set (ha : o.Acts o') :
    Locked { e with objects := e.objects.set i o' } := by
  have hholds : ∀ key, o'.Holds key ↔ o.Holds key := by
    intro key
    rw [Object.Holds, Object.Holds, ha.spec, ha.outstanding]
  refine h.replace hi ha.sound ?_ fun key hk => h.others hi ((hholds key).mp hk)
  intro key id
  rw [hholds, ha.spec]
  exact h.held_iff hi key id

end

theorem Locked.act {f : Object → Option (Object × List JournalWrite)}
    (hf : ∀ o o' writes, o.Sound → f o = some (o', writes) → o.Acts o') : (e.act i f).1.Locked := by
  unfold Engine.act
  split
  · exact h
  next o hi =>
  split
  · exact h
  next o' writes ho => exact h.set hi (hf o o' writes (h.sound o (mem_of_getElem? hi)) ho)

theorem Locked.append (hs : o.Sound) (hl : o.job.lease.outstanding = false) :
    Locked { e with objects := e.objects ++ [o] } := by
  refine h.same ?_ fun i key id => holdsAt_append hl
  exact forall_mem_append.mpr ⟨h.sound, forall_mem_singleton.mpr hs⟩

theorem Locked.grant (hi : e.objects[i]? = some o) (hfree : e.held.get o.spec.projectKey = none)
    (hs : o'.Sound) (hspec : o'.spec = o.spec) (hbefore : o.job.lease.outstanding = false)
    (hafter : o'.job.lease.outstanding = true) :
    Locked { e with
      objects := e.objects.set i o'
      held := e.held.set o.spec.projectKey o.spec.operationId } := by
  have hnobody : ∀ j id, ¬ HoldsAt e.objects j o.spec.projectKey id := by
    intro j id hj
    rw [(h.held _ id).mpr ⟨j, hj⟩] at hfree
    cases hfree
  refine h.replace hi hs ?_ fun key hk j _ id hj => hnobody j id ?_
  · intro key id
    rw [Table.get_set]
    by_cases hkey : key = o.spec.projectKey
    · simp [hkey, Object.Holds, hspec, hafter, hnobody]
    · simp [hkey, h.held_iff hi, Object.Holds, hspec, hbefore, Ne.symm hkey]
  · rw [← hspec, hk.1]
    exact hj

theorem Locked.drop (hi : e.objects[i]? = some o) (ho : o.job.lease.outstanding = true)
    (hs : o'.Sound) (hout : o'.job.lease.outstanding = false) :
    Locked { e with
      objects := e.objects.set i o'
      held := e.held.erase o.spec.projectKey } := by
  have hothers := h.others hi ⟨rfl, ho⟩
  refine h.replace hi hs ?_ fun key hk => ?_
  · intro key id
    rw [Table.get_erase]
    by_cases hkey : key = o.spec.projectKey
    · simpa [hkey, Object.Holds, hout] using fun j hij => hothers j hij id
    · simp [hkey, h.held_iff hi, Object.Holds, hout, Ne.symm hkey]
  · rw [Object.Holds, hout] at hk
    cases hk.2

end

theorem granted_sound (h : o.Sound) (hs : o.stage = .waiting ∨ o.stage = .blocked) :
    ({ o with job := { o.job with lease := .inHand } }.happen .granted .granted).Sound := by
  have hl : o.job.lease = .absent := h.early (hs.imp id .inl)
  have hcount : o.events.count .granted = 0 ∧ o.events.count .released = 0 := h.counts hl
  obtain ⟨hrefused, hstarted, hcreated⟩ := h.quiet (by rcases hs with hs | hs <;> simp [hs])
  have hafter := h.not_carried (by simp [hl])
  refine ⟨h.noted, ?_, ?_, ?_, ?_, ?_, ?_, ?_, ?_, ?_, ?_, ?_, ?_⟩ <;>
    simp [happen, hafter, hcount, hrefused, hstarted, hcreated]

theorem Locked.look (c : EngineConfig) (h : e.Locked) (i : Nat) : (e.look c i).Locked := by
  unfold Engine.look
  split
  · exact h
  next o hi =>
  have hs := h.sound o (mem_of_getElem? hi)
  split
  · next hstage =>
    have hstage' : o.stage = .waiting ∨ o.stage = .blocked := by simpa using hstage
    have hl : o.job.lease = .absent := hs.early (hstage'.imp id .inl)
    have hrefused : o.Acts (o.happen .refused .refused) := ⟨hs.refusal hstage', rfl, rfl⟩
    split
    · exact h.set hi hrefused
    split
    · next hheld => exact h.grant hi hheld (granted_sound hs hstage') rfl (by rw [hl]; rfl) rfl
    split
    · exact h.set hi hrefused
    -- the goroutine waits, and nothing else has changed
    refine h.set hi ⟨?_, rfl, rfl⟩
    exact { hs with
      early := fun _ => hl, inHand := by simp [hl], late := by simp, going := by simp [hl]
      refused := fun hr => by rcases hstage' with hst | hst <;> simpa [hst] using hs.refused hr
      executed := fun hx => by
        rcases hstage' with hst | hst <;> simpa [hst] using (hs.executed hx).2
      named := fun _ => hs.named hstage' }
  · exact h

theorem unlock_of_leaving (h : e.Locked) (hi : e.objects[i]? = some o)
    (hl : o.job.lease = .leaving) : e.unlock o = e.held.erase o.spec.projectKey := by
  unfold unlock
  have hheld : e.held.get o.spec.projectKey = some o.spec.operationId :=
    (h.held _ _).mpr ⟨i, (holdsAt_self hi).mpr ⟨⟨rfl, by rw [hl]; rfl⟩, rfl⟩⟩
  simp [hl, hheld]

theorem release_of_leaving (hl : o.job.lease = .leaving) : o.release =
    { o with job := ⟨o.job.op, .released⟩, events := o.events ++ [.released] } := by
  unfold release Job.release
  rw [if_pos hl, if_pos hl]

theorem Locked.releaseLate (h : e.Locked) (i : Nat) : (e.releaseLate i).Locked := by
  unfold Engine.releaseLate
  split
  · exact h
  next o hi =>
  have hs := h.sound o (mem_of_getElem? hi)
  split
  · next hstage =>
    have hl := (hs.late hstage).1
    have hrelease := release_of_leaving hl
    rw [unlock_of_leaving h hi hl]
    refine h.drop hi (by rw [hl]; rfl) ?_ ?_
    · rw [hrelease]
      exact hs.placed (.inr hstage) .released [.released] (.inr ⟨rfl, hs.gone (.inl hl), rfl⟩)
    · rw [(goOn_frame _).1, hrelease]
      rfl
  · exact h

theorem released_sound (h : o.Sound) (hafter : o.after = .release true finished) :
    Object.Sound { o with
      job := ⟨o.job.op, .released⟩
      after := .notify finished
      events := o.events ++ [.released] } := by
  have hl := h.carried finished hafter
  have hcount : o.events.count .granted = 1 ∧ o.events.count .released = 0 := h.counts hl
  refine ⟨h.noted, ?_, ?_, ?_, by simp, fun _ => h.gone (.inl hl), by simp, by simp,
    by simp [hcount], by simp [hcount], ?_, ?_, h.named⟩
  · intro hs
    rw [h.early hs] at hl
    cases hl
  · refine ⟨by simp, fun hs => ?_⟩
    rw [h.inHand.mpr hs] at hl
    cases hl
  · intro hs
    exact absurd hafter ((h.late hs).2 finished)
  · simpa using h.refused
  · simpa using h.executed

theorem Locked.releaseAfter (h : e.Locked) (i : Nat) : (e.releaseAfter i).Locked := by
  unfold Engine.releaseAfter
  split
  · exact h
  next o hi =>
  have hs := h.sound o (mem_of_getElem? hi)
  cases hafter : o.after with
  | idle | notify => exact h
  | release held finished =>
    cases held with
    | true =>
      have hl := hs.carried finished hafter
      simp only
      rw [unlock_of_leaving h hi hl, release_of_leaving hl]
      exact h.drop hi (by rw [hl]; rfl) (released_sound hs hafter) rfl
    | false =>
      exact h.set hi ⟨hs.settle (by simp [hafter]) (by simp), rfl, rfl⟩

theorem accepted_sound {spec : Spec} (hvalid : validSpec spec = true) (runner : Bool) (now : Time) :
    (accepted spec runner now).Sound := by
  have hnamed : spec.operationId ≠ [] ∧
      (spec.kind.requiresProjectLock = true → spec.projectKey ≠ []) := by
    simp only [validSpec, Bool.and_eq_true, Bool.not_eq_true', isEmpty_eq_false_iff,
      Bool.and_eq_false_iff] at hvalid
    refine ⟨hvalid.1.1, fun hlock => ?_⟩
    exact hvalid.2.resolve_left (by simp [hlock])
  cases hlock : spec.kind.requiresProjectLock with
  | true =>
    refine ⟨rfl, fun _ => rfl, ?_, ?_, ?_, ?_, ?_, ?_, ?_, ?_, ?_, ?_, ?_⟩ <;>
      simp [accepted, Job.accepted, hlock]
    exact ⟨hnamed.2 hlock, hnamed.1⟩
  | false =>
    cases runner <;> refine ⟨rfl, fun _ => rfl, ?_, ?_, ?_, ?_, ?_, ?_, ?_, ?_, ?_, ?_, ?_⟩ <;>
      simp [accepted, Job.accepted, hlock]

section

variable (h : e.Locked)

include h

theorem Locked.cleanup (c : EngineConfig) (now : Time) (deletes : Nat → Bool) :
    (e.cleanupLocked c now deletes).1.Locked := h.congr rfl rfl

theorem Locked.accept (c : EngineConfig) (spec : Spec) (runner : Bool) (now : Time)
    (deletes : Nat → Bool) (fate : Fate) : (e.accept c spec runner now deletes fate).1.Locked := by
  unfold Engine.accept
  cases hvalid : validSpec spec with
  | false => exact h
  | true =>
    have hclean := h.cleanup c now deletes
    simp only [if_true]
    generalize (e.cleanupLocked c now deletes) = out at hclean ⊢
    obtain ⟨e₁, writes⟩ := out
    simp only at hclean ⊢
    unfold admitSpec
    split
    · split
      on_goal 2 => exact hclean
      next o hi =>
      split
      · exact hclean
      have hs := hclean.sound o (mem_of_getElem? hi)
      refine hclean.set hi ⟨?_, rfl, rfl⟩
      exact { hs with }
    · dsimp only
      split
      · exact (hclean.append (accepted_sound hvalid runner now) rfl).congr rfl rfl
      · exact hclean

theorem Locked.onTerminal (c : EngineConfig) (i : Nat) (now : Time)
    (deletes : Nat → Bool) : (e.onTerminal c i now deletes).1.Locked := by
  unfold Engine.onTerminal
  split
  · exact h
  next o hi =>
  cases hafter : o.after with
  | idle | release => exact h
  | notify finished =>
    have hs := h.sound o (mem_of_getElem? hi)
    have hidle : Locked { e with objects := e.objects.set i { o with after := .idle } } :=
      h.set hi ⟨hs.settle (by simp [hafter]) (by simp), rfl, rfl⟩
    simp only
    split
    · apply Locked.cleanup
      exact hidle.congr rfl rfl
    · exact hidle

theorem Locked.reclaim (c : EngineConfig) (now : Time) (needed : Nat)
    (answers : Nat → ReclaimAnswer) : (e.reclaimExpired c now needed answers).1.Locked := by
  unfold reclaimExpired
  split
  · exact h
  · exact h.congr rfl rfl

theorem Locked.step (c : EngineConfig) (call : Call) : (e.step c call).1.Locked := by
  cases call with
  | accept spec runner now deletes fate => exact h.accept c spec runner now deletes fate
  | look i => exact h.look c i
  | giveUp i => exact h.act fun _ _ _ => giveUp_acts
  | refuse i cause now finished fate => exact h.act fun _ _ _ => refuse_acts
  | attach i => exact h.act fun _ _ _ => attach_acts
  | releaseLate i => exact h.releaseLate i
  | dispatch => exact h.act fun _ _ _ => dispatch_acts
  | invoke i => exact h.act fun _ _ _ => invoke_acts
  | transition i event => exact h.act fun _ _ _ => transition_acts
  | finish i => exact h.act fun _ _ _ => finish_acts
  | cancel operationId reason now fate =>
    simp only [Engine.step]
    cases e.items.get operationId with
    | none => exact h
    | some i => exact h.act fun _ _ _ => cancel_acts
  | releaseAfter i => exact h.releaseAfter i
  | onTerminal i now deletes => exact h.onTerminal c i now deletes
  | deliver i fate => exact h.act fun _ _ _ => deliver_acts
  | cleanup now deletes => exact h.cleanup c now deletes
  | reclaim now needed answers => exact h.reclaim c now needed answers

end

theorem Locked.run (c : EngineConfig) (calls : List Call) (h : e.Locked) : (e.run c calls).Locked :=
  foldlRecOn (motive := Locked) calls _ h fun _ he call _ => he.step c call

end Engine

/-! ## Boot -/

structure Object.Resting (o : Object) : Prop where
  sound : o.Sound
  lease : o.job.lease = .absent
  stage : o.stage = .ended
  terminal : o.terminal = true

theorem recovered_noted (c : Config) (r : Record) (now : Time) :
    (recovered c r now).1.Noted ∧ (recovered c r now).1.record.status.terminal = true := by
  unfold recovered interrupt
  cases ht : (boundTail c r).status.terminal with
  | false => exact ⟨rfl, rfl⟩
  | true =>
    simp only [Bool.not_true, Bool.false_eq_true, if_false]
    split <;> exact ⟨ht.symm, ht⟩

theorem Object.recovered_resting (c : Config) (r : Record) (now : Time) :
    (recovered (Operation.recovered c r now).1).Resting := by
  obtain ⟨hnoted, hend⟩ := recovered_noted c r now
  refine ⟨?_, rfl, rfl, hend⟩
  refine ⟨hnoted, fun _ => rfl, ?_, ?_, ?_, fun _ => hend, ?_, ?_, ?_, ?_, ?_, ?_, ?_⟩ <;>
    simp [recovered]

theorem recoverLoop_resting (rows : List (Text × Record)) (n : Nat)
    (h : (recoverLoop c b n rows).2 = some objects) : ∀ o ∈ objects, o.Resting := by
  induction rows generalizing n objects with
  | nil =>
    cases h
    simp
  | cons row rows ih =>
    obtain ⟨id, r⟩ := row
    simp only [recoverLoop] at h
    split at h
    · cases h
    simp only [Option.map_eq_some_iff] at h
    obtain ⟨rest, hrest, rfl⟩ := h
    exact forall_mem_cons.mpr ⟨recovered_resting c.toConfig r b.now, ih (n + 1) hrest⟩

theorem Object.Resting.deliver (h : o.Resting) (fate : Fate) :
    (o.call fate markDelivered).1.Resting := by
  have htransition : Object.Transition markDelivered :=
    transition_of_event (c := ⟨0, false⟩) (e := .markDelivered fate) rfl
  have hacts := call_acts h.sound fate htransition
  have hstage := (o.call_frame fate htransition h.sound.noted).1
  rcases o.call_cases fate markDelivered with ⟨out, -, heq⟩ | ⟨new, hnew, -, -, hcase⟩
  · rw [heq]
    exact h
  have hstatus : new.record.status.terminal = true := by
    rw [(htransition _ _ h.sound.noted hnew).terminal h.terminal]
    exact h.terminal
  have hnotified : o.job.op.terminalNotified = true := h.sound.noted.trans h.terminal
  rcases hcase with ⟨-, hbefore, -⟩ | ⟨-, heq⟩
  · rw [hnotified] at hbefore
    cases hbefore
  · rw [heq] at hacts ⊢
    exact ⟨hacts.sound, h.lease, h.stage, hstatus⟩

theorem replayLoop_resting {items : Table Text Nat} (objects : List Object) (n : Nat)
    (h : ∀ o ∈ objects, o.Resting) : ∀ o ∈ (replayLoop b items n objects).2.1, o.Resting := by
  induction objects generalizing n with
  | nil => simp [replayLoop]
  | cons o objects ih =>
    have hfirst := h o mem_cons_self
    intro x hx
    simp only [replayLoop, mem_cons] at hx
    rcases hx with hx | hx
    · rw [hx]
      split
      · unfold deliverTerminalAudit
        split
        · exact hfirst
        · exact hfirst
        · split
          · exact hfirst.deliver _
          · exact hfirst
      · exact hfirst
    · exact ih (n + 1) (fun o ho => h o (mem_cons_of_mem _ ho)) x hx

theorem replay_resting (h : ∀ o ∈ e.objects, o.Resting) :
    (∀ o ∈ (replayTerminalAudits c b e).2.1.objects, o.Resting) ∧
      (replayTerminalAudits c b e).2.1.held = e.held := by
  unfold replayTerminalAudits
  split
  · exact ⟨replayLoop_resting e.objects 0 h, rfl⟩
  · exact ⟨h, rfl⟩

section

variable (h : (boot c b journal).2 = some e)

include h

theorem boot_some :
    ∃ objects, (recoverLoop c b 0 journal.rows).2 = some objects ∧
      e = (replayTerminalAudits c b
        ((recoveredEngine journal objects).cleanupLocked c b.now b.deletes).1).2.1 := by
  unfold boot at h
  split at h
  · generalize hloop : recoverLoop c b 0 journal.rows = out at h
    obtain ⟨writes, objects | objects⟩ := out
    · cases h
    · refine ⟨objects, rfl, ?_⟩
      simp only at h
      split at h
      · exact (Option.some.inj h).symm
      · cases h
  · cases h

theorem boot_resting :
    (∀ o ∈ e.objects, o.Resting) ∧ e.held = .empty := by
  obtain ⟨objects, hloop, rfl⟩ := boot_some h
  exact replay_resting (recoverLoop_resting journal.rows 0 hloop)

theorem Engine.locked_of_boot : e.Locked := by
  obtain ⟨hrest, hheld⟩ := boot_resting h
  have hnobody : ∀ i key id, ¬ HoldsAt e.objects i key id := by
    intro i key id hat
    obtain ⟨o, hi, hk, -⟩ := hat
    have hl := hk.2
    rw [(hrest o (mem_of_getElem? hi)).lease] at hl
    cases hl
  refine ⟨fun o ho => (hrest o ho).sound, ?_, ?_⟩
  · intro key id
    rw [hheld, Table.get_empty]
    simp [hnobody]
  · intro i j key a b hi
    exact absurd hi (hnobody i key a)

end

/-! ## The locks over whole runs -/

def Object.Between (o : Object) (key : Text) : Prop :=
  o.spec.projectKey = key ∧ .granted ∈ o.events ∧ o.terminal = false

def Engine.Stale (e : Engine) (key : Text) : Prop :=
  ∃ o ∈ e.objects, o.Holds key ∧ o.terminal = true

theorem Object.Sound.holds (h : o.Sound) (hb : o.Between key) : o.Holds key := by
  obtain ⟨hkey, hgranted, hlive⟩ := hb
  refine ⟨hkey, ?_⟩
  have hcount := h.granted
  have hgone := h.gone
  have hpos : 0 < o.events.count .granted := count_pos_iff.mpr hgranted
  rw [hlive] at hgone
  cases hl : o.job.lease with
  | absent =>
    rw [hl] at hcount
    simp only [if_true] at hcount
    omega
  | inHand | attached | leaving => rfl
  | released => exact absurd (hgone (.inr hl)) (by simp)

theorem Object.Sound.between (h : o.Sound) (hk : o.Holds key) (hlive : o.terminal = false) :
    o.Between key := by
  refine ⟨hk.1, count_pos_iff.mp ?_, hlive⟩
  rw [h.granted, if_neg]
  · exact Nat.one_pos
  intro hl
  have hout := hk.2
  rw [hl] at hout
  cases hout

def Object.Quiet (o : Object) : Prop :=
  o.stage ≠ .granted ∧ o.stage ≠ .late ∧ ∀ finished, o.after ≠ .release true finished

theorem Object.Sound.leases (h : o.Sound) :
    o.events.count .granted ≤ 1 ∧ o.events.count .released ≤ o.events.count .granted ∧
      (o.terminal = true → o.Quiet →
        o.events.count .released = o.events.count .granted) := by
  cases hl : o.job.lease with
  | absent | released => simp [h.counts hl]
  | inHand =>
    refine ⟨by simp [h.counts hl], by simp [h.counts hl], fun _ hquiet => ?_⟩
    exact absurd (h.inHand.mp hl) hquiet.1
  | attached =>
    refine ⟨by simp [h.counts hl], by simp [h.counts hl], fun hend _ => ?_⟩
    rw [h.attached hl] at hend
    cases hend
  | leaving =>
    refine ⟨by simp [h.counts hl], by simp [h.counts hl], fun _ hquiet => ?_⟩
    rcases h.going hl with hlate | ⟨finished, hafter⟩
    · exact absurd hlate hquiet.2.1
    · exact absurd hafter (hquiet.2.2 finished)

/-- In the loop of `Acquire`. -/
def Object.Acquiring (o : Object) : Prop := o.stage = .waiting ∨ o.stage = .blocked

namespace Engine

def stageAt (e : Engine) (i : Nat) : Option Stage := e.objects[i]?.map Object.stage

theorem look_stage (c : EngineConfig) (h : e.Locked) (hi : e.objects[i]? = some o)
    (hs : o.Acquiring) :
    (e.look c i).stageAt i = some (match e.held.get o.spec.projectKey with
      | none => .granted
      | some _ => if c.projectLockWait = 0 then .refused else .blocked) := by
  obtain ⟨hkey, hid⟩ := (h.sound o (mem_of_getElem? hi)).named hs
  have hnamed : (o.spec.projectKey.isEmpty || o.spec.operationId.isEmpty) = false := by
    simp [hkey, hid]
  have hlooks : (decide (o.stage = .waiting) || decide (o.stage = .blocked)) = true := by
    simpa [Acquiring] using hs
  have hlt := (List.getElem?_eq_some_iff.mp hi).1
  unfold look stageAt
  simp only [hi, hlooks, if_true, hnamed, Bool.false_eq_true, if_false]
  cases hheld : e.held.get o.spec.projectKey with
  | none => simp [getElem?_set_self hlt, happen]
  | some owner =>
    simp only
    split <;> simp [getElem?_set_self hlt, happen]

theorem look_granted_iff (c : EngineConfig) (h : e.Locked) (hi : e.objects[i]? = some o)
    (hs : o.Acquiring) :
    (e.look c i).stageAt i = some .granted ↔ e.held.get o.spec.projectKey = none := by
  rw [look_stage c h hi hs]
  cases e.held.get o.spec.projectKey with
  | none => simp
  | some owner =>
    simp only [reduceCtorEq, iff_false]
    split <;> simp

theorem free_iff (h : e.Locked) (key : Text) :
    e.held.get key = none ↔ (∀ x ∈ e.objects, ¬ x.Between key) ∧ ¬ e.Stale key := by
  constructor
  · intro hfree
    have hnobody : ∀ x ∈ e.objects, ¬ x.Holds key := by
      intro x hx hk
      obtain ⟨j, hj⟩ := mem_iff_getElem?.mp hx
      rw [(h.held key _).mpr ⟨j, x, hj, hk, rfl⟩] at hfree
      cases hfree
    refine ⟨fun x hx hb => hnobody x hx ((h.sound x hx).holds hb), ?_⟩
    intro hstale
    obtain ⟨x, hx, hk, -⟩ := hstale
    exact hnobody x hx hk
  · intro hnone
    cases hheld : e.held.get key with
    | none => rfl
    | some id =>
      obtain ⟨j, x, hj, hk, -⟩ := (h.held key id).mp hheld
      have hx := mem_of_getElem? hj
      cases hend : x.terminal with
      | true => exact absurd ⟨x, hx, hk, hend⟩ hnone.2
      | false => exact absurd ((h.sound x hx).between hk hend) (hnone.1 x hx)

theorem not_between_of_stale (h : e.Locked) (hstale : e.Stale key) :
    ∀ x ∈ e.objects, ¬ x.Between key := by
  intro x hx hb
  obtain ⟨y, hy, hky, hend⟩ := hstale
  obtain ⟨i, hi⟩ := mem_iff_getElem?.mp hx
  obtain ⟨j, hj⟩ := mem_iff_getElem?.mp hy
  have hij := h.one i j key _ _ ⟨x, hi, (h.sound x hx).holds hb, rfl⟩ ⟨y, hj, hky, rfl⟩
  subst hij
  rw [hi] at hj
  cases hj
  rw [hb.2.2] at hend
  cases hend

/-! ### The way of a stale lease -/

variable {j : Nat}

theorem releaseLate_frees (h : e.Locked) (hj : e.objects[j]? = some o) (hs : o.stage = .late) :
    (e.releaseLate j).held.get o.spec.projectKey = none ∧
      ∀ i ≠ j, (e.releaseLate j).objects[i]? = e.objects[i]? := by
  have hl := ((h.sound o (mem_of_getElem? hj)).late hs).1
  unfold Engine.releaseLate
  simp only [hj, hs, if_true, unlock_of_leaving h hj hl, Table.get_erase]
  exact ⟨trivial, fun i hij => getElem?_set_ne hij.symm⟩

theorem releaseAfter_frees (h : e.Locked) (hj : e.objects[j]? = some o)
    (hafter : o.after = .release true finished) :
    (e.releaseAfter j).held.get o.spec.projectKey = none ∧
      ∀ i ≠ j, (e.releaseAfter j).objects[i]? = e.objects[i]? := by
  have hl := (h.sound o (mem_of_getElem? hj)).carried finished hafter
  unfold Engine.releaseAfter
  simp only [hj, hafter, unlock_of_leaving h hj hl, Table.get_erase, if_true]
  exact ⟨trivial, fun i hij => getElem?_set_ne hij.symm⟩

theorem attach_late (hj : e.objects[j]? = some o) (hs : o.stage = .granted)
    (hend : o.terminal = true) :
    (e.act j Object.attach).1 = { e with
      objects := e.objects.set j { o with job := ⟨o.job.op, .leaving⟩, stage := .late } } := by
  have hjob : o.job.attachLease = ⟨o.job.op, .leaving⟩ := if_pos hend
  unfold Engine.act Object.attach
  simp only [hj, hs, hend, hjob, if_true]

/-- What is left to do of the stale operation frees the lock, and touches no other. -/
theorem Stale.passes (c : EngineConfig) (h : e.Locked) (hstale : e.Stale key) :
    ∃ j rest, (∀ call ∈ rest, call ∈ [Call.attach j, .releaseLate j, .releaseAfter j]) ∧
      (e.run c rest).held.get key = none ∧
      ∀ (i : Nat) (o : Object), e.objects[i]? = some o → o.job.lease = .absent →
        (e.run c rest).objects[i]? = some o := by
  obtain ⟨x, hx, ⟨rfl, hout⟩, hend⟩ := hstale
  obtain ⟨j, hj⟩ := mem_iff_getElem?.mp hx
  have hs := h.sound x hx
  suffices hfrees : ∃ rest,
      (∀ call ∈ rest, call ∈ [Call.attach j, .releaseLate j, .releaseAfter j]) ∧
      (e.run c rest).held.get x.spec.projectKey = none ∧
      ∀ i ≠ j, (e.run c rest).objects[i]? = e.objects[i]? by
    obtain ⟨rest, hrest, hfree, hsame⟩ := hfrees
    refine ⟨j, rest, hrest, hfree, fun i o hi habsent => (hsame i ?_).trans hi⟩
    rintro rfl
    rw [hi] at hj
    cases hj
    rw [habsent] at hout
    cases hout
  cases hl : x.job.lease with
  | absent | released => rw [hl] at hout; cases hout
  | attached =>
    rw [hs.attached hl] at hend
    cases hend
  | leaving =>
    rcases hs.going hl with hlate | ⟨finished, hafter⟩
    · exact ⟨[.releaseLate j], by simp, releaseLate_frees h hj hlate⟩
    · exact ⟨[.releaseAfter j], by simp, releaseAfter_frees h hj hafter⟩
  | inHand =>
    -- it ended between its grant and `attachLease`, which gives the lease back
    have hact := attach_late hj (hs.inHand.mp hl) hend
    have hlocked : (e.act j Object.attach).1.Locked := h.act fun _ _ _ => attach_acts
    have hj' : (e.act j Object.attach).1.objects[j]? =
        some { x with job := ⟨x.job.op, .leaving⟩, stage := .late } := by
      rw [hact]
      exact getElem?_set_self (List.getElem?_eq_some_iff.mp hj).1
    obtain ⟨hfree, hsame⟩ := releaseLate_frees hlocked hj' rfl
    refine ⟨[.attach j, .releaseLate j], by simp, hfree, fun i hij => (hsame i hij).trans ?_⟩
    rw [hact]
    exact getElem?_set_ne hij.symm

end Engine

/-- The project locks, for every interleaving of `Create` and `StartOperation`, of waits that end in
any way, and of transitions, behind any boot.

1. No two operations of a project are between their grants and their ends.
2. A lease is granted and released at most once, and once all is done that an ended operation left
   to do it was released if it was granted.
3. While a lease is outstanding the lock is held in the name of its operation.
4. An operation whose wait failed is never executed.
5. That an `Acquire` gets the lock at a look, the first or a later one, if no operation is between
   its grant and its end holds exactly when no operation is stale: at its end, with its lease not yet
   released.
6. With a positive wait an `Acquire` that meets a stale operation is not refused but waits, and gets
   the lock at a look behind what that operation has left to do. -/
theorem locks_exclusive_iff (c : EngineConfig) {b : Boot} {journal : Table Text Record}
    {e₀ : Engine} (hboot : (boot c b journal).2 = some e₀) (calls : List Call) :
    let e := e₀.run c calls
    (∀ (i j : Nat) (oi oj : Object) key, e.objects[i]? = some oi → e.objects[j]? = some oj →
      oi.Between key → oj.Between key → i = j) ∧
    (∀ o ∈ e.objects, o.events.count .granted ≤ 1 ∧
      o.events.count .released ≤ o.events.count .granted ∧
      (o.terminal = true → o.Quiet → o.events.count .released = o.events.count .granted)) ∧
    (∀ o ∈ e.objects, o.job.lease.outstanding = true →
      e.held.get o.spec.projectKey = some o.spec.operationId) ∧
    (∀ o ∈ e.objects, .refused ∈ o.events → .started ∉ o.events ∧ .created ∉ o.events) ∧
    (∀ (i : Nat) (o : Object), e.objects[i]? = some o → o.Acquiring →
      (((∀ x ∈ e.objects, ¬ x.Between o.spec.projectKey) →
          (e.look c i).stageAt i = some .granted) ↔ ¬ e.Stale o.spec.projectKey)) ∧
    (0 < c.projectLockWait → ∀ (i : Nat) (o : Object), e.objects[i]? = some o → o.Acquiring →
      e.Stale o.spec.projectKey →
        (e.look c i).stageAt i = some .blocked ∧
        ∃ j rest, (∀ call ∈ rest, call ∈ [Call.attach j, .releaseLate j, .releaseAfter j]) ∧
          ((e.run c rest).look c i).stageAt i = some .granted) := by
  intro e
  have hlocked : e.Locked := (Engine.locked_of_boot hboot).run c calls
  refine ⟨?_, fun o ho => (hlocked.sound o ho).leases, ?_, ?_, ?_, ?_⟩
  · intro i j oi oj key hi hj hbi hbj
    have hki := (hlocked.sound oi (mem_of_getElem? hi)).holds hbi
    have hkj := (hlocked.sound oj (mem_of_getElem? hj)).holds hbj
    exact hlocked.one i j key _ _ ⟨oi, hi, hki, rfl⟩ ⟨oj, hj, hkj, rfl⟩
  · intro o ho hout
    obtain ⟨i, hi⟩ := mem_iff_getElem?.mp ho
    exact (hlocked.held _ _).mpr ⟨i, o, hi, ⟨rfl, hout⟩, rfl⟩
  · intro o ho hr
    have hexecuted := (hlocked.sound o ho).executed
    exact ⟨fun hx => (hexecuted (.inl hx)).1 hr, fun hx => (hexecuted (.inr hx)).1 hr⟩
  · intro i o hi hs
    rw [Engine.look_granted_iff c hlocked hi hs, Engine.free_iff hlocked]
    constructor
    · intro h hstale
      exact (h (Engine.not_between_of_stale hlocked hstale)).2 hstale
    · intro hstale hbetween
      exact ⟨hbetween, hstale⟩
  · intro hwait i o hi hs hstale
    have hheld : e.held.get o.spec.projectKey ≠ none := fun hfree =>
      ((Engine.free_iff hlocked _).mp hfree).2 hstale
    obtain ⟨owner, howner⟩ := Option.ne_none_iff_exists'.mp hheld
    have hl : o.job.lease = .absent :=
      (hlocked.sound o (mem_of_getElem? hi)).early (hs.imp id .inl)
    obtain ⟨j, rest, hrest, hfree, hsame⟩ := hstale.passes c hlocked
    refine ⟨?_, j, rest, hrest, ?_⟩
    · rw [Engine.look_stage c hlocked hi hs, howner]
      simp [hwait.ne']
    · exact (Engine.look_granted_iff c (hlocked.run c rest) (hsame i o hi hl) hs).mpr hfree

/-! ## Two starts of one project -/

def impatient : EngineConfig where
  outputTailBytes := 65536
  audited := false
  projectLockWait := 0
  resultRetention := 3600000000000
  resultMax := 100

def promptBoot : Boot where
  now := 1767225600 * second
  fates := fun _ => .ok
  deletes := fun _ => true
  audits := fun _ => ⟨true, .ok, true⟩

def Engine.empty : Engine := ⟨[], .empty, [], .empty⟩

theorem boot_empty (c : EngineConfig) (b : Boot) : (boot c b .empty).2 = some .empty := by
  unfold boot replayTerminalAudits
  cases hc : c.audited <;> rfl

def webSpec (id : Text) : Spec := ⟨id, text "web", text "web-1", .containerStart, []⟩

/-- The first operation is rejected by the disk budget and has not released its lease; the second one
is about to look at the lock. -/
def rejectedStart : List Call :=
  [.accept (webSpec (text "op-1")) true (1767225601 * second) (fun _ => true) .ok, .look 0,
    .attach 0, .dispatch 0 [] (1767225602 * second) (1767225602 * second) .ok (1767225602 * second)
      (1767225602 * second) .ok, .invoke 0,
    .transition 0 (.reject (text "disk budget exhausted") (1767225603 * second)
      (1767225603 * second) .ok),
    .accept (webSpec (text "op-2")) true (1767225604 * second) (fun _ => true) .ok]

instance (o : Object) (key : Text) : Decidable (o.Between key) := by
  unfold Object.Between
  infer_instance

theorem rejectedStart_exclusive :
    (boot impatient promptBoot .empty).2 = some .empty ∧
    ∀ (i j : Nat) (oi oj : Object) key,
      (Engine.empty.run impatient rejectedStart).objects[i]? = some oi →
      (Engine.empty.run impatient rejectedStart).objects[j]? = some oj →
      oi.Between key → oj.Between key → i = j :=
  ⟨boot_empty _ _, (locks_exclusive_iff impatient (boot_empty impatient promptBoot) rejectedStart).1⟩

/-- No operation of the project is between its grant and its end, and still the second operation is
told that the project is busy. -/
theorem rejectedStart_busy :
    let e := Engine.empty.run impatient rejectedStart
    (boot impatient promptBoot .empty).2 = some .empty ∧
    (∀ x ∈ e.objects, ¬ x.Between (text "web")) ∧
    e.stageAt 1 = some .waiting ∧ (e.look impatient 1).stageAt 1 = some .refused := by
  refine ⟨boot_empty _ _, ?_⟩
  decide +kernel

end DockLattice.Operation
