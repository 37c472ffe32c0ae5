import DockLattice.Operation.Runner
import DockLattice.Operation.World

/-!
# DockLattice.Operation.Once

An operation runs at most once. The index that says so is in memory, and is rebuilt from a journal
whose entries two eviction paths delete; `Up` is what ties the two to each other and to the history of
the world, and it holds behind every boot.

Only operations of `StartOperation` are followed: an operation that `Create` has given out can be
driven to its end behind the back of its goroutine.
-/

namespace DockLattice.Operation

open List JournalWrite Object Table

variable {f : Op → Option Op} {fate : Fate} {history : List Note} {i : Nat} {id : Text}
  {items : Table Text Nat} {journal : Table Text Record} {now : Time} {o : Object} {spec : Spec}
  {stage : Stage} {writes : List JournalWrite} {o' : Object}

namespace Object

def Early (o : Object) : Prop := o.stage ≠ .invoked ∧ o.stage ≠ .ended

structure Driven (o : Object) : Prop where
  noted : o.job.op.Noted
  unshared : o.shared = false
  uncreated : o.stage ≠ .created
  runner : o.stage = .ended ∨ o.runner = true
  ending : o.terminal = true → ¬ o.Early

/-- What an action can do to an operation, and what it writes. An operation that is at its end and
has delivered its audit writes nothing more. -/
structure Does (o o' : Object) (writes : List JournalWrite) : Prop where
  driven : o'.Driven
  spec : o'.spec = o.spec
  early : o'.Early → o.Early
  saved : (writes = [] ∧ o'.job.op = o.job.op) ∨
    (writes = [.save o'.job.op.record] ∧ (o.terminal = false ∨ o.pending = true))

section Actions

variable {c : EngineConfig} {o' : Object}

def Inert (f : Op → Option Op) : Prop :=
  ∀ op, op.record.status.terminal = true → op.record.managedAuditDelivery ≠ .pending → f op = none

theorem legal_not_terminal {s next : Status} (h : s.terminal = true) :
    legalStatusTransition s next = false := by
  cases s <;> first | rfl | cases h

theorem inert_of_event {e : Event} {k : Config} (h : e.transition k = some (fate, f)) :
    Inert f := by
  intro op hend hdone
  cases e with
  | transitionStatus next result errorText now finished fate' =>
    cases h
    simp [Operation.transitionStatus, transitionAllowed, legal_not_terminal hend]
  | advancePhase next now fate' =>
    cases h
    simp [Operation.advancePhase, hend]
  | enterCommit now fate' =>
    cases h
    simp [Operation.enterCommit, hend]
  | cancel reason now fate' =>
    cases h
    simp [cancelWithError, hend]
  | reject cause now finished fate' =>
    cases h
    simp [Operation.reject, hend]
  | advanceProgress now fate' =>
    cases h
    simp [Operation.advanceProgress, hend]
  | markDelivered fate' =>
    cases h
    simp [Operation.markDelivered, hdone]
  | writeOutput | flushOutputTail | dropOutput | restart => cases h

theorem call_op (o : Object) (fate : Fate) (f : Op → Option Op) :
    ((o.call fate f).2.2 = [] ∧ (o.call fate f).1.job.op = o.job.op) ∨
      f o.job.op = some (o.call fate f).1.job.op ∧
        (o.call fate f).2.2 = [.save (o.call fate f).1.job.op.record] := by
  rcases o.call_cases fate f with ⟨out, -, heq⟩ | ⟨new, hnew, -, -, ⟨-, -, heq⟩ | ⟨-, heq⟩⟩ <;>
    rw [heq]
  · exact .inl ⟨rfl, rfl⟩
  · exact .inr ⟨hnew, rfl⟩
  · exact .inr ⟨hnew, rfl⟩

theorem call_saved (o : Object) (fate : Fate) (hf : Inert f) :
    ((o.call fate f).2.2 = [] ∧ (o.call fate f).1.job.op = o.job.op) ∨
      ((o.call fate f).2.2 = [.save (o.call fate f).1.job.op.record] ∧
        (o.terminal = false ∨ o.pending = true)) := by
  rcases o.call_op fate f with hsame | ⟨hnew, hwrites⟩
  · exact .inl hsame
  refine .inr ⟨hwrites, ?_⟩
  by_contra hno
  rw [not_or, Bool.not_eq_false, Bool.not_eq_true] at hno
  have hdone : o.job.op.record.managedAuditDelivery ≠ .pending := by
    simpa [pending] using hno.2
  rw [hf _ hno.1 hdone] at hnew
  cases hnew

theorem call_noted (h : o.job.op.Noted) (fate : Fate) (ht : Transition f) :
    (o.call fate f).1.job.op.Noted := by
  rcases o.call_op fate f with ⟨-, hsame⟩ | ⟨hnew, -⟩
  · rw [hsame]
    exact h
  · exact (ht _ _ h hnew).noted

variable {e : Event} {fate' : Fate} {k : Config}

section

variable (h : o.Driven)

include h

theorem call_does (fate : Fate) (he : e.transition k = some (fate', f))
    (hstage : stage = .invoked ∨ stage = .ended) (hearly : stage = .invoked → o.stage = .invoked) :
    o.Does { (o.call fate f).1 with stage := stage } (o.call fate f).2.2 := by
  have ht := transition_of_event he
  obtain ⟨-, hspec, -, -, hrunner, hshared⟩ := o.call_frame fate ht h.noted
  have hlate : ¬ Early { (o.call fate f).1 with stage := stage } := fun he =>
    hstage.elim he.1 he.2
  refine ⟨⟨call_noted h.noted fate ht, hshared.trans h.unshared, ?_, ?_, fun _ => hlate⟩, hspec,
    fun hearly => absurd hearly hlate, call_saved o fate (inert_of_event he)⟩
  · rcases hstage with hs | hs <;> simp [hs]
  rcases hstage with hs | hs
  · right
    refine hrunner.trans (h.runner.resolve_left ?_)
    rw [hearly hs]
    simp
  · exact .inl hs

theorem call_does_within (fate : Fate) (he : e.transition k = some (fate', f))
    (hstatus : ∀ op op', f op = some op' → op'.record.status = op.record.status) :
    o.Does (o.call fate f).1 (o.call fate f).2.2 := by
  have ht := transition_of_event he
  obtain ⟨hstage, hspec, -, -, hrunner, hshared⟩ := o.call_frame fate ht h.noted
  have hterminal : (o.call fate f).1.terminal = o.terminal := by
    rcases o.call_op fate f with ⟨-, hsame⟩ | ⟨hnew, -⟩
    · exact congrArg (·.record.status.terminal) hsame
    · exact congrArg Status.terminal (hstatus _ _ hnew)
  have hearly : Early (o.call fate f).1 ↔ o.Early := by
    unfold Early
    rw [hstage]
  refine ⟨⟨call_noted h.noted fate ht, hshared.trans h.unshared, ?_, ?_, ?_⟩, hspec, hearly.mp,
    call_saved o fate (inert_of_event he)⟩
  · rw [hstage]
    exact h.uncreated
  · rw [hstage, hrunner]
    exact h.runner
  · rw [hterminal, hearly]
    exact h.ending

theorem Driven.live (he : o.Early) : o.terminal = false := by
  cases ht : o.terminal with
  | false => rfl
  | true => exact absurd he (h.ending ht)

theorem Driven.moved (hop : o'.job.op = o.job.op) (hshared : o'.shared = o.shared)
    (hrunner : o'.runner = o.runner)
    (hstage : o'.stage = o.stage ∨ o'.stage = .ended ∨ o.Early ∧ o'.stage ≠ .created) :
    o.Does o' [] := by
  have hterminal : o'.terminal = o.terminal := congrArg (·.record.status.terminal) hop
  have hearly : o'.Early → o.Early := by
    intro he
    rcases hstage with hs | hs | hs
    · rwa [Early, hs] at he
    · exact absurd hs he.2
    · exact hs.1
  refine ⟨⟨?_, hshared.trans h.unshared, ?_, ?_, ?_⟩, congrArg (·.record.spec) hop, hearly,
    .inl ⟨rfl, hop⟩⟩
  · rw [hop]
    exact h.noted
  · rcases hstage with hs | hs | hs
    · rw [hs]
      exact h.uncreated
    · simp [hs]
    · exact hs.2
  · rw [hrunner]
    rcases hstage with hs | hs | hs
    · rw [hs]
      exact h.runner
    · exact .inl hs
    · exact .inr (h.runner.resolve_left hs.1.2)
  · rw [hterminal]
    exact fun hend he => h.ending hend (hearly he)

theorem Driven.still : o.Does o [] := h.moved rfl rfl rfl (.inl rfl)

theorem Driven.advance (he : o.Early) (hop : o'.job.op = o.job.op)
    (hshared : o'.shared = o.shared) (hrunner : o'.runner = o.runner)
    (hstage : o'.stage ≠ .created) : o.Does o' [] :=
  h.moved hop hshared hrunner (.inr (.inr ⟨he, hstage⟩))

end

theorem early_of_stage (h : o.stage = stage) (hs : stage ≠ .invoked ∧ stage ≠ .ended) :
    o.Early := by
  subst h
  exact hs

section

variable {cause : Text} {finished rejectedNow rejectedFinished : Time} {rejectedFate : Fate}
  {event : Event} {reason : CancelReason} (h : o.Driven)

include h

theorem giveUp_does (hf : o.giveUp = some (o', writes)) : o.Does o' writes := by
  unfold giveUp at hf
  split at hf
  · next hs =>
    cases hf
    exact h.advance (early_of_stage hs (by simp)) rfl rfl rfl nofun
  · cases hf

theorem refuse_does (hf : o.refuse c cause now finished fate = some (o', writes)) :
    o.Does o' writes := by
  unfold refuse at hf
  split at hf
  · cases hf
    obtain ⟨event, hevent⟩ := refusal_event c cause now finished o
    exact call_does h fate hevent (.inr rfl) (by simp)
  · cases hf

theorem goOn_does (he : o.Early) (hop : o'.job.op = o.job.op) (hshared : o'.shared = o.shared)
    (hrunner : o'.runner = o.runner) : o.Does (goOn o') [] := by
  unfold goOn
  rw [if_pos (hrunner.trans (h.runner.resolve_left he.2))]
  exact h.advance he hop hshared hrunner (by simp)

theorem attach_does (hf : o.attach = some (o', writes)) : o.Does o' writes := by
  unfold attach at hf
  split at hf
  · next hs =>
    have he : o.Early := early_of_stage hs (by simp)
    rw [h.live he] at hf
    cases hf
    refine goOn_does h he ?_ rfl rfl
    unfold Job.attachLease
    split <;> rfl
  · cases hf

theorem dispatch_does (hf : o.dispatch c cause now finished fate rejectedNow rejectedFinished
    rejectedFate = some (o', writes)) : o.Does o' writes := by
  obtain ⟨hs, ⟨o₁, hcall, rfl⟩ | ⟨o₁, out, hcall, rfl⟩⟩ := dispatch_cases hf
  · have he : o.Early := early_of_stage hs (by simp)
    have hevent : (Event.transitionStatus .dispatched [] [] now finished fate).transition
      c.toConfig = some (_, _) := rfl
    have ht := transition_of_event hevent
    obtain ⟨-, hspec, -, -, hrunner, hshared⟩ := o.call_frame fate ht h.noted
    have hnoted := call_noted h.noted fate ht
    have hsaved := call_saved o fate (inert_of_event hevent)
    have hop := o.call_op fate fun op =>
      transitionStatus c.toConfig op .dispatched [] [] now finished
    rw [hcall] at hspec hrunner hshared hnoted hsaved hop
    have hlive : o₁.terminal = false := by
      rcases hop with ⟨-, hsame⟩ | ⟨hnew, -⟩
      · exact (congrArg (·.record.status.terminal) hsame).trans (h.live he)
      · exact congrArg Status.terminal (Goroutine.transitionStatus_status hnew)
    refine ⟨⟨hnoted, hshared.trans h.unshared, by simp,
      .inr (hrunner.trans (h.runner.resolve_left he.2)), fun hend => ?_⟩, hspec, fun _ => he, hsaved⟩
    cases hlive.symm.trans hend
  · have hdoes := call_does (k := c.toConfig)
      (e := .reject cause rejectedNow rejectedFinished rejectedFate) h rejectedFate rfl (.inr rfl)
      (by simp)
    rwa [hcall] at hdoes

theorem finish_does (hf : o.finish = some (o', writes)) : o.Does o' writes := by
  unfold finish at hf
  split at hf
  · cases hf
    exact h.moved rfl rfl rfl (.inr (.inl rfl))
  · cases hf

theorem transition_does (hf : o.transition c event = some (o', writes)) : o.Does o' writes := by
  unfold transition at hf
  split at hf
  · next hguard =>
    have hs : o.stage = .invoked := by
      simp only [h.unshared, h.uncreated, decide_false, Bool.or_false, decide_eq_true_eq] at hguard
      exact hguard
    split at hf
    · cases hf
    next fate f ht =>
    cases hf
    have hdoes := call_does h fate ht (.inl rfl) fun _ => hs
    have hstage := (o.call_frame fate (transition_of_event ht) h.noted).1
    rw [hs] at hstage
    rw [← hstage] at hdoes
    exact hdoes
  · cases hf

theorem cancel_does (hf : o.cancel reason now fate = some (o', writes)) : o.Does o' writes := by
  cases hf
  exact call_does_within (k := ⟨0, false⟩) (e := .cancel reason now fate) h fate rfl
    fun _ _ hop => (cancelWithError_inner hop).status

theorem deliver_does (fate : Fate) :
    o.Does (o.call fate markDelivered).1 (o.call fate markDelivered).2.2 := by
  refine call_does_within (k := ⟨0, false⟩) (e := .markDelivered fate) h fate rfl ?_
  intro op op' hop
  unfold markDelivered at hop
  split at hop
  · cases hop
    rfl
  · cases hop

theorem invoke_does (hf : o.invoke = some (o', writes)) :
    o.Does o' writes ∧ o.stage = .dispatched ∧ ¬ o'.Early := by
  unfold invoke at hf
  split at hf
  · next hs =>
    cases hf
    have he : o.Early := early_of_stage hs (by simp)
    exact ⟨h.advance he rfl rfl rfl nofun, hs, fun hearly => hearly.1 rfl⟩
  · cases hf

end

end Actions
end Object

/-! ## The index, the journal and the history -/

structure Up (journal : Table Text Record) (history : List Note) (objects : List Object)
    (items : Table Text Nat) : Prop where
  indexed : ∀ id i, items.get id = some i → ∃ o, objects[i]? = some o ∧ o.spec.operationId = id ∧
    journal.get id = some o.job.op.record.journaled ∧
    ∃ spec, acceptedAs id history = some spec ∧ (o.spec = spec ∨ o.spec = spec.journaled)
  unindexed : ∀ id, items.get id = none → journal.get id = none
  busy : ∀ (i : Nat) (o : Object), objects[i]? = some o → o.terminal = false ∨ o.pending = true →
    items.get o.spec.operationId = some i
  driven : ∀ o ∈ objects, o.Driven
  early : ∀ o ∈ objects, o.Early → startsSince o.spec.operationId history = 0

def UpBehind (journal : Table Text Record) (history : List Note) (writes : List JournalWrite)
    (objects : List Object) (items : Table Text Nat) : Prop :=
  ProperWrites journal writes ∧
    Up (writes.foldl JournalWrite.apply journal) (history ++ writes.flatMap JournalWrite.notes)
      objects items

namespace Up

variable {objects : List Object}

theorem behind_nil (h : Up journal history objects items) :
    UpBehind journal history [] objects items :=
  ⟨trivial, by simpa using h⟩

theorem behind_append {objects' : List Object} {items' : Table Text Nat}
    {writes' : List JournalWrite} (hk : Kept journal history)
    (h : UpBehind journal history writes objects items)
    (hnext : ∀ journal' history', Kept journal' history' → Up journal' history' objects items → UpBehind journal' history' writes' objects' items') :
     UpBehind journal history (writes ++ writes') objects' items' := by
  obtain ⟨hproper, hup⟩ := h
  obtain ⟨hproper', hup'⟩ := hnext _ _ (hk.write hproper) hup
  refine ⟨properWrites_append.mpr ⟨hproper, hproper'⟩, ?_⟩
  rw [foldl_append, flatMap_append, ← append_assoc]
  exact hup'

section

variable (h : Up journal history objects items)

include h

theorem object_at (hget : items.get id = some i) (hi : objects[i]? = some o) :
    o.spec.operationId = id ∧ journal.get id = some o.job.op.record.journaled ∧
      ∃ spec, acceptedAs id history = some spec ∧ (o.spec = spec ∨ o.spec = spec.journaled) := by
  obtain ⟨x, hx, hrest⟩ := h.indexed id i hget
  rw [hi] at hx
  cases hx
  exact hrest

section

variable (hi : objects[i]? = some o)

include hi

theorem driven_set (hd : o.Does o' writes) :
    (∀ x ∈ objects.set i o', x.Driven) ∧
      ∀ x ∈ objects.set i o', x.Early → startsSince x.spec.operationId history = 0 := by
  refine ⟨?_, ?_⟩
  · intro x hx
    rcases mem_or_eq_of_mem_set hx with hx | rfl
    · exact h.driven x hx
    · exact hd.driven
  · intro x hx he
    rcases mem_or_eq_of_mem_set hx with hx | rfl
    · exact h.early x hx he
    · rw [hd.spec]
      exact h.early o (mem_of_getElem? hi) (hd.early he)

theorem replace {journal' : Table Text Record}
    (hd : o.Does o' writes)
    (hself : ∀ id, items.get id = some i → journal'.get id = some o'.job.op.record.journaled)
    (hothers : ∀ id, items.get id ≠ some i → journal'.get id = journal.get id)
    (hbusy : o'.terminal = false ∨ o'.pending = true → items.get o.spec.operationId = some i) :
    Up journal' history (objects.set i o') items := by
  obtain ⟨hdriven, hearly⟩ := h.driven_set hi hd
  have hat : (objects.set i o')[i]? = some o' :=
    getElem?_set_self (List.getElem?_eq_some_iff.mp hi).1
  refine ⟨?_, ?_, ?_, hdriven, hearly⟩
  · intro id j hget
    by_cases hij : i = j
    · subst hij
      obtain ⟨hname, -, haccepted⟩ := h.object_at hget hi
      rw [← hd.spec] at hname haccepted
      exact ⟨o', hat, hname, hself id hget, haccepted⟩
    · obtain ⟨x, hx, hname, hjournal, haccepted⟩ := h.indexed id j hget
      refine ⟨x, ?_, hname, ?_, haccepted⟩
      · rw [getElem?_set_ne hij]
        exact hx
      · rw [hothers id (by simp [hget, Ne.symm hij])]
        exact hjournal
  · intro id hget
    rw [hothers id (by simp [hget])]
    exact h.unindexed id hget
  · intro j x hj hx
    by_cases hij : i = j
    · subst hij
      rw [hat] at hj
      cases hj
      rw [hd.spec]
      exact hbusy hx
    · rw [getElem?_set_ne hij] at hj
      exact h.busy j x hj hx

theorem set (hd : o.Does o' writes) :
    UpBehind journal history writes (objects.set i o') items := by
  rcases hd.saved with ⟨rfl, hop⟩ | ⟨rfl, hbusy⟩
  · refine behind_nil (h.replace hi hd ?_ (fun _ _ => rfl) ?_)
    · intro id hget
      rw [hop]
      exact (h.object_at hget hi).2.1
    · intro hx
      refine h.busy i o hi ?_
      unfold terminal Job.terminal pending at hx ⊢
      rw [← hop]
      exact hx
  have hindex := h.busy i o hi hbusy
  obtain ⟨-, hjournal, -⟩ := h.object_at hindex hi
  have hkey : o'.job.op.record.operationId = o.spec.operationId :=
    congrArg Spec.operationId hd.spec
  have hspec : o'.job.op.record.spec = o.job.op.record.spec := hd.spec
  unfold UpBehind
  simp only [foldl_cons, foldl_nil, flatMap_cons, flatMap_nil, apply, notes, append_nil, hkey]
  refine ⟨⟨⟨o.job.op.record.journaled, ?_, ?_⟩, trivial⟩, h.replace hi hd ?_ ?_ fun _ => hindex⟩
  · rw [hkey]
    exact hjournal
  · exact congrArg Spec.journaled hspec.symm
  · intro id hget
    rw [get_set, if_pos (h.object_at hget hi).1.symm]
  · intro id hget
    rw [get_set, if_neg]
    intro hid
    exact hget (hid ▸ hindex)

end

theorem evict (hget : items.get id = some i) (hi : objects[i]? = some o) (hend : o.terminal = true)
    (hdone : o.pending = false) :
    UpBehind journal history [.delete id] objects (items.erase id) := by
  refine ⟨⟨trivial, trivial⟩, ?_⟩
  simp only [foldl_cons, foldl_nil, flatMap_cons, flatMap_nil, apply, notes, append_nil]
  refine ⟨?_, ?_, ?_, h.driven, ?_⟩
  · intro id' j hj
    rw [get_erase] at hj
    split at hj
    · cases hj
    next hid =>
    obtain ⟨x, hx, hname, hjournal, spec, haccepted, hspec⟩ := h.indexed id' j hj
    have hne : id ≠ id' := fun heq => hid heq.symm
    refine ⟨x, hx, hname, ?_, spec, ?_, hspec⟩
    · rw [get_erase, if_neg hid]
      exact hjournal
    · rw [acceptedAs_evicted, if_neg hne]
      exact haccepted
  · intro id' hj
    rw [get_erase] at hj ⊢
    split
    · rfl
    · next hid =>
      rw [if_neg hid] at hj
      exact h.unindexed id' hj
  · intro j x hj hx
    have hindex := h.busy j x hj hx
    rw [get_erase, if_neg ?_]
    · exact hindex
    · -- the operation evicted is not busy
      intro hid
      rw [hid, hget] at hindex
      cases hindex
      rw [hi] at hj
      cases hj
      rw [hend, hdone] at hx
      simp at hx
  · intro x hx he
    rw [startsSince_evicted]
    split
    · rfl
    · exact h.early x hx he

end

theorem cleanupLoop (c : EngineConfig) (now : Time) (deletes : Nat → Bool)
    (results : List ResultEntry) (n : Nat) (hk : Kept journal history)
    (h : Up journal history objects items) :
    let out := Engine.cleanupLoop c now deletes objects n results items
    UpBehind journal history out.2.2 objects out.2.1 := by
  induction results generalizing n journal history items with
  | nil => exact h.behind_nil
  | cons entry rest ih =>
    unfold Engine.cleanupLoop
    split
    · cases hat : (items.get entry.id).bind fun i => objects[i]? with
      | none => exact ih (n + 1) hk h
      | some o =>
        simp only
        obtain ⟨i, hget, hi⟩ := Option.bind_eq_some_iff.mp hat
        split
        · next hend =>
          split
          · exact h.behind_nil
          next hdelete =>
          have hdone : o.pending = false := by
            simp only [Bool.or_eq_true, not_or, Bool.not_eq_true] at hdelete
            exact hdelete.1
          exact behind_append hk (h.evict hget hi hend hdone) fun _ _ hk' hnext =>
            ih (n + 1) hk' hnext
        · exact ih (n + 1) hk h
    · exact h.behind_nil

theorem reclaimLoop (cutoff : Time) (needed : Nat) (answers : Nat → ReclaimAnswer)
    (results : List ResultEntry) (n freed : Nat) (hk : Kept journal history)
    (h : Up journal history objects items) :
    let out := Engine.reclaimLoop cutoff needed answers objects n freed results items
    UpBehind journal history out.2.2 objects out.2.1 := by
  induction results generalizing n freed journal history items with
  | nil => exact h.behind_nil
  | cons entry rest ih =>
    unfold Engine.reclaimLoop
    simp only
    split
    · exact h.behind_nil
    cases hat : (items.get entry.id).bind fun i => objects[i]? with
    | none => exact ih (n + 1) freed hk h
    | some o =>
      simp only
      obtain ⟨i, hget, hi⟩ := Option.bind_eq_some_iff.mp hat
      split
      · exact ih (n + 1) freed hk h
      next hend =>
      have hend' : o.terminal = true ∧ o.pending = false := by
        simpa using hend
      have hevict := h.evict hget hi hend'.1 hend'.2
      split
      · exact h.behind_nil
      · split
        · exact hevict
        · exact behind_append hk hevict fun _ _ hk' hnext => ih (n + 1) _ hk' hnext

theorem accepted (h : Up journal history objects items) (hk : Kept journal history)
    (hvalid : Engine.validSpec spec = true) (hnew : items.get spec.operationId = none)
    (now : Time) :
    UpBehind journal history [.create (newRecord spec now)]
      (objects ++ [Object.accepted spec true now]) (items.set spec.operationId objects.length) := by
  have hnone := h.unindexed _ hnew
  obtain ⟨hstarts, hunknown⟩ := hk.absent _ hnone
  have hspec : (Object.accepted spec true now).spec = spec := rfl
  have hrecord : (newRecord spec now).operationId = spec.operationId := rfl
  have hold : ∀ {i : Nat} {o : Object}, objects[i]? = some o →
      (objects ++ [Object.accepted spec true now])[i]? = some o := by
    intro i o hi
    rw [getElem?_append_left (List.getElem?_eq_some_iff.mp hi).1]
    exact hi
  have hlast : (objects ++ [Object.accepted spec true now])[objects.length]? =
      some (Object.accepted spec true now) := by simp
  refine ⟨⟨⟨hnone, hvalid⟩, trivial⟩, ?_⟩
  simp only [foldl_cons, foldl_nil, flatMap_cons, flatMap_nil, apply, notes, append_nil, hrecord]
  refine ⟨?_, ?_, ?_, ?_, ?_⟩
  · intro id i hget
    rw [get_set] at hget
    by_cases hid : id = spec.operationId
    · subst hid
      rw [if_pos rfl] at hget
      cases hget
      refine ⟨_, hlast, rfl, ?_, spec, ?_, .inl hspec⟩
      · rw [get_set, if_pos rfl]
        rfl
      · rw [acceptedAs_accepted]
        exact if_pos rfl
    · rw [if_neg hid] at hget
      obtain ⟨o, hi, hname, hjournal, spec', haccepted, hspec'⟩ := h.indexed id i hget
      refine ⟨o, hold hi, hname, ?_, spec', ?_, hspec'⟩
      · rw [get_set, if_neg hid]
        exact hjournal
      · rw [acceptedAs_accepted, if_neg]
        · exact haccepted
        · intro heq
          exact hid heq.symm
  · intro id hget
    rw [get_set] at hget ⊢
    split
    · next hid =>
      rw [if_pos hid] at hget
      cases hget
    · next hid =>
      rw [if_neg hid] at hget
      exact h.unindexed id hget
  · intro i o hi hbusy
    rw [getElem?_append] at hi
    split at hi
    · next hlt =>
      have hindex := h.busy i o hi hbusy
      rw [get_set, if_neg]
      · exact hindex
      · intro hid
        rw [hid, hnew] at hindex
        cases hindex
    next hge =>
    have hzero : i - objects.length = 0 := by
      by_contra hne
      rw [getElem?_eq_none (by simp; omega)] at hi
      cases hi
    rw [hzero] at hi
    cases hi
    rw [hspec, get_set, if_pos rfl]
    congr 1
    omega
  · refine forall_mem_append.mpr ⟨h.driven, forall_mem_singleton.mpr ?_⟩
    refine ⟨rfl, rfl, ?_, .inr rfl, fun hend => by cases hend⟩
    unfold Object.accepted
    cases spec.kind.requiresProjectLock <;> simp
  · intro o ho he
    rw [startsSince_accepted]
    rcases mem_append.mp ho with ho | ho
    · exact h.early o ho he
    · rw [mem_singleton] at ho
      rw [ho]
      exact hstarts

end Up

/-! ## The calls -/

def Call.ByStart : Call → Prop
  | .accept _ runner _ _ _ => runner = true
  | _ => True

namespace Engine

/-- `UpBehind` for what a call leaves and writes. -/
abbrev Leaves (journal : Table Text Record) (history : List Note)
    (out : Engine × List JournalWrite) : Prop :=
  UpBehind journal history out.2 out.1.objects out.1.items

variable {e : Engine} (c : EngineConfig) (hk : Kept journal history)
  (h : Up journal history e.objects e.items)

include h

theorem act_up (i : Nat) {f : Object → Option (Object × List JournalWrite)}
    (hf : ∀ o o' writes, o.Driven → f o = some (o', writes) → o.Does o' writes) :
    Leaves journal history (e.act i f) := by
  unfold act
  split
  · exact h.behind_nil
  next o hi =>
  split
  · exact h.behind_nil
  next o' writes ho => exact h.set hi (hf o o' writes (h.driven o (mem_of_getElem? hi)) ho)

theorem look_up (i : Nat) :
    UpBehind journal history [] (e.look c i).objects (e.look c i).items := by
  unfold look
  split
  · exact h.behind_nil
  next o hi =>
  have hd := h.driven o (mem_of_getElem? hi)
  split
  · next hstage =>
    have he : o.Early := by
      simp only [Bool.or_eq_true, decide_eq_true_eq] at hstage
      rcases hstage with hs | hs <;> exact early_of_stage hs (by simp)
    split
    · exact h.set hi (hd.advance he rfl rfl rfl nofun)
    split
    · exact h.set hi (hd.advance he rfl rfl rfl nofun)
    · split <;> exact h.set hi (hd.advance he rfl rfl rfl nofun)
  · exact h.behind_nil

omit h in
theorem release_frame (o : Object) : o.release.job.op = o.job.op ∧
    o.release.shared = o.shared ∧ o.release.runner = o.runner ∧ o.release.stage = o.stage := by
  unfold release
  split
  · exact ⟨Job.release_op _, rfl, rfl, rfl⟩
  · exact ⟨rfl, rfl, rfl, rfl⟩

theorem releaseLate_up (i : Nat) :
    UpBehind journal history [] (e.releaseLate i).objects (e.releaseLate i).items := by
  unfold releaseLate
  split
  · exact h.behind_nil
  next o hi =>
  split
  · next hs =>
    have he : o.Early := early_of_stage hs (by simp)
    obtain ⟨hop, hshared, hrunner, -⟩ := release_frame o
    exact h.set hi (goOn_does (h.driven o (mem_of_getElem? hi)) he hop hshared hrunner)
  · exact h.behind_nil

theorem releaseAfter_up (i : Nat) :
    UpBehind journal history [] (e.releaseAfter i).objects (e.releaseAfter i).items := by
  unfold releaseAfter
  split
  · exact h.behind_nil
  next o hi =>
  have hd := h.driven o (mem_of_getElem? hi)
  split
  · obtain ⟨hop, hshared, hrunner, hstage⟩ := release_frame o
    exact h.set hi (hd.moved hop hshared hrunner (.inl hstage))
  · exact h.set hi (hd.moved rfl rfl rfl (.inl rfl))
  · exact h.behind_nil

include hk

theorem cleanup_up (now : Time) (deletes : Nat → Bool) :
    Leaves journal history (e.cleanupLocked c now deletes) :=
  Up.cleanupLoop c now deletes e.results 0 hk h

theorem onTerminal_up (i : Nat) (now : Time) (deletes : Nat → Bool) :
    Leaves journal history (e.onTerminal c i now deletes) := by
  unfold onTerminal
  split
  · exact h.behind_nil
  next o hi =>
  split
  · have hmoved : o.Does { o with after := .idle } [] :=
      (h.driven o (mem_of_getElem? hi)).moved rfl rfl rfl (.inl rfl)
    have hidle := h.set hi hmoved
    dsimp only
    split
    · exact Up.behind_append hk hidle fun _ _ hk' hup =>
        Up.cleanupLoop c now deletes _ 0 hk' hup
    · exact hidle
  · exact h.behind_nil

theorem admitSpec_up (hvalid : validSpec spec = true) (now : Time) (fate : Fate) :
    UpBehind journal history (e.admitSpec spec true now fate).2.1
      (e.admitSpec spec true now fate).1.objects (e.admitSpec spec true now fate).1.items := by
  unfold admitSpec
  split
  · split
    on_goal 2 => exact h.behind_nil
    next o hi =>
    split
    · exact h.behind_nil
    · simpa using h.set hi (h.driven o (mem_of_getElem? hi)).still
  · next hget =>
    dsimp only
    split
    · exact h.accepted hk hvalid hget now
    · exact h.behind_nil

theorem accept_up (spec : Spec) (now : Time) (deletes : Nat → Bool) (fate : Fate) :
    UpBehind journal history (e.accept c spec true now deletes fate).2.1
      (e.accept c spec true now deletes fate).1.objects
      (e.accept c spec true now deletes fate).1.items := by
  unfold accept
  split
  · next hvalid =>
    exact Up.behind_append hk (cleanup_up c hk h now deletes) fun _ _ hk' hup =>
      admitSpec_up hk' hup hvalid now fate
  · exact h.behind_nil

theorem reclaim_up (now : Time) (needed : Nat) (answers : Nat → ReclaimAnswer) :
    Leaves journal history (e.reclaimExpired c now needed answers) := by
  unfold reclaimExpired
  split
  · exact h.behind_nil
  · exact Up.reclaimLoop _ _ _ _ 0 0 hk h

theorem step_up {call : Call} (hcall : call.ByStart) : Leaves journal history (e.step c call) := by
  cases call with
  | accept spec runner now deletes fate =>
    cases hcall
    exact accept_up c hk h spec now deletes fate
  | look i => exact look_up c h i
  | giveUp i => exact act_up h i fun _ _ _ => giveUp_does
  | refuse i cause now finished fate =>
    exact act_up h i fun _ _ _ => refuse_does
  | attach i => exact act_up h i fun _ _ _ => attach_does
  | releaseLate i => exact releaseLate_up h i
  | dispatch i => exact act_up h i fun _ _ _ => dispatch_does
  | invoke i => exact act_up h i fun o o' writes hd hf => (invoke_does hd hf).1
  | transition i event => exact act_up h i fun _ _ _ => transition_does
  | finish i => exact act_up h i fun _ _ _ => finish_does
  | cancel operationId reason now fate =>
    simp only [Engine.step]
    cases e.items.get operationId with
    | none => exact h.behind_nil
    | some i => exact act_up h i fun _ _ _ => cancel_does
  | releaseAfter i => exact releaseAfter_up h i
  | onTerminal i now deletes => exact onTerminal_up c hk h i now deletes
  | deliver i fate =>
    refine act_up h i fun o o' writes hd hf => ?_
    cases hf
    exact deliver_does hd fate
  | cleanup now deletes => exact cleanup_up c hk h now deletes
  | reclaim now needed answers => exact reclaim_up c hk h now needed answers

theorem starts_up (hi : e.objects[i]? = some o) (hs : o.stage = .dispatched) :
    Kept journal (history ++ [.started o.spec.operationId]) ∧
      Up journal (history ++ [.started o.spec.operationId])
        (e.step c (.invoke i)).1.objects (e.step c (.invoke i)).1.items := by
  have hmem := mem_of_getElem? hi
  have he : o.Early := early_of_stage hs (by simp)
  have hzero := h.early o hmem he
  have hindex := h.busy i o hi (.inl ((h.driven o hmem).live he))
  obtain ⟨-, hjournal, -⟩ := h.object_at hindex hi
  have hinvoke : o.invoke = some (o.happen .invoked .started, []) := by
    unfold invoke
    rw [if_pos hs]
  have hstep : (e.step c (.invoke i)).1 =
      { e with objects := e.objects.set i (o.happen .invoked .started) } := by
    simp only [step, act, hi, hinvoke]
  obtain ⟨hdoes, -, hlate⟩ := invoke_does (h.driven o hmem) hinvoke
  have hup : Up journal history (e.objects.set i (o.happen .invoked .started)) e.items := by
    simpa using (h.set hi hdoes).2
  refine ⟨⟨?_, ?_, ?_⟩, ?_⟩
  · intro id
    rw [startsSince_started]
    split
    · next hid =>
      rw [← hid, hzero]
    · exact hk.starts id
  · intro id hnone
    have hne : o.spec.operationId ≠ id := by
      intro hid
      rw [hid, hnone] at hjournal
      cases hjournal
    rw [startsSince_started, acceptedAs_started, if_neg hne]
    exact hk.absent id hnone
  · intro id r hget
    rw [acceptedAs_started]
    exact hk.present id r hget
  rw [hstep]
  refine ⟨?_, hup.unindexed, hup.busy, hup.driven, ?_⟩
  · intro id j hget
    rw [acceptedAs_started]
    exact hup.indexed id j hget
  intro x hx hearly
  have hne : o.spec.operationId ≠ x.spec.operationId := by
    -- the only live operation of the ID is the one that was started
    intro hid
    obtain ⟨j, hj⟩ := mem_iff_getElem?.mp hx
    have hj' := hup.busy j x hj (.inl ((hup.driven x hx).live hearly))
    rw [← hid, hindex] at hj'
    cases hj'
    rw [getElem?_set_self (List.getElem?_eq_some_iff.mp hi).1] at hj
    cases hj
    exact hlate hearly
  rw [startsSince_started, if_neg hne]
  exact hup.early x hx hearly

end Engine

/-! ## Boot -/

section Boot

variable {c : EngineConfig} {b : Boot}

theorem recovered_spec (c : Config) (r : Record) (now : Time) :
    (recovered c r now).1.record.spec = r.spec := by
  obtain ⟨tail, truncated, heq, -⟩ := boundTail_eq c r
  unfold recovered
  rw [heq]
  unfold interrupt
  split
  · rfl
  · split <;> rfl

theorem recovered_clean {c : Config} {r : Record} (hr : r.journaled = r)
    (h : (recovered c r now).2 = false) : (recovered c r now).1.record = r := by
  have htail : r.outputTail = [] := by
    rw [← hr]
    rfl
  have hbound : boundTail c r = r := by
    unfold boundTail
    rw [htail]
    rfl
  unfold recovered at h ⊢
  rw [hbound] at h ⊢
  unfold interrupt at h ⊢
  split at h
  · cases h
  next hlive =>
  rw [if_neg hlive]
  split at h
  · cases h
  · next hnone => rw [if_neg hnone]

def recoveredObject (c : EngineConfig) (b : Boot) (row : Text × Record) : Object :=
  Object.recovered (recovered c.toConfig row.2 b.now).1

/-- What the loop of `recoverJournal` has written, and the operations it has made. -/
structure Recovers (c : EngineConfig) (b : Boot) (journal : Table Text Record)
    (rows : List (Text × Record)) (writes : List JournalWrite) (objects : List Object) : Prop where
  made : objects = rows.map (recoveredObject c b)
  silent : writes.flatMap JournalWrite.notes = []
  stored : ∀ row ∈ rows, (writes.foldl JournalWrite.apply journal).get row.1 =
    some (recoveredObject c b row).job.op.record.journaled
  others : ∀ id, id ∉ rows.map Prod.fst →
    (writes.foldl JournalWrite.apply journal).get id = journal.get id

theorem recoverRow_up {id : Text} {r : Record} (hget : journal.get id = some r)
    (hname : r.operationId = id) (hjournaled : r.journaled = r) :
    let out := recovered c.toConfig r b.now
    let writes := if out.2 then [save out.1.record] else []
    ProperWrites journal writes ∧ writes.flatMap notes = [] ∧
      (writes.foldl apply journal).get id = some out.1.record.journaled ∧
      ∀ id', id' ≠ id → (writes.foldl apply journal).get id' = journal.get id' := by
  intro out writes
  have hspec : out.1.record.spec = r.spec := recovered_spec c.toConfig r b.now
  have hkey : out.1.record.operationId = id := (congrArg Spec.operationId hspec).trans hname
  cases hdirty : out.2 with
  | false =>
    have hclean : out.1.record = r := recovered_clean hjournaled hdirty
    simp only [writes, hdirty, Bool.false_eq_true, if_false]
    refine ⟨trivial, rfl, ?_, fun _ _ => rfl⟩
    rw [hclean, hjournaled]
    exact hget
  | true =>
    simp only [writes, hdirty, if_true]
    have hsame : out.1.record.journaled.spec = r.spec :=
      (congrArg Spec.journaled hspec).trans (congrArg Record.spec hjournaled)
    refine ⟨⟨⟨r, by rw [hkey]; exact hget, hsame.symm⟩, trivial⟩, rfl, ?_, ?_⟩
    · simp only [foldl_cons, foldl_nil, apply, hkey]
      rw [get_set, if_pos rfl]
    · intro id' hne
      simp only [foldl_cons, foldl_nil, apply, hkey]
      rw [get_set, if_neg hne]

theorem recoverLoop_up (rows : List (Text × Record)) (n : Nat)
    (hrows : ∀ row ∈ rows, journal.get row.1 = some row.2 ∧ row.2.operationId = row.1 ∧ row.2.journaled = row.2)
    (hnodup : (rows.map Prod.fst).Nodup) :
    ProperWrites journal (recoverLoop c b n rows).1 ∧
      ∀ objects, (recoverLoop c b n rows).2 = some objects →
        Recovers c b journal rows (recoverLoop c b n rows).1 objects := by
  induction rows generalizing n journal with
  | nil =>
    refine ⟨trivial, ?_⟩
    intro objects h
    cases h
    exact ⟨rfl, rfl, by simp, fun id _ => rfl⟩
  | cons row rows ih =>
    obtain ⟨id, r⟩ := row
    rw [map_cons, nodup_cons] at hnodup
    obtain ⟨hget, hname, hjournaled⟩ := hrows (id, r) mem_cons_self
    obtain ⟨hfirst, hsilent, hself, hsame⟩ :=
      recoverRow_up (c := c) (b := b) hget hname hjournaled
    simp only [recoverLoop]
    split
    · exact ⟨trivial, fun objects h => by cases h⟩
    -- behind the first row the others are as they were
    obtain ⟨hproper, hrecovers⟩ := ih (n + 1) (fun row hrow => by
      rw [hsame]
      · exact hrows row (mem_cons_of_mem _ hrow)
      · intro heq
        rw [← heq] at hnodup
        exact hnodup.1 (mem_map.mpr ⟨row, hrow, rfl⟩)) hnodup.2
    refine ⟨properWrites_append.mpr ⟨hfirst, hproper⟩, ?_⟩
    intro objects hobjects
    obtain ⟨rest, hsome, rfl⟩ := Option.map_eq_some_iff.mp hobjects
    obtain ⟨hobj, hnotes, hin, hout⟩ := hrecovers rest hsome
    refine ⟨by rw [hobj]; rfl, by rw [flatMap_append, hsilent, hnotes]; rfl, ?_, ?_⟩
    · intro row hrow
      rw [foldl_append]
      rcases mem_cons.mp hrow with rfl | hrow
      · rw [hout id hnodup.1]
        exact hself
      · exact hin row hrow
    · intro id' hid'
      simp only [map_cons, mem_cons, not_or] at hid'
      rw [foldl_append, hout id' hid'.2, hsame id' hid'.1]

theorem indexOf_get : (indexOf journal).get id = some i ↔ journal.keys[i]? = some id := by
  rw [← mem_rows_iff]
  exact mem_zipIdx_iff_getElem?

theorem rows_of_loadable (hk : Kept journal history) (hload : loadable journal = true) :
    ∀ row ∈ journal.rows, journal.get row.1 = some row.2 ∧ row.2.operationId = row.1 ∧
      row.2.journaled = row.2 := by
  intro row hrow
  have hget := mem_rows_iff.mp hrow
  obtain ⟨spec, -, -, -, -, hjournaled⟩ := hk.present row.1 row.2 hget
  have hall := all_eq_true.mp hload row hrow
  simp only [Bool.and_eq_true, beq_iff_eq] at hall
  exact ⟨hget, hall.1, hjournaled⟩

theorem recoveredEngine_up (hk : Kept journal history) (hload : loadable journal = true)
    {objects : List Object} (hproper : ProperWrites journal writes)
    (hr : Recovers c b journal journal.rows writes objects) :
    UpBehind journal history writes objects (indexOf journal) := by
  -- the row of an operation
  have hplace : ∀ {i : Nat} {o : Object}, objects[i]? = some o →
      ∃ row ∈ journal.rows, journal.keys[i]? = some row.1 ∧ o = recoveredObject c b row := by
    intro i o hi
    rw [hr.made, getElem?_map, Option.map_eq_some_iff] at hi
    obtain ⟨row, hrow, ho⟩ := hi
    refine ⟨row, mem_of_getElem? hrow, ?_, ho.symm⟩
    unfold Table.keys
    rw [getElem?_map, hrow]
    rfl
  have hspec : ∀ row ∈ journal.rows, (recoveredObject c b row).spec = row.2.spec :=
    fun row _ => recovered_spec c.toConfig row.2 b.now
  have hname : ∀ row ∈ journal.rows, (recoveredObject c b row).spec.operationId = row.1 := by
    intro row hrow
    rw [hspec row hrow]
    exact (rows_of_loadable hk hload row hrow).2.1
  refine ⟨hproper, ?_⟩
  rw [hr.silent, append_nil]
  refine ⟨?_, ?_, ?_, ?_, ?_⟩
  · intro id i hget
    have hkey := indexOf_get.mp hget
    have hkey' : (journal.rows.map Prod.fst)[i]? = some id := hkey
    rw [getElem?_map, Option.map_eq_some_iff] at hkey'
    obtain ⟨row, hrow, rfl⟩ := hkey'
    have hmem := mem_of_getElem? hrow
    obtain ⟨spec, haccepted, -, -, hjournaled, -⟩ :=
      hk.present row.1 row.2 (Table.mem_rows_iff.mp hmem)
    refine ⟨recoveredObject c b row, ?_, hname row hmem, hr.stored row hmem, spec, haccepted, .inr ?_⟩
    · rw [hr.made, getElem?_map, hrow]
      rfl
    · rw [hspec row hmem]
      exact hjournaled
  · intro id hget
    have hout : id ∉ journal.keys := by
      intro hmem
      obtain ⟨i, hi⟩ := mem_iff_getElem?.mp hmem
      rw [indexOf_get.mpr hi] at hget
      cases hget
    rw [hr.others id hout]
    cases hnone : journal.get id with
    | none => rfl
    | some r => exact absurd (Table.mem_keys_iff.mpr ⟨r, hnone⟩) hout
  · intro i o hi _
    obtain ⟨row, hmem, hkey, rfl⟩ := hplace hi
    rw [hname row hmem]
    exact indexOf_get.mpr hkey
  · rw [hr.made]
    refine forall_mem_map.mpr fun row _ => ?_
    have hrest := Object.recovered_resting c.toConfig row.2 b.now
    exact ⟨hrest.sound.noted, rfl, by simp [recoveredObject, Object.recovered], .inl rfl,
      fun _ he => he.2 rfl⟩
  · rw [hr.made]
    exact forall_mem_map.mpr fun row _ he => absurd rfl he.2

theorem deliverTerminalAudit_does {answer : AuditAnswer} (h : o.Driven) :
    o.Does (deliverTerminalAudit answer o).2.1 (deliverTerminalAudit answer o).2.2 := by
  unfold deliverTerminalAudit
  split
  · exact h.still
  · exact h.still
  · split
    · exact deliver_does h answer.fate
    · exact h.still

theorem replayLoop_up (objects done : List Object) (hk : Kept journal history)
    (h : Up journal history (done ++ objects) items) :
    let out := replayLoop b items done.length objects
    UpBehind journal history out.2.2 (done ++ out.2.1) items := by
  induction objects generalizing done journal history with
  | nil => exact h.behind_nil
  | cons o objects ih =>
    have hi : (done ++ o :: objects)[done.length]? = some o := by simp
    have hd := h.driven o (mem_of_getElem? hi)
    -- the operation at this place, by itself
    obtain ⟨o', writes, hfirst, hdoes⟩ : ∃ o' writes,
        (if o.terminal && items.get o.spec.operationId = some done.length then
          deliverTerminalAudit (b.audits done.length) o else (true, o, [])).2 = (o', writes) ∧
        o.Does o' writes := by
      refine ⟨_, _, rfl, ?_⟩
      split
      · exact deliverTerminalAudit_does hd
      · exact hd.still
    have hset := h.set hi hdoes
    have hlist : (done ++ o :: objects).set done.length o' = (done ++ [o']) ++ objects := by
      rw [set_append_right _ _ (Nat.le_refl _)]
      simp
    rw [hlist] at hset
    have hlength : (done ++ [o']).length = done.length + 1 := by simp
    have hnext := Up.behind_append hk hset fun journal' history' hk' hup => ih (done ++ [o']) hk' hup
    simp only [replayLoop]
    rw [hlength] at hnext
    simp only [hfirst]
    simpa [append_assoc] using hnext

theorem replayTerminalAudits_up {e : Engine} (hk : Kept journal history)
    (h : Up journal history e.objects e.items) :
    let out := replayTerminalAudits c b e
    UpBehind journal history out.2.2 out.2.1.objects out.2.1.items := by
  unfold replayTerminalAudits
  split
  · exact replayLoop_up _ [] hk h
  · exact h.behind_nil

theorem boot_up (hk : Kept journal history) :
    ProperWrites journal (boot c b journal).1 ∧
      ∀ e, (boot c b journal).2 = some e →
        UpBehind journal history (boot c b journal).1 e.objects e.items := by
  unfold boot
  cases hload : loadable journal with
  | false => exact ⟨trivial, fun e h => by cases h⟩
  | true =>
    obtain ⟨hproper, hrecovers⟩ := recoverLoop_up (c := c) (b := b) journal.rows 0
      (rows_of_loadable hk hload) journal.nodup
    simp only [if_true]
    generalize recoverLoop c b 0 journal.rows = out at hproper hrecovers
    obtain ⟨writes, objects | objects⟩ := out
    · exact ⟨hproper, fun e h => by cases h⟩
    simp only at hproper hrecovers ⊢
    have hrecovered := recoveredEngine_up hk hload hproper (hrecovers objects rfl)
    have hclean := Up.behind_append hk hrecovered fun journal' history' hk' hup =>
      Engine.cleanup_up (e := recoveredEngine journal objects) c hk' hup b.now b.deletes
    have hreplay := Up.behind_append hk hclean fun journal' history' hk' hup =>
      replayTerminalAudits_up (c := c) (b := b) hk' hup
    refine ⟨hreplay.1, ?_⟩
    intro e he
    split at he
    · cases he
      exact hreplay
    · cases he

end Boot

/-! ## The lives of the Agent -/

def Step.ByStart : Step → Prop
  | .call c | .crash c _ => c.ByStart
  | .boot _ | .crashBoot _ _ => True

namespace World

/-- The journal keeps what was accepted, and if the engine is up it agrees with the journal. -/
structure Sound (w : World) : Prop where
  kept : Kept w.journal w.history
  up : ∀ e, w.engine = some e → Up w.journal w.history e.objects e.items

variable {c : EngineConfig} {w : World}

theorem fresh_sound : fresh.Sound :=
  ⟨⟨fun _ => Nat.zero_le 1, fun _ _ => ⟨rfl, rfl⟩, fun id record h => by cases h⟩,
    fun e h => by cases h⟩

theorem Sound.down (h : w.Sound) (hw : ProperWrites w.journal writes) :
    Sound { w.write writes with engine := none } :=
  ⟨h.kept.write hw, fun e he => by cases he⟩

theorem starts_cases (e : Engine) (call : Call) :
    call.starts e = [] ∨ ∃ i o, call = .invoke i ∧ e.objects[i]? = some o ∧
      o.stage = .dispatched ∧ call.starts e = [.started o.spec.operationId] := by
  cases call with
  | invoke i =>
    cases hi : e.objects[i]? with
    | none => exact .inl (by simp [Call.starts, hi])
    | some o =>
      by_cases hs : o.stage = .dispatched
      · exact .inr ⟨i, o, rfl, hi, hs, by simp [Call.starts, hi, hs]⟩
      · exact .inl (by simp [Call.starts, hi, hs])
  | _ => exact .inl rfl

theorem Sound.call (h : w.Sound) {call : Call} (hcall : call.ByStart) :
    (w.step c (.call call)).Sound := by
  unfold World.step
  cases hengine : w.engine with
  | none => exact h
  | some e =>
    have hup := h.up e hengine
    obtain ⟨hproper, hbehind⟩ := Engine.step_up c h.kept hup hcall
    have hkept := h.kept.write hproper
    simp only
    rcases starts_cases e call with hnone | ⟨i, o, rfl, hi, hs, hstarts⟩
    · rw [hnone, append_nil]
      refine ⟨hkept, ?_⟩
      intro e' he'
      cases he'
      exact hbehind
    -- the call writes nothing, and starts a runner
    have hwrites : (e.step c (.invoke i)).2 = [] := by
      simp only [Engine.step, Engine.act, hi, invoke, if_pos hs]
    obtain ⟨hkept', hup'⟩ := Engine.starts_up c h.kept hup hi hs
    rw [hstarts, hwrites]
    simp only [write, foldl_nil, flatMap_nil, append_nil]
    refine ⟨hkept', ?_⟩
    intro e' he'
    cases he'
    exact hup'

theorem Sound.step (h : w.Sound) {step : Step} (hstep : step.ByStart) : (w.step c step).Sound := by
  cases step with
  | call call => exact h.call hstep
  | crash call n =>
    simp only [World.step]
    split
    · exact h
    next e hengine =>
    obtain ⟨hproper, -⟩ := Engine.step_up c h.kept (h.up e hengine) hstep
    exact h.down (hproper.take n)
  | boot b =>
    simp only [World.step]
    split
    · exact h
    obtain ⟨hproper, hup⟩ := boot_up (c := c) (b := b) h.kept
    exact ⟨h.kept.write hproper, fun e he => (hup e he).2⟩
  | crashBoot b n =>
    simp only [World.step]
    split
    · exact h
    next hengine =>
    obtain ⟨hproper, -⟩ := boot_up (c := c) (b := b) h.kept
    refine ⟨h.kept.write (hproper.take n), fun e he => ?_⟩
    rw [show w.engine = some e from he] at hengine
    cases hengine

theorem Sound.run (steps : List Step) (hsteps : ∀ step ∈ steps, step.ByStart) (h : w.Sound) :
    (w.run c steps).Sound :=
  foldlRecOn (motive := Sound) steps _ h fun _ hw step hmem => hw.step (hsteps step hmem)

end World

/-! ## The answers -/

def Spec.textual (spec : Spec) : Bool :=
  Utf8.valid spec.operationId && Utf8.valid spec.projectKey && Utf8.valid spec.target

theorem Spec.journaled_eq (htext : spec.textual = true) (hvalid : Engine.validSpec spec = true) :
    spec.journaled = spec := by
  simp only [Spec.textual, Bool.and_eq_true] at htext
  simp only [Engine.validSpec, Bool.and_eq_true] at hvalid
  obtain ⟨⟨hid, hkey⟩, htarget⟩ := htext
  unfold Spec.journaled
  rw [Utf8.toValid_of_valid hid, Utf8.toValid_of_valid hkey, Utf8.toValid_of_valid htarget,
    validPayloadHash_toValid hvalid.1.2]

section Answers

variable {e : Engine} {spec₀ : Spec}

theorem Up.at_accepted (hk : Kept journal history) (h : Up journal history e.objects e.items)
    (haccepted : acceptedAs spec.operationId history = some spec₀) (htext : spec₀.textual = true) :
    Engine.validSpec spec₀ = true ∧ ∃ i o, e.items.get spec.operationId = some i ∧
      e.objects[i]? = some o ∧ o.spec = spec₀ := by
  cases hget : e.items.get spec.operationId with
  | none =>
    rw [(hk.absent _ (h.unindexed _ hget)).2] at haccepted
    cases haccepted
  | some i =>
    obtain ⟨o, hi, -, hjournal, spec', haccepted', hspec⟩ := h.indexed _ i hget
    rw [haccepted] at haccepted'
    cases haccepted'
    obtain ⟨spec', hsame, -, hvalid, -⟩ := hk.present _ _ hjournal
    rw [haccepted] at hsame
    cases hsame
    refine ⟨hvalid, i, o, rfl, hi, ?_⟩
    rcases hspec with hspec | hspec
    · exact hspec
    · rw [hspec, Spec.journaled_eq htext hvalid]

theorem admitSpec_same (hget : e.items.get spec.operationId = some i)
    (hi : e.objects[i]? = some o) (hspec : o.spec = spec) (now : Time) (fate : Fate) :
    e.admitSpec spec true now fate = (e, [], .existing o.job.op.record) := by
  unfold Engine.admitSpec
  have hset : e.objects.set i o = e.objects := by
    obtain ⟨hlt, hat⟩ := List.getElem?_eq_some_iff.mp hi
    rw [← hat, set_getElem_self]
  simp only [hget, hi, hspec, ne_eq, not_true_eq_false, if_false, Bool.not_true, Bool.or_false, hset]

theorem admitSpec_other (hget : e.items.get spec.operationId = some i)
    (hi : e.objects[i]? = some o) (hspec : o.spec ≠ spec) (now : Time) (fate : Fate) :
    e.admitSpec spec true now fate = (e, [], .specMismatch) := by
  unfold Engine.admitSpec
  simp only [hget, hi, ne_eq, hspec, not_false_eq_true, if_true]

end Answers

/-- Operations run at most once, for every sequence of starts, cancels, actions of goroutines and
runners, cleanups and reclaims, of crashes behind any journal write, and of boots.

1. A runner of an ID is started at most once until the record of the ID is evicted.
2. A start under an ID whose record is kept changes nothing besides the cleanup it begins with: with
   the specification that was accepted it returns the record of the operation that the index has
   under the ID, which is the one in the journal; with another one it is refused. This is for
   specifications whose texts are valid UTF-8.
3. Behind a boot every operation and every record is terminal. -/
theorem runs_at_most_once (c : EngineConfig) {steps : List Step}
    (hsteps : ∀ step ∈ steps, step.ByStart) :
    let w := World.fresh.run c steps
    (∀ id, startsSince id w.history ≤ 1) ∧
    (∀ e, w.engine = some e → ∀ spec spec₀ now deletes fate,
      let cleaned := e.cleanupLocked c now deletes
      acceptedAs spec.operationId (w.write cleaned.2).history = some spec₀ →
      spec₀.textual = true →
      (spec = spec₀ → ∃ i o, cleaned.1.items.get spec.operationId = some i ∧
        cleaned.1.objects[i]? = some o ∧ o.spec = spec₀ ∧
        (w.write cleaned.2).journal.get spec.operationId = some o.job.op.record.journaled ∧
        e.accept c spec true now deletes fate =
          (cleaned.1, cleaned.2, .existing o.job.op.record)) ∧
      (spec ≠ spec₀ →
        e.accept c spec true now deletes fate = (cleaned.1, cleaned.2, .specMismatch) ∨
        e.accept c spec true now deletes fate = (e, [], .invalidSpec))) ∧
    (∀ b e, w.engine = none → (w.step c (.boot b)).engine = some e →
      (∀ o ∈ e.objects, o.terminal = true) ∧
      ∀ id record, (w.step c (.boot b)).journal.get id = some record →
        record.status.terminal = true) := by
  intro w
  have hsound : w.Sound := World.fresh_sound.run steps hsteps
  refine ⟨hsound.kept.starts, ?_, ?_⟩
  · intro e he spec spec₀ now deletes fate cleaned haccepted htext
    have hup := hsound.up e he
    obtain ⟨hproper, hclean⟩ := Engine.cleanup_up c hsound.kept hup now deletes
    obtain ⟨hvalid, i, o, hget, hi, hspec⟩ :=
      Up.at_accepted (hsound.kept.write hproper) hclean haccepted htext
    refine ⟨?_, ?_⟩
    · intro hsame
      subst hsame
      refine ⟨i, o, hget, hi, hspec, (hclean.object_at hget hi).2.1, ?_⟩
      unfold Engine.accept
      rw [if_pos hvalid]
      simp only [admitSpec_same hget hi hspec now fate, append_nil]
      rfl
    · intro hother
      unfold Engine.accept
      split
      · left
        have hne : o.spec ≠ spec := fun heq => hother (heq.symm.trans hspec)
        simp only [admitSpec_other hget hi hne now fate, append_nil]
        rfl
      · exact .inr rfl
  · intro b e hdown he
    have hsound' : (w.step c (.boot b)).Sound := hsound.step (show Step.ByStart (.boot b) from trivial)
    have hboot : (boot c b w.journal).2 = some e := by
      unfold World.step at he
      rw [hdown] at he
      exact he
    have hrest := (boot_resting hboot).1
    refine ⟨fun o ho => (hrest o ho).terminal, ?_⟩
    intro id record hget
    have hup := hsound'.up e he
    cases hindex : e.items.get id with
    | none =>
      rw [hup.unindexed id hindex] at hget
      cases hget
    | some i =>
      obtain ⟨o, hi, -, hjournal, -⟩ := hup.indexed id i hindex
      rw [hget] at hjournal
      cases hjournal
      exact (hrest o (mem_of_getElem? hi)).terminal

def startedAndDied (spec : Spec) : List Step :=
  [.boot promptBoot, .call (.accept spec true (1767225601 * second) (fun _ => true) .ok),
    .crash (.cleanup (1767225602 * second) (fun _ => true)) 0, .boot promptBoot]

theorem startedAndDied_byStart (spec : Spec) : ∀ step ∈ startedAndDied spec, step.ByStart := by
  simp [startedAndDied, Step.ByStart, Call.ByStart]

theorem startedAndDied_once :
    startsSince (text "op-1") (World.fresh.run impatient
      (startedAndDied (webSpec (text "op-1")))).history ≤ 1 :=
  (runs_at_most_once impatient (startedAndDied_byStart (webSpec (text "op-1")))).1 (text "op-1")

/-- An hour behind the end of the first operation, a start with another target under the ID of the
second one is refused, and its cleanup has evicted the first one. -/
theorem refusedStart_evicts :
    let w := World.fresh.run impatient (startedAndDied (webSpec (text "op-1")) ++
      [.call (.accept (webSpec (text "op-2")) true (1767225603 * second) (fun _ => true) .ok)])
    let other : Spec := { webSpec (text "op-2") with target := text "web-2" }
    (w.journal.get (text "op-1")).isSome = true ∧
    acceptedAs (text "op-2") w.history = some (webSpec (text "op-2")) ∧
    w.engine.map (fun e => (e.accept impatient other true (1767229200 * second) (fun _ => true)
      .ok).2) = some ([.delete (text "op-1")], .specMismatch) := by
  decide +kernel

/-! ## The index and the journal -/

/-- While the engine is up, the index in memory and the journal on disk name the same operations with
the same records, and an operation that is not at its end, or whose audit is not delivered, is one of
them: no cleanup, reclaim, crash or boot drops it. -/
theorem index_matches_journal (c : EngineConfig) {steps : List Step}
    (hsteps : ∀ step ∈ steps, step.ByStart) {e : Engine}
    (he : (World.fresh.run c steps).engine = some e) :
    let journal := (World.fresh.run c steps).journal
    (∀ id r, journal.get id = some r ↔ ∃ i o, e.items.get id = some i ∧ e.objects[i]? = some o ∧
      o.spec.operationId = id ∧ o.job.op.record.journaled = r) ∧
    ∀ (i : Nat) (o : Object), e.objects[i]? = some o → o.terminal = false ∨ o.pending = true →
      e.items.get o.spec.operationId = some i := by
  intro journal
  have hup := (World.fresh_sound.run (c := c) steps hsteps).up e he
  refine ⟨fun id r => ⟨fun hr => ?_, ?_⟩, hup.busy⟩
  · cases hget : e.items.get id with
    | none =>
      rw [hup.unindexed id hget] at hr
      cases hr
    | some i =>
      obtain ⟨o, hi, hname, hjournal, -⟩ := hup.indexed id i hget
      exact ⟨i, o, rfl, hi, hname, Option.some.inj (hjournal.symm.trans hr)⟩
  · rintro ⟨i, o, hget, hi, -, rfl⟩
    exact (hup.object_at hget hi).2.1

theorem startedAndDied_indexed :
    let w := World.fresh.run impatient (startedAndDied (webSpec (text "op-1")))
    ∃ e r i, w.engine = some e ∧ w.journal.get (text "op-1") = some r ∧
      e.items.get (text "op-1") = some i := by
  intro w
  have hup : w.engine.isSome = true := by decide +kernel
  have hkept : (w.journal.get (text "op-1")).isSome = true := by decide +kernel
  obtain ⟨e, he⟩ := Option.isSome_iff_exists.mp hup
  obtain ⟨r, hr⟩ := Option.isSome_iff_exists.mp hkept
  obtain ⟨i, o, hi, -⟩ := ((index_matches_journal impatient (startedAndDied_byStart _) he).1 _ r).mp hr
  exact ⟨e, r, i, he, hr, hi⟩

end DockLattice.Operation
