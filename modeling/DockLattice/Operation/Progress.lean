import DockLattice.Operation.Engine

/-!
# DockLattice.Operation.Progress

What one transition can do to a record, said once (`Progress`), and how a whole item moves
(`Item.apply_cases`, `Item.restart_cases`). Invariants of the engine are proved from these and never
look into the transition functions: `Item.Holds.step` for what is said about records,
`Item.TailHolds.step` for what is said about the output.
-/

namespace DockLattice.Operation

open Bytes

variable {c : Config} {e : Event} {now : Time} {o o' : Op} {r : Record} {it : Item}

@[simp] theorem Time.isZero_iff {t : Time} : t.isZero = true ↔ t = zeroTime := by
  simp [Time.isZero]

/-- What a transition with these clock readings and error texts can make of a record. -/
structure Progress (readings : List Time) (texts : List Text) (r r' : Record) : Prop where
  spec : r'.spec = r.spec
  cancelMode : r'.cancelMode = r.cancelMode
  requestedAt : r'.requestedAt = r.requestedAt
  startedAt : r'.startedAt = r.startedAt ∨
    (r.startedAt = zeroTime ∧ r'.startedAt ∈ readings ∧ r'.finishedAt = r.finishedAt)
  finishedAt : r'.finishedAt = r.finishedAt ∨
    (r'.status.terminal = true ∧ r'.finishedAt ∈ readings ∧ r'.startedAt = r.startedAt)
  error : r'.error = r.error ∨ r'.error ∈ texts
  outputTail : r'.outputTail = r.outputTail
  revision : r'.revision ≤ r.revision + 1
  /-- Once terminal, only the delivery state of the audit still moves. -/
  frozen : r.status.terminal = true →
    r' = { r with managedAuditDelivery := r'.managedAuditDelivery }

/-! ## The transitions -/

theorem not_terminal_of_legal {s next : Status} (h : legalStatusTransition s next = true) :
    s.terminal = false := by
  cases s <;> cases next <;> simp_all [legalStatusTransition, Status.terminal]

theorem transitionStatus_progress {next : Status} {result errorText : Text} {finished : Time}
    (h : transitionStatus c o next result errorText now finished = some o') :
    Progress [now, finished] [errorText] o.record o'.record := by
  unfold transitionStatus at h
  split at h
  · next hallowed =>
    simp only [transitionAllowed, Bool.and_eq_true] at hallowed
    have hlive := not_terminal_of_legal hallowed.1.1
    cases h
    -- A start and an end are set by different statuses, so at most one of the two times moves.
    by_cases hend : (!next.terminal || o.terminalNotified) = true
    · simp only [finishLocked, hend, if_true]
      refine ⟨rfl, rfl, rfl, ?_, .inl rfl, .inr (by simp), rfl, Nat.le_refl _, ?_⟩
      · by_cases hstart : (next == .running && o.record.startedAt.isZero) = true
        · simp only [hstart, if_true]
          simp only [Bool.and_eq_true, Time.isZero_iff] at hstart
          exact .inr ⟨hstart.2, by simp, trivial⟩
        · simp only [hstart]
          exact .inl rfl
      · intro ht
        simp [hlive] at ht
    simp only [finishLocked, hend]
    simp only [Bool.or_eq_true, Bool.not_eq_true', not_or, Bool.not_eq_false] at hend
    have hrun : (next == Status.running) = false := by
      cases next <;> simp_all [Status.terminal]
    refine ⟨rfl, rfl, rfl, .inl ?_, .inr ⟨hend.1, by simp, ?_⟩, .inr (by simp), rfl,
      Nat.le_refl _, ?_⟩
    · simp [hrun]
    · simp [hrun]
    · intro ht
      simp [hlive] at ht
  · cases h

theorem reject_progress {cause : Text} {finished : Time}
    (h : reject c o cause now finished = some o') :
    Progress [now, finished] [cause] o.record o'.record := by
  unfold reject at h
  split at h
  · cases h
  next hlive =>
  cases h
  by_cases hend : o.terminalNotified = true
  · simp only [finishLocked, hend, Status.terminal]
    exact ⟨rfl, rfl, rfl, .inl rfl, .inl rfl, .inr (by simp), rfl, Nat.le_refl _,
      fun ht => absurd ht hlive⟩
  · simp only [finishLocked, hend, Status.terminal]
    exact ⟨rfl, rfl, rfl, .inl rfl, .inr ⟨rfl, by simp, rfl⟩, .inr (by simp), rfl,
      Nat.le_refl _, fun ht => absurd ht hlive⟩

/-- A transition within a status. -/
structure Op.Inner (now : Time) (o o' : Op) : Prop where
  status : o'.record.status = o.record.status
  notified : o'.terminalNotified = o.terminalNotified
  revision : o'.record.revision = o.record.revision + 1
  progress : Progress [now] [] o.record o'.record

theorem advancePhase_inner {next : Phase} (h : advancePhase o next now = some o') :
    o.Inner now o' := by
  unfold advancePhase at h
  split at h
  · cases h
  next hlive =>
  split at h
  · cases h
    exact ⟨rfl, rfl, rfl, rfl, rfl, rfl, .inl rfl, .inl rfl, .inl rfl, rfl, Nat.le_refl _,
      fun ht => absurd ht hlive⟩
  · cases h

theorem enterCommit_inner (h : enterCommit o now = some o') : o.Inner now o' := by
  unfold enterCommit at h
  split at h
  · cases h
  next hlive =>
  split at h
  · cases h
  split at h
  · cases h
  cases h
  exact ⟨rfl, rfl, rfl, rfl, rfl, rfl, .inl rfl, .inl rfl, .inl rfl, rfl, Nat.le_refl _,
    fun ht => absurd ht hlive⟩

theorem cancelWithError_inner {reason : CancelReason}
    (h : (cancelWithError o reason now).2 = some o') : o.Inner now o' := by
  unfold cancelWithError at h
  split at h
  · cases h
  next hlive =>
  repeat' split at h
  all_goals first
    | cases h; done
    | cases h
      exact ⟨rfl, rfl, rfl, rfl, rfl, rfl, .inl rfl, .inl rfl, .inl rfl, rfl, Nat.le_refl _,
        fun ht => absurd ht hlive⟩

theorem advanceProgress_inner (h : advanceProgress o now = some o') : o.Inner now o' := by
  unfold advanceProgress at h
  split at h
  · cases h
  next hlive =>
  cases h
  exact ⟨rfl, rfl, rfl, rfl, rfl, rfl, .inl rfl, .inl rfl, .inl rfl, rfl, Nat.le_refl _,
    fun ht => absurd ht hlive⟩

theorem markDelivered_progress (h : markDelivered o = some o') :
    Progress [] [] o.record o'.record := by
  unfold markDelivered at h
  split at h
  · cases h
    exact ⟨rfl, rfl, rfl, .inl rfl, .inl rfl, .inl rfl, rfl, Nat.le_succ _, fun _ => rfl⟩
  · cases h

/-! ## What can be stored -/

theorem validPayloadHash_toValid {s : Text} (h : validPayloadHash s = true) :
    Utf8.toValid s = s := by
  simp only [validPayloadHash, Bool.or_eq_true, List.isEmpty_iff] at h
  rcases h with rfl | h
  · rfl
  simp only [hexDigest, Bool.and_eq_true, List.all_eq_true, Bool.or_eq_true, decide_eq_true_eq] at h
  refine Utf8.toValid_of_valid (Utf8.valid_of_ascii fun b hb => ?_)
  rcases h.2 b hb with hd | hd
  · exact UInt8.le_trans hd.2 (by decide)
  · exact UInt8.le_trans hd.2 (by decide)

theorem storable_journaled (h : r.storable = true) : r.journaled.storable = true := by
  have hempty : ∀ s, (Utf8.toValid s).isEmpty = s.isEmpty := by
    intro s
    rw [Bool.eq_iff_iff, List.isEmpty_iff, List.isEmpty_iff, Utf8.toValid_eq_nil]
  have hhash : Utf8.toValid r.payloadHash = r.payloadHash := by
    refine validPayloadHash_toValid ?_
    simp only [Record.storable, validateRecord, Bool.and_eq_true] at h
    exact h.1.1.1.1.1.1.1.1.1.1.1.2
  simp only [Record.storable, validateRecord, Record.journaled, hempty, hhash] at *
  exact h

theorem storable_terminal (h : r.storable = true) :
    r.status.terminal = true ↔ r.finishedAt ≠ zeroTime := by
  have hb : (r.status.terminal == !r.finishedAt.isZero) = true := by
    simp only [Record.storable, validateRecord, Bool.and_eq_true] at h
    exact h.1.1.1.1.1.1.1.2
  rw [beq_iff_eq] at hb
  rw [hb, Bool.not_eq_true', ← Bool.not_eq_true, Time.isZero_iff]

theorem boundTail_eq (c : Config) (loaded : Record) :
    ∃ tail truncated, boundTail c loaded =
        { loaded with outputTail := tail, outputTruncated := truncated } ∧
      (tail = loaded.outputTail ∧ loaded.outputTail.length ≤ c.outputTailBytes ∨
        tail = Utf8.trimPartialLeadingRune (lastBytes c.outputTailBytes loaded.outputTail) ∧
          c.outputTailBytes < loaded.outputTail.length) := by
  unfold boundTail
  split
  · next hlen => exact ⟨_, _, rfl, .inr ⟨rfl, hlen⟩⟩
  · next hlen => exact ⟨_, _, rfl, .inl ⟨rfl, Nat.not_lt.mp hlen⟩⟩

theorem interrupt_storable (h : r.storable = true) (hzero : now ≠ zeroTime)
    (hnow : jsonTime now = true) : (interrupt c r now).1.record.storable = true := by
  have hz : now.isZero = false := by
    rw [Bool.eq_false_iff, Ne, Time.isZero_iff]
    exact hzero
  unfold interrupt
  split
  · simp only [Record.storable, validateRecord, Bool.and_eq_true] at h
    simp [Record.storable, validateRecord, Status.terminal, hz, hnow, h]
  next hdone =>
  split
  · simp only [Record.storable, validateRecord, Bool.and_eq_true] at h ⊢
    simp_all
  · exact h

theorem recovered_storable {loaded : Record} (h : loaded.storable = true) (hzero : now ≠ zeroTime)
    (hnow : jsonTime now = true) : (recovered c loaded now).1.record.storable = true := by
  obtain ⟨tail, truncated, heq, -⟩ := boundTail_eq c loaded
  unfold recovered
  rw [heq]
  exact interrupt_storable h hzero hnow

theorem terminal_of_unsaved (c : Config) (loaded : Record) (now : Time)
    (h : (recovered c loaded now).2 = false) : loaded.status.terminal = true := by
  obtain ⟨tail, truncated, heq, -⟩ := boundTail_eq c loaded
  rw [recovered, heq] at h
  by_contra hlive
  simp only [Bool.not_eq_true] at hlive
  simp [interrupt, hlive] at h

/-! ## Items -/

inductive Committed (it : Item) (new : Op) : Item → Prop where
  | done (hs : new.record.storable = true) :
      Committed it new ⟨some new, new.record.journaled, it.output⟩
  | failed : Committed it new it
  | replaced (hs : new.record.storable = true) :
      Committed it new ⟨it.memory, new.record.journaled, it.output⟩

theorem Item.commit_cases (it : Item) (fate : Fate) (new : Op) :
    Committed it new (it.commit fate new) := by
  unfold Item.commit persist
  by_cases hs : new.record.storable = true
  · cases fate
    · simp only [hs, if_true]
      exact .done hs
    · simp only [hs, if_true]
      exact .failed
    · simp only [hs, if_true]
      exact .replaced hs
  · simp only [hs]
    exact .failed

theorem Item.apply_cases (it : Item) (fate : Fate) (f : Op → Option Op) :
    it.apply fate f = it ∨
      ∃ o o', it.memory = some o ∧ f o = some o' ∧ Committed it o' (it.apply fate f) := by
  unfold Item.apply
  split
  · exact .inl rfl
  next o ho =>
  split
  · exact .inl rfl
  · next o' ho' => exact .inr ⟨o, o', ho, ho', it.commit_cases fate o'⟩

def Event.readings : Event → List Time
  | .transitionStatus _ _ _ now finished _ | .reject _ now finished _ => [now, finished]
  | .advancePhase _ now _ | .enterCommit now _ | .cancel _ now _ | .advanceProgress now _
  | .restart now _ _ => [now]
  | .writeOutput _ | .flushOutputTail _ | .markDelivered _ | .dropOutput => []

def Event.errorTexts : Event → List Text
  | .transitionStatus _ _ errorText _ _ _ => [errorText]
  | .reject cause _ _ _ => [cause]
  | .restart _ _ _ => [text "agent restarted while operation was nonterminal"]
  | _ => []

def Event.transition (c : Config) : Event → Option (Fate × (Op → Option Op))
  | .transitionStatus next result errorText now finished fate =>
    some (fate, fun o => Operation.transitionStatus c o next result errorText now finished)
  | .advancePhase next now fate => some (fate, fun o => Operation.advancePhase o next now)
  | .enterCommit now fate => some (fate, fun o => Operation.enterCommit o now)
  | .cancel reason now fate => some (fate, fun o => (cancelWithError o reason now).2)
  | .reject cause now finished fate =>
    some (fate, fun o => Operation.reject c o cause now finished)
  | .advanceProgress now fate => some (fate, fun o => Operation.advanceProgress o now)
  | .markDelivered fate => some (fate, Operation.markDelivered)
  | .writeOutput _ | .flushOutputTail _ | .dropOutput | .restart _ _ _ => none

theorem Item.step_of_transition {fate : Fate} {f : Op → Option Op}
    (h : e.transition c = some (fate, f)) : it.step c e = it.apply fate f := by
  cases e <;> simp_all [Event.transition, Item.step]

theorem Event.transition_progress {fate : Fate} {f : Op → Option Op}
    (h : e.transition c = some (fate, f)) (ho : f o = some o') :
    Progress e.readings e.errorTexts o.record o'.record := by
  cases e <;> simp only [Event.transition, Option.some.injEq, Prod.mk.injEq, reduceCtorEq] at h <;>
    obtain ⟨-, rfl⟩ := h
  · exact transitionStatus_progress ho
  · exact (advancePhase_inner ho).progress
  · exact (enterCommit_inner ho).progress
  · exact (cancelWithError_inner ho).progress
  · exact reject_progress ho
  · exact (advanceProgress_inner ho).progress
  · exact markDelivered_progress ho

/-! ## Output and restart -/

theorem writeOutput_eq (limit : Nat) (r : Record) (payload : Text) :
    ∃ tail truncated, writeOutput limit r payload =
      { r with outputTail := tail, outputTruncated := truncated } := by
  unfold writeOutput
  split
  · exact ⟨_, _, rfl⟩
  split
  · exact ⟨_, _, rfl⟩
  · dsimp only
    split <;> exact ⟨_, _, rfl⟩

theorem interrupt_progress (c : Config) (r : Record) (now : Time) :
    Progress [now] [text "agent restarted while operation was nonterminal"] r
      (interrupt c r now).1.record := by
  unfold interrupt
  split
  · next hlive =>
    refine ⟨rfl, rfl, rfl, .inl rfl, .inr ⟨rfl, by simp, rfl⟩, .inr (by simp), rfl,
      Nat.le_refl _, fun ht => ?_⟩
    simp [ht] at hlive
  · split
    · exact ⟨rfl, rfl, rfl, .inl rfl, .inl rfl, .inl rfl, rfl, Nat.le_succ _, fun _ => rfl⟩
    · exact ⟨rfl, rfl, rfl, .inl rfl, .inl rfl, .inl rfl, rfl, Nat.le_succ _, fun _ => rfl⟩

theorem recovered_progress (c : Config) (loaded : Record) (now : Time) :
    ∃ tail truncated, (tail = loaded.outputTail ∧ loaded.outputTail.length ≤ c.outputTailBytes ∨
        tail = Utf8.trimPartialLeadingRune (lastBytes c.outputTailBytes loaded.outputTail) ∧
          c.outputTailBytes < loaded.outputTail.length) ∧
      Progress [now] [text "agent restarted while operation was nonterminal"]
        { loaded with outputTail := tail, outputTruncated := truncated }
        (recovered c loaded now).1.record := by
  obtain ⟨tail, truncated, heq, htail⟩ := boundTail_eq c loaded
  refine ⟨tail, truncated, htail, ?_⟩
  rw [recovered, heq]
  exact interrupt_progress c _ now

inductive Restarted (it : Item) (o : Op) : Item → Prop where
  | up (hs : o.record.storable = true) : Restarted it o ⟨some o, o.record.journaled, it.output⟩
  | upUnchanged : Restarted it o ⟨some o, it.file, it.output⟩
  | down : Restarted it o ⟨none, it.file, it.output⟩
  | downReplaced (hs : o.record.storable = true) :
      Restarted it o ⟨none, o.record.journaled, it.output⟩

theorem Item.restart_cases (c : Config) (it : Item) (now : Time) (fate : Fate) (started : Bool) :
    Restarted it (recovered c it.loaded now).1 (it.step c (.restart now fate started)) := by
  simp only [Item.step, Item.recover]
  cases hr : recovered c it.loaded now with
  | mk o save =>
    cases save with
    | false => cases started <;> first | exact .upUnchanged | exact .down
    | true =>
      simp only [persist]
      by_cases hs : o.record.storable = true
      · cases fate <;> cases started <;> simp only [hs, if_true] <;>
          first | exact .up hs | exact .down | exact .downReplaced hs
      · simp only [hs]
        exact .down

inductive Item.Stepped (c : Config) (e : Event) (it : Item) : Item → Prop where
  | same (hquiet : ∀ payload, e = .writeOutput payload → it.memory = none) : Stepped c e it it
  | moved {it' : Item} {fate : Fate} {f : Op → Option Op} {o o' : Op}
      (ht : e.transition c = some (fate, f)) (hm : it.memory = some o) (ho : f o = some o')
      (hc : Committed it o' it') : Stepped c e it it'
  | wrote {payload : Text} {o : Op} (he : e = .writeOutput payload) (hm : it.memory = some o) :
      Stepped c e it
        { it with
          memory := some { o with record := writeOutput c.outputTailBytes o.record payload } }
  | flushed {o : Op} (he : ∀ payload, e ≠ .writeOutput payload) (hm : it.memory = some o) :
      Stepped c e it { it with output := some ⟨o.record.outputTail, o.record.outputTruncated⟩ }
  | dropped (he : ∀ payload, e ≠ .writeOutput payload) : Stepped c e it { it with output := none }
  | restarted {it' : Item} {now : Time} {fate : Fate} {started : Bool}
      (he : e = .restart now fate started)
      (hr : Restarted it (recovered c it.loaded now).1 it') : Stepped c e it it'

theorem Item.step_cases (c : Config) (it : Item) (e : Event) : it.Stepped c e (it.step c e) := by
  cases ht : e.transition c with
  | some p =>
    obtain ⟨fate, f⟩ := p
    rw [Item.step_of_transition ht]
    rcases it.apply_cases fate f with heq | ⟨o, o', ho, ho', hcommit⟩
    · rw [heq]
      refine .same fun payload he => ?_
      subst he
      cases ht
    · exact .moved ht ho ho' hcommit
  | none =>
    cases e with
    | writeOutput payload =>
      obtain ⟨_ | o, file, output⟩ := it
      · exact .same fun _ _ => rfl
      · exact .wrote rfl rfl
    | flushOutputTail fate =>
      simp only [Item.step, Item.flushOutputTail]
      split
      · exact .same nofun
      next o hm =>
      split
      · exact .flushed nofun hm
      · exact .same nofun
    | dropOutput => exact .dropped nofun
    | restart now fate started => exact .restarted rfl (it.restart_cases c now fate started)
    | transitionStatus | advancePhase | enterCommit | cancel | reject | advanceProgress
    | markDelivered => cases ht

/-! ## Invariants of items -/

/-- An event keeps what is said of the record in memory, of the one on disk and of the output on
disk, if each of the three sources of a new record does. -/
theorem Item.step_keeps {M F : Record → Prop} {O : Output → Prop}
    (hm : ∀ o, it.memory = some o → M o.record) (hf : F it.file)
    (hout : ∀ out, it.output = some out → O out)
    (hmove : ∀ o r, it.memory = some o → Progress e.readings e.errorTexts o.record r → M r)
    (hwrite : ∀ o payload, it.memory = some o → e = .writeOutput payload →
      M (writeOutput c.outputTailBytes o.record payload))
    (hrecover : ∀ now fate started, e = .restart now fate started →
      M (recovered c it.loaded now).1.record)
    (hjournal : ∀ r, M r → F r.journaled)
    (hflush : ∀ r, M r → O ⟨r.outputTail, r.outputTruncated⟩) :
    (∀ o, (it.step c e).memory = some o → M o.record) ∧ F (it.step c e).file ∧
      ∀ out, (it.step c e).output = some out → O out := by
  have hcases := it.step_cases c e
  generalize it.step c e = it' at hcases
  cases hcases with
  | same => exact ⟨hm, hf, hout⟩
  | @moved _ _ _ o o' ht ho ho' hc =>
    have hnew : M o'.record := hmove o _ ho (Event.transition_progress ht ho')
    cases hc with
    | done => exact ⟨fun x hx => by cases hx; exact hnew, hjournal _ hnew, hout⟩
    | failed => exact ⟨hm, hf, hout⟩
    | replaced => exact ⟨hm, hjournal _ hnew, hout⟩
  | wrote he ho => exact ⟨fun x hx => by cases hx; exact hwrite _ _ ho he, hf, hout⟩
  | @flushed o _ ho => exact ⟨hm, hf, fun x hx => by cases hx; exact hflush _ (hm o ho)⟩
  | dropped => exact ⟨hm, hf, fun _ hx => (nomatch hx)⟩
  | restarted he hr =>
    have hnew := hrecover _ _ _ he
    cases hr with
    | up => exact ⟨fun x hx => by cases hx; exact hnew, hjournal _ hnew, hout⟩
    | upUnchanged => exact ⟨fun x hx => by cases hx; exact hnew, hf, hout⟩
    | down => exact ⟨fun _ hx => (nomatch hx), hf, hout⟩
    | downReplaced => exact ⟨fun _ hx => (nomatch hx), hjournal _ hnew, hout⟩

structure Item.Holds (P : Record → Prop) (it : Item) : Prop where
  memory : ∀ o, it.memory = some o → P o.record
  file : P it.file

section Holds

variable {P P' : Record → Prop} {it : Item}

theorem Item.Holds.step (h : it.Holds P) (hweak : ∀ r, P r → P' r)
    (hprogress : ∀ r r', P r → Progress e.readings e.errorTexts r r' → P' r')
    (hjournal : ∀ r, P' r → P' r.journaled)
    (houtput : ∀ r tail truncated, P r →
      P { r with outputTail := tail, outputTruncated := truncated }) :
    (it.step c e).Holds P' := by
  have hwrite : ∀ o payload, it.memory = some o → e = .writeOutput payload →
      P' (writeOutput c.outputTailBytes o.record payload) := by
    intro o payload ho _
    obtain ⟨tail, truncated, heq⟩ := writeOutput_eq c.outputTailBytes o.record payload
    rw [heq]
    exact hweak _ (houtput _ _ _ (h.memory o ho))
  have hloaded : P it.loaded := by
    unfold Item.loaded
    split
    · exact h.file
    · exact houtput _ _ _ h.file
  have hrecover : ∀ now fate started, e = .restart now fate started →
      P' (recovered c it.loaded now).1.record := by
    intro now fate started he
    subst he
    obtain ⟨tail, truncated, -, hp⟩ := recovered_progress c it.loaded now
    exact hprogress _ _ (houtput _ _ _ hloaded) hp
  obtain ⟨hmemory, hfile, -⟩ := it.step_keeps (O := fun _ => True)
    (fun o ho => hweak _ (h.memory o ho)) (hweak _ h.file) (fun _ _ => trivial)
    (fun o r ho hp => hprogress _ r (h.memory o ho) hp) hwrite hrecover hjournal fun _ _ => trivial
  exact ⟨hmemory, hfile⟩

end Holds

structure Item.TailHolds (Q : Text → Prop) (it : Item) : Prop where
  memory : ∀ o, it.memory = some o → Q o.record.outputTail
  file : it.file.outputTail = []
  output : ∀ out, it.output = some out → Q out.tail

theorem Item.TailHolds.step {Q : Text → Prop} (h : it.TailHolds Q) (hnil : Q [])
    (hwrite : ∀ payload, e = .writeOutput payload → ∀ r, Q r.outputTail →
      Q (writeOutput c.outputTailBytes r payload).outputTail)
    (hcut : ∀ tail, Q tail → c.outputTailBytes < tail.length →
      Q (Utf8.trimPartialLeadingRune (lastBytes c.outputTailBytes tail))) :
    (it.step c e).TailHolds Q := by
  have hloaded : Q it.loaded.outputTail := by
    unfold Item.loaded
    split
    · rw [h.file]; exact hnil
    · next out hout => exact h.output out hout
  have hrecover : ∀ now, Q (recovered c it.loaded now).1.record.outputTail := by
    intro now
    obtain ⟨tail, truncated, htail, hp⟩ := recovered_progress c it.loaded now
    rw [hp.outputTail]
    rcases htail with ⟨rfl, -⟩ | ⟨rfl, hlt⟩
    · exact hloaded
    · exact hcut _ hloaded hlt
  obtain ⟨hmemory, hfile, hout⟩ := it.step_keeps (M := fun r => Q r.outputTail)
    (F := fun r => r.outputTail = []) (O := fun out => Q out.tail) h.memory h.file h.output
    (fun o r ho hp => hp.outputTail.symm ▸ h.memory o ho)
    (fun o payload ho he => hwrite payload he _ (h.memory o ho)) (fun now _ _ _ => hrecover now)
    (fun _ _ => rfl) fun _ hr => hr
  exact ⟨hmemory, hfile, hout⟩

end DockLattice.Operation
