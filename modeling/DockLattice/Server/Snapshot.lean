import DockLattice.Operation.Output
import DockLattice.Operation.Progress
import DockLattice.Server.Response

/-!
# DockLattice.Server.Snapshot

Which snapshots of an operation the Server accepts. Of everything `operationFromAgent` checks, only
four things depend on what happened on the Agent: the output tail, the order of the three times, the
error text and the revision (`accepted_iff`). A chunk that ends inside a rune and a clock that is set
back make snapshots that are rejected; without them every snapshot is accepted (`snapshot_accepted`).
-/

namespace DockLattice.Server

open Bytes Operation List Utf8

variable {c : Config} {future readings : List Time} {n : Nat} {r : Record}

def Accepted (r : Record) : Prop :=
  ∃ op, operationFromAgent r.operationId (responseFromRecord r).overWire = .ok op

def ErrorFits (error : Text) : Prop :=
  error.length ≤ defaultMaxMessageBytes ∧ Utf8.valid error = true

instance (error : Text) : Decidable (ErrorFits error) := by
  unfold ErrorFits
  infer_instance

structure Ordered (r : Record) : Prop where
  requested : year2000 ≤ r.requestedAt
  started : r.startedAt ≠ zeroTime → r.requestedAt ≤ r.startedAt
  finished : r.finishedAt ≠ zeroTime → r.requestedAt ≤ r.finishedAt ∧
    (r.startedAt ≠ zeroTime → r.startedAt ≤ r.finishedAt)

/-! ## The check -/

theorem status_text_fits (s : Status) :
    s.text.isEmpty = false ∧ s.text.length ≤ 128 ∧ valid s.text = true := by
  cases s <;> decide +kernel

theorem phase_text_fits (p : Phase) :
    p.text.isEmpty = false ∧ p.text.length ≤ 128 ∧ valid p.text = true := by
  cases p <;> decide +kernel

theorem cancelMode_text_fits (m : CancelMode) : validCancelMode m.text = true := by
  cases m <;> decide +kernel

theorem cancelability_fits (r : Record) :
    (operationCancelability r).2.length ≤ 1024 ∧
      valid (operationCancelability r).2 = true := by
  unfold operationCancelability
  repeat' split
  all_goals decide +kernel

/-- A reading of the clock that a positive 64-bit count of nanoseconds can carry. -/
def OnClock (t : Int) : Prop := 0 < t ∧ t < 2 ^ 63

theorem OnClock.ne_zero {t : Int} (h : OnClock t) : t ≠ zeroTime := by
  intro hz
  have := h.1
  simp only [hz, zeroTime, second] at this
  omega

theorem wireTime_zero : wireTime zeroTime = zeroTime := by decide +kernel

theorem wireTime_onClock {t : Int} (h : OnClock t) : wireTime t = t := by
  have hz : Time.isZero t = false := by
    rw [Bool.eq_false_iff, Ne, Time.isZero_iff]
    exact h.ne_zero
  have hb : Int.bmod t (2 ^ 64) = t := by
    have := h.1
    have := h.2
    rw [Int.bmod_eq_of_le] <;> omega
  have hpos : ¬ t ≤ 0 := Int.not_le.mpr h.1
  simp only [wireTime, timeToUnixNano, hz, hb, unixNanoToTime, hpos, Bool.false_eq_true, if_false]

structure Timed (r : Record) : Prop where
  requested : OnClock r.requestedAt
  started : r.startedAt = zeroTime ∨ OnClock r.startedAt
  finished : r.finishedAt = zeroTime ∨ OnClock r.finishedAt

theorem before2000_iff {t : Time} : before2000 t = true ↔ t ≠ zeroTime ∧ t < year2000 := by
  simp [before2000, Time.isZero]

theorem validOperationTimes_iff (h : Timed r) :
    validOperationTimes r.requestedAt r.startedAt r.finishedAt = true ↔ Ordered r := by
  have hz := h.requested.ne_zero
  simp only [validOperationTimes, Bool.and_eq_true, Bool.not_eq_true',
    ← Bool.not_eq_true, before2000_iff, Bool.or_eq_true, Time.isZero_iff, decide_eq_true_eq,
    not_and, and_imp, not_or, not_lt]
  constructor
  · rintro ⟨⟨⟨⟨h1, h2⟩, h3⟩, h4⟩, h5⟩
    refine ⟨h1 hz, h4 hz, fun hf => ?_⟩
    obtain ⟨h6, h7⟩ := h5 hf
    refine ⟨?_, h6⟩
    by_cases hs : r.startedAt = zeroTime
    · exact h7 hs hz
    · exact Int.le_trans (h4 hz hs) (h6 hs)
  · intro ho
    refine ⟨⟨⟨⟨fun _ => ho.requested, fun hs => ?_⟩, fun hf => ?_⟩, fun _ => ho.started⟩,
      fun hf => ⟨(ho.finished hf).2, fun _ _ => (ho.finished hf).1⟩⟩
    · exact Int.le_trans ho.requested (ho.started hs)
    · exact Int.le_trans ho.requested (ho.finished hf).1

theorem overWire_times (h : Timed r) : (responseFromRecord r).overWire = responseFromRecord r := by
  have key : ∀ t, t = zeroTime ∨ OnClock t → wireTime t = t := by
    intro t ht
    rcases ht with rfl | ht
    · exact wireTime_zero
    · exact wireTime_onClock ht
  simp only [Response.overWire, responseFromRecord, key _ (.inr h.requested), key _ h.started,
    key _ h.finished]

theorem accepted_iff (ht : Timed r) (hlen : r.outputTail.length ≤ maxOperationOutputBytes) :
    Accepted r ↔ valid r.outputTail = true ∧ Ordered r ∧ ErrorFits r.error ∧
      r.revision < 2 ^ 63 := by
  obtain ⟨s1, s2, s3⟩ := status_text_fits r.status
  obtain ⟨p1, p2, p3⟩ := phase_text_fits r.phase
  obtain ⟨c1, c2⟩ := cancelability_fits r
  have hm := cancelMode_text_fits r.cancelMode
  rw [Accepted, overWire_times ht, operationFromAgent_isOk, ← validOperationTimes_iff ht]
  simp only [Response.acceptable, Bool.and_eq_true, decide_eq_true_eq]
  simp only [responseFromRecord, s1, s2, s3, p1, p2, p3, c1, c2, hm, hlen, ErrorFits,
    Bool.not_false, and_true]
  tauto

/-! ## Every run -/

section Runs

variable {spec : Spec} {now : Time} {it : Item}

theorem accept_eq (h : accept spec now = some it) :
    it = ⟨some ⟨newRecord spec now, false⟩, (newRecord spec now).journaled, none⟩ := by
  unfold accept at h
  dsimp only at h
  split at h
  · exact (Option.some.inj h).symm
  · cases h

theorem Timed.progress {texts : List Text} {r' : Record} (h : Timed r)
    (hp : Progress readings texts r r') (hclock : ∀ t ∈ readings, OnClock t) : Timed r' := by
  refine ⟨?_, ?_, ?_⟩
  · rw [hp.requestedAt]; exact h.requested
  · rcases hp.startedAt with hs | ⟨-, hs, -⟩
    · rw [hs]; exact h.started
    · exact .inr (hclock _ hs)
  · rcases hp.finishedAt with hf | ⟨-, hf, -⟩
    · rw [hf]; exact h.finished
    · exact .inr (hclock _ hf)

theorem run_timed (h : it.Holds Timed) (events : List Event)
    (hclock : ∀ t ∈ events.flatMap Event.readings, OnClock t) : (it.run c events).Holds Timed := by
  induction events generalizing it with
  | nil => exact h
  | cons e events ih =>
    simp only [flatMap_cons, mem_append] at hclock
    refine ih ?_ fun t ht => hclock t (.inr ht)
    refine h.step (fun _ hr => hr) (fun r r' hr hp => ?_) (fun r hr => ?_) (fun r _ _ hr => ?_)
    · exact hr.progress hp fun t ht => hclock t (.inl ht)
    · exact ⟨hr.requested, hr.started, hr.finished⟩
    · exact ⟨hr.requested, hr.started, hr.finished⟩

theorem run_tail_length (h : it.TailHolds fun tail => tail.length ≤ c.outputTailBytes)
    (events : List Event) :
    (it.run c events).TailHolds fun tail => tail.length ≤ c.outputTailBytes := by
  refine foldlRecOn (motive := Item.TailHolds _) events _ h fun it h e _ => ?_
  refine h.step (Nat.zero_le _) (fun payload _ r hr => ?_) fun tail _ _ => ?_
  · exact length_writeOutput_le payload hr
  · have hle := length_trimPartialLeadingRune_le (lastBytes c.outputTailBytes tail)
    rw [length_lastBytes] at hle
    omega

theorem accept_tail {Q : Text → Prop} (h : accept spec now = some it) (hnil : Q []) :
    it.TailHolds Q := by
  rw [accept_eq h]
  refine ⟨fun o ho => ?_, rfl, fun out hout => (nomatch hout)⟩
  cases ho
  exact hnil

/-! ## Runs with whole writes and a clock that is not set back -/

def WholeEvent (limit : Nat) (e : Event) : Prop :=
  (∀ payload, e = .writeOutput payload → Whole limit payload) ∧
    ∀ error ∈ e.errorTexts, ErrorFits error

theorem run_tail_valid (hlimit : utfMax ≤ c.outputTailBytes)
    (h : it.TailHolds fun tail => valid tail = true) (events : List Event)
    (hwhole : ∀ e ∈ events, WholeEvent c.outputTailBytes e) :
    (it.run c events).TailHolds fun tail => valid tail = true := by
  refine foldlRecOn (motive := Item.TailHolds _) events _ h fun it h e hmem => ?_
  refine h.step rfl (fun payload he r hr => ?_) fun tail htail hlt => ?_
  · exact writeOutput_valid hlimit hr ((hwhole e hmem).1 payload he)
  · rw [valid_iff] at *
    exact scan_trim_lastBytes htail hlimit (by omega)

structure Steady (future : List Time) (n : Nat) (r : Record) : Prop where
  ordered : Ordered r
  requested_le : ∀ t ∈ future, r.requestedAt ≤ t
  started_le : r.startedAt ≠ zeroTime → ∀ t ∈ future, r.startedAt ≤ t
  live : r.finishedAt ≠ zeroTime → r.status.terminal = true
  error : ErrorFits r.error
  revision : r.revision ≤ n

theorem Steady.progress {texts : List Text} {r' : Record} (h : Steady (readings ++ future) n r)
    (hp : Progress readings texts r r') (hsorted : (readings ++ future).Pairwise (· ≤ ·))
    (htexts : ∀ e ∈ texts, ErrorFits e) : Steady future (n + 1) r' := by
  have hle : ∀ t ∈ readings, ∀ u ∈ future, t ≤ u := (pairwise_append.mp hsorted).2.2
  have hrev : r'.revision ≤ n + 1 := Nat.le_trans hp.revision (Nat.succ_le_succ h.revision)
  have herr : ErrorFits r'.error := by
    rcases hp.error with he | he
    · rw [he]; exact h.error
    · exact htexts _ he
  have hreq : ∀ t ∈ future, r'.requestedAt ≤ t := by
    intro t ht
    rw [hp.requestedAt]
    exact h.requested_le t (by simp [ht])
  have hlive : r'.finishedAt ≠ zeroTime → r'.status.terminal = true := by
    intro hf
    rcases hp.finishedAt with he | ⟨ht, -, -⟩
    · have ht := h.live (he ▸ hf)
      rw [hp.frozen ht]
      exact ht
    · exact ht
  by_cases hdone : r.status.terminal = true
  · -- A terminal record is frozen, so its times stand.
    have heq := hp.frozen hdone
    rw [heq] at hlive hreq ⊢
    refine ⟨⟨h.ordered.requested, h.ordered.started, h.ordered.finished⟩, hreq, ?_, hlive, h.error,
      Nat.le_succ_of_le h.revision⟩
    exact fun hs t ht => h.started_le hs t (by simp [ht])
  have hunfinished : r.finishedAt = zeroTime := by
    by_contra hf
    exact hdone (h.live hf)
  rcases hp.startedAt with hs | ⟨hs, hmem, hf⟩
  · refine ⟨⟨?_, ?_, ?_⟩, hreq, ?_, hlive, herr, hrev⟩
    · rw [hp.requestedAt]; exact h.ordered.requested
    · rw [hs, hp.requestedAt]; exact h.ordered.started
    · intro hne
      rcases hp.finishedAt with he | ⟨-, hmem, -⟩
      · exact absurd (he.trans hunfinished) hne
      · rw [hs, hp.requestedAt]
        exact ⟨h.requested_le _ (by simp [hmem]), fun hst => h.started_le hst _ (by simp [hmem])⟩
    · rw [hs]
      exact fun hst t ht => h.started_le hst t (by simp [ht])
  · refine ⟨⟨?_, ?_, ?_⟩, hreq, ?_, hlive, herr, hrev⟩
    · rw [hp.requestedAt]; exact h.ordered.requested
    · intro _
      rw [hp.requestedAt]
      exact h.requested_le _ (by simp [hmem])
    · exact fun hne => absurd (hf.trans hunfinished) hne
    · exact fun _ t ht => hle _ hmem t ht

theorem Steady.weaken (h : Steady (readings ++ future) n r) : Steady future (n + 1) r :=
  ⟨h.ordered, fun t ht => h.requested_le t (by simp [ht]),
    fun hs t ht => h.started_le hs t (by simp [ht]), h.live, h.error, Nat.le_succ_of_le h.revision⟩

theorem Steady.journaled (h : Steady future n r) : Steady future n r.journaled := by
  have herr : r.journaled.error = r.error := toValid_of_valid h.error.2
  exact { h with ordered := { h.ordered with }, error := herr ▸ h.error }

theorem run_steady {limit : Nat} (events : List Event)
    (h : it.Holds (Steady (events.flatMap Event.readings) n))
    (hsorted : (events.flatMap Event.readings).Pairwise (· ≤ ·))
    (hwhole : ∀ e ∈ events, WholeEvent limit e) :
    (it.run c events).Holds (Steady [] (n + events.length)) := by
  induction events generalizing it n with
  | nil => exact h
  | cons e events ih =>
    rw [flatMap_cons] at h hsorted
    rw [length_cons, show n + (events.length + 1) = n + 1 + events.length by omega]
    refine ih ?_ (pairwise_append.mp hsorted).2.1 fun x hx => hwhole x (by simp [hx])
    refine h.step (fun _ hr => hr.weaken) (fun r r' hr hp => ?_) (fun _ hr => hr.journaled)
      fun r _ _ hr => ?_
    · exact hr.progress hp hsorted (hwhole e (by simp)).2
    · exact { hr with ordered := { hr.ordered with } }

theorem accept_steady (h : accept spec now = some it) (hyear : year2000 ≤ now)
    (hfuture : ∀ t ∈ future, now ≤ t) : it.Holds (Steady future 1) := by
  have hnew : Steady future 1 (newRecord spec now) :=
    ⟨⟨hyear, fun hs => absurd rfl hs, fun hf => absurd rfl hf⟩, hfuture, fun hs => absurd rfl hs,
      fun hf => absurd rfl hf, ⟨Nat.zero_le _, rfl⟩, Nat.le_refl _⟩
  rw [accept_eq h]
  refine ⟨fun o ho => ?_, hnew.journaled⟩
  cases ho
  exact hnew

/-! ## What was written since the start -/

end Runs

def written : Event → List Text
  | .writeOutput payload => [payload]
  | _ => []

theorem written_eq_nil {e : Event} (h : ∀ payload, e ≠ .writeOutput payload) : written e = [] := by
  cases e <;> simp_all [written]

def isRestart : Event → Bool
  | .restart _ _ _ => true
  | _ => false

theorem step_scan {it : Item} {e : Event} {o : Op} {p q : Utf8.State}
    (hlimit : utfMax ≤ c.outputTailBytes) (he : isRestart e = false)
    (hm : it.memory = some o) (hp : scan .ready o.record.outputTail = some p)
    (hq : scan p (written e).flatten = some q) :
    ∃ o', (it.step c e).memory = some o' ∧ scan .ready o'.record.outputTail = some q := by
  have hpq : (∀ payload, e ≠ .writeOutput payload) → p = q := by
    intro he'
    rw [written_eq_nil he'] at hq
    simpa [scan] using hq
  have hcases := it.step_cases c e
  generalize it.step c e = it' at hcases
  cases hcases with
  | same hquiet =>
    refine ⟨o, hm, hpq (fun payload he' => ?_) ▸ hp⟩
    rw [hquiet payload he'] at hm
    cases hm
  | flushed he' | dropped he' => exact ⟨o, hm, hpq he' ▸ hp⟩
  | moved ht hx hx' hcommit =>
    have he' : ∀ payload, e ≠ .writeOutput payload := by
      intro payload he'
      subst he'
      cases ht
    rw [hm] at hx
    cases hx
    have htail := (Event.transition_progress ht hx').outputTail
    cases hcommit with
    | done => exact ⟨_, rfl, by rw [htail]; exact hpq he' ▸ hp⟩
    | failed | replaced => exact ⟨o, hm, hpq he' ▸ hp⟩
  | wrote he' hx =>
    subst he'
    rw [hm] at hx
    cases hx
    exact ⟨_, rfl, writeOutput_scan hlimit hp (by simpa [written] using hq)⟩
  | restarted he' =>
    subst he'
    cases he

theorem run_scan (hlimit : utfMax ≤ c.outputTailBytes) (events : List Event) {it : Item}
    {o : Op} {p q : Utf8.State} (hrestart : ∀ e ∈ events, isRestart e = false)
    (hm : it.memory = some o) (hp : scan .ready o.record.outputTail = some p)
    (hq : scan p (events.flatMap written).flatten = some q) :
    ∃ o', (it.run c events).memory = some o' ∧
      scan .ready o'.record.outputTail = some q := by
  induction events generalizing it o p with
  | nil => exact ⟨o, hm, hp.trans hq⟩
  | cons e events ih =>
    rw [flatMap_cons, flatten_append, scan_append] at hq
    obtain ⟨m, hm', hrest⟩ := Option.bind_eq_some_iff.mp hq
    obtain ⟨o', ho', hp'⟩ := step_scan hlimit (hrestart e (by simp)) hm hp hm'
    exact ih (fun x hx => hrestart x (by simp [hx])) ho' hp' hrest

/-! ## Snapshots -/

/-- The record `Snapshot` returns after these events, if the operation was accepted and the Agent
is up. -/
def snapshot (c : Config) (spec : Spec) (now : Time) (events : List Event) : Option Record :=
  (accept spec now).bind fun it => (it.run c events).memory.map Op.record

theorem snapshot_eq_some {spec : Spec} {now : Time} {events : List Event}
    (h : snapshot c spec now events = some r) :
    ∃ it o, accept spec now = some it ∧ (it.run c events).memory = some o ∧ o.record = r := by
  obtain ⟨it, hit, hrecord⟩ := Option.bind_eq_some_iff.mp h
  obtain ⟨o, ho, hr⟩ := Option.map_eq_some_iff.mp hrecord
  exact ⟨it, o, hit, ho, hr⟩

/-- The snapshots of an operation against the Server's check, for a clock of the years 1970 to 2262.

1. At every moment of every run, with any writes, failed journal writes and restarts, a snapshot
   is accepted exactly if its tail is valid UTF-8, its times are ordered, its error text fits and
   its revision is below 2^63.
2. While what was written since the Agent started is the beginning of valid text, the tail is
   valid exactly if no rune is cut at the end of what was written.
3. If the writes are whole, the error texts fit and the clock is never set back, every snapshot is
   accepted, across restarts too.
4. A Compose run in which no pipe read, so no relayed chunk, ends inside a rune makes only whole
   writes, whatever the relay drops. -/
theorem snapshot_accepted {c : Config} (hmin : Utf8.utfMax ≤ c.outputTailBytes)
    (hmax : c.outputTailBytes ≤ maxOperationOutputBytes) {spec : Spec} {now : Time}
    {events : List Event} (hclock : ∀ t ∈ now :: events.flatMap Event.readings, OnClock t)
    {r : Record} (hr : snapshot c spec now events = some r) :
    (Accepted r ↔ Utf8.valid r.outputTail = true ∧ Ordered r ∧ ErrorFits r.error ∧
      r.revision < 2 ^ 63) ∧
    ((∀ e ∈ events, isRestart e = false) →
      Utf8.scan .ready (events.flatMap written).flatten ≠ none →
      (Utf8.valid r.outputTail = true ↔ Utf8.valid (events.flatMap written).flatten = true)) ∧
    (year2000 ≤ now → (now :: events.flatMap Event.readings).Pairwise (· ≤ ·) →
      (∀ e ∈ events, WholeEvent c.outputTailBytes e) → events.length < 2 ^ 63 - 1 →
      Accepted r) ∧
    (∀ capacity flushFits ws, c.outputTailBytes ≤ capacity →
      (∀ w ∈ ws, Utf8.valid w.payload = true) →
      ∀ payload ∈ composeWrites capacity flushFits ws,
        WholeEvent c.outputTailBytes (.writeOutput payload)) := by
  obtain ⟨it, o, hit, ho, rfl⟩ := snapshot_eq_some hr
  have htimed : Timed o.record := by
    have hnew : Timed (newRecord spec now) := ⟨hclock now (by simp), .inl rfl, .inl rfl⟩
    refine (run_timed ?_ events fun t ht => hclock t (by simp [ht])).memory o ho
    rw [accept_eq hit]
    refine ⟨fun x hx => ?_, hnew.requested, hnew.started, hnew.finished⟩
    cases hx
    exact hnew
  have hlen : o.record.outputTail.length ≤ maxOperationOutputBytes :=
    Nat.le_trans ((run_tail_length (accept_tail hit (Nat.zero_le _)) events).memory o ho) hmax
  have hiff := accepted_iff htimed hlen
  refine ⟨hiff, ?_, ?_, ?_⟩
  · intro hrestart hscan
    obtain ⟨q, hq⟩ := Option.ne_none_iff_exists'.mp hscan
    obtain ⟨o', ho', hq'⟩ := run_scan (c := c) hmin events hrestart
      (show it.memory = some ⟨newRecord spec now, false⟩ by rw [accept_eq hit]) rfl hq
    rw [Option.some.inj (ho'.symm.trans ho)] at hq'
    rw [Utf8.valid_iff, Utf8.valid_iff, hq, hq']
  · intro hyear hsorted hwhole hcount
    obtain ⟨hfirst, hsorted⟩ := pairwise_cons.mp hsorted
    have hsteady := (run_steady (c := c) events (accept_steady hit hyear hfirst) hsorted
      hwhole).memory o ho
    have hvalid := (run_tail_valid hmin (accept_tail hit rfl) events hwhole).memory o ho
    exact hiff.mpr ⟨hvalid, hsteady.ordered, hsteady.error, by have := hsteady.revision; omega⟩
  · intro capacity flushFits ws hcap hws payload hp
    refine ⟨fun payload' he => ?_, fun error he => (nomatch he)⟩
    cases he
    exact composeWrites_whole hcap hws flushFits payload hp

/-! ## Concrete runs -/

instance (r : Record) : Decidable (Accepted r) :=
  decidable_of_iff _ operationFromAgent_isOk.symm

instance (t : Int) : Decidable (OnClock t) := by
  unfold OnClock
  infer_instance

def newYear : Time := 1767225600 * second

def upSpec : Spec := ⟨text "op-1", text "project", [], .composeUp, []⟩

def tailConfig : Config := ⟨maxOperationOutputBytes, false⟩

def started (dispatchedAt runningAt : Time) : List Event :=
  [.transitionStatus .dispatched [] [] dispatchedAt dispatchedAt .ok,
    .transitionStatus .running [] [] runningAt runningAt .ok,
    .advancePhase .executing runningAt .ok]

/-- The events of a run that prints `é` in one chunk and succeeds. -/
def wholeEvents : List Event :=
  started newYear newYear ++
    [.writeOutput [0xC3, 0xA9], .advancePhase .finalizing newYear .ok,
      .transitionStatus .success (text "docker compose up completed") [] newYear newYear .ok]

theorem wholeEvents_accepted :
    ∃ r, snapshot tailConfig upSpec newYear wholeEvents = some r ∧ r.status = .success ∧
      Accepted r := by
  have hsome : (snapshot tailConfig upSpec newYear wholeEvents).isSome = true := by decide +kernel
  obtain ⟨r, hr⟩ := Option.isSome_iff_exists.mp hsome
  have hstatus : (snapshot tailConfig upSpec newYear wholeEvents).map Record.status =
      some .success := by decide +kernel
  rw [hr] at hstatus
  refine ⟨r, hr, Option.some.inj hstatus, ?_⟩
  refine (snapshot_accepted (by decide) (by decide) (by decide +kernel) hr).2.2.1 (by decide)
    (by decide +kernel) ?_ (by decide)
  intro e he
  simp only [wholeEvents, started, cons_append, nil_append, mem_cons, not_mem_nil, or_false] at he
  rcases he with rfl | rfl | rfl | rfl | rfl | rfl <;> refine ⟨fun payload h => ?_, by decide⟩ <;>
    cases h
  exact .of_valid (by decide)

/-- Three runs of `compose.up` whose output is the valid text `é`, and whose snapshots the Server
rejects: the snapshot falls between the two bytes; the second byte was dropped by the relay, so the
marker stands between them in the final record; the clock went back before the start. -/
theorem snapshot_rejected :
    Utf8.valid ([0xC3] ++ [0xA9]) = true ∧
    (∃ r, snapshot tailConfig upSpec newYear (started newYear newYear ++ [.writeOutput [0xC3]]) =
      some r ∧ ¬ Accepted r) ∧
    (∃ r, snapshot tailConfig upSpec newYear (started newYear newYear ++
      (composeWrites maxOperationOutputBytes true
        [⟨[0xC3], true, true⟩, ⟨[0xA9], true, false⟩]).map Event.writeOutput ++
      [.advancePhase .finalizing newYear .ok,
        .transitionStatus .success [] [] newYear newYear .ok]) = some r ∧
      r.status = .success ∧ ¬ Accepted r) ∧
    (∃ r, snapshot tailConfig upSpec newYear (started newYear (newYear - second)) = some r ∧
      ¬ Accepted r) := by
  have key : ∀ {m : Option Record} {P : Record → Prop} [DecidablePred P],
      m.any (fun r => decide (P r)) = true → ∃ r, m = some r ∧ P r := by
    intro m P _ h
    cases m with
    | none => cases h
    | some r => exact ⟨r, rfl, by simpa using h⟩
  refine ⟨by decide, key (by decide +kernel), key (by decide +kernel), key (by decide +kernel)⟩

end DockLattice.Server
