import DockLattice.Operation.Output

/-!
# DockLattice.Operation.Relay

A run of Docker Compose (`composeexec/runner.go`) with the goroutines that copy the output of its
process into the relay channel, and the consumer of the channel (`composeLogSource.Stream`). Only
`Wait` waits for the copying: where `Run` gives up because it cannot signal the process group, the
copying goes on behind its return.
-/

namespace DockLattice.Operation

open Bytes List

/-- `nonBlockingRelay` and what it has sent, each chunk with the bytes dropped by then; `written` are
the bytes it was given. -/
structure Relay where
  pending : Nat
  total : Nat
  sent : List (Chunk × Nat)
  written : Nat
  deriving DecidableEq, Repr

def Relay.dataBytes (sent : List (Chunk × Nat)) : Nat := (sent.map fun c => c.1.data.length).sum

def Relay.droppedBytes (sent : List (Chunk × Nat)) : Nat := (sent.map fun c => c.1.droppedBytes).sum

namespace Relay

def send (r : Relay) (w : Write) : Relay :=
  let (pending, chunks) := relaySend r.pending w
  { pending := pending
    total := r.total + (w.payload.length - (chunks.map fun c => c.data.length).sum)
    sent := r.sent ++ chunks.map fun c => (c, r.total)
    written := r.written + w.payload.length }

def flushMarker (r : Relay) (fits : Bool) : Relay :=
  if 0 < r.pending && fits then { r with pending := 0, sent := r.sent ++ [(⟨[], r.pending⟩, r.total)] }
  else r

/-- Nothing that was written is missing, nothing that was dropped is unreported but what is pending,
and a chunk with data goes out only behind the markers of all drops before it. -/
structure Accounted (r : Relay) : Prop where
  bytes : dataBytes r.sent + r.total = r.written
  drops : droppedBytes r.sent + r.pending = r.total
  covered : ∀ before c n, before ++ [(c, n)] <+: r.sent → c.data ≠ [] → droppedBytes before = n

end Relay

/-! ## `Runner.Run` -/

inductive RunStage where
  | running
  | terminated
  | killed
  | leaving
  | flushed
  | returned (relayDroppedBytes : Nat)
  deriving DecidableEq, Repr

/-- `Run` stands at a select that receives what `Wait` returned. -/
def RunStage.waits : RunStage → Bool
  | .running | .terminated | .killed => true
  | .leaving | .flushed | .returned _ => false

/-- `copied` once the process has ended and its output is read to the end, so that `Wait` returns. -/
structure Running where
  stage : RunStage
  copied : Bool
  relay : Relay
  deriving DecidableEq, Repr

/-- What happens next: to the copying, at the selects of `Run`, and in `finalizeResult`. -/
inductive RunEvent where
  | write (w : Write)
  | copied
  | waited
  | terminate (signaled : Bool)
  | kill (signaled : Bool)
  | flush (fits : Bool)
  | load
  deriving DecidableEq, Repr

def Running.start : Running := ⟨.running, false, ⟨0, 0, [], 0⟩⟩

def Running.step (s : Running) : RunEvent → Option Running
  | .write w => if s.copied = false then some { s with relay := s.relay.send w } else none
  | .copied => if s.copied = false then some { s with copied := true } else none
  | .waited => if s.stage.waits && s.copied then some { s with stage := .leaving } else none
  | .terminate signaled =>
    if s.stage = .running then some { s with stage := if signaled then .terminated else .leaving }
    else none
  | .kill signaled =>
    if s.stage = .terminated then some { s with stage := if signaled then .killed else .leaving }
    else none
  | .flush fits =>
    if s.stage = .leaving then some { s with stage := .flushed, relay := s.relay.flushMarker fits }
    else none
  | .load => if s.stage = .flushed then some { s with stage := .returned s.relay.total } else none

def Running.run (s : Running) (events : List RunEvent) : Option Running :=
  events.foldlM Running.step s

/-- The drops that `composeLogSource` reports, of what it received and of the result of `Run`. -/
def streamDrops (relayDroppedBytes : Nat) (sent : List (Chunk × Nat)) : List Nat :=
  let relayed := (sent.map fun c => c.1.droppedBytes).filter (0 < ·)
  relayed ++ if relayed.sum < relayDroppedBytes then [relayDroppedBytes - relayed.sum] else []

/-! ## Sends behind the return -/

namespace Running

variable {s t : Running} {events : List RunEvent}

theorem run_cons (s : Running) (e : RunEvent) (events : List RunEvent) :
    s.run (e :: events) = (s.step e).bind fun t => t.run events := rfl

/-- Only a signal that fails takes `Run` past its selects before the copying has ended. -/
theorem step_copied {e : RunEvent} (h : s.step e = some t)
    (hs : s.stage.waits = true ∨ s.copied = true) (hterm : e ≠ .terminate false)
    (hkill : e ≠ .kill false) : t.stage.waits = true ∨ t.copied = true := by
  cases e with
  | terminate signaled | kill signaled =>
    cases signaled <;> simp_all [step, RunStage.waits]
    simp [← h.2]
  | write | copied | waited | flush | load =>
    simp only [step, Option.ite_none_right_eq_some, Option.some.injEq] at h
    obtain ⟨hguard, rfl⟩ := h
    simp_all [RunStage.waits]

theorem run_copied (h : s.run events = some t) (hs : s.stage.waits = true ∨ s.copied = true)
    (hterm : .terminate false ∉ events) (hkill : .kill false ∉ events) :
    t.stage.waits = true ∨ t.copied = true := by
  induction events generalizing s with
  | nil =>
    cases h
    exact hs
  | cons e events ih =>
    rw [mem_cons, not_or] at hterm hkill
    rw [run_cons, Option.bind_eq_some_iff] at h
    obtain ⟨u, hu, h⟩ := h
    exact ih h (step_copied hu hs (Ne.symm hterm.1) (Ne.symm hkill.1)) hterm.2 hkill.2

/-- Behind the return only the copying goes on. -/
theorem run_returned {n : Nat} (hn : s.stage = .returned n) (hs : s.copied = true)
    (h : s.run events = some t) : events = [] ∧ t = s := by
  cases events with
  | nil =>
    cases h
    exact ⟨rfl, rfl⟩
  | cons e events =>
    rw [run_cons, Option.bind_eq_some_iff] at h
    obtain ⟨u, hu, -⟩ := h
    cases e <;> simp [step, hs, hn, RunStage.waits] at hu

theorem run_load (h : s.run (events ++ [.load]) = some t) :
    ∃ u, s.run events = some u ∧ u.stage = .flushed ∧
      t = { u with stage := .returned u.relay.total } := by
  simp only [run, foldlM_append, foldlM_cons, foldlM_nil, step, Option.bind_eq_bind,
    Option.bind_eq_some_iff, Option.ite_none_right_eq_some, Option.some.injEq, Option.pure_def] at h
  obtain ⟨u, hu, v, ⟨hstage, rfl⟩, rfl⟩ := h
  exact ⟨u, hu, hstage, rfl⟩

theorem run_write (hs : s.copied = false) (w : Write) (events : List RunEvent) :
    s.run (.write w :: events) = { s with relay := s.relay.send w }.run events := by
  rw [run_cons, step, if_pos hs, Option.bind_some]

end Running

theorem Relay.send_sends (r : Relay) (b : Byte) : (r.send ⟨[b], true, true⟩).sent ≠ r.sent := by
  by_cases hpending : 0 < r.pending <;> simp [send, relaySend, hpending]

/-- Whatever has happened by the return of `Run`: nothing is sent behind it, and nothing is written to
the relay, exactly if the copying had ended, and it had unless the process group could not be
signaled. -/
theorem sends_end_iff {s : Running} {events : List RunEvent}
    (h : Running.start.run (events ++ [.load]) = some s) :
    ((∀ later t, s.run later = some t → t.relay.sent = s.relay.sent) ↔ s.copied = true) ∧
      ((∀ later t, s.run later = some t → ∀ w, .write w ∉ later) ↔ s.copied = true) ∧
      (.terminate false ∉ events → .kill false ∉ events → s.copied = true) := by
  obtain ⟨u, hu, hstage, rfl⟩ := Running.run_load h
  refine ⟨⟨fun hnone => ?_, fun hcopied later t ht => ?_⟩,
    ⟨fun hnone => ?_, fun hcopied later t ht w => ?_⟩, fun hterm hkill => ?_⟩
  · by_contra hcopied
    exact Relay.send_sends _ 0 (hnone _ _
      (Running.run_write (Bool.eq_false_of_not_eq_true hcopied) ⟨[0], true, true⟩ []))
  · rw [(Running.run_returned rfl hcopied ht).2]
  · by_contra hcopied
    exact hnone _ _ (Running.run_write (Bool.eq_false_of_not_eq_true hcopied) ⟨[0], true, true⟩ [])
      _ mem_cons_self
  · rw [(Running.run_returned rfl hcopied ht).1]
    exact not_mem_nil
  · have hcopied := Running.run_copied hu (.inl rfl) hterm hkill
    simpa [hstage, RunStage.waits] using hcopied

theorem sends_end_after_kill :
    Running.start.run ([.terminate true, .kill true, .copied, .waited, .flush true] ++ [.load]) =
        some ⟨.returned 0, true, ⟨0, 0, [], 0⟩⟩ ∧
      ∀ later t, Running.run ⟨.returned 0, true, ⟨0, 0, [], 0⟩⟩ later = some t → ∀ w,
        .write w ∉ later := by
  have hrun : Running.start.run
      ([.terminate true, .kill true, .copied, .waited, .flush true] ++ [.load]) =
        some ⟨.returned 0, true, ⟨0, 0, [], 0⟩⟩ := by decide
  have hend := sends_end_iff hrun
  exact ⟨hrun, hend.2.1.mpr (hend.2.2 (by decide) (by decide))⟩

/-- The process group cannot be signaled, `Run` returns, and the process writes on. -/
theorem send_behind_return :
    (Running.start.run [.terminate false, .flush true, .load]).bind
        (fun s => s.run [.write ⟨[1], true, true⟩]) =
      some ⟨.returned 0, false, ⟨0, 0, [(⟨[1], 0⟩, 0)], 1⟩⟩ := by decide

/-! ## The account of the drops -/

namespace Relay

variable {r : Relay}

@[simp] theorem dataBytes_concat (sent : List (Chunk × Nat)) (c : Chunk) (n : Nat) :
    dataBytes (sent ++ [(c, n)]) = dataBytes sent + c.data.length := by
  simp [dataBytes]

@[simp] theorem droppedBytes_concat (sent : List (Chunk × Nat)) (c : Chunk) (n : Nat) :
    droppedBytes (sent ++ [(c, n)]) = droppedBytes sent + c.droppedBytes := by
  simp [droppedBytes]

namespace Accounted

section

variable (h : r.Accounted)

include h

theorem drop (k : Nat) :
    Accounted ⟨r.pending + k, r.total + k, r.sent, r.written + k⟩ where
  bytes := by have := h.bytes; dsimp only; omega
  drops := by have := h.drops; dsimp only; omega
  covered := h.covered

theorem marker :
    Accounted { r with pending := 0, sent := r.sent ++ [(⟨[], r.pending⟩, r.total)] } where
  bytes := by simpa using h.bytes
  drops := by simpa using h.drops
  covered before c n hc hdata := by
    rcases prefix_concat_iff.mp hc with hc | hc
    · rw [append_singleton_inj, Prod.mk.injEq] at hc
      exact absurd (congrArg Chunk.data hc.2.1) hdata
    · exact h.covered before c n hc hdata

theorem data (hr : r.pending = 0) (payload : Text) :
    Accounted { r with
      sent := r.sent ++ [(⟨payload, 0⟩, r.total)], written := r.written + payload.length } where
  bytes := by have := h.bytes; simp only [dataBytes_concat]; omega
  drops := by simpa using h.drops
  covered before c n hc hdata := by
    rcases prefix_concat_iff.mp hc with hc | hc
    · rw [append_singleton_inj, Prod.mk.injEq] at hc
      rw [hc.1, hc.2.2, ← h.drops, hr, Nat.add_zero]
    · exact h.covered before c n hc hdata

theorem flushMarker (fits : Bool) : (r.flushMarker fits).Accounted := by
  rw [Relay.flushMarker]
  split
  · exact h.marker
  · exact h

theorem send (w : Write) : (r.send w).Accounted := by
  by_cases hempty : w.payload = []
  · simpa [Relay.send, relaySend, hempty] using h
  have hnot : w.payload.isEmpty = false := by simpa using hempty
  by_cases hpending : 0 < r.pending
  · by_cases hmarker : w.markerFits
    · by_cases hdata : w.dataFits
      · simpa [Relay.send, relaySend, hnot, hpending, hmarker, hdata] using
          h.marker.data rfl w.payload
      · simpa [Relay.send, relaySend, hnot, hpending, hmarker, hdata] using
          h.marker.drop w.payload.length
    · simpa [Relay.send, relaySend, hnot, hpending, hmarker] using h.drop w.payload.length
  · have hzero : r.pending = 0 := by omega
    by_cases hdata : w.dataFits
    · simpa [Relay.send, relaySend, hnot, hzero, hdata] using h.data hzero w.payload
    · simpa [Relay.send, relaySend, hnot, hzero, hdata] using h.drop w.payload.length

end

end Accounted

end Relay

theorem Running.run_accounted {s t : Running} {events : List RunEvent} (hs : s.relay.Accounted)
    (h : s.run events = some t) : t.relay.Accounted := by
  induction events generalizing s with
  | nil =>
    cases h
    exact hs
  | cons e events ih =>
    rw [run_cons, Option.bind_eq_some_iff] at h
    obtain ⟨u, hu, h⟩ := h
    refine ih ?_ h
    cases e with
    | write w =>
      simp only [step, Option.ite_none_right_eq_some, Option.some.injEq] at hu
      rw [← hu.2]
      exact hs.send w
    | flush fits =>
      simp only [step, Option.ite_none_right_eq_some, Option.some.injEq] at hu
      rw [← hu.2]
      exact hs.flushMarker fits
    | copied | waited | terminate | kill | load =>
      simp only [step, Option.ite_none_right_eq_some, Option.some.injEq] at hu
      rw [← hu.2]
      exact hs

theorem sum_filter_pos (ns : List Nat) : (ns.filter (0 < ·)).sum = ns.sum := by
  induction ns with
  | nil => rfl
  | cons n ns ih =>
    rw [filter_cons]
    split <;> simp_all

theorem streamDrops_sum (n : Nat) (sent : List (Chunk × Nat)) :
    (streamDrops n sent).sum = max n (Relay.droppedBytes sent) := by
  simp only [streamDrops, sum_append, sum_filter_pos, Relay.droppedBytes]
  split
  · rw [sum_singleton]
    omega
  · rw [sum_nil]
    omega

theorem Relay.Accounted.late_drop {r : Relay} (h : r.Accounted) :
    r.total < droppedBytes ((r.send ⟨[0], true, false⟩).send ⟨[0], true, true⟩).sent := by
  have hdrops := ((h.send ⟨[0], true, false⟩).send ⟨[0], true, true⟩).drops
  have hpending : ((r.send ⟨[0], true, false⟩).send ⟨[0], true, true⟩).pending = 0 := by
    simp [Relay.send, relaySend]
  have htotal : ((r.send ⟨[0], true, false⟩).send ⟨[0], true, true⟩).total = r.total + 1 := by
    by_cases h0 : 0 < r.pending <;> simp [Relay.send, relaySend, h0]
  omega

/-- At every point of a run all bytes are accounted for. What the log source reports in the end is the
result of `Run`, whatever happens before the channel is closed, exactly if the copying had ended by
the return; if it had not, it is exactly if no more was reported as dropped than `Run` read. -/
theorem drops_accounted_iff {s : Running} {n : Nat} {events : List RunEvent}
    (h : Running.start.run (events ++ [.load]) = some s) (hn : s.stage = .returned n) :
    ((∀ late t, s.run late = some t → (streamDrops n t.relay.sent).sum = n) ↔ s.copied = true) ∧
    ∀ late t, s.run late = some t →
      (∀ before u, before <+: events ++ .load :: late → Running.start.run before = some u →
        u.relay.Accounted) ∧
      ((streamDrops n t.relay.sent).sum = n ↔ Relay.droppedBytes t.relay.sent ≤ n) := by
  have hstart : Running.start.relay.Accounted :=
    ⟨rfl, rfl, fun before c n hc => by simp [Running.start] at hc⟩
  obtain ⟨u, hu, -, rfl⟩ := Running.run_load h
  cases hn
  have hu' := Running.run_accounted hstart hu
  have hsum : ∀ sent, (streamDrops u.relay.total sent).sum = u.relay.total ↔
      Relay.droppedBytes sent ≤ u.relay.total := by
    intro sent
    rw [streamDrops_sum]
    exact max_eq_left_iff
  refine ⟨⟨fun hall => ?_, fun hcopied late t hlate => ?_⟩, fun late t _ =>
    ⟨fun before v _ hbefore => Running.run_accounted hstart hbefore, hsum _⟩⟩
  · by_contra hcopied
    -- a byte is dropped behind the return, and the next write finds room for its marker
    have hfalse : u.copied = false := Bool.eq_false_of_not_eq_true hcopied
    have hrun : Running.run { u with stage := .returned u.relay.total }
        [.write ⟨[0], true, false⟩, .write ⟨[0], true, true⟩] =
        some { u with
          stage := .returned u.relay.total
          relay := (u.relay.send ⟨[0], true, false⟩).send ⟨[0], true, true⟩ } := by
      simp [Running.run, Running.step, hfalse]
    exact absurd ((hsum _).mp (hall _ _ hrun)) (not_le.mpr hu'.late_drop)
  · rw [(Running.run_returned rfl hcopied hlate).2, hsum]
    have := hu'.drops
    dsimp only
    omega

/-- A drop that no marker reported by the end is reported by the log source. -/
theorem drops_accounted_at_end : (streamDrops 1 []).sum = 1 := by
  have hrun : Running.start.run
      ([.write ⟨[1], true, false⟩, .copied, .waited, .flush false] ++ [.load]) =
      some ⟨.returned 1, true, ⟨1, 1, [], 1⟩⟩ := by decide
  exact (drops_accounted_iff hrun rfl).1.mpr rfl [] _ rfl

/-- `Run` gives up and reads no drop; then one byte is dropped, and its marker sent before the channel
is closed. -/
theorem drop_behind_load :
    (Running.start.run [.terminate false, .flush true, .load]).bind
        (fun s => s.run [.write ⟨[1], true, false⟩, .write ⟨[2], true, true⟩]) =
      some ⟨.returned 0, false, ⟨0, 1, [(⟨[], 1⟩, 1), (⟨[2], 0⟩, 1)], 2⟩⟩ ∧
    (streamDrops 0 [(⟨[], 1⟩, 1), (⟨[2], 0⟩, 1)]).sum ≠ 0 := by decide

end DockLattice.Operation
