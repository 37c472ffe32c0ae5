import DockLattice.Lib.Moments
import DockLattice.Session.Registry

/-!
# DockLattice.Session.Admission

Admission against the production store, one call after the other: what it does with the row of a
retired Agent and with a row that is missing.

`restoringWatermarkStore` asks for the retirement of an Agent only in `RestoreAuthenticatedAgent`,
which it calls for a missing row. A retired row is there, so it is admitted like any other.
-/

namespace DockLattice.Session

open Operation (Time)

variable {row : AgentRow}

/-! ## One call -/

namespace Process

def finish : Nat → Process → Agents → Time → Agents × Process × Outcome
  | 0, p, agents, _ => (agents, p, none)
  | n + 1, p, agents, now =>
    match p.advance agents now .none with
    | (agents', p', none) => finish n p' agents' now
    | result => result

/-- `RegisterContext`: it needs a read, a swap and the installation. -/
def registerContext (p : Process) (agents : Agents) (info : Info) (now : Time) :
    Agents × Process × Outcome :=
  match p.begin info (watermark agents info.agentId) with
  | (p', none) => finish 3 p' agents now
  | (p', outcome) => (agents, p', outcome)

/-- What `RegisterContext` asks of a session against the watermark it reads. -/
structure Passes (p : Process) (info : Info) (last : Nat) : Prop where
  fresh : (p.record info.agentId).loaded = true → (p.record info.agentId).lastIncarnation ≤ last
  notStale : last ≤ info.incarnation
  storable : last < info.incarnation → info.incarnation ≤ maxInt64

instance (p : Process) (info : Info) (last : Nat) : Decidable (p.Passes info last) :=
  decidable_of_iff (((p.record info.agentId).loaded = true →
      (p.record info.agentId).lastIncarnation ≤ last) ∧ last ≤ info.incarnation ∧
      (last < info.incarnation → info.incarnation ≤ maxInt64))
    ⟨fun h => ⟨h.1, h.2.1, h.2.2⟩, fun h => ⟨h.fresh, h.notStale, h.storable⟩⟩

inductive Settled (p : Process) (info : Info) (row : AgentRow) :
    Agents × Process × Outcome → Prop where
  | admitted {agents' p'} (row' : agents'.get info.agentId =
        some { row with lastIncarnation := info.incarnation })
      (current : p'.current info.agentId = some info) : Settled p info row (agents', p', some (.ok ()))
  | refused {agents' p'} (e : RegisterError) (row' : agents'.get info.agentId = some row)
      (current : p'.current info.agentId = p.current info.agentId) :
      Settled p info row (agents', p', some (.error e))

structure Framed (agents : Agents) (p : Process) (id : Text) (result : Agents × Process × Outcome) :
    Prop where
  idle : result.2.1.flight = none
  row : ∀ other, other ≠ id → result.1.get other = agents.get other
  current : ∀ other, other ≠ id → result.2.1.current other = p.current other

variable {p : Process} {agents : Agents} {info : Info} {now : Time}

theorem get_set_other {κ α : Type} [DecidableEq κ] {t : Table κ α} {k other : κ} {v : α}
    (h : other ≠ k) : (t.set k v).get other = t.get other := by
  rw [Table.get_set, if_neg h]

theorem finish_install (n : Nat) {f : Flight} (hphase : f.phase = .install)
    (hf : p.flight = some f) :
    finish (n + 1) p agents now = (agents, ⟨p.records.set f.info.agentId
        { f.record with lastIncarnation := f.info.incarnation, active := some f.info }, none⟩,
      some (.ok ())) := by
  simp only [finish, advance, hf, hphase]

theorem agentId_ne_nil (hvalid : validInfo info = true) : info.agentId ≠ [] := by
  simp only [validInfo, Bool.and_eq_true, Bool.not_eq_true', List.isEmpty_eq_false_iff] at hvalid
  exact hvalid.1.1

theorem restoringLoad_known (hid : info.agentId ≠ []) (hget : agents.get info.agentId = some row)
    (now : Time) : restoringLoad agents info.agentId now = (agents, .ok row.lastIncarnation) := by
  simp [restoringLoad, loadIncarnation, hid, hget]

theorem restoringLoad_missing (hid : info.agentId ≠ []) (hget : agents.get info.agentId = none)
    (hnow : now.isZero = false) :
    restoringLoad agents info.agentId now =
      (agents.set info.agentId (restoredRow info.agentId now), .ok 0) := by
  simp [restoringLoad, loadIncarnation, restoreAuthenticatedAgent, hid, hget, hnow, Table.get_set,
    restoredRow]

theorem registerContext_missing (hvalid : validInfo info = true)
    (hget : agents.get info.agentId = none) (hnow : now.isZero = false) :
    p.registerContext agents info now =
      p.registerContext (agents.set info.agentId (restoredRow info.agentId now)) info now := by
  have hid := agentId_ne_nil hvalid
  have hzero : watermark agents info.agentId =
      watermark (agents.set info.agentId (restoredRow info.agentId now)) info.agentId := by
    simp [watermark, hget, Table.get_set, restoredRow]
  have hset : (agents.set info.agentId (restoredRow info.agentId now)).get info.agentId =
      some (restoredRow info.agentId now) := by
    rw [Table.get_set, if_pos rfl]
  unfold registerContext
  rw [← hzero]
  simp only [begin, if_pos hvalid, finish, advance, Fault.apply,
    restoringLoad_missing hid hget hnow, restoringLoad_known hid hset]
  rfl

theorem finish_swap {f : Flight} (hphase : f.phase = .swap) (hf : p.flight = some f)
    (hid : f.info.agentId ≠ []) (hget : agents.get f.info.agentId = some row)
    (hlast : f.record.lastIncarnation = row.lastIncarnation)
    (hlt : row.lastIncarnation < f.info.incarnation) :
    finish 2 p agents now =
      if f.info.incarnation ≤ maxInt64 then
        (agents.set f.info.agentId { row with lastIncarnation := f.info.incarnation },
          ⟨p.records.set f.info.agentId
            { f.record with lastIncarnation := f.info.incarnation, active := some f.info }, none⟩,
          some (.ok ()))
      else (agents, { p with flight := none }, some (.error (.advance .invalidTransition))) := by
  rw [finish]
  simp only [advance, hf, hphase, Fault.apply, compareAndSwapIncarnation, hlast]
  by_cases hmax : f.info.incarnation ≤ maxInt64
  · rw [if_neg (by simp [hid]; omega), if_pos hmax]
    simp only [hget, if_pos, Flight.swapped, resume]
    rw [finish_install 0 rfl rfl]
  · rw [if_pos (by right; right; right; omega), if_neg hmax]

theorem registerContext_known (hvalid : validInfo info = true)
    (hget : agents.get info.agentId = some row) :
    Framed agents p info.agentId (p.registerContext agents info now) ∧
    Settled p info row (p.registerContext agents info now) ∧
    ((p.registerContext agents info now).2.2 = some (.ok ()) ↔
      p.Passes info row.lastIncarnation) := by
  have hid := agentId_ne_nil hvalid
  have hcurrent : p.current info.agentId = (p.record info.agentId).active := rfl
  unfold registerContext
  simp only [begin, if_pos hvalid]
  rw [finish]
  simp only [advance, Fault.apply, restoringLoad_known hid hget, Flight.loaded]
  by_cases hold : ((p.record info.agentId).loaded &&
      decide (row.lastIncarnation < (p.record info.agentId).lastIncarnation)) = true
  · rw [if_pos hold]
    simp only [Bool.and_eq_true, decide_eq_true_eq] at hold
    refine ⟨⟨rfl, fun _ _ => rfl, fun _ _ => rfl⟩, .refused _ hget rfl, ?_⟩
    refine iff_of_false (fun h => by cases h) ?_
    intro h
    have := h.fresh hold.1
    omega
  rw [if_neg hold]
  simp only [Bool.and_eq_true, decide_eq_true_eq, not_and, not_lt] at hold
  unfold Flight.compare
  simp only
  by_cases hstale : info.incarnation < row.lastIncarnation
  · rw [if_pos hstale]
    refine ⟨⟨rfl, fun _ _ => rfl, ?_⟩, .refused _ hget ?_, ?_⟩
    · intro other hother
      simp only [resume, current_set, if_neg hother]
      rfl
    · simp only [current_set, if_true]
      rfl
    · refine iff_of_false (fun h => by cases h) ?_
      intro h
      have := h.notStale
      omega
  rw [if_neg hstale]
  by_cases hlt : row.lastIncarnation < info.incarnation
  · rw [if_pos hlt]
    simp only [resume]
    rw [finish_swap rfl rfl hid hget rfl hlt]
    simp only
    by_cases hmax : info.incarnation ≤ maxInt64
    · rw [if_pos hmax]
      refine ⟨⟨rfl, ?_, ?_⟩, .admitted ?_ ?_, iff_of_true rfl ⟨hold, by omega, fun _ => hmax⟩⟩
      · exact fun other hother => get_set_other hother
      · intro other hother
        rw [current_set, if_neg hother]
        rfl
      · rw [Table.get_set, if_pos rfl]
      · rw [current_set, if_pos rfl]
    · rw [if_neg hmax]
      refine ⟨⟨rfl, fun _ _ => rfl, fun _ _ => rfl⟩, .refused _ hget rfl, ?_⟩
      exact iff_of_false (fun h => by cases h) fun h => hmax (h.storable hlt)
  · rw [if_neg hlt]
    have heq : row.lastIncarnation = info.incarnation := by omega
    simp only [resume]
    rw [finish_install 1 rfl rfl]
    simp only
    refine ⟨⟨rfl, fun _ _ => rfl, ?_⟩, .admitted ?_ ?_, iff_of_true trivial
      ⟨hold, by omega, fun h => absurd h hlt⟩⟩
    · intro other hother
      rw [current_set, if_neg hother]
      rfl
    · rw [hget, ← heq]
    · rw [current_set, if_pos rfl]

theorem registerContext_invalid (hvalid : validInfo info = false) :
    p.registerContext agents info now = (agents, p, some (.error .invalidInfo)) := by
  simp [registerContext, begin, hvalid]

theorem registerContext_framed (hidle : p.flight = none) :
    Framed agents p info.agentId (p.registerContext agents info now) := by
  cases hvalid : validInfo info with
  | false =>
    rw [registerContext_invalid hvalid]
    exact ⟨hidle, fun _ _ => rfl, fun _ _ => rfl⟩
  | true =>
    cases hget : agents.get info.agentId with
    | some row => exact (registerContext_known hvalid hget).1
    | none =>
      cases hnow : now.isZero with
      | false =>
        rw [registerContext_missing hvalid hget hnow]
        have hset : (agents.set info.agentId (restoredRow info.agentId now)).get info.agentId =
            some (restoredRow info.agentId now) := by
          rw [Table.get_set, if_pos rfl]
        obtain ⟨⟨h₁, h₂, h₃⟩, -⟩ := registerContext_known (p := p) hvalid hset
        exact ⟨h₁, fun other hother => (h₂ other hother).trans (get_set_other hother), h₃⟩
      | true =>
        have hload : restoringLoad agents info.agentId now = (agents, .error .required) := by
          simp [restoringLoad, loadIncarnation, restoreAuthenticatedAgent, hget, hnow,
            agentId_ne_nil hvalid]
        unfold registerContext
        simp only [begin, if_pos hvalid]
        rw [finish]
        simp only [advance, Fault.apply, hload]
        exact ⟨rfl, fun _ _ => rfl, fun _ _ => rfl⟩

end Process

/-! ## Retired and missing rows -/

structure Admission where
  info : Info
  now : Time

def enter (state : Agents × Process) (a : Admission) : Agents × Process :=
  let (agents, p, _) := state.2.registerContext state.1 a.info a.now
  (agents, p)

def enterAll (state : Agents × Process) (calls : List Admission) : Agents × Process :=
  calls.foldl enter state

def Retired (agents : Agents) (agentId : Text) : Prop :=
  ∃ row, agents.get agentId = some row ∧ row.retiredAt.isSome = true

structure Proper (state : Agents × Process) (a : Admission) : Prop where
  /-- a retired Agent is refused, its row and its session stay -/
  retired : ∀ row, state.1.get a.info.agentId = some row → row.retiredAt.isSome = true →
    (∃ e, (state.2.registerContext state.1 a.info a.now).2.2 = some (.error e)) ∧
    (enter state a).1.get a.info.agentId = some row ∧
    (enter state a).2.current a.info.agentId = state.2.current a.info.agentId
  /-- an Agent without a row gets one, with watermark zero, and is admitted -/
  restored : state.1.get a.info.agentId = none → Process.validInfo a.info = true →
    a.now.isZero = false →
    (state.2.registerContext state.1 a.info a.now).2.2 = some (.ok ()) ∧
    (enter state a).1.get a.info.agentId =
      some { restoredRow a.info.agentId a.now with lastIncarnation := a.info.incarnation } ∧
    (enter state a).2.current a.info.agentId = some a.info

/-- The sessions with which an admission does that: a session of a retired Agent does not pass the
comparison with its watermark, a session of an Agent without a row passes the comparison with zero. -/
structure Excluded (state : Agents × Process) (a : Admission) : Prop where
  retired : ∀ row, state.1.get a.info.agentId = some row → row.retiredAt.isSome = true →
    Process.validInfo a.info = true → ¬ state.2.Passes a.info row.lastIncarnation
  restored : state.1.get a.info.agentId = none → Process.validInfo a.info = true →
    a.now.isZero = false → state.2.Passes a.info 0

section Rows

variable {state : Agents × Process} {a : Admission}

theorem refused_iff (hget : state.1.get a.info.agentId = some row) :
    ((∃ e, (state.2.registerContext state.1 a.info a.now).2.2 = some (.error e)) ∧
      (enter state a).1.get a.info.agentId = some row ∧
      (enter state a).2.current a.info.agentId = state.2.current a.info.agentId) ↔
    (Process.validInfo a.info = true → ¬ state.2.Passes a.info row.lastIncarnation) := by
  unfold enter
  cases hvalid : Process.validInfo a.info with
  | false =>
    rw [Process.registerContext_invalid hvalid]
    exact iff_of_true ⟨⟨_, rfl⟩, hget, rfl⟩ fun h => by cases h
  | true =>
    obtain ⟨-, hsettled, hiff⟩ :=
      Process.registerContext_known (p := state.2) hvalid hget
    rw [← hiff]
    generalize state.2.registerContext state.1 a.info a.now = result at hsettled
    cases hsettled with
    | admitted _ _ =>
      refine iff_of_false ?_ (fun h => h rfl rfl)
      intro h
      obtain ⟨⟨e, he⟩, -⟩ := h
      cases he
    | refused e hrow hcurrent =>
      exact iff_of_true ⟨⟨e, rfl⟩, hrow, hcurrent⟩ fun _ h => by cases h

theorem restored_iff (hget : state.1.get a.info.agentId = none)
    (hvalid : Process.validInfo a.info = true) (hnow : a.now.isZero = false) :
    ((state.2.registerContext state.1 a.info a.now).2.2 = some (.ok ()) ∧
      (enter state a).1.get a.info.agentId =
        some { restoredRow a.info.agentId a.now with lastIncarnation := a.info.incarnation } ∧
      (enter state a).2.current a.info.agentId = some a.info) ↔ state.2.Passes a.info 0 := by
  have hset : (state.1.set a.info.agentId (restoredRow a.info.agentId a.now)).get a.info.agentId =
      some (restoredRow a.info.agentId a.now) := by
    rw [Table.get_set, if_pos rfl]
  obtain ⟨-, hsettled, hiff⟩ :=
    Process.registerContext_known (p := state.2) hvalid hset
  unfold enter
  rw [Process.registerContext_missing hvalid hget hnow]
  rw [show (restoredRow a.info.agentId a.now).lastIncarnation = 0 from rfl] at hiff
  rw [← hiff]
  generalize state.2.registerContext
    (state.1.set a.info.agentId (restoredRow a.info.agentId a.now)) a.info a.now = result at hsettled
  cases hsettled with
  | admitted hrow hcurrent => exact iff_of_true ⟨rfl, hrow, hcurrent⟩ rfl
  | refused e _ _ => exact iff_of_false (fun h => by cases h.1) fun h => by cases h

theorem proper_iff : Proper state a ↔ Excluded state a := by
  constructor
  · intro h
    refine ⟨?_, ?_⟩
    · intro row hget hretired
      exact (refused_iff hget).mp (h.retired row hget hretired)
    · intro hget hvalid hnow
      exact (restored_iff hget hvalid hnow).mp (h.restored hget hvalid hnow)
  · intro h
    refine ⟨?_, ?_⟩
    · intro row hget hretired
      exact (refused_iff hget).mpr (h.retired row hget hretired)
    · intro hget hvalid hnow
      exact (restored_iff hget hvalid hnow).mpr (h.restored hget hvalid hnow)

theorem Proper.keeps (h : Proper state a) (hidle : state.2.flight = none) {id : Text}
    (hget : state.1.get id = some row) (hretired : row.retiredAt.isSome = true)
    (hnone : state.2.current id = none) :
    (enter state a).2.flight = none ∧ (enter state a).1.get id = some row ∧
      (enter state a).2.current id = none := by
  obtain ⟨hflight, hrows, hcurrents⟩ : Process.Framed state.1 state.2 a.info.agentId _ :=
    Process.registerContext_framed hidle
  refine ⟨hflight, ?_⟩
  by_cases hid : id = a.info.agentId
  · subst hid
    obtain ⟨-, hrow, hcurrent⟩ := h.retired row hget hretired
    exact ⟨hrow, hcurrent.trans hnone⟩
  · exact ⟨(hrows id hid).trans hget, (hcurrents id hid).trans hnone⟩

end Rows

theorem enterAll_retired {agents : Agents} {calls : List Admission}
    (h : Moments.AtEachStep (fun before a => Proper (enterAll (agents, .fresh) before) a) calls)
    {id : Text} (hget : agents.get id = some row) (hretired : row.retiredAt.isSome = true) :
    (enterAll (agents, .fresh) calls).2.flight = none ∧
      (enterAll (agents, .fresh) calls).1.get id = some row ∧
      (enterAll (agents, .fresh) calls).2.current id = none := by
  induction calls using List.reverseRecOn with
  | nil => exact ⟨rfl, hget, rfl⟩
  | append_singleton calls a ih =>
    rw [Moments.atEachStep_snoc] at h
    obtain ⟨hidle, hrow, hnone⟩ := ih h.1
    have hstep : enterAll (agents, .fresh) (calls ++ [a]) =
        enter (enterAll (agents, .fresh) calls) a := by
      simp [enterAll]
    rw [hstep]
    exact h.2.keeps hidle hrow hretired hnone

/-- A Server keeps retired Agents out, over every sequence of admissions against every database,
exactly if no retired Agent comes with a session that passes the comparison with its watermark (and
no Agent without a row with one that does not pass). -/
theorem retired_refused_iff (agents : Agents) (calls : List Admission) :
    (Moments.AtEachStep (fun before a => Proper (enterAll (agents, .fresh) before) a) calls ∧
      ∀ id, Retired agents id → (enterAll (agents, .fresh) calls).2.current id = none) ↔
    Moments.AtEachStep (fun before a => Excluded (enterAll (agents, .fresh) before) a) calls := by
  have hiff : Moments.AtEachStep (fun before a => Proper (enterAll (agents, .fresh) before) a) calls ↔
      Moments.AtEachStep (fun before a => Excluded (enterAll (agents, .fresh) before) a) calls := by
    simp only [proper_iff]
  constructor
  · intro h
    exact hiff.mp h.1
  intro h
  have hproper := hiff.mpr h
  refine ⟨hproper, ?_⟩
  intro id hid
  obtain ⟨row, hget, hretired⟩ := hid
  exact (enterAll_retired hproper hget hretired).2.2

def retiredAgent : Agents :=
  Table.empty.set (text "agent")
    { restoredRow (text "agent") 0 with retiredAt := some 1, lastIncarnation := 5 }

/-- The retired Agent comes with the incarnation after its watermark: it is admitted, and its row
changes. -/
theorem retiredAgent_admitted :
    let state := enter (retiredAgent, .fresh) ⟨⟨text "agent", text "session", 6⟩, 0⟩
    state.2.current (text "agent") = some ⟨text "agent", text "session", 6⟩ ∧
    (state.1.get (text "agent")).map AgentRow.retiredAt = some (some 1) ∧
    (state.1.get (text "agent")).map AgentRow.lastIncarnation = some 6 := by
  decide +kernel

end DockLattice.Session
