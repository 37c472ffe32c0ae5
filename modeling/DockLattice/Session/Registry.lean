import DockLattice.Lib.Table
import DockLattice.Operation.Types

/-!
# DockLattice.Session.Registry

The session registry of the Servers and the incarnation watermark they share. `RegisterContext` holds
the mutex of its registry throughout, but another Server can use the database between any two of its
calls: a process makes one store call per step, and the world interleaves several of them.
-/

namespace DockLattice.Session

open Operation (Time)

/-! ## The agents table -/

structure AgentRow where
  displayName : Text
  firstSeenAt : Time
  lastSeenAt : Time
  metadataJson : Text
  capabilitiesJson : Text
  retiredAt : Option Time
  lastIncarnation : Nat
  deriving DecidableEq, Repr

abbrev Agents := Table Text AgentRow

inductive StoreError where
  | emptyAgentId
  | noRows
  | invalidTransition
  | agentRetired
  | required
  | failed
  deriving DecidableEq, Repr

def maxInt64 : Nat := 9223372036854775807

def loadIncarnation (agents : Agents) (agentId : Text) : Except StoreError Nat :=
  if agentId = [] then .error .emptyAgentId
  else
    match agents.get agentId with
    | none => .error .noRows
    | some row => .ok row.lastIncarnation

def compareAndSwapIncarnation (agents : Agents) (agentId : Text) (old next : Nat) :
    Agents × Except StoreError Bool :=
  if agentId = [] ∨ next ≤ old ∨ maxInt64 < old ∨ maxInt64 < next then
    (agents, .error .invalidTransition)
  else
    match agents.get agentId with
    | none => (agents, .ok false)
    | some row =>
      if row.lastIncarnation = old then
        (agents.set agentId { row with lastIncarnation := next }, .ok true)
      else (agents, .ok false)

def restoredRow (agentId : Text) (observedAt : Time) : AgentRow where
  displayName := agentId
  firstSeenAt := observedAt
  lastSeenAt := observedAt
  metadataJson := text "{}"
  capabilitiesJson := text "{}"
  retiredAt := none
  lastIncarnation := 0

def restoreAuthenticatedAgent (agents : Agents) (agentId : Text) (observedAt : Time) :
    Agents × Except StoreError Unit :=
  if agentId = [] ∨ observedAt.isZero = true then (agents, .error .required)
  else
    match agents.get agentId with
    | none => (agents.set agentId (restoredRow agentId observedAt), .ok ())
    | some row =>
      if row.retiredAt.isSome then (agents, .error .agentRetired) else (agents, .ok ())

def restoringLoad (agents : Agents) (agentId : Text) (now : Time) :
    Agents × Except StoreError Nat :=
  match loadIncarnation agents agentId with
  | .error .noRows =>
    match restoreAuthenticatedAgent agents agentId now with
    | (agents', .error e) => (agents', .error e)
    | (agents', .ok ()) => (agents', loadIncarnation agents' agentId)
  | answer => (agents, answer)

inductive Fault where
  | none
  | before
  | after
  deriving DecidableEq, Repr

def Fault.apply {α : Type} (fault : Fault) (agents : Agents)
    (call : Agents × Except StoreError α) : Agents × Except StoreError α :=
  match fault with
  | .none => call
  | .before => (agents, .error .failed)
  | .after => (call.1, .error .failed)

/-! ## One registry -/

structure Info where
  agentId : Text
  sessionId : Text
  incarnation : Nat
  deriving DecidableEq, Repr

structure Record where
  lastIncarnation : Nat
  loaded : Bool
  active : Option Info
  deriving DecidableEq, Repr

def Record.absent : Record := ⟨0, false, none⟩

inductive RegisterError where
  | invalidInfo
  | load (e : StoreError)
  | regressed (last loaded : Nat)
  | stale (offered lastAccepted : Nat)
  | advance (e : StoreError)
  | reload (e : StoreError)
  | noProgress (watermark : Nat)
  deriving DecidableEq, Repr

/-- The store call that `RegisterContext` makes next. -/
inductive Phase where
  | load
  | swap
  | reload (previous : Nat)
  /-- none: the session is installed and the mutex released -/
  | install
  deriving DecidableEq, Repr

/-- A `RegisterContext` that holds the mutex. -/
structure Flight where
  info : Info
  record : Record
  phase : Phase
  /-- the watermark at the time of the call; the code does not have it -/
  floor : Nat
  deriving DecidableEq, Repr

inductive Next where
  | go (flight : Flight)
  /-- the call returns, having stored a record or not -/
  | stop (record : Option Record) (error : RegisterError)

namespace Flight

def compare (f : Flight) (record : Record) : Next :=
  if f.info.incarnation < record.lastIncarnation then
    .stop (some record) (.stale f.info.incarnation record.lastIncarnation)
  else if record.lastIncarnation < f.info.incarnation then
    .go { f with record := record, phase := .swap }
  else .go { f with record := record, phase := .install }

def loaded (f : Flight) (last : Nat) : Next :=
  if f.record.loaded && last < f.record.lastIncarnation then
    .stop none (.regressed f.record.lastIncarnation last)
  else f.compare { f.record with lastIncarnation := last, loaded := true }

def swapped (f : Flight) (done : Bool) : Next :=
  if done then
    .go { f with
      record := { f.record with lastIncarnation := f.info.incarnation }, phase := .install }
  else .go { f with phase := .reload f.record.lastIncarnation }

def reloaded (f : Flight) (previous last : Nat) : Next :=
  if last ≤ previous then .stop none (.noProgress previous)
  else f.compare { f.record with lastIncarnation := last }

end Flight

structure Process where
  records : Table Text Record
  flight : Option Flight

namespace Process

def fresh : Process := ⟨.empty, none⟩

def record (p : Process) (agentId : Text) : Record := (p.records.get agentId).getD .absent

def current (p : Process) (agentId : Text) : Option Info := (p.record agentId).active

abbrev Outcome := Option (Except RegisterError Unit)

def validInfo (info : Info) : Bool :=
  !info.agentId.isEmpty && !info.sessionId.isEmpty && info.incarnation != 0

def begin (p : Process) (info : Info) (floor : Nat) : Process × Outcome :=
  if validInfo info then
    ({ p with flight := some ⟨info, p.record info.agentId, .load, floor⟩ }, none)
  else (p, some (.error .invalidInfo))

def resume (p : Process) (f : Flight) : Next → Process × Outcome
  | .go f' => ({ p with flight := some f' }, none)
  | .stop none e => ({ p with flight := none }, some (.error e))
  | .stop (some record) e =>
    (⟨p.records.set f.info.agentId record, none⟩, some (.error e))

def advance (p : Process) (agents : Agents) (now : Time) (fault : Fault) :
    Agents × Process × Outcome :=
  match p.flight with
  | none => (agents, p, none)
  | some f =>
    match f.phase with
    | .load =>
      match fault.apply agents (restoringLoad agents f.info.agentId now) with
      | (agents', .error e) => (agents', { p with flight := none }, some (.error (.load e)))
      | (agents', .ok last) => (agents', p.resume f (f.loaded last))
    | .swap =>
      match fault.apply agents (compareAndSwapIncarnation agents f.info.agentId
          f.record.lastIncarnation f.info.incarnation) with
      | (agents', .error e) => (agents', { p with flight := none }, some (.error (.advance e)))
      | (agents', .ok done) => (agents', p.resume f (f.swapped done))
    | .reload previous =>
      match fault.apply agents (restoringLoad agents f.info.agentId now) with
      | (agents', .error e) => (agents', { p with flight := none }, some (.error (.reload e)))
      | (agents', .ok last) => (agents', p.resume f (f.reloaded previous last))
    | .install =>
      (agents, ⟨p.records.set f.info.agentId
          { f.record with lastIncarnation := f.info.incarnation, active := some f.info }, none⟩,
        some (.ok ()))

def sessionClosed (p : Process) (agentId sessionId : Text) : Process :=
  match p.records.get agentId with
  | none => p
  | some record =>
    match record.active with
    | none => p
    | some info =>
      if info.sessionId ≠ sessionId then p
      else { p with records := p.records.set agentId { record with active := none } }

end Process

/-! ## Several Servers -/

inductive Note where
  /-- the store call that settles the admission: the watermark was read or made the incarnation -/
  | decided (process : Nat) (info : Info)
  | accepted (process : Nat) (info : Info) (floor : Nat)
  | closed (process : Nat) (agentId sessionId : Text)
  deriving DecidableEq, Repr

structure World where
  agents : Agents
  processes : Nat → Process
  history : List Note

inductive Step where
  | begin (process : Nat) (info : Info)
  | advance (process : Nat) (now : Time) (fault : Fault)
  | closed (process : Nat) (agentId sessionId : Text)

def watermark (agents : Agents) (agentId : Text) : Nat :=
  ((agents.get agentId).map AgentRow.lastIncarnation).getD 0

def Flight.settled (f : Flight) : Bool := f.phase == .install

def notes (i : Nat) (before : Option Flight) (after : Option Flight) (outcome : Process.Outcome) :
    List Note :=
  match before, after, outcome with
  | some f, none, some (.ok ()) => [.accepted i f.info f.floor]
  | some f, some f', _ => if f'.settled && !f.settled then [.decided i f'.info] else []
  | _, _, _ => []

namespace World

def start (agents : Agents) : World := ⟨agents, fun _ => .fresh, []⟩

def current (w : World) (i : Nat) (agentId : Text) : Option Info :=
  (w.processes i).current agentId

def put (w : World) (i : Nat) (p : Process) : Nat → Process := Function.update w.processes i p

/-- Calls that need the mutex wait while a `RegisterContext` holds it. -/
def step (w : World) : Step → World
  | .begin i info =>
    if (w.processes i).flight.isSome then w
    else
      { w with
        processes := w.put i ((w.processes i).begin info (watermark w.agents info.agentId)).1 }
  | .advance i now fault =>
    let (agents, p, outcome) := (w.processes i).advance w.agents now fault
    { agents := agents
      processes := w.put i p
      history := w.history ++ notes i (w.processes i).flight p.flight outcome }
  | .closed i agentId sessionId =>
    if (w.processes i).flight.isSome then w
    else
      { w with
        processes := w.put i ((w.processes i).sessionClosed agentId sessionId)
        history := w.history ++ [.closed i agentId sessionId] }

def run (w : World) (steps : List Step) : World := steps.foldl step w

end World

/-! ## What a store call does to the watermark -/

section Store

variable (agents : Agents) (agentId : Text)

theorem watermark_set (row : AgentRow) (id : Text) :
    watermark (agents.set agentId row) id =
      if id = agentId then row.lastIncarnation else watermark agents id := by
  unfold watermark
  rw [Table.get_set]
  split <;> rfl

theorem restoringLoad_spec (now : Time) :
    (∀ id, watermark (restoringLoad agents agentId now).1 id = watermark agents id) ∧
    ∀ last, (restoringLoad agents agentId now).2 = .ok last → last = watermark agents agentId := by
  unfold restoringLoad loadIncarnation
  by_cases hid : agentId = []
  · simp [hid]
  simp only [if_neg hid]
  cases hget : agents.get agentId with
  | some row => simp [watermark, hget]
  | none =>
    simp only [restoreAuthenticatedAgent, hget]
    by_cases hnow : agentId = [] ∨ now.isZero = true
    · simp only [if_pos hnow]
      simp
    simp only [if_neg hnow, Table.get_set, if_true]
    refine ⟨?_, ?_⟩
    · intro id
      rw [watermark_set]
      split
      · next h => simp [h, watermark, hget, restoredRow]
      · rfl
    · intro last h
      cases h
      simp [watermark, hget, restoredRow]

theorem compareAndSwap_spec (old next : Nat) :
    let result := compareAndSwapIncarnation agents agentId old next
    (∀ id, watermark agents id ≤ watermark result.1 id) ∧
    (result.2 = .ok true → watermark agents agentId = old ∧ old < next ∧
      watermark result.1 agentId = next) := by
  simp only [compareAndSwapIncarnation]
  split
  · simp
  next hvalid =>
  simp only [not_or, not_le, not_lt] at hvalid
  cases hget : agents.get agentId with
  | none => simp
  | some row =>
    simp only
    split
    · next hold =>
      refine ⟨?_, ?_⟩
      · intro id
        rw [watermark_set]
        split
        · next h =>
          subst h
          simp only [watermark, hget, Option.map_some, Option.getD_some]
          omega
        · exact le_rfl
      · intro _
        rw [watermark_set, if_pos rfl]
        simp only [watermark, hget, Option.map_some, Option.getD_some]
        exact ⟨hold, hvalid.2.1, trivial⟩
    · simp

end Store

/-! ## One step of a process -/

namespace Flight

structure Follows (f f' : Flight) : Prop where
  info : f'.info = f.info
  floor : f'.floor = f.floor
  active : f'.record.active = f.record.active

variable (f : Flight)

/-- A comparison goes on with a session that is not below the watermark it has read, and installs
the session only if it is equal. -/
theorem compare_cases {record : Record} (hactive : record.active = f.record.active) :
    (∃ f', f.compare record = .go f' ∧ f.Follows f' ∧
      (f'.settled = true → f.info.incarnation = record.lastIncarnation)) ∨
    ∃ r e, f.compare record = .stop (some r) e ∧ r.active = f.record.active := by
  unfold compare
  split
  · exact .inr ⟨record, _, rfl, hactive⟩
  left
  split
  · exact ⟨_, rfl, ⟨rfl, rfl, hactive⟩, fun h => by cases h⟩
  · exact ⟨_, rfl, ⟨rfl, rfl, hactive⟩, fun _ => by omega⟩

end Flight

namespace Process

def Tied (p : Process) : Prop :=
  ∀ f, p.flight = some f → f.record.active = p.current f.info.agentId

variable {p : Process} {f : Flight}

theorem current_set (records : Table Text Record) (flight : Option Flight) (agentId : Text)
    (r : Record) (id : Text) :
    (⟨records.set agentId r, flight⟩ : Process).current id =
      if id = agentId then r.active else (⟨records, flight⟩ : Process).current id := by
  unfold current record
  rw [Table.get_set]
  split <;> rfl

inductive Moved (p : Process) (f : Flight) (agents' : Agents) :
    Process → Outcome → Prop where
  /-- the call goes on; if it settles, the watermark is the incarnation -/
  | on (f' : Flight) (follows : f.Follows f') (open_ : f.settled = false)
      (settled : f'.settled = true → f.info.incarnation = watermark agents' f.info.agentId) :
      Moved p f agents' { p with flight := some f' } none
  | failed (p' : Process) (e : RegisterError) (idle : p'.flight = none)
      (same : ∀ id, p'.current id = p.current id) :
      Moved p f agents' p' (some (.error e))
  | installed (p' : Process) (settled : f.settled = true) (idle : p'.flight = none)
      (current : ∀ id, p'.current id = if id = f.info.agentId then some f.info else p.current id) :
      Moved p f agents' p' (some (.ok ()))

section

variable (hactive : f.record.active = p.current f.info.agentId)

include hactive

theorem moved_stop {agents' : Agents}
    (r : Option Record) (hr : ∀ r', r = some r' → r'.active = f.record.active) (e : RegisterError) :
    Moved p f agents' (p.resume f (.stop r e)).1 (p.resume f (.stop r e)).2 := by
  cases r with
  | none => exact .failed _ e rfl fun _ => rfl
  | some r =>
    refine .failed _ e rfl ?_
    intro id
    simp only [resume, current_set]
    split
    · next h => rw [hr r rfl, h, hactive]
    · rfl

theorem moved_compare {agents' : Agents} {r : Record} (hopen : f.settled = false)
    (hr : r.active = f.record.active)
    (hlast : r.lastIncarnation = watermark agents' f.info.agentId) :
    Moved p f agents' (p.resume f (f.compare r)).1 (p.resume f (f.compare r)).2 := by
  rcases f.compare_cases hr with ⟨f', hgo, hfollows, hset⟩ | ⟨r', e, hstop, hr'⟩
  · rw [hgo]
    exact .on f' hfollows hopen fun h => (hset h).trans hlast
  · rw [hstop]
    exact moved_stop hactive (some r') (fun _ h => by cases h; exact hr') e

end

theorem fault_apply_cases {α : Type} (fault : Fault) (agents : Agents)
    (call : Agents × Except StoreError α) :
    (∃ agents' e, fault.apply agents call = (agents', .error e) ∧
      (agents' = agents ∨ agents' = call.1)) ∨
    ∃ value, fault.apply agents call = (call.1, .ok value) ∧ call.2 = .ok value := by
  obtain ⟨agents', answer⟩ := call
  cases fault with
  | before => exact .inl ⟨agents, .failed, rfl, .inl rfl⟩
  | after => exact .inl ⟨agents', .failed, rfl, .inr rfl⟩
  | none =>
    cases answer with
    | error e => exact .inl ⟨agents', e, rfl, .inr rfl⟩
    | ok value => exact .inr ⟨value, rfl, rfl⟩

theorem read_moved {agents : Agents} (now : Time) (fault : Fault) (wrap : StoreError → RegisterError)
    {next : Nat → Next} (hnext : ∀ agents' last, last = watermark agents' f.info.agentId →
      Moved p f agents' (p.resume f (next last)).1 (p.resume f (next last)).2) :
    let result : Agents × Process × Outcome :=
      match fault.apply agents (restoringLoad agents f.info.agentId now) with
      | (agents', .error e) => (agents', { p with flight := none }, some (.error (wrap e)))
      | (agents', .ok last) => (agents', p.resume f (next last))
    (∀ id, watermark agents id ≤ watermark result.1 id) ∧ Moved p f result.1 result.2.1 result.2.2 := by
  obtain ⟨hsame, hlast⟩ := restoringLoad_spec agents f.info.agentId now
  rcases fault_apply_cases fault agents (restoringLoad agents f.info.agentId now) with
    ⟨agents', e, happly, hagents⟩ | ⟨last, happly, hanswer⟩
  · simp only [happly]
    refine ⟨?_, .failed _ _ rfl fun _ => rfl⟩
    intro id
    rcases hagents with h | h
    · rw [h]
    · rw [h, hsame]
  · simp only [happly]
    exact ⟨fun id => (hsame id).ge, hnext _ last ((hlast last hanswer).trans (hsame _).symm)⟩

theorem advance_moved (agents : Agents) (hf : p.flight = some f)
    (hactive : f.record.active = p.current f.info.agentId) (now : Time) (fault : Fault) :
    (∀ id, watermark agents id ≤ watermark (p.advance agents now fault).1 id) ∧
    Moved p f (p.advance agents now fault).1 (p.advance agents now fault).2.1
      (p.advance agents now fault).2.2 := by
  unfold advance
  simp only [hf]
  cases hphase : f.phase with
  | load =>
    have hopen : f.settled = false := by simp [Flight.settled, hphase]
    refine read_moved now fault .load ?_
    intro agents' last hlast
    unfold Flight.loaded
    split
    · exact moved_stop hactive none (fun _ h => by cases h) _
    · exact moved_compare hactive hopen rfl hlast
  | swap =>
    have hopen : f.settled = false := by simp [Flight.settled, hphase]
    have hspec := compareAndSwap_spec agents f.info.agentId f.record.lastIncarnation
      f.info.incarnation
    generalize compareAndSwapIncarnation agents f.info.agentId f.record.lastIncarnation
      f.info.incarnation = call at hspec
    obtain ⟨hmono, hdone⟩ := hspec
    rcases fault_apply_cases fault agents call with ⟨agents', e, happly, hagents⟩ |
      ⟨done, happly, hanswer⟩
    · simp only [happly]
      refine ⟨?_, .failed _ _ rfl fun _ => rfl⟩
      intro id
      rcases hagents with h | h
      · rw [h]
      · rw [h]
        exact hmono id
    · simp only [happly]
      refine ⟨hmono, ?_⟩
      cases done with
      | true => exact .on _ ⟨rfl, rfl, rfl⟩ hopen fun _ => (hdone hanswer).2.2.symm
      | false => exact .on _ ⟨rfl, rfl, rfl⟩ hopen fun h => by cases h
  | reload previous =>
    have hopen : f.settled = false := by simp [Flight.settled, hphase]
    refine read_moved now fault .reload ?_
    intro agents' last hlast
    unfold Flight.reloaded
    split
    · exact moved_stop hactive none (fun _ h => by cases h) _
    · exact moved_compare hactive hopen rfl hlast
  | install =>
    refine ⟨fun _ => le_rfl, .installed _ (by simp [Flight.settled, hphase]) rfl ?_⟩
    intro id
    rw [current_set]
    split <;> rfl

end Process

end DockLattice.Session
