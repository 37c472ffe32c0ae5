import DockLattice.Operation.Locks

/-!
# DockLattice.Operation.World

The engine over the lives of the Agent: a process that calls, dies behind any of its journal writes,
and boots on the journal that is left. The history of a world is what has happened to operation IDs,
written with the journal.
-/

namespace DockLattice.Operation

inductive Note where
  | accepted (spec : Spec)
  | started (operationId : Text)
  | evicted (operationId : Text)
  deriving DecidableEq, Repr

def Spec.journaled (spec : Spec) : Spec where
  operationId := Utf8.toValid spec.operationId
  projectKey := Utf8.toValid spec.projectKey
  target := Utf8.toValid spec.target
  kind := spec.kind
  payloadHash := Utf8.toValid spec.payloadHash

namespace JournalWrite

def apply (journal : Table Text Record) : JournalWrite → Table Text Record
  | create record | save record => journal.set record.operationId record.journaled
  | delete operationId => journal.erase operationId

def notes : JournalWrite → List Note
  | create record => [.accepted record.spec]
  | save _ => []
  | delete operationId => [.evicted operationId]

end JournalWrite

structure World where
  journal : Table Text Record
  /-- `none` while the process is down -/
  engine : Option Engine
  history : List Note

namespace World

def fresh : World := ⟨.empty, none, []⟩

def write (w : World) (writes : List JournalWrite) : World :=
  { w with
    journal := writes.foldl JournalWrite.apply w.journal
    history := w.history ++ writes.flatMap JournalWrite.notes }

end World

def Call.starts (e : Engine) : Call → List Note
  | .invoke i =>
    match e.objects[i]? with
    | some o => if o.stage = .dispatched then [.started o.spec.operationId] else []
    | none => []
  | _ => []

inductive Step where
  | call (call : Call)
  /-- the process dies in a call, behind so many of its writes -/
  | crash (call : Call) (writes : Nat)
  | boot (boot : Boot)
  /-- the process dies in `New` -/
  | crashBoot (boot : Boot) (writes : Nat)

def World.step (c : EngineConfig) (w : World) : Step → World
  | .call call =>
    match w.engine with
    | none => w
    | some e =>
      let (e', writes) := e.step c call
      let w' := w.write writes
      { w' with engine := some e', history := w'.history ++ call.starts e }
  | .crash call writes =>
    match w.engine with
    | none => w
    | some e => { w.write ((e.step c call).2.take writes) with engine := none }
  | .boot b =>
    match w.engine with
    | some _ => w
    | none =>
      let (writes, engine) := Operation.boot c b w.journal
      { w.write writes with engine := engine }
  | .crashBoot b writes =>
    match w.engine with
    | some _ => w
    | none => w.write ((Operation.boot c b w.journal).1.take writes)

def World.run (c : EngineConfig) (w : World) (steps : List Step) : World :=
  steps.foldl (World.step c) w

/-! ## Reading the history -/

def startsSince (id : Text) (history : List Note) : Nat :=
  history.foldl (fun n note =>
    match note with
    | .accepted _ => n
    | .started id' => if id' = id then n + 1 else n
    | .evicted id' => if id' = id then 0 else n) 0

/-- The specification under which the ID was accepted, until its record is evicted. -/
def acceptedAs (id : Text) (history : List Note) : Option Spec :=
  history.foldl (fun spec note =>
    match note with
    | .accepted spec' => if spec'.operationId = id then some spec' else spec
    | .started _ => spec
    | .evicted id' => if id' = id then none else spec) none

section History

variable (id id' : Text) (spec : Spec) (history : List Note)

@[simp] theorem startsSince_accepted :
    startsSince id (history ++ [.accepted spec]) = startsSince id history := by
  simp [startsSince]

@[simp] theorem startsSince_started :
    startsSince id (history ++ [.started id']) =
      if id' = id then startsSince id history + 1 else startsSince id history := by
  simp [startsSince]

@[simp] theorem startsSince_evicted :
    startsSince id (history ++ [.evicted id']) =
      if id' = id then 0 else startsSince id history := by
  simp [startsSince]

@[simp] theorem acceptedAs_accepted :
    acceptedAs id (history ++ [.accepted spec]) =
      if spec.operationId = id then some spec else acceptedAs id history := by
  simp [acceptedAs]

@[simp] theorem acceptedAs_started :
    acceptedAs id (history ++ [.started id']) = acceptedAs id history := by
  simp [acceptedAs]

@[simp] theorem acceptedAs_evicted :
    acceptedAs id (history ++ [.evicted id']) =
      if id' = id then none else acceptedAs id history := by
  simp [acceptedAs]

end History

/-! ## The journal and the history -/

/-- The journal has the record of exactly the IDs that are accepted, and what is not in it was not
started since. -/
structure Kept (journal : Table Text Record) (history : List Note) : Prop where
  starts : ∀ id, startsSince id history ≤ 1
  absent : ∀ id, journal.get id = none → startsSince id history = 0 ∧ acceptedAs id history = none
  present : ∀ id record, journal.get id = some record →
    ∃ spec, acceptedAs id history = some spec ∧ spec.operationId = id ∧
      Engine.validSpec spec = true ∧ record.spec = spec.journaled ∧ record.journaled = record

def JournalWrite.Proper (journal : Table Text Record) : JournalWrite → Prop
  | .create record =>
    journal.get record.operationId = none ∧ Engine.validSpec record.spec = true
  | .save record =>
    ∃ old, journal.get record.operationId = some old ∧ old.spec = record.journaled.spec
  | .delete _ => True

def ProperWrites (journal : Table Text Record) : List JournalWrite → Prop
  | [] => True
  | write :: writes => write.Proper journal ∧ ProperWrites (write.apply journal) writes

theorem properWrites_append {journal : Table Text Record} {writes writes' : List JournalWrite} :
    ProperWrites journal (writes ++ writes') ↔
      ProperWrites journal writes ∧
        ProperWrites (writes.foldl JournalWrite.apply journal) writes' := by
  induction writes generalizing journal with
  | nil => simp [ProperWrites]
  | cons write writes ih =>
    simp only [List.cons_append, ProperWrites, List.foldl_cons, ih]
    tauto

theorem ProperWrites.take {journal : Table Text Record} {writes : List JournalWrite}
    (h : ProperWrites journal writes) (n : Nat) : ProperWrites journal (writes.take n) := by
  rw [← List.take_append_drop n writes, properWrites_append] at h
  exact h.1

theorem Record.journaled_journaled (r : Record) : r.journaled.journaled = r.journaled := by
  have hvalid : ∀ s, Utf8.toValid (Utf8.toValid s) = Utf8.toValid s :=
    fun s => Utf8.toValid_of_valid (Utf8.valid_toValid s)
  unfold Record.journaled
  simp only [hvalid]

namespace Kept

variable {journal : Table Text Record} {history : List Note}

/-- What it says of one ID. -/
def At (journal : Table Text Record) (history : List Note) (id : Text) : Prop :=
  startsSince id history ≤ 1 ∧
    (journal.get id = none → startsSince id history = 0 ∧ acceptedAs id history = none) ∧
    ∀ record, journal.get id = some record →
      ∃ spec, acceptedAs id history = some spec ∧ spec.operationId = id ∧
        Engine.validSpec spec = true ∧ record.spec = spec.journaled ∧ record.journaled = record

theorem iff_at : Kept journal history ↔ ∀ id, At journal history id :=
  ⟨fun h id => ⟨h.starts id, h.absent id, h.present id⟩,
    fun h => ⟨fun id => (h id).1, fun id => (h id).2.1, fun id => (h id).2.2⟩⟩

theorem apply (h : Kept journal history) {write : JournalWrite} (hw : write.Proper journal) :
    Kept (write.apply journal) (history ++ write.notes) := by
  rw [iff_at] at h ⊢
  intro id
  have hid := h id
  unfold At at hid ⊢
  cases write with
  | create record =>
    simp only [JournalWrite.apply, JournalWrite.notes, Table.get_set, startsSince_accepted,
      acceptedAs_accepted]
    by_cases hkey : id = record.operationId
    · subst hkey
      obtain ⟨hstarts, -⟩ := hid.2.1 hw.1
      rw [if_pos rfl, if_pos (show record.spec.operationId = record.operationId from rfl)]
      refine ⟨hid.1, nofun, fun r hr => ?_⟩
      cases hr
      exact ⟨record.spec, rfl, rfl, hw.2, rfl, record.journaled_journaled⟩
    · rw [if_neg hkey, if_neg (show record.spec.operationId ≠ id from Ne.symm hkey)]
      exact hid
  | save record =>
    simp only [JournalWrite.apply, JournalWrite.notes, List.append_nil, Table.get_set]
    split
    · next hkey =>
      subst hkey
      obtain ⟨old, hold, hspec⟩ := hw
      refine ⟨hid.1, nofun, fun r hr => ?_⟩
      cases hr
      obtain ⟨spec, haccepted, hname, hvalid, hspec', -⟩ := hid.2.2 old hold
      exact ⟨spec, haccepted, hname, hvalid, hspec.symm.trans hspec', record.journaled_journaled⟩
    · exact hid
  | delete operationId =>
    simp only [JournalWrite.apply, JournalWrite.notes, Table.get_erase, startsSince_evicted,
      acceptedAs_evicted]
    by_cases hkey : id = operationId
    · simp [hkey]
    · rw [if_neg hkey, if_neg (Ne.symm hkey), if_neg (Ne.symm hkey)]
      exact hid

theorem write (h : Kept journal history) {writes : List JournalWrite}
    (hw : ProperWrites journal writes) :
    Kept (writes.foldl JournalWrite.apply journal)
      (history ++ writes.flatMap JournalWrite.notes) := by
  induction writes generalizing journal history with
  | nil => simpa using h
  | cons write writes ih =>
    have hfirst := h.apply hw.1
    simpa [List.append_assoc] using ih hfirst hw.2

end Kept
end DockLattice.Operation
