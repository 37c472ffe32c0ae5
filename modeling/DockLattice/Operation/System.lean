import DockLattice.Lib.Table
import DockLattice.Operation.Job

/-!
# DockLattice.Operation.System

The engine with all its operations (`engine.go`, `lock.go`, `eviction.go`, `journal.go`). A `Call` is
one section of the source under a mutex, or one action of a goroutine between two of them; a run is
any interleaving of calls. Each call says what it writes to the journal, in order, so that the process
can die behind any of its writes. A write happens or does not: `Fate.replaced` is a failure here.
-/

namespace DockLattice.Operation

structure EngineConfig extends Config where
  /-- nanoseconds; 0 does not wait -/
  projectLockWait : Nat
  resultRetention : Nat
  resultMax : Nat
  deriving DecidableEq, Repr

/-! ## Operations and their goroutines -/

/-- Where the goroutine of `StartOperation`, or the call of `Create`, is. -/
inductive Stage where
  /-- about to look at the lock -/
  | waiting
  /-- has seen the lock held, and waits for its release -/
  | blocked
  /-- `Acquire` returned an error -/
  | refused
  /-- `Acquire` returned a lease -/
  | granted
  /-- `attachLease` found the operation terminal, and releases the lease -/
  | late
  /-- before the status `dispatched` -/
  | ready
  /-- before the call of the runner -/
  | dispatched
  /-- in the runner -/
  | invoked
  /-- `Create` returned the operation without an error -/
  | created
  | ended
  deriving DecidableEq, Repr

/-- What is left to do of `afterTerminal`, with the time of the end. -/
inductive After where
  | idle
  /-- `held`: the operation had a lease, which is to be released -/
  | release (held : Bool) (finished : Time)
  | notify (finished : Time)
  deriving DecidableEq, Repr

inductive Happening where
  | granted | released | refused | started | created
  deriving DecidableEq, Repr

/-- An `*Operation`. -/
structure Object where
  job : Job
  stage : Stage
  /-- accepted by `StartOperation`, not by `Create` -/
  runner : Bool
  /-- given out by a `Create` that found it -/
  shared : Bool
  after : After
  events : List Happening
  deriving DecidableEq, Repr

inductive JournalWrite where
  | create (record : Record)
  | save (record : Record)
  | delete (operationId : Text)
  deriving DecidableEq, Repr

namespace Object

def spec (o : Object) : Spec := o.job.op.record.spec

def terminal (o : Object) : Bool := o.job.terminal

def pending (o : Object) : Bool := o.job.op.record.managedAuditDelivery == .pending

def accepted (spec : Spec) (runner : Bool) (now : Time) : Object where
  job := Job.accepted spec now
  stage :=
    if spec.kind.requiresProjectLock then .waiting else if runner then .ready else .created
  runner := runner
  shared := false
  after := .idle
  events := if spec.kind.requiresProjectLock || runner then [] else [.created]

def recovered (op : Op) : Object where
  job := ⟨op, .absent⟩
  stage := .ended
  runner := false
  shared := false
  after := .idle
  events := []

/-- A transition, and what it saves. With the end of the operation `afterTerminal` is to come. -/
def call (o : Object) (fate : Fate) (f : Op → Option Op) : Object × Outcome × List JournalWrite :=
  let (job, out) := o.job.call fate f
  ({ o with
      job := job
      after :=
        if job.op.terminalNotified && !o.job.op.terminalNotified then
          .release (o.job.lease == .attached) job.op.record.finishedAt
        else o.after }, out, if out = .done then [.save job.op.record] else [])

def happen (o : Object) (stage : Stage) (event : Happening) : Object :=
  { o with stage := stage, events := o.events ++ [event] }

/-- `Acquire` gives up: the wait has timed out, or its context is canceled. -/
def giveUp (o : Object) : Option (Object × List JournalWrite) :=
  if o.stage = .blocked then some (o.happen .refused .refused, []) else none

/-- The end of an operation that did not get its lock: canceled if that was asked for. -/
def refusal (c : EngineConfig) (cause : Text) (now finished : Time) (o : Object) :
    Op → Option Op :=
  if o.runner && !o.job.op.record.cancelRequestedAt.isZero then
    fun op => transitionStatus c.toConfig op .canceled [] cause now finished
  else fun op => reject c.toConfig op cause now finished

def refuse (c : EngineConfig) (cause : Text) (now finished : Time) (fate : Fate) (o : Object) :
    Option (Object × List JournalWrite) :=
  if o.stage = .refused then
    let (o', _, writes) := o.call fate (o.refusal c cause now finished)
    some ({ o' with stage := .ended }, writes)
  else none

/-- Behind `attachLease`. -/
def goOn (o : Object) : Object :=
  if o.runner then { o with stage := .ready } else o.happen .created .created

def attach (o : Object) : Option (Object × List JournalWrite) :=
  if o.stage = .granted then
    let o' := { o with job := o.job.attachLease }
    some (if o.terminal then { o' with stage := .late } else o'.goOn, [])
  else none

def dispatch (c : EngineConfig) (cause : Text) (now finished : Time) (fate : Fate)
    (rejectedNow rejectedFinished : Time) (rejectedFate : Fate) (o : Object) :
    Option (Object × List JournalWrite) :=
  if o.stage = .ready then
    match o.call fate fun op => transitionStatus c.toConfig op .dispatched [] [] now finished with
    | (o', .done, writes) => some ({ o' with stage := .dispatched }, writes)
    | (o', _, writes) =>
      let (o'', _, writes') := o'.call rejectedFate fun op =>
        reject c.toConfig op cause rejectedNow rejectedFinished
      some ({ o'' with stage := .ended }, writes ++ writes')
  else none

def invoke (o : Object) : Option (Object × List JournalWrite) :=
  if o.stage = .dispatched then some (o.happen .invoked .started, []) else none

def finish (o : Object) : Option (Object × List JournalWrite) :=
  if o.stage = .invoked then some ({ o with stage := .ended }, []) else none

/-- A transition made by the runner, or by who has the operation from `Create`. -/
def transition (c : EngineConfig) (event : Event) (o : Object) : Option (Object × List JournalWrite) :=
  if o.stage = .invoked || o.stage = .created || o.shared then
    match event.transition c.toConfig with
    | none => none
    | some (fate, f) =>
      let (o', _, writes) := o.call fate f
      some (o', writes)
  else none

def cancel (reason : CancelReason) (now : Time) (fate : Fate) (o : Object) :
    Option (Object × List JournalWrite) :=
  let (o', _, writes) := o.call fate fun op => (cancelWithError op reason now).2
  some (o', writes)

/-- The journaling half of `deliverTerminalAudit`. -/
def deliver (fate : Fate) (o : Object) : Option (Object × List JournalWrite) :=
  let (o', _, writes) := o.call fate markDelivered
  some (o', writes)

/-- `Lease.Release`, for an operation whose lease was taken out of it. -/
def release (o : Object) : Object :=
  if o.job.lease = .leaving then
    { o with job := o.job.release, events := o.events ++ [.released] }
  else o

end Object

/-! ## The engine -/

structure ResultEntry where
  id : Text
  finishedAt : Time
  deriving DecidableEq, Repr

structure Engine where
  objects : List Object
  /-- by operation ID, the place in `objects` -/
  items : Table Text Nat
  results : List ResultEntry
  /-- by project key, the operation ID of the owner -/
  held : Table Text Text

/-- The answer of `accept` and with it of `StartOperation` and `Create`. -/
inductive Reply where
  | invalidSpec
  | specMismatch
  | existing (record : Record)
  | unsaved
  | created (record : Record)
  deriving DecidableEq, Repr

structure ReclaimAnswer where
  canceled : Bool
  bytes : Nat
  deleted : Bool
  failed : Bool
  deriving DecidableEq, Repr

namespace Engine

def act (e : Engine) (i : Nat) (f : Object → Option (Object × List JournalWrite)) : Engine × List JournalWrite :=
  match e.objects[i]? with
  | none => (e, [])
  | some o =>
    match f o with
    | none => (e, [])
    | some (o', writes) => ({ e with objects := e.objects.set i o' }, writes)

/-! ### Locks -/

def look (c : EngineConfig) (e : Engine) (i : Nat) : Engine :=
  match e.objects[i]? with
  | none => e
  | some o =>
    if o.stage = .waiting || o.stage = .blocked then
      if o.spec.projectKey.isEmpty || o.spec.operationId.isEmpty then
        { e with objects := e.objects.set i (o.happen .refused .refused) }
      else
        match e.held.get o.spec.projectKey with
        | none =>
          { e with
            objects := e.objects.set i
              ({ o with job := { o.job with lease := .inHand } }.happen .granted .granted)
            held := e.held.set o.spec.projectKey o.spec.operationId }
        | some _ =>
          if c.projectLockWait = 0 then
            { e with objects := e.objects.set i (o.happen .refused .refused) }
          else { e with objects := e.objects.set i { o with stage := .blocked } }
    else e

def unlock (e : Engine) (o : Object) : Table Text Text :=
  if o.job.lease = .leaving && e.held.get o.spec.projectKey = some o.spec.operationId then
    e.held.erase o.spec.projectKey
  else e.held

def releaseLate (e : Engine) (i : Nat) : Engine :=
  match e.objects[i]? with
  | none => e
  | some o =>
    if o.stage = .late then
      { e with objects := e.objects.set i o.release.goOn, held := e.unlock o }
    else e

def releaseAfter (e : Engine) (i : Nat) : Engine :=
  match e.objects[i]? with
  | none => e
  | some o =>
    match o.after with
    | .release true finished =>
      { e with
        objects := e.objects.set i { o.release with after := .notify finished }
        held := e.unlock o }
    | .release false finished =>
      { e with objects := e.objects.set i { o with after := .notify finished } }
    | _ => e

/-! ### Eviction -/

/-- The loop of `cleanupLocked`: the results that stay, the index, and the deletes. -/
def cleanupLoop (c : EngineConfig) (now : Time) (deletes : Nat → Bool) (objects : List Object) :
    Nat → List ResultEntry → Table Text Nat → List ResultEntry × Table Text Nat × List JournalWrite
  | _, [], items => ([], items, [])
  | n, entry :: rest, items =>
    if c.resultMax < rest.length + 1 || entry.finishedAt ≤ now - c.resultRetention then
      match (items.get entry.id).bind fun i => objects[i]? with
      | none => cleanupLoop c now deletes objects (n + 1) rest items
      | some o =>
        if o.terminal then
          if o.pending || !deletes n then (entry :: rest, items, [])
          else
            let (results, items', writes) :=
              cleanupLoop c now deletes objects (n + 1) rest (items.erase entry.id)
            (results, items', .delete entry.id :: writes)
        else cleanupLoop c now deletes objects (n + 1) rest items
    else (entry :: rest, items, [])

def cleanupLocked (c : EngineConfig) (e : Engine) (now : Time) (deletes : Nat → Bool) :
    Engine × List JournalWrite :=
  let (results, items, writes) := cleanupLoop c now deletes e.objects 0 e.results e.items
  ({ e with results := results, items := items }, writes)

/-- The loop of `ReclaimExpiredForDiskPressure`. -/
def reclaimLoop (cutoff : Time) (needed : Nat) (answers : Nat → ReclaimAnswer)
    (objects : List Object) :
    Nat → Nat → List ResultEntry → Table Text Nat →
      List ResultEntry × Table Text Nat × List JournalWrite
  | _, _, [], items => ([], items, [])
  | n, freed, entry :: rest, items =>
    let answer := answers n
    if needed ≤ freed || cutoff < entry.finishedAt || answer.canceled then
      (entry :: rest, items, [])
    else
      match (items.get entry.id).bind fun i => objects[i]? with
      | none => reclaimLoop cutoff needed answers objects (n + 1) freed rest items
      | some o =>
        if !o.terminal || o.pending then
          let (results, items', writes) :=
            reclaimLoop cutoff needed answers objects (n + 1) freed rest items
          (entry :: results, items', writes)
        else if !answer.deleted then (entry :: rest, items, [])
        else if answer.failed then (rest, items.erase entry.id, [.delete entry.id])
        else
          let (results, items', writes) :=
            reclaimLoop cutoff needed answers objects (n + 1) (freed + answer.bytes) rest
              (items.erase entry.id)
          (results, items', .delete entry.id :: writes)

def reclaimExpired (c : EngineConfig) (e : Engine) (now : Time) (needed : Nat)
    (answers : Nat → ReclaimAnswer) : Engine × List JournalWrite :=
  if needed = 0 then (e, [])
  else
    let (results, items, writes) :=
      reclaimLoop (now - c.resultRetention) needed answers e.objects 0 0 e.results e.items
    ({ e with results := results, items := items }, writes)

/-- `onTerminal`, up to the delivery of the audit. -/
def onTerminal (c : EngineConfig) (e : Engine) (i : Nat) (now : Time) (deletes : Nat → Bool) :
    Engine × List JournalWrite :=
  match e.objects[i]? with
  | none => (e, [])
  | some o =>
    match o.after with
    | .notify finished =>
      let e' := { e with objects := e.objects.set i { o with after := .idle } }
      if e.items.get o.spec.operationId = some i then
        cleanupLocked c { e' with results := e'.results ++ [⟨o.spec.operationId, finished⟩] } now
          deletes
      else (e', [])
    | _ => (e, [])

/-! ### Acceptance -/

def validSpec (spec : Spec) : Bool :=
  !spec.operationId.isEmpty && validPayloadHash spec.payloadHash &&
    !(spec.kind.requiresProjectLock && spec.projectKey.isEmpty)

def admitSpec (e : Engine) (spec : Spec) (runner : Bool) (now : Time) (fate : Fate) :
    Engine × List JournalWrite × Reply :=
  match e.items.get spec.operationId with
  | some i =>
    match e.objects[i]? with
    | some o =>
      if o.spec ≠ spec then (e, [], .specMismatch)
      else
        ({ e with objects := e.objects.set i { o with shared := o.shared || !runner } }, [],
          .existing o.job.op.record)
    | none => (e, [], .specMismatch)
  | none =>
    let record := newRecord spec now
    if record.storable && fate == .ok then
      ({ e with
          objects := e.objects ++ [Object.accepted spec runner now]
          items := e.items.set spec.operationId e.objects.length },
        [.create record], .created record)
    else (e, [], .unsaved)

def accept (c : EngineConfig) (e : Engine) (spec : Spec) (runner : Bool) (now : Time)
    (deletes : Nat → Bool) (fate : Fate) : Engine × List JournalWrite × Reply :=
  if validSpec spec then
    let (e', writes) := e.cleanupLocked c now deletes
    let (e'', writes', reply) := e'.admitSpec spec runner now fate
    (e'', writes ++ writes', reply)
  else (e, [], .invalidSpec)

end Engine

inductive Call where
  /-- `StartOperation` (`runner`) or `Create` -/
  | accept (spec : Spec) (runner : Bool) (now : Time) (deletes : Nat → Bool) (fate : Fate)
  | look (i : Nat)
  | giveUp (i : Nat)
  | refuse (i : Nat) (cause : Text) (now finished : Time) (fate : Fate)
  | attach (i : Nat)
  | releaseLate (i : Nat)
  | dispatch (i : Nat) (cause : Text) (now finished : Time) (fate : Fate)
      (rejectedNow rejectedFinished : Time) (rejectedFate : Fate)
  | invoke (i : Nat)
  | transition (i : Nat) (event : Event)
  | finish (i : Nat)
  | cancel (operationId : Text) (reason : CancelReason) (now : Time) (fate : Fate)
  | releaseAfter (i : Nat)
  | onTerminal (i : Nat) (now : Time) (deletes : Nat → Bool)
  | deliver (i : Nat) (fate : Fate)
  | cleanup (now : Time) (deletes : Nat → Bool)
  | reclaim (now : Time) (needed : Nat) (answers : Nat → ReclaimAnswer)

def Engine.step (c : EngineConfig) (e : Engine) : Call → Engine × List JournalWrite
  | .accept spec runner now deletes fate =>
    let (e', writes, _) := e.accept c spec runner now deletes fate
    (e', writes)
  | .look i => (e.look c i, [])
  | .giveUp i => e.act i Object.giveUp
  | .refuse i cause now finished fate => e.act i (Object.refuse c cause now finished fate)
  | .attach i => e.act i Object.attach
  | .releaseLate i => (e.releaseLate i, [])
  | .dispatch i cause now finished fate rejectedNow rejectedFinished rejectedFate =>
    e.act i (Object.dispatch c cause now finished fate rejectedNow rejectedFinished rejectedFate)
  | .invoke i => e.act i Object.invoke
  | .transition i event => e.act i (Object.transition c event)
  | .finish i => e.act i Object.finish
  | .cancel operationId reason now fate =>
    match e.items.get operationId with
    | none => (e, [])
    | some i => e.act i (Object.cancel reason now fate)
  | .releaseAfter i => (e.releaseAfter i, [])
  | .onTerminal i now deletes => e.onTerminal c i now deletes
  | .deliver i fate => e.act i (Object.deliver fate)
  | .cleanup now deletes => e.cleanupLocked c now deletes
  | .reclaim now needed answers => e.reclaimExpired c now needed answers

def Engine.run (c : EngineConfig) (e : Engine) (calls : List Call) : Engine :=
  calls.foldl (fun e call => (e.step c call).1) e

/-! ## Boot -/

structure AuditAnswer where
  delivered : Bool
  fate : Fate
  confirmed : Bool
  deriving DecidableEq, Repr

/-- What `New` meets, by the number of the record. -/
structure Boot where
  now : Time
  fates : Nat → Fate
  deletes : Nat → Bool
  audits : Nat → AuditAnswer

def recoverLoop (c : EngineConfig) (b : Boot) :
    Nat → List (Text × Record) → List JournalWrite × Option (List Object)
  | _, [] => ([], some [])
  | n, (_, r) :: rest =>
    let (op, dirty) := Operation.recovered c.toConfig r b.now
    if dirty && !(op.record.storable && b.fates n == .ok) then ([], none)
    else
      let (writes, objects) := recoverLoop c b (n + 1) rest
      ((if dirty then [.save op.record] else []) ++ writes, objects.map (Object.recovered op :: ·))

/-- `deliverTerminalAudit` of a terminal operation, and whether it returned no error. -/
def deliverTerminalAudit (answer : AuditAnswer) (o : Object) :
    Bool × Object × List JournalWrite :=
  match o.job.op.record.managedAuditDelivery with
  | .none => (true, o, [])
  | .delivered => (answer.confirmed, o, [])
  | .pending =>
    if answer.delivered then
      let (o', out, writes) := o.call answer.fate markDelivered
      (out == .done && answer.confirmed, o', writes)
    else (false, o, [])

/-- The loop of `ReplayTerminalAudits` over the operations that are indexed, and whether there was no
error. -/
def replayLoop (b : Boot) (items : Table Text Nat) :
    Nat → List Object → Bool × List Object × List JournalWrite
  | _, [] => (true, [], [])
  | n, o :: rest =>
    let (good, o', writes) :=
      if o.terminal && items.get o.spec.operationId = some n then
        deliverTerminalAudit (b.audits n) o
      else (true, o, [])
    let (goodRest, objects, writesRest) := replayLoop b items (n + 1) rest
    (good && goodRest, o' :: objects, writes ++ writesRest)

def replayTerminalAudits (c : EngineConfig) (b : Boot) (e : Engine) :
    Bool × Engine × List JournalWrite :=
  if c.audited then
    let (good, objects, writes) := replayLoop b e.items 0 e.objects
    (good, { e with objects := objects }, writes)
  else (true, e, [])

/-- The journal's files by operation ID. `Load` wants each to name the operation it is of. -/
def loadable (journal : Table Text Record) : Bool :=
  journal.rows.all fun p => p.2.operationId == p.1 && validateRecord p.2

def indexOf (journal : Table Text Record) : Table Text Nat :=
  ⟨journal.keys.zipIdx, by
    rw [List.zipIdx_map_fst]
    exact journal.nodup⟩

def recoveredResults (journal : Table Text Record) (objects : List Object) : List ResultEntry :=
  ((journal.keys.zip objects).map fun p =>
    ResultEntry.mk p.1 p.2.job.op.record.finishedAt).insertionSort
      fun a b => a.finishedAt ≤ b.finishedAt

def recoveredEngine (journal : Table Text Record) (objects : List Object) : Engine :=
  ⟨objects, indexOf journal, recoveredResults journal objects, .empty⟩

/-- `New` on a journal: what it writes, and the engine if there is no error. -/
def boot (c : EngineConfig) (b : Boot) (journal : Table Text Record) :
    List JournalWrite × Option Engine :=
  if loadable journal then
    match recoverLoop c b 0 journal.rows with
    | (writes, none) => (writes, none)
    | (writes, some objects) =>
      let (e, evicted) := (recoveredEngine journal objects).cleanupLocked c b.now b.deletes
      let (good, e', delivered) := replayTerminalAudits c b e
      (writes ++ evicted ++ delivered, if good then some e' else none)
  else ([], none)

end DockLattice.Operation
