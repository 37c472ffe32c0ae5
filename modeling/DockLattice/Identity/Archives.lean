import DockLattice.Identity.Manager

/-!
# DockLattice.Identity.Archives

`serverbootstrap.reconcileArchive`: the archive of a database against the generation counter of the
Server Identity State.

The counter is synced before the archive that carries it is committed, so a generation is used by at
most one archive: a boot that dies in between leaves a counter that no database has. A database whose
archive carries the counter is the newest one, and keeps its archive.
-/

namespace DockLattice.Identity

open Bytes List Manager

def RandomId := { id : Text // validRandomId id = true }

structure ArchiveIdentity where
  serverIdentityId : Text
  generation : Nat
  auditArchiveId : Text
  deriving DecidableEq, Repr

/-- `loadArchive` on the setting of a database: no setting, or one with valid fields. -/
def loadArchive : Option ArchiveIdentity → Option (Option ArchiveIdentity)
  | none => some none
  | some a =>
    if validRandomId a.serverIdentityId && a.generation != 0 && validRandomId a.auditArchiveId then
      some (some a)
    else none

inductive CommitFate where
  | failed
  /-- done, and reported as failed, or the process dies behind it -/
  | unreported
  | done
  deriving DecidableEq, Repr

/-- What happens to one boot. A crash is the failure of what comes next. -/
structure Boot where
  /-- the version that a power loss before the boot left -/
  power : Option Nat
  /-- the transaction begins, the archive is read, and a boot that only reads commits -/
  reads : Bool
  advance : SaveFate
  archiveId : Option RandomId
  stores : Bool
  commit : CommitFate

structure Booted where
  manager : Manager
  committed : Option ArchiveIdentity
  returned : Option ArchiveIdentity

def createArchive (m : Manager) (b : Boot) : Booted :=
  match m.advanceArchiveGeneration b.advance with
  | (m', none) => ⟨m', none, none⟩
  | (m', some generation) =>
    match b.archiveId with
    | none => ⟨m', none, none⟩
    | some id =>
      let archive : ArchiveIdentity := ⟨m.mem.serverIdentityId, generation, id.1⟩
      if b.stores then
        match b.commit with
        | .failed => ⟨m', none, none⟩
        | .unreported => ⟨m', some archive, none⟩
        | .done => ⟨m', some archive, some archive⟩
      else ⟨m', none, none⟩

def reconcileArchive (m : Manager) (db : Option ArchiveIdentity) (b : Boot) : Booted :=
  if b.reads then
    match loadArchive db with
    | none => ⟨m, none, none⟩
    | some none => createArchive m b
    | some (some stored) =>
      if stored.serverIdentityId ≠ m.mem.serverIdentityId then ⟨m, none, none⟩
      -- `ErrArchiveRollback`
      else if m.mem.archiveGeneration < stored.generation then ⟨m, none, none⟩
      else if stored.generation = m.mem.archiveGeneration then ⟨m, none, some stored⟩
      else createArchive m b
  else ⟨m, none, none⟩

def newState (serverId keyId : RandomId) (publicKey : List Byte) : Persisted where
  serverIdentityId := serverId.1
  currentKeyId := keyId.1
  signingKeys := [⟨keyId.1, publicKey⟩]
  archiveGeneration := 0
  ledger := []

/-! ## Boots -/

namespace Archives

structure World where
  manager : Manager
  db : Option ArchiveIdentity
  /-- what the database held at any time -/
  copies : List (Option ArchiveIdentity)
  /-- the archives that were committed, in this order -/
  created : List ArchiveIdentity
  returned : List ArchiveIdentity
  /-- no boot has read another database since the last archive was committed -/
  settled : Bool

inductive Step where
  | boot (b : Boot)
  | ledger (entries : List Entry) (fate : SaveFate)
  | lose
  | replace (copy : Nat)

namespace World

def start (s : Persisted) : World := ⟨⟨s, ⟨s, []⟩⟩, none, [none], [], [], true⟩

def newest (w : World) : Option ArchiveIdentity := w.created.getLast?

def opened (w : World) (b : Boot) : Manager :=
  match b.power with
  | none => w.manager.restart
  | some k => w.manager.powerLoss k

def boot (w : World) (b : Boot) : World :=
  let booted := reconcileArchive (w.opened b) w.db b
  { manager := booted.manager
    db := booted.committed.or w.db
    copies := w.copies ++ (booted.committed.toList.map some)
    created := w.created ++ booted.committed.toList
    returned := w.returned ++ booted.returned.toList
    settled := booted.committed.isSome || (w.settled && (w.db == w.newest || !b.reads)) }

def step (w : World) : Step → World
  | .boot b => w.boot b
  | .ledger entries fate =>
    { w with manager := (w.manager.save { w.manager.mem with ledger := entries } fate).1 }
  | .lose => { w with db := none, copies := w.copies ++ [none] }
  | .replace copy =>
    match w.copies[copy]? with
    | some db => { w with db := db }
    | none => w

def run (w : World) (steps : List Step) : World := steps.foldl step w

end World

/-! ## The counter -/

/-- No version is ahead of the state in memory, and the visible one is level with it. -/
structure Level (m : Manager) : Prop where
  top : ∀ v ∈ m.versions, v.archiveGeneration ≤ m.mem.archiveGeneration
  visible : m.disk.visible.archiveGeneration = m.mem.archiveGeneration

section Level

variable {m : Manager} {b : Boot}

theorem Level.restart (h : Level m) : Level m.restart := by
  refine ⟨?_, rfl⟩
  intro v hv
  have hv := h.top v (restart_versions hv)
  rw [← h.visible] at hv
  exact hv

theorem Level.powerLoss (h : Level m) (k : Nat) : Level (m.powerLoss k) := by
  unfold Manager.powerLoss
  split
  · next version _ =>
    refine ⟨?_, rfl⟩
    intro v hv
    have hv : v = version := by simpa [Manager.versions, Disk.versions] using hv
    rw [hv]
  · exact h.restart

theorem Level.save (h : Level m) (next : Persisted) (fate : SaveFate)
    (hle : m.mem.archiveGeneration ≤ next.archiveGeneration) : Level (m.save next fate).1 := by
  have hversions := save_versions (P := fun v =>
    v.archiveGeneration ≤ next.archiveGeneration) next fate
    (fun v hv => (h.top v hv).trans hle) le_rfl le_rfl
  rcases m.save_cases next fate with hsave | ⟨hmem, hvisible⟩
  · rw [hsave]
    exact h
  refine ⟨?_, ?_⟩
  · rw [hmem]
    exact hversions
  · rw [hmem, hvisible]
    rfl

theorem advance_cases (m : Manager) (fate : SaveFate) :
    ((m.advanceArchiveGeneration fate).2 = none ∧
      ((m.advanceArchiveGeneration fate).1 = m ∨
        (m.advanceArchiveGeneration fate).1 = (m.save
          { m.mem with archiveGeneration := m.mem.archiveGeneration + 1 } fate).1)) ∨
    ((m.advanceArchiveGeneration fate).2 = some (m.mem.archiveGeneration + 1) ∧
      ∀ v ∈ (m.advanceArchiveGeneration fate).1.versions,
        v.archiveGeneration = m.mem.archiveGeneration + 1 ∧
        v.serverIdentityId = m.mem.serverIdentityId) := by
  unfold advanceArchiveGeneration
  split
  · exact .inl ⟨rfl, .inl rfl⟩
  simp only
  cases hsave : m.save { m.mem with archiveGeneration := m.mem.archiveGeneration + 1 } fate with
  | mk m' ok =>
    cases ok with
    | false => exact .inl ⟨rfl, .inr rfl⟩
    | true =>
      refine .inr ⟨rfl, ?_⟩
      -- only a synced save succeeds, and it leaves one version
      unfold save at hsave
      split at hsave
      · cases fate with
        | failed | unsynced => cases hsave
        | synced =>
          cases hsave
          intro v hv
          simp only [versions, Disk.versions, mem_cons, not_mem_nil, or_false] at hv
          rcases hv with rfl | rfl <;> exact ⟨rfl, rfl⟩
      · cases hsave

end Level

/-! ## One boot -/

section Boot

variable {m : Manager} {b : Boot} {db : Option ArchiveIdentity}

theorem advance_versions (fate : SaveFate) :
    ∀ v ∈ (m.advanceArchiveGeneration fate).1.versions,
      v.serverIdentityId = m.mem.serverIdentityId ∧
        m.mem.archiveGeneration ≤ v.archiveGeneration ∨ v ∈ m.versions := by
  rcases advance_cases m fate with ⟨-, hm | hm⟩ | ⟨-, hversions⟩
  · rw [hm]
    exact fun v hv => .inr hv
  · rw [hm]
    exact save_versions _ fate (fun v hv => .inr hv) (.inl ⟨rfl, Nat.le_succ _⟩)
      (.inl ⟨rfl, Nat.le_succ _⟩)
  · intro v hv
    obtain ⟨hgeneration, hidentity⟩ := hversions v hv
    exact .inl ⟨hidentity, by omega⟩

theorem Level.advance (h : Level m) (fate : SaveFate) :
    Level (m.advanceArchiveGeneration fate).1 := by
  have hsave := h.save { m.mem with archiveGeneration := m.mem.archiveGeneration + 1 } fate
    (Nat.le_succ _)
  unfold advanceArchiveGeneration
  split
  · exact h
  simp only
  split
  · next m' hm =>
    rw [hm] at hsave
    exact hsave
  · next m' hm =>
    rw [hm] at hsave
    exact hsave

/-- What a boot can do: nothing, return the archive of the counter, advance the counter, or advance it
and commit the archive of the new generation. -/
inductive Reconciled (m : Manager) (db : Option ArchiveIdentity) (b : Boot) : Booted → Prop where
  | nothing : Reconciled m db b ⟨m, none, none⟩
  | kept (a : ArchiveIdentity) (stored : db = some a)
      (level : a.generation = m.mem.archiveGeneration) : Reconciled m db b ⟨m, none, some a⟩
  | lost (reads : b.reads = true)
      (behind : ∀ a, db = some a → a.generation ≠ m.mem.archiveGeneration) :
      Reconciled m db b ⟨(m.advanceArchiveGeneration b.advance).1, none, none⟩
  | created (id : RandomId) (returned : Option ArchiveIdentity)
      (generation : ∀ v ∈ (m.advanceArchiveGeneration b.advance).1.versions,
        v.archiveGeneration = m.mem.archiveGeneration + 1)
      (same : ∀ a ∈ returned, a = ⟨m.mem.serverIdentityId, m.mem.archiveGeneration + 1, id.1⟩) :
      Reconciled m db b ⟨(m.advanceArchiveGeneration b.advance).1,
        some ⟨m.mem.serverIdentityId, m.mem.archiveGeneration + 1, id.1⟩, returned⟩

theorem loadArchive_some {stored : Option ArchiveIdentity} (h : loadArchive db = some stored) :
    stored = db := by
  cases db with
  | none => exact (Option.some.inj h).symm
  | some a =>
    simp only [loadArchive] at h
    split at h
    · exact (Option.some.inj h).symm
    · cases h

theorem createArchive_reconciled (hreads : b.reads = true)
    (hbehind : ∀ a, db = some a → a.generation ≠ m.mem.archiveGeneration) :
    Reconciled m db b (createArchive m b) := by
  unfold createArchive
  have hlost := Reconciled.lost hreads hbehind
  rcases advance_cases m b.advance with ⟨hnone, -⟩ | ⟨hsome, hversions⟩
  · generalize m.advanceArchiveGeneration b.advance = call at hnone hlost
    obtain ⟨m', answer⟩ := call
    cases hnone
    exact hlost
  have hcreated := @Reconciled.created m db b
  have hgeneration : ∀ v ∈ (m.advanceArchiveGeneration b.advance).1.versions,
      v.archiveGeneration = m.mem.archiveGeneration + 1 := fun v hv => (hversions v hv).1
  generalize m.advanceArchiveGeneration b.advance = call at hsome hlost hcreated hgeneration
  obtain ⟨m', answer⟩ := call
  cases hsome
  simp only
  split
  · exact hlost
  next id _ =>
  split
  · split
    · exact hlost
    · exact hcreated id none hgeneration (by simp)
    · exact hcreated id _ hgeneration (by simp)
  · exact hlost

theorem reconcile_reconciled (m : Manager) (db : Option ArchiveIdentity) (b : Boot) :
    Reconciled m db b (reconcileArchive m db b) := by
  unfold reconcileArchive
  by_cases hreads : b.reads = true
  · rw [if_pos hreads]
    cases hload : loadArchive db with
    | none => exact .nothing
    | some stored =>
      have hstored := loadArchive_some hload
      subst hstored
      cases stored with
      | none => exact createArchive_reconciled hreads (by simp)
      | some a =>
        simp only
        split
        · exact .nothing
        split
        · exact .nothing
        split
        · next hlevel => exact .kept a rfl hlevel
        · next hne =>
          refine createArchive_reconciled hreads ?_
          intro a' ha'
          cases ha'
          exact hne
  · rw [if_neg hreads]
    exact .nothing

end Boot

/-! ## The invariant -/

structure Sound (sid : RandomId) (w : World) : Prop where
  level : Level w.manager
  identity : ∀ v ∈ w.manager.versions, v.serverIdentityId = sid.1
  used : ∀ a ∈ w.created, ∀ v ∈ w.manager.versions, a.generation ≤ v.archiveGeneration
  proper : ∀ a ∈ w.created, loadArchive (some a) = some (some a) ∧ a.serverIdentityId = sid.1
  ordered : w.created.Pairwise fun a b => a.generation < b.generation
  stored : ∀ a, w.db = some a → a ∈ w.created
  copied : ∀ a, some a ∈ w.copies → a ∈ w.created
  returned : ∀ a ∈ w.returned, a ∈ w.created
  settled : w.settled = true → ∀ a, w.newest = some a →
    ∀ v ∈ w.manager.versions, v.archiveGeneration = a.generation

section Sound

variable {sid : RandomId} {w : World}

theorem start_sound (sid keyId : RandomId) (publicKey : List Byte) :
    Sound sid (World.start (newState sid keyId publicKey)) := by
  have hversions : ∀ v ∈ (World.start (newState sid keyId publicKey)).manager.versions,
      v = newState sid keyId publicKey := by
    intro v hv
    simpa [World.start, versions, Disk.versions] using hv
  refine ⟨⟨?_, rfl⟩, ?_, by simp [World.start], by simp [World.start], List.Pairwise.nil,
    by simp [World.start], by simp [World.start], by simp [World.start],
    by simp [World.start, World.newest]⟩
  · intro v hv
    rw [hversions v hv]
    exact le_rfl
  · intro v hv
    rw [hversions v hv]
    rfl

theorem opened_versions {v : Persisted} (h : v ∈ (w.opened b).versions) :
    v ∈ w.manager.versions := by
  unfold World.opened at h
  split at h
  · exact restart_versions h
  · exact powerLoss_versions h

section

variable (h : Sound sid w)

include h

theorem Sound.opened (b : Boot) : Sound sid { w with manager := w.opened b } := by
  refine ⟨?_, fun v hv => h.identity v (opened_versions hv),
    fun a ha v hv => h.used a ha v (opened_versions hv), h.proper, h.ordered, h.stored, h.copied,
    h.returned, fun hs a ha v hv => h.settled hs a ha v (opened_versions hv)⟩
  simp only [World.opened]
  split
  · exact h.level.restart
  · exact h.level.powerLoss _

theorem Sound.used_above {a : ArchiveIdentity} (ha : a ∈ w.created) {v : Persisted}
    (hv : w.manager.mem.archiveGeneration ≤ v.archiveGeneration) :
    a.generation ≤ v.archiveGeneration :=
  (h.used a ha _ mem_cons_self).trans hv

theorem Sound.reconcile {r : Booted}
    (hr : Reconciled w.manager w.db b r) :
    Sound sid
      { manager := r.manager
        db := r.committed.or w.db
        copies := w.copies ++ r.committed.toList.map some
        created := w.created ++ r.committed.toList
        returned := w.returned ++ r.returned.toList
        settled := r.committed.isSome || (w.settled && (w.db == w.newest || !b.reads)) } := by
  have hidentity : ∀ v ∈ (w.manager.advanceArchiveGeneration b.advance).1.versions,
      v.serverIdentityId = sid.1 := by
    intro v hv
    rcases advance_versions b.advance v hv with ⟨hid, -⟩ | hv
    · rw [hid]
      exact h.identity _ mem_cons_self
    · exact h.identity v hv
  have hused : ∀ a ∈ w.created, ∀ v ∈ (w.manager.advanceArchiveGeneration b.advance).1.versions,
      a.generation ≤ v.archiveGeneration := by
    intro a ha v hv
    rcases advance_versions b.advance v hv with ⟨-, hle⟩ | hv
    · exact h.used_above ha hle
    · exact h.used a ha v hv
  have hkept : (w.settled && (w.db == w.newest || !b.reads)) = true → ∀ a, w.newest = some a →
      ∀ v ∈ w.manager.versions, v.archiveGeneration = a.generation := by
    intro hsettled
    rw [Bool.and_eq_true] at hsettled
    exact h.settled hsettled.1
  cases hr <;> simp only [Option.toList_none, Option.toList_some, map_cons, map_nil, append_nil,
    Option.none_or, Option.some_or, Option.isSome_none, Option.isSome_some, Bool.false_or,
    Bool.true_or]
  case nothing => exact { h with settled := hkept }
  case kept a hstored hlevel =>
    refine { h with returned := ?_, settled := hkept }
    exact forall_mem_append.mpr ⟨h.returned, forall_mem_singleton.mpr (h.stored a hstored)⟩
  case lost hreads hbehind =>
    refine { h with
      level := h.level.advance b.advance, identity := hidentity, used := hused, settled := ?_ }
    -- a database that holds the last archive would not have been behind the counter
    intro hsettled a ha
    simp only [Bool.and_eq_true, hreads, Bool.not_true, Bool.or_false, beq_iff_eq] at hsettled
    obtain ⟨hsettled, hdb⟩ := hsettled
    rw [show w.newest = some a from ha] at hdb
    exact absurd (h.settled hsettled a ha _ mem_cons_self).symm (hbehind a hdb)
  case created id returned hgeneration hsame =>
    have hsid : w.manager.mem.serverIdentityId = sid.1 := h.identity _ mem_cons_self
    have hlt : ∀ a ∈ w.created, a.generation < w.manager.mem.archiveGeneration + 1 := by
      intro a ha
      have := h.used a ha _ mem_cons_self
      omega
    refine ⟨h.level.advance b.advance, hidentity, ?_, ?_, ?_, ?_, ?_, ?_, ?_⟩
    · exact forall_mem_append.mpr
        ⟨hused, forall_mem_singleton.mpr fun v hv => (hgeneration v hv).ge⟩
    · refine forall_mem_append.mpr ⟨h.proper, forall_mem_singleton.mpr ⟨?_, hsid⟩⟩
      simp [loadArchive, hsid, sid.2, id.2]
    · refine pairwise_append.mpr ⟨h.ordered, pairwise_singleton _ _, ?_⟩
      intro a ha a' ha'
      rw [mem_singleton.mp ha']
      exact hlt a ha
    · intro a ha
      cases ha
      exact mem_append_right _ (mem_singleton_self _)
    · intro a ha
      rcases mem_append.mp ha with ha | ha
      · exact mem_append_left _ (h.copied a ha)
      · cases mem_singleton.mp ha
        exact mem_append_right _ (mem_singleton_self _)
    · intro a ha
      rcases mem_append.mp ha with ha | ha
      · exact mem_append_left _ (h.returned a ha)
      · rw [hsame a (by simpa using ha)]
        exact mem_append_right _ (mem_singleton_self _)
    · intro _ a ha v hv
      rw [World.newest, getLast?_concat] at ha
      cases ha
      exact hgeneration v hv

theorem Sound.step (s : Step) : Sound sid (w.step s) := by
  cases s with
  | boot b => exact (h.opened b).reconcile (reconcile_reconciled _ _ b)
  | ledger entries fate =>
    have hsame := save_versions
      (P := fun v => v ∈ w.manager.versions ∨ (v.serverIdentityId = w.manager.mem.serverIdentityId ∧
        v.archiveGeneration = w.manager.mem.archiveGeneration))
      { w.manager.mem with ledger := entries } fate (fun v hv => .inl hv) (.inr ⟨rfl, rfl⟩)
      (.inr ⟨rfl, rfl⟩)
    refine { h with
      level := h.level.save _ fate le_rfl, identity := ?_, used := ?_, settled := ?_ }
    · intro v hv
      rcases hsame v hv with hv | ⟨hid, -⟩
      · exact h.identity v hv
      · rw [hid]
        exact h.identity _ mem_cons_self
    · intro a ha v hv
      rcases hsame v hv with hv | ⟨-, hgen⟩
      · exact h.used a ha v hv
      · exact h.used_above ha hgen.ge
    · intro hsettled a ha v hv
      rcases hsame v hv with hv | ⟨-, hgen⟩
      · exact h.settled hsettled a ha v hv
      · rw [hgen]
        exact h.settled hsettled a ha _ mem_cons_self
  | lose =>
    refine { h with stored := ?_, copied := ?_ }
    · intro a ha
      cases ha
    intro a ha
    rcases mem_append.mp ha with ha | ha
    · exact h.copied a ha
    · cases mem_singleton.mp ha
  | replace copy =>
    simp only [World.step]
    split
    · next db hdb =>
      refine { h with stored := ?_ }
      intro a ha
      have ha : db = some a := ha
      subst ha
      exact h.copied a (mem_of_getElem? hdb)
    · exact h

end

theorem Sound.run (steps : List Step) (h : Sound sid w) : Sound sid (w.run steps) :=
  foldlRecOn (motive := Sound sid) steps _ h fun _ hw s _ => hw.step s

theorem Sound.boot_newest (h : Sound sid w) (hsettled : w.settled = true) {a : ArchiveIdentity}
    (hdb : w.db = some a) (hnewest : w.newest = some a) (hreads : b.reads = true) :
    (w.boot b).returned = w.returned ++ [a] ∧ (w.boot b).created = w.created := by
  have hall := h.settled hsettled a hnewest
  have ha := h.stored a hdb
  obtain ⟨hload, hid⟩ := h.proper a ha
  have hmem : (w.opened b).mem ∈ w.manager.versions := opened_versions mem_cons_self
  have hgen := hall _ hmem
  have hsid := h.identity _ hmem
  have hbooted : reconcileArchive (w.opened b) w.db b = ⟨w.opened b, none, some a⟩ := by
    unfold reconcileArchive
    rw [if_pos hreads, hdb, hload]
    simp [hid, hsid, hgen]
  simp [World.boot, hbooted]

end Sound

/-- Archive generations are never reused, for every sequence of boots with the database kept, lost or
replaced by any older copy, with any failure or crash inside a boot and with any power loss.

1. What a boot returns was committed, and archives of one generation are one archive.
2. Every archive that is committed has a greater generation than all before it.
3. A boot that can read the newest database returns the archive it had and makes none, if no boot has
   read another database in between. -/
theorem generations_never_reused (sid keyId : RandomId) (publicKey : List Byte)
    (steps : List Step) :
    let w := (World.start (newState sid keyId publicKey)).run steps
    (∀ a ∈ w.returned, a ∈ w.created ∧
      ∀ b ∈ w.returned, a.generation = b.generation → a.auditArchiveId = b.auditArchiveId) ∧
    w.created.Pairwise (fun a b => a.generation < b.generation) ∧
    (∀ a b, w.settled = true → w.newest = some a → w.db = some a → b.reads = true →
      (w.boot b).returned = w.returned ++ [a] ∧ (w.boot b).created = w.created) := by
  intro w
  have hsound : Sound sid w := (start_sound sid keyId publicKey).run steps
  refine ⟨?_, hsound.ordered, fun a b hs hn hdb hr => hsound.boot_newest hs hdb hn hr⟩
  intro a ha
  refine ⟨hsound.returned a ha, ?_⟩
  intro b hb hgen
  have hne : w.created.Pairwise fun a b => a.generation ≠ b.generation :=
    hsound.ordered.imp fun hlt => Nat.ne_of_lt hlt
  have heq : a = b := by
    by_contra hab
    have : Std.Symm fun a b : ArchiveIdentity => a.generation ≠ b.generation := ⟨fun _ _ h => h.symm⟩
    exact hne.forall (hsound.returned a ha) (hsound.returned b hb) hab hgen
  rw [heq]

def digitId (digit : Fin 10) : RandomId :=
  ⟨List.replicate 32 (48 + UInt8.ofNat digit), by revert digit; decide⟩

def bootWith (id : RandomId) (commit : CommitFate) : Boot := ⟨none, true, .synced, some id, true, commit⟩

/-- The database is lost, a boot without it dies before its commit, and the database is put back. -/
def putBack : World :=
  (World.start (newState (digitId 1) (digitId 2) [])).run
    [.boot (bootWith (digitId 3) .done), .lose, .boot (bootWith (digitId 4) .failed), .replace 1]

/-- The counter went on without the database: the only archive that was ever committed is replaced by
one of generation 3. -/
theorem putBack_replaced :
    putBack.db = putBack.newest ∧ putBack.created.length = 1 ∧
    ((putBack.boot (bootWith (digitId 5) .done)).returned.map (·.generation)) = [1, 3] := by
  decide +kernel

end Archives
end DockLattice.Identity
