import DockLattice.Identity.Credential
import DockLattice.Lib.Utf8

/-!
# DockLattice.Identity.Manager

The Server Identity State: the revocation ledger and the archive generation, in memory and on disk.

`saveLocked` writes a temporary file, renames it over the state and syncs the directory. The state of
the Manager follows the rename, also when the sync fails behind it; what a power loss leaves is the
last synced version or one that was renamed since.
-/

namespace DockLattice.Identity

open Bytes List

structure Entry extends Revocation where
  revokedAt : Int
  expiresAt : Int
  reason : Text
  deriving DecidableEq, Repr

/-- The entry of `RevokeCredential`. -/
def Entry.of (c : Credential) (now : Int) (reason : Text) : Entry where
  credentialId := c.credentialId
  agentId := c.agentId
  revokedAt := now
  expiresAt := c.expiresAt.instant
  reason := reason

structure Persisted where
  serverIdentityId : Text
  currentKeyId : Text
  signingKeys : List SigningKey
  archiveGeneration : Nat
  ledger : List Entry

namespace Persisted

def state (s : Persisted) : State where
  serverIdentityId := s.serverIdentityId
  currentKeyId := s.currentKeyId
  signingKeys := s.signingKeys
  revocations := s.ledger.map Entry.toRevocation

def journaled (s : Persisted) : Persisted :=
  { s with ledger := s.ledger.map fun e =>
      { e with agentId := Utf8.toValid e.agentId, reason := Utf8.toValid e.reason } }

end Persisted

def zeroInstant : Int := -62135596800 * second

def Entry.complete (e : Entry) : Bool :=
  validRandomId e.credentialId && e.agentId ≠ [] && e.reason ≠ [] && e.revokedAt ≠ zeroInstant &&
    e.expiresAt ≠ zeroInstant && e.revokedAt < e.expiresAt

/-- `validateState`; the keys do not change. -/
def validateLedger (ledger : List Entry) : Bool :=
  ledger.all Entry.complete && decide (ledger.map fun e => e.credentialId).Nodup

structure Disk where
  /-- the version of the last directory sync -/
  durable : Persisted
  /-- the versions that were renamed over the state since, oldest first -/
  renamed : List Persisted

namespace Disk

def visible (d : Disk) : Persisted := d.renamed.getLast?.getD d.durable

def versions (d : Disk) : List Persisted := d.durable :: d.renamed

end Disk

inductive SaveFate where
  | failed
  /-- the rename is done, the sync of the directory fails -/
  | unsynced
  | synced
  deriving DecidableEq, Repr

structure Manager where
  mem : Persisted
  disk : Disk

namespace Manager

/-- `saveLocked` with what the callers do: the state follows the rename. -/
def save (m : Manager) (next : Persisted) (fate : SaveFate) : Manager × Bool :=
  if validateLedger next.ledger then
    match fate with
    | .failed => (m, false)
    | .unsynced =>
      (⟨next, { m.disk with renamed := m.disk.renamed ++ [next.journaled] }⟩, false)
    | .synced => (⟨next, ⟨next.journaled, []⟩⟩, true)
  else (m, false)

inductive RevokeError where
  | credential (e : CredentialError)
  | notSaved
  deriving DecidableEq, Repr

def revokeCredential (verify : Verify) (m : Manager) (c : Credential) (now : Int) (reason : Text)
    (fate : SaveFate) : Manager × Except RevokeError Unit :=
  if reason = [] then (m, .error (.credential .invalidCredential))
  else
    match verifyCredential verify m.mem.state c now false with
    | .error e => (m, .error (.credential e))
    | .ok () =>
      match m.mem.ledger.find? fun e => e.credentialId = c.credentialId with
      | some revoked =>
        if revoked.agentId ≠ c.agentId then (m, .error (.credential .invalidCredential))
        else (m, .ok ())
      | none =>
        match m.save { m.mem with ledger := m.mem.ledger ++ [Entry.of c now reason] } fate with
        | (m', true) => (m', .ok ())
        | (m', false) => (m', .error .notSaved)

def compactRevocations (m : Manager) (now : Int) (fate : SaveFate) : Manager :=
  let kept := m.mem.ledger.filter fun e => now < e.expiresAt
  if kept.length = m.mem.ledger.length then m
  else (m.save { m.mem with ledger := kept } fate).1

def maxGeneration : Nat := 18446744073709551615

def advanceArchiveGeneration (m : Manager) (fate : SaveFate) : Manager × Option Nat :=
  if m.mem.archiveGeneration = maxGeneration then (m, none)
  else
    let next := { m.mem with archiveGeneration := m.mem.archiveGeneration + 1 }
    match m.save next fate with
    | (m', true) => (m', some next.archiveGeneration)
    | (m', false) => (m', none)

def restart (m : Manager) : Manager := ⟨m.disk.visible, m.disk⟩

def powerLoss (m : Manager) (k : Nat) : Manager :=
  match m.disk.versions[k]? with
  | some version => ⟨version, ⟨version, []⟩⟩
  | none => m.restart

end Manager

/-! ## What a save does -/

namespace Manager

def versions (m : Manager) : List Persisted := m.mem :: m.disk.versions

theorem visible_mem (d : Disk) : d.visible ∈ d.versions := by
  unfold Disk.visible Disk.versions
  cases h : d.renamed.getLast? with
  | none => exact mem_cons_self
  | some v => exact mem_cons_of_mem _ (mem_of_getLast? h)

theorem restart_versions {m : Manager} {v : Persisted} (h : v ∈ m.restart.versions) :
    v ∈ m.versions := by
  rcases mem_cons.mp h with h | h
  · rw [h]
    exact mem_cons_of_mem _ (visible_mem m.disk)
  · exact mem_cons_of_mem _ h

theorem powerLoss_versions {m : Manager} {k : Nat} {v : Persisted}
    (h : v ∈ (m.powerLoss k).versions) : v ∈ m.versions := by
  unfold powerLoss at h
  split at h
  · next version hk =>
    have hv : v = version := by simpa [versions, Disk.versions] using h
    rw [hv]
    exact mem_cons_of_mem _ (mem_of_getElem? hk)
  · exact restart_versions h

theorem save_cases (m : Manager) (next : Persisted) (fate : SaveFate) :
    m.save next fate = (m, false) ∨
      ((m.save next fate).1.mem = next ∧ (m.save next fate).1.disk.visible = next.journaled) := by
  unfold save
  split
  · cases fate with
    | failed => exact .inl rfl
    | unsynced => exact .inr ⟨rfl, by simp [Disk.visible]⟩
    | synced => exact .inr ⟨rfl, rfl⟩
  · exact .inl rfl

theorem powerLoss_of_synced {m : Manager} (h : m.disk.renamed = []) (k : Nat) :
    m.powerLoss k = m.restart := by
  obtain ⟨mem, durable, renamed⟩ := m
  subst h
  cases k <;> rfl

theorem synced_save {m : Manager} (h : m.disk.renamed = []) (next : Persisted) {fate : SaveFate}
    (hfate : fate ≠ .unsynced) : (m.save next fate).1.disk.renamed = [] := by
  unfold save
  split
  · cases fate with
    | failed => exact h
    | unsynced => exact absurd rfl hfate
    | synced => rfl
  · exact h

theorem synced_revoke (verify : Verify) {m : Manager} (h : m.disk.renamed = []) (c : Credential)
    (now : Int) (reason : Text) {fate : SaveFate} (hfate : fate ≠ .unsynced) :
    (m.revokeCredential verify c now reason fate).1.disk.renamed = [] := by
  unfold revokeCredential
  split
  · exact h
  split
  · exact h
  split
  · split <;> exact h
  have hsave := synced_save h
    { m.mem with ledger := m.mem.ledger ++ [Entry.of c now reason] } hfate
  split
  · next m' hm =>
    rw [hm] at hsave
    exact hsave
  · next m' hm =>
    rw [hm] at hsave
    exact hsave

theorem save_versions {m : Manager} {P : Persisted → Prop} (next : Persisted) (fate : SaveFate)
    (h : ∀ v ∈ m.versions, P v) (hnext : P next) (hjson : P next.journaled) :
    ∀ v ∈ (m.save next fate).1.versions, P v := by
  unfold save
  split
  · cases fate with
    | failed => exact h
    | unsynced =>
      intro v hv
      simp only [versions, Disk.versions, mem_cons, mem_append, not_mem_nil, or_false] at hv h
      rcases hv with rfl | rfl | hv | rfl
      · exact hnext
      · exact h _ (.inr (.inl rfl))
      · exact h v (.inr (.inr hv))
      · exact hjson
    | synced =>
      intro v hv
      simp only [versions, Disk.versions, mem_cons, not_mem_nil, or_false] at hv
      rcases hv with rfl | rfl
      · exact hnext
      · exact hjson
  · exact h

end Manager
end DockLattice.Identity
