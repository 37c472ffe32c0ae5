import DockLattice.Identity.Manager

/-!
# DockLattice.Identity.Revoked

What becomes of a revoked credential.

`CompactRevocations` drops the entry of an expired credential. The transport does not mind, since it
refuses an expired credential whatever the ledger says. The reuse check of registration asks for an
expired credential and has nothing but the ledger to know a revoked one: behind the compaction the
revoked credential is a proof of its Agent ID again.
-/

namespace DockLattice.Identity

open Bytes List Manager

variable {s : Persisted} {verify : Verify}

/-! ## Agent IDs and the reuse check -/

namespace AgentId

def isLowerHex (b : Byte) : Bool := (48 ≤ b && b ≤ 57) || (97 ≤ b && b ≤ 102)

def isDash (i : Nat) : Bool := i == 8 || i == 13 || i == 18 || i == 23

/-- `agentid.Valid`: a canonical UUIDv4. -/
def valid (value : Text) : Bool :=
  value.length == 36 &&
    value.zipIdx.all (fun p => if isDash p.2 then p.1 == 45 else isLowerHex p.1) &&
    value[14]? == some 52 &&
    (value[19]? == some 56 || value[19]? == some 57 || value[19]? == some 97 ||
      value[19]? == some 98)

end AgentId

inductive ReuseError where
  | identityReuseProof
  deriving DecidableEq, Repr

def verifyReuse (verify : Verify) (state : State) (requestedAgentId : Text) (c : Credential)
    (now : Int) : Except ReuseError Unit :=
  if AgentId.valid requestedAgentId = false ∨ c.agentId ≠ requestedAgentId then
    .error .identityReuseProof
  else
    match verifyCredential verify state c now true with
    | .error .expiredCredential =>
      if state.revocations.any fun revoked => revoked.credentialId == c.credentialId then
        .error .identityReuseProof
      else .ok ()
    | _ => .error .identityReuseProof

def renewCredential (verify : Verify) (state : State) (c : Credential) (now : Int)
    (issued : Except CredentialError Credential) : Except CredentialError Credential :=
  match verifyCredential verify state c now true with
  | .error e => .error e
  | .ok () => issued

structure Rejected (verify : Verify) (state : State) (c : Credential) (now : Int) : Prop where
  verified : verifyCredential verify state c now true ≠ .ok ()
  renewed : ∀ issued, renewCredential verify state c now (.ok issued) ≠ .ok issued
  reused : ∀ requested, verifyReuse verify state requested c now ≠ .ok ()

section Ledger

variable {state : State} {c : Credential} {now : Int}

theorem checkRevocations_ok {rs : List Revocation} (h : checkRevocations c rs = .ok ()) :
    ∀ r ∈ rs, r.credentialId ≠ c.credentialId := by
  induction rs with
  | nil => simp
  | cons r rs ih =>
    unfold checkRevocations at h
    split at h
    · split at h <;> cases h
    · next hne => exact forall_mem_cons.mpr ⟨hne, ih h⟩

theorem renewCredential_refuses (h : verifyCredential verify state c now true ≠ .ok ())
    (issued : Credential) : renewCredential verify state c now (.ok issued) ≠ .ok issued := by
  unfold renewCredential
  cases hv : verifyCredential verify state c now true with
  | ok u => exact absurd hv h
  | error e => exact fun he => by cases he

theorem Rejected.of_revocation {r : Revocation} (hr : r ∈ state.revocations)
    (hid : r.credentialId = c.credentialId) : Rejected verify state c now := by
  have hverified : verifyCredential verify state c now true ≠ .ok () :=
    fun h => checkRevocations_ok (verifyCredential_ok_iff.mp h).1.revocations r hr hid
  refine ⟨hverified, renewCredential_refuses hverified, ?_⟩
  intro requested h
  unfold verifyReuse at h
  split at h
  · cases h
  split at h
  · rw [if_pos (any_eq_true.mpr ⟨r, hr, by simp [hid]⟩)] at h
    cases h
  · cases h

end Ledger

/-! ## Runs -/

inductive Call where
  /-- issuing, renewing, verifying and reusing only read the state -/
  | reads
  | revoke (c : Credential) (now : Int) (reason : Text) (fate : SaveFate)
  | compact (now : Int) (fate : SaveFate)
  | advance (fate : SaveFate)
  | restart
  | powerLoss (k : Nat)

def Entry.key (e : Entry) : Text × Int := (e.credentialId, e.expiresAt)

structure World where
  manager : Manager
  /-- the ID and the expiry of the credentials in the ledger of the start, and of those that a
  revocation was asked for -/
  named : List (Text × Int)
  /-- the credentials for which `RevokeCredential` returned success -/
  revoked : List Credential

namespace World

def start (s : Persisted) : World := ⟨⟨s, ⟨s, []⟩⟩, s.ledger.map Entry.key, []⟩

def step (verify : Verify) (w : World) : Call → World
  | .reads => w
  | .revoke c now reason fate =>
    match w.manager.revokeCredential verify c now reason fate with
    | (m, .ok ()) => ⟨m, w.named ++ [(c.credentialId, c.expiresAt.instant)], w.revoked ++ [c]⟩
    | (m, .error _) => ⟨m, w.named ++ [(c.credentialId, c.expiresAt.instant)], w.revoked⟩
  | .compact now fate => { w with manager := w.manager.compactRevocations now fate }
  | .advance fate => { w with manager := (w.manager.advanceArchiveGeneration fate).1 }
  | .restart => { w with manager := w.manager.restart }
  | .powerLoss k => { w with manager := w.manager.powerLoss k }

def run (verify : Verify) (w : World) (calls : List Call) : World :=
  calls.foldl (step verify) w

end World

/-! ## Conditions on the calls -/

def Call.compactsBy (limit : Int) : Call → Prop
  | .compact now _ => now ≤ limit
  | _ => True

/-- The sync of the directory fails behind the rename, if the call saves. -/
def Call.unsynced : Call → Bool
  | .revoke _ _ _ fate | .compact _ fate | .advance fate => fate = .unsynced
  | _ => false

def Call.losesPower : Call → Bool
  | .powerLoss _ => true
  | _ => false

/-- No power loss behind a save whose sync failed. -/
def PowerKept (calls : List Call) : Prop :=
  calls.Pairwise fun before later => before.unsynced = true → later.losesPower = false

/-! ## The entries -/

theorem journaled_keys (s : Persisted) : s.journaled.ledger.map Entry.key = s.ledger.map Entry.key := by
  simp only [Persisted.journaled, map_map]
  rfl

/-- A revoked credential is in the ledger until one with its ID has expired. -/
structure World.Kept (limit : Int) (w : World) : Prop where
  visible : w.manager.disk.visible.ledger.map Entry.key = w.manager.mem.ledger.map Entry.key
  entries : ∀ k ∈ w.manager.mem.ledger.map Entry.key, k ∈ w.named
  kept : ∀ c ∈ w.revoked, (∃ k ∈ w.manager.mem.ledger.map Entry.key, k.1 = c.credentialId) ∨
    ∃ k ∈ w.named, k.1 = c.credentialId ∧ k.2 ≤ limit

section Kept

variable {limit : Int} {w : World}

section

variable (h : w.Kept limit)

include h

theorem World.Kept.names (k : Text × Int) :
    World.Kept limit { w with named := w.named ++ [k] } := by
  refine ⟨h.visible, fun k hk => mem_append_left _ (h.entries k hk), fun c hc => ?_⟩
  rcases h.kept c hc with hin | ⟨k', hk', hexp⟩
  · exact .inl hin
  · exact .inr ⟨k', mem_append_left _ hk', hexp⟩

theorem World.Kept.save (next : Persisted) (fate : SaveFate)
    (revoked : List Credential)
    (hentries : ∀ k ∈ next.ledger.map Entry.key, k ∈ w.named)
    (hold : (w.manager.save next fate) = (w.manager, false) → ∀ c ∈ revoked, c ∈ w.revoked)
    (hkept : ∀ c ∈ revoked, (∃ k ∈ next.ledger.map Entry.key, k.1 = c.credentialId) ∨
      ∃ k ∈ w.named, k.1 = c.credentialId ∧ k.2 ≤ limit) :
    World.Kept limit ⟨(w.manager.save next fate).1, w.named, revoked⟩ := by
  rcases w.manager.save_cases next fate with hsave | ⟨hmem, hvisible⟩
  · rw [hsave]
    exact ⟨h.visible, h.entries, fun c hc => h.kept c (hold hsave c hc)⟩
  · refine ⟨?_, ?_, ?_⟩
    · simp only [hmem, hvisible, journaled_keys]
    · simp only [hmem]
      exact hentries
    · simp only [hmem]
      exact hkept

theorem World.Kept.revoke (c : Credential) (now : Int) (reason : Text)
    (fate : SaveFate) : (w.step verify (.revoke c now reason fate)).Kept limit := by
  have hsame := h.names (c.credentialId, c.expiresAt.instant)
  simp only [World.step, revokeCredential]
  by_cases hreason : reason = []
  · rw [if_pos hreason]
    exact hsame
  rw [if_neg hreason]
  cases hverify : verifyCredential verify w.manager.mem.state c now false with
  | error e => exact hsame
  | ok u =>
    cases hfind : w.manager.mem.ledger.find? fun e => e.credentialId = c.credentialId with
    | some e =>
      simp only
      by_cases hagent : e.agentId ≠ c.agentId
      · rw [if_pos hagent]
        exact hsame
      rw [if_neg hagent]
      have hentered : e.key.1 = c.credentialId := by simpa [Entry.key] using find?_some hfind
      exact ⟨h.visible, hsame.entries, forall_mem_append.mpr ⟨hsame.kept, forall_mem_singleton.mpr
        (.inl ⟨e.key, mem_map_of_mem (mem_of_find?_eq_some hfind), hentered⟩)⟩⟩
    | none =>
      simp only
      generalize hnext : { w.manager.mem with
        ledger := w.manager.mem.ledger ++ [Entry.of c now reason] } = next
      have hkeys : next.ledger.map Entry.key =
          w.manager.mem.ledger.map Entry.key ++ [(Entry.of c now reason).key] := by
        rw [← hnext]
        exact map_append
      have hsaved : ∀ revoked, (∀ c' ∈ revoked, c' ∈ w.revoked ++ [c]) →
          ((w.manager.save next fate) = (w.manager, false) → ∀ c' ∈ revoked, c' ∈ w.revoked) →
          World.Kept limit ⟨(w.manager.save next fate).1,
            w.named ++ [(c.credentialId, c.expiresAt.instant)], revoked⟩ := by
        intro revoked hsub hold
        refine hsame.save next fate revoked ?_ hold fun c' hc' => ?_
        · rw [hkeys]
          exact forall_mem_append.mpr ⟨hsame.entries,
            forall_mem_singleton.mpr (mem_append_right _ (mem_singleton_self _))⟩
        rw [hkeys]
        rcases mem_append.mp (hsub c' hc') with hc' | hc'
        · rcases hsame.kept c' hc' with ⟨k, hk, hid⟩ | hexp
          · exact .inl ⟨k, mem_append_left _ hk, hid⟩
          · exact .inr hexp
        · rw [mem_singleton.mp hc']
          exact .inl ⟨_, mem_append_right _ (mem_singleton_self _), rfl⟩
      cases hsave : w.manager.save next fate with
      | mk m ok =>
        rw [hsave] at hsaved
        cases ok with
        | true => exact hsaved (w.revoked ++ [c]) (fun _ hc' => hc') nofun
        | false => exact hsaved w.revoked (fun _ => mem_append_left _) fun _ _ hc' => hc'

theorem World.Kept.restarted : World.Kept limit { w with manager := w.manager.restart } := by
  refine ⟨rfl, fun k hk => h.entries k (h.visible ▸ hk), ?_⟩
  intro c hc
  rcases h.kept c hc with hin | hexp
  · rw [← h.visible] at hin
    exact .inl hin
  · exact .inr hexp

theorem World.Kept.step {call : Call} (hby : call.compactsBy limit)
    (hpower : call.losesPower = true → w.manager.disk.renamed = []) :
    (w.step verify call).Kept limit := by
  cases call with
  | reads => exact h
  | revoke c now reason fate => exact h.revoke c now reason fate
  | compact now fate =>
    simp only [World.step, compactRevocations]
    split
    · exact h
    refine h.save _ fate _ ?_ (fun _ _ hc => hc) ?_
    · intro k hk
      obtain ⟨e, he, rfl⟩ := mem_map.mp hk
      exact h.entries e.key (mem_map_of_mem (mem_of_mem_filter he))
    intro c hc
    rcases h.kept c hc with ⟨k, hk, hid⟩ | hexp
    · by_cases hnow : now < k.2
      · obtain ⟨e, he, rfl⟩ := mem_map.mp hk
        have hstays : e ∈ w.manager.mem.ledger.filter fun e => now < e.expiresAt :=
          mem_filter.mpr ⟨he, decide_eq_true hnow⟩
        exact .inl ⟨e.key, mem_map_of_mem hstays, hid⟩
      · -- the entry is dropped; a credential with its ID has expired
        have hlimit : now ≤ limit := hby
        exact .inr ⟨k, h.entries k hk, hid, by omega⟩
    · exact .inr hexp
  | advance fate =>
    simp only [World.step, advanceArchiveGeneration]
    split
    · exact h
    have hdone := h.save
      { w.manager.mem with archiveGeneration := w.manager.mem.archiveGeneration + 1 } fate
      w.revoked h.entries (fun _ _ hc => hc) h.kept
    split
    · next m hm =>
      rw [hm] at hdone
      exact hdone
    · next m hm =>
      rw [hm] at hdone
      exact hdone
  | restart => exact h.restarted
  | powerLoss k =>
    have hsame : w.manager.powerLoss k = w.manager.restart :=
      powerLoss_of_synced (hpower rfl) k
    simp only [World.step, hsame]
    exact h.restarted

end

theorem World.synced_step (h : w.manager.disk.renamed = []) {call : Call}
    (hcall : call.unsynced = false) : (w.step verify call).manager.disk.renamed = [] := by
  cases call with
  | reads => exact h
  | restart => exact h
  | revoke c now reason fate =>
    have hfate : fate ≠ .unsynced := by simpa [Call.unsynced] using hcall
    have hr := synced_revoke verify h c now reason hfate
    simp only [World.step]
    split
    · next m hm =>
      rw [hm] at hr
      exact hr
    · next m e hm =>
      rw [hm] at hr
      exact hr
  | compact now fate =>
    simp only [World.step, compactRevocations]
    split
    · exact h
    · exact synced_save h _ (by simpa [Call.unsynced] using hcall)
  | advance fate =>
    have hfate : fate ≠ .unsynced := by simpa [Call.unsynced] using hcall
    have hsave := synced_save h
      { w.manager.mem with archiveGeneration := w.manager.mem.archiveGeneration + 1 } hfate
    simp only [World.step, advanceArchiveGeneration]
    split
    · exact h
    split
    · next m hm =>
      rw [hm] at hsave
      exact hsave
    · next m hm =>
      rw [hm] at hsave
      exact hsave
  | powerLoss k =>
    simp only [World.step, powerLoss_of_synced h k]
    exact h

/-- The run is followed while everything renamed is synced, or while no power loss is to come. -/
theorem World.Kept.run (calls : List Call) (hby : ∀ call ∈ calls, call.compactsBy limit)
    (hpower : PowerKept calls)
    (hsynced : w.manager.disk.renamed = [] ∨ ∀ call ∈ calls, call.losesPower = false)
    (h : w.Kept limit) : (w.run verify calls).Kept limit := by
  induction calls generalizing w with
  | nil => exact h
  | cons call calls ih =>
    obtain ⟨hby, hbys⟩ := forall_mem_cons.mp hby
    obtain ⟨hlater, hpower⟩ := pairwise_cons.mp hpower
    refine ih hbys hpower ?_ (h.step hby ?_)
    · cases hcall : call.unsynced with
      | true => exact .inr fun later hmem => hlater later hmem hcall
      | false =>
        rcases hsynced with hsynced | hnone
        · exact .inl (synced_step hsynced hcall)
        · exact .inr (forall_mem_cons.mp hnone).2
    · intro hloses
      rcases hsynced with hsynced | hnone
      · exact hsynced
      · rw [(forall_mem_cons.mp hnone).1] at hloses
        cases hloses

end Kept

/-- A revoked credential stays out, behind every sequence of calls in which no power loss follows a
save whose sync failed, and at every time. Assumed is that no credential with its ID and an earlier
expiry was in the first ledger or named to `RevokeCredential`.

1. While no compaction is made at or after its expiry, it is accepted nowhere.
2. Whatever was compacted until then, the transport and the renewal do not accept it. -/
theorem revoked_rejected (verify : Verify) (s : Persisted) (calls : List Call) {c : Credential}
    (hc : c ∈ ((World.start s).run verify calls).revoked) (hpower : PowerKept calls)
    (hunique : ∀ k ∈ ((World.start s).run verify calls).named, k.1 = c.credentialId →
      c.expiresAt.instant ≤ k.2) (now : Int) :
    let state := ((World.start s).run verify calls).manager.mem.state
    ((∀ call ∈ calls, call.compactsBy (c.expiresAt.instant - 1)) → Rejected verify state c now) ∧
    ((∀ call ∈ calls, call.compactsBy now) →
      verifyCredential verify state c now true ≠ .ok () ∧
      ∀ issued, renewCredential verify state c now (.ok issued) ≠ .ok issued) := by
  have hkept : ∀ limit, (∀ call ∈ calls, call.compactsBy limit) →
      (∃ r ∈ ((World.start s).run verify calls).manager.mem.state.revocations,
        r.credentialId = c.credentialId) ∨ c.expiresAt.instant ≤ limit := by
    intro limit hby
    have hrun : ((World.start s).run verify calls).Kept limit :=
      World.Kept.run calls hby hpower (.inl rfl) ⟨rfl, fun _ hk => hk, fun _ hc => by cases hc⟩
    rcases hrun.kept c hc with ⟨k, hk, hid⟩ | ⟨k, hk, hid, hexp⟩
    · obtain ⟨e, he, rfl⟩ := mem_map.mp hk
      exact .inl ⟨e.toRevocation, mem_map_of_mem he, hid⟩
    · exact .inr ((hunique k hk hid).trans hexp)
  refine ⟨?_, ?_⟩
  · intro hby
    rcases hkept _ hby with ⟨r, hr, hid⟩ | hexp
    · exact .of_revocation hr hid
    · omega
  · intro hby
    have hverified : verifyCredential verify
        ((World.start s).run verify calls).manager.mem.state c now true ≠ .ok () := by
      rcases hkept now hby with ⟨r, hr, hid⟩ | hexp
      · exact (Rejected.of_revocation hr hid).verified
      · intro h
        have := (verifyCredential_ok_iff.mp h).2
        omega
    exact ⟨hverified, renewCredential_refuses hverified⟩

/-! ## One revocation -/

/-- The credential of `winterCredential`'s Server for an Agent with a canonical ID. -/
def agentCredential : Credential :=
  { winterCredential with agentId := text "6fa459ea-ee8a-4ca4-894e-db77e160355e" }

def winterPersisted : Persisted where
  serverIdentityId := winterState.serverIdentityId
  currentKeyId := winterState.currentKeyId
  signingKeys := winterState.signingKeys
  archiveGeneration := 1
  ledger := []

def anySignature : Verify := fun _ _ _ => true

def revokeAgent : Call :=
  .revoke agentCredential (1767225601 * second) (text "replaced") .synced

/-- The revocation, a compaction one second before the expiry, and a power loss. -/
def calmCalls : List Call :=
  [revokeAgent, .compact (agentCredential.expiresAt.instant - second) .synced, .powerLoss 0]

theorem calmCalls_rejected :
    agentCredential ∈ ((World.start winterPersisted).run anySignature calmCalls).revoked ∧
    Rejected anySignature
      ((World.start winterPersisted).run anySignature calmCalls).manager.mem.state
      agentCredential agentCredential.expiresAt.instant := by
  have hrevoked : agentCredential ∈
      ((World.start winterPersisted).run anySignature calmCalls).revoked := by decide +kernel
  refine ⟨hrevoked, (revoked_rejected anySignature winterPersisted calmCalls hrevoked ?_ ?_ _).1 ?_⟩
  · simp [calmCalls, PowerKept, revokeAgent, Call.unsynced]
  · decide +kernel
  · simp [calmCalls, revokeAgent, Call.compactsBy, second]

/-- Behind the compaction the revoked credential proves its Agent ID to registration. -/
theorem compacted_reused :
    let w := (World.start winterPersisted).run anySignature
      [revokeAgent, .compact agentCredential.expiresAt.instant .synced]
    w.revoked = [agentCredential] ∧
    verifyReuse anySignature w.manager.mem.state agentCredential.agentId agentCredential
      agentCredential.expiresAt.instant = .ok () := by
  decide +kernel

end DockLattice.Identity
