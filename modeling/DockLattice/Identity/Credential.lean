import DockLattice.Lib.JsonTime
import DockLattice.Lib.Text

/-!
# DockLattice.Identity.Credential

Server-signed Agent credentials: the signed payload, issuing and verification.

A credential is a bearer token. Its holder can send any JSON text under a signature it once got;
what binds a field is that the signed payload determines it. The payload holds the four
identifiers behind their lengths and the two times as 64-bit nanosecond counts, while the expiry
test compares instants.
-/

namespace DockLattice.Identity

open Bytes JsonTime

variable {a c : Credential} {state : State} {verify : Verify}

inductive CredentialError where
  | invalidCredential
  | invalidSignature
  | wrongServerIdentity
  | unknownSigningKey
  | expiredCredential
  | revokedCredential
  deriving DecidableEq, Repr

structure Credential where
  version : UInt32
  serverIdentityId : Text
  agentId : Text
  credentialId : Text
  keyId : Text
  issuedAt : JsonTime
  expiresAt : JsonTime
  signature : List Byte
  deriving DecidableEq, Repr

def credentialVersion : UInt32 := 1

def signatureSize : Nat := 64

def isHexDigit (b : Byte) : Bool :=
  (48 ≤ b && b ≤ 57) || (97 ≤ b && b ≤ 102) || (65 ≤ b && b ≤ 70)

def validRandomId (id : Text) : Bool := id.length = 32 && id.all isHexDigit

namespace Credential

/-- The field checks at the head of `signingPayload`. -/
def fieldsValid (c : Credential) : Bool :=
  c.version ≠ 0 && validRandomId c.serverIdentityId && c.agentId ≠ [] &&
    c.agentId.length ≤ 1024 && validRandomId c.credentialId && validRandomId c.keyId &&
    !c.issuedAt.isZero && !c.expiresAt.isZero &&
    decide (c.issuedAt.instant < c.expiresAt.instant)

/-- The bytes `signingPayload` writes once its checks have passed. -/
def payloadBytes (c : Credential) : List Byte :=
  text "docklattice-agent-credential" ++ [0] ++ beBytes 4 c.version.toNat ++
    prefixed c.serverIdentityId ++ prefixed c.agentId ++ prefixed c.credentialId ++
    prefixed c.keyId ++ beBytes 8 c.issuedAt.unixNano ++ beBytes 8 c.expiresAt.unixNano

def signingPayload (c : Credential) : Except CredentialError (List Byte) :=
  if c.fieldsValid then .ok c.payloadBytes else .error .invalidCredential

end Credential

/-- `ParseCredential` behind the JSON decoder. -/
def parseCredential (c : Credential) : Except CredentialError Credential :=
  match c.signingPayload with
  | .error e => .error e
  | .ok _ => if c.signature.length ≠ signatureSize then .error .invalidSignature else .ok c

structure SigningKey where
  keyId : Text
  publicKey : List Byte
  deriving DecidableEq, Repr

structure Revocation where
  credentialId : Text
  agentId : Text
  deriving DecidableEq, Repr

structure State where
  serverIdentityId : Text
  currentKeyId : Text
  signingKeys : List SigningKey
  revocations : List Revocation

def State.signingKey? (state : State) (keyId : Text) : Option SigningKey :=
  state.signingKeys.find? fun key => key.keyId = keyId

/-- The outcome of `ed25519.Verify` on a public key, a message and a signature. -/
abbrev Verify := List Byte → List Byte → List Byte → Bool

def checkRevocations (c : Credential) : List Revocation → Except CredentialError Unit
  | [] => .ok ()
  | revoked :: rest =>
    if revoked.credentialId = c.credentialId then
      if revoked.agentId ≠ c.agentId then .error .invalidCredential
      else .error .revokedCredential
    else checkRevocations c rest

def verifyCredential (verify : Verify) (state : State) (c : Credential) (now : Int)
    (checkRevocation : Bool) : Except CredentialError Unit :=
  if c.version ≠ credentialVersion ∨ c.agentId = [] ∨ c.credentialId = [] ∨ c.keyId = [] ∨
      c.issuedAt.isZero ∨ c.expiresAt.isZero ∨ ¬ c.issuedAt.instant < c.expiresAt.instant then
    .error .invalidCredential
  else
    match state.signingKey? c.keyId with
    | none => .error .unknownSigningKey
    | some key =>
      match c.signingPayload with
      | .error e => .error e
      | .ok payload =>
        if c.signature.length ≠ signatureSize ∨ ¬ verify key.publicKey payload c.signature then
          .error .invalidSignature
        else if c.serverIdentityId ≠ state.serverIdentityId then
          .error .wrongServerIdentity
        else if ¬ now < c.expiresAt.instant then
          .error .expiredCredential
        else if checkRevocation then
          checkRevocations c state.revocations
        else .ok ()

def identityVerify (verify : Verify) (state : State) (c : Credential) (now : Int) :
    Except CredentialError Credential :=
  match parseCredential c with
  | .error e => .error e
  | .ok c =>
    match verifyCredential verify state c now true with
    | .error e => .error e
    | .ok () => .ok c

/-! ## What the payload determines -/

namespace Credential

structure SameText (a b : Credential) : Prop where
  version : a.version = b.version
  serverIdentityId : a.serverIdentityId = b.serverIdentityId
  agentId : a.agentId = b.agentId
  credentialId : a.credentialId = b.credentialId
  keyId : a.keyId = b.keyId

structure SameFields (a b : Credential) : Prop extends SameText a b where
  issuedAt : a.issuedAt.instant = b.issuedAt.instant
  expiresAt : a.expiresAt.instant = b.expiresAt.instant

theorem validRandomId_length {id : Text} (h : validRandomId id) : id.length < 2 ^ 32 := by
  simp only [validRandomId, Bool.and_eq_true, decide_eq_true_eq] at h
  omega

/-- The checks of `signingPayload` as a proposition. -/
structure Checked (c : Credential) : Prop where
  version : c.version ≠ 0
  serverIdentityId : validRandomId c.serverIdentityId
  agentId_ne : c.agentId ≠ []
  agentId_le : c.agentId.length ≤ 1024
  credentialId : validRandomId c.credentialId
  keyId : validRandomId c.keyId
  issuedAt : c.issuedAt.isZero = false
  expiresAt : c.expiresAt.isZero = false
  ordered : c.issuedAt.instant < c.expiresAt.instant

theorem fieldsValid_iff : c.fieldsValid = true ↔ c.Checked := by
  simp only [fieldsValid, Bool.and_eq_true, decide_eq_true_eq, Bool.not_eq_true']
  constructor
  · intro hall
    obtain ⟨⟨⟨⟨⟨⟨⟨⟨h1, h2⟩, h3⟩, h4⟩, h5⟩, h6⟩, h7⟩, h8⟩, h9⟩ := hall
    exact ⟨h1, h2, h3, h4, h5, h6, h7, h8, h9⟩
  · intro h
    exact ⟨⟨⟨⟨⟨⟨⟨⟨h.version, h.serverIdentityId⟩, h.agentId_ne⟩, h.agentId_le⟩,
      h.credentialId⟩, h.keyId⟩, h.issuedAt⟩, h.expiresAt⟩, h.ordered⟩

theorem Checked.signingPayload (h : c.Checked) : c.signingPayload = .ok c.payloadBytes := by
  rw [Credential.signingPayload, if_pos (fieldsValid_iff.mpr h)]

theorem checked_of_signingPayload {p : List Byte} (h : c.signingPayload = .ok p) :
    c.Checked ∧ p = c.payloadBytes := by
  rw [Credential.signingPayload] at h
  split at h
  · rename_i hv
    cases h
    exact ⟨fieldsValid_iff.mp hv, rfl⟩
  · cases h

theorem payloadBytes_eq_iff {b : Credential} (ha : a.Checked) (hb : b.Checked) :
    a.payloadBytes = b.payloadBytes ↔ SameText a b ∧
      a.issuedAt.instant ≡ b.issuedAt.instant [ZMOD 2 ^ 64] ∧
      a.expiresAt.instant ≡ b.expiresAt.instant [ZMOD 2 ^ 64] := by
  have hnano : ∀ {t u : JsonTime}, beBytes 8 t.unixNano = beBytes 8 u.unixNano ↔
      t.instant ≡ u.instant [ZMOD 2 ^ 64] := by
    intro t u
    rw [beBytes_inj, Nat.mod_eq_of_lt t.unixNano_lt, Nat.mod_eq_of_lt u.unixNano_lt, unixNano_eq]
  have hlen : ∀ {c : Credential}, c.Checked → c.agentId.length < 2 ^ 32 := by
    intro c hc
    have := hc.agentId_le
    omega
  constructor
  · intro h
    simp only [payloadBytes, List.append_assoc] at h
    have h := (List.append_inj (List.append_cancel_left (List.append_cancel_left h)) (by simp))
    obtain ⟨hv, h⟩ := h
    -- the strings are peeled off from the front, each by its own length
    obtain ⟨hs, h⟩ := (prefixed_append_inj (validRandomId_length ha.serverIdentityId)
      (validRandomId_length hb.serverIdentityId)).mp h
    obtain ⟨hg, h⟩ := (prefixed_append_inj (hlen ha) (hlen hb)).mp h
    obtain ⟨hc, h⟩ := (prefixed_append_inj (validRandomId_length ha.credentialId)
      (validRandomId_length hb.credentialId)).mp h
    obtain ⟨hk, h⟩ := (prefixed_append_inj (validRandomId_length ha.keyId)
      (validRandomId_length hb.keyId)).mp h
    obtain ⟨hi, he⟩ := List.append_inj h (by simp)
    have hv : a.version = b.version := by
      have hlt : ∀ v : UInt32, v.toNat % 256 ^ 4 = v.toNat := fun v => Nat.mod_eq_of_lt v.toNat_lt
      rw [beBytes_inj, hlt, hlt] at hv
      exact UInt32.toNat_inj.mp hv
    exact ⟨⟨hv, hs, hg, hc, hk⟩, hnano.mp hi, hnano.mp he⟩
  · intro hall
    obtain ⟨ht, hi, he⟩ := hall
    simp only [payloadBytes, ht.version, ht.serverIdentityId, ht.agentId, ht.credentialId,
      ht.keyId, hnano.mpr hi, hnano.mpr he]

end Credential

/-! ## Verification -/

theorem checkRevocations_congr {b : Credential} (h : a.SameText b) (rs : List Revocation) :
    checkRevocations a rs = checkRevocations b rs := by
  induction rs with
  | nil => rfl
  | cons r rs ih => simp only [checkRevocations, h.credentialId, h.agentId, ih]

/-- What `verifyCredential` has checked when it accepts, the expiry apart. -/
structure Genuine (verify : Verify) (state : State) (c : Credential) : Prop where
  checked : c.Checked
  version : c.version = credentialVersion
  key : ∃ key, state.signingKey? c.keyId = some key ∧
    verify key.publicKey c.payloadBytes c.signature = true
  signature : c.signature.length = signatureSize
  identity : c.serverIdentityId = state.serverIdentityId
  revocations : checkRevocations c state.revocations = .ok ()

theorem verifyCredential_ok_iff {now : Int} :
    verifyCredential verify state c now true = .ok () ↔
      Genuine verify state c ∧ now < c.expiresAt.instant := by
  unfold verifyCredential
  constructor
  · intro h
    split at h
    · cases h
    rename_i hfields
    simp only [not_or, Decidable.not_not] at hfields
    split at h
    · cases h
    rename_i key hkey
    split at h
    · cases h
    rename_i payload hp
    obtain ⟨hchecked, hp⟩ := Credential.checked_of_signingPayload hp
    split at h
    · cases h
    rename_i hs
    simp only [not_or, Decidable.not_not] at hs
    split at h
    · cases h
    rename_i hid
    split at h
    · cases h
    rename_i hnow
    rw [if_pos rfl] at h
    exact ⟨⟨hchecked, hfields.1, ⟨key, hkey, hp ▸ hs.2⟩, hs.1,
      Decidable.not_not.mp hid, h⟩, Decidable.not_not.mp hnow⟩
  · intro hall
    obtain ⟨hg, hnow⟩ := hall
    obtain ⟨key, hkey, hverify⟩ := hg.key
    have hid : ∀ {id : Text}, validRandomId id = true → id ≠ [] := by
      intro id hid h
      rw [h] at hid
      cases hid
    have hc := hg.checked
    rw [if_neg (by
      simp [hg.version, hc.agentId_ne, hid hc.credentialId, hid hc.keyId, hc.issuedAt,
        hc.expiresAt, hc.ordered])]
    simp only [hkey, hc.signingPayload]
    rw [if_neg (by simp [hg.signature, hverify]), if_neg (by simp [hg.identity]),
      if_neg (by simp [hnow]), if_pos trivial, hg.revocations]

theorem identityVerify_ok_iff {now : Int} :
    identityVerify verify state c now = .ok c ↔
      Genuine verify state c ∧ now < c.expiresAt.instant := by
  unfold identityVerify parseCredential
  constructor
  · intro h
    split at h
    · cases h
    rename_i c' hp
    split at hp
    · cases hp
    split at hp
    · cases hp
    cases hp
    split at h
    · cases h
    · rename_i hv
      exact verifyCredential_ok_iff.mp hv
  · intro h
    simp only [h.1.checked.signingPayload, h.1.signature, ne_eq, not_true, if_false,
      verifyCredential_ok_iff.mpr h]

/-! ## Expiry against the signed original -/

/-- The credentials the Server has signed, and that nobody else can sign. -/
structure Issued (verify : Verify) (state : State) (issued : Credential → Prop) : Prop where
  checked : ∀ a, issued a → a.Checked
  signature_length : ∀ a, issued a → a.signature.length = signatureSize
  signature : ∀ a key, issued a → state.signingKey? a.keyId = some key →
    verify key.publicKey a.payloadBytes a.signature = true
  unforgeable : ∀ id key m s, state.signingKey? id = some key →
    verify key.publicKey m s = true → ∃ a, issued a ∧ a.payloadBytes = m

theorem Genuine.of_payload (hc : Genuine verify state c) (ha : a.Checked)
    (hp : a.payloadBytes = c.payloadBytes) (hlen : a.signature.length = signatureSize)
    (hsig : ∀ key, state.signingKey? a.keyId = some key → verify key.publicKey a.payloadBytes a.signature = true) :
    Genuine verify state a := by
  obtain ⟨ht, -, -⟩ := (Credential.payloadBytes_eq_iff ha hc.checked).mp hp
  obtain ⟨key, hkey, -⟩ := hc.key
  have hkey : state.signingKey? a.keyId = some key := by rw [ht.keyId, hkey]
  exact ⟨ha, ht.version.trans hc.version, ⟨key, hkey, hsig key hkey⟩, hlen,
    ht.serverIdentityId.trans hc.identity, (checkRevocations_congr ht _).trans hc.revocations⟩

theorem Genuine.extend (ha : Genuine verify state a) : ∃ c : Credential, Genuine verify state c ∧
      c.payloadBytes = a.payloadBytes ∧
      c.expiresAt.instant = lastAlias a.expiresAt.instant := by
  have hle := le_lastAlias (Int.ModEq.refl a.expiresAt.instant) a.expiresAt.le_latest
  obtain ⟨t, ht⟩ := exists_instant (a.expiresAt.earliest_le.trans hle)
    (lastAlias_le _)
  have hlate := latest_lt_lastAlias a.expiresAt.instant
  have hc : Credential.Checked { a with expiresAt := t } :=
    { ha.checked with
      expiresAt := by
        simp only [isZero, ht, decide_eq_false_iff_not]
        simp only [latest, second] at *
        omega
      ordered := by
        have := ha.checked.ordered
        simp only [ht]
        omega }
  have hp : Credential.payloadBytes { a with expiresAt := t } = a.payloadBytes :=
    (Credential.payloadBytes_eq_iff hc ha.checked).mpr
      ⟨⟨rfl, rfl, rfl, rfl, rfl⟩, Int.ModEq.refl _, ht ▸ lastAlias_modEq _⟩
  refine ⟨_, ha.of_payload hc hp ha.signature ?_, hp, ht⟩
  intro key hkey
  obtain ⟨key', hkey', hv⟩ := ha.key
  rw [hkey', Option.some.injEq] at hkey
  rw [hp, ← hkey]
  exact hv

/-- No credential is accepted at `now` under the signature of one that has expired by then. -/
def NeverOutlives (verify : Verify) (state : State) (issued : Credential → Prop) (now : Int) :
    Prop :=
  ∀ c, identityVerify verify state c now = .ok c →
    (∃ a, issued a ∧ a.payloadBytes = c.payloadBytes) ∧
    ∀ a, issued a → a.payloadBytes = c.payloadBytes → now < a.expiresAt.instant

/-- The payload binds the texts and the residues of the two times. It binds the times themselves
among those of the years 1677 to 2262. A signature outlives its expiry exactly if some genuine
credential has expired and a later instant with its nanosecond count has not passed. -/
theorem neverOutlives_iff {verify : Verify} {state : State} {issued : Credential → Prop}
    (hissued : Issued verify state issued) (now : Int) :
    (∀ a b : Credential, a.Checked → b.Checked → (a.signingPayload = b.signingPayload ↔
      a.SameText b ∧ a.issuedAt.instant ≡ b.issuedAt.instant [ZMOD 2 ^ 64] ∧
        a.expiresAt.instant ≡ b.expiresAt.instant [ZMOD 2 ^ 64])) ∧
    (∀ a b : Credential, a.Checked → b.Checked →
      a.issuedAt.InRange → a.expiresAt.InRange → b.issuedAt.InRange → b.expiresAt.InRange →
      a.signingPayload = b.signingPayload → a.SameFields b) ∧
    (NeverOutlives verify state issued now ↔ ∀ a, issued a → Genuine verify state a →
      now < a.expiresAt.instant ∨ JsonTime.lastAlias a.expiresAt.instant ≤ now) := by
  have hpayload : ∀ a b : Credential, a.Checked → b.Checked →
      (a.signingPayload = b.signingPayload ↔ a.payloadBytes = b.payloadBytes) := by
    intro a b ha hb
    rw [ha.signingPayload, hb.signingPayload, Except.ok.injEq]
  refine ⟨?_, ?_, ?_⟩
  · intro a b ha hb
    rw [hpayload a b ha hb, Credential.payloadBytes_eq_iff ha hb]
  · intro a b ha hb hai hae hbi hbe h
    rw [hpayload a b ha hb, Credential.payloadBytes_eq_iff ha hb] at h
    exact ⟨h.1, hai.eq_of_modEq hbi h.2.1, hae.eq_of_modEq hbe h.2.2⟩
  constructor
  · intro h a hia hga
    by_cases hnow : JsonTime.lastAlias a.expiresAt.instant ≤ now
    · exact .inr hnow
    obtain ⟨c, hgc, hp, hexp⟩ := hga.extend
    have hok : identityVerify verify state c now = .ok c :=
      identityVerify_ok_iff.mpr ⟨hgc, by omega⟩
    exact .inl ((h c hok).2 a hia hp.symm)
  intro h c hok
  obtain ⟨hgc, hnow⟩ := identityVerify_ok_iff.mp hok
  obtain ⟨key, hkey, hv⟩ := hgc.key
  refine ⟨hissued.unforgeable _ key _ _ hkey hv, ?_⟩
  intro a hia hp
  have hga : Genuine verify state a := hgc.of_payload (hissued.checked a hia) hp
    (hissued.signature_length a hia) fun key => hissued.signature a key hia
  rcases h a hia hga with hlt | hle
  · exact hlt
  -- the accepted expiry is one of the aliases, so it cannot lie behind the last one
  have hmod := ((Credential.payloadBytes_eq_iff hgc.checked hga.checked).mp hp.symm).2.2
  have := JsonTime.le_lastAlias hmod c.expiresAt.le_latest
  omega

/-! ## One issued credential -/

def winterCredential : Credential where
  version := 1
  serverIdentityId := List.replicate 32 97
  agentId := text "agent"
  credentialId := List.replicate 32 98
  keyId := List.replicate 32 99
  issuedAt := ⟨1767225600 * second, 0, by decide, by decide, by decide, by decide⟩
  expiresAt := ⟨1775001600 * second, 0, by decide, by decide, by decide, by decide⟩
  signature := List.replicate 64 0

def winterState : State where
  serverIdentityId := List.replicate 32 97
  currentKeyId := List.replicate 32 99
  signingKeys := [⟨List.replicate 32 99, []⟩]
  revocations := []

def winterVerify : Verify := fun _ message _ => message = winterCredential.payloadBytes

theorem winter_issued : Issued winterVerify winterState (· = winterCredential) where
  checked := by
    intro a ha
    rw [ha]
    exact Credential.fieldsValid_iff.mp (by decide +kernel)
  signature_length := by
    intro a ha
    rw [ha]
    rfl
  signature := by
    intro a key ha _
    simp [winterVerify, ha]
  unforgeable := by
    intro _ _ m _ _ h
    exact ⟨_, rfl, (of_decide_eq_true h).symm⟩

/-- One second before the expiry no accepted credential has an expired original. -/
theorem winter_neverOutlives :
    NeverOutlives winterVerify winterState (· = winterCredential) (1775001599 * second) := by
  refine (neverOutlives_iff winter_issued (1775001599 * second)).2.2.mpr ?_
  intro a ha _
  rw [ha]
  exact .inl (by decide)

/-- The same signature with an expiry `2 ^ 64` nanoseconds later is accepted at the moment the
original expires. -/
theorem winter_revived :
    let revived := { winterCredential with
      expiresAt := ⟨1775001600 * second + 2 ^ 64, 0, by decide, by decide, by decide, by decide⟩ }
    revived.signingPayload = winterCredential.signingPayload ∧
    revived.expiresAt.instant ≠ winterCredential.expiresAt.instant ∧
    identityVerify winterVerify winterState winterCredential winterCredential.expiresAt.instant =
      .error .expiredCredential ∧
    identityVerify winterVerify winterState revived winterCredential.expiresAt.instant =
      .ok revived := by
  decide +kernel

end DockLattice.Identity
