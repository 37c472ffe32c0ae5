import DockLattice.Lib.Json
import DockLattice.Operation.Types

/-!
# DockLattice.Audit.Managed

The audit record of a terminal operation (`managedaudit/delivery.go`, `auditevents/codec.go`,
`auditgen/generator.go`) and its idempotency key (`auditevents/appender.go`, `auditwal/once.go`).
Everything but the operation ID, the resource ID and the project UID is of the engine's own making
and passes the checks (`managedPayload_isOk`).
-/

namespace DockLattice.Audit

open Bytes Operation List Json

variable {r : Record}

inductive AuditError where
  | invalidAudit (message : String)
  | invalidPayload (message : String)
  | onceConflict
  | invalidOnceKey
  deriving DecidableEq, Repr

/-! ## Signals and events -/

structure Signal where
  resourceType : Text
  resourceId : Text
  action : Text
  occurredAt : Time
  attributes : List (Text × Text)
  deriving DecidableEq, Repr

inductive EventKind where
  | managed | observed | eventStorm | continuityUncertain
  deriving DecidableEq, Repr

def EventKind.text : EventKind → Text
  | managed => DockLattice.text "MANAGED"
  | observed => DockLattice.text "OBSERVED"
  | eventStorm => DockLattice.text "EVENT_STORM"
  | continuityUncertain => DockLattice.text "AUDIT_CONTINUITY_UNCERTAIN"

structure Event where
  kind : EventKind
  resourceType : Text
  resourceId : Text
  action : Text
  actor : Text
  firstAt : Time
  lastAt : Time
  count : Nat
  attributes : List (Text × Text)
  deriving DecidableEq, Repr

structure Envelope where
  event : Event
  projectUid : Text
  operationId : Text
  previousIncarnation : Nat
  knownDurableThrough : Option Nat
  reason : Text
  deriving DecidableEq, Repr

def validateSignal (s : Signal) : Bool :=
  !s.resourceType.isEmpty && !s.resourceId.isEmpty && !s.action.isEmpty &&
    !s.resourceType.contains 0 && !s.resourceId.contains 0 && !s.action.contains 0

/-- `validateActor`, with `net.ParseIP` as a parameter. -/
def validateActor (isIP : Text → Bool) (actor : Text) : Bool :=
  if actor.isEmpty then true
  else if (text "ui:").isPrefixOf actor then isIP (actor.drop 3)
  else
    (text "webhook:").isPrefixOf actor && !(actor.drop 8).isEmpty && (actor.drop 8).length ≤ 128 &&
      !(actor.drop 8).any fun b => b = 0 || b = 0x0D || b = 0x0A

def managed (isIP : Text → Bool) (s : Signal) (actor : Text) : Except AuditError Event :=
  if !validateSignal s then .error (.invalidAudit "")
  else if !validateActor isIP actor then .error (.invalidAudit "actor is not representable")
  else if s.occurredAt.isZero then .error (.invalidAudit "managed event requires occurred_at")
  else
    .ok
      { kind := .managed
        resourceType := s.resourceType
        resourceId := s.resourceId
        action := s.action
        actor := actor
        firstAt := s.occurredAt
        lastAt := s.occurredAt
        count := 1
        attributes := s.attributes }

/-! ## The envelope's check -/

def maxPayloadBytes : Nat := 32 * 2 ^ 10

def maxResourceType : Nat := 64

def maxResourceId : Nat := 512

def maxAction : Nat := 128

def maxActor : Nat := 160

def maxProjectUid : Nat := 256

def maxOperationId : Nat := 256

def maxAttributes : Nat := 32

def maxAttributeKey : Nat := 128

def maxAttributeVal : Nat := 1024

def validText (value : Text) (maximum : Nat) (emptyAllowed : Bool) : Bool :=
  (emptyAllowed || !value.isEmpty) && value.length ≤ maximum && Utf8.valid value &&
    !value.contains 0

def Envelope.hasContinuityFields (e : Envelope) : Bool :=
  e.previousIncarnation != 0 || e.knownDurableThrough.isSome || !e.reason.isEmpty

def validateKind (isIP : Text → Bool) (e : Envelope) : Bool :=
  let event := e.event
  match event.kind with
  | .managed =>
    validText event.resourceId maxResourceId false && event.count == 1 &&
      event.firstAt == event.lastAt && !e.operationId.isEmpty && !e.hasContinuityFields &&
      (managed isIP ⟨event.resourceType, event.resourceId, event.action, event.firstAt,
        event.attributes⟩ event.actor).isOk
  | .observed =>
    event.actor.isEmpty && validText event.resourceId maxResourceId false &&
      e.projectUid.isEmpty && e.operationId.isEmpty && !e.hasContinuityFields
  | .eventStorm =>
    event.resourceType == text "docker" && event.resourceId.isEmpty &&
      event.action == text "event_storm" && event.actor.isEmpty && e.projectUid.isEmpty &&
      e.operationId.isEmpty && !e.hasContinuityFields
  | .continuityUncertain =>
    event.resourceType == text "audit" && event.resourceId.isEmpty &&
      event.action == text "continuity_uncertain" && event.actor.isEmpty && event.count == 1 &&
      event.firstAt == event.lastAt && event.attributes.isEmpty && e.projectUid.isEmpty &&
      e.operationId.isEmpty && e.previousIncarnation != 0 &&
      e.reason == text "UNCLEAN_SHUTDOWN"

def validateEnvelope (isIP : Text → Bool) (e : Envelope) : Bool :=
  let event := e.event
  validText event.resourceType maxResourceType false && validText event.action maxAction false &&
    validText event.actor maxActor true && !event.firstAt.isZero && !event.lastAt.isZero &&
    !(event.lastAt < event.firstAt) && event.count != 0 &&
    validText e.projectUid maxProjectUid true && validText e.operationId maxOperationId true &&
    validateKind isIP e && event.attributes.length ≤ maxAttributes &&
    event.attributes.all fun a =>
      validText a.1 maxAttributeKey false && validText a.2 maxAttributeVal true

/-! ## The payload -/

def omitEmpty (key value : Text) : List (Text × Text) :=
  if value.isEmpty then [] else [(key, Json.quote value)]

/-- The fields of the payload in the order of the source's struct. The attributes are written in
the order of their keys. -/
def Envelope.fields (e : Envelope) : List (Text × Text) :=
  let event := e.event
  [(text "version", Json.decimal 1), (text "kind", Json.quote event.kind.text),
    (text "resource_type", Json.quote event.resourceType)] ++
  omitEmpty (text "resource_id") event.resourceId ++
  [(text "action", Json.quote event.action)] ++
  omitEmpty (text "actor") event.actor ++
  omitEmpty (text "project_uid") e.projectUid ++
  omitEmpty (text "operation_id") e.operationId ++
  [(text "first_at", Json.quote (Json.rfc3339Nano event.firstAt)), (text "last_at",
    Json.quote (Json.rfc3339Nano event.lastAt)), (text "count", Json.decimal event.count)] ++
  (if event.attributes.isEmpty then []
    else [(text "attributes", Json.object (event.attributes.map fun a => (a.1, Json.quote a.2)))]) ++
  (if e.previousIncarnation = 0 then []
    else [(text "previous_incarnation", Json.decimal e.previousIncarnation)]) ++
  (match e.knownDurableThrough with
    | none => []
    | some n => [(text "known_durable_through", Json.decimal n)]) ++
  omitEmpty (text "reason") e.reason

def encodeEnvelope (isIP : Text → Bool) (e : Envelope) : Except AuditError Text :=
  if !validateEnvelope isIP e then .error (.invalidPayload "")
  else if !(Json.writableTime e.event.firstAt && Json.writableTime e.event.lastAt) then
    .error (.invalidPayload "encode")
  else
    let encoded := Json.object e.fields
    if maxPayloadBytes < encoded.length then .error (.invalidPayload "payload exceeds 32768 bytes")
    else .ok encoded

/-! ## Terminal operations -/

def resourceByKind (r : Record) : Text × Text × Text :=
  if r.kind.isContainerOperation then (text "container", r.target, [])
  else if r.kind == .discoveryRescan then (text "agent", text "discovery", [])
  else (text "project", r.projectKey, r.projectKey)

def resourceFor (r : Record) : (Text × Text) × Text :=
  let resource := resourceByKind r
  if resource.2.1.isEmpty then ((text "operation", r.operationId), resource.2.2)
  else ((resource.1, resource.2.1), resource.2.2)

def formatBool (b : Bool) : Text := if b then text "true" else text "false"

def attributesFor (r : Record) : List (Text × Text) :=
  (match r.cancelReason with
    | none => []
    | some reason => [(text "cancel_reason", reason.text)]) ++
  [(text "partial_effects_possible", formatBool r.partialEffectsPossible), (text "phase",
    r.phase.text), (text "revision", Json.decimal r.revision), (text "status", r.status.text)]

def signalFor (r : Record) : Signal × Text :=
  ({ resourceType := (resourceFor r).1.1
     resourceId := (resourceFor r).1.2
     action := r.kind.text
     occurredAt := r.finishedAt
     attributes := attributesFor r }, (resourceFor r).2)

def managedPayload (isIP : Text → Bool) (r : Record) : Except AuditError Text :=
  match managed isIP (signalFor r).1 [] with
  | .error e => .error e
  | .ok event => encodeEnvelope isIP ⟨event, (signalFor r).2, r.operationId, 0, none, []⟩

def managedOnceKey (operationId : Text) : Text := text "managed-operation:" ++ operationId

def onceKeyMaxBytes : Nat := 512

def validOnceKey (key : Text) : Bool :=
  !key.isEmpty && key.length ≤ onceKeyMaxBytes && Utf8.valid key &&
    !key.any fun b => b = 0 || b = 0x0D || b = 0x0A

/-! ## What the checks come down to -/

theorem validText_iff {value : Text} {maximum : Nat} {emptyAllowed : Bool} :
    validText value maximum emptyAllowed = true ↔
      (emptyAllowed = true ∨ value ≠ []) ∧ value.length ≤ maximum ∧ Utf8.valid value = true ∧
        0 ∉ value := by
  simp [validText, and_assoc]

structure Auditable (r : Record) : Prop where
  operationId : validText r.operationId maxOperationId false = true
  resourceId : validText (resourceFor r).1.2 maxResourceId false = true
  projectUid : validText (resourceFor r).2 maxProjectUid true = true

/-- A record the engine has ended: with a time that can be written, and a counter of 64 bits. -/
structure Ended (r : Record) : Prop where
  terminal : r.status.terminal = true
  finished : r.finishedAt ≠ zeroTime
  writable : Json.writableTime r.finishedAt = true
  revision : r.revision < 2 ^ 64

section Resource

theorem resourceFor_container (hc : r.kind.isContainerOperation = true) (ht : r.target ≠ []) :
    resourceFor r = ((text "container", r.target), []) := by
  have hte : r.target.isEmpty = false := isEmpty_eq_false_iff.mpr ht
  simp only [resourceFor, resourceByKind, hc, hte, if_true, Bool.false_eq_true, if_false]

theorem resourceFor_container_nil (hc : r.kind.isContainerOperation = true) (ht : r.target = []) :
    resourceFor r = ((text "operation", r.operationId), []) := by
  simp only [resourceFor, resourceByKind, hc, ht, if_true, isEmpty_nil]

theorem resourceFor_rescan (hk : r.kind = .discoveryRescan) :
    resourceFor r = ((text "agent", text "discovery"), []) := by
  have hne : (text "discovery").isEmpty = false := by decide +kernel
  simp only [resourceFor, resourceByKind, hk, Kind.isContainerOperation, beq_self_eq_true, hne,
    if_true, Bool.false_eq_true, if_false]

theorem resourceFor_project (hc : r.kind.isContainerOperation = false)
    (hk : (r.kind == .discoveryRescan) = false) (hp : r.projectKey ≠ []) :
    resourceFor r = ((text "project", r.projectKey), r.projectKey) := by
  have hpe : r.projectKey.isEmpty = false := isEmpty_eq_false_iff.mpr hp
  simp only [resourceFor, resourceByKind, hc, hk, hpe, Bool.false_eq_true, if_false]

theorem resourceFor_project_nil (hc : r.kind.isContainerOperation = false)
    (hk : (r.kind == .discoveryRescan) = false) (hp : r.projectKey = []) :
    resourceFor r = ((text "operation", r.operationId), []) := by
  simp only [resourceFor, resourceByKind, hc, hk, hp, Bool.false_eq_true, if_false,
    isEmpty_nil, if_true]

end Resource

theorem kind_text_fits (k : Kind) :
    validText k.text maxAction false = true ∧ k.text.length ≤ 18 := by
  cases k <;> decide +kernel

theorem resourceType_fits (r : Record) :
    validText (resourceFor r).1.1 maxResourceType false = true ∧
      (resourceFor r).1.1.length ≤ 9 := by
  have hall : ∀ t ∈ [text "container", text "agent", text "project", text "operation"],
      validText t maxResourceType false = true ∧ t.length ≤ 9 := by
    decide +kernel
  refine hall _ ?_
  unfold resourceFor
  dsimp only
  split
  · simp
  · unfold resourceByKind
    repeat' split
    all_goals simp

theorem valid_decimal (n : Nat) : Utf8.valid (decimal n) = true ∧ 0 ∉ decimal n := by
  refine ⟨Utf8.valid_of_ascii fun b hb => ?_, fun h => ?_⟩
  · exact UInt8.le_trans (decimal_ascii n b hb).2 (by decide)
  · exact absurd (decimal_ascii n 0 h).1 (by decide)

theorem attributesFor_fits (hr : r.revision < 2 ^ 64) :
    (attributesFor r).length ≤ 5 ∧ ∀ a ∈ attributesFor r,
      validText a.1 24 false = true ∧ validText a.2 20 true = true := by
  have hstatus : ∀ s : Status, validText s.text 20 true = true := by
    intro s
    cases s <;> decide +kernel
  have hphase : ∀ p : Phase, validText p.text 20 true = true := by
    intro p
    cases p <;> decide +kernel
  have hreason : ∀ c : CancelReason, validText c.text 20 true = true := by
    intro c
    cases c <;> decide +kernel
  have hbool : ∀ b, validText (formatBool b) 20 true = true := by decide +kernel
  have hrevision : validText (decimal r.revision) 20 true = true := by
    rw [validText_iff]
    exact ⟨.inl rfl, length_decimal_le (by decide) (by omega), valid_decimal _⟩
  have hkeys : ∀ k ∈ [text "cancel_reason", text "partial_effects_possible", text "phase",
      text "revision", text "status"], validText k 24 false = true := by
    decide +kernel
  constructor
  · unfold attributesFor
    split <;> simp
  intro a ha
  simp only [attributesFor, mem_append, mem_cons, not_mem_nil, or_false] at ha
  rcases ha with ha | rfl | rfl | rfl | rfl
  · split at ha
    · cases ha
    · rw [mem_singleton.mp ha]
      exact ⟨hkeys _ (by simp), hreason _⟩
  · exact ⟨hkeys _ (by simp), hbool _⟩
  · exact ⟨hkeys _ (by simp), hphase _⟩
  · exact ⟨hkeys _ (by simp), hrevision⟩
  · exact ⟨hkeys _ (by simp), hstatus _⟩

theorem validText_mono {value : Text} {m m' : Nat} {e e' : Bool} (hm : m ≤ m')
    (he : e = true → e' = true) (h : validText value m e = true) :
    validText value m' e' = true := by
  rw [validText_iff] at *
  exact ⟨h.1.imp he id, Nat.le_trans h.2.1 hm, h.2.2⟩

/-- The event `Managed` makes of a terminal record, if its signal passes. -/
def managedEvent (r : Record) : Event where
  kind := .managed
  resourceType := (resourceFor r).1.1
  resourceId := (resourceFor r).1.2
  action := r.kind.text
  actor := []
  firstAt := r.finishedAt
  lastAt := r.finishedAt
  count := 1
  attributes := attributesFor r

def managedEnvelope (r : Record) : Envelope := ⟨managedEvent r, (resourceFor r).2, r.operationId,
  0, none, []⟩

theorem validateSignal_iff (r : Record) :
    validateSignal (signalFor r).1 = true ↔
      (resourceFor r).1.2 ≠ [] ∧ 0 ∉ (resourceFor r).1.2 := by
  have hk := validText_iff.mp (kind_text_fits r.kind).1
  have ht := validText_iff.mp (resourceType_fits r).1
  simp only [Bool.false_eq_true, false_or] at hk ht
  simp [validateSignal, signalFor, hk.1, hk.2.2.2, ht.1, ht.2.2.2]

theorem managed_signalFor (isIP : Text → Bool) (he : Ended r) :
    managed isIP (signalFor r).1 [] =
      if validateSignal (signalFor r).1 then .ok (managedEvent r) else .error (.invalidAudit "") := by
  have hz : (signalFor r).1.occurredAt.isZero = false := by
    rw [Bool.eq_false_iff, Ne, Time.isZero, beq_iff_eq]
    exact he.finished
  unfold managed
  by_cases hs : validateSignal (signalFor r).1 = true
  · simp only [hs, hz, validateActor]
    rfl
  · simp only [hs]
    rfl

theorem validateEnvelope_managed (isIP : Text → Bool) (he : Ended r) :
    validateEnvelope isIP (managedEnvelope r) = true ↔ Auditable r := by
  have hz : r.finishedAt.isZero = false := by
    rw [Bool.eq_false_iff, Ne, Time.isZero, beq_iff_eq]
    exact he.finished
  have hcount := (attributesFor_fits he.revision).1
  have hattributes : ((attributesFor r).all fun a =>
      validText a.1 maxAttributeKey false && validText a.2 maxAttributeVal true) = true := by
    rw [all_eq_true]
    intro a ha
    obtain ⟨h₁, h₂⟩ := (attributesFor_fits he.revision).2 a ha
    rw [Bool.and_eq_true]
    exact ⟨validText_mono (by decide) id h₁, validText_mono (by decide) id h₂⟩
  have hlen : (attributesFor r).length ≤ maxAttributes := Nat.le_trans hcount (by decide)
  have hactor : validText [] maxActor true = true := by decide
  have hmanaged := managed_signalFor isIP he
  simp only [signalFor] at hmanaged
  simp only [validateEnvelope, validateKind, managedEnvelope, managedEvent, hz, hattributes, hlen,
    hactor, (kind_text_fits r.kind).1, (resourceType_fits r).1, Envelope.hasContinuityFields,
    hmanaged]
  constructor
  · intro h
    simp only [Bool.and_eq_true, Bool.not_eq_true', isEmpty_eq_false_iff] at h
    obtain ⟨⟨⟨⟨⟨-, hproject⟩, hoperation⟩, hkind⟩, -⟩, -⟩ := h
    obtain ⟨⟨⟨⟨⟨hresource, -⟩, -⟩, hne⟩, -⟩, -⟩ := hkind
    rw [validText_iff] at hoperation
    exact ⟨validText_iff.mpr ⟨.inr hne, hoperation.2⟩, hresource, hproject⟩
  · intro h
    have hop := validText_iff.mp h.operationId
    have hres := validText_iff.mp h.resourceId
    simp only [Bool.false_eq_true, false_or] at hop hres
    have hsig := (validateSignal_iff r).mpr ⟨hres.1, hres.2.2.2⟩
    simp only [signalFor] at hsig
    have hoperation : validText r.operationId maxOperationId true = true :=
      validText_mono (Nat.le_refl _) (fun _ => rfl) h.operationId
    simp [hsig, h.resourceId, h.projectUid, hoperation, hop.1, Except.isOk, Except.toBool]

theorem length_managedEnvelope_le (he : Ended r) (h : Auditable r) :
    (object (managedEnvelope r).fields).length ≤ maxPayloadBytes := by
  have hresource := (validText_iff.mp h.resourceId).2.1
  have hproject := (validText_iff.mp h.projectUid).2.1
  have hoperation := (validText_iff.mp h.operationId).2.1
  have hattributes : (object ((attributesFor r).map fun a =>
      (a.1, quote a.2))).length ≤ 1352 := by
    refine Nat.le_trans (length_object_le _) ?_
    obtain ⟨hcount, hfits⟩ := attributesFor_fits he.revision
    unfold fieldsSize
    rw [map_map]
    have hsize := sum_le_card_nsmul _ 270 (forall_mem_map.mpr fun a ha => by
      have hkey := (validText_iff.mp (hfits a ha).1).2.1
      have hvalue := (validText_iff.mp (hfits a ha).2).2.1
      have hq := length_quote_le a.2
      show 6 * a.1.length + (quote a.2).length + 4 ≤ 270
      omega)
    rw [length_map, smul_eq_mul] at hsize
    dsimp only [Function.comp_def]
    omega
  have homit : ∀ key value, fieldsSize (omitEmpty key value) ≤
      6 * key.length + 6 * value.length + 6 := by
    intro key value
    unfold omitEmpty
    have := length_quote_le value
    split
    · simp
    · simp only [fieldsSize_cons, fieldsSize_nil]
      omega
  have hkeys : ∀ k ∈ [text "version", text "kind", text "resource_type", text "resource_id",
      text "action", text "actor", text "project_uid", text "operation_id", text "first_at",
      text "last_at", text "count", text "attributes", text "reason"], k.length ≤ 13 := by
    decide +kernel
  simp only [forall_mem_cons] at hkeys
  obtain ⟨k₁, k₂, k₃, k₄, k₅, k₆, k₇, k₈, k₉, k₁₀, k₁₁, k₁₂, k₁₃, -⟩ := hkeys
  have hone : (decimal 1).length ≤ 1 := by decide +kernel
  have hkind : (quote EventKind.managed.text).length ≤ 9 := by decide +kernel
  have htype := length_quote_le (resourceFor r).1.1
  have htypeLength := (resourceType_fits r).2
  have haction := length_quote_le r.kind.text
  have hactionLength := (kind_text_fits r.kind).2
  have htime := length_quote_le (rfc3339Nano r.finishedAt)
  have htimeLength := length_rfc3339Nano_le r.finishedAt
  have o₁ := homit (text "resource_id") (resourceFor r).1.2
  have o₂ := homit (text "actor") []
  have o₃ := homit (text "project_uid") (resourceFor r).2
  have o₄ := homit (text "operation_id") r.operationId
  have o₅ := homit (text "reason") []
  have hne : (attributesFor r).isEmpty = false := by
    rw [isEmpty_eq_false_iff]
    simp [attributesFor]
  refine Nat.le_trans (length_object_le _) ?_
  simp only [Envelope.fields, managedEnvelope, managedEvent, hne, fieldsSize_append,
    fieldsSize_cons, fieldsSize_nil, Bool.false_eq_true, if_false, if_true,
    length_nil, maxResourceId, maxProjectUid, maxOperationId, maxPayloadBytes] at *
  omega

theorem managedPayload_isOk (isIP : Text → Bool) (he : Ended r) :
    (managedPayload isIP r).isOk = true ↔ Auditable r := by
  unfold managedPayload
  rw [managed_signalFor isIP he]
  by_cases hs : validateSignal (signalFor r).1 = true
  · simp only [hs, if_true]
    have henv : (⟨managedEvent r, (signalFor r).2, r.operationId, 0, none, []⟩ : Envelope) =
        managedEnvelope r := rfl
    rw [henv, ← validateEnvelope_managed isIP he]
    unfold encodeEnvelope
    by_cases hv : validateEnvelope isIP (managedEnvelope r) = true
    · have hlen := length_managedEnvelope_le he ((validateEnvelope_managed isIP he).mp hv)
      have hw : (writableTime (managedEnvelope r).event.firstAt &&
          writableTime (managedEnvelope r).event.lastAt) = true := by
        rw [Bool.and_eq_true]
        exact ⟨he.writable, he.writable⟩
      have hshort : ¬ maxPayloadBytes < (object (managedEnvelope r).fields).length :=
        Nat.not_lt.mpr hlen
      simp [hv, hw, hshort, Except.isOk, Except.toBool]
    · simp [hv, Except.isOk, Except.toBool]
  · simp only [hs, Bool.false_eq_true, if_false]
    constructor
    · intro h
      cases h
    intro h
    have hres := validText_iff.mp h.resourceId
    simp only [Bool.false_eq_true, false_or] at hres
    exact absurd ((validateSignal_iff r).mpr ⟨hres.1, hres.2.2.2⟩) hs

theorem validOnceKey_iff {operationId : Text} (hlen : operationId.length ≤ maxOperationId) :
    validOnceKey (managedOnceKey operationId) = true ↔
      Utf8.valid operationId = true ∧ ∀ b ∈ operationId, b ≠ 0 ∧ b ≠ 0x0D ∧ b ≠ 0x0A := by
  have hprefix : Utf8.valid (text "managed-operation:") = true := by decide +kernel
  have hclean : (text "managed-operation:").any (fun b => b = 0 || b = 0x0D || b = 0x0A) = false :=
    by decide +kernel
  have hlength : (text "managed-operation:").length = 18 := by decide +kernel
  have hne : (text "managed-operation:" ++ operationId).isEmpty = false := by
    rw [isEmpty_eq_false_iff]
    intro h
    have := congrArg List.length h
    simp [hlength] at this
  have hshort : (text "managed-operation:" ++ operationId).length ≤ onceKeyMaxBytes := by
    simp only [length_append, hlength, onceKeyMaxBytes, maxOperationId] at *
    omega
  have hvalid : Utf8.valid (text "managed-operation:" ++ operationId) = Utf8.valid operationId := by
    rw [Bool.eq_iff_iff, Utf8.valid_iff, Utf8.valid_iff, Utf8.scan_append_of_valid hprefix]
  simp only [validOnceKey, managedOnceKey, hne, hshort, hvalid, any_append, hclean,
    Bool.not_false, decide_true, Bool.true_and, Bool.false_or, Bool.and_eq_true]
  simp [and_assoc]

end DockLattice.Audit
