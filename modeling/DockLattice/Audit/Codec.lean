import DockLattice.Audit.Managed
import DockLattice.Lib.Keyed

/-!
# DockLattice.Audit.Codec

`EncodeEnvelope` and `Decode` (`auditevents/codec.go`) over `encoding/json`, of which the model has
what `Decode` takes from it. What was written is read back; what was read can be written again
exactly if its times can be and it is not too long by then (`recodes_iff`): raw HTML characters grow
when they are written, and a time with an offset may be of another year in UTC.
-/

namespace DockLattice.Audit

open Bytes Operation List Keyed

variable {e : Envelope} {encoded : Text} {isIP : Text → Bool}

/-- What a JSON text stands for: `uint` is a number of 64 bits, `scalar` any other number or a
boolean, and a string comes with what stood between its quotes. -/
inductive Value where
  | null
  | uint (n : Nat)
  | string (s raw : Text)
  | scalar
  | array (items : List Value)
  | object (members : List (Text × Value))

mutual

/-- `scanJSONValue`: no object has a key twice. -/
def Value.distinct : Value → Bool
  | .array items => distinctItems items
  | .object members => decide (members.map Prod.fst).Nodup && distinctMembers members
  | _ => true

def distinctItems : List Value → Bool
  | [] => true
  | v :: items => v.distinct && distinctItems items

def distinctMembers : List (Text × Value) → Bool
  | [] => true
  | (_, v) :: members => v.distinct && distinctMembers members

end

/-- The parser, the comparison of keys without regard to case, and `Time.UnmarshalJSON`. -/
structure EncodingJson where
  parse : Text → Option Value
  equalFold : Text → Text → Bool
  time : Text → Option Time

structure Payload where
  version : Nat
  kind : Text
  resourceType : Text
  resourceId : Text
  action : Text
  actor : Text
  projectUid : Text
  operationId : Text
  firstAt : Time
  lastAt : Time
  count : Nat
  attributes : List (Text × Text)
  previousIncarnation : Nat
  knownDurableThrough : Option Nat
  reason : Text

def Payload.zero : Payload :=
  ⟨0, [], [], [], [], [], [], [], zeroTime, zeroTime, 0, [], 0, none, []⟩

/-! ## Decoding -/

def asText : Value → Option Text
  | .string s _ => some s
  | _ => none

def asUint : Value → Option Nat
  | .uint n => some n
  | _ => none

/-- `null` leaves what is there. -/
def orNull {α : Type} (read : Value → Option α) (old : α) : Value → Option α
  | .null => some old
  | v => read v

/-- Entries are added to the map that is there. -/
def asMap (old : List (Text × Text)) : Value → Option (List (Text × Text))
  | .object members =>
    (members.mapM fun m => (orNull asText [] m.2).map (m.1, ·)).map fun entries =>
      canonical Prod.fst (old ++ entries)
  | .null => some []
  | _ => none

variable (go : EncodingJson)

def asTime : Value → Option Time
  | .string _ raw => go.time raw
  | _ => none

def reads {α : Type} (read : Value → Option α) (get : Payload → α) (set : Payload → α → Payload)
    (p : Payload) (v : Value) : Option Payload :=
  (orNull read (get p) v).map (set p)

/-- A field of `payload`: its name and how it is read. -/
abbrev Field := Text × (Payload → Value → Option Payload)

def payloadFields : List Field :=
  [(text "version", reads asUint (·.version) ({ · with version := · })),
    (text "kind", reads asText (·.kind) ({ · with kind := · })),
    (text "resource_type", reads asText (·.resourceType) ({ · with resourceType := · })),
    (text "resource_id", reads asText (·.resourceId) ({ · with resourceId := · })),
    (text "action", reads asText (·.action) ({ · with action := · })),
    (text "actor", reads asText (·.actor) ({ · with actor := · })),
    (text "project_uid", reads asText (·.projectUid) ({ · with projectUid := · })),
    (text "operation_id", reads asText (·.operationId) ({ · with operationId := · })),
    (text "first_at", reads (asTime go) (·.firstAt) ({ · with firstAt := · })),
    (text "last_at", reads (asTime go) (·.lastAt) ({ · with lastAt := · })),
    (text "count", reads asUint (·.count) ({ · with count := · })),
    (text "attributes", fun p v => (asMap p.attributes v).map ({ p with attributes := · })),
    (text "previous_incarnation",
      reads asUint (·.previousIncarnation) ({ · with previousIncarnation := · })),
    (text "known_durable_through",
      reads (fun v => (asUint v).map some) (fun _ => none) ({ · with knownDurableThrough := · })),
    (text "reason", reads asText (·.reason) ({ · with reason := · }))]

/-- A key stands for the field of its name, or else for the first that is like it. -/
def readMember (p : Payload) (m : Text × Value) : Option Payload :=
  ((latest Prod.fst (payloadFields go) m.1).or
    ((payloadFields go).find? fun f => go.equalFold f.1 m.1)).bind fun f => f.2 p m.2

def readPayload : Value → Option Payload
  | .object members => members.foldlM (readMember go) .zero
  | .null => some .zero
  | _ => none

def kindOf (t : Text) : Option EventKind :=
  [.managed, .observed, .eventStorm, .continuityUncertain].find? (EventKind.text · = t)

def Payload.envelope (p : Payload) (kind : EventKind) : Envelope :=
  ⟨⟨kind, p.resourceType, p.resourceId, p.action, p.actor, p.firstAt, p.lastAt, p.count,
    p.attributes⟩, p.projectUid, p.operationId, p.previousIncarnation, p.knownDurableThrough,
    p.reason⟩

def decode (isIP : Text → Bool) (encoded : Text) : Except AuditError Envelope :=
  if encoded.isEmpty || maxPayloadBytes < encoded.length then
    .error (.invalidPayload "invalid payload size")
  else
    match go.parse encoded with
    | none => .error (.invalidPayload "invalid JSON")
    | some v =>
      if !v.distinct then .error (.invalidPayload "duplicate object key")
      else
        match readPayload go v with
        | none => .error (.invalidPayload "decode")
        | some p =>
          if p.version ≠ 1 then .error (.invalidPayload "unsupported version")
          else
            match kindOf p.kind with
            | none => .error (.invalidPayload "")
            | some kind =>
              if validateEnvelope isIP (p.envelope kind) then .ok (p.envelope kind)
              else .error (.invalidPayload "")

/-! ## What was written -/

def written (s : Text) : Value := .string s (Json.escape 0 s)

/-- The values `EncodeEnvelope` writes, with whether `omitempty` leaves one out. -/
def Envelope.values (e : Envelope) : List (Bool × Value) :=
  let event := e.event
  let omitempty (s : Text) := (s.isEmpty, written s)
  [(false, .uint 1), (false, written event.kind.text), (false, written event.resourceType),
    omitempty event.resourceId, (false, written event.action), omitempty event.actor,
    omitempty e.projectUid, omitempty e.operationId,
    (false, written (Json.rfc3339Nano event.firstAt)),
    (false, written (Json.rfc3339Nano event.lastAt)), (false, .uint event.count),
    (event.attributes.isEmpty, .object (event.attributes.map fun a => (a.1, written a.2))),
    (e.previousIncarnation == 0, .uint e.previousIncarnation),
    (e.knownDurableThrough.isNone, (e.knownDurableThrough.map Value.uint).getD .null),
    omitempty e.reason]

def membersOf (entries : List (Text × Bool × Value)) : List (Text × Value) :=
  (entries.filter (!·.2.1)).map fun m => (m.1, m.2.2)

def Envelope.value (e : Envelope) : Value :=
  .object (membersOf (((payloadFields go).map Prod.fst).zip e.values))

/-- The times are of years that can be written. -/
def Envelope.writable (e : Envelope) : Bool :=
  Json.writableTime e.event.firstAt && Json.writableTime e.event.lastAt

/-- `encoding/json` reads what it wrote for the envelope. -/
structure ReadsBack (e : Envelope) : Prop where
  parse : go.parse (Json.object e.fields) = some (e.value go)
  firstAt : go.time (Json.escape 0 (Json.rfc3339Nano e.event.firstAt)) = some e.event.firstAt
  lastAt : go.time (Json.escape 0 (Json.rfc3339Nano e.event.lastAt)) = some e.event.lastAt

theorem names_nodup : ((payloadFields go).map Prod.fst).Nodup := by
  simp only [payloadFields, map_cons, map_nil]
  decide +kernel

variable {go}

theorem distinctMembers_iff {members : List (Text × Value)} :
    distinctMembers members = true ↔ ∀ m ∈ members, m.2.distinct = true := by
  induction members with
  | nil => simp [distinctMembers]
  | cons m members ih => simp [distinctMembers, ih]

theorem value_distinct (hmap : Strict Prod.fst e.event.attributes) :
    (e.value go).distinct = true := by
  have hnames : (((payloadFields go).map Prod.fst).zip e.values).map Prod.fst =
      (payloadFields go).map Prod.fst := rfl
  have hattributes : (Value.object (e.event.attributes.map fun a =>
      (a.1, written a.2))).distinct = true := by
    have hfst : (e.event.attributes.map fun a => (a.1, written a.2)).map Prod.fst =
        e.event.attributes.map Prod.fst := by simp
    simp only [Value.distinct, hfst, hmap.nodup, decide_true, Bool.true_and, distinctMembers_iff,
      forall_mem_map]
    exact fun _ _ => rfl
  have hvalues : ∀ m ∈ e.values, m.2.distinct = true := by
    simp only [Envelope.values, forall_mem_cons, hattributes]
    cases e.knownDurableThrough <;> simp [written, Value.distinct]
  simp only [Envelope.value, Value.distinct, membersOf, map_map, distinctMembers_iff,
    Bool.and_eq_true, decide_eq_true_eq, forall_mem_map]
  exact ⟨(hnames ▸ names_nodup go).sublist (filter_sublist.map _), fun m hm =>
    hvalues _ (of_mem_zip (mem_of_mem_filter hm)).2⟩

def Envelope.payload (e : Envelope) : Payload :=
  ⟨1, e.event.kind.text, e.event.resourceType, e.event.resourceId, e.event.action, e.event.actor,
    e.projectUid, e.operationId, e.event.firstAt, e.event.lastAt, e.event.count,
    e.event.attributes, e.previousIncarnation, e.knownDurableThrough, e.reason⟩

/-- One field read: one that was left out has the value that is there already. -/
theorem read_cons {p q : Payload} {f : Field} {out : Bool} {v : Value} {fields : List Field}
    {values : List (Bool × Value)} (hread : f.2 p v = some q)
    (hf : f ∈ payloadFields go := by simp [payloadFields])
    (hout : out = true → q = p := by simp_all [Payload.zero]) :
    (membersOf (((f :: fields).map Prod.fst).zip ((out, v) :: values))).foldlM (readMember go) p =
      (membersOf ((fields.map Prod.fst).zip values)).foldlM (readMember go) q := by
  cases out with
  | true =>
    rw [hout rfl]
    rfl
  | false =>
    simp only [membersOf, map_cons, zip_cons_cons, filter_cons, Bool.not_false, if_true,
      foldlM_cons, readMember, latest_of_nodup (names_nodup go) hf, Option.some_or,
      Option.bind_some, hread, Option.bind_eq_bind]

theorem asMap_written {attributes : List (Text × Text)} (hmap : Strict Prod.fst attributes) :
    asMap [] (.object (attributes.map fun a => (a.1, written a.2))) = some attributes := by
  have hread : (attributes.map fun a => (a.1, written a.2)).mapM (fun m =>
      (orNull asText [] m.2).map (m.1, ·)) = some attributes := by
    induction attributes with
    | nil => rfl
    | cons a attributes ih =>
      rw [map_cons, mapM_cons, ih hmap.of_cons]
      rfl
  simp only [asMap, hread, Option.map_some, nil_append, canonical_of_strict hmap]

theorem readPayload_value (hgo : ReadsBack go e) (hmap : Strict Prod.fst e.event.attributes) :
    readPayload go (e.value go) = some e.payload := by
  have hthrough : ∀ n : Option Nat, orNull (fun v => (asUint v).map some) none
      ((n.map Value.uint).getD .null) = some n := by
    intro n
    cases n <;> rfl
  show (membersOf (((payloadFields go).map Prod.fst).zip e.values)).foldlM (readMember go) .zero = _
  -- one field after the other: each is read as what was written for it
  iterate 8 refine (read_cons rfl).trans ?_
  refine (read_cons (by exact congrArg (Option.map _) hgo.firstAt)).trans ?_
  refine (read_cons (by exact congrArg (Option.map _) hgo.lastAt)).trans ?_
  refine (read_cons rfl).trans ?_
  refine (read_cons (by exact congrArg (Option.map _) (asMap_written hmap))).trans ?_
  refine (read_cons rfl).trans ?_
  refine (read_cons (by exact congrArg (Option.map _) (hthrough _))).trans ?_
  refine (read_cons rfl).trans ?_
  exact rfl

/-! ## Both -/

theorem encodeEnvelope_ok :
    encodeEnvelope isIP e = .ok encoded ↔ validateEnvelope isIP e = true ∧
      e.writable = true ∧ (Json.object e.fields).length ≤ maxPayloadBytes ∧
        encoded = Json.object e.fields := by
  unfold encodeEnvelope Envelope.writable
  grind

theorem decode_valid (h : decode go isIP encoded = .ok e) : validateEnvelope isIP e = true := by
  unfold decode at h
  grind

theorem decode_object (hgo : ReadsBack go e) (hmap : Strict Prod.fst e.event.attributes)
    (hvalid : validateEnvelope isIP e = true)
    (hlen : (Json.object e.fields).length ≤ maxPayloadBytes) :
    decode go isIP (Json.object e.fields) = .ok e := by
  have hne : (Json.object e.fields).isEmpty = false := rfl
  have hkind : kindOf e.payload.kind = some e.event.kind := by
    show kindOf e.event.kind.text = _
    cases e.event.kind <;> decide +kernel
  have henvelope : e.payload.envelope e.event.kind = e := rfl
  simp [decode, hne, hgo.parse, value_distinct hmap, readPayload_value hgo hmap, hkind,
    henvelope, hvalid, Nat.not_lt.mpr hlen, show e.payload.version = 1 from rfl]

/-- For an envelope with a map of attributes, if `encoding/json` reads what it writes. -/
theorem recodes_iff (go : EncodingJson) (isIP : Text → Bool) (e : Envelope)
    (hmap : Strict Prod.fst e.event.attributes)
    (hgo : validateEnvelope isIP e = true → e.writable = true → ReadsBack go e) :
    (∀ encoded, encodeEnvelope isIP e = .ok encoded → decode go isIP encoded = .ok e) ∧
      ∀ encoded, decode go isIP encoded = .ok e →
        ((∃ again, encodeEnvelope isIP e = .ok again ∧ decode go isIP again = .ok e) ↔
          e.writable = true ∧ (Json.object e.fields).length ≤ maxPayloadBytes) := by
  constructor
  · intro encoded h
    obtain ⟨hvalid, hw, hlen, rfl⟩ := encodeEnvelope_ok.mp h
    exact decode_object (hgo hvalid hw) hmap hvalid hlen
  intro encoded h
  have hvalid := decode_valid h
  constructor
  · rintro ⟨again, hagain, -⟩
    obtain ⟨-, hw, hlen, -⟩ := encodeEnvelope_ok.mp hagain
    exact ⟨hw, hlen⟩
  · rintro ⟨hw, hlen⟩
    exact ⟨_, encodeEnvelope_ok.mpr ⟨hvalid, hw, hlen, rfl⟩,
      decode_object (hgo hvalid hw) hmap hvalid hlen⟩

/-- A container's start, and an `encoding/json` that knows one text and one time. -/
def started (t : Time) : Envelope :=
  ⟨⟨.observed, text "container", text "c1", text "start", [], t, t, 1, []⟩, [], [], 0, none, []⟩

def knows (encoded : Text) (v : Value) (raw : Text) (t : Time) : EncodingJson where
  parse s := if s = encoded then some v else none
  equalFold _ _ := false
  time s := if s = raw then some t else none

theorem recodes_iff_started :
    let e := started second
    let go := knows (Json.object e.fields) (e.value (knows [] .null [] 0))
      (Json.escape 0 (Json.rfc3339Nano second)) second
    decode go (fun _ => false) (Json.object e.fields) = .ok e := by
  refine (recodes_iff _ _ (started second) .nil fun _ _ => ⟨?_, ?_, ?_⟩).1 _
    (encodeEnvelope_ok.mpr (by decide +kernel))
  · exact if_pos rfl
  all_goals simp [knows, started]

/-- The first minute of the year 0000, one minute east of UTC. -/
def earlyText : Text := text "0000-01-01T00:00:00+00:01"

def earlyTime : Time := -62167219260 * second

def earlyPayload : Text :=
  text "\x7b\"version\":1,\"kind\":\"OBSERVED\",\"resource_type\":\"container\"," ++
  text "\"resource_id\":\"c1\",\"action\":\"start\",\"first_at\":\"" ++ earlyText ++
  text "\",\"last_at\":\"" ++ earlyText ++ text "\",\"count\":1\x7d"

def earlyValue : Value :=
  .object [(text "version", .uint 1), (text "kind", written (text "OBSERVED")),
    (text "resource_type", written (text "container")), (text "resource_id", written (text "c1")),
    (text "action", written (text "start")), (text "first_at", written earlyText),
    (text "last_at", written earlyText), (text "count", .uint 1)]

theorem recodes_fails :
    decode (knows earlyPayload earlyValue earlyText earlyTime) (fun _ => false) earlyPayload =
      .ok (started earlyTime) ∧
    ∀ again, encodeEnvelope (fun _ => false) (started earlyTime) ≠ .ok again := by
  constructor
  · decide +kernel
  · intro again h
    have hw := (encodeEnvelope_ok.mp h).2.1
    revert hw
    decide +kernel

end DockLattice.Audit
