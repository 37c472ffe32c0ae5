import DockLattice.Audit.Managed
import DockLattice.Lib.Calendar
import DockLattice.Lib.Paging
import DockLattice.Lib.Utf8
import DockLattice.Cursor

/-!
# DockLattice.Server.AuditPage

Reading the archived audit events page by page (`serverapi/audit.go`): the query of
`loadAuditEvents`, the checks around it, and a client that follows the next cursor.

The query compares the times of events and bounds as the texts that `formatTime` writes. A client
gets exactly the events it asked for if and only if that comparison is right for every event of its
scope, and none of them names a project of another Agent (`activity_exact_iff`).
-/

namespace DockLattice.Server.AuditPage

open Bytes Calendar List

open Operation (validOpaqueID)

variable {c : Option Cursor} {e : AuditEvent} {events : List AuditEvent}

/-! ## What is stored -/

/-- A row of `audit_events`. `Ingest` takes the indexed columns from the payload, so that the columns
and the decoded payload are one thing here. An empty `actor` or `projectUid` is `NULL`. -/
structure AuditEvent where
  agentId : Text
  cursor : Cursor
  occurredAt : Moment
  kind : Audit.EventKind
  actor : Text
  projectUid : Text
  resourceType : Text
  resourceId : Text
  incarnation_pos : 1 ≤ cursor.incarnation
  incarnation_le : cursor.incarnation ≤ maxInt64
  seq_pos : 1 ≤ cursor.seq
  seq_le : cursor.seq ≤ maxInt64
  deriving DecidableEq, Repr

/-- The tables the read model looks at. `coverage` is the answer of `loadAuditCoverage`: whether a
coverage start is established, if it could be loaded. -/
structure Backend where
  agents : List Text
  projects : List (Text × Text)
  events : List AuditEvent
  coverage : Text → Option Bool
  /-- `UNIQUE(agent_id, incarnation, seq)` -/
  unique : (events.map fun e => (e.agentId, e.cursor)).Nodup

inductive PageError where
  | invalidRequest
  | notFound
  | corruptData (boundary : String)
  | coverage
  deriving DecidableEq, Repr

/-! ## Requests -/

def maxAuditPageSize : Nat := 500

structure AuditPageRequest where
  limit : Nat
  cursor : Option Cursor
  fromTime : Option Moment
  untilTime : Option Moment
  resource : Text
  kind : Text
  actor : Text
  deriving DecidableEq, Repr

/-- The limits stand in a map with the values as keys, where a later entry for the same text takes
the place of an earlier one. -/
def AuditPageRequest.limits (r : AuditPageRequest) : List (Text × Nat) :=
  [(r.actor, 1024), (r.kind, 128), (r.resource, 1024)]

def validAuditFilters (r : AuditPageRequest) : Bool :=
  !(r.fromTime.any fun a => r.untilTime.any fun b => decide (b.instant < a.instant)) &&
    r.limits.all fun e => decide (e.1.length ≤ (r.limits.lookup e.1).getD 0) && Utf8.valid e.1 &&
      !e.1.contains 0

structure AuditPageRequest.Valid (r : AuditPageRequest) : Prop where
  limit_pos : 1 ≤ r.limit
  limit_le : r.limit ≤ maxAuditPageSize
  filters : validAuditFilters r = true

def validAuditCursor (c : Option Cursor) : Bool :=
  c.all fun c => decide (0 < c.incarnation ∧ 0 < c.seq ∧ c.incarnation ≤ maxInt64 ∧
    c.seq ≤ maxInt64)

/-! ## The query -/

/-- The conditions of the query that are not about time and not about the cursor. -/
def inScope (agent project : Text) (r : AuditPageRequest) (e : AuditEvent) : Bool :=
  e.agentId = agent && (project = [] || e.projectUid = project) &&
    (r.resource = [] || e.resourceType = r.resource || e.resourceId = r.resource) &&
    (r.kind = [] || e.kind.text = r.kind) && (r.actor = [] || e.actor = r.actor)

/-- `occurred_at >= ? AND occurred_at <= ?`, on texts. -/
def AuditPageRequest.selects (r : AuditPageRequest) (t : Moment) : Bool :=
  r.fromTime.all (fun a => decide (a.format ≤ t.format)) &&
    r.untilTime.all (fun b => decide (t.format ≤ b.format))

/-- `incarnation > ? OR (incarnation = ? AND seq > ?)` -/
def AuditPageRequest.passed (r : AuditPageRequest) (e : AuditEvent) : Bool :=
  r.cursor.all fun c => decide (c.incarnation < e.cursor.incarnation ∨
    (e.cursor.incarnation = c.incarnation ∧ c.seq < e.cursor.seq))

def ordered (events : List AuditEvent) : List AuditEvent :=
  events.insertionSort fun a b => a.cursor ≤ b.cursor

namespace Backend

def query (b : Backend) (agent project : Text) (r : AuditPageRequest) : List AuditEvent :=
  (ordered (b.events.filter fun e => inScope agent project r e && r.passed e &&
    r.selects e.occurredAt)).take (r.limit + 1)

def projectAgent (b : Backend) (e : AuditEvent) : Option Text :=
  if e.projectUid = [] then none else b.projects.lookup e.projectUid

def decodeStoredAuditEvent (b : Backend) (agent project : Text) (e : AuditEvent) :
    Except PageError AuditEvent :=
  if e.agentId ≠ agent then .error (.corruptData "audit_events canonical event")
  else if project ≠ [] ∧ e.projectUid ≠ project then
    .error (.corruptData "audit_events canonical event")
  else if (b.projectAgent e).any (· ≠ agent) then
    .error (.corruptData "audit_events canonical event")
  else .ok e

def loadAuditEvents (b : Backend) (agent project : Text) (r : AuditPageRequest) :
    Except PageError (List AuditEvent × Option Cursor) := do
  let events ← (b.query agent project r).mapM (b.decodeStoredAuditEvent agent project)
  if r.limit < events.length then
    let events := events.take r.limit
    pure (events, events.getLast?.map AuditEvent.cursor)
  else pure (events, none)

def auditPage (b : Backend) (agent project : Text) (r : AuditPageRequest) :
    Except PageError (List AuditEvent × Option Cursor) :=
  if r.limit < 1 ∨ maxAuditPageSize < r.limit ∨ validAuditCursor r.cursor = false ∨
      validAuditFilters r = false then .error .invalidRequest
  else do
    let (events, next) ← b.loadAuditEvents agent project r
    match b.coverage agent with
    | none => .error .coverage
    | some established =>
      if events ≠ [] ∧ established = false then .error (.corruptData "audit coverage")
      else .ok (events, next)

end Backend

inductive Scope where
  | host (agent : Text)
  | project (uid : Text)
  deriving DecidableEq, Repr

namespace Backend

def resolve (b : Backend) : Scope → Except PageError (Text × Text)
  | .host agent =>
    if validOpaqueID agent = false then .error .invalidRequest
    else if agent ∈ b.agents then .ok (agent, [])
    else .error .notFound
  | .project uid =>
    if validOpaqueID uid = false then .error .invalidRequest
    else
      match b.projects.lookup uid with
      | none => .error .notFound
      | some agent =>
        if validOpaqueID agent = false then .error (.corruptData "project activity identity")
        else .ok (agent, uid)

def page (b : Backend) (scope : Scope) (r : AuditPageRequest) :
    Except PageError (List AuditEvent × Option Cursor) := do
  let (agent, project) ← b.resolve scope
  b.auditPage agent project r

/-- A client that follows the next cursor until there is none, and has read these events. -/
inductive Reads (b : Backend) (scope : Scope) (r : AuditPageRequest) :
    Option Cursor → List AuditEvent → Prop where
  | last {c : Option Cursor} {events : List AuditEvent} :
      b.page scope { r with cursor := c } = .ok (events, none) → Reads b scope r c events
  | more {c : Option Cursor} {d : Cursor} {events rest : List AuditEvent} :
      b.page scope { r with cursor := c } = .ok (events, some d) → Reads b scope r (some d) rest →
      Reads b scope r c (events ++ rest)

end Backend

def AuditPageRequest.within (r : AuditPageRequest) (t : Moment) : Bool :=
  r.fromTime.all (fun a => decide (a.instant ≤ t.instant)) &&
    r.untilTime.all (fun b => decide (t.instant ≤ b.instant))

def Backend.wanted (b : Backend) (agent project : Text) (r : AuditPageRequest) : List AuditEvent :=
  ordered (b.events.filter fun e => inScope agent project r e && r.within e.occurredAt)

/-! ## Pages of an ordered list -/

theorem strict_cursor : Paging.Strict Cursor := ⟨lt_irrefl, lt_trans⟩

theorem ordered_perm (events : List AuditEvent) : (ordered events).Perm events :=
  perm_insertionSort _ _

theorem mem_ordered :
    e ∈ ordered events ↔ e ∈ events := (ordered_perm events).mem_iff

theorem ordered_pairwise (h : (events.map AuditEvent.cursor).Nodup) :
    (ordered events).Pairwise fun a b => a.cursor < b.cursor := by
  have hsorted : (ordered events).Pairwise fun a b => a.cursor ≤ b.cursor := by
    have : Std.Total (fun a b : AuditEvent => a.cursor ≤ b.cursor) := ⟨fun a b => by
      by_cases hab : a.cursor ≤ b.cursor
      · exact .inl hab
      · exact .inr (le_of_lt (not_le.mp hab))⟩
    have : IsTrans AuditEvent (fun a b => a.cursor ≤ b.cursor) :=
      ⟨fun _ _ _ hab hbc => le_trans hab hbc⟩
    exact pairwise_insertionSort _ _
  have hnodup : ((ordered events).map AuditEvent.cursor).Nodup :=
    ((ordered_perm events).map _).nodup_iff.mpr h
  rw [List.Nodup, pairwise_map] at hnodup
  exact (hsorted.and hnodup).imp fun h => lt_of_le_of_ne h.1 h.2

theorem ordered_filter (h : (events.map AuditEvent.cursor).Nodup) (p : AuditEvent → Bool) :
    ordered (events.filter p) = (ordered events).filter p := by
  have hsub : ((events.filter p).map AuditEvent.cursor).Nodup :=
    h.sublist (filter_sublist.map _)
  refine @List.Perm.eq_of_pairwise _ (fun a b => a.cursor < b.cursor) _ _ ?_
    (ordered_pairwise hsub) ((ordered_pairwise h).filter p) ?_
  · intro a b _ _ hab hba
    exact absurd (lt_trans hab hba) (lt_irrefl _)
  · exact (ordered_perm _).trans ((ordered_perm events).filter p).symm

namespace Backend

variable {b : Backend} {agent project : Text} {r : AuditPageRequest}

def rows (b : Backend) (agent project : Text) (r : AuditPageRequest) : List AuditEvent :=
  ordered (b.events.filter fun e => inScope agent project r e && r.selects e.occurredAt)

def readable (b : Backend) (agent : Text) (e : AuditEvent) : Bool :=
  (b.projectAgent e).all (· = agent)

section

variable (b agent project r)

/-- The page of the rows behind `c`. -/
abbrev paged (c : Option Cursor) : Option (List AuditEvent × Option Cursor) :=
  Paging.page AuditEvent.cursor (b.readable agent) r.limit (b.rows agent project r) c

theorem cursors_nodup (p : AuditEvent → Bool) :
    ((b.events.filter fun e => inScope agent project r e && p e).map AuditEvent.cursor).Nodup := by
  have hunique := b.unique
  rw [List.Nodup, pairwise_map] at hunique ⊢
  refine (hunique.filter _).imp_of_mem ?_
  intro x y hx hy hne he
  have hscope : ∀ e ∈ b.events.filter (fun e => inScope agent project r e && p e),
      e.agentId = agent := by
    intro e he
    have := (mem_filter.mp he).2
    simp only [inScope, Bool.and_eq_true, decide_eq_true_eq] at this
    exact this.1.1.1.1.1
  exact hne (Prod.ext ((hscope x hx).trans (hscope y hy).symm) he)

theorem rows_pairwise : (b.rows agent project r).Pairwise fun x y => x.cursor < y.cursor :=
  ordered_pairwise (b.cursors_nodup agent project r _)

theorem query_eq (c : Option Cursor) : b.query agent project { r with cursor := c } =
      (Paging.behind AuditEvent.cursor (b.rows agent project r) c).take (r.limit + 1) := by
  have hpassed : ∀ e : AuditEvent, ({ r with cursor := c } : AuditPageRequest).passed e =
      c.all fun c => decide (c < e.cursor) := by
    intro e
    cases c with
    | none => rfl
    | some c =>
      simp only [AuditPageRequest.passed, Option.all_some, Cursor.lt_def,
        eq_comm (a := e.cursor.incarnation)]
  unfold query
  dsimp only
  congr 1
  have hfilter : (b.events.filter fun e => inScope agent project { r with cursor := c } e &&
      ({ r with cursor := c } : AuditPageRequest).passed e &&
      ({ r with cursor := c } : AuditPageRequest).selects e.occurredAt) =
      (b.events.filter fun e => inScope agent project r e && r.selects e.occurredAt).filter
        fun e => c.all fun c => decide (c < e.cursor) := by
    rw [filter_filter]
    refine filter_congr fun e _ => ?_
    rw [hpassed]
    change (inScope agent project r e && _ && r.selects e.occurredAt) = _
    cases inScope agent project r e <;> cases r.selects e.occurredAt <;> simp
  rw [hfilter, ordered_filter (b.cursors_nodup agent project r _)]
  cases c with
  | none | some => simp [Paging.behind, rows]

end

theorem decodeStoredAuditEvent_eq (h : inScope agent project r e = true) :
    b.decodeStoredAuditEvent agent project e = if b.readable agent e then .ok e
      else .error (.corruptData "audit_events canonical event") := by
  simp only [inScope, Bool.and_eq_true, Bool.or_eq_true, decide_eq_true_eq] at h
  obtain ⟨⟨⟨⟨ha, hp⟩, -⟩, -⟩, -⟩ := h
  unfold decodeStoredAuditEvent readable
  rw [if_neg (by simp [ha]), if_neg (by rcases hp with hp | hp <;> simp [hp])]
  cases b.projectAgent e with
  | none => rfl
  | some a => by_cases hae : a = agent <;> simp [hae]

theorem mapM_decode (h : ∀ e ∈ events, inScope agent project r e = true) :
    events.mapM (b.decodeStoredAuditEvent agent project) =
      if events.all (b.readable agent) then .ok events
      else .error (.corruptData "audit_events canonical event") := by
  induction events with
  | nil => rfl
  | cons e es ih =>
    rw [mapM_cons, decodeStoredAuditEvent_eq (h e mem_cons_self),
      ih fun x hx => h x (mem_cons_of_mem _ hx), all_cons]
    cases b.readable agent e with
    | false => rfl
    | true =>
      cases es.all (b.readable agent) with
      | false | true => rfl

theorem behind_inScope (h : e ∈ Paging.behind AuditEvent.cursor (b.rows agent project r) c) :
    inScope agent project r e = true := by
  have hrow : e ∈ b.rows agent project r := by
    cases c with
    | none => exact h
    | some c => exact (mem_filter.mp h).1
  have := (mem_filter.mp (mem_ordered.mp hrow)).2
  simp only [Bool.and_eq_true] at this
  exact this.1

theorem loadAuditEvents_eq :
    b.loadAuditEvents agent project { r with cursor := c } =
      match b.paged agent project r c with
      | some p => .ok p
      | none => .error (.corruptData "audit_events canonical event") := by
  unfold loadAuditEvents
  rw [query_eq, mapM_decode (r := r) fun e he => behind_inScope (mem_of_mem_take he)]
  unfold paged Paging.page
  dsimp only
  generalize (Paging.behind AuditEvent.cursor (b.rows agent project r) c).take (r.limit + 1) = rows
  by_cases hall : rows.all (b.readable agent) = true
  · rw [if_pos hall, if_pos hall]
    by_cases hlen : r.limit < rows.length
    · rw [if_pos hlen]
      exact if_pos hlen
    · rw [if_neg hlen, take_of_length_le (Nat.not_lt.mp hlen)]
      exact if_neg hlen
  · rw [if_neg hall, if_neg hall]
    rfl

theorem valid_next {d : Cursor} (h : b.paged agent project r c = some (events, some d)) :
    validAuditCursor (some d) = true := by
  unfold paged Paging.page at h
  dsimp only at h
  split at h
  next =>
    obtain ⟨-, hd⟩ := Prod.mk.inj (Option.some.inj h)
    split at hd
    next =>
      obtain ⟨e, -, rfl⟩ := Option.map_eq_some_iff.mp hd
      have h₁ := e.incarnation_pos
      have h₂ := e.incarnation_le
      have h₃ := e.seq_pos
      have h₄ := e.seq_le
      simp only [validAuditCursor, Option.all_some, decide_eq_true_eq]
      omega
    next => cases hd
  next => cases h

variable {scope : Scope} (hscope : b.resolve scope = .ok (agent, project)) (hr : r.Valid)
  (hcov : b.coverage agent = some true) (hc : validAuditCursor c = true)

include hscope hr hcov hc

theorem page_eq :
    b.page scope { r with cursor := c } =
      match b.paged agent project r c with
      | some p => .ok p
      | none => .error (.corruptData "audit_events canonical event") := by
  have hvalid : ¬ (r.limit < 1 ∨ maxAuditPageSize < r.limit ∨ validAuditCursor c = false ∨
      validAuditFilters { r with cursor := c } = false) := by
    have hf : validAuditFilters { r with cursor := c } = validAuditFilters r := rfl
    have h₁ := hr.limit_pos
    have h₂ := hr.limit_le
    rintro (h | h | h | h)
    · omega
    · omega
    · rw [hc] at h; cases h
    · rw [hf, hr.filters] at h; cases h
  have hpage : b.page scope { r with cursor := c } =
      b.auditPage agent project { r with cursor := c } := by
    unfold page
    rw [hscope]
    rfl
  rw [hpage]
  unfold auditPage
  rw [if_neg hvalid, loadAuditEvents_eq, hcov]
  cases b.paged agent project r c with
  | none => rfl
  | some p =>
    change (if p.1 ≠ [] ∧ true = false then _ else _) = _
    rw [if_neg (by simp)]

theorem reads_iff :
    b.Reads scope r c events ↔ Paging.Follows AuditEvent.cursor (b.readable agent) r.limit
      (b.rows agent project r) c events := by
  constructor
  · intro h
    induction h with
    | last hp =>
      rw [page_eq hscope hr hcov hc] at hp
      refine .last ?_
      split at hp
      next p heq => cases hp; exact heq
      next => cases hp
    | more hp _ ih =>
      rw [page_eq hscope hr hcov hc] at hp
      split at hp
      next p heq => cases hp; exact .more heq (ih (valid_next heq))
      next => cases hp
  · intro h
    induction h with
    | last hp => exact .last (by rw [page_eq hscope hr hcov hc, paged, hp])
    | more hp _ ih => exact .more (by rw [page_eq hscope hr hcov hc, paged, hp]) (ih (valid_next hp))

end Backend

/-! ## Exactness -/

def AuditPageRequest.bounds (r : AuditPageRequest) : List Moment :=
  r.fromTime.toList ++ r.untilTime.toList

theorem AuditPageRequest.selects_eq {r : AuditPageRequest} {t : Moment} (ht : t.FourDigits)
    (h : ∀ a ∈ r.bounds, a.FourDigits ∧ ¬ a.Swapped t) : r.selects t = r.within t := by
  have hswap : ∀ {a c : Moment}, a.Swapped c → c.Swapped a := fun h => ⟨h.1.symm, h.2.symm⟩
  unfold selects within
  congr 1
  · cases hf : r.fromTime with
    | none => rfl
    | some a =>
      obtain ⟨ha, hn⟩ := h a (by simp [bounds, hf])
      simp only [Option.all_some, (Moment.format_le_iff ha ht).mpr hn]
  · cases hu : r.untilTime with
    | none => rfl
    | some a =>
      obtain ⟨ha, hn⟩ := h a (by simp [bounds, hu])
      simp only [Option.all_some, (Moment.format_le_iff ht ha).mpr fun hs => hn (hswap hs)]

theorem Backend.rows_eq_wanted_iff {b : Backend} {agent project : Text} {r : AuditPageRequest} :
    b.wanted agent project r = b.rows agent project r ↔
      ∀ e ∈ b.events, inScope agent project r e = true →
        r.selects e.occurredAt = r.within e.occurredAt := by
  constructor
  · intro h e he hs
    have hmem : e ∈ b.wanted agent project r ↔ e ∈ b.rows agent project r := by rw [h]
    simp only [wanted, rows, mem_ordered, mem_filter, he, hs, Bool.true_and, true_and] at hmem
    exact Bool.eq_iff_iff.mpr hmem.symm
  · intro h
    unfold wanted rows
    congr 1
    refine filter_congr fun e he => ?_
    by_cases hs : inScope agent project r e = true
    · rw [hs, h e he hs]
    · simp [hs]

/-- For every archive, every Agent or project, and every valid request: a client that follows the
next cursor reads exactly the events asked for, in increasing order, if and only if for every event
of the scope the comparison of texts says what the instants say, and no event asked for names a
project of another Agent. The comparison is right for times and bounds in years of four digits
unless an event lies in the same second as a bound, with the digits of one's fraction continuing
those of the other. -/
theorem activity_exact_iff {b : Backend} {scope : Scope} {agent project : Text}
    {r : AuditPageRequest} (hscope : b.resolve scope = .ok (agent, project)) (hr : r.Valid)
    (hcov : b.coverage agent = some true) :
    (b.wanted agent project r).Pairwise (fun x y => x.cursor < y.cursor) ∧
    (b.Reads scope r none (b.wanted agent project r) ↔
      (∀ e ∈ b.events, inScope agent project r e = true →
        r.selects e.occurredAt = r.within e.occurredAt) ∧
      ∀ e ∈ b.events, inScope agent project r e = true → r.within e.occurredAt = true →
        b.readable agent e = true) ∧
    ((∀ e ∈ b.events, inScope agent project r e = true → e.occurredAt.FourDigits ∧
        ∀ a ∈ r.bounds, a.FourDigits ∧ ¬ a.Swapped e.occurredAt) →
      ∀ e ∈ b.events, inScope agent project r e = true →
        r.selects e.occurredAt = r.within e.occurredAt) := by
  refine ⟨ordered_pairwise (b.cursors_nodup agent project r _), ?_, fun h e he hs => ?_⟩
  · rw [Backend.reads_iff hscope hr hcov rfl,
      Paging.follows_iff strict_cursor (b.rows_pairwise agent project r) hr.limit_pos]
    change _ = b.rows agent project r ∧ _ ↔ _
    rw [Backend.rows_eq_wanted_iff]
    refine and_congr_right fun hsel => ?_
    constructor
    · intro h e he hs hw
      refine h e (mem_ordered.mpr (mem_filter.mpr ⟨he, ?_⟩))
      rw [hs, hsel e he hs, hw]
      rfl
    · intro h e he
      obtain ⟨he, hsel'⟩ := mem_filter.mp (mem_ordered.mp he)
      rw [Bool.and_eq_true] at hsel'
      exact h e he hsel'.1 (hsel e he hsel'.1 ▸ hsel'.2)
  · exact AuditPageRequest.selects_eq (h e he hs).1 (h e he hs).2

/-! ## An event inside the first second -/

def noon (nanos : Nat) (h : nanos < 10 ^ 9) : Moment where
  year := 2026
  month := 1
  day := 1
  hour := 12
  minute := 0
  second := 0
  nanos := nanos
  month_pos := by decide
  month_le := by decide
  day_pos := by decide
  day_le := by decide
  hour_lt := by decide
  minute_lt := by decide
  second_lt := by decide
  nanos_lt := h

def started : AuditEvent where
  agentId := text "a1"
  cursor := ⟨1, 1⟩
  occurredAt := noon 500000000 (by decide)
  kind := .observed
  actor := []
  projectUid := []
  resourceType := text "container"
  resourceId := text "c1"
  incarnation_pos := by decide
  incarnation_le := by decide
  seq_pos := by decide
  seq_le := by decide

def archive : Backend := ⟨[text "a1"], [], [started], fun _ => some true, by decide⟩

def untilRequest (t : Moment) : AuditPageRequest := ⟨50, none, none, some t, [], [], []⟩

def fromRequest (t : Moment) : AuditPageRequest := ⟨50, none, some t, none, [], [], []⟩

theorem archive_reads_started :
    archive.Reads (.host (text "a1")) (untilRequest (noon 700000000 (by decide))) none
      (archive.wanted (text "a1") [] (untilRequest (noon 700000000 (by decide)))) :=
  (activity_exact_iff (b := archive) (by decide +kernel) ⟨by decide, by decide, by decide +kernel⟩
    rfl).2.1.mpr ⟨by decide +kernel, by decide +kernel⟩

/-- The event lies half a second behind the bound, and the first page, which is also the last, does
not hold it. -/
theorem started_missed :
    archive.wanted (text "a1") [] (fromRequest (noon 0 (by decide))) = [started] ∧
      archive.page (.host (text "a1")) (fromRequest (noon 0 (by decide))) = .ok ([], none) := by
  decide +kernel

end DockLattice.Server.AuditPage
