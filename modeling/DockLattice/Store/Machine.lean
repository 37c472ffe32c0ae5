import DockLattice.Store.Retention

/-!
# DockLattice.Store.Machine

The life of the archive: the calls of the Server in any order.

`retain` is an `EnforceRetention` call with nothing in between its batches. The batches of a call
that other writers interrupt are the last three operations: they take the plan, and the usage that
was read before, from anywhere.
-/

namespace DockLattice.Store

inductive Op where
  | establish (archiveId agentId : String) (start : Cursor) (reason : Reason) (now : Time)
  | ingest (archiveId agentId : String) (events : List AuditEvent) (deliveryNext : Cursor)
      (now : Time)
  | apply (archiveId : String) (snapshot : CoverageSnapshot) (now : Time)
  | ack (archiveId agentId : String) (proposed : Cursor) (revision : Nat) (now : Time)
  | regress (archiveId agentId : String) (proposed resumedAt : Cursor) (reason : Reason)
      (now : Time)
  | retain (archiveId : String) (policy : RetentionPolicy) (now : Time)
  | deleteBatch (archiveId : String) (plan : RetentionPlan) (now : Time) (tier : Tier)
      (usageBytes : Int)
  | compactClaims (archiveId : String) (plan : RetentionPlan) (usageBytes : Int)
  | compactCoverage (archiveId : String) (plan : RetentionPlan) (usageBytes : Int)

def Op.archiveId : Op → String
  | establish a .. | ingest a .. | apply a .. | ack a .. | regress a .. | retain a .. => a
  | deleteBatch a .. | compactClaims a .. | compactCoverage a .. => a

def Db.step (p : Platform) (db : Db) : Op → Db
  | .establish a agent start reason now =>
    (establishCoverageStart p a agent start reason now).commit db
  | .ingest a agent events next now => (Store.ingest p a agent events next now).commit db
  | .apply a snapshot now => (applyCoverageSnapshot p a snapshot now).commit db
  | .ack a agent proposed revision now =>
    (checkAndAdvanceACK p a agent proposed revision now).commit db
  | .regress a agent proposed resumedAt reason now =>
    (recordCursorRegression p a agent proposed resumedAt reason now).commit db
  | .retain a policy now => (enforceRetention p a policy now db).1
  | .deleteBatch a plan now tier usage => (Store.deleteBatch p a plan now tier usage).commit db
  | .compactClaims a plan usage => (Store.compactClaims p a plan usage).commit db
  | .compactCoverage a plan usage => (Store.compactCoverage p a plan usage).commit db

def Db.run (p : Platform) (db : Db) (ops : List Op) : Db := ops.foldl (Db.step p) db

def Db.fresh (archiveId : String) : Db := ⟨some archiveId, [], [], [], []⟩

/-! ## What the archive can say about a cursor -/

def Db.Holds (db : Db) (agentId : String) (c : Cursor) : Prop :=
  ∃ e ∈ db.events, e.agentId = agentId ∧ e.cursor = c

/-- The cursor lies in the row's range, or in the incarnation it is about. -/
def CoverageRow.Covers (r : CoverageRow) (c : Cursor) : Prop :=
  r.fromIncarnation = c.incarnation ∧
    match r.fromSeq, r.untilSeq with
    | none, _ => True
    | some first, some past => first ≤ c.seq ∧ c.seq < past
    | some _, none => False

instance (r : CoverageRow) (c : Cursor) : Decidable (r.Covers c) := by
  unfold CoverageRow.Covers
  cases r.fromSeq <;> cases r.untilSeq <;> infer_instance

/-- Effective gaps and regressions explain a missing event; a lower bound does not. -/
def CoverageRow.explaining (r : CoverageRow) (archiveId agentId : String) : Bool :=
  r.of archiveId agentId && r.live && (r.entryType == .gap || r.entryType == .regression)

def Db.Covered (db : Db) (archiveId agentId : String) (c : Cursor) : Prop :=
  ∃ r ∈ db.coverage, r.explaining archiveId agentId = true ∧ r.Covers c

def Db.Explained (db : Db) (archiveId agentId : String) (c : Cursor) : Prop :=
  db.Holds agentId c ∨ db.Covered archiveId agentId c

end DockLattice.Store
