import DockLattice.Lib.Moments

/-!
# DockLattice.Agent.DiskBudget

The storage pressure state of the Agent (`diskbudget/manager.go`) over its observations, and the bytes
that `ReclaimForPressure` (`agentstorage/eviction.go`) asks for. A percentage is multiplied before it
is divided, in 64 bits: beyond 2^63 the product wraps, and a floor or the ceiling comes out too low.
-/

namespace DockLattice.DiskBudget

open Moments Int64

inductive DegradedReason where
  | none
  | filesystemFreeLow
  | agentBudgetExceeded
  | both
  deriving DecidableEq, Repr

structure Observation where
  filesystemTotalBytes : Int64
  filesystemFreeBytes : Int64
  agentStateBytes : Int64

structure State where
  degraded : Bool
  reason : DegradedReason
  entryFreeFloor : Int64
  exitFreeFloor : Int64
  stateBudget : Int64
  exitStateCeiling : Int64
  deriving DecidableEq

structure Config where
  stateBudgetBytes : Int64
  entryFreeBytes : Int64
  entryFreePercent : Int64
  exitFreeBytes : Int64
  exitFreePercent : Int64
  exitStatePercent : Int64
  emergencyReserveBytes : Int64

/-- The check of `New`. -/
def Config.accepted (c : Config) : Bool :=
  !(c.stateBudgetBytes ≤ 0 || c.entryFreeBytes ≤ 0 || c.entryFreePercent ≤ 0 ||
    c.exitFreeBytes ≤ c.entryFreeBytes || c.exitFreePercent ≤ c.entryFreePercent ||
    c.exitStatePercent ≤ 0 || c.exitStatePercent ≥ 100 || c.emergencyReserveBytes ≤ 0 ||
    c.emergencyReserveBytes ≥ c.stateBudgetBytes)

def validateObservation (o : Observation) : Bool :=
  !(o.filesystemTotalBytes ≤ 0 || o.filesystemFreeBytes < 0 ||
    o.filesystemFreeBytes > o.filesystemTotalBytes || o.agentStateBytes < 0)

def maximum (left right : Int64) : Int64 := if left > right then left else right

def percentBytes (total percent : Int64) : Int64 := total * percent / 100

def reason (freeLow budgetExceeded : Bool) : DegradedReason :=
  if freeLow && budgetExceeded then .both
  else if freeLow then .filesystemFreeLow
  else if budgetExceeded then .agentBudgetExceeded
  else .none

/-- `Observe`; `none` is the error, which leaves the state. -/
def observe (c : Config) (s : State) (o : Observation) : Option State :=
  if validateObservation o then
    let entryFloor := maximum c.entryFreeBytes
      (percentBytes o.filesystemTotalBytes c.entryFreePercent)
    let exitFloor := maximum c.exitFreeBytes (percentBytes o.filesystemTotalBytes c.exitFreePercent)
    let freeLow := decide (o.filesystemFreeBytes < entryFloor)
    let budgetExceeded := decide (o.agentStateBytes > c.stateBudgetBytes)
    let exitStateCeiling := c.stateBudgetBytes * c.exitStatePercent / 100
    let degraded :=
      if !s.degraded then freeLow || budgetExceeded
      else !(o.filesystemFreeBytes ≥ exitFloor && o.agentStateBytes ≤ exitStateCeiling)
    let cause := reason freeLow budgetExceeded
    some ⟨degraded, if degraded && cause = .none then s.reason else cause, entryFloor, exitFloor,
      c.stateBudgetBytes, exitStateCeiling⟩
  else none

/-- The bytes that `ReclaimForPressure` asks for in a degraded state. -/
def bytesNeeded (s : State) (o : Observation) : Int64 :=
  let needed := maximum (s.exitFreeFloor - o.filesystemFreeBytes)
    (o.agentStateBytes - s.exitStateCeiling)
  if needed < 0 then 0 else needed

def State.start : State := ⟨false, .none, 0, 0, 0, 0⟩

def run (c : Config) (observations : List Observation) : State :=
  observations.foldl (fun s o => (observe c s o).getD s) .start

/-! ## The law -/

/-- The exact percentage, rounded down. -/
def percentOf (total percent : Int64) : Int := total.toInt * percent.toInt / 100

def floorOf (bytes total percent : Int64) : Int := max bytes.toInt (percentOf total percent)

structure Lawful (c : Config) (s : State) (o : Observation) (s' : State) : Prop where
  entryFloor : s'.entryFreeFloor.toInt =
    floorOf c.entryFreeBytes o.filesystemTotalBytes c.entryFreePercent
  exitFloor : s'.exitFreeFloor.toInt =
    floorOf c.exitFreeBytes o.filesystemTotalBytes c.exitFreePercent
  ceiling : s'.exitStateCeiling.toInt = percentOf c.stateBudgetBytes c.exitStatePercent
  enters : s.degraded = false → (s'.degraded = true ↔
    o.filesystemFreeBytes < s'.entryFreeFloor ∨ c.stateBudgetBytes < o.agentStateBytes)
  leaves : s.degraded = true → (s'.degraded = false ↔
    s'.exitFreeFloor ≤ o.filesystemFreeBytes ∧ o.agentStateBytes ≤ s'.exitStateCeiling)
  ordered : s'.entryFreeFloor ≤ s'.exitFreeFloor
  reasoned : s'.degraded = true ↔ s'.reason ≠ .none
  reclaims : s'.degraded = true → 0 < bytesNeeded s' o

/-- No product leaves 64 bits, unless the percentage is below the constant of the floor anyway. -/
def Fits (c : Config) (o : Observation) : Prop :=
  (o.filesystemTotalBytes.toInt * c.entryFreePercent.toInt < 2 ^ 63 ∨
    percentOf o.filesystemTotalBytes c.entryFreePercent ≤ c.entryFreeBytes.toInt) ∧
  (o.filesystemTotalBytes.toInt * c.exitFreePercent.toInt < 2 ^ 63 ∨
    percentOf o.filesystemTotalBytes c.exitFreePercent ≤ c.exitFreeBytes.toInt) ∧
  c.stateBudgetBytes.toInt * c.exitStatePercent.toInt < 2 ^ 63

theorem toInt_maximum (a b : Int64) : (maximum a b).toInt = max a.toInt b.toInt := by
  unfold maximum
  split <;> simp_all only [gt_iff_lt, lt_iff_toInt_lt, not_lt] <;> omega

theorem percentBytes_eq {a b : Int64} (ha : 0 < a.toInt) (hb : 0 < b.toInt) :
    if a.toInt * b.toInt < 2 ^ 63 then (percentBytes a b).toInt = percentOf a b
    else (percentBytes a b).toInt < percentOf a b := by
  have hpos := Int.mul_pos ha hb
  unfold percentBytes percentOf
  rw [toInt_div_of_ne_right _ _ (by decide), toInt_mul]
  generalize a.toInt * b.toInt = m at hpos ⊢
  have hmod : m.bmod (2 ^ 64) % (2 ^ 64 : Nat) = m % (2 ^ 64 : Nat) := Int.bmod_emod
  have hlow := Int.le_bmod (x := m) (m := 2 ^ 64) (by decide)
  have hhigh := Int.bmod_lt (x := m) (m := 2 ^ 64) (by decide)
  generalize m.bmod (2 ^ 64) = r at hmod hlow hhigh
  push_cast at hmod hlow hhigh
  change if m < 2 ^ 63 then r.tdiv 100 = m / 100 else r.tdiv 100 < m / 100
  rw [Int.tdiv_eq_ediv, show Int.sign 100 = 1 from rfl]
  split <;> split <;> omega

theorem floor_exact_iff (bytes : Int64) {total percent : Int64} (ht : 0 < total.toInt)
    (hp : 0 < percent.toInt) :
    (maximum bytes (percentBytes total percent)).toInt = floorOf bytes total percent ↔
      total.toInt * percent.toInt < 2 ^ 63 ∨ percentOf total percent ≤ bytes.toInt := by
  have h := percentBytes_eq ht hp
  rw [toInt_maximum, floorOf]
  split at h <;> omega

theorem floorOf_le {a b total p q : Int64} (hab : a.toInt < b.toInt) (hpq : p.toInt < q.toInt)
    (ht : 0 < total.toInt) : floorOf a total p ≤ floorOf b total q := by
  have hmul := Int.mul_le_mul_of_nonneg_left hpq.le ht.le
  unfold floorOf percentOf
  omega

theorem percentOf_le {budget p : Int64} (hb : 0 < budget.toInt) (hp : p.toInt < 100) :
    percentOf budget p ≤ budget.toInt := by
  have hmul := Int.mul_le_mul_of_nonneg_left hp.le hb.le
  unfold percentOf
  omega

theorem percentOf_nonneg {budget p : Int64} (hb : 0 < budget.toInt) (hp : 0 < p.toInt) :
    0 ≤ percentOf budget p := Int.ediv_nonneg (Int.mul_pos hb hp).le (by decide)

theorem bytesNeeded_pos {s : State} {o : Observation} (hf : 0 ≤ o.filesystemFreeBytes.toInt)
    (ha : 0 ≤ o.agentStateBytes.toInt) (hx : 0 ≤ s.exitFreeFloor.toInt)
    (hc : 0 ≤ s.exitStateCeiling.toInt)
    (h : o.filesystemFreeBytes.toInt < s.exitFreeFloor.toInt ∨
      s.exitStateCeiling.toInt < o.agentStateBytes.toInt) : 0 < bytesNeeded s o := by
  have hneeded : 0 < (maximum (s.exitFreeFloor - o.filesystemFreeBytes)
      (o.agentStateBytes - s.exitStateCeiling)).toInt := by
    have := s.exitFreeFloor.toInt_lt
    have := o.filesystemFreeBytes.toInt_lt
    have := o.agentStateBytes.toInt_lt
    have := s.exitStateCeiling.toInt_lt
    rw [toInt_maximum, toInt_sub, toInt_sub, Int.bmod_eq_of_le, Int.bmod_eq_of_le]
    all_goals push_cast; omega
  unfold bytesNeeded
  dsimp only
  rw [if_neg]
  · exact lt_iff_toInt_lt.mpr hneeded
  · rw [lt_iff_toInt_lt]
    exact hneeded.le.not_gt

/-- What is low is not safe; then a state is degraded for a reason, and not for nothing. -/
theorem reasoned_of {s : State} (freeLow budgetExceeded freeSafe stateSafe : Bool)
    (hs : s.degraded = true ↔ s.reason ≠ .none) (hfree : freeLow = true → freeSafe = false)
    (hstate : budgetExceeded = true → stateSafe = false) :
    let degraded :=
      if !s.degraded then freeLow || budgetExceeded else !(freeSafe && stateSafe)
    let cause := reason freeLow budgetExceeded
    (degraded = true → freeSafe = false ∨ stateSafe = false) ∧
      (degraded = true ↔ (if degraded && cause = .none then s.reason else cause) ≠ .none) := by
  cases hd : s.degraded <;> cases freeLow <;> cases budgetExceeded <;> cases freeSafe <;>
    simp_all [reason]

theorem lawful_iff {c : Config} {s s' : State} {o : Observation} (hc : c.accepted = true)
    (hs : s.degraded = true ↔ s.reason ≠ .none) (h : observe c s o = some s') :
    Lawful c s o s' ↔ Fits c o := by
  simp only [Config.accepted, Bool.not_eq_true', Bool.or_eq_false_iff, decide_eq_false_iff_not,
    le_iff_toInt_le, not_le, ge_iff_le, toInt_zero] at hc
  obtain ⟨⟨⟨⟨⟨⟨⟨⟨hbudget, hentry⟩, hentryPercent⟩, hexit⟩, hexitPercent⟩, hpercent⟩, hhundred⟩,
    -⟩, -⟩ := hc
  rw [observe, Option.ite_none_right_eq_some, Option.some.injEq] at h
  obtain ⟨hvalid, rfl⟩ := h
  simp only [validateObservation, Bool.not_eq_true', Bool.or_eq_false_iff, decide_eq_false_iff_not,
    le_iff_toInt_le, lt_iff_toInt_lt, not_le, not_lt, toInt_zero] at hvalid
  obtain ⟨⟨⟨htotal, hfree⟩, -⟩, hstate⟩ := hvalid
  have hentryFloor := floor_exact_iff c.entryFreeBytes htotal hentryPercent
  have hexitFloor := floor_exact_iff c.exitFreeBytes htotal (hentryPercent.trans hexitPercent)
  have hceiling := percentBytes_eq hbudget hpercent
  constructor
  · intro hl
    refine ⟨hentryFloor.mp hl.entryFloor, hexitFloor.mp hl.exitFloor, ?_⟩
    by_contra hbig
    rw [if_neg hbig] at hceiling
    exact hceiling.ne hl.ceiling
  rintro ⟨hfits, hfits', hfits''⟩
  replace hentryFloor := hentryFloor.mpr hfits
  replace hexitFloor := hexitFloor.mpr hfits'
  rw [if_pos hfits''] at hceiling
  have hordered := floorOf_le hexit hexitPercent htotal
  rw [← hentryFloor, ← hexitFloor] at hordered
  have hbelow := percentOf_le hbudget hhundred
  have hnonneg := percentOf_nonneg hbudget hpercent
  rw [← hceiling] at hbelow hnonneg
  have hpositive : 0 ≤ (maximum c.exitFreeBytes
      (percentBytes o.filesystemTotalBytes c.exitFreePercent)).toInt := by
    rw [toInt_maximum]
    omega
  obtain ⟨hneed, hreason⟩ := reasoned_of
    (o.filesystemFreeBytes < maximum c.entryFreeBytes
      (percentBytes o.filesystemTotalBytes c.entryFreePercent))
    (o.agentStateBytes > c.stateBudgetBytes)
    (o.filesystemFreeBytes ≥ maximum c.exitFreeBytes
      (percentBytes o.filesystemTotalBytes c.exitFreePercent))
    (o.agentStateBytes ≤ percentBytes c.stateBudgetBytes c.exitStatePercent) hs
    (by simpa [lt_iff_toInt_lt, le_iff_toInt_le] using fun h => h.trans_le hordered)
    (by simpa [lt_iff_toInt_lt, le_iff_toInt_le] using hbelow.trans_lt)
  refine ⟨hentryFloor, hexitFloor, hceiling, ?_, ?_, le_iff_toInt_le.mpr hordered, hreason, ?_⟩
  · intro hd
    simp [hd]
  · intro hd
    simp [hd]
  · intro hd
    refine bytesNeeded_pos hfree hstate hpositive hnonneg ?_
    change _ ∨ (percentBytes c.stateBudgetBytes c.exitStatePercent).toInt < _
    simpa [le_iff_toInt_le] using hneed hd

theorem observe_run {c : Config} {before : List Observation} {o : Observation}
    (h : validateObservation o = true) :
    observe c (run c before) o = some (run c (before ++ [o])) := by
  unfold run
  rw [List.foldl_concat, observe, if_pos h]
  rfl

/-- For every accepted configuration, over all observations: the law holds at each of them exactly if
no percentage that matters leaves 64 bits. -/
theorem hysteresis_iff {c : Config} (hc : c.accepted = true) (observations : List Observation) :
    AtEachStep (fun before o => validateObservation o = true →
        Lawful c (run c before) o (run c (before ++ [o]))) observations ↔
      ∀ o ∈ observations, validateObservation o = true → Fits c o := by
  rw [← atEachStep_forall]
  refine atEachStep_iff (I := fun before =>
    (run c before).degraded = true ↔ (run c before).reason ≠ .none) ?_ ?_ ?_ observations
  · simp [run, State.start]
  · intro before o hI
    exact imp_congr_right fun hvalid => lawful_iff hc hI (observe_run hvalid)
  · intro before o hI hfits
    by_cases hvalid : validateObservation o = true
    · exact ((lawful_iff hc hI (observe_run hvalid)).mpr (hfits hvalid)).reasoned
    · have hsame : run c (before ++ [o]) = run c before := by
        unfold run
        rw [List.foldl_concat, observe, if_neg hvalid]
        rfl
      rw [hsame]
      exact hI

def smallConfig : Config := ⟨1000, 10, 5, 12, 6, 90, 100⟩

theorem smallConfig_lawful :
    AtEachStep (fun before o => validateObservation o = true →
      Lawful smallConfig (run smallConfig before) o (run smallConfig (before ++ [o])))
      [⟨1000, 40, 0⟩] := by
  refine (hysteresis_iff (by decide +kernel) _).mpr fun o ho _ => ?_
  rw [List.mem_singleton.mp ho]
  unfold Fits
  decide +kernel

/-- Of 2^62 bytes a fiftieth is free, less than the floor of five percent: 5 * 2^62 wraps. -/
theorem hugeFilesystem_not_degraded :
    let o : Observation := ⟨2 ^ 62, 2 ^ 62 / 50, 0⟩
    smallConfig.accepted = true ∧ validateObservation o = true ∧
      (run smallConfig [o]).degraded = false ∧
      o.filesystemFreeBytes.toInt < floorOf 10 o.filesystemTotalBytes 5 := by
  decide +kernel

end DockLattice.DiskBudget
