import DockLattice.Lib.Bytes

/-!
# DockLattice.Lib.JsonTime

Instants that cross a JSON boundary as RFC 3339 texts, and their 64-bit nanosecond counts
(`Time.UnixNano`). The range of the texts is about seventeen times that of the register, so a count
stands for a residue class of instants (`unixNano_eq`).
-/

namespace DockLattice

open Bytes

def second : Int := 10 ^ 9

structure JsonTime where
  /-- The written date and time, counted as if it were UTC. -/
  civil : Int
  /-- The written offset from UTC in minutes. -/
  offset : Int
  civil_ge : -62167219200 * second ≤ civil
  civil_lt : civil < 253402300800 * second
  offset_gt : -1440 < offset
  offset_lt : offset < 1440
  deriving DecidableEq, Repr

namespace JsonTime

def instant (t : JsonTime) : Int := t.civil - t.offset * 60 * second

def earliest : Int := (-62167219200 - 86340) * second

def latest : Int := (253402300800 + 86340) * second - 1

theorem earliest_le (t : JsonTime) : earliest ≤ t.instant := by
  have h₁ := t.civil_ge
  have h₂ := t.offset_lt
  simp only [instant, earliest, second] at *
  omega

theorem le_latest (t : JsonTime) : t.instant ≤ latest := by
  have h₁ := t.civil_lt
  have h₂ := t.offset_gt
  simp only [instant, latest, second] at *
  omega

theorem exists_instant {n : Int} (hl : earliest ≤ n) (hu : n ≤ latest) :
    ∃ t : JsonTime, t.instant = n := by
  simp only [earliest, latest, second] at hl hu
  by_cases h₁ : n < -62167219200 * second
  · refine ⟨⟨n + 1439 * 60 * second, 1439, ?_, ?_, ?_, ?_⟩, ?_⟩ <;>
      simp only [instant, second] at * <;> omega
  by_cases h₂ : n < 253402300800 * second
  · refine ⟨⟨n, 0, ?_, ?_, ?_, ?_⟩, ?_⟩ <;> simp only [instant, second] at * <;> omega
  · refine ⟨⟨n - 1439 * 60 * second, -1439, ?_, ?_, ?_, ?_⟩, ?_⟩ <;>
      simp only [instant, second] at * <;> omega

/-- The zero `time.Time`: 0001-01-01T00:00:00Z. -/
def isZero (t : JsonTime) : Bool := t.instant = -62135596800 * second

/-- `Time.UnixNano`, as the bits of the 64-bit register. -/
def unixNano (t : JsonTime) : Nat := (t.instant % 2 ^ 64).toNat

theorem unixNano_lt (t : JsonTime) : t.unixNano < 256 ^ 8 := by
  simp only [unixNano]
  omega

theorem unixNano_eq {t u : JsonTime} :
    t.unixNano = u.unixNano ↔ t.instant ≡ u.instant [ZMOD 2 ^ 64] := by
  simp only [unixNano, Int.ModEq]
  omega

/-- The instants `UnixNano` represents: those of the years 1677 to 2262. -/
def InRange (t : JsonTime) : Prop := -2 ^ 63 ≤ t.instant ∧ t.instant < 2 ^ 63

theorem InRange.eq_of_modEq {t u : JsonTime} (ht : t.InRange) (hu : u.InRange)
    (h : t.instant ≡ u.instant [ZMOD 2 ^ 64]) : t.instant = u.instant := by
  simp only [InRange, Int.ModEq] at *
  omega

/-- The last instant a JSON time can name that has the nanosecond count of `n`. -/
def lastAlias (n : Int) : Int := n + 2 ^ 64 * ((latest - n) / 2 ^ 64)

theorem lastAlias_modEq (n : Int) : lastAlias n ≡ n [ZMOD 2 ^ 64] := by
  simp only [lastAlias, Int.ModEq]
  omega

theorem lastAlias_le (n : Int) : lastAlias n ≤ latest := by
  simp only [lastAlias]
  omega

theorem latest_lt_lastAlias (n : Int) : latest < lastAlias n + 2 ^ 64 := by
  simp only [lastAlias]
  omega

theorem le_lastAlias {m n : Int} (h : m ≡ n [ZMOD 2 ^ 64]) (hm : m ≤ latest) :
    m ≤ lastAlias n := by
  simp only [lastAlias, Int.ModEq] at *
  omega

end JsonTime
end DockLattice
