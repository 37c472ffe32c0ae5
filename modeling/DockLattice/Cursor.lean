import Mathlib

/-!
# DockLattice.Cursor

Audit cursors and the clock readings of the audit subsystem.

A cursor is a pair of an Agent incarnation and a sequence number inside it; both components are
positive in every cursor that is ever assigned. The WAL, the Server store and the transport each
declare the same type in the source and compare it the same way, so it is declared once here.
-/

namespace DockLattice

variable {a b c : Cursor}

def maxUint64 : Nat := 2 ^ 64 - 1

def maxInt64 : Nat := 2 ^ 63 - 1

structure Cursor where
  incarnation : Nat
  seq : Nat
  deriving DecidableEq, Repr, Inhabited

/-- An instant that `time.Time.UnixNano` represents: nanoseconds since the epoch, 64 bits. -/
structure Instant where
  nanos : Int
  lower : -2 ^ 63 ≤ nanos
  upper : nanos < 2 ^ 63
  deriving DecidableEq, Repr

namespace Instant

@[ext] theorem ext {a b : Instant} (h : a.nanos = b.nanos) : a = b := by
  cases a; cases b; simp_all

def zero : Instant := ⟨0, by decide, by decide⟩

instance : Inhabited Instant := ⟨zero⟩

end Instant

namespace Cursor

/-- The order of the source's `compareCursor`: incarnation first, then sequence. -/
instance : LT Cursor where
  lt a b := a.incarnation < b.incarnation ∨ (a.incarnation = b.incarnation ∧ a.seq < b.seq)

instance : LE Cursor where
  le a b := a.incarnation < b.incarnation ∨ (a.incarnation = b.incarnation ∧ a.seq ≤ b.seq)

theorem lt_def :
    a < b ↔ a.incarnation < b.incarnation ∨ (a.incarnation = b.incarnation ∧ a.seq < b.seq) :=
  Iff.rfl

theorem le_def :
    a ≤ b ↔ a.incarnation < b.incarnation ∨ (a.incarnation = b.incarnation ∧ a.seq ≤ b.seq) :=
  Iff.rfl

instance (a b : Cursor) : Decidable (a < b) := decidable_of_iff' _ lt_def

instance (a b : Cursor) : Decidable (a ≤ b) := decidable_of_iff' _ le_def

@[ext] theorem ext (hi : a.incarnation = b.incarnation) (hs : a.seq = b.seq) : a = b := by
  cases a; cases b; simp_all

instance : LinearOrder Cursor where
  le_refl a := by rw [le_def]; omega
  le_trans a b c h₁ h₂ := by rw [le_def] at *; omega
  lt_iff_le_not_ge a b := by rw [lt_def, le_def, le_def]; omega
  le_antisymm a b h₁ h₂ := by rw [le_def] at *; ext <;> omega
  le_total a b := by rw [le_def, le_def]; omega
  toDecidableLE := inferInstance
  toDecidableEq := inferInstance
  toDecidableLT := inferInstance

end Cursor

def compareCursor (left right : Cursor) : Int :=
  if left.incarnation < right.incarnation then -1
  else if left.incarnation > right.incarnation then 1
  else if left.seq < right.seq then -1
  else if left.seq > right.seq then 1
  else 0

theorem compareCursor_cases (a b : Cursor) :
    (a < b ∧ compareCursor a b = -1) ∨ (a = b ∧ compareCursor a b = 0) ∨
      (b < a ∧ compareCursor a b = 1) := by
  obtain ⟨ai, as⟩ := a
  obtain ⟨bi, bs⟩ := b
  simp only [compareCursor, Cursor.lt_def, Cursor.mk.injEq]
  split
  · omega
  split
  · omega
  · split
    · omega
    · split <;> omega

@[simp] theorem compareCursor_lt_zero : compareCursor a b < 0 ↔ a < b := by
  have h := compareCursor_cases a b
  simp only [Cursor.lt_def, Cursor.ext_iff] at *
  omega

@[simp] theorem compareCursor_le_zero : compareCursor a b ≤ 0 ↔ a ≤ b := by
  have h := compareCursor_cases a b
  simp only [Cursor.lt_def, Cursor.le_def, Cursor.ext_iff] at *
  omega

@[simp] theorem compareCursor_gt_zero : 0 < compareCursor a b ↔ b < a := by
  have h := compareCursor_cases a b
  simp only [Cursor.lt_def, Cursor.ext_iff] at *
  omega

@[simp] theorem compareCursor_ge_zero : 0 ≤ compareCursor a b ↔ b ≤ a := by
  have h := compareCursor_cases a b
  simp only [Cursor.lt_def, Cursor.le_def, Cursor.ext_iff] at *
  omega

end DockLattice
