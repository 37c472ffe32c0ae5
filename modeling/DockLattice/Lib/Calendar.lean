import DockLattice.Lib.Text

/-!
# DockLattice.Lib.Calendar

Points in time as UTC dates and times of day, and the texts Go writes for them with the layout
`time.RFC3339Nano`. A fraction is written without its trailing zeros: across seconds the order of the
texts is the order of the moments, inside a second it is the other way round exactly where the digits
of one fraction go on where those of the other end (`format_le_iff`).
-/

namespace DockLattice.Calendar

open Bytes List

variable {a b : Moment} {k m n : Nat} {x y : Text}

/-! ## Dates -/

def isLeap (year : Int) : Bool := year % 4 = 0 && (year % 100 ≠ 0 || year % 400 = 0)

def leapDay (year : Int) : Nat := if isLeap year then 1 else 0

def monthStart (year : Int) : Nat → Nat
  | 0 | 1 => 0
  | 2 => 31
  | 3 => 59 + leapDay year
  | 4 => 90 + leapDay year
  | 5 => 120 + leapDay year
  | 6 => 151 + leapDay year
  | 7 => 181 + leapDay year
  | 8 => 212 + leapDay year
  | 9 => 243 + leapDay year
  | 10 => 273 + leapDay year
  | 11 => 304 + leapDay year
  | 12 => 334 + leapDay year
  | _ + 13 => 365 + leapDay year

def daysIn (year : Int) (month : Nat) : Nat := monthStart year (month + 1) - monthStart year month

def yearStart (year : Int) : Int :=
  365 * year + (year + 3) / 4 - (year + 99) / 100 + (year + 399) / 400

theorem leapDay_le (year : Int) : leapDay year ≤ 1 := by
  unfold leapDay
  split <;> omega

theorem yearStart_succ (year : Int) :
    yearStart (year + 1) = yearStart year + 365 + leapDay year := by
  simp only [yearStart, leapDay, isLeap, Bool.and_eq_true, Bool.or_eq_true, decide_eq_true_eq]
  split <;> push_cast <;> omega

theorem yearStart_le {year year' : Int} (h : year < year') :
    yearStart year + 365 + leapDay year ≤ yearStart year' := by
  rw [← yearStart_succ]
  simp only [yearStart]
  omega

theorem monthStart_le (year : Int) (h : m ≤ n) : monthStart year m ≤ monthStart year n := by
  have hstep : ∀ k, monthStart year k ≤ monthStart year (k + 1) := by
    intro k
    have := leapDay_le year
    unfold monthStart
    split <;> omega
  induction h with
  | refl => exact Nat.le_refl _
  | step _ ih => exact Nat.le_trans ih (hstep _)

theorem daysIn_le (year : Int) {month : Nat} (h₁ : 1 ≤ month) (h₂ : month ≤ 12) :
    daysIn year month ≤ 31 := by
  have := leapDay_le year
  interval_cases month <;> simp only [daysIn, monthStart] <;> omega

/-! ## Points in time -/

structure Moment where
  year : Int
  month : Nat
  day : Nat
  hour : Nat
  minute : Nat
  second : Nat
  nanos : Nat
  month_pos : 1 ≤ month
  month_le : month ≤ 12
  day_pos : 1 ≤ day
  day_le : day ≤ daysIn year month
  hour_lt : hour < 24
  minute_lt : minute < 60
  second_lt : second < 60
  nanos_lt : nanos < 10 ^ 9
  deriving DecidableEq, Repr

namespace Moment

def days (t : Moment) : Int := yearStart t.year + monthStart t.year t.month + t.day - 1

def seconds (t : Moment) : Int := ((t.days * 24 + t.hour) * 60 + t.minute) * 60 + t.second

def instant (t : Moment) : Int := t.seconds * 10 ^ 9 + t.nanos

def Before (a b : Moment) : Prop :=
  a.year < b.year ∨ (a.year = b.year ∧ (a.month < b.month ∨ (a.month = b.month ∧
    (a.day < b.day ∨ (a.day = b.day ∧ (a.hour < b.hour ∨ (a.hour = b.hour ∧
      (a.minute < b.minute ∨ (a.minute = b.minute ∧ a.second < b.second)))))))))

def Together (a b : Moment) : Prop :=
  a.year = b.year ∧ a.month = b.month ∧ a.day = b.day ∧ a.hour = b.hour ∧ a.minute = b.minute ∧
    a.second = b.second

theorem before_or (a b : Moment) : a.Before b ∨ a.Together b ∨ b.Before a := by
  simp only [Before, Together]
  omega

theorem Together.seconds (h : a.Together b) : a.seconds = b.seconds := by
  obtain ⟨hy, hm, hd, hh, hn, hs⟩ := h
  simp only [Moment.seconds, days, hy, hm, hd, hh, hn, hs]

theorem days_lt_of_year (h : a.year < b.year) : a.days < b.days := by
  have hyear := yearStart_le h
  have hend : monthStart a.year a.month + a.day ≤ 365 + leapDay a.year := by
    have h13 := monthStart_le a.year (show a.month + 1 ≤ 13 by have := a.month_le; omega)
    have hday := a.day_le
    have hmono := monthStart_le a.year (Nat.le_succ a.month)
    simp only [daysIn] at hday
    have : monthStart a.year 13 = 365 + leapDay a.year := rfl
    simp only [Nat.succ_eq_add_one] at hmono
    omega
  have hb := b.day_pos
  simp only [days]
  omega

theorem days_lt_of_month (hy : a.year = b.year) (h : a.month < b.month) : a.days < b.days := by
  have hmono := monthStart_le a.year (show a.month + 1 ≤ b.month from h)
  have hle := monthStart_le a.year (Nat.le_succ a.month)
  have hday := a.day_le
  have hb := b.day_pos
  simp only [daysIn, Nat.succ_eq_add_one] at hday hle
  simp only [days, ← hy]
  omega

theorem Before.seconds_lt (h : a.Before b) : a.seconds < b.seconds := by
  have ha := a.hour_lt
  have ha' := a.minute_lt
  have ha'' := a.second_lt
  have hle : a.days < b.days ∨ (a.days = b.days ∧ (a.hour < b.hour ∨ (a.hour = b.hour ∧
      (a.minute < b.minute ∨ (a.minute = b.minute ∧ a.second < b.second))))) := by
    rcases h with hy | ⟨hy, hm | ⟨hm, hd | ⟨hd, hrest⟩⟩⟩
    · exact .inl (days_lt_of_year hy)
    · exact .inl (days_lt_of_month hy hm)
    · refine .inl ?_
      simp only [days, hy, hm]
      omega
    · refine .inr ⟨?_, hrest⟩
      simp only [days, hy, hm, hd]
  simp only [seconds]
  omega

end Moment

/-! ## Decimal digits -/

def digit (n : Nat) : Byte := UInt8.ofNat (48 + n % 10)

def pad : Nat → Nat → Text
  | 0, _ => []
  | k + 1, n => pad k (n / 10) ++ [digit n]

@[simp] theorem length_pad (k n : Nat) : (pad k n).length = k := by
  induction k generalizing n with
  | zero => rfl
  | succ k ih => simp [pad, ih]

theorem digit_lt : digit m < digit n ↔ m % 10 < n % 10 := by
  simp only [digit, UInt8.lt_iff_toNat_lt, UInt8.toNat_ofNat']
  omega

theorem digit_inj : digit m = digit n ↔ m % 10 = n % 10 := by
  simp only [digit, ← UInt8.toNat_inj, UInt8.toNat_ofNat']
  omega

theorem pad_append_lt_iff (hm : m < 10 ^ k) (hn : n < 10 ^ k) :
    pad k m ++ x < pad k n ++ y ↔ m < n ∨ m = n ∧ x < y := by
  induction k generalizing m n x y with
  | zero =>
    obtain ⟨rfl, rfl⟩ : m = 0 ∧ n = 0 := by omega
    simp [pad]
  | succ k ih =>
    rw [Nat.pow_succ] at hm hn
    have hm' : m / 10 < 10 ^ k := by omega
    have hn' : n / 10 < 10 ^ k := by omega
    simp only [pad, append_assoc, singleton_append, ih hm' hn', cons_lt_cons_iff, digit_lt, digit_inj]
    by_cases hxy : x < y
    · simp only [hxy, and_true]
      omega
    · simp only [hxy, and_false, or_false]
      omega

theorem pad_lt_iff (hm : m < 10 ^ k) (hn : n < 10 ^ k) : pad k m < pad k n ↔ m < n := by
  have h := pad_append_lt_iff (x := []) (y := []) hm hn
  simpa using h

theorem pad_inj (hm : m < 10 ^ k) (hn : n < 10 ^ k) (h : pad k m = pad k n) : m = n := by
  have hlt := pad_lt_iff hm hn
  have hgt := pad_lt_iff hn hm
  simp only [h, List.lt_irrefl, false_iff] at hlt hgt
  omega

theorem mem_pad {b : Byte} (h : b ∈ pad k n) : 48 ≤ b ∧ b ≤ 57 := by
  induction k generalizing n with
  | zero => cases h
  | succ k ih =>
    rw [pad, mem_append, mem_singleton] at h
    rcases h with h | rfl
    · exact ih h
    · simp only [digit, UInt8.le_iff_toNat_le, UInt8.toNat_ofNat']
      simp
      omega

/-! ## Where two texts part -/

/-- At the first place where they differ, `x` has the smaller byte. -/
def Diverges (x y : Text) : Prop :=
  ∃ p d e x' y', x = p ++ d :: x' ∧ y = p ++ e :: y' ∧ d < e

/-- `y` goes on where `x` ends. -/
def Extends (x y : Text) : Prop := ∃ d z, y = x ++ d :: z

theorem lt_or (x y : Text) : x = y ∨ x < y ∨ y < x := by
  by_cases h : x < y
  · exact .inr (.inl h)
  · rcases List.le_iff_lt_or_eq.mp (List.not_lt.mp h) with h | h
    · exact .inr (.inr h)
    · exact .inl h.symm

theorem parts (h : x < y) : Extends x y ∨ Diverges x y := by
  induction h with
  | nil => exact .inl ⟨_, _, rfl⟩
  | cons _ ih =>
    rcases ih with ⟨d, z, rfl⟩ | ⟨p, d, e, x', y', rfl, rfl, hde⟩
    · exact .inl ⟨d, z, rfl⟩
    · exact .inr ⟨_ :: p, d, e, x', y', rfl, rfl, hde⟩
  | rel hde => exact .inr ⟨[], _, _, _, _, rfl, rfl, hde⟩

theorem Extends.lt (h : Extends x y) : x < y := by
  obtain ⟨d, z, rfl⟩ := h
  have h : x ++ [] < x ++ d :: z := append_left_lt (nil_lt_cons d z)
  rwa [append_nil] at h

theorem Diverges.append_lt (h : Diverges x y) (r r' : Text) : x ++ r < y ++ r' := by
  obtain ⟨p, d, e, x', y', rfl, rfl, hde⟩ := h
  rw [append_assoc, append_assoc, Text.append_left_lt_iff]
  simp [cons_lt_cons_iff, hde]

theorem zeros_lt {zs v : Text} (hz : ∀ b ∈ zs, b = 48) (hlen : zs.length = v.length)
    (hv : ∀ b ∈ v, 48 ≤ b) (hne : ∃ b ∈ v, b ≠ 48) : zs < v := by
  obtain ⟨b, hb, hne⟩ := hne
  rcases lt_or zs v with rfl | hlt | hlt
  · exact absurd (hz b hb) hne
  · exact hlt
  · rcases parts hlt with ⟨d, z, rfl⟩ | ⟨p, d, e, x, y, rfl, rfl, hde⟩
    · simp at hlen
    · rw [hz e (by simp)] at hde
      exact absurd hde (UInt8.not_lt.mpr (hv d (by simp)))

/-! ## Fractions of a second -/

def fraction (nanos : Nat) : Text := (pad 9 nanos).rdropWhile (· = 48)

theorem pad_eq_fraction (n : Nat) :
    ∃ zs : Text, (∀ b ∈ zs, b = 48) ∧ pad 9 n = fraction n ++ zs := by
  refine ⟨(pad 9 n).rtakeWhile (· = 48), ?_, rdropWhile_append_rtakeWhile.symm⟩
  intro b hb
  simpa using mem_rtakeWhile_imp hb

theorem mem_fraction {b : Byte} (h : b ∈ fraction n) : 48 ≤ b ∧ b ≤ 57 :=
  mem_pad (( rdropWhile_prefix _ _).subset h)

theorem Extends.nonzero {d : Byte} {z : Text} (h : fraction n = x ++ d :: z) :
    ∃ b ∈ d :: z, b ≠ 48 := by
  have hne : fraction n ≠ [] := by rw [h]; simp
  have hlast := rdropWhile_last_not (fun b => decide (b = 48)) (pad 9 n) hne
  refine ⟨(d :: z).getLast (by simp), getLast_mem _, ?_⟩
  have : (fraction n).getLast hne = (d :: z).getLast (by simp) := by
    simp only [h]
    exact getLast_append_of_ne_nil _ (by simp)
  rw [← this]
  simpa [fraction] using hlast

theorem fraction_lt (hm : m < 10 ^ 9) (hn : n < 10 ^ 9)
    (h : fraction m < fraction n) : m < n := by
  obtain ⟨zs, hzs, hm'⟩ := pad_eq_fraction m
  obtain ⟨ws, hws, hn'⟩ := pad_eq_fraction n
  have hlt : pad 9 m < pad 9 n := by
    rcases parts h with ⟨d, z, h⟩ | h
    swap
    · rw [hm', hn']
      exact h.append_lt zs ws
    have hnz := Extends.nonzero h
    have hlen := congrArg List.length hn'
    have hlen' := congrArg List.length hm'
    rw [hm', hn', h, append_assoc, Text.append_left_lt_iff]
    rw [h] at hlen
    simp only [length_pad, length_append, length_cons] at hlen hlen'
    refine zeros_lt hzs (by simp only [length_append, length_cons]; omega) ?_ ?_
    · intro b hb
      have : b ∈ pad 9 n := by
        rw [hn', h, append_assoc]
        exact mem_append_right _ hb
      exact (mem_pad this).1
    · obtain ⟨b, hb, hne⟩ := hnz
      exact ⟨b, mem_append_left _ hb, hne⟩
  exact (pad_lt_iff hm hn).mp hlt

theorem fraction_inj (hm : m < 10 ^ 9) (hn : n < 10 ^ 9) (h : fraction m = fraction n) : m = n := by
  obtain ⟨zs, hzs, hm'⟩ := pad_eq_fraction m
  obtain ⟨ws, hws, hn'⟩ := pad_eq_fraction n
  have hlen : zs.length = ws.length := by
    have h₁ := congrArg List.length hm'
    have h₂ := congrArg List.length hn'
    rw [h] at h₁
    simp only [length_pad, length_append] at h₁ h₂
    omega
  have hzw : zs = ws :=
    (eq_replicate_iff.mpr ⟨rfl, hzs⟩).trans
      (hlen ▸ (eq_replicate_iff.mpr ⟨rfl, hws⟩).symm)
  refine pad_inj hm hn ?_
  rw [hm', hn', h, hzw]

def tail (nanos : Nat) : Text :=
  (if fraction nanos = [] then [] else 46 :: fraction nanos) ++ [90]

theorem length_tail_le (nanos : Nat) : (tail nanos).length ≤ 11 := by
  have h := ( rdropWhile_prefix (· = 48) (pad 9 nanos)).length_le
  rw [length_pad] at h
  unfold tail fraction
  split
  · simp
  · simp only [length_append, length_cons, length_nil]
    omega

theorem tail_lt (h : Diverges (fraction m) (fraction n) ∨ Extends (fraction n) (fraction m)) :
    tail m < tail n := by
  rcases h with h | ⟨d, z, h⟩
  · have hm : fraction m ≠ [] := by obtain ⟨p, d, e, x, y, hx, -, -⟩ := h; rw [hx]; simp
    have hn : fraction n ≠ [] := by obtain ⟨p, d, e, x, y, -, hy, -⟩ := h; rw [hy]; simp
    simp only [tail, if_neg hm, if_neg hn, cons_append, cons_lt_cons_iff]
    exact .inr ⟨trivial, h.append_lt _ _⟩
  have hm : fraction m ≠ [] := by rw [h]; simp
  have hd : d < 90 := by
    have := (mem_fraction (n := m) (b := d) (by rw [h]; simp)).2
    exact UInt8.lt_of_le_of_lt this (by decide)
  by_cases hn : fraction n = []
  · simp only [tail, if_neg hm, if_pos hn, cons_append, nil_append, cons_lt_cons_iff]
    exact .inl (by decide)
  · simp only [tail, if_neg hm, if_neg hn, cons_append, cons_lt_cons_iff]
    refine .inr ⟨trivial, ?_⟩
    rw [h, append_assoc, Text.append_left_lt_iff, cons_append, cons_lt_cons_iff]
    exact .inl hd

theorem tail_lt_iff (h : fraction m < fraction n) :
    (tail n < tail m ↔ Extends (fraction m) (fraction n)) ∧
      (tail m < tail n ↔ ¬ Extends (fraction m) (fraction n)) := by
  rcases parts h with he | hd
  · have hlt := tail_lt (.inr he)
    simp only [hlt, List.lt_asymm hlt, he, not_true_eq_false, and_self]
  · have hlt := tail_lt (.inl hd)
    have hno : ¬ Extends (fraction m) (fraction n) := fun he =>
      List.lt_asymm hlt (tail_lt (.inr he))
    simp only [hlt, List.lt_asymm hlt, hno, not_false_eq_true, and_self]

/-! ## The text of a moment -/

/-- Years are written with four digits, with more if they need them, and with a sign if they are
negative. -/
def yearText (year : Int) : Text :=
  (if year < 0 then text "-" else []) ++
    (if year.natAbs < 10000 then pad 4 year.natAbs else text (toString year.natAbs))

namespace Moment

/-- The date and time of day, followed by `rest`. -/
def writeTo (t : Moment) (rest : Text) : Text :=
  yearText t.year ++ (text "-" ++ (pad 2 t.month ++ (text "-" ++ (pad 2 t.day ++ (text "T" ++
    (pad 2 t.hour ++ (text ":" ++ (pad 2 t.minute ++ (text ":" ++ (pad 2 t.second ++ rest))))))))))

/-- `time.RFC3339Nano`, in UTC. -/
def format (t : Moment) : Text := t.writeTo (tail t.nanos)

def FourDigits (t : Moment) : Prop := 0 ≤ t.year ∧ t.year < 10000

theorem yearText_append_lt_iff (ha : a.FourDigits) (hb : b.FourDigits) :
    yearText a.year ++ x < yearText b.year ++ y ↔ a.year < b.year ∨ a.year = b.year ∧ x < y := by
  obtain ⟨ha, ha'⟩ := ha
  obtain ⟨hb, hb'⟩ := hb
  have hpad : ∀ y : Int, 0 ≤ y → y < 10000 → yearText y = pad 4 y.natAbs := by
    intro y h₀ h₁
    rw [yearText, if_neg (by omega), if_pos (by omega), nil_append]
  have hlt : a.year.natAbs < b.year.natAbs ↔ a.year < b.year := by omega
  have heq : a.year.natAbs = b.year.natAbs ↔ a.year = b.year := by omega
  rw [hpad _ ha ha', hpad _ hb hb', pad_append_lt_iff (by omega) (by omega), hlt, heq]

theorem writeTo_lt_iff (ha : a.FourDigits) (hb : b.FourDigits) :
    a.writeTo x < b.writeTo y ↔ a.Before b ∨ (a.Together b ∧ x < y) := by
  have hmonth : ∀ t : Moment, t.month < 10 ^ 2 := fun t => t.month_le.trans_lt (by decide)
  have hday : ∀ t : Moment, t.day < 10 ^ 2 := fun t =>
    (t.day_le.trans (daysIn_le t.year t.month_pos t.month_le)).trans_lt (by decide)
  have hhour : ∀ t : Moment, t.hour < 10 ^ 2 := fun t => t.hour_lt.trans (by decide)
  have hminute : ∀ t : Moment, t.minute < 10 ^ 2 := fun t => t.minute_lt.trans (by decide)
  have hsecond : ∀ t : Moment, t.second < 10 ^ 2 := fun t => t.second_lt.trans (by decide)
  simp only [writeTo, Text.append_left_lt_iff, yearText_append_lt_iff ha hb,
    pad_append_lt_iff (hmonth a) (hmonth b), pad_append_lt_iff (hday a) (hday b),
    pad_append_lt_iff (hhour a) (hhour b), pad_append_lt_iff (hminute a) (hminute b),
    pad_append_lt_iff (hsecond a) (hsecond b), Before, Together]
  tauto

theorem Together.writeTo_lt (h : a.Together b) {r r' : Text} :
    a.writeTo r < b.writeTo r' ↔ r < r' := by
  obtain ⟨hy, hm, hd, hh, hn, hs⟩ := h
  simp only [writeTo, hy, hm, hd, hh, hn, hs, Text.append_left_lt_iff]

/-- Two moments of one second, of which one has the digits of the other's fraction and more. -/
def Swapped (a b : Moment) : Prop :=
  a.seconds = b.seconds ∧ (Extends (fraction a.nanos) (fraction b.nanos) ∨
    Extends (fraction b.nanos) (fraction a.nanos))

/-- The order of the texts is the order of the moments, but for moments of one second of which one
has the digits of the other's fraction and more. -/
theorem format_le_iff (ha : a.FourDigits) (hb : b.FourDigits) :
    (a.format ≤ b.format ↔ a.instant ≤ b.instant) ↔ ¬ Swapped a b := by
  have hna := a.nanos_lt
  have hnb := b.nanos_lt
  rw [← List.not_lt]
  rcases before_or a b with hlt | hto | hlt
  · have hsec := hlt.seconds_lt
    have htext : ¬ b.format < a.format := List.lt_asymm ((writeTo_lt_iff ha hb).mpr (.inl hlt))
    have hins : a.instant ≤ b.instant := by simp only [instant]; omega
    simp only [htext, not_false_eq_true, hins, Swapped, true_iff]
    omega
  · have hsec := hto.seconds
    have htext : b.format < a.format ↔ tail b.nanos < tail a.nanos :=
      Together.writeTo_lt ⟨hto.1.symm, hto.2.1.symm, hto.2.2.1.symm, hto.2.2.2.1.symm,
        hto.2.2.2.2.1.symm, hto.2.2.2.2.2.symm⟩
    have hins : a.instant ≤ b.instant ↔ a.nanos ≤ b.nanos := by simp only [instant]; omega
    rw [htext, hins]
    simp only [Swapped, hsec, true_and]
    rcases lt_or (fraction a.nanos) (fraction b.nanos) with he | hlt | hlt
    · have hself : ∀ x : Text, ¬ Extends x x := fun x h => List.lt_irrefl x h.lt
      simp only [fraction_inj hna hnb he, List.lt_irrefl, not_false_eq_true, Nat.le_refl, hself, or_self]
    · have hle : a.nanos ≤ b.nanos := Nat.le_of_lt (fraction_lt hna hnb hlt)
      have hno : ¬ Extends (fraction b.nanos) (fraction a.nanos) := fun h => List.lt_asymm hlt h.lt
      simp only [(tail_lt_iff hlt).1, hle, hno, or_false, iff_true]
    · have hle : ¬ a.nanos ≤ b.nanos := Nat.not_le.mpr (fraction_lt hnb hna hlt)
      have hno : ¬ Extends (fraction a.nanos) (fraction b.nanos) := fun h => List.lt_asymm hlt h.lt
      simp only [(tail_lt_iff hlt).2, hle, hno, false_or, iff_false, not_not]
  · have hsec := hlt.seconds_lt
    have htext : b.format < a.format := (writeTo_lt_iff hb ha).mpr (.inl hlt)
    have hins : ¬ a.instant ≤ b.instant := by simp only [instant]; omega
    simp only [htext, hins, Swapped, not_true_eq_false, true_iff]
    omega

end Moment
end DockLattice.Calendar
