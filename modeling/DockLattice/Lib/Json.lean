import DockLattice.Lib.Calendar
import DockLattice.Lib.JsonTime
import DockLattice.Lib.Utf8

/-!
# DockLattice.Lib.Json

The JSON that Go's `encoding/json` writes, as far as its length matters: quoted strings with HTML
escaping, decimal numbers, RFC 3339 times with nanoseconds, and objects.

Escaping makes a string at most six times as long (`length_quote_le`), a time of the years 0000 to
9999 takes at most thirty bytes (`length_rfc3339Nano_le`), and an object is as long as its fields
with four bytes for each (`length_object_le`).
-/

namespace DockLattice.Json

open Bytes List
open Calendar (pad)

/-! ## Numbers -/

def decimal (n : Nat) : Text :=
  if n = 0 then [48] else (Nat.digits 10 n).reverse.map fun d => UInt8.ofNat (48 + d)

theorem decimal_ascii (n : Nat) : ∀ b ∈ decimal n, 48 ≤ b ∧ b ≤ 57 := by
  intro b hb
  unfold decimal at hb
  split at hb
  · rw [mem_singleton.mp hb]
    decide
  simp only [mem_map, mem_reverse] at hb
  obtain ⟨d, hd, rfl⟩ := hb
  have hlt : d < 10 := Nat.digits_lt_base (by omega) hd
  rw [UInt8.le_iff_toNat_le, UInt8.le_iff_toNat_le, UInt8.toNat_ofNat']
  show 48 ≤ (48 + d) % 256 ∧ (48 + d) % 256 ≤ 57
  omega

theorem length_decimal_le {n k : Nat} (hk : 0 < k) (h : n < 10 ^ k) : (decimal n).length ≤ k := by
  unfold decimal
  split
  · simp only [length_singleton]
    omega
  · simp only [length_map, length_reverse]
    exact (Nat.digits_length_le_iff (by omega) n).mpr h

/-! ## Strings -/

def hexDigit (n : Nat) : Byte := if n < 10 then UInt8.ofNat (48 + n) else UInt8.ofNat (87 + n)

def escapeByte (b : Byte) : Text :=
  if b = 0x22 || b = 0x5C then [0x5C, b]
  else if b = 0x08 then text "\\b"
  else if b = 0x0C then text "\\f"
  else if b = 0x0A then text "\\n"
  else if b = 0x0D then text "\\r"
  else if b = 0x09 then text "\\t"
  else if b < 0x20 || b = 0x3C || b = 0x3E || b = 0x26 then
    text "\\u00" ++ [hexDigit (b.toNat / 16), hexDigit (b.toNat % 16)]
  else [b]

/-- The escaped form of valid text, after leaving out its first `skip` bytes. U+2028 and U+2029
are the only runes beyond ASCII that are escaped. -/
def escape : Nat → Text → Text
  | _, [] => []
  | skip + 1, _ :: s => escape skip s
  | 0, b :: s =>
    if b = 0xE2 && s.take 2 = [0x80, 0xA8] then text "\\u2028" ++ escape 2 s
    else if b = 0xE2 && s.take 2 = [0x80, 0xA9] then text "\\u2029" ++ escape 2 s
    else escapeByte b ++ escape 0 s

def quote (s : Text) : Text := [0x22] ++ escape 0 s ++ [0x22]

theorem length_escapeByte_le (b : Byte) : (escapeByte b).length ≤ 6 := by
  have hall : ∀ n : Fin 256, (escapeByte (UInt8.ofFin n)).length ≤ 6 := by decide +kernel
  exact hall b.toFin

theorem length_escape_le (skip : Nat) (s : Text) : (escape skip s).length ≤ 6 * s.length := by
  have h₁ : (text "\\u2028").length = 6 := by decide +kernel
  have h₂ : (text "\\u2029").length = 6 := by decide +kernel
  induction s generalizing skip with
  | nil => cases skip <;> simp [escape]
  | cons b s ih =>
    cases skip with
    | succ skip =>
      have := ih skip
      simp only [escape, length_cons]
      omega
    | zero =>
      have hb := length_escapeByte_le b
      have i₀ := ih 0
      have i₂ := ih 2
      simp only [escape, length_cons]
      split
      · rw [length_append]; omega
      split
      · rw [length_append]; omega
      · rw [length_append]; omega

theorem length_quote_le (s : Text) : (quote s).length ≤ 6 * s.length + 2 := by
  have := length_escape_le 0 s
  simp only [quote, length_append, length_singleton]
  omega

/-! ## Times -/

/-- Year, month and day of a day counted from 1970-01-01, in the proleptic Gregorian calendar. -/
def civilFromDays (days : Int) : Int × Int × Int :=
  let z := days + 719468
  let era := z / 146097
  let doe := z - era * 146097
  let yoe := (doe - doe / 1460 + doe / 36524 - doe / 146096) / 365
  let doy := doe - (365 * yoe + yoe / 4 - yoe / 100)
  let mp := (5 * doy + 2) / 153
  let day := doy - (153 * mp + 2) / 5 + 1
  let month := if mp < 10 then mp + 3 else mp - 9
  (yoe + era * 400 + (if month ≤ 2 then 1 else 0), month, day)

/-- The instants of the years 0000 to 9999, which are the ones `Time.MarshalJSON` writes. -/
def writableTime (t : Int) : Bool :=
  -62167219200 * second ≤ t && t < 253402300800 * second

/-- A time of those years in UTC, in the layout `time.RFC3339Nano`. -/
def rfc3339Nano (t : Int) : Text :=
  let seconds := t / second
  let date := civilFromDays (seconds / 86400)
  let clock := (seconds % 86400).toNat
  pad 4 date.1.toNat ++ [0x2D] ++ pad 2 date.2.1.toNat ++ [0x2D] ++ pad 2 date.2.2.toNat ++
    [0x54] ++ pad 2 (clock / 3600) ++ [0x3A] ++ pad 2 (clock / 60 % 60) ++ [0x3A] ++
    pad 2 (clock % 60) ++ Calendar.tail (t % second).toNat

example : rfc3339Nano (1767225600 * second + 500000000) = text "2026-01-01T00:00:00.5Z" := by
  decide +kernel

theorem length_rfc3339Nano_le (t : Int) : (rfc3339Nano t).length ≤ 30 := by
  have h := Calendar.length_tail_le (t % second).toNat
  simp only [rfc3339Nano, length_append, Calendar.length_pad, length_singleton]
  omega

/-! ## Objects -/

def field (f : Text × Text) : Text := quote f.1 ++ [0x3A] ++ f.2

def object (fields : List (Text × Text)) : Text :=
  [0x7B] ++ [0x2C].intercalate (fields.map field) ++ [0x7D]

/-- A bound for the length of an object's fields with their separators. -/
def fieldsSize (fields : List (Text × Text)) : Nat :=
  (fields.map fun f => 6 * f.1.length + f.2.length + 4).sum

theorem length_intercalate_le (sep : Text) (parts : List Text) :
    (sep.intercalate parts).length ≤ (parts.map fun p => p.length + sep.length).sum := by
  induction parts with
  | nil => simp
  | cons p parts ih =>
    cases parts with
    | nil => simp
    | cons q parts =>
      simp only [intercalate_cons_cons, length_append, map_cons, sum_cons] at *
      omega

theorem length_object_le (fields : List (Text × Text)) :
    (object fields).length ≤ fieldsSize fields + 2 := by
  have h := length_intercalate_le [0x2C] (fields.map field)
  have hle : ((fields.map field).map fun p => p.length + 1).sum ≤ fieldsSize fields := by
    unfold fieldsSize
    rw [map_map]
    refine sum_le_sum fun f _ => ?_
    have := length_quote_le f.1
    simp only [Function.comp_apply, field, length_append, length_singleton]
    omega
  simp only [length_singleton] at h
  simp only [object, length_append, length_singleton]
  omega

@[simp] theorem fieldsSize_nil : fieldsSize [] = 0 := rfl

@[simp] theorem fieldsSize_cons (f : Text × Text) (fields : List (Text × Text)) :
    fieldsSize (f :: fields) = 6 * f.1.length + f.2.length + 4 + fieldsSize fields := by
  simp [fieldsSize]

@[simp] theorem fieldsSize_append (fields fields' : List (Text × Text)) :
    fieldsSize (fields ++ fields') = fieldsSize fields + fieldsSize fields' := by
  simp [fieldsSize]

end DockLattice.Json
