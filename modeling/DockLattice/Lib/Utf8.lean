import DockLattice.Lib.Text

/-!
# DockLattice.Lib.Utf8

UTF-8 as a machine that reads one byte at a time; a text is valid when the run is back at `ready`.
Validity composes over concatenation (`scan_append`), and what is left of a text after its head was
cut off and `trimPartialLeadingRune` applied has the unfinished part of the whole text
(`scan_trimPartialLeadingRune`).
-/

namespace DockLattice.Utf8

open Bytes List

variable {p q : State} {s : Text} {t : Text}

inductive State where
  | ready
  /-- one, two or three more continuation bytes -/
  | more1 | more2 | more3
  /-- the second byte after `E0`, `ED`, `F0`, `F4`, whose range is narrower -/
  | afterE0 | afterED | afterF0 | afterF4
  deriving DecidableEq, Repr

def State.need : State → Nat
  | .ready => 0
  | .more1 => 1
  | .more2 | .afterE0 | .afterED => 2
  | .more3 | .afterF0 | .afterF4 => 3

def isContinuation (b : Byte) : Bool := 0x80 ≤ b && b ≤ 0xBF

def runeStart (b : Byte) : Bool := !isContinuation b

def feed : State → Byte → Option State
  | .ready, b =>
    if b ≤ 0x7F then some .ready
    else if b ≤ 0xC1 then none
    else if b ≤ 0xDF then some .more1
    else if b = 0xE0 then some .afterE0
    else if b = 0xED then some .afterED
    else if b ≤ 0xEF then some .more2
    else if b = 0xF0 then some .afterF0
    else if b ≤ 0xF3 then some .more3
    else if b = 0xF4 then some .afterF4
    else none
  | .more1, b => if isContinuation b then some .ready else none
  | .more2, b => if isContinuation b then some .more1 else none
  | .more3, b => if isContinuation b then some .more2 else none
  | .afterE0, b => if 0xA0 ≤ b && b ≤ 0xBF then some .more1 else none
  | .afterED, b => if 0x80 ≤ b && b ≤ 0x9F then some .more1 else none
  | .afterF0, b => if 0x90 ≤ b && b ≤ 0xBF then some .more2 else none
  | .afterF4, b => if 0x80 ≤ b && b ≤ 0x8F then some .more2 else none

def scan : State → Text → Option State
  | p, [] => some p
  | p, b :: s =>
    match feed p b with
    | none => none
    | some q => scan q s

def valid (s : Text) : Bool := scan .ready s == some .ready

theorem valid_iff : valid s = true ↔ scan .ready s = some .ready := by
  simp [valid]

/-! ## Runs -/

theorem scan_append (p : State) (s t : Text) :
    scan p (s ++ t) = (scan p s).bind fun q => scan q t := by
  induction s generalizing p with
  | nil => rfl
  | cons b s ih =>
    simp only [cons_append, scan]
    cases feed p b with
    | none => rfl
    | some q => exact ih q

theorem scan_append_of_some (h : scan p s = some q) (t : Text) : scan p (s ++ t) = scan q t := by
  rw [scan_append, h, Option.bind_some]

theorem scan_append_of_valid (h : valid s = true) (t : Text) :
    scan .ready (s ++ t) = scan .ready t :=
  scan_append_of_some (valid_iff.mp h) t

theorem valid_append (hs : valid s = true) (ht : valid t = true) :
    valid (s ++ t) = true := by
  rw [valid_iff, scan_append_of_valid hs]
  exact valid_iff.mp ht

theorem valid_of_ascii (h : ∀ b ∈ s, b ≤ 0x7F) : valid s = true := by
  rw [valid_iff]
  induction s with
  | nil => rfl
  | cons b s ih =>
    simp only [scan, feed, h b (by simp), if_true]
    exact ih fun x hx => h x (by simp [hx])

theorem runeStart_of_feed_ready {b : Byte} (h : feed .ready b = some q) : runeStart b = true := by
  by_cases hc : isContinuation b
  · simp only [isContinuation, Bool.and_eq_true, decide_eq_true_eq] at hc
    have h₁ : ¬ b ≤ 0x7F := UInt8.not_le.mpr (UInt8.lt_of_lt_of_le (by decide) hc.1)
    have h₂ : b ≤ 0xC1 := UInt8.le_trans hc.2 (by decide)
    simp [feed, h₁, h₂] at h
  · simpa [runeStart] using hc

theorem feed_inside {b : Byte} (hp : p ≠ .ready) (h : feed p b = some q) :
    runeStart b = false ∧ q.need + 1 = p.need := by
  have key : ∀ lo hi : Byte, 0x80 ≤ lo → hi ≤ 0xBF → (lo ≤ b && b ≤ hi) = true →
      isContinuation b = true := by
    intro lo hi hlo hhi hb
    simp only [isContinuation, Bool.and_eq_true, decide_eq_true_eq] at *
    exact ⟨UInt8.le_trans hlo hb.1, UInt8.le_trans hb.2 hhi⟩
  cases p with
  | ready => exact absurd rfl hp
  | more1 | more2 | more3 =>
    simp only [feed, Option.ite_none_right_eq_some, Option.some.injEq] at h
    obtain ⟨hb, rfl⟩ := h
    exact ⟨by simp [runeStart, hb], rfl⟩
  | afterE0 | afterED | afterF0 | afterF4 =>
    simp only [feed, Option.ite_none_right_eq_some, Option.some.injEq] at h
    obtain ⟨hb, rfl⟩ := h
    exact ⟨by simp [runeStart, key _ _ (by decide) (by decide) hb], rfl⟩

theorem need_lt_four (p : State) : p.need < 4 := by
  cases p <;> decide

/-! ## Cutting the head off -/

/-- The longest encoding of one rune: `utf8.UTFMax`. -/
def utfMax : Nat := 4

/-- The rest of the text from its first rune start on, if that is one of the next `n` bytes. -/
def fromRuneStart : Nat → Text → Option Text
  | 0, _ => none
  | _ + 1, [] => none
  | n + 1, b :: s => if runeStart b then some (b :: s) else fromRuneStart n s

def trimPartialLeadingRune (tail : Text) : Text :=
  match fromRuneStart utfMax tail with
  | none => tail
  | some rest => rest

theorem fromRuneStart_suffix {n : Nat} {r : Text} (h : fromRuneStart n s = some r) : r <:+ s := by
  induction n, s using fromRuneStart.induct with
  | case1 | case2 => cases h
  | case3 n b s hb =>
    simp only [fromRuneStart, hb, if_true, Option.some.injEq] at h
    exact h ▸ suffix_refl _
  | case4 n b s hb ih =>
    simp only [fromRuneStart, hb] at h
    exact (ih h).trans (suffix_cons b s)

theorem trimPartialLeadingRune_suffix (tail : Text) : trimPartialLeadingRune tail <:+ tail := by
  unfold trimPartialLeadingRune
  split
  · exact suffix_refl _
  · next h => exact fromRuneStart_suffix h

theorem length_trimPartialLeadingRune_le (tail : Text) :
    (trimPartialLeadingRune tail).length ≤ tail.length :=
  (trimPartialLeadingRune_suffix tail).length_le

theorem fromRuneStart_scan {n : Nat} (h : scan p s = some q) (hs : p.need < s.length)
    (hn : p.need < n) : ∃ skipped r, s = skipped ++ r ∧ skipped.length = p.need ∧
      scan p skipped = some .ready ∧ fromRuneStart n s = some r := by
  induction n generalizing p s with
  | zero => omega
  | succ n ih =>
    cases s with
    | nil => simp at hs
    | cons b s =>
      simp only [scan] at h
      split at h
      · cases h
      next p' hb =>
      by_cases hp : p = .ready
      · subst hp
        exact ⟨[], b :: s, rfl, rfl, rfl, by simp [fromRuneStart, runeStart_of_feed_ready hb]⟩
      · obtain ⟨hc, hneed⟩ := feed_inside hp hb
        obtain ⟨skipped, r, rfl, hlength, hscan, hr⟩ :=
          ih h (by simp only [length_cons] at hs; omega) (by omega)
        exact ⟨b :: skipped, r, rfl, by rw [length_cons, hlength, hneed],
          by simp [scan, hb, hscan], by simp [fromRuneStart, hc, hr]⟩

theorem need_le_length (h : scan p s = some .ready) : p.need ≤ s.length := by
  induction s generalizing p with
  | nil =>
    cases h
    exact Nat.le_refl 0
  | cons b s ih =>
    simp only [scan] at h
    split at h
    · cases h
    next p' hb =>
    by_cases hp : p = .ready
    · subst hp
      exact Nat.zero_le _
    · have hneed := (feed_inside hp hb).2
      have := ih h
      simp only [length_cons]
      omega

theorem trimPartialLeadingRune_split (h : scan .ready (s ++ t) = some q)
    (ht : utfMax ≤ t.length) : ∃ skipped, t = skipped ++ trimPartialLeadingRune t ∧
      valid (s ++ skipped) = true ∧
      ∀ u v, t = u ++ v → valid (s ++ u) = true → skipped.length ≤ u.length := by
  rw [scan_append] at h
  obtain ⟨p, hs, hp⟩ := Option.bind_eq_some_iff.mp h
  have hneed := need_lt_four p
  obtain ⟨skipped, r, ht', hlength, hscan, hr⟩ := fromRuneStart_scan (n := utfMax) hp
    (by simp only [utfMax] at ht; omega) (by simp only [utfMax]; omega)
  refine ⟨skipped, by simpa [trimPartialLeadingRune, hr] using ht', ?_, ?_⟩
  · rw [valid_iff, scan_append_of_some hs, hscan]
  · intro u v _ hu
    rw [valid_iff, scan_append_of_some hs] at hu
    rw [hlength]
    exact need_le_length hu

theorem scan_trimPartialLeadingRune (h : scan .ready (s ++ t) = some q)
    (ht : utfMax ≤ t.length) : scan .ready (trimPartialLeadingRune t) = some q := by
  obtain ⟨skipped, hsplit, hvalid, -⟩ := trimPartialLeadingRune_split h ht
  rw [hsplit, ← append_assoc, scan_append_of_valid hvalid] at h
  exact h

/-! ## Coercion to valid text -/

/-- The length of the encoding at the head of the text, read from state `p`; `none` if there is
no complete one. -/
def runeLength : State → Text → Option Nat
  | _, [] => none
  | p, b :: s =>
    match feed p b with
    | none => none
    | some .ready => some 1
    | some q => (runeLength q s).map (· + 1)

def replacement : Text := [0xEF, 0xBF, 0xBD]

/-- What a string becomes on its way through `encoding/json`: each byte that does not begin a
complete encoding is replaced by U+FFFD. -/
def toValid (s : Text) : Text := go s.length s
where
  go : Nat → Text → Text
    | 0, _ => []
    | _ + 1, [] => []
    | n + 1, b :: s =>
      match runeLength .ready (b :: s) with
      | none => replacement ++ go n s
      | some k => (b :: s).take k ++ go n ((b :: s).drop k)

theorem runeLength_of_scan (hs : s ≠ []) (h : scan p s = some q) (hq : q = .ready) :
    ∃ k, runeLength p s = some (k + 1) ∧ k < s.length ∧ scan .ready (s.drop (k + 1)) = some q := by
  induction s generalizing p with
  | nil => exact absurd rfl hs
  | cons b s ih =>
    simp only [scan] at h
    split at h
    · cases h
    next p' hb =>
    by_cases hp : p' = .ready
    · subst hp
      exact ⟨0, by simp [runeLength, hb], by simp, by simpa using h⟩
    have hs' : s ≠ [] := by
      intro h0
      subst h0
      simp only [scan, Option.some.injEq] at h
      exact hp (h.trans hq)
    obtain ⟨k, hk, hlt, hrest⟩ := ih hs' h
    refine ⟨k + 1, ?_, by simp only [length_cons]; omega, by simpa using hrest⟩
    rw [runeLength, hb]
    cases p' with
    | ready => exact absurd rfl hp
    | more1 | more2 | more3 | afterE0 | afterED | afterF0 | afterF4 => simp [hk]

theorem toValid_of_valid (h : valid s = true) : toValid s = s := by
  suffices hgo : ∀ n (s : Text), s.length ≤ n → scan .ready s = some .ready →
      toValid.go n s = s from hgo _ _ (Nat.le_refl _) (valid_iff.mp h)
  intro n
  induction n with
  | zero =>
    intro s hlen _
    exact (length_eq_zero_iff.mp (Nat.le_zero.mp hlen)).symm ▸ rfl
  | succ n ih =>
    intro s hlen hscan
    cases s with
    | nil => rfl
    | cons b s =>
      obtain ⟨k, hk, hlt, hrest⟩ := runeLength_of_scan (by simp) hscan rfl
      simp only [toValid.go, hk]
      rw [ih _ (by simp only [length_drop, length_cons] at *; omega) hrest, take_append_drop]

theorem runeLength_pos {k : Nat} (h : runeLength p s = some k) : 0 < k := by
  cases s with
  | nil => cases h
  | cons b s =>
    unfold runeLength at h
    split at h
    · cases h
    · cases h
      decide
    · obtain ⟨j, -, rfl⟩ := Option.map_eq_some_iff.mp h
      omega

theorem toValid_eq_nil : toValid s = [] ↔ s = [] := by
  cases s with
  | nil => simp [toValid, toValid.go]
  | cons b s =>
    simp only [toValid, length_cons, toValid.go, reduceCtorEq, iff_false]
    split
    · simp [replacement]
    next k hk =>
    have hpos := runeLength_pos hk
    cases k with
    | zero => omega
    | succ k => simp

theorem scan_take_runeLength {k : Nat} (h : runeLength p s = some k) :
    scan p (s.take k) = some .ready := by
  induction s generalizing p k with
  | nil => cases h
  | cons b s ih =>
    unfold runeLength at h
    split at h
    · cases h
    · next hb =>
      cases h
      simp [scan, hb]
    · next q hb =>
      obtain ⟨j, hj, rfl⟩ := Option.map_eq_some_iff.mp h
      simp only [take_succ_cons, scan, hb]
      exact ih hj

theorem valid_toValid (s : Text) : valid (toValid s) = true := by
  suffices hgo : ∀ n (s : Text), valid (toValid.go n s) = true from hgo _ _
  intro n
  induction n with
  | zero =>
    intro s
    rfl
  | succ n ih =>
    intro s
    cases s with
    | nil => rfl
    | cons b s =>
      simp only [toValid.go]
      split
      · exact valid_append (by decide) (ih s)
      · next k hk => exact valid_append (valid_iff.mpr (scan_take_runeLength hk)) (ih _)

end DockLattice.Utf8
