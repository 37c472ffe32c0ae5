import DockLattice.Lib.Utf8

/-!
# DockLattice.Files.LineEndings

The line endings of a managed file over a write (`safefile/io.go`) and the bytes the write stages
in the project directory, next to the bytes `runFileWrite` (`agentops/mutations.go`) had admitted
for them. One pass of replacing leaves a carriage return that stood before a CRLF, and a CRLF file
gets a carriage return for every bare line feed.
-/

namespace DockLattice.Files

open Bytes List

inductive LineEndings where
  | none
  | lf
  | crlf
  | mixed
  deriving DecidableEq, Repr

/-- `bytes.Count(content, "\r\n")` -/
def countCRLF : Text → Nat
  | 13 :: 10 :: rest => countCRLF rest + 1
  | _ :: rest => countCRLF rest
  | [] => 0

def observeLineEndings (content : Text) : LineEndings :=
  let crlf := countCRLF content
  let lf := content.count 10 - crlf
  if 0 < crlf ∧ 0 < lf then .mixed
  else if 0 < crlf then .crlf
  else if 0 < lf then .lf
  else .none

/-- `bytes.ReplaceAll(copy, "\r\n", "\n")` -/
def dropCR : Text → Text
  | 13 :: 10 :: rest => 10 :: dropCR rest
  | b :: rest => b :: dropCR rest
  | [] => []

/-- `bytes.ReplaceAll(copy, "\n", "\r\n")` -/
def addCR (s : Text) : Text := s.flatMap fun b => if b = 10 then [13, 10] else [b]

def preserveLineEndings (content : Text) : LineEndings → Text
  | .crlf => addCR (dropCR content)
  | .lf => dropCR content
  | .none | .mixed => content

/-! ## One byte -/

variable {b : Byte} {s t : Text}

theorem dropCR_cons (h : b = 13 → t.head? ≠ some 10) : dropCR (b :: t) = b :: dropCR t := by
  rw [dropCR]
  rintro rest ⟨rfl⟩ rfl
  exact h rfl rfl

theorem countCRLF_cons (h : b = 13 → t.head? ≠ some 10) : countCRLF (b :: t) = countCRLF t := by
  rw [countCRLF]
  rintro rest ⟨rfl⟩ rfl
  exact h rfl rfl

theorem length_dropCR (s : Text) : (dropCR s).length + countCRLF s = s.length := by
  fun_induction dropCR s with
  | case1 rest ih => simp only [countCRLF, length_cons]; omega
  | case2 b rest h ih =>
    rw [countCRLF]
    · simp only [length_cons]
      omega
    · exact h
  | case3 => rfl

theorem count_dropCR (s : Text) : (dropCR s).count 10 = s.count 10 := by
  fun_induction dropCR s with
  | case1 rest ih => simp [ih]
  | case2 b rest h ih => simp [count_cons, ih]
  | case3 => rfl

theorem countCRLF_le (s : Text) : countCRLF s ≤ s.count 10 := by
  fun_induction countCRLF s with
  | case1 rest ih => simpa using ih
  | case2 b rest h ih => exact ih.trans (count_le_count_cons)
  | case3 => rfl

theorem head_addCR (s : Text) : (addCR s).head? ≠ some 10 := by
  cases s with
  | nil => simp [addCR]
  | cons b s =>
    by_cases hb : b = 10
    · simp [addCR, hb]
    · simp [addCR, hb]

theorem addCR_cons (b : Byte) (s : Text) :
    addCR (b :: s) = (if b = 10 then [13, 10] else [b]) ++ addCR s := flatMap_cons

theorem dropCR_addCR (s : Text) : dropCR (addCR s) = s := by
  induction s with
  | nil => rfl
  | cons b s ih =>
    rw [addCR_cons]
    split
    · next hb => rw [cons_append, cons_append, nil_append, dropCR, ih, hb]
    · rw [cons_append, nil_append, dropCR_cons fun _ => head_addCR s, ih]

theorem length_addCR (s : Text) : (addCR s).length = s.length + s.count 10 := by
  induction s with
  | nil => rfl
  | cons b s ih =>
    rw [addCR_cons, length_append, ih, length_cons, count_cons]
    by_cases hb : b = 10
    · simp only [hb, if_true, length_cons, length_nil, beq_self_eq_true]
      omega
    · simp only [hb, if_false, length_cons, length_nil, beq_iff_eq]
      omega

theorem countCRLF_addCR (s : Text) : countCRLF (addCR s) = s.count 10 := by
  have h := length_dropCR (addCR s)
  rw [dropCR_addCR, length_addCR] at h
  omega

theorem count_addCR (s : Text) : (addCR s).count 10 = s.count 10 := by
  rw [← count_dropCR (addCR s), dropCR_addCR]

theorem dropCR_eq_self (h : countCRLF s = 0) : dropCR s = s := by
  fun_induction dropCR s with
  | case1 rest ih => simp [countCRLF] at h
  | case2 b rest hne ih =>
    rw [countCRLF] at h
    · rw [ih h]
    · exact hne
  | case3 => rfl

theorem head_dropCR (h : s.head? ≠ some 10) :
    (dropCR s).head? = some 10 ↔ [13, 10] <+: s := by
  fun_cases dropCR s with
  | case1 rest => simp
  | case2 b rest hne =>
    simp only [head?_cons, Option.some.injEq, ne_eq] at h ⊢
    simp only [h, false_iff, cons_prefix_cons]
    rintro ⟨rfl, ⟨t, rfl⟩⟩
    exact hne t rfl rfl
  | case3 => simp

theorem countCRLF_dropCR (s : Text) : countCRLF (dropCR s) = 0 ↔ ¬ [13, 13, 10] <:+: s := by
  fun_induction dropCR s with
  | case1 rest ih =>
    rw [countCRLF_cons fun h => absurd h (by decide), ih, infix_cons_iff, infix_cons_iff]
    simp
  | case2 b rest hne ih =>
    rw [infix_cons_iff, not_or, ← ih, cons_prefix_cons]
    by_cases hb : b = 13
    · have hhead : rest.head? ≠ some 10 := by
        intro h
        obtain ⟨t, rfl⟩ := head?_eq_some_iff.mp h
        exact hne t hb rfl
      rw [← head_dropCR hhead]
      cases hd : dropCR rest with
      | nil => simp [hb, countCRLF]
      | cons c u =>
        by_cases hc : c = 10
        · simp [hb, hc, countCRLF]
        · rw [countCRLF_cons fun _ => by simpa using hc]
          simp [hc]
    · rw [countCRLF_cons fun h => absurd h hb]
      simp [Ne.symm hb]
  | case3 => simp [countCRLF]

/-! ## A write -/

theorem observe_none_or (h : countCRLF s = s.count 10) :
    observeLineEndings s = .crlf ∨ observeLineEndings s = .none := by
  unfold observeLineEndings
  dsimp only
  rw [h, Nat.sub_self]
  simp only [lt_irrefl, and_false, if_false]
  split
  · exact .inl rfl
  · exact .inr rfl

theorem observe_lf_or_none : observeLineEndings s = .lf ∨ observeLineEndings s = .none ↔
    countCRLF s = 0 := by
  have h := countCRLF_le s
  unfold observeLineEndings
  dsimp only
  repeat' split
  all_goals simp only [reduceCtorEq, or_false, or_true, true_iff, false_iff]
  all_goals omega

/-- A write into a file with one style of line endings is settled after one pass and keeps the style
exactly if the style is CRLF or no line feed has two carriage returns before it. -/
theorem preserveLineEndings_iff (original content : Text)
    (h : observeLineEndings original = .lf ∨ observeLineEndings original = .crlf) :
    let style := observeLineEndings original
    let written := preserveLineEndings content style
    preserveLineEndings written style = written ∧
        (observeLineEndings written = style ∨ observeLineEndings written = .none) ↔
      style = .crlf ∨ ¬ [13, 13, 10] <:+: content := by
  rcases h with h | h
  · simp only [h, preserveLineEndings, observe_lf_or_none, countCRLF_dropCR, reduceCtorEq, false_or]
    refine and_iff_right_of_imp fun hfree => ?_
    exact dropCR_eq_self ((countCRLF_dropCR content).mpr hfree)
  · simp only [h, preserveLineEndings, true_or, iff_true, dropCR_addCR, true_and]
    exact observe_none_or (by rw [countCRLF_addCR, count_addCR])

theorem preserveLineEndings_makes_crlf :
    observeLineEndings [97, 10] = .lf ∧
      preserveLineEndings [98, 13, 13, 10] .lf = [98, 13, 10] ∧
      observeLineEndings [98, 13, 10] = .crlf ∧
      preserveLineEndings [98, 13, 10] .lf ≠ [98, 13, 10] := by
  decide

theorem preserveLineEndings_crlf_file :
    preserveLineEndings (preserveLineEndings [98, 13, 13, 10] .crlf) .crlf =
        preserveLineEndings [98, 13, 13, 10] .crlf ∧
      (observeLineEndings (preserveLineEndings [98, 13, 13, 10] .crlf) = .crlf ∨
        observeLineEndings (preserveLineEndings [98, 13, 13, 10] .crlf) = .none) :=
  (preserveLineEndings_iff [97, 13, 10] [98, 13, 13, 10] (.inr (by decide))).mpr
    (.inl (by decide))

/-! ## Staging -/

def maxFileSize : Nat := 2 ^ 20

/-- `AdmitProjectStaging`, with the floor it computes from the size of the filesystem. -/
def admitProjectStaging (entryFloor total free bytes : Int) : Bool :=
  0 < total && 0 ≤ free && free ≤ total && 0 ≤ bytes && bytes ≤ free && entryFloor ≤ free - bytes

/-- What `runFileWrite` comes to stage for a target with the bytes `original`. -/
def runFileWrite (entryFloor total free : Int) (original content : Text) : Option Text :=
  let staged := preserveLineEndings content (observeLineEndings original)
  if admitProjectStaging entryFloor total free content.length && content.length ≤ maxFileSize &&
      Utf8.valid content && staged.length ≤ maxFileSize then some staged
  else none

/-- A write stages at most what it had admitted, and leaves the floor free, exactly if the target is
not a CRLF file or every line feed of the content has its carriage return. -/
theorem runFileWrite_within_iff {entryFloor total free : Int} {original content staged : Text}
    (h : runFileWrite entryFloor total free original content = some staged) :
    staged.length ≤ content.length ∧ entryFloor ≤ free - staged.length ↔
      (observeLineEndings original = .crlf → countCRLF content = content.count 10) := by
  simp only [runFileWrite, admitProjectStaging, Bool.and_eq_true, decide_eq_true_eq,
    Option.ite_none_right_eq_some, Option.some.injEq] at h
  obtain ⟨⟨⟨⟨⟨-, hfloor⟩, -⟩, -⟩, -⟩, rfl⟩ := h
  have hdrop := length_dropCR content
  cases hstyle : observeLineEndings original with
  | crlf =>
    have hle := countCRLF_le content
    simp only [preserveLineEndings, length_addCR, count_dropCR, true_imp_iff]
    omega
  | lf | none | mixed =>
    simp only [preserveLineEndings, reduceCtorEq, false_imp_iff, iff_true]
    omega

theorem runFileWrite_exceeds :
    runFileWrite 100 1000 101 [97, 13, 10] [10] = some [13, 10] ∧
      ([10] : Text).length < ([13, 10] : Text).length ∧
      (101 : Int) - ([13, 10] : Text).length < 100 := by
  decide

theorem runFileWrite_within :
    [98, 13, 10].length ≤ [98, 13, 10].length ∧ (100 : Int) ≤ 103 - ([98, 13, 10] : Text).length :=
  (runFileWrite_within_iff (show runFileWrite 100 1000 103 [97, 13, 10] [98, 13, 10] =
    some [98, 13, 10] by decide)).mpr (by decide)

end DockLattice.Files
