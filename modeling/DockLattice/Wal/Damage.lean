import DockLattice.Wal.SimRecover

/-!
# DockLattice.Wal.Damage

What the scan of the newest segment makes of the bytes behind its last readable frame.

`scanSegment_eq` says what it does for each way in which reading can end, `unrepairable_iff` which
bytes it refuses. The length field is not under the checksum, and a file that ends between two fields
reads as a clean end. These two facts decide the results: for a file cut off anywhere, for one that
goes on in zeros, and for damage in front of other frames.
-/

namespace DockLattice.Wal

open Bytes Effect List Piece

variable {max k : Nat} {p : Piece max} {s : State} {behind : List Byte} {synced : Nat}
variable {e : ReadEnd} {file : SegmentFile} {t : State}

/-! ## The scan -/

theorem Disk.file?_modifyFile {d : Disk} {name : Cursor} {g : SegmentFile → SegmentFile} :
    (d.modifyFile name g).file? name = (d.file? name).map g := by
  unfold file? modifyFile
  induction d.segments with
  | nil => rfl
  | cons e es ih =>
    by_cases h : e.1 = name
    · simp [h]
    · simpa [h] using ih

/-- The frames of `p` are kept; a file without a frame is removed. -/
def Piece.kept (p : Piece max) (s : State) : Outcome (World State) WalError (Option Segment) :=
  if p.frames = [] then .done none ⟨s.onDisk (·.removeFile p.key), []⟩
  else .done (some p.segment) ⟨s, []⟩

def Piece.truncated (p : Piece max) (s : State) : State :=
  (s.onDisk (·.modifyFile p.key (.truncate p.bytes))).onDisk (·.modifyFile p.key .sync)

theorem truncated_file (hf : s.disk.file? p.key = some ⟨encodeAll p.frames ++ behind, synced⟩) :
    (p.truncated s).disk.file? p.key = some ⟨encodeAll p.frames, p.bytes⟩ := by
  simp [truncated, State.onDisk, Disk.file?_modifyFile, hf, SegmentFile.sync,
    SegmentFile.truncate, bytes]

theorem finishScan_kept (h : s.disk.file? p.key = some file) :
    finishScan p.key true p.scanned p.bytes ⟨s, []⟩ = p.kept s := by
  by_cases hne : p.frames = []
  · have hscan : p.scanned = none := if_pos hne
    simp only [finishScan, hscan, kept, hne, if_true, removeSegment]
    simp only [bind, Prog.bind, Prog.get, h]
    rfl
  · rw [finishScan_found hne, kept, if_neg hne]
    rfl

theorem repairable_append {fs : List DecodedFrame} :
    repairable (encodeAll fs ++ behind) (encodeAll fs).length e = repairable behind 0 e := by
  cases e <;> simp [repairable, declaredFrameRunsPastEOF, remainderIsZero]

theorem scanSegment_eq (hf : s.disk.file? p.key = some ⟨encodeAll p.frames ++ behind, synced⟩)
    (he : frameStream max behind = .stop e) :
    scanSegment p.key true max ⟨s, []⟩ =
      if e = .eof then p.kept s
      else if repairable behind 0 e then p.kept (p.truncated s)
      else .fail (.corrupt ("scan: " ++ endMessage e)) ⟨s, []⟩ := by
  unfold scanSegment
  simp only [bind, Prog.bind, Prog.get, hf, p.scanFrames he]
  by_cases heof : e = .eof
  · rw [if_pos heof, if_pos heof]
    exact finishScan_kept hf
  rw [if_neg heof, if_neg heof, bytes, repairable_append]
  by_cases hr : repairable behind 0 e = true
  · rw [if_pos ⟨trivial, hr⟩, if_pos hr]
    exact finishScan_kept (truncated_file hf)
  · rw [if_neg (fun h => hr h.2), if_neg hr]
    rfl

/-- The bytes are not all zero and declare a frame that ends within them; at their very end only if
no frame has that length. -/
def EndsInside (max : Nat) (bytes : List Byte) : Prop :=
  remainderIsZero bytes 0 = false ∧ 4 < bytes.length ∧ beNat (bytes.take 4) + 8 ≤ bytes.length ∧
    (beNat (bytes.take 4) + 8 < bytes.length ∨
      beNat (bytes.take 4) < envelopeHeaderBytes ∨ max < beNat (bytes.take 4) + 8)

theorem repairable_corrupt {m : String} {unread : Nat} (h4 : 4 ≤ behind.length) :
    repairable behind 0 (.corrupt m unread) = false ↔
      unread ≠ 0 ∧ beNat (behind.take 4) + 8 ≤ behind.length ∧ remainderIsZero behind 0 = false := by
  have hshort : ¬ behind.length < 4 := by omega
  simp only [repairable, declaredFrameRunsPastEOF, drop_zero, if_neg hshort, Bool.or_eq_false_iff,
    decide_eq_false_iff_not, and_assoc]
  constructor
  · rintro ⟨h₁, h₂, h₃⟩
    exact ⟨h₁, by omega, h₃⟩
  · rintro ⟨h₁, h₂, h₃⟩
    exact ⟨h₁, by omega, h₃⟩

theorem readFull_stops {n : Nat} {bytes : List Byte} (h : bytes.length < n) :
    readFull n bytes = .eof ∨ readFull n bytes = .unexpectedEOF := by
  rw [readFull_short h]
  split
  · exact .inl rfl
  · exact .inr rfl

theorem unrepairable_iff (he : frameStream max behind = .stop e) :
    e ≠ .eof ∧ repairable behind 0 e = false ↔ EndsInside max behind := by
  -- a file that ends in the middle of a frame is never refused
  have hend : e = .eof ∨ e = .unexpectedEOF → ¬ (e ≠ .eof ∧ repairable behind 0 e = false) := by
    rintro (rfl | rfl) <;> simp [repairable]
  unfold frameStream at he
  rw [frameStreamFuel, readFrame] at he
  unfold EndsInside
  by_cases h4 : 4 ≤ behind.length
  · rw [readFull, if_pos h4] at he
    dsimp only at he
    by_cases hbad : beNat (behind.take 4) < envelopeHeaderBytes ∨
        beNat (behind.take 4) + 8 > max
    · rw [if_pos hbad] at he
      cases he
      simp only [ne_eq, reduceCtorEq, not_false_eq_true, true_and, repairable_corrupt h4,
        length_drop]
      constructor
      · rintro ⟨h₁, h₂, h₃⟩
        exact ⟨h₃, by omega, h₂, .inr hbad⟩
      · rintro ⟨h₃, h₁, h₂, -⟩
        exact ⟨by omega, h₂, h₃⟩
    rw [if_neg hbad] at he
    by_cases hn : beNat (behind.take 4) + 8 ≤ behind.length
    · have hbody : beNat (behind.take 4) ≤ (behind.drop 4).length := by
        rw [length_drop]; omega
      have hsum : 4 ≤ ((behind.drop 4).drop (beNat (behind.take 4))).length := by
        simp only [length_drop]; omega
      have hcorrupt : ∃ m, e = .corrupt m (behind.length - (beNat (behind.take 4) + 8)) := by
        simp only [readFull, if_pos hbody, if_pos hsum] at he
        rcases decodeBody_cases ((behind.drop 4).take (beNat (behind.take 4)))
          (beNat (((behind.drop 4).drop (beNat (behind.take 4))).take 4))
          (((behind.drop 4).drop (beNat (behind.take 4))).drop 4) with ⟨f, hd⟩ | ⟨m, hd⟩
        · rw [hd] at he
          cases he
        · rw [hd] at he
          cases he
          refine ⟨m, ?_⟩
          simp only [length_drop]
          congr 1
          omega
      obtain ⟨m, rfl⟩ := hcorrupt
      simp only [ne_eq, reduceCtorEq, not_false_eq_true, true_and, repairable_corrupt h4]
      constructor
      · rintro ⟨h₁, h₂, h₃⟩
        exact ⟨h₃, by omega, h₂, .inl (by omega)⟩
      · rintro ⟨h₃, h₁, h₂, h⟩
        exact ⟨by omega, h₂, h₃⟩
    · refine iff_of_false (hend ?_) (by omega)
      by_cases hbody : beNat (behind.take 4) ≤ (behind.drop 4).length
      · have hsum : ((behind.drop 4).drop (beNat (behind.take 4))).length < 4 := by
          simp only [length_drop] at hbody ⊢; omega
        rw [readFull, if_pos hbody] at he
        rcases readFull_stops hsum with h | h <;> simp only [h] at he <;> cases he <;> simp
      · rcases readFull_stops (Nat.not_le.mp hbody) with h | h <;> simp only [h] at he <;>
          cases he <;> simp
  · refine iff_of_false (hend ?_) (by omega)
    rcases readFull_stops (Nat.not_le.mp h4) with h | h <;> simp only [h] at he <;> cases he <;> simp

/-! ## A file cut off anywhere -/

theorem Numbered.take {c : Cursor} {frames : List DecodedFrame} (h : Numbered c frames) (n : Nat) :
    Numbered c (frames.take n) := by
  rw [← take_append_drop n frames, numbered_append] at h
  exact h.1

theorem Torn.nil : Torn max [] := .inl rfl

def Piece.upTo (p : Piece max) (n : Nat) : Piece max :=
  { p with
    frames := p.frames.take n
    tail := []
    numbered := p.numbered.take n
    fits := fun f hf => p.fits f (mem_of_mem_take hf)
    torn := .nil }

/-- The whole frames among the first `k` bytes. -/
def Piece.whole (p : Piece max) (k : Nat) : Piece max := p.upTo (wholeFrames p.frames k)

def Piece.nextFrame (p : Piece max) (k : Nat) : Option DecodedFrame :=
  p.frames[wholeFrames p.frames k]?

/-- What is behind them, with `z` zeros added. -/
def Piece.zeroed (p : Piece max) (k z : Nat) : List Byte :=
  rest p.frames [] k ++ List.replicate z 0

def threeFrames : Piece 1000 where
  key := ⟨1, 1⟩
  frames := [⟨⟨1, 1⟩, unixTime 0, []⟩, ⟨⟨1, 2⟩, unixTime 0, []⟩, ⟨⟨1, 3⟩, unixTime 0, []⟩]
  tail := []
  synced := 0
  created := unixTime 0
  numbered := ⟨rfl, rfl, rfl, trivial⟩
  fits := by
    intro f hf
    simp only [mem_cons, not_mem_nil, or_false] at hf
    rcases hf with rfl | rfl | rfl <;> constructor <;> decide
  torn := .inl rfl

def oneSegment (bytes : List Byte) : State :=
  ⟨{ Disk.empty with segments := [(⟨1, 1⟩, ⟨bytes, 0⟩)] },
    .start "agent" (normalizeOptions ⟨0, 0, 0⟩) zeroMetadata⟩

theorem oneSegment_file (bytes : List Byte) :
    (oneSegment bytes).disk.file? threeFrames.key = some ⟨bytes, 0⟩ := rfl

theorem whole_file {b : List Byte}
    (hf : s.disk.file? p.key = some ⟨(encodeAll p.frames).take k ++ b, synced⟩) :
    s.disk.file? (p.whole k).key =
      some ⟨encodeAll (p.whole k).frames ++ (rest p.frames [] k ++ b), synced⟩ := by
  have htake := take_encodeAll p.frames [] k
  rw [append_nil] at htake
  rw [htake, append_assoc] at hf
  exact hf

theorem rest_cases (fs : List DecodedFrame) (k : Nat) :
    (fs[wholeFrames fs k]? = none ∧ rest fs [] k = []) ∨
      ∃ g r, fs[wholeFrames fs k]? = some g ∧ r < g.bytes ∧ rest fs [] k = g.encode.take r ∧
        k = (encodeAll (fs.take (wholeFrames fs k))).length + r := by
  induction fs generalizing k with
  | nil => exact .inl ⟨rfl, by simp [rest]⟩
  | cons f fs ih =>
    by_cases h : f.bytes ≤ k
    · simp only [wholeFrames, rest, if_pos h, getElem?_cons_succ, take_succ_cons,
        encodeAll_cons, length_append, DecodedFrame.length_encode]
      rcases ih (k - f.bytes) with hnone | ⟨g, r, hg, hr, hrest, hk⟩
      · exact .inl hnone
      · exact .inr ⟨g, r, hg, hr, hrest, by omega⟩
    · simp only [wholeFrames, rest, if_neg h]
      exact .inr ⟨f, k, rfl, by omega, rfl, by simp⟩

theorem Piece.next_cases (p : Piece max) (k : Nat) :
    (p.nextFrame k = none ∧ rest p.frames [] k = []) ∨
      ∃ g r, p.nextFrame k = some g ∧ r < g.bytes ∧ rest p.frames [] k = g.encode.take r ∧
        k = (p.whole k).bytes + r :=
  rest_cases p.frames k

/-- The scan succeeds with exactly the frames of `p`, and they are all that is left in the file. -/
def Piece.Exact (p : Piece max) (s : State) : Prop :=
  ∃ s', scanSegment p.key true max ⟨s, []⟩ =
      .done (if p.frames = [] then none else some p.segment) ⟨s', []⟩ ∧
    (s'.disk.file? p.key).map (·.content) =
      if p.frames = [] then none else some (encodeAll p.frames)

theorem exact_of_kept (h : scanSegment p.key true max ⟨s, []⟩ = p.kept t)
    (hf : t.disk.file? p.key = some file) :
    p.Exact s ↔ p.frames = [] ∨ file.content = encodeAll p.frames := by
  unfold Piece.Exact
  rw [h]
  by_cases hne : p.frames = []
  · simp [kept, hne, State.onDisk, Disk.file?, Disk.removeFile]
  · simp [kept, hne, hf]

/-- Behind a whole frame, the file ends four bytes from the beginning or from the end of the next
one. -/
def Piece.CutBetweenFields (p : Piece max) (k : Nat) : Prop :=
  0 < wholeFrames p.frames k ∧ ∃ g, p.nextFrame k = some g ∧
    (k = (p.whole k).bytes + 4 ∨
      k + 4 = (p.whole k).bytes + g.bytes)

/-- Whatever prefix of a segment is left, the scan keeps exactly its whole frames, unless the cut is
between two fields of a frame behind a whole one: then the bytes of that frame stay in the file. -/
theorem prefix_repaired_iff
    (hf : s.disk.file? p.key = some ⟨(encodeAll p.frames).take k, synced⟩) :
    (p.whole k).Exact s ↔ ¬ p.CutBetweenFields k := by
  rw [← append_nil (List.take k _)] at hf
  replace hf := whole_file hf
  rw [append_nil] at hf
  rcases p.next_cases k with ⟨hnone, hrest⟩ | ⟨g, r, hg, hr, hrest, hk⟩
  · rw [hrest] at hf
    have hscan := scanSegment_eq hf (frameStream_nil max)
    rw [if_pos rfl] at hscan
    refine iff_of_true ((exact_of_kept hscan hf).mpr (.inr (append_nil _))) ?_
    rintro ⟨-, g, hg, -⟩
    rw [hnone] at hg
    cases hg
  rw [hrest] at hf
  have hscan := scanSegment_eq hf (frameStream_take (p.fits g (mem_of_getElem? hg)) hr)
  have hcut : p.CutBetweenFields k ↔ 0 < wholeFrames p.frames k ∧ (r = 4 ∨ r + 4 = g.bytes) := by
    simp only [Piece.CutBetweenFields, hg, Option.some.injEq, exists_eq_left']
    omega
  have hbody : g.bytes = g.body.length + 8 := by simp [DecodedFrame.bytes]; omega
  have hlt := (List.getElem?_eq_some_iff.mp hg).1
  rw [hcut]
  by_cases hc : r = 0 ∨ r = 4 ∨ r = 4 + g.body.length
  · rw [if_pos hc, if_pos rfl] at hscan
    rw [exact_of_kept hscan hf]
    have hempty : (p.whole k).frames = [] ↔ wholeFrames p.frames k = 0 := by
      simp only [Piece.whole, Piece.upTo, take_eq_nil_iff]
      have : p.frames ≠ [] := by rintro h; rw [h] at hlt; simp at hlt
      simp [this]
    have hsame : encodeAll (p.whole k).frames ++ g.encode.take r =
        encodeAll (p.whole k).frames ↔ r = 0 := by
      rw [append_right_eq_self, take_eq_nil_iff]
      have : g.encode ≠ [] := by simp [← length_eq_zero_iff, DecodedFrame.bytes]
      simp [this]
    rw [hempty, hsame]
    omega
  · simp only [if_neg hc, reduceCtorEq, if_false, repairable, if_true] at hscan
    refine iff_of_true ((exact_of_kept hscan (truncated_file hf)).mpr (.inr rfl)) ?_
    omega

theorem bodyCut_repaired :
    (threeFrames.whole 40).Exact
      (oneSegment ((encodeAll threeFrames.frames).take 40)) := by
  refine (prefix_repaired_iff (oneSegment_file _)).mpr ?_
  rintro ⟨-, g, hg, h⟩
  obtain rfl : threeFrames.frames[1] = g := Option.some.inj hg
  revert h
  decide +kernel

/-- Of a file that ends behind the length field of the second frame, the scan keeps the segment of
one frame with 32 bytes; the file keeps all of its 36. -/
theorem lengthCut_stays :
    (scanSegment ⟨1, 1⟩ true 1000
        ⟨oneSegment ((encodeAll threeFrames.frames).take 36), []⟩).value? =
      some (some ⟨⟨1, 1⟩, ⟨1, 1⟩, unixTime 0, 32⟩) ∧
    (scanSegment ⟨1, 1⟩ true 1000
        ⟨oneSegment ((encodeAll threeFrames.frames).take 36), []⟩).state.st.disk.segments.map
      (fun e => (e.1, e.2.content.length)) = [(⟨1, 1⟩, 36)] := by
  decide +kernel

/-! ## Damage behind the last readable frame -/

theorem scanSegment_cases
    (hf : s.disk.file? p.key = some ⟨encodeAll p.frames ++ behind, synced⟩)
    (hno : ∀ f rest, readFrame max behind ≠ .frame f rest) :
    (EndsInside max behind ∧ ∃ m, scanSegment p.key true max ⟨s, []⟩ = .fail (.corrupt m) ⟨s, []⟩) ∨
    (¬ EndsInside max behind ∧ ∃ t file, scanSegment p.key true max ⟨s, []⟩ = p.kept t ∧
      t.disk.file? p.key = some file ∧ encodeAll p.frames <+: file.content) := by
  obtain ⟨e, he⟩ : ∃ e, frameStream max behind = .stop e := by
    unfold frameStream
    rw [frameStreamFuel]
    cases hr : readFrame max behind with
    | frame f rest => exact absurd hr (hno f rest)
    | eof | unexpectedEOF | corrupt => exact ⟨_, rfl⟩
  have hscan := scanSegment_eq hf he
  have hiff := unrepairable_iff he
  by_cases heof : e = .eof
  · rw [if_pos heof] at hscan
    exact .inr ⟨fun h => (hiff.mpr h).1 heof, s, _, hscan, hf, prefix_append _ _⟩
  rw [if_neg heof] at hscan
  by_cases hr : repairable behind 0 e = true
  · rw [if_pos hr] at hscan
    refine .inr ⟨fun h => ?_, _, _, hscan, truncated_file hf, prefix_refl _⟩
    rw [(hiff.mpr h).2] at hr
    cases hr
  · rw [if_neg hr] at hscan
    exact .inl ⟨hiff.mp ⟨heof, Bool.eq_false_iff.mpr hr⟩, _, hscan⟩

theorem Piece.kept_ne_fail {u : State} {e : WalError} : p.kept t ≠ .fail e ⟨u, []⟩ := by
  unfold kept
  split <;> simp

/-- Damage in place of frame `i`, in front of the frames behind it, is reported and the file left
alone exactly if the length that is now declared ends inside the file. -/
theorem damage_refused_iff {i : Nat} {d : List Byte}
    (hf : s.disk.file? p.key = some ⟨encodeAll (p.frames.take i) ++
      (d ++ encodeAll (p.frames.drop (i + 1))), synced⟩)
    (hno : ∀ f rest, readFrame max (d ++ encodeAll (p.frames.drop (i + 1))) ≠
      .frame f rest) :
    (∃ m, scanSegment p.key true max ⟨s, []⟩ = .fail (.corrupt m) ⟨s, []⟩) ↔
      EndsInside max (d ++ encodeAll (p.frames.drop (i + 1))) := by
  rcases scanSegment_cases (p := p.upTo i) hf hno with ⟨hin, hfail⟩ | ⟨hout, t, file, hkept, -⟩
  · exact iff_of_true hfail hin
  · refine iff_of_false ?_ hout
    rintro ⟨m, hm⟩
    exact Piece.kept_ne_fail (hkept.symm.trans hm)

def overwritten : List Byte := beBytes 4 24 ++ List.replicate 28 7

theorem overwritten_refused :
    ∃ m, scanSegment threeFrames.key true 1000
        ⟨oneSegment (overwritten ++ encodeAll (threeFrames.frames.drop 1)), []⟩ =
      .fail (.corrupt m) ⟨oneSegment (overwritten ++ encodeAll (threeFrames.frames.drop 1)), []⟩ := by
  have hread : readFrame 1000 (overwritten ++ encodeAll (threeFrames.frames.drop 1)) =
      .corrupt "checksum mismatch" (encodeAll (threeFrames.frames.drop 1)) := by decide +kernel
  have h := damage_refused_iff (p := threeFrames) (i := 0) (d := overwritten) (oneSegment_file _)
  refine (h ?_).mpr ?_
  · intro f rest h
    exact FrameRead.noConfusion (hread.symm.trans h)
  · unfold EndsInside
    decide +kernel

/-- The length of the first frame is damaged and now runs past the end of the file: the scan
succeeds and removes the file with the two intact frames. -/
theorem lengthDamage_drops :
    (scanSegment ⟨1, 1⟩ true 1000 ⟨oneSegment (beBytes 4 200 ++
        (encodeAll threeFrames.frames).drop 4), []⟩).value? = some none ∧
    (scanSegment ⟨1, 1⟩ true 1000 ⟨oneSegment (beBytes 4 200 ++
        (encodeAll threeFrames.frames).drop 4), []⟩).state.st.disk.segments = [] := by
  decide +kernel

/-! ## A file that goes on in zeros -/

/-- The scan succeeded, and the first `m` frames are in the segment and in the file. -/
def Piece.Durable (p : Piece max) (m : Nat) : Outcome (World State) WalError (Option Segment) → Prop
  | .done seg w => p.frames.take m = [] ∨ ∃ g file, seg = some g ∧ g.first = p.key ∧
      (p.upTo m).last ≤ g.last ∧ w.st.disk.file? p.key = some file ∧
      encodeAll (p.frames.take m) <+: file.content
  | _ => False

theorem kept_durable {m n : Nat} (hpre : p.frames.take m <+: (p.upTo n).frames)
    (hf : t.disk.file? p.key = some file) (hc : encodeAll (p.upTo n).frames <+: file.content) :
    p.Durable m ((p.upTo n).kept t) := by
  unfold kept
  split
  · next hn => exact .inl (prefix_nil.mp (hn ▸ hpre))
  refine .inr ⟨_, file, rfl, rfl, Cursor.plus_le_plus.mpr ?_, hf, ?_⟩
  · have : (p.upTo m).frames.length ≤ (p.upTo n).frames.length := hpre.length_le
    omega
  obtain ⟨fs, hfs⟩ := hpre
  refine List.IsPrefix.trans ?_ hc
  rw [← hfs, encodeAll_append]
  exact prefix_append _ _

theorem readFrame_zeros {z : Nat} {f : DecodedFrame} {rest : List Byte} :
    readFrame max (List.replicate z 0) ≠ .frame f rest := by
  have hzero : ∀ n, beNat (List.replicate n 0) = 0 := fun n => by
    induction n with
    | zero => rfl
    | succ n ih => rw [replicate_succ', beNat_append_singleton, ih]; rfl
  unfold readFrame
  by_cases h4 : 4 ≤ z
  · rw [readFull, if_pos (by simpa using h4)]
    simp only [take_replicate, hzero]
    rw [if_pos (.inl (by decide))]
    simp
  · have hshort : (List.replicate z (0 : Byte)).length < 4 := by
      rw [length_replicate]
      omega
    rcases readFull_stops hshort with h | h <;> simp [h]

/-- A segment that keeps its first `m` frames, any part of the others and then zeros: the scan keeps
the `m` frames, unless the bytes behind the last whole frame declare one that ends inside the file
and is not there. -/
theorem zeroTail_durable_iff {m z : Nat} (hm : (encodeAll (p.frames.take m)).length ≤ k)
    (hf : s.disk.file? p.key = some ⟨(encodeAll p.frames).take k ++ List.replicate z 0, synced⟩)
    (hcrc : ∀ f b, readFrame max (p.zeroed k z) = .frame f b →
      ∃ g, p.nextFrame k = some g ∧ p.zeroed k z = g.encode ++ b) :
    p.Durable m (scanSegment p.key true max ⟨s, []⟩) ↔
      ¬ EndsInside max (p.zeroed k z) ∨ ∃ g, p.nextFrame k = some g ∧ g.encode <+: p.zeroed k z := by
  have hpre : p.frames.take m <+: (p.whole k).frames := by
    have h := le_wholeFrames (p.frames.drop m) hm
    rw [take_append_drop] at h
    exact prefix_take_iff.mpr ⟨ take_prefix m _, h⟩
  replace hf := whole_file hf
  by_cases hread : ∃ f b, readFrame max (p.zeroed k z) = .frame f b
  · -- the bytes of the next frame are all there, and only zeros follow
    obtain ⟨f, b, hread⟩ := hread
    obtain ⟨g, hg, heq⟩ := hcrc f b hread
    have hzero : ∃ n, b = List.replicate n 0 := by
      rcases p.next_cases k with ⟨hnone, -⟩ | ⟨g', r, hg', hr, hrest, -⟩
      · rw [hnone] at hg
        cases hg
      · obtain rfl : g' = g := Option.some.inj (hg'.symm.trans hg)
        have hdrop := congrArg (List.drop g'.bytes) heq
        have hle : (g'.encode.take r).length ≤ g'.bytes := by simp
        rw [Piece.zeroed, hrest, drop_append, drop_eq_nil_of_le hle, nil_append,
          drop_replicate, drop_left' g'.length_encode] at hdrop
        exact ⟨_, hdrop.symm⟩
    obtain ⟨n, rfl⟩ := hzero
    have hnext : (p.upTo (wholeFrames p.frames k + 1)).frames = (p.whole k).frames ++ [g] :=
      take_add_one.trans (congrArg _ (congrArg Option.toList hg))
    have hf' : s.disk.file? (p.upTo (wholeFrames p.frames k + 1)).key =
        some ⟨encodeAll (p.upTo (wholeFrames p.frames k + 1)).frames ++ List.replicate n 0,
          synced⟩ := by
      rw [hnext, encodeAll_append, append_assoc]
      refine hf.trans ?_
      rw [← Piece.zeroed, heq]
      simp
    refine iff_of_true ?_ (.inr ⟨g, hg, heq ▸ prefix_append _ _⟩)
    rcases scanSegment_cases hf' fun _ _ => readFrame_zeros with ⟨hin, -⟩ | ⟨-, t, file, hk, ht, hc⟩
    · have hall := hin.1
      simp [remainderIsZero] at hall
    · change scanSegment p.key true max ⟨s, []⟩ = _ at hk
      rw [hk]
      refine kept_durable (hpre.trans ?_) ht hc
      rw [hnext]
      exact prefix_append _ _
  · have hno : ∀ f b, readFrame max (p.zeroed k z) ≠ .frame f b := fun f b h => hread ⟨f, b, h⟩
    have hpart : ¬ ∃ g, p.nextFrame k = some g ∧ g.encode <+: p.zeroed k z := by
      rintro ⟨g, hg, b, hb⟩
      exact hno g b (hb ▸ readFrame_encode (p.fits g (mem_of_getElem? hg)) b)
    rw [or_iff_left hpart]
    rcases scanSegment_cases hf hno with ⟨hin, e, hfail⟩ | ⟨hout, t, file, hk, ht, hc⟩
    · change scanSegment p.key true max ⟨s, []⟩ = _ at hfail
      rw [hfail]
      exact iff_of_false (fun h => h) (fun h => h hin)
    · change scanSegment p.key true max ⟨s, []⟩ = _ at hk
      rw [hk]
      exact iff_of_true (kept_durable hpre ht hc) hout

set_option maxRecDepth 20000 in
theorem zeros_repaired :
    threeFrames.Durable 1 (scanSegment threeFrames.key true 1000
      ⟨oneSegment ((encodeAll threeFrames.frames).take 32 ++ List.replicate 20 0), []⟩) := by
  have hrest : threeFrames.zeroed 32 20 = List.replicate 20 0 := by
    decide +kernel
  have hm : (encodeAll (threeFrames.frames.take 1)).length ≤ 32 := by decide +kernel
  have h := zeroTail_durable_iff (p := threeFrames) (m := 1) (k := 32) (z := 20) hm
    (oneSegment_file _)
  refine (h ?_).mpr (.inl ?_)
  · intro f b h
    rw [hrest] at h
    exact absurd h readFrame_zeros
  · intro h
    rw [hrest] at h
    simpa [remainderIsZero] using h.1

/-- Of two frames that were not forced, ten bytes and then zeros are left: the scan fails, and with it
the frame that was forced. -/
theorem halfFrame_refused :
    (scanSegment ⟨1, 1⟩ true 1000 ⟨oneSegment
        ((encodeAll threeFrames.frames).take 42 ++ List.replicate 54 0), []⟩).value? = none := by
  decide +kernel

end DockLattice.Wal
