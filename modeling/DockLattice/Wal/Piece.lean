import DockLattice.Wal.State

/-!
# DockLattice.Wal.Piece

A segment file as what it means: frames that count up from the cursor in the file name, each of which
fits, and behind them what is left of a frame that was cut off. `Piece.entry` is the file it stands
for; losing the end of the file is again a piece, with fewer frames (`Piece.cut`).
-/

namespace DockLattice

open List

/-- The cursor `n` places further on in the same incarnation. -/
def Cursor.plus (c : Cursor) (n : Nat) : Cursor := ⟨c.incarnation, c.seq + n⟩

namespace Cursor

@[simp] theorem plus_incarnation (c : Cursor) (n : Nat) : (c.plus n).incarnation = c.incarnation :=
  rfl

@[simp] theorem plus_seq (c : Cursor) (n : Nat) : (c.plus n).seq = c.seq + n := rfl

@[simp] theorem plus_zero (c : Cursor) : c.plus 0 = c := rfl

theorem plus_plus (c : Cursor) (m n : Nat) : (c.plus m).plus n = c.plus (m + n) := by
  ext <;> simp; omega

theorem plus_le_plus {c : Cursor} {m n : Nat} : c.plus m ≤ c.plus n ↔ m ≤ n := by
  simp [le_def]

end Cursor

namespace Wal

open Bytes

/-- The frames carry the cursors `c`, `c + 1`, ... -/
def Numbered : Cursor → List DecodedFrame → Prop
  | _, [] => True
  | c, f :: fs => f.cursor = c ∧ Numbered (c.plus 1) fs

variable {f : DecodedFrame} {fs : List DecodedFrame} {max : Nat}

theorem numbered_append {c : Cursor} {gs : List DecodedFrame} :
    Numbered c (fs ++ gs) ↔ Numbered c fs ∧ Numbered (c.plus fs.length) gs := by
  induction fs generalizing c with
  | nil => simp [Numbered]
  | cons f fs ih =>
    simp only [cons_append, Numbered, ih, Cursor.plus_plus, length_cons, and_assoc, Nat.add_comm 1]

theorem Numbered.mem {c : Cursor} (h : Numbered c fs) (hf : f ∈ fs) :
    ∃ n, n < fs.length ∧ f.cursor = c.plus n := by
  obtain ⟨pre, post, rfl⟩ := append_of_mem hf
  rw [numbered_append] at h
  exact ⟨pre.length, by simp, h.2.1⟩

structure Piece (max : Nat) where
  key : Cursor
  frames : List DecodedFrame
  tail : List Byte
  synced : Nat
  created : Instant
  numbered : Numbered key frames
  fits : ∀ f ∈ frames, f.Fits max
  torn : Torn max tail

namespace Piece

variable {max : Nat}

def content (p : Piece max) : List Byte := encodeAll p.frames ++ p.tail

def bytes (p : Piece max) : Nat := (encodeAll p.frames).length

def file (p : Piece max) : SegmentFile := ⟨p.content, p.synced⟩

def entry (p : Piece max) : Cursor × SegmentFile := (p.key, p.file)

/-- The newest cursor; the one reserved for the first frame if there is no frame yet. -/
def last (p : Piece max) : Cursor := p.key.plus (p.frames.length - 1)

def next (p : Piece max) : Cursor := p.key.plus p.frames.length

def newestAt (p : Piece max) : Instant := (p.frames.getLast?.map (·.appendedAt)).getD p.created

def segment (p : Piece max) : Segment := ⟨p.key, p.last, p.newestAt, p.bytes⟩

section

variable (p : Piece max)

@[simp] theorem entry_fst : p.entry.1 = p.key := rfl

@[simp] theorem segment_first : p.segment.first = p.key := rfl

@[simp] theorem segment_last : p.segment.last = p.last := rfl

@[simp] theorem segment_bytes : p.segment.bytes = p.bytes := rfl

@[simp] theorem last_incarnation : p.last.incarnation = p.key.incarnation := rfl

theorem key_le_last : p.key ≤ p.last := by
  simp [last, Cursor.le_def]

theorem last_seq : p.last.seq = p.key.seq + (p.frames.length - 1) := rfl

end

section

variable {p : Piece max}

theorem mem_cursor (hf : f ∈ p.frames) :
    f.cursor.incarnation = p.key.incarnation ∧ p.key.seq ≤ f.cursor.seq ∧
      f.cursor.seq ≤ p.last.seq := by
  obtain ⟨n, hn, hc⟩ := p.numbered.mem hf
  rw [hc, last_seq]
  exact ⟨rfl, by simp, by simp; omega⟩

theorem key_le (hf : f ∈ p.frames) : p.key ≤ f.cursor := by
  obtain ⟨h1, h2, -⟩ := mem_cursor hf
  exact .inr ⟨h1.symm, h2⟩

theorem le_last (hf : f ∈ p.frames) : f.cursor ≤ p.last := by
  obtain ⟨h1, -, h3⟩ := mem_cursor hf
  exact .inr ⟨h1, h3⟩

variable (h : p.frames ≠ [])

include h

theorem getLast?_cursor : p.frames.getLast?.map (·.cursor) = some p.last := by
  obtain ⟨fs, f, hfs⟩ : ∃ fs f, p.frames = fs ++ [f] :=
    ⟨_, _, (dropLast_concat_getLast h).symm⟩
  have hn := p.numbered
  rw [hfs, numbered_append] at hn
  have hc : f.cursor = p.last := by
    rw [hn.2.1, last, hfs]
    simp
  simp [hfs, hc]

theorem exists_last : ∃ f ∈ p.frames, f.cursor = p.last := by
  obtain ⟨f, hf, hc⟩ := Option.map_eq_some_iff.mp (getLast?_cursor h)
  exact ⟨f, mem_of_getLast? hf, hc⟩

theorem exists_first : ∃ f ∈ p.frames, f.cursor = p.key := by
  have hn := p.numbered
  cases hfs : p.frames with
  | nil => exact absurd hfs h
  | cons f fs => rw [hfs] at hn; exact ⟨f, by simp, hn.1⟩

theorem key_pos :
    0 < p.key.incarnation ∧ p.key.incarnation ≤ maxUint64 ∧ 0 < p.key.seq := by
  obtain ⟨f, hf, hk⟩ := exists_first h
  have := p.fits f hf
  exact ⟨hk ▸ this.incarnation_pos, hk ▸ this.incarnation_le, hk ▸ this.seq_pos⟩

theorem last_seq_lt : p.last.seq < maxUint64 := by
  obtain ⟨f, hf, hk⟩ := exists_last h
  exact hk ▸ (p.fits f hf).seq_lt

end

/-! ## Reading the file -/

theorem stream (p : Piece max) :
    frameStream max p.content = .ofList p.frames (frameStream max p.tail) :=
  frameStream_encodeAll p.fits p.tail

theorem stream_frames (p : Piece max) : (frameStream max p.content).frames = p.frames := by
  rw [stream]
  rcases frameStream_torn p.torn with h | h <;> rw [h, FrameStream.frames_ofList]

/-! ## What happens to a file -/

def fresh (key : Cursor) (now : Instant) : Piece max where
  key := key
  frames := []
  tail := []
  synced := 0
  created := now
  numbered := trivial
  fits := by simp
  torn := .inl rfl

def snoc (p : Piece max) (f : DecodedFrame) (hc : f.cursor = p.next) (hf : f.Fits max) :
    Piece max :=
  { p with
    frames := p.frames ++ [f]
    numbered := numbered_append.mpr ⟨p.numbered, hc, trivial⟩
    fits := forall_mem_append.mpr ⟨p.fits, forall_mem_singleton.mpr hf⟩ }

def sync (p : Piece max) : Piece max := { p with synced := p.content.length }

def withTail (p : Piece max) (tail : List Byte) (h : Torn max tail) : Piece max :=
  { p with tail := tail, torn := h }

def repaired (p : Piece max) : Piece max :=
  { p with tail := [], synced := p.bytes, torn := .inl rfl }

@[simp] theorem sync_key (p : Piece max) : p.sync.key = p.key := rfl

@[simp] theorem sync_frames (p : Piece max) : p.sync.frames = p.frames := rfl

@[simp] theorem sync_bytes (p : Piece max) : p.sync.bytes = p.bytes := rfl

@[simp] theorem sync_segment (p : Piece max) : p.sync.segment = p.segment := rfl

end Piece

/-! ## Losing the end of a file -/

theorem Torn.take {bytes : List Byte} (h : Torn max bytes) (n : Nat) :
    Torn max (bytes.take n) := by
  rcases h with rfl | ⟨f, hf, k, hk, rfl⟩
  · exact .inl (by simp)
  · exact .inr ⟨f, hf, min n k, by omega, by rw [take_take]⟩

/-- How many frames lie wholly within the first `n` bytes. -/
def wholeFrames : List DecodedFrame → Nat → Nat
  | [], _ => 0
  | f :: fs, n => if f.bytes ≤ n then wholeFrames fs (n - f.bytes) + 1 else 0

/-- The bytes behind the last whole frame within the first `n`. -/
def rest : List DecodedFrame → List Byte → Nat → List Byte
  | [], tail, n => tail.take n
  | f :: fs, tail, n => if f.bytes ≤ n then rest fs tail (n - f.bytes) else f.encode.take n

theorem wholeFrames_le (fs : List DecodedFrame) (n : Nat) : wholeFrames fs n ≤ fs.length := by
  induction fs generalizing n with
  | nil => simp [wholeFrames]
  | cons f fs ih =>
    simp only [wholeFrames]
    split
    · have := ih (n - f.bytes); simp; omega
    · simp

theorem take_encodeAll (fs : List DecodedFrame) (tail : List Byte) (n : Nat) :
    (encodeAll fs ++ tail).take n = encodeAll (fs.take (wholeFrames fs n)) ++ rest fs tail n := by
  induction fs generalizing n with
  | nil => simp [wholeFrames, rest]
  | cons f fs ih =>
    simp only [wholeFrames, rest, encodeAll_cons, append_assoc]
    split
    · rename_i h
      rw [take_append, take_of_length_le (by simpa using h)]
      simp only [DecodedFrame.length_encode, ih, take_succ_cons, encodeAll_cons, append_assoc]
    · rename_i h
      rw [take_append_of_le_length (by simp; omega)]
      simp

theorem torn_rest {tail : List Byte} (n : Nat) (hf : ∀ f ∈ fs, f.Fits max)
    (ht : Torn max tail) : Torn max (rest fs tail n) := by
  induction fs generalizing n with
  | nil => exact ht.take n
  | cons f fs ih =>
    simp only [rest]
    split
    · exact ih _ fun g hg => hf g (mem_cons_of_mem _ hg)
    · exact .inr ⟨f, hf f (by simp), n, by omega, rfl⟩

theorem le_wholeFrames (gs : List DecodedFrame) {n : Nat} (h : (encodeAll fs).length ≤ n) :
    fs.length ≤ wholeFrames (fs ++ gs) n := by
  induction fs generalizing n with
  | nil => simp
  | cons f fs ih =>
    simp only [encodeAll_cons, length_append, DecodedFrame.length_encode] at h
    simp only [cons_append, wholeFrames]
    rw [if_pos (by omega)]
    have := ih (n := n - f.bytes) (by omega)
    simp; omega

/-- What is left of the file when only its first `n` bytes survive. -/
def Piece.cut {max : Nat} (p : Piece max) (n : Nat) : Piece max where
  key := p.key
  frames := p.frames.take (wholeFrames p.frames n)
  tail := rest p.frames p.tail n
  synced := (p.content.take n).length
  created := p.created
  numbered := by
    have h := p.numbered
    rw [← take_append_drop (wholeFrames p.frames n) p.frames, numbered_append] at h
    exact h.1
  fits f hf := p.fits f (mem_of_mem_take hf)
  torn := torn_rest n p.fits p.torn

theorem Piece.content_cut (p : Piece max) (n : Nat) :
    (p.cut n).content = p.content.take n :=
  (take_encodeAll p.frames p.tail n).symm

end Wal
end DockLattice
