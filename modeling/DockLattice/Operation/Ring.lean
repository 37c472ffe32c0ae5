import DockLattice.Operation.Output

/-!
# DockLattice.Operation.Ring

The ring buffer of `TailWriter` (`composeexec/tail.go`). Rotated to its start, the buffer begins with
the bytes it holds; a write puts its payload behind them there, wherever it wraps in the buffer
itself, so that the writer refines `tailWrite`.
-/

namespace DockLattice.Operation

open Bytes List

structure TailWriter where
  buffer : Text
  start : Nat
  size : Nat
  total : Nat
  truncated : Bool
  deriving DecidableEq, Repr

def defaultTailBytes : Nat := 64 * 2 ^ 10

def newTailWriter (capacity : Int) : TailWriter :=
  ⟨replicate (if capacity ≤ 0 then defaultTailBytes else capacity.toNat) 0, 0, 0, 0, false⟩

/-- `copy(buffer[at:], src)`, with room for `src`. -/
def copyAt (buffer : Text) (at_ : Nat) (src : Text) : Text :=
  buffer.take at_ ++ src ++ buffer.drop (at_ + src.length)

/-- `copy` of a payload that goes on at the front where it reaches the end of the buffer. -/
def copyWrapped (buffer : Text) (start : Nat) (payload : Text) : Text :=
  let first := min payload.length (buffer.length - start)
  copyAt (copyAt buffer start (payload.take first)) 0 (payload.drop first)

namespace TailWriter

def write (w : TailWriter) (payload : Text) : TailWriter :=
  let capacity := w.buffer.length
  let total := w.total + payload.length
  if payload.isEmpty then { w with total := total }
  else if capacity ≤ payload.length then
    ⟨payload.drop (payload.length - capacity), 0, capacity, total, capacity < total⟩
  else
    let overflow := w.size + payload.length - capacity
    let start := if 0 < overflow then (w.start + overflow) % capacity else w.start
    let size := w.size - overflow
    ⟨copyWrapped w.buffer ((start + size) % capacity) payload, start, size + payload.length, total,
      0 < overflow || w.truncated⟩

def bytes (w : TailWriter) : Text :=
  let first := min w.size (w.buffer.length - w.start)
  (w.buffer.drop w.start).take first ++ w.buffer.take (w.size - first)

end TailWriter

/-! ## Copies in the rotated buffer -/

variable {buffer payload : Text} {start size : Nat}

theorem getElem?_copyAt {src : Text} {at_ : Nat} (h : at_ ≤ buffer.length) (i : Nat) :
    (copyAt buffer at_ src)[i]? =
      if at_ ≤ i ∧ i < at_ + src.length then src[i - at_]? else buffer[i]? := by
  rw [copyAt, append_assoc, getElem?_append, length_take, Nat.min_eq_left h, getElem?_append,
    getElem?_drop]
  split
  · rw [if_neg (by omega), getElem?_take_of_lt ‹_›]
  split
  · rw [if_pos (by omega)]
  · rw [if_neg (by omega)]
    congr 1
    omega

theorem length_copyWrapped (h : start ≤ buffer.length) (hp : payload.length ≤ buffer.length) :
    (copyWrapped buffer start payload).length = buffer.length := by
  simp only [copyWrapped, copyAt, length_append, length_take, length_drop]
  omega

theorem getElem?_copyWrapped (h : start < buffer.length) {i : Nat} (hi : i < buffer.length) :
    (copyWrapped buffer start payload)[i]? =
      if i + buffer.length < start + payload.length then payload[i + buffer.length - start]?
      else if start ≤ i ∧ i < start + payload.length then payload[i - start]?
      else buffer[i]? := by
  rw [copyWrapped, getElem?_copyAt (Nat.zero_le _), getElem?_copyAt h.le, getElem?_drop,
    length_drop, length_take]
  by_cases hwrap : i + buffer.length < start + payload.length
  · rw [if_pos hwrap, if_pos (by omega)]
    congr 1
    omega
  rw [if_neg hwrap, if_neg (by omega)]
  by_cases hin : start ≤ i ∧ i < start + payload.length
  · rw [if_pos hin, if_pos (by omega), getElem?_take_of_lt (by omega)]
  · rw [if_neg hin, if_neg (by omega)]

theorem rotate_copyWrapped (hstart : start < buffer.length)
    (hfit : size + payload.length ≤ buffer.length) (hsize : size < buffer.length) :
    (copyWrapped buffer ((start + size) % buffer.length) payload).rotate start =
      copyAt (buffer.rotate start) size payload := by
  have hend : (start + size) % buffer.length < buffer.length := Nat.mod_lt _ (by omega)
  have hlen : (copyWrapped buffer ((start + size) % buffer.length) payload).length =
      buffer.length := length_copyWrapped hend.le (by omega)
  have hmod : ∀ k, k < 2 * buffer.length →
      k % buffer.length = if k < buffer.length then k else k - buffer.length := by
    intro k hk
    split
    · exact Nat.mod_eq_of_lt ‹_›
    · rw [Nat.mod_eq_sub_mod (by omega), Nat.mod_eq_of_lt (by omega)]
  refine ext_getElem? fun i => ?_
  rw [getElem?_copyAt (by rw [length_rotate]; omega)]
  by_cases hi : i < buffer.length
  · rw [getElem?_rotate (by omega), hlen, getElem?_copyWrapped hend (Nat.mod_lt _ (by omega)),
      getElem?_rotate hi, hmod (i + start) (by omega), hmod (start + size) (by omega)]
    -- whether the bytes held wrap, whether the byte looked at does, and where it lies
    split_ifs <;> first | rfl | omega | (congr 1; omega)
  · rw [getElem?_eq_none (by rw [length_rotate]; omega), if_neg (by omega),
      getElem?_eq_none (by rw [length_rotate]; omega)]

/-! ## Writing -/

namespace TailWriter

/-- The writer after the bytes `s`, with a buffer of `capacity` bytes. -/
structure Holds (capacity : Nat) (w : TailWriter) (s : Text) : Prop where
  length : w.buffer.length = capacity
  start_lt : w.start < capacity
  size : w.size = min capacity s.length
  kept : (w.buffer.rotate w.start).take w.size = lastBytes capacity s
  total : w.total = s.length
  truncated : w.truncated = true ↔ capacity < s.length

variable {w : TailWriter} {capacity : Nat} {s : Text}

theorem bytes_eq (hs : w.start ≤ w.buffer.length) (hsize : w.size ≤ w.buffer.length) :
    w.bytes = (w.buffer.rotate w.start).take w.size := by
  rw [rotate_eq_drop_append_take hs, take_append, length_drop, take_take, bytes]
  congr 1
  · rw [take_eq_take_iff, length_drop]
    omega
  · rw [take_eq_take_iff]
    omega

theorem take_rotate_drop {overflow : Nat} (hsize : size ≤ buffer.length) (ho : overflow ≤ size) :
    (buffer.rotate (start + overflow)).take (size - overflow) =
      ((buffer.rotate start).take size).drop overflow := by
  rw [← rotate_rotate, rotate_eq_drop_append_take (by rw [length_rotate]; omega),
    take_append_of_le_length (by rw [length_drop, length_rotate]; omega), drop_take]

theorem Holds.write (h : w.Holds capacity s) (payload : Text) :
    (w.write payload).Holds capacity (s ++ payload) := by
  obtain ⟨hlength, hstart, hsize, hkept, htotal, htruncated⟩ := h
  have hbytes := tailWrite_lastBytes capacity s payload
  unfold TailWriter.write
  dsimp only
  rw [hlength, htotal]
  split
  · next hempty =>
    rw [isEmpty_iff.mp hempty, append_nil]
    exact ⟨hlength, hstart, hsize, hkept, by simp, htruncated⟩
  next hne =>
  split
  · next hlong =>
    have hlen : (payload.drop (payload.length - capacity)).length = capacity := by
      rw [length_drop]
      omega
    refine ⟨hlen, Nat.zero_lt_of_lt hstart, ?_, ?_, by simp, by simp⟩
    · rw [length_append, Nat.min_eq_left (by omega)]
    · rw [rotate_zero, lastBytes_append_of_le hlong, take_of_length_le hlen.le, lastBytes]
  next hshort =>
  rw [tailWrite, if_neg hne, if_neg hshort, length_lastBytes, ← hsize, ← hkept] at hbytes
  have hpos : 0 < payload.length := by
    rw [length_pos_iff_ne_nil]
    simpa using hne
  generalize ho : w.size + payload.length - capacity = overflow at hbytes ⊢
  obtain ⟨start, hs, hlt, hrot⟩ : ∃ start,
      (if 0 < overflow then (w.start + overflow) % capacity else w.start) = start ∧
        start < capacity ∧ w.buffer.rotate start = w.buffer.rotate (w.start + overflow) := by
    refine ⟨_, rfl, ?_⟩
    split
    · refine ⟨Nat.mod_lt _ (by omega), ?_⟩
      rw [← hlength, rotate_mod]
    · next hzero =>
      rw [show overflow = 0 by omega, Nat.add_zero]
      exact ⟨hstart, rfl⟩
  rw [hs]
  refine ⟨?_, hlt, ?_, ?_, by simp, ?_⟩
  · rw [length_copyWrapped _ (by omega), hlength]
    exact hlength ▸ (Nat.mod_lt _ (by omega)).le
  · dsimp only
    rw [length_append]
    omega
  · dsimp only
    rw [← hlength, rotate_copyWrapped (by omega) (by omega) (by omega), copyAt, hrot,
      take_rotate_drop (by omega) (by omega), hbytes, hlength]
    exact take_left' (by rw [length_lastBytes, length_append]; omega)
  · rw [Bool.or_eq_true, decide_eq_true_eq, htruncated, length_append]
    omega

theorem Holds.writes (h : w.Holds capacity s) (payloads : List Text) :
    (payloads.foldl TailWriter.write w).Holds capacity (s ++ payloads.flatten) := by
  induction payloads generalizing w s with
  | nil => simpa using h
  | cons payload payloads ih =>
    rw [foldl_cons, flatten_cons, ← append_assoc]
    exact ih (h.write payload)

end TailWriter

/-- After any writes the ring holds the newest bytes of all payloads, as many as it has room for, and
is marked as truncated exactly if there were more. -/
theorem tailWriter_exact {capacity : Nat} (h : 1 ≤ capacity) (payloads : List Text) :
    let w := payloads.foldl TailWriter.write (newTailWriter capacity)
    w.bytes = lastBytes capacity payloads.flatten ∧
      (w.truncated = true ↔ capacity < payloads.flatten.length) := by
  intro w
  have hnew : (newTailWriter capacity).Holds capacity [] := by
    rw [newTailWriter, if_neg (by omega), Int.toNat_natCast]
    refine ⟨length_replicate, h, ?_, ?_, rfl, ?_⟩
    all_goals simp [lastBytes]
  have hw : w.Holds capacity payloads.flatten := hnew.writes payloads
  refine ⟨?_, hw.truncated⟩
  rw [TailWriter.bytes_eq, hw.kept]
  · exact (hw.length ▸ hw.start_lt).le
  · rw [hw.size, hw.length]
    exact Nat.min_le_left _ _

theorem tailWriter_three :
    let w := [[1, 2], [3, 4]].foldl TailWriter.write (newTailWriter (3 : Nat))
    w.bytes = lastBytes 3 [1, 2, 3, 4] ∧ (w.truncated = true ↔ 3 < 4) :=
  tailWriter_exact (by decide) [[1, 2], [3, 4]]

end DockLattice.Operation
