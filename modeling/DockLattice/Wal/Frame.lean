import DockLattice.Wal.Types

/-!
# DockLattice.Wal.Frame

The byte format of a segment (`frame.go`): a frame is a 32-bit length, a body (cursor, append time
and payload) and the CRC-32C of the body. `readFrame` keeps the two end-of-file errors of
`io.ReadFull` apart, since the callers do: a frame cut off exactly between two of its fields reads as
a clean end of file.
-/

namespace DockLattice.Wal

open Bytes List

variable {f : DecodedFrame} {max n : Nat}

def envelopeHeaderBytes : Nat := 24

def maxUint32 : Nat := 2 ^ 32 - 1

/-- `uint64(t.UnixNano())`. -/
def unixNano (t : Instant) : Nat := (t.nanos % 2 ^ 64).toNat

/-- `time.Unix(0, int64(n))`. -/
def unixTime (n : Nat) : Instant :=
  if h : n % 2 ^ 64 < 2 ^ 63 then ⟨(n % 2 ^ 64 : Nat), by omega, by omega⟩
  else ⟨(n % 2 ^ 64 : Nat) - 2 ^ 64, by omega, by omega⟩

theorem unixNano_lt (t : Instant) : unixNano t < 2 ^ 64 := by
  unfold unixNano; omega

theorem unixTime_unixNano (t : Instant) : unixTime (unixNano t) = t := by
  have h1 := t.lower
  have h2 := t.upper
  have hm : unixNano t % 2 ^ 64 = unixNano t := Nat.mod_eq_of_lt (unixNano_lt t)
  have hn : (unixNano t : Int) = t.nanos % 2 ^ 64 := by unfold unixNano; omega
  ext
  unfold unixTime
  split
  · simp only [hm, hn]; omega
  · simp only [hm, hn]; omega

structure DecodedFrame where
  cursor : Cursor
  appendedAt : Instant
  payload : List Byte
  deriving DecidableEq, Repr

namespace DecodedFrame

def bytes (f : DecodedFrame) : Nat := 4 + (envelopeHeaderBytes + f.payload.length) + 4

def body (f : DecodedFrame) : List Byte :=
  beBytes 8 f.cursor.incarnation ++ (beBytes 8 f.cursor.seq ++
    (beBytes 8 (unixNano f.appendedAt) ++ f.payload))

def encode (f : DecodedFrame) : List Byte :=
  beBytes 4 (envelopeHeaderBytes + f.payload.length) ++
    (f.body ++ beBytes 4 (crc32c f.body))

/-- What `appendLocked` guarantees of the frames it writes. -/
structure Fits (maxFrameBytes : Nat) (f : DecodedFrame) : Prop where
  incarnation_pos : 0 < f.cursor.incarnation
  incarnation_le : f.cursor.incarnation ≤ maxUint64
  seq_pos : 0 < f.cursor.seq
  seq_lt : f.cursor.seq < maxUint64
  body_le : envelopeHeaderBytes + f.payload.length ≤ maxUint32
  bytes_le : f.bytes ≤ maxFrameBytes

@[simp] theorem length_body (f : DecodedFrame) :
    f.body.length = envelopeHeaderBytes + f.payload.length := by
  simp [body, envelopeHeaderBytes]; omega

@[simp] theorem length_encode (f : DecodedFrame) : f.encode.length = f.bytes := by
  simp [encode, bytes]; omega

end DecodedFrame

def encodeFrame (cursor : Cursor) (appendedAt : Instant) (payload : List Byte) :
    Except WalError (List Byte) :=
  if envelopeHeaderBytes + payload.length > maxUint32 then .error .recordTooLarge
  else .ok (DecodedFrame.mk cursor appendedAt payload).encode

/-! ## Reading -/

inductive ReadFull where
  | ok (head rest : List Byte)
  | eof
  | unexpectedEOF
  deriving DecidableEq, Repr

/-- `io.ReadFull` into a buffer of `n` bytes. -/
def readFull (n : Nat) (bytes : List Byte) : ReadFull :=
  if n ≤ bytes.length then .ok (bytes.take n) (bytes.drop n)
  else if bytes = [] then .eof
  else .unexpectedEOF

/-- The outcome of `readFrame`; `rest` is what the reader has not consumed. -/
inductive FrameRead where
  | frame (f : DecodedFrame) (rest : List Byte)
  | eof
  | unexpectedEOF
  | corrupt (message : String) (rest : List Byte)
  deriving DecidableEq, Repr

def decodeBody (body : List Byte) (want : Nat) (rest : List Byte) : FrameRead :=
  if crc32c body ≠ want then .corrupt "checksum mismatch" rest
  else
    let incarnation := beNat (body.take 8)
    let seq := beNat ((body.drop 8).take 8)
    if incarnation = 0 ∨ seq = 0 then .corrupt "zero cursor component" rest
    else .frame ⟨⟨incarnation, seq⟩, unixTime (beNat ((body.drop 16).take 8)), body.drop 24⟩ rest

def readFrame (maxFrameBytes : Nat) (bytes : List Byte) : FrameRead :=
  match readFull 4 bytes with
  | .eof => .eof
  | .unexpectedEOF => .unexpectedEOF
  | .ok lengthBytes rest =>
    let bodyLen := beNat lengthBytes
    if bodyLen < envelopeHeaderBytes ∨ bodyLen + 8 > maxFrameBytes then
      .corrupt "invalid frame length" rest
    else
      match readFull bodyLen rest with
      | .eof => .eof
      | .unexpectedEOF => .unexpectedEOF
      | .ok body rest =>
        match readFull 4 rest with
        | .eof => .eof
        | .unexpectedEOF => .unexpectedEOF
        | .ok checksumBytes rest => decodeBody body (beNat checksumBytes) rest

/-- How reading a segment front to back ends. `unread` bytes are left when a frame is corrupt. -/
inductive ReadEnd where
  | eof
  | unexpectedEOF
  | corrupt (message : String) (unread : Nat)
  deriving DecidableEq, Repr

inductive FrameStream where
  | stop (e : ReadEnd)
  | frame (f : DecodedFrame) (next : FrameStream)
  deriving DecidableEq, Repr

def frameStreamFuel (maxFrameBytes : Nat) : Nat → List Byte → FrameStream
  | 0, _ => .stop .eof
  | fuel + 1, bytes =>
    match readFrame maxFrameBytes bytes with
    | .frame f rest => .frame f (frameStreamFuel maxFrameBytes fuel rest)
    | .eof => .stop .eof
    | .unexpectedEOF => .stop .unexpectedEOF
    | .corrupt message rest => .stop (.corrupt message rest.length)

/-- All frames of a file, read from its start. A frame takes at least one byte, so the fuel is
never used up. -/
def frameStream (maxFrameBytes : Nat) (bytes : List Byte) : FrameStream :=
  frameStreamFuel maxFrameBytes (bytes.length + 1) bytes

namespace FrameStream

def frames : FrameStream → List DecodedFrame
  | stop _ => []
  | frame f next => f :: next.frames

def ending : FrameStream → ReadEnd
  | stop e => e
  | frame _ next => next.ending

def ofList (fs : List DecodedFrame) (next : FrameStream) : FrameStream :=
  fs.foldr FrameStream.frame next

@[simp] theorem ofList_nil (next : FrameStream) : ofList [] next = next := rfl

@[simp] theorem ofList_cons (f : DecodedFrame) (fs : List DecodedFrame) (next : FrameStream) :
    ofList (f :: fs) next = .frame f (ofList fs next) := rfl

@[simp] theorem frames_ofList (fs : List DecodedFrame) (e : ReadEnd) :
    (ofList fs (.stop e)).frames = fs := by
  induction fs with
  | nil => rfl
  | cons f fs ih => simp [frames, ih]

end FrameStream

/-! ## A frame is read back -/

theorem readFull_append {xs ys : List Byte} (h : xs.length = n) :
    readFull n (xs ++ ys) = .ok xs ys := by
  subst h
  simp [readFull]

theorem readFull_short {xs : List Byte} (h : xs.length < n) :
    readFull n xs = if xs = [] then .eof else .unexpectedEOF := by
  simp [readFull, Nat.not_le.mpr h]

theorem decodeBody_body (h : f.Fits max) (rest : List Byte) :
    decodeBody f.body (crc32c f.body) rest = .frame f rest := by
  have hi : beNat (beBytes 8 f.cursor.incarnation) = f.cursor.incarnation := by
    rw [beNat_beBytes]
    exact Nat.mod_eq_of_lt (by have := h.incarnation_le; simp only [maxUint64] at this; omega)
  have hs : beNat (beBytes 8 f.cursor.seq) = f.cursor.seq := by
    rw [beNat_beBytes]
    exact Nat.mod_eq_of_lt (by have := h.seq_lt; simp only [maxUint64] at this; omega)
  have ht : unixTime (beNat (beBytes 8 (unixNano f.appendedAt))) = f.appendedAt := by
    rw [beNat_beBytes, Nat.mod_eq_of_lt (by have := unixNano_lt f.appendedAt; omega), unixTime_unixNano]
  have e1 : f.body.take 8 = beBytes 8 f.cursor.incarnation := by
    rw [DecodedFrame.body, take_left' (by simp)]
  have d1 : f.body.drop 8 = beBytes 8 f.cursor.seq ++ (beBytes 8 (unixNano f.appendedAt) ++ f.payload) := by
    rw [DecodedFrame.body, drop_left' (by simp)]
  have d2 : f.body.drop 16 = beBytes 8 (unixNano f.appendedAt) ++ f.payload := by
    rw [show (16 : Nat) = 8 + 8 from rfl, ← drop_drop, d1, drop_left' (by simp)]
  have d3 : f.body.drop 24 = f.payload := by
    rw [show (24 : Nat) = 16 + 8 from rfl, ← drop_drop, d2, drop_left' (by simp)]
  have e2 : (f.body.drop 8).take 8 = beBytes 8 f.cursor.seq := by
    rw [d1, take_left' (by simp)]
  have e3 : (f.body.drop 16).take 8 = beBytes 8 (unixNano f.appendedAt) := by
    rw [d2, take_left' (by simp)]
  unfold decodeBody
  have hp := h.incarnation_pos
  have hq := h.seq_pos
  rw [if_neg (by simp), e1, e2, e3, d3, hi, hs, ht]
  simp only
  rw [if_neg (by omega)]

theorem beNat_bodyLen (h : f.Fits max) :
    beNat (beBytes 4 (envelopeHeaderBytes + f.payload.length)) =
      envelopeHeaderBytes + f.payload.length := by
  rw [beNat_beBytes]
  exact Nat.mod_eq_of_lt (by have := h.body_le; simp only [maxUint32] at this; omega)

theorem not_badLength (h : f.Fits max) :
    ¬ (envelopeHeaderBytes + f.payload.length < envelopeHeaderBytes ∨
      envelopeHeaderBytes + f.payload.length + 8 > max) := by
  have := h.bytes_le
  simp only [DecodedFrame.bytes] at this
  omega

theorem readFrame_encode (h : f.Fits max) (rest : List Byte) :
    readFrame max (f.encode ++ rest) = .frame f rest := by
  have hcrc : beNat (beBytes 4 (crc32c f.body)) = crc32c f.body := by
    rw [beNat_beBytes]
    exact Nat.mod_eq_of_lt (by have := crc32c_lt f.body; omega)
  unfold readFrame DecodedFrame.encode
  rw [append_assoc, readFull_append (by simp)]
  simp only [beNat_bodyLen h]
  rw [if_neg (not_badLength h), append_assoc, readFull_append (by simp)]
  simp only
  rw [readFull_append (by simp)]
  simp only [hcrc]
  exact decodeBody_body h rest

@[simp] theorem readFrame_nil (max : Nat) : readFrame max [] = .eof := by
  simp [readFrame, readFull]

/-- Cut a frame anywhere before its end: reading it reports the end of the file. It is a clean one
exactly where the cut is between two fields. -/
theorem readFrame_take (h : f.Fits max) {k : Nat} (hk : k < f.bytes) :
    readFrame max (f.encode.take k) =
      if k = 0 ∨ k = 4 ∨ k = 4 + f.body.length then .eof else .unexpectedEOF := by
  have hb : f.bytes = 4 + f.body.length + 4 := by simp [DecodedFrame.bytes]
  have hlen : f.body.length = envelopeHeaderBytes + f.payload.length := by simp
  have hbl : 24 ≤ f.body.length := by rw [hlen]; simp [envelopeHeaderBytes]
  unfold readFrame DecodedFrame.encode
  by_cases h4 : k < 4
  · -- inside the length field
    have ht : (List.take k (beBytes 4 (envelopeHeaderBytes + f.payload.length) ++
        (f.body ++ beBytes 4 (crc32c f.body)))) =
        (beBytes 4 (envelopeHeaderBytes + f.payload.length)).take k := by
      rw [take_append_of_le_length (by simp; omega)]
    rw [ht, readFull_short (by simp; omega)]
    by_cases h0 : k = 0
    · subst h0; simp
    · have hne : (beBytes 4 (envelopeHeaderBytes + f.payload.length)).take k ≠ [] := by
        simp [h0, ← length_eq_zero_iff]
      rw [if_neg hne, if_neg (by omega)]
  obtain ⟨j, rfl⟩ : ∃ j, k = 4 + j := ⟨k - 4, by omega⟩
  have ht : (List.take (4 + j) (beBytes 4 (envelopeHeaderBytes + f.payload.length) ++
      (f.body ++ beBytes 4 (crc32c f.body)))) =
      beBytes 4 (envelopeHeaderBytes + f.payload.length) ++
        (f.body ++ beBytes 4 (crc32c f.body)).take j := by
    rw [take_append, take_of_length_le (by simp)]
    simp
  rw [ht, readFull_append (by simp)]
  simp only [beNat_bodyLen h]
  rw [if_neg (not_badLength h), ← hlen]
  by_cases hj : j < f.body.length
  · -- inside the body
    have ht' : (f.body ++ beBytes 4 (crc32c f.body)).take j = f.body.take j := by
      rw [take_append_of_le_length (by omega)]
    rw [ht', readFull_short (by simp; omega)]
    by_cases h0 : j = 0
    · subst h0; simp
    · have hne : f.body.take j ≠ [] := by
        simp [h0, ← length_eq_zero_iff]
        omega
      rw [if_neg hne, if_neg (by omega)]
  -- inside the checksum
  obtain ⟨i, rfl⟩ : ∃ i, j = f.body.length + i := ⟨j - f.body.length, by omega⟩
  have ht' : (f.body ++ beBytes 4 (crc32c f.body)).take (f.body.length + i) =
      f.body ++ (beBytes 4 (crc32c f.body)).take i := by
    rw [take_append, take_of_length_le (by omega)]
    simp
  rw [ht', readFull_append rfl]
  simp only
  rw [readFull_short (by simp; omega)]
  by_cases h0 : i = 0
  · subst h0; simp
  have hne : (beBytes 4 (crc32c f.body)).take i ≠ [] := by simp [h0, ← length_eq_zero_iff]
  rw [if_neg hne, if_neg (by omega)]

/-! ## All frames of a file -/

def encodeAll (fs : List DecodedFrame) : List Byte := (fs.map DecodedFrame.encode).flatten

@[simp] theorem encodeAll_nil : encodeAll [] = [] := rfl

@[simp] theorem encodeAll_cons (f : DecodedFrame) (fs : List DecodedFrame) :
    encodeAll (f :: fs) = f.encode ++ encodeAll fs := by simp [encodeAll]

@[simp] theorem encodeAll_append (fs gs : List DecodedFrame) :
    encodeAll (fs ++ gs) = encodeAll fs ++ encodeAll gs := by simp [encodeAll]

theorem readFull_length {bytes head rest : List Byte} (h : readFull n bytes = .ok head rest) :
    bytes.length = n + rest.length := by
  unfold readFull at h
  split at h
  · cases h; simp; omega
  · split at h <;> cases h

theorem decodeBody_cases (body : List Byte) (want : Nat) (rest : List Byte) :
    (∃ f, decodeBody body want rest = .frame f rest) ∨
      ∃ m, decodeBody body want rest = .corrupt m rest := by
  unfold decodeBody
  dsimp only
  split
  · exact .inr ⟨_, rfl⟩
  · split
    · exact .inr ⟨_, rfl⟩
    · exact .inl ⟨_, rfl⟩

theorem readFrame_length {bytes rest : List Byte} (h : readFrame max bytes = .frame f rest) :
    rest.length < bytes.length := by
  unfold readFrame at h
  split at h
  · cases h
  · cases h
  rename_i lengthBytes r1 h1
  have l1 := readFull_length h1
  simp only at h
  split at h
  · cases h
  split at h
  · cases h
  · cases h
  rename_i body r2 h2
  have l2 := readFull_length h2
  split at h
  · cases h
  · cases h
  rename_i checksumBytes r3 h3
  have l3 := readFull_length h3
  rcases decodeBody_cases body (beNat checksumBytes) r3 with ⟨f', hd⟩ | ⟨m, hd⟩
  · rw [hd] at h; cases h; omega
  · rw [hd] at h; cases h

theorem frameStreamFuel_stable : ∀ {n m : Nat} {bytes : List Byte},
    bytes.length < n → bytes.length < m →
      frameStreamFuel max n bytes = frameStreamFuel max m bytes := by
  intro n
  induction n with
  | zero => intro m bytes h _; omega
  | succ n ih =>
    intro m bytes hn hm
    cases m with
    | zero => omega
    | succ m =>
      simp only [frameStreamFuel]
      cases hr : readFrame max bytes with
      | frame f rest =>
        have := readFrame_length hr
        simp only
        rw [ih (m := m) (by omega) (by omega)]
      | eof | unexpectedEOF | corrupt => rfl

theorem frameStream_encode (h : f.Fits max) (rest : List Byte) :
    frameStream max (f.encode ++ rest) = .frame f (frameStream max rest) := by
  unfold frameStream
  rw [frameStreamFuel, readFrame_encode h]
  simp only
  rw [frameStreamFuel_stable (m := rest.length + 1) (by simp [DecodedFrame.bytes]) (by omega)]

theorem frameStream_encodeAll {fs : List DecodedFrame} (h : ∀ f ∈ fs, f.Fits max)
    (rest : List Byte) :
    frameStream max (encodeAll fs ++ rest) = .ofList fs (frameStream max rest) := by
  induction fs with
  | nil => rfl
  | cons f fs ih =>
    rw [encodeAll_cons, append_assoc, frameStream_encode (h f (by simp)),
      ih fun g hg => h g (mem_cons_of_mem _ hg)]
    rfl

@[simp] theorem frameStream_nil (max : Nat) : frameStream max [] = .stop .eof := by
  simp [frameStream, frameStreamFuel]

/-- `bytes` is what is left of a frame cut off before its end; no bytes at all included. -/
def Torn (max : Nat) (bytes : List Byte) : Prop :=
  bytes = [] ∨ ∃ f : DecodedFrame, f.Fits max ∧ ∃ k, k < f.bytes ∧ bytes = f.encode.take k

theorem frameStream_take (h : f.Fits max) {k : Nat} (hk : k < f.bytes) :
    frameStream max (f.encode.take k) =
      .stop (if k = 0 ∨ k = 4 ∨ k = 4 + f.body.length then .eof else .unexpectedEOF) := by
  unfold frameStream
  rw [frameStreamFuel, readFrame_take h hk]
  by_cases hc : k = 0 ∨ k = 4 ∨ k = 4 + f.body.length
  · rw [if_pos hc, if_pos hc]
  · rw [if_neg hc, if_neg hc]

theorem frameStream_torn {bytes : List Byte} (h : Torn max bytes) :
    frameStream max bytes = .stop .eof ∨ frameStream max bytes = .stop .unexpectedEOF := by
  rcases h with rfl | ⟨f, hf, k, hk, rfl⟩
  · exact .inl (frameStream_nil max)
  rw [frameStream_take hf hk]
  split
  · exact .inl rfl
  · exact .inr rfl

end DockLattice.Wal
