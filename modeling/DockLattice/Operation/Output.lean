import DockLattice.Lib.Json
import DockLattice.Operation.Engine

/-!
# DockLattice.Operation.Output

The way of a Compose run's output into the tail of an operation: the runner's relay, which drops
chunks when its channel is full (`composeexec/runner.go`), the runner's own tail
(`composeexec/tail.go`), and the writes of `runCompose`. Cutting its head never makes a tail invalid,
and cutting the stream between two writes does exactly when the cut is inside a rune.
-/

namespace DockLattice.Operation

open Bytes List Utf8

variable {limit n : Nat} {payload s : Text} {r : Record} {q : Utf8.State}

/-! ## The tail -/

theorem length_lastBytes (n : Nat) (s : Text) : (lastBytes n s).length = min n s.length := by
  simp only [lastBytes, length_drop]
  omega

theorem lastBytes_of_le (h : s.length ≤ n) : lastBytes n s = s := by
  simp [lastBytes, Nat.sub_eq_zero_of_le h]

/-- The bytes in front of the newest `n`. -/
def olderBytes (n : Nat) (s : Text) : Text := s.take (s.length - n)

theorem olderBytes_append_lastBytes (n : Nat) (s : Text) : olderBytes n s ++ lastBytes n s = s :=
  take_append_drop _ _

theorem scan_trim_lastBytes (h : scan .ready s = some q)
    (hn : utfMax ≤ n) (hs : n ≤ s.length) :
    scan .ready (trimPartialLeadingRune (lastBytes n s)) = some q := by
  rw [← olderBytes_append_lastBytes n s] at h
  refine scan_trimPartialLeadingRune h ?_
  rw [length_lastBytes]
  omega

theorem lastBytes_append_of_le {t : Text} (h : n ≤ t.length) :
    lastBytes n (s ++ t) = lastBytes n t := by
  simp only [lastBytes, length_append]
  rw [drop_append, drop_eq_nil_of_le (by omega), nil_append]
  congr 1
  omega

theorem writeOutput_scan {p q : Utf8.State} (hlimit : utfMax ≤ limit)
    (hr : scan .ready r.outputTail = some p) (hp : scan p payload = some q) :
    scan .ready (writeOutput limit r payload).outputTail = some q := by
  have hboth : scan .ready (r.outputTail ++ payload) = some q := by
    rw [scan_append_of_some hr]
    exact hp
  unfold writeOutput
  split
  · next hempty =>
    rw [List.isEmpty_iff.mp hempty] at hp
    rw [hr]
    exact hp
  split
  · next hlong =>
    dsimp only
    rw [← lastBytes_append_of_le (s := r.outputTail) hlong]
    exact scan_trim_lastBytes hboth hlimit (by simp only [length_append]; omega)
  · dsimp only
    split
    · next hover => exact scan_trim_lastBytes hboth hlimit (by omega)
    · exact hboth

theorem length_writeOutput_le (payload : Text) (hr : r.outputTail.length ≤ limit) :
    (writeOutput limit r payload).outputTail.length ≤ limit := by
  have hcut : ∀ s, (trimPartialLeadingRune (lastBytes limit s)).length ≤ limit := by
    intro s
    have h := length_trimPartialLeadingRune_le (lastBytes limit s)
    rw [length_lastBytes] at h
    omega
  unfold writeOutput
  split
  · exact hr
  split
  · exact hcut _
  dsimp only
  split
  · exact hcut _
  · next hover =>
    dsimp only
    omega

def Whole (limit : Nat) (payload : Text) : Prop :=
  ∃ cut, Utf8.valid (cut ++ payload) = true ∧ (cut = [] ∨ limit ≤ payload.length)

theorem Whole.of_valid (h : valid payload = true) :
    Whole limit payload :=
  ⟨[], h, .inl rfl⟩

theorem writeOutput_valid (hlimit : utfMax ≤ limit) (hr : valid r.outputTail = true)
    (hp : Whole limit payload) : valid (writeOutput limit r payload).outputTail = true := by
  obtain ⟨cut, hvalid, rfl | hlong⟩ := hp
  · rw [valid_iff] at *
    exact writeOutput_scan hlimit hr (by simpa using hvalid)
  have hne : payload.isEmpty = false := by
    cases payload with
    | nil => simp only [length_nil, utfMax] at *; omega
    | cons => rfl
  rw [valid_iff] at *
  simp only [writeOutput, hne, hlong, if_true, Bool.false_eq_true, if_false]
  rw [← lastBytes_append_of_le (s := cut) hlong]
  exact scan_trim_lastBytes hvalid hlimit (by simp only [length_append]; omega)

/-! ## The longest tail -/

/-- The longest end of the text that fits and has whole characters in front of it. -/
structure LongestTail (limit : Nat) (s tail : Text) : Prop where
  fits : tail.length ≤ limit
  whole : ∃ before, s = before ++ tail ∧ Utf8.valid before = true
  longest : ∀ before after, s = before ++ after → Utf8.valid before = true →
    after.length ≤ limit → after.length ≤ tail.length

namespace LongestTail

variable {tail : Text} {q : Utf8.State}

theorem eq_of_le (h : LongestTail limit s tail) (hs : s.length ≤ limit) : tail = s := by
  obtain ⟨before, hsplit, -⟩ := h.whole
  have hle := h.longest [] s rfl rfl hs
  have hnil : before = [] := by
    rw [hsplit, length_append] at hle
    exact length_eq_zero_iff.mp (by omega)
  rw [hsplit, hnil, nil_append]

theorem append (h : LongestTail limit s tail) (hfit : (tail ++ payload).length ≤ limit) :
    LongestTail limit (s ++ payload) (tail ++ payload) := by
  obtain ⟨before, hsplit, hvalid⟩ := h.whole
  refine ⟨hfit, ⟨before, by rw [hsplit, append_assoc], hvalid⟩, ?_⟩
  intro before' after heq hvalid' hle
  simp only [length_append] at hfit ⊢
  rcases append_eq_append_iff.mp heq with ⟨u, -, rfl⟩ | ⟨u, hs, rfl⟩
  · simp only [length_append]
    omega
  · simp only [length_append] at hle ⊢
    have := h.longest before' u hs hvalid' (by omega)
    omega

theorem trim (h : scan .ready s = some q) (hlimit : utfMax ≤ limit)
    (hs : limit ≤ s.length) :
    LongestTail limit s (trimPartialLeadingRune (lastBytes limit s)) := by
  have hlast : (lastBytes limit s).length = limit := by
    rw [length_lastBytes]
    omega
  rw [← olderBytes_append_lastBytes limit s] at h
  obtain ⟨skipped, hsplit, hvalid, hleast⟩ :=
    trimPartialLeadingRune_split h (by omega)
  have hlength := congrArg length hsplit
  rw [length_append, hlast] at hlength
  refine ⟨by omega, ⟨olderBytes limit s ++ skipped, ?_, hvalid⟩, ?_⟩
  · rw [append_assoc, ← hsplit, olderBytes_append_lastBytes]
  intro before after heq hbefore hle
  rw [← olderBytes_append_lastBytes limit s] at heq
  -- the beginning of `after` cannot lie in front of the newest bytes
  rcases append_eq_append_iff.mp heq with ⟨u, rfl, hu⟩ | ⟨u, hold, rfl⟩
  · have hmin := hleast u after hu hbefore
    rw [hu, length_append] at hlast
    omega
  · rw [length_append] at hle
    have hnil : u = [] := length_eq_zero_iff.mp (by omega)
    rw [hnil, append_nil] at hold
    have hmin := hleast [] (lastBytes limit s) rfl (by rw [append_nil, hold]; exact hbefore)
    rw [length_nil] at hmin
    rw [length_append, hnil, length_nil]
    omega

end LongestTail

structure Tailed (limit : Nat) (s : Text) (r : Record) : Prop where
  tail : LongestTail limit s r.outputTail
  truncated : r.outputTruncated = decide (limit < s.length)

theorem Tailed.write (h : Tailed limit s r) (hlimit : utfMax ≤ limit)
    (hscan : scan .ready (s ++ payload) = some q) :
    Tailed limit (s ++ payload) (writeOutput limit r payload) := by
  obtain ⟨before, hsplit, -⟩ := h.tail.whole
  have hlength := congrArg length hsplit
  rw [length_append] at hlength
  have hsame : s.length ≤ limit → r.outputTail.length = s.length := fun hs => by
    rw [h.tail.eq_of_le hs]
  unfold writeOutput
  split
  · next hempty =>
    rw [List.isEmpty_iff.mp hempty, append_nil]
    exact h
  split
  · next hlong =>
    refine ⟨?_, ?_⟩
    · simp only
      rw [← lastBytes_append_of_le (s := s) hlong]
      exact .trim hscan hlimit (by simp only [length_append]; omega)
    · have hempty : r.outputTail.isEmpty = decide (r.outputTail.length = 0) := by
        cases r.outputTail <;> simp
      rw [Bool.eq_iff_iff]
      simp only [h.truncated, hempty, length_append, Bool.or_eq_true, Bool.not_eq_true',
        decide_eq_false_iff_not, decide_eq_true_eq]
      omega
  dsimp only
  split
  · next hover =>
    have hcut : lastBytes limit (r.outputTail ++ payload) = lastBytes limit (s ++ payload) := by
      rw [hsplit, append_assoc]
      exact (lastBytes_append_of_le (by omega)).symm
    simp only [length_append] at hover
    refine ⟨?_, ?_⟩
    · simp only
      rw [hcut]
      exact .trim hscan hlimit (by simp only [length_append]; omega)
    · simp only [length_append]
      exact (decide_eq_true (by omega)).symm
  · next hfit =>
    refine ⟨h.tail.append (by omega), ?_⟩
    simp only [length_append] at hfit ⊢
    rw [h.truncated, decide_eq_decide]
    by_cases hs : s.length ≤ limit
    · have := hsame hs
      omega
    · omega

theorem Tailed.run (hlimit : utfMax ≤ limit) (spec : Spec) (now : Time) {chunks : List Text} (h : scan .ready chunks.flatten = some q) :
    Tailed limit chunks.flatten (chunks.foldl (writeOutput limit) (newRecord spec now)) := by
  induction chunks using List.reverseRecOn generalizing q with
  | nil =>
    refine ⟨⟨Nat.zero_le _, ⟨[], rfl, rfl⟩, ?_⟩, rfl⟩
    intro before after heq _ _
    rw [(append_eq_nil_iff.mp heq.symm).2]
    exact Nat.zero_le _
  | append_singleton chunks chunk ih =>
    have hall : (chunks ++ [chunk]).flatten = chunks.flatten ++ chunk := by simp
    rw [hall] at h ⊢
    obtain ⟨p, hp, -⟩ := Option.bind_eq_some_iff.mp ((scan_append _ _ _).symm.trans h)
    rw [foldl_append]
    exact (ih hp).write hlimit h

/-- Whatever the pieces in which a text is written: the record keeps all of it if it fits, and
otherwise the longest end of it that fits and begins with a character, and says so. -/
theorem output_tail_exact (hlimit : Utf8.utfMax ≤ limit) (spec : Spec) (now : Time)
    {chunks : List Text} (hvalid : Utf8.valid chunks.flatten = true) :
    let r := chunks.foldl (writeOutput limit) (newRecord spec now)
    (chunks.flatten.length ≤ limit →
      r.outputTail = chunks.flatten ∧ r.outputTruncated = false) ∧
    (limit < chunks.flatten.length →
      LongestTail limit chunks.flatten r.outputTail ∧ r.outputTruncated = true) := by
  intro r
  have htailed : Tailed limit chunks.flatten r := .run hlimit spec now (Utf8.valid_iff.mp hvalid)
  refine ⟨fun hshort => ⟨htailed.tail.eq_of_le hshort, ?_⟩, fun hlong => ⟨htailed.tail, ?_⟩⟩
  · rw [htailed.truncated]
    exact decide_eq_false (by omega)
  · rw [htailed.truncated]
    exact decide_eq_true hlong

/-- The second character of three bytes is written in two pieces, and the first one does not fit any
more. -/
theorem output_tail_of_pieces :
    let chunks : List Text := [[0xE2, 0x82, 0xAC, 0xE2], [0x82, 0xAC, 0x21]]
    Utf8.valid chunks.flatten = true ∧ LongestTail 4 chunks.flatten
      (chunks.foldl (writeOutput 4) (newRecord ⟨[], [], [], .containerStart, []⟩ 0)).outputTail :=
  ⟨by decide, ((output_tail_exact (by decide) _ _ (by decide)).2 (by decide)).1⟩

/-! ## The runner -/

/-- One call of the writers: a read of the process's pipe (`os/exec` copies at most 32 KiB at a time,
so it need not be what the process wrote at once), and whether the relay's channel had room for the
pending marker and for the data. -/
structure Write where
  payload : Text
  markerFits : Bool
  dataFits : Bool
  deriving DecidableEq, Repr

structure Chunk where
  data : Text
  droppedBytes : Nat
  deriving DecidableEq, Repr

/-- `nonBlockingRelay.send`: the bytes pending as dropped and the chunks sent. -/
def relaySend (pending : Nat) (w : Write) : Nat × List Chunk :=
  if w.payload.isEmpty then (pending, [])
  else if 0 < pending && !w.markerFits then (pending + w.payload.length, [])
  else
    let marker := if 0 < pending then [⟨[], pending⟩] else []
    if w.dataFits then (0, marker ++ [⟨w.payload, 0⟩])
    else (w.payload.length, marker)

/-- All chunks of a run, with the marker that `flushMarker` may send at its end. -/
def relayed (pending : Nat) (flushFits : Bool) : List Write → List Chunk
  | [] => if 0 < pending && flushFits then [⟨[], pending⟩] else []
  | w :: ws =>
    let sent := relaySend pending w
    sent.2 ++ relayed sent.1 flushFits ws

/-- `TailWriter.Write`, on the bytes the ring buffer holds. -/
def tailWrite (capacity : Nat) (buffer payload : Text) : Text :=
  if payload.isEmpty then buffer
  else if capacity ≤ payload.length then lastBytes capacity payload
  else buffer.drop (buffer.length + payload.length - capacity) ++ payload

def omissionMarker (n : Nat) : Text :=
  text "\n[docklattice: " ++ Json.decimal n ++ text " output bytes omitted]\n"

def chunkWrites (chunk : Chunk) : List Text :=
  (if 0 < chunk.droppedBytes then [omissionMarker chunk.droppedBytes] else []) ++ [chunk.data]

def composeWrites (capacity : Nat) (flushFits : Bool) (ws : List Write) : List Text :=
  (relayed 0 flushFits ws).flatMap chunkWrites ++
    [(ws.map Write.payload).foldl (tailWrite capacity) []]

theorem tailWrite_lastBytes (capacity : Nat) (s payload : Text) :
    tailWrite capacity (lastBytes capacity s) payload = lastBytes capacity (s ++ payload) := by
  unfold tailWrite
  split
  · next hempty => rw [List.isEmpty_iff.mp hempty, append_nil]
  split
  · next hlong => exact (lastBytes_append_of_le hlong).symm
  next hshort =>
  rw [length_lastBytes]
  simp only [lastBytes, drop_drop, length_append]
  rw [drop_append, show s.length + payload.length - capacity - s.length = 0 by omega, drop_zero]
  congr 2
  omega

theorem foldl_tailWrite (capacity : Nat) (ws : List Text) (s : Text) :
    ws.foldl (tailWrite capacity) (lastBytes capacity s) = lastBytes capacity (s ++ ws.flatten) := by
  induction ws generalizing s with
  | nil => simp
  | cons w ws ih =>
    rw [foldl_cons, tailWrite_lastBytes, ih, flatten_cons, append_assoc]

theorem omissionMarker_valid (n : Nat) : valid (omissionMarker n) = true := by
  refine valid_append (valid_append (by decide +kernel) ?_) (by decide +kernel)
  refine valid_of_ascii fun b hb => ?_
  exact UInt8.le_trans (Json.decimal_ascii n b hb).2 (by decide)

theorem relayed_valid {ws : List Write} (h : ∀ w ∈ ws, valid w.payload = true)
    (pending : Nat) (flushFits : Bool) :
    ∀ chunk ∈ relayed pending flushFits ws, valid chunk.data = true := by
  induction ws generalizing pending with
  | nil =>
    intro chunk hc
    simp only [relayed] at hc
    split at hc
    · rw [mem_singleton.mp hc]; rfl
    · cases hc
  | cons w ws ih =>
    intro chunk hc
    simp only [relayed, mem_append] at hc
    rcases hc with hc | hc
    · unfold relaySend at hc
      split at hc
      · cases hc
      split at hc
      · cases hc
      dsimp only at hc
      split at hc
      · rcases mem_append.mp hc with hc | hc
        · split at hc
          · rw [mem_singleton.mp hc]; rfl
          · cases hc
        · rw [mem_singleton.mp hc]
          exact h w (by simp)
      · split at hc
        · rw [mem_singleton.mp hc]; rfl
        · cases hc
    · exact ih (fun x hx => h x (by simp [hx])) _ chunk hc

theorem flatten_valid {ws : List Text} (h : ∀ w ∈ ws, valid w = true) :
    valid ws.flatten = true := by
  induction ws with
  | nil => rfl
  | cons w ws ih =>
    rw [flatten_cons]
    exact valid_append (h w (by simp)) (ih fun x hx => h x (by simp [hx]))

theorem composeWrites_whole {capacity : Nat} (hcap : limit ≤ capacity) {ws : List Write}
    (h : ∀ w ∈ ws, valid w.payload = true) (flushFits : Bool) :
    ∀ payload ∈ composeWrites capacity flushFits ws, Whole limit payload := by
  intro payload hp
  simp only [composeWrites, mem_append, mem_flatMap, mem_singleton] at hp
  rcases hp with ⟨chunk, hc, hp⟩ | rfl
  · simp only [chunkWrites, mem_append, mem_singleton] at hp
    rcases hp with hp | rfl
    · split at hp
      · rw [mem_singleton.mp hp]
        exact .of_valid (omissionMarker_valid _)
      · cases hp
    · exact .of_valid (relayed_valid h 0 flushFits chunk hc)
  have hall : valid (ws.map Write.payload).flatten = true := by
    refine flatten_valid fun w hw => ?_
    obtain ⟨x, hx, rfl⟩ := mem_map.mp hw
    exact h x hx
  have htail := foldl_tailWrite capacity (ws.map Write.payload) []
  rw [show lastBytes capacity [] = [] by simp [lastBytes], nil_append] at htail
  rw [htail]
  generalize (ws.map Write.payload).flatten = stream at hall
  by_cases hlen : stream.length ≤ capacity
  · rw [lastBytes_of_le hlen]
    exact .of_valid hall
  refine ⟨olderBytes capacity stream, ?_, .inr ?_⟩
  · rwa [olderBytes_append_lastBytes]
  · rw [length_lastBytes]
    omega

end DockLattice.Operation
