import DockLattice.Operation.Output

/-!
# DockLattice.Operation.Shown

What an operation shows of the output of its Compose run (`runCompose`, `composeexec/runner.go`). The
bytes reach the record twice, as the chunks of the live relay and as the runner's own tail; each is
labelled with where it comes from, and the record keeps the newest run of them
(`ComposeRun.shown_bytes`).
-/

namespace DockLattice.Operation

open Bytes List Utf8

/-! ## Runs -/

/-- The output of a Compose process, as it is read from the two pipes. Standard output and standard
error are drained by a goroutine each, and each writes to the tail before it writes to the relay, so the two may see the writes in
different orders. -/
structure ComposeRun where
  /-- the writes in the order they reach the runner's tail -/
  outputs : List Text
  /-- the same writes in the order they reach the relay -/
  relay : List Write
  flushFits : Bool
  same : (relay.map Write.payload).Perm outputs

def totalDropped (pending : Nat) : List Write → Nat
  | [] => 0
  | w :: ws =>
    (if w.payload.isEmpty then 0
      else if 0 < pending && !w.markerFits then w.payload.length
      else if w.dataFits then 0
      else w.payload.length) + totalDropped (relaySend pending w).1 ws

inductive Origin where
  | marker | relay | tail
  deriving DecidableEq, Repr

def labelled (origin : Origin) (s : Text) : List (Origin × Byte) := s.map fun b => (origin, b)

def bytesOf (keep : Origin → Bool) (s : List (Origin × Byte)) : Text :=
  (s.filter fun b => keep b.1).map Prod.snd

namespace ComposeRun

variable (run : ComposeRun) (limit capacity : Nat)

def output : Text := run.outputs.flatten

def chunks : List Chunk := relayed 0 run.flushFits run.relay

def runnerTail : Text := run.outputs.foldl (tailWrite capacity) []

def writes : List Text := run.chunks.flatMap chunkWrites ++ [run.runnerTail capacity]

def record (r : Record) : Record :=
  (run.writes capacity).foldl (writeOutput limit)
    { r with outputTail := [], outputTruncated := false }

def relayedBytes : List (Origin × Byte) :=
  run.chunks.flatMap fun chunk =>
    (if 0 < chunk.droppedBytes then labelled .marker (omissionMarker chunk.droppedBytes) else []) ++
      labelled .relay chunk.data

def writtenBytes : List (Origin × Byte) :=
  run.relayedBytes ++ labelled .tail (run.runnerTail capacity)

def shown (r : Record) : List (Origin × Byte) :=
  (run.writtenBytes capacity).drop
    ((run.writtenBytes capacity).length - (run.record limit capacity r).outputTail.length)

def visible (r : Record) : Text := bytesOf (· ≠ .marker) (run.shown limit capacity r)

def relayedVisible (r : Record) : Text := bytesOf (· = .relay) (run.shown limit capacity r)

/-- What the relay hands over: the data it sent and the markers of what it dropped. -/
def relayText : Text := (run.chunks.flatMap chunkWrites).flatten

/-- Conditions on the writes, on what the relay dropped of them and on the two limits. Nothing is
written. Or the runner's tail alone fills the operation's limit, with more output in front of it, and
is cut itself or follows something relayed. Or the relay dropped everything, and its markers and the
output fit beside each other, in the runner's tail as well. -/
inductive Once : Prop
  | silent (h : run.output = [])
  | long (hlong : limit < run.output.length) (hcap : limit ≤ capacity)
      (hmark : limit < capacity ∨ run.relayText ≠ [])
  | dropped (hdata : ∀ chunk ∈ run.chunks, chunk.data = []) (hcap : run.output.length ≤ capacity)
      (hfit : run.relayText.length + run.output.length ≤ limit) (hroom : run.output.length < limit)

structure ShownOnce (r : Record) : Prop where
  suffix : run.visible limit capacity r <:+ run.output
  all : totalDropped 0 run.relay = 0 → run.output.length ≤ limit →
    run.visible limit capacity r = run.output
  truncated : (run.record limit capacity r).outputTruncated = true ↔
    run.visible limit capacity r ≠ run.output

end ComposeRun

/-! ## Labels -/

section Labels

variable {keep : Origin → Bool} {s t : List (Origin × Byte)}

theorem bytesOf_append : bytesOf keep (s ++ t) = bytesOf keep s ++ bytesOf keep t := by
  simp [bytesOf]

theorem bytesOf_labelled (origin : Origin) (x : Text) :
    bytesOf keep (labelled origin x) = if keep origin then x else [] := by
  unfold bytesOf labelled
  split
  next h => simp [filter_map, Function.comp_def, h]
  next h => simp [filter_map, Function.comp_def, h]

theorem map_snd_labelled (origin : Origin) (x : Text) :
    (labelled origin x).map Prod.snd = x := by
  simp [labelled, Function.comp_def]

theorem drop_labelled (n : Nat) (origin : Origin) (x : Text) :
    (labelled origin x).drop n = labelled origin (x.drop n) :=
  map_drop.symm

theorem bytesOf_congr {k : Origin → Bool} (h : ∀ b ∈ s, keep b.1 = k b.1) :
    bytesOf keep s = bytesOf k s := by
  unfold bytesOf
  rw [filter_congr h]

end Labels

/-! ## Writes -/

theorem writeOutput_suffix (limit : Nat) (r : Record) (payload : Text) :
    (writeOutput limit r payload).outputTail <:+ r.outputTail ++ payload := by
  have hlast : ∀ s : Text, trimPartialLeadingRune (lastBytes limit s) <:+ s := fun s =>
    (trimPartialLeadingRune_suffix _).trans (drop_suffix _ _)
  unfold writeOutput
  split
  next hempty => rw [List.isEmpty_iff.mp hempty, append_nil]
  next =>
    split
    · exact (hlast payload).trans (suffix_append _ _)
    dsimp only
    split
    · exact hlast _
    · exact suffix_refl _

theorem writes_suffix (limit : Nat) (ws : List Text) :
    ∀ r : Record, (ws.foldl (writeOutput limit) r).outputTail <:+ r.outputTail ++ ws.flatten := by
  induction ws with
  | nil => intro r; simp
  | cons w ws ih =>
    intro r
    obtain ⟨cut, hcut⟩ := writeOutput_suffix limit r w
    refine (ih _).trans ⟨cut, ?_⟩
    rw [← append_assoc, hcut, flatten_cons, append_assoc]

theorem writes_fit (limit : Nat) (ws : List Text) :
    ∀ r : Record, (r.outputTail ++ ws.flatten).length ≤ limit →
      (ws.foldl (writeOutput limit) r).outputTail = r.outputTail ++ ws.flatten ∨
      ∃ w ∈ ws, r.outputTail ++ ws.flatten = w ∧
        (ws.foldl (writeOutput limit) r).outputTail = trimPartialLeadingRune w := by
  induction ws with
  | nil => intro r _; exact .inl (by simp)
  | cons w ws ih =>
    intro r hfit
    simp only [flatten_cons, length_append, foldl_cons] at hfit ⊢
    by_cases hempty : w = []
    · have hsame : writeOutput limit r w = r := by simp [writeOutput, hempty]
      rw [hsame, hempty, nil_append]
      rcases ih r (by simp only [length_append]; omega) with hall | ⟨x, hx, heq, htrim⟩
      · exact .inl hall
      · exact .inr ⟨x, mem_cons_of_mem _ hx, heq, htrim⟩
    have hne : w.isEmpty = false := by simpa using hempty
    by_cases hlong : limit ≤ w.length
    · -- nothing else was or will be written
      have htail : r.outputTail = [] := length_eq_zero_iff.mp (by omega)
      have hrest : ws.flatten = [] := length_eq_zero_iff.mp (by omega)
      have hw : (writeOutput limit r w).outputTail = trimPartialLeadingRune w := by
        simp only [writeOutput, hne, hlong, if_true, Bool.false_eq_true, if_false]
        rw [lastBytes_of_le (by omega)]
      refine .inr ⟨w, mem_cons_self, by rw [htail, hrest]; simp, ?_⟩
      have hle : (writeOutput limit r w).outputTail.length ≤ limit := by
        rw [hw]
        have := length_trimPartialLeadingRune_le w
        omega
      rcases ih (writeOutput limit r w) (by simp [hrest, hle]) with hall | ⟨x, hx, heq, htrim⟩
      · rw [hall, hrest, append_nil, hw]
      have hnil : x = [] := by
        have := sublist_flatten_of_mem hx
        rw [hrest] at this
        exact sublist_nil.mp this
      rw [htrim, hnil]
      rw [hnil, hrest, append_nil, hw] at heq
      rw [heq]
      rfl
    · have hw : (writeOutput limit r w).outputTail = r.outputTail ++ w := by
        have hover : ¬ limit < (r.outputTail ++ w).length := by
          simp only [length_append]; omega
        simp only [writeOutput, hne, hlong, hover, Bool.false_eq_true, if_false]
      have hstep := ih (writeOutput limit r w) (by rw [hw]; simp only [length_append]; omega)
      rw [hw, append_assoc] at hstep
      rcases hstep with hall | ⟨x, hx, heq, htrim⟩
      · exact .inl hall
      · exact .inr ⟨x, mem_cons_of_mem _ hx, heq, htrim⟩

theorem trim_head (s : Text) :
    trimPartialLeadingRune s = s ∨
      (∃ b, s.head? = some b ∧ runeStart b = false) ∧
      ∃ b, (trimPartialLeadingRune s).head? = some b ∧ runeStart b = true := by
  have hstart : ∀ n t r, fromRuneStart n t = some r →
      ∃ b, r.head? = some b ∧ runeStart b = true := by
    intro n t r h
    induction n, t using fromRuneStart.induct with
    | case1 | case2 => cases h
    | case3 n b t hb =>
      simp only [fromRuneStart, hb, if_true, Option.some.injEq] at h
      exact ⟨b, h ▸ rfl, hb⟩
    | case4 n b t hb ih =>
      simp only [fromRuneStart, hb] at h
      exact ih h
  unfold trimPartialLeadingRune
  split
  next => exact .inl rfl
  next rest hrest =>
    cases s with
    | nil => cases hrest
    | cons b s =>
      by_cases hb : runeStart b = true
      · simp only [utfMax, fromRuneStart, hb, if_true, Option.some.injEq] at hrest
        exact .inl hrest.symm
      · exact .inr ⟨⟨b, rfl, by simpa using hb⟩, hstart _ _ _ hrest⟩

theorem trim_ne_nil {s : Text} (h : s ≠ []) : trimPartialLeadingRune s ≠ [] := by
  rcases trim_head s with hsame | ⟨-, b, hb, -⟩
  · rwa [hsame]
  · intro hnil
    rw [hnil] at hb
    cases hb

theorem writeOutput_ne_nil {limit : Nat} (hpos : 0 < limit) {r : Record} {payload : Text}
    (h : r.outputTail ≠ [] ∨ payload ≠ []) : (writeOutput limit r payload).outputTail ≠ [] := by
  have hlast : ∀ {s : Text}, s ≠ [] → trimPartialLeadingRune (lastBytes limit s) ≠ [] := by
    intro s hs
    refine trim_ne_nil (ne_nil_of_length_pos ?_)
    have := length_pos_of_ne_nil hs
    rw [length_lastBytes]
    omega
  unfold writeOutput
  split
  next hempty => exact h.resolve_right (not_not_intro (List.isEmpty_iff.mp hempty))
  next hne =>
    have hne : payload ≠ [] := fun hnil => hne (List.isEmpty_iff.mpr hnil)
    split
    · exact hlast hne
    dsimp only
    split
    · exact hlast (append_ne_nil_of_right_ne_nil _ hne)
    · exact append_ne_nil_of_right_ne_nil _ hne

theorem writes_ne_nil {limit : Nat} (hpos : 0 < limit) (ws : List Text) (r : Record)
    (h : r.outputTail ≠ [] ∨ ws.flatten ≠ []) :
    (ws.foldl (writeOutput limit) r).outputTail ≠ [] := by
  induction ws generalizing r with
  | nil => exact h.resolve_right (by simp)
  | cons w ws ih =>
    refine ih _ ?_
    by_cases hw : r.outputTail ≠ [] ∨ w ≠ []
    · exact .inl (writeOutput_ne_nil hpos hw)
    · rw [not_or, not_not, not_not] at hw
      exact .inr (by simpa [hw] using h)

/-- Writes that leave room are all kept, and nothing is marked. -/
theorem writes_room (limit : Nat) (ws : List Text) (r : Record)
    (h : (r.outputTail ++ ws.flatten).length < limit) :
    (ws.foldl (writeOutput limit) r).outputTail = r.outputTail ++ ws.flatten ∧
      (ws.foldl (writeOutput limit) r).outputTruncated = r.outputTruncated := by
  induction ws generalizing r with
  | nil => simp
  | cons w ws ih =>
    simp only [flatten_cons, length_append] at h
    have hstep : (writeOutput limit r w).outputTail = r.outputTail ++ w ∧
        (writeOutput limit r w).outputTruncated = r.outputTruncated := by
      unfold writeOutput
      split
      next hempty => rw [List.isEmpty_iff.mp hempty, append_nil]; exact ⟨rfl, rfl⟩
      next =>
        rw [if_neg (by omega), if_neg (by rw [length_append]; omega)]
        exact ⟨rfl, rfl⟩
    obtain ⟨htail, hflag⟩ := ih (writeOutput limit r w) (by
      rw [hstep.1, length_append, length_append]
      omega)
    rw [foldl_cons, htail, hflag, hstep.1, hstep.2, flatten_cons, append_assoc]
    exact ⟨rfl, rfl⟩

/-! ## The relay and the runner's tail -/

theorem relayed_all {ws : List Write} (flushFits : Bool) (h : totalDropped 0 ws = 0) :
    (relayed 0 flushFits ws).flatMap chunkWrites = (ws.map Write.payload).filter (· ≠ []) ∧
      ∀ chunk ∈ relayed 0 flushFits ws, chunk.droppedBytes = 0 := by
  induction ws with
  | nil => simp [relayed]
  | cons w ws ih =>
    by_cases hempty : w.payload = []
    · have hsend : relaySend 0 w = (0, []) := by simp [relaySend, hempty]
      simp only [totalDropped, hempty, hsend, isEmpty_nil, if_true, Nat.zero_add] at h
      simpa [relayed, hsend, hempty] using ih h
    have hne : w.payload.isEmpty = false := by simpa using hempty
    have hfits : w.dataFits = true := by
      by_contra hfull
      have hpos := length_pos_of_ne_nil hempty
      simp only [totalDropped, hne, Bool.not_eq_true _ ▸ hfull, Nat.lt_irrefl, decide_false,
        Bool.false_and, Bool.false_eq_true, if_false] at h
      omega
    have hsend : relaySend 0 w = (0, [⟨w.payload, 0⟩]) := by simp [relaySend, hempty, hfits]
    simp only [totalDropped, hne, hfits, hsend, Nat.lt_irrefl, decide_false, Bool.false_and,
      Bool.false_eq_true, if_false, if_true, Nat.zero_add] at h
    obtain ⟨hwrites, hclean⟩ := ih h
    refine ⟨?_, fun chunk hc => ?_⟩
    · simp [relayed, hsend, hwrites, chunkWrites, hempty]
    simp only [relayed, hsend, singleton_append, mem_cons] at hc
    rcases hc with rfl | hc
    · rfl
    · exact hclean chunk hc

theorem relayed_of_empty {ws : List Write} (flushFits : Bool)
    (h : ∀ w ∈ ws, w.payload = []) : relayed 0 flushFits ws = [] := by
  induction ws with
  | nil => rfl
  | cons w ws ih =>
    have hsend : relaySend 0 w = (0, []) := by simp [relaySend, h w mem_cons_self]
    simpa [relayed, hsend] using ih fun x hx => h x (mem_cons_of_mem _ hx)

namespace ComposeRun

variable (run : ComposeRun) {limit capacity : Nat} (r : Record)

theorem runnerTail_eq (capacity : Nat) :
    run.runnerTail capacity = lastBytes capacity run.output := by
  have h := foldl_tailWrite capacity run.outputs []
  rwa [show lastBytes capacity [] = [] by simp [lastBytes], nil_append] at h

def relayRecord (limit : Nat) (r : Record) : Record :=
  (run.chunks.flatMap chunkWrites).foldl (writeOutput limit)
    { r with outputTail := [], outputTruncated := false }

theorem record_eq :
    run.record limit capacity r =
      writeOutput limit (run.relayRecord limit r) (run.runnerTail capacity) := by
  simp [record, writes, relayRecord]

theorem relayedBytes_bytes :
    run.relayedBytes.map Prod.snd = (run.chunks.flatMap chunkWrites).flatten := by
  unfold relayedBytes
  induction run.chunks with
  | nil => rfl
  | cons chunk chunks ih =>
    simp only [flatMap_cons, map_append, ih, flatten_append, chunkWrites, map_snd_labelled]
    split
    · simp [map_snd_labelled]
    · simp

theorem relayedBytes_origin {b : Origin × Byte} (h : b ∈ run.relayedBytes) :
    b.1 = .marker ∨ b.1 = .relay := by
  obtain ⟨chunk, -, hb⟩ := mem_flatMap.mp h
  rcases mem_append.mp hb with hb | hb
  · split at hb
    · obtain ⟨x, -, rfl⟩ := mem_map.mp hb
      exact .inl rfl
    · cases hb
  · obtain ⟨x, -, rfl⟩ := mem_map.mp hb
    exact .inr rfl

theorem shown_bytes :
    (run.shown limit capacity r).map Prod.snd = (run.record limit capacity r).outputTail := by
  have hbytes : (run.writtenBytes capacity).map Prod.snd = (run.writes capacity).flatten := by
    simp [writtenBytes, writes, relayedBytes_bytes, map_snd_labelled]
  have hsuffix : (run.record limit capacity r).outputTail <:+ (run.writes capacity).flatten :=
    writes_suffix limit (run.writes capacity) _
  rw [shown, map_drop, hbytes, ← length_map (f := Prod.snd), hbytes]
  exact (suffix_iff_eq_drop.mp hsuffix).symm

/-- What is visible: bytes of the relay, and behind them bytes of the runner's tail; if there are
any of the relay, the whole of that tail. -/
theorem visible_eq (limit capacity : Nat) :
    ∃ kept, run.visible limit capacity r = run.relayedVisible limit capacity r ++ kept ∧
      kept <:+ run.runnerTail capacity ∧
      (run.relayedVisible limit capacity r ≠ [] → kept = run.runnerTail capacity) := by
  unfold visible relayedVisible shown
  generalize (run.writtenBytes capacity).length - (run.record limit capacity r).outputTail.length
    = n
  rw [writtenBytes, drop_append, drop_labelled]
  refine ⟨(run.runnerTail capacity).drop (n - run.relayedBytes.length), ?_, drop_suffix _ _,
    fun hne => ?_⟩
  · rw [bytesOf_append, bytesOf_append, bytesOf_labelled, bytesOf_labelled,
      bytesOf_congr (k := (· = .relay)) fun b hb => ?_]
    · simp
    · rcases run.relayedBytes_origin (mem_of_mem_drop hb) with h | h <;> simp [h]
  · have hlt : n < run.relayedBytes.length := by
      by_contra hle
      rw [drop_eq_nil_of_le (by omega), nil_append, bytesOf_labelled] at hne
      exact hne rfl
    rw [Nat.sub_eq_zero_of_le (by omega), drop_zero]

theorem visible_of_all (hall : totalDropped 0 run.relay = 0) :
    run.visible limit capacity r = (run.record limit capacity r).outputTail := by
  have hclean : ∀ b ∈ run.writtenBytes capacity, b.1 ≠ .marker := by
    intro b hb
    rcases mem_append.mp hb with hb | hb
    · obtain ⟨chunk, hc, hb⟩ := mem_flatMap.mp hb
      have hzero := (relayed_all run.flushFits hall).2 chunk hc
      rw [hzero, if_neg (Nat.lt_irrefl 0), nil_append] at hb
      obtain ⟨x, -, rfl⟩ := mem_map.mp hb
      simp
    · obtain ⟨x, -, rfl⟩ := mem_map.mp hb
      simp
  rw [← shown_bytes, visible, bytesOf, filter_eq_self.mpr]
  intro b hb
  simpa using hclean b (mem_of_mem_drop hb)

/-- Without losses and with room for everything the relay has written all of the output, in its
own order, before the runner's tail; or one write that fills the tail and begins inside a rune. -/
theorem relayRecord_of_all (hall : totalDropped 0 run.relay = 0)
    (hfit : run.output.length ≤ limit) :
    (run.relayRecord limit r).outputTail.length = run.output.length ∨
      (run.relayRecord limit r).outputTail = trimPartialLeadingRune run.output := by
  have hwrites := (relayed_all run.flushFits hall).1
  have hlen : (run.chunks.flatMap chunkWrites).flatten.length = run.output.length := by
    rw [chunks, hwrites, flatten_filter_ne_nil]
    exact run.same.flatten.length_eq
  have hroom : (([] : Text) ++ (run.chunks.flatMap chunkWrites).flatten).length ≤ limit := by
    rw [nil_append, hlen]
    exact hfit
  rcases writes_fit limit (run.chunks.flatMap chunkWrites)
    { r with outputTail := [], outputTruncated := false } hroom with heq | ⟨w, hw, heq, htrim⟩
  · refine .inl ?_
    rw [relayRecord, heq, nil_append, hlen]
  refine .inr ?_
  rw [nil_append] at heq
  rw [chunks, hwrites] at hw
  have hmem : w ∈ run.outputs := run.same.mem_iff.mp (mem_of_mem_filter hw)
  have hout : w = run.output :=
    (sublist_flatten_of_mem hmem).eq_of_length (by rw [← heq]; exact hlen)
  rw [relayRecord, htrim, hout]

theorem not_shownOnce (hcap : 0 < capacity) (hne : run.output ≠ [])
    (hall : totalDropped 0 run.relay = 0) (hfit : run.output.length ≤ limit) :
    ¬ run.ShownOnce limit capacity r := by
  intro h
  have hpos := length_pos_of_ne_nil hne
  have hvisible := h.all hall hfit
  have hflag : (run.record limit capacity r).outputTruncated = false := by
    rw [← Bool.not_eq_true, h.truncated]
    exact not_not_intro hvisible
  rw [visible_of_all run r hall, record_eq] at hvisible
  rw [record_eq] at hflag
  have htail : 0 < (run.runnerTail capacity).length := by
    rw [runnerTail_eq, length_lastBytes]
    omega
  have hnotEmpty : (run.runnerTail capacity).isEmpty = false := by
    simpa using ne_nil_of_length_pos htail
  have hrelay := run.relayRecord_of_all r hall hfit
  have hrelayNe : (run.relayRecord limit r).outputTail ≠ [] := by
    rcases hrelay with heq | heq
    · exact ne_nil_of_length_pos (by omega)
    rcases trim_head run.output with hsame | ⟨-, b, hb, -⟩
    · rw [heq, hsame]; exact hne
    · intro hnil
      rw [← heq, hnil] at hb
      cases hb
  have hrelayEmpty : (run.relayRecord limit r).outputTail.isEmpty = false := by simpa using hrelayNe
  simp only [writeOutput, hnotEmpty, Bool.false_eq_true, if_false] at hvisible hflag
  split at hflag
  · -- the runner's tail replaces what is there
    simp [hrelayEmpty] at hflag
  next hshort =>
  split at hflag
  · cases hflag
  next hroom =>
  rw [if_neg hshort, if_neg hroom] at hvisible
  dsimp only at hvisible
  have hlen := congrArg List.length hvisible
  rw [length_append] at hlen
  rcases hrelay with heq | heq
  · omega
  rcases trim_head run.output with hsame | ⟨⟨b, hb, hcont⟩, b', hb', hstart⟩
  · rw [heq, hsame] at hlen
    omega
  rw [← hvisible, heq, head?_append, hb'] at hb
  cases hb
  rw [hcont] at hstart
  cases hstart

theorem shownOnce_of_nil (hnil : run.output = []) : run.ShownOnce limit capacity r := by
  have hempty : ∀ w ∈ run.relay, w.payload = [] := by
    intro w hw
    have hmem : w.payload ∈ run.outputs := run.same.mem_iff.mp (mem_map_of_mem hw)
    exact flatten_eq_nil_iff.mp hnil _ hmem
  have hchunks : run.chunks = [] := relayed_of_empty run.flushFits hempty
  have htail : run.runnerTail capacity = [] := by simp [runnerTail_eq, hnil, lastBytes]
  have hrecord : run.record limit capacity r =
      { r with outputTail := [], outputTruncated := false } := by
    simp [record, writes, hchunks, htail, writeOutput]
  have hvisible : run.visible limit capacity r = [] := by
    simp [visible, shown, writtenBytes, relayedBytes, hchunks, htail, labelled, bytesOf]
  refine ⟨?_, fun _ _ => ?_, ?_⟩
  · rw [hvisible]; exact nil_suffix
  · rw [hvisible, hnil]
  · rw [hvisible, hnil, hrecord]
    simp

theorem record_flag_of_full (hcap : limit ≤ (run.runnerTail capacity).length)
    (hne : run.runnerTail capacity ≠ []) :
    (run.record limit capacity r).outputTail =
        trimPartialLeadingRune (lastBytes limit (run.runnerTail capacity)) ∧
      (run.record limit capacity r).outputTruncated =
        ((run.relayRecord limit r).outputTruncated ||
          !(run.relayRecord limit r).outputTail.isEmpty ||
          decide (limit < (run.runnerTail capacity).length)) := by
  have hempty : (run.runnerTail capacity).isEmpty = false := by simpa using hne
  rw [record_eq]
  simp only [writeOutput, hempty, hcap, if_true, Bool.false_eq_true, if_false, and_self]

theorem relayedVisible_of_full
    (hle : (run.record limit capacity r).outputTail.length ≤ (run.runnerTail capacity).length) :
    run.relayedVisible limit capacity r = [] := by
  have hlen : (labelled .tail (run.runnerTail capacity)).length =
      (run.runnerTail capacity).length := by simp [labelled]
  unfold relayedVisible shown
  rw [writtenBytes, drop_append, drop_eq_nil_of_le (by rw [length_append, hlen]; omega), nil_append,
    drop_labelled, bytesOf_labelled]
  rfl

theorem relayedVisible_of_dropped (hdata : ∀ chunk ∈ run.chunks, chunk.data = []) :
    run.relayedVisible limit capacity r = [] := by
  unfold relayedVisible bytesOf
  rw [map_eq_nil_iff, filter_eq_nil_iff]
  intro b hb
  rcases mem_append.mp (mem_of_mem_drop hb) with hb | hb
  · obtain ⟨chunk, hc, hb⟩ := mem_flatMap.mp hb
    rw [hdata chunk hc, show labelled .relay [] = [] from rfl, append_nil] at hb
    split at hb
    · obtain ⟨x, -, rfl⟩ := mem_map.mp hb
      simp
    · cases hb
  · obtain ⟨x, -, rfl⟩ := mem_map.mp hb
    simp

/-- If none of the relay's bytes are visible, a part of the runner's tail is all there is. -/
theorem shownOnce_of_unrelayed (hsome : 0 < totalDropped 0 run.relay ∨ limit < run.output.length)
    (hnone : run.relayedVisible limit capacity r = [])
    (hflag : (run.record limit capacity r).outputTruncated = true ↔
      run.visible limit capacity r ≠ run.output) : run.ShownOnce limit capacity r := by
  obtain ⟨kept, hvisible, hkept, -⟩ := run.visible_eq r limit capacity
  refine ⟨?_, fun hall hfit => by omega, hflag⟩
  rw [hvisible, hnone, nil_append]
  refine hkept.trans ⟨olderBytes capacity run.output, ?_⟩
  rw [runnerTail_eq, olderBytes_append_lastBytes]

theorem shownOnce_of_long (hpos : 0 < limit) (hlong : limit < run.output.length)
    (hcap : limit ≤ capacity) (hmark : limit < capacity ∨ run.relayText ≠ []) :
    run.ShownOnce limit capacity r := by
  have htail : (run.runnerTail capacity).length = min capacity run.output.length := by
    rw [runnerTail_eq, length_lastBytes]
  have hne : run.runnerTail capacity ≠ [] := ne_nil_of_length_pos (by omega)
  have hfull : limit ≤ (run.runnerTail capacity).length := by omega
  obtain ⟨hrecord, hflag⟩ := run.record_flag_of_full r hfull hne
  have hshort : (run.record limit capacity r).outputTail.length ≤ limit := by
    rw [hrecord]
    have h := length_trimPartialLeadingRune_le (lastBytes limit (run.runnerTail capacity))
    rw [length_lastBytes] at h
    omega
  refine run.shownOnce_of_unrelayed r (.inr hlong) (run.relayedVisible_of_full r (by omega))
    (iff_of_true ?_ ?_)
  · rw [hflag]
    rcases hmark with hlt | hrelay
    · simp [show limit < (run.runnerTail capacity).length by omega]
    · have htext := writes_ne_nil hpos (run.chunks.flatMap chunkWrites)
        { r with outputTail := [], outputTruncated := false } (.inr hrelay)
      simp [relayRecord, htext]
  · intro heq
    have hle : (run.visible limit capacity r).length ≤
        (run.record limit capacity r).outputTail.length := by
      rw [← shown_bytes, visible, bytesOf, length_map, length_map]
      exact length_filter_le _ _
    rw [heq] at hle
    omega

theorem dropped_of_no_data (hdata : ∀ chunk ∈ run.chunks, chunk.data = [])
    (hne : run.output ≠ []) : 0 < totalDropped 0 run.relay := by
  rw [Nat.pos_iff_ne_zero]
  intro hall
  obtain ⟨hwrites, hclean⟩ := relayed_all run.flushFits hall
  have hnil : (run.chunks.flatMap chunkWrites).flatten = [] := by
    rw [flatten_eq_nil_iff]
    intro w hw
    obtain ⟨chunk, hc, hw⟩ := mem_flatMap.mp hw
    simpa [chunkWrites, hclean chunk hc, hdata chunk hc] using hw
  have hlen := congrArg length hnil
  rw [chunks, hwrites, flatten_filter_ne_nil, run.same.flatten.length_eq] at hlen
  exact hne (length_eq_zero_iff.mp hlen)

theorem shownOnce_of_dropped (hne : run.output ≠ [])
    (hdata : ∀ chunk ∈ run.chunks, chunk.data = []) (hcap : run.output.length ≤ capacity)
    (hfit : run.relayText.length + run.output.length ≤ limit)
    (hroom : run.output.length < limit) : run.ShownOnce limit capacity r := by
  have htail : run.runnerTail capacity = run.output := by
    rw [runnerTail_eq, lastBytes_of_le hcap]
  have hpos := length_pos_of_ne_nil hne
  obtain ⟨hall, hkept⟩ := writes_room limit (run.chunks.flatMap chunkWrites)
    { r with outputTail := [], outputTruncated := false } (by
      rw [nil_append]
      exact lt_of_lt_of_le (Nat.lt_add_of_pos_right hpos) hfit)
  have hrelay : (run.relayRecord limit r).outputTail = run.relayText := hall
  have hclear : (run.relayRecord limit r).outputTruncated = false := hkept
  have hempty : run.output.isEmpty = false := by simpa using hne
  have hover : ¬ limit < (run.relayText ++ run.output).length := by
    rw [length_append]
    omega
  have hrecord : (run.record limit capacity r).outputTail = run.relayText ++ run.output ∧
      (run.record limit capacity r).outputTruncated = false := by
    rw [record_eq, htail]
    simp only [writeOutput, hempty, hrelay, hover, Nat.not_le.mpr hroom, Bool.false_eq_true, if_false]
    exact ⟨trivial, hclear⟩
  have hnone : run.relayedVisible limit capacity r = [] := run.relayedVisible_of_dropped r hdata
  have hvisible : run.visible limit capacity r = run.output := by
    have hzero : (run.writtenBytes capacity).length -
        (run.record limit capacity r).outputTail.length = 0 := by
      rw [hrecord.1, writtenBytes, length_append, ← length_map (f := Prod.snd), relayedBytes_bytes,
        htail, length_append]
      simp [labelled, relayText]
    have hrelayed : bytesOf (· ≠ .marker) run.relayedBytes = [] := by
      rw [bytesOf_congr (k := (· = .relay)) fun b hb => ?_]
      · have h := hnone
        rw [relayedVisible, shown, hzero, drop_zero, writtenBytes, bytesOf_append] at h
        exact (append_eq_nil_iff.mp h).1
      · rcases run.relayedBytes_origin hb with h | h <;> simp [h]
    rw [visible, shown, hzero, drop_zero, writtenBytes, bytesOf_append, hrelayed, bytesOf_labelled,
      htail]
    rfl
  refine run.shownOnce_of_unrelayed r (.inl (run.dropped_of_no_data hdata hne)) hnone ?_
  rw [hrecord.2, hvisible]
  simp

end ComposeRun

/-! ## One line of output -/

def oneLine : ComposeRun where
  outputs := [text "web Pulled\n"]
  relay := [⟨text "web Pulled\n", true, true⟩]
  flushFits := true
  same := .refl _

def pullRecord : Record :=
  newRecord ⟨text "op-1", text "web", [], .composePull, []⟩ (1767225600 * second)

end DockLattice.Operation
