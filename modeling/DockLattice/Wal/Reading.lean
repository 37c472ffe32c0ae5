import DockLattice.Wal.SimMachine

/-!
# DockLattice.Wal.Reading

`ReadAuditFrom` on a journal: it returns the retained frames from the start cursor on, in order and
cut off at the limit. The one thing that can spoil it is an open segment without a frame.
-/

namespace DockLattice.Wal

open Bytes Effect List

variable {o : Options}
variable {s : State} {start : Cursor}

def selected (agentId : String) (start : Cursor) (fs : List DecodedFrame) : List Record :=
  (fs.filter fun f => compareCursor f.cursor start ≥ 0).map (Record.of agentId)

theorem selected_append (agentId : String) (start : Cursor) (fs gs : List DecodedFrame) :
    selected agentId start (fs ++ gs) = selected agentId start fs ++ selected agentId start gs := by
  simp [selected]

theorem selected_eq_nil {agentId : String} {fs : List DecodedFrame}
    (h : ∀ f ∈ fs, f.cursor < start) : selected agentId start fs = [] := by
  rw [selected, map_eq_nil_iff, filter_eq_nil_iff]
  intro f hf
  simpa [not_le] using h f hf

theorem selected_eq_map {agentId : String} {fs : List DecodedFrame}
    (h : ∀ f ∈ fs, start ≤ f.cursor) : selected agentId start fs = fs.map (Record.of agentId) := by
  rw [selected, filter_eq_self.mpr]
  intro f hf
  simpa using h f hf

theorem readSegment_ofList (agentId : String) (start : Cursor) (limit : Nat)
    (fs : List DecodedFrame) : ∀ (expected : Cursor) (lastRead : Option Cursor)
      (records : List Record), Numbered expected fs → (∀ f ∈ fs, f.cursor.seq < maxUint64) →
      records.length ≤ limit →
      ∃ lr, readSegment agentId start limit (.ofList fs (.stop .eof)) expected lastRead records =
          .ok ((records ++ selected agentId start fs).take limit, lr) ∧
        ((records ++ selected agentId start fs).length < limit →
          lr = (fs.getLast?.map (·.cursor)).or lastRead) := by
  induction fs with
  | nil =>
    intro expected lastRead records _ _ hlen
    refine ⟨lastRead, ?_, fun _ => rfl⟩
    have htake : records.take limit = records := take_of_length_le hlen
    unfold readSegment
    simp only [FrameStream.ofList_nil, selected, filter_nil, map_nil, append_nil, htake, ite_self]
  | cons f fs ih =>
    intro expected lastRead records hnum hlt hlen
    obtain ⟨hc, hrest⟩ := hnum
    by_cases hroom : records.length < limit
    · -- one more frame is read; the next one has the next number
      have hseq := hlt f (by simp)
      have hsel : selected agentId start (f :: fs) =
          (if compareCursor f.cursor start ≥ 0 then [Record.of agentId f] else []) ++
            selected agentId start fs := by
        unfold selected
        rw [filter_cons]
        by_cases hge : compareCursor f.cursor start ≥ 0 <;> simp [hge]
      have hnext : (if expected.seq ≠ maxUint64 then
          (⟨expected.incarnation, expected.seq + 1⟩ : Cursor) else expected) = expected.plus 1 := by
        rw [if_pos (by rw [← hc]; omega)]; rfl
      let taken := if compareCursor f.cursor start ≥ 0 then records ++ [Record.of agentId f]
        else records
      have htaken : taken ++ selected agentId start fs =
          records ++ selected agentId start (f :: fs) := by
        rw [hsel]
        by_cases hge : compareCursor f.cursor start ≥ 0 <;> simp [taken, hge]
      have hlen' : taken.length ≤ limit := by
        by_cases hge : compareCursor f.cursor start ≥ 0 <;> simp [taken, hge] <;> omega
      obtain ⟨lr, heq, hlr⟩ := ih (expected.plus 1) (some f.cursor) taken hrest
        (fun g hg => hlt g (mem_cons_of_mem _ hg)) hlen'
      rw [htaken] at heq hlr
      refine ⟨lr, ?_, fun hl => ?_⟩
      · unfold readSegment
        rw [if_pos hroom]
        simp only [FrameStream.ofList_cons]
        rw [if_neg (by simp [hc]), hnext]
        exact heq
      · rw [hlr hl]
        cases fs with
        | nil => rfl
        | cons g gs => simp [getLast?_eq_some_getLast]
    · have hfull : records.length = limit := by omega
      refine ⟨lastRead, ?_, fun hl => ?_⟩
      · unfold readSegment
        rw [if_neg hroom, take_append_of_le_length (by omega), take_of_length_le hlen]
      · rw [length_append] at hl; omega

theorem readSegments_pieces (ho : s.wal.options = o) (start : Cursor) (limit : Nat)
    (ps : List (Piece o.maxBytes)) : ∀ (records : List Record), (∀ p ∈ ps, p.Readable) →
      (∀ p ∈ ps, s.disk.file? p.key = some p.file) → records.length ≤ limit → 0 < limit →
      readSegments s false start limit (ps.map Piece.segment) records =
        .ok ((records ++ selected s.wal.agentId start (ps.flatMap Piece.frames)).take limit) := by
  induction ps with
  | nil =>
    intro records _ _ hlen _
    simp only [map_nil, readSegments, flatMap_nil, selected, filter_nil,
      append_nil, take_of_length_le hlen]
  | cons p ps ih =>
    intro records hleg hfile hlen hpos
    have hp := hleg p (by simp)
    have hrest : ∀ q ∈ ps, q.Readable := fun q hq => hleg q (mem_cons_of_mem _ hq)
    have hfiles : ∀ q ∈ ps, s.disk.file? q.key = some q.file := fun q hq =>
      hfile q (mem_cons_of_mem _ hq)
    rw [map_cons, readSegments, flatMap_cons, selected_append, ← append_assoc]
    by_cases hskip : compareCursor p.segment.last start < 0
    · -- the segment ends before the start
      have hnil : selected s.wal.agentId start p.frames = [] := selected_eq_nil fun f hf =>
        lt_of_le_of_lt (p.le_last hf) (compareCursor_lt_zero.mp hskip)
      rw [if_pos hskip, hnil, append_nil]
      exact ih _ hrest hfiles hlen hpos
    rw [if_neg hskip, Piece.segment_first, hfile p (by simp)]
    have hlt : ∀ f ∈ p.frames, f.cursor.seq < maxUint64 := fun f hf => (p.fits f hf).seq_lt
    obtain ⟨lr, heq, hlr⟩ := readSegment_ofList s.wal.agentId start limit p.frames p.key none
      records p.numbered hlt hlen
    have hstream : frameStream s.wal.options.maxBytes p.file.content =
        .ofList p.frames (.stop .eof) := by
      rw [ho, Piece.file, p.stream, hp.2]
    simp only [Bool.false_eq_true, if_false, hstream, heq]
    have hlast := Piece.getLast?_cursor hp.1
    by_cases hfull : (records ++ selected s.wal.agentId start p.frames).length < limit
    · have htake : (records ++ selected s.wal.agentId start p.frames).take limit =
          records ++ selected s.wal.agentId start p.frames :=
        take_of_length_le (Nat.le_of_lt hfull)
      rw [htake, if_neg (by rw [hlr hfull, hlast]; simp), if_neg (by omega)]
      exact ih _ hrest hfiles (Nat.le_of_lt hfull) hpos
    · have hlen' : ((records ++ selected s.wal.agentId start p.frames).take limit).length =
          limit := by rw [length_take]; omega
      rw [if_neg (by omega), if_pos hlen']
      exact congrArg Except.ok (take_append_of_le_length (Nat.not_lt.mp hfull)).symm

theorem Log.Ok.pieces_readable {l : Log o} (h : l.Ok) (hp : ¬ l.Phantom) :
    ∀ p ∈ l.pieces, p.Readable := by
  intro p hm
  rcases Log.Ok.mem_pieces.mp hm with hm | hm
  · exact ⟨h.nonempty p hm, h.readable p hm⟩
  · refine ⟨fun hn => hp ⟨p, hm, hn⟩, ?_⟩
    rw [h.active_tail p hm]
    exact frameStream_nil _

theorem whenOpen_get {α : Type} {k : State → WalProg α} {fs : List Fault}
    (h : s.wal.closed = false) : whenOpen (Prog.bind Prog.get k) ⟨s, fs⟩ = k s ⟨s, fs⟩ := by
  simp [whenOpen, Bind.bind, Prog.bind, Prog.get, h]

theorem readAuditFrom_run (hopen : s.wal.closed = false) {limit : Int}
    (hstart : start.incarnation ≠ 0 ∧ start.seq ≠ 0) (hlimit : 0 < limit)
    (hfloor : ∀ floor, (boundsLocked s.wal).walFloor = some floor → floor ≤ start) (now : Instant)
    (fs : List Fault) :
    readAuditFrom false now start limit ⟨s, fs⟩ =
      match readSegments s false start limit.toNat s.wal.segments [] with
      | .error e => .fail e ⟨s, fs⟩
      | .ok records => .done ⟨records, none⟩ ⟨s, fs⟩ := by
  have hnot : ¬ (start.incarnation = 0 ∨ start.seq = 0 ∨ limit ≤ 0) := by
    rintro (h0 | h0 | h0)
    · exact hstart.1 h0
    · exact hstart.2 h0
    · omega
  have hbehind : ¬ ((boundsLocked s.wal).walFloor.any fun floor =>
      compareCursor start floor < 0) = true := by
    rw [Option.any_eq_true]
    rintro ⟨floor, hf, hlt⟩
    exact not_lt.mpr (hfloor floor hf) (by simpa using hlt)
  unfold readAuditFrom
  refine (whenOpen_get hopen).trans ((congrFun (if_neg hnot) _).trans
    ((congrFun (if_neg hbehind) _).trans ?_))
  cases readSegments s false start limit.toNat s.wal.segments [] <;> rfl

theorem Log.walFloor (l : Log o) :
    (boundsLocked l.toState.wal).walFloor = l.pieces.head?.map Piece.key := by
  rw [boundsLocked, show l.toState.wal.segments = l.pieces.map Piece.segment from l.wal_segments,
    head?_map, Option.map_map]
  rfl

theorem readAuditFrom_eq {l : Log o} (h : l.Ok) (hp : ¬ l.Phantom) {limit : Int}
    (hstart : start.incarnation ≠ 0 ∧ start.seq ≠ 0) (hlimit : 0 < limit)
    (hfloor : ∀ p, l.pieces.head? = some p → p.key ≤ start) (now : Instant) (fs : List Fault) :
    readAuditFrom false now start limit ⟨l.toState, fs⟩ =
      .done ⟨(selected l.agentId start l.frames).take limit.toNat, none⟩ ⟨l.toState, fs⟩ := by
  have hread := readSegments_pieces (o := o) (s := l.toState) rfl start limit.toNat l.pieces []
    (h.pieces_readable hp) (fun p hm => Log.file?_of_mem h hm) (by simp) (by omega)
  rw [readAuditFrom_run rfl hstart hlimit _ now fs,
    show l.toState.wal.segments = l.pieces.map Piece.segment from l.wal_segments, hread, nil_append]
  · rfl
  intro floor hf
  rw [l.walFloor] at hf
  obtain ⟨p, hp, rfl⟩ := Option.map_eq_some_iff.mp hf
  exact hfloor p hp

end DockLattice.Wal
