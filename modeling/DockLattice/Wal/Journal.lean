import DockLattice.Wal.Coverage
import DockLattice.Wal.Ops
import DockLattice.Wal.Piece

/-!
# DockLattice.Wal.Journal

The WAL as a journal: sealed pieces in order, the open piece behind them, the metadata in memory
and the metadata on disk. `Log.toState` is the memory and the directory such a journal stands for, and
`Log.Ok` what holds between any two durable effects.
-/

namespace DockLattice.Wal

open Bytes

/-! ## Gaps against cursors and pieces -/

def Gap.EndsBefore (g : Gap) (c : Cursor) : Prop :=
  g.incarnation < c.incarnation ∨ (g.incarnation = c.incarnation ∧ g.untilSeq ≤ c.seq)

def Gap.Covers {max : Nat} (g : Gap) (p : Piece max) : Prop :=
  g.incarnation = p.key.incarnation ∧ g.fromSeq ≤ p.key.seq ∧ p.last.seq < g.untilSeq

theorem Gap.EndsBefore.mono {g : Gap} {c d : Cursor} (h : g.EndsBefore c) (hcd : c ≤ d) :
    g.EndsBefore d := by
  simp only [Gap.EndsBefore, Cursor.le_def] at *; omega

theorem Gap.Contains.lt_of_endsBefore {g : Gap} {c d : Cursor} (h : g.Contains c)
    (hb : g.EndsBefore d) : c < d := by
  simp only [Gap.EndsBefore, Gap.Contains, Cursor.lt_def] at *; omega

theorem Gap.Covers.contains {max : Nat} {g : Gap} {p : Piece max} (h : g.Covers p)
    {f : DecodedFrame} (hf : f ∈ p.frames) : g.Contains f.cursor := by
  obtain ⟨h1, h2, h3⟩ := p.mem_cursor hf
  obtain ⟨g1, g2, g3⟩ := h
  exact ⟨by omega, by omega, by omega⟩

/-! ## The journal -/

structure Log (o : Options) where
  agentId : String
  metadata : Metadata
  saved : Option Metadata
  sealed : List (Piece o.maxBytes)
  active : Option (Piece o.maxBytes)
  receipts : List (String × OnceReceipt)
  temps : List Nat
  backgroundErr : Option WalError

namespace Log

variable {o : Options} {p : Piece o.maxBytes}

def pieces (l : Log o) : List (Piece o.maxBytes) := l.sealed ++ l.active.toList

def bytes (l : Log o) : Nat := (l.pieces.map Piece.bytes).sum

def frames (l : Log o) : List DecodedFrame := l.pieces.flatMap Piece.frames

def next (l : Log o) : Cursor := ⟨l.metadata.currentIncarnation, l.metadata.nextSeq⟩

def disk (l : Log o) : Disk := ⟨l.pieces.map Piece.entry, l.saved, l.receipts, l.temps⟩

def wal (l : Log o) : WAL where
  agentId := l.agentId
  options := o
  metadata := l.metadata
  sealed := l.sealed.map Piece.segment
  active := l.active.map fun p => ⟨p.segment, p.bytes⟩
  totalBytes := l.bytes
  closed := false
  backgroundErr := l.backgroundErr

def toState (l : Log o) : State := ⟨l.disk, l.wal⟩

structure Placed (l : Log o) (g : Gap) : Prop where
  exact : g.precision = .exact
  next : g.EndsBefore l.next
  active : ∀ p, l.active = some p → g.EndsBefore p.key
  tail : ∀ p ∈ l.sealed.tail, g.EndsBefore p.key
  head : ∀ p, l.sealed.head? = some p → g.EndsBefore p.key ∨ g.Covers p

end Log

/-- The newest durable sequence number of the current incarnation, 0 if there is none. -/
def Metadata.durableSeq (m : Metadata) : Nat :=
  match m.durableThrough with
  | none => 0
  | some d => if d.incarnation = m.currentIncarnation then d.seq else 0

namespace Log

variable {o : Options}

/-- What metadata on disk has to satisfy for a restart to make sense of it. -/
structure SavedOk (l : Log o) (m : Metadata) : Prop where
  valid : m.Valid
  agent : m.agentId = l.agentId
  incarnation_le : m.currentIncarnation ≤ l.metadata.currentIncarnation
  unknown : m.coverageUnknownIncarnations = []
  placed : ∀ g ∈ m.gaps, l.Placed g
  gapped : ∀ c, Gapped l.metadata.gaps c → Gapped m.gaps c

structure Ok (l : Log o) : Prop where
  valid : l.metadata.Valid
  agent : l.metadata.agentId = l.agentId
  incarnation_le : l.metadata.currentIncarnation ≤ maxUint64
  next_le : l.metadata.nextSeq ≤ maxUint64
  unknown : l.metadata.coverageUnknownIncarnations = []
  nonempty : ∀ p ∈ l.sealed, p.frames ≠ []
  readable : ∀ p ∈ l.sealed, frameStream o.maxBytes p.tail = .stop .eof
  active_tail : ∀ p, l.active = some p → p.tail = []
  active_next : ∀ p, l.active = some p → p.next = l.next
  sorted : l.pieces.Pairwise fun p q => p.last < q.key
  assigned : ∀ p ∈ l.sealed, ∃ c, l.metadata.lastAssigned = some c ∧ p.last ≤ c
  size : l.bytes ≤ o.maxBytes
  active_unacked : ∀ p, l.active = some p → ∀ a, l.metadata.serverAck = some a → a < p.key
  active_durable : ∀ p, l.active = some p → p.key.seq = l.metadata.durableSeq + 1
  idle_durable : l.active = none → l.metadata.nextSeq = l.metadata.durableSeq + 1
  last_durable : ∀ p, l.sealed.getLast? = some p → l.metadata.durableSeq =
    if p.key.incarnation = l.metadata.currentIncarnation then p.last.seq else 0
  placed : ∀ g ∈ l.metadata.gaps, l.Placed g
  saved : ∀ m, l.saved = some m → l.SavedOk m

end Log

/-! ## Consequences -/

theorem Metadata.Valid.next_gt {m : Metadata} (h : m.Valid) {c : Cursor}
    (hc : m.lastAssigned = some c) : c < ⟨m.currentIncarnation, m.nextSeq⟩ := by
  have hok := h.last_ok c hc
  by_cases hi : c.incarnation = m.currentIncarnation
  · have := h.assigned.current c hc hi
    exact .inr ⟨hi, by simp only; omega⟩
  · exact .inl (by simp only; have := hok.2.2; omega)

theorem Metadata.Valid.last_of_next {m : Metadata} (h : m.Valid) (hn : 1 < m.nextSeq) :
    m.lastAssigned = some ⟨m.currentIncarnation, m.nextSeq - 1⟩ := by
  cases hl : m.lastAssigned with
  | none => have := (h.assigned.none_fresh hl).2.2; omega
  | some c =>
    by_cases hi : c.incarnation = m.currentIncarnation
    · have := h.assigned.current c hl hi
      congr 1
      ext
      · exact hi
      · simp only; omega
    · have := h.assigned.older c hl hi; omega

namespace Log.Ok

variable {o : Options} {l : Log o}

theorem sealed_lt_next (h : l.Ok) (hp : p ∈ l.sealed) : p.last < l.next := by
  obtain ⟨c, hc, hpc⟩ := h.assigned p hp
  exact lt_of_le_of_lt hpc (h.valid.next_gt hc)

theorem ack_lt_next (h : l.Ok) {a : Cursor} (ha : l.metadata.serverAck = some a) : a < l.next := by
  cases hl : l.metadata.lastAssigned with
  | none => rw [(h.valid.assigned.none_fresh hl).2.1] at ha; cases ha
  | some c => exact lt_of_le_of_lt (h.valid.assigned.ack_le c a hl ha) (h.valid.next_gt hl)

theorem active_incarnation (h : l.Ok) (hp : l.active = some p) :
    p.key.incarnation = l.metadata.currentIncarnation :=
  congrArg Cursor.incarnation (h.active_next p hp)

theorem active_seq (h : l.Ok) (hp : l.active = some p) :
    p.key.seq + p.frames.length = l.metadata.nextSeq :=
  congrArg Cursor.seq (h.active_next p hp)

theorem active_last (h : l.Ok) (hp : l.active = some p)
    (hne : p.frames ≠ []) : l.metadata.lastAssigned = some p.last := by
  have hseq := h.active_seq hp
  have hpos := p.key_pos hne
  have hlen : 0 < p.frames.length := List.length_pos_of_ne_nil hne
  rw [h.valid.last_of_next (by omega)]
  congr 1
  ext
  · exact (h.active_incarnation hp).symm
  · simp only [Piece.last_seq]; omega

theorem mem_pieces :
    p ∈ l.pieces ↔ p ∈ l.sealed ∨ l.active = some p := by
  simp [Log.pieces]

theorem key_le_next (h : l.Ok) (hp : p ∈ l.pieces) : p.key ≤ l.next := by
  rcases mem_pieces.mp hp with hp | hp
  · exact le_of_lt (lt_of_le_of_lt p.key_le_last (h.sealed_lt_next hp))
  · rw [← h.active_next p hp]; simp [Piece.next, Cursor.le_def]

theorem keys_nodup (h : l.Ok) : (l.pieces.map Piece.key).Nodup := by
  refine List.pairwise_map.mpr (h.sorted.imp fun {p q} hpq hk => ?_)
  exact lt_irrefl _ (lt_of_le_of_lt (hk ▸ p.key_le_last) hpq)

theorem next_not_mem (h : l.Ok) (hn : l.active = none) : l.next ∉ l.pieces.map Piece.key := by
  rw [List.mem_map]
  rintro ⟨p, hp, hk⟩
  have hp : p ∈ l.sealed := by simpa [Log.pieces, hn] using hp
  exact lt_irrefl _ (lt_of_le_of_lt (hk ▸ p.key_le_last) (h.sealed_lt_next hp))

end Log.Ok

end DockLattice.Wal
