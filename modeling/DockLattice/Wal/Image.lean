import DockLattice.Wal.Machine
import DockLattice.Wal.SimSession

/-!
# DockLattice.Wal.Image

The WAL directory while nobody has it open: the list of its pieces with the metadata on disk. It
arises when an open journal stops (`Log.image`), loses the bytes that were never forced
(`Disk.lose`), and is mended by recovery (`Mends`), which never drops a whole frame.
-/

namespace DockLattice

open List

namespace Wal

open Bytes Effect

variable {o : Options} {l : Log o} {g : Gap}

structure Image (o : Options) where
  pieces : List (Piece o.maxBytes)
  saved : Option Metadata
  receipts : List (String × OnceReceipt)
  temps : List Nat

variable {agentId : String} {i : Image o}

namespace Image

def disk (i : Image o) : Disk := ⟨i.pieces.map Piece.entry, i.saved, i.receipts, i.temps⟩

def frames (i : Image o) : List DecodedFrame := i.pieces.flatMap Piece.frames

def bytes (i : Image o) : Nat := (i.pieces.map Piece.bytes).sum

structure Placed (i : Image o) (g : Gap) : Prop where
  exact : g.precision = .exact
  tail : ∀ p ∈ i.pieces.tail, g.EndsBefore p.key
  head : ∀ p, i.pieces.head? = some p → g.EndsBefore p.key ∨ g.Covers p

structure SavedOk (agentId : String) (i : Image o) (m : Metadata) : Prop where
  valid : m.Valid
  agent : m.agentId = agentId
  unknown : m.coverageUnknownIncarnations = []
  placed : ∀ g ∈ m.gaps, i.Placed g
  pieces : ∀ p ∈ i.pieces, p.key.incarnation ≤ m.currentIncarnation

structure Ok (agentId : String) (i : Image o) : Prop where
  sorted : i.pieces.Pairwise fun p q => p.last < q.key
  size : i.bytes ≤ o.maxBytes
  saved : ∀ m, i.saved = some m → i.SavedOk agentId m
  unsaved : i.saved = none → i.pieces = []

theorem Ok.keys_nodup (h : i.Ok agentId) : (i.pieces.map Piece.key).Nodup := by
  refine pairwise_map.mpr (h.sorted.imp fun {p q} hpq hk => ?_)
  exact lt_irrefl _ (lt_of_le_of_lt (hk ▸ p.key_le_last) hpq)

end Image

/-! ## Pieces that lose bytes -/

/-- `q` is what is left of `p`. -/
structure Piece.Shrinks {max : Nat} (p q : Piece max) : Prop where
  key : q.key = p.key
  frames : q.frames <+: p.frames

namespace Piece.Shrinks

variable {max : Nat} {p q : Piece max}

theorem refl (p : Piece max) : p.Shrinks p := ⟨rfl, prefix_rfl⟩

theorem last_le (h : p.Shrinks q) : q.last ≤ p.last := by
  have := h.frames.length_le
  simp only [Piece.last, h.key]
  exact Cursor.plus_le_plus.mpr (by omega)

theorem bytes_le (h : p.Shrinks q) : q.bytes ≤ p.bytes := by
  obtain ⟨rest, hr⟩ := h.frames
  simp only [Piece.bytes, ← hr, encodeAll_append, length_append]
  omega

theorem cut (p : Piece max) (n : Nat) : p.Shrinks (p.cut n) :=
  ⟨rfl, take_prefix _ _⟩

theorem covers (h : p.Shrinks q) (hc : g.Covers p) : g.Covers q := by
  have hle := h.last_le
  have hi : q.last.incarnation = p.last.incarnation := by
    rw [Piece.last_incarnation, Piece.last_incarnation, h.key]
  simp only [Cursor.le_def] at hle
  obtain ⟨h1, h2, h3⟩ := hc
  refine ⟨by rw [h.key]; exact h1, by rw [h.key]; exact h2, by omega⟩

end Piece.Shrinks

section

variable {max : Nat} {ps qs : List (Piece max)} (h : List.Forall₂ Piece.Shrinks ps qs)

include h

theorem Shrunk.mem {q : Piece max} (hq : q ∈ qs) : ∃ p ∈ ps, p.Shrinks q := by
  induction h with
  | nil => cases hq
  | cons hpq _ ih =>
    rcases mem_cons.mp hq with rfl | hq
    · exact ⟨_, mem_cons_self, hpq⟩
    · obtain ⟨p, hp, hpq⟩ := ih hq
      exact ⟨p, mem_cons_of_mem _ hp, hpq⟩

theorem Shrunk.sorted (hs : ps.Pairwise fun p q => p.last < q.key) :
    qs.Pairwise fun p q => p.last < q.key := by
  induction h with
  | nil => exact .nil
  | cons hpq hrest ih =>
    obtain ⟨hfirst, hs⟩ := pairwise_cons.mp hs
    refine pairwise_cons.mpr ⟨fun q hq => ?_, ih hs⟩
    obtain ⟨p, hp, hpq'⟩ := Shrunk.mem hrest hq
    rw [hpq'.key]
    exact lt_of_le_of_lt hpq.last_le (hfirst p hp)

theorem Shrunk.bytes_le : (qs.map Piece.bytes).sum ≤ (ps.map Piece.bytes).sum := by
  induction h with
  | nil => simp
  | cons hpq _ ih =>
    have := hpq.bytes_le
    simp only [map_cons, sum_cons]
    omega

end

theorem Image.Placed.shrink (h : i.Placed g)
    {qs : List (Piece o.maxBytes)} (hs : List.Forall₂ Piece.Shrinks i.pieces qs) :
    Image.Placed { i with pieces := qs } g := by
  obtain ⟨hexact, htail, hhead⟩ := h
  generalize i.pieces = ps at hs htail hhead
  cases hs with
  | nil => exact ⟨hexact, by simp, by simp⟩
  | cons hpq hrest =>
    refine ⟨hexact, fun q hq => ?_, fun q hq => ?_⟩
    · obtain ⟨p, hp, hpq⟩ := Shrunk.mem hrest hq
      rw [hpq.key]
      exact htail p hp
    · simp only [head?_cons, Option.some.injEq] at hq
      subst hq
      rcases hhead _ rfl with hb | hc
      · exact .inl (by rw [hpq.key]; exact hb)
      · exact .inr (hpq.covers hc)

theorem Image.Ok.shrink (h : i.Ok agentId) {qs : List (Piece o.maxBytes)}
    (hs : List.Forall₂ Piece.Shrinks i.pieces qs) : Image.Ok agentId { i with pieces := qs } := by
  refine ⟨Shrunk.sorted hs h.sorted, Nat.le_trans (Shrunk.bytes_le hs) h.size, fun m hm => ?_,
    fun hn => ?_⟩
  · have hsv := h.saved m hm
    refine ⟨hsv.valid, hsv.agent, hsv.unknown, fun g hg => (hsv.placed g hg).shrink hs,
      fun q hq => ?_⟩
    obtain ⟨p, hp, hpq⟩ := Shrunk.mem hs hq
    rw [hpq.key]
    exact hsv.pieces p hp
  · have hnil := h.unsaved hn
    rw [hnil] at hs
    cases hs
    rfl

/-! ## An open journal that stops -/

structure Log.Rooted (l : Log o) : Prop where
  bound : ∀ m, l.saved = some m → ∀ p ∈ l.pieces, p.key.incarnation ≤ m.currentIncarnation
  unsaved : l.saved = none → l.pieces = []

def Log.image (l : Log o) : Image o := ⟨l.pieces, l.saved, l.receipts, l.temps⟩

@[simp] theorem Log.image_disk (l : Log o) : l.image.disk = l.disk := rfl

@[simp] theorem Log.image_frames (l : Log o) : l.image.frames = l.frames := rfl

theorem Log.Placed.image (h : l.Placed g) : l.image.Placed g := by
  refine ⟨h.exact, fun p hp => ?_, fun p hp => ?_⟩
  · cases hs : l.sealed with
    | nil =>
      cases ha : l.active <;> simp [Log.image, Log.pieces, hs, ha] at hp
    | cons q qs =>
      simp only [Log.image, Log.pieces, hs, cons_append, tail_cons, mem_append,
        Option.mem_toList] at hp
      rcases hp with hp | hp
      · exact h.tail p (by simpa [hs] using hp)
      · exact h.active p hp
  · cases hs : l.sealed with
    | nil =>
      have ha : l.active = some p := by
        cases ha : l.active <;> simp_all [Log.image, Log.pieces]
      exact .inl (h.active p ha)
    | cons q qs => exact h.head p (by simpa [Log.image, Log.pieces, hs] using hp)

theorem Log.Ok.image (h : l.Ok) (hr : l.Rooted) : l.image.Ok l.agentId := by
  refine ⟨h.sorted, h.size, fun m hm => ?_, hr.unsaved⟩
  have hs := h.saved m hm
  exact ⟨hs.valid, hs.agent, hs.unknown, fun g hg => (hs.placed g hg).image, hr.bound m hm⟩

namespace Log.Rooted

variable {l l' : Log o}

theorem of_current (h : l.Ok) (hcur : l.Current) : l.Rooted := by
  obtain ⟨m, hm, hinc⟩ := hcur
  refine ⟨fun m' hm' p hp => ?_, fun hn => by rw [hm] at hn; cases hn⟩
  rw [hm, Option.some.injEq] at hm'
  have := h.key_le_next hp
  simp only [Log.next, Cursor.le_def] at this
  rw [← hm', hinc]
  omega

theorem of_keys (h : l.Rooted) (hs : l'.saved = l.saved)
    (hk : ∀ q ∈ l'.pieces, ∃ p ∈ l.pieces, p.key = q.key) : l'.Rooted := by
  refine ⟨fun m hm q hq => ?_, fun hn => ?_⟩
  · obtain ⟨p, hp, he⟩ := hk q hq
    exact he ▸ h.bound m (hs ▸ hm) p hp
  have hnil := h.unsaved (hs ▸ hn)
  refine eq_nil_iff_forall_not_mem.mpr fun q hq => ?_
  obtain ⟨p, hp, -⟩ := hk q hq
  rw [hnil] at hp
  cases hp

theorem step {new : List DecodedFrame} (h : l.Rooted) (hok : l.Ok) (hs : Step l new l') :
    l'.Rooted := by
  cases hs with
  | save hp hv => exact of_current (hok.save hp hv) (Step.saves_current hp)
  | create now ha hcur => exact of_current (hok.create ha now) hcur
  | fsync ha | write hc hf ha _ _ =>
    refine h.of_keys rfl fun q hq => ?_
    simp only [Log.pieces, Log.wrote, ha, mem_append, Option.toList_some, mem_singleton] at hq ⊢
    rcases hq with hq | rfl
    · exact ⟨q, .inl hq, rfl⟩
    · exact ⟨_, .inr rfl, rfl⟩
  | sealing ha _ _ _ =>
    refine h.of_keys rfl fun q hq => ⟨q, ?_, rfl⟩
    simpa [Log.pieces, ha] using hq
  | unlink hs _ =>
    refine h.of_keys rfl fun q hq => ⟨q, ?_, rfl⟩
    simp only [Log.pieces, hs, mem_append, mem_cons] at hq ⊢
    rcases hq with hq | hq
    · exact .inl (.inr hq)
    · exact .inr hq
  | ack | gap | receipts | temps | background => exact h.of_keys rfl fun q hq => ⟨q, hq, rfl⟩

theorem steps {new : List DecodedFrame} (h : l.Rooted) (hok : l.Ok) (hs : Steps l new l') :
    l'.Rooted := by
  induction hs with
  | refl l => exact h
  | cons hs _ ih => exact ih (h.step hok hs) (hs.ok hok)

end Log.Rooted

def Log.torn (l : Log o) (tail : List Byte) (h : Torn o.maxBytes tail) : Log o :=
  { l with active := l.active.map fun p => p.withTail tail h }

theorem Left.torn {W : List DecodedFrame → Prop} {d : Disk} (hd : Left W l d)
    (h : l.Ok) : ∃ new l' tail, ∃ ht : Torn o.maxBytes tail, W new ∧ Steps l new l' ∧
      d = (l'.torn tail ht).disk := by
  obtain ⟨new, l', hw, hs, rfl | ⟨p, tail, ht, ha, rfl⟩⟩ := hd
  · refine ⟨new, l', [], .inl rfl, hw, hs, ?_⟩
    have hsame : l'.torn [] (.inl rfl) = l' := by
      have htail := (hs.ok h).active_tail
      cases ha : l'.active with
      | none => cases l'; simp_all [Log.torn]
      | some p =>
        have hp : p.withTail [] (.inl rfl) = p := by
          have := htail p ha
          cases p
          simp_all [Piece.withTail]
        cases l'
        simp_all [Log.torn]
    rw [hsame]
  · exact ⟨new, l', tail, ht, hw, hs, by simp [Log.torn, ha]⟩

theorem Log.torn_shrinks (l : Log o) (tail : List Byte) (h : Torn o.maxBytes tail) :
    List.Forall₂ Piece.Shrinks l.pieces (l.torn tail h).pieces := by
  have hsame : List.Forall₂ Piece.Shrinks l.sealed l.sealed :=
    forall₂_same.mpr fun p _ => .refl p
  cases ha : l.active with
  | none => simpa [Log.pieces, Log.torn, ha] using hsame
  | some p =>
    have hp : p.Shrinks (p.withTail tail h) := ⟨rfl, prefix_rfl⟩
    simpa [Log.pieces, Log.torn, ha] using rel_append hsame (.cons hp .nil)

@[simp] theorem Log.torn_frames (l : Log o) (tail : List Byte) (h : Torn o.maxBytes tail) :
    (l.torn tail h).frames = l.frames := by
  cases ha : l.active <;> simp [Log.frames, Log.pieces, Log.torn, ha, Piece.withTail]

theorem Log.Ok.torn_image (h : l.Ok) (hr : l.Rooted) (tail : List Byte)
    (ht : Torn o.maxBytes tail) : (l.torn tail ht).image.Ok l.agentId :=
  (h.image hr).shrink (l.torn_shrinks tail ht)

/-! ## Power failure -/

def Image.lose (i : Image o) (keep : Cursor → Nat) : Image o :=
  { i with pieces := i.pieces.map fun p => p.cut (max p.synced (keep p.key)) }

theorem Image.disk_lose (i : Image o) (keep : Cursor → Nat) :
    i.disk.lose keep = (i.lose keep).disk := by
  simp only [Image.disk, Disk.lose, Image.lose, map_map]
  congr 1
  refine map_congr_left fun p _ => ?_
  have hc := p.content_cut (max p.synced (keep p.key))
  simp only [Function.comp, Piece.entry, Piece.file, SegmentFile.lose, hc]
  rfl

theorem Image.Ok.lose (h : i.Ok agentId) (keep : Cursor → Nat) :
    (i.lose keep).Ok agentId :=
  h.shrink (forall₂_map_right_iff.mpr (forall₂_same.mpr fun p _ => .cut p _))

/-! ## Repairing the newest piece -/

/-- What recovery may do to the directory: cut off what is behind the last frame of the newest
piece, or remove that piece if it has no frame. Frames that were forced stay forced. -/
inductive Mends (i : Image o) : Image o → Prop where
  | same : Mends i i
  | repair {older : List (Piece o.maxBytes)} {p q : Piece o.maxBytes} :
      i.pieces = older ++ [p] → q.key = p.key → q.frames = p.frames →
      min p.synced p.bytes ≤ q.synced →
      Mends i { i with pieces := older ++ [q] }
  | drop {older : List (Piece o.maxBytes)} {p : Piece o.maxBytes} :
      i.pieces = older ++ [p] → p.frames = [] → Mends i { i with pieces := older }

namespace Mends

variable {i j k : Image o}

theorem frames (h : Mends i j) : j.frames = i.frames := by
  cases h with
  | same => rfl
  | repair hp _ hf _ | drop hp hf => simp [Image.frames, hp, hf]

theorem saved (h : Mends i j) : j.saved = i.saved := by cases h <;> rfl

theorem ok (h : Mends i j) (hi : i.Ok agentId) : j.Ok agentId := by
  cases h with
  | same => exact hi
  | @repair older p q hp hk hf hs =>
    refine hi.shrink ?_
    rw [hp]
    refine rel_append (forall₂_same.mpr fun p _ => .refl p) (.cons ⟨hk, ?_⟩ .nil)
    exact hf ▸ prefix_rfl
  | @drop older p hp hf =>
    have hsub : older.Sublist i.pieces := hp ▸ sublist_append_left older [p]
    refine ⟨hi.sorted.sublist hsub, ?_, fun m hm => ?_, fun hn => ?_⟩
    · have := hi.size
      simp only [Image.bytes, hp, map_append, sum_append] at this ⊢
      omega
    · have hsv := hi.saved m hm
      refine ⟨hsv.valid, hsv.agent, hsv.unknown, fun g hg => ?_, fun q hq =>
        hsv.pieces q (hsub.subset hq)⟩
      have hpl := hsv.placed g hg
      refine ⟨hpl.exact, fun q hq => hpl.tail q ?_, fun q hq => hpl.head q ?_⟩
      · rw [hp]
        cases older with
        | nil => cases hq
        | cons r rs => exact mem_append_left _ hq
      · rw [hp]
        cases older with
        | nil => cases hq
        | cons r rs => exact hq
    · have hnil := hi.unsaved hn
      rw [hp] at hnil
      exact (append_eq_nil_iff.mp hnil).1

end Mends

end Wal
end DockLattice
