import DockLattice.Wal.Explain

/-!
# DockLattice.Wal.Loss

What a power failure can take. Of a piece the frames within its forced prefix survive (`Piece.firm`);
sealing forces a piece, so only the newest piece of an incarnation can have others.
-/

namespace DockLattice.Wal

open Bytes Effect List

variable {o : Options} {agentId : String} {n : Nat}

section Firm

variable {max : Nat} {p : Piece max} {f : DecodedFrame}

theorem wholeFrames_mono (fs : List DecodedFrame) {m : Nat} (h : m ≤ n) :
    wholeFrames fs m ≤ wholeFrames fs n := by
  induction fs generalizing m n with
  | nil => exact Nat.le_refl _
  | cons f fs ih =>
    simp only [wholeFrames]
    by_cases hm : f.bytes ≤ m
    · rw [if_pos hm, if_pos (Nat.le_trans hm h)]
      exact Nat.succ_le_succ (ih (Nat.sub_le_sub_right h _))
    · rw [if_neg hm]
      exact Nat.zero_le _

theorem wholeFrames_all {fs : List DecodedFrame} (h : (encodeAll fs).length ≤ n) :
    wholeFrames fs n = fs.length := by
  have hle := le_wholeFrames [] h
  rw [append_nil] at hle
  exact Nat.le_antisymm (wholeFrames_le fs n) hle

def Piece.Forced (p : Piece max) : Prop := p.synced = p.content.length

def Piece.firm (p : Piece max) : List DecodedFrame := (p.cut p.synced).frames

theorem Piece.cut_frames_mono {m : Nat} (h : m ≤ n) (hf : f ∈ (p.cut m).frames) :
    f ∈ (p.cut n).frames :=
  (take_prefix_take_left (wholeFrames_mono p.frames h)).subset hf

theorem Piece.cut_frames_all (h : p.bytes ≤ n) : (p.cut n).frames = p.frames := by
  simp only [Piece.cut, wholeFrames_all h, take_length]

theorem Piece.bytes_le_content (p : Piece max) : p.bytes ≤ p.content.length := by
  simp [Piece.bytes, Piece.content]

theorem Piece.Forced.firm (h : p.Forced) : p.firm = p.frames :=
  Piece.cut_frames_all (h ▸ p.bytes_le_content)

theorem Piece.forced_cut (p : Piece max) (n : Nat) : (p.cut n).Forced := by
  rw [Piece.Forced, Piece.content_cut]
  rfl

end Firm

/-! ## Only the newest piece of an incarnation has loose frames -/

def Trails {max : Nat} (ps : List (Piece max)) : Prop :=
  ps.Pairwise fun p q => p.key.incarnation = q.key.incarnation → p.Forced

structure Log.Forced (l : Log o) : Prop where
  trails : Trails l.sealed
  current : ∀ p ∈ l.sealed, p.key.incarnation = l.metadata.currentIncarnation → p.Forced

section Forced

variable {l l' : Log o}

theorem Log.Forced.mono (hl : l.Forced) (hs : l'.sealed.Sublist l.sealed)
    (hi : l'.metadata.currentIncarnation = l.metadata.currentIncarnation) : l'.Forced :=
  ⟨hl.trails.sublist hs, fun p hp hc => hl.current p (hs.subset hp) (hc.trans hi)⟩

theorem Step.forced {new : List DecodedFrame} (hs : Step l new l') (h : l.Ok) (hl : l.Forced) :
    l'.Forced := by
  cases hs with
  | @sealing p ha hsync hne _ =>
    have hinc := h.active_incarnation ha
    refine ⟨pairwise_append.mpr ⟨hl.trails, by simp, fun q hq r hr hqr => ?_⟩, fun q hq hc => ?_⟩
    · rw [mem_singleton] at hr
      subst hr
      exact hl.current q hq (hqr.trans hinc)
    · rcases mem_append.mp hq with hq | hq
      · exact hl.current q hq hc
      · rw [mem_singleton] at hq
        exact hq ▸ hsync
  | @unlink p rest hs _ => exact hl.mono (hs ▸ sublist_cons_self p rest) rfl
  | fsync | create | write | save | ack | gap | receipts | temps | background =>
    exact hl.mono (.refl _) rfl

theorem Steps.forced {new : List DecodedFrame} (hs : Steps l new l') (h : l.Ok) (hl : l.Forced) :
    l'.Forced := by
  induction hs with
  | refl l => exact hl
  | cons hs _ ih => exact ih (hs.ok h) (hs.forced h hl)

theorem Rebinds.forced {archive : String} (hr : Rebinds l archive l') (h : l.Ok) (hl : l.Forced) :
    l'.Forced := by
  obtain ⟨-, -, k, hs, -, hk⟩ := hr
  have hf := hs.forced h hl
  cases hk with
  | save | adopt => exact hf.mono (.refl _) rfl

theorem Log.Forced.trails_open (hl : l.Forced) {a : Option (Piece o.maxBytes)}
    (ha : ∀ p, a = some p → p.key.incarnation = l.metadata.currentIncarnation) :
    Trails (l.sealed ++ a.toList) := by
  cases a with
  | none => simpa using hl.trails
  | some p =>
    refine pairwise_append.mpr ⟨hl.trails, by simp, fun q hq r hr hqr => ?_⟩
    simp only [Option.toList_some, mem_singleton] at hr
    subst hr
    exact hl.current q hq (hqr.trans (ha r rfl))

theorem Log.Forced.torn_image (hl : l.Forced) (h : l.Ok) (tail : List Byte)
    (ht : Torn o.maxBytes tail) : Trails (l.torn tail ht).image.pieces := by
  refine hl.trails_open fun q hq => ?_
  obtain ⟨p, ha, rfl⟩ := Option.map_eq_some_iff.mp hq
  exact h.active_incarnation (p := p) ha

theorem Log.Forced.image (hl : l.Forced) (h : l.Ok) : Trails l.image.pieces :=
  hl.trails_open fun _ ha => h.active_incarnation ha

end Forced

section Trails

variable {i j : Image o}

theorem Mends.trails (hm : Mends i j) (hi : Trails i.pieces) : Trails j.pieces := by
  cases hm with
  | same => exact hi
  | @repair older p q hp hk _ _ =>
    rw [hp] at hi
    obtain ⟨h1, -, h3⟩ := pairwise_append.mp hi
    refine pairwise_append.mpr ⟨h1, by simp, fun r hr s hs hrs => ?_⟩
    rw [mem_singleton] at hs
    subst hs
    exact h3 r hr p (by simp) (hrs.trans (congrArg Cursor.incarnation hk))
  | @drop older p hp _ =>
    rw [hp] at hi
    exact (pairwise_append.mp hi).1

theorem Image.lose_trails (i : Image o) (keep : Cursor → Nat) : Trails (i.lose keep).pieces := by
  refine pairwise_of_forall_mem_list fun p hp q _ _ => ?_
  obtain ⟨r, -, rfl⟩ := mem_map.mp hp
  exact r.forced_cut _

theorem Image.Ok.reopened_forced (hi : i.Ok agentId) (hn : i.Newer agentId n)
    (ht : Trails i.pieces) : (i.reopened agentId n).Forced := by
  refine ⟨ht, fun p hp hc => ?_⟩
  have hcur : (i.reopened agentId n).metadata.currentIncarnation = n :=
    (congrArg Metadata.currentIncarnation (hi.reopened_metadata hn)).trans (hi.adopted hn).current
  have hp' : p ∈ i.pieces := hp
  cases hs : i.saved with
  | none => rw [hi.unsaved hs] at hp'; cases hp'
  | some m =>
    have h1 := (hi.saved m hs).pieces p hp'
    have h2 := hn.newer m hs
    omega

theorem pairwise_cases {α : Type} {R : α → α → Prop} {xs : List α} (h : xs.Pairwise R) {a b : α}
    (ha : a ∈ xs) (hb : b ∈ xs) : a = b ∨ R a b ∨ R b a := by
  have : Std.Symm fun a b => R a b ∨ R b a := ⟨fun _ _ => Or.symm⟩
  have hor : xs.Pairwise fun a b => R a b ∨ R b a := h.imp .inl
  exact or_iff_not_imp_left.mpr (hor.forall ha hb)

theorem Image.Ok.forced_of_behind (hi : i.Ok agentId) (ht : Trails i.pieces) {p q : Piece o.maxBytes}
    (hp : p ∈ i.pieces) (hq : q ∈ i.pieces) {f : DecodedFrame} (hf : f ∈ p.frames)
    (hinc : q.key.incarnation = f.cursor.incarnation) (hlt : f.cursor < q.key) : p.Forced := by
  rcases pairwise_cases (hi.sorted.and ht) hp hq with rfl | ⟨-, hforced⟩ | ⟨hqp, -⟩
  · exact absurd (lt_of_le_of_lt (p.key_le hf) hlt) (lt_irrefl _)
  · exact hforced ((p.mem_cursor hf).1.symm.trans hinc.symm)
  · have : q.key < q.key := lt_of_le_of_lt q.key_le_last
      (lt_of_lt_of_le hqp (le_trans (p.key_le hf) (le_of_lt hlt)))
    exact absurd this (lt_irrefl _)

theorem Image.mem_lose (i : Image o) (keep : Cursor → Nat) {p : Piece o.maxBytes}
    (hp : p ∈ i.pieces) {f : DecodedFrame} (hf : f ∈ p.firm) : f ∈ (i.lose keep).frames :=
  mem_flatMap.mpr ⟨_, mem_map.mpr ⟨p, hp, rfl⟩, Piece.cut_frames_mono (Nat.le_max_left _ _) hf⟩

theorem Image.lose_keys (i : Image o) (keep : Cursor → Nat) : (i.lose keep).keys = i.keys := by
  simp [Image.keys, Image.lose, Piece.cut, Function.comp_def]

theorem Image.Spans.lose {P : Cursor → Prop} (hs : i.Spans P) (hi : i.Ok agentId)
    (ht : Trails i.pieces) (keep : Cursor → Nat) : (i.lose keep).Spans P := by
  intro c hpos hb
  rw [Image.lose_keys] at hb
  rcases hs c hpos hb with ⟨f, hf, rfl⟩ | hc
  · obtain ⟨p, hp, hfp⟩ := mem_flatMap.mp hf
    obtain ⟨k, hk, hinc, hseq⟩ := hb
    obtain ⟨q, hq, rfl⟩ := mem_map.mp hk
    have hforced := hi.forced_of_behind ht hp hq hfp hinc (.inr ⟨hinc.symm, hseq⟩)
    exact .inl ⟨f, i.mem_lose keep hp (hforced.firm ▸ hfp), rfl⟩
  · exact .inr hc

end Trails

end DockLattice.Wal
