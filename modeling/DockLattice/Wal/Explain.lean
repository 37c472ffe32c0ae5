import DockLattice.Wal.Reading

/-!
# DockLattice.Wal.Explain

Why recovery finds an explanation for every number that is missing. A number is `Reached` once a later
one of its incarnation has been handed out or names a segment; `Log.Explained` says that each such
number is on disk or accounted for by the metadata, `Log.Solid` that only numbers below all segments
are missing. Every durable effect keeps both.
-/

namespace DockLattice.Wal

open Bytes Effect List Log

variable {o : Options} {agentId : String}
variable {archive : String} {c : Cursor} {i : Image o} {l : Log o} {m : Metadata}
  {new : List DecodedFrame}

/-- A number in front of one of the segments `keys` of its incarnation. -/
def Behind (keys : List Cursor) (c : Cursor) : Prop :=
  ∃ k ∈ keys, k.incarnation = c.incarnation ∧ c.seq < k.seq

theorem Behind.lt {keys : List Cursor} (h : Behind keys c) : ∃ k ∈ keys, c < k := by
  obtain ⟨k, hk, hi, hs⟩ := h
  exact ⟨k, hk, .inr ⟨hi.symm, hs⟩⟩

theorem Behind.mono {keys keys' : List Cursor} (h : Behind keys c) (hsub : ∀ k ∈ keys, k ∈ keys') :
    Behind keys' c := by
  obtain ⟨k, hk, h⟩ := h
  exact ⟨k, hsub k hk, h⟩

namespace Log

def keys (l : Log o) : List Cursor := l.pieces.map Piece.key

def Reached (l : Log o) (c : Cursor) : Prop :=
  1 ≤ c.seq ∧ ((c.incarnation = l.metadata.currentIncarnation ∧ c.seq < l.metadata.nextSeq) ∨
    Behind l.keys c)

def Holds (l : Log o) (c : Cursor) : Prop := ∃ f ∈ l.frames, f.cursor = c

/-- What `m` has to account for. The second part keeps deletions justified: a segment that the
memory takes for acknowledged is acknowledged by `m`. -/
structure Explains (l : Log o) (m : Metadata) : Prop where
  holes : ∀ c, l.Reached c → l.Holds c ∨ Accounted m c
  acked : ∀ p ∈ l.sealed, ∀ a, l.metadata.serverAck = some a → p.last ≤ a →
    ∃ b, m.serverAck = some b ∧ p.last ≤ b

structure Explained (l : Log o) : Prop where
  memory : l.Explains l.metadata
  saved : ∀ m, l.saved = some m → l.Explains m

def Solid (l : Log o) : Prop := ∀ c, l.Reached c → l.Holds c ∨ ∀ k ∈ l.keys, c < k

end Log

/-! ## Steps -/

section Step

variable {l' : Log o} {p : Piece o.maxBytes} {rest : List (Piece o.maxBytes)}

theorem Accounted.of_ack {a b : Option Cursor} {m' : Metadata} (h : Accounted m c)
    (ha : m.serverAck = a) (hb : m'.serverAck = b)
    (hab : ∀ x, a = some x → ∃ y, b = some y ∧ x ≤ y)
    (hg : ∀ c, Gapped m.gaps c → Gapped m'.gaps c) : Accounted m' c := by
  rcases h with ⟨x, hx, hle⟩ | h
  · obtain ⟨y, hy, hxy⟩ := hab x (ha ▸ hx)
    exact .inl ⟨y, hb.trans hy, le_trans hle hxy⟩
  · exact .inr (hg c h)

theorem Proposes.accounted (h : l.Ok) (hp : Proposes l m) (hc : Accounted l.metadata c) :
    Accounted m c := by
  cases hp with
  | sealing | reopened => exact hc
  | ack _ hlt =>
    exact hc.of_ack rfl rfl (fun x hx => ⟨_, rfl, le_of_lt (hlt x hx)⟩) fun _ h => h
  | gap hs _ =>
    refine hc.of_ack rfl (by simp [Metadata.withGap]) (fun x hx => ⟨x, hx, le_refl x⟩) ?_
    intro d hd
    rw [durable_gaps]
    exact (h.gapped_withGap hs _).mpr (.inl hd)

theorem Proposes.ack_le (hp : Proposes l m) {a : Cursor} (ha : l.metadata.serverAck = some a) :
    ∃ b, m.serverAck = some b ∧ a ≤ b := by
  cases hp with
  | sealing | reopened => exact ⟨a, ha, le_refl a⟩
  | ack _ hlt => exact ⟨_, rfl, le_of_lt (hlt a ha)⟩
  | gap _ _ => exact ⟨a, by simpa [Metadata.withGap] using ha, le_refl a⟩

theorem Log.Explains.proposed (he : l.Explains l.metadata) (h : l.Ok) (hp : Proposes l m) :
    l.Explains m := by
  refine ⟨fun c hc => ?_, fun p _ a ha hle => ?_⟩
  · rcases he.holes c hc with hon | hacc
    · exact .inl hon
    · exact .inr (hp.accounted h hacc)
  · obtain ⟨b, hb, hab⟩ := hp.ack_le ha
    exact ⟨b, hb, le_trans hle hab⟩

structure Carries (l l' : Log o) : Prop where
  keys : ∀ k ∈ l'.keys, k ∈ l.keys ∨ k = l.next
  reached : ∀ c, l'.Reached c → l.Reached c ∨ l'.Holds c
  ack : l'.metadata.serverAck = l.metadata.serverAck
  sealed : ∀ p ∈ l'.sealed, p ∈ l.sealed ∨ ∀ a, l.metadata.serverAck = some a → a < p.last

theorem Log.Explains.carry (he : l.Explains m) (hc : Carries l l')
    (hh : ∀ c, l.Holds c → l'.Holds c ∨ Accounted m c) : l'.Explains m := by
  refine ⟨fun c hr => ?_, fun p hp a hack hle => ?_⟩
  · rcases hc.reached c hr with hr | hon
    · rcases he.holes c hr with hon | hacc
      · exact hh c hon
      · exact .inr hacc
    · exact .inl hon
  · rw [hc.ack] at hack
    rcases hc.sealed p hp with hp | hlt
    · exact he.acked p hp a hack hle
    · exact absurd (lt_of_lt_of_le (hlt a hack) hle) (lt_irrefl _)

theorem Log.Reached.of_keys (hc : l'.Reached c) (hk : ∀ k ∈ l'.keys, k ∈ l.keys ∨ k = l.next)
    (hi : l'.metadata.currentIncarnation = l.metadata.currentIncarnation)
    (hn : l'.metadata.nextSeq = l.metadata.nextSeq) : l.Reached c := by
  obtain ⟨hpos, ⟨hinc, hseq⟩ | ⟨k, hmem, hinc, hseq⟩⟩ := hc
  · exact ⟨hpos, .inl ⟨hinc.trans hi, hn ▸ hseq⟩⟩
  · rcases hk k hmem with hmem | rfl
    · exact ⟨hpos, .inr ⟨k, hmem, hinc, hseq⟩⟩
    · exact ⟨hpos, .inl ⟨hinc.symm, hseq⟩⟩

theorem Carries.of_keys (hk : ∀ k ∈ l'.keys, k ∈ l.keys ∨ k = l.next)
    (hi : l'.metadata.currentIncarnation = l.metadata.currentIncarnation)
    (hn : l'.metadata.nextSeq = l.metadata.nextSeq)
    (ha : l'.metadata.serverAck = l.metadata.serverAck) (hs : ∀ p ∈ l'.sealed, p ∈ l.sealed) :
    Carries l l' :=
  ⟨hk, fun _ hc => .inl (hc.of_keys hk hi hn), ha, fun p hp => .inl (hs p hp)⟩

theorem Log.Reached.lt_next (hc : l.Reached c) (h : l.Ok) : c < l.next := by
  obtain ⟨-, ⟨hinc, hseq⟩ | hb⟩ := hc
  · exact .inr ⟨hinc, hseq⟩
  · obtain ⟨k, hk, hlt⟩ := hb.lt
    obtain ⟨p, hp, rfl⟩ := mem_map.mp hk
    exact lt_of_lt_of_le hlt (h.key_le_next hp)

section

variable (hs : Step l new l')

include hs

theorem Step.carries (h : l.Ok) :
    Carries l l' ∨ ∃ c, l.saved = some { l.metadata with serverAck := some c } ∧
      l' = { l with metadata := { l.metadata with serverAck := some c } } := by
  have same : ∀ k ∈ l.keys, k ∈ l.keys ∨ k = l.next := fun _ hk => .inl hk
  cases hs with
  | ack ha hlt hsv => exact .inr ⟨_, hsv, rfl⟩
  | fsync ha =>
    refine .inl (.of_keys (fun k hk => .inl ?_) rfl rfl rfl fun _ hp => hp)
    simpa [Log.keys, Log.pieces, ha] using hk
  | create now ha _ =>
    refine .inl (.of_keys (fun k hk => ?_) rfl rfl rfl fun _ hp => hp)
    simpa [Log.keys, Log.pieces, ha, Piece.fresh] using hk
  | @write p f hc hf ha hn hb =>
    have hkeys : (l.wrote p f hc hf).keys = l.keys := by
      simp [Log.keys, Log.pieces, Log.wrote, ha, Piece.snoc]
    refine .inl ⟨fun k hk => .inl (hkeys ▸ hk), fun c hr => ?_, rfl, fun q hq => .inl hq⟩
    obtain ⟨hpos, ⟨hinc, hseq⟩ | hbehind⟩ := hr
    · -- the number that was handed out now belongs to the new frame
      by_cases hlt : c.seq < l.metadata.nextSeq
      · exact .inl ⟨hpos, .inl ⟨hinc, hlt⟩⟩
      refine .inr ⟨f, by simp [Log.frames, Log.pieces, Log.wrote, Piece.snoc], ?_⟩
      rw [hc, h.active_next _ ha]
      ext
      · exact hinc.symm
      · simp only [Log.wrote] at hseq
        simp only [Log.next]
        omega
    · exact .inl ⟨hpos, .inr (hkeys ▸ hbehind)⟩
  | save | gap | receipts | temps | background =>
    exact .inl (.of_keys same rfl rfl rfl fun _ hp => hp)
  | @sealing p ha _ hne _ =>
    have hsub : ∀ k, k ∈ Log.keys { l with
        metadata := { l.metadata with durableThrough := some p.last }
        sealed := l.sealed ++ [p]
        active := none } → k ∈ l.keys ∨ k = l.next :=
      fun k hk => .inl (by simpa [Log.keys, Log.pieces, ha] using hk)
    refine .inl ⟨hsub, fun c hr => .inl (hr.of_keys hsub rfl rfl), rfl, fun q hq => ?_⟩
    · rcases mem_append.mp hq with hq | hq
      · exact .inl hq
      · rw [mem_singleton] at hq
        subst hq
        exact .inr fun a hack => lt_of_lt_of_le (h.active_unacked q ha a hack) q.key_le_last
  | @unlink p rest hs _ =>
    refine .inl (.of_keys (fun k hk => .inl ?_) rfl rfl rfl fun q hq => ?_)
    · simp only [Log.keys, Log.pieces, hs, cons_append, map_cons]
      exact mem_cons_of_mem _ hk
    · rw [hs]; exact mem_cons_of_mem _ hq

theorem Step.holds (hc : l.Holds c) :
    l'.Holds c ∨ ∃ p rest, l.sealed = p :: rest ∧ l' = { l with sealed := rest } ∧
      Released l.metadata p ∧ ∃ f ∈ p.frames, f.cursor = c := by
  obtain ⟨f, hf, rfl⟩ := hc
  cases hs with
  | @unlink p rest hs hr =>
    simp only [frames, pieces, hs, cons_append, flatMap_cons, mem_append] at hf
    rcases hf with hf | hf
    · exact .inr ⟨p, rest, hs, rfl, hr, f, hf, rfl⟩
    · exact .inl ⟨f, hf, rfl⟩
  | fsync ha => exact .inl ⟨f, by simpa [frames, pieces, ha] using hf, rfl⟩
  | create now ha _ =>
    exact .inl ⟨f, by simpa [frames, pieces, ha, Piece.fresh] using hf, rfl⟩
  | @write p g hc hg ha _ _ =>
    refine .inl ⟨f, ?_, rfl⟩
    simp only [frames, pieces, wrote, ha, Option.toList_some, flatMap_append,
      flatMap_cons, flatMap_nil, append_nil, Piece.snoc, mem_append] at hf ⊢
    rcases hf with hf | hf
    · exact .inl hf
    · exact .inr (.inl hf)
  | sealing ha _ _ _ => exact .inl ⟨f, by simpa [frames, pieces, ha] using hf, rfl⟩
  | save | ack | gap | receipts | temps | background => exact .inl ⟨f, hf, rfl⟩

theorem Step.saved_cases :
    l'.saved = l.saved ∨ ∃ m, Proposes l m ∧ l' = { l with saved := some m } := by
  cases hs with
  | save hp _ => exact .inr ⟨_, hp, rfl⟩
  | _ => exact .inl rfl

theorem Step.gapped_mono (h : l.Ok) (hc : Gapped l.metadata.gaps c) :
    Gapped l'.metadata.gaps c := by
  cases hs with
  | gap hp _ => exact (h.gapped_withGap hp _).mpr (.inl hc)
  | _ => exact hc

end

theorem Log.Explains.step (he : l.Explains m) (hs : Step l new l') (hc : Carries l l')
    (hg : ∀ c, Gapped l.metadata.gaps c → Gapped m.gaps c) : l'.Explains m := by
  refine he.carry hc fun c hon => ?_
  rcases hs.holds hon with hon | ⟨p, rest, hp, -, hrel, f, hf, rfl⟩
  · exact .inl hon
  refine .inr ?_
  rcases hrel with ⟨a, ha, hle⟩ | ⟨g, hgm, hcov⟩
  · obtain ⟨b, hb, hle'⟩ := he.acked p (by simp [hp]) a ha hle
    exact .inl ⟨b, hb, le_trans (p.le_last hf) hle'⟩
  · exact .inr (hg _ ⟨g, hgm, hcov.contains hf⟩)

theorem Step.explained (hs : Step l new l') (h : l.Ok) (he : l.Explained) : l'.Explained := by
  rcases hs.carries h with hc | ⟨c, hsv, rfl⟩
  · refine ⟨?_, fun m hm => ?_⟩
    · have hmem : l.Explains l'.metadata := by
        refine ⟨fun c hr => ?_, fun p _ a ha hle => ⟨a, hc.ack.trans ha, hle⟩⟩
        rcases he.memory.holes c hr with hon | hacc
        · exact .inl hon
        · exact .inr (hs.accounted_mono h hacc)
      exact hmem.step hs hc fun d hd => hs.gapped_mono h hd
    · rcases hs.saved_cases with heq | ⟨m', hp, rfl⟩
      · rw [heq] at hm
        exact (he.saved m hm).step hs hc (h.saved m hm).gapped
      · cases hm
        exact (he.memory.proposed h hp).carry hc fun c hon => .inl hon
  · -- the disk already holds the new cursor
    have hnew := he.saved _ hsv
    have hown : Log.Explains { l with metadata := { l.metadata with serverAck := some c } }
        { l.metadata with serverAck := some c } :=
      ⟨hnew.holes, fun p _ a ha hle => ⟨a, ha, hle⟩⟩
    refine ⟨hown, fun m hm => ?_⟩
    have hm' : l.saved = some m := hm
    rw [hsv] at hm'
    cases hm'
    exact hown

theorem Step.solid (hs : Step l new l') (h : l.Ok) (hl : l.Solid) : l'.Solid := by
  intro c hr
  obtain ⟨hback, hkeys⟩ : (l.Reached c ∨ l'.Holds c) ∧ ∀ k ∈ l'.keys, k ∈ l.keys ∨ k = l.next := by
    rcases hs.carries h with hc | ⟨a, -, rfl⟩
    · exact ⟨hc.reached c hr, hc.keys⟩
    · exact ⟨.inl hr, fun k hk => .inl hk⟩
  rcases hback with hback | hon
  · rcases hl c hback with hon | hlt
    · rcases hs.holds hon with hon | ⟨p, rest, hp, rfl, -, f, hf, rfl⟩
      · exact .inl hon
      -- the oldest segment has gone
      refine .inr fun k hk => ?_
      obtain ⟨q, hq, rfl⟩ := mem_map.mp hk
      have hsorted := h.sorted
      simp only [pieces, hp, cons_append, pairwise_cons] at hsorted
      exact lt_of_le_of_lt (p.le_last hf) (hsorted.1 q hq)
    · refine .inr fun k hk => ?_
      rcases hkeys k hk with hk | rfl
      · exact hlt k hk
      · exact hback.lt_next h
  · exact .inl hon

theorem Steps.explained (hs : Steps l new l') (h : l.Ok) (he : l.Explained) : l'.Explained := by
  induction hs with
  | refl l => exact he
  | cons hs _ ih => exact ih (hs.ok h) (hs.explained h he)

theorem Steps.solid (hs : Steps l new l') (h : l.Ok) (hl : l.Solid) : l'.Solid := by
  induction hs with
  | refl l => exact hl
  | cons hs _ ih => exact ih (hs.ok h) (hs.solid h hl)

end Step

/-! ## Changing the archive -/

/-- Nothing hinges on the acknowledged cursor: what is missing is in a gap, and no segment waits to
be deleted because of it. -/
structure Log.Forgettable (l : Log o) : Prop where
  holes : ∀ c, l.Reached c → l.Holds c ∨ Gapped l.metadata.gaps c
  unacked : l.Unacked

theorem Log.Forgettable.flushed {k : Log o} (hf : l.Forgettable) (h : l.Ok) (hk : Flushed l k) :
    k.Forgettable := by
  cases hk with
  | idle _ => exact hf
  | @sealed p ha hne =>
    refine ⟨fun c hc => ?_, fun q hq => ?_⟩
    · have hr : l.Reached c := by
        refine hc.of_keys (fun k hk => .inl ?_) rfl rfl
        simpa [Log.keys, Log.pieces, Log.flushed, ha] using hk
      rcases hf.holes c hr with ⟨f, hfm, hfc⟩ | hg
      · exact .inl ⟨f, by simpa [Log.frames, Log.pieces, Log.flushed, ha] using hfm, hfc⟩
      · exact .inr hg
    · rcases mem_append.mp hq with hq | hq
      · exact hf.unacked q hq
      rw [mem_singleton] at hq
      subst hq
      exact not_segmentACKed_iff.mpr fun a hack =>
        lt_of_lt_of_le (h.active_unacked p ha a hack) p.key_le_last

theorem Rebind.explained {l' : Log o} (hr : Rebind l archive l') (he : l.Explained)
    (hf : l.Forgettable) : l'.Explained := by
  let d : Metadata := { l.metadata with acknowledgedArchive := archive, serverAck := none }
  have hforget : l.Explains d := by
    refine ⟨fun c hc => ?_, fun p hp a ha hle => ?_⟩
    · rcases hf.holes c hc with hon | hg
      · exact .inl hon
      · exact .inr (.inr hg)
    · have hlt := not_segmentACKed_iff.mp (hf.unacked p hp) a ha
      exact absurd (lt_of_lt_of_le hlt hle) (lt_irrefl _)
  cases hr with
  | save _ _ =>
    refine ⟨⟨he.memory.holes, he.memory.acked⟩, ?_⟩
    rintro m hm
    cases hm
    exact ⟨hforget.holes, hforget.acked⟩
  | adopt _ _ =>
    have hown : Log.Explains { l with metadata := d, saved := some d } d :=
      ⟨hforget.holes, by rintro p _ a ha; cases ha⟩
    exact ⟨hown, by rintro m hm; cases hm; exact hown⟩

theorem Rebind.solid {l' : Log o} (hr : Rebind l archive l') (hl : l.Solid) : l'.Solid := by
  cases hr with
  | save | adopt => exact hl

theorem Rebinds.explained {m : Log o} (hr : Rebinds l archive m) (h : l.Ok) (he : l.Explained)
    (hf : l.Forgettable) : m.Explained := by
  obtain ⟨-, -, k, hs, hfl, hk⟩ := hr
  exact hk.explained (hs.explained h he) (hf.flushed h hfl)

theorem Rebinds.solid {m : Log o} (hr : Rebinds l archive m) (h : l.Ok) (hl : l.Solid) :
    m.Solid := by
  obtain ⟨-, -, k, hs, -, hk⟩ := hr
  exact hk.solid (hs.solid h hl)

/-! ## The closed directory -/

def Image.keys (i : Image o) : List Cursor := i.pieces.map Piece.key

/-- Every number in front of a segment of its incarnation is on disk or satisfies `P`. -/
def Image.Spans (i : Image o) (P : Cursor → Prop) : Prop :=
  ∀ c, 1 ≤ c.seq → Behind i.keys c → (∃ f ∈ i.frames, f.cursor = c) ∨ P c

theorem Image.Spans.not_unexplained (h : i.Spans (Accounted m)) : ¬ Unexplained m i.pieces := by
  rintro ⟨c, hpos, ⟨p, hp, hinc, hseq⟩, hnot, hoff⟩
  rcases h c hpos ⟨p.key, mem_map.mpr ⟨p, hp, rfl⟩, hinc, hseq⟩ with ⟨f, hf, hc⟩ | hacc
  · obtain ⟨q, hq, hfq⟩ := mem_flatMap.mp hf
    exact hoff q hq f hfq hc
  · exact hnot (.inr hacc)

theorem Mends.keys_subset {j : Image o} (h : Mends i j) : ∀ k ∈ j.keys, k ∈ i.keys := by
  intro k hk
  cases h with
  | same => exact hk
  | repair hp hq _ _ =>
    simp only [Image.keys, hp, map_append, map_cons, map_nil, hq] at hk ⊢
    exact hk
  | drop hp _ =>
    simp only [Image.keys, hp, map_append] at hk ⊢
    exact mem_append_left _ hk

theorem Image.Spans.mends {j : Image o} {P : Cursor → Prop} (h : i.Spans P) (hm : Mends i j) :
    j.Spans P := by
  intro c hpos hb
  rw [hm.frames]
  exact h c hpos (hb.mono hm.keys_subset)

theorem Log.Explains.image (he : l.Explains m) :
    l.image.Spans (Accounted m) := fun c hpos hb => he.holes c ⟨hpos, .inr hb⟩

theorem Log.Solid.image (hl : l.Solid) :
    l.image.Spans fun c => ∀ k ∈ l.image.keys, c < k := fun c hpos hb => hl c ⟨hpos, .inr hb⟩

theorem Image.Spans.of_unsaved {P : Cursor → Prop} (hi : i.Ok agentId) (hs : i.saved = none) :
    i.Spans P := by
  rintro c - ⟨k, hk, -⟩
  rw [Image.keys, hi.unsaved hs] at hk
  cases hk

theorem Image.Ok.spans_saved (hok : i.Ok agentId)
    (he : ∀ m, i.saved = some m → i.Spans (Accounted m)) :
    i.Spans (Accounted (i.saved.getD zeroMetadata)) := by
  cases hs : i.saved with
  | none => exact .of_unsaved hok hs
  | some m => exact he m hs

theorem Image.adopted_coverage (i : Image o) (agentId : String) (n : Nat) :
    (i.adopted agentId n).serverAck = i.saved.bind (·.serverAck) ∧
      (i.adopted agentId n).gaps = (i.saved.map (·.gaps)).getD [] := by
  unfold Image.adopted
  cases i.saved with
  | none => exact ⟨rfl, rfl⟩
  | some m =>
    simp only [Metadata.adopt, Option.bind_some, Option.map_some, Option.getD_some]
    split <;> exact ⟨rfl, rfl⟩

theorem Image.Ok.spans_adopted (hok : i.Ok agentId)
    (he : ∀ m, i.saved = some m → i.Spans (Accounted m)) (n : Nat) :
    i.Spans (Accounted (i.adopted agentId n)) := by
  obtain ⟨hack, hgaps⟩ := i.adopted_coverage agentId n
  cases hs : i.saved with
  | none => exact .of_unsaved hok hs
  | some m =>
    intro c hpos hb
    have := he m hs c hpos hb
    simpa only [Accounted, hack, hgaps, hs, Option.bind_some, Option.map_some,
      Option.getD_some] using this

/-! ## Reopening -/

section Reopen

variable {n : Nat}

theorem Image.reopened_pieces (i : Image o) (agentId : String) (n : Nat) :
    (i.reopened agentId n).pieces = i.pieces := by simp [Log.pieces, Image.reopened]

theorem Image.Ok.reopened_coverage (hi : i.Ok agentId) (hn : i.Newer agentId n) :
    (i.reopened agentId n).metadata.serverAck = i.saved.bind (·.serverAck) ∧
      (i.reopened agentId n).metadata.gaps = (i.saved.map (·.gaps)).getD [] := by
  rw [hi.reopened_metadata hn]
  exact i.adopted_coverage agentId n

theorem Image.Ok.reopened_reached (hi : i.Ok agentId) (hn : i.Newer agentId n)
    (hc : (i.reopened agentId n).Reached c) : Behind i.keys c := by
  obtain ⟨hpos, ⟨-, hseq⟩ | hb⟩ := hc
  · rw [hi.reopened_metadata hn] at hseq
    have := (hi.adopted hn).next
    simp only at hseq
    omega
  · rwa [Log.keys, Image.reopened_pieces] at hb

theorem Image.reopened_holds (i : Image o) :
    (i.reopened agentId n).Holds c ↔ ∃ f ∈ i.frames, f.cursor = c := by
  rw [Log.Holds, Log.frames, Image.reopened_pieces, Image.frames]

theorem Image.Ok.reopened_explained (hi : i.Ok agentId) (hn : i.Newer agentId n)
    (he : ∀ m, i.saved = some m → i.Spans (Accounted m)) : (i.reopened agentId n).Explained := by
  obtain ⟨hack, hgaps⟩ := hi.reopened_coverage hn
  have hsaved : ∀ m, i.saved = some m → (i.reopened agentId n).Explains m := by
    intro m hm
    refine ⟨fun c hc => ?_, fun p _ a ha hle => ?_⟩
    · rw [Image.reopened_holds]
      exact he m hm c hc.1 (hi.reopened_reached hn hc)
    · rw [hack, hm] at ha
      exact ⟨a, ha, hle⟩
  refine ⟨⟨fun c hc => ?_, fun p _ a ha hle => ⟨a, ha, hle⟩⟩, hsaved⟩
  cases hs : i.saved with
  | none =>
    obtain ⟨k, hk, -⟩ := hi.reopened_reached hn hc
    rw [Image.keys, hi.unsaved hs] at hk
    cases hk
  | some m =>
    rcases (hsaved m hs).holes c hc with hon | hacc
    · exact .inl hon
    · refine .inr (hacc.of_ack rfl hack (fun x hx => ⟨x, ?_, le_refl x⟩) fun d hd => ?_)
      · rw [hs]; exact hx
      · rw [hgaps, hs]; exact hd

theorem Image.Ok.reopened_solid (hi : i.Ok agentId) (hn : i.Newer agentId n)
    (hs : i.Spans fun c => ∀ k ∈ i.keys, c < k) : (i.reopened agentId n).Solid := by
  intro c hc
  rw [Image.reopened_holds, Log.keys, Image.reopened_pieces]
  exact hs c hc.1 (hi.reopened_reached hn hc)

end Reopen

end DockLattice.Wal
