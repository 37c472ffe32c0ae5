import DockLattice.Session.Registry

/-!
# DockLattice.Session.Order

Admission of sessions by several Servers that share the incarnation watermark. An admission is settled
by one store call, and in the order of these calls incarnations never decrease. The session is
installed later, so the order of installation is guaranteed inside each process only.
-/

namespace DockLattice.Session

open List Process

open Operation (Time)

/-! ## The session that is open -/

def Note.opened (i : Nat) (agentId : Text) (s : Option Info) : Note → Option Info
  | .accepted j info _ => if j = i ∧ info.agentId = agentId then some info else s
  | .closed j agentId' sessionId =>
    if j = i ∧ agentId' = agentId ∧ s.map Info.sessionId = some sessionId then none else s
  | .decided _ _ => s

def openSession (i : Nat) (agentId : Text) (history : List Note) : Option Info :=
  history.foldl (Note.opened i agentId) none

/-- The session is the last one that was accepted in the process, and was not closed since. -/
def LastOpen (i : Nat) (agentId : Text) (history : List Note) (s : Info) : Prop :=
  ∃ before floor after, history = before ++ .accepted i s floor :: after ∧ s.agentId = agentId ∧
    (∀ s' floor', .accepted i s' floor' ∈ after → s'.agentId ≠ agentId) ∧
    .closed i agentId s.sessionId ∉ after

section Open

variable {i : Nat} {agentId : Text} {history : List Note} {s : Info} {note : Note}

theorem openSession_snoc (i : Nat) (agentId : Text) (history : List Note) (note : Note) :
    openSession i agentId (history ++ [note]) = note.opened i agentId (openSession i agentId history) := by
  simp [openSession]

theorem lastOpen_snoc_iff :
    LastOpen i agentId (history ++ [note]) s ↔
      (∃ floor, note = .accepted i s floor ∧ s.agentId = agentId) ∨
      (LastOpen i agentId history s ∧ note ≠ .closed i agentId s.sessionId ∧
        ∀ s' floor', note = .accepted i s' floor' → s'.agentId ≠ agentId) := by
  constructor
  · intro h
    obtain ⟨before, floor, after, hsplit, hagent, hnone, hclosed⟩ := h
    rcases eq_nil_or_concat after with hnil | ⟨after', last, hafter⟩
    · subst hnil
      obtain ⟨-, hnote⟩ := append_inj' hsplit rfl
      cases hnote
      exact .inl ⟨floor, rfl, hagent⟩
    rw [concat_eq_append] at hafter
    subst hafter
    rw [← cons_append, ← append_assoc] at hsplit
    obtain ⟨hbefore, hnote⟩ := append_inj' hsplit rfl
    cases hnote
    refine .inr ⟨⟨before, floor, after', hbefore, hagent, ?_, ?_⟩, ?_, ?_⟩
    · intro s' floor' hs'
      exact hnone s' floor' (mem_append_left _ hs')
    · exact fun hc => hclosed (mem_append_left _ hc)
    · intro he
      exact hclosed (by simp [he])
    · intro s' floor' he
      exact hnone s' floor' (by simp [he])
  · intro h
    rcases h with ⟨floor, hnote, hagent⟩ | ⟨⟨before, floor, after, hsplit, hagent, hnone, hclosed⟩,
      hnote, hother⟩
    · subst hnote
      exact ⟨history, floor, [], rfl, hagent, by simp, by simp⟩
    refine ⟨before, floor, after ++ [note], by simp [hsplit], hagent, ?_, ?_⟩
    · intro s' floor' hs'
      rcases mem_append.mp hs' with hs' | hs'
      · exact hnone s' floor' hs'
      · exact hother s' floor' (mem_singleton.mp hs').symm
    · intro hc
      rcases mem_append.mp hc with hc | hc
      · exact hclosed hc
      · exact hnote (mem_singleton.mp hc).symm

theorem openSession_iff : openSession i agentId history = some s ↔ LastOpen i agentId history s := by
  induction history using List.reverseRecOn generalizing s with
  | nil =>
    refine iff_of_false (by simp [openSession]) ?_
    intro h
    obtain ⟨before, _, _, hsplit, _⟩ := h
    cases before <;> cases hsplit
  | append_singleton history note ih =>
    rw [openSession_snoc, lastOpen_snoc_iff, ← ih]
    cases note with
    | decided j info => simp [Note.opened]
    | accepted j info floor =>
      simp only [Note.opened]
      by_cases h : j = i ∧ info.agentId = agentId
      · obtain ⟨rfl, rfl⟩ := h
        simp only [and_self, if_true, Option.some.injEq]
        constructor
        · intro hs
          subst hs
          exact .inl ⟨floor, rfl, rfl⟩
        · intro hs
          rcases hs with ⟨_, he, -⟩ | ⟨-, -, hother⟩
          · cases he
            rfl
          · exact absurd rfl (hother info floor rfl)
      rw [if_neg h]
      constructor
      · intro hs
        refine .inr ⟨hs, by simp, ?_⟩
        intro s' floor' he
        cases he
        exact fun ha => h ⟨rfl, ha⟩
      · intro hs
        rcases hs with ⟨_, he, hagent⟩ | ⟨hs, -⟩
        · cases he
          exact absurd ⟨rfl, hagent⟩ h
        · exact hs
    | closed j agentId' sessionId =>
      simp only [Note.opened]
      constructor
      · intro hs
        split at hs
        · cases hs
        next hkeep =>
        refine .inr ⟨hs, ?_, by simp⟩
        intro he
        cases he
        exact hkeep ⟨rfl, rfl, by rw [hs]; rfl⟩
      intro hs
      rcases hs with ⟨_, he, -⟩ | ⟨hs, hne, -⟩
      · cases he
      rw [if_neg]
      · exact hs
      intro hall
      obtain ⟨rfl, rfl, hid⟩ := hall
      rw [hs] at hid
      cases hid
      exact hne rfl

end Open

/-! ## The invariant -/

def DecidedInOrder (a b : Note) : Prop :=
  ∀ i j x y, a = .decided i x → b = .decided j y → x.agentId = y.agentId →
    x.incarnation ≤ y.incarnation

def AcceptedInOrder (a b : Note) : Prop :=
  ∀ i x y floor floor', a = .accepted i x floor → b = .accepted i y floor' →
    x.agentId = y.agentId → x.incarnation ≤ y.incarnation

structure Flight.Decided (f : Flight) (i : Nat) (history : List Note) : Prop where
  decided : .decided i f.info ∈ history
  floor : f.floor ≤ f.info.incarnation
  newest : ∀ info floor, .accepted i info floor ∈ history → info.agentId = f.info.agentId →
    info.incarnation ≤ f.info.incarnation

namespace World

structure Ordered (w : World) : Prop where
  floor : ∀ i f, (w.processes i).flight = some f → f.floor ≤ watermark w.agents f.info.agentId
  settled : ∀ i f, (w.processes i).flight = some f → f.settled = true → f.Decided i w.history
  below : ∀ i info, .decided i info ∈ w.history →
    info.incarnation ≤ watermark w.agents info.agentId
  accepted : ∀ i info floor, .accepted i info floor ∈ w.history →
    .decided i info ∈ w.history ∧ floor ≤ info.incarnation
  decidedInOrder : w.history.Pairwise DecidedInOrder
  acceptedInOrder : w.history.Pairwise AcceptedInOrder

structure Shown (w : World) : Prop where
  tied : ∀ i, (w.processes i).Tied
  current : ∀ i agentId, w.current i agentId = openSession i agentId w.history

variable {w : World}

theorem put_all {P : Nat → Process → Prop} {i : Nat} {p : Process} (hi : P i p)
    (hother : ∀ j, j ≠ i → P j (w.processes j)) (j : Nat) : P j (w.put i p j) := by
  unfold put
  by_cases hj : j = i
  · subst hj
    rw [Function.update_self]
    exact hi
  · rw [Function.update_of_ne hj]
    exact hother j hj

theorem start_ordered (agents : Agents) : (start agents).Ordered where
  floor := fun _ _ h => by cases h
  settled := fun _ _ h => by cases h
  below := fun _ _ h => by cases h
  accepted := fun _ _ _ h => by cases h
  decidedInOrder := List.Pairwise.nil
  acceptedInOrder := List.Pairwise.nil

theorem start_shown (agents : Agents) : (start agents).Shown where
  tied := fun _ _ h => by cases h
  current := fun _ _ => rfl

namespace Ordered

section

variable (h : w.Ordered)

include h

theorem raise {agents : Agents} (hmono : ∀ id, watermark w.agents id ≤ watermark agents id) :
    Ordered { w with agents := agents } :=
  { h with
    floor := fun i f hf => (h.floor i f hf).trans (hmono _)
    below := fun i info hd => (h.below i info hd).trans (hmono _) }

theorem put {i : Nat} {p : Process}
    (hfloor : ∀ f, p.flight = some f → f.floor ≤ watermark w.agents f.info.agentId)
    (hsettled : ∀ f, p.flight = some f → f.settled = true → f.Decided i w.history) :
    Ordered { w with processes := w.put i p } := by
  refine { h with floor := ?_, settled := ?_ }
  · exact put_all (P := fun j p => ∀ f, p.flight = some f →
      f.floor ≤ watermark w.agents f.info.agentId) hfloor fun j _ => h.floor j
  · exact put_all (P := fun j p => ∀ f, p.flight = some f → f.settled = true →
      f.Decided j w.history) hsettled fun j _ => h.settled j

theorem idle {i : Nat} {p : Process} (hidle : p.flight = none) :
    Ordered { w with processes := w.put i p } := by
  refine h.put ?_ ?_
  · intro f hf
    rw [hidle] at hf
    cases hf
  · intro f hf
    rw [hidle] at hf
    cases hf

theorem snoc {note : Note} (hdecided : ∀ i info, note = .decided i info →
      info.incarnation = watermark w.agents info.agentId)
    (haccepted : ∀ i info floor, note = .accepted i info floor →
      (w.processes i).flight = none ∧ .decided i info ∈ w.history ∧ floor ≤ info.incarnation ∧
      ∀ x fl, .accepted i x fl ∈ w.history → x.agentId = info.agentId →
        x.incarnation ≤ info.incarnation) : Ordered { w with history := w.history ++ [note] } := by
  have hold : ∀ {n}, n ∈ w.history → n ∈ w.history ++ [note] := fun hn => mem_append_left _ hn
  have hcases : ∀ {n}, n ∈ w.history ++ [note] → n ∈ w.history ∨ note = n := by
    intro n hn
    rcases mem_append.mp hn with hn | hn
    · exact .inl hn
    · exact .inr (mem_singleton.mp hn).symm
  refine ⟨h.floor, ?_, ?_, ?_, ?_, ?_⟩
  · intro i f hf hset
    obtain ⟨hd, hfl, hnew⟩ := h.settled i f hf hset
    refine ⟨hold hd, hfl, ?_⟩
    intro x fl hx hagent
    rcases hcases hx with hx | hx
    · exact hnew x fl hx hagent
    · have hnone := (haccepted i x fl hx).1
      rw [hf] at hnone
      cases hnone
  · intro i x hx
    rcases hcases hx with hx | hx
    · exact h.below i x hx
    · exact (hdecided i x hx).le
  · intro i x fl hx
    rcases hcases hx with hx | hx
    · obtain ⟨hd, hfl⟩ := h.accepted i x fl hx
      exact ⟨hold hd, hfl⟩
    · obtain ⟨-, hd, hfl, -⟩ := haccepted i x fl hx
      exact ⟨hold hd, hfl⟩
  · refine pairwise_append.mpr ⟨h.decidedInOrder, pairwise_singleton _ _, ?_⟩
    intro a ha b hb i j x y hx hy hagent
    rw [mem_singleton.mp hb] at hy
    subst hx
    have hle := h.below i x ha
    rw [hagent, ← hdecided j y hy] at hle
    exact hle
  · refine pairwise_append.mpr ⟨h.acceptedInOrder, pairwise_singleton _ _, ?_⟩
    intro a ha b hb i x y fl fl' hx hy hagent
    rw [mem_singleton.mp hb] at hy
    subst hx
    exact (haccepted i y fl' hy).2.2.2 x fl ha hagent

theorem advance_on {i : Nat} {f f' : Flight} {agents : Agents}
    (hf : (w.processes i).flight = some f) (hfollows : f.Follows f') (hopen : f.settled = false)
    (hmono : ∀ id, watermark w.agents id ≤ watermark agents id)
    (hset : f'.settled = true → f.info.incarnation = watermark agents f.info.agentId) :
    Ordered ⟨agents, w.put i { w.processes i with flight := some f' },
      w.history ++ notes i (some f) (some f') none⟩ := by
  have hraised := h.raise hmono
  have hfloor : f'.floor ≤ watermark agents f'.info.agentId := by
    rw [hfollows.floor, hfollows.info]
    exact (h.floor i f hf).trans (hmono _)
  cases hs : f'.settled with
  | false =>
    have hnotes : notes i (some f) (some f') none = [] := by simp [notes, hs]
    rw [hnotes, append_nil]
    refine hraised.put ?_ ?_
    · intro g hg
      cases hg
      exact hfloor
    · intro g hg hgs
      cases hg
      rw [hs] at hgs
      cases hgs
  | true =>
    have hnotes : notes i (some f) (some f') none = [.decided i f'.info] := by
      simp [notes, hs, hopen]
    have hmark : f'.info.incarnation = watermark agents f'.info.agentId := by
      rw [hfollows.info]
      exact hset hs
    rw [hnotes]
    have hnoted : Ordered { w with
        agents := agents, history := w.history ++ [.decided i f'.info] } := by
      refine hraised.snoc ?_ ?_
      · intro j info hn
        cases hn
        exact hmark
      · intro j info fl hn
        cases hn
    refine hnoted.put ?_ ?_
    · intro g hg
      cases hg
      exact hfloor
    · intro g hg _
      cases hg
      refine ⟨mem_append_right _ (mem_singleton_self _), hfloor.trans hmark.ge, ?_⟩
      intro x fl hx hagent
      have hx' : Note.accepted i x fl ∈ w.history := by simpa using hx
      have hle := hraised.below i x (h.accepted i x fl hx').1
      rw [hagent, ← hmark] at hle
      exact hle

theorem advance_installed {i : Nat} {f : Flight} {p : Process}
    (hf : (w.processes i).flight = some f) (hs : f.settled = true) (hidle : p.flight = none) :
    Ordered ⟨w.agents, w.put i p, w.history ++ [.accepted i f.info f.floor]⟩ := by
  obtain ⟨hd, hfl, hnew⟩ := h.settled i f hf hs
  refine (h.idle (i := i) hidle).snoc ?_ ?_
  · intro j info hn
    cases hn
  intro j info fl hn
  cases hn
  refine ⟨?_, hd, hfl, hnew⟩
  simp only [World.put, Function.update_self]
  exact hidle

end

end Ordered

theorem step_advance_idle {i : Nat} {now : Time} {fault : Fault}
    (hf : (w.processes i).flight = none) : w.step (.advance i now fault) = w := by
  simp only [step, advance, hf, notes, append_nil, put, Function.update_eq_self]

theorem step_advance_moved (hshown : w.Shown) {i : Nat} {f : Flight} (now : Time) (fault : Fault)
    (hf : (w.processes i).flight = some f) :
    ∃ agents p outcome, (∀ id, watermark w.agents id ≤ watermark agents id) ∧
      Process.Moved (w.processes i) f agents p outcome ∧
      (f.settled = true → agents = w.agents) ∧
      w.step (.advance i now fault) =
        ⟨agents, w.put i p, w.history ++ notes i (some f) p.flight outcome⟩ := by
  obtain ⟨hmono, hmoved⟩ := advance_moved w.agents hf (hshown.tied i f hf) now fault
  refine ⟨_, _, _, hmono, hmoved, ?_, ?_⟩
  · intro hs
    have hphase : f.phase = .install := by simpa [Flight.settled] using hs
    simp only [advance, hf, hphase]
  · simp only [step, hf]

theorem Ordered.step (h : w.Ordered) (hshown : w.Shown) (s : Step) : (w.step s).Ordered := by
  cases s with
  | begin i info =>
    simp only [World.step]
    split
    · exact h
    next hfree =>
    unfold begin
    split
    · refine h.put ?_ ?_
      · intro f hf
        cases hf
        exact le_rfl
      · intro f hf hs
        cases hf
        cases hs
    · exact h.put (h.floor i) (h.settled i)
  | closed i agentId sessionId =>
    simp only [World.step]
    split
    · exact h
    next hfree =>
    have hidle : ((w.processes i).sessionClosed agentId sessionId).flight = none := by
      have hnone : (w.processes i).flight = none := by simpa using hfree
      unfold sessionClosed
      split
      · exact hnone
      · split
        · exact hnone
        · split <;> exact hnone
    refine (h.idle (i := i) hidle).snoc ?_ ?_
    · intro j info hn
      cases hn
    · intro j info fl hn
      cases hn
  | advance i now fault =>
    cases hf : (w.processes i).flight with
    | none =>
      rw [step_advance_idle hf]
      exact h
    | some f =>
      obtain ⟨agents, p, outcome, hmono, hmoved, hsame, hstep⟩ :=
        step_advance_moved hshown now fault hf
      rw [hstep]
      cases hmoved with
      | on f' hfollows hopen hset => exact h.advance_on hf hfollows hopen hmono hset
      | failed _ e hidle _ =>
        have hnotes : notes i (some f) p.flight (some (.error e)) = [] := by
          rw [hidle]
          rfl
        rw [hnotes, append_nil]
        exact (h.raise hmono).idle hidle
      | installed _ hs hidle _ =>
        rw [hidle, hsame hs]
        exact h.advance_installed hf hs hidle

/-! ## What is shown -/

namespace Shown

theorem put (h : w.Shown) {i : Nat} {p : Process} {agents : Agents} {added : List Note}
    (htied : p.Tied)
    (hcurrent : ∀ agentId, p.current agentId = openSession i agentId (w.history ++ added))
    (hother : ∀ j agentId, j ≠ i →
      openSession j agentId (w.history ++ added) = openSession j agentId w.history) :
    Shown ⟨agents, w.put i p, w.history ++ added⟩ := by
  refine ⟨put_all (P := fun _ p => p.Tied) htied fun j _ => h.tied j, ?_⟩
  intro j
  refine put_all (P := fun j p => ∀ agentId, p.current agentId =
    openSession j agentId (w.history ++ added)) hcurrent ?_ j
  intro j hj agentId
  rw [hother j agentId hj, ← h.current]
  rfl

theorem same (h : w.Shown) {i : Nat} {p : Process} {agents : Agents} {added : List Note}
    (hadded : ∀ note ∈ added, ∃ j info, note = .decided j info) (htied : p.Tied)
    (hcurrent : ∀ agentId, p.current agentId = (w.processes i).current agentId) :
    Shown ⟨agents, w.put i p, w.history ++ added⟩ := by
  have hopen : ∀ j agentId, openSession j agentId (w.history ++ added) =
      openSession j agentId w.history := by
    intro j agentId
    unfold openSession
    rw [foldl_append]
    generalize w.history.foldl (Note.opened j agentId) none = s
    induction added with
    | nil => rfl
    | cons note added ih =>
      obtain ⟨k, info, rfl⟩ := hadded note mem_cons_self
      exact ih fun n hn => hadded n (mem_cons_of_mem _ hn)
  refine h.put htied ?_ fun j agentId _ => hopen j agentId
  intro agentId
  rw [hopen, ← h.current, hcurrent]
  rfl

theorem tied_idle {p : Process} (h : p.flight = none) : p.Tied := by
  intro f hf
  rw [h] at hf
  cases hf

theorem closed_spec (p : Process) (agentId sessionId id : Text) :
    (p.sessionClosed agentId sessionId).flight = p.flight ∧
    (p.sessionClosed agentId sessionId).current id =
      if agentId = id ∧ (p.current id).map Info.sessionId = some sessionId then none
      else p.current id := by
  unfold Process.sessionClosed
  cases hget : p.records.get agentId with
  | none =>
    refine ⟨rfl, ?_⟩
    rw [if_neg]
    intro hc
    obtain ⟨rfl, hid⟩ := hc
    simp [Process.current, Process.record, hget, Record.absent] at hid
  | some record =>
    have hcurrent : p.current agentId = record.active := by
      simp [Process.current, Process.record, hget]
    simp only
    cases hactive : record.active with
    | none =>
      refine ⟨rfl, ?_⟩
      rw [if_neg]
      intro hc
      obtain ⟨rfl, hid⟩ := hc
      rw [hcurrent, hactive] at hid
      cases hid
    | some info =>
      simp only
      split
      · next hne =>
        refine ⟨rfl, ?_⟩
        rw [if_neg]
        intro hc
        obtain ⟨rfl, hid⟩ := hc
        rw [hcurrent, hactive] at hid
        cases hid
        exact hne rfl
      next he =>
      refine ⟨rfl, ?_⟩
      rw [Process.current_set]
      by_cases hid : id = agentId
      · subst hid
        rw [if_pos rfl, if_pos]
        refine ⟨rfl, ?_⟩
        rw [hcurrent, hactive]
        simpa using he
      · rw [if_neg hid, if_neg fun hc => hid hc.1.symm]

theorem step (h : w.Shown) (s : Step) : (w.step s).Shown := by
  cases s with
  | begin i info =>
    simp only [World.step]
    split
    · exact h
    next hfree =>
    have hsame := @same w h i ((w.processes i).begin info (watermark w.agents info.agentId)).1
      w.agents [] (by simp)
    rw [append_nil] at hsame
    refine hsame ?_ ?_
    · unfold begin
      split
      · intro f hf
        cases hf
        rfl
      · exact h.tied i
    · intro agentId
      unfold begin
      split <;> rfl
  | closed i agentId sessionId =>
    simp only [World.step]
    split
    · exact h
    next hfree =>
    have hnone : (w.processes i).flight = none := by simpa using hfree
    refine h.put (tied_idle ((closed_spec _ _ _ agentId).1.trans hnone)) ?_ ?_
    · intro id
      rw [(closed_spec _ _ _ id).2, openSession_snoc, ← h.current]
      simp only [Note.opened, true_and]
      rfl
    · intro j id hj
      rw [openSession_snoc]
      simp [Note.opened, hj.symm]
  | advance i now fault =>
    cases hf : (w.processes i).flight with
    | none =>
      rw [step_advance_idle hf]
      exact h
    | some f =>
      obtain ⟨agents, p, outcome, -, hmoved, -, hstep⟩ := step_advance_moved h now fault hf
      rw [hstep]
      cases hmoved with
      | on f' hfollows hopen _ =>
        refine h.same ?_ ?_ fun _ => rfl
        · intro note hnote
          simp only [notes] at hnote
          split at hnote
          · exact ⟨i, f'.info, mem_singleton.mp hnote⟩
          · cases hnote
        · intro g hg
          cases hg
          rw [hfollows.active, hfollows.info]
          exact h.tied i f hf
      | failed _ e hidle hcurrent =>
        refine h.same ?_ (tied_idle hidle) hcurrent
        rw [hidle]
        simp [notes]
      | installed _ hs hidle hcurrent =>
        rw [hidle]
        refine h.put (tied_idle hidle) ?_ ?_
        · intro id
          simp only [notes, openSession_snoc, Note.opened, true_and]
          rw [hcurrent id, ← h.current]
          simp only [eq_comm]
          rfl
        · intro j id hj
          simp only [notes, openSession_snoc, Note.opened]
          rw [if_neg fun hc => hj hc.1.symm]

end Shown

theorem run_sound (steps : List Step) (h : w.Ordered) (hshown : w.Shown) :
    (w.run steps).Ordered ∧ (w.run steps).Shown := by
  induction steps generalizing w with
  | nil => exact ⟨h, hshown⟩
  | cons s steps ih => exact ih (h.step hshown s) (hshown.step s)

end World

/-- Admission of sessions by any number of Servers, for every interleaving of their store calls and
closes and for every failure of a store call.

1. In the order of the store calls that settle them, the incarnations of an Agent never decrease.
2. An accepted session was settled, its incarnation is at most the watermark, and at least the
   watermark at the time of its call: a call with an incarnation below the watermark is refused.
3. Inside one process the accepted incarnations never decrease.
4. `Current` is the last session accepted in the process, if it was not closed since.
5. The close of another session does not detach it. -/
theorem admission_ordered (agents : Agents) (steps : List Step) :
    let w := (World.start agents).run steps
    w.history.Pairwise DecidedInOrder ∧
    (∀ i info floor, .accepted i info floor ∈ w.history →
      .decided i info ∈ w.history ∧ floor ≤ info.incarnation ∧
      info.incarnation ≤ watermark w.agents info.agentId) ∧
    w.history.Pairwise AcceptedInOrder ∧
    (∀ i agentId s, w.current i agentId = some s ↔ LastOpen i agentId w.history s) ∧
    (∀ i agentId s sessionId, w.current i agentId = some s → s.sessionId ≠ sessionId →
      (w.step (.closed i agentId sessionId)).current i agentId = some s) := by
  intro w
  obtain ⟨hordered, hshown⟩ :=
    World.run_sound steps (World.start_ordered agents) (World.start_shown agents)
  refine ⟨hordered.decidedInOrder, ?_, hordered.acceptedInOrder, ?_, ?_⟩
  · intro i info floor haccepted
    obtain ⟨hdecided, hfloor⟩ := hordered.accepted i info floor haccepted
    exact ⟨hdecided, hfloor, hordered.below i info hdecided⟩
  · intro i agentId s
    rw [hshown.current, openSession_iff]
  · intro i agentId s sessionId hs hne
    simp only [World.step]
    split
    · exact hs
    simp only [World.current, World.put, Function.update_self]
    rw [(World.Shown.closed_spec _ _ _ _).2]
    have hcurrent : (w.processes i).current agentId = some s := hs
    rw [hcurrent, if_neg]
    · simpa using hne

def Note.acceptedIncarnation : Note → Option Nat
  | .accepted _ info _ => some info.incarnation
  | _ => none

def knownAgent : Agents :=
  Table.empty.set (text "agent") { restoredRow (text "agent") 0 with lastIncarnation := 5 }

/-- The first process has read the watermark 5 for a session of incarnation 5; before it installs the
session, the second process admits incarnation 6. -/
def overtaken : List Step :=
  [.begin 0 ⟨text "agent", text "session-5", 5⟩, .advance 0 0 .none, .begin 1 ⟨text "agent",
    text "session-6", 6⟩, .advance 1 0 .none, .advance 1 0 .none, .advance 1 0 .none]

/-- Incarnation 5 is accepted behind incarnation 6, and below the watermark. -/
theorem overtaken_decreases :
    watermark ((World.start knownAgent).run overtaken).agents (text "agent") = 6 ∧
    ((World.start knownAgent).run (overtaken ++ [.advance 0 0 .none])).history.filterMap
      Note.acceptedIncarnation = [6, 5] := by
  decide +kernel

end DockLattice.Session
