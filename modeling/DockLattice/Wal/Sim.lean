import DockLattice.Wal.Step

/-!
# DockLattice.Wal.Sim

Every operation of the WAL, run on the state of a well-formed journal, takes steps of that journal
(`Runs`). If the process dies in it, the directory is that of a journal reached by steps, up to a
frame cut off behind the open piece (`Left`).
-/

namespace DockLattice.Wal

open Bytes Effect List Piece

variable {o : Options} {G : Fault → Prop} {W : List DecodedFrame → Prop} {α β : Type}
variable {g : Disk → Disk} {l : Log o} {what : String}

def Faulty (G : Fault → Prop) : Prop := ∃ f, G f ∧ f ≠ .ok

/-- The error of a fault, not of a broken invariant. -/
abbrev IoError (G : Fault → Prop) (e : WalError) : Prop := Faulty G ∧ e.isInvariant = false

/-- The decisions `G` may be taken, and by the time the process dies frames in `W` may have been
written. -/
structure Env (G : Fault → Prop) (W : List DecodedFrame → Prop) : Prop where
  ok : G .ok
  nil : W []

/-! ## The files of a journal -/

section Entries

variable {ps : List (Piece o.maxBytes)} {p q : Piece o.maxBytes} {m : Option Metadata}
  {rs : List (String × OnceReceipt)} {ts : List Nat}

theorem file?_entry (hnd : (ps.map key).Nodup) (hp : p ∈ ps) :
    (Disk.mk (ps.map entry) m rs ts).file? p.key = some p.file := by
  simp only [Disk.file?]
  induction ps with
  | nil => cases hp
  | cons q qs ih =>
    rw [map_cons, nodup_cons] at hnd
    rw [map_cons, find?_cons]
    rcases mem_cons.mp hp with rfl | hp
    · simp [entry]
    have hne : (q.entry.1 == p.key) = false := by
      rw [beq_eq_false_iff_ne]
      intro he
      exact hnd.1 (mem_map.mpr ⟨p, hp, he.symm⟩)
    rw [hne]
    exact ih hnd.2 hp

section

variable (hnd : ((ps ++ [p]).map Piece.key).Nodup)

include hnd

theorem last_key_ne (hq : q ∈ ps) : q.key ≠ p.key := by
  intro he
  rw [map_append] at hnd
  exact (nodup_append.mp hnd).2.2 q.key (mem_map.mpr ⟨q, hq, rfl⟩) p.key (by simp) he

theorem modifyFile_entry {g : SegmentFile → SegmentFile} (hk : q.key = p.key)
    (hg : g p.file = q.file) :
    (Disk.mk ((ps ++ [p]).map entry) m rs ts).modifyFile p.key g =
      Disk.mk ((ps ++ [q]).map entry) m rs ts := by
  simp only [Disk.modifyFile, map_append, map_map, map_cons, map_nil]
  congr 2
  · refine map_congr_left fun r hr => ?_
    simp [entry, last_key_ne hnd hr]
  · simp [entry, hk, hg]

theorem removeFile_entry :
    (Disk.mk ((ps ++ [p]).map entry) m rs ts).removeFile p.key =
      Disk.mk (ps.map entry) m rs ts := by
  simp only [Disk.removeFile, map_append, filter_append]
  congr 1
  rw [filter_eq_self.mpr ?_]
  · simp
  · intro e he
    obtain ⟨r, hr, rfl⟩ := mem_map.mp he
    exact decide_eq_true (last_key_ne hnd hr)

end

end Entries

namespace Log

variable {p : Piece o.maxBytes}

@[simp] theorem wal_segments (l : Log o) : l.wal.segments = l.pieces.map segment := by
  cases h : l.active <;> simp [WAL.segments, wal, pieces, h]

theorem file?_of_mem (h : l.Ok) (hp : p ∈ l.pieces) : l.disk.file? p.key = some p.file :=
  file?_entry h.keys_nodup hp

theorem file?_next (h : l.Ok) (ha : l.active = none) : l.disk.file? l.next = none := by
  have hn := h.next_not_mem ha
  simp only [disk, Disk.file?, Option.map_eq_none_iff, find?_eq_none, mem_map, beq_iff_eq] at *
  rintro e ⟨p, hp, rfl⟩ he
  exact hn ⟨p, hp, he⟩

theorem disk_create (ha : l.active = none) (now : Instant) :
    l.disk.addFile l.next = ({ l with active := some (.fresh l.next now) } : Log o).disk := by
  simp [disk, Disk.addFile, pieces, ha, entry, fresh, file, content]

theorem disk_modify (h : l.Ok) (ha : l.active = some p) {q : Piece o.maxBytes}
    {g : SegmentFile → SegmentFile} (hk : q.key = p.key) (hg : g p.file = q.file) :
    l.disk.modifyFile p.key g = ({ l with active := some q } : Log o).disk := by
  have hnd := h.keys_nodup
  simp only [pieces, ha, Option.toList_some] at hnd
  simpa only [disk, pieces, ha, Option.toList_some] using modifyFile_entry hnd hk hg

theorem disk_unlink (h : l.Ok) {rest : List (Piece o.maxBytes)} (hs : l.sealed = p :: rest) :
    l.disk.removeFile p.key = ({ l with sealed := rest } : Log o).disk := by
  have hnd := h.keys_nodup
  simp only [pieces, hs, cons_append, map_cons, nodup_cons] at hnd
  simp only [disk, Disk.removeFile, pieces, hs, cons_append, map_cons]
  congr 1
  rw [filter_cons_of_neg (by simp)]
  refine filter_eq_self.mpr fun e he => ?_
  obtain ⟨q, hq, rfl⟩ := mem_map.mp he
  exact decide_eq_true fun hk => hnd.1 (mem_map.mpr ⟨q, hq, hk⟩)

end Log

/-! ## Running a program on a journal -/

def Left (W : List DecodedFrame → Prop) (l : Log o) (d : Disk) : Prop :=
  ∃ new l', W new ∧ Steps l new l' ∧
    (d = l'.disk ∨ ∃ p tail, ∃ h : Torn o.maxBytes tail, l'.active = some p ∧
      d = ({ l' with active := some (p.withTail tail h) } : Log o).disk)

theorem Left.of_steps {m : Log o} {new : List DecodedFrame} (hw : W new) (h : Steps l new m) :
    Left W l m.disk := ⟨new, m, hw, h, .inl rfl⟩

theorem Left.trans {l' : Log o} {new : List DecodedFrame} {d : Disk} (h : Steps l new l')
    (hd : Left (fun n => W (new ++ n)) l' d) : Left W l d := by
  obtain ⟨new', l'', hw, hs, hd⟩ := hd
  exact ⟨_, l'', hw, h.trans hs, hd⟩

def Runs (G : Fault → Prop) (W : List DecodedFrame → Prop) (l : Log o) (p : WalProg α)
    (Q : α → List DecodedFrame → Log o → Prop) (E : WalError → List DecodedFrame → Log o → Prop) :
    Prop :=
  Spec G (fun s => s = l.toState) p
    (fun a s => ∃ new l', Steps l new l' ∧ Q a new l' ∧ s = l'.toState)
    (fun e s => ∃ new l', Steps l new l' ∧ E e new l' ∧ s = l'.toState)
    (fun s => Left W l s.disk)

namespace Runs

variable {l' : Log o} {p : WalProg α} {k : α → WalProg β} {new : List DecodedFrame}
  {Q S : α → List DecodedFrame → Log o → Prop} {R : β → List DecodedFrame → Log o → Prop}
  {E E' : WalError → List DecodedFrame → Log o → Prop}

theorem weaken (h : Runs G W l p Q E) (hQ : ∀ a n m, Steps l n m → Q a n m → S a n m)
    (hE : ∀ e n m, Steps l n m → E e n m → E' e n m) : Runs G W l p S E' :=
  Spec.weaken h (fun _ h => h)
    (fun a _ ⟨n, m, hs, hq, he⟩ => ⟨n, m, hs, hQ a n m hs hq, he⟩)
    (fun e _ ⟨n, m, hs, hq, he⟩ => ⟨n, m, hs, hE e n m hs hq, he⟩) (fun _ h => h)

theorem failing (h : Runs G W l p Q E) (hE : ∀ e n m, Steps l n m → E e n m → E' e n m) :
    Runs G W l p Q E' := h.weaken (fun _ _ _ _ hq => hq) hE

theorem lift (hs : Steps l new l')
    (h : Runs G (fun n => W (new ++ n)) l' p (fun a n m => Q a (new ++ n) m)
      (fun e n m => E e (new ++ n) m)) :
    Spec G (fun s => s = l'.toState) p
      (fun a s => ∃ n m, Steps l n m ∧ Q a n m ∧ s = m.toState)
      (fun e s => ∃ n m, Steps l n m ∧ E e n m ∧ s = m.toState) (fun s => Left W l s.disk) :=
  Spec.weaken h (fun _ h => h)
    (fun _ _ ⟨n, m, hn, hq, he⟩ => ⟨new ++ n, m, hs.trans hn, hq, he⟩)
    (fun _ _ ⟨n, m, hn, hq, he⟩ => ⟨new ++ n, m, hs.trans hn, hq, he⟩)
    (fun _ h => Left.trans hs h)

theorem pure {a : α} (h : Q a [] l) : Runs G W l (Prog.pure a) Q E :=
  Spec.ret fun _ hs => ⟨[], l, .refl l, h, hs⟩

theorem throw {e : WalError} (h : E e [] l) : Runs G W l (Prog.throw e : WalProg α) Q E :=
  Spec.throw fun _ hs => ⟨[], l, .refl l, h, hs⟩

theorem bind (hp : Runs G W l p Q E)
    (hk : ∀ a n m, Steps l n m → Q a n m →
      Runs G (fun n' => W (n ++ n')) m (k a) (fun b n' => R b (n ++ n'))
        (fun e n' => E e (n ++ n'))) :
    Runs G W l (Prog.bind p k) R E := by
  refine Spec.bind hp fun a => Spec.of_state ?_
  rintro _ ⟨n, m, hs, hq, rfl⟩
  exact lift hs (hk a n m hs hq)

theorem get {k : State → WalProg β} (h : Runs G W l (k l.toState) R E) :
    Runs G W l (Prog.bind Prog.get k) R E :=
  Spec.read h

theorem modify {f : State → State} {Q : Unit → List DecodedFrame → Log o → Prop}
    (hs : Steps l new l') (hf : f l.toState = l'.toState) (hq : Q () new l') :
    Runs G W l (Prog.modify f) Q E :=
  Spec.modify fun s h => ⟨new, l', hs, hq, by rw [h, hf]⟩

theorem attempt {handler : WalError → WalProg α} (hp : Runs G W l p Q E)
    (hh : ∀ e n m, Steps l n m → E e n m →
      Runs G (fun n' => W (n ++ n')) m (handler e) (fun a n' => Q a (n ++ n'))
        (fun e n' => E' e (n ++ n'))) :
    Runs G W l (Prog.attempt p handler) Q E' := by
  refine Spec.attempt hp fun e => Spec.of_state ?_
  rintro _ ⟨n, m, hs, hq, rfl⟩
  exact lift hs (hh e n m hs hq)

theorem wrapping {context : String}
    (h : Runs G W l p Q fun e => E (.wrapped context e)) : Runs G W l (Wal.wrapping context p) Q E :=
  attempt h fun e n m _ he => throw (by simpa using he)

theorem when {c : Prop} [Decidable c] {p : WalProg Unit}
    {Q : Unit → List DecodedFrame → Log o → Prop} (h1 : c → Runs G W l p Q E)
    (h2 : ¬ c → Q () [] l) : Runs G W l (Prog.when c p) Q E := by
  unfold Prog.when
  split
  · rename_i hc; exact h1 hc
  · rename_i hc; exact pure (h2 hc)

end Runs

/-! ## The durable effects -/

theorem atomically_spec {s₀ : State} {d : Disk} {E : WalError → State → Prop}
    {C : State → Prop} (hok : G .ok) (hd : g s₀.disk = d) (hE : ∀ e, IoError G e → E e s₀)
    (hs : C s₀) (hC : C ⟨d, s₀.wal⟩) :
    Spec G (fun s => s = s₀) (atomically what g) (fun _ s => s = ⟨d, s₀.wal⟩) E C := by
  subst hd
  refine Spec.effect hok ?_
  rintro f s hf rfl
  cases f with
  | ok | late | torn => rfl
  | fail => exact hE _ ⟨⟨_, hf, by simp⟩, rfl⟩
  | crash k =>
    cases k with
    | zero => exact ⟨hs, _, hf⟩
    | succ k => exact ⟨hC, _, hf⟩

theorem Runs.atomically {m : Log o} (hok : Env G W) (hs : Steps l [] m) (hd : g l.disk = m.disk)
    (hw : m.wal = l.wal) :
    Runs G W l (Wal.atomically what g) (fun _ n k => n = [] ∧ k = m)
      (fun e n k => n = [] ∧ k = l ∧ IoError G e) := by
  refine (atomically_spec hok.ok hd (fun e he => ⟨[], l, .refl l, ⟨rfl, rfl, he⟩, rfl⟩)
    (Left.of_steps hok.nil (.refl l)) (Left.of_steps hok.nil hs)).post ?_
  rintro _ s rfl
  exact ⟨[], m, hs, ⟨rfl, rfl⟩, by rw [Log.toState, Log.toState, hw]⟩

theorem Runs.touch (hok : Env G W) :
    Runs G W l (Wal.touch what) (fun _ n m => n = [] ∧ m = l)
      (fun e n m => n = [] ∧ m = l ∧ IoError G e) :=
  Runs.atomically hok (.refl l) rfl rfl

theorem replaceFile_spec (hok : G .ok) (s₀ : State) :
    Spec G (fun s => s = s₀) (replaceFile what g) (fun _ s => s = s₀.onDisk g)
      (fun e s => (s = s₀ ∨ s = s₀.onDisk g) ∧ Faulty G ∧ e = .io what)
      (fun s => s = s₀ ∨ s = s₀.onDisk g ∨
        ∃ n, s = s₀.onDisk fun d => { d with temps := d.temps ++ [n] }) := by
  refine Spec.effect hok ?_
  rintro f s hf rfl
  cases f with
  | ok | torn => rfl
  | late => exact ⟨.inr rfl, ⟨_, hf, by simp⟩, rfl⟩
  | fail => exact ⟨.inl rfl, ⟨_, hf, by simp⟩, rfl⟩
  | crash k =>
    match k with
    | 0 => exact ⟨.inl rfl, _, hf⟩
    | 1 => exact ⟨.inr (.inl rfl), _, hf⟩
    | n + 2 => exact ⟨.inr (.inr ⟨n, rfl⟩), _, hf⟩

/-! ## Saving metadata -/

theorem validateMetadata_error {m : Metadata} (h : ¬ m.Valid) :
    ∃ e, validateMetadata m = .error e ∧ e.isInvariant = true := by
  rw [← validateMetadata_ok] at h
  cases hv : validateMetadata m with
  | ok u => cases u; exact absurd hv h
  | error e =>
    refine ⟨e, rfl, ?_⟩
    unfold validateMetadata at hv
    split at hv
    · cases hv; rfl
    · cases hv

theorem saveMetadata_spec {m : Metadata} (hok : G .ok) (s₀ : State) :
    Spec G (fun s => s = s₀) (saveMetadata m)
      (fun _ s => m.Valid ∧ s = s₀.onDisk fun d => { d with metadata := some m })
      (fun e s => (m.Valid ∧ Faulty G ∧ e.isInvariant = false ∧
          (s = s₀ ∨ s = s₀.onDisk fun d => { d with metadata := some m })) ∨
        (¬ m.Valid ∧ e.isInvariant = true ∧ s = s₀))
      (fun s => s = s₀ ∨ (m.Valid ∧ s = s₀.onDisk fun d => { d with metadata := some m }) ∨
        ∃ n, s = s₀.onDisk fun d => { d with temps := d.temps ++ [n] }) := by
  unfold saveMetadata
  by_cases hv : m.Valid
  · rw [validateMetadata_ok.mpr hv]
    refine (replaceFile_spec hok s₀).weaken (fun _ h => h) ?_ ?_ ?_
    · rintro _ s rfl; exact ⟨hv, rfl⟩
    · rintro e s ⟨hs, hf, rfl⟩; exact .inl ⟨hv, hf, rfl, hs⟩
    · rintro s (rfl | rfl | hs)
      · exact .inl rfl
      · exact .inr (.inl ⟨hv, rfl⟩)
      · exact .inr (.inr hs)
  · obtain ⟨e, he, hi⟩ := validateMetadata_error hv
    rw [he]
    exact Spec.throw fun s hs => .inr ⟨hv, hi, hs⟩

namespace Log

def withSaved (l : Log o) (m : Metadata) : Log o := { l with saved := some m }

def withMetadata (l : Log o) (m : Metadata) : Log o := { l with metadata := m }

end Log

theorem updateMetadata_spec {m d : Metadata} {save : WalProg Unit} (wrap : WalError → WalError)
    (hok : G .ok) (hsave : ∀ w, w.st = (l.withMetadata m).toState → save w = saveMetadata d w)
    (hwrap : ∀ e, (wrap e).isInvariant = e.isInvariant) :
    Spec G (fun s => s = l.toState) (updateMetadata m save wrap)
      (fun _ s => d.Valid ∧ s = ((l.withSaved d).withMetadata m).toState)
      (fun e s => (d.Valid ∧ Faulty G ∧ e.isInvariant = false ∧
          (s = l.toState ∨ s = (l.withSaved d).toState)) ∨
        (¬ d.Valid ∧ e.isInvariant = true ∧ s = l.toState))
      (fun s => s.disk = l.disk ∨ (d.Valid ∧ s.disk = (l.withSaved d).disk) ∨
        ∃ n, s.disk = ({ l with temps := l.temps ++ [n] } : Log o).disk) := by
  have hsaving : Spec G (fun s => s = (l.withMetadata m).toState) save _ _ _ := fun w hw hg => by
    rw [hsave w hw]; exact saveMetadata_spec hok (l.withMetadata m).toState w hw hg
  unfold updateMetadata
  refine Spec.read ?_
  refine Spec.bind (Q := fun _ s => s = (l.withMetadata m).toState)
    (Spec.modify fun s hs => by rw [hs]; rfl) fun _ => ?_
  refine Spec.attempt (hsaving.weaken (fun _ h => h) ?_ (fun _ _ h => h) ?_) fun e => ?_
  · rintro _ s ⟨hv, rfl⟩; exact ⟨hv, rfl⟩
  · rintro s (rfl | ⟨hv, rfl⟩ | ⟨n, rfl⟩)
    · exact .inl rfl
    · exact .inr (.inl ⟨hv, rfl⟩)
    · exact .inr (.inr ⟨n, rfl⟩)
  · -- the handler puts the old metadata back
    refine Spec.bind (Spec.modify ?_) fun _ => Spec.throw fun _ hs => hs
    rw [hwrap]
    rintro s (⟨hv, hf, hi, rfl | rfl⟩ | ⟨hv, hi, rfl⟩)
    · exact .inl ⟨hv, hf, hi, .inl rfl⟩
    · exact .inl ⟨hv, hf, hi, .inr rfl⟩
    · exact .inr ⟨hv, hi, rfl⟩

theorem Runs.update {m d : Metadata} {save : WalProg Unit} (wrap : WalError → WalError)
    (hok : Env G W) (hsave : ∀ w, w.st = (l.withMetadata m).toState → save w = saveMetadata d w)
    (hwrap : ∀ e, (wrap e).isInvariant = e.isInvariant) (hp : Proposes l d)
    (hadopt : d.Valid → Step (l.withSaved d) [] ((l.withSaved d).withMetadata m)) :
    Runs G W l (updateMetadata m save wrap)
      (fun _ n k => n = [] ∧ d.Valid ∧ k = (l.withSaved d).withMetadata m)
      (fun e n k => n = [] ∧ ((d.Valid ∧ Faulty G ∧ e.isInvariant = false ∧
          (k = l ∨ k = l.withSaved d)) ∨ (¬ d.Valid ∧ e.isInvariant = true ∧ k = l))) := by
  have hsaved : d.Valid → Steps l [] (l.withSaved d) := fun hv => .single (.save hp hv)
  refine (updateMetadata_spec wrap hok.ok hsave hwrap).weaken (fun _ h => h) ?_ ?_ ?_
  · rintro _ s ⟨hv, rfl⟩
    exact ⟨[], _, (hsaved hv).snoc (hadopt hv), ⟨rfl, hv, rfl⟩, rfl⟩
  · rintro e s (⟨hv, hf, hi, rfl | rfl⟩ | ⟨hv, hi, rfl⟩)
    · exact ⟨[], l, .refl l, ⟨rfl, .inl ⟨hv, hf, hi, .inl rfl⟩⟩, rfl⟩
    · exact ⟨[], _, hsaved hv, ⟨rfl, .inl ⟨hv, hf, hi, .inr rfl⟩⟩, rfl⟩
    · exact ⟨[], l, .refl l, ⟨rfl, .inr ⟨hv, hi, rfl⟩⟩, rfl⟩
  · rintro s (hs | ⟨hv, hs⟩ | ⟨n, hs⟩)
    · rw [hs]; exact Left.of_steps hok.nil (.refl l)
    · rw [hs]; exact Left.of_steps hok.nil (hsaved hv)
    · rw [hs]; exact Left.of_steps hok.nil (.single (.temps _))

end DockLattice.Wal
