import DockLattice.Audit.Deliver

/-!
# DockLattice.Audit.Replay

When the terminal audits of an engine can all be delivered.

An audit is built from texts of the request that were checked by other rules than those of the audit
codec. `Deliverable` is what is missing; for accepted requests it is exactly the condition under
which the audit can be delivered however the operation ends.
-/

namespace DockLattice.Audit

open Bytes Operation List

variable {now : Time} {slots : List Slot}

/-! ## The engine -/

structure EngineOk (a : Auditor) (n : Nat) (e : Engine) : Prop where
  slots : ∀ s ∈ e.slots, SlotOk a n e.receipts s
  nodup : (e.slots.map Slot.id).Nodup

section Lists

variable {a : Auditor} {c : Config} {n : Nat} {receipts : Receipts}

theorem map_id_forget (slots : List Slot) :
    (slots.map Slot.forget).map Slot.id = slots.map Slot.id := by
  rw [map_map]
  rfl

theorem forget_all (h : ∀ s ∈ slots, SlotOk a n receipts s) :
    ∀ s ∈ slots.map Slot.forget, SlotOk a n receipts s := by
  intro s hs
  obtain ⟨t, ht, rfl⟩ := mem_map.mp hs
  exact (h t ht).forget

theorem mem_putSlot {s t : Slot} (h : t ∈ putSlot s slots) : t = s ∨ t ∈ slots := by
  induction slots with
  | nil => exact .inl (mem_singleton.mp h)
  | cons x slots ih =>
    unfold putSlot at h
    split at h
    · rcases mem_cons.mp h with rfl | h
      · exact .inl rfl
      · exact .inr (mem_cons_of_mem _ h)
    · rcases mem_cons.mp h with rfl | h
      · exact .inr mem_cons_self
      · exact (ih h).imp_right (mem_cons_of_mem _)

theorem nodup_putSlot {s : Slot} (h : (slots.map Slot.id).Nodup) :
    ((putSlot s slots).map Slot.id).Nodup := by
  induction slots with
  | nil => simp [putSlot]
  | cons x slots ih =>
    obtain ⟨hx, hrest⟩ := nodup_cons.mp h
    unfold putSlot
    split
    · next heq =>
      rw [map_cons]
      exact nodup_cons.mpr ⟨heq ▸ hx, hrest⟩
    · next hne =>
      rw [map_cons]
      refine nodup_cons.mpr ⟨fun hmem => ?_, ih hrest⟩
      obtain ⟨y, hy, hyx⟩ := mem_map.mp hmem
      rcases mem_putSlot hy with rfl | hy
      · exact hne hyx.symm
      · exact hx (hyx ▸ mem_map_of_mem hy)

theorem map_id_updateSlot (id : Text) (f : Item → Item) (slots : List Slot) :
    (updateSlot id f slots).map Slot.id = slots.map Slot.id := by
  unfold updateSlot
  rw [map_map]
  refine map_congr_left fun s _ => ?_
  simp only [Function.comp_apply]
  split <;> rfl

theorem recoverAll_ok (hnow : Writable now) (fates : Text → Fate)
    (h : ∀ s ∈ slots, SlotOk a n receipts s) :
    (∀ s ∈ (recoverAll c now fates slots).1, SlotOk a (n + 1) receipts s) ∧
      (recoverAll c now fates slots).1.map Slot.id = slots.map Slot.id ∧
      ((∀ id, fates id = .ok) → (recoverAll c now fates slots).2 = true) := by
  induction slots with
  | nil => exact ⟨fun s hs => (nomatch hs), rfl, fun _ => rfl⟩
  | cons s slots ih =>
    obtain ⟨ih₁, ih₂, ih₃⟩ := ih fun t ht => h t (mem_cons_of_mem _ ht)
    obtain ⟨hhead, hdone⟩ := recover_ok (c := c) (h s mem_cons_self) hnow (fates s.id)
    unfold recoverAll
    cases hr : s.item.recover c now (fates s.id) with
    | mk it ok =>
      rw [hr] at hhead hdone
      cases ok with
      | true =>
        refine ⟨fun t ht => ?_, by simp [ih₂], ih₃⟩
        rcases mem_cons.mp ht with rfl | ht
        · exact hhead
        · exact ih₁ t ht
      | false =>
        refine ⟨fun t ht => ?_, rfl, fun hf => (nomatch hdone (hf s.id))⟩
        rcases mem_cons.mp ht with rfl | ht
        · exact hhead
        · exact (h t (mem_cons_of_mem _ ht)).weaken

theorem replay_ok (hn : n < 2 ^ 64) (fates : Text → Fate) {receipts : Receipts}
    (h : ∀ s ∈ slots, SlotOk a n receipts s) (hnodup : (slots.map Slot.id).Nodup) :
    (∀ s ∈ (replay a c fates receipts slots).1,
        SlotOk a (n + 1) (replay a c fates receipts slots).2.1 s) ∧
      (replay a c fates receipts slots).1.map Slot.id = slots.map Slot.id ∧
      (∀ key, (∀ s ∈ slots, key ≠ managedOnceKey s.id) →
        (replay a c fates receipts slots).2.1 key = receipts key) ∧
      ((∀ id, fates id = .ok) → (replay a c fates receipts slots).2.2 = true) := by
  induction slots generalizing receipts with
  | nil => exact ⟨fun s hs => (nomatch hs), rfl, fun _ _ => rfl, fun _ => rfl⟩
  | cons s slots ih =>
    obtain ⟨hnotin, hnodup⟩ := nodup_cons.mp hnodup
    obtain ⟨hhead, hother, hdone⟩ := deliverTerminalAudit_ok (c := c) (h s mem_cons_self) hn
      (fates s.id) .never
    -- The other operations have other keys, so the first delivery leaves their receipts alone.
    have hne : ∀ t ∈ slots, managedOnceKey t.id ≠ managedOnceKey s.id := by
      intro t ht heq
      exact hnotin (managedOnceKey_inj.mp heq ▸ mem_map_of_mem ht)
    have hrest : ∀ t ∈ slots, SlotOk a n
        (deliverTerminalAudit a c s.item receipts (fates s.id) .never).receipts t :=
      fun t ht => (h t (mem_cons_of_mem _ ht)).frame (hother _ (hne t ht))
    obtain ⟨ih₁, ih₂, ih₃, ih₄⟩ := ih hrest hnodup
    unfold replay
    refine ⟨fun t ht => ?_, by simp [ih₂], fun key hkey => ?_, fun hf => ?_⟩
    · rcases mem_cons.mp ht with rfl | ht
      · exact hhead.frame (ih₃ _ fun t ht heq => hne t ht heq.symm)
      · exact ih₁ t ht
    · have hk := ih₃ key fun t ht => hkey t (mem_cons_of_mem _ ht)
      exact hk.trans (hother key (hkey s mem_cons_self))
    · simp only [Bool.and_eq_true]
      exact ⟨(hdone (hf s.id) rfl).1, ih₄ hf⟩

end Lists

/-! ## Steps of the engine -/

/-- What the texts of a request have to satisfy beyond the Agent's own checks. -/
structure Deliverable (spec : Spec) : Prop where
  utf8 : Utf8.valid spec.operationId = true
  clean : ∀ b ∈ spec.operationId, b ≠ 0 ∧ b ≠ 0x0D ∧ b ≠ 0x0A
  target : spec.kind.isContainerOperation = true → spec.target ≠ [] →
    validText spec.target maxResourceId false = true

theorem hexDigest_validText {s : Text} (h : hexDigest s = true) (m : Nat) (hm : 64 ≤ m) (e : Bool) :
    validText s m e = true := by
  obtain ⟨hlen, hbytes⟩ := hexDigest_ascii h
  rw [validText_iff]
  refine ⟨.inr ?_, by omega, Utf8.valid_of_ascii fun b hb => ?_, fun h0 => ?_⟩
  · intro hnil
    rw [hnil] at hlen
    cases hlen
  · exact UInt8.le_trans (hbytes b hb).2 (by decide)
  · exact absurd (hbytes 0 h0).1 (by decide)

theorem kind_cases (k : Kind) : k.isContainerOperation = true ∨ k = .discoveryRescan ∨
    (k.isContainerOperation = false ∧ (k == .discoveryRescan) = false ∧
      k.isManagedProjectOperation = true) := by
  cases k <;> decide

theorem auditable_iff {b : Boundary} {request : Request} {spec : Spec}
    (h : Started b request spec) {r : Record} (hr : r.spec = spec) :
    (Auditable r ∧ validOnceKey (managedOnceKey r.operationId) = true) ↔ Deliverable spec := by
  subst hr
  have hop : r.operationId = request.operationId := h.operationId
  have hlen : r.operationId.length ≤ maxOperationId := by rw [hop]; exact h.operationId_le
  have hne : r.operationId ≠ [] := by rw [hop]; exact h.operationId_ne
  rw [validOnceKey_iff hlen]
  constructor
  · intro hall
    obtain ⟨haud, hutf8, hclean⟩ := hall
    refine ⟨hutf8, hclean, fun hc ht => ?_⟩
    have hres := haud.resourceId
    rw [resourceFor_container hc ht] at hres
    exact hres
  intro hd
  have hopText : ∀ m, maxOperationId ≤ m → validText r.operationId m false = true := by
    intro m hm
    rw [validText_iff]
    exact ⟨.inr hne, Nat.le_trans hlen hm, hd.utf8, fun h0 => (hd.clean 0 h0).1 rfl⟩
  have hnil : validText [] maxProjectUid true = true := by decide
  suffices h : validText (resourceFor r).1.2 maxResourceId false = true ∧
      validText (resourceFor r).2 maxProjectUid true = true from
    ⟨⟨hopText _ (Nat.le_refl _), h.1, h.2⟩, hd.utf8, hd.clean⟩
  rcases kind_cases r.kind with hc | hk | ⟨hc, hk, hm⟩
  · by_cases ht : r.target = []
    · rw [resourceFor_container_nil hc ht]
      exact ⟨hopText _ (by decide), hnil⟩
    · rw [resourceFor_container hc ht]
      exact ⟨hd.target hc ht, hnil⟩
  · rw [resourceFor_rescan hk]
    exact ⟨by decide +kernel, hnil⟩
  have hkey : r.projectKey = request.projectKey := by
    have hp : r.projectKey = storedProjectKey r.kind request := h.projectKey
    rw [hp, storedProjectKey, hc]
    rfl
  have hhex : hexDigest r.projectKey = true := by
    rw [hkey]
    exact b.project_hex _ (h.managed hm)
  have hp : r.projectKey ≠ [] := by
    intro hnil
    rw [hnil] at hhex
    cases hhex
  rw [resourceFor_project hc hk hp]
  exact ⟨hexDigest_validText hhex _ (by decide) _, hexDigest_validText hhex _ (by decide) _⟩

section Steps

variable {a : Auditor} {b : Boundary} {c : Config} {n : Nat} {e : Engine}

theorem EngineOk.weaken (h : EngineOk a n e) : EngineOk a (n + 1) e :=
  ⟨fun s hs => (h.slots s hs).weaken, h.nodup⟩

theorem EngineOk.down (h : EngineOk a n e) : EngineOk a n e.down :=
  ⟨forget_all h.slots, by rw [Engine.down, map_id_forget]; exact h.nodup⟩

theorem EngineOk.insert {request : Request} {spec : Spec} {fate : Fate} {output : Option Output}
    (h : EngineOk a (n + 1) e) (hs : Started b request spec) (hd : Deliverable spec)
    (hfree : e.receipts (managedOnceKey spec.operationId) = none) :
    EngineOk a (n + 1) (e.insert spec now fate output) := by
  unfold Engine.insert
  dsimp only
  split
  · next hstorable =>
    obtain ⟨haud, hkey⟩ := (auditable_iff hs (r := newRecord spec now) rfl).mpr hd
    have hrec : RecordOk (n + 1) spec.operationId (newRecord spec now) :=
      ⟨rfl, haud, hkey, hstorable, .inl rfl, Nat.le_add_left 1 n⟩
    have hslot : ∀ memory, (memory = none ∨ memory = some ⟨newRecord spec now, false⟩) →
        SlotOk a (n + 1) e.receipts
          ⟨spec.operationId, memory, (newRecord spec now).journaled, output⟩ := by
      intro memory hmem
      refine ⟨hrec.journaled, fun o ho => ?_, fun o ho ht => ?_, fun digest hdg => ?_⟩
      · rcases hmem with rfl | rfl
        · cases ho
        · cases ho; exact hrec
      · rcases hmem with rfl | rfl
        · cases ho
        · cases ho; cases ht
      · rw [hfree] at hdg
        cases hdg
    have hput : ∀ s, SlotOk a (n + 1) e.receipts s →
        EngineOk a (n + 1) { e with slots := putSlot s e.slots } := by
      intro s hs
      refine ⟨fun t ht => ?_, nodup_putSlot h.nodup⟩
      rcases mem_putSlot ht with rfl | ht
      · exact hs
      · exact h.slots t ht
    cases fate with
    | ok => exact hput _ (hslot _ (.inr rfl))
    | failed => exact h
    | replaced => exact hput _ (hslot _ (.inl rfl))
  · exact h

theorem EngineOk.deliver (h : EngineOk a n e) (hn : n < 2 ^ 64) (id : Text) (fate : Fate)
    (stop : Stop) : EngineOk a (n + 1) (e.deliver a c id fate stop) := by
  unfold Engine.deliver
  split
  · exact h.weaken
  next s hs =>
  have hmem : s ∈ e.slots := mem_of_find?_eq_some hs
  have hid : s.id = id := by simpa using find?_some hs
  have hd := deliverTerminalAudit_ok (c := c) (h.slots s hmem) hn fate stop
  refine ⟨fun t ht => ?_, ?_⟩
  · obtain ⟨x, hx, rfl⟩ := mem_map.mp ht
    split
    · next hxid =>
      -- Identifiers are used once, so the updated slot is the delivered one.
      have hslot := hd.slot
      rw [show ({ x with item := _ } : Slot) = { s with item := _ } by rw [Slot.mk.injEq]; exact
        ⟨hxid.trans hid.symm, rfl⟩]
      exact hslot
    · next hxid =>
      refine ((h.slots x hx).frame (hd.other _ fun heq => hxid ?_)).weaken
      exact (managedOnceKey_inj.mp heq).trans hid
  · dsimp only
    rw [map_id_updateSlot]
    exact h.nodup

theorem EngineOk.boot (h : EngineOk a n e) (hn : n + 1 < 2 ^ 64) (hnow : Writable now)
    (fates : Text → Fate) (evicted : List Text) (audits : Text → Fate) :
    EngineOk a (n + 2) (e.boot a c now fates evicted audits) ∧
      ((∀ id, fates id = .ok) → (∀ id, audits id = .ok) →
        (e.boot a c now fates evicted audits).up = true) := by
  have hforget := h.down
  have hload : (e.slots.map Slot.forget).any (fun s => s.item.file.operationId != s.id) = false := by
    rw [any_eq_false]
    intro s hs
    have := (hforget.slots s hs).file.operationId
    simp [this]
  obtain ⟨hrec, hrecIds, hrecOk⟩ := recoverAll_ok (c := c) hnow fates hforget.slots
  have hids : ((recoverAll c now fates (e.slots.map Slot.forget)).1.map Slot.id).Nodup := by
    exact hrecIds ▸ hforget.nodup
  unfold Engine.boot
  simp only [hload, Bool.false_eq_true, if_false]
  change (∀ s ∈ (recoverAll c now fates (e.slots.map Slot.forget)).1, _) at hrec
  change _ → (recoverAll c now fates (e.slots.map Slot.forget)).2 = true at hrecOk
  cases hr : recoverAll c now fates (e.slots.map Slot.forget) with
  | mk slots ok =>
    rw [hr] at hrec hrecOk hids
    cases ok with
    | false =>
      refine ⟨⟨fun s hs => (forget_all hrec s hs).weaken, ?_⟩, fun hf _ => (nomatch hrecOk hf)⟩
      rw [map_id_forget]
      exact hids
    | true =>
      dsimp only
      have hkept : ∀ s ∈ slots.filter (fun s => !(evicted.contains s.id && evictable s.item)),
          SlotOk a (n + 1) e.receipts s := fun s hs => hrec s (mem_of_mem_filter hs)
      have hkeptIds : ((slots.filter fun s => !(evicted.contains s.id && evictable s.item)).map
          Slot.id).Nodup := hids.sublist (filter_sublist.map _)
      obtain ⟨hrep, hrepIds, -, hrepOk⟩ := replay_ok (c := c) hn audits hkept hkeptIds
      cases hp : replay a c audits e.receipts
          (slots.filter fun s => !(evicted.contains s.id && evictable s.item)) with
      | mk slots' rest =>
        obtain ⟨receipts, ok⟩ := rest
        rw [hp] at hrep hrepIds hrepOk
        have hnodup : (slots'.map Slot.id).Nodup := hrepIds ▸ hkeptIds
        cases ok with
        | true => exact ⟨⟨hrep, hnodup⟩, fun _ _ => rfl⟩
        | false =>
          refine ⟨⟨forget_all hrep, ?_⟩, fun _ hf => (nomatch hrepOk hf)⟩
          rw [map_id_forget]
          exact hnodup

/-! ## Runs -/

/-- The requests that are accepted are deliverable and find no receipt of an earlier use of their
operation ID, and the clock can be written. -/
def CleanStep (b : Boundary) (e : Engine) : EngineEvent → Prop
  | .start request _ _ => ∀ spec, startOperation b request = .ok spec → Deliverable spec ∧
      ((∀ s, findSlot spec.operationId e.slots = some s → s.item.memory = none) →
        e.receipts (managedOnceKey spec.operationId) = none)
  | .operation _ event => ∀ t ∈ event.readings, Json.writableTime t = true
  | .boot now _ _ _ => Writable now
  | .deliver _ _ _ | .evict _ | .crash => True

def CleanRun (a : Auditor) (b : Boundary) (c : Config) : Engine → List EngineEvent → Prop
  | _, [] => True
  | e, event :: events => CleanStep b e event ∧ CleanRun a b c (e.step a b c event) events

theorem EngineOk.step {event : EngineEvent} (h : EngineOk a (n + 1) e) (hn : n + 2 < 2 ^ 64)
    (hc : CleanStep b e event) : EngineOk a (n + 3) (e.step a b c event) := by
  cases event with
  | start request now fate =>
    simp only [Engine.step]
    split
    · unfold Engine.start
      split
      · exact h.weaken.weaken
      next spec hspec =>
      obtain ⟨hd, hfree⟩ := hc spec hspec
      have hs := startOperation_ok hspec
      split
      · next hnone =>
        have hfree := hfree fun s hs => (nomatch hnone.symm.trans hs)
        exact (h.insert hs hd hfree).weaken.weaken
      next s hfound =>
      split
      · exact h.weaken.weaken
      next hdown =>
      have hfree := hfree fun t ht => by
        rw [← Option.some.inj (hfound.symm.trans ht)]
        simpa using hdown
      exact (h.insert hs hd hfree).weaken.weaken
    · exact h.weaken.weaken
  | operation id event =>
    simp only [Engine.step]
    split
    · next hup =>
      simp only [Bool.and_eq_true, Bool.not_eq_true'] at hup
      refine ⟨fun t ht => ?_, by rw [map_id_updateSlot]; exact h.nodup⟩
      obtain ⟨s, hs, rfl⟩ := mem_map.mp ht
      split
      · refine ((h.slots s hs).operation (fun _ _ _ he => ?_) hc).weaken
        subst he
        cases hup.2
      · exact (h.slots s hs).weaken.weaken
    · exact h.weaken.weaken
  | deliver id fate stop =>
    simp only [Engine.step]
    split
    · exact (h.deliver (by omega) id fate stop).weaken
    · exact h.weaken.weaken
  | evict id =>
    simp only [Engine.step]
    split
    · refine ⟨fun s hs => (h.slots s (mem_of_mem_filter hs)).weaken.weaken, ?_⟩
      exact h.nodup.sublist (filter_sublist.map _)
    · exact h.weaken.weaken
  | crash => exact h.down.weaken.weaken
  | boot now fates evicted audits => exact (h.boot hn hc fates evicted audits).1

theorem EngineOk.run (events : List EngineEvent) (h : EngineOk a (n + 1) e)
    (hn : n + 1 + 2 * events.length < 2 ^ 64) (hc : CleanRun a b c e events) :
    EngineOk a (n + 1 + 2 * events.length) (e.run a b c events) := by
  induction events generalizing e n with
  | nil => exact h
  | cons event events ih =>
    rw [length_cons] at hn ⊢
    rw [show n + 1 + 2 * (events.length + 1) = n + 2 + 1 + 2 * events.length by omega]
    exact ih (h.step (by omega) hc.1) (by omega) hc.2

end Steps

/-! ## The result -/

theorem deliverTerminal_isOk (a : Auditor) {r : Record} (he : Ended r) :
    (deliverTerminal a (fun _ => none) r).isOk = true ↔
      Auditable r ∧ validOnceKey (managedOnceKey r.operationId) = true := by
  rw [← managedPayload_isOk a.isIP he]
  unfold deliverTerminal
  cases managedPayload a.isIP r with
  | error e => simp [Except.isOk, Except.toBool]
  | ok p =>
    by_cases hk : validOnceKey (managedOnceKey r.operationId) = true
    · simp [appendOnce, hk, Except.isOk, Except.toBool]
    · simp [appendOnce, hk, Except.isOk, Except.toBool]

def endedRecord (spec : Spec) : Record :=
  { newRecord spec 0 with status := .failed, finishedAt := 0 }

theorem endedRecord_ended (spec : Spec) : Ended (endedRecord spec) :=
  ⟨rfl, by show (0 : Int) ≠ zeroTime; decide, by show Json.writableTime 0 = true; decide,
    by show (1 : Nat) < 2 ^ 64; decide⟩

/-- Terminal audits against a WAL that works.

1. For an accepted request, the audit can be delivered however the operation ends exactly if the
   request is deliverable.
2. In every run of the engine, with failing journal writes, interrupted deliveries and restarts,
   whose accepted requests are all deliverable and find no receipt of an earlier use of their
   operation ID: every pending audit is taken by the WAL; a delivery whose journal write succeeds
   leaves nothing pending; and a boot whose journal writes succeed does not fail. -/
theorem terminal_audit_delivered (a : Auditor) (b : Boundary) (c : Config) :
    (∀ request spec, startOperation b request = .ok spec →
      ((∀ r : Record, r.spec = spec → Ended r →
        (deliverTerminal a (fun _ => none) r).isOk = true) ↔ Deliverable spec)) ∧
    (∀ events, CleanRun a b c Engine.empty events → 2 * events.length + 2 < 2 ^ 64 →
      (∀ s ∈ (Engine.empty.run a b c events).slots, ∀ o, s.item.memory = some o →
        o.record.managedAuditDelivery = .pending →
        (deliverTerminal a (Engine.empty.run a b c events).receipts o.record).isOk = true) ∧
      (∀ s ∈ (Engine.empty.run a b c events).slots,
        ∀ s' ∈ ((Engine.empty.run a b c events).deliver a c s.id .ok .never).slots,
          s'.id = s.id → deliveryState s'.item ≠ .pending) ∧
      (∀ now evicted, Writable now →
        ((Engine.empty.run a b c events).boot a c now (fun _ => .ok) evicted fun _ => .ok).up =
          true)) := by
  constructor
  · intro request spec hstart
    have hs := startOperation_ok hstart
    constructor
    · intro hall
      have hspec : (endedRecord spec).spec = spec := rfl
      have hok := hall _ hspec (endedRecord_ended spec)
      rw [deliverTerminal_isOk a (endedRecord_ended spec)] at hok
      exact (auditable_iff hs hspec).mp hok
    · intro hd r hr he
      rw [deliverTerminal_isOk a he]
      exact (auditable_iff hs hr).mpr hd
  intro events hclean hlen
  have hempty : EngineOk a 1 Engine.empty := ⟨fun s hs => (nomatch hs), nodup_nil⟩
  have hok := EngineOk.run (n := 0) events hempty (by omega) hclean
  refine ⟨fun s hs o ho hd => ?_, fun s hs s' hs' hid => ?_, fun now evicted hnow => ?_⟩
  · have hslot := hok.slots s hs
    have ht := storable_pending (hslot.memory o ho).storable (by rw [hd]; decide)
    obtain ⟨receipts, hr, -⟩ := deliverTerminal_ok hslot (by omega) ho ht
    rw [hr]
    rfl
  · unfold Engine.deliver at hs'
    split at hs'
    · next hnone =>
      -- The slot itself carries the identifier, so it is found.
      have := find?_eq_none.mp hnone s hs
      simp at this
    · next t ht =>
      have hd := deliverTerminalAudit_ok (c := c) (hok.slots t (mem_of_find?_eq_some ht))
        (by omega) .ok .never
      obtain ⟨x, -, rfl⟩ := mem_map.mp hs'
      split at hid
      · next hxid =>
        rw [if_pos hxid]
        exact (hd.done rfl rfl).2
      · next hxid => exact absurd hid hxid
  · exact (hok.boot (by omega) hnow (fun _ => .ok) evicted fun _ => .ok).2 (fun _ => rfl)
      fun _ => rfl

/-! ## Concrete engines -/

def bareBoundary : Boundary where
  project := fun _ => false
  project_hex := fun _ h => (nomatch h)
  mutationAllowed := fun _ => false
  approvedFiles := fun _ => false
  decoded := fun _ => ⟨0, none, none, none⟩
  services := fun _ _ _ => false

def plainAuditor : Auditor := ⟨fun _ => false, id⟩

def auditedConfig : Config := ⟨64 * 2 ^ 10, true⟩

def rejectedStart (operationId target : Text) : List EngineEvent :=
  [.start ⟨operationId, text "container.start", [], target, []⟩ (1767225600 * second) .ok,
    .operation operationId
      (.reject (text "disk budget") (1767225600 * second) (1767225600 * second) .ok),
    .deliver operationId .ok .never]

def afterRejected (operationId target : Text) : Engine :=
  Engine.empty.run plainAuditor bareBoundary auditedConfig (rejectedStart operationId target)

def bootNow (e : Engine) : Engine :=
  e.boot plainAuditor auditedConfig (1767225601 * second) (fun _ => .ok) [] fun _ => .ok

theorem shortTarget_delivered :
    ((afterRejected (text "op-1") (text "web")).slots.map fun s => deliveryState s.item) =
        [.delivered] ∧
      (bootNow (afterRejected (text "op-1") (text "web"))).up = true := by
  have hclean : CleanRun plainAuditor bareBoundary auditedConfig Engine.empty
      (rejectedStart (text "op-1") (text "web")) := by
    refine ⟨fun spec hspec => ⟨?_, fun _ => rfl⟩, ?_, trivial, trivial⟩
    · have hs := startOperation_ok hspec
      have hop : spec.operationId = text "op-1" := hs.operationId
      have ht : spec.target = text "web" := hs.target
      refine ⟨?_, ?_, fun _ _ => ?_⟩
      · rw [hop]; decide +kernel
      · rw [hop]; decide +kernel
      · rw [ht]; decide +kernel
    · show ∀ t ∈ [1767225600 * second, 1767225600 * second], Json.writableTime t = true
      decide
  have hrun := (terminal_audit_delivered plainAuditor bareBoundary auditedConfig).2 _ hclean
    (by decide)
  refine ⟨by decide +kernel, hrun.2.2 _ [] ⟨by decide, by decide⟩⟩

/-- Two starts that the Agent accepts and whose audits stay pending, so that the next boot fails:
one with a container target of 513 bytes, one with a line feed in its operation ID. -/
theorem audit_undeliverable :
    (((afterRejected (text "op-1") (List.replicate 513 97)).slots.map fun s =>
        deliveryState s.item) = [.pending] ∧
      (bootNow (afterRejected (text "op-1") (List.replicate 513 97))).up = false) ∧
    (((afterRejected (text "op\n1") (text "web")).slots.map fun s => deliveryState s.item) =
        [.pending] ∧
      (bootNow (afterRejected (text "op\n1") (text "web"))).up = false) := by
  decide +kernel

end DockLattice.Audit
