import DockLattice.Audit.Outbox

/-!
# DockLattice.Audit.Deliver

One operation and its outbox entry. `SlotOk` ties the record in memory, the journal file and the
WAL's receipt together. Every step keeps it, and under it a delivery succeeds whenever the journal
does.
-/

namespace DockLattice.Audit

open Bytes Operation

variable {o : Op} {r r' : Record} {readings : List Time} {texts : List Text}

/-! ## Records -/

theorem resourceFor_congr (h : r'.spec = r.spec) : resourceFor r' = resourceFor r := by
  cases r
  cases r'
  simp only [Record.spec, Spec.mk.injEq] at h
  obtain ⟨rfl, rfl, rfl, rfl, -⟩ := h
  rfl

theorem Auditable.congr (h : Auditable r) (hs : r'.spec = r.spec) : Auditable r' := by
  have hop : r'.operationId = r.operationId := congrArg Spec.operationId hs
  have hres := resourceFor_congr hs
  exact ⟨hop ▸ h.operationId, hres ▸ h.resourceId, hres ▸ h.projectUid⟩

theorem toValid_of_validText {s : Text} {m : Nat} {e : Bool} (h : validText s m e = true) :
    Utf8.toValid s = s :=
  Utf8.toValid_of_valid (validText_iff.mp h).2.2.1

theorem resourceFor_journaled (h : Auditable r) : resourceFor r.journaled = resourceFor r := by
  have hop : r.journaled.operationId = r.operationId := toValid_of_validText h.operationId
  have hres := h.resourceId
  by_cases hc : r.kind.isContainerOperation = true
  · by_cases ht : r.target = []
    · rw [resourceFor_container_nil hc ht,
        resourceFor_container_nil (r := r.journaled) hc (Utf8.toValid_eq_nil.mpr ht), hop]
    · rw [resourceFor_container hc ht] at hres ⊢
      have htv : r.journaled.target = r.target := toValid_of_validText hres
      rw [resourceFor_container (r := r.journaled) hc (htv ▸ ht), htv]
  by_cases hk : r.kind = .discoveryRescan
  · rw [resourceFor_rescan hk, resourceFor_rescan (r := r.journaled) hk]
  have hk : (r.kind == .discoveryRescan) = false := beq_eq_false_iff_ne.mpr hk
  have hc : r.kind.isContainerOperation = false := Bool.not_eq_true _ ▸ hc
  by_cases hp : r.projectKey = []
  · rw [resourceFor_project_nil hc hk hp,
      resourceFor_project_nil (r := r.journaled) hc hk (Utf8.toValid_eq_nil.mpr hp), hop]
  · rw [resourceFor_project hc hk hp] at hres ⊢
    have hpv : r.journaled.projectKey = r.projectKey := toValid_of_validText hres
    rw [resourceFor_project (r := r.journaled) hc hk (hpv ▸ hp), hpv]

theorem Auditable.journaled (h : Auditable r) : Auditable r.journaled := by
  have hop : r.journaled.operationId = r.operationId := toValid_of_validText h.operationId
  have hres := resourceFor_journaled h
  exact ⟨hop ▸ h.operationId, hres ▸ h.resourceId, hres ▸ h.projectUid⟩

theorem managedPayload_journaled (isIP : Text → Bool) (h : Auditable r) :
    managedPayload isIP r.journaled = managedPayload isIP r := by
  have hop : r.journaled.operationId = r.operationId := toValid_of_validText h.operationId
  have hsignal : signalFor r.journaled = signalFor r := by
    unfold signalFor
    rw [resourceFor_journaled h]
    rfl
  unfold managedPayload
  rw [hsignal, hop]

structure RecordOk (n : Nat) (id : Text) (r : Record) : Prop where
  operationId : r.operationId = id
  auditable : Auditable r
  key : validOnceKey (managedOnceKey id) = true
  storable : r.storable = true
  writable : r.finishedAt = zeroTime ∨ Json.writableTime r.finishedAt = true
  revision : r.revision ≤ n

namespace RecordOk

variable {n : Nat} {id : Text}

variable (h : RecordOk n id r)

include h

theorem weaken : RecordOk (n + 1) id r :=
  { h with revision := Nat.le_succ_of_le h.revision }

theorem progress (hp : Progress readings texts r r') (hs : r'.storable = true)
    (hclock : ∀ t ∈ readings, Json.writableTime t = true) : RecordOk (n + 1) id r' := by
  refine ⟨?_, h.auditable.congr hp.spec, h.key, hs, ?_, ?_⟩
  · exact (congrArg Spec.operationId hp.spec).trans h.operationId
  · rcases hp.finishedAt with hf | ⟨-, hf, -⟩
    · rw [hf]; exact h.writable
    · exact .inr (hclock _ hf)
  · exact Nat.le_trans hp.revision (Nat.succ_le_succ h.revision)

theorem journaled : RecordOk n id r.journaled :=
  ⟨(toValid_of_validText h.auditable.operationId).trans h.operationId, h.auditable.journaled, h.key,
    storable_journaled h.storable, h.writable, h.revision⟩

theorem output (tail : Text) (truncated : Bool) :
    RecordOk n id { r with outputTail := tail, outputTruncated := truncated } :=
  { h with auditable := { h.auditable with } }

theorem ended (ht : r.status.terminal = true) (hn : n < 2 ^ 64) : Ended r := by
  have hf := (storable_terminal h.storable).mp ht
  exact ⟨ht, hf, h.writable.resolve_left hf, by have := h.revision; omega⟩

theorem payload (ht : r.status.terminal = true) (hn : n < 2 ^ 64) (isIP : Text → Bool) :
    ∃ p, managedPayload isIP r = .ok p := by
  have hok := (managedPayload_isOk isIP (h.ended ht hn)).mpr h.auditable
  cases hp : managedPayload isIP r with
  | error e => rw [hp] at hok; cases hok
  | ok p => exact ⟨p, rfl⟩

end RecordOk

theorem managedPayload_frozen (isIP : Text → Bool) (hp : Progress readings texts r r')
    (ht : r.status.terminal = true) :
    r'.status.terminal = true ∧ managedPayload isIP r' = managedPayload isIP r := by
  rw [hp.frozen ht]
  exact ⟨ht, rfl⟩

/-! ## Slots -/

structure SlotOk (a : Auditor) (n : Nat) (receipts : Receipts) (s : Slot) : Prop where
  file : RecordOk n s.id s.item.file
  memory : ∀ o, s.item.memory = some o → RecordOk n s.id o.record
  /-- an operation that is terminal in memory is so on disk, with the same audit -/
  same : ∀ o, s.item.memory = some o → o.record.status.terminal = true →
    s.item.file.status.terminal = true ∧
      managedPayload a.isIP s.item.file = managedPayload a.isIP o.record
  /-- a receipt is for the audit of the file -/
  receipt : ∀ digest, receipts (managedOnceKey s.id) = some digest →
    s.item.file.status.terminal = true ∧
      (∃ p, managedPayload a.isIP s.item.file = .ok p ∧ a.digest p = digest) ∧
      ∀ o, s.item.memory = some o → o.record.status.terminal = true

namespace SlotOk

variable {a : Auditor} {c : Config} {n : Nat} {receipts receipts' : Receipts} {s : Slot}

variable (h : SlotOk a n receipts s)

include h

theorem weaken : SlotOk a (n + 1) receipts s :=
  ⟨h.file.weaken, fun o ho => (h.memory o ho).weaken, h.same, h.receipt⟩

theorem frame (hk : receipts' (managedOnceKey s.id) = receipts (managedOnceKey s.id)) :
    SlotOk a n receipts' s :=
  ⟨h.file, h.memory, h.same, fun digest hd => h.receipt digest (hk ▸ hd)⟩

theorem forget : SlotOk a n receipts s.forget :=
  ⟨h.file, fun _ ho => (nomatch ho), fun _ ho => (nomatch ho),
    fun digest hd => ⟨(h.receipt digest hd).1, (h.receipt digest hd).2.1, fun _ ho => (nomatch ho)⟩⟩

theorem commit {o' : Op} {it : Item} (ho : s.item.memory = some o)
    (hp : Progress readings texts o.record o'.record)
    (hclock : ∀ t ∈ readings, Json.writableTime t = true) (hit : Committed s.item o' it) :
    SlotOk a (n + 1) receipts { s with item := it } := by
  cases hit with
  | failed => exact h.weaken
  | done hs =>
    have hnew := (h.memory o ho).progress hp hs hclock
    have hpay := managedPayload_journaled a.isIP hnew.auditable
    refine ⟨hnew.journaled, fun x hx => ?_, fun x hx ht => ?_, fun digest hd => ?_⟩
    · cases hx; exact hnew
    · cases hx; exact ⟨ht, hpay⟩
    obtain ⟨-, ⟨p, hfp, hdp⟩, hterm⟩ := h.receipt digest hd
    have hfrozen := managedPayload_frozen a.isIP hp (hterm o ho)
    have hsame := (h.same o ho (hterm o ho)).2
    refine ⟨hfrozen.1, ⟨p, ?_, hdp⟩, fun x hx => ?_⟩
    · exact (hpay.trans hfrozen.2).trans (hsame.symm.trans hfp)
    · cases hx; exact hfrozen.1
  | replaced hs =>
    have hnew := (h.memory o ho).progress hp hs hclock
    have hpay := managedPayload_journaled a.isIP hnew.auditable
    refine ⟨hnew.journaled, fun x hx => (h.memory x hx).weaken, fun x hx ht => ?_,
      fun digest hd => ?_⟩
    · have hxo : x = o := Option.some.inj (hx.symm.trans ho)
      have hfrozen := managedPayload_frozen a.isIP hp (hxo ▸ ht)
      exact ⟨hfrozen.1, by rw [hxo]; exact hpay.trans hfrozen.2⟩
    · obtain ⟨-, ⟨p, hfp, hdp⟩, hterm⟩ := h.receipt digest hd
      have hfrozen := managedPayload_frozen a.isIP hp (hterm o ho)
      have hsame := (h.same o ho (hterm o ho)).2
      exact ⟨hfrozen.1, ⟨p, (hpay.trans hfrozen.2).trans (hsame.symm.trans hfp), hdp⟩, hterm⟩

theorem operation {e : Operation.Event} (he : ∀ now fate started, e ≠ .restart now fate started)
    (hclock : ∀ t ∈ e.readings, Json.writableTime t = true) :
    SlotOk a (n + 1) receipts { s with item := s.item.step c e } := by
  have hcases := s.item.step_cases c e
  generalize s.item.step c e = it' at hcases
  cases hcases with
  | same => exact h.weaken
  | flushed | dropped => exact ⟨h.weaken.file, h.weaken.memory, h.same, h.receipt⟩
  | moved ht ho ho' hcommit => exact h.commit ho (Event.transition_progress ht ho') hclock hcommit
  | @wrote payload o _ ho =>
    obtain ⟨tail, truncated, heq⟩ := writeOutput_eq c.outputTailBytes o.record payload
    rw [heq]
    refine ⟨h.file.weaken, fun x hx => ?_, fun x hx hterm => ?_, fun digest hd => ?_⟩
    · cases hx
      exact ((h.memory o ho).output _ _).weaken
    · cases hx
      exact h.same o ho hterm
    obtain ⟨hf, hp, hterm⟩ := h.receipt digest hd
    refine ⟨hf, hp, fun x hx => ?_⟩
    cases hx
    exact hterm o ho
  | restarted heq => exact absurd heq (he _ _ _)

end SlotOk

/-! ## Recovery -/

structure Writable (t : Time) : Prop where
  ne_zero : t ≠ zeroTime
  writable : Json.writableTime t = true

theorem Writable.jsonTime {t : Time} (h : Writable t) : jsonTime t = true := by
  have hw := h.writable
  unfold Json.writableTime at hw
  unfold Operation.jsonTime
  rw [Bool.and_eq_true, decide_eq_true_eq, decide_eq_true_eq] at *
  have hlow : JsonTime.earliest ≤ -62167219200 * second := by decide
  have hhigh : 253402300800 * second ≤ JsonTime.latest := by decide
  exact ⟨Int.le_trans hlow hw.1, Int.le_trans (Int.le_of_lt hw.2) hhigh⟩

section Recover

variable {a : Auditor} {c : Config} {n : Nat} {receipts : Receipts} {s : Slot} {now : Time}

theorem loaded_ok (h : SlotOk a n receipts s) : RecordOk n s.id s.item.loaded := by
  unfold Item.loaded
  split
  · exact h.file
  · exact h.file.output _ _

theorem loaded_payload (isIP : Text → Bool) (it : Item) :
    it.loaded.status = it.file.status ∧ managedPayload isIP it.loaded =
      managedPayload isIP it.file := by
  unfold Item.loaded
  split
  · exact ⟨rfl, rfl⟩
  · exact ⟨rfl, rfl⟩

theorem recovered_ok (h : SlotOk a n receipts s) (hnow : Writable now) :
    RecordOk (n + 1) s.id (recovered c s.item.loaded now).1.record ∧
      (s.item.file.status.terminal = true →
        (recovered c s.item.loaded now).1.record.status.terminal = true ∧
        managedPayload a.isIP (recovered c s.item.loaded now).1.record =
          managedPayload a.isIP s.item.file) := by
  obtain ⟨tail, truncated, -, hp⟩ := recovered_progress c s.item.loaded now
  have hloaded := loaded_ok h
  have hst := recovered_storable (c := c) hloaded.storable hnow.ne_zero hnow.jsonTime
  refine ⟨(hloaded.output tail truncated).progress hp hst ?_, fun ht => ?_⟩
  · intro t htm
    rw [List.mem_singleton.mp htm]
    exact hnow.writable
  · obtain ⟨hstatus, hpay⟩ := loaded_payload a.isIP s.item
    obtain ⟨h₁, h₂⟩ := managedPayload_frozen a.isIP hp
      (show s.item.loaded.status.terminal = true by rw [hstatus]; exact ht)
    exact ⟨h₁, h₂.trans hpay⟩

theorem recover_ok (h : SlotOk a n receipts s) (hnow : Writable now) (fate : Fate) :
    SlotOk a (n + 1) receipts { s with item := (s.item.recover c now fate).1 } ∧
      (fate = .ok → (s.item.recover c now fate).2 = true) := by
  obtain ⟨hrec, hfrozen⟩ := recovered_ok (c := c) h hnow
  unfold Item.recover
  cases hr : recovered c s.item.loaded now with
  | mk o save =>
    rw [hr] at hrec hfrozen
    have hup : ∀ file, RecordOk (n + 1) s.id file →
        (o.record.status.terminal = true → file.status.terminal = true ∧
          managedPayload a.isIP file = managedPayload a.isIP o.record) →
        (s.item.file.status.terminal = true → file.status.terminal = true ∧
          managedPayload a.isIP file = managedPayload a.isIP s.item.file) →
        ∀ memory, (memory = none ∨ memory = some o) →
        SlotOk a (n + 1) receipts ⟨s.id, memory, file, s.item.output⟩ := by
      intro file hfile hsame hkeep memory hmem
      refine ⟨hfile, fun x hx => ?_, fun x hx ht => ?_, fun digest hd => ?_⟩
      · rcases hmem with rfl | rfl
        · cases hx
        · cases hx; exact hrec
      · rcases hmem with rfl | rfl
        · cases hx
        · cases hx; exact hsame ht
      · obtain ⟨hf, ⟨p, hp, hdp⟩, -⟩ := h.receipt digest hd
        refine ⟨(hkeep hf).1, ⟨p, (hkeep hf).2.trans hp, hdp⟩, fun x hx => ?_⟩
        rcases hmem with rfl | rfl
        · cases hx
        · cases hx; exact (hfrozen hf).1
    have hpay := managedPayload_journaled a.isIP hrec.auditable
    have hjournaled : ∀ memory, (memory = none ∨ memory = some o) →
        SlotOk a (n + 1) receipts ⟨s.id, memory, o.record.journaled, s.item.output⟩ := by
      refine hup _ hrec.journaled (fun ht => ⟨ht, hpay⟩) fun hf => ?_
      exact ⟨(hfrozen hf).1, hpay.trans (hfrozen hf).2⟩
    cases save with
    | false =>
      have hterm : s.item.file.status.terminal = true := by
        have := terminal_of_unsaved c s.item.loaded now (by rw [hr])
        rwa [(loaded_payload a.isIP s.item).1] at this
      refine ⟨hup _ h.file.weaken (fun _ => ⟨hterm, (hfrozen hterm).2.symm⟩) (fun _ => ⟨hterm, rfl⟩)
        _ (.inr rfl), fun _ => rfl⟩
    | true =>
      simp only [persist, hrec.storable, if_true]
      cases fate with
      | ok => exact ⟨hjournaled _ (.inr rfl), fun _ => rfl⟩
      | failed => exact ⟨h.weaken.forget, Fate.noConfusion⟩
      | replaced => exact ⟨hjournaled _ (.inl rfl), Fate.noConfusion⟩

end Recover

/-! ## Delivery -/

theorem storable_pending (h : r.storable = true) (hd : r.managedAuditDelivery ≠ .none) :
    r.status.terminal = true := by
  by_contra hlive
  simp only [Record.storable, validateRecord, Bool.and_eq_true] at h
  have := h.1.1.1.1.1.1.2
  simp_all

theorem storable_delivered (h : r.storable = true) (ht : r.status.terminal = true) :
    ({ r with managedAuditDelivery := .delivered } : Record).storable = true := by
  simp only [Record.storable, validateRecord, Bool.and_eq_true] at h ⊢
  simp_all

theorem managedOnceKey_inj {i j : Text} : managedOnceKey i = managedOnceKey j ↔ i = j := by
  simp [managedOnceKey]

section Deliver

variable {a : Auditor} {c : Config} {n : Nat} {receipts : Receipts} {s : Slot}

theorem deliverTerminal_ok (h : SlotOk a n receipts s) (hn : n < 2 ^ 64)
    (ho : s.item.memory = some o) (ht : o.record.status.terminal = true) :
    ∃ receipts', deliverTerminal a receipts o.record = .ok receipts' ∧
      SlotOk a n receipts' s ∧
      ∀ key, key ≠ managedOnceKey s.id → receipts' key = receipts key := by
  have hrec := h.memory o ho
  obtain ⟨p, hp⟩ := hrec.payload ht hn a.isIP
  obtain ⟨hfile, hsame⟩ := h.same o ho ht
  have hterm : ∀ x, s.item.memory = some x → x.record.status.terminal = true := by
    intro x hx
    rw [Option.some.inj (hx.symm.trans ho)]
    exact ht
  unfold deliverTerminal
  rw [hp, hrec.operationId]
  simp only [appendOnce, hrec.key, Bool.not_true, Bool.false_eq_true, if_false]
  cases hk : receipts (managedOnceKey s.id) with
  | none =>
    refine ⟨_, rfl, ⟨h.file, h.memory, h.same, fun digest hd => ?_⟩, fun key hne => ?_⟩
    · rw [Function.update_self] at hd
      exact ⟨hfile, ⟨p, hsame.trans hp, Option.some.inj hd⟩, hterm⟩
    · rw [Function.update_of_ne hne]
  | some digest =>
    obtain ⟨-, ⟨q, hq, hdq⟩, -⟩ := h.receipt digest hk
    have hpq : q = p := Except.ok.inj (hq.symm.trans (hsame.trans hp))
    simp only [← hdq, hpq, if_true]
    exact ⟨receipts, rfl, h, fun _ _ => rfl⟩

theorem forgetOnce_ok (h : SlotOk a n receipts s) :
    ∃ receipts', forgetOnce receipts (managedOnceKey s.id) = .ok receipts' ∧
      SlotOk a n receipts' s ∧
      ∀ key, key ≠ managedOnceKey s.id → receipts' key = receipts key := by
  simp only [forgetOnce, h.file.key, Bool.not_true, Bool.false_eq_true, if_false]
  refine ⟨_, rfl, ⟨h.file, h.memory, h.same, fun digest hd => ?_⟩, fun key hne => ?_⟩
  · rw [Function.update_self] at hd
    cases hd
  · rw [Function.update_of_ne hne]

theorem markDelivered_state {it : Item} (ho : it.memory = some o)
    (hd : o.record.managedAuditDelivery = .pending) (hs : o.record.storable = true) :
    deliveryState (it.step c (.markDelivered .ok)) = .delivered := by
  have ht := storable_pending hs (by rw [hd]; decide)
  have hst := storable_delivered hs ht
  have hmark : Operation.markDelivered o =
      some { o with record := { o.record with managedAuditDelivery := .delivered } } := by
    simp only [Operation.markDelivered, hd, beq_self_eq_true, if_true]
  show deliveryState (it.apply .ok Operation.markDelivered) = .delivered
  simp only [Item.apply, ho, hmark]
  unfold Item.commit persist
  rw [if_pos hst]
  rfl

/-- What one delivery does: the slot stays in order, no other receipt is touched, and with a
journal that works and no interruption it succeeds. -/
structure DeliveryOk (a : Auditor) (n : Nat) (receipts : Receipts) (s : Slot) (fate : Fate)
    (stop : Stop) (d : Delivery) : Prop where
  slot : SlotOk a (n + 1) d.receipts { s with item := d.item }
  other : ∀ key, key ≠ managedOnceKey s.id → d.receipts key = receipts key
  done : fate = .ok → stop = .never → d.ok = true ∧ deliveryState d.item ≠ .pending

theorem deliverTerminalAudit_ok (h : SlotOk a n receipts s) (hn : n < 2 ^ 64) (fate : Fate)
    (stop : Stop) :
    DeliveryOk a n receipts s fate stop
      (deliverTerminalAudit a c s.item receipts fate stop) := by
  unfold deliverTerminalAudit
  split
  · next ho => exact ⟨h.weaken, fun _ _ => rfl, fun _ _ => ⟨rfl, by simp [deliveryState, ho]⟩⟩
  next o ho =>
  have hrec := h.memory o ho
  split
  · next hd =>
    exact ⟨h.weaken, fun _ _ => rfl, fun _ _ => ⟨rfl, by simp [deliveryState, ho, hd]⟩⟩
  · next hd =>
    obtain ⟨receipts', hok, hslot, hother⟩ := forgetOnce_ok h
    rw [hrec.operationId, hok]
    exact ⟨hslot.weaken, hother, fun _ _ => ⟨rfl, by simp [deliveryState, ho, hd]⟩⟩
  next hd =>
  have ht := storable_pending hrec.storable (by rw [hd]; decide)
  obtain ⟨receipts', hok, hslot, hother⟩ := deliverTerminal_ok h hn ho ht
  have hmarked : SlotOk a (n + 1) receipts'
      { s with item := s.item.step c (.markDelivered fate) } :=
    hslot.operation (e := .markDelivered fate) nofun fun t htm => (nomatch htm)
  obtain ⟨receipts'', hok', hslot', hother'⟩ := forgetOnce_ok hmarked
  rw [hok]
  dsimp only
  split
  · next hstop => exact ⟨hslot.weaken, hother, fun _ hs => (nomatch hstop.symm.trans hs)⟩
  split
  · next hdone =>
    split
    · next hstop => exact ⟨hmarked, hother, fun _ hs => (nomatch hstop.symm.trans hs)⟩
    · rw [hrec.operationId, hok']
      refine ⟨hslot', fun key hne => (hother' key hne).trans (hother key hne), fun _ _ => ?_⟩
      exact ⟨rfl, by simp only [hdone]; decide⟩
  · next hfailed =>
    refine ⟨hmarked, hother, fun hfate _ => ?_⟩
    subst hfate
    exact absurd (markDelivered_state ho hd hrec.storable) hfailed

end Deliver

end DockLattice.Audit
