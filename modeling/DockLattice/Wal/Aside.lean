import DockLattice.Wal.Keeps

/-!
# DockLattice.Wal.Aside

How an idempotent append ends when nothing goes wrong.

An append and what it needs neither look at the receipts nor close the WAL (`Aside`): with other
receipts in the directory they end the same way. So `AppendOnce` of a new key succeeds on a WAL that
would take the record by a plain append (`appendOnce_new`), and a receipt for another payload makes
it fail (`appendOnce_reserved`).
-/

namespace DockLattice.Wal

open Bytes Effect List Sha256

variable {α β : Type}
variable {k : α → WalProg β} {key : String} {now : Instant} {p : WalProg α} {payload : List Byte}
  {s : State} {v : World State}

/-! ## Digests and keys -/

theorem hexDigit_mem (n : Nat) : hexDigit n ∈ hexDigits := by
  unfold hexDigit
  rw [getD_eq_getElem?_getD]
  cases h : hexDigits[n]? with
  | none => decide
  | some c => exact mem_of_getElem? h

theorem encodeToString_toList (bytes : List Byte) :
    (encodeToString bytes).toList.length = 2 * bytes.length ∧
      ∀ c ∈ (encodeToString bytes).toList, c ∈ hexDigits := by
  unfold encodeToString
  rw [String.toList_ofList]
  constructor
  · induction bytes with
    | nil => rfl
    | cons b bs ih =>
      simp only [flatMap_cons, length_append, ih, length_cons, length_nil]
      omega
  · intro c hc
    obtain ⟨b, -, hb⟩ := mem_flatMap.mp hc
    simp only [mem_cons, not_mem_nil, or_false] at hb
    rcases hb with rfl | rfl <;> exact hexDigit_mem _

theorem length_sum256 (message : List Byte) : (sum256 message).length = 32 := by
  simp [sum256]

theorem validDigest_sum256 (message : List Byte) :
    validDigest (encodeToString (sum256 message)) = true := by
  have h := encodeToString_toList (sum256 message)
  rw [length_sum256] at h
  simp only [validDigest, h.1, Bool.and_eq_true, decide_eq_true_eq, all_eq_true, contains_iff_mem]
  exact ⟨trivial, h.2⟩

theorem validOnceKey_append {word digest : String} (hw : word.toList.length ≤ 64)
    (hne : word ≠ "") (hword : ∀ c ∈ word.toList, c.utf8Size = 1 ∧ c ≠ '\x00' ∧ c ≠ '\r' ∧ c ≠ '\n')
    (hd : validDigest digest = true) : validOnceKey (word ++ digest) = true := by
  simp only [validDigest, Bool.and_eq_true, decide_eq_true_eq, all_eq_true, contains_iff_mem] at hd
  have hplain : ∀ c ∈ hexDigits, c.utf8Size = 1 ∧ c ≠ '\x00' ∧ c ≠ '\r' ∧ c ≠ '\n' := by
    simp only [hexDigits, forall_mem_cons]
    refine ⟨?_, ?_, ?_, ?_, ?_, ?_, ?_, ?_, ?_, ?_, ?_, ?_, ?_, ?_, ?_, ?_, nofun⟩ <;>
      exact ⟨rfl, by decide, by decide, by decide⟩
  have hsize : ∀ s : String, (∀ c ∈ s.toList, c.utf8Size = 1) →
      s.utf8ByteSize = s.toList.length := by
    intro s hs
    rw [← String.utf8Len_toList]
    generalize s.toList = cs at hs
    induction cs with
    | nil => rfl
    | cons c cs ih =>
      rw [String.utf8Len_cons, ih fun d hd => hs d (mem_cons_of_mem _ hd),
        hs c mem_cons_self, length_cons]
  unfold validOnceKey
  simp only [Bool.and_eq_true, decide_eq_true_eq, all_eq_true, String.toList_append,
    mem_append, String.utf8ByteSize_append]
  refine ⟨⟨?_, ?_⟩, ?_⟩
  · intro he
    exact hne (String.append_eq_empty_iff.mp he).1
  · rw [hsize word fun c hc => (hword c hc).1, hsize digest fun c hc => (hplain c (hd.2 c hc)).1,
      hd.1, onceKeyMaxBytes]
    omega
  · rintro c (hc | hc)
    · exact ⟨⟨(hword c hc).2.1, (hword c hc).2.2.1⟩, (hword c hc).2.2.2⟩
    · have := hplain c (hd.2 c hc)
      exact ⟨⟨this.2.1, this.2.2.1⟩, this.2.2.2⟩

/-! ## Idempotent appends -/

theorem bind_of_done {w : World State} {a : α} (h : p w = .done a v) : Prog.bind p k w = k a v := by
  unfold Prog.bind
  rw [h]

theorem bind_done {w : World State} {b : β} (h : Prog.bind p k w = .done b v) :
    ∃ a u, p w = .done a u ∧ k a u = .done b v := by
  unfold Prog.bind at h
  cases hp : p w with
  | done a u => rw [hp] at h; exact ⟨a, u, rfl, h⟩
  | fail | crash => rw [hp] at h; cases h

def appendAndSync (now : Instant) (payload : List Byte) : WalProg Record := do
  let record ← append false now payload
  sync
  pure record

/-- With nothing going wrong, a plain append of the record and a sync succeed. -/
def State.takes (s : State) (now : Instant) (payload : List Byte) : Bool :=
  (appendAndSync now payload ⟨s, []⟩).value?.any fun record =>
    record.cursor.incarnation ≠ 0 && record.cursor.seq ≠ 0

theorem whenOpen_apply (p : WalProg α) (s : State) (fs : List Fault) :
    whenOpen p ⟨s, fs⟩ = if s.wal.closed then .fail .closed ⟨s, fs⟩ else p ⟨s, fs⟩ := by
  change (if s.wal.closed = true then Prog.throw .closed else p) ⟨s, fs⟩ = _
  split <;> rfl

theorem sync_done (h : sync ⟨s, []⟩ = .done () v) :
    s.wal.closed = false ∧ ∃ w, syncLocked ⟨s, []⟩ = .done () w := by
  unfold sync at h
  rw [whenOpen_apply] at h
  split at h
  · cases h
  · next hc =>
    obtain ⟨a, w, hw, -⟩ := bind_done h
    exact ⟨by simpa using hc, w, hw⟩

theorem State.takes_spec (h : s.takes now payload = true) :
    ∃ r t u, appendLocked false now payload ⟨s, []⟩ = .done r ⟨t, []⟩ ∧
      syncLocked ⟨t, []⟩ = .done () ⟨u, []⟩ ∧ u.wal.closed = false ∧
      r.cursor.incarnation ≠ 0 ∧ r.cursor.seq ≠ 0 := by
  have hset := (appendLocked_foreign false now payload).aside.settled ⟨s, []⟩ rfl
  unfold State.takes at h
  cases ho : appendAndSync now payload ⟨s, []⟩ with
  | fail | crash => rw [ho] at h; cases h
  | done r v =>
    rw [ho] at h
    obtain ⟨r', ⟨t, fs⟩, ha, hrest⟩ := bind_done ho
    rw [append] at ha
    rw [ha] at hset
    obtain rfl : fs = [] := hset
    obtain ⟨_, _, hsync, hret⟩ := bind_done hrest
    obtain ⟨hopen, ⟨u, gs⟩, hy⟩ := sync_done hsync
    have hset' := syncLocked_foreign.aside.settled ⟨t, []⟩ rfl
    have hopen' := syncLocked_foreign.aside.opened ⟨t, []⟩
    rw [hy] at hset' hopen'
    obtain rfl : gs = [] := hset'
    obtain rfl : r' = r := by cases hret; rfl
    refine ⟨r', t, u, ha, hy, hopen'.trans hopen, ?_⟩
    simpa [Outcome.value?] using h

theorem State.takes_open (h : s.takes now payload = true) : s.wal.closed = false := by
  obtain ⟨r, t, u, ha, hy, hopen, -⟩ := State.takes_spec h
  have h₁ := (appendLocked_foreign false now payload).aside.opened ⟨s, []⟩
  have h₂ := syncLocked_foreign.aside.opened ⟨t, []⟩
  rw [ha] at h₁
  rw [hy] at h₂
  exact (h₁.symm.trans h₂.symm).trans hopen

theorem saveOnceReceiptLocked_done {receipt : OnceReceipt} (s : State)
    (h : validateOnceReceipt receipt receipt.key = true) :
    saveOnceReceiptLocked receipt ⟨s, []⟩ =
      .done () ⟨s.onDisk (·.putReceipt (onceReceiptName receipt.key) receipt), []⟩ := by
  unfold saveOnceReceiptLocked
  rw [if_pos h]
  rfl

theorem appendOnce_new (hkey : validOnceKey key = true)
    (hnew : s.disk.receipt? (onceReceiptName key) = none) (h : s.takes now payload = true) :
    ∃ r t, appendOnce false now key payload ⟨s, []⟩ = .done r ⟨t, []⟩ ∧ t.wal.closed = false := by
  obtain ⟨r, t, u, ha, hy, hopen, hcur⟩ := State.takes_spec h
  have hopened := State.takes_open h
  have hback : s.wal.backgroundErr = none := by
    cases hb : s.wal.backgroundErr with
    | none => rfl
    | some e =>
      have hfail : appendLocked false now payload ⟨s, []⟩ = .fail e ⟨s, []⟩ := by
        unfold appendLocked
        change (if s.wal.closed = true then _ else _ : WalProg Record) ⟨s, []⟩ = _
        rw [if_neg (by simp [hopened]), hb]
        rfl
      rw [hfail] at ha
      cases ha
  let receipt : OnceReceipt := ⟨onceReceiptVersion, key, payloadDigest payload, none, none⟩
  have hvalid : validateOnceReceipt receipt receipt.key = true := by
    simp [validateOnceReceipt, receipt, hkey, payloadDigest, validDigest_sum256]
  have hvalid' : validateOnceReceipt (receipt.complete r) (receipt.complete r).key = true := by
    simp [validateOnceReceipt, receipt, OnceReceipt.complete, hkey, payloadDigest,
      validDigest_sum256, hcur]
  let rs := (s.disk.putReceipt (onceReceiptName key) receipt).receipts
  have hreserved : s.onDisk (·.putReceipt (onceReceiptName receipt.key) receipt) =
      s.withReceipts rs := rfl
  have ha' : appendLocked false now payload ⟨s.withReceipts rs, []⟩ =
      .done r ⟨t.withReceipts rs, []⟩ := by
    have := (appendLocked_foreign false now payload).aside.blind rs ⟨s, []⟩
    rw [ha] at this
    exact this
  have hy' : syncLocked ⟨t.withReceipts rs, []⟩ = .done () ⟨u.withReceipts rs, []⟩ := by
    have := syncLocked_foreign.aside.blind rs ⟨t, []⟩
    rw [hy] at this
    exact this
  have hload : loadOnceReceiptLocked s.disk key = .ok none := by
    unfold loadOnceReceiptLocked
    rw [hnew]
  refine ⟨r, (u.withReceipts rs).onDisk (·.putReceipt (onceReceiptName (receipt.complete r).key)
    (receipt.complete r)), ?_, hopen⟩
  unfold appendOnce
  rw [if_neg (by simp [hkey])]
  change (if s.wal.closed = true then _ else _ : WalProg Record) ⟨s, []⟩ = _
  rw [if_neg (by simp [hopened]), hback]
  dsimp only
  rw [if_neg (by simp), hload]
  dsimp only
  refine (bind_of_done (saveOnceReceiptLocked_done s hvalid)).trans ?_
  rw [hreserved]
  exact (bind_of_done ha').trans ((bind_of_done hy').trans
    (bind_of_done (saveOnceReceiptLocked_done _ hvalid')))

theorem appendOnce_reserved (now : Instant) {receipt : OnceReceipt}
    (hr : s.disk.receipt? (onceReceiptName key) = some receipt)
    (hne : receipt.payloadSha256 ≠ payloadDigest payload) (fs : List Fault) :
    ∃ e, appendOnce false now key payload ⟨s, fs⟩ = .fail e ⟨s, fs⟩ := by
  unfold appendOnce
  split
  · exact ⟨_, rfl⟩
  change ∃ e, (if s.wal.closed = true then _ else _ : WalProg Record) ⟨s, fs⟩ = _
  split
  · exact ⟨_, rfl⟩
  cases hb : s.wal.backgroundErr with
  | some e => exact ⟨e, rfl⟩
  | none =>
  dsimp only
  rw [if_neg (by simp)]
  unfold loadOnceReceiptLocked
  rw [hr]
  dsimp only
  by_cases hv : validateOnceReceipt receipt key = true
  · rw [if_pos hv]
    dsimp only
    rw [if_pos hne]
    exact ⟨_, rfl⟩
  · rw [if_neg hv]
    exact ⟨_, rfl⟩

theorem forgetOnce_done (hkey : validOnceKey key = true) (hopen : s.wal.closed = false) :
    forgetOnce key ⟨s, []⟩ = .done () ⟨s.onDisk (·.removeReceipt (onceReceiptName key)), []⟩ := by
  unfold forgetOnce
  rw [if_neg (by simp [hkey]), whenOpen_apply, if_neg (by simp [hopen])]
  have hremove : removeOnceReceipt (onceReceiptName key) ⟨s, []⟩ =
      .done () ⟨s.onDisk (·.removeReceipt (onceReceiptName key)), []⟩ := by
    unfold removeOnceReceipt
    change (Prog.when _ _ : WalProg Unit) ⟨s, []⟩ = _
    unfold Prog.when
    split
    · rfl
    next habsent =>
    have hnone : s.disk.receipt? (onceReceiptName key) = none := by simpa using habsent
    have hsame : s.disk.removeReceipt (onceReceiptName key) = s.disk := by
      simp only [Disk.receipt?, Option.map_eq_none_iff, find?_eq_none, beq_iff_eq] at hnone
      simp only [Disk.removeReceipt]
      congr 1
      exact filter_eq_self.mpr fun e he => decide_eq_true (hnone e he)
    simp only [State.onDisk, hsame]
    rfl
  exact bind_of_done hremove

end DockLattice.Wal
