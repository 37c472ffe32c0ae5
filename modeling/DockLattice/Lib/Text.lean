import DockLattice.Lib.Bytes

/-!
# DockLattice.Lib.Text

Strings as the Go runtime has them: byte sequences, not sequences of characters. A literal stands
for its UTF-8 encoding (`text`), and `<` on lists of bytes is the order of Go's `<` on strings.

`prefixed` is the length-prefixed form in which a signed or hashed message holds a string; it can
be read back from the front of any message (`prefixed_append_inj`).
-/

namespace DockLattice

open Bytes

abbrev Text := List Byte

instance Text.decidableMem (s : Text) (texts : List Text) : Decidable (s ∈ texts) := inferInstance

instance Text.decidableByteMem (b : Byte) (s : Text) : Decidable (b ∈ s) := inferInstance

theorem Text.append_left_lt_iff {c x y : Text} : c ++ x < c ++ y ↔ x < y := by
  induction c with
  | nil => rfl
  | cons b c ih => simp [ih]

def text (s : String) : Text := s.toUTF8.toList

theorem toList_loop (bs : ByteArray) (i : Nat) (r : List Byte) :
    ByteArray.toList.loop bs i r = r.reverse ++ bs.data.toList.drop i := by
  fun_induction ByteArray.toList.loop bs i r with
  | case1 i r h ih =>
    have hi : i < bs.data.size := h
    rw [ih, List.drop_eq_getElem_cons (l := bs.data.toList) (i := i) (by simpa using hi)]
    simp [ByteArray.get!, getElem!_pos bs.data i hi]
  | case2 i r h => simpa using h

theorem text_injective : Function.Injective text := by
  intro s t h
  have hlist (bs : ByteArray) : bs.toList = bs.data.toList := by
    simpa [ByteArray.toList] using toList_loop bs 0 []
  rw [text, text, hlist, hlist, Array.toList_inj, ← ByteArray.ext_iff] at h
  exact String.toByteArray_inj.mp h

namespace Bytes

theorem beBytes_inj {k m n : Nat} :
    beBytes k m = beBytes k n ↔ m % 256 ^ k = n % 256 ^ k := by
  constructor
  · intro h
    rw [← beNat_beBytes k m, h, beNat_beBytes]
  induction k generalizing m n with
  | zero => intro _; rfl
  | succ k ih =>
    intro h
    rw [Nat.pow_succ, Nat.mul_comm, Nat.mod_mul, Nat.mod_mul] at h
    rw [beBytes, beBytes, ih (m := m / 256) (n := n / 256) (by omega),
      show m % 256 = n % 256 by omega]

def prefixed (s : Text) : List Byte := beBytes 4 s.length ++ s

theorem prefixed_append_inj {s t : Text} {r r' : List Byte} (hs : s.length < 2 ^ 32)
    (ht : t.length < 2 ^ 32) : prefixed s ++ r = prefixed t ++ r' ↔ s = t ∧ r = r' := by
  constructor
  · intro h
    rw [prefixed, prefixed, List.append_assoc, List.append_assoc] at h
    obtain ⟨hlen, hrest⟩ := List.append_inj h (by simp)
    have hlen : s.length = t.length := by
      rw [beBytes_inj] at hlen
      omega
    exact List.append_inj hrest hlen
  · intro h
    rw [h.1, h.2]

end Bytes
end DockLattice
