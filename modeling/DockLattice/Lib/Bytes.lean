import Mathlib

/-!
# DockLattice.Lib.Bytes

Byte strings: big-endian integers of fixed width and the Castagnoli CRC.

`beBytes k n` is what a big-endian store of `n` into `k` bytes writes, `beNat` what a load reads
back; `beNat_beBytes` says that a store and a load agree modulo `256 ^ k`.
-/

namespace DockLattice.Bytes

abbrev Byte := UInt8

def beBytes : Nat → Nat → List Byte
  | 0, _ => []
  | k + 1, n => beBytes k (n / 256) ++ [UInt8.ofNat (n % 256)]

def beNat (bs : List Byte) : Nat := bs.foldl (fun acc b => acc * 256 + b.toNat) 0

@[simp] theorem length_beBytes (k n : Nat) : (beBytes k n).length = k := by
  induction k generalizing n with
  | zero => rfl
  | succ k ih => simp [beBytes, ih]

theorem beNat_append_singleton (bs : List Byte) (b : Byte) :
    beNat (bs ++ [b]) = beNat bs * 256 + b.toNat := by
  simp [beNat]

theorem beNat_beBytes (k n : Nat) : beNat (beBytes k n) = n % 256 ^ k := by
  induction k generalizing n with
  | zero => simp [beBytes, beNat, Nat.mod_one]
  | succ k ih =>
    have hb : (UInt8.ofNat (n % 256)).toNat = n % 256 := by
      simp [UInt8.toNat_ofNat']
    rw [beBytes, beNat_append_singleton, ih, hb, Nat.pow_succ, Nat.mul_comm (256 ^ k) 256,
      Nat.mod_mul]
    omega

/-! ## CRC-32C -/

def crcBit (c : Nat) : Nat :=
  if c % 2 = 1 then (c / 2) ^^^ 0x82F63B78 else c / 2

def crcByte (c : Nat) (b : Byte) : Nat :=
  crcBit (crcBit (crcBit (crcBit (crcBit (crcBit (crcBit (crcBit (c ^^^ b.toNat))))))))

def crc32c (bs : List Byte) : Nat := bs.foldl crcByte 0xFFFFFFFF ^^^ 0xFFFFFFFF

/-- The check value of the CRC-32C catalogue entry: the checksum of the digits `123456789`. -/
example : crc32c [0x31, 0x32, 0x33, 0x34, 0x35, 0x36, 0x37, 0x38, 0x39] = 0xE3069283 := by
  decide +kernel

theorem crcBit_lt {c : Nat} (h : c < 2 ^ 32) : crcBit c < 2 ^ 32 := by
  unfold crcBit
  split
  · exact Nat.xor_lt_two_pow (by omega) (by decide)
  · omega

theorem crcByte_lt {c : Nat} (b : Byte) (h : c < 2 ^ 32) : crcByte c b < 2 ^ 32 := by
  have hb := b.toNat_lt
  have hx : c ^^^ b.toNat < 2 ^ 32 := Nat.xor_lt_two_pow h (by omega)
  unfold crcByte
  iterate 8 apply crcBit_lt
  exact hx

theorem crc32c_lt (bs : List Byte) : crc32c bs < 2 ^ 32 := by
  suffices h : ∀ (bs : List Byte) (c : Nat), c < 2 ^ 32 → bs.foldl crcByte c < 2 ^ 32 from
    Nat.xor_lt_two_pow (h bs _ (by decide)) (by decide)
  intro bs
  induction bs with
  | nil => intro c h; exact h
  | cons b bs ih => intro c h; exact ih _ (crcByte_lt b h)

end DockLattice.Bytes
