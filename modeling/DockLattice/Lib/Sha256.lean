import DockLattice.Lib.Bytes

/-!
# DockLattice.Lib.Sha256

SHA-256 on byte lists, and lower-case hexadecimal text. Words are natural numbers below `2 ^ 32`.
-/

namespace DockLattice.Sha256

open Bytes

def word (n : Nat) : Nat := n % 2 ^ 32

def rotr (x k : Nat) : Nat := word (x >>> k ||| x <<< (32 - k))

def constants : List Nat :=
  [0x428a2f98, 0x71374491, 0xb5c0fbcf, 0xe9b5dba5, 0x3956c25b, 0x59f111f1, 0x923f82a4, 0xab1c5ed5,
   0xd807aa98, 0x12835b01, 0x243185be, 0x550c7dc3, 0x72be5d74, 0x80deb1fe, 0x9bdc06a7, 0xc19bf174,
   0xe49b69c1, 0xefbe4786, 0x0fc19dc6, 0x240ca1cc, 0x2de92c6f, 0x4a7484aa, 0x5cb0a9dc, 0x76f988da,
   0x983e5152, 0xa831c66d, 0xb00327c8, 0xbf597fc7, 0xc6e00bf3, 0xd5a79147, 0x06ca6351, 0x14292967,
   0x27b70a85, 0x2e1b2138, 0x4d2c6dfc, 0x53380d13, 0x650a7354, 0x766a0abb, 0x81c2c92e, 0x92722c85,
   0xa2bfe8a1, 0xa81a664b, 0xc24b8b70, 0xc76c51a3, 0xd192e819, 0xd6990624, 0xf40e3585, 0x106aa070,
   0x19a4c116, 0x1e376c08, 0x2748774c, 0x34b0bcb5, 0x391c0cb3, 0x4ed8aa4a, 0x5b9cca4f, 0x682e6ff3,
   0x748f82ee, 0x78a5636f, 0x84c87814, 0x8cc70208, 0x90befffa, 0xa4506ceb, 0xbef9a3f7, 0xc67178f2]

structure Working where
  a : Nat
  b : Nat
  c : Nat
  d : Nat
  e : Nat
  f : Nat
  g : Nat
  h : Nat

def initial : Working :=
  ⟨0x6a09e667, 0xbb67ae85, 0x3c6ef372, 0xa54ff53a, 0x510e527f, 0x9b05688c, 0x1f83d9ab, 0x5be0cd19⟩

/-- The message schedule, newest word first; `n` words are still to come. -/
def schedule : Nat → List Nat → List Nat
  | 0, ws => ws
  | n + 1, ws =>
    let x := ws.getD 14 0
    let y := ws.getD 1 0
    let s0 := rotr x 7 ^^^ rotr x 18 ^^^ x >>> 3
    let s1 := rotr y 17 ^^^ rotr y 19 ^^^ y >>> 10
    schedule n (word (s1 + ws.getD 6 0 + s0 + ws.getD 15 0) :: ws)

def round (v : Working) (kw : Nat × Nat) : Working :=
  let s1 := rotr v.e 6 ^^^ rotr v.e 11 ^^^ rotr v.e 25
  let ch := (v.e &&& v.f) ^^^ ((2 ^ 32 - 1 - v.e) &&& v.g)
  let t1 := v.h + s1 + ch + kw.1 + kw.2
  let s0 := rotr v.a 2 ^^^ rotr v.a 13 ^^^ rotr v.a 22
  let maj := (v.a &&& v.b) ^^^ (v.a &&& v.c) ^^^ (v.b &&& v.c)
  ⟨word (t1 + s0 + maj), v.a, v.b, v.c, word (v.d + t1), v.e, v.f, v.g⟩

def compress (v : Working) (block : List Nat) : Working :=
  let u := (constants.zip (schedule 48 block.reverse).reverse).foldl round v
  ⟨word (v.a + u.a), word (v.b + u.b), word (v.c + u.c), word (v.d + u.d),
   word (v.e + u.e), word (v.f + u.f), word (v.g + u.g), word (v.h + u.h)⟩

def padding (message : List Byte) : List Byte :=
  message ++ 0x80 :: List.replicate ((119 - message.length % 64) % 64) 0 ++
    beBytes 8 (8 * message.length)

def words : Nat → List Byte → List Nat
  | 0, _ => []
  | n + 1, bytes => beNat (bytes.take 4) :: words n (bytes.drop 4)

def blocks : Nat → List Byte → Working → Working
  | 0, _, v => v
  | n + 1, bytes, v => blocks n (bytes.drop 64) (compress v (words 16 bytes))

def sum256 (message : List Byte) : List Byte :=
  let padded := padding message
  let v := blocks (padded.length / 64) padded initial
  beBytes 4 v.a ++ beBytes 4 v.b ++ beBytes 4 v.c ++ beBytes 4 v.d ++
    beBytes 4 v.e ++ beBytes 4 v.f ++ beBytes 4 v.g ++ beBytes 4 v.h

def hexDigits : List Char :=
  ['0', '1', '2', '3', '4', '5', '6', '7', '8', '9', 'a', 'b', 'c', 'd', 'e', 'f']

def hexDigit (n : Nat) : Char := hexDigits.getD n '0'

def encodeToString (bytes : List Byte) : String :=
  String.ofList (bytes.flatMap fun b => [hexDigit (b.toNat / 16), hexDigit (b.toNat % 16)])

theorem hexDigit_inj : ∀ m < 16, ∀ n < 16, hexDigit m = hexDigit n → m = n := by decide

theorem encodeToString_injective : Function.Injective encodeToString := by
  intro a b h
  replace h := String.ofList_inj.mp h
  induction a generalizing b with
  | nil => cases b with
    | nil => rfl
    | cons y b => simp at h
  | cons x a ih => cases b with
    | nil => simp at h
    | cons y b =>
      simp only [List.flatMap_cons, List.cons_append, List.nil_append, List.cons.injEq] at h
      have hx := x.toNat_lt
      have hy := y.toNat_lt
      have hhigh := hexDigit_inj _ (by omega) _ (by omega) h.1
      have hlow := hexDigit_inj _ (by omega) _ (by omega) h.2.1
      rw [ih h.2.2, UInt8.toNat_inj.mp (show x.toNat = y.toNat by omega)]

example : encodeToString (sum256 [97, 98, 99]) =
    "ba7816bf8f01cfea414140de5dae2223b00361a396177a9cb410ff61f20015ad" := by
  decide +kernel

end DockLattice.Sha256
