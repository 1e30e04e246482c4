import FakeSSH.Go.Crypto
import FakeSSH.Lib.BigEndian
import Mathlib.Logic.Function.Iterate

/-!
# ChaCha20 and Poly1305

The two functions that `chacha20-poly1305@openssh.com` is made of: the key stream of
`golang.org/x/crypto/chacha20` for a key of 32 bytes and a nonce of 12, and the tag of `poly1305`
for a key of 32 bytes.
-/

namespace FakeSSH.Go

open FakeSSH.Lib

/-- The last `w` bytes of a number, the least significant first. -/
def toLE (w n : Nat) : Bytes := (toBE w n).reverse

/-- The number that bytes spell, the least significant first. -/
def ofLE (bytes : Bytes) : Nat := ofBE bytes.reverse

/-! ## ChaCha20 -/

def rotateLeft (x n : UInt32) : UInt32 := (x <<< n) ||| (x >>> (32 - n))

/-- A quarter round on four of the sixteen words. -/
def quarterRound (s : List UInt32) (i j k l : Nat) : List UInt32 :=
  let (a, b, c, d) := (s.getD i 0, s.getD j 0, s.getD k 0, s.getD l 0)
  let a := a + b
  let d := rotateLeft (d ^^^ a) 16
  let c := c + d
  let b := rotateLeft (b ^^^ c) 12
  let a := a + b
  let d := rotateLeft (d ^^^ a) 8
  let c := c + d
  let b := rotateLeft (b ^^^ c) 7
  (((s.set i a).set j b).set k c).set l d

/-- A round on the columns, and one on the diagonals. -/
def doubleRound (s : List UInt32) : List UInt32 :=
  let s := quarterRound s 0 4 8 12
  let s := quarterRound s 1 5 9 13
  let s := quarterRound s 2 6 10 14
  let s := quarterRound s 3 7 11 15
  let s := quarterRound s 0 5 10 15
  let s := quarterRound s 1 6 11 12
  let s := quarterRound s 2 7 8 13
  quarterRound s 3 4 9 14

/-- The first `n` words of bytes. -/
def words (n : Nat) (bytes : Bytes) : List UInt32 :=
  (List.range n).map fun i => UInt32.ofNat (ofLE ((bytes.drop (4 * i)).take 4))

def chacha20State (key nonce : Bytes) (counter : Nat) : List UInt32 :=
  [0x61707865, 0x3320646E, 0x79622D32, 0x6B206574] ++ words 8 key ++ [UInt32.ofNat counter] ++
    words 3 nonce

/-- A block of the key stream. -/
def chacha20Block (key nonce : Bytes) (counter : Nat) : Bytes :=
  let s := chacha20State key nonce counter
  (List.zipWith (· + ·) (Nat.iterate doubleRound 10 s) s).flatMap fun x => toLE 4 x.toNat

/-- The key stream, byte by byte. -/
def chacha20 (key nonce : Bytes) (i : Nat) : UInt8 :=
  (chacha20Block key nonce (i / 64)).getD (i % 64) 0

example : (chacha20Block ((List.range 32).map UInt8.ofNat) [0, 0, 0, 9, 0, 0, 0, 0x4A, 0, 0, 0, 0]
    1).take 8 = [0x10, 0xF1, 0xE7, 0xE4, 0xD1, 0x3B, 0x59, 0x15] := by decide +kernel

/-! ## Poly1305 -/

/-- The polynomial of `n` blocks of 16 bytes, the last of which may be shorter. -/
def polyBlocks (r : Nat) : Nat → Nat → Bytes → Nat
  | 0, acc, _ => acc
  | n + 1, acc, data =>
    polyBlocks r n ((acc + ofLE (data.take 16 ++ [1])) * r % (2 ^ 130 - 5)) (data.drop 16)

def poly1305 (key : Bytes) : KeyedHash where
  size := 16
  sum data :=
    let r := ofLE (key.take 16) &&& 0x0FFFFFFC0FFFFFFC0FFFFFFC0FFFFFFF
    toLE 16 (polyBlocks r ((data.length + 15) / 16) 0 data + ofLE ((key.drop 16).take 16))
  length_sum := fun data => by rw [toLE, List.length_reverse, length_toBE]

example : (poly1305 [0x85, 0xD6, 0xBE, 0x78, 0x57, 0x55, 0x6D, 0x33, 0x7F, 0x44, 0x52, 0xFE, 0x42,
    0xD5, 0x06, 0xA8, 0x01, 0x03, 0x80, 0x8A, 0xFB, 0x0D, 0xB2, 0xFD, 0x4A, 0xBF, 0xF6, 0xAF, 0x41,
    0x49, 0xF5, 0x1B]).sum (str "open fakessh, and read on") =
    [0xCB, 0xE9, 0xCA, 0xEF, 0x4E, 0xF8, 0xE0, 0xB7, 0x7B, 0x6C, 0xF0, 0x5B, 0x51, 0x62, 0x17,
      0xD0] := by decide +kernel

end FakeSSH.Go
