import Mathlib.Data.List.Induction
import Mathlib.Data.Nat.Size
import Mathlib.Tactic.Ring

/-!
# Numbers as bytes, the most significant first

`toBE w n` are the last `w` bytes of a number and `ofBE` is the number that bytes
spell. The two are inverse to each other: bytes are the spelling of their value
(`toBE_ofBE`), and the value of a spelling is the number as far as the width reaches
(`ofBE_toBE`). `shortestBE` is the spelling without leading zeros, whose first byte is
at least 128 exactly when the number fills all the bits (`shortestBE_high_iff`).
-/

namespace FakeSSH.Lib

/-- The last `w` bytes of a number. -/
def toBE : Nat → Nat → List UInt8
  | 0, _ => []
  | w + 1, n => toBE w (n / 256) ++ [UInt8.ofNat n]

/-- The number that bytes spell. -/
def ofBE (bs : List UInt8) : Nat := bs.foldl (fun n b => n * 256 + b.toNat) 0

/-- A number without leading zeros. -/
def shortestBE (n : Nat) : List UInt8 := toBE ((n.size + 7) / 8) n

variable {w n : Nat} {b : UInt8} {bs : List UInt8}

@[simp] theorem length_toBE (w n : Nat) : (toBE w n).length = w := by
  induction w generalizing n with
  | zero => rfl
  | succ w ih => rw [toBE, List.length_append, ih, List.length_singleton]

@[simp] theorem length_shortestBE (n : Nat) : (shortestBE n).length = (n.size + 7) / 8 :=
  length_toBE _ _

@[simp] theorem ofBE_nil : ofBE [] = 0 := rfl

theorem ofBE_concat (bs : List UInt8) (b : UInt8) :
    ofBE (bs ++ [b]) = ofBE bs * 256 + b.toNat := by
  rw [ofBE, List.foldl_append]
  rfl

theorem ofBE_cons (b : UInt8) (bs : List UInt8) :
    ofBE (b :: bs) = b.toNat * 256 ^ bs.length + ofBE bs := by
  induction bs using List.reverseRecOn with
  | nil => simp [ofBE]
  | append_singleton bs last ih =>
    rw [← List.cons_append, ofBE_concat, ofBE_concat, ih, List.length_append,
      List.length_singleton]
    ring

theorem ofBE_lt (bs : List UInt8) : ofBE bs < 256 ^ bs.length := by
  induction bs with
  | nil => exact Nat.one_pos
  | cons b bs ih =>
    have hb : b.toNat + 1 ≤ 256 := b.toNat_lt
    calc ofBE (b :: bs) = b.toNat * 256 ^ bs.length + ofBE bs := ofBE_cons b bs
      _ < (b.toNat + 1) * 256 ^ bs.length := by rw [Nat.add_mul, Nat.one_mul]; omega
      _ ≤ 256 * 256 ^ bs.length := Nat.mul_le_mul_right _ hb
      _ = 256 ^ (b :: bs).length := by rw [List.length_cons, Nat.pow_succ, Nat.mul_comm]

/-- The value of a spelling is the number, as far as the width reaches. -/
theorem ofBE_toBE (w n : Nat) : ofBE (toBE w n) = n % 256 ^ w := by
  induction w generalizing n with
  | zero => rw [Nat.pow_zero, Nat.mod_one]; rfl
  | succ w ih =>
    have byte : (UInt8.ofNat n).toNat = n % 256 := UInt8.toNat_ofNat'
    rw [toBE, ofBE_concat, ih, byte, Nat.pow_succ, Nat.mul_comm (256 ^ w), Nat.mod_mul,
      Nat.mul_comm, Nat.add_comm]

theorem ofBE_toBE_of_lt (h : n < 256 ^ w) : ofBE (toBE w n) = n := by
  rw [ofBE_toBE, Nat.mod_eq_of_lt h]

/-- Bytes are the spelling of their value. -/
theorem toBE_ofBE (bs : List UInt8) : toBE bs.length (ofBE bs) = bs := by
  induction bs using List.reverseRecOn with
  | nil => rfl
  | append_singleton bs last ih =>
    have low : (ofBE bs * 256 + last.toNat) / 256 = ofBE bs := by
      have := last.toNat_lt
      omega
    rw [List.length_append, List.length_singleton, toBE, ofBE_concat, low, ih]
    congr 2
    apply UInt8.toNat_inj.1
    have := last.toNat_lt
    rw [UInt8.toNat_ofNat']
    omega

theorem lt_pow_size (n : Nat) : n < 256 ^ ((n.size + 7) / 8) := by
  have bits : n < 2 ^ (8 * ((n.size + 7) / 8)) := by
    apply Nat.size_le.mp
    omega
  rwa [Nat.pow_mul] at bits

@[simp] theorem ofBE_shortestBE (n : Nat) : ofBE (shortestBE n) = n :=
  ofBE_toBE_of_lt (lt_pow_size n)

/-- The first byte is at least 128 exactly when the number has all the bits. -/
theorem high_iff (b : UInt8) (bs : List UInt8) :
    128 ≤ b.toNat ↔ 8 * (b :: bs).length ≤ (ofBE (b :: bs)).size := by
  have below := ofBE_lt bs
  have half : 2 ^ (8 * bs.length + 7) = 128 * 256 ^ bs.length := by
    rw [Nat.pow_add, Nat.pow_mul, Nat.mul_comm]
  have width : 8 * (b :: bs).length ≤ (ofBE (b :: bs)).size ↔
      2 ^ (8 * bs.length + 7) ≤ ofBE (b :: bs) := by
    rw [← Nat.lt_size, List.length_cons]
    omega
  rw [width, half, ofBE_cons]
  constructor
  · intro high
    exact Nat.le_add_right_of_le (Nat.mul_le_mul_right _ high)
  · intro large
    by_contra low
    have : (b.toNat + 1) * 256 ^ bs.length ≤ 128 * 256 ^ bs.length :=
      Nat.mul_le_mul_right _ (by omega)
    rw [Nat.add_mul, Nat.one_mul] at this
    omega

theorem shortestBE_high_iff (h : shortestBE n = b :: bs) : 128 ≤ b.toNat ↔ n.size % 8 = 0 := by
  have long : (b :: bs).length = (n.size + 7) / 8 := by rw [← h, length_shortestBE]
  rw [List.length_cons] at long
  rw [high_iff b bs, ← h, ofBE_shortestBE, length_shortestBE]
  omega

theorem shortestBE_eq_nil_iff : shortestBE n = [] ↔ n = 0 := by
  have zero := Nat.size_eq_zero (n := n)
  rw [← List.length_eq_zero_iff, length_shortestBE, ← zero]
  omega

end FakeSSH.Lib
