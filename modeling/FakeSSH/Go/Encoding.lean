import FakeSSH.Go.Runes
import FakeSSH.Lib.Utf8

/-!
# Encoded runes

What `WriteRune` encodes is decoded again, whatever follows it (`decodeRune_encoded`), so
a `range` loop over encoded runes meets them (`runesFrom_encoded`). A text in UTF-8 is
encoded from its characters in this way (`runes_utf8`).
-/

namespace FakeSSH.Go

open FakeSSH.Lib

/-- A rune that UTF-8 encodes: none of the surrogates. -/
def Scalar (r : Nat) : Prop := r < 0xD800 ∨ 0xE000 ≤ r ∧ r ≤ 0x10FFFF

instance (r : Nat) : Decidable (Scalar r) := inferInstanceAs (Decidable (_ ∨ _))

section Bytes

variable {n : Nat} {b c lo hi : UInt8}

theorem toNat_byte (h : n < 256) : (UInt8.ofNat n).toNat = n := UInt8.toNat_ofNat_of_lt' h

theorem byte_lt (hb : b.toNat = n) (h : n < c.toNat) : b < c :=
  UInt8.lt_iff_toNat_lt.mpr (hb ▸ h)

theorem byte_not_lt (hb : b.toNat = n) (h : c.toNat ≤ n) : ¬ b < c :=
  UInt8.not_lt.mpr (UInt8.le_iff_toNat_le.mpr (hb ▸ h))

theorem isCont_byte (hb : b.toNat = n) (low : lo.toNat ≤ n) (high : n ≤ hi.toNat) :
    isCont lo hi b = true := by
  rw [isCont, Bool.and_eq_true, decide_eq_true_eq, decide_eq_true_eq]
  exact ⟨UInt8.le_iff_toNat_le.mpr (hb ▸ low), UInt8.le_iff_toNat_le.mpr (hb ▸ high)⟩

/-- The last bytes of a wide rune. -/
theorem isCont_tail (n : Nat) : isCont 0x80 0xBF (UInt8.ofNat (0x80 + n % 64)) = true := by
  have high : 0x80 + n % 64 ≤ 0xBF := by omega
  exact isCont_byte (toNat_byte (by omega)) (Nat.le_add_right ..) high

/-- The second byte, whose range is narrowed after two of the first bytes. -/
theorem isCont_second {least most : UInt8} (n : Nat)
    (low : b = least → lo.toNat ≤ 0x80 + n % 64) (high : b = most → 0x80 + n % 64 ≤ hi.toNat) :
    isCont (if b = least then lo else 0x80) (if b = most then hi else 0xBF)
      (UInt8.ofNat (0x80 + n % 64)) = true := by
  have bound : 0x80 + n % 64 ≤ 0xBF := by omega
  apply isCont_byte (toNat_byte (by omega))
  · split
    next h => exact low h
    next => exact Nat.le_add_right ..
  · split
    next h => exact high h
    next => exact bound

theorem contBits_tail (n : Nat) : contBits (UInt8.ofNat (0x80 + n % 64)) = n % 64 := by
  rw [contBits, toNat_byte (by omega)]
  omega

end Bytes

section Widths

variable {r : Nat} (rest : Bytes)

theorem decodeRune_encoded_ascii (ascii : r < 0x80) :
    decodeRune (encodeRune r ++ rest) = (r, (encodeRune r).length) := by
  have byte : (UInt8.ofNat r).toNat = r := toNat_byte (by omega)
  rw [encodeRune, if_pos ascii, List.singleton_append, decodeRune_ascii (byte_lt byte ascii), byte]
  rfl

variable (wide : 0x80 ≤ r)

include wide

theorem decodeRune_encoded_two (two : r < 0x800) :
    decodeRune (encodeRune r ++ rest) = (r, (encodeRune r).length) := by
  have lead : (UInt8.ofNat (0xC0 + r / 64)).toNat = 0xC0 + r / 64 := toNat_byte (by omega)
  have ascii : ¬ UInt8.ofNat (0xC0 + r / 64) < 0x80 := byte_not_lt lead (by change 0x80 ≤ _; omega)
  have low : ¬ UInt8.ofNat (0xC0 + r / 64) < 0xC2 := byte_not_lt lead (by change 0xC2 ≤ _; omega)
  have high : UInt8.ofNat (0xC0 + r / 64) < 0xE0 := byte_lt lead (by change _ < 0xE0; omega)
  have value : (0xC0 + r / 64) % 32 * 64 + r % 64 = r := by omega
  rw [encodeRune, if_neg (Nat.not_lt.mpr wide), if_pos two]
  simp only [List.cons_append, List.nil_append, decodeRune, ascii, low, high, isCont_tail, if_true,
    if_false, lead, contBits_tail, value]
  rfl

theorem decodeRune_encoded_three (two : ¬ r < 0x800) (three : r < 0x10000) (scalar : Scalar r) :
    decodeRune (encodeRune r ++ rest) = (r, (encodeRune r).length) := by
  have lead : (UInt8.ofNat (0xE0 + r / 4096)).toNat = 0xE0 + r / 4096 := toNat_byte (by omega)
  have value : (0xE0 + r / 4096) % 16 * 4096 + r / 64 % 64 * 64 + r % 64 = r := by omega
  rw [encodeRune, if_neg (Nat.not_lt.mpr wide), if_neg two, if_pos three]
  generalize UInt8.ofNat (0xE0 + r / 4096) = b at lead
  have ascii : ¬ b < 0x80 := byte_not_lt lead (by change 0x80 ≤ _; omega)
  have low : ¬ b < 0xC2 := byte_not_lt lead (by change 0xC2 ≤ _; omega)
  have longer : ¬ b < 0xE0 := byte_not_lt lead (Nat.le_add_right ..)
  have high : b < 0xF0 := byte_lt lead (by change _ < 0xF0; omega)
  -- after `E0` no overlong form, after `ED` no surrogate
  have second : isCont (if b = 0xE0 then 0xA0 else 0x80) (if b = 0xED then 0x9F else 0xBF)
      (UInt8.ofNat (0x80 + r / 64 % 64)) = true := by
    apply isCont_second
    · rintro rfl
      have : 0xE0 = 0xE0 + r / 4096 := lead
      change 0xA0 ≤ _
      omega
    · rintro rfl
      have : 0xED = 0xE0 + r / 4096 := lead
      change _ ≤ 0x9F
      unfold Scalar at scalar
      omega
  simp only [List.cons_append, List.nil_append, decodeRune, ascii, low, longer, high, second,
    isCont_tail, Bool.and_true, if_true, if_false, lead, contBits_tail, value]
  rfl

theorem decodeRune_encoded_four (two : ¬ r < 0x800) (three : ¬ r < 0x10000)
    (scalar : r ≤ 0x10FFFF) :
    decodeRune (encodeRune r ++ rest) = (r, (encodeRune r).length) := by
  have lead : (UInt8.ofNat (0xF0 + r / 262144)).toNat = 0xF0 + r / 262144 :=
    toNat_byte (by omega)
  have value : (0xF0 + r / 262144) % 8 * 262144 + r / 4096 % 64 * 4096 + r / 64 % 64 * 64 +
      r % 64 = r := by omega
  rw [encodeRune, if_neg (Nat.not_lt.mpr wide), if_neg two, if_neg three]
  generalize UInt8.ofNat (0xF0 + r / 262144) = b at lead
  have ascii : ¬ b < 0x80 := byte_not_lt lead (by change 0x80 ≤ _; omega)
  have low : ¬ b < 0xC2 := byte_not_lt lead (by change 0xC2 ≤ _; omega)
  have longer : ¬ b < 0xE0 := byte_not_lt lead (by change 0xE0 ≤ _; omega)
  have longest : ¬ b < 0xF0 := byte_not_lt lead (Nat.le_add_right ..)
  have high : b < 0xF5 := byte_lt lead (by change _ < 0xF5; omega)
  -- after `F0` no overlong form, after `F4` nothing past the last rune
  have second : isCont (if b = 0xF0 then 0x90 else 0x80) (if b = 0xF4 then 0x8F else 0xBF)
      (UInt8.ofNat (0x80 + r / 4096 % 64)) = true := by
    apply isCont_second
    · rintro rfl
      have : 0xF0 = 0xF0 + r / 262144 := lead
      change 0x90 ≤ _
      omega
    · rintro rfl
      have : 0xF4 = 0xF0 + r / 262144 := lead
      change _ ≤ 0x8F
      omega
  simp only [List.cons_append, List.nil_append, decodeRune, ascii, low, longer, longest, high,
    second, isCont_tail, Bool.and_true, if_true, if_false, lead, contBits_tail, value]
  rfl

end Widths

/-- What is encoded is decoded. -/
theorem decodeRune_encoded {r : Nat} (scalar : Scalar r) (rest : Bytes) :
    decodeRune (encodeRune r ++ rest) = (r, (encodeRune r).length) := by
  by_cases ascii : r < 0x80
  · exact decodeRune_encoded_ascii rest ascii
  have wide := Nat.not_lt.mp ascii
  by_cases two : r < 0x800
  · exact decodeRune_encoded_two rest wide two
  by_cases three : r < 0x10000
  · exact decodeRune_encoded_three rest wide two three scalar
  · refine decodeRune_encoded_four rest wide two three ?_
    unfold Scalar at scalar
    omega

theorem runesFrom_skip (i : Nat) (skipped rest : Bytes) :
    runesFrom i skipped.length (skipped ++ rest) = runesFrom (i + skipped.length) 0 rest := by
  induction skipped generalizing i with
  | nil => rfl
  | cons b skipped ih =>
    rw [List.length_cons, List.cons_append, runesFrom, ih]
    congr 1
    omega

theorem encodeRune_ne_nil (r : Nat) : encodeRune r ≠ [] := by
  unfold encodeRune
  split_ifs <;> exact List.cons_ne_nil _ _

/-- A `range` loop over encoded runes meets those runes. -/
theorem runesFrom_encoded {rs : List Nat} (scalars : ∀ r ∈ rs, Scalar r) (i : Nat) :
    (runesFrom i 0 (rs.flatMap encodeRune)).map RuneAt.rune = rs := by
  induction rs generalizing i with
  | nil => rfl
  | cons r rs ih =>
    obtain ⟨scalar, scalars⟩ := List.forall_mem_cons.mp scalars
    obtain ⟨b, tail, encoded⟩ := List.exists_cons_of_ne_nil (encodeRune_ne_nil r)
    have decoded := decodeRune_encoded scalar (rs.flatMap encodeRune)
    rw [encoded, List.cons_append] at decoded
    rw [List.flatMap_cons, encoded, List.cons_append, runesFrom, decoded, List.length_cons,
      Nat.add_sub_cancel, runesFrom_skip, List.map_cons, ih scalars]

/-! ## Texts -/

/-- A character is a rune that UTF-8 encodes. -/
theorem scalar_toNat (c : Char) : Scalar c.toNat := by
  have valid : c.toNat < 0xD800 ∨ 0xDFFF < c.toNat ∧ c.toNat < 0x110000 := c.valid
  unfold Scalar
  omega

/-- Lean's encoder, which takes the bits of a byte where Go adds them. -/
theorem utf8EncodeChar_eq (c : Char) : String.utf8EncodeChar c = encodeRune c.toNat := by
  have scalar := scalar_toNat c
  have val : c.val.toNat = c.toNat := rfl
  unfold String.utf8EncodeChar encodeRune
  dsimp only
  rw [val]
  generalize c.toNat = r at scalar
  unfold Scalar at scalar
  by_cases ascii : r < 0x80
  · rw [if_pos ascii, if_pos (show r ≤ 127 by omega)]
  rw [if_neg ascii, if_neg (show ¬ r ≤ 127 by omega)]
  by_cases two : r < 0x800
  · have lead : r / 64 % 32 + 192 = 0xC0 + r / 64 := by omega
    rw [if_pos two, if_pos (show r ≤ 2047 by omega), lead, Nat.add_comm (r % 64)]
  rw [if_neg two, if_neg (show ¬ r ≤ 2047 by omega)]
  by_cases three : r < 0x10000
  · have lead : r / 4096 % 16 + 224 = 0xE0 + r / 4096 := by omega
    rw [if_pos three, if_pos (show r ≤ 65535 by omega), lead, Nat.add_comm (r % 64),
      Nat.add_comm (r / 64 % 64)]
  · have lead : r / 262144 % 8 + 240 = 0xF0 + r / 262144 := by omega
    rw [if_neg three, if_neg (show ¬ r ≤ 65535 by omega), lead, Nat.add_comm (r % 64),
      Nat.add_comm (r / 64 % 64), Nat.add_comm (r / 4096 % 64)]

/-- A `range` loop over a text meets its characters. -/
theorem runes_utf8 (cs : List Char) : (runes (utf8 cs)).map RuneAt.rune = cs.map Char.toNat := by
  have encoded : utf8 cs = (cs.map Char.toNat).flatMap encodeRune := by
    rw [List.flatMap_map]
    exact List.flatMap_congr fun c _ => utf8EncodeChar_eq c
  have scalars : ∀ r ∈ cs.map Char.toNat, Scalar r := by
    intro r hr
    obtain ⟨c, -, rfl⟩ := List.mem_map.mp hr
    exact scalar_toNat c
  rw [encoded]
  exact runesFrom_encoded scalars 0

end FakeSSH.Go
