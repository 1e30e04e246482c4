import FakeSSH.Go.Encoding

/-!
# Capital letters

`strings.ToUpper` maps a string rune by rune. What it returns is encoded from runes, so
it decodes to the same runes, and as a capital letter is its own capital, a second
`ToUpper` changes nothing (`toUpper_idem`). On ASCII strings it is `Go.toUpper`.
-/

namespace FakeSSH.Go

/-- `unicode.ToUpper`, with what it does beyond ASCII. -/
def upperRune (upper : Nat → Nat) (r : Nat) : Nat :=
  if r < 0x80 then (if 0x61 ≤ r ∧ r ≤ 0x7A then r - 0x20 else r) else upper r

/-- What `unicode.ToUpper` does beyond ASCII. The tables of the library are left open;
what is known of them is that they lead to runes, and that a capital is its own
capital. It can be an ASCII one: that of the long `ſ` is `S`. -/
structure CapitalTable where
  upper : Nat → Nat
  scalar : ∀ r, Scalar (upper r)
  idem : ∀ r, upperRune upper (upper r) = upper r

/-- The table of a library that knows no letters beyond ASCII. -/
def asciiCapitals : CapitalTable where
  upper := fun r => if 0x80 ≤ r ∧ Scalar r then r else runeError
  scalar := fun r => by
    split
    next h => exact h.2
    next => decide
  idem := fun r => by
    split
    next h => rw [upperRune, if_neg (Nat.not_lt.mpr h.1), if_pos h]
    next => decide

namespace CapitalTable

variable (t : CapitalTable)

/-- `strings.ToUpper`: rune by rune. -/
def toUpper (s : Bytes) : Bytes := (runes s).flatMap fun d => encodeRune (upperRune t.upper d.rune)

variable {r : Nat}

theorem upperRune_scalar (r : Nat) : Scalar (upperRune t.upper r) := by
  unfold upperRune
  split
  · left
    split <;> omega
  · exact t.scalar r

theorem upperRune_idem (r : Nat) :
    upperRune t.upper (upperRune t.upper r) = upperRune t.upper r := by
  by_cases ascii : r < 0x80
  · have upper : upperRune t.upper r = if 0x61 ≤ r ∧ r ≤ 0x7A then r - 0x20 else r := if_pos ascii
    rw [upper]
    unfold upperRune
    split_ifs <;> omega
  · have upper : upperRune t.upper r = t.upper r := if_neg ascii
    rw [upper]
    exact t.idem r

theorem toUpper_eq (s : Bytes) :
    t.toUpper s = (((runes s).map RuneAt.rune).map (upperRune t.upper)).flatMap encodeRune := by
  rw [List.map_map, List.flatMap_map]
  rfl

theorem toUpper_idem (s : Bytes) : t.toUpper (t.toUpper s) = t.toUpper s := by
  have scalars : ∀ r ∈ ((runes s).map RuneAt.rune).map (upperRune t.upper), Scalar r := by
    intro r hr
    obtain ⟨r, -, rfl⟩ := List.mem_map.mp hr
    exact t.upperRune_scalar r
  rw [toUpper_eq t s, toUpper_eq, runes, runesFrom_encoded scalars, List.map_map]
  congr 1
  exact List.map_congr_left fun r _ => t.upperRune_idem r

theorem encodeRune_upperRune_ascii {b : UInt8} (ascii : b < 0x80) :
    encodeRune (upperRune t.upper b.toNat) = [if 0x61 ≤ b ∧ b ≤ 0x7A then b - 0x20 else b] := by
  have small : b.toNat < 0x80 := UInt8.lt_iff_toNat_lt.mp ascii
  have letter : 0x61 ≤ b ∧ b ≤ 0x7A ↔ 0x61 ≤ b.toNat ∧ b.toNat ≤ 0x7A :=
    and_congr UInt8.le_iff_toNat_le UInt8.le_iff_toNat_le
  rw [upperRune, if_pos small]
  by_cases h : 0x61 ≤ b ∧ b ≤ 0x7A
  · have low : (0x20 : UInt8) ≤ b := UInt8.le_trans (by decide) h.1
    have capital : (b - 0x20).toNat = b.toNat - 0x20 := UInt8.toNat_sub_of_le _ _ low
    rw [if_pos h, if_pos (letter.mp h), ← capital]
    exact encodeRune_ascii (by omega)
  · rw [if_neg h, if_neg (mt letter.mpr h)]
    exact encodeRune_ascii small

theorem flatMap_runesFrom_ascii {s : Bytes} (ascii : ∀ b ∈ s, b < 0x80) (i : Nat) :
    (runesFrom i 0 s).flatMap (fun d => encodeRune (upperRune t.upper d.rune)) = Go.toUpper s := by
  induction s generalizing i with
  | nil => rfl
  | cons b s ih =>
    obtain ⟨hb, ascii⟩ := List.forall_mem_cons.mp ascii
    rw [runesFrom, decodeRune_ascii hb]
    dsimp only
    rw [List.flatMap_cons, ih ascii, encodeRune_upperRune_ascii t hb]
    rfl

theorem toUpper_of_ascii {s : Bytes} (ascii : ∀ b ∈ s, b < 0x80) : t.toUpper s = Go.toUpper s :=
  flatMap_runesFrom_ascii t ascii 0

end CapitalTable

end FakeSSH.Go
