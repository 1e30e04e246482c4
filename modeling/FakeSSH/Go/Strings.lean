import Mathlib.Data.List.AList

/-!
# Go strings, as bytes

A Go `string` is a sequence of bytes with no promise that they are UTF-8, and
the code this development models reads client-chosen ones. So a string here is
the list of its bytes, and the few functions of `strings`, `unicode` and
`unicode/utf8` that the model needs are written over that list, as their
documentation states them.

Decoding follows Go's `utf8.DecodeRuneInString`: overlong forms, surrogates
and truncated forms are one byte of `RuneError`. `runes` is the walk that both
`for _, r := range s` and an explicit decode loop make, with the skip counter
standing for `i += size` so that the recursion stays on the list.
-/

namespace FakeSSH.Go

/-- A Go `string` or `[]byte`. -/
abbrev Bytes := List UInt8

instance : LawfulBEq Bytes := inferInstance

/-- A Go `map[string]V`: unique keys, and an order nothing depends on. -/
abbrev Map (V : Type) := AList fun _ : Bytes => V

/-- The bytes of an ASCII literal. -/
def str (s : String) : Bytes := s.toList.map fun c => UInt8.ofNat c.toNat

def slash : UInt8 := 0x2F
def backslash : UInt8 := 0x5C
def colon : UInt8 := 0x3A
def newline : UInt8 := 0x0A

/-- `strings.TrimPrefix`. -/
def trimPrefix (lead s : Bytes) : Bytes :=
  if lead.isPrefixOf s then s.drop lead.length else s

/-- `strings.CutPrefix`. -/
def cutPrefix (lead s : Bytes) : Option Bytes :=
  if lead.isPrefixOf s then some (s.drop lead.length) else none

theorem cutPrefix_eq_some {lead s rest : Bytes} :
    cutPrefix lead s = some rest ↔ s = lead ++ rest := by
  unfold cutPrefix
  rw [Option.ite_none_right_eq_some, List.isPrefixOf_iff_prefix, Option.some.injEq]
  constructor
  · rintro ⟨⟨t, rfl⟩, rfl⟩
    rw [List.drop_left]
  · rintro rfl
    exact ⟨List.prefix_append _ _, List.drop_left⟩

/-- `strings.ContainsAny` for an ASCII set. -/
def containsAny (s chars : Bytes) : Bool := s.any fun b => chars.contains b

/-- `strings.Contains`. -/
def contains (sub : Bytes) : Bytes → Bool
  | [] => sub.isEmpty
  | c :: rest => sub.isPrefixOf (c :: rest) || contains sub rest

/-! ## Runes -/

/-- `utf8.RuneError`, the replacement character. -/
def runeError : Nat := 0xFFFD

/-- A UTF-8 continuation byte within `[lo, hi]`. -/
def isCont (lo hi b : UInt8) : Bool := decide (lo ≤ b) && decide (b ≤ hi)

/-- The six payload bits of a continuation byte. -/
def contBits (b : UInt8) : Nat := b.toNat % 64

/-- `utf8.DecodeRuneInString`: the first rune and its width. The second byte's
range is narrowed after `E0`, `ED`, `F0` and `F4`, which is what excludes
overlong forms, surrogates and runes past `10FFFF`. -/
def decodeRune : Bytes → Nat × Nat
  | [] => (runeError, 0)
  | b0 :: rest =>
    if b0 < 0x80 then (b0.toNat, 1)
    else if b0 < 0xC2 then (runeError, 1)
    else if b0 < 0xE0 then
      match rest with
      | b1 :: _ =>
        if isCont 0x80 0xBF b1 then (b0.toNat % 32 * 64 + contBits b1, 2) else (runeError, 1)
      | [] => (runeError, 1)
    else if b0 < 0xF0 then
      match rest with
      | b1 :: b2 :: _ =>
        if isCont (if b0 = 0xE0 then 0xA0 else 0x80) (if b0 = 0xED then 0x9F else 0xBF) b1 &&
            isCont 0x80 0xBF b2 then
          (b0.toNat % 16 * 4096 + contBits b1 * 64 + contBits b2, 3)
        else (runeError, 1)
      | _ => (runeError, 1)
    else if b0 < 0xF5 then
      match rest with
      | b1 :: b2 :: b3 :: _ =>
        if isCont (if b0 = 0xF0 then 0x90 else 0x80) (if b0 = 0xF4 then 0x8F else 0xBF) b1 &&
            isCont 0x80 0xBF b2 && isCont 0x80 0xBF b3 then
          (b0.toNat % 8 * 262144 + contBits b1 * 4096 + contBits b2 * 64 + contBits b3, 4)
        else (runeError, 1)
      | _ => (runeError, 1)
    else (runeError, 1)

/-- `strings.Builder.WriteRune`'s encoding of a decoded rune. -/
def encodeRune (r : Nat) : Bytes :=
  if r < 0x80 then [UInt8.ofNat r]
  else if r < 0x800 then [UInt8.ofNat (0xC0 + r / 64), UInt8.ofNat (0x80 + r % 64)]
  else if r < 0x10000 then
    [UInt8.ofNat (0xE0 + r / 4096), UInt8.ofNat (0x80 + r / 64 % 64), UInt8.ofNat (0x80 + r % 64)]
  else
    [UInt8.ofNat (0xF0 + r / 262144), UInt8.ofNat (0x80 + r / 4096 % 64),
      UInt8.ofNat (0x80 + r / 64 % 64), UInt8.ofNat (0x80 + r % 64)]

/-- One step of a decode loop: where the rune starts, the rune and its width. -/
structure RuneAt where
  offset : Nat
  rune : Nat
  size : Nat
  deriving DecidableEq, Repr

/-- The decode loop from offset `i`, with `skip` bytes of the current rune
still to pass over. -/
def runesFrom : Nat → Nat → Bytes → List RuneAt
  | _, _, [] => []
  | i, skip + 1, _ :: s => runesFrom (i + 1) skip s
  | i, 0, b :: s =>
    let d := decodeRune (b :: s)
    ⟨i, d.1, d.2⟩ :: runesFrom (i + 1) (d.2 - 1) s

/-- Every rune of a string in order, as a `range` loop meets them. -/
def runes (s : Bytes) : List RuneAt := runesFrom 0 0 s

/-- `unicode.IsControl`: category Cc. -/
def isControl (r : Nat) : Bool := decide (r < 0x20) || (decide (0x7F ≤ r) && decide (r < 0xA0))

/-- `unicode.IsSpace`: the White Space property. -/
def isSpace (r : Nat) : Bool :=
  (decide (0x09 ≤ r) && decide (r ≤ 0x0D)) || r == 0x20 || r == 0x85 || r == 0xA0 ||
    r == 0x1680 || (decide (0x2000 ≤ r) && decide (r ≤ 0x200A)) || r == 0x2028 || r == 0x2029 ||
    r == 0x202F || r == 0x205F || r == 0x3000

/-! ## Letter case -/

/-- What `unicode.ToLower` does beyond ASCII. The tables of the library are left
open; what is known of them is that no rune beyond ASCII has an ASCII capital as its
small letter. -/
structure CaseTable where
  lower : Nat → Nat
  lower_le : ∀ r, lower r ≤ 0x10FFFF
  lower_not_capital : ∀ r, ¬ (0x41 ≤ lower r ∧ lower r ≤ 0x5A)

/-- The table of a library that knows no letters beyond ASCII: every rune there is its
own small letter. -/
def asciiCase : CaseTable where
  lower := fun r => min (max r 0x80) 0x10FFFF
  lower_le := fun r => by omega
  lower_not_capital := fun r => by omega

/-- `unicode.ToLower`. -/
def CaseTable.toLowerRune (t : CaseTable) (r : Nat) : Nat :=
  if r < 0x80 then (if 0x41 ≤ r ∧ r ≤ 0x5A then r + 0x20 else r) else t.lower r

/-- `strings.ToLower`: rune by rune. -/
def CaseTable.toLower (t : CaseTable) (s : Bytes) : Bytes :=
  (runes s).flatMap fun d => encodeRune (t.toLowerRune d.rune)

/-- `strings.ToUpper` on ASCII strings, which the names of variables are. -/
def toUpper (s : Bytes) : Bytes :=
  s.map fun b => if 0x61 ≤ b ∧ b ≤ 0x7A then b - 0x20 else b

/-! ## Trimming -/

/-- The width of the white space a string starts with, zero when it does not. -/
def spaceWidth (s : Bytes) : Nat :=
  let d := decodeRune s
  if isSpace d.1 then d.2 else 0

/-- The width of the white space a string ends with, read from its reversal.
White space is one, two or three bytes wide, and a suffix that decodes as one
of those is what `utf8.DecodeLastRune` finds. -/
def lastSpaceWidth : Bytes → Nat
  | b0 :: rest =>
    if spaceWidth [b0] = 1 then 1
    else match rest with
      | b1 :: rest =>
        if spaceWidth [b1, b0] = 2 then 2
        else match rest with
          | b2 :: _ => if spaceWidth [b2, b1, b0] = 3 then 3 else 0
          | [] => 0
      | [] => 0
  | [] => 0

/-- Drop leading pieces while `width` measures one, `skip` bytes of the current
piece still to pass over. -/
def dropPieces (width : Bytes → Nat) : Nat → Bytes → Bytes
  | _, [] => []
  | skip + 1, _ :: s => dropPieces width skip s
  | 0, b :: s =>
    match width (b :: s) with
    | 0 => b :: s
    | w + 1 => dropPieces width w s

/-- `strings.TrimSpace`. -/
def trimSpace (s : Bytes) : Bytes :=
  (dropPieces lastSpaceWidth 0 (dropPieces spaceWidth 0 s).reverse).reverse

end FakeSSH.Go
