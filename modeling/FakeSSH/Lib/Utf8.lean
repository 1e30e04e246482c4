import Mathlib.Data.List.Basic

/-!
# Text in UTF-8

A text is a list of characters, its bytes are their encodings one behind the other. A
byte starts a character or continues one, and which of the two it is shows in its two
highest bits (`continues_iff`). So a place in the bytes of a text is between two
characters exactly if the byte there does not continue one (`boundary_iff`).
-/

namespace FakeSSH.Lib

/-- The bytes of a text. -/
def utf8 (cs : List Char) : List UInt8 := cs.flatMap String.utf8EncodeChar

def ValidUtf8 (s : List UInt8) : Prop := ∃ cs, s = utf8 cs

/-- A continuation byte: `10` are its highest bits. -/
def Continues (b : UInt8) : Prop := b &&& 0xC0 = 0x80

instance (b : UInt8) : Decidable (Continues b) := inferInstanceAs (Decidable (_ = _))

theorem continues_iff {b : UInt8} : Continues b ↔ 128 ≤ b.toNat ∧ b.toNat < 192 := by
  have bits : ∀ x : BitVec 8, x &&& 0xC0#8 = 0x80#8 ↔ 128 ≤ x.toNat ∧ x.toNat < 192 := by
    decide +kernel
  rw [Continues, ← UInt8.toBitVec_inj, UInt8.toBitVec_and]
  exact bits b.toBitVec

/-- The first byte of a character starts one, the others continue it. -/
theorem utf8EncodeChar_bytes (c : Char) : ∃ first rest, String.utf8EncodeChar c = first :: rest ∧
    ¬ Continues first ∧ ∀ b ∈ rest, Continues b := by
  have continued (n : Nat) : Continues (UInt8.ofNat (n % 64 + 128)) := by
    rw [continues_iff, UInt8.toNat_ofNat']
    omega
  have fresh {n : Nat} (high : n < 128 ∨ 192 ≤ n) (small : n < 256) :
      ¬ Continues (UInt8.ofNat n) := by
    rw [continues_iff, UInt8.toNat_ofNat', Nat.mod_eq_of_lt small]
    omega
  unfold String.utf8EncodeChar
  dsimp only
  split
  next => exact ⟨_, _, rfl, fresh (by omega) (by omega), List.forall_mem_nil _⟩
  next =>
  split
  next =>
    refine ⟨_, _, rfl, fresh (by omega) (by omega), ?_⟩
    exact List.forall_mem_singleton.mpr (continued _)
  next =>
  split
  next =>
    refine ⟨_, _, rfl, fresh (by omega) (by omega), ?_⟩
    exact List.forall_mem_cons.mpr ⟨continued _, List.forall_mem_singleton.mpr (continued _)⟩
  next =>
    refine ⟨_, _, rfl, fresh (by omega) (by omega), ?_⟩
    exact List.forall_mem_cons.mpr ⟨continued _, List.forall_mem_cons.mpr
      ⟨continued _, List.forall_mem_singleton.mpr (continued _)⟩⟩

variable {cs : List Char} {i : Nat}

theorem utf8_cons (c : Char) (cs : List Char) :
    utf8 (c :: cs) = String.utf8EncodeChar c ++ utf8 cs := List.flatMap_cons

theorem utf8_append (as bs : List Char) : utf8 (as ++ bs) = utf8 as ++ utf8 bs :=
  List.flatMap_append

/-- A place between two characters, or at an end. -/
def Boundary (cs : List Char) (i : Nat) : Prop := ∃ as bs, cs = as ++ bs ∧ (utf8 as).length = i

theorem boundary_zero (cs : List Char) : Boundary cs 0 := ⟨[], cs, rfl, rfl⟩

theorem boundary_cons {c : Char} : Boundary (c :: cs) i ↔
    i = 0 ∨ ∃ j, Boundary cs j ∧ i = (String.utf8EncodeChar c).length + j := by
  constructor
  · rintro ⟨as, bs, split, rfl⟩
    cases as with
    | nil => exact .inl rfl
    | cons a as =>
      obtain ⟨rfl, rfl⟩ := List.cons.inj split
      exact .inr ⟨_, ⟨as, bs, rfl, rfl⟩, by rw [utf8_cons, List.length_append]⟩
  · rintro (rfl | ⟨j, ⟨as, bs, rfl, rfl⟩, rfl⟩)
    · exact boundary_zero _
    · exact ⟨c :: as, bs, rfl, by rw [utf8_cons, List.length_append]⟩

/-- A byte of a text is at a boundary exactly if it starts a character. -/
theorem boundary_iff {b : UInt8} (h : (utf8 cs)[i]? = some b) : Boundary cs i ↔ ¬ Continues b := by
  induction cs generalizing i with
  | nil => cases h
  | cons c cs ih =>
    obtain ⟨first, rest, encoded, starts, continued⟩ := utf8EncodeChar_bytes c
    rw [utf8_cons, encoded, List.cons_append] at h
    rw [boundary_cons, encoded, List.length_cons]
    cases i with
    | zero =>
      obtain rfl := Option.some.inj h
      exact iff_of_true (.inl rfl) starts
    | succ i =>
      rw [List.getElem?_cons_succ] at h
      by_cases inside : i < rest.length
      · -- within the character
        rw [List.getElem?_append_left inside] at h
        refine iff_of_false ?_ (not_not.mpr (continued b (List.mem_of_getElem? h)))
        rintro (zero | ⟨j, -, sum⟩) <;> omega
      · rw [List.getElem?_append_right (Nat.not_lt.mp inside)] at h
        rw [← ih h]
        constructor
        · rintro (zero | ⟨j, boundary, sum⟩)
          · cases zero
          · obtain rfl : i - rest.length = j := by omega
            exact boundary
        · intro boundary
          exact .inr ⟨_, boundary, by omega⟩

end FakeSSH.Lib
