import FakeSSH.Lib.Utf8
import FakeSSH.Shell.Logging
import Mathlib.Order.Bounds.Basic

/-!
# Truncated text is text

`truncateString` cuts a string for the log and marks the cut. The cut is moved back as
long as the byte behind it continues a character, so it comes to stand between two
characters of a text: at the last such place that leaves room for the mark. Of a
string that is no text it is still a beginning, of no more bytes than allowed.

`checkedBackOff` is the loop with Go's check of the index in it.
-/

namespace FakeSSH.Shell

open FakeSSH.Go FakeSSH.Lib

variable {s : Bytes} {cut m : Nat} {cs : List Char}

/-! ## The loop -/

/-- The loop of `truncateString`; `none` is an index outside the string. -/
def checkedBackOff (s : Bytes) : Nat → Option Nat
  | 0 => some 0
  | cut + 1 => s[cut + 1]?.bind fun b =>
      if b &&& 0xC0 = 0x80 then checkedBackOff s cut else some (cut + 1)

theorem getElem?_of_lt {i : Nat} (h : i < s.length) : s[i]? = some (s.getD i 0) := by
  rw [List.getD_eq_getElem?_getD, List.getElem?_eq_getElem h, Option.getD_some]

/-- It only reads below where it starts. -/
theorem checkedBackOff_eq (h : cut < s.length) : checkedBackOff s cut = some (backOff s cut) := by
  induction cut with
  | zero => rfl
  | succ cut ih =>
    rw [checkedBackOff, getElem?_of_lt h, Option.bind_some, backOff]
    split
    · exact ih (Nat.lt_of_succ_lt h)
    · rfl

theorem backOff_le (s : Bytes) (cut : Nat) : backOff s cut ≤ cut := by
  induction cut with
  | zero => exact Nat.le_refl 0
  | succ cut ih =>
    rw [backOff]
    split
    · exact Nat.le_succ_of_le ih
    · exact Nat.le_refl _

/-- It stops at the front or at a byte that starts a character. -/
theorem backOff_starts (s : Bytes) (cut : Nat) :
    backOff s cut = 0 ∨ ¬ Continues (s.getD (backOff s cut) 0) := by
  induction cut with
  | zero => exact .inl rfl
  | succ cut ih =>
    rw [backOff]
    split
    next => exact ih
    next starts => exact .inr starts

/-- It passes bytes that continue one. -/
theorem backOff_passes {j : Nat} (above : backOff s cut < j) (le : j ≤ cut) :
    Continues (s.getD j 0) := by
  induction cut with
  | zero => omega
  | succ cut ih =>
    rw [backOff] at above
    split at above
    next continues =>
      by_cases last : j = cut + 1
      · rw [last]
        exact continues
      · exact ih above (by omega)
    next => omega

/-- In a text, it stops at the last boundary at or before its start. -/
theorem backOff_isGreatest (h : cut < (utf8 cs).length) :
    IsGreatest {j | j ≤ cut ∧ Boundary cs j} (backOff (utf8 cs) cut) := by
  have starts_iff {j : Nat} (le : j ≤ cut) :
      Boundary cs j ↔ ¬ Continues ((utf8 cs).getD j 0) :=
    boundary_iff (getElem?_of_lt (Nat.lt_of_le_of_lt le h))
  have le := backOff_le (utf8 cs) cut
  refine ⟨⟨le, ?_⟩, ?_⟩
  · rcases backOff_starts (utf8 cs) cut with front | starts
    · rw [front]
      exact boundary_zero cs
    · exact (starts_iff le).mpr starts
  · rintro j ⟨hj, boundary⟩
    by_contra above
    have continues := backOff_passes (not_le.mp above) hj
    exact (starts_iff hj).mp boundary continues

/-! ## The string -/

theorem truncateString_short (h : s.length ≤ m) : truncateString s m = s := if_pos (.inr h)

theorem truncateString_long (room : 3 ≤ m) (h : m < s.length) :
    truncateString s m = s.take (backOff s (m - 3)) ++ str "..." := by
  have cuts : ¬ (m = 0 ∨ s.length ≤ m) := by omega
  exact if_neg cuts

theorem truncateString_length (room : 3 ≤ m) (s : Bytes) : (truncateString s m).length ≤ m := by
  by_cases short : s.length ≤ m
  · rw [truncateString_short short]
    exact short
  · have le := backOff_le s (m - 3)
    have mark : (str "...").length = 3 := rfl
    rw [truncateString_long room (not_le.mp short), List.length_append, List.length_take, mark]
    omega

/-- TRUNCATION. A string within the limit is left alone. Of a longer one a beginning is
kept, with the mark behind it, within the limit; the loop stays within the string. Of a
text, what is kept is the longest beginning that leaves room for the mark and ends
between two characters, so that the result is a text. -/
theorem truncateString_text (s : Bytes) (m : Nat) (room : 3 ≤ m) :
    (s.length ≤ m → truncateString s m = s) ∧
    (m < s.length → ∃ kept, kept <+: s ∧ truncateString s m = kept ++ str "..." ∧
      (truncateString s m).length ≤ m ∧ checkedBackOff s (m - 3) = some kept.length ∧
      ∀ cs, s = utf8 cs → IsGreatest {j | j ≤ m - 3 ∧ Boundary cs j} kept.length) ∧
    (ValidUtf8 s → ValidUtf8 (truncateString s m)) := by
  refine ⟨truncateString_short, ?_, ?_⟩
  · intro long
    have le := backOff_le s (m - 3)
    have length : (s.take (backOff s (m - 3))).length = backOff s (m - 3) := by
      rw [List.length_take]
      omega
    refine ⟨_, List.take_prefix _ _, truncateString_long room long, truncateString_length room s,
      ?_, ?_⟩
    · rw [length]
      exact checkedBackOff_eq (by omega)
    · rintro cs rfl
      rw [length]
      exact backOff_isGreatest (by omega)
  · rintro ⟨cs, rfl⟩
    by_cases short : (utf8 cs).length ≤ m
    · rw [truncateString_short short]
      exact ⟨cs, rfl⟩
    · have long := not_le.mp short
      have greatest : IsGreatest _ (backOff (utf8 cs) (m - 3)) := backOff_isGreatest (by omega)
      obtain ⟨as, bs, rfl, cut⟩ := greatest.1.2
      refine ⟨as ++ ['.', '.', '.'], ?_⟩
      rw [truncateString_long room long, ← cut, utf8_append as bs, List.take_left, utf8_append]
      rfl

/-- Five bytes are allowed, and the third byte of `aééx` is the middle of a character. -/
theorem truncateString_text_accents :
    let s := utf8 ['a', 'é', 'é', 'x']
    truncateString s 5 = str "a..." ∧ ∃ kept, kept <+: s ∧
      truncateString s 5 = kept ++ str "..." ∧
      ∀ cs, s = utf8 cs → IsGreatest {j | j ≤ 5 - 3 ∧ Boundary cs j} kept.length := by
  refine ⟨by decide +kernel, ?_⟩
  obtain ⟨-, cuts, -⟩ := truncateString_text (utf8 ['a', 'é', 'é', 'x']) 5 (by decide)
  obtain ⟨kept, beginning, eq, -, -, greatest⟩ := cuts (by decide +kernel)
  exact ⟨kept, beginning, eq, greatest⟩

end FakeSSH.Shell
