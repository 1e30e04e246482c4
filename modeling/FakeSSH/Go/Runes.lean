import FakeSSH.Go.Strings

/-!
# Runes and white space

An ASCII byte is a rune of its own wherever it stands: it decodes to itself, and the
bytes that a wider rune takes with its first are never ASCII. So a check that a
`range` loop makes of ASCII runes is a check of the bytes.

A trimmed string has no white space at either end (`Trimmed`). `TrimSpace` returns
one, and leaves one alone; the second pass, from the back, cannot uncover white space
at the front, since a rune that starts a string starts every longer one.
-/

namespace FakeSSH.Go

theorem decodeRune_ascii {b : UInt8} (ascii : b < 0x80) (rest : Bytes) :
    decodeRune (b :: rest) = (b.toNat, 1) := by
  rw [decodeRune.eq_def]
  dsimp only
  rw [if_pos ascii]

theorem encodeRune_ascii {b : UInt8} (h : b.toNat < 0x80) : encodeRune b.toNat = [b] := by
  rw [encodeRune, if_pos h, UInt8.ofNat_toNat]

theorem isCont_high {lo hi b : UInt8} (hlo : 0x80 ≤ lo) (h : isCont lo hi b = true) : 0x80 ≤ b := by
  simp only [isCont, Bool.and_eq_true, decide_eq_true_eq] at h
  exact UInt8.le_trans hlo h.1

/-- A rune starts a string: its bytes behind the first are not ASCII, and it is decoded
the same whatever follows them. -/
def RuneStarts (b : UInt8) (rest : Bytes) : Prop :=
  ∃ r cs more, rest = cs ++ more ∧ (∀ c ∈ cs, 0x80 ≤ c) ∧
    ∀ more, decodeRune (b :: (cs ++ more)) = (r, cs.length + 1)

section Widths

variable {b : UInt8} (lead : ¬ b < 0xC2)

include lead

theorem not_ascii_of_lead : ¬ b < 0x80 :=
  fun ascii => lead (UInt8.lt_trans ascii (by decide))

theorem decodeRune_two (two : b < 0xE0) (rest : Bytes) :
    decodeRune (b :: rest) = (runeError, 1) ∨ RuneStarts b rest := by
  have ascii := not_ascii_of_lead lead
  cases rest with
  | nil => exact .inl (by simp only [decodeRune, ascii, lead, two, if_false, if_true])
  | cons b1 rest =>
    have decoded (more : Bytes) : decodeRune (b :: b1 :: more) =
        if isCont 0x80 0xBF b1 then (b.toNat % 32 * 64 + contBits b1, 2) else (runeError, 1) := by
      simp only [decodeRune, ascii, lead, two, if_false, if_true]
    by_cases cont : isCont 0x80 0xBF b1 = true
    · refine .inr ⟨_, [b1], rest, rfl, ?_, fun more => (decoded more).trans (if_pos cont)⟩
      exact List.forall_mem_singleton.mpr (isCont_high (by decide) cont)
    · exact .inl ((decoded rest).trans (if_neg cont))

variable (wide : ¬ b < 0xE0)

include wide

theorem decodeRune_three (three : b < 0xF0) (rest : Bytes) :
    decodeRune (b :: rest) = (runeError, 1) ∨ RuneStarts b rest := by
  have ascii := not_ascii_of_lead lead
  cases rest with
  | nil => exact .inl (by simp only [decodeRune, ascii, lead, wide, three, if_false, if_true])
  | cons b1 rest =>
    cases rest with
    | nil => exact .inl (by simp only [decodeRune, ascii, lead, wide, three, if_false, if_true])
    | cons b2 rest =>
      have low : 0x80 ≤ (if b = 0xE0 then 0xA0 else 0x80 : UInt8) := by split <;> decide
      have decoded (more : Bytes) : decodeRune (b :: b1 :: b2 :: more) =
          if isCont (if b = 0xE0 then 0xA0 else 0x80) (if b = 0xED then 0x9F else 0xBF) b1 &&
              isCont 0x80 0xBF b2 then
            (b.toNat % 16 * 4096 + contBits b1 * 64 + contBits b2, 3)
          else (runeError, 1) := by
        simp only [decodeRune, ascii, lead, wide, three, if_false, if_true]
      generalize (if b = 0xE0 then 0xA0 else 0x80 : UInt8) = lo at low decoded
      generalize (if b = 0xED then 0x9F else 0xBF : UInt8) = hi at decoded
      by_cases cont : (isCont lo hi b1 && isCont 0x80 0xBF b2) = true
      · refine .inr ⟨_, [b1, b2], rest, rfl, ?_, fun more => (decoded more).trans (if_pos cont)⟩
        obtain ⟨cont1, cont2⟩ := (Bool.and_eq_true _ _).mp cont
        exact List.forall_mem_cons.mpr ⟨isCont_high low cont1,
          List.forall_mem_singleton.mpr (isCont_high (by decide) cont2)⟩
      · exact .inl ((decoded rest).trans (if_neg cont))

theorem decodeRune_four (longer : ¬ b < 0xF0) (four : b < 0xF5) (rest : Bytes) :
    decodeRune (b :: rest) = (runeError, 1) ∨ RuneStarts b rest := by
  have ascii := not_ascii_of_lead lead
  cases rest with
  | nil =>
    exact .inl (by simp only [decodeRune, ascii, lead, wide, longer, four, if_false, if_true])
  | cons b1 rest =>
    cases rest with
    | nil =>
      exact .inl (by simp only [decodeRune, ascii, lead, wide, longer, four, if_false, if_true])
    | cons b2 rest =>
      cases rest with
      | nil =>
        exact .inl (by simp only [decodeRune, ascii, lead, wide, longer, four, if_false, if_true])
      | cons b3 rest =>
        have low : 0x80 ≤ (if b = 0xF0 then 0x90 else 0x80 : UInt8) := by split <;> decide
        have decoded (more : Bytes) : decodeRune (b :: b1 :: b2 :: b3 :: more) =
            if isCont (if b = 0xF0 then 0x90 else 0x80) (if b = 0xF4 then 0x8F else 0xBF) b1 &&
                isCont 0x80 0xBF b2 && isCont 0x80 0xBF b3 then
              (b.toNat % 8 * 262144 + contBits b1 * 4096 + contBits b2 * 64 + contBits b3, 4)
            else (runeError, 1) := by
          simp only [decodeRune, ascii, lead, wide, longer, four, if_false, if_true]
        generalize (if b = 0xF0 then 0x90 else 0x80 : UInt8) = lo at low decoded
        generalize (if b = 0xF4 then 0x8F else 0xBF : UInt8) = hi at decoded
        by_cases cont : (isCont lo hi b1 && isCont 0x80 0xBF b2 && isCont 0x80 0xBF b3) = true
        · refine .inr ⟨_, [b1, b2, b3], rest, rfl, ?_,
            fun more => (decoded more).trans (if_pos cont)⟩
          obtain ⟨cont12, cont3⟩ := (Bool.and_eq_true _ _).mp cont
          obtain ⟨cont1, cont2⟩ := (Bool.and_eq_true _ _).mp cont12
          exact List.forall_mem_cons.mpr ⟨isCont_high low cont1, List.forall_mem_cons.mpr
            ⟨isCont_high (by decide) cont2,
              List.forall_mem_singleton.mpr (isCont_high (by decide) cont3)⟩⟩
        · exact .inl ((decoded rest).trans (if_neg cont))

end Widths

/-- A string that is not empty starts with a rune, or its first byte is an error. -/
theorem decodeRune_cons (b : UInt8) (rest : Bytes) :
    decodeRune (b :: rest) = (runeError, 1) ∨ RuneStarts b rest := by
  by_cases ascii : b < 0x80
  · exact .inr ⟨b.toNat, [], rest, rfl, List.forall_mem_nil _, decodeRune_ascii ascii⟩
  by_cases lead : b < 0xC2
  · exact .inl (by simp only [decodeRune, ascii, lead, if_false, if_true])
  by_cases two : b < 0xE0
  · exact decodeRune_two lead two rest
  by_cases three : b < 0xF0
  · exact decodeRune_three lead two three rest
  by_cases four : b < 0xF5
  · exact decodeRune_four lead two three four rest
  · exact .inl (by simp only [decodeRune, ascii, lead, two, three, four, if_false])

/-- The bytes of a rune behind its first are not ASCII. -/
theorem decodeRune_rest (b : UInt8) (rest : Bytes) :
    ∀ c ∈ rest.take ((decodeRune (b :: rest)).2 - 1), 0x80 ≤ c := by
  obtain invalid | ⟨r, cs, more, rfl, high, decoded⟩ := decodeRune_cons b rest
  · rw [invalid]
    exact List.forall_mem_nil _
  · rw [decoded, Nat.add_sub_cancel, List.take_left]
    exact high

theorem mem_runesFrom {b : UInt8} (ascii : b < 0x80) {i skip : Nat} {s : Bytes}
    (skipped : ∀ c ∈ s.take skip, 0x80 ≤ c) (h : b ∈ s) :
    ∃ d ∈ runesFrom i skip s, d.rune = b.toNat := by
  induction s generalizing i skip with
  | nil => cases h
  | cons a s ih =>
    cases skip with
    | succ skip =>
      obtain ⟨ha, skipped⟩ := List.forall_mem_cons.mp skipped
      rcases List.mem_cons.mp h with rfl | h
      · exact absurd ascii (UInt8.not_lt.mpr ha)
      · exact ih skipped h
    | zero =>
      rw [runesFrom]
      rcases List.mem_cons.mp h with rfl | h
      · refine ⟨_, List.mem_cons_self, ?_⟩
        rw [decodeRune_ascii ascii]
      · obtain ⟨d, hd, hrune⟩ := ih (decodeRune_rest a s) h
        exact ⟨d, List.mem_cons_of_mem _ hd, hrune⟩

/-- An ASCII byte of a string is met by a `range` over it. -/
theorem mem_runes {b : UInt8} (ascii : b < 0x80) {s : Bytes} (h : b ∈ s) :
    ∃ d ∈ runes s, d.rune = b.toNat :=
  mem_runesFrom ascii (List.forall_mem_nil _) h

/-! ## Trimming -/

/-- A rune that was decoded stays what it is when more bytes follow. -/
theorem decodeRune_append {s : Bytes} (decoded : (decodeRune s).1 ≠ runeError) (more : Bytes) :
    decodeRune (s ++ more) = decodeRune s := by
  cases s with
  | nil => exact absurd rfl decoded
  | cons b rest =>
    obtain invalid | ⟨r, cs, tail, rfl, -, always⟩ := decodeRune_cons b rest
    · rw [invalid] at decoded
      exact absurd rfl decoded
    · rw [List.cons_append, List.append_assoc, always, always]

theorem dropPieces_suffix (width : Bytes → Nat) (skip : Nat) (s : Bytes) :
    dropPieces width skip s <:+ s := by
  fun_induction dropPieces width skip s with
  | case1 skip => exact List.suffix_refl _
  | case2 skip b s ih => exact ih.trans (List.suffix_cons b s)
  | case3 b s h => exact List.suffix_refl _
  | case4 b s w h ih => exact ih.trans (List.suffix_cons b s)

/-- It stops where no piece starts. -/
theorem width_dropPieces {width : Bytes → Nat} (nothing : width [] = 0) (skip : Nat) (s : Bytes) :
    width (dropPieces width skip s) = 0 := by
  fun_induction dropPieces width skip s with
  | case1 skip => exact nothing
  | case2 skip b s ih => exact ih
  | case3 b s h => exact h
  | case4 b s w h ih => exact ih

theorem dropPieces_of_width {width : Bytes → Nat} {s : Bytes} (h : width s = 0) :
    dropPieces width 0 s = s := by
  cases s with
  | nil => rfl
  | cons b s =>
    rw [dropPieces.eq_def]
    dsimp only
    rw [h]

/-- No white space at either end. -/
structure Trimmed (s : Bytes) : Prop where
  front : spaceWidth s = 0
  back : lastSpaceWidth s.reverse = 0

theorem trimSpace_of_trimmed {s : Bytes} (h : Trimmed s) : trimSpace s = s := by
  rw [trimSpace, dropPieces_of_width h.front, dropPieces_of_width h.back, List.reverse_reverse]

theorem spaceWidth_prefix {s t : Bytes} (h : s <+: t) (none : spaceWidth t = 0) :
    spaceWidth s = 0 := by
  obtain ⟨more, rfl⟩ := h
  have notSpace : isSpace runeError = false := by decide
  unfold spaceWidth at none ⊢
  dsimp only at none ⊢
  split
  next space =>
    have decoded : (decodeRune s).1 ≠ runeError := by
      intro h
      rw [h, notSpace] at space
      cases space
    rw [decodeRune_append decoded, if_pos space] at none
    exact none
  next => rfl

theorem trimSpace_trimmed (s : Bytes) : Trimmed (trimSpace s) := by
  refine ⟨?_, ?_⟩
  · -- what is left is a beginning of what the first pass left
    refine spaceWidth_prefix ?_ (width_dropPieces rfl 0 s)
    have behind := dropPieces_suffix lastSpaceWidth 0 (dropPieces spaceWidth 0 s).reverse
    rw [← List.reverse_prefix, List.reverse_reverse] at behind
    exact behind
  · rw [trimSpace, List.reverse_reverse]
    exact width_dropPieces rfl 0 _

end FakeSSH.Go
