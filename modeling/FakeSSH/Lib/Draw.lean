import Mathlib.MeasureTheory.Measure.Lebesgue.Basic

/-!
# Chances of a test on a random number

A test of a number from `[0, 1)` that passes from a threshold on. It is known on
the rational numbers, which is where a program computes; the number drawn is a
real one, uniform in `[0, 1)`. A real number passes where a rational one that is
no larger does, which for a rational number changes nothing (`passes_cast`).
-/

namespace FakeSSH.Lib

open MeasureTheory

variable {test : ℚ → Prop} {t : ℚ}

/-- The test passes from `t` on. -/
def PassesFrom (test : ℚ → Prop) (t : ℚ) : Prop := ∀ q, 0 ≤ q → q < 1 → (test q ↔ t ≤ q)

def Passes (test : ℚ → Prop) (x : ℝ) : Prop := ∃ q : ℚ, 0 ≤ q ∧ (q : ℝ) ≤ x ∧ test q

/-- How likely a uniform number passes. -/
noncomputable def chance (test : ℚ → Prop) : ℝ :=
  volume.real {x : ℝ | x ∈ Set.Ico 0 1 ∧ Passes test x}

theorem PassesFrom.passes_iff (h : PassesFrom test t) (nonneg : 0 ≤ t) {x : ℝ} (below : x < 1) :
    Passes test x ↔ (t : ℝ) ≤ x := by
  constructor
  · rintro ⟨q, hq, le, passed⟩
    have lt : q < 1 := by exact_mod_cast le.trans_lt below
    exact (Rat.cast_le.mpr ((h q hq lt).mp passed)).trans le
  · intro le
    have lt : t < 1 := by exact_mod_cast le.trans_lt below
    exact ⟨t, nonneg, le, (h t nonneg lt).mpr le_rfl⟩

theorem PassesFrom.passes_cast (h : PassesFrom test t) (nonneg : 0 ≤ t) {q : ℚ} (hq : 0 ≤ q)
    (below : q < 1) : Passes test q ↔ test q := by
  rw [h.passes_iff nonneg (by exact_mod_cast below), Rat.cast_le, h q hq below]

theorem PassesFrom.chance_eq (h : PassesFrom test t) (nonneg : 0 ≤ t) (le_one : t ≤ 1) :
    chance test = 1 - t := by
  have passing : {x : ℝ | x ∈ Set.Ico 0 1 ∧ Passes test x} = Set.Ico (t : ℝ) 1 := by
    ext x
    constructor
    · rintro ⟨⟨-, below⟩, passed⟩
      exact ⟨(h.passes_iff nonneg below).mp passed, below⟩
    · rintro ⟨le, below⟩
      have from_zero : (0 : ℝ) ≤ x := le_trans (by exact_mod_cast nonneg) le
      exact ⟨⟨from_zero, below⟩, (h.passes_iff nonneg below).mpr le⟩
  rw [chance, passing, Real.volume_real_Ico_of_le (by exact_mod_cast le_one)]

end FakeSSH.Lib
