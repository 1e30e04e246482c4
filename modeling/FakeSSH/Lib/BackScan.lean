import Mathlib.Data.List.Basic

/-!
# Scans from the end

`lastHit f n` tries the indices below `n` from the top down and answers what `f`
answers first. Two scans of one sequence, of which one sees only its end, agree as
soon as the one that sees less finds something (`lastHit_window`).
-/

namespace FakeSSH.Lib

variable {α β : Type} {f : Nat → Option α} {n i : Nat} {a : α}

/-- What `f` answers at the last index below `n` at which it answers. -/
def lastHit (f : Nat → Option α) : Nat → Option α
  | 0 => none
  | n + 1 =>
    match f n with
    | some a => some a
    | none => lastHit f n

theorem lastHit_eq_some :
    lastHit f n = some a ↔ ∃ i, i < n ∧ f i = some a ∧ ∀ j, i < j → j < n → f j = none := by
  induction n with
  | zero => exact ⟨nofun, fun ⟨i, hi, _⟩ => absurd hi (Nat.not_lt_zero i)⟩
  | succ n ih =>
    unfold lastHit
    cases hit : f n with
    | some b =>
      constructor
      · rintro ⟨⟩
        exact ⟨n, Nat.lt_succ_self n, hit, fun j hj hjn => by omega⟩
      · rintro ⟨i, hi, ha, later⟩
        have same : i = n := by
          by_contra hne
          have missed := later n (by omega) (Nat.lt_succ_self n)
          rw [hit] at missed
          cases missed
        rw [same, hit] at ha
        exact ha
    | none =>
      rw [ih]
      constructor
      · rintro ⟨i, hi, ha, later⟩
        refine ⟨i, by omega, ha, fun j hj hjn => ?_⟩
        by_cases top : j = n
        · rw [top, hit]
        · exact later j hj (by omega)
      · rintro ⟨i, hi, ha, later⟩
        have below : i ≠ n := by
          rintro rfl
          rw [hit] at ha
          cases ha
        exact ⟨i, by omega, ha, fun j hj hjn => later j hj (by omega)⟩

/-- A scan that finds something in the window at the end finds the same in the whole. -/
theorem lastHit_window {g : Nat → Option β} {b : β} (off : Nat) (hit : lastHit g n = some b)
    (same : ∀ i, g i = none → f (off + i) = none)
    (answer : ∀ i, i < n → g i = some b → f (off + i) = some a) :
    lastHit f (off + n) = some a := by
  obtain ⟨i, hi, hg, later⟩ := lastHit_eq_some.mp hit
  refine lastHit_eq_some.mpr ⟨off + i, by omega, answer i hi hg, fun j hj hjn => ?_⟩
  have inside : j = off + (j - off) := by omega
  rw [inside]
  exact same _ (later _ (by omega) (by omega))

end FakeSSH.Lib
