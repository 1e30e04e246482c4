import Mathlib.Data.List.Destutter

/-!
# Compaction in place

A loop over an array that keeps every element that differs from the one before it, and
writes what it keeps to the front of the array it still reads. It never writes beyond the
element it has read, and to the element before that only the element's own value, so it
compares with what stood there.
-/

namespace FakeSSH.Lib

variable {α : Type} [DecidableEq α]

/-- The loop for `fuel` more elements, at `i`, with `k` elements kept. -/
def compactFrom : Nat → Nat → Nat → List α → List α
  | 0, k, _, a => a.take k
  | fuel + 1, k, i, a =>
    match a[i]? with
    | none => a.take k
    | some x =>
      if i = 0 ∨ a[i - 1]? ≠ some x then compactFrom fuel (k + 1) (i + 1) (a.set k x)
      else compactFrom fuel k (i + 1) a

def compact (a : List α) : List α := compactFrom a.length 0 0 a

/-- The loop behind the first element: `prev` was read last, and kept last. -/
theorem compactFrom_eq {fuel k i : Nat} {a kept : List α} {prev : α} (behind : k ≤ i)
    (len : a.length = i + fuel) (front : a.take k = kept ++ [prev])
    (last : i ≠ 0 ∧ a[i - 1]? = some prev) :
    compactFrom fuel k i a = kept ++ (a.drop i).destutter' (· ≠ ·) prev := by
  induction fuel generalizing k i a kept prev with
  | zero =>
    rw [compactFrom, front, List.drop_eq_nil_of_le (Nat.le_of_eq len : a.length ≤ i),
      List.destutter'_nil]
  | succ fuel ih =>
    have inside : i < a.length := by omega
    have here : a[i]? = some a[i] := List.getElem?_eq_getElem inside
    rw [compactFrom, here, List.drop_eq_getElem_cons inside]
    dsimp only
    by_cases same : prev = a[i]
    · have skip : ¬ (i = 0 ∨ a[i - 1]? ≠ some a[i]) := by
        rw [not_or, not_not, last.2, same]
        exact ⟨last.1, rfl⟩
      rw [if_neg skip, List.destutter'_cons_neg _ (not_not.mpr same)]
      refine ih (Nat.le_succ_of_le behind) (by omega) front ⟨Nat.succ_ne_zero i, ?_⟩
      rw [Nat.add_sub_cancel, here, same]
    · have keep : i = 0 ∨ a[i - 1]? ≠ some a[i] := by
        rw [last.2]
        exact .inr fun h => same (Option.some.inj h)
      rw [if_pos keep, List.destutter'_cons_pos _ same]
      have later : (a.set k a[i]).drop (i + 1) = a.drop (i + 1) :=
        List.drop_set_of_lt (Nat.lt_succ_of_le behind)
      have written : (a.set k a[i]).take (k + 1) = (kept ++ [prev]) ++ [a[i]] := by
        rw [List.take_add_one, List.take_set_of_le (Nat.le_refl k), front,
          List.getElem?_set_self (by omega)]
        rfl
      have read : (a.set k a[i])[i + 1 - 1]? = some a[i] := by
        rw [Nat.add_sub_cancel, List.getElem?_set, here]
        split
        · rw [if_pos (by omega)]
        · rfl
      rw [ih (Nat.succ_le_succ behind) (by rw [List.length_set]; omega) written
        ⟨Nat.succ_ne_zero i, read⟩, later, List.append_assoc]
      rfl

theorem compact_eq_destutter (a : List α) : compact a = a.destutter (· ≠ ·) := by
  cases a with
  | nil => rfl
  | cons x rest =>
    have step : compact (x :: rest) = compactFrom rest.length 1 1 (x :: rest) := by
      rw [compact, List.length_cons, compactFrom, List.getElem?_cons_zero]
      exact if_pos (.inl rfl)
    have front : (x :: rest).take 1 = [] ++ [x] := rfl
    rw [step, compactFrom_eq (Nat.le_refl 1) (Nat.add_comm _ _) front ⟨Nat.one_ne_zero, rfl⟩]
    rfl

end FakeSSH.Lib
