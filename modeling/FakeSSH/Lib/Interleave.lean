import FakeSSH.Lib.Transition
import Mathlib.Algebra.BigOperators.Group.Finset.Basic
import Mathlib.Algebra.Order.BigOperators.Group.Finset
import Mathlib.Data.Fintype.Basic

/-!
# Processes that interleave over a shared state

A finite family of processes of one kind, each with a state of its own, over a
state they share. One step of the family is one step of one of them. `tally`
adds up a weight over the family: how many processes hold something, say. A step
changes one process, so it changes a tally by the change of that process's
weight (`tally_update`), and a shared counter that the step moves by the same
amount stays the tally (`tally_step`).
-/

namespace FakeSSH.Lib

open Relation

variable {ι σ α : Type} [DecidableEq ι]

/-- A shared state and the state of each process. -/
structure Family (ι σ α : Type) where
  shared : σ
  procs : ι → α

/-- One process takes one step. -/
def Interleave (step : σ → α → σ → α → Prop) (s s' : Family ι σ α) : Prop :=
  ∃ i x a, step s.shared (s.procs i) x a ∧ s' = ⟨x, Function.update s.procs i a⟩

section Tally

variable [Fintype ι]

/-- A weight, added up over the family. -/
def tally (w : α → Nat) (f : ι → α) : Nat := ∑ i, w (f i)

theorem tally_update (w : α → Nat) (f : ι → α) (i : ι) (a : α) :
    tally w (Function.update f i a) + w (f i) = tally w f + w a := by
  have rest : ∑ j ∈ Finset.univ.erase i, w (Function.update f i a j) =
      ∑ j ∈ Finset.univ.erase i, w (f j) := by
    apply Finset.sum_congr rfl
    intro j hj
    rw [Function.update_of_ne (Finset.ne_of_mem_erase hj)]
  have before := Finset.add_sum_erase Finset.univ (fun j => w (f j)) (Finset.mem_univ i)
  have after := Finset.add_sum_erase Finset.univ (fun j => w (Function.update f i a j))
    (Finset.mem_univ i)
  rw [rest, Function.update_self] at after
  unfold tally
  omega

/-- A counter moved by what the step does to the weight still counts it. -/
theorem tally_step {w : α → Nat} {f : ι → α} {i : ι} {a : α} {n n' : Nat} (counts : n = tally w f)
    (moves : n' + w (f i) = n + w a) : n' = tally w (Function.update f i a) := by
  have := tally_update w f i a
  omega

/-- The same for a counter that could go below zero. -/
theorem tally_step_int {w : α → Nat} {f : ι → α} {i : ι} {a : α} {n n' : Int}
    (counts : n = tally w f) (moves : n' + w (f i) = n + w a) :
    n' = tally w (Function.update f i a) := by
  have := tally_update w f i a
  omega

omit [DecidableEq ι] in
theorem le_tally (w : α → Nat) (f : ι → α) (i : ι) : w (f i) ≤ tally w f :=
  Finset.single_le_sum (fun j _ => Nat.zero_le (w (f j))) (Finset.mem_univ i)

/-- Two processes together weigh at most what all do. -/
theorem pair_le_tally (w : α → Nat) (f : ι → α) {i j : ι} (h : j ≠ i) :
    w (f i) + w (f j) ≤ tally w f := by
  have split := Finset.add_sum_erase Finset.univ (fun k => w (f k)) (Finset.mem_univ i)
  have rest := Finset.single_le_sum (fun k _ => Nat.zero_le (w (f k)))
    (Finset.mem_erase.mpr ⟨h, Finset.mem_univ j⟩)
  unfold tally
  omega

omit [DecidableEq ι] in
theorem tally_le {w w' : α → Nat} {f : ι → α} (h : ∀ i, w (f i) ≤ w' (f i)) :
    tally w f ≤ tally w' f :=
  Finset.sum_le_sum fun i _ => h i

omit [DecidableEq ι] in
theorem tally_congr {w w' : α → Nat} {f : ι → α} (h : ∀ i, w (f i) = w' (f i)) :
    tally w f = tally w' f :=
  Finset.sum_congr rfl fun i _ => h i

omit [DecidableEq ι] in
theorem tally_eq_zero {w : α → Nat} {f : ι → α} (h : ∀ i, w (f i) = 0) : tally w f = 0 :=
  Finset.sum_eq_zero fun i _ => h i

end Tally

/-- What holds of the process that stepped and of all the others. -/
theorem forall_update {P : α → Prop} {f : ι → α} {i : ι} {a : α} (here : P a)
    (rest : ∀ j, j ≠ i → P (f j)) (j : ι) : P (Function.update f i a j) := by
  by_cases h : j = i
  · subst h
    rwa [Function.update_self]
  · rw [Function.update_of_ne h]
    exact rest j h

end FakeSSH.Lib
