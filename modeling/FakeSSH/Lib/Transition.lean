import Mathlib.Logic.Relation

/-!
# Runs of a transition system

A system is a step relation on its states, and a run is a chain of steps. Two
rules carry the results about such runs. A property that each step keeps holds
along every run (`invariant_of_steps`). And where every state short of a goal
can step, and every step lowers a rank, each run meets the goal
(`inevitable_of_rank`): `Inevitable` says that no choice of steps avoids it. Where the
steps are a function of inputs, `throughout_iff` says for which inputs a run stays
within good states.
-/

namespace FakeSSH.Lib

open Relation

variable {σ : Type} {step : σ → σ → Prop}

/-- What each step keeps, a run keeps. -/
theorem invariant_of_steps {inv : σ → Prop} (keeps : ∀ s s', inv s → step s s' → inv s')
    {s₀ s : σ} (start : inv s₀) (run : ReflTransGen step s₀ s) : inv s := by
  induction run with
  | refl => exact start
  | tail _ h ih => exact keeps _ _ ih h

/-- Every way of stepping on from a state meets the goal. -/
inductive Inevitable (step : σ → σ → Prop) (goal : σ → Prop) : σ → Prop
  | now {s : σ} : goal s → Inevitable step goal s
  | later {s : σ} : (∃ s', step s s') → (∀ s', step s s' → Inevitable step goal s') →
      Inevitable step goal s

/-- A rank that every step lowers, within states that step until the goal. -/
theorem inevitable_of_rank {goal : σ → Prop} (inv : σ → Prop) (rank : σ → Nat)
    (moves : ∀ s, inv s → ¬ goal s → ∃ s', step s s')
    (falls : ∀ s s', inv s → step s s' → inv s' ∧ rank s' < rank s) {s : σ} (start : inv s) :
    Inevitable step goal s := by
  induction hr : rank s using Nat.strongRecOn generalizing s with
  | ind r ih =>
    by_cases hg : goal s
    · exact .now hg
    · apply Inevitable.later (moves s start hg)
      intro s' hs
      obtain ⟨hinv, hlt⟩ := falls s s' start hs
      exact ih (rank s') (hr ▸ hlt) hinv rfl

/-- What is inevitable can be reached. -/
theorem Inevitable.reaches {goal : σ → Prop} {s : σ} (h : Inevitable step goal s) :
    ∃ s', ReflTransGen step s s' ∧ goal s' := by
  induction h with
  | now hg => exact ⟨_, .refl, hg⟩
  | later moves _ ih =>
    obtain ⟨s', hs⟩ := moves
    obtain ⟨t, run, hg⟩ := ih s' hs
    exact ⟨t, run.head hs, hg⟩

/-- Steps that leave no choice stop in one place. -/
theorem stop_unique (choiceless : ∀ s a b, step s a → step s b → a = b) {s a b : σ}
    (ha : ReflTransGen step s a) (hb : ReflTransGen step s b) (stopA : ∀ x, ¬ step a x)
    (stopB : ∀ x, ¬ step b x) : a = b := by
  have unique : Relator.RightUnique step := fun x y z hy hz => choiceless x y z hy hz
  rcases ReflTransGen.total_of_right_unique unique ha hb with run | run
  · rcases ReflTransGen.cases_head run with same | ⟨x, hx, -⟩
    · exact same
    · exact absurd hx (stopA x)
  · rcases ReflTransGen.cases_head run with same | ⟨x, hx, -⟩
    · exact same.symm
    · exact absurd hx (stopB x)

/-! ## Runs over a list of inputs -/

variable {ι : Type} {next : σ → ι → σ}

/-- Every state of a run is good, the first and the last included. -/
def Throughout (next : σ → ι → σ) (good : σ → Prop) : σ → List ι → Prop
  | s, [] => good s
  | s, i :: rest => good s ∧ Throughout next good (next s i) rest

/-- Every input of a run is fit for the state it comes to. -/
def EachInput (next : σ → ι → σ) (fit : σ → ι → Prop) : σ → List ι → Prop
  | _, [] => True
  | s, i :: rest => fit s i ∧ EachInput next fit (next s i) rest

/-- Where a step from a good state is good exactly for a fit input, a run is good
throughout exactly for fit inputs. An invariant of all runs may be used for it. -/
theorem throughout_iff_within {inv good : σ → Prop} {fit : σ → ι → Prop}
    (keeps : ∀ s i, inv s → inv (next s i))
    (steps : ∀ s i, inv s → good s → (good (next s i) ↔ fit s i)) {s : σ} (within : inv s)
    (start : good s) (inputs : List ι) :
    Throughout next good s inputs ↔ EachInput next fit s inputs := by
  induction inputs generalizing s with
  | nil => exact ⟨fun _ => trivial, fun _ => start⟩
  | cons i rest ih =>
    constructor
    · rintro ⟨-, later⟩
      have after : good (next s i) := by
        cases rest with
        | nil => exact later
        | cons => exact later.1
      exact ⟨(steps s i within start).mp after, (ih (keeps s i within) after).mp later⟩
    · rintro ⟨fits, later⟩
      have after := (steps s i within start).mpr fits
      exact ⟨start, (ih (keeps s i within) after).mpr later⟩

theorem throughout_iff {good : σ → Prop} {fit : σ → ι → Prop}
    (steps : ∀ s i, good s → (good (next s i) ↔ fit s i)) {s : σ} (start : good s)
    (inputs : List ι) : Throughout next good s inputs ↔ EachInput next fit s inputs := by
  have always : ∀ (s : σ) (i : ι), (fun _ : σ => True) s → (fun _ : σ => True) (next s i) :=
    fun _ _ _ => trivial
  exact throughout_iff_within always (fun s i _ => steps s i) trivial start inputs

end FakeSSH.Lib
