import Mathlib.Data.List.Basic

/-!
# Logs whose entries were allowed

A program that records what it does leaves a log that only grows at its end.
`Justified ok log` says that each entry was allowed by the entries before it.
Where the program appends an entry it owes `ok` of the log so far, once
(`Justified.snoc`), and every statement of the form "no `a` after a `b`" or "an
`a` only after a `b`" is then read off the log as it stands.
-/

namespace FakeSSH.Lib

variable {ε : Type} {ok : List ε → ε → Prop} {log : List ε}

/-- Every entry of the log was allowed by what came before it. -/
def Justified (ok : List ε → ε → Prop) (log : List ε) : Prop :=
  ∀ before e after, log = before ++ e :: after → ok before e

theorem Justified.nil : Justified ok [] := by
  intro before e after h
  simp at h

theorem Justified.snoc {e : ε} (h : Justified ok log) (allowed : ok log e) :
    Justified ok (log ++ [e]) := by
  intro before x after heq
  rcases List.eq_nil_or_concat after with rfl | ⟨after', last, rfl⟩
  · obtain ⟨rfl, hx⟩ := List.append_inj' heq rfl
    cases hx
    exact allowed
  · rw [List.concat_eq_append, ← List.cons_append, ← List.append_assoc] at heq
    obtain ⟨rfl, -⟩ := List.append_inj' heq rfl
    exact h before x after' rfl

/-- The entries of one kind, in a log one entry longer. -/
theorem filterMap_snoc {β : Type} (f : ε → Option β) (log : List ε) (e : ε) :
    (log ++ [e]).filterMap f = log.filterMap f ++ (f e).toList := by
  rw [List.filterMap_append]
  cases h : f e <;> simp [h]

end FakeSSH.Lib
