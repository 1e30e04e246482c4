import Mathlib.Data.List.Basic

/-!
# Weights of lists

`weigh w l` adds up what the elements of a list weigh. A list that loses an element, at the
front or in the middle, loses its weight.
-/

namespace FakeSSH.Lib

variable {α : Type} {w : α → Nat}

/-- What the elements weigh together. -/
def weigh (w : α → Nat) : List α → Nat
  | [] => 0
  | a :: l => w a + weigh w l

@[simp] theorem weigh_nil : weigh w [] = 0 := rfl

@[simp] theorem weigh_cons (a : α) (l : List α) : weigh w (a :: l) = w a + weigh w l := rfl

@[simp] theorem weigh_append (l m : List α) : weigh w (l ++ m) = weigh w l + weigh w m := by
  induction l with
  | nil => rw [List.nil_append, weigh_nil, Nat.zero_add]
  | cons a l ih => rw [List.cons_append, weigh_cons, weigh_cons, ih, Nat.add_assoc]

theorem weigh_replicate (a : α) (n : Nat) : weigh w (List.replicate n a) = n * w a := by
  induction n with
  | zero => rw [List.replicate_zero, weigh_nil, Nat.zero_mul]
  | succ n ih => rw [List.replicate_succ, weigh_cons, ih, Nat.succ_mul, Nat.add_comm]

end FakeSSH.Lib
