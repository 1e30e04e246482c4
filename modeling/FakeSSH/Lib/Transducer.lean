import Mathlib.Data.List.Basic

/-!
# Transducers

A transducer reads symbols one at a time, writes something at each and, at the end,
what its state still holds back. Two texts can be read apart if at the first symbol of
the second it does what it would do at a start, after writing what it holds back.
-/

namespace FakeSSH.Lib

structure Transducer (σ α β : Type) where
  start : σ
  step : σ → α → σ
  emit : σ → α → List β
  finish : σ → List β

namespace Transducer

variable {σ α β : Type} (T : Transducer σ α β) {q : σ} {c : α} {s t : List α}

/-- What is written from a state on. -/
def run : σ → List α → List β
  | q, [] => T.finish q
  | q, c :: s => T.emit q c ++ run (T.step q c) s

/-- The state after a text. -/
def after (q : σ) (s : List α) : σ := s.foldl T.step q

/-- What is written while a text is read. -/
def written : σ → List α → List β
  | _, [] => []
  | q, c :: s => T.emit q c ++ written (T.step q c) s

theorem run_append (q : σ) (s t : List α) :
    T.run q (s ++ t) = T.written q s ++ T.run (T.after q s) t := by
  induction s generalizing q with
  | nil => rfl
  | cons c s ih =>
    rw [List.cons_append, run, ih, written, List.append_assoc]
    rfl

theorem run_eq (q : σ) (s : List α) : T.run q s = T.written q s ++ T.finish (T.after q s) := by
  have alone := T.run_append q s []
  rwa [List.append_nil] at alone

/-- At this symbol the state does what the start does, after what it holds back. -/
structure Restarts (q : σ) (c : α) : Prop where
  step : T.step q c = T.step T.start c
  emit : T.emit q c = T.finish q ++ T.emit T.start c

variable {T}

theorem run_cons_of_restarts (h : T.Restarts q c) (t : List α) :
    T.run q (c :: t) = T.finish q ++ T.run T.start (c :: t) := by
  rw [run, run, h.step, h.emit, List.append_assoc]

/-- Texts that can be read apart. -/
theorem run_append_of_restarts (done : T.finish T.start = [])
    (h : ∀ c ∈ t.head?, T.Restarts (T.after q s) c) :
    T.run q (s ++ t) = T.run q s ++ T.run T.start t := by
  rw [run_append, T.run_eq q s, List.append_assoc]
  refine congrArg _ ?_
  cases t with
  | nil => rw [run, run, done, List.append_nil]
  | cons c t => exact run_cons_of_restarts (h c rfl) t

end Transducer

end FakeSSH.Lib
