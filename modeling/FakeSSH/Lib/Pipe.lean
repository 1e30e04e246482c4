import Mathlib.Data.List.Basic

/-!
# Writers and readers in step

The two ends of a stream keep states of their own, such as a key and a counter. While they are in
step, what one writes the other reads, whatever follows, and they are in step again. Then the
stream is a queue: `Carries` says that it holds these packets, a write puts one more behind them
(`Carries.write`) and a read takes the first one off (`Carries.read`), however far the writer is
ahead.
-/

namespace FakeSSH.Lib

variable {W R α β : Type}

/-- A format that depends on a state at each end. -/
structure Pipe (W R α β : Type) where
  Writes : W → α → List β → W → Prop
  read : R → List β → Option (α × List β × R)
  InStep : W → R → Prop
  read_written : ∀ {w r a sent w'}, InStep w r → Writes w a sent w' →
    ∃ r', (∀ rest, read r (sent ++ rest) = some (a, rest, r')) ∧ InStep w' r'

namespace Pipe

variable {P : Pipe W R α β} {w w' : W} {r : R} {bytes sent : List β} {a : α} {queue : List α}

/-- The stream between the reader and the writer holds these packets. -/
inductive Carries (P : Pipe W R α β) : R → List β → List α → W → Prop
  | nil {r : R} {w : W} : P.InStep w r → Carries P r [] [] w
  | cons {r r' : R} {w : W} {sent bytes : List β} {a : α} {queue : List α} :
    (∀ rest, P.read r (sent ++ rest) = some (a, rest, r')) → Carries P r' bytes queue w →
    Carries P r (sent ++ bytes) (a :: queue) w

theorem Carries.write (h : P.Carries r bytes queue w) (written : P.Writes w a sent w') :
    P.Carries r (bytes ++ sent) (queue ++ [a]) w' := by
  induction h with
  | nil inStep =>
    obtain ⟨r', read, next⟩ := P.read_written inStep written
    have carries := Carries.cons read (.nil next)
    rw [List.append_nil] at carries
    exact carries
  | cons read _ ih =>
    rw [List.append_assoc]
    exact .cons read (ih written)

theorem Carries.read (h : P.Carries r bytes (a :: queue) w) :
    ∃ rest r', P.read r bytes = some (a, rest, r') ∧ P.Carries r' rest queue w := by
  cases h with
  | cons read more => exact ⟨_, _, read _, more⟩

theorem Carries.bytes_eq_nil (h : P.Carries r bytes [] w) : bytes = [] := by
  cases h
  rfl

end Pipe

end FakeSSH.Lib
