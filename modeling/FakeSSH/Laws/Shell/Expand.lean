import FakeSSH.Go.Errors
import FakeSSH.Shell.Expand

/-!
# Temporary assignments are taken back

`applyCommandEnv` keeps a journal of the session's variables, and its cleanup undoes
the journal. So an expansion that fails leaves the runner as it was, and after one that
succeeds the cleanup puts the session's variables back.
-/

namespace FakeSSH.Shell

open FakeSSH.Go FakeSSH.Lib

/-! ## The journal -/

/-- The writes to the session's variables that assignments make. -/
def envWrites (assignments : List Bytes) : List (Bytes × EnvPair) :=
  (assignments.filterMap splitEnvAssignment).map fun p => (toUpper p.key, p)

/-- A saved entry as a note of a journal. -/
def SavedCommandEnv.note (entry : SavedCommandEnv) : Bytes × Option EnvPair :=
  (toUpper entry.key, entry.previous)

theorem applyCommandEnv_eq (r : CommandRunner) (assignments : List Bytes) :
    (applyCommandEnv r assignments).1 =
        { r with tempEnv := (FiniteMap.journal r.tempEnv (envWrites assignments)).1 } ∧
      (applyCommandEnv r assignments).2.map SavedCommandEnv.note =
        (FiniteMap.journal r.tempEnv (envWrites assignments)).2 := by
  induction assignments generalizing r with
  | nil => exact ⟨rfl, rfl⟩
  | cons assignment rest ih =>
    unfold applyCommandEnv envWrites
    rw [List.filterMap_cons]
    cases splitEnvAssignment assignment with
    | none => exact ih r
    | some p =>
      obtain ⟨after, notes⟩ := ih (r.setEnv p.key p.value)
      exact ⟨after, congrArg _ notes⟩

theorem restoreEntry_eq (r : CommandRunner) (entry : SavedCommandEnv) :
    restoreEntry r entry =
      { r with tempEnv := FiniteMap.store r.tempEnv entry.note.1 entry.note.2 } := by
  unfold restoreEntry SavedCommandEnv.note
  cases entry.previous <;> rfl

theorem restoreCommandEnv_eq (r : CommandRunner) (saved : List SavedCommandEnv) :
    restoreCommandEnv r saved =
      { r with tempEnv := FiniteMap.undo r.tempEnv (saved.map SavedCommandEnv.note) } := by
  unfold restoreCommandEnv FiniteMap.undo
  rw [← List.map_reverse]
  induction saved.reverse generalizing r with
  | nil => rfl
  | cons entry rest ih =>
    rw [List.foldl_cons, ih, restoreEntry_eq, List.map_cons, List.foldl_cons]

/-- The cleanup takes the assignments back. -/
theorem restore_applyCommandEnv (r : CommandRunner) (assignments : List Bytes) :
    restoreCommandEnv (applyCommandEnv r assignments).1 (applyCommandEnv r assignments).2 = r := by
  obtain ⟨after, notes⟩ := applyCommandEnv_eq r assignments
  rw [restoreCommandEnv_eq, notes, after, FiniteMap.undo_journal]

/-! ## Expansion -/

/-- The words that a command was made of, with the empty ones as the text that they are. -/
theorem commandWords_ofWords (envs : List Bytes) (redirects : List Redirect) (w : SyntaxWord)
    (args : List SyntaxWord) :
    commandWords (SimpleCommand.ofWords envs redirects (w :: args)) =
      (w :: args).map fun w => writtenWord w w.text := by
  refine congrArg (List.cons _) (List.ext_getElem (by simp [SimpleCommand.ofWords]) ?_)
  intro i _ inside
  have inside : i < args.length := by rwa [List.length_map] at inside
  have written : args.getD i {} = args[i] := by rw [List.getD, List.getElem?_eq_getElem inside]; rfl
  simp only [SimpleCommand.ofWords, List.getElem_mapIdx, List.getElem_map, written]

/-- What the expansion of a command with a name comes to: an error, with the runner as
it was, or the expanded command and the cleanup, with the assignments made. -/
theorem expandSimpleCommand_named (r : CommandRunner) (lastStatus : Int) {cmd : SimpleCommand}
    (named : cmd.name ≠ []) :
    (∃ e, expandAssigned (applyCommandEnv r cmd.envAssignments).1 cmd lastStatus = .error e ∧
        expandSimpleCommand r cmd lastStatus = (r, .error e)) ∨
      ∃ expanded,
        expandAssigned (applyCommandEnv r cmd.envAssignments).1 cmd lastStatus = .ok expanded ∧
        expandSimpleCommand r cmd lastStatus = ((applyCommandEnv r cmd.envAssignments).1,
          .ok (expanded, (applyCommandEnv r cmd.envAssignments).2)) := by
  unfold expandSimpleCommand
  rw [if_neg named]
  cases h : expandAssigned (applyCommandEnv r cmd.envAssignments).1 cmd lastStatus with
  | error e =>
    refine .inl ⟨e, rfl, ?_⟩
    simp only [h, restore_applyCommandEnv]
  | ok expanded =>
    refine .inr ⟨expanded, rfl, ?_⟩
    simp only [h]

end FakeSSH.Shell
