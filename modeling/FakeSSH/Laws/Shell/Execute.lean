import FakeSSH.Laws.Shell.Expand
import FakeSSH.Laws.Shell.Redirect
import FakeSSH.Shell.Execute

/-!
# What a simple command changes

Of the built-ins only `cd` writes a variable, and only `touch` and the redirections
write the dynamic store. So a command with a name leaves the session's variables as
they were, but for a `cd` that succeeds and that no assignment to `PWD` stands before.
A command of assignments alone sets its variables and does nothing else.
-/

namespace FakeSSH.Shell

open FakeSSH.Go FakeSSH.Lib

variable {lib : StdLib} {around : Surroundings} {r : CommandRunner} {args : List Bytes}

/-! ## Built-ins -/

/-- The directory that `cd` goes to, if it succeeds. -/
def cdDestination (r : CommandRunner) (args : List Bytes) : Option Bytes :=
  match resolvePath (r.getEnv pwdKey) (Cmds.cdTarget r args) with
  | .error _ => none
  | .ok resolved => if r.rootFS.stat resolved = some .dir then some resolved else none

/-- The runner after a move to a directory, if there is one. -/
def CommandRunner.movedTo (r : CommandRunner) : Option Bytes → CommandRunner
  | none => r
  | some d => { r with tempEnv := r.tempEnv.insert pwdKey ⟨pwdKey, d⟩ }

theorem movedTo_recording (r : CommandRunner) (calls : List RecordCall) (d : Option Bytes) :
    (r.recording lib calls).movedTo d = (r.movedTo d).recording lib calls := by
  cases d <;> rfl

theorem setEnv_pwdKey (r : CommandRunner) (d : Bytes) :
    r.setEnv pwdKey d = r.movedTo (some d) := by
  have upper : toUpper pwdKey = pwdKey := by decide
  rw [CommandRunner.setEnv, upper]
  rfl

theorem cdDestination_eq_some {d : Bytes} (h : cdDestination r args = some d) :
    resolvePath (r.getEnv pwdKey) (Cmds.cdTarget r args) = .ok d := by
  unfold cdDestination at h
  split at h
  next => cases h
  next resolved resolves =>
    rw [Option.ite_none_right_eq_some] at h
    rw [resolves, Option.some.inj h.2]

theorem cd_runner (r : CommandRunner) (args : List Bytes) :
    (Cmds.cd r args).1 = r.movedTo (cdDestination r args) := by
  unfold Cmds.cd cdDestination
  cases resolvePath (r.getEnv pwdKey) (Cmds.cdTarget r args) with
  | error e => rfl
  | ok resolved =>
    rcases h : r.rootFS.stat resolved with _ | (_ | _)
    · simp only [h]
      rfl
    · simp only [h]
      rfl
    · simp only [h]
      exact setEnv_pwdKey r resolved

theorem touch_runner (r : CommandRunner) (args : List Bytes) (lib : StdLib) (now : Int) :
    ∃ calls, (Cmds.touch r args lib now).1 = r.recording lib calls := by
  fun_cases Cmds.touch with
  | case4 arg resolved _ _ s _ recorded =>
    obtain rfl := congrArg Prod.fst recorded
    exact ⟨[reservation resolved now], rfl⟩
  | case5 arg resolved _ _ s _ recorded =>
    obtain rfl := congrArg Prod.fst recorded
    exact ⟨[reservation resolved now], rfl⟩
  | _ => exact ⟨[], rfl⟩

theorem run_runner {b : Builtin} (notCd : b ≠ .cd) :
    ∃ calls, (b.run r args lib around).1 = r.recording lib calls := by
  cases b with
  | cd => exact absurd rfl notCd
  | touch => exact touch_runner r args lib around.ranAt
  | _ => exact ⟨[], rfl⟩

/-- `runCmd` moves for `cd` alone. -/
theorem runCmd_runner (lib : StdLib) (around : Surroundings) (r : CommandRunner)
    (args : List Bytes) (name : Bytes) :
    ∃ calls, (runCmd r args lib around name).2.1 =
      (r.movedTo (if name = str "cd" then cdDestination r args else none)).recording lib calls := by
  by_cases isCd : name = str "cd"
  · subst isCd
    refine ⟨[], ?_⟩
    rw [if_pos rfl]
    have found : Builtin.all.find? (fun b => b.name = str "cd") = some .cd := by decide
    simp only [runCmd, found, Builtin.run, cd_runner]
    rfl
  · rw [if_neg isCd]
    unfold runCmd
    cases found : Builtin.all.find? (fun b => b.name = name) with
    | none =>
      refine ⟨[], ?_⟩
      dsimp only
      split <;> rfl
    | some b =>
      apply run_runner
      rintro rfl
      have named := List.find?_some found
      exact isCd (of_decide_eq_true named).symm

/-! ## Simple commands -/

/-- The directory that an expanded command moves to: `cd` has to be reached, past the
checks and the redirections, and to succeed. -/
def destination (lib : StdLib) (around : Surroundings) (r : CommandRunner)
    (expanded : SimpleCommand) : Option Bytes :=
  if expanded.name = str "cd" ∧
      (validateParsedCommand (parserCommandFromSimple expanded)).isOk ∧
      (applyFakeRedirections lib around.reservedAt r expanded.redirects).2.isOk then
    cdDestination r expanded.args
  else none

theorem runOpened_runner (lib : StdLib) (around : Surroundings) (r : CommandRunner)
    (cmd : ParsedCommand) (opened : Opened) (stdout : Stdout) :
    ∃ calls, (runOpened lib around r cmd opened stdout).runner =
      (r.movedTo (if cmd.name = str "cd" then cdDestination r cmd.args else none)).recording lib
        calls := by
  obtain ⟨calls, ran⟩ := runCmd_runner lib around r cmd.args cmd.name
  have closed : ∃ closing, (runOpened lib around r cmd opened stdout).runner =
      (runCmd r cmd.args lib around cmd.name).2.1.recording lib closing := ⟨_, rfl⟩
  obtain ⟨closing, closed⟩ := closed
  exact ⟨calls ++ closing, by rw [closed, ran, recording_append]⟩

theorem destination_reached {expanded : SimpleCommand} {after : CommandRunner} {opened : Opened}
    (valid : validateParsedCommand (parserCommandFromSimple expanded) = .ok ())
    (redirected : applyFakeRedirections lib around.reservedAt r expanded.redirects =
      (after, .ok opened)) :
    destination lib around r expanded =
      if expanded.name = str "cd" then cdDestination r expanded.args else none := by
  unfold destination
  rw [valid, redirected]
  by_cases isCd : expanded.name = str "cd"
  · rw [if_pos ⟨isCd, rfl, rfl⟩, if_pos isCd]
  · rw [if_neg fun h => isCd h.1, if_neg isCd]

theorem runExpanded_runner (lib : StdLib) (around : Surroundings) (r : CommandRunner)
    (expanded : SimpleCommand) (stdout : Stdout) :
    ∃ calls, (runExpanded lib around r expanded stdout).runner =
      (r.movedTo (destination lib around r expanded)).recording lib calls := by
  unfold runExpanded
  by_cases unnamed : expanded.name = []
  · have notCd : expanded.name ≠ str "cd" := by
      rw [unnamed]
      decide
    rw [if_pos unnamed, destination, if_neg fun h => notCd h.1]
    exact ⟨[], rfl⟩
  · rw [if_neg unnamed]
    cases valid : validateParsedCommand (parserCommandFromSimple expanded) with
    | error e =>
      rw [destination, valid, if_neg fun h => nomatch h.2.1]
      exact ⟨[], rfl⟩
    | ok u =>
      obtain ⟨calls, made⟩ :=
        applyFakeRedirections_runner lib around.reservedAt r expanded.redirects
      rcases redirected : applyFakeRedirections lib around.reservedAt r expanded.redirects with
        ⟨after, e | opened⟩
      · rw [redirected] at made
        rw [destination, redirected, if_neg fun h => nomatch h.2.2]
        refine ⟨calls, ?_⟩
        dsimp only
        split <;> exact made
      · rw [destination_reached valid redirected]
        rw [redirected] at made
        obtain rfl : after = r.recording lib calls := made
        obtain ⟨later, ran⟩ := runOpened_runner lib around (r.recording lib calls)
          (parserCommandFromSimple expanded) opened stdout
        refine ⟨calls ++ later, ran.trans ?_⟩
        rw [movedTo_recording, recording_append]
        rfl

/-! ## The deferred cleanup -/

/-- The directory that a command with a name moves to for good. A temporary `PWD` is put
back over the move. -/
def lastingMove (lib : StdLib) (around : Surroundings) (r : CommandRunner) (lastStatus : Int)
    (cmd : SimpleCommand) : Option Bytes :=
  if pwdKey ∈ (envWrites cmd.envAssignments).map Prod.fst then none
  else match expandAssigned (applyCommandEnv r cmd.envAssignments).1 cmd lastStatus with
    | .error _ => none
    | .ok expanded => destination lib around (applyCommandEnv r cmd.envAssignments).1 expanded

theorem lastingMove_eq_some {lastStatus : Int} {cmd : SimpleCommand} {d : Bytes}
    (h : lastingMove lib around r lastStatus cmd = some d) :
    pwdKey ∉ (envWrites cmd.envAssignments).map Prod.fst ∧
      ∃ args, cdDestination (applyCommandEnv r cmd.envAssignments).1 args = some d := by
  rw [lastingMove, Option.ite_none_left_eq_some] at h
  refine ⟨h.1, ?_⟩
  cases expansion : expandAssigned (applyCommandEnv r cmd.envAssignments).1 cmd lastStatus with
  | error e =>
    rw [expansion] at h
    cases h.2
  | ok expanded =>
    rw [expansion] at h
    exact ⟨expanded.args, (Option.ite_none_right_eq_some.mp h.2).2⟩

/-- The cleanup after a move: it takes the assignments back, and the move with them if
`PWD` is one of them. -/
theorem restore_movedTo (r : CommandRunner) (assignments : List Bytes) (d : Option Bytes)
    (calls : List RecordCall) :
    restoreCommandEnv (((applyCommandEnv r assignments).1.movedTo d).recording lib calls)
        (applyCommandEnv r assignments).2 =
      (r.movedTo (if pwdKey ∈ (envWrites assignments).map Prod.fst then none else d)).recording lib
        calls := by
  obtain ⟨after, notes⟩ := applyCommandEnv_eq r assignments
  rw [restoreCommandEnv_eq, notes, after]
  cases d with
  | none =>
    rw [ite_self]
    exact congrArg (fun env => ({ r with tempEnv := env }).recording lib calls)
      (FiniteMap.undo_journal r.tempEnv (envWrites assignments))
  | some d =>
    rw [← FiniteMap.journal_keys r.tempEnv]
    split
    next taken =>
      exact congrArg (fun env => ({ r with tempEnv := env }).recording lib calls)
        ((FiniteMap.undo_insert_of_mem taken).trans (FiniteMap.undo_journal ..))
    next free =>
      refine congrArg (fun env => ({ r with tempEnv := env }).recording lib calls)
        ((FiniteMap.undo_insert_of_not_mem free).trans ?_)
      rw [FiniteMap.undo_journal]

variable {lastStatus : Int} {cmd : SimpleCommand}

/-- A command with a name changes the store, by calls of `Record`, and by a lasting move
the session's `PWD`. -/
theorem execute_named (lib : StdLib) (around : Surroundings) (r : CommandRunner) (lastStatus : Int)
    (stdout : Stdout) (named : cmd.name ≠ []) :
    ∃ calls, (executeSimpleCommand lib around r lastStatus cmd stdout).runner =
      (r.movedTo (lastingMove lib around r lastStatus cmd)).recording lib calls := by
  unfold executeSimpleCommand lastingMove
  rcases expandSimpleCommand_named r lastStatus named with
    ⟨e, failed, expansion⟩ | ⟨expanded, expandedTo, expansion⟩
  · rw [expansion, failed, ite_self]
    refine ⟨[], ?_⟩
    dsimp only
    split <;> rfl
  · rw [expansion, expandedTo]
    obtain ⟨calls, ran⟩ := runExpanded_runner lib around (applyCommandEnv r cmd.envAssignments).1
      expanded stdout
    refine ⟨calls, ?_⟩
    dsimp only
    rw [ran, restore_movedTo]

/-- A command of assignments alone sets its variables, or nothing if it is refused. -/
theorem execute_unnamed (lib : StdLib) (around : Surroundings) (r : CommandRunner)
    (lastStatus : Int) (stdout : Stdout) (unnamed : cmd.name = []) :
    (executeSimpleCommand lib around r lastStatus cmd stdout).runner =
      ((validateAssignmentOnlyEnv r cmd.envAssignments).map (setEnvs r)).toOption.getD r := by
  unfold executeSimpleCommand expandSimpleCommand executeAssignmentOnly
  rw [if_pos unnamed]
  cases validateAssignmentOnlyEnv r cmd.envAssignments with
  | error e =>
    dsimp only [Except.map]
    split <;> rfl
  | ok parsed =>
    dsimp only [Except.map]
    unfold runExpanded
    rw [if_pos unnamed]
    rfl

/-! ## Temporary assignments -/

theorem lastingMove_eq_none (notCd : ∀ expanded cleanup,
    (expandSimpleCommand r cmd lastStatus).2 = .ok (expanded, cleanup) →
      expanded.name ≠ str "cd") (named : cmd.name ≠ []) :
    lastingMove lib around r lastStatus cmd = none := by
  unfold lastingMove
  rcases expandSimpleCommand_named r lastStatus named with
    ⟨e, failed, _⟩ | ⟨expanded, expandedTo, expansion⟩
  · rw [failed, ite_self]
  · rw [expandedTo]
    have other := notCd expanded _ (congrArg Prod.snd expansion)
    have stays : destination lib around (applyCommandEnv r cmd.envAssignments).1 expanded = none :=
      if_neg fun h => other h.1
    dsimp only
    rw [stays, ite_self]

/-- Temporary assignments leave no trace: a failed expansion has taken them back, the
cleanup of a successful one takes them back, and so does every return of
`executeSimpleCommand`. -/
theorem temporary_assignments_undone (lib : StdLib) (around : Surroundings) (r : CommandRunner)
    (lastStatus : Int) (cmd : SimpleCommand) (stdout : Stdout) (named : cmd.name ≠ []) :
    (∀ e, (expandSimpleCommand r cmd lastStatus).2 = .error e →
      (expandSimpleCommand r cmd lastStatus).1.tempEnv = r.tempEnv) ∧
    (∀ expanded cleanup, (expandSimpleCommand r cmd lastStatus).2 = .ok (expanded, cleanup) →
      ∀ r', r'.tempEnv = (expandSimpleCommand r cmd lastStatus).1.tempEnv →
        (restoreCommandEnv r' cleanup).tempEnv = r.tempEnv) ∧
    ((∀ expanded cleanup, (expandSimpleCommand r cmd lastStatus).2 = .ok (expanded, cleanup) →
        expanded.name ≠ str "cd") →
      (executeSimpleCommand lib around r lastStatus cmd stdout).runner.tempEnv = r.tempEnv) := by
  refine ⟨?_, ?_, ?_⟩
  · intro e failed
    rcases expandSimpleCommand_named r lastStatus named with ⟨_, _, expansion⟩ | ⟨_, _, expansion⟩
    · rw [expansion]
    · rw [expansion] at failed
      cases failed
  · intro expanded cleanup succeeded r' same
    rcases expandSimpleCommand_named r lastStatus named with ⟨_, _, expansion⟩ | ⟨_, _, expansion⟩
    · rw [expansion] at succeeded
      cases succeeded
    · rw [expansion] at succeeded same
      cases succeeded
      have restored := congrArg CommandRunner.tempEnv (restore_applyCommandEnv r cmd.envAssignments)
      rw [restoreCommandEnv_eq] at restored ⊢
      dsimp only at same ⊢
      rw [same]
      exact restored
  · intro notCd
    obtain ⟨s, hs⟩ := execute_named lib around r lastStatus stdout named
    rw [hs, lastingMove_eq_none notCd named]
    rfl

/-- A library without letters beyond ASCII. -/
def asciiLib : StdLib where
  cases := {
    lower := fun _ => 0
    lower_le := fun _ => Nat.zero_le _
    lower_not_capital := fun _ h => absurd h.1 (by decide) }
  quote := fun s => s
  point := fun b => [b]

/-- Surroundings in which the clock stands still and every write succeeds. -/
noncomputable def stillSurroundings : Surroundings where
  reservedAt := fun _ => 0
  ranAt := 0
  closedAt := fun _ => 0
  loggedAt := 0
  iterate := fun m => (m.entries.map fun e => e.2).toList
  iterate_all := fun _ => Multiset.coe_toList _
  writeError := none

/-- A session that has set `a`. -/
def sessionWithA : CommandRunner := ({} : CommandRunner).setEnv (str "a") (str "0")

/-- `A=1 a=2 echo $A`. -/
def echoWithA : SimpleCommand where
  envAssignments := [str "A=1", str "a=2"]
  name := str "echo"
  args := [str "$A"]

theorem temporary_assignments_of_echo : echoWithA.name ≠ [] ∧
    (executeSimpleCommand asciiLib stillSurroundings sessionWithA 0 echoWithA
      .channel).runner.tempEnv = sessionWithA.tempEnv := by
  have named : echoWithA.name ≠ [] := by decide
  refine ⟨named, (temporary_assignments_undone asciiLib stillSurroundings sessionWithA 0 echoWithA
    .channel named).2.2 ?_⟩
  intro expanded cleanup succeeded
  have name : (expandSimpleCommand sessionWithA echoWithA 0).2.map (fun p => p.1.name) =
      .ok (str "echo") := rfl
  rw [succeeded] at name
  have isEcho : expanded.name = str "echo" := Except.ok.inj name
  rw [isEcho]
  decide

end FakeSSH.Shell
