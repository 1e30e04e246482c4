import FakeSSH.Shell.Builtins
import FakeSSH.Shell.Logging
import FakeSSH.Shell.Loop

/-!
# Executing commands (`fakeshell.go`)

A simple command is expanded, its redirections are made, the built-in runs, and the
redirections and the temporary assignments are cleaned up again. `executePipeline` is
the parameter that the shell's loop was left with.
-/

namespace FakeSSH.Shell

open FakeSSH.Go FakeSSH.Lib

/-! ## The parsed command -/

/-- `parser.Command`, as far as the shell fills it. -/
structure ParsedCommand where
  name : Bytes
  args : List Bytes
  envs : List EnvPair
  deriving DecidableEq, Repr

def parserCommandFromSimple (cmd : SimpleCommand) : ParsedCommand :=
  ⟨cmd.name, cmd.args, cmd.envAssignments.filterMap splitEnvAssignment⟩

/-- The errors of `validateParsedCommand`. -/
inductive InputError where
  | commandToken
  | arguments
  | argumentToken
  | envAssignments
  | envToken
  deriving DecidableEq, Repr

def InputError.text : InputError → Bytes
  | .commandToken => str "command token too long"
  | .arguments => str "too many arguments"
  | .argumentToken => str "argument token too long"
  | .envAssignments => str "too many env assignments"
  | .envToken => str "env token too long"

def validateParsedCommand (cmd : ParsedCommand) : Except InputError Unit :=
  if maxInputTokenBytes < cmd.name.length then .error .commandToken
  else if maxInputArgs < cmd.args.length then .error .arguments
  else if cmd.args.any fun arg => maxInputTokenBytes < arg.length then .error .argumentToken
  else if maxInputArgs < cmd.envs.length then .error .envAssignments
  else if cmd.envs.any fun p => maxInputTokenBytes < p.key.length ∨
      maxInputTokenBytes < p.value.length ∨
      maxInputTokenBytes < p.key.length + 1 + p.value.length then .error .envToken
  else .ok ()

/-! ## Simple commands -/

/-- The errors that end the session. -/
inductive ExecFailure where
  | limit (e : ShellError)
  | invalidInput (e : InputError)
  deriving DecidableEq, Repr

/-- What a command's standard output is: the channel, or a writer that counts and
throws away, within a pipeline. -/
inductive Stdout where
  | channel
  | discard
  deriving DecidableEq, Repr

/-- What `executeSimpleCommand` leaves behind: the runner, the writes in order, the event
for the log, and its answer. -/
structure Executed where
  runner : CommandRunner
  writes : List (Writer × Bytes) := []
  logged : Option Event := none
  status : Int
  error : Option (ExecError ExecFailure) := none

/-- `commandErrorString`. -/
def commandErrorString (errmsg : Bytes) : Option CmdError → Bytes
  | none | some .exit => errmsg
  | some (.failed text) =>
    if errmsg = [] then text
    else if contains text errmsg then errmsg
    else errmsg ++ str ": " ++ text

/-- The event of `logCommand`. -/
def commandEvent (now : Int) (r : CommandRunner) (cmd : ParsedCommand) (errmsg : Bytes)
    (runErr : Option CmdError) : Event where
  time := now
  type := str "command"
  cwd := r.currentPWD
  command := cmd.name
  args := cmd.args
  error := commandErrorString errmsg runErr
  metadata := dynamicEntries r.dynamic

/-- The error that the built-in returns: that of its write, if the write fails. -/
def Report.returned (report : Report) (writeError : Option Bytes) : Option CmdError :=
  match report.out, writeError with
  | some _, some e => some (.failed e)
  | _, _ => report.error

variable (lib : StdLib) (around : Surroundings)

/-- `executeSimpleCommand` from `runCmd` on. -/
def runOpened (r : CommandRunner) (cmd : ParsedCommand) (opened : Opened) (stdout : Stdout) :
    Executed :=
  let (msg, r, report) := runCmd r cmd.args lib around cmd.name
  let writes := report.errs.map (opened.errw, ·) ++ report.out.toList.map (opened.out, ·) ++
    (if msg = [] then [] else [(opened.errw, msg ++ [newline])])
  let runErr := report.returned <|
    if opened.out = .stdout ∧ stdout = .channel then around.writeError else none
  let r := { r with
    dynamic := recordDropping lib r.dynamic
      (closingCalls around.closedAt opened.records (recordCount writes)) }
  { runner := r
    writes := writes
    logged := some (commandEvent around.loggedAt r cmd msg runErr)
    status := match runErr with
      | some (.failed _) => 1
      | _ => 0
    error := match runErr with
      | some .exit => some .exit
      | _ => none }

/-- `executeSimpleCommand` once the command is expanded. -/
def runExpanded (r : CommandRunner) (expanded : SimpleCommand) (stdout : Stdout) : Executed :=
  let parserCmd := parserCommandFromSimple expanded
  if expanded.name = [] then { runner := r, status := 0 }
  else match validateParsedCommand parserCmd with
    | .error e => { runner := r, status := 1, error := some (.other (.invalidInput e)) }
    | .ok () =>
      match applyFakeRedirections lib around.reservedAt r expanded.redirects with
      | (r, .error e) =>
        if e.isLimit then { runner := r, status := 1, error := some (.other (.limit e)) }
        else
          { runner := r
            writes := [(.stderr, e.text lib ++ [newline])]
            logged := some (commandEvent around.loggedAt r parserCmd (e.text lib)
              (some (.failed (e.text lib))))
            status := 1 }
      | (r, .ok opened) => runOpened lib around r parserCmd opened stdout

/-- `executeSimpleCommand`. The deferred `envCleanup` runs on every return behind it. -/
def executeSimpleCommand (r : CommandRunner) (lastStatus : Int) (cmd : SimpleCommand)
    (stdout : Stdout) : Executed :=
  match expandSimpleCommand r cmd lastStatus with
  | (r, .error e) =>
    if e.isLimit then { runner := r, status := 1, error := some (.other (.limit e)) }
    else { runner := r, writes := [(.stderr, e.text lib ++ [newline])], status := 1 }
  | (r, .ok (expanded, envCleanup)) =>
    let done := runExpanded lib around r expanded stdout
    { done with runner := restoreCommandEnv done.runner envCleanup }

/-! ## Pipelines -/

/-- A runner among its surroundings: what they will answer to the commands to come. -/
structure Host where
  runner : CommandRunner
  ahead : Nat → Surroundings

/-- The loop of `executePipeline`. Only the last part writes to the channel. -/
def executeParts (lastStatus : Int) :
    Host → Int → List SimpleCommand → Except (ExecError ExecFailure) (Host × Int)
  | h, status, [] => .ok (h, status)
  | h, _, part :: rest =>
    let done := executeSimpleCommand lib (h.ahead 0) h.runner lastStatus part
      (if rest = [] then .channel else .discard)
    match done.error with
    | some e => .error e
    | none =>
      executeParts lastStatus { runner := done.runner, ahead := fun n => h.ahead (n + 1) }
        done.status rest

/-- `executePipeline`. -/
def executePipeline : Pipelines Host ExecFailure := fun s pipe =>
  (executeParts lib s.lastStatus s.runner 0 pipe.parts).map fun (h, status) =>
    ({ s with runner := h }, status)

end FakeSSH.Shell
