import FakeSSH.Lib.Transition

/-!
# The local process lifecycle (`backend_local_lifecycle.go`)

`waitLocalProcess` and `waitLocalOutput` as one program over an environment that
moves when it likes. The program counter names the places where the code blocks
or acts; every `select` is one of them, with one step for each case it may take,
so a blocking `select` whose cases are all silent has no step and a non-blocking
one takes its `default` only then. The environment is the exit observer's
goroutine, the two copy goroutines (each sends on its channel once, or never)
and the cancellation of the context.

The log records the calls the code makes on the process and on stdin, the
observer's return, and each time a `select` takes `ctx.Done()`, with whether
everything the code waits for was available at that moment.
-/

namespace FakeSSH.GitServer

/-- `exited`, from the observer's side and the receiver's: the observer is in
`waitExited`, has returned from it, has sent, or the result was received. -/
inductive Exit (E : Type) where
  | running
  | returned (r : Option E)
  | ready (r : Option E)
  | taken (r : Option E)

/-- `stdoutDone` or `stderrDone`: nothing sent yet, a result in the channel, or
received, which is when the code sets its variable to nil. -/
inductive Copy (E : Type) where
  | pending
  | ready (r : Option E)
  | taken (r : Option E)

/-- What `waitLocalProcess` returns: nil, `ctx.Err()`, or an error with the call
it came from. -/
inductive Ret (E : Type) where
  | nil
  | ctxErr
  | observe (e : E)
  | process (e : E)
  | output (e : E)

/-- The places of the code, in its order. -/
inductive WaitPC (E : Type) where
  | selectExit
  | pollExit
  | abortStdin
  | abortSignal
  | abortJoin
  | abortReap
  | closeStdin (observeErr : Option E)
  | observeSignal (observeErr : E)
  | observeReap (observeErr : E)
  | outputLoop
  | pollStdout
  | pollStderr
  | bothTaken
  | selectOutput
  | drainStdout
  | drainStderr
  | outputDone (outputPending : Bool)
  | finalReap (outputPending : Bool)
  | returned (r : Ret E)

inductive WaitEvent (E : Type) where
  | exitObserved (r : Option E)
  | stdinClosed
  | terminated
  | reaped (r : Option E)
  | cancelNoticed (complete : Bool)

structure Wait (E : Type) where
  pc : WaitPC E
  cancelled : Bool
  exit : Exit E
  stdout : Copy E
  stderr : Copy E
  log : List (WaitEvent E)

variable {E : Type}

def Copy.isTaken : Copy E → Bool
  | .taken _ => true
  | _ => false

def Copy.isPending : Copy E → Bool
  | .pending => true
  | _ => false

/-- The local error variable of a copy: nil until a result is received. -/
def Copy.err : Copy E → Option E
  | .taken r => r
  | _ => none

/-- A non-blocking receive: takes a result that is there, and is otherwise the
`default` case (also on the nil channel of a copy already received). -/
def Copy.poll : Copy E → Copy E
  | .ready r => .taken r
  | c => c

/-- The exit was observed without error and both outputs have arrived. -/
def Wait.complete (s : Wait E) : Bool :=
  (match s.exit with
    | .ready none => true
    | .taken none => true
    | _ => false) && !s.stdout.isPending && !s.stderr.isPending

/-- The result of the last lines of `waitLocalProcess`, with the reap's. -/
def Wait.result (s : Wait E) (outputPending : Bool) (processErr : Option E) : Ret E :=
  if outputPending then .ctxErr
  else match processErr, s.stdout.err, s.stderr.err with
    | some e, _, _ => .process e
    | none, some e, _ => .output e
    | none, none, some e => .output e
    | none, none, none => .nil

/-- Where the code goes once stdin is closed on an observed exit. -/
def afterClose : Option E → WaitPC E
  | some e => .observeSignal e
  | none => .outputLoop

/-- The call's first state: nothing has happened yet. -/
def Wait.start : Wait E :=
  { pc := .selectExit, cancelled := false, exit := .running, stdout := .pending,
    stderr := .pending, log := [] }

/-- What the environment may do. -/
inductive WaitEnv : Wait E → Wait E → Prop
  | cancel (s : Wait E) : WaitEnv s { s with cancelled := true }
  | observe (s : Wait E) (r : Option E) : s.exit = .running →
      WaitEnv s { s with exit := .returned r, log := s.log ++ [.exitObserved r] }
  | send (s : Wait E) (r : Option E) : s.exit = .returned r →
      WaitEnv s { s with exit := .ready r }
  | stdout (s : Wait E) (r : Option E) : s.stdout = .pending →
      WaitEnv s { s with stdout := .ready r }
  | stderr (s : Wait E) (r : Option E) : s.stderr = .pending →
      WaitEnv s { s with stderr := .ready r }

/-- What the code does. -/
inductive WaitMain : Wait E → Wait E → Prop
  -- the first select, and the poll inside its `ctx.Done()` case
  | selectExit (s : Wait E) (r : Option E) : s.pc = .selectExit → s.exit = .ready r →
      WaitMain s { s with pc := .closeStdin r, exit := .taken r }
  | selectCancel (s : Wait E) : s.pc = .selectExit → s.cancelled = true →
      WaitMain s { s with pc := .pollExit, log := s.log ++ [.cancelNoticed s.complete] }
  | pollExit (s : Wait E) (r : Option E) : s.pc = .pollExit → s.exit = .ready r →
      WaitMain s { s with pc := .closeStdin r, exit := .taken r }
  | pollDefault (s : Wait E) : s.pc = .pollExit → (∀ r, s.exit ≠ .ready r) →
      WaitMain s { s with pc := .abortStdin }
  -- its default: close, signal, join the observer, reap
  | abortStdin (s : Wait E) : s.pc = .abortStdin →
      WaitMain s { s with pc := .abortSignal, log := s.log ++ [.stdinClosed] }
  | abortSignal (s : Wait E) : s.pc = .abortSignal →
      WaitMain s { s with pc := .abortJoin, log := s.log ++ [.terminated] }
  | abortJoin (s : Wait E) (r : Option E) : s.pc = .abortJoin → s.exit = .ready r →
      WaitMain s { s with pc := .abortReap, exit := .taken r }
  | abortReap (s : Wait E) (r : Option E) : s.pc = .abortReap →
      WaitMain s { s with pc := .returned .ctxErr, log := s.log ++ [.reaped r] }
  -- an observed exit
  | closeStdin (s : Wait E) (r : Option E) : s.pc = .closeStdin r →
      WaitMain s { s with pc := afterClose r, log := s.log ++ [.stdinClosed] }
  | observeSignal (s : Wait E) (e : E) : s.pc = .observeSignal e →
      WaitMain s { s with pc := .observeReap e, log := s.log ++ [.terminated] }
  | observeReap (s : Wait E) (e : E) (r : Option E) : s.pc = .observeReap e →
      WaitMain s { s with pc := .returned (.observe e), log := s.log ++ [.reaped r] }
  -- `waitLocalOutput`
  | loopDone (s : Wait E) : s.pc = .outputLoop → (s.stdout.isTaken && s.stderr.isTaken) = true →
      WaitMain s { s with pc := .outputDone false }
  | loopBody (s : Wait E) : s.pc = .outputLoop → (s.stdout.isTaken && s.stderr.isTaken) = false →
      WaitMain s { s with pc := .pollStdout }
  | pollStdout (s : Wait E) : s.pc = .pollStdout →
      WaitMain s { s with pc := .pollStderr, stdout := s.stdout.poll }
  | pollStderr (s : Wait E) : s.pc = .pollStderr →
      WaitMain s { s with pc := .bothTaken, stderr := s.stderr.poll }
  | bothTaken (s : Wait E) : s.pc = .bothTaken → (s.stdout.isTaken && s.stderr.isTaken) = true →
      WaitMain s { s with pc := .outputDone false }
  | notBoth (s : Wait E) : s.pc = .bothTaken → (s.stdout.isTaken && s.stderr.isTaken) = false →
      WaitMain s { s with pc := .selectOutput }
  | selectStdout (s : Wait E) (r : Option E) : s.pc = .selectOutput → s.stdout = .ready r →
      WaitMain s { s with pc := .outputLoop, stdout := .taken r }
  | selectStderr (s : Wait E) (r : Option E) : s.pc = .selectOutput → s.stderr = .ready r →
      WaitMain s { s with pc := .outputLoop, stderr := .taken r }
  | selectDone (s : Wait E) : s.pc = .selectOutput → s.cancelled = true →
      WaitMain s { s with pc := .drainStdout, log := s.log ++ [.cancelNoticed s.complete] }
  | drainStdout (s : Wait E) : s.pc = .drainStdout →
      WaitMain s { s with pc := .drainStderr, stdout := s.stdout.poll }
  | drainStderr (s : Wait E) : s.pc = .drainStderr →
      WaitMain s { s with
        pc := .outputDone !(s.stdout.isTaken && s.stderr.poll.isTaken), stderr := s.stderr.poll }
  -- the common end
  | outputPending (s : Wait E) : s.pc = .outputDone true →
      WaitMain s { s with pc := .finalReap true, log := s.log ++ [.terminated] }
  | outputComplete (s : Wait E) : s.pc = .outputDone false →
      WaitMain s { s with pc := .finalReap false }
  | finalReap (s : Wait E) (p : Bool) (r : Option E) : s.pc = .finalReap p →
      WaitMain s { s with pc := .returned (s.result p r), log := s.log ++ [.reaped r] }

def WaitEvent.isReap : WaitEvent E → Bool
  | .reaped _ => true
  | _ => false

/-- How often `reap` was called. -/
def reaps (log : List (WaitEvent E)) : Nat := log.countP WaitEvent.isReap

/-- One step of the call and its environment. -/
def WaitStep (s s' : Wait E) : Prop := WaitEnv s s' ∨ WaitMain s s'

end FakeSSH.GitServer
