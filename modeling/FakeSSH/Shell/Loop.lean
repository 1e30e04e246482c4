import FakeSSH.Lib.Transition
import FakeSSH.Shell.Syntax

/-!
# The shell's loop (`RunLoop`)

The loop keeps what it has read in a buffer of one line. It takes segments off
the buffer and hands them to `executeShellLine`, and reads when the buffer holds
no whole segment. After a segment that does not parse it drops the rest of the
physical line, in as many reads as the line takes to arrive.

How much a `Read` returns is up to the peer: any part of what is still to come
that fits the space asked for, or the end of the input. So the loop is a step
relation, with one step for each turn. What `executePipeline` does is a
parameter. The loop's context is live, and prompts are written.
-/

namespace FakeSSH.Shell

open FakeSSH.Go

variable {σ E : Type}

/-! ## Executing a segment -/

/-- The errors of `executePipeline`; `exit` wraps `cmds.ErrExit`. -/
inductive ExecError (E : Type) where
  | exit
  | other (e : E)
  deriving DecidableEq, Repr

/-- Why `RunLoop` returns. -/
inductive EndReason (E : Type) where
  | exit
  | failed (e : E)
  | endOfInput
  | syntaxLimit (e : SyntaxError)
  | inputLineTooLong
  deriving DecidableEq, Repr

def ExecError.toEnd : ExecError E → EndReason E
  | .exit => .exit
  | .other e => .failed e

/-- The session: what the commands keep, and the status of the last pipeline. -/
structure Session (σ : Type) where
  runner : σ
  lastStatus : Int
  deriving DecidableEq, Repr

/-- `executePipeline`: the session after it, and its status. -/
abbrev Pipelines (σ E : Type) := Session σ → Pipeline → Except (ExecError E) (Session σ × Int)

def normalizeShellStatus (status : Int) : Int :=
  if status ≤ 0 then 0 else if 255 < status then 255 else status

/-- A pipeline after an operator, skipped where the last status says so. -/
def executeAfter (exec : Pipelines σ E) (s : Session σ) :
    Option Operator × Pipeline → Except (ExecError E) (Session σ)
  | (op, p) =>
    if (op = some .and ∧ s.lastStatus ≠ 0) ∨ (op = some .or ∧ s.lastStatus = 0) then .ok s
    else (exec s p).map fun (s, status) => { s with lastStatus := normalizeShellStatus status }

/-- The pipelines of a line, each with the operator before it. -/
def ShellLine.steps (line : ShellLine) : List (Option Operator × Pipeline) :=
  (none :: line.operators.map some).zip line.pipelines

/-- `executeShellLine`. -/
def executeShellLine (exec : Pipelines σ E) (s : Session σ) (segment : Bytes) :
    Except (EndReason E) (Session σ) :=
  match parseShellLine segment with
  | .error e =>
    if e.isLimit then .error (.syntaxLimit e)
    else .ok { s with lastStatus := normalizeShellStatus 2 }
  | .ok line => (line.steps.foldlM (executeAfter exec) s).mapError ExecError.toEnd

/-! ## The loop -/

/-- The variables of `RunLoop`, what the peer has yet to send, and what was done:
the segments handed to `executeShellLine` and the prompts written. -/
structure Loop (σ E : Type) where
  session : Session σ
  unread : Bytes
  buf : Bytes := []
  done : Bool := true
  eof : Bool := false
  discardPhysicalLine : Bool := false
  commandsThisCycle : Nat := 0
  passed : List Bytes := []
  prompts : Nat := 0
  ended : Option (EndReason E) := none

namespace Loop

/-- The end of `processBufferedInput`: drops what was consumed and hands the
segment over. The answer is whether the loop goes on. -/
def handOver (exec : Pipelines σ E) (l : Loop σ E) (segment : Bytes) (consumeEnd : Nat)
    (discard : Bool) : Loop σ E × Except (EndReason E) Bool :=
  let l := { l with
    buf := l.buf.drop consumeEnd
    discardPhysicalLine := discard
    commandsThisCycle := l.commandsThisCycle + 1
    passed := l.passed ++ [segment] }
  match executeShellLine exec l.session segment with
  | .error why => (l, .error why)
  | .ok s => ({ l with session := s, done := true }, .ok true)

/-- `processBufferedInput` once it knows where the segment ends. -/
def passSegment (exec : Pipelines σ E) (l : Loop σ E) (segmentEnd : Nat) :
    Loop σ E × Except (EndReason E) Bool :=
  let segment := l.buf.take segmentEnd
  match parseShellLine segment with
  | .ok _ => l.handOver exec segment segmentEnd l.discardPhysicalLine
  | .error e =>
    if e.isLimit then (l, .error (.syntaxLimit e))
    else
      let (consumeEnd, complete) := consumePhysicalInputLine l.buf
      l.handOver exec segment consumeEnd (if complete then l.discardPhysicalLine else !l.eof)

/-- `processBufferedInput` after the discarding. -/
def processSegment (exec : Pipelines σ E) (l : Loop σ E) : Loop σ E × Except (EndReason E) Bool :=
  match findCommandSeparator l.buf with
  | some sep => l.passSegment exec (sep + 1)
  | none => if l.eof then l.passSegment exec l.buf.length else (l, .ok false)

/-- `processBufferedInput`. -/
def processBufferedInput (exec : Pipelines σ E) (l : Loop σ E) :
    Loop σ E × Except (EndReason E) Bool :=
  if l.buf = [] then (l, .ok false)
  else if l.discardPhysicalLine then
    let (consumeEnd, complete) := consumePhysicalInputLine l.buf
    let l := { l with buf := l.buf.drop consumeEnd }
    if complete then
      let l := { l with discardPhysicalLine := false }
      if l.buf = [] then (l, .ok true) else l.processSegment exec
    else ({ l with discardPhysicalLine := !l.eof }, .ok true)
  else l.processSegment exec

/-- What a turn of the loop comes to: the next turn, a return, or a `Read`. -/
inductive Turn (σ E : Type) where
  | next (l : Loop σ E)
  | stop (l : Loop σ E) (why : EndReason E)
  | read (l : Loop σ E)

/-- The prompt before a `Read`. -/
def prompt (l : Loop σ E) : Loop σ E :=
  if l.done && (findCommandSeparator l.buf).isNone && !l.discardPhysicalLine then
    { l with done := false, prompts := l.prompts + 1 }
  else l

/-- The part of a turn after `processBufferedInput` had nothing to do. -/
def idleTurn (l : Loop σ E) : Turn σ E :=
  if maxCommandsPerReadCycle ≤ l.commandsThisCycle then .next { l with commandsThisCycle := 0 }
  else if l.eof then .stop l .endOfInput
  else .read l.prompt

/-- A turn of the loop, up to `readInput`. -/
def turn (exec : Pipelines σ E) (l : Loop σ E) : Turn σ E :=
  if l.commandsThisCycle < maxCommandsPerReadCycle then
    match l.processBufferedInput exec with
    | (l, .error why) => .stop l why
    | (l, .ok true) => .next l
    | (l, .ok false) => l.idleTurn
  else l.idleTurn

/-- The space `readInput` asks for. -/
def remaining (l : Loop σ E) : Nat := maxInputLineBytes + 1 - l.buf.length

/-- The rest of the turn, once `Read` has returned `got`. -/
def receive (l : Loop σ E) (got rest : Bytes) (atEOF : Bool) : Loop σ E :=
  let buf := l.buf ++ got
  let tooLong := decide (maxInputLineBytes < buf.length) &&
    (findCommandSeparator buf).all fun sep => decide (maxInputLineBytes < sep)
  { l with
    unread := rest
    buf := buf
    commandsThisCycle := 0
    eof := l.eof || atEOF
    ended := if tooLong then some .inputLineTooLong else none }

end Loop

/-- One turn of `RunLoop`. -/
inductive LoopStep (exec : Pipelines σ E) (l : Loop σ E) : Loop σ E → Prop
  | next (l' : Loop σ E) : l.ended = none → l.turn exec = .next l' → LoopStep exec l l'
  | stop (l' : Loop σ E) (why : EndReason E) : l.ended = none → l.turn exec = .stop l' why →
      LoopStep exec l { l' with ended := some why }
  | full (l' : Loop σ E) : l.ended = none → l.turn exec = .read l' → l'.remaining = 0 →
      LoopStep exec l { l' with commandsThisCycle := 0, ended := some .inputLineTooLong }
  | read (l' : Loop σ E) (got rest : Bytes) : l.ended = none → l.turn exec = .read l' →
      l'.unread = got ++ rest → got ≠ [] → got.length ≤ l'.remaining →
      LoopStep exec l (l'.receive got rest false)
  | eof (l' : Loop σ E) : l.ended = none → l.turn exec = .read l' → l'.remaining ≠ 0 →
      l'.unread = [] → LoopStep exec l (l'.receive [] [] true)

/-- The loop before its first turn, for a peer that will send `input`. -/
def Loop.start (s : Session σ) (input : Bytes) : Loop σ E := { session := s, unread := input }

end FakeSSH.Shell
