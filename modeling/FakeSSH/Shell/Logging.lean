import FakeSSH.Shell.Dynamic

/-!
# The session log (`logging.go`)

A `sessionLogger` writes one line for each event until a cap is reached, and then one
truncation marker. Its writer may write less than it is given and may fail; after the
first such write nothing is written. `LogCall` is a call with what its surroundings
answer in it, and `call` the logger after it, with the write that it made.
-/

namespace FakeSSH.Shell

open FakeSSH.Go FakeSSH.Lib

def maxLoggedCommandBytes : Nat := 4096
def maxLogEventBytes : Nat := 8192
def maxLogEventsPerSession : Nat := 1024
def maxLogBytesPerSession : Nat := 1048576
def truncationMarkerReserve : Nat := 256
def truncationMarkerReason : Bytes := str "session_log_limit"

/-! ## Records -/

/-- `cmds.Event`; `time` is a reading of the clock. -/
structure Event where
  time : Int := 0
  type : Bytes := []
  cwd : Bytes := []
  command : Bytes := []
  args : List Bytes := []
  error : Bytes := []
  metadata : List DynamicEntry := []

structure LogMetaEntry where
  path : Bytes
  kind : Bytes
  size : Int
  previewB64 : Bytes
  sha256 : Bytes
  updatedAt : Bytes
  deriving DecidableEq, Repr

structure LogRecord where
  time : Bytes
  type : Bytes
  cwd : Bytes := []
  command : Bytes := []
  args : List Bytes := []
  error : Bytes := []
  metadata : List LogMetaEntry := []
  reason : Bytes := []
  deriving DecidableEq, Repr

/-- What the logger takes from the standard library: `json.Marshal` of a record, the
`RFC3339Nano` form of a time in UTC, and base64. -/
structure LogCodec where
  json : LogRecord → Option Bytes
  formatTime : Int → Bytes
  base64 : Bytes → Bytes

/-- The loop of `truncateString` that backs off to the start of a rune. -/
def backOff (s : Bytes) : Nat → Nat
  | 0 => 0
  | cut + 1 => if s.getD (cut + 1) 0 &&& 0xC0 = 0x80 then backOff s cut else cut + 1

def ellipsis : Bytes := str "..."

def truncateString (s : Bytes) (maxBytes : Nat) : Bytes :=
  if maxBytes = 0 ∨ s.length ≤ maxBytes then s
  else s.take (backOff s (maxBytes - ellipsis.length)) ++ ellipsis

/-- The loop of `boundedRecord` over the arguments, with the bytes taken so far. -/
def boundedArgs : Nat → List Bytes → List Bytes
  | _, [] => []
  | total, a :: rest =>
    let ta := truncateString a maxLoggedCommandBytes
    if maxLoggedCommandBytes < total + ta.length then [ta, str "...args_truncated"]
    else ta :: boundedArgs (total + ta.length) rest

variable (c : LogCodec)

def previewToB64 (p : Bytes) : Bytes :=
  if p = [] then [] else c.base64 (p.take maxDynamicPreviewBytes)

def boundedRecord (ev : Event) : LogRecord where
  time := c.formatTime ev.time
  type := truncateString ev.type maxLoggedCommandBytes
  cwd := truncateString ev.cwd maxLoggedCommandBytes
  command := truncateString ev.command maxLoggedCommandBytes
  args := boundedArgs 0 ev.args
  error := truncateString ev.error maxLoggedCommandBytes
  metadata := ev.metadata.map fun de => {
    path := truncateString de.path maxLoggedCommandBytes
    kind := de.kind
    size := de.size
    previewB64 := previewToB64 c de.preview
    sha256 := de.sha256
    updatedAt := c.formatTime de.updatedAt }

/-- `marshalEvent`: the line, and whether it is too long. -/
def marshalEvent (ev : Event) : Bytes × Bool :=
  match c.json (boundedRecord c ev) with
  | none => (str "\x7b\"type\":\"marshal_error\"\x7d\n", false)
  | some b => (b ++ [newline], decide (maxLogEventBytes < (b ++ [newline]).length))

def marshalEventTooLarge (ev : Event) : Bytes :=
  (c.json {
    time := c.formatTime ev.time
    type := str "event_too_large"
    reason := str "single_event_exceeds_max_log_event_bytes"
    cwd := if ev.type = [] then [] else truncateString ev.type 128 }).getD [] ++ [newline]

/-- The line that `Log` has for an event. -/
def eventLine (ev : Event) : Bytes :=
  let line := if (marshalEvent c ev).2 then marshalEventTooLarge c ev else (marshalEvent c ev).1
  if maxLogEventBytes < line.length then marshalEventTooLarge c ev else line

/-- The line of the truncation marker, at a reading of the clock. -/
def truncationMarker (now : Int) : Bytes :=
  let b := (c.json {
    time := c.formatTime now
    type := str "truncated"
    reason := truncationMarkerReason }).getD [] ++ [newline]
  if maxLogEventBytes < b.length then
    str "\x7b\"type\":\"truncated\",\"reason\":\"session_log_limit\"\x7d\n"
  else b

/-! ## The logger -/

/-- `sessionLogger`; `compressed` says that its writer is not the file itself. -/
structure SessionLogger where
  compressed : Bool := false
  events : Nat := 0
  bytes : Nat := 0
  trunc : Bool := false
  closed : Bool := false
  writeErr : Option Bytes := none
  deriving DecidableEq, Repr

/-- What the writer answers a `Write`; it writes no more than it is given. -/
structure WriteAnswer where
  n : Nat
  err : Option Bytes := none

/-- A write that the logger made. -/
structure LogWrite where
  line : Bytes
  marker : Bool
  n : Nat
  err : Option Bytes
  deriving DecidableEq, Repr

def errShortWrite : Bytes := str "short write"

def byteCeiling : Nat := maxLogBytesPerSession - truncationMarkerReserve

/-- A call, with what the clock, the writer and the file answer in it. -/
inductive LogCall where
  | log (ev : Event) (now : Int) (answer : WriteAnswer)
  | close (wErr rawErr : Option Bytes)

namespace SessionLogger

/-- `recordWriteResult`, with the count that the callers make on its answer. -/
def recordWriteResult (l : SessionLogger) (n want : Nat) (err : Option Bytes) : SessionLogger :=
  let err := if err = none ∧ n ≠ want then some errShortWrite else err
  { l with
    bytes := l.bytes + n
    writeErr := if err ≠ none ∧ l.writeErr = none then err else l.writeErr
    events := if err = none ∧ n = want then l.events + 1 else l.events }

/-- One `Write` of a line. -/
def writeLine (l : SessionLogger) (marker : Bool) (line : Bytes) (answer : WriteAnswer) :
    SessionLogger × LogWrite :=
  let n := min answer.n line.length
  (l.recordWriteResult n line.length answer.err, { line, marker, n, err := answer.err })

def writeTruncationMarker (l : SessionLogger) (now : Int) (answer : WriteAnswer) :
    SessionLogger × Option LogWrite :=
  if l.trunc then (l, none)
  else
    let (l, w) := l.writeLine true (truncationMarker c now) answer
    ({ l with trunc := true }, some w)

/-- `sessionLogger.Log`. -/
def log (l : SessionLogger) (ev : Event) (now : Int) (answer : WriteAnswer) :
    SessionLogger × Option LogWrite :=
  if l.closed ∨ l.writeErr ≠ none then (l, none)
  else if l.trunc then (l, none)
  else if maxLogEventsPerSession ≤ l.events ∨ byteCeiling < l.bytes + (eventLine c ev).length then
    l.writeTruncationMarker c now answer
  else
    let (l, w) := l.writeLine false (eventLine c ev) answer
    (l, some w)

/-- `sessionLogger.Close`: the logger after it, and what it returns. -/
def close (l : SessionLogger) (wErr rawErr : Option Bytes) : SessionLogger × Option Bytes :=
  if l.closed then (l, l.writeErr)
  else
    let firstErr := l.writeErr
    let firstErr := if l.compressed ∧ firstErr = none then wErr else firstErr
    let firstErr := if firstErr = none then rawErr else firstErr
    ({ l with closed := true, writeErr := firstErr }, firstErr)

/-- The logger after a call, and the write that the call made. -/
def call (l : SessionLogger) : LogCall → SessionLogger × Option LogWrite
  | .log ev now answer => l.log c ev now answer
  | .close wErr rawErr => ((l.close wErr rawErr).1, none)

/-- The logger after a sequence of calls, and the writes that they made. -/
def calls (l : SessionLogger) : List LogCall → SessionLogger × List LogWrite
  | [] => (l, [])
  | first :: rest =>
    let after := calls (l.call c first).1 rest
    (after.1, (l.call c first).2.toList ++ after.2)

end SessionLogger

end FakeSSH.Shell
