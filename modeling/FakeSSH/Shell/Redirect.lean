import FakeSSH.Shell.Expand

/-!
# Redirections (`syntax_expand.go`)

A redirected output is counted and thrown away; what remains of it is an entry of the
dynamic store. Before the command runs, `applyFakeRedirections` goes three times over
the redirections: a preflight looks at the targets and at the room in the store, a
reservation records every target as an empty file, and an opening chooses the writers.
Each pass resolves and checks the targets again. After the command, the cleanup records
the sizes.
-/

namespace FakeSSH.Shell

open FakeSSH.Go FakeSSH.Lib

def maxCommandOutputBytes : Nat := 65536

/-! ## Checks -/

/-- `validateFakeOutputRedirection`. -/
def validateFakeOutputRedirection (r : CommandRunner) (target : Bytes) : Except ShellError Bytes :=
  match resolvePath r.currentPWD target with
  | .error e => .error (.path e)
  | .ok resolved =>
    let entries := dynamicEntries r.dynamic
    if maxDynamicPathLen < resolved.length then .error (.limit .redirectionPath)
    else if !fakeDirExists r (dir resolved) then .error (.noSuchDirectory target)
    else if fakeDirExists r resolved then .error (.isDirectory target)
    else if !dynamicEntryExists entries resolved ∧ maxDynamicEntries ≤ entries.length then
      .error .storeFull
    else .ok resolved

/-- The only duplication there is, `2>&1`. -/
def validateDuplicate (redir : Redirect) : Except ShellError Unit :=
  if redir.fd ≠ 2 ∨ redir.operator ≠ str ">&" ∨ redir.duplicateFD ≠ 1 then
    .error .unsupportedRedirection
  else .ok ()

/-- The operators that a target stands behind. -/
def isOutputOperator (operator : Bytes) : Bool := operator = str ">" ∨ operator = str "2>"

/-- The preflight at one redirection: its target, if it has one. -/
def preflightRedirect (r : CommandRunner) (redir : Redirect) : Except ShellError (Option Bytes) :=
  if redir.duplicate then (validateDuplicate redir).map fun _ => none
  else if isOutputOperator redir.operator then
    (validateFakeOutputRedirection r redir.target).map some
  else .error .unsupportedRedirection

/-- `preflightOutputRedirectionTargets`. -/
def preflightOutputRedirectionTargets (r : CommandRunner) (redirects : List Redirect) :
    Except ShellError Unit := do
  let targets ← redirects.mapM (preflightRedirect r)
  let existing := (dynamicEntries r.dynamic).map (·.path)
  let newTargets := targets.reduceOption.filter fun resolved => resolved ∉ existing
  if maxDynamicEntries < existing.toFinset.card + newTargets.toFinset.card then .error .storeFull
  else .ok ()

/-! ## Reserving and opening -/

/-- The call of `Record` that reserves a target. -/
def reservation (resolved : Bytes) (now : Int) : RecordCall :=
  { pathArg := resolved, kind := kindFile, now := now }

/-- The reservation's loop, with the targets reserved so far. The clock is read for
each call of `Record`. -/
def reserveTargets (lib : StdLib) (clock : Nat → Int) :
    CommandRunner → List Bytes → List Redirect → CommandRunner × Except ShellError Unit
  | r, _, [] => (r, .ok ())
  | r, reserved, redir :: rest =>
    if redir.duplicate then reserveTargets lib clock r reserved rest
    else match validateFakeOutputRedirection r redir.target with
      | .error e => (r, .error e)
      | .ok resolved =>
        if resolved ∈ reserved then reserveTargets lib clock r reserved rest
        else match record lib.cases r.dynamic (reservation resolved (clock reserved.length)) with
          | (s, .error e) => ({ r with dynamic := s }, .error (.dynamic e))
          | (s, .ok _) =>
            reserveTargets lib clock { r with dynamic := s } (reserved ++ [resolved]) rest

/-- Where a command's output goes: to the writers that the shell gave it, or to the
`boundedCountingDiscardWriter` of a record. -/
inductive Writer where
  | stdout
  | stderr
  | file (record : Nat)
  deriving DecidableEq, Repr

/-- The writers of a command, and the paths of its `fakeRedirectionRecord`s. -/
structure Opened where
  out : Writer := .stdout
  errw : Writer := .stderr
  records : List Bytes := []
  deriving DecidableEq, Repr

/-- The opening at one redirection. -/
def openRedirect (r : CommandRunner) (opened : Opened) (redir : Redirect) :
    Except ShellError Opened :=
  if redir.duplicate then (validateDuplicate redir).map fun _ => { opened with errw := opened.out }
  else if !isOutputOperator redir.operator then .error .unsupportedRedirection
  else if redir.fd ≠ 1 ∧ redir.fd ≠ 2 then .error (.unsupportedDescriptor redir.fd)
  else (validateFakeOutputRedirection r redir.target).map fun resolved =>
    let writer := Writer.file opened.records.length
    let records := opened.records ++ [resolved]
    if redir.fd = 1 then { opened with out := writer, records := records }
    else { opened with errw := writer, records := records }

/-- `applyFakeRedirections`: the runner after it, and its answer. -/
def applyFakeRedirections (lib : StdLib) (clock : Nat → Int) (r : CommandRunner)
    (redirects : List Redirect) : CommandRunner × Except ShellError Opened :=
  match preflightOutputRedirectionTargets r redirects with
  | .error e => (r, .error e)
  | .ok () =>
    match reserveTargets lib clock r [] redirects with
    | (r, .error e) => (r, .error e)
    | (r, .ok ()) => (r, redirects.foldlM (openRedirect r) {})

/-! ## The cleanup -/

/-- `boundedCountingDiscardWriter.Write`: the count after it. -/
def countWrite (count : Nat) (p : Bytes) : Nat :=
  if count < maxCommandOutputBytes then count + min p.length (maxCommandOutputBytes - count)
  else count

/-- The count of a record after the writes of a command. -/
def recordCount (writes : List (Writer × Bytes)) (n : Nat) : Nat :=
  ((writes.filter fun w => w.1 = .file n).map Prod.snd).foldl countWrite 0

/-- One turn of the cleanup's first loop. A path stands in `sizes` once a count above
zero was seen for it. -/
def noteSize (acc : Map Nat × List Bytes) (path : Bytes) (count : Nat) : Map Nat × List Bytes :=
  (if (acc.1.lookup path).getD 0 < count then acc.1.insert path count else acc.1,
    if path ∈ acc.1 then acc.2 else acc.2 ++ [path])

/-- The variables `sizes` and `paths` of the cleanup. -/
def redirectionSizes (records : List Bytes) (count : Nat → Nat) : Map Nat × List Bytes :=
  (records.zipIdx).foldl (fun acc (path, n) => noteSize acc path (count n)) (∅, [])

/-- The calls of `Record` that the cleanup makes. -/
def closingCalls (clock : Nat → Int) (records : List Bytes) (count : Nat → Nat) :
    List RecordCall :=
  let (sizes, paths) := redirectionSizes records count
  paths.mapIdx fun i path =>
    { pathArg := path, kind := kindFile, size := (sizes.lookup path).getD 0, now := clock i }

/-- The store after calls of `Record` whose answers nobody looks at. -/
def recordDropping (lib : StdLib) (s : DynamicStore) (calls : List RecordCall) : DynamicStore :=
  calls.foldl (fun s call => (record lib.cases s call).1) s

end FakeSSH.Shell
