import FakeSSH.Go.Match
import FakeSSH.Shell.Runner
import FakeSSH.Shell.Syntax

/-!
# Expanding a command (`syntax_expand.go`)

The words of a command have their variables and patterns expanded, in the environment
that the assignments before the command make. A command of assignments alone sets the
variables for the session, within its caps. The source returns the undoing of the
assignments as a closure; here it is the list the closure keeps, and
`restoreCommandEnv` runs it.
-/

namespace FakeSSH.Shell

open FakeSSH.Go FakeSSH.Lib

def maxGlobMatches : Nat := 64
def maxSessionEnvEntries : Nat := 64
def maxSessionEnvBytes : Nat := 16384

/-! ## Errors -/

/-- The limits of `newSyntaxLimitError`. -/
inductive ExpandLimit where
  | commandToken
  | arguments
  | argumentToken
  | envAssignments
  | envToken
  | sessionEnvEntries
  | sessionEnvBytes
  | token
  | globMatches
  | redirectionPath
  deriving DecidableEq, Repr

def ExpandLimit.reason : ExpandLimit → Bytes
  | .commandToken => str "expanded command token too long"
  | .arguments => str "too many expanded arguments"
  | .argumentToken => str "expanded argument token too long"
  | .envAssignments => str "too many environment assignments"
  | .envToken => str "environment token too long"
  | .sessionEnvEntries => str "too many session environment entries"
  | .sessionEnvBytes => str "session environment too large"
  | .token => str "expanded token too long"
  | .globMatches => str "too many glob matches"
  | .redirectionPath => str "redirection path too long"

/-- The errors of expansion and of redirection. -/
inductive ShellError where
  | limit (l : ExpandLimit)
  | globDirectory
  | invalidAssignment
  | ambiguousRedirect (target : Bytes)
  | path (e : PathError)
  | noSuchDirectory (target : Bytes)
  | isDirectory (target : Bytes)
  | storeFull
  | unsupportedRedirection
  | unsupportedDescriptor (fd : Nat)
  | dynamic (e : DynamicError)
  deriving DecidableEq, Repr

/-- `isSyntaxLimitError`. -/
def ShellError.isLimit : ShellError → Bool
  | .limit _ => true
  | _ => false

def ShellError.text (lib : StdLib) : ShellError → Bytes
  | .limit l => str "syntax parse error: syntax limit exceeded: " ++ l.reason
  | .globDirectory => str "syntax parse error: unsupported glob directory pattern"
  | .invalidAssignment => str "fakeshell: invalid environment assignment"
  | .ambiguousRedirect target => str "fakeshell: ambiguous redirect: " ++ target
  | .path e => e.text
  | .noSuchDirectory target => str "fakeshell: " ++ target ++ str ": No such file or directory"
  | .isDirectory target => str "fakeshell: " ++ target ++ str ": Is a directory"
  | .storeFull => str "fakeshell: dynamic store full"
  | .unsupportedRedirection => str "fakeshell: unsupported redirection"
  | .unsupportedDescriptor fd => str "fakeshell: unsupported output descriptor " ++
      str (toString fd)
  | .dynamic e => e.text lib.quote lib.point

/-! ## Assignments -/

/-- `splitEnvAssignment`. -/
def splitEnvAssignment (assignment : Bytes) : Option EnvPair :=
  if isEnvAssignment assignment then
    (assignment.findIdx? (· = equals)).map fun i =>
      ⟨assignment.take i, assignment.drop (i + 1)⟩
  else none

/-- The check that both loops over assignments make. -/
def parseAssignment (assignment : Bytes) : Except ShellError EnvPair :=
  match splitEnvAssignment assignment with
  | none => .error .invalidAssignment
  | some ⟨key, value⟩ =>
    if maxInputTokenBytes < key.length ∨ maxInputTokenBytes < value.length ∨
        maxInputTokenBytes < key.length + 1 + value.length then .error (.limit .envToken)
    else .ok ⟨key, value⟩

/-- The size of an entry that the cap on bytes counts. -/
def EnvPair.bytes (p : EnvPair) : Nat := p.key.length + p.value.length

/-- `savedCommandEnv`; `previous` is `value` where `hadTemp` holds. -/
structure SavedCommandEnv where
  key : Bytes
  previous : Option EnvPair
  deriving DecidableEq, Repr

/-- `applyCommandEnv`: the runner with the assignments made, and what its closure keeps. -/
def applyCommandEnv (r : CommandRunner) : List Bytes → CommandRunner × List SavedCommandEnv
  | [] => (r, [])
  | assignment :: rest =>
    match splitEnvAssignment assignment with
    | none => applyCommandEnv r rest
    | some ⟨key, value⟩ =>
      let (after, saved) := applyCommandEnv (r.setEnv key value) rest
      (after, ⟨key, r.tempEnv.lookup (toUpper key)⟩ :: saved)

/-- One turn of the closure's loop. -/
def restoreEntry (r : CommandRunner) (entry : SavedCommandEnv) : CommandRunner :=
  match entry.previous with
  | some value => { r with tempEnv := r.tempEnv.insert (toUpper entry.key) value }
  | none => r.unsetEnv entry.key

/-- The closure of `applyCommandEnv`. -/
def restoreCommandEnv (r : CommandRunner) (saved : List SavedCommandEnv) : CommandRunner :=
  saved.reverse.foldl restoreEntry r

def setEnvs (r : CommandRunner) (parsed : List EnvPair) : CommandRunner :=
  parsed.foldl (fun r p => r.setEnv p.key p.value) r

/-- `validateAssignmentOnlyEnv`. The source adds up the sizes in the order of a map and
stops at the first sum above the cap; there is one if and only if the total is above. -/
def validateAssignmentOnlyEnv (r : CommandRunner) (assignments : List Bytes) :
    Except ShellError (List EnvPair) :=
  if maxInputArgs < assignments.length then .error (.limit .envAssignments)
  else do
    let parsed ← assignments.mapM parseAssignment
    let newKeys := (parsed.map fun p => toUpper p.key).filter fun key => key ∉ r.tempEnv
    if maxSessionEnvEntries < r.tempEnv.keys.card + newKeys.toFinset.card then
      .error (.limit .sessionEnvEntries)
    else if maxSessionEnvBytes < (setEnvs r parsed).tempEnv.weight EnvPair.bytes then
      .error (.limit .sessionEnvBytes)
    else .ok parsed

def executeAssignmentOnly (r : CommandRunner) (assignments : List Bytes) :
    Except ShellError CommandRunner :=
  (validateAssignmentOnlyEnv r assignments).map (setEnvs r)

/-! ## Words -/

def validateExpandedTokenLen (token : Bytes) : Except ShellError Unit :=
  if maxInputTokenBytes < token.length then .error (.limit .token) else .ok ()

def dollar : UInt8 := 0x24

def isVariableNameStart (c : UInt8) : Bool := isNameStart c

def isVariableNameChar (c : UInt8) : Bool := isVariableNameStart c || isDigit c

/-- Where the loop of `expandVariables` is: in the text, after a `$`, or in a name. -/
inductive VariablePlace where
  | text
  | dollar
  | name (read : Bytes)
  deriving DecidableEq, Repr

/-- The loop of `expandVariables`. A byte that ends a name, or that a lone `$` stands
before, is read again as text. -/
def expandFrom (r : CommandRunner) (lastStatus : Int) : VariablePlace → Bytes → Bytes
  | .text, [] => []
  | .dollar, [] => [dollar]
  | .name read, [] => r.getEnv read
  | .text, c :: rest =>
    if c = dollar then expandFrom r lastStatus .dollar rest
    else c :: expandFrom r lastStatus .text rest
  | .dollar, c :: rest =>
    if c = question then str (toString lastStatus) ++ expandFrom r lastStatus .text rest
    else if isVariableNameStart c then expandFrom r lastStatus (.name [c]) rest
    else dollar ::
      (if c = dollar then expandFrom r lastStatus .dollar rest
        else c :: expandFrom r lastStatus .text rest)
  | .name read, c :: rest =>
    if isVariableNameChar c then expandFrom r lastStatus (.name (read ++ [c])) rest
    else r.getEnv read ++
      (if c = dollar then expandFrom r lastStatus .dollar rest
        else c :: expandFrom r lastStatus .text rest)

def expandVariables (r : CommandRunner) (lastStatus : Int) (word : Bytes) : Bytes :=
  expandFrom r lastStatus .text word

/-- `expandedWord`: the text, and of each byte whether it is a wildcard. -/
structure ExpandedWord where
  text : Bytes := []
  globEligible : List Bool := []
  deriving DecidableEq, Repr

/-- `appendText`. -/
def ExpandedWord.append (w : ExpandedWord) (text : Bytes) (globEligible : Bool) : ExpandedWord where
  text := w.text ++ text
  globEligible := w.globEligible ++ text.map fun c => globEligible && (c == star || c == question)

def expandSegment (r : CommandRunner) (lastStatus : Int) (w : ExpandedWord) (s : WordSegment) :
    ExpandedWord :=
  match s.quote with
  | .singleQuoted | .escaped => w.append s.text false
  | .doubleQuoted => w.append (expandVariables r lastStatus s.text) false
  | .unquoted => w.append (expandVariables r lastStatus s.text) true

def expandWordSegments (r : CommandRunner) (lastStatus : Int) (word : SyntaxWord) :
    Except ShellError ExpandedWord := do
  let result := word.segments.foldl (expandSegment r lastStatus) {}
  validateExpandedTokenLen result.text
  .ok result

/-! ## Patterns -/

/-- The answer of `splitGlobPattern`; `patternStart` is the length of `lead`. -/
structure GlobSplit where
  dirArg : Bytes
  lead : Bytes
  pattern : Bytes
  deriving DecidableEq, Repr

def splitGlobPattern (word : Bytes) : GlobSplit where
  dirArg :=
    if splitDir word = [] then dot
    else if splitDir word = [slash] then [slash]
    else (splitDir word).dropLast
  lead := splitDir word
  pattern := word.drop (splitDir word).length

/-- `containsEligibleGlobMeta`, over the part of the word it is asked about. -/
def containsEligibleGlobMeta (globEligible : List Bool) : Bool := globEligible.any id

/-- `globPattern`: what is no wildcard of the word is escaped. -/
def globPattern (text : Bytes) (eligible : List Bool) : Bytes :=
  (text.zip eligible).flatMap fun (c, wild) =>
    if c = openBracket ∨ c = closeBracket ∨ c = backslash ∨ ((c = star ∨ c = question) ∧ !wild) then
      [backslash, c]
    else [c]

def globNameMatches (pattern name : Bytes) : Bool := pathMatch pattern name == some true

def staticChildNames (r : CommandRunner) (d : Bytes) : List Bytes :=
  if r.rootFS.isDir d then r.rootFS.readDirNames d else []

/-- `expandGlobWord`. -/
def expandGlobWord (r : CommandRunner) (word : ExpandedWord) : Except ShellError (List Bytes) :=
  let split := splitGlobPattern word.text
  let patternStart := split.lead.length
  if !containsEligibleGlobMeta word.globEligible then .ok [word.text]
  else if split.pattern = [] then .ok [word.text]
  else if containsEligibleGlobMeta (word.globEligible.take patternStart) then .error .globDirectory
  else match resolvePath r.currentPWD split.dirArg with
    | .error e => .error (.path e)
    | .ok resolvedDir =>
      let pattern := globPattern split.pattern (word.globEligible.drop patternStart)
      let names := sortDedup <|
        (staticChildNames r resolvedDir ++ dynamicChildNames r resolvedDir).filter
          (globNameMatches pattern)
      if names = [] then .ok [word.text]
      else if maxGlobMatches < names.length then .error (.limit .globMatches)
      else .ok (names.map (split.lead ++ ·))

/-! ## Commands -/

def literalUnquotedWord (text : Bytes) : SyntaxWord := ⟨text, [⟨text, .unquoted⟩]⟩

/-- `commandNameWord`, `commandArgWord` and `redirectTargetWord`: the word as it was
written, or the plain text where there is no such word. -/
def writtenWord (word : SyntaxWord) (text : Bytes) : SyntaxWord :=
  if word.segments ≠ [] then word else literalUnquotedWord text

/-- The words of a command, its name first. -/
def commandWords (cmd : SimpleCommand) : List SyntaxWord :=
  writtenWord cmd.nameWord cmd.name ::
    cmd.args.mapIdx fun i arg => writtenWord (cmd.argWords.getD i {}) arg

/-- One turn of `expandCommandWords`. -/
def expandWord (r : CommandRunner) (lastStatus : Int) (word : SyntaxWord) :
    Except ShellError (List Bytes) := do
  let withVars ← expandWordSegments r lastStatus word
  validateExpandedTokenLen withVars.text
  let found ← expandGlobWord r withVars
  found.forM validateExpandedTokenLen
  .ok found

def expandCommandWords (r : CommandRunner) (lastStatus : Int) (words : List SyntaxWord) :
    Except ShellError (List Bytes) :=
  (words.mapM (expandWord r lastStatus)).map List.flatten

def expandRedirectTarget (r : CommandRunner) (lastStatus : Int) (target : SyntaxWord) :
    Except ShellError Bytes := do
  let withVars ← expandWordSegments r lastStatus target
  validateExpandedTokenLen withVars.text
  let found ← expandGlobWord r withVars
  match found with
  | [only] =>
    validateExpandedTokenLen only
    .ok only
  | _ => .error (.ambiguousRedirect target.text)

def expandRedirect (r : CommandRunner) (lastStatus : Int) (redir : Redirect) :
    Except ShellError Redirect :=
  if redir.duplicate then .ok redir
  else (expandRedirectTarget r lastStatus (writtenWord redir.targetWord redir.target)).map
    fun target => { redir with target := target }

def validateExpandedSimpleCommandBounds (cmd : SimpleCommand) : Except ShellError Unit :=
  if maxInputTokenBytes < cmd.name.length then .error (.limit .commandToken)
  else if maxInputArgs < cmd.args.length then .error (.limit .arguments)
  else if cmd.args.any fun arg => maxInputTokenBytes < arg.length then
    .error (.limit .argumentToken)
  else if maxInputArgs < cmd.envAssignments.length then .error (.limit .envAssignments)
  else cmd.envAssignments.forM fun assignment => (parseAssignment assignment).map fun _ => ()

/-- `expandSimpleCommand` once the assignments before the command are made. -/
def expandAssigned (r : CommandRunner) (cmd : SimpleCommand) (lastStatus : Int) :
    Except ShellError SimpleCommand := do
  let expandedWords ← expandCommandWords r lastStatus (commandWords cmd)
  let redirects ← cmd.redirects.mapM (expandRedirect r lastStatus)
  let expanded : SimpleCommand := {
    envAssignments := cmd.envAssignments
    name := expandedWords.headD []
    args := expandedWords.tail
    redirects := redirects }
  validateExpandedSimpleCommandBounds expanded
  .ok expanded

/-- `expandSimpleCommand`: the runner after it, and the expanded command with its
cleanup. Each of the error returns behind `applyCommandEnv` runs the cleanup itself. -/
def expandSimpleCommand (r : CommandRunner) (cmd : SimpleCommand) (lastStatus : Int) :
    CommandRunner × Except ShellError (SimpleCommand × List SavedCommandEnv) :=
  if cmd.name = [] then
    match executeAssignmentOnly r cmd.envAssignments with
    | .error e => (r, .error e)
    | .ok r => (r, .ok (cmd, []))
  else
    let (r, cleanup) := applyCommandEnv r cmd.envAssignments
    match expandAssigned r cmd lastStatus with
    | .error e => (restoreCommandEnv r cleanup, .error e)
    | .ok expanded => (r, .ok (expanded, cleanup))

end FakeSSH.Shell
