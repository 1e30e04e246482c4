import FakeSSH.GitServer.Config

/-!
# Git exec requests (`request.go`, and the parts of `auth.go` and `backend_ssh.go` it meets)

A client's exec string is filtered for shell metacharacters, tokenized, matched
against the two command shapes and normalized into a `Request`
(`parseGitCommand`). `Server.authorize` then looks the repository up, checks
the key's fingerprint against its access lists and fills in the backend path,
and `buildBackendCommand` spells the command the backend is sent.
-/

namespace FakeSSH.GitServer

open FakeSSH.Go

/-! ## The server's state -/

/-- A parsed `authorized_keys` entry. -/
structure AuthorizedKeyEntry where
  keyBytes : Bytes
  comment : Bytes
  deriving DecidableEq, Repr

/-- The part of `Server` that outlives a call: the normalized configuration, the
key map, the repository map and the capacity of `localSlots` (`none` for the
nil channel of an unlimited server). -/
structure Server where
  config : Config
  keysByFP : Map AuthorizedKeyEntry
  repos : Map RepositoryConfig
  localSlots : Option Nat

/-- `NewServer`'s repository map: later entries overwrite. -/
def repoMap (rs : List RepositoryConfig) : Map RepositoryConfig :=
  rs.foldl (fun m r => m.insert r.path r) ∅

/-- The `Server` that `NewServer` builds on its normalized copy of the
configuration, at whatever key map has been loaded since. -/
def Server.ofConfig (c : Config) (keys : Map AuthorizedKeyEntry) : Server :=
  { config := c
    keysByFP := keys
    repos := repoMap c.repositories
    localSlots :=
      if 0 < c.maxGitShellProcesses then some c.maxGitShellProcesses.toNat else none }

/-- `ssh.Permissions`, as far as it is read here: the extension map, which may
be nil. -/
structure Permissions where
  extensions : Option (Map Bytes)

def permExtGitServer : Bytes := str "fakessh.gitserver"
def permExtKeyFingerprint : Bytes := str "fakessh.gitserver.key_fingerprint"
def permExtKeyComment : Bytes := str "fakessh.gitserver.key_comment"

/-- An extension's value, `none` for a nil pointer, a nil map or a missing key. -/
def extension (perms : Option Permissions) (key : Bytes) : Option Bytes := do
  let p ← perms
  let exts ← p.extensions
  exts.lookup key

/-- `IsGitPermission`. -/
def isGitPermission (perms : Option Permissions) : Bool :=
  match extension perms permExtGitServer with
  | some v => decide (v ≠ [])
  | none => false

/-- `GitKeyFingerprint`. -/
def gitKeyFingerprint (perms : Option Permissions) : Bytes :=
  (extension perms permExtKeyFingerprint).getD []

/-! ## Parsing -/

/-- `Operation`. The source's type is a string, and `Authorize` has a branch for
a value that is neither constant. -/
inductive Operation where
  | read
  | write
  | other (name : Bytes)
  deriving DecidableEq, Repr

structure Request where
  command : Bytes
  operation : Operation
  repoPath : Bytes
  backendPath : Bytes := []
  deriving DecidableEq, Repr

/-- `gitServiceSubcommand`. -/
def gitServiceSubcommand (token : Bytes) : Option (Bytes × Operation) :=
  if token = str "upload-pack" then some (str "git-upload-pack", .read)
  else if token = str "receive-pack" then some (str "git-receive-pack", .write)
  else if token = str "upload-archive" then some (str "git-upload-archive", .read)
  else none

/-- `gitHyphenCommand`. -/
def gitHyphenCommand (token : Bytes) : Option (Bytes × Operation) :=
  if token = str "git-upload-pack" then some (str "git-upload-pack", .read)
  else if token = str "git-receive-pack" then some (str "git-receive-pack", .write)
  else if token = str "git-upload-archive" then some (str "git-upload-archive", .read)
  else none

/-- The reasons a request is refused on its way to the backend. -/
inductive RequestError where
  | forbiddenMetacharacter
  | invalidUTF8 (offset : Nat)
  | controlCharacter (rune offset : Nat)
  | unterminatedSingleQuote
  | unterminatedDoubleQuote
  | emptyCommand
  | unknownSubcommand (token : Bytes)
  | unknownCommand (token : Bytes)
  | tokenCount (n : Nat)
  | invalidRepositoryPath (reason : PathError)
  | notGitPermission
  | missingFingerprint
  | authorizePath (reason : PathError)
  | notConfigured (repo : Bytes)
  | unknownOperation (op : Operation)
  | notAuthorized (fp : Bytes) (op : Operation) (repo : Bytes)
  | invalidBackendCommand (command : Bytes)
  | backendPath (reason : PathError)
  deriving DecidableEq, Repr

def Operation.name : Operation → Bytes
  | .read => str "read"
  | .write => str "write"
  | .other name => name

/-- The error's text; `quote` is `fmt`'s `%q` and `hex` its `%02X`. -/
def RequestError.text (quote : Bytes → Bytes) (hex : Nat → Bytes) : RequestError → Bytes
  | .forbiddenMetacharacter => str "command contains forbidden shell metacharacter"
  | .invalidUTF8 i => str "invalid UTF-8 byte at offset " ++ str (toString i)
  | .controlCharacter r i =>
    str "control character 0x" ++ hex r ++ str " at offset " ++ str (toString i)
  | .unterminatedSingleQuote => str "unterminated single quote"
  | .unterminatedDoubleQuote => str "unterminated double quote"
  | .emptyCommand => str "empty command"
  | .unknownSubcommand token => str "unknown git subcommand " ++ quote token
  | .unknownCommand token => str "unknown git command " ++ quote token
  | .tokenCount n =>
    str "expected 2 tokens (git-<service> <repo>) or 3 tokens (git <service> <repo>), got " ++
      str (toString n)
  | .invalidRepositoryPath reason => str "invalid repository path: " ++ reason.text
  | .notGitPermission => str "gitserver: not a git permission"
  | .missingFingerprint => str "gitserver: missing key fingerprint"
  | .authorizePath reason => str "gitserver: invalid repository path: " ++ reason.text
  | .notConfigured repo => str "gitserver: repository " ++ quote repo ++ str " not configured"
  | .unknownOperation op => str "gitserver: unknown operation " ++ quote op.name
  | .notAuthorized fp op repo =>
    str "gitserver: fingerprint " ++ quote fp ++ str " not authorized for " ++ op.name ++
      str " on " ++ quote repo
  | .invalidBackendCommand command => str "gitserver: invalid backend command " ++ quote command
  | .backendPath reason => str "gitserver: normalize backend path: " ++ reason.text

/-- `unsafeShellMetacharacters`; the fourth is the backtick. -/
def unsafeShellMetacharacters : Bytes := str ";&|\x60$<>()"

/-- `rejectUnsafeChars`. -/
def rejectUnsafeChars (s : Bytes) : Except RequestError Unit :=
  if containsAny s unsafeShellMetacharacters then .error .forbiddenMetacharacter else .ok ()

/-- The tokenizer's variables. -/
structure TokenizeState where
  tokens : List Bytes := []
  cur : Bytes := []
  inToken : Bool := false
  inSingle : Bool := false
  inDouble : Bool := false
  deriving DecidableEq, Repr

/-- The `flush` closure. -/
def TokenizeState.flush (st : TokenizeState) : TokenizeState :=
  if st.inToken then { st with tokens := st.tokens ++ [st.cur], cur := [], inToken := false }
  else st

/-- One iteration of the tokenizer's loop, on a decoded rune. -/
def tokenizeStep (st : TokenizeState) (d : RuneAt) : Except RequestError TokenizeState :=
  if d.rune = runeError ∧ d.size = 1 then .error (.invalidUTF8 d.offset)
  else if d.rune < 0x20 ∨ d.rune = 0x7F then .error (.controlCharacter d.rune d.offset)
  else if st.inSingle then
    if d.rune = 0x27 then .ok { st with inSingle := false }
    else .ok { st with cur := st.cur ++ encodeRune d.rune }
  else if st.inDouble then
    if d.rune = 0x22 then .ok { st with inDouble := false }
    else .ok { st with cur := st.cur ++ encodeRune d.rune }
  else if d.rune = 0x27 then .ok { st with inSingle := true, inToken := true }
  else if d.rune = 0x22 then .ok { st with inDouble := true, inToken := true }
  else if d.rune = 0x20 ∨ d.rune = 0x09 then .ok st.flush
  else .ok { st with cur := st.cur ++ encodeRune d.rune, inToken := true }

/-- `tokenize`. -/
def tokenize (s : Bytes) : Except RequestError (List Bytes) := do
  let st ← (runes s).foldlM tokenizeStep {}
  if st.inSingle then .error .unterminatedSingleQuote
  else if st.inDouble then .error .unterminatedDoubleQuote
  else if st.flush.tokens = [] then .error .emptyCommand
  else .ok st.flush.tokens

/-- The two accepted shapes: the command, its operation and the repository
token. -/
def matchCommand : List Bytes → Except RequestError (Bytes × Operation × Bytes)
  | [git, sub, repo] =>
    if git = str "git" then
      match gitServiceSubcommand sub with
      | some (command, op) => .ok (command, op, repo)
      | none => .error (.unknownSubcommand sub)
    else .error (.tokenCount 3)
  | [command, repo] =>
    match gitHyphenCommand command with
    | some (command, op) => .ok (command, op, repo)
    | none => .error (.unknownCommand command)
  | tokens => .error (.tokenCount tokens.length)

/-- `ParseGitCommand`. -/
def parseGitCommand (command : Bytes) : Except RequestError Request := do
  rejectUnsafeChars command
  let tokens ← tokenize command
  let (cmd, op, repoToken) ← matchCommand tokens
  match normalizeRepoPath repoToken with
  | .error e => .error (.invalidRepositoryPath e)
  | .ok repoPath => .ok { command := cmd, operation := op, repoPath }

/-! ## Authorization and the backend command -/

/-- The access decision of `Authorize` for one repository. -/
def allowed (rc : RepositoryConfig) (fp : Bytes) : Operation → Except RequestError Bool
  | .read => .ok (rc.readKeys.contains fp || rc.writeKeys.contains fp)
  | .write => .ok (rc.writeKeys.contains fp)
  | op => .error (.unknownOperation op)

/-- `Server.Authorize`. -/
def Server.authorize (s : Server) (perms : Option Permissions) (req : Request) :
    Except RequestError Request :=
  if isGitPermission perms = false then .error .notGitPermission
  else
    let fp := gitKeyFingerprint perms
    if fp = [] then .error .missingFingerprint
    else match normalizeRepoPath req.repoPath with
      | .error e => .error (.authorizePath e)
      | .ok repoNorm =>
        match s.repos.lookup repoNorm with
        | none => .error (.notConfigured repoNorm)
        | some rc => do
          let ok ← allowed rc fp req.operation
          if ok then .ok { req with repoPath := repoNorm, backendPath := rc.backendPath }
          else .error (.notAuthorized fp req.operation repoNorm)

/-- `Server.buildBackendCommand`. -/
def buildBackendCommand (req : Request) : Except RequestError Bytes :=
  match gitHyphenCommand req.command with
  | none => .error (.invalidBackendCommand req.command)
  | some _ =>
    match normalizeRepoPath (orDefault req.backendPath req.repoPath) with
    | .error e => .error (.backendPath e)
    | .ok normalized => .ok (req.command ++ str " '" ++ normalized ++ str "'")

/-- The way of an exec string to the SSH backend: parse, authorize, spell. -/
def Server.backendCommand (s : Server) (perms : Option Permissions) (exec : Bytes) :
    Except RequestError Bytes := do
  let req ← parseGitCommand exec
  let authorized ← s.authorize perms req
  buildBackendCommand authorized

end FakeSSH.GitServer
