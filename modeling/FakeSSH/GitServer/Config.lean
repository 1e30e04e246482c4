import FakeSSH.GitServer.Path

/-!
# The gitserver configuration (`modules/gitserver/config.go`)

`checkAndFillConfig` fills the defaults, checks the backend's own fields and
normalizes the repository list: paths, backend paths and access lists. The
source updates the caller's struct in place and may leave it half filled on an
error; here a refused configuration is only the error, since every caller drops
the struct then.
-/

namespace FakeSSH.GitServer

open FakeSSH.Go

/-- One repository exposed by the server. -/
structure RepositoryConfig where
  path : Bytes
  backendPath : Bytes
  readKeys : List Bytes
  writeKeys : List Bytes
  deriving DecidableEq, Repr

/-- Connection details of the SSH backend. -/
structure SSHBackendConfig where
  address : Bytes := []
  user : Bytes := []
  keyFile : Bytes := []
  knownHosts : Bytes := []
  timeoutSeconds : Int := 0
  deriving DecidableEq, Repr

structure Config where
  enable : Bool := false
  user : Bytes := []
  currentUser : Bool := false
  sshUser : Bytes := []
  gitShell : Bytes := []
  gitUserHome : Bytes := []
  authorizedKeys : Bytes := []
  watchKeys : Bool := false
  maxGitShellProcesses : Int := 0
  refuseWhenBusy : Bool := false
  backend : Bytes := []
  repoRoot : Bytes := []
  repositories : List RepositoryConfig := []
  sshBackend : SSHBackendConfig := {}
  deriving DecidableEq, Repr

def backendLocal : Bytes := str "local"
def backendSSH : Bytes := str "ssh"

/-- The reasons `CheckAndFillConfig` refuses a configuration. -/
inductive ConfigError where
  | unknownBackend (name : Bytes)
  | sshBackendRequires (missing : List Bytes)
  | forbiddenCharacter (field : Bytes)
  | repository (index : Nat) (reason : PathError)
  | repositoryBackendPath (index : Nat) (reason : PathError)
  | duplicateRepository (path : Bytes)
  deriving DecidableEq, Repr

/-- The error's text; `quote` is `fmt`'s `%q`. -/
def ConfigError.text (quote : Bytes → Bytes) : ConfigError → Bytes
  | .unknownBackend name => str "gitserver: unknown backend " ++ quote name
  | .sshBackendRequires missing =>
    str "gitserver: ssh backend requires " ++ (str ", ").intercalate missing
  | .forbiddenCharacter field => str "gitserver: " ++ field ++ str " contains forbidden character"
  | .repository i reason =>
    str "gitserver: repository " ++ str (toString i) ++ str ": " ++ reason.text
  | .repositoryBackendPath i reason =>
    str "gitserver: repository " ++ str (toString i) ++ str " backend_path: " ++ reason.text
  | .duplicateRepository path => str "gitserver: duplicate repository " ++ quote path

/-- A field's own value, or the default when it is empty. -/
def orDefault (value default : Bytes) : Bytes := if value = [] then default else value

/-- `Config.FillDefault`. The later defaults read the earlier ones. -/
def Config.fillDefault (c : Config) : Config :=
  let user := orDefault c.user (str "git")
  let gitUserHome := orDefault c.gitUserHome (str "/home/git")
  { c with
    user
    sshUser := orDefault c.sshUser user
    gitShell := orDefault c.gitShell (str "git-shell")
    gitUserHome
    repoRoot := orDefault c.repoRoot gitUserHome
    authorizedKeys := orDefault c.authorizedKeys (gitUserHome ++ str "/.ssh/authorized_keys")
    backend := orDefault c.backend backendLocal
    maxGitShellProcesses := if c.maxGitShellProcesses < 0 then 0 else c.maxGitShellProcesses }

/-- `trimACL`: surrounding white space off, empty entries out. -/
def trimACL (keys : List Bytes) : List Bytes := (keys.map trimSpace).filter (· ≠ [])

/-- `rejectUnsafeLocalPath`: no control character and no single quote. -/
def rejectUnsafeLocalPath (field s : Bytes) : Except ConfigError Unit :=
  if (runes s).any fun r => isControl r.rune || r.rune == 0x27 then
    .error (.forbiddenCharacter field)
  else .ok ()

/-- The names of the SSH backend's required fields that are empty, in the order
they are checked. -/
def SSHBackendConfig.missing (b : SSHBackendConfig) : List Bytes :=
  [(b.address, str "address"), (b.user, str "user"), (b.keyFile, str "key_file"),
    (b.knownHosts, str "known_hosts")].filterMap fun f => if f.1 = [] then some f.2 else none

/-- The checks that depend on the backend, with the SSH timeout's default. -/
def Config.checkBackend (c : Config) : Except ConfigError Config :=
  if c.backend = backendSSH then
    if c.sshBackend.missing ≠ [] then .error (.sshBackendRequires c.sshBackend.missing)
    else if c.sshBackend.timeoutSeconds ≤ 0 then
      .ok { c with sshBackend := { c.sshBackend with timeoutSeconds := 30 } }
    else .ok c
  else if c.backend = backendLocal then do
    rejectUnsafeLocalPath (str "repo_root") c.repoRoot
    rejectUnsafeLocalPath (str "git_user_home") c.gitUserHome
    .ok c
  else .error (.unknownBackend c.backend)

/-- The body of the repository loop at index `i`, `seen` holding the paths
before it. -/
def fillRepository (i : Nat) (seen : List Bytes) (r : RepositoryConfig) :
    Except ConfigError RepositoryConfig :=
  match normalizeRepoPath r.path with
  | .error e => .error (.repository i e)
  | .ok path =>
    match if r.backendPath = [] then .ok path else normalizeRepoPath r.backendPath with
    | .error e => .error (.repositoryBackendPath i e)
    | .ok backendPath =>
      if path ∈ seen then .error (.duplicateRepository path)
      else .ok { path, backendPath, readKeys := trimACL r.readKeys, writeKeys := trimACL r.writeKeys }

def fillRepositories : Nat → List Bytes → List RepositoryConfig →
    Except ConfigError (List RepositoryConfig)
  | _, _, [] => .ok []
  | i, seen, r :: rest => do
    let filled ← fillRepository i seen r
    let others ← fillRepositories (i + 1) (filled.path :: seen) rest
    .ok (filled :: others)

/-- `CheckAndFillConfig`. -/
def checkAndFillConfig (c : Config) : Except ConfigError Config := do
  let checked ← c.fillDefault.checkBackend
  let repositories ← fillRepositories 0 [] checked.repositories
  .ok { checked with repositories }

end FakeSSH.GitServer
