import FakeSSH.Go.Filepath
import FakeSSH.GitServer.Session

/-!
# The local backend's paths and command (`request.go`, `backend_local_unix.go`)

`ResolveLocalRepo` finds a repository on disk: it resolves the configured root and
the repository under it, symbolic links included, and refuses what is not below the
root. `buildLocalCommand` then puts the resolved path in single quotes behind the
service's command, for `git-shell -c`, and so also refuses a path with a quote or a
control character in it.

The file system is left open. What is known of it is what the documentation of
`filepath.Abs` and `filepath.EvalSymlinks` promises: the answers are clean, and
absolute where the argument is.
-/

namespace FakeSSH.GitServer

open FakeSSH.Go

variable {ε : Type}

/-- What the local backend asks of the host: absolute paths, links and user ids, with
the host's own errors. -/
structure LocalHost (ε : Type) where
  abs : Bytes → Except ε Bytes
  evalSymlinks : Bytes → Except ε Bytes
  getUid : Bytes → Bool → Except ε (UInt32 × UInt32)
  abs_clean : ∀ p q, abs p = .ok q → CleanAbs q
  evalSymlinks_clean : ∀ p q, p.head? = some slash → evalSymlinks p = .ok q → CleanAbs q

/-- The reasons a local command is not built. -/
inductive LocalError (ε : Type) where
  | invalidPath (reason : PathError)
  | emptyRoot
  | absoluteRoot (root : Bytes) (cause : ε)
  | resolveRoot (root : Bytes) (cause : ε)
  | resolveRepository (repo : Bytes) (cause : ε)
  | notRelative (repo root resolved : Bytes)
  | escapes (repo resolved : Bytes)
  | localRepo (reason : LocalError ε)
  | commandRoot (cause : ε)
  | commandResolveRoot (cause : ε)
  | unsafePath (reason : ConfigError)
  | gitUser (cause : ε)
  deriving Repr

/-- The error's text; `quote` is `fmt`'s `%q` and `cause` the text of a host's error. -/
def LocalError.text (quote : Bytes → Bytes) (cause : ε → Bytes) : LocalError ε → Bytes
  | .invalidPath reason => str "gitserver: invalid repository path: " ++ reason.text
  | .emptyRoot => str "gitserver: repo_root is empty"
  | .absoluteRoot root e =>
    str "gitserver: make repo_root " ++ quote root ++ str " absolute: " ++ cause e
  | .resolveRoot root e => str "gitserver: resolve repo_root " ++ quote root ++ str ": " ++ cause e
  | .resolveRepository repo e =>
    str "gitserver: resolve repository " ++ quote repo ++ str ": " ++ cause e
  | .notRelative repo root resolved =>
    str "gitserver: repository " ++ quote repo ++ str " escapes repo_root: Rel: can't make " ++
      resolved ++ str " relative to " ++ root
  | .escapes repo resolved =>
    str "gitserver: repository " ++ quote repo ++ str " escapes repo_root (resolved to " ++
      quote resolved ++ str ")"
  | .localRepo reason => str "gitserver: resolve local repo: " ++ reason.text quote cause
  | .commandRoot e => str "gitserver: make repo root absolute: " ++ cause e
  | .commandResolveRoot e => str "gitserver: resolve repo root: " ++ cause e
  | .unsafePath reason => reason.text quote
  | .gitUser e => str "gitserver: resolve git user: " ++ cause e

/-- `isEscapeRel`. -/
def isEscapeRel (rel : Bytes) : Bool :=
  rel == dotdot || (str "../").isPrefixOf rel || isAbs rel

/-- `Server.ResolveLocalRepo`. -/
def Server.resolveLocalRepo (s : Server) (host : LocalHost ε) (repoPath : Bytes) :
    Except (LocalError ε) Bytes := do
  let repoNorm ← (normalizeRepoPath repoPath).mapError .invalidPath
  let root := s.config.repoRoot
  if root = [] then .error .emptyRoot
  else
    let rootPath ← (host.abs root).mapError (.absoluteRoot root)
    let rootAbs ← (host.evalSymlinks rootPath).mapError (.resolveRoot root)
    let candidate := join rootAbs repoNorm
    let candAbs ← (host.evalSymlinks candidate).mapError (.resolveRepository repoNorm)
    match rel rootAbs candAbs with
    | none => .error (.notRelative repoNorm rootAbs candAbs)
    | some r => if isEscapeRel r then .error (.escapes repoNorm candAbs) else .ok candAbs

/-- The `exec.Cmd` that is built: the program and its arguments, the credential to
run it under (`none` for the server's own), its directory and its environment. -/
structure LocalCommand where
  name : Bytes
  args : List Bytes
  credential : Option (UInt32 × UInt32)
  dir : Bytes
  env : List Bytes
  deriving DecidableEq, Repr

def localMinimalPath : Bytes := str "/usr/bin:/bin"

/-- `Server.localEnv`. -/
def Server.localEnv (s : Server) (gitProtocol : Bytes) : List Bytes :=
  [str "HOME=" ++ s.config.gitUserHome, str "USER=" ++ s.config.user,
    str "LOGNAME=" ++ s.config.user, str "PATH=" ++ localMinimalPath] ++
  if gitProtocol = gitProtocolEnvValue then [gitProtocolEnvName ++ str "=" ++ gitProtocol] else []

/-- `Server.buildLocalCommand`. -/
def Server.buildLocalCommand (s : Server) (host : LocalHost ε) (req : Request)
    (gitProtocol : Bytes) : Except (LocalError ε) LocalCommand := do
  let absoluteRepo ← (s.resolveLocalRepo host (orDefault req.backendPath req.repoPath)).mapError
    .localRepo
  let repoRootPath ← (host.abs s.config.repoRoot).mapError .commandRoot
  let repoRoot ← (host.evalSymlinks repoRootPath).mapError .commandResolveRoot
  (rejectUnsafeLocalPath (str "resolved repo_root") repoRoot).mapError .unsafePath
  (rejectUnsafeLocalPath (str "resolved repository path") absoluteRepo).mapError .unsafePath
  let uid ← (host.getUid s.config.user s.config.currentUser).mapError .gitUser
  let command := req.command ++ str " '" ++ absoluteRepo ++ str "'"
  .ok {
    name := s.config.gitShell
    args := [str "-c", command]
    credential := if s.config.currentUser then none else some uid
    dir := repoRoot
    env := s.localEnv gitProtocol }

end FakeSSH.GitServer
