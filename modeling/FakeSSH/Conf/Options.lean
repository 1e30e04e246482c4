import FakeSSH.GitServer.Config
import FakeSSH.Go.Format
import Mathlib.Data.List.AList

/-!
# Module options (`conf/conf.go`, `modules/opt.go`)

A `-o module.key=value` option changes the configuration that was read from a file.
Three fields of the gitserver are derived from two others: when the file is read, and
again after the options, where flags and comparisons with the first values decide
whether a field was derived. The flags of the server itself (`BaseConfig`) are left out,
and a TOML document is what its decoder makes of it.
-/

namespace FakeSSH.Conf

open FakeSSH.Go FakeSSH.GitServer

def equalsSign : UInt8 := 0x3D
def period : UInt8 := 0x2E

/-! ## One option -/

/-- `modules.Opt`. -/
structure Opt where
  module : Bytes
  key : Bytes
  value : Bytes
  deriving DecidableEq, Repr

inductive OptionError where
  | failParse
  | unsupported (raw : Bytes)
  deriving DecidableEq, Repr

/-- The error's text; `quote` is `%q`. -/
def OptionError.text (quote : Bytes → Bytes) : OptionError → Bytes
  | .failParse => str "fail to parse opt: option must be 'module.key=value'"
  | .unsupported raw => str "unsupported module option " ++ quote raw

/-- `modules.ParseOpt`: the value stands behind the first `=`, and the module before the
first `.` of what is left of it. -/
def parseOpt (opt : Bytes) : Except OptionError Opt :=
  match opt.dropWhile (· ≠ equalsSign) with
  | [] => .error .failParse
  | _ :: value =>
    let key := opt.takeWhile (· ≠ equalsSign)
    match key.dropWhile (· ≠ period) with
    | [] => .ok ⟨[], trimSpace key, trimSpace value⟩
    | _ :: rest =>
      .ok ⟨trimSpace (key.takeWhile (· ≠ period)), trimSpace rest, trimSpace value⟩

/-- `boolFromStr`, which both modules have. -/
def boolFromStr (t : CaseTable) (s : Bytes) : Bool :=
  if t.toLower s = str "true" ∨ t.toLower s = str "1" then true
  else if t.toLower s = str "false" ∨ t.toLower s = str "0" ∨ t.toLower s = [] then false
  else (atoi s).any (· ≠ 0)

/-! ## The gitserver's options -/

/-- The fields of the gitserver that are derived, and those they are derived from. -/
inductive UserKey where
  | user
  | sshUser
  | gitUserHome
  | repoRoot
  | authorizedKeys
  deriving DecidableEq, Repr

/-- The keys of `Config.MergeOptions`. -/
inductive GitserverKey where
  | field (k : UserKey)
  | enable
  | backend
  | currentUser
  | gitShell
  | watchKeys
  | maxGitShellProcesses
  | refuseWhenBusy
  | sshBackendAddress
  | sshBackendUser
  | sshBackendKeyFile
  | sshBackendKnownHosts
  | sshBackendTimeoutSeconds
  deriving DecidableEq, Repr

def UserKey.name : UserKey → Bytes
  | .user => str "user"
  | .sshUser => str "ssh_user"
  | .gitUserHome => str "git_user_home"
  | .repoRoot => str "repo_root"
  | .authorizedKeys => str "authorized_keys"

def GitserverKey.name : GitserverKey → Bytes
  | .field k => k.name
  | .enable => str "enable"
  | .backend => str "backend"
  | .currentUser => str "current_user"
  | .gitShell => str "git_shell"
  | .watchKeys => str "watch_keys"
  | .maxGitShellProcesses => str "max_git_shell_processes"
  | .refuseWhenBusy => str "refuse_when_busy"
  | .sshBackendAddress => str "ssh_backend.address"
  | .sshBackendUser => str "ssh_backend.user"
  | .sshBackendKeyFile => str "ssh_backend.key_file"
  | .sshBackendKnownHosts => str "ssh_backend.known_hosts"
  | .sshBackendTimeoutSeconds => str "ssh_backend.timeout_seconds"

def UserKey.all : List UserKey := [.user, .sshUser, .gitUserHome, .repoRoot, .authorizedKeys]

def GitserverKey.all : List GitserverKey :=
  UserKey.all.map .field ++ [.enable, .backend, .currentUser, .gitShell, .watchKeys,
    .maxGitShellProcesses, .refuseWhenBusy, .sshBackendAddress, .sshBackendUser,
    .sshBackendKeyFile, .sshBackendKnownHosts, .sshBackendTimeoutSeconds]

/-- The key a name stands for, in any letter case. -/
def GitserverKey.read (t : CaseTable) (key : Bytes) : Option GitserverKey :=
  GitserverKey.all.find? (·.name = t.toLower key)

def UserKey.set (k : UserKey) (c : Config) (value : Bytes) : Config :=
  match k with
  | .user => { c with user := value }
  | .sshUser => { c with sshUser := value }
  | .gitUserHome => { c with gitUserHome := value }
  | .repoRoot => { c with repoRoot := value }
  | .authorizedKeys => { c with authorizedKeys := value }

/-- The assignment that `Config.MergeOptions` makes for a key; `none` where the value is
not a number. -/
def GitserverKey.set (t : CaseTable) (k : GitserverKey) (c : Config) (value : Bytes) :
    Option Config :=
  match k with
  | .field k => some (k.set c value)
  | .enable => some { c with enable := boolFromStr t value }
  | .backend => some { c with backend := value }
  | .currentUser => some { c with currentUser := boolFromStr t value }
  | .gitShell => some { c with gitShell := value }
  | .watchKeys => some { c with watchKeys := boolFromStr t value }
  | .maxGitShellProcesses => (atoi value).map fun n => { c with maxGitShellProcesses := n }
  | .refuseWhenBusy => some { c with refuseWhenBusy := boolFromStr t value }
  | .sshBackendAddress => some { c with sshBackend := { c.sshBackend with address := value } }
  | .sshBackendUser => some { c with sshBackend := { c.sshBackend with user := value } }
  | .sshBackendKeyFile => some { c with sshBackend := { c.sshBackend with keyFile := value } }
  | .sshBackendKnownHosts => some { c with sshBackend := { c.sshBackend with knownHosts := value } }
  | .sshBackendTimeoutSeconds =>
    (atoi value).map fun n => { c with sshBackend := { c.sshBackend with timeoutSeconds := n } }

/-- `Config.MergeOptions` of the gitserver, `none` for its `false`. -/
def mergeGitserver (t : CaseTable) (c : Config) (opt : Opt) : Option Config :=
  if t.toLower opt.module ≠ str "gitserver" then none
  else (GitserverKey.read t opt.key).bind fun k => k.set t c opt.value

/-! ## The fake shell's options -/

/-- `EnvConfig` of the fake shell. -/
structure EnvConfig where
  user : Bytes := []
  home : Bytes := []
  os : Bytes := []
  kernel : Bytes := []
  hostName : Bytes := []
  generateEnv : Bool := false
  envs : Map Bytes := ∅

/-- `FakeshellConfig`, without the session log that no option sets. -/
structure FakeshellConfig where
  enable : Bool := false
  env : EnvConfig := {}
  rootFS : Bytes := []

/-- `EnvConfig.mergeOption`. A variable is written `name=value`, or by its name alone. -/
def EnvConfig.mergeOption (t : CaseTable) (c : EnvConfig) (key value : Bytes) : Option EnvConfig :=
  let key := t.toLower key
  if key = str "user" then some { c with user := value }
  else if key = str "home" then some { c with home := value }
  else if key = str "os" then some { c with os := value }
  else if key = str "kernel" then some { c with kernel := value }
  else if key = str "hostname" then some { c with hostName := value }
  else if key = str "genenv" then some { c with generateEnv := boolFromStr t value }
  else if key = str "envs" ∨ key = str "env" then
    let name := trimSpace (value.takeWhile (· ≠ equalsSign))
    let text := trimSpace (value.dropWhile (· ≠ equalsSign)).tail
    if name = [] then some c else some { c with envs := c.envs.insert name text }
  else none

/-- `FakeshellConfig.MergeOptions`. The `env.` in front of a key is in small letters. -/
def mergeFakeshell (t : CaseTable) (c : FakeshellConfig) (opt : Opt) : Option FakeshellConfig :=
  if t.toLower opt.module ≠ str "fakeshell" then none
  else if t.toLower opt.key = str "enable" then some { c with enable := boolFromStr t opt.value }
  else if t.toLower opt.key = str "rootfs" then some { c with rootFS := opt.value }
  else if (str "env.").isPrefixOf opt.key then
    (c.env.mergeOption t (opt.key.drop 4) opt.value).map fun env => { c with env }
  else none

/-! ## Reading a file -/

/-- `gitserverExplicitState`: the derived fields that the file itself gives. -/
structure ExplicitState where
  sshUser : Bool := false
  repoRoot : Bool := false
  authorizedKeys : Bool := false
  deriving DecidableEq, Repr

/-- `AppConfig`, as far as options reach. -/
structure AppConfig where
  gitServer : Config
  fakeShell : FakeshellConfig
  gitserverExplicit : ExplicitState

/-- A TOML document, as its decoder reads it: the keys above by themselves, `none` where
a key is absent, and what the document gives all other fields. -/
structure Document where
  field : UserKey → Option Bytes
  others : Config
  fakeShell : FakeshellConfig

/-- The gitserver's table, decoded into a configuration without defaults. -/
def Document.gitServer (d : Document) : Config :=
  { d.others with
    user := (d.field .user).getD []
    sshUser := (d.field .sshUser).getD []
    gitUserHome := (d.field .gitUserHome).getD []
    repoRoot := (d.field .repoRoot).getD []
    authorizedKeys := (d.field .authorizedKeys).getD [] }

/-- `gitserverTOMLExplicitFields.state`. -/
def Document.state (d : Document) : ExplicitState where
  sshUser := (d.field .sshUser).any (· ≠ [])
  repoRoot := (d.field .repoRoot).any (· ≠ [])
  authorizedKeys := (d.field .authorizedKeys).any (· ≠ [])

/-- `ParseConfig`: the gitserver's defaults are filled behind the decoder. -/
def parseConfig (d : Document) : AppConfig where
  gitServer := d.gitServer.fillDefault
  fakeShell := d.fakeShell
  gitserverExplicit := d.state

/-! ## Merging the options -/

/-- `gitserverOptionState`. -/
structure OptionState where
  initialUser : Bytes
  initialGitUserHome : Bytes
  initialSSHUser : Bytes
  initialRepoRoot : Bytes
  initialAuthorizedKeys : Bytes
  userSet : Bool := false
  gitUserHomeSet : Bool := false
  sshUserSet : Bool := false
  repoRootSet : Bool := false
  authorizedKeysSet : Bool := false
  deriving DecidableEq, Repr

/-- `newGitserverOptionState`. -/
def newGitserverOptionState (c : Config) (explicit : ExplicitState) : OptionState where
  initialUser := c.user
  initialGitUserHome := c.gitUserHome
  initialSSHUser := c.sshUser
  initialRepoRoot := c.repoRoot
  initialAuthorizedKeys := c.authorizedKeys
  sshUserSet := explicit.sshUser
  repoRootSet := explicit.repoRoot
  authorizedKeysSet := explicit.authorizedKeys

def OptionState.noteKey (s : OptionState) : UserKey → OptionState
  | .user => { s with userSet := true }
  | .gitUserHome => { s with gitUserHomeSet := true }
  | .sshUser => { s with sshUserSet := true }
  | .repoRoot => { s with repoRootSet := true }
  | .authorizedKeys => { s with authorizedKeysSet := true }

/-- `gitserverOptionState.note`. -/
def OptionState.note (t : CaseTable) (s : OptionState) (key : Bytes) : OptionState :=
  match UserKey.all.find? (·.name = t.toLower key) with
  | some k => s.noteKey k
  | none => s

def authorizedKeysIn (home : Bytes) : Bytes := home ++ str "/.ssh/authorized_keys"

/-- `gitserverOptionState.apply`. -/
def OptionState.apply (s : OptionState) (c : Config) : Config :=
  { c with
    sshUser :=
      if s.userSet && !s.sshUserSet &&
          (s.initialSSHUser == [] || s.initialSSHUser == s.initialUser) then c.user
      else c.sshUser
    repoRoot :=
      if s.gitUserHomeSet && !s.repoRootSet &&
          (s.initialRepoRoot == [] || s.initialRepoRoot == s.initialGitUserHome) then c.gitUserHome
      else c.repoRoot
    authorizedKeys :=
      if s.gitUserHomeSet && !s.authorizedKeysSet &&
          (s.initialAuthorizedKeys == [] ||
            s.initialAuthorizedKeys == authorizedKeysIn s.initialGitUserHome) then
        authorizedKeysIn c.gitUserHome
      else c.authorizedKeys }

/-- One turn of the loop over the options. Both modules are embedded. -/
def mergeOption (t : CaseTable) (now : AppConfig × OptionState) (raw : Bytes) :
    Except OptionError (AppConfig × OptionState) :=
  match parseOpt raw with
  | .error e => .error e
  | .ok o =>
    if o.module = str "fakeshell" then
      match mergeFakeshell t now.1.fakeShell o with
      | some fakeShell => .ok ({ now.1 with fakeShell }, now.2)
      | none => .error (.unsupported raw)
    else if o.module = str "gitserver" then
      match mergeGitserver t now.1.gitServer o with
      | some gitServer => .ok ({ now.1 with gitServer }, now.2.note t o.key)
      | none => .error (.unsupported raw)
    else .error (.unsupported raw)

/-- `MergeConfig`, its options. -/
def mergeConfig (t : CaseTable) (c : AppConfig) (options : List Bytes) :
    Except OptionError AppConfig :=
  match options.foldlM (mergeOption t) (c, newGitserverOptionState c.gitServer c.gitserverExplicit)
    with
  | .error e => .error e
  | .ok (c, s) => .ok { c with gitServer := s.apply c.gitServer }

end FakeSSH.Conf
