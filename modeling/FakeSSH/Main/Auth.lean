import FakeSSH.GitServer.Keys
import FakeSSH.Go.Float64
import FakeSSH.Ssh.Auth

/-!
# Logins (`main.go`, `main_gitserver.go`)

What the server makes of its configuration for a login: `authCallback` judges passwords, and
`PublicKeyCallback` of the gitserver judges keys, where that module is built in and enabled. No
other method is configured. A `Deployment` is a server that has started, with what it reads while
it runs: the `authorized_keys` file, at each moment of a connection, and the transport.
-/

namespace FakeSSH.Main

open FakeSSH.Go FakeSSH.Lib FakeSSH.Ssh
open GitServer (KeyCodec KeyRet File Server)

/-! ## Passwords -/

/-- The hash of `fnv.New64`. -/
def fnv64 (data : Bytes) : UInt64 :=
  data.foldl (fun hash b => (hash * 1099511628211) ^^^ b.toUInt64) 14695981039346656037

/-- `checkCouldSuccess`. The threshold is below `2 ^ 64`, as the ratio is below 1, so that its
conversion to `uint64` only cuts off the fraction. -/
def checkCouldSuccess (successRatio : ℚ) (seed user pass : Bytes) : Bool :=
  let ratio := float64 (successRatio / 100)
  if ratio = 0 then false
  else if float64 (1 - float64 (1 / 100000000)) ≤ ratio then true
  else
    let sep := 0 :: seed ++ [0]
    let threshold := float64 (ratio * float64 18446744073709551615)
    decide ((fnv64 (user ++ sep ++ pass)).toNat ≤ ⌊threshold⌋.toNat)

/-- `AppConfig`, as far as a login depends on it. -/
structure AppConfig where
  maxTry : Int
  successRatio : ℚ
  users : List (Bytes × Bytes)
  gitServer : GitServer.Config

/-- The map of `authCallback`: later entries overwrite. -/
def AppConfig.userMap (c : AppConfig) : Map Bytes :=
  c.users.foldl (fun m u => m.insert u.1 u.2) ∅

/-- The callbacks of the server's configuration. -/
inductive Callback where
  | auth
  | gitServer (server : Server)

def errAuth : CallbackResult Callback := ⟨none, some (.other (str "auth failed") none)⟩

/-- `authCallback`; `embedded` is `gitserver.Embedded`. -/
def authCallback (embedded : Bool) (c : AppConfig) (seed user password : Bytes) :
    CallbackResult Callback :=
  if embedded && c.gitServer.enable && decide (user = c.gitServer.sshUser) then errAuth
  else
    let succLogin := match c.userMap.lookup user with
      | some v => decide (password = v)
      | none => checkCouldSuccess c.successRatio seed user password
    if succLogin then ⟨none, none⟩ else errAuth

/-! ## Keys -/

/-- What `PublicKeyCallback` returns, for the SSH library. -/
def keyResult (quote : Bytes → Bytes) (ret : KeyRet) : CallbackResult Callback :=
  match ret with
  | .accepted perms => ⟨some ⟨none, perms.extensions⟩, none⟩
  | ret => ⟨none, some (.other ((ret.text quote).getD []) none)⟩

/-- `publicKeyCallbackForConfig`. An error ends the program. -/
def publicKeyCallbackForConfig {K : Type} (embedded : Bool) (codec : KeyCodec K)
    (c : GitServer.Config) (file : File) : Except GitServer.InitError (Option Server) :=
  if embedded = false ∨ c.enable = false then .ok none
  else (GitServer.newServer codec c file).map some

/-- `shouldRouteGitSession`. -/
def shouldRouteGitSession (srv : Option Server) (perms : Option GitServer.Permissions) : Bool :=
  srv.isSome && GitServer.isGitPermission perms

/-- The permissions of a login, as the gitserver reads them. -/
def gitPermissions (perms : Option Permissions) : Option GitServer.Permissions :=
  perms.map fun p => ⟨p.extensions⟩

/-! ## The server -/

/-- `defaultPubKeyAuthAlgos`. -/
def defaultPubKeyAuthAlgos : List Bytes :=
  [str "ssh-ed25519", str "sk-ssh-ed25519@openssh.com", str "sk-ecdsa-sha2-nistp256@openssh.com",
    str "ecdsa-sha2-nistp256", str "ecdsa-sha2-nistp384", str "ecdsa-sha2-nistp521",
    str "rsa-sha2-256", str "rsa-sha2-512", str "ssh-rsa", str "ssh-dss"]

/-- A server that has started, and one of its connections. `CheckConfig` has filled the
configuration and the gitserver has been set up from it, with the file as it was. -/
structure Deployment (K : Type) where
  embedded : Bool
  config : AppConfig
  codec : KeyCodec K
  startFile : File
  git : Option Server
  seed : Bytes
  quote : Bytes → Bytes
  file : AuthTrace Callback K → File
  surroundings : AuthEnv Callback K
  checked : embedded = true → ∃ c, GitServer.checkAndFillConfig c = .ok config.gitServer
  started : publicKeyCallbackForConfig embedded codec config.gitServer startFile = .ok git

variable {K : Type}

/-- The configuration that `main` builds, with the defaults of `NewServerConn`. -/
def Deployment.serverConfig (d : Deployment K) : AuthConfig Callback where
  publicKeyAuthAlgorithms := defaultPubKeyAuthAlgos
  noClientAuth := false
  maxAuthTries := if d.config.maxTry = 0 then 6 else d.config.maxTry
  callbacks :=
    { password := some .auth
      publicKey := d.git.map .gitServer
      keyboardInteractive := none
      gssapiWithMIC := none }

/-- The callbacks of `main`, over the surroundings of the connection. -/
def Deployment.env (d : Deployment K) : AuthEnv Callback K :=
  { d.surroundings with
    bannerCallback := none
    noClientAuthCallback := none
    passwordCallback := fun _ user password _ =>
      authCallback d.embedded d.config d.seed user password
    publicKeyCallback := fun c user key t =>
      match c with
      | .auth => errAuth
      | .gitServer server => keyResult d.quote <|
          GitServer.publicKeyCallback d.codec server.config server.keysByFP (d.file t) user key
            (d.surroundings.keys.certExtensions key).isSome
    verifiedPublicKeyCallback := none
    -- these two are never asked: no such callback is configured
    keyboardInteractiveCallback := fun _ _ _ => errAuth
    gssExchangeToken := fun _ _ _ _ => .broken []
    preAuthConnCallback := false
    authLogCallback := true }

end FakeSSH.Main
