import FakeSSH.Laws.GitServer.Authorization
import FakeSSH.Laws.GitServer.Keys
import FakeSSH.Laws.Ssh.Auth
import FakeSSH.Main.Auth

/-!
# Logins of this server

The ways in that `serverAuthenticate` leaves are two here (`login_password_or_key`): the password
that stands in a request of the client and that `authCallback` accepts, which gives no permissions
and never makes the Git user, or a key of the `authorized_keys` file, for the Git user, whose
signature under this session's data stands in a request. Certificates and waived touches do not
occur. The sessions of the second kind are the ones that are routed to the gitserver.

So a Git command is run for the key that signed: the fingerprint that `Authorize` looks up in the
access lists is that key's (`git_command_signed`).
-/

namespace FakeSSH.Main

open FakeSSH.Go FakeSSH.Lib FakeSSH.Ssh Traced
open GitServer (KeyCodec KeyRet File Server Config)

variable {K : Type} {d : Deployment K} {sessionID : Bytes} {t : AuthTrace Callback K}
  {login : Login}

/-! ## The gitserver of a deployment -/

theorem Deployment.git_config {server : Server} (h : d.git = some server) :
    d.embedded = true ∧ d.config.gitServer.enable = true ∧
      GitServer.newServer d.codec d.config.gitServer d.startFile = .ok server := by
  have started := d.started
  unfold publicKeyCallbackForConfig at started
  split at started
  · rw [h] at started
    cases started
  · rename_i enabled
    obtain ⟨embedded, enable⟩ := not_or.mp enabled
    refine ⟨Bool.eq_true_of_not_eq_false embedded, Bool.eq_true_of_not_eq_false enable, ?_⟩
    cases new : GitServer.newServer d.codec d.config.gitServer d.startFile with
    | error e =>
      rw [new] at started
      cases started
    | ok s =>
      rw [new, h] at started
      cases started
      rfl

/-- The configuration has been filled before, so that the server has it as it is; without watch
mode it has the keys of the file at the start. -/
theorem Deployment.git_server {server : Server} (h : d.git = some server) :
    ∃ keys, server = .ofConfig d.config.gitServer keys ∧ (d.config.gitServer.watchKeys = false →
      GitServer.loadAuthorizedKeys d.codec d.config.gitServer.authorizedKeys d.startFile =
        .ok keys) := by
  obtain ⟨embedded, -, new⟩ := d.git_config h
  obtain ⟨raw, checked⟩ := d.checked embedded
  have again : GitServer.checkAndFillConfig d.config.gitServer = .ok d.config.gitServer :=
    GitServer.checkAndFillConfig_of_canonical (GitServer.checkAndFillConfig_canonical checked)
  unfold GitServer.newServer at new
  rw [again] at new
  dsimp only at new
  split at new
  · rename_i watch
    cases new
    refine ⟨∅, rfl, fun still => ?_⟩
    rw [watch] at still
    cases still
  · split at new
    · cases new
    · rename_i entries loaded
      cases new
      exact ⟨entries, rfl, fun _ => loaded⟩

/-! ## What the callbacks return -/

/-- The file that the keys of a login come from. -/
def Deployment.keyFile (d : Deployment K) (t : AuthTrace Callback K) : File :=
  if d.config.gitServer.watchKeys then d.file t else d.startFile

/-- `authCallback` accepts a configured password, or one that happens to be let through. -/
def Deployment.Accepts (d : Deployment K) (user password : Bytes) : Prop :=
  d.config.userMap.lookup user = some password ∨
    d.config.userMap.lookup user = none ∧
      checkCouldSuccess d.config.successRatio d.seed user password = true

/-- With a ratio of 0 nobody is let through. -/
theorem Deployment.Accepts.configured {user password : Bytes} (h : d.Accepts user password)
    (never : d.config.successRatio = 0) : d.config.userMap.lookup user = some password := by
  rcases h with configured | ⟨-, lucky⟩
  · exact configured
  · rw [never] at lucky
    have zero : float64 (0 / 100) = 0 := by decide +kernel
    unfold checkCouldSuccess at lucky
    rw [zero, if_pos rfl] at lucky
    cases lucky

theorem authCallback_cases (d : Deployment K) (user password : Bytes) :
    authCallback d.embedded d.config d.seed user password = errAuth ∨
      authCallback d.embedded d.config d.seed user password = ⟨none, none⟩ ∧
        d.Accepts user password ∧ (d.git.isSome = true → user ≠ d.config.gitServer.sshUser) := by
  unfold authCallback
  split
  · exact .inl rfl
  rename_i notGit
  have other (h : d.git.isSome = true) : user ≠ d.config.gitServer.sshUser := by
    obtain ⟨server, hs⟩ := Option.isSome_iff_exists.mp h
    obtain ⟨embedded, enable, -⟩ := d.git_config hs
    rintro rfl
    simp [embedded, enable] at notGit
  dsimp only
  split
  · rename_i v known
    split
    · rename_i same
      exact .inr ⟨rfl, .inl (known.trans (congrArg some (of_decide_eq_true same).symm)), other⟩
    · exact .inl rfl
  · rename_i unknown
    split
    · rename_i lucky
      exact .inr ⟨rfl, .inr ⟨unknown, lucky⟩, other⟩
    · exact .inl rfl

/-- A key that the callback accepts is one of the file's. -/
structure Listed (d : Deployment K) (t : AuthTrace Callback K) (user : Bytes) (key : K) : Prop where
  user : user = d.config.gitServer.sshUser
  notCertificate : d.surroundings.keys.certExtensions key = none
  line : ∃ data, d.keyFile t = .ok data ∧ GitServer.Authorizes d.codec data key

theorem loadAuthorizedKeys_ok {codec : KeyCodec K} {path : Bytes} {file : File}
    {entries : Map GitServer.AuthorizedKeyEntry}
    (h : GitServer.loadAuthorizedKeys codec path file = .ok entries) :
    ∃ data, file = .ok data ∧ GitServer.parseAuthorizedKeys codec data = .ok entries := by
  unfold GitServer.loadAuthorizedKeys at h
  split at h
  · cases h
  split at h
  · cases h
  · rename_i data
    split at h
    · cases h
    · rename_i parsed
      cases h
      exact ⟨data, rfl, parsed⟩

theorem lookupKey_perms {codec : KeyCodec K} {m : Map GitServer.AuthorizedKeyEntry} {key : K}
    {perms : GitServer.Permissions} (h : GitServer.lookupKey codec m key = .accepted perms) :
    ∃ comment, perms = GitServer.keyPermissions (codec.fingerprintSHA256 key) comment := by
  unfold GitServer.lookupKey at h
  split at h
  · cases h
  split at h
  · cases h
  · cases h
    exact ⟨_, rfl⟩

theorem publicKeyCallback_accepted {server : Server} (hs : d.git = some server) {user : Bytes}
    {key : K} {perms : GitServer.Permissions}
    (h : GitServer.publicKeyCallback d.codec server.config server.keysByFP (d.file t) user key
      (d.surroundings.keys.certExtensions key).isSome = .accepted perms) :
    Listed d t user key ∧
      ∃ comment, perms = GitServer.keyPermissions (d.codec.fingerprintSHA256 key) comment := by
  obtain ⟨keys, rfl, loaded⟩ := d.git_server hs
  have found {entries : Map GitServer.AuthorizedKeyEntry}
      (load : GitServer.loadAuthorizedKeys d.codec d.config.gitServer.authorizedKeys
        (d.keyFile t) = .ok entries)
      (lookup : GitServer.lookupKey d.codec entries key = .accepted perms) :
      ∃ data, d.keyFile t = .ok data ∧ GitServer.Authorizes d.codec data key := by
    obtain ⟨data, read, parsed⟩ := loadAuthorizedKeys_ok load
    exact ⟨data, read, (GitServer.parseAuthorizedKeys_enrolled parsed).mp
      (GitServer.lookupKey_accepted lookup)⟩
  unfold GitServer.publicKeyCallback at h
  split at h
  · cases h
  rename_i user_eq
  split at h
  · cases h
  rename_i raw
  have notCertificate := Option.not_isSome_iff_eq_none.mp raw
  split at h
  · rename_i watch
    have file : d.keyFile t = d.file t := if_pos watch
    split at h
    · cases h
    · rename_i entries load
      exact ⟨⟨not_not.mp user_eq, notCertificate, found (file ▸ load) h⟩, lookupKey_perms h⟩
  · rename_i still
    have file : d.keyFile t = d.startFile := if_neg still
    have load := loaded (Bool.eq_false_of_not_eq_true still)
    exact ⟨⟨not_not.mp user_eq, notCertificate, found (file ▸ load) h⟩, lookupKey_perms h⟩

theorem keyResult_ne_partialSuccess {quote : Bytes → Bytes} {ret : KeyRet}
    {perms : Option Permissions} {next : ServerAuthCallbacks Callback} :
    keyResult quote ret ≠ ⟨perms, some (.partialSuccess next)⟩ := by
  cases ret <;> exact fun h => by cases h

/-- None of the callbacks asks for a further step. -/
theorem Deployment.gives_ne_partialSuccess {e : AuthEvent Callback K} (h : d.env.Gives t e)
    {perms : Option Permissions} {next : ServerAuthCallbacks Callback} :
    e.result ≠ some ⟨perms, some (.partialSuccess next)⟩ := by
  intro result
  cases e with
  | password c user password r =>
    cases result
    rcases authCallback_cases d user password with denied | ⟨accepted, -⟩
    · cases (h.trans denied : _ = errAuth)
    · cases h.trans accepted
  | publicKey c user key r =>
    cases result
    cases c with
    | auth => cases (h : _ = errAuth)
    | gitServer server => exact keyResult_ne_partialSuccess h.symm
  | keyboardInteractive c user r =>
    cases result
    cases (h : _ = errAuth)
  | noClientAuth user r =>
    obtain ⟨callback, never, -⟩ := h
    cases never
  | verifiedPublicKey user key perms algo r =>
    obtain ⟨callback, never, -⟩ := h
    cases never
  | gssExchange c token req r =>
    cases h
    cases result
  | _ => cases result

/-- So the callbacks of the configuration stay in force. -/
theorem Deployment.inForce (given : ∀ e ∈ t, ∃ before, before ++ [e] <+: t ∧ d.env.Gives before e)
    {callbacks : ServerAuthCallbacks Callback} (h : InForce d.serverConfig t callbacks) :
    callbacks = d.serverConfig.callbacks := by
  rcases h with same | ⟨e, he, perms, result⟩
  · exact same
  · obtain ⟨before, -, gives⟩ := given e he
    exact absurd result (Deployment.gives_ne_partialSuccess gives)

/-! ## Who gets in -/

/-- A login with a password: the one in a request of the client, which `authCallback` was asked
about and accepts. -/
structure PasswordLogin (d : Deployment K) (t : AuthTrace Callback K) (login : Login)
    (password : Bytes) : Prop where
  request : ∃ req, Requested t req ∧ req.user = login.user ∧ PasswordRequest req password
  asked : .password .auth login.user password ⟨none, none⟩ ∈ t
  accepted : d.Accepts login.user password
  notGit : d.git.isSome = true → login.user ≠ d.config.gitServer.sshUser
  perms : login.perms = none
  unrouted : shouldRouteGitSession d.git (gitPermissions login.perms) = false

/-- A login with a key: one that the file had when it was asked for, and whose signature in a
request of the client covers the data of this session and this request, with an accepted
algorithm. -/
structure KeyLogin (d : Deployment K) (sessionID : Bytes) (t : AuthTrace Callback K) (login : Login)
    (key : K) : Prop where
  enabled : d.git.isSome = true
  listed : ∃ before, before <+: t ∧ Listed d before login.user key
  perms : ∃ comment, gitPermissions login.perms =
    some (GitServer.keyPermissions (d.codec.fingerprintSHA256 key) comment)
  signed : ∃ (req : UserAuthRequest) (algo keyData : Bytes) (sig : Signature),
    Requested t req ∧ req.user = login.user ∧ SignedRequest req algo keyData sig ∧
    d.surroundings.keys.parsePublicKey keyData = .ok key ∧
    defaultPubKeyAuthAlgos.contains sig.format = true ∧ isAlgoCompatible algo sig.format = true ∧
    d.surroundings.keys.verify key (buildDataSignedForAuth sessionID req algo keyData) sig = none
  routed : shouldRouteGitSession d.git (gitPermissions login.perms) = true

theorem lookup_keyPermissions (fp comment : Bytes) {name : Bytes}
    (marker : name ≠ GitServer.permExtGitServer)
    (fingerprint : name ≠ GitServer.permExtKeyFingerprint)
    (about : name ≠ GitServer.permExtKeyComment) :
    ((GitServer.keyPermissions fp comment).extensions.bind (·.lookup name)) = none := by
  simp only [GitServer.keyPermissions, Option.bind_some]
  rw [AList.lookup_insert_ne about, AList.lookup_insert_ne fingerprint,
    AList.lookup_insert_ne marker, AList.lookup_empty]

/-- Neither the gitserver nor a plain key waives the touch of a hardware key. -/
theorem noTouchAllowed_eq_false {keys : KeyOps K} {key : K} {fp comment : Bytes}
    (notCertificate : keys.certExtensions key = none) :
    noTouchAllowed keys key
      (some ⟨none, (GitServer.keyPermissions fp comment).extensions⟩) = false := by
  unfold noTouchAllowed
  rw [notCertificate, Option.bind_some,
    lookup_keyPermissions fp comment (by decide) (by decide) (by decide)]
  rfl

theorem keyResult_eq_ok {quote : Bytes → Bytes} {ret : KeyRet} {perms : Option Permissions}
    (h : keyResult quote ret = ⟨perms, none⟩) :
    ∃ p, ret = .accepted p ∧ perms = some ⟨none, p.extensions⟩ := by
  cases ret with
  | errAuth => cases h
  | reload e => cases h
  | accepted p =>
    cases h
    exact ⟨p, rfl, rfl⟩

theorem isGitPermission_keyPermissions (fp comment : Bytes) :
    GitServer.isGitPermission (some (GitServer.keyPermissions fp comment)) = true := by
  unfold GitServer.isGitPermission GitServer.extension GitServer.keyPermissions
  simp only [Option.bind_eq_bind, Option.bind_some]
  rw [AList.lookup_insert_ne (by decide), AList.lookup_insert_ne (by decide), AList.lookup_insert]
  decide

theorem keyLogin_of_signed {server : Server} (hs : d.git = some server) {key : K}
    {perms : Option Permissions} {req : UserAuthRequest} {algo keyData : Bytes} {sig : Signature}
    {before : AuthTrace Callback K} (sooner : before <+: t) (requested : Requested t req)
    (accepted : d.env.publicKeyCallback (.gitServer server) req.user key before = ⟨perms, none⟩)
    (signed : Signed d.env d.serverConfig sessionID req key perms algo keyData sig) :
    KeyLogin d sessionID t ⟨req.user, perms⟩ key := by
  obtain ⟨p, returned, rfl⟩ := keyResult_eq_ok accepted
  obtain ⟨listed, comment, rfl⟩ := publicKeyCallback_accepted hs returned
  have plain : d.env.keys.certExtensions key = none := listed.notCertificate
  have verified := signed.verified
  rw [noTouchAllowed_eq_false plain, if_neg Bool.false_ne_true] at verified
  exact
    { enabled := by rw [hs]; rfl
      listed := ⟨before, sooner, listed⟩
      perms := ⟨comment, rfl⟩
      signed := ⟨req, algo, keyData, sig, requested, rfl, signed.request, signed.parsed,
        signed.formatAccepted, signed.compatible, verified⟩
      routed := by
        rw [hs]
        exact isGitPermission_keyPermissions (d.codec.fingerprintSHA256 key) comment }

theorem login_cases (run : serverAuthenticate d.env d.serverConfig sessionID [] = (.ok login, t)) :
    (∃ password, PasswordLogin d t login password) ∨ ∃ key, KeyLogin d sessionID t login key := by
  have given (e : AuthEvent Callback K) (he : e ∈ t) := serverAuthenticate_gives run he
  obtain ⟨req, requested, same, granted⟩ := (serverAuthenticate_leads.ok run).1.request
  obtain ⟨user, perms⟩ := login
  obtain rfl : req.user = user := same
  dsimp only at granted
  cases granted with
  | unasked _ never => cases never
  | noClientAuth _ _ never => cases never
  | password callbacks c password _ force known typed asked =>
    rw [Deployment.inForce given force] at known
    cases known
    obtain ⟨before, -, gives⟩ := given _ asked
    rcases authCallback_cases d req.user password with denied | ⟨accepted, accepts, other⟩
    · cases (gives.trans denied : _ = errAuth)
    · cases gives.trans accepted
      exact .inl ⟨password, ⟨req, requested, rfl, typed⟩, asked, accepts, other, rfl,
        Bool.and_false _⟩
  | keyboardInteractive callbacks c _ force known =>
    rw [Deployment.inForce given force] at known
    cases known
  | publicKey callbacks c key _ algo keyData sig force known asked signed =>
    rw [Deployment.inForce given force] at known
    obtain ⟨server, hs, rfl⟩ := Option.map_eq_some_iff.mp known
    obtain ⟨before, sooner, gives⟩ := given _ asked
    have sooner := (List.prefix_append _ _).trans sooner
    exact .inr ⟨key, keyLogin_of_signed hs sooner requested gives.symm signed⟩
  | verifiedPublicKey _ _ _ _ _ _ _ _ _ _ _ _ confirmed =>
    obtain ⟨-, -, callback, never, -⟩ := given _ confirmed
    cases never
  | gssapi callbacks c token _ force known =>
    rw [Deployment.inForce given force] at known
    cases known

/-- A server that watches a file with one key, the writer's, and a client that has it. -/
def gitBox : GitServer.Config :=
  { GitServer.aliasedFilled with
    enable := true
    watchKeys := true
    authorizedKeys := str "keys" }

def gitBoxServer : Server := .ofConfig gitBox ∅

def gitBoxDeployment : Deployment Bytes where
  embedded := true
  config := { maxTry := 3, successRatio := 50, users := [], gitServer := gitBox }
  codec := GitServer.plainCodec
  startFile := .error (str "no file")
  git := some gitBoxServer
  seed := []
  quote := id
  file _ := .ok (str "SHA256:w")
  surroundings := signingClient (str "git") (str "id") (str "SHA256:w") (str "SHA256:w")
  checked _ := ⟨gitBox, by decide +kernel⟩
  started := by
    have again : GitServer.checkAndFillConfig gitBox = .ok gitBox := by decide +kernel
    simp only [publicKeyCallbackForConfig, GitServer.newServer, again]
    rfl

/-- The client with the key gets in, and may push. -/
theorem gitBox_login : ∃ login t,
    serverAuthenticate gitBoxDeployment.env gitBoxDeployment.serverConfig (str "id") [] =
      (.ok login, t) ∧
    gitBoxServer.backendCommand (gitPermissions login.perms)
      (str "git-receive-pack '/team/project.git'") =
        .ok (str "git-receive-pack 'vault/p.git'") := by
  have allowed : (serverAuthenticate gitBoxDeployment.env gitBoxDeployment.serverConfig
      (str "id") []).1.toOption.map (fun login => gitBoxServer.backendCommand
        (gitPermissions login.perms) (str "git-receive-pack '/team/project.git'")) =
      some (.ok (str "git-receive-pack 'vault/p.git'")) := by decide +kernel
  exact exists_ok allowed

theorem gitKeyFingerprint_keyPermissions (fp comment : Bytes) :
    GitServer.gitKeyFingerprint (some (GitServer.keyPermissions fp comment)) = fp := by
  unfold GitServer.gitKeyFingerprint GitServer.extension GitServer.keyPermissions
  simp only [Option.bind_eq_bind, Option.bind_some]
  rw [AList.lookup_insert_ne (by decide), AList.lookup_insert]
  rfl

/-- What a Git command of a login needs: the login was one with a key, so that the session is routed
to the gitserver, and that key is on the list of the service in the repository that the command
names. -/
theorem git_command_signed (d : Deployment K) (sessionID : Bytes) (login : Login)
    (t : AuthTrace Callback K)
    (run : serverAuthenticate d.env d.serverConfig sessionID [] = (.ok login, t))
    (server : Server) (hs : d.git = some server) (exec out : Bytes)
    (allowed : server.backendCommand (gitPermissions login.perms) exec = .ok out) :
    ∃ key, KeyLogin d sessionID t login key ∧
      ∃ svc token rc, GitServer.Names exec svc token ∧
        GitServer.normalizeRepoPath token = .ok rc.path ∧
        rc ∈ d.config.gitServer.repositories ∧
        d.codec.fingerprintSHA256 key ∈ GitServer.Service.keys rc svc ∧
        out = svc.command ++ str " '" ++ rc.backendPath ++ str "'" := by
  obtain ⟨keys, rfl, -⟩ := d.git_server hs
  obtain ⟨embedded, -, -⟩ := d.git_config hs
  obtain ⟨raw, filled⟩ := d.checked embedded
  obtain ⟨-, git, svc, token, rc, names, path, only, -, fingerprint, rfl⟩ :=
    (GitServer.backendCommand_ok_iff (GitServer.checkAndFillConfig_checked filled) keys _ exec
      out).mp allowed
  have listed : rc ∈ d.config.gitServer.repositories :=
    (List.mem_filter.mp (only ▸ List.mem_singleton_self rc)).1
  rcases login_cases run with ⟨_, password⟩ | ⟨key, keyLogin⟩
  · -- a login with a password has no permissions
    rw [password.perms] at git
    cases git
  · obtain ⟨comment, perms⟩ := keyLogin.perms
    rw [perms, gitKeyFingerprint_keyPermissions] at fingerprint
    exact ⟨key, keyLogin, svc, token, rc, names, path, listed, fingerprint, rfl⟩

theorem git_command_signed_push : ∃ login t,
    serverAuthenticate gitBoxDeployment.env gitBoxDeployment.serverConfig (str "id") [] =
      (.ok login, t) ∧
    ∃ key, KeyLogin gitBoxDeployment (str "id") t login key ∧
      ∃ svc token rc, GitServer.Names (str "git-receive-pack '/team/project.git'") svc token ∧
        GitServer.normalizeRepoPath token = .ok rc.path ∧
        rc ∈ gitBox.repositories ∧
        GitServer.plainCodec.fingerprintSHA256 key ∈ GitServer.Service.keys rc svc ∧
        str "git-receive-pack 'vault/p.git'" =
          svc.command ++ str " '" ++ rc.backendPath ++ str "'" := by
  obtain ⟨login, t, run, allowed⟩ := gitBox_login
  exact ⟨login, t, run, git_command_signed _ _ login t run gitBoxServer rfl _ _ allowed⟩

end FakeSSH.Main
