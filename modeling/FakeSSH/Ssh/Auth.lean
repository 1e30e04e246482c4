import FakeSSH.Lib.Traced
import FakeSSH.Ssh.Messages

/-!
# User authentication (`serverAuthenticate` of `third/ssh/server.go`)

The loop in which a server answers the authentication requests of a client until one of them is
accepted, a limit is reached or the connection is given up.

The loop talks to the transport and to the callbacks of the configuration. A callback is known
by a name `C`, so that a partial success can hand over new ones, and keys are of a type `K` with
the operations of `KeyOps`. What the transport and the callbacks answer is an `AuthEnv`: it may
depend on everything that happened on the connection before (`AuthTrace`). A callback that
itself talks to the client (keyboard-interactive, the exchange of GSS-API tokens) is one event.
-/

namespace FakeSSH.Ssh

open FakeSSH.Go FakeSSH.Lib

/-! ## Configuration and answers -/

/-- `Permissions`, without the data that only an application reads; the maps may be nil. -/
structure Permissions where
  criticalOptions : Option (Map Bytes)
  extensions : Option (Map Bytes)

/-- `ServerAuthCallbacks`. -/
structure ServerAuthCallbacks (C : Type) where
  password : Option C
  publicKey : Option C
  keyboardInteractive : Option C
  gssapiWithMIC : Option C
  deriving DecidableEq, Repr

/-- The errors that a callback returns: a `PartialSuccessError`, or another one with its text and
the message of the `BannerError` in it, if there is one. -/
inductive CallbackError (C : Type) where
  | partialSuccess (next : ServerAuthCallbacks C)
  | other (text : Bytes) (banner : Option Bytes)
  deriving DecidableEq, Repr

/-- What a callback returns. -/
structure CallbackResult (C : Type) where
  perms : Option Permissions
  err : Option (CallbackError C)

/-- `ServerConfig`, as far as the authentication reads it. -/
structure AuthConfig (C : Type) where
  publicKeyAuthAlgorithms : List Bytes
  noClientAuth : Bool
  maxAuthTries : Int
  callbacks : ServerAuthCallbacks C

/-- `Signature`. -/
structure Signature where
  format : Bytes
  blob : Bytes
  rest : Bytes
  deriving DecidableEq, Repr

/-- What is asked of a public key. `certExtensions` has a value for a certificate; its map may be
nil. -/
structure KeyOps (K : Type) where
  parsePublicKey : Bytes → Except Bytes K
  type : K → Bytes
  certExtensions : K → Option (Option (Map Bytes))
  skKeyWithoutUP : K → K
  verify : K → Bytes → Signature → Option Bytes

/-- The reasons for a rejected request (`authErr`). -/
inductive AuthError (C : Type) where
  | noAuth
  | notConfigured (method : Bytes)
  | algorithmNotAccepted (algo : Bytes)
  | publicKey (text : Bytes)
  | sourceAddress (text : Bytes)
  | callback (e : CallbackError C)
  | keyNotCompatible (type algo : Bytes)
  | signatureNotCompatible (format algo : Bytes)
  | gssapi (text : Bytes)
  | unknownMethod (method : Bytes)
  | disconnect (message : Bytes)
  deriving DecidableEq, Repr

def AuthError.text {C : Type} (quote : Bytes → Bytes) : AuthError C → Bytes
  | .noAuth => str "ssh: no auth passed yet"
  | .notConfigured method => str "ssh: " ++ method ++ str " auth not configured"
  | .algorithmNotAccepted algo => str "ssh: algorithm " ++ quote algo ++ str " not accepted"
  | .publicKey text => text
  | .sourceAddress text => text
  | .callback (.partialSuccess _) => str "ssh: authenticated with partial success"
  | .callback (.other text _) => text
  | .keyNotCompatible type algo =>
    str "ssh: public key type " ++ quote type ++ str " not compatible with selected algorithm " ++
      quote algo
  | .signatureNotCompatible format algo =>
    str "ssh: signature " ++ quote format ++ str " not compatible with selected algorithm " ++
      quote algo
  | .gssapi text => text
  | .unknownMethod method => str "ssh: unknown method " ++ quote method
  | .disconnect message => str "ssh: disconnect, reason 2: " ++ quote message

/-- The errors with which `serverAuthenticate` returns. -/
inductive AuthFailure (C : Type) where
  | serverAuthError (errs : List (AuthError C))
  | transport (text : Bytes)
  | wire (e : WireError)
  | unknownService (service : Bytes)
  | changedUser (previous current : Bytes)
  | verifiedPartialSuccess
  | signature (text : Bytes)
  | partialSuccessPermissions
  | noMethods
  deriving DecidableEq, Repr

/-- Why a packet could not be read. -/
inductive ReadError where
  | eof
  | other (text : Bytes)
  deriving DecidableEq, Repr

/-- `userAuthRequestMsg`. -/
structure UserAuthRequest where
  user : Bytes
  service : Bytes
  method : Bytes
  payload : Bytes
  deriving DecidableEq, Repr

/-- What `gssExchangeToken` returns. -/
inductive GssResult (C : Type) where
  | broken (text : Bytes)
  | refused (e : CallbackError C)
  | login (r : CallbackResult C)

/-- What happens on the connection, with the answers. -/
inductive AuthEvent (C K : Type) where
  | preAuth
  | read (r : Except ReadError Bytes)
  | write (packet : Bytes) (err : Option Bytes)
  | bannerCallback (user message : Bytes)
  | noClientAuth (user : Bytes) (r : CallbackResult C)
  | password (c : C) (user password : Bytes) (r : CallbackResult C)
  | keyboardInteractive (c : C) (user : Bytes) (r : CallbackResult C)
  | publicKey (c : C) (user : Bytes) (key : K) (r : CallbackResult C)
  | verifiedPublicKey (user : Bytes) (key : K) (perms : Option Permissions) (algo : Bytes)
      (r : CallbackResult C)
  | gssExchange (c : C) (token : Bytes) (req : UserAuthRequest) (r : GssResult C)
  | authLog (user method : Bytes) (err : Option (AuthError C))

abbrev AuthTrace (C K : Type) := List (AuthEvent C K)

/-- What the surroundings answer. The last three fields are pure functions of the libraries. -/
structure AuthEnv (C K : Type) where
  readPacket : AuthTrace C K → Except ReadError Bytes
  writePacket : Bytes → AuthTrace C K → Option Bytes
  bannerCallback : Option (Bytes → AuthTrace C K → Bytes)
  noClientAuthCallback : Option (Bytes → AuthTrace C K → CallbackResult C)
  passwordCallback : C → Bytes → Bytes → AuthTrace C K → CallbackResult C
  keyboardInteractiveCallback : C → Bytes → AuthTrace C K → CallbackResult C
  publicKeyCallback : C → Bytes → K → AuthTrace C K → CallbackResult C
  verifiedPublicKeyCallback :
    Option (Bytes → K → Option Permissions → Bytes → AuthTrace C K → CallbackResult C)
  gssExchangeToken : C → Bytes → UserAuthRequest → AuthTrace C K → GssResult C
  preAuthConnCallback : Bool
  authLogCallback : Bool
  keys : KeyOps K
  checkSourceAddress : Bytes → Option Bytes
  parseGSSAPIPayload : Bytes → Option (Nat × Bool)

variable {C K : Type}

/-- A part of the loop. -/
abbrev AuthM (C K : Type) := Traced (AuthFailure C) (AuthEvent C K)

/-- `writePacket`, whose error ends the authentication. -/
def AuthEnv.send (env : AuthEnv C K) (packet : Bytes) : AuthM C K Unit := do
  match ← Traced.ask (env.writePacket packet) (.write packet) with
  | none => pure ()
  | some text => Traced.fail (.transport text)

/-- `SendAuthBanner`. -/
def AuthEnv.sendAuthBanner (env : AuthEnv C K) (message : Bytes) : AuthM C K Unit :=
  env.send (userAuthBannerMsg.marshal (message, [], ()))

/-! ## Algorithms and signatures -/

/-- `certKeyAlgoNames`, from certificate algorithms to the algorithms under them. -/
def certKeyAlgoNames : List (Bytes × Bytes) :=
  [(str "ssh-rsa-cert-v01@openssh.com", str "ssh-rsa"),
    (str "rsa-sha2-256-cert-v01@openssh.com", str "rsa-sha2-256"),
    (str "rsa-sha2-512-cert-v01@openssh.com", str "rsa-sha2-512"),
    (str "ssh-dss-cert-v01@openssh.com", str "ssh-dss"),
    (str "ecdsa-sha2-nistp256-cert-v01@openssh.com", str "ecdsa-sha2-nistp256"),
    (str "ecdsa-sha2-nistp384-cert-v01@openssh.com", str "ecdsa-sha2-nistp384"),
    (str "ecdsa-sha2-nistp521-cert-v01@openssh.com", str "ecdsa-sha2-nistp521"),
    (str "sk-ecdsa-sha2-nistp256-cert-v01@openssh.com", str "sk-ecdsa-sha2-nistp256@openssh.com"),
    (str "ssh-ed25519-cert-v01@openssh.com", str "ssh-ed25519"),
    (str "sk-ssh-ed25519-cert-v01@openssh.com", str "sk-ssh-ed25519@openssh.com")]

/-- `underlyingAlgo`. -/
def underlyingAlgo (algo : Bytes) : Bytes := (certKeyAlgoNames.lookup algo).getD algo

/-- `algorithmsForKeyFormat`. -/
def algorithmsForKeyFormat (keyFormat : Bytes) : List Bytes :=
  if keyFormat = str "ssh-rsa" then [str "rsa-sha2-256", str "rsa-sha2-512", str "ssh-rsa"]
  else if keyFormat = str "ssh-rsa-cert-v01@openssh.com" then
    [str "rsa-sha2-256-cert-v01@openssh.com", str "rsa-sha2-512-cert-v01@openssh.com",
      str "ssh-rsa-cert-v01@openssh.com"]
  else [keyFormat]

/-- `isRSA`. -/
def isRSA (algo : Bytes) : Bool :=
  (algorithmsForKeyFormat (str "ssh-rsa")).contains (underlyingAlgo algo)

/-- `isAlgoCompatible`. -/
def isAlgoCompatible (algo sigFormat : Bytes) : Bool :=
  if isRSA algo && isRSA sigFormat then true else decide (underlyingAlgo algo = sigFormat)

/-- The signature formats with a part of their own behind the blob. -/
def skFormats : List Bytes :=
  [str "sk-ecdsa-sha2-nistp256@openssh.com", str "sk-ecdsa-sha2-nistp256-cert-v01@openssh.com",
    str "sk-ssh-ed25519@openssh.com", str "sk-ssh-ed25519-cert-v01@openssh.com"]

/-- `parseSignatureBody`. -/
def parseSignatureBody (data : Bytes) : Option (Signature × Bytes) := do
  let (format, data) ← parseString data
  let (blob, data) ← parseString data
  if skFormats.contains format then some (⟨format, blob, data⟩, [])
  else some (⟨format, blob, []⟩, data)

/-- `parseSignature`. -/
def parseSignature (data : Bytes) : Option (Signature × Bytes) := do
  let (sigBytes, rest) ← parseString data
  let (sig, trailing) ← parseSignatureBody sigBytes
  if trailing = [] then some (sig, rest) else none

/-- The structure that `buildDataSignedForAuth` marshals. -/
def signedDataLayout : Layout where
  name := str ""
  tags := []
  fields :=
    [(str "Session", .bytes), (str "Type", .uint8), (str "User", .string),
      (str "Service", .string), (str "Method", .string), (str "Sign", .bool),
      (str "Algo", .string), (str "PubKey", .bytes)]

/-- `buildDataSignedForAuth`. -/
def buildDataSignedForAuth (sessionID : Bytes) (req : UserAuthRequest) (algo pubKey : Bytes) :
    Bytes :=
  signedDataLayout.marshal
    (sessionID, 50, req.user, req.service, req.method, true, algo, pubKey, ())

/-! ## Permissions -/

/-- `checkSourceAddressCriticalOption`; `none` where the address is allowed. -/
def AuthEnv.checkSourceAddressCriticalOption (env : AuthEnv C K) (perms : Option Permissions) :
    Option Bytes := do
  let p ← perms
  let options ← p.criticalOptions
  let saco ← options.lookup (str "source-address")
  env.checkSourceAddress saco

/-- `noTouchAllowed`. -/
def noTouchAllowed (keys : KeyOps K) (pubKey : K) (perms : Option Permissions) : Bool :=
  (((perms.bind (·.extensions)).bind (·.lookup (str "no-touch-required"))).isSome) ||
    (((keys.certExtensions pubKey).join.bind (·.lookup (str "no-touch-required"))).isSome)

/-! ## The loop -/

/-- `cachedPubKey`. -/
structure CachedPubKey (C : Type) where
  user : Bytes
  pubKeyData : Bytes
  result : Option (AuthError C)
  perms : Option Permissions

def maxCachedPubKeys : Nat := 1

/-- `get`. -/
def cacheGet (cache : List (CachedPubKey C)) (user pubKeyData : Bytes) :
    Option (CachedPubKey C) :=
  cache.find? fun k => decide (k.user = user) && decide (k.pubKeyData = pubKeyData)

/-- `add`. -/
def cacheAdd (cache : List (CachedPubKey C)) (candidate : CachedPubKey C) :
    List (CachedPubKey C) :=
  (if maxCachedPubKeys ≤ cache.length then cache.drop 1 else cache) ++ [candidate]

/-- The variables of `serverAuthenticate`, but for the number of attempts. -/
structure AuthState (C : Type) where
  user : Bytes
  cache : List (CachedPubKey C)
  authFailures : Nat
  noneAuthCount : Nat
  authErrs : List (AuthError C)
  calledBannerCallback : Bool
  partialSuccessReturned : Bool
  callbacks : ServerAuthCallbacks C

/-- What a method makes of a request: it judges it, or the request was a question that has been
answered. -/
inductive Attempt (C : Type) where
  | judged (perms : Option Permissions) (err : Option (AuthError C))
  | answered

/-- The result of a callback as a judgement. -/
def CallbackResult.judged (r : CallbackResult C) : Attempt C :=
  .judged r.perms (r.err.map .callback)

def isPartialSuccess : Option (AuthError C) → Bool
  | some (.callback (.partialSuccess _)) => true
  | _ => false

/-- `parseError(msgUserAuthRequest)`. -/
def malformedRequest {α : Type} : AuthM C K α := Traced.fail (.wire (.parse 50))

/-- The method `none`. -/
def noneAttempt (env : AuthEnv C K) (cfg : AuthConfig C) (st : AuthState C) :
    AuthM C K (Attempt C) :=
  if cfg.noClientAuth && !st.partialSuccessReturned then
    match env.noClientAuthCallback with
    | some callback => do
      let r ← Traced.ask (callback st.user) (.noClientAuth st.user)
      pure r.judged
    | none => pure (.judged none none)
  else pure (.judged none (some .noAuth))

/-- The method `password`. -/
def passwordAttempt (env : AuthEnv C K) (st : AuthState C) (payload : Bytes) :
    AuthM C K (Attempt C) :=
  match st.callbacks.password with
  | none => pure (.judged none (some (.notConfigured (str "password"))))
  | some c =>
    match payload with
    | [] => malformedRequest
    | first :: payload =>
      if first ≠ 0 then malformedRequest
      else match parseString payload with
        | none => malformedRequest
        | some (password, rest) =>
          if rest ≠ [] then malformedRequest
          else do
            let r ← Traced.ask (env.passwordCallback c st.user password)
              (.password c st.user password)
            pure r.judged

/-- The method `keyboard-interactive`. -/
def keyboardInteractiveAttempt (env : AuthEnv C K) (st : AuthState C) : AuthM C K (Attempt C) :=
  match st.callbacks.keyboardInteractive with
  | none => pure (.judged none (some (.notConfigured (str "keyboard-interactive"))))
  | some c => do
    let r ← Traced.ask (env.keyboardInteractiveCallback c st.user)
      (.keyboardInteractive c st.user)
    pure r.judged

/-- What `PublicKeyCallback` has returned, after the check of the address. -/
def AuthEnv.checkedResult (env : AuthEnv C K) (r : CallbackResult C) : Option (AuthError C) :=
  let result := r.err.map AuthError.callback
  if result.isNone || isPartialSuccess result then
    match env.checkSourceAddressCriticalOption r.perms with
    | some text => some (.sourceAddress text)
    | none => result
  else result

/-- The answer about a key, from the cache or from the callback. -/
def lookUpKey (env : AuthEnv C K) (st : AuthState C) (c : C) (pubKeyData : Bytes) (pubKey : K) :
    AuthM C K (CachedPubKey C × List (CachedPubKey C)) :=
  match cacheGet st.cache st.user pubKeyData with
  | some candidate => pure (candidate, st.cache)
  | none => do
    let r ← Traced.ask (env.publicKeyCallback c st.user pubKey) (.publicKey c st.user pubKey)
    if isPartialSuccess (r.err.map AuthError.callback) && env.verifiedPublicKeyCallback.isSome then
      Traced.fail .verifiedPartialSuccess
    else
      let candidate : CachedPubKey C := ⟨st.user, pubKeyData, env.checkedResult r, r.perms⟩
      pure (candidate, cacheAdd st.cache candidate)

/-- A request that asks whether a key would do. -/
def queryAttempt (env : AuthEnv C K) (candidate : CachedPubKey C) (algo pubKeyData payload : Bytes) :
    AuthM C K (Attempt C) :=
  if payload ≠ [] then malformedRequest
  else if candidate.result.isNone || isPartialSuccess candidate.result then do
    env.send (userAuthPubKeyOkMsg.marshal (algo, pubKeyData, ()))
    pure .answered
  else pure (.judged none candidate.result)

/-- A request with a signature. -/
def signedAttempt (env : AuthEnv C K) (cfg : AuthConfig C) (sessionID : Bytes)
    (req : UserAuthRequest) (candidate : CachedPubKey C) (algo pubKeyData : Bytes) (pubKey : K)
    (payload : Bytes) : AuthM C K (Attempt C) :=
  match parseSignature payload with
  | none => malformedRequest
  | some (sig, rest) =>
    if rest ≠ [] then malformedRequest
    else if (algorithmsForKeyFormat (env.keys.type pubKey)).contains algo = false then
      pure (.judged none (some (.keyNotCompatible (env.keys.type pubKey) algo)))
    else if cfg.publicKeyAuthAlgorithms.contains sig.format = false then
      pure (.judged none (some (.algorithmNotAccepted sig.format)))
    else if isAlgoCompatible algo sig.format = false then
      pure (.judged none (some (.signatureNotCompatible sig.format algo)))
    else
      let signedData := buildDataSignedForAuth sessionID req algo pubKeyData
      let pubKeyForVerify :=
        if noTouchAllowed env.keys pubKey candidate.perms then env.keys.skKeyWithoutUP pubKey
        else pubKey
      match env.keys.verify pubKeyForVerify signedData sig with
      | some text => Traced.fail (.signature text)
      | none =>
        match candidate.result, env.verifiedPublicKeyCallback with
        | none, some callback => do
          let r ← Traced.ask (callback req.user pubKey candidate.perms sig.format)
            (.verifiedPublicKey req.user pubKey candidate.perms sig.format)
          pure r.judged
        | result, _ => pure (.judged candidate.perms result)

/-- What becomes of a key that the callback has been asked about. -/
def offeredKey (env : AuthEnv C K) (cfg : AuthConfig C) (sessionID : Bytes)
    (req : UserAuthRequest) (candidate : CachedPubKey C) (isQuery : Bool) (algo pubKeyData : Bytes)
    (pubKey : K) (payload : Bytes) : AuthM C K (Attempt C) :=
  if isQuery then queryAttempt env candidate algo pubKeyData payload
  else signedAttempt env cfg sessionID req candidate algo pubKeyData pubKey payload

/-- The method `publickey`. -/
def publicKeyAttempt (env : AuthEnv C K) (cfg : AuthConfig C) (sessionID : Bytes)
    (st : AuthState C) (req : UserAuthRequest) :
    AuthM C K (Attempt C × List (CachedPubKey C)) :=
  match st.callbacks.publicKey with
  | none => pure (.judged none (some (.notConfigured (str "publickey"))), st.cache)
  | some c =>
    match req.payload with
    | [] => malformedRequest
    | first :: payload =>
      match parseString payload with
      | none => malformedRequest
      | some (algo, payload) =>
        if cfg.publicKeyAuthAlgorithms.contains (underlyingAlgo algo) = false then
          pure (.judged none (some (.algorithmNotAccepted algo)), st.cache)
        else match parseString payload with
          | none => malformedRequest
          | some (pubKeyData, payload) =>
            match env.keys.parsePublicKey pubKeyData with
            | .error text => pure (.judged none (some (.publicKey text)), st.cache)
            | .ok pubKey => do
              let (candidate, cache) ← lookUpKey env st c pubKeyData pubKey
              let attempt ←
                offeredKey env cfg sessionID req candidate (first = 0) algo pubKeyData pubKey payload
              pure (attempt, cache)

/-- `userAuthGSSAPIResponse`, which has the number of another message. -/
def userAuthGSSAPIResponse : Layout where
  name := str "userAuthGSSAPIResponse"
  tags := [60]
  fields := [(str "SupportMech", .bytes)]

/-- `krb5OID`. -/
def krb5OID : Bytes := [0x06, 0x09, 0x2A, 0x86, 0x48, 0x86, 0xF7, 0x12, 0x01, 0x02, 0x02]

/-- The next packet as a message of a layout. -/
def AuthEnv.readAs (env : AuthEnv C K) (L : Layout) (onError : ReadError → AuthFailure C) :
    AuthM C K L.Values := do
  match ← Traced.ask env.readPacket .read with
  | .error e => Traced.fail (onError e)
  | .ok packet =>
    match L.unmarshal packet with
    | .error e => Traced.fail (.wire e)
    | .ok vs => pure vs

def ReadError.failure : ReadError → AuthFailure C
  | .eof => .transport (str "EOF")
  | .other text => .transport text

/-- The method `gssapi-with-mic`. -/
def gssapiAttempt (env : AuthEnv C K) (st : AuthState C) (req : UserAuthRequest) :
    AuthM C K (Attempt C) :=
  match st.callbacks.gssapiWithMIC with
  | none => pure (.judged none (some (.notConfigured (str "gssapi-with-mic"))))
  | some c =>
    match env.parseGSSAPIPayload req.payload with
    | none => malformedRequest
    | some (n, kerberos) =>
      if n = 0 then
        pure (.judged none (some (.gssapi (str "ssh: Mechanism negotiation is not supported"))))
      else if kerberos = false then
        pure (.judged none (some (.gssapi
          (str "ssh: GSSAPI authentication must use the Kerberos V5 mechanism"))))
      else do
        env.send (userAuthGSSAPIResponse.marshal (krb5OID, ()))
        let (token, _) ← env.readAs userAuthGSSAPIToken ReadError.failure
        match ← Traced.ask (env.gssExchangeToken c token req) (.gssExchange c token req) with
        | .broken text => Traced.fail (.transport text)
        | .refused e => pure (.judged none (some (.callback e)))
        | .login r => pure r.judged

/-- The methods by name. -/
def authMethod (env : AuthEnv C K) (cfg : AuthConfig C) (sessionID : Bytes) (st : AuthState C)
    (req : UserAuthRequest) : AuthM C K (Attempt C × List (CachedPubKey C)) :=
  if req.method = str "none" then do pure (← noneAttempt env cfg st, st.cache)
  else if req.method = str "password" then do
    pure (← passwordAttempt env st req.payload, st.cache)
  else if req.method = str "keyboard-interactive" then do
    pure (← keyboardInteractiveAttempt env st, st.cache)
  else if req.method = str "publickey" then publicKeyAttempt env cfg sessionID st req
  else if req.method = str "gssapi-with-mic" then do pure (← gssapiAttempt env st req, st.cache)
  else pure (.judged none (some (.unknownMethod req.method)), st.cache)

/-- The next request, for the service that is authenticated for. -/
def readRequest (env : AuthEnv C K) (st : AuthState C) : AuthM C K UserAuthRequest := do
  let (user, service, method, payload, _) ← env.readAs userAuthRequestMsg fun
    | .eof => .serverAuthError st.authErrs
    | .other text => .transport text
  if service ≠ str "ssh-connection" then Traced.fail (.unknownService service)
  else if st.user ≠ user && st.partialSuccessReturned then
    Traced.fail (.changedUser st.user user)
  else pure ⟨user, service, method, payload⟩

/-- The banner before the first judgement. -/
def showBanner (env : AuthEnv C K) (st : AuthState C) : AuthM C K Unit :=
  match env.bannerCallback with
  | none => pure ()
  | some callback =>
    if st.calledBannerCallback then pure ()
    else do
      let message ← Traced.ask (callback st.user) (.bannerCallback st.user)
      if message ≠ [] then env.sendAuthBanner message else pure ()

/-- The methods that are offered after a failure. -/
def ServerAuthCallbacks.methods (callbacks : ServerAuthCallbacks C) : List Bytes :=
  (if callbacks.password.isSome then [str "password"] else []) ++
    (if callbacks.publicKey.isSome then [str "publickey"] else []) ++
    (if callbacks.keyboardInteractive.isSome then [str "keyboard-interactive"] else []) ++
    (if callbacks.gssapiWithMIC.isSome then [str "gssapi-with-mic"] else [])

/-- The message that answers a rejected request. -/
def sendFailure (env : AuthEnv C K) (st : AuthState C) (partialSuccess : Bool) :
    AuthM C K (AuthState C) :=
  if st.callbacks.methods = [] then Traced.fail .noMethods
  else do
    env.send (userAuthFailureMsg.marshal (st.callbacks.methods, partialSuccess, ()))
    pure st

/-- The state after a rejected request. A partial success replaces the callbacks; any other error
counts as a failure, but for a first attempt with `none`. -/
def afterRejection (st : AuthState C) (method : Bytes) : AuthError C → AuthState C
  | .callback (.partialSuccess next) =>
    { st with partialSuccessReturned := true, callbacks := next, cache := [] }
  | _ =>
    if 0 < st.authFailures ∨ method ≠ str "none" ∨ st.noneAuthCount ≠ 1 then
      { st with authFailures := st.authFailures + 1 }
    else st

/-- What follows a rejected request. Where no failure is left there is no message: the loop
disconnects next. -/
def rejected (env : AuthEnv C K) (cfg : AuthConfig C) (st : AuthState C) (method : Bytes)
    (perms : Option Permissions) (e : AuthError C) : AuthM C K (AuthState C) :=
  let st := afterRejection st method e
  if isPartialSuccess (some e) then
    if perms.isSome then Traced.fail .partialSuccessPermissions
    else sendFailure env st true
  else if 0 < cfg.maxAuthTries ∧ cfg.maxAuthTries ≤ st.authFailures then pure st
  else sendFailure env st false

/-- The message of the `BannerError` in an error. -/
def AuthError.banner : AuthError C → Option Bytes
  | .callback (.other _ banner) => banner
  | _ => none

/-- `AuthLogCallback`. -/
def AuthEnv.logAttempt (env : AuthEnv C K) (user method : Bytes) (err : Option (AuthError C)) :
    AuthM C K Unit :=
  if env.authLogCallback then
    Traced.ask (fun _ => ()) (fun _ => .authLog user method err)
  else pure ()

/-- The banner that goes with an error. -/
def AuthEnv.showErrorBanner (env : AuthEnv C K) (e : AuthError C) : AuthM C K Unit :=
  match e.banner with
  | none => pure ()
  | some message => if message ≠ [] then env.sendAuthBanner message else pure ()

/-- The user that the connection has, and the permissions. -/
structure Login where
  user : Bytes
  perms : Option Permissions

/-- What comes after a judgement: the check of the address, the log, the banner of the error, and
the answer to a rejected request. -/
def conclude (env : AuthEnv C K) (cfg : AuthConfig C) (st : AuthState C) (method : Bytes)
    (perms : Option Permissions) (err : Option (AuthError C)) : AuthM C K (Login ⊕ AuthState C) :=
  let err :=
    if err.isNone then (env.checkSourceAddressCriticalOption perms).map .sourceAddress else err
  do
    env.logAttempt st.user method err
    match err with
    | none => pure (.inl ⟨st.user, perms⟩)
    | some e =>
      env.showErrorBanner e
      let st ← rejected env cfg { st with authErrs := st.authErrs ++ [e] } method perms e
      pure (.inr st)

/-- One request: what was granted, or the state for the next one. -/
def authRound (env : AuthEnv C K) (cfg : AuthConfig C) (sessionID : Bytes) (st : AuthState C) :
    AuthM C K (Login ⊕ AuthState C) := do
  let req ← readRequest env st
  let st := { st with user := req.user }
  showBanner env st
  let st := { st with
    calledBannerCallback := st.calledBannerCallback || env.bannerCallback.isSome
    noneAuthCount := if req.method = str "none" then st.noneAuthCount + 1 else st.noneAuthCount }
  let (attempt, cache) ← authMethod env cfg sessionID st req
  match attempt with
  | .answered => pure (.inr { st with cache := cache })
  | .judged perms err => conclude env cfg { st with cache := cache } req.method perms err

/-- The message that ends the authentication at a limit. -/
def disconnect {α : Type} (env : AuthEnv C K) (st : AuthState C) (message : Bytes) :
    AuthM C K α := do
  env.send (disconnectMsg.marshal (2, message, [], ()))
  Traced.fail (.serverAuthError (st.authErrs ++ [.disconnect message]))

def maxAuthServerAttempts : Nat := 128

/-- `userAuthLoop`, with the number of attempts that are left. -/
def userAuthLoop (env : AuthEnv C K) (cfg : AuthConfig C) (sessionID : Bytes) :
    Nat → AuthState C → AuthM C K Login
  | left, st =>
    if cfg.maxAuthTries ≤ st.authFailures ∧ 0 < cfg.maxAuthTries then
      disconnect env st (str "too many authentication failures")
    else match left with
      | 0 => disconnect env st (str "too many authentication attempts")
      | left + 1 => do
        match ← authRound env cfg sessionID st with
        | .inl login => do
          env.send [52]
          pure login
        | .inr st => userAuthLoop env cfg sessionID left st

/-- The variables of `serverAuthenticate` as they are declared. -/
def AuthState.initial (cfg : AuthConfig C) : AuthState C where
  user := []
  cache := []
  authFailures := 0
  noneAuthCount := 0
  authErrs := []
  calledBannerCallback := false
  partialSuccessReturned := false
  callbacks := cfg.callbacks

/-- `PreAuthConnCallback`. -/
def AuthEnv.preAuth (env : AuthEnv C K) : AuthM C K Unit :=
  if env.preAuthConnCallback then Traced.ask (fun _ => ()) (fun _ => .preAuth) else pure ()

/-- `serverAuthenticate`. -/
def serverAuthenticate (env : AuthEnv C K) (cfg : AuthConfig C) (sessionID : Bytes) :
    AuthM C K Login := do
  env.preAuth
  userAuthLoop env cfg sessionID maxAuthServerAttempts (.initial cfg)

end FakeSSH.Ssh
