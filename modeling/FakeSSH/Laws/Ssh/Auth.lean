import FakeSSH.Laws.Ssh.Messages
import FakeSSH.Ssh.Auth

/-!
# Who gets in

Whatever a client sends and whatever the callbacks answer, a successful authentication goes back
to a request that was read, for one of the reasons that `Granted` lists
(`serverAuthenticate_granted`): a callback that was in force has accepted the user of the request,
with the password that stands in it, or with a key, and then the request has a signature under the
data that `buildDataSignedForAuth` builds of this session's id, this request and this key. The
answer of the callback about a key may come from the cache, where it was put for the same user, key
and callback.

A client has no more guesses at a password than `MaxAuthTries`, and never more than
`maxAuthServerAttempts` (`guesses_bounded`).
-/

namespace FakeSSH.Ssh

open FakeSSH.Go FakeSSH.Lib Traced Relation

variable {C K : Type}

/-! ## Traces -/

/-- The result of a callback, where an event is the call of one. -/
def AuthEvent.result : AuthEvent C K → Option (CallbackResult C)
  | .noClientAuth _ r => some r
  | .password _ _ _ r => some r
  | .keyboardInteractive _ _ r => some r
  | .publicKey _ _ _ r => some r
  | .verifiedPublicKey _ _ _ _ r => some r
  | .gssExchange _ _ _ (.login r) => some r
  | .gssExchange _ _ _ (.refused e) => some ⟨none, some e⟩
  | _ => none

/-- A guess at a secret: a callback is asked that judges one, and no further step is needed. -/
def AuthEvent.isGuess : AuthEvent C K → Bool
  | .password _ _ _ r => !isPartialSuccess (r.err.map .callback)
  | .keyboardInteractive _ _ r => !isPartialSuccess (r.err.map .callback)
  | _ => false

def guesses (t : AuthTrace C K) : Nat := t.countP AuthEvent.isGuess

theorem guesses_concat (t : AuthTrace C K) (e : AuthEvent C K) :
    guesses (t ++ [e]) = guesses t + if e.isGuess then 1 else 0 := by
  rw [guesses, List.countP_append, List.countP_singleton]
  rfl

/-- An event that is not the call of a callback. -/
def AuthEvent.Plain : AuthEvent C K → Prop
  | .noClientAuth _ _ => False
  | .password _ _ _ _ => False
  | .keyboardInteractive _ _ _ => False
  | .publicKey _ _ _ _ => False
  | .verifiedPublicKey _ _ _ _ _ => False
  | .gssExchange _ _ _ _ => False
  | _ => True

theorem AuthEvent.Plain.isGuess_eq_false {e : AuthEvent C K} (h : e.Plain) :
    e.isGuess = false := by
  cases e <;> first | rfl | exact h.elim

/-- No callback was asked in between. -/
def Quiet (t t' : AuthTrace C K) : Prop := Grows (fun _ e => e.Plain) t t'

theorem Quiet.refl (t : AuthTrace C K) : Quiet t t := ReflTransGen.refl

theorem Quiet.trans {t t' t'' : AuthTrace C K} (h : Quiet t t') (h' : Quiet t' t'') :
    Quiet t t'' :=
  ReflTransGen.trans h h'

theorem Quiet.mem {t t' : AuthTrace C K} (h : Quiet t t') {e : AuthEvent C K} (he : e ∈ t) :
    e ∈ t' :=
  (Grows.isPrefix h).subset he

theorem Quiet.guesses_eq {t t' : AuthTrace C K} (h : Quiet t t') : guesses t' = guesses t := by
  induction h with
  | refl => rfl
  | tail _ step ih =>
    obtain ⟨e, plain, rfl⟩ := step
    rw [guesses_concat, plain.isGuess_eq_false, ih]
    rfl

/-! ## Parts that ask no callback -/

/-- A computation that asks no callback, whatever comes of it. -/
def Silent {α : Type} (x : AuthM C K α) : Prop :=
  ∀ t, x.Leads t (fun _ t' => Quiet t t') (fun _ t' => Quiet t t')

theorem Silent.asks {α : Type} {x : AuthM C K α} (h : Silent x) :
    Asks (fun _ e => e.Plain) x := h

section SilentParts

variable {α β : Type} {env : AuthEnv C K}

theorem silent_pure (a : α) : Silent (pure a : AuthM C K α) := asks_pure a

theorem silent_fail (e : AuthFailure C) : Silent (Traced.fail e : AuthM C K α) := asks_fail e

theorem silent_ask {answer : AuthTrace C K → β} {event : β → AuthEvent C K}
    (h : ∀ b, (event b).Plain) : Silent (Traced.ask answer event : AuthM C K β) :=
  asks_ask fun _ => h _

theorem Silent.bind {x : AuthM C K β} {f : β → AuthM C K α} (hx : Silent x)
    (hf : ∀ b, Silent (f b)) : Silent (x >>= f) :=
  Asks.bind hx hf

theorem AuthEnv.silent_send (packet : Bytes) : Silent (env.send packet) := by
  refine Silent.bind (silent_ask ?_) ?_
  · exact fun _ => trivial
  intro err
  cases err with
  | none => exact silent_pure ()
  | some text => exact silent_fail _

/-- What is read as a message is one of the packets in the trace. -/
theorem AuthEnv.readAs_leads (L : Layout) (onError : ReadError → AuthFailure C)
    (t : AuthTrace C K) :
    (env.readAs L onError).Leads t
      (fun vs t' => Quiet t t' ∧ ∃ packet, .read (.ok packet) ∈ t' ∧ L.unmarshal packet = .ok vs)
      (fun _ t' => Quiet t t') := by
  unfold AuthEnv.readAs
  rw [leads_bind, leads_ask]
  generalize env.readPacket t = r
  have quiet : Quiet t (t ++ [.read r]) := .single ⟨.read r, trivial, rfl⟩
  cases r with
  | error e => exact leads_fail.mpr quiet
  | ok packet =>
    dsimp only
    cases read : L.unmarshal packet with
    | error e => exact leads_fail.mpr quiet
    | ok vs => exact leads_pure.mpr ⟨quiet, packet, by simp, read⟩

theorem AuthEnv.silent_readAs (L : Layout) (onError : ReadError → AuthFailure C) :
    Silent (env.readAs L onError) :=
  fun t => (AuthEnv.readAs_leads L onError t).mono (fun _ _ => And.left) fun _ _ => id

/-- A request of the client, for the service that is authenticated for. -/
structure Requested (t : AuthTrace C K) (req : UserAuthRequest) : Prop where
  read : ∃ packet, .read (.ok packet) ∈ t ∧
    userAuthRequestMsg.unmarshal packet = .ok (req.user, req.service, req.method, req.payload, ())
  service : req.service = str "ssh-connection"

theorem Requested.mono {t t' : AuthTrace C K} {req : UserAuthRequest} (h : Requested t req)
    (grows : ∀ e ∈ t, e ∈ t') : Requested t' req := by
  obtain ⟨packet, read, unmarshalled⟩ := h.read
  exact ⟨⟨packet, grows _ read, unmarshalled⟩, h.service⟩

theorem readRequest_leads (st : AuthState C) (t : AuthTrace C K) :
    (readRequest env st).Leads t (fun req t' => Quiet t t' ∧ Requested t' req)
      (fun _ t' => Quiet t t') := by
  refine (AuthEnv.readAs_leads _ _ t).bind ?_ fun _ _ => id
  rintro ⟨user, service, method, payload, ⟨⟩⟩ t' ⟨quiet, read⟩
  dsimp only
  split
  · exact leads_fail.mpr quiet
  rename_i other
  split
  · exact leads_fail.mpr quiet
  · exact leads_pure.mpr ⟨quiet, read, not_not.mp other⟩

theorem silent_readRequest (st : AuthState C) : Silent (readRequest env st) :=
  fun t => (readRequest_leads st t).mono (fun _ _ => And.left) fun _ _ => id

theorem silent_showBanner (st : AuthState C) : Silent (showBanner env st) := by
  unfold showBanner
  split
  · exact silent_pure ()
  split
  · exact silent_pure ()
  refine Silent.bind (silent_ask ?_) ?_
  · exact fun _ => trivial
  intro message
  split
  · exact AuthEnv.silent_send _
  · exact silent_pure ()

theorem AuthEnv.silent_logAttempt (user method : Bytes) (err : Option (AuthError C)) :
    Silent (env.logAttempt user method err) := by
  unfold AuthEnv.logAttempt
  split
  · exact silent_ask fun _ => trivial
  · exact silent_pure ()

theorem AuthEnv.silent_showErrorBanner (e : AuthError C) : Silent (env.showErrorBanner e) := by
  unfold AuthEnv.showErrorBanner
  split
  · exact silent_pure ()
  split
  · exact AuthEnv.silent_send _
  · exact silent_pure ()

theorem AuthEnv.silent_preAuth : Silent env.preAuth := by
  unfold AuthEnv.preAuth
  split
  · exact silent_ask fun _ => trivial
  · exact silent_pure ()

theorem silent_disconnect (st : AuthState C) (message : Bytes) :
    Silent (disconnect env st message : AuthM C K α) :=
  (AuthEnv.silent_send _).bind fun _ => silent_fail _

end SilentParts

/-! ## What is granted, and why -/

/-- The callbacks of the configuration, or those that a partial success has handed over. -/
def InForce (cfg : AuthConfig C) (t : AuthTrace C K) (callbacks : ServerAuthCallbacks C) : Prop :=
  callbacks = cfg.callbacks ∨
    ∃ e ∈ t, ∃ perms, e.result = some ⟨perms, some (.partialSuccess callbacks)⟩

/-- A request to log in with a password. -/
structure PasswordRequest (req : UserAuthRequest) (password : Bytes) : Prop where
  method : req.method = str "password"
  payload : ∃ rest, req.payload = 0 :: rest ∧ parseString rest = some (password, [])

/-- A request to log in with a key: it has the name of an algorithm, a key and a signature. -/
structure SignedRequest (req : UserAuthRequest) (algo keyData : Bytes) (sig : Signature) :
    Prop where
  method : req.method = str "publickey"
  payload : ∃ first rest rest' rest'', req.payload = first :: rest ∧ first ≠ 0 ∧
    parseString rest = some (algo, rest') ∧ parseString rest' = some (keyData, rest'') ∧
    parseSignature rest'' = some (sig, [])

/-- The signature in a request is the key's, under the data that the client has to sign for this
request in this session, with algorithms that are configured and fit the key. -/
structure Signed (env : AuthEnv C K) (cfg : AuthConfig C) (sessionID : Bytes)
    (req : UserAuthRequest) (key : K) (perms : Option Permissions) (algo keyData : Bytes)
    (sig : Signature) : Prop where
  request : SignedRequest req algo keyData sig
  parsed : env.keys.parsePublicKey keyData = .ok key
  fitsKey : (algorithmsForKeyFormat (env.keys.type key)).contains algo = true
  algoAccepted : cfg.publicKeyAuthAlgorithms.contains (underlyingAlgo algo) = true
  formatAccepted : cfg.publicKeyAuthAlgorithms.contains sig.format = true
  compatible : isAlgoCompatible algo sig.format = true
  verified :
    env.keys.verify (if noTouchAllowed env.keys key perms then env.keys.skKeyWithoutUP key else key)
      (buildDataSignedForAuth sessionID req algo keyData) sig = none

/-- In which ways a request can have got permissions. -/
inductive Granted (env : AuthEnv C K) (cfg : AuthConfig C) (sessionID : Bytes)
    (t : AuthTrace C K) (req : UserAuthRequest) : Option Permissions → Prop
  | unasked : req.method = str "none" → cfg.noClientAuth = true →
      env.noClientAuthCallback = none → Granted env cfg sessionID t req none
  | noClientAuth (perms : Option Permissions) : req.method = str "none" →
      cfg.noClientAuth = true → .noClientAuth req.user ⟨perms, none⟩ ∈ t →
      Granted env cfg sessionID t req perms
  | password (callbacks : ServerAuthCallbacks C) (c : C) (password : Bytes)
      (perms : Option Permissions) : InForce cfg t callbacks → callbacks.password = some c →
      PasswordRequest req password → .password c req.user password ⟨perms, none⟩ ∈ t →
      Granted env cfg sessionID t req perms
  | keyboardInteractive (callbacks : ServerAuthCallbacks C) (c : C) (perms : Option Permissions) :
      InForce cfg t callbacks → callbacks.keyboardInteractive = some c →
      req.method = str "keyboard-interactive" → .keyboardInteractive c req.user ⟨perms, none⟩ ∈ t →
      Granted env cfg sessionID t req perms
  | publicKey (callbacks : ServerAuthCallbacks C) (c : C) (key : K) (perms : Option Permissions)
      (algo keyData : Bytes) (sig : Signature) : InForce cfg t callbacks →
      callbacks.publicKey = some c → .publicKey c req.user key ⟨perms, none⟩ ∈ t →
      Signed env cfg sessionID req key perms algo keyData sig →
      env.verifiedPublicKeyCallback = none → Granted env cfg sessionID t req perms
  | verifiedPublicKey (callbacks : ServerAuthCallbacks C) (c : C) (key : K)
      (perms perms' : Option Permissions) (algo keyData : Bytes) (sig : Signature) :
      InForce cfg t callbacks → callbacks.publicKey = some c →
      .publicKey c req.user key ⟨perms, none⟩ ∈ t →
      Signed env cfg sessionID req key perms algo keyData sig →
      .verifiedPublicKey req.user key perms sig.format ⟨perms', none⟩ ∈ t →
      Granted env cfg sessionID t req perms'
  | gssapi (callbacks : ServerAuthCallbacks C) (c : C) (token : Bytes)
      (perms : Option Permissions) : InForce cfg t callbacks →
      callbacks.gssapiWithMIC = some c → req.method = str "gssapi-with-mic" →
      .gssExchange c token req (.login ⟨perms, none⟩) ∈ t → Granted env cfg sessionID t req perms

/-- Why a login is right: a request of its user was granted, from an address that the permissions
allow. -/
structure Admitted (env : AuthEnv C K) (cfg : AuthConfig C) (sessionID : Bytes)
    (t : AuthTrace C K) (login : Login) : Prop where
  request : ∃ req, Requested t req ∧ req.user = login.user ∧
    Granted env cfg sessionID t req login.perms
  address : env.checkSourceAddressCriticalOption login.perms = none

/-- Each answer in the cache was given by the callback in force, for that user and key. -/
def CacheSound (env : AuthEnv C K) (callbacks : ServerAuthCallbacks C)
    (cache : List (CachedPubKey C)) (t : AuthTrace C K) : Prop :=
  ∀ k ∈ cache, ∃ c key r, callbacks.publicKey = some c ∧
    env.keys.parsePublicKey k.pubKeyData = .ok key ∧ .publicKey c k.user key r ∈ t ∧
    k.perms = r.perms ∧ (k.result = none → r.err = none) ∧
    ∀ next, k.result = some (.callback (.partialSuccess next)) → r.err = some (.partialSuccess next)

/-- Why a request is judged as it is, where it is accepted or partly so. -/
structure Justified (env : AuthEnv C K) (cfg : AuthConfig C) (sessionID : Bytes)
    (t : AuthTrace C K) (req : UserAuthRequest) (perms : Option Permissions)
    (err : Option (AuthError C)) : Prop where
  granted : err = none → Granted env cfg sessionID t req perms
  handed : ∀ next, err = some (.callback (.partialSuccess next)) → InForce cfg t next

variable {env : AuthEnv C K} {cfg : AuthConfig C} {sessionID user : Bytes}
  {t t' : AuthTrace C K} {req : UserAuthRequest}

theorem InForce.mono {callbacks : ServerAuthCallbacks C} (h : InForce cfg t callbacks)
    (grows : ∀ e ∈ t, e ∈ t') : InForce cfg t' callbacks := by
  rcases h with same | ⟨e, he, handed⟩
  · exact .inl same
  · exact .inr ⟨e, grows e he, handed⟩

theorem CacheSound.mono {callbacks : ServerAuthCallbacks C} {cache : List (CachedPubKey C)}
    (h : CacheSound env callbacks cache t) (grows : ∀ e ∈ t, e ∈ t') :
    CacheSound env callbacks cache t' := by
  intro k hk
  obtain ⟨c, key, r, force, parsed, asked, rest⟩ := h k hk
  exact ⟨c, key, r, force, parsed, grows _ asked, rest⟩

theorem Granted.mono {perms : Option Permissions} (h : Granted env cfg sessionID t req perms)
    (grows : ∀ e ∈ t, e ∈ t') : Granted env cfg sessionID t' req perms := by
  cases h with
  | unasked method allowed none => exact .unasked method allowed none
  | noClientAuth _ method allowed asked => exact .noClientAuth _ method allowed (grows _ asked)
  | password callbacks c pw _ force known typed asked =>
    exact .password callbacks c pw _ (force.mono grows) known typed (grows _ asked)
  | keyboardInteractive callbacks c _ force known method asked =>
    exact .keyboardInteractive callbacks c _ (force.mono grows) known method (grows _ asked)
  | publicKey callbacks c key _ algo keyData sig force known asked signed none =>
    exact .publicKey callbacks c key _ algo keyData sig (force.mono grows) known (grows _ asked)
      signed none
  | verifiedPublicKey callbacks c key perms _ algo keyData sig force known asked signed verified =>
    exact .verifiedPublicKey callbacks c key perms _ algo keyData sig (force.mono grows) known
      (grows _ asked) signed (grows _ verified)
  | gssapi callbacks c token _ force known method asked =>
    exact .gssapi callbacks c token _ (force.mono grows) known method (grows _ asked)

theorem Admitted.mono {login : Login} (h : Admitted env cfg sessionID t login)
    (grows : ∀ e ∈ t, e ∈ t') : Admitted env cfg sessionID t' login := by
  obtain ⟨req, requested, same, granted⟩ := h.request
  exact ⟨⟨req, requested.mono grows, same, granted.mono grows⟩, h.address⟩

theorem Justified.mono {perms : Option Permissions} {err : Option (AuthError C)}
    (h : Justified env cfg sessionID t req perms err) (grows : ∀ e ∈ t, e ∈ t') :
    Justified env cfg sessionID t' req perms err :=
  ⟨fun none => (h.granted none).mono grows, fun next same => (h.handed next same).mono grows⟩

/-- A rejection that is no partial success needs no reason. -/
theorem justified_of_error {perms : Option Permissions} {e : AuthError C}
    (h : isPartialSuccess (some e) = false) :
    Justified env cfg sessionID t req perms (some e) := by
  refine ⟨(fun none => by cases none), fun next same => ?_⟩
  cases Option.some.inj same
  cases h

/-- What a callback returned, with the way in which it grants. -/
theorem justified_of_result {r : CallbackResult C} {e : AuthEvent C K} (he : e ∈ t)
    (result : e.result = some r)
    (grants : r.err = none → Granted env cfg sessionID t req r.perms) :
    Justified env cfg sessionID t req r.perms (r.err.map .callback) := by
  refine ⟨fun none => grants (Option.map_eq_none_iff.mp none), fun next same => ?_⟩
  obtain ⟨err, herr, same⟩ := Option.map_eq_some_iff.mp same
  cases same
  refine .inr ⟨e, he, r.perms, ?_⟩
  rw [result, ← herr]

/-! ## The methods -/

/-- What a method makes of a request, between two traces: its judgement has a reason, and it asked
for at most one guess, which it then judged. -/
structure Judges (env : AuthEnv C K) (cfg : AuthConfig C) (sessionID : Bytes)
    (req : UserAuthRequest) (t : AuthTrace C K) (a : Attempt C) (t' : AuthTrace C K) : Prop where
  grows : ∀ e ∈ t, e ∈ t'
  justified : ∀ perms err, a = .judged perms err →
    Justified env cfg sessionID t' req perms err
  counted : guesses t' = guesses t ∨ guesses t' = guesses t + 1 ∧ req.method ≠ str "none" ∧
    ∃ perms err, a = .judged perms err ∧ isPartialSuccess err = false

section Methods

variable {st : AuthState C} {α : Type}

/-- What is judged after a part that asked for no guess. -/
theorem Judges.after {t₁ : AuthTrace C K} {a : Attempt C}
    (h : Judges env cfg sessionID req t₁ a t') (grows : ∀ e ∈ t, e ∈ t₁)
    (counted : guesses t₁ = guesses t) : Judges env cfg sessionID req t a t' :=
  ⟨fun e he => h.grows e (grows e he), h.justified, counted ▸ h.counted⟩

theorem judges_answered (quiet : Quiet t t') :
    Judges env cfg sessionID req t .answered t' :=
  ⟨fun _ => quiet.mem, (fun _ _ h => by cases h), .inl quiet.guesses_eq⟩

theorem judges_error {perms : Option Permissions} {e : AuthError C} (quiet : Quiet t t')
    (h : isPartialSuccess (some e) = false) :
    Judges env cfg sessionID req t (.judged perms (some e)) t' := by
  refine ⟨fun _ => quiet.mem, fun perms' err same => ?_, .inl quiet.guesses_eq⟩
  cases same
  exact justified_of_error h

/-- A callback that judges no secret is asked. -/
theorem judges_result {r : CallbackResult C} {e : AuthEvent C K} (quiet : Quiet t t')
    (result : e.result = some r) (noGuess : e.isGuess = false)
    (grants : r.err = none → Granted env cfg sessionID (t' ++ [e]) req r.perms) :
    Judges env cfg sessionID req t r.judged (t' ++ [e]) := by
  refine ⟨fun _ he => List.mem_append_left _ (quiet.mem he), fun perms err same => ?_, .inl ?_⟩
  · cases same
    exact justified_of_result (List.mem_append_right _ (List.mem_singleton_self e)) result grants
  · rw [guesses_concat, noGuess, quiet.guesses_eq]
    rfl

/-- A callback that judges a secret is asked. -/
theorem judges_guess {r : CallbackResult C} {e : AuthEvent C K} (result : e.result = some r)
    (guess : e.isGuess = !isPartialSuccess (r.err.map .callback)) (some : req.method ≠ str "none")
    (grants : r.err = none → Granted env cfg sessionID (t ++ [e]) req r.perms) :
    Judges env cfg sessionID req t r.judged (t ++ [e]) := by
  refine ⟨fun _ => List.mem_append_left _, fun perms err same => ?_, ?_⟩
  · cases same
    exact justified_of_result (List.mem_append_right _ (List.mem_singleton_self e)) result grants
  · rw [guesses_concat, guess]
    cases h : isPartialSuccess (r.err.map .callback) with
    | true => exact .inl rfl
    | false => exact .inr ⟨rfl, some, _, _, rfl, h⟩

theorem mem_concat_self (t : AuthTrace C K) (e : AuthEvent C K) : e ∈ t ++ [e] :=
  List.mem_append_right _ (List.mem_singleton_self e)

theorem CallbackResult.eq_of_err {r : CallbackResult C} (h : r.err = none) :
    r = ⟨r.perms, none⟩ := by
  rw [← h]

theorem noneAttempt_judges (t : AuthTrace C K) (same : st.user = req.user)
    (method : req.method = str "none") : (noneAttempt env cfg st).Leads t
    (Judges env cfg sessionID req t) (fun _ t' => guesses t' = guesses t) := by
  unfold noneAttempt
  split
  · rename_i allowed
    rw [Bool.and_eq_true] at allowed
    split
    · rw [leads_bind, leads_ask, leads_pure]
      refine judges_result (Quiet.refl t) rfl rfl fun accepted => ?_
      refine .noClientAuth _ method allowed.1 ?_
      rw [← same, ← CallbackResult.eq_of_err accepted]
      exact mem_concat_self _ _
    · rename_i none
      rw [leads_pure]
      refine ⟨fun _ => id, fun perms err same => ?_, .inl rfl⟩
      cases same
      exact ⟨fun _ => .unasked method allowed.1 none, (fun _ h => by cases h)⟩
  · exact leads_pure.mpr (judges_error (Quiet.refl t) rfl)

theorem passwordAttempt_judges (same : st.user = req.user) (method : req.method = str "password")
    (force : InForce cfg t st.callbacks) : (passwordAttempt env st req.payload).Leads t
    (Judges env cfg sessionID req t) (fun _ t' => guesses t' = guesses t) := by
  unfold passwordAttempt
  split
  · exact leads_pure.mpr (judges_error (Quiet.refl t) rfl)
  rename_i c known
  split
  · exact leads_fail.mpr rfl
  rename_i first payload whole
  split
  · exact leads_fail.mpr rfl
  rename_i unchanged
  split
  · exact leads_fail.mpr rfl
  rename_i password rest parsed
  split
  · exact leads_fail.mpr rfl
  rename_i read
  obtain rfl := not_not.mp unchanged
  obtain rfl := not_not.mp read
  rw [leads_bind, leads_ask, leads_pure]
  refine judges_guess rfl rfl (by rw [method]; decide) fun accepted => ?_
  refine .password st.callbacks c password _ (force.mono fun _ => List.mem_append_left _) known
    ⟨method, payload, whole, parsed⟩ ?_
  rw [← same, ← CallbackResult.eq_of_err accepted]
  exact mem_concat_self _ _

theorem keyboardInteractiveAttempt_judges (same : st.user = req.user)
    (method : req.method = str "keyboard-interactive") (force : InForce cfg t st.callbacks) :
    (keyboardInteractiveAttempt env st).Leads t (Judges env cfg sessionID req t)
      (fun _ t' => guesses t' = guesses t) := by
  unfold keyboardInteractiveAttempt
  split
  · exact leads_pure.mpr (judges_error (Quiet.refl t) rfl)
  rename_i c known
  rw [leads_bind, leads_ask, leads_pure]
  refine judges_guess rfl rfl (by rw [method]; decide) fun accepted => ?_
  refine .keyboardInteractive st.callbacks c _ (force.mono fun _ => List.mem_append_left _) known
    method ?_
  rw [← same, ← CallbackResult.eq_of_err accepted]
  exact mem_concat_self _ _

theorem gssapiAttempt_judges (method : req.method = str "gssapi-with-mic")
    (force : InForce cfg t st.callbacks) :
    (gssapiAttempt env st req).Leads t (Judges env cfg sessionID req t)
      (fun _ t' => guesses t' = guesses t) := by
  unfold gssapiAttempt
  split
  · exact leads_pure.mpr (judges_error (Quiet.refl t) rfl)
  rename_i c known
  split
  · exact leads_fail.mpr rfl
  split
  · exact leads_pure.mpr (judges_error (Quiet.refl t) rfl)
  split
  · exact leads_pure.mpr (judges_error (Quiet.refl t) rfl)
  apply (AuthEnv.silent_send _ t).bind _ fun _ _ quiet => quiet.guesses_eq
  intro _ t₁ sent
  apply (AuthEnv.silent_readAs _ _ t₁).bind _ fun _ _ quiet => (sent.trans quiet).guesses_eq
  rintro ⟨token, -⟩ t₂ read
  have quiet := sent.trans read
  rw [leads_bind, leads_ask]
  generalize result : env.gssExchangeToken c token req t₂ = r
  cases r with
  | broken text =>
    refine leads_fail.mpr ?_
    rw [guesses_concat]
    exact quiet.guesses_eq
  | refused e =>
    exact leads_pure.mpr (judges_result (r := ⟨none, some e⟩) quiet rfl rfl fun h => by cases h)
  | login r =>
    refine leads_pure.mpr (judges_result quiet rfl rfl fun accepted => ?_)
    refine .gssapi st.callbacks c token _
      (force.mono fun _ he => List.mem_append_left _ (quiet.mem he)) known method ?_
    rw [← CallbackResult.eq_of_err accepted]
    exact mem_concat_self _ _

/-! ### Public keys -/

/-- What is known of a candidate: its answer was given for this user and this key. -/
def Candidate (callbacks : ServerAuthCallbacks C) (user : Bytes) (key : K) (t : AuthTrace C K)
    (candidate : CachedPubKey C) : Prop :=
  ∃ c r, callbacks.publicKey = some c ∧ .publicKey c user key r ∈ t ∧ candidate.perms = r.perms ∧
    (candidate.result = none → r.err = none) ∧
    ∀ next, candidate.result = some (.callback (.partialSuccess next)) →
      r.err = some (.partialSuccess next)

theorem cacheSound_add {callbacks : ServerAuthCallbacks C} {cache : List (CachedPubKey C)}
    {k : CachedPubKey C} {key : K} (sound : CacheSound env callbacks cache t)
    (parsed : env.keys.parsePublicKey k.pubKeyData = .ok key)
    (new : Candidate callbacks k.user key t k) :
    CacheSound env callbacks (cacheAdd cache k) t := by
  intro k' hk
  rcases List.mem_append.mp hk with old | added
  · apply sound
    split at old
    · exact List.mem_of_mem_drop old
    · exact old
  · rw [List.mem_singleton.mp added]
    obtain ⟨c, r, known, asked, rest⟩ := new
    exact ⟨c, key, r, known, parsed, asked, rest⟩

theorem CacheSound.get {callbacks : ServerAuthCallbacks C} {cache : List (CachedPubKey C)}
    {k : CachedPubKey C} {pubKeyData : Bytes} {key : K} (sound : CacheSound env callbacks cache t)
    (found : cacheGet cache user pubKeyData = some k)
    (parsed : env.keys.parsePublicKey pubKeyData = .ok key) :
    Candidate callbacks user key t k := by
  obtain ⟨c, key', r, known, parsed', asked, rest⟩ := sound k (List.mem_of_find?_eq_some found)
  have same := List.find?_some found
  rw [Bool.and_eq_true, decide_eq_true_iff, decide_eq_true_iff] at same
  rw [same.2, parsed] at parsed'
  rw [same.1, ← Except.ok.inj parsed'] at asked
  exact ⟨c, r, known, asked, rest⟩

theorem AuthEnv.checkedResult_none {r : CallbackResult C} (h : env.checkedResult r = none) :
    r.err = none := by
  unfold AuthEnv.checkedResult at h
  dsimp only at h
  split at h
  · split at h
    · cases h
    · exact Option.map_eq_none_iff.mp h
  · exact Option.map_eq_none_iff.mp h

theorem AuthEnv.checkedResult_partialSuccess {r : CallbackResult C}
    {next : ServerAuthCallbacks C}
    (h : env.checkedResult r = some (.callback (.partialSuccess next))) :
    r.err = some (.partialSuccess next) := by
  have unmapped : r.err.map AuthError.callback = some (.callback (.partialSuccess next)) →
      r.err = some (.partialSuccess next) := by
    intro mapped
    obtain ⟨e, he, same⟩ := Option.map_eq_some_iff.mp mapped
    cases same
    exact he
  unfold AuthEnv.checkedResult at h
  dsimp only at h
  split at h
  · split at h
    · cases h
    · exact unmapped h
  · exact unmapped h

theorem lookUpKey_leads {c : C} {pubKeyData : Bytes} {key : K}
    (known : st.callbacks.publicKey = some c)
    (parsed : env.keys.parsePublicKey pubKeyData = .ok key)
    (sound : CacheSound env st.callbacks st.cache t) :
    (lookUpKey env st c pubKeyData key).Leads t
      (fun p t' => (∀ e ∈ t, e ∈ t') ∧ guesses t' = guesses t ∧
        CacheSound env st.callbacks p.2 t' ∧ Candidate st.callbacks st.user key t' p.1)
      (fun _ t' => guesses t' = guesses t) := by
  unfold lookUpKey
  split
  · rename_i candidate found
    exact leads_pure.mpr ⟨fun _ => id, rfl, sound, sound.get found parsed⟩
  · rw [leads_bind, leads_ask]
    generalize env.publicKeyCallback c st.user key t = r
    have same : guesses (t ++ [AuthEvent.publicKey c st.user key r]) = guesses t :=
      guesses_concat t _
    split
    · exact leads_fail.mpr same
    · rw [leads_pure]
      have candidate : Candidate st.callbacks st.user key
          (t ++ [AuthEvent.publicKey c st.user key r])
          ⟨st.user, pubKeyData, env.checkedResult r, r.perms⟩ :=
        ⟨c, r, known, mem_concat_self _ _, rfl, AuthEnv.checkedResult_none,
          fun _ => AuthEnv.checkedResult_partialSuccess⟩
      refine ⟨fun _ => List.mem_append_left _, same, ?_, candidate⟩
      exact cacheSound_add (sound.mono fun _ => List.mem_append_left _) parsed candidate

/-- A candidate that is accepted or partly so has been accepted by the callback. -/
theorem Candidate.justified {candidate : CachedPubKey C} {key : K} {algo keyData : Bytes}
    {sig : Signature} (h : Candidate st.callbacks req.user key t candidate)
    (force : InForce cfg t st.callbacks)
    (signed : Signed env cfg sessionID req key candidate.perms algo keyData sig)
    (unverified : candidate.result = none → env.verifiedPublicKeyCallback = none) :
    Justified env cfg sessionID t req candidate.perms candidate.result := by
  obtain ⟨c, r, known, asked, perms, accepted, handed⟩ := h
  refine ⟨fun none => ?_, fun next same => .inr ⟨_, asked, r.perms, ?_⟩⟩
  · refine .publicKey st.callbacks c key _ algo keyData sig force known ?_ signed (unverified none)
    rw [perms, ← CallbackResult.eq_of_err (accepted none)]
    exact asked
  · rw [← handed next same]
    rfl

theorem queryAttempt_judges {candidate : CachedPubKey C} {algo pubKeyData payload : Bytes} :
    (queryAttempt env candidate algo pubKeyData payload).Leads t
      (Judges env cfg sessionID req t) (fun _ t' => guesses t' = guesses t) := by
  unfold queryAttempt
  split
  · exact leads_fail.mpr rfl
  split
  · apply (AuthEnv.silent_send _ t).bind _ fun _ _ quiet => quiet.guesses_eq
    intro _ t' quiet
    exact leads_pure.mpr (judges_answered quiet)
  · rename_i refused
    rw [Bool.or_eq_true, not_or] at refused
    cases h : candidate.result with
    | none => exact absurd (by rw [h]; rfl) refused.1
    | some e =>
      rw [h] at refused
      exact leads_pure.mpr (judges_error (Quiet.refl t) (Bool.eq_false_of_not_eq_true refused.2))

theorem signedAttempt_judges {candidate : CachedPubKey C} {algo pubKeyData payload : Bytes}
    {key : K}
    (request : ∀ sig, parseSignature payload = some (sig, []) →
      SignedRequest req algo pubKeyData sig)
    (h : Candidate st.callbacks req.user key t candidate) (force : InForce cfg t st.callbacks)
    (parsed : env.keys.parsePublicKey pubKeyData = .ok key)
    (algoAccepted : cfg.publicKeyAuthAlgorithms.contains (underlyingAlgo algo) = true) :
    (signedAttempt env cfg sessionID req candidate algo pubKeyData key payload).Leads t
      (Judges env cfg sessionID req t) (fun _ t' => guesses t' = guesses t) := by
  unfold signedAttempt
  split
  · exact leads_fail.mpr rfl
  rename_i sig rest hsig
  split
  · exact leads_fail.mpr rfl
  rename_i read
  obtain rfl := not_not.mp read
  split
  · exact leads_pure.mpr (judges_error (Quiet.refl t) rfl)
  rename_i fitsKey
  split
  · exact leads_pure.mpr (judges_error (Quiet.refl t) rfl)
  rename_i formatAccepted
  split
  · exact leads_pure.mpr (judges_error (Quiet.refl t) rfl)
  rename_i compatible
  dsimp only
  split
  · exact leads_fail.mpr rfl
  rename_i verified
  have signed : Signed env cfg sessionID req key candidate.perms algo pubKeyData sig :=
    ⟨request sig hsig, parsed, Bool.eq_true_of_not_eq_false fitsKey, algoAccepted,
      Bool.eq_true_of_not_eq_false formatAccepted, Bool.eq_true_of_not_eq_false compatible,
      verified⟩
  split
  · rename_i callback accepted _
    rw [leads_bind, leads_ask, leads_pure]
    refine judges_result (Quiet.refl t) rfl rfl fun confirmed => ?_
    obtain ⟨c, r, known, asked, perms, callbackAccepted, -⟩ := h
    refine .verifiedPublicKey st.callbacks c key candidate.perms _ algo pubKeyData sig
      (force.mono fun _ => List.mem_append_left _) known ?_ signed ?_
    · rw [perms, ← CallbackResult.eq_of_err (callbackAccepted accepted)]
      exact List.mem_append_left _ asked
    · rw [← CallbackResult.eq_of_err confirmed]
      exact mem_concat_self _ _
  · rename_i otherwise
    rw [leads_pure]
    refine ⟨fun _ => id, fun perms err same => ?_, .inl rfl⟩
    cases same
    apply h.justified force signed
    intro accepted
    cases hv : env.verifiedPublicKeyCallback with
    | none => rfl
    | some callback => exact absurd hv (otherwise callback accepted)

theorem publicKeyAttempt_judges (same : st.user = req.user)
    (method : req.method = str "publickey") (force : InForce cfg t st.callbacks)
    (sound : CacheSound env st.callbacks st.cache t) :
    (publicKeyAttempt env cfg sessionID st req).Leads t
      (fun p t' => Judges env cfg sessionID req t p.1 t' ∧
        CacheSound env st.callbacks p.2 t')
      (fun _ t' => guesses t' = guesses t) := by
  have refused (e : AuthError C) (h : isPartialSuccess (some e) = false) :
      (pure (.judged none (some e), st.cache) :
        AuthM C K (Attempt C × List (CachedPubKey C))).Leads t
      (fun p t' => Judges env cfg sessionID req t p.1 t' ∧
        CacheSound env st.callbacks p.2 t')
      (fun _ t' => guesses t' = guesses t) :=
    leads_pure.mpr ⟨judges_error (Quiet.refl t) h, sound⟩
  unfold publicKeyAttempt
  split
  · exact refused _ rfl
  rename_i c known
  split
  · exact leads_fail.mpr rfl
  rename_i first afterFirst whole
  split
  · exact leads_fail.mpr rfl
  rename_i algo afterAlgo algoRead
  split
  · exact refused _ rfl
  rename_i algoAccepted
  split
  · exact leads_fail.mpr rfl
  rename_i pubKeyData payload keyRead
  split
  · exact refused _ rfl
  rename_i pubKey parsed
  apply (lookUpKey_leads known parsed sound).bind _ fun _ _ => id
  rintro ⟨candidate, cache⟩ t₁ ⟨grows, counted, cached, candidateOf⟩
  rw [same] at candidateOf
  have forceNow := force.mono grows
  have attempt : (offeredKey env cfg sessionID req candidate (first = 0) algo pubKeyData pubKey
      payload).Leads t₁ (Judges env cfg sessionID req t₁)
      (fun _ t' => guesses t' = guesses t₁) := by
    unfold offeredKey
    split
    · exact queryAttempt_judges
    · rename_i signing
      refine signedAttempt_judges (fun sig sigRead => ⟨method, ?_⟩) candidateOf forceNow parsed
        (Bool.eq_true_of_not_eq_false algoAccepted)
      have signing : first ≠ 0 := fun query => signing (decide_eq_true query)
      exact ⟨first, afterFirst, afterAlgo, payload, whole, signing, algoRead, keyRead, sigRead⟩
  apply attempt.bind _ fun _ _ => counted.symm ▸ id
  intro a t₂ judges
  exact leads_pure.mpr ⟨judges.after grows counted, cached.mono judges.grows⟩

theorem authMethod_judges (same : st.user = req.user)
    (force : InForce cfg t st.callbacks) (sound : CacheSound env st.callbacks st.cache t) :
    (authMethod env cfg sessionID st req).Leads t
      (fun p t' => Judges env cfg sessionID req t p.1 t' ∧
        CacheSound env st.callbacks p.2 t')
      (fun _ t' => guesses t' = guesses t) := by
  have cached {x : AuthM C K (Attempt C)} (hx : x.Leads t
      (Judges env cfg sessionID req t) (fun _ t' => guesses t' = guesses t)) :
      (x >>= fun attempt => pure (attempt, st.cache)).Leads t
        (fun p t' => Judges env cfg sessionID req t p.1 t' ∧
          CacheSound env st.callbacks p.2 t')
        (fun _ t' => guesses t' = guesses t) := by
    apply hx.bind _ fun _ _ => id
    intro a t' judges
    exact leads_pure.mpr ⟨judges, sound.mono judges.grows⟩
  unfold authMethod
  split
  · rename_i method
    exact cached (noneAttempt_judges t same method)
  split
  · rename_i method
    exact cached (passwordAttempt_judges same method force)
  split
  · rename_i method
    exact cached (keyboardInteractiveAttempt_judges same method force)
  split
  · rename_i method
    exact publicKeyAttempt_judges same method force sound
  split
  · rename_i method
    exact cached (gssapiAttempt_judges method force)
  · exact leads_pure.mpr ⟨judges_error (Quiet.refl t) rfl, sound⟩

end Methods

/-! ## The loop -/

/-- What holds before each request. -/
structure AuthInv (env : AuthEnv C K) (cfg : AuthConfig C) (st : AuthState C)
    (t : AuthTrace C K) : Prop where
  force : InForce cfg t st.callbacks
  cached : CacheSound env st.callbacks st.cache t
  counted : guesses t ≤ st.authFailures

theorem sendFailure_leads (st : AuthState C) (partialSuccess : Bool) :
    (sendFailure env st partialSuccess).Leads t (fun st' t' => st' = st ∧ Quiet t t')
      (fun _ t' => Quiet t t') := by
  unfold sendFailure
  split
  · exact leads_fail.mpr (Quiet.refl t)
  · apply (AuthEnv.silent_send _ t).bind _ fun _ _ => id
    intro _ t' quiet
    exact leads_pure.mpr ⟨rfl, quiet⟩

theorem rejected_leads (st : AuthState C) (method : Bytes) (perms : Option Permissions)
    (e : AuthError C) :
    (rejected env cfg st method perms e).Leads t
      (fun st' t' => st' = afterRejection st method e ∧ Quiet t t') (fun _ t' => Quiet t t') := by
  unfold rejected
  dsimp only
  split
  · split
    · exact leads_fail.mpr (Quiet.refl t)
    · exact sendFailure_leads _ _
  split
  · exact leads_pure.mpr ⟨rfl, Quiet.refl t⟩
  · exact sendFailure_leads _ _

theorem silent_rejected (st : AuthState C) (method : Bytes) (perms : Option Permissions)
    (e : AuthError C) : Silent (rejected env cfg st method perms e) :=
  fun _ => (rejected_leads st method perms e).mono (fun _ _ => And.right) fun _ _ => id

theorem silent_conclude (st : AuthState C) (method : Bytes)
    (perms : Option Permissions) (err : Option (AuthError C)) :
    Silent (conclude env cfg st method perms err) := by
  apply Silent.bind (AuthEnv.silent_logAttempt _ _ _)
  intro _
  split
  · exact silent_pure _
  · apply Silent.bind (AuthEnv.silent_showErrorBanner _)
    exact fun _ => (silent_rejected _ _ _ _).bind fun _ => silent_pure _

/-- A partial success puts its callbacks in force; any other rejection counts, where a guess was
made. -/
theorem afterRejection_inv (st : AuthState C) {method : Bytes} {e : AuthError C}
    (force : InForce cfg t st.callbacks) (cached : CacheSound env st.callbacks st.cache t)
    (handed : ∀ next, e = .callback (.partialSuccess next) → InForce cfg t next)
    (counted : guesses t ≤ st.authFailures ∨ guesses t ≤ st.authFailures + 1 ∧
      method ≠ str "none" ∧ isPartialSuccess (some e) = false) :
    AuthInv env cfg (afterRejection st method e) t := by
  unfold afterRejection
  split
  · rename_i next
    refine ⟨handed next rfl, fun _ h => absurd h List.not_mem_nil, ?_⟩
    rcases counted with few | ⟨-, -, never⟩
    · exact few
    · cases never
  split
  · refine ⟨force, cached, ?_⟩
    rcases counted with few | ⟨few, -⟩
    · exact Nat.le_succ_of_le few
    · exact few
  · rename_i free
    refine ⟨force, cached, ?_⟩
    rcases counted with few | ⟨-, some, -⟩
    · exact few
    · exact absurd (.inr (.inl some)) free

theorem conclude_leads {st : AuthState C} {perms : Option Permissions}
    {err : Option (AuthError C)} (same : st.user = req.user) (requested : Requested t req)
    (force : InForce cfg t st.callbacks) (cached : CacheSound env st.callbacks st.cache t)
    (justified : Justified env cfg sessionID t req perms err)
    (counted : guesses t ≤ st.authFailures ∨ guesses t ≤ st.authFailures + 1 ∧
      req.method ≠ str "none" ∧ isPartialSuccess err = false) :
    (conclude env cfg st req.method perms err).Leads t
      (fun r t' => Quiet t t' ∧
        (∀ login, r = .inl login → Admitted env cfg sessionID t' login) ∧
        ∀ st', r = .inr st' → AuthInv env cfg st' t')
      (fun _ t' => Quiet t t') := by
  -- the error after the check of the address, and what is known of it
  have checked : ∃ err', err' = (if err.isNone then
        (env.checkSourceAddressCriticalOption perms).map AuthError.sourceAddress else err) ∧
      (err' = none → Admitted env cfg sessionID t ⟨st.user, perms⟩) ∧
      (∀ next, err' = some (.callback (.partialSuccess next)) → InForce cfg t next) ∧
      (isPartialSuccess err = false → isPartialSuccess err' = false) := by
    refine ⟨_, rfl, ?_⟩
    cases err with
    | none =>
      cases address : env.checkSourceAddressCriticalOption perms with
      | none =>
        refine ⟨fun _ => ⟨⟨req, requested, same.symm, justified.granted rfl⟩, address⟩, ?_,
          fun _ => rfl⟩
        exact fun _ h => by cases h
      | some text => exact ⟨(fun h => by cases h), (fun _ h => by cases h), fun _ => rfl⟩
    | some e => exact ⟨(fun h => by cases h), justified.handed, id⟩
  obtain ⟨err', eq, admitted, handed, notPartial⟩ := checked
  unfold conclude
  dsimp only
  rw [← eq]
  apply (AuthEnv.silent_logAttempt _ _ _ t).bind _ fun _ _ => id
  intro _ t₁ logged
  cases err' with
  | none =>
    refine leads_pure.mpr ⟨logged, fun login h => ?_, (fun _ h => by cases h)⟩
    cases h
    exact (admitted rfl).mono fun _ => logged.mem
  | some e =>
    apply (AuthEnv.silent_showErrorBanner e t₁).bind _ fun _ _ => logged.trans
    intro _ t₂ shown
    apply (rejected_leads _ _ _ _).bind _ fun _ _ quiet => (logged.trans shown).trans quiet
    rintro st' t₃ ⟨rfl, quiet⟩
    have all := (logged.trans shown).trans quiet
    refine leads_pure.mpr ⟨all, (fun _ h => by cases h), fun st' h => ?_⟩
    cases h
    apply afterRejection_inv { st with authErrs := st.authErrs ++ [e] }
      (force.mono fun _ => all.mem) (cached.mono fun _ => all.mem)
    · exact fun next h => (handed next (congrArg some h)).mono fun _ => all.mem
    · rw [all.guesses_eq]
      exact counted.imp id fun ⟨few, other, no⟩ => ⟨few, other, notPartial no⟩

theorem authRound_leads {st : AuthState C} (inv : AuthInv env cfg st t) :
    (authRound env cfg sessionID st).Leads t
      (fun r t' => guesses t' ≤ guesses t + 1 ∧
        (∀ login, r = .inl login → Admitted env cfg sessionID t' login) ∧
        ∀ st', r = .inr st' → AuthInv env cfg st' t')
      (fun _ t' => guesses t' ≤ guesses t + 1) := by
  unfold authRound
  apply (readRequest_leads st t).bind _ fun _ _ quiet => by rw [quiet.guesses_eq]; omega
  rintro req t₁ ⟨read, requested⟩
  apply (silent_showBanner _ t₁).bind _ fun _ _ quiet => by
    rw [(read.trans quiet).guesses_eq]; omega
  intro _ t₂ shown
  have quiet := read.trans shown
  have force₂ := inv.force.mono fun _ => quiet.mem
  have cached₂ := inv.cached.mono fun _ => quiet.mem
  dsimp only
  refine (authMethod_judges ?_ ?_ ?_).bind ?_ fun _ _ same => by
    rw [same, quiet.guesses_eq]; omega
  · rfl
  · exact force₂
  · exact cached₂
  rintro ⟨attempt, cache⟩ t₃ ⟨judges, cached⟩
  have force := force₂.mono judges.grows
  have before := quiet.guesses_eq
  have few := inv.counted
  cases attempt with
  | answered =>
    have counted : guesses t₃ = guesses t₂ := by
      rcases judges.counted with same | ⟨-, -, perms, err, never, -⟩
      · exact same
      · cases never
    refine leads_pure.mpr ⟨by omega, (fun _ h => by cases h), fun st' h => ?_⟩
    cases h
    exact ⟨force, cached, by rw [counted, before]; exact few⟩
  | judged perms err =>
    have counted : guesses t₃ ≤ st.authFailures ∨ guesses t₃ ≤ st.authFailures + 1 ∧
        req.method ≠ str "none" ∧ isPartialSuccess err = false := by
      rcases judges.counted with same | ⟨one, some, perms', err', same, no⟩
      · exact .inl (by omega)
      · cases same
        exact .inr ⟨by omega, some, no⟩
    have less : guesses t₃ ≤ guesses t + 1 := by
      rcases judges.counted with same | ⟨one, -⟩ <;> omega
    refine (conclude_leads ?_ ?_ ?_ ?_ (judges.justified perms err rfl) ?_).mono ?_ ?_
    · rfl
    · exact (requested.mono fun _ => shown.mem).mono judges.grows
    · exact force
    · exact cached
    · exact counted
    · rintro r t' ⟨quiet, rest⟩
      exact ⟨by rw [quiet.guesses_eq]; exact less, rest⟩
    · intro e t' quiet
      rw [quiet.guesses_eq]
      exact less

/-- The limits of the guesses. -/
def Bounded (cfg : AuthConfig C) (t : AuthTrace C K) : Prop :=
  guesses t ≤ maxAuthServerAttempts ∧ (0 < cfg.maxAuthTries → guesses t ≤ cfg.maxAuthTries)

theorem Quiet.bounded {t' : AuthTrace C K} (quiet : Quiet t t') (bounded : Bounded cfg t) :
    Bounded cfg t' := by
  unfold Bounded
  rw [quiet.guesses_eq]
  exact bounded

theorem disconnect_leads {α : Type} (st : AuthState C) (message : Bytes)
    {post : α → AuthTrace C K → Prop} (bounded : Bounded cfg t) :
    (disconnect env st message : AuthM C K α).Leads t post (fun _ t' => Bounded cfg t') := by
  apply (AuthEnv.silent_send _ t).bind _ fun _ _ quiet => quiet.bounded bounded
  exact fun _ t' quiet => leads_fail.mpr (quiet.bounded bounded)

/-- The induction is on the attempts that are left; each makes one guess at most. -/
theorem userAuthLoop_leads (left : Nat) {st : AuthState C} (inv : AuthInv env cfg st t)
    (bounded : Bounded cfg t) (attempts : guesses t + left ≤ maxAuthServerAttempts) :
    (userAuthLoop env cfg sessionID left st).Leads t
      (fun login t' => Admitted env cfg sessionID t' login ∧ Bounded cfg t')
      (fun _ t' => Bounded cfg t') := by
  induction left generalizing st t with
  | zero =>
    unfold userAuthLoop
    split
    · exact disconnect_leads st _ bounded
    · exact disconnect_leads st _ bounded
  | succ left ih =>
    unfold userAuthLoop
    split
    · exact disconnect_leads st _ bounded
    rename_i below
    -- there is room for one more guess: the failures are below the limit
    have next {t' : AuthTrace C K} (few : guesses t' ≤ guesses t + 1) : Bounded cfg t' := by
      have counted := inv.counted
      refine ⟨by omega, fun limited => ?_⟩
      have : ¬ cfg.maxAuthTries ≤ st.authFailures := fun h => below ⟨h, limited⟩
      omega
    apply (authRound_leads inv).bind _ fun _ _ few => next few
    rintro r t₁ ⟨few, admitted, kept⟩
    cases r with
    | inl login =>
      apply (AuthEnv.silent_send _ t₁).bind _ fun _ _ quiet => quiet.bounded (next few)
      intro _ t₂ quiet
      have admitted := (admitted login rfl).mono fun _ => quiet.mem
      exact leads_pure.mpr ⟨admitted, quiet.bounded (next few)⟩
    | inr st' => exact ih (kept st' rfl) (next few) (by omega)

theorem serverAuthenticate_leads :
    (serverAuthenticate env cfg sessionID).Leads []
      (fun login t' => Admitted env cfg sessionID t' login ∧ Bounded cfg t')
      (fun _ t' => Bounded cfg t') := by
  have start : Bounded cfg ([] : AuthTrace C K) := ⟨Nat.zero_le _, fun limited => limited.le⟩
  apply (AuthEnv.silent_preAuth []).bind _ fun _ _ quiet => quiet.bounded start
  intro _ t quiet
  have few : guesses t = 0 := quiet.guesses_eq
  apply userAuthLoop_leads
  · exact ⟨.inl rfl, fun _ h => absurd h List.not_mem_nil, few.le⟩
  · exact quiet.bounded start
  · rw [few, Nat.zero_add]

/-- Surroundings in which a client asks about a key and then signs with it. -/
def signingClient (user sessionID keyData : Bytes) (key : K) : AuthEnv C K where
  readPacket t := .ok (userAuthRequestMsg.marshal (user, str "ssh-connection", str "publickey",
    if t.isEmpty then 0 :: (appendString (str "ssh-ed25519") ++ appendString keyData)
    else 1 :: (appendString (str "ssh-ed25519") ++ appendString keyData ++
      appendString (appendString (str "ssh-ed25519") ++ appendString
        (buildDataSignedForAuth sessionID ⟨user, str "ssh-connection", str "publickey", []⟩
          (str "ssh-ed25519") keyData))), ()))
  writePacket _ _ := none
  bannerCallback := none
  noClientAuthCallback := none
  passwordCallback _ _ _ _ := ⟨none, some (.other [] none)⟩
  keyboardInteractiveCallback _ _ _ := ⟨none, some (.other [] none)⟩
  publicKeyCallback _ _ _ _ := ⟨none, none⟩
  verifiedPublicKeyCallback := none
  gssExchangeToken _ _ _ _ := .broken []
  preAuthConnCallback := false
  authLogCallback := false
  keys :=
    { parsePublicKey := fun data => if data = keyData then .ok key else .error (str "unknown key")
      type := fun _ => str "ssh-ed25519"
      certExtensions := fun _ => none
      skKeyWithoutUP := id
      verify := fun _ data sig => if sig.blob = data then none else some (str "bad signature") }
  checkSourceAddress _ := none
  parseGSSAPIPayload _ := none

/-- Whatever comes of it, a client gets no more guesses than `MaxAuthTries` where that is a limit,
and no more than `maxAuthServerAttempts` in any case. -/
theorem guesses_bounded (env : AuthEnv C K) (cfg : AuthConfig C) (sessionID : Bytes) :
    guesses (serverAuthenticate env cfg sessionID []).2 ≤ maxAuthServerAttempts ∧
      (0 < cfg.maxAuthTries →
        guesses (serverAuthenticate env cfg sessionID []).2 ≤ cfg.maxAuthTries) := by
  change Bounded cfg _
  apply Leads.anyway
  exact serverAuthenticate_leads.mono (fun _ _ granted => granted.2) fun _ _ => id

/-! ## The callbacks that were asked -/

/-- The result that a call of a callback is recorded with is the one that the surroundings gave
then. -/
def AuthEnv.Gives (env : AuthEnv C K) (t : AuthTrace C K) : AuthEvent C K → Prop
  | .noClientAuth user r => ∃ callback, env.noClientAuthCallback = some callback ∧ r = callback user t
  | .password c user password r => r = env.passwordCallback c user password t
  | .keyboardInteractive c user r => r = env.keyboardInteractiveCallback c user t
  | .publicKey c user key r => r = env.publicKeyCallback c user key t
  | .verifiedPublicKey user key perms algo r => ∃ callback,
      env.verifiedPublicKeyCallback = some callback ∧ r = callback user key perms algo t
  | .gssExchange c token req r => r = env.gssExchangeToken c token req t
  | _ => True

theorem AuthEvent.Plain.gives {e : AuthEvent C K} (h : e.Plain) : env.Gives t e := by
  cases e <;> trivial

theorem Silent.gives {α : Type} {x : AuthM C K α} (h : Silent x) : Asks env.Gives x :=
  h.asks.mono fun _ _ plain => plain.gives

section Answers

variable {st : AuthState C}

theorem noneAttempt_gives : Asks env.Gives (noneAttempt env cfg st) := by
  unfold noneAttempt
  split
  · split
    · rename_i callback known
      exact (asks_ask fun _ => ⟨callback, known, rfl⟩).bind fun _ => asks_pure _
    · exact asks_pure _
  · exact asks_pure _

theorem passwordAttempt_gives (payload : Bytes) :
    Asks env.Gives (passwordAttempt env st payload) := by
  unfold passwordAttempt
  split
  · exact asks_pure _
  split
  · exact asks_fail _
  split
  · exact asks_fail _
  split
  · exact asks_fail _
  split
  · exact asks_fail _
  · exact Asks.bind (asks_ask fun _ => rfl) fun _ => asks_pure _

theorem keyboardInteractiveAttempt_gives :
    Asks env.Gives (keyboardInteractiveAttempt env st) := by
  unfold keyboardInteractiveAttempt
  split
  · exact asks_pure _
  · exact Asks.bind (asks_ask fun _ => rfl) fun _ => asks_pure _

theorem gssapiAttempt_gives (req : UserAuthRequest) :
    Asks env.Gives (gssapiAttempt env st req) := by
  unfold gssapiAttempt
  split
  · exact asks_pure _
  split
  · exact asks_fail _
  split
  · exact asks_pure _
  split
  · exact asks_pure _
  apply Asks.bind (AuthEnv.silent_send _).gives
  intro _
  apply Asks.bind (AuthEnv.silent_readAs _ _).gives
  rintro ⟨token, -⟩
  refine Asks.bind (asks_ask ?_) ?_
  · exact fun _ => rfl
  intro r
  cases r with
  | broken text => exact asks_fail _
  | refused e => exact asks_pure _
  | login r => exact asks_pure _

theorem lookUpKey_gives (c : C) (pubKeyData : Bytes) (pubKey : K) :
    Asks env.Gives (lookUpKey env st c pubKeyData pubKey) := by
  unfold lookUpKey
  split
  · exact asks_pure _
  refine Asks.bind (asks_ask ?_) ?_
  · exact fun _ => rfl
  intro r
  split
  · exact asks_fail _
  · exact asks_pure _

theorem offeredKey_gives (req : UserAuthRequest) (candidate : CachedPubKey C) (isQuery : Bool)
    (algo pubKeyData : Bytes) (pubKey : K) (payload : Bytes) :
    Asks env.Gives
      (offeredKey env cfg sessionID req candidate isQuery algo pubKeyData pubKey payload) := by
  unfold offeredKey
  split
  · unfold queryAttempt
    split
    · exact asks_fail _
    split
    · exact (AuthEnv.silent_send _).gives.bind fun _ => asks_pure _
    · exact asks_pure _
  unfold signedAttempt
  split
  · exact asks_fail _
  split
  · exact asks_fail _
  split
  · exact asks_pure _
  split
  · exact asks_pure _
  split
  · exact asks_pure _
  dsimp only
  split
  · exact asks_fail _
  split
  · rename_i callback _ known
    exact (asks_ask fun _ => ⟨callback, known, rfl⟩).bind fun _ => asks_pure _
  · exact asks_pure _

theorem publicKeyAttempt_gives (req : UserAuthRequest) :
    Asks env.Gives (publicKeyAttempt env cfg sessionID st req) := by
  unfold publicKeyAttempt
  split
  · exact asks_pure _
  split
  · exact asks_fail _
  split
  · exact asks_fail _
  split
  · exact asks_pure _
  split
  · exact asks_fail _
  split
  · exact asks_pure _
  apply Asks.bind (lookUpKey_gives _ _ _)
  intro found
  exact (offeredKey_gives _ _ _ _ _ _ _).bind fun _ => asks_pure _

theorem authMethod_gives (req : UserAuthRequest) :
    Asks env.Gives (authMethod env cfg sessionID st req) := by
  unfold authMethod
  split
  · exact noneAttempt_gives.bind fun _ => asks_pure _
  split
  · exact (passwordAttempt_gives _).bind fun _ => asks_pure _
  split
  · exact keyboardInteractiveAttempt_gives.bind fun _ => asks_pure _
  split
  · exact publicKeyAttempt_gives req
  split
  · exact (gssapiAttempt_gives req).bind fun _ => asks_pure _
  · exact asks_pure _

theorem authRound_gives : Asks env.Gives (authRound env cfg sessionID st) := by
  apply Asks.bind (silent_readRequest st).gives
  intro req
  apply Asks.bind (silent_showBanner _).gives
  intro _
  apply Asks.bind (authMethod_gives req)
  rintro ⟨attempt, cache⟩
  cases attempt with
  | answered => exact asks_pure _
  | judged perms err => exact (silent_conclude _ _ _ _).gives

theorem userAuthLoop_gives (left : Nat) (st : AuthState C) :
    Asks env.Gives (userAuthLoop env cfg sessionID left st) := by
  induction left generalizing st with
  | zero =>
    unfold userAuthLoop
    split
    · exact (silent_disconnect _ _).gives
    · exact (silent_disconnect _ _).gives
  | succ left ih =>
    unfold userAuthLoop
    split
    · exact (silent_disconnect _ _).gives
    apply Asks.bind authRound_gives
    intro r
    cases r with
    | inl login => exact (AuthEnv.silent_send _).gives.bind fun _ => asks_pure _
    | inr st' => exact ih st'

end Answers

/-- Each call of a callback in the trace has the result that the surroundings gave at its place. -/
theorem serverAuthenticate_gives {login : Login}
    (run : serverAuthenticate env cfg sessionID [] = (.ok login, t)) {e : AuthEvent C K}
    (he : e ∈ t) : ∃ before, before ++ [e] <+: t ∧ env.Gives before e := by
  have asks : Asks env.Gives (serverAuthenticate env cfg sessionID) :=
    AuthEnv.silent_preAuth.gives.bind fun _ => userAuthLoop_gives _ _
  exact (((asks []).ok run).mem he).resolve_left List.not_mem_nil

end FakeSSH.Ssh
