import FakeSSH.Lib.Interleave
import FakeSSH.GitServer.Request
import Mathlib.Data.List.DropRight

/-!
# Authorized keys (`auth.go`)

`parseAuthorizedKeys` turns the contents of an `authorized_keys` file into the
map from fingerprints to keys, and fails on the first line it cannot honour.
`PublicKeyCallback` looks an offered key up in the server's map. In watch mode
it first reads the file again, parses it and replaces the map, all of it and the
lookup under `watchMu`.

What the SSH library computes from a key and from a line is a `KeyCodec`. The
callbacks of one server share the map and the lock, and the file, which anybody
may rewrite at any moment; a half-written file is one more version of it.
-/

namespace FakeSSH.GitServer

open FakeSSH.Go FakeSSH.Lib

/-! ## The file -/

/-- The results of `ssh.ParseAuthorizedKey` when it does not fail. -/
structure ParsedKey (K : Type) where
  key : Option K
  comment : Bytes
  options : List Bytes
  rest : Bytes

/-- `ssh.ParseAuthorizedKey`, `ssh.FingerprintSHA256` and `Marshal`; an error is
its text. -/
structure KeyCodec (K : Type) where
  parseAuthorizedKey : Bytes → Except Bytes (ParsedKey K)
  fingerprintSHA256 : K → Bytes
  marshal : K → Bytes

inductive KeyLineError where
  | parse (text : Bytes)
  | noKey
  | options (first : Bytes)
  | trailingContent
  | duplicate (fp : Bytes)
  deriving DecidableEq, Repr

/-- The error's text, at a line; `quote` is `fmt`'s `%q`. -/
def KeyLineError.text (quote : Bytes → Bytes) (line : Nat) (e : KeyLineError) : Bytes :=
  str "line " ++ str (toString line) ++ str ": " ++
    match e with
    | .parse text => text
    | .noKey => str "no key parsed"
    | .options first =>
      str "authorized_keys options are not supported (line starts with " ++ quote first ++ str ")"
    | .trailingContent => str "unexpected trailing content after key"
    | .duplicate fp => str "duplicate fingerprint " ++ quote fp ++ str " with different key bytes"

def carriageReturn : UInt8 := 0x0D
def hash : UInt8 := 0x23

/-- `bytes.TrimRight(raw, "\r")`. -/
def trimRightCR (raw : Bytes) : Bytes := raw.rdropWhile (· == carriageReturn)

/-- A line that holds no entry: blank, or a comment. -/
def skipsLine (raw : Bytes) : Bool :=
  decide (trimSpace raw = []) || decide ((trimSpace raw).head? = some hash)

variable {K : Type}

/-- One iteration of the loop of `parseAuthorizedKeys`. -/
def parseKeyLine (codec : KeyCodec K) (out : Map AuthorizedKeyEntry) (raw : Bytes) :
    Except KeyLineError (Map AuthorizedKeyEntry) :=
  if skipsLine raw then .ok out
  else match codec.parseAuthorizedKey raw with
    | .error text => .error (.parse text)
    | .ok parsed =>
      match parsed.key, parsed.options with
      | none, _ => .error .noKey
      | some _, first :: _ => .error (.options first)
      | some key, [] =>
        if trimSpace parsed.rest ≠ [] then .error .trailingContent
        else match out.lookup (codec.fingerprintSHA256 key) with
          | some existing =>
            if existing.keyBytes ≠ codec.marshal key then
              .error (.duplicate (codec.fingerprintSHA256 key))
            else .ok out
          | none => .ok (out.insert (codec.fingerprintSHA256 key)
              ⟨codec.marshal key, trimSpace parsed.comment⟩)

/-- The loop, from the line after the `n`th. -/
def parseKeyLines (codec : KeyCodec K) : Nat → List Bytes → Map AuthorizedKeyEntry →
    Except (Nat × KeyLineError) (Map AuthorizedKeyEntry)
  | _, [], out => .ok out
  | n, raw :: rest, out =>
    match parseKeyLine codec out (trimRightCR raw) with
    | .error e => .error (n + 1, e)
    | .ok out => parseKeyLines codec (n + 1) rest out

/-- `parseAuthorizedKeys`. -/
def parseAuthorizedKeys (codec : KeyCodec K) (data : Bytes) :
    Except (Nat × KeyLineError) (Map AuthorizedKeyEntry) :=
  parseKeyLines codec 0 (data.splitOn newline) ∅

/-! ## The callback -/

/-- The reasons `loadAuthorizedKeys` fails. -/
inductive LoadError where
  | emptyPath
  | read (path text : Bytes)
  | parse (path : Bytes) (line : Nat) (e : KeyLineError)
  deriving DecidableEq, Repr

def LoadError.text (quote : Bytes → Bytes) : LoadError → Bytes
  | .emptyPath => str "gitserver: authorized_keys path is empty"
  | .read path text => str "gitserver: read authorized_keys " ++ quote path ++ str ": " ++ text
  | .parse path line e =>
    str "gitserver: parse authorized_keys " ++ quote path ++ str ": " ++ e.text quote line

/-- What `PublicKeyCallback` returns: `errAuth`, the error of a reload, or the
permissions. -/
inductive KeyRet where
  | errAuth
  | reload (e : LoadError)
  | accepted (perms : Permissions)

def KeyRet.text (quote : Bytes → Bytes) : KeyRet → Option Bytes
  | .errAuth => str "gitserver: auth failed"
  | .reload e => str "gitserver: reload authorized_keys: " ++ e.text quote
  | .accepted _ => none

/-- The permissions of a key found. -/
def keyPermissions (fp comment : Bytes) : Permissions :=
  { extensions := some (((AList.insert permExtGitServer (str "1") ∅).insert
      permExtKeyFingerprint fp).insert permExtKeyComment comment) }

/-- The lookup that ends the callback. -/
def lookupKey (codec : KeyCodec K) (keys : Map AuthorizedKeyEntry) (key : K) : KeyRet :=
  match keys.lookup (codec.fingerprintSHA256 key) with
  | none => .errAuth
  | some entry =>
    if entry.keyBytes ≠ codec.marshal key then .errAuth
    else .accepted (keyPermissions (codec.fingerprintSHA256 key) entry.comment)

/-- A file as a read finds it: unreadable, or its contents. -/
abbrev File := Except Bytes Bytes

/-- What the callbacks share: the file, the map and the lock, with the versions
that the file has had before. -/
structure KeyStore where
  past : List File
  file : File
  keysByFP : Map AuthorizedKeyEntry
  watchMu : Bool

/-- Every version of the file, the current one last. -/
def KeyStore.versions (st : KeyStore) : List File := st.past ++ [st.file]

/-- The places of `PublicKeyCallback`, with `loadAuthorizedKeys` inside it. -/
inductive KeyPC where
  | idle
  | check
  | lock
  | read
  | parse (data : Bytes)
  | store (entries : Map AuthorizedKeyEntry)
  | lookup
  | unlock (ret : KeyRet)
  | returned (ret : KeyRet)

/-- A call: what it is called with, its place, and which version of the file was
current when it started, when it read and when it returned, and how often it
replaced the map. -/
structure KeyCall (K : Type) where
  user : Bytes
  key : K
  isCertificate : Bool
  pc : KeyPC
  startedAt : Nat
  readAt : Option Nat
  returnedAt : Nat
  stores : Nat

/-- A call not yet made. -/
def KeyCall.idle (user : Bytes) (key : K) (isCertificate : Bool) : KeyCall K :=
  { user := user, key := key, isCertificate := isCertificate, pc := .idle, startedAt := 0,
    readAt := none, returnedAt := 0, stores := 0 }

/-- One step of a call. Each critical section of `mu` is a step. -/
inductive KeyStep (codec : KeyCodec K) (cfg : Config) (st : KeyStore) (c : KeyCall K) :
    KeyStore → KeyCall K → Prop
  | call : c.pc = .idle →
      KeyStep codec cfg st c st { c with pc := .check, startedAt := st.past.length }
  | wrongUser : c.pc = .check → c.user ≠ cfg.sshUser →
      KeyStep codec cfg st c st { c with
        pc := .returned .errAuth, returnedAt := st.past.length }
  | certificate : c.pc = .check → c.user = cfg.sshUser → c.isCertificate = true →
      KeyStep codec cfg st c st { c with
        pc := .returned .errAuth, returnedAt := st.past.length }
  | proceed : c.pc = .check → c.user = cfg.sshUser → c.isCertificate = false →
      KeyStep codec cfg st c st { c with pc := if cfg.watchKeys then .lock else .lookup }
  | lock : c.pc = .lock → st.watchMu = false →
      KeyStep codec cfg st c { st with watchMu := true } { c with pc := .read }
  -- `loadAuthorizedKeys`
  | emptyPath : c.pc = .read → cfg.authorizedKeys = [] →
      KeyStep codec cfg st c st { c with pc := .unlock (.reload .emptyPath) }
  | readError (text : Bytes) : c.pc = .read → cfg.authorizedKeys ≠ [] → st.file = .error text →
      KeyStep codec cfg st c st { c with
        pc := .unlock (.reload (.read cfg.authorizedKeys text)), readAt := some st.past.length }
  | read (data : Bytes) : c.pc = .read → cfg.authorizedKeys ≠ [] → st.file = .ok data →
      KeyStep codec cfg st c st { c with pc := .parse data, readAt := some st.past.length }
  | parseError (data : Bytes) (line : Nat) (e : KeyLineError) : c.pc = .parse data →
      parseAuthorizedKeys codec data = .error (line, e) →
      KeyStep codec cfg st c st { c with
        pc := .unlock (.reload (.parse cfg.authorizedKeys line e)) }
  | parse (data : Bytes) (entries : Map AuthorizedKeyEntry) : c.pc = .parse data →
      parseAuthorizedKeys codec data = .ok entries →
      KeyStep codec cfg st c st { c with pc := .store entries }
  | store (entries : Map AuthorizedKeyEntry) : c.pc = .store entries →
      KeyStep codec cfg st c { st with keysByFP := entries } { c with
        pc := .lookup, stores := c.stores + 1 }
  -- the lookup, and the deferred unlock
  | lookupWatching : c.pc = .lookup → cfg.watchKeys = true →
      KeyStep codec cfg st c st { c with pc := .unlock (lookupKey codec st.keysByFP c.key) }
  | lookup : c.pc = .lookup → cfg.watchKeys = false →
      KeyStep codec cfg st c st { c with
        pc := .returned (lookupKey codec st.keysByFP c.key), returnedAt := st.past.length }
  | unlock (ret : KeyRet) : c.pc = .unlock ret →
      KeyStep codec cfg st c { st with watchMu := false } { c with
        pc := .returned ret, returnedAt := st.past.length }

/-- Somebody rewrites the file. -/
def KeyStore.rewrite (st : KeyStore) (f : File) : KeyStore :=
  { st with past := st.past ++ [st.file], file := f }

/-- One step of the server's callbacks and of the file. -/
inductive KeysStep {ι : Type} [DecidableEq ι] (codec : KeyCodec K) (cfg : Config)
    (s : Family ι KeyStore (KeyCall K)) : Family ι KeyStore (KeyCall K) → Prop
  | rewrite (f : File) : KeysStep codec cfg s { s with shared := s.shared.rewrite f }
  | callback (s' : Family ι KeyStore (KeyCall K)) : Interleave (KeyStep codec cfg) s s' →
      KeysStep codec cfg s s'

/-- A server whose callbacks have not been called. -/
def noCallbacks {ι : Type} (file : File) (keys : Map AuthorizedKeyEntry)
    (user : ι → Bytes) (key : ι → K) (isCertificate : ι → Bool) :
    Family ι KeyStore (KeyCall K) :=
  { shared := { past := [], file := file, keysByFP := keys, watchMu := false }
    procs := fun i => .idle (user i) (key i) (isCertificate i) }

/-! ## The callback as one step -/

/-- `loadAuthorizedKeys`, on the file as the read finds it. -/
def loadAuthorizedKeys (codec : KeyCodec K) (path : Bytes) (file : File) :
    Except LoadError (Map AuthorizedKeyEntry) :=
  if path = [] then .error .emptyPath
  else match file with
    | .error text => .error (.read path text)
    | .ok data =>
      match parseAuthorizedKeys codec data with
      | .error (line, e) => .error (.parse path line e)
      | .ok entries => .ok entries

/-- `PublicKeyCallback`, called where the map is `keysByFP` and the file is `file`, and nobody
interferes. -/
def publicKeyCallback (codec : KeyCodec K) (cfg : Config) (keysByFP : Map AuthorizedKeyEntry)
    (file : File) (user : Bytes) (key : K) (isCertificate : Bool) : KeyRet :=
  if user ≠ cfg.sshUser then .errAuth
  else if isCertificate then .errAuth
  else if cfg.watchKeys then
    match loadAuthorizedKeys codec cfg.authorizedKeys file with
    | .error e => .reload e
    | .ok entries => lookupKey codec entries key
  else lookupKey codec keysByFP key

/-- The reasons `NewServer` fails. -/
inductive InitError where
  | config (e : ConfigError)
  | load (e : LoadError)
  deriving DecidableEq, Repr

/-- `NewServer`, on the file as it is then. -/
def newServer (codec : KeyCodec K) (c : Config) (file : File) : Except InitError Server :=
  match checkAndFillConfig c with
  | .error e => .error (.config e)
  | .ok c =>
    if c.watchKeys then .ok (.ofConfig c ∅)
    else match loadAuthorizedKeys codec c.authorizedKeys file with
      | .error e => .error (.load e)
      | .ok entries => .ok (.ofConfig c entries)

end FakeSSH.GitServer
