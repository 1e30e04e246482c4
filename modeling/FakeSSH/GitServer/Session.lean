import FakeSSH.GitServer.Request
import FakeSSH.Ssh.Messages

/-!
# Git sessions (`server.go`)

`HandleSession` serves one accepted session channel. Before the exec it selects
on its timer, its context and the client's requests; `Server.verdict` is what it
does with a request there. An accepted exec starts the backend in a goroutine of
its own and a second goroutine that drains further requests, and the session
then selects on the backend's result, the end of the request stream and its
context. Every return runs the deferred calls, the channel's close last.

A session is the state of these three threads and of what the rest of the
process may do to them at any moment: deliver a request, close the stream, fire
the timer, cancel the context, finish the backend. The log records the requests
taken from the stream and the calls of `Reply`, the start of the backend, the
receipt of its result, the exit status and the close.
-/

namespace FakeSSH.GitServer

open FakeSSH.Go FakeSSH.Ssh

/-! ## Requests -/

/-- `ssh.Request`, as far as it is read here. `Reply` writes nothing when the
client wanted no reply; it is called all the same. -/
structure SessionRequest where
  type : Bytes
  payload : Bytes
  deriving DecidableEq, Repr

def gitExecMsg : Layout where
  name := str "gitExecMsg"
  tags := []
  fields := [(str "Command", .string)]

def gitEnvMsg : Layout where
  name := str "gitEnvMsg"
  tags := []
  fields := [(str "Name", .string), (str "Value", .string)]

def gitProtocolEnvName : Bytes := str "GIT_PROTOCOL"
def gitProtocolEnvValue : Bytes := str "version=2"

/-- What `HandleSession` returns. The backend's own result is nil or an error. -/
inductive SessionRet (E : Type) where
  | notGitPermission
  | preExecTimeout
  | ctxErr
  | requestStreamClosed
  | secondEnv
  | malformedEnv (e : WireError)
  | unsupportedEnv
  | malformedExec (e : WireError)
  | parseExec (e : RequestError)
  | authorizeExec (e : RequestError)
  | unsupportedRequest
  | backend (r : Option E)

/-- The text of an error of the session's own; a context's or a backend's is
returned as it is. -/
def SessionRet.text {E : Type} (request : RequestError → Bytes) : SessionRet E → Option Bytes
  | .notGitPermission => str "gitserver: session handler called with non-git permission"
  | .preExecTimeout => str "gitserver: timed out waiting for exec request"
  | .ctxErr => none
  | .requestStreamClosed => str "gitserver: request stream closed"
  | .secondEnv => str "gitserver: at most one env request is allowed"
  | .malformedEnv e => str "gitserver: malformed env request: " ++ e.text
  | .unsupportedEnv => str "gitserver: unsupported env request"
  | .malformedExec e => str "gitserver: malformed exec request: " ++ e.text
  | .parseExec e => str "gitserver: parse exec command: " ++ request e
  | .authorizeExec e => str "gitserver: authorize exec: " ++ request e
  | .unsupportedRequest => str "gitserver: unsupported session request"
  | .backend _ => none

/-- What a request before the exec leads to: a refusal and a return, the
protocol environment, or the authorized command. -/
inductive Verdict (E : Type) where
  | refuse (ret : SessionRet E)
  | env (value : Bytes)
  | exec (req : Request)

/-- The `switch` of the pre-exec loop. -/
def Server.verdict {E : Type} (srv : Server) (perms : Option Permissions) (envAccepted : Bool)
    (r : SessionRequest) : Verdict E :=
  if r.type = str "env" then
    if envAccepted then .refuse .secondEnv
    else match gitEnvMsg.unmarshal r.payload with
      | .error e => .refuse (.malformedEnv e)
      | .ok (name, value, ()) =>
        if name ≠ gitProtocolEnvName ∨ value ≠ gitProtocolEnvValue then .refuse .unsupportedEnv
        else .env value
  else if r.type = str "exec" then
    match gitExecMsg.unmarshal r.payload with
    | .error e => .refuse (.malformedExec e)
    | .ok (command, ()) =>
      match parseGitCommand command with
      | .error e => .refuse (.parseExec e)
      | .ok parsed =>
        match srv.authorize perms parsed with
        | .error e => .refuse (.authorizeExec e)
        | .ok authed => .exec authed
  else if r.type = str "shell" ∨ r.type = str "pty-req" ∨ r.type = str "subsystem" then
    .refuse .unsupportedRequest
  else .refuse .unsupportedRequest

/-! ## The session's state -/

/-- The places of `HandleSession`. -/
inductive SessionPC (E : Type) where
  | start
  | preExec
  | serving (r : SessionRequest)
  | spawnBackend (req : Request)
  | spawnDrain
  | waiting
  | pollBackend
  | sendStatus (r : Option E)
  | finish (r : Option E)
  | returning (ret : SessionRet E)
  | closing (ret : SessionRet E)
  | returned (ret : SessionRet E)

/-- The backend's goroutine and `backendDone`: not spawned, spawned, inside
`runBackend`, its result in the channel, or received. -/
inductive Backend (E : Type) where
  | idle
  | spawned (req : Request) (gitProtocol : Bytes)
  | running
  | done (r : Option E)
  | received

/-- The draining goroutine: not spawned, in its select, with a request in hand,
or gone. -/
inductive Drain where
  | idle
  | selecting
  | holding (r : SessionRequest)
  | stopped

inductive SessionEvent (E : Type) where
  | consumed (r : SessionRequest)
  | answered (r : SessionRequest) (ok : Bool)
  | backendStarted (req : Request) (gitProtocol : Bytes)
  | resultReceived (r : Option E)
  | exitStatus (status : Nat)
  | channelClosed

/-- The three threads, the local variables of the first, and the channels
between them and the rest of the process. -/
structure Session (E : Type) where
  pc : SessionPC E
  envAccepted : Bool
  gitProtocol : Bytes
  backend : Backend E
  drain : Drain
  requests : List SessionRequest
  streamClosed : Bool
  requestStreamClosed : Bool
  timerFired : Bool
  cancelled : Bool
  backendCancelled : Bool
  log : List (SessionEvent E)

variable {E : Type}

/-- A session that has just been called. -/
def Session.start : Session E :=
  { pc := .start, envAccepted := false, gitProtocol := [], backend := .idle, drain := .idle,
    requests := [], streamClosed := false, requestStreamClosed := false, timerFired := false,
    cancelled := false, backendCancelled := false, log := [] }

/-- 0 for a nil result, 1 for an error. -/
def exitCode : Option E → Nat
  | none => 0
  | some _ => 1

/-! ## Its steps -/

/-- What the client, the clock, the context and the backend may do. -/
inductive SessionEnv (s : Session E) : Session E → Prop
  | arrive (r : SessionRequest) : s.streamClosed = false →
      SessionEnv s { s with requests := s.requests ++ [r] }
  | closeStream : SessionEnv s { s with streamClosed := true }
  | fire : SessionEnv s { s with timerFired := true }
  | cancel : SessionEnv s { s with cancelled := true }
  | runBackend (req : Request) (gitProtocol : Bytes) : s.backend = .spawned req gitProtocol →
      SessionEnv s { s with
        backend := .running, log := s.log ++ [.backendStarted req gitProtocol] }
  | backendReturns (r : Option E) : s.backend = .running →
      SessionEnv s { s with backend := .done r }

/-- What the draining goroutine does. A nil receive ends it with a signal, the
backend's context, which the session's cancels too, without. -/
inductive SessionDrain (s : Session E) : Session E → Prop
  | stop : s.drain = .selecting → (s.cancelled || s.backendCancelled) = true →
      SessionDrain s { s with drain := .stopped }
  | receive (r : SessionRequest) (rest : List SessionRequest) : s.drain = .selecting →
      s.requests = r :: rest →
      SessionDrain s { s with
        drain := .holding r, requests := rest, log := s.log ++ [.consumed r] }
  | answer (r : SessionRequest) : s.drain = .holding r →
      SessionDrain s { s with drain := .selecting, log := s.log ++ [.answered r false] }
  | closed : s.drain = .selecting → s.requests = [] → s.streamClosed = true →
      SessionDrain s { s with drain := .stopped, requestStreamClosed := true }

/-- What `HandleSession` itself does. -/
inductive SessionMain (srv : Server) (perms : Option Permissions) (s : Session E) :
    Session E → Prop
  | notGit : s.pc = .start → isGitPermission perms = false →
      SessionMain srv perms s { s with pc := .closing .notGitPermission }
  | begin : s.pc = .start → isGitPermission perms = true →
      SessionMain srv perms s { s with pc := .preExec }
  -- the pre-exec select
  | timeout : s.pc = .preExec → s.timerFired = true →
      SessionMain srv perms s { s with pc := .closing .preExecTimeout }
  | cancelled : s.pc = .preExec → s.cancelled = true →
      SessionMain srv perms s { s with pc := .closing .ctxErr }
  | receive (r : SessionRequest) (rest : List SessionRequest) : s.pc = .preExec →
      s.requests = r :: rest →
      SessionMain srv perms s { s with
        pc := .serving r, requests := rest, log := s.log ++ [.consumed r] }
  | receiveClosed : s.pc = .preExec → s.requests = [] → s.streamClosed = true →
      SessionMain srv perms s { s with pc := .closing .requestStreamClosed }
  | refuse (r : SessionRequest) (ret : SessionRet E) : s.pc = .serving r →
      srv.verdict perms s.envAccepted r = .refuse ret →
      SessionMain srv perms s { s with
        pc := .closing ret, log := s.log ++ [.answered r false] }
  | acceptEnv (r : SessionRequest) (value : Bytes) : s.pc = .serving r →
      srv.verdict (E := E) perms s.envAccepted r = .env value →
      SessionMain srv perms s { s with
        pc := .preExec, envAccepted := true, gitProtocol := value,
        log := s.log ++ [.answered r true] }
  | acceptExec (r : SessionRequest) (req : Request) : s.pc = .serving r →
      srv.verdict (E := E) perms s.envAccepted r = .exec req →
      SessionMain srv perms s { s with
        pc := .spawnBackend req, log := s.log ++ [.answered r true] }
  -- the two goroutines
  | spawnBackend (req : Request) : s.pc = .spawnBackend req →
      SessionMain srv perms s { s with pc := .spawnDrain, backend := .spawned req s.gitProtocol }
  | spawnDrain : s.pc = .spawnDrain →
      SessionMain srv perms s { s with pc := .waiting, drain := .selecting }
  -- the select while the backend runs, and the poll inside its `ctx.Done()` case
  | backendDone (r : Option E) : s.pc = .waiting → s.backend = .done r →
      SessionMain srv perms s { s with
        pc := .sendStatus r, backend := .received, log := s.log ++ [.resultReceived r] }
  | streamSignal : s.pc = .waiting → s.requestStreamClosed = true →
      SessionMain srv perms s { s with
        pc := .returning .requestStreamClosed, requestStreamClosed := false,
        backendCancelled := true }
  | ctxDone : s.pc = .waiting → s.cancelled = true →
      SessionMain srv perms s { s with pc := .pollBackend }
  | pollDone (r : Option E) : s.pc = .pollBackend → s.backend = .done r →
      SessionMain srv perms s { s with
        pc := .sendStatus r, backend := .received, log := s.log ++ [.resultReceived r] }
  | pollDefault : s.pc = .pollBackend → (∀ r, s.backend ≠ .done r) →
      SessionMain srv perms s { s with pc := .returning .ctxErr }
  -- the exit status and the return
  | sendStatus (r : Option E) : s.pc = .sendStatus r →
      SessionMain srv perms s { s with
        pc := .finish r, log := s.log ++ [.exitStatus (exitCode r)] }
  | finishCancelled (r : Option E) : s.pc = .finish r → s.cancelled = true →
      SessionMain srv perms s { s with pc := .returning .ctxErr }
  | finish (r : Option E) : s.pc = .finish r → s.cancelled = false →
      SessionMain srv perms s { s with pc := .returning (.backend r) }
  -- the deferred `cancelBackend` and `cleanup`
  | cancelBackend (ret : SessionRet E) : s.pc = .returning ret →
      SessionMain srv perms s { s with pc := .closing ret, backendCancelled := true }
  | close (ret : SessionRet E) : s.pc = .closing ret →
      SessionMain srv perms s { s with
        pc := .returned ret, log := s.log ++ [.channelClosed] }

/-- One step of the session. -/
def SessionStep (srv : Server) (perms : Option Permissions) (s s' : Session E) : Prop :=
  SessionEnv s s' ∨ SessionDrain s s' ∨ SessionMain srv perms s s'

/-- The requests taken from the stream and not yet answered. -/
def Session.hand (s : Session E) : List SessionRequest :=
  (match s.pc with
    | .serving r => [r]
    | _ => []) ++
  (match s.drain with
    | .holding r => [r]
    | _ => [])

end FakeSSH.GitServer
