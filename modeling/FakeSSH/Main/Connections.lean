import FakeSSH.Lib.Interleave
import FakeSSH.Main.Rate

/-!
# Connections (`StartSSHServer`, `handleConn`)

Two atomic counters limit the server. `connections` is raised by the accept loop
and lowered by a reject goroutine, by `handleConn` once the handshake is over, or
by its deferred function when the handshake failed. `succConnections` is raised
by `CheckMaxSuccussConnections` and lowered by a deferred call.

Every operation on a counter is a step of its own, so that connections may
interleave between any two. The accept loop is the one part that is sequential:
it takes up one connection at a time.
-/

namespace FakeSSH.Main

open FakeSSH.Go FakeSSH.Lib

/-! ## Limits -/

structure MaxConnectionsConfig where
  max : Int
  hardMax : Int := 0
  lossRatio : ℚ := 0

/-- The limit of a counter, as `StartSSHServer` computes it from the options. -/
structure Limit where
  max : Int
  hardMax : Int
  lossRatio : ℚ

/-- `StartSSHServer` normalises both of its limits in this way. The doubling is
that of an `int64`. -/
def limitOf (default defaultHard : Int) (c : MaxConnectionsConfig) : Limit :=
  let max := if c.max = 0 then default else if c.max < 0 then 0 else c.max
  { max := max
    hardMax :=
      if c.hardMax ≤ max ∧ 0 < max then Max.max ((max * 2).bmod (2 ^ 64)) defaultHard
      else c.hardMax
    lossRatio := if c.lossRatio ≤ 0 then 0 else if 1 ≤ c.lossRatio then 1 else c.lossRatio }

def defaultMaxConnections : Int := 100
def defaultHardMaxConnections : Int := 65535
def defaultMaxSuccessConnections : Int := 5
def defaultHardMaxSucessConnections : Int := 10

def connLimit : MaxConnectionsConfig → Limit :=
  limitOf defaultMaxConnections defaultHardMaxConnections

def succConnLimit : MaxConnectionsConfig → Limit :=
  limitOf defaultMaxSuccessConnections defaultHardMaxSucessConnections

/-- The hard limit binds, above a limit that is off or smaller. -/
def Limit.Normalized (l : Limit) : Prop :=
  (0 < l.max ∧ l.max < l.hardMax) ∨ (l.max = 0 ∧ 0 < l.hardMax)

def connectionLossProbability (curr max hardMax : Int) (ratio : ℚ) : ℚ :=
  if hardMax ≤ max + 1 then 1
  else
    let increaseRatio := (1 - ratio) * ((curr - (max + 1) : Int) / (hardMax - (max + 1) : Int))
    ratio + (if increaseRatio < 0 then 0 else increaseRatio)

/-- `checkMaxConnections`; `rnd` is what `rand.Float64` returns if it is asked. -/
def checkMaxConnections (curr max hardMax : Int) (ratio rnd : ℚ) : Bool :=
  if max ≤ 0 then decide (hardMax ≤ 0) || decide (curr ≤ hardMax)
  else if curr ≤ max then true
  else if hardMax < curr then false
  else if ratio ≤ 0 then decide (curr ≤ hardMax)
  else if 1 ≤ ratio then false
  else decide (connectionLossProbability curr max hardMax ratio ≤ rnd)

/-- What the check answers for a count, for some random number. -/
def Limit.Answers (l : Limit) (curr : Int) (ok : Bool) : Prop :=
  ∃ rnd, 0 ≤ rnd ∧ rnd < 1 ∧ checkMaxConnections curr l.max l.hardMax l.lossRatio rnd = ok

/-! ## `handleConn` -/

/-- The calls that `handleConn` defers. `uncount` is the function that looks at
`unauthenticated`, `uncountSucc` is `SuccConnections.Add(-1)`. -/
inductive Deferred where
  | close
  | uncount
  | uncountSucc
  | cancelConn
  | stopCloseOnCancel
  | stopIdleTimer
  deriving DecidableEq, Repr

inductive HandlerPlace where
  /-- in `ssh.NewServerConn` -/
  | handshake
  /-- it returned no error -/
  | authenticated
  /-- after `Connections.Add(-1)` -/
  | uncounted
  /-- `SuccConnections.Add(1)` has returned `curr` -/
  | judging (curr : Int)
  /-- in the loop that waits for a session -/
  | waiting
  /-- in the loop beside a session -/
  | session (routeGit : Bool)
  /-- a `return` was reached; the deferred calls run -/
  | returning
  deriving DecidableEq, Repr

/-- A `handleConn` call, with its two variables that matter here. -/
structure Handler where
  place : HandlerPlace
  unauthenticated : Bool
  ok : Bool
  defers : List Deferred
  deriving DecidableEq, Repr

/-- At the call of `NewServerConn`. -/
def Handler.start : Handler :=
  { place := .handshake, unauthenticated := true, ok := false, defers := [.uncount, .close] }

def Handler.Returned (h : Handler) : Prop := h.place = .returning ∧ h.defers = []

instance (h : Handler) : Decidable h.Returned := inferInstanceAs (Decidable (_ ∧ _))

/-- Why the loops of `handleConn` end. -/
inductive LeaveReason where
  | channelsClosed
  | requestsClosed
  | idleTimeout
  | cancelled
  | sessionDone
  deriving DecidableEq, Repr

/-- The reasons each loop has. The idle timer runs until there is a session, and
the end of a Git session leaves the loop running. -/
def HandlerPlace.leaves : HandlerPlace → LeaveReason → Bool
  | .waiting, why => why != .sessionDone
  | .session routeGit, .sessionDone => !routeGit
  | .session _, why => why != .idleTimeout
  | _, _ => false

/-- What the connections share: the counters, the rate limiter and the accept
loop, which is in `listener.Accept` or busy with a connection. -/
structure SshServer where
  connections : Int
  succConnections : Int
  limiter : SSHRateLimiter
  accepting : Bool

/-- One deferred call. -/
def Handler.runDeferred (h : Handler) (s : SshServer) : Deferred → SshServer
  | .uncount => if h.unauthenticated then { s with connections := s.connections - 1 } else s
  | .uncountSucc => { s with succConnections := s.succConnections - 1 }
  | _ => s

inductive HandleStep (succ : Limit) (s : SshServer) (h : Handler) : SshServer → Handler → Prop
  | failed : h.place = .handshake → HandleStep succ s h s { h with place := .returning }
  | authenticated : h.place = .handshake →
      HandleStep succ s h s { h with place := .authenticated }
  | uncount : h.place = .authenticated →
      HandleStep succ s h { s with connections := s.connections - 1 }
        { h with place := .uncounted, unauthenticated := false }
  -- `CheckMaxSuccussConnections` adds first and judges the sum
  | count : h.place = .uncounted →
      HandleStep succ s h { s with succConnections := s.succConnections + 1 }
        { h with place := .judging (s.succConnections + 1) }
  | refuse (curr : Int) : h.place = .judging curr → succ.Answers curr false →
      HandleStep succ s h s
        { h with place := .returning, ok := false, defers := .uncountSucc :: h.defers }
  | admitted (curr : Int) : h.place = .judging curr → succ.Answers curr true →
      HandleStep succ s h s { h with
        place := .waiting
        ok := true
        defers := .stopIdleTimer :: .stopCloseOnCancel :: .cancelConn :: .uncountSucc :: h.defers }
  | session (routeGit : Bool) : h.place = .waiting →
      HandleStep succ s h s { h with place := .session routeGit }
  | leave (why : LeaveReason) : h.place.leaves why = true →
      HandleStep succ s h s { h with place := .returning }
  -- deferred calls run last in, first out
  | unwind (d : Deferred) (ds : List Deferred) : h.place = .returning → h.defers = d :: ds →
      HandleStep succ s h (h.runDeferred s d) { h with defers := ds }

/-! ## The accept loop -/

inductive ConnPlace where
  /-- not yet returned by `listener.Accept` -/
  | dialing
  | accepted
  /-- `connections.Add(1)` has returned `curr` -/
  | counted (curr : Int)
  /-- before `limiter.Allow` -/
  | limiting
  /-- in a goroutine that disconnects and then lowers the counter -/
  | rejecting
  | rejected
  | handled (h : Handler)
  deriving DecidableEq, Repr

structure Conn where
  ip : Bytes
  place : ConnPlace

inductive ConnStep (conn succ : Limit) (s : SshServer) (c : Conn) : SshServer → Conn → Prop
  | accept : c.place = .dialing → s.accepting = true →
      ConnStep conn succ s c { s with accepting := false } { c with place := .accepted }
  | count : c.place = .accepted →
      ConnStep conn succ s c { s with connections := s.connections + 1 }
        { c with place := .counted (s.connections + 1) }
  | overMax (curr : Int) : c.place = .counted curr → conn.Answers curr false →
      ConnStep conn succ s c { s with accepting := true } { c with place := .rejecting }
  | underMax (curr : Int) : c.place = .counted curr → conn.Answers curr true →
      ConnStep conn succ s c s { c with place := .limiting }
  | limited (t₁ t₂ t₃ : ℚ) (rsv : Reservation) (L : SSHRateLimiter) : c.place = .limiting →
      s.limiter.allow c.ip t₁ t₂ t₃ = some (rsv, L) → rsv.ok = false →
      ConnStep conn succ s c { s with limiter := L, accepting := true }
        { c with place := .rejecting }
  | passed (t₁ t₂ t₃ : ℚ) (rsv : Reservation) (L : SSHRateLimiter) : c.place = .limiting →
      s.limiter.allow c.ip t₁ t₂ t₃ = some (rsv, L) → rsv.ok = true →
      ConnStep conn succ s c { s with limiter := L, accepting := true }
        { c with place := .handled .start }
  | disconnected : c.place = .rejecting →
      ConnStep conn succ s c { s with connections := s.connections - 1 }
        { c with place := .rejected }
  | handle (h h' : Handler) (s' : SshServer) : c.place = .handled h → HandleStep succ s h s' h' →
      ConnStep conn succ s c s' { c with place := .handled h' }

/-- The server before its first connection. -/
def listening {ι : Type} (L : SSHRateLimiter) (ip : ι → Bytes) : Family ι SshServer Conn :=
  ⟨⟨0, 0, L, true⟩, fun i => ⟨ip i, .dialing⟩⟩

/-! ## What is counted

The first three count connections by the operations they have made on the
counters, the next three by how far they have come. -/

/-- `connections` was raised for the call and not lowered again. -/
def Handler.owes (h : Handler) : Nat :=
  match h.place with
  | .handshake | .authenticated => 1
  | .returning => if h.unauthenticated ∧ .uncount ∈ h.defers then 1 else 0
  | _ => 0

/-- `succConnections` was raised by the call and not lowered again. -/
def Handler.owesSucc (h : Handler) : Nat :=
  match h.place with
  | .judging _ | .waiting | .session _ => 1
  | .returning => if .uncountSucc ∈ h.defers then 1 else 0
  | _ => 0

namespace Conn

def owes (c : Conn) : Nat :=
  match c.place with
  | .counted _ | .limiting | .rejecting => 1
  | .handled h => h.owes
  | _ => 0

def owesSucc (c : Conn) : Nat :=
  match c.place with
  | .handled h => h.owesSucc
  | _ => 0

/-- Admitted, with the deferred decrement still to come. -/
def holds (c : Conn) : Nat :=
  match c.place with
  | .handled h => if h.ok then h.owesSucc else 0
  | _ => 0

/-- Accepted, and neither rejected nor authenticated nor out of `handleConn`. -/
def preAuth (c : Conn) : Nat :=
  match c.place with
  | .accepted | .counted _ | .limiting | .rejecting => 1
  | .handled h =>
    match h.place with
    | .handshake => 1
    | .returning => if h.unauthenticated ∧ h.defers ≠ [] then 1 else 0
    | _ => 0
  | _ => 0

/-- Authenticated, and not out of `handleConn`. -/
def postAuth (c : Conn) : Nat :=
  match c.place with
  | .handled h =>
    match h.place with
    | .handshake => 0
    | .returning => if h.unauthenticated = false ∧ h.defers ≠ [] then 1 else 0
    | _ => 1
  | _ => 0

/-- Admitted, and not out of `handleConn`. -/
def admitted (c : Conn) : Nat :=
  match c.place with
  | .handled h => if h.ok ∧ ¬ h.Returned then 1 else 0
  | _ => 0

/-- Not begun, rejected, or out of `handleConn`. -/
def Ended (c : Conn) : Prop :=
  c.place = .dialing ∨ c.place = .rejected ∨ ∃ h, c.place = .handled h ∧ h.Returned

/-- Between an event and the operation on a counter that goes with it: accepted
and not yet counted, authenticated and not yet moved from one counter to the
other, or on the way out with its decrement made. -/
def Between (c : Conn) : Prop :=
  match c.place with
  | .accepted => True
  | .handled h =>
    match h.place with
    | .authenticated | .uncounted => True
    | .returning => h.defers ≠ [] ∧
        (if h.unauthenticated then Deferred.uncount else .uncountSucc) ∉ h.defers
    | _ => False
  | _ => False

end Conn

end FakeSSH.Main
