import FakeSSH.Go.Strings
import FakeSSH.Lib.TokenBucket
import Mathlib.Data.Rat.Cast.Order
import Mathlib.Tactic.Positivity

/-!
# Rate limits (`rate.go`)

A `RateLimiter` is a list of token buckets that a connection must pass together:
`allowN` books from each in turn and, at the first that would make it wait, puts
everything back. The `SSHRateLimiter` has one such list for all connections and
one for each address, made when the address is first seen and dropped by
`cleanEmpty` once its buckets are full.

Times are in nanoseconds from the zero time. Every reading of the clock that the
code takes is an argument here.
-/

namespace FakeSSH.Main

open FakeSSH.Go FakeSSH.Lib

/-! ## Configuration -/

/-- `RateLimitConfig`, with the interval in nanoseconds. -/
structure RateLimitConfig where
  interval : Int
  limit : Int
  deriving DecidableEq, Repr

inductive RateLimitError where
  | missing
  | interval (d : Int)
  | limit (n : Int)
  deriving DecidableEq, Repr

/-- The error's text; `duration` is `fmt`'s `%v` of a `time.Duration`. -/
def RateLimitError.text (duration : Int → Bytes) : RateLimitError → Bytes
  | .missing => str "nil rate limit config"
  | .interval d => str "rate limit interval must be positive: " ++ duration d
  | .limit n => str "rate limit limit must be positive: " ++ str (toString n)

/-- The part of `CheckConfig` about rate limits; `none` is a nil pointer. -/
def checkRateLimits : List (Option RateLimitConfig) → Except RateLimitError Unit
  | [] => .ok ()
  | none :: _ => .error .missing
  | some c :: rest =>
    if c.interval ≤ 0 then .error (.interval c.interval)
    else if c.limit ≤ 0 then .error (.limit c.limit)
    else checkRateLimits rest

/-- `rate.Every`: one token per interval, and no limit for an interval that is
not positive. -/
def every (interval : Int) : Option { r : ℚ // 0 < r } :=
  if h : 0 < interval then some ⟨1 / interval, by positivity⟩ else none

/-- The 64-bit quotient of two durations. -/
def quotient (interval limit : Int) : Int := (interval.tdiv limit).bmod (2 ^ 64)

/-! ## Limiters -/

abbrev RateLimiter := List (Bucket ℚ)

/-- One bucket of `NewRateLimiter`; a limit of zero is a division by zero. -/
def newLimiter (c : RateLimitConfig) : Option (Bucket ℚ) :=
  if c.limit = 0 then none else some (.fresh (every (quotient c.interval c.limit)) c.limit)

/-- `NewRateLimiter`, `none` when it panics. -/
def newRateLimiter (cs : List RateLimitConfig) : Option RateLimiter := cs.mapM newLimiter

/-- `Reservation`: the bookings in the limiters' order. -/
structure Reservation where
  reservations : List (Booking ℚ) := []
  ok : Bool

/-- `Reservation.Merge`. -/
def Reservation.merge (r o : Reservation) : Reservation :=
  if !r.ok || !o.ok then { ok := false }
  else { reservations := r.reservations ++ o.reservations, ok := true }

/-- `Reservation.CancelAt` on the limiters that were booked from. -/
def cancelAt (t : ℚ) : RateLimiter → List (Booking ℚ) → RateLimiter
  | l :: ls, x :: xs => l.cancel x t :: cancelAt t ls xs
  | ls, _ => ls

/-- The loop of `AllowN`, at the limiters not yet asked; `taken` are those that
were, with their bookings. -/
def allowLoop (now n : ℚ) : List (Bucket ℚ × Booking ℚ) → RateLimiter → Reservation × RateLimiter
  | taken, [] => ({ reservations := taken.map (·.2), ok := true }, taken.map (·.1))
  | taken, l :: rest =>
    let (rsv, l') := l.reserve now n
    if !rsv.ok || decide (0 < rsv.delayFrom now) then
      ({ ok := false },
        taken.map (fun x => x.1.cancel x.2 now) ++
          (if rsv.ok then l'.cancel rsv now else l') :: rest)
    else allowLoop now n (taken ++ [(l', rsv)]) rest

/-- `RateLimiter.AllowN`, with the time it reads. -/
def allowN (ls : RateLimiter) (now n : ℚ) : Reservation × RateLimiter := allowLoop now n [] ls

/-! ## The server's limiter -/

structure SSHRateLimiter where
  globalConfs : List RateLimitConfig
  peripConfs : List RateLimitConfig
  globalRl : RateLimiter
  peripRls : Map RateLimiter

/-- `NewSSHRateLimiter`. -/
def newSSHRateLimiter (global perip : List RateLimitConfig) : Option SSHRateLimiter := do
  let rl ← newRateLimiter global
  some { globalConfs := global, peripConfs := perip, globalRl := rl, peripRls := ∅ }

namespace SSHRateLimiter

variable (L : SSHRateLimiter)

def hasPerIP : Bool := decide (0 < L.peripConfs.length)

def allowGlobal (now : ℚ) : Reservation × SSHRateLimiter :=
  let result := allowN L.globalRl now 1
  (result.1, { L with globalRl := result.2 })

/-- The limiter of an address: the one in the map, or a new one. -/
def limiterFor (ip : Bytes) : Option RateLimiter :=
  match L.peripRls.lookup ip with
  | some rl => some rl
  | none => newRateLimiter L.peripConfs

/-- `AllowPerIP`, `none` when `NewRateLimiter` panics. -/
def allowPerIP (ip : Bytes) (now : ℚ) : Option (Reservation × SSHRateLimiter) :=
  if !L.hasPerIP then some ({ ok := true }, L)
  else (L.limiterFor ip).map fun rl =>
    let result := allowN rl now 1
    (result.1, { L with peripRls := L.peripRls.insert ip result.2 })

/-- `Allow`. It reads the clock in `AllowGlobal`, again in `AllowPerIP`, and a
third time in `rsv.Cancel()`. -/
def allow (ip : Bytes) (t₁ t₂ t₃ : ℚ) : Option (Reservation × SSHRateLimiter) :=
  let (rsv, L) := L.allowGlobal t₁
  if rsv.ok && L.hasPerIP then
    (L.allowPerIP ip t₂).map fun (rsv₂, L) =>
      if rsv₂.ok then (rsv.merge rsv₂, L)
      else ({ ok := false }, { L with globalRl := cancelAt t₃ L.globalRl rsv.reservations })
  else some (rsv, L)

end SSHRateLimiter

/-- Whether all buckets are full, up to the first that is not, each at its own
reading of the clock; with the number of readings taken. -/
def allFull (clock : Nat → ℚ) : Nat → RateLimiter → Bool × Nat
  | k, [] => (true, k)
  | k, l :: ls => if l.tokensAt (clock k) < l.burst then (false, k + 1) else allFull clock (k + 1) ls

/-- The variables of `cleanEmpty`'s loop. -/
structure CleanState where
  peripRls : Map RateLimiter
  cleaned : Nat := 0
  kept : Nat := 0
  reads : Nat := 0

/-- The function that `cleanEmpty` passes to `Range`. -/
def cleanEntry (clock : Nat → ℚ) (st : CleanState) (ip : Bytes) : CleanState :=
  match st.peripRls.lookup ip with
  | none => st
  | some rl =>
    match allFull clock st.reads rl with
    | (true, reads) =>
      { peripRls := st.peripRls.erase ip, cleaned := st.cleaned + 1, kept := st.kept, reads := reads }
    | (false, reads) => { st with kept := st.kept + 1, reads := reads }

/-- `cleanEmpty`. `Range` may visit the addresses in any order. -/
def SSHRateLimiter.cleanEmpty (L : SSHRateLimiter) (clock : Nat → ℚ) (order : List Bytes) :
    (Nat × Nat) × SSHRateLimiter :=
  let st := order.foldl (cleanEntry clock) { peripRls := L.peripRls }
  ((st.cleaned, st.kept), { L with peripRls := st.peripRls })

/-! ## Runs -/

/-- The calls made on a limiter, with the readings of the clock they take. -/
inductive RateCall where
  | allow (ip : Bytes) (t₁ t₂ t₃ : ℚ)
  | allowPerIP (ip : Bytes) (t : ℚ)
  | cleanEmpty (clock : Nat → ℚ) (order : List Bytes)

/-- The call's readings lie between two times, and `Allow`'s do not decrease. -/
def RateCall.Within (c c' : ℚ) : RateCall → Prop
  | .allow _ t₁ t₂ t₃ => c ≤ t₁ ∧ t₁ ≤ t₂ ∧ t₂ ≤ t₃ ∧ t₃ ≤ c'
  | .allowPerIP _ t => c ≤ t ∧ t ≤ c'
  | .cleanEmpty clock _ => ∀ k, c ≤ clock k ∧ clock k ≤ c'

/-- Makes a call: the answer, if it has one, and the limiter after it. -/
def SSHRateLimiter.make (L : SSHRateLimiter) : RateCall → Option (Option Bool × SSHRateLimiter)
  | .allow ip t₁ t₂ t₃ => (L.allow ip t₁ t₂ t₃).map fun (rsv, L) => (some rsv.ok, L)
  | .allowPerIP ip t => (L.allowPerIP ip t).map fun (rsv, L) => (some rsv.ok, L)
  | .cleanEmpty clock order => some (none, (L.cleanEmpty clock order).2)

/-- A call between two times. -/
def RateStep (s s' : SSHRateLimiter × ℚ) : Prop :=
  ∃ call answer, call.Within s.2 s'.2 ∧ s.1.make call = some (answer, s'.1)

/-- What the caller of `Allow` or `AllowPerIP` sees. -/
inductive Outcome where
  | answered (ok : Bool)
  | panicked
  deriving DecidableEq, Repr

/-- The outcomes of a sequence of calls, up to a panic. -/
def SSHRateLimiter.outcomes (L : SSHRateLimiter) : List RateCall → List Outcome
  | [] => []
  | call :: calls =>
    match L.make call with
    | none => [.panicked]
    | some (none, L) => L.outcomes calls
    | some (some ok, L) => .answered ok :: L.outcomes calls

/-- The calls are made one after the other, from a time on. -/
def Timed : ℚ → List RateCall → Prop
  | _, [] => True
  | c, call :: calls => ∃ c', call.Within c c' ∧ Timed c' calls

end FakeSSH.Main
