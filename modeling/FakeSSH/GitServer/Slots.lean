import FakeSSH.Lib.Interleave
import FakeSSH.GitServer.Lifecycle
import FakeSSH.GitServer.Request

/-!
# Process slots (`acquireLocalSlot`, `releaseLocalSlot`, `serveLocal`)

`localSlots` is a buffered channel used as a semaphore: a send takes a slot, a
receive gives one back. What is shared between the calls of one server is its
length. A `serveLocal` call takes a slot, builds the command, makes three pipes,
starts the child and waits for it; every return after the slot was taken runs
the deferred release, which receives from the channel or, finding it empty, does
nothing.

The counters of a call record what it did to the channel and to its child.
-/

namespace FakeSSH.GitServer

open FakeSSH.Lib

/-- What `serveLocal` returns: the refusal of a slot, the failure of a step with
the step it came from, or what `waitLocalProcess` returned. -/
inductive ServeRet (E : Type) where
  | slotsBusy
  | ctxErr
  | command (e : E)
  | stdoutPipe (e : E)
  | stderrPipe (e : E)
  | stdinPipe (e : E)
  | start (e : E)
  | process (r : Ret E)

/-- The places of `serveLocal`, from before the call to after its return. -/
inductive ServePC (E : Type) where
  | idle
  | acquire
  | buildCommand
  | stdoutPipe
  | stderrPipe
  | stdinPipe
  | start
  | waiting (w : Wait E)
  | release (r : ServeRet E)
  | returned (r : ServeRet E)

/-- A call: its place, its context, and how many slots it sent for and received
back, and how many children it started and reaped. -/
structure Serve (E : Type) where
  pc : ServePC E
  cancelled : Bool
  acquired : Nat
  released : Nat
  started : Nat
  reaped : Nat

variable {E : Type}

def Serve.idle : Serve E :=
  { pc := .idle, cancelled := false, acquired := 0, released := 0, started := 0, reaped := 0 }

/-- Where a step that can fail goes when it succeeds. -/
def ServePC.onSuccess : ServePC E → Option (ServePC E)
  | .buildCommand => some .stdoutPipe
  | .stdoutPipe => some .stderrPipe
  | .stderrPipe => some .stdinPipe
  | .stdinPipe => some .start
  | _ => none

/-- And the error it returns when it fails. -/
def ServePC.onFailure : ServePC E → Option (E → ServeRet E)
  | .buildCommand => some .command
  | .stdoutPipe => some .stdoutPipe
  | .stderrPipe => some .stderrPipe
  | .stdinPipe => some .stdinPipe
  | .start => some .start
  | _ => none

/-- One step of the call `c` of `srv`, from a channel of length `n`. -/
inductive ServeStep (srv : Server) (n : Nat) (c : Serve E) : Nat → Serve E → Prop
  | call : c.pc = .idle → ServeStep srv n c n { c with pc := .acquire }
  -- while the child runs, the context is `waitLocalProcess`'s
  | cancel : (∀ w, c.pc ≠ .waiting w) → ServeStep srv n c n { c with cancelled := true }
  -- `acquireLocalSlot`
  | unlimited : c.pc = .acquire → srv.localSlots = none →
      ServeStep srv n c n { c with pc := .buildCommand }
  | send (m : Nat) : c.pc = .acquire → srv.localSlots = some m → n < m →
      ServeStep srv n c (n + 1) { c with pc := .buildCommand, acquired := c.acquired + 1 }
  | busy (m : Nat) : c.pc = .acquire → srv.localSlots = some m → ¬ n < m →
      srv.config.refuseWhenBusy = true → ServeStep srv n c n { c with pc := .returned .slotsBusy }
  | giveUp (m : Nat) : c.pc = .acquire → srv.localSlots = some m →
      srv.config.refuseWhenBusy = false → c.cancelled = true →
      ServeStep srv n c n { c with pc := .returned .ctxErr }
  -- the command, the pipes and the start
  | succeed (pc : ServePC E) : c.pc.onSuccess = some pc →
      ServeStep srv n c n { c with pc := pc }
  | fail (err : E → ServeRet E) (e : E) : c.pc.onFailure = some err →
      ServeStep srv n c n { c with pc := .release (err e) }
  | start : c.pc = .start →
      ServeStep srv n c n { c with
        pc := .waiting { Wait.start with cancelled := c.cancelled }, started := c.started + 1 }
  -- `waitLocalProcess`
  | wait (w w' : Wait E) : c.pc = .waiting w → WaitStep w w' →
      ServeStep srv n c n { c with pc := .waiting w', reaped := reaps w'.log }
  | waited (w : Wait E) (r : Ret E) : c.pc = .waiting w → w.pc = .returned r →
      ServeStep srv n c n { c with pc := .release (.process r) }
  -- `releaseLocalSlot`
  | noSlots (r : ServeRet E) : c.pc = .release r → srv.localSlots = none →
      ServeStep srv n c n { c with pc := .returned r }
  | receive (m : Nat) (r : ServeRet E) : c.pc = .release r → srv.localSlots = some m → 0 < n →
      ServeStep srv n c (n - 1) { c with pc := .returned r, released := c.released + 1 }
  | drop (m : Nat) (r : ServeRet E) : c.pc = .release r → srv.localSlots = some m → n = 0 →
      ServeStep srv n c n { c with pc := .returned r }

/-- A server whose calls have not begun: the channel is empty. -/
def noCalls {ι : Type} : Family ι Nat (Serve E) := ⟨0, fun _ => .idle⟩

/-- The children a call has started and not reaped. -/
def Serve.children (c : Serve E) : Nat := c.started - c.reaped

/-- The slots it holds. -/
def Serve.held (c : Serve E) : Nat := c.acquired - c.released

/-- The call has not begun, or has returned. -/
def Serve.Over (c : Serve E) : Prop := c.pc = .idle ∨ ∃ r, c.pc = .returned r

end FakeSSH.GitServer
