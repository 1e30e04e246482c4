import FakeSSH.Lib.Log
import FakeSSH.Lib.Transition
import FakeSSH.GitServer.Session
import FakeSSH.Laws.Ssh.Messages

/-!
# The session protocol, in every interleaving

Four facts hold in every state a session reaches, each kept by every step of the
session, of its draining goroutine and of the rest of the process:

* the answers are, in order, to the requests taken, all but the one in hand;
* the positive answers are at most one protocol environment and then at most one
  authorized exec, and the backend is started on that exec (`Ledger`);
* the result received, the exit status and the close follow the session's place
  (`Session.Outcome`);
* each entry of the log was due when it was made (`SessionAllowed`).

`SessionSafe` reads the protocol off them.
-/

namespace FakeSSH.GitServer

open FakeSSH.Go FakeSSH.Lib FakeSSH.Ssh Relation

variable {E : Type} {srv : Server} {perms : Option Permissions} {s s' : Session E}

/-! ## What a request asks for -/

/-- An env request for `GIT_PROTOCOL=version=2`. -/
def GitProtocolEnv (r : SessionRequest) : Prop :=
  r.type = str "env" ∧
    gitEnvMsg.unmarshal r.payload = .ok (gitProtocolEnvName, gitProtocolEnvValue, ())

/-- An exec request whose command parses and is authorized, as `req`. -/
def ExecFor (srv : Server) (perms : Option Permissions) (r : SessionRequest) (req : Request) :
    Prop :=
  r.type = str "exec" ∧ ∃ command parsed, gitExecMsg.unmarshal r.payload = .ok (command, ()) ∧
    parseGitCommand command = .ok parsed ∧ srv.authorize perms parsed = .ok req

theorem verdict_env {envAccepted : Bool} {r : SessionRequest} {value : Bytes}
    (h : srv.verdict (E := E) perms envAccepted r = .env value) :
    envAccepted = false ∧ GitProtocolEnv r ∧ value = gitProtocolEnvValue := by
  unfold Server.verdict at h
  split at h
  · rename_i htype
    split at h
    · cases h
    · rename_i hfirst
      split at h
      · cases h
      · rename_i name value hmsg
        split at h
        · cases h
        · rename_i hallowed
          simp only [ne_eq, not_or, not_not] at hallowed
          cases h
          refine ⟨by simpa using hfirst, ⟨htype, ?_⟩, hallowed.2⟩
          rw [hmsg, ← hallowed.1, ← hallowed.2]
  · split at h
    · split at h <;> try cases h
      split at h <;> try cases h
      split at h <;> cases h
    · split at h <;> cases h

theorem verdict_exec {envAccepted : Bool} {r : SessionRequest} {req : Request}
    (h : srv.verdict (E := E) perms envAccepted r = .exec req) : ExecFor srv perms r req := by
  unfold Server.verdict at h
  split at h
  · split at h <;> try cases h
    split at h <;> try cases h
    split at h <;> cases h
  · split at h
    · rename_i htype
      split at h
      · cases h
      · rename_i command hmsg
        split at h
        · cases h
        · rename_i parsed hparsed
          split at h
          · cases h
          · rename_i authed hauth
            cases h
            exact ⟨htype, command, parsed, hmsg, hparsed, hauth⟩
    · split at h <;> cases h

/-! ## The log, read by kind of entry -/

@[simp]
def SessionEvent.consumed? : SessionEvent E → Option SessionRequest
  | .consumed r => some r
  | _ => none

@[simp]
def SessionEvent.answered? : SessionEvent E → Option SessionRequest
  | .answered r _ => some r
  | _ => none

@[simp]
def SessionEvent.accepted? : SessionEvent E → Option SessionRequest
  | .answered r true => some r
  | _ => none

@[simp]
def SessionEvent.started? : SessionEvent E → Option (Request × Bytes)
  | .backendStarted req gitProtocol => some (req, gitProtocol)
  | _ => none

@[simp]
def SessionEvent.result? : SessionEvent E → Option (Option E)
  | .resultReceived r => some r
  | _ => none

@[simp]
def SessionEvent.status? : SessionEvent E → Option Nat
  | .exitStatus n => some n
  | _ => none

@[simp]
def SessionEvent.close? : SessionEvent E → Option Unit
  | .channelClosed => some ()
  | _ => none

def consumed (log : List (SessionEvent E)) : List SessionRequest :=
  log.filterMap SessionEvent.consumed?
def answered (log : List (SessionEvent E)) : List SessionRequest :=
  log.filterMap SessionEvent.answered?
def accepted (log : List (SessionEvent E)) : List SessionRequest :=
  log.filterMap SessionEvent.accepted?
def starts (log : List (SessionEvent E)) : List (Request × Bytes) :=
  log.filterMap SessionEvent.started?
def results (log : List (SessionEvent E)) : List (Option E) :=
  log.filterMap SessionEvent.result?
def statuses (log : List (SessionEvent E)) : List Nat :=
  log.filterMap SessionEvent.status?
def closes (log : List (SessionEvent E)) : List Unit :=
  log.filterMap SessionEvent.close?

section Snoc

variable (log : List (SessionEvent E)) (e : SessionEvent E)

@[simp]
theorem consumed_snoc : consumed (log ++ [e]) = consumed log ++ e.consumed?.toList :=
  filterMap_snoc _ log e

@[simp]
theorem answered_snoc : answered (log ++ [e]) = answered log ++ e.answered?.toList :=
  filterMap_snoc _ log e

@[simp]
theorem accepted_snoc : accepted (log ++ [e]) = accepted log ++ e.accepted?.toList :=
  filterMap_snoc _ log e

@[simp]
theorem starts_snoc : starts (log ++ [e]) = starts log ++ e.started?.toList :=
  filterMap_snoc _ log e

@[simp]
theorem results_snoc : results (log ++ [e]) = results log ++ e.result?.toList :=
  filterMap_snoc _ log e

@[simp]
theorem statuses_snoc : statuses (log ++ [e]) = statuses log ++ e.status?.toList :=
  filterMap_snoc _ log e

@[simp]
theorem closes_snoc : closes (log ++ [e]) = closes log ++ e.close?.toList := filterMap_snoc _ log e

end Snoc

/-! ## What a session keeps -/

/-- The goroutines wait for their place. -/
def Session.Phase (s : Session E) : Prop :=
  match s.pc with
  | .start | .preExec | .serving _ | .spawnBackend _ => s.backend = .idle ∧ s.drain = .idle
  | .spawnDrain => s.drain = .idle
  | _ => True

/-- The answers are to the requests taken, in order, but for the one in hand. -/
def Session.Answers (s : Session E) : Prop := consumed s.log = answered s.log ++ s.hand

/-- The value that an accepted environment leaves for the backend. -/
def protocolOf : Option SessionRequest → Bytes
  | some _ => gitProtocolEnvValue
  | none => []

/-- The requests answered positively are `env` and then `exec`; the backend is
that exec's. -/
structure Ledger (srv : Server) (perms : Option Permissions) (s : Session E)
    (env exec : Option SessionRequest) : Prop where
  accepted : accepted s.log = env.toList ++ exec.toList
  envOk : ∀ r ∈ env, GitProtocolEnv r
  execOk : ∀ r ∈ exec, ∃ req, ExecFor srv perms r req
  locals : s.envAccepted = env.isSome ∧ s.gitProtocol = protocolOf env
  place : match s.pc with
    | .start | .preExec | .serving _ => exec = none
    | .spawnBackend req => ∃ r ∈ exec, ExecFor srv perms r req
    | _ => True
  backend : match s.backend with
    | .idle => starts s.log = []
    | .spawned req gitProtocol =>
      starts s.log = [] ∧ gitProtocol = s.gitProtocol ∧ ∃ r ∈ exec, ExecFor srv perms r req
    | _ => ∃ req, starts s.log = [(req, s.gitProtocol)] ∧ ∃ r ∈ exec, ExecFor srv perms r req

/-- The result, the exit status and the close, by the session's place. -/
def Session.Outcome (s : Session E) : Prop :=
  match s.pc with
  | .sendStatus r => results s.log = [r] ∧ statuses s.log = [] ∧ closes s.log = []
  | .finish r => results s.log = [r] ∧ statuses s.log = [exitCode r] ∧ closes s.log = []
  | .returning _ | .closing _ =>
    (results s.log).length ≤ 1 ∧ statuses s.log = (results s.log).map exitCode ∧ closes s.log = []
  | .returned _ =>
    (results s.log).length ≤ 1 ∧ statuses s.log = (results s.log).map exitCode ∧
      closes s.log = [()]
  | _ => results s.log = [] ∧ statuses s.log = [] ∧ closes s.log = []

/-- What an entry owes to the log before it. -/
def SessionAllowed (srv : Server) (perms : Option Permissions) (before : List (SessionEvent E)) :
    SessionEvent E → Prop
  | .answered r _ => consumed before = answered before ++ [r]
  | .backendStarted req gitProtocol => ∃ env r, accepted before = env.toList ++ [r] ∧
      (∀ e ∈ env, GitProtocolEnv e) ∧ ExecFor srv perms r req ∧ gitProtocol = protocolOf env
  | .exitStatus status =>
    (∃ r, results before = [r] ∧ status = exitCode r) ∧ closes before = []
  | _ => True

structure SessionInv (srv : Server) (perms : Option Permissions) (s : Session E) : Prop where
  phase : s.Phase
  answers : s.Answers
  ledger : ∃ env exec, Ledger srv perms s env exec
  outcome : s.Outcome
  justified : Justified (SessionAllowed srv perms) s.log

/-! ## Phases and answers -/

theorem SessionStep.phase (h : SessionStep srv perms s s') (hp : s.Phase) : s'.Phase := by
  rcases h with h | h | h
  · cases h with
    | runBackend req gitProtocol hb =>
      unfold Session.Phase at hp ⊢
      cases hpc : s.pc <;> simp_all
    | backendReturns r hb =>
      unfold Session.Phase at hp ⊢
      cases hpc : s.pc <;> simp_all
    | _ => exact hp
  · unfold Session.Phase at hp ⊢
    cases h <;> cases hpc : s.pc <;> simp_all
  · unfold Session.Phase at hp ⊢
    cases h <;> simp_all

theorem Session.Phase.serving {r : SessionRequest} (hp : s.Phase) (hpc : s.pc = .serving r) :
    s.backend = .idle ∧ s.drain = .idle := by
  simpa only [Session.Phase, hpc] using hp

/-- The session itself has a request in hand only until the drain is spawned. -/
theorem Session.Phase.not_serving {r : SessionRequest} (hp : s.Phase) (hd : s.drain = .holding r)
    (r' : SessionRequest) : s.pc ≠ .serving r' := by
  intro hpc
  rw [(hp.serving hpc).2] at hd
  cases hd

/-- The request that the session serves is the only one not yet answered. -/
theorem Session.Answers.serving {r : SessionRequest} (ha : s.Answers) (hp : s.Phase)
    (hpc : s.pc = .serving r) : consumed s.log = answered s.log ++ [r] := by
  apply ha.trans
  simp only [Session.hand, hpc, (hp.serving hpc).2, List.append_nil]

/-- And so is the one that the drain holds. -/
theorem Session.Answers.holding {r : SessionRequest} (ha : s.Answers) (hp : s.Phase)
    (hd : s.drain = .holding r) : consumed s.log = answered s.log ++ [r] := by
  apply ha.trans
  unfold Session.hand
  cases hpc : s.pc with
  | serving r' => exact absurd hpc (hp.not_serving hd r')
  | _ => simp only [hd, List.nil_append]

theorem SessionEnv.answers (h : SessionEnv s s') (ha : s.Answers) : s'.Answers := by
  cases h with
  | runBackend req gitProtocol hb =>
    simpa [Session.Answers, Session.hand] using ha
  | _ => exact ha

theorem SessionDrain.answers (h : SessionDrain s s') (hp : s.Phase) (ha : s.Answers) :
    s'.Answers := by
  have held {r : SessionRequest} (hd : s.drain = .holding r) := ha.holding hp hd
  unfold Session.Answers at ha ⊢
  cases h with
  | stop hd hc => simpa only [Session.hand, hd] using ha
  | receive r rest hd hreq =>
    simp [Session.hand, hd] at ha ⊢
    rw [ha, List.append_assoc]
  | answer r hd =>
    cases hpc : s.pc with
    | serving r' => exact absurd hpc (hp.not_serving hd r')
    | _ => simpa [Session.hand, hpc] using held hd
  | closed hd hreq hc => simpa only [Session.hand, hd] using ha

theorem SessionMain.answers (h : SessionMain srv perms s s') (hp : s.Phase) (ha : s.Answers) :
    s'.Answers := by
  have served {r : SessionRequest} (hpc : s.pc = .serving r) := ha.serving hp hpc
  unfold Session.Answers at ha ⊢
  cases h with
  | receive r rest hpc hreq =>
    simp only [Session.Phase, hpc] at hp
    simp [Session.hand, hpc, hp.2] at ha ⊢
    exact ha
  | refuse r ret hpc hv => simpa [Session.hand, (hp.serving hpc).2] using served hpc
  | acceptEnv r value hpc hv => simpa [Session.hand, (hp.serving hpc).2] using served hpc
  | acceptExec r req hpc hv => simpa [Session.hand, (hp.serving hpc).2] using served hpc
  | spawnDrain hpc =>
    simp only [Session.Phase, hpc] at hp
    simpa [Session.hand, hpc, hp] using ha
  | _ => simp_all [Session.hand]

/-! ## The result and the exit status -/

theorem SessionEnv.outcome (h : SessionEnv s s') (ho : s.Outcome) : s'.Outcome := by
  cases h with
  | runBackend req gitProtocol hb =>
    simpa [Session.Outcome] using ho
  | _ => exact ho

theorem SessionDrain.outcome (h : SessionDrain s s') (ho : s.Outcome) : s'.Outcome := by
  cases h with
  | stop hd hc => exact ho
  | receive r rest hd hreq =>
    simpa [Session.Outcome] using ho
  | answer r hd =>
    simpa [Session.Outcome] using ho
  | closed hd hreq hc => exact ho

theorem SessionMain.outcome (h : SessionMain srv perms s s') (ho : s.Outcome) : s'.Outcome := by
  unfold Session.Outcome at ho ⊢
  cases h <;>
    simp_all

/-! ## The ledger -/

theorem SessionEnv.ledger {env exec : Option SessionRequest} (h : SessionEnv s s')
    (hl : Ledger srv perms s env exec) : Ledger srv perms s' env exec := by
  obtain ⟨hacc, henv, hexec, hlocals, hplace, hback⟩ := hl
  cases h with
  | runBackend req gitProtocol hb =>
    simp only [hb] at hback
    obtain ⟨hstarts, rfl, hreq⟩ := hback
    exact ⟨by simpa using hacc, henv, hexec, hlocals, hplace, req, by simp [hstarts], hreq⟩
  | backendReturns r hb =>
    simp only [hb] at hback
    exact ⟨hacc, henv, hexec, hlocals, hplace, hback⟩
  | _ => exact ⟨hacc, henv, hexec, hlocals, hplace, hback⟩

theorem SessionDrain.ledger {env exec : Option SessionRequest} (h : SessionDrain s s')
    (hl : Ledger srv perms s env exec) : Ledger srv perms s' env exec := by
  obtain ⟨hacc, henv, hexec, hlocals, hplace, hback⟩ := hl
  cases h with
  | receive r rest hd hreq =>
    exact ⟨by simpa using hacc, henv, hexec, hlocals, hplace, by simpa using hback⟩
  | answer r hd =>
    exact ⟨by simpa using hacc, henv, hexec, hlocals, hplace, by simpa using hback⟩
  | _ => exact ⟨hacc, henv, hexec, hlocals, hplace, hback⟩

/-- Only an accepted request adds to the ledger, and only before the exec. -/
theorem SessionMain.ledger (h : SessionMain srv perms s s') (hp : s.Phase)
    (hl : ∃ env exec, Ledger srv perms s env exec) :
    ∃ env exec, Ledger srv perms s' env exec := by
  obtain ⟨env, exec, hacc, henv, hexec, hlocals, hplace, hback⟩ := hl
  cases h with
  | acceptEnv r value hpc hv =>
    obtain ⟨hfirst, hr, rfl⟩ := verdict_env hv
    have idle := (hp.serving hpc).1
    simp only [hpc] at hplace
    simp only [idle] at hback
    obtain rfl : env = none := by
      cases env with
      | none => rfl
      | some e => rw [hfirst] at hlocals; exact nomatch hlocals.1
    subst hplace
    refine ⟨some r, none, ?_, ?_, hexec, ⟨rfl, rfl⟩, rfl, ?_⟩
    · simp [hacc]
    · intro e he
      cases he
      exact hr
    · simp [idle, hback]
  | acceptExec r req hpc hv =>
    have hr := verdict_exec hv
    have idle := (hp.serving hpc).1
    simp only [hpc] at hplace
    simp only [idle] at hback
    subst hplace
    refine ⟨env, some r, ?_, henv, ?_, hlocals, ⟨r, rfl, hr⟩, ?_⟩
    · simp [hacc]
    · intro x hx
      cases hx
      exact ⟨req, hr⟩
    · simp [idle, hback]
  | spawnBackend req hpc =>
    simp only [Session.Phase, hpc] at hp
    simp only [hpc] at hplace
    simp only [hp.1] at hback
    exact ⟨env, exec, hacc, henv, hexec, hlocals, trivial, hback, rfl, hplace⟩
  | backendDone r hpc hb =>
    simp only [hb] at hback
    exact ⟨env, exec, by simpa using hacc, henv, hexec, hlocals, trivial, by simpa using hback⟩
  | pollDone r hpc hb =>
    simp only [hb] at hback
    exact ⟨env, exec, by simpa using hacc, henv, hexec, hlocals, trivial, by simpa using hback⟩
  | receive r rest hpc hreq =>
    simp only [hpc] at hplace
    exact ⟨env, exec, by simpa using hacc, henv, hexec, hlocals, hplace, by simpa using hback⟩
  | begin hpc hgit =>
    simp only [hpc] at hplace
    exact ⟨env, exec, hacc, henv, hexec, hlocals, hplace, hback⟩
  | _ => exact ⟨env, exec, by simpa using hacc, henv, hexec, hlocals, trivial, by simpa using hback⟩

/-! ## Whole runs -/

/-- A step adds nothing to the log, or one entry that is due. -/
theorem SessionStep.logged (h : SessionStep srv perms s s') (inv : SessionInv srv perms s) :
    s'.log = s.log ∨ ∃ e, s'.log = s.log ++ [e] ∧ SessionAllowed srv perms s.log e := by
  obtain ⟨hp, ha, ⟨env, exec, hl⟩, ho, -⟩ := inv
  rcases h with h | h | h
  · cases h with
    | runBackend req gitProtocol hb =>
      have hback := hl.backend
      simp only [hb] at hback
      obtain ⟨-, rfl, r, hr, hreq⟩ := hback
      refine .inr ⟨_, rfl, env, r, ?_, hl.envOk, hreq, hl.locals.2⟩
      rw [hl.accepted, Option.mem_def.mp hr, Option.toList_some]
    | _ => exact .inl rfl
  · cases h with
    | receive r rest hd hreq => exact .inr ⟨_, rfl, trivial⟩
    | answer r hd => exact .inr ⟨_, rfl, ha.holding hp hd⟩
    | _ => exact .inl rfl
  · cases h with
    | receive r rest hpc hreq => exact .inr ⟨_, rfl, trivial⟩
    | refuse r ret hpc hv => exact .inr ⟨_, rfl, ha.serving hp hpc⟩
    | acceptEnv r value hpc hv => exact .inr ⟨_, rfl, ha.serving hp hpc⟩
    | acceptExec r req hpc hv => exact .inr ⟨_, rfl, ha.serving hp hpc⟩
    | backendDone r hpc hb => exact .inr ⟨_, rfl, trivial⟩
    | pollDone r hpc hb => exact .inr ⟨_, rfl, trivial⟩
    | sendStatus r hpc =>
      simp only [Session.Outcome, hpc] at ho
      exact .inr ⟨_, rfl, ⟨r, ho.1, rfl⟩, ho.2.2⟩
    | close ret hpc => exact .inr ⟨_, rfl, trivial⟩
    | _ => exact .inl rfl

theorem SessionInv.start : SessionInv srv perms (Session.start : Session E) where
  phase := ⟨rfl, rfl⟩
  answers := rfl
  ledger := ⟨none, none, rfl, nofun, nofun, ⟨rfl, rfl⟩, rfl, rfl⟩
  outcome := ⟨rfl, rfl, rfl⟩
  justified := .nil

theorem SessionInv.step (inv : SessionInv srv perms s) (h : SessionStep srv perms s s') :
    SessionInv srv perms s' where
  phase := h.phase inv.phase
  answers := by
    rcases h with h | h | h
    · exact h.answers inv.answers
    · exact h.answers inv.phase inv.answers
    · exact h.answers inv.phase inv.answers
  ledger := by
    obtain ⟨env, exec, hl⟩ := inv.ledger
    rcases h with h | h | h
    · exact ⟨env, exec, h.ledger hl⟩
    · exact ⟨env, exec, h.ledger hl⟩
    · exact h.ledger inv.phase ⟨env, exec, hl⟩
  outcome := by
    rcases h with h | h | h
    · exact h.outcome inv.outcome
    · exact h.outcome inv.outcome
    · exact h.outcome inv.outcome
  justified := by
    rcases h.logged inv with heq | ⟨e, heq, due⟩ <;> rw [heq]
    · exact inv.justified
    · exact inv.justified.snoc due

theorem sessionInv_of_run (run : ReflTransGen (SessionStep srv perms) Session.start s) :
    SessionInv srv perms s := by
  have keeps (a b : Session E) (inv : SessionInv srv perms a) (step : SessionStep srv perms a b) :
      SessionInv srv perms b := inv.step step
  exact invariant_of_steps keeps .start run

theorem Ledger.starts_le_one {env exec : Option SessionRequest}
    (h : Ledger srv perms s env exec) : (starts s.log).length ≤ 1 := by
  have hback := h.backend
  split at hback
  · rw [hback]
    exact Nat.zero_le 1
  · rw [hback.1]
    exact Nat.zero_le 1
  · obtain ⟨req, hstarts, -⟩ := hback
    rw [hstarts]
    exact Nat.le_refl 1

theorem Session.Outcome.statuses_le_one (h : s.Outcome) : (statuses s.log).length ≤ 1 := by
  unfold Session.Outcome at h
  split at h <;> simp_all

/-- A session that has returned sent a status for a result, and closed once. -/
theorem Session.Outcome.returned {ret : SessionRet E} (h : s.Outcome) (hpc : s.pc = .returned ret) :
    statuses s.log = (results s.log).map exitCode ∧ closes s.log = [()] := by
  simp only [Session.Outcome, hpc] at h
  exact h.2

theorem Session.Phase.hand_le_one (h : s.Phase) : s.hand.length ≤ 1 := by
  unfold Session.Phase at h
  unfold Session.hand
  cases hpc : s.pc <;> cases hd : s.drain <;> simp_all

/-- Whoever has a request in hand can answer it. -/
theorem Session.answerable {r : SessionRequest} (hr : r ∈ s.hand) :
    ∃ ok s', SessionStep srv perms s s' ∧ s'.log = s.log ++ [.answered r ok] := by
  rcases List.mem_append.mp hr with hr | hr
  · cases hpc : s.pc with
    | serving r' =>
      simp only [hpc, List.mem_singleton] at hr
      subst hr
      cases hv : srv.verdict (E := E) perms s.envAccepted r with
      | refuse ret => exact ⟨false, _, .inr (.inr (.refuse r ret hpc hv)), rfl⟩
      | env value => exact ⟨true, _, .inr (.inr (.acceptEnv r value hpc hv)), rfl⟩
      | exec req => exact ⟨true, _, .inr (.inr (.acceptExec r req hpc hv)), rfl⟩
    | _ => simp [hpc] at hr
  · cases hd : s.drain with
    | holding r' =>
      simp only [hd, List.mem_singleton] at hr
      subst hr
      exact ⟨false, _, .inr (.inl (.answer r hd)), rfl⟩
    | _ => simp [hd] at hr

/-! ## The protocol -/

/-- What every moment of every session satisfies. -/
structure SessionSafe (srv : Server) (perms : Option Permissions) (s : Session E) : Prop where
  startedOnce : (starts s.log).length ≤ 1
  startedOnExec : ∀ before req gitProtocol after,
    s.log = before ++ .backendStarted req gitProtocol :: after →
      ∃ env r, accepted before = env.toList ++ [r] ∧ (∀ e ∈ env, GitProtocolEnv e) ∧
        ExecFor srv perms r req ∧ gitProtocol = protocolOf env
  acceptsOneEnvOneExec : ∃ env exec : Option SessionRequest,
    accepted s.log = env.toList ++ exec.toList ∧ (∀ e ∈ env, GitProtocolEnv e) ∧
      ∀ r ∈ exec, ∃ req, ExecFor srv perms r req
  answersTaken : consumed s.log = answered s.log ++ s.hand ∧ s.hand.length ≤ 1
  answersInTurn : ∀ before r ok after, s.log = before ++ .answered r ok :: after →
    consumed before = answered before ++ [r]
  answerable : ∀ r ∈ s.hand, ∃ ok s',
    SessionStep srv perms s s' ∧ s'.log = s.log ++ [.answered r ok]
  statusOnce : (statuses s.log).length ≤ 1
  statusOfResult : ∀ before status after, s.log = before ++ .exitStatus status :: after →
    (∃ r, results before = [r] ∧ status = exitCode r) ∧ closes before = []
  statusSent : ∀ ret, s.pc = .returned ret → statuses s.log = (results s.log).map exitCode
  closed : ∀ ret, s.pc = .returned ret → closes s.log = [()]

/-- SESSION PROTOCOL. Whatever requests arrive, and however the timeout, the
cancellation, the end of the stream and the backend interleave with them, every
state of a `HandleSession` call keeps the protocol. -/
theorem handleSession_safe (run : ReflTransGen (SessionStep srv perms) Session.start s) :
    SessionSafe srv perms s := by
  obtain ⟨hp, ha, ⟨env, exec, hl⟩, ho, hj⟩ := sessionInv_of_run run
  exact {
    startedOnce := hl.starts_le_one
    startedOnExec := fun before req gitProtocol after => hj before (.backendStarted _ _) after
    acceptsOneEnvOneExec := ⟨env, exec, hl.accepted, hl.envOk, hl.execOk⟩
    answersTaken := ⟨ha, hp.hand_le_one⟩
    answersInTurn := fun before r ok after => hj before (.answered r ok) after
    answerable := fun r hr => Session.answerable hr
    statusOnce := ho.statuses_le_one
    statusOfResult := fun before status after => hj before (.exitStatus status) after
    statusSent := fun ret hpc => (ho.returned hpc).1
    closed := fun ret hpc => (ho.returned hpc).2 }

/-- A server with one repository, and the permission of its reader. -/
def oneRepo : Server :=
  Server.ofConfig { repositories := [⟨str "p", str "p", [str "k"], []⟩] } ∅

def reader : Option Permissions :=
  some ⟨some ((AList.insert permExtGitServer (str "1") ∅).insert permExtKeyFingerprint (str "k"))⟩

def versionTwo : SessionRequest :=
  { type := str "env"
    payload := [0, 0, 0, 12] ++ gitProtocolEnvName ++ [0, 0, 0, 9] ++ gitProtocolEnvValue }

def fetch : SessionRequest :=
  { type := str "exec", payload := [0, 0, 0, 17] ++ str "git-upload-pack p" }

def fetched : Request := ⟨str "git-upload-pack", .read, str "p", str "p"⟩

theorem verdict_versionTwo :
    oneRepo.verdict (E := Unit) reader false versionTwo = .env gitProtocolEnvValue := by
  have hmsg : gitEnvMsg.unmarshal versionTwo.payload =
      .ok (gitProtocolEnvName, gitProtocolEnvValue, ()) := by
    have written : versionTwo.payload =
        gitEnvMsg.marshal (gitProtocolEnvName, gitProtocolEnvValue, ()) := by decide
    rw [written]
    exact Layout.unmarshal_marshal ⟨by decide, nofun⟩ ⟨trivial, trivial, trivial⟩ (by decide)
      (by decide)
  have htype : versionTwo.type = str "env" := rfl
  simp [Server.verdict, htype, hmsg]

theorem verdict_fetch : oneRepo.verdict (E := Unit) reader true fetch = .exec fetched := by
  rfl

/-- A fetch over protocol version 2; a second exec is refused while it runs. -/
theorem fetch_run : ∃ s : Session Unit,
    ReflTransGen (SessionStep oneRepo reader) Session.start s ∧
      s.log = [.consumed versionTwo, .answered versionTwo true, .consumed fetch,
        .answered fetch true, .backendStarted fetched gitProtocolEnvValue, .consumed fetch,
        .answered fetch false, .resultReceived none, .exitStatus 0, .channelClosed] :=
  ⟨_, .head (.inl (.arrive versionTwo rfl)) <|
    .head (.inl (.arrive fetch rfl)) <|
    .head (.inl (.arrive fetch rfl)) <|
    .head (.inr (.inr (.begin rfl rfl))) <|
    .head (.inr (.inr (.receive _ _ rfl rfl))) <|
    .head (.inr (.inr (.acceptEnv _ _ rfl verdict_versionTwo))) <|
    .head (.inr (.inr (.receive _ _ rfl rfl))) <|
    .head (.inr (.inr (.acceptExec _ _ rfl verdict_fetch))) <|
    .head (.inr (.inr (.spawnBackend _ rfl))) <|
    .head (.inl (.runBackend _ _ rfl)) <|
    .head (.inr (.inr (.spawnDrain rfl))) <|
    .head (.inr (.inl (.receive _ _ rfl rfl))) <|
    .head (.inr (.inl (.answer _ rfl))) <|
    .head (.inl (.backendReturns none rfl)) <|
    .head (.inr (.inr (.backendDone none rfl rfl))) <|
    .head (.inr (.inr (.sendStatus none rfl))) <|
    .head (.inr (.inr (.finish none rfl rfl))) <|
    .head (.inr (.inr (.cancelBackend _ rfl))) <|
    .head (.inr (.inr (.close _ rfl))) .refl, rfl⟩

theorem handleSession_safe_fetch : ∃ s : Session Unit,
    starts s.log = [(fetched, gitProtocolEnvValue)] ∧ statuses s.log = [0] ∧
      SessionSafe oneRepo reader s := by
  obtain ⟨s, run, hlog⟩ := fetch_run
  exact ⟨s, by rw [hlog]; rfl, by rw [hlog]; rfl, handleSession_safe run⟩

end FakeSSH.GitServer
