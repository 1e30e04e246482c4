import FakeSSH.Main.Connections

/-!
# The connection counters count

Each counter equals the number of connections that have raised it and not yet
lowered it (`Accounts`), whatever the interleaving. What makes this work inside
one `handleConn` call is that `unauthenticated` and the stack of deferred calls
say which decrements are still to come (`Handler.Fits`).

Being counted and being there differ between an event and the counter operation
that goes with it. The widest gap is at the end of `handleConn`: deferred calls
run last in, first out, so `SuccConnections.Add(-1)` comes before the connection
is closed, and a call on its way out no longer holds the place it was admitted
to. Between these gaps the two agree.
-/

namespace FakeSSH.Main

open FakeSSH.Go FakeSSH.Lib Relation

variable {conn succ : Limit} {s s' : SshServer} {h h' : Handler} {c c' : Conn}

/-! ## The limit -/

/-- Whoever passes a limit that binds found the count within it. -/
theorem checkMaxConnections_le_hardMax {curr : Int} {l : Limit} {rnd : ℚ} (hl : l.Normalized)
    (ok : checkMaxConnections curr l.max l.hardMax l.lossRatio rnd = true) : curr ≤ l.hardMax := by
  unfold checkMaxConnections at ok
  unfold Limit.Normalized at hl
  split at ok
  · simp only [Bool.or_eq_true, decide_eq_true_eq] at ok
    omega
  · split at ok
    · omega
    · split at ok
      · cases ok
      · omega

/-- A limit from the options binds, or there is none at all. The doubling must
not overflow, which it does from `2 ^ 62` on. -/
theorem limitOf_normalized {default defaultHard : Int} {c : MaxConnectionsConfig}
    (hd : 0 < default ∧ default < 2 ^ 62) (hc : c.max < 2 ^ 62) :
    (limitOf default defaultHard c).Normalized ∨
      (limitOf default defaultHard c).max = 0 ∧ (limitOf default defaultHard c).hardMax ≤ 0 := by
  have double (n : Int) (pos : 0 < n) (small : n < 2 ^ 62) : (n * 2).bmod (2 ^ 64) = n * 2 :=
    Int.bmod_eq_of_le (by omega) (by omega)
  unfold Limit.Normalized limitOf
  by_cases h0 : c.max = 0
  · have := double default hd.1 hd.2
    simp only [h0, if_true]
    split <;> omega
  · by_cases hneg : c.max < 0
    · simp only [if_neg h0, if_pos hneg, lt_irrefl, and_false, if_false, false_and, true_and]
      omega
    · have := double c.max (by omega) hc
      simp only [if_neg h0, if_neg hneg]
      split <;> omega

/-! ## One call of `handleConn` -/

/-- The variables and the deferred calls of a `handleConn` call, by its place. -/
def Handler.Fits (h : Handler) : Prop :=
  match h.place with
  | .handshake | .authenticated =>
    h.unauthenticated = true ∧ h.ok = false ∧ h.defers = [.uncount, .close]
  | .uncounted | .judging _ =>
    h.unauthenticated = false ∧ h.ok = false ∧ h.defers = [.uncount, .close]
  | .waiting | .session _ => h.unauthenticated = false ∧ h.ok = true ∧ h.defers =
      [.stopIdleTimer, .stopCloseOnCancel, .cancelConn, .uncountSucc, .uncount, .close]
  | .returning => h.defers.Nodup ∧
      (h.unauthenticated = true → h.ok = false ∧ .uncountSucc ∉ h.defers)

/-- The call holds a place under the hard limit, or is about to be given one. -/
def Handler.claims (hardMax : Int) (h : Handler) : Nat :=
  match h.place with
  | .judging curr => if curr ≤ hardMax then 1 else 0
  | _ => if h.ok then h.owesSucc else 0

theorem Handler.claims_le (hardMax : Int) (h : Handler) : h.claims hardMax ≤ h.owesSucc := by
  unfold Handler.claims
  split
  next place =>
    simp only [Handler.owesSucc, place]
    split <;> omega
  next => split <;> omega

/-- What one connection has open: its part of each counter and its claim on a
place under the hard limit. -/
structure Dues where
  connections : Nat
  succConnections : Nat
  claims : Nat

def Handler.dues (hardMax : Int) (h : Handler) : Dues := ⟨h.owes, h.owesSucc, h.claims hardMax⟩

/-- What a step does to the counters: they move as the dues do, and a new claim
is made within a hard limit that binds. -/
structure Moves (l : Limit) (s : SshServer) (d : Dues) (s' : SshServer) (d' : Dues) : Prop where
  connections : s'.connections + d.connections = s.connections + d'.connections
  succConnections : s'.succConnections + d.succConnections = s.succConnections + d'.succConnections
  claims : l.Normalized →
    d'.claims ≤ d.claims ∨ d'.claims ≤ d.claims + 1 ∧ s.succConnections + 1 ≤ l.hardMax

/-- A step that touches no counter and no dues. -/
theorem Moves.same {d d' : Dues} (hc : s'.connections = s.connections)
    (hs : s'.succConnections = s.succConnections) (hd : d' = d) : Moves succ s d s' d' := by
  subst hd
  exact ⟨by rw [hc], by rw [hs], fun _ => .inl le_rfl⟩

theorem Handler.runDeferred_connections (h : Handler) (s : SshServer) (d : Deferred) :
    (h.runDeferred s d).connections =
      if h.unauthenticated ∧ d = .uncount then s.connections - 1 else s.connections := by
  cases d <;> cases hu : h.unauthenticated <;> simp [Handler.runDeferred, hu]

theorem Handler.runDeferred_succConnections (h : Handler) (s : SshServer) (d : Deferred) :
    (h.runDeferred s d).succConnections =
      if d = .uncountSucc then s.succConnections - 1 else s.succConnections := by
  cases d <;> cases hu : h.unauthenticated <;> simp [Handler.runDeferred, hu]

/-- Each deferred call takes back what it owes, and only the two that lower a
counter owe anything. -/
theorem Handler.Fits.unwind {d : Deferred} {ds : List Deferred} (fits : h.Fits)
    (place : h.place = .returning) (defers : h.defers = d :: ds) :
    ({ h with defers := ds } : Handler).Fits ∧
      Moves succ s (h.dues succ.hardMax) (h.runDeferred s d)
        (({ h with defers := ds } : Handler).dues succ.hardMax) := by
  simp only [Handler.Fits, place, defers, List.nodup_cons, List.mem_cons, not_or] at fits
  obtain ⟨⟨fresh, nodup⟩, unauth⟩ := fits
  refine ⟨?_, ?_, ?_, fun _ => .inl ?_⟩
  · simp only [Handler.Fits, place]
    exact ⟨nodup, fun hu => ⟨(unauth hu).1, (unauth hu).2.2⟩⟩
  · simp only [Handler.dues, Handler.owes, place, defers, h.runDeferred_connections, List.mem_cons]
    by_cases hd : d = .uncount
    · subst hd
      cases h.unauthenticated <;> simp [fresh]
    · simp [hd, Ne.symm hd]
  · simp only [Handler.dues, Handler.owesSucc, place, defers, h.runDeferred_succConnections,
      List.mem_cons]
    by_cases hd : d = .uncountSucc
    · subst hd
      simp [fresh]
    · simp [hd, Ne.symm hd]
  · simp only [Handler.dues, Handler.claims, Handler.owesSucc, place, defers, List.mem_cons]
    split
    · split <;> simp_all
    · exact le_rfl

theorem HandleStep.moves (step : HandleStep succ s h s' h') (fits : h.Fits) :
    h'.Fits ∧ Moves succ s (h.dues succ.hardMax) s' (h'.dues succ.hardMax) := by
  cases step with
  | failed place =>
    simp only [Handler.Fits, place] at fits
    obtain ⟨hu, hok, hd⟩ := fits
    refine ⟨?_, .same rfl rfl ?_⟩
    · simp [Handler.Fits, hd, hok]
    · simp [Handler.dues, Handler.owes, Handler.owesSucc, Handler.claims, place, hu, hd, hok]
  | authenticated place =>
    simp only [Handler.Fits, place] at fits
    refine ⟨fits, .same rfl rfl ?_⟩
    simp [Handler.dues, Handler.owes, Handler.owesSucc, Handler.claims, place]
  | uncount place =>
    simp only [Handler.Fits, place] at fits
    obtain ⟨hu, hok, hd⟩ := fits
    refine ⟨⟨rfl, hok, hd⟩, ?_, ?_, fun _ => .inl ?_⟩ <;>
      simp [Handler.dues, Handler.owes, Handler.owesSucc, Handler.claims, place]
  | count place =>
    simp only [Handler.Fits, place] at fits
    refine ⟨fits, ?_, ?_, fun _ => ?_⟩ <;>
      simp only [Handler.dues, Handler.owes, Handler.owesSucc, Handler.claims, place]
    · omega
    · split <;> omega
  | refuse curr place ans =>
    simp only [Handler.Fits, place] at fits
    obtain ⟨hu, hok, hd⟩ := fits
    refine ⟨?_, ?_, ?_, fun _ => .inl ?_⟩ <;>
      simp [Handler.Fits, Handler.dues, Handler.owes, Handler.owesSucc, Handler.claims, place, hu,
        hd]
  | admitted curr place ans =>
    simp only [Handler.Fits, place] at fits
    obtain ⟨hu, hok, hd⟩ := fits
    obtain ⟨rnd, -, -, ok⟩ := ans
    refine ⟨?_, ?_, ?_, fun hl => .inl ?_⟩
    · simp [Handler.Fits, hu, hd]
    · simp [Handler.dues, Handler.owes, place]
    · simp [Handler.dues, Handler.owesSucc, place]
    · -- the check passed, so this call had claimed its place when it counted itself
      have within := checkMaxConnections_le_hardMax hl ok
      simp [Handler.dues, Handler.claims, Handler.owesSucc, place, within]
  | session routeGit place =>
    simp only [Handler.Fits, place] at fits
    refine ⟨fits, .same rfl rfl ?_⟩
    simp [Handler.dues, Handler.owes, Handler.owesSucc, Handler.claims, place]
  | leave why leaves =>
    cases place : h.place <;>
      simp only [HandlerPlace.leaves, place, Bool.false_eq_true] at leaves <;>
      simp only [Handler.Fits, place] at fits <;> obtain ⟨hu, hok, hd⟩ := fits <;>
      refine ⟨?_, .same rfl rfl ?_⟩ <;>
      simp [Handler.Fits, Handler.dues, Handler.owes, Handler.owesSucc, Handler.claims, place, hu,
        hd, hok]
  | unwind d ds place defers => exact fits.unwind place defers

/-! ## One connection -/

def Conn.Fits (c : Conn) : Prop := ∀ h, c.place = .handled h → h.Fits

def Conn.claims (hardMax : Int) (c : Conn) : Nat :=
  match c.place with
  | .handled h => h.claims hardMax
  | _ => 0

def Conn.dues (hardMax : Int) (c : Conn) : Dues := ⟨c.owes, c.owesSucc, c.claims hardMax⟩

theorem Conn.dues_handled {hardMax : Int} (place : c.place = .handled h) :
    c.dues hardMax = h.dues hardMax := by
  simp only [Conn.dues, Conn.owes, Conn.owesSucc, Conn.claims, Handler.dues, place]

theorem ConnStep.moves (step : ConnStep conn succ s c s' c') (fits : c.Fits) :
    c'.Fits ∧ Moves succ s (c.dues succ.hardMax) s' (c'.dues succ.hardMax) := by
  cases step with
  | accept place acc =>
    refine ⟨nofun, .same rfl rfl ?_⟩
    simp only [Conn.dues, Conn.owes, Conn.owesSucc, Conn.claims, place]
  | count place =>
    refine ⟨nofun, ?_, ?_, fun _ => .inl ?_⟩ <;>
      simp [Conn.dues, Conn.owes, Conn.owesSucc, Conn.claims, place]
  | overMax curr place ans =>
    refine ⟨nofun, .same rfl rfl ?_⟩
    simp only [Conn.dues, Conn.owes, Conn.owesSucc, Conn.claims, place]
  | underMax curr place ans =>
    refine ⟨nofun, .same rfl rfl ?_⟩
    simp only [Conn.dues, Conn.owes, Conn.owesSucc, Conn.claims, place]
  | limited t₁ t₂ t₃ rsv L place allow ok =>
    refine ⟨nofun, .same rfl rfl ?_⟩
    simp only [Conn.dues, Conn.owes, Conn.owesSucc, Conn.claims, place]
  | passed t₁ t₂ t₃ rsv L place allow ok =>
    refine ⟨?_, .same rfl rfl ?_⟩
    · intro h hh
      cases hh
      exact ⟨rfl, rfl, rfl⟩
    · simp [Conn.dues, Conn.owes, Conn.owesSucc, Conn.claims, place, Handler.owes,
        Handler.owesSucc, Handler.claims, Handler.start]
  | disconnected place =>
    refine ⟨nofun, ?_, ?_, fun _ => .inl ?_⟩ <;>
      simp [Conn.dues, Conn.owes, Conn.owesSucc, Conn.claims, place]
  | handle h h' s' place step =>
    obtain ⟨hf, moves⟩ := step.moves (fits h place)
    refine ⟨?_, ?_⟩
    · intro k hk
      cases hk
      exact hf
    · rw [Conn.dues_handled place, Conn.dues_handled rfl]
      exact moves

/-- A connection that has ended owes nothing. -/
theorem Conn.Ended.owes (h : c.Ended) : c.owes = 0 ∧ c.owesSucc = 0 := by
  rcases h with place | place | ⟨h, place, ret, defers⟩
  · simp [Conn.owes, Conn.owesSucc, place]
  · simp [Conn.owes, Conn.owesSucc, place]
  · simp [Conn.owes, Conn.owesSucc, place, Handler.owes, Handler.owesSucc, ret, defers]

/-- A connection that is not between an event and its counter operation is
counted where it stands. -/
theorem Conn.Fits.settled (fits : c.Fits) (settled : ¬ c.Between) :
    c.owes = c.preAuth ∧ c.owesSucc = c.postAuth ∧ c.holds = c.admitted := by
  cases place : c.place with
  | handled h =>
    have hf := fits h place
    simp only [Conn.owes, Conn.owesSucc, Conn.holds, Conn.preAuth, Conn.postAuth, Conn.admitted,
      Conn.Between, place] at settled ⊢
    cases hp : h.place with
    | returning =>
      simp only [Handler.Fits, hp] at hf
      by_cases hd : h.defers = []
      · simp [Handler.owes, Handler.owesSucc, Handler.Returned, hp, hd]
      · -- the decrement is still to come, and which it is `unauthenticated` says
        cases hu : h.unauthenticated <;>
          simp_all [Handler.owes, Handler.owesSucc, Handler.Returned]
    | _ => simp_all [Handler.Fits, Handler.owes, Handler.owesSucc, Handler.Returned]
  | accepted => simp [Conn.Between, place] at settled
  | _ =>
    simp [Conn.owes, Conn.owesSucc, Conn.holds, Conn.preAuth, Conn.postAuth, Conn.admitted, place]

/-! ## All of them -/

variable {ι : Type} [DecidableEq ι] [Fintype ι] {f f' : Family ι SshServer Conn}

structure CountsInv (l : Limit) (f : Family ι SshServer Conn) : Prop where
  fits : ∀ i, (f.procs i).Fits
  connections : f.shared.connections = tally Conn.owes f.procs
  succConnections : f.shared.succConnections = tally Conn.owesSucc f.procs
  claims : l.Normalized → (tally (Conn.claims l.hardMax) f.procs : Int) ≤ l.hardMax

theorem Conn.claims_le (hardMax : Int) (c : Conn) : c.claims hardMax ≤ c.owesSucc := by
  cases place : c.place <;> simp only [Conn.claims, Conn.owesSucc, place, le_refl]
  exact Handler.claims_le hardMax _

theorem Conn.Fits.holds_le (hardMax : Int) (fits : c.Fits) : c.holds ≤ c.claims hardMax := by
  cases place : c.place with
  | handled h =>
    have hf := fits h place
    cases hp : h.place with
    | judging curr =>
      simp only [Handler.Fits, hp] at hf
      simp [Conn.holds, place, hf.2.1]
    | _ => simp only [Conn.holds, Conn.claims, Handler.claims, place, hp, le_refl]
  | _ => simp [Conn.holds, place]

theorem CountsInv.step (inv : CountsInv succ f) (h : Interleave (ConnStep conn succ) f f') :
    CountsInv succ f' := by
  obtain ⟨i, s', c', step, rfl⟩ := h
  obtain ⟨fits, moves⟩ := step.moves (inv.fits i)
  refine ⟨forall_update fits fun j _ => inv.fits j,
    tally_step_int inv.connections moves.connections,
    tally_step_int inv.succConnections moves.succConnections, ?_⟩
  intro hl
  show (tally (Conn.claims succ.hardMax) (Function.update f.procs i c') : Int) ≤ succ.hardMax
  have before := inv.claims hl
  have update := tally_update (Conn.claims succ.hardMax) f.procs i c'
  rcases moves.claims hl with less | ⟨more, room⟩
  · simp only [Conn.dues] at less
    omega
  · -- every claim is counted, so there is room for one more
    have counted : tally (Conn.claims succ.hardMax) f.procs ≤ tally Conn.owesSucc f.procs :=
      tally_le fun j => Conn.claims_le succ.hardMax (f.procs j)
    have count := inv.succConnections
    simp only [Conn.dues] at more
    omega

theorem countsInv_of_run {L : SSHRateLimiter} {ip : ι → Bytes}
    (run : ReflTransGen (Interleave (ConnStep conn succ)) (listening L ip) f) :
    CountsInv succ f := by
  have start : CountsInv succ (listening L ip) := by
    refine ⟨fun i => nofun, ?_, ?_, ?_⟩
    · exact (congrArg Nat.cast (tally_eq_zero fun _ => rfl)).symm
    · exact (congrArg Nat.cast (tally_eq_zero fun _ => rfl)).symm
    · intro hl
      have none : tally (Conn.claims succ.hardMax) (listening L ip).procs = 0 :=
        tally_eq_zero fun _ => rfl
      rcases hl with ⟨hpos, hlt⟩ | ⟨hzero, hpos⟩ <;> omega
  have keeps (a b : Family ι SshServer Conn) (inv : CountsInv succ a)
      (step : Interleave (ConnStep conn succ) a b) : CountsInv succ b := inv.step step
  exact invariant_of_steps keeps start run

/-- The accounts at one moment, for the limit `l` on authenticated connections. -/
structure Accounts (l : Limit) (f : Family ι SshServer Conn) : Prop where
  connections : f.shared.connections = tally Conn.owes f.procs
  succConnections : f.shared.succConnections = tally Conn.owesSucc f.procs
  nonneg : 0 ≤ f.shared.connections ∧ 0 ≤ f.shared.succConnections
  atEnd : (∀ i, (f.procs i).Ended) → f.shared.connections = 0 ∧ f.shared.succConnections = 0
  bound : l.Normalized → (tally Conn.holds f.procs : Int) ≤ l.hardMax
  settled : (∀ i, ¬ (f.procs i).Between) →
    f.shared.connections = tally Conn.preAuth f.procs ∧
      f.shared.succConnections = tally Conn.postAuth f.procs ∧
      (l.Normalized → (tally Conn.admitted f.procs : Int) ≤ l.hardMax)

/-- CONNECTION ACCOUNTING. However connections, rejections, handshakes, sessions
and their ends interleave, each counter is the number of connections that raised
it and have not lowered it. It is never negative, it is zero when all have ended,
and no more connections than a hard limit that binds are admitted with their
decrement to come. While none is between an event and its counter operation, the
same holds of the connections by how far they have come. -/
theorem connections_accounted {L : SSHRateLimiter} {ip : ι → Bytes}
    (run : ReflTransGen (Interleave (ConnStep conn succ)) (listening L ip) f) :
    Accounts succ f := by
  have inv := countsInv_of_run run
  have bound (hl : succ.Normalized) : (tally Conn.holds f.procs : Int) ≤ succ.hardMax := by
    have held : tally Conn.holds f.procs ≤ tally (Conn.claims succ.hardMax) f.procs :=
      tally_le fun i => (inv.fits i).holds_le succ.hardMax
    have := inv.claims hl
    omega
  refine ⟨inv.connections, inv.succConnections, ?_, ?_, bound, ?_⟩
  · rw [inv.connections, inv.succConnections]
    omega
  · intro ended
    rw [inv.connections, inv.succConnections, tally_eq_zero fun i => (ended i).owes.1,
      tally_eq_zero fun i => (ended i).owes.2]
    exact ⟨rfl, rfl⟩
  · intro settled
    have here (i : ι) := (inv.fits i).settled (settled i)
    rw [← tally_congr fun i => (here i).1, ← tally_congr fun i => (here i).2.1,
      ← tally_congr fun i => (here i).2.2]
    exact ⟨inv.connections, inv.succConnections, bound⟩

/-! ## Runs -/

/-- No rate limits. -/
def noRates : SSHRateLimiter :=
  { globalConfs := [], peripConfs := [], globalRl := [], peripRls := ∅ }

/-- No limit but the hard one, of one authenticated connection. -/
def onlyOne : Limit := succConnLimit { max := -1, hardMax := 1 }

theorem Limit.Answers.of_check {l : Limit} {curr : Int} {ok : Bool}
    (h : checkMaxConnections curr l.max l.hardMax l.lossRatio 0 = ok) : l.Answers curr ok :=
  ⟨0, le_rfl, one_pos, h⟩

/-- The first connection is served and leaves. After its decrement and before its
`Close`, the second is admitted; the third has been accepted and not counted. -/
theorem overtaken_run : ∃ f : Family (Fin 3) SshServer Conn,
    ReflTransGen (Interleave (ConnStep (connLimit { max := 0 }) onlyOne))
      (listening noRates fun _ => []) f ∧
      f.shared.connections = 0 ∧ f.shared.succConnections = 1 ∧ tally Conn.preAuth f.procs = 1 ∧
      tally Conn.postAuth f.procs = 2 ∧ tally Conn.admitted f.procs = 2 :=
  ⟨_, .head ⟨0, _, _, .accept rfl rfl, rfl⟩ <|
    .head ⟨0, _, _, .count rfl, rfl⟩ <|
    .head ⟨0, _, _, .underMax _ rfl (.of_check (by decide)), rfl⟩ <|
    .head ⟨0, _, _, .passed 0 0 0 _ _ rfl rfl rfl, rfl⟩ <|
    .head ⟨0, _, _, .handle _ _ _ rfl (.authenticated rfl), rfl⟩ <|
    .head ⟨0, _, _, .handle _ _ _ rfl (.uncount rfl), rfl⟩ <|
    .head ⟨0, _, _, .handle _ _ _ rfl (.count rfl), rfl⟩ <|
    .head ⟨0, _, _, .handle _ _ _ rfl (.admitted _ rfl (.of_check (by decide))), rfl⟩ <|
    .head ⟨0, _, _, .handle _ _ _ rfl (.leave .idleTimeout rfl), rfl⟩ <|
    .head ⟨0, _, _, .handle _ _ _ rfl (.unwind .stopIdleTimer _ rfl rfl), rfl⟩ <|
    .head ⟨0, _, _, .handle _ _ _ rfl (.unwind .stopCloseOnCancel _ rfl rfl), rfl⟩ <|
    .head ⟨0, _, _, .handle _ _ _ rfl (.unwind .cancelConn _ rfl rfl), rfl⟩ <|
    .head ⟨0, _, _, .handle _ _ _ rfl (.unwind .uncountSucc _ rfl rfl), rfl⟩ <|
    .head ⟨1, _, _, .accept rfl rfl, rfl⟩ <|
    .head ⟨1, _, _, .count rfl, rfl⟩ <|
    .head ⟨1, _, _, .underMax _ rfl (.of_check (by decide)), rfl⟩ <|
    .head ⟨1, _, _, .passed 0 0 0 _ _ rfl rfl rfl, rfl⟩ <|
    .head ⟨1, _, _, .handle _ _ _ rfl (.authenticated rfl), rfl⟩ <|
    .head ⟨1, _, _, .handle _ _ _ rfl (.uncount rfl), rfl⟩ <|
    .head ⟨1, _, _, .handle _ _ _ rfl (.count rfl), rfl⟩ <|
    .head ⟨1, _, _, .handle _ _ _ rfl (.admitted _ rfl (.of_check (by decide))), rfl⟩ <|
    .head ⟨2, _, _, .accept rfl rfl, rfl⟩ .refl,
    rfl, rfl, rfl, rfl, rfl⟩

theorem onlyOne_normalized : onlyOne.Normalized := .inr ⟨rfl, by decide⟩

theorem connections_accounted_overtaken : ∃ f : Family (Fin 3) SshServer Conn,
    f.shared.succConnections = 1 ∧ tally Conn.admitted f.procs = 2 ∧ Accounts onlyOne f := by
  obtain ⟨f, run, -, succ, -, -, admitted⟩ := overtaken_run
  exact ⟨f, succ, admitted, connections_accounted run⟩

/-- Between an event and its counter operation the counters are not the numbers
of connections by how far they have come: here two are admitted and not yet out
of `handleConn` under a hard limit of one. -/
theorem admitted_exceeds_hardMax : ∃ f : Family (Fin 3) SshServer Conn,
    ReflTransGen (Interleave (ConnStep (connLimit { max := 0 }) onlyOne))
      (listening noRates fun _ => []) f ∧
      onlyOne.Normalized ∧ onlyOne.hardMax < tally Conn.admitted f.procs ∧
      f.shared.succConnections ≠ tally Conn.postAuth f.procs ∧
      f.shared.connections ≠ tally Conn.preAuth f.procs := by
  obtain ⟨f, run, conns, succ, pre, post, admitted⟩ := overtaken_run
  refine ⟨f, run, onlyOne_normalized, ?_, ?_, ?_⟩
  · rw [admitted]
    decide
  · rw [succ, post]
    decide
  · rw [conns, pre]
    decide

end FakeSSH.Main
