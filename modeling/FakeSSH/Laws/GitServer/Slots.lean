import FakeSSH.GitServer.Slots
import FakeSSH.Laws.GitServer.Lifecycle

/-!
# The children of one server are bounded

A call holds a slot exactly between its send and its receive, and the channel's
length is the number of slots held (`SlotsInv`). So the deferred receive always
finds a token, and it is the one the call put there. The lifecycle supplies what
joins slots to children: `waitLocalProcess` has reaped when it returns, so a
child lives only inside the slot of its call.
-/

namespace FakeSSH.GitServer

open FakeSSH.Lib Relation

variable {E ι : Type} {srv : Server} {m n n' : Nat} {c c' : Serve E}

/-- What a call has done to the channel and to its child, by its place. -/
def Serve.Fits (c : Serve E) : Prop :=
  match c.pc with
  | .idle | .acquire => c.acquired = 0 ∧ c.released = 0 ∧ c.started = 0 ∧ c.reaped = 0
  | .buildCommand | .stdoutPipe | .stderrPipe | .stdinPipe | .start =>
    c.acquired = 1 ∧ c.released = 0 ∧ c.started = 0 ∧ c.reaped = 0
  | .waiting w =>
    c.acquired = 1 ∧ c.released = 0 ∧ c.started = 1 ∧ c.reaped = reaps w.log ∧ WaitInv w
  | .release _ => c.acquired = 1 ∧ c.released = 0 ∧ c.started = c.reaped
  | .returned _ => c.acquired ≤ 1 ∧ c.released = c.acquired ∧ c.started = c.reaped

theorem Serve.Fits.released_le (h : c.Fits) : c.released ≤ c.acquired ∧ c.acquired ≤ 1 := by
  unfold Serve.Fits at h
  split at h <;> omega

/-- A child lives inside its call's slot. -/
theorem Serve.Fits.children_le_held (h : c.Fits) : c.children ≤ c.held := by
  unfold Serve.Fits at h
  unfold Serve.children Serve.held
  split at h <;> omega

theorem Serve.Fits.held_of_over (h : c.Fits) (done : c.Over) : c.held = 0 := by
  unfold Serve.held
  rcases done with hpc | ⟨r, hpc⟩
  · simp only [Serve.Fits, hpc] at h
    omega
  · simp only [Serve.Fits, hpc] at h
    omega

/-- A step that can fail is taken with the slot and without a child. -/
theorem Serve.Fits.of_onFailure {err : E → ServeRet E} (h : c.Fits)
    (hf : c.pc.onFailure = some err) :
    c.acquired = 1 ∧ c.released = 0 ∧ c.started = 0 ∧ c.reaped = 0 := by
  cases hpc : c.pc <;> simp only [hpc, ServePC.onFailure, reduceCtorEq] at hf <;>
    simpa only [Serve.Fits, hpc] using h

/-- So is the one it leads to. -/
theorem Serve.Fits.onSuccess {pc : ServePC E} (h : c.Fits) (hs : c.pc.onSuccess = some pc) :
    ({ c with pc := pc } : Serve E).Fits := by
  cases hpc : c.pc <;> simp only [hpc, ServePC.onSuccess, reduceCtorEq, Option.some.injEq] at hs <;>
    subst hs <;> simp only [Serve.Fits, hpc] at h <;> exact h

theorem WaitInv.start_cancelled (b : Bool) :
    WaitInv ({ Wait.start with cancelled := b } : Wait E) := by
  cases b with
  | false => exact .start
  | true => exact WaitInv.start.env (.cancel _)

/-- What one step of a call does, given that the channel counts its slot. -/
theorem ServeStep.fits (hm : srv.localSlots = some m) (h : ServeStep srv n c n' c')
    (hc : c.Fits) (held : c.held ≤ n) (cap : n ≤ m) :
    c'.Fits ∧ n' + c.held = n + c'.held ∧ n' ≤ m := by
  cases h with
  | call hpc =>
    simp only [Serve.Fits, hpc] at hc
    exact ⟨hc, rfl, cap⟩
  | cancel hpc => exact ⟨hc, rfl, cap⟩
  | unlimited hpc hnil => exact nomatch hnil.symm.trans hm
  | send m' hpc hm' hlt =>
    cases hm'.symm.trans hm
    simp only [Serve.Fits, hpc] at hc
    obtain ⟨ha, hr, hs, hp⟩ := hc
    refine ⟨⟨by simp only [ha], hr, hs, hp⟩, ?_, hlt⟩
    simp only [Serve.held, ha, hr]
  | busy m' hpc hm' hfull hrefuse =>
    simp only [Serve.Fits, hpc] at hc
    obtain ⟨ha, hr, hs, hp⟩ := hc
    exact ⟨⟨by simp only [ha]; omega, hr.trans ha.symm, hs.trans hp.symm⟩, rfl, cap⟩
  | giveUp m' hpc hm' hrefuse hdone =>
    simp only [Serve.Fits, hpc] at hc
    obtain ⟨ha, hr, hs, hp⟩ := hc
    exact ⟨⟨by simp only [ha]; omega, hr.trans ha.symm, hs.trans hp.symm⟩, rfl, cap⟩
  | succeed pc hs => exact ⟨hc.onSuccess hs, rfl, cap⟩
  | fail err e hf =>
    obtain ⟨ha, hr, hs, hp⟩ := hc.of_onFailure hf
    exact ⟨⟨ha, hr, hs.trans hp.symm⟩, rfl, cap⟩
  | start hpc =>
    simp only [Serve.Fits, hpc] at hc
    obtain ⟨ha, hr, hs, hp⟩ := hc
    exact ⟨⟨ha, hr, by simp only [hs], hp, .start_cancelled _⟩, rfl, cap⟩
  | wait w w' hpc hstep =>
    simp only [Serve.Fits, hpc] at hc
    obtain ⟨ha, hr, hs, -, inv⟩ := hc
    exact ⟨⟨ha, hr, hs, rfl, inv.step hstep⟩, rfl, cap⟩
  | waited w r hpc hret =>
    simp only [Serve.Fits, hpc] at hc
    obtain ⟨ha, hr, hs, hp, inv⟩ := hc
    -- `waitLocalProcess` has returned, so it has reaped
    have reaped : reaps w.log = 1 := by
      have place := inv.place
      simp only [Wait.Place, hret] at place
      exact place.1
    exact ⟨⟨ha, hr, by rw [hs, hp, reaped]⟩, rfl, cap⟩
  | noSlots r hpc hnil => exact nomatch hnil.symm.trans hm
  | receive m' r hpc hm' hn =>
    simp only [Serve.Fits, hpc] at hc
    obtain ⟨ha, hr, hs⟩ := hc
    refine ⟨⟨by simp only [ha]; omega, by simp only [ha, hr], hs⟩, ?_, by omega⟩
    simp only [Serve.held, ha, hr]
    omega
  | drop m' r hpc hm' hn =>
    -- the channel counts the slot of this call, so it is not empty
    simp only [Serve.Fits, hpc] at hc
    simp only [Serve.held] at held
    omega

variable [DecidableEq ι] [Fintype ι] {s s' : Family ι Nat (Serve E)}

structure SlotsInv (m : Nat) (s : Family ι Nat (Serve E)) : Prop where
  fits : ∀ i, (s.procs i).Fits
  length : s.shared = tally Serve.held s.procs
  cap : s.shared ≤ m

theorem SlotsInv.step (hm : srv.localSlots = some m) (inv : SlotsInv m s)
    (h : Interleave (ServeStep srv) s s') : SlotsInv m s' := by
  obtain ⟨i, n', c', step, rfl⟩ := h
  have held : (s.procs i).held ≤ s.shared := inv.length ▸ le_tally Serve.held s.procs i
  obtain ⟨fits, moves, cap⟩ := step.fits hm (inv.fits i) held inv.cap
  exact ⟨forall_update fits fun j _ => inv.fits j, tally_step inv.length moves, cap⟩

theorem slotsInv_of_run (hm : srv.localSlots = some m)
    (run : ReflTransGen (Interleave (ServeStep srv)) noCalls s) : SlotsInv m s := by
  have start : SlotsInv m (noCalls : Family ι Nat (Serve E)) :=
    ⟨fun _ => ⟨rfl, rfl, rfl, rfl⟩, (tally_eq_zero fun _ => rfl).symm, Nat.zero_le m⟩
  have keeps (a b : Family ι Nat (Serve E)) (inv : SlotsInv m a)
      (step : Interleave (ServeStep srv) a b) : SlotsInv m b := inv.step hm step
  exact invariant_of_steps keeps start run

/-- What every moment of a server with `m` slots satisfies. -/
structure Bounded (m : Nat) (s : Family ι Nat (Serve E)) : Prop where
  children : tally Serve.children s.procs ≤ m
  givesBackItsOwn : ∀ i, (s.procs i).released ≤ (s.procs i).acquired ∧ (s.procs i).acquired ≤ 1
  givesBackAll : ∀ i r, (s.procs i).pc = .returned r →
    (s.procs i).released = (s.procs i).acquired
  neverDrops : ∀ i r, (s.procs i).pc = .release r → 0 < s.shared
  freeAtEnd : (∀ i, (s.procs i).Over) → s.shared = 0

theorem localSlots_ofConfig {cfg : Config} (h : cfg.maxGitShellProcesses = m) (hm : 0 < m)
    (keys : Go.Map AuthorizedKeyEntry) : (Server.ofConfig cfg keys).localSlots = some m := by
  have hpos : 0 < cfg.maxGitShellProcesses := by omega
  rw [Server.ofConfig, if_pos hpos, h, Int.toNat_natCast]

/-- BOUNDED CHILDREN. However the `serveLocal` calls of a server with `m > 0`
process slots interleave, at most `m` children are started and unreaped, each
call gives back the slot it took and no other, and once all calls are over every
slot is free. -/
theorem serveLocal_bounded {cfg : Config} (keys : Go.Map AuthorizedKeyEntry)
    (h : cfg.maxGitShellProcesses = m) (hm : 0 < m)
    (run : ReflTransGen (Interleave (ServeStep (Server.ofConfig cfg keys))) noCalls s) :
    Bounded m s := by
  have inv := slotsInv_of_run (localSlots_ofConfig h hm keys) run
  refine ⟨?_, fun i => (inv.fits i).released_le, ?_, ?_, ?_⟩
  · calc tally Serve.children s.procs
        ≤ tally Serve.held s.procs := tally_le fun i => (inv.fits i).children_le_held
      _ = s.shared := inv.length.symm
      _ ≤ m := inv.cap
  · intro i r hpc
    have fits := inv.fits i
    simp only [Serve.Fits, hpc] at fits
    exact fits.2.1
  · intro i r hpc
    have fits := inv.fits i
    simp only [Serve.Fits, hpc] at fits
    have held : (s.procs i).held ≤ s.shared := inv.length ▸ le_tally Serve.held s.procs i
    simp only [Serve.held] at held
    omega
  · intro done
    rw [inv.length]
    exact tally_eq_zero fun i => (inv.fits i).held_of_over (done i)

/-- One slot, and refusal when it is taken. -/
def oneSlot : Config := { maxGitShellProcesses := 1, refuseWhenBusy := true }

omit [Fintype ι] in
/-- A run of `waitLocalProcess` is one of its call. -/
theorem waiting_runs {w w' : Wait E} (run : ReflTransGen WaitStep w w') (i : ι)
    (hpc : s.procs i = { c with pc := .waiting w, reaped := reaps w.log }) :
    ReflTransGen (Interleave (ServeStep srv)) s
      ⟨s.shared, Function.update s.procs i
        { c with pc := .waiting w', reaped := reaps w'.log }⟩ := by
  induction run with
  | refl => rw [← hpc, Function.update_eq_self]
  | tail _ step ih =>
    refine ih.tail ⟨i, _, _, .wait _ _ ?_ step, ?_⟩
    · dsimp only
      rw [Function.update_self]
    · dsimp only
      rw [Function.update_self, Function.update_idem]

/-- A call whose child was started. -/
def childStarted : Serve Unit :=
  { pc := .waiting .start, cancelled := false, acquired := 1, released := 0, started := 1,
    reaped := 0 }

/-- Two calls for one slot: the second is refused while the child of the first runs. -/
theorem oneSlot_starts : ∃ s : Family Bool Nat (Serve Unit),
    ReflTransGen (Interleave (ServeStep (Server.ofConfig oneSlot ∅))) noCalls s ∧
      s.shared = 1 ∧ s.procs false = childStarted ∧ (s.procs true).pc = .returned .slotsBusy :=
  ⟨_, .head ⟨false, _, _, .call rfl, rfl⟩ <|
    .head ⟨true, _, _, .call rfl, rfl⟩ <|
    .head ⟨false, _, _, .send 1 rfl rfl (by decide), rfl⟩ <|
    .head ⟨false, _, _, .succeed _ rfl, rfl⟩ <|
    .head ⟨false, _, _, .succeed _ rfl, rfl⟩ <|
    .head ⟨false, _, _, .succeed _ rfl, rfl⟩ <|
    .head ⟨false, _, _, .succeed _ rfl, rfl⟩ <|
    .head ⟨false, _, _, .start rfl, rfl⟩ <|
    .head ⟨true, _, _, .busy 1 rfl rfl (by decide) rfl, rfl⟩ .refl, rfl, rfl, rfl⟩

/-- The child comes to its end, and its call gives the slot back. -/
theorem oneSlot_ends {s : Family Bool Nat (Serve Unit)} (taken : s.shared = 1)
    (child : s.procs false = childStarted) : ∃ s' : Family Bool Nat (Serve Unit),
    ReflTransGen (Interleave (ServeStep (Server.ofConfig oneSlot ∅))) s s' ∧
      (s'.procs false).pc = .returned (.process .nil) ∧ (s'.procs false).reaped = 1 := by
  have held : 0 < s.shared := taken ▸ Nat.one_pos
  exact ⟨_, (waiting_runs (c := childStarted) completed_run false child).trans <|
    .head ⟨false, _, _, .waited completed .nil rfl rfl, rfl⟩ <|
    .head ⟨false, _, _, .receive 1 _ rfl rfl held, rfl⟩ .refl, rfl, rfl⟩

theorem serveLocal_bounded_oneSlot : ∃ running ended : Family Bool Nat (Serve Unit),
    (running.procs false).children = 1 ∧ (running.procs true).pc = .returned .slotsBusy ∧
      Bounded 1 running ∧
      (ended.procs false).pc = .returned (.process .nil) ∧ (ended.procs false).reaped = 1 ∧
      Bounded 1 ended := by
  obtain ⟨running, starts, taken, child, refused⟩ := oneSlot_starts
  obtain ⟨ended, ends, done, reaped⟩ := oneSlot_ends taken child
  refine ⟨running, ended, ?_, refused, serveLocal_bounded ∅ rfl Nat.one_pos starts, done, reaped,
    serveLocal_bounded ∅ rfl Nat.one_pos (starts.trans ends)⟩
  rw [child]
  rfl

end FakeSSH.GitServer
