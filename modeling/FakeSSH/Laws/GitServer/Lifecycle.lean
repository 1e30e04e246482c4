import FakeSSH.Lib.Log
import FakeSSH.GitServer.Lifecycle

/-!
# What the lifecycle guarantees in every interleaving

`Lifecycle` is the contract: one reap, no group signal after it, the reap only
after the observer has returned and stdin is closed, a nil return only for a
command that ran to its end untouched, and a command that was already complete
when the cancellation was noticed is neither signalled nor reported cancelled.

The invariant is `Wait.Place`: for each place of the code, what the log can hold
there and what has been received. Each step moves one place on, so the proof is
one case per step. `Wait.rank` bounds the work left, and gives the other half:
with the exit observed, and either the outputs or a cancellation there, the
call returns whatever the selects choose.
-/

namespace FakeSSH.GitServer

open FakeSSH.Lib Relation

variable {E : Type} {s s' : Wait E}

/-- What a call on the process owes to the log before it. -/
def WaitAllowed (before : List (WaitEvent E)) : WaitEvent E → Prop
  | .terminated => reaps before = 0
  | .reaped _ => .stdinClosed ∈ before ∧ ∃ r, .exitObserved r ∈ before
  | _ => True

/-- Nothing was signalled or reaped yet. -/
def Early (log : List (WaitEvent E)) : Prop := reaps log = 0 ∧ .terminated ∉ log

/-- A cancellation was noticed with everything already there. -/
def Complete (log : List (WaitEvent E)) : Prop := .cancelNoticed true ∈ log

def Wait.Arrived (s : Wait E) : Prop := s.stdout.isPending = false ∧ s.stderr.isPending = false

def Wait.BothTaken (s : Wait E) : Prop := (s.stdout.isTaken && s.stderr.isTaken) = true

/-- Stdin is closed on an exit observed without error. -/
def Wait.ExitedClean (s : Wait E) : Prop := .stdinClosed ∈ s.log ∧ s.exit = .taken none

/-- What is known at each place of the code. -/
def Wait.Place (s : Wait E) : Prop :=
  match s.pc with
  | .selectExit => Early s.log ∧ ¬ Complete s.log ∧ ∀ r, s.exit ≠ .taken r
  | .pollExit => Early s.log ∧ (Complete s.log → s.exit = .ready none ∧ s.Arrived) ∧
      ∀ r, s.exit ≠ .taken r
  | .abortStdin => Early s.log ∧ ¬ Complete s.log ∧ ∀ r, s.exit ≠ .taken r
  | .abortSignal =>
    Early s.log ∧ ¬ Complete s.log ∧ .stdinClosed ∈ s.log ∧ ∀ r, s.exit ≠ .taken r
  | .abortJoin =>
    reaps s.log = 0 ∧ ¬ Complete s.log ∧ .stdinClosed ∈ s.log ∧ ∀ r, s.exit ≠ .taken r
  | .abortReap =>
    reaps s.log = 0 ∧ ¬ Complete s.log ∧ .stdinClosed ∈ s.log ∧ ∃ r, s.exit = .taken r
  | .closeStdin r => Early s.log ∧ s.exit = .taken r ∧ (Complete s.log → r = none ∧ s.Arrived)
  | .observeSignal e =>
    Early s.log ∧ ¬ Complete s.log ∧ .stdinClosed ∈ s.log ∧ s.exit = .taken (some e)
  | .observeReap e =>
    reaps s.log = 0 ∧ ¬ Complete s.log ∧ .stdinClosed ∈ s.log ∧ s.exit = .taken (some e)
  | .outputLoop | .pollStdout | .drainStdout =>
    Early s.log ∧ s.ExitedClean ∧ (Complete s.log → s.Arrived)
  | .pollStderr | .drainStderr =>
    Early s.log ∧ s.ExitedClean ∧
      (Complete s.log → s.stdout.isTaken = true ∧ s.stderr.isPending = false)
  | .bothTaken => Early s.log ∧ s.ExitedClean ∧ (Complete s.log → s.BothTaken)
  | .selectOutput => Early s.log ∧ s.ExitedClean ∧ ¬ Complete s.log ∧ ¬ s.BothTaken
  | .outputDone p =>
    Early s.log ∧ s.ExitedClean ∧ (p = false → s.BothTaken) ∧ (Complete s.log → p = false)
  | .finalReap p => reaps s.log = 0 ∧ s.ExitedClean ∧
      (p = false → .terminated ∉ s.log ∧ s.BothTaken) ∧ (Complete s.log → p = false)
  | .returned ret => reaps s.log = 1 ∧
      (ret = .nil → s.exit = .taken none ∧ .reaped none ∈ s.log ∧ s.stdout = .taken none ∧
        s.stderr = .taken none ∧ .terminated ∉ s.log) ∧
      (Complete s.log → .terminated ∉ s.log ∧ ret ≠ .ctxErr)

/-- The observer's result is on the log from the moment it has one. -/
def Wait.Observed (s : Wait E) : Prop :=
  ∀ r, (s.exit = .returned r ∨ s.exit = .ready r ∨ s.exit = .taken r) → .exitObserved r ∈ s.log

structure WaitInv (s : Wait E) : Prop where
  place : s.Place
  observed : s.Observed
  justified : Justified WaitAllowed s.log

/-! ## The log, one event longer -/

section Snoc

variable {log : List (WaitEvent E)} {e : WaitEvent E}

theorem reaps_snoc_call (h : e.isReap = false) : reaps (log ++ [e]) = reaps log := by
  simp [reaps, h]

theorem reaps_snoc_reap (r : Option E) : reaps (log ++ [.reaped r]) = reaps log + 1 := by
  simp [reaps, WaitEvent.isReap]

theorem mem_snoc_of_ne {x : WaitEvent E} (h : x ≠ e) : x ∈ log ++ [e] ↔ x ∈ log := by
  simp [h]

theorem Early.snoc (early : Early log) (reap : e.isReap = false) (signal : .terminated ≠ e) :
    Early (log ++ [e]) :=
  ⟨(reaps_snoc_call reap).trans early.1, fun h => early.2 ((mem_snoc_of_ne signal).mp h)⟩

theorem complete_snoc (h : .cancelNoticed true ≠ e) : Complete (log ++ [e]) ↔ Complete log :=
  mem_snoc_of_ne h

theorem closed_snoc (h : .stdinClosed ∈ log) : .stdinClosed ∈ log ++ [e] :=
  List.mem_append_left _ h

/-- A log with no complete cancellation gets one only by noticing it. -/
theorem complete_notice {b : Bool} (calm : ¬ Complete log)
    (h : Complete (log ++ [.cancelNoticed b])) : b = true := by
  rcases List.mem_append.mp h with h | h
  · exact absurd h calm
  · cases List.mem_singleton.mp h
    rfl

end Snoc

/-! ## Copies -/

theorem Copy.poll_isTaken (c : Copy E) : c.poll.isTaken = !c.isPending := by
  cases c <;> rfl

theorem Copy.poll_isPending (c : Copy E) : c.poll.isPending = c.isPending := by
  cases c <;> rfl

theorem Copy.eq_taken {c : Copy E} (h : c.isTaken = true) : c = .taken c.err := by
  cases c with
  | taken r => rfl
  | _ => exact Bool.noConfusion h

theorem Wait.complete_iff (s : Wait E) :
    s.complete = true ↔ (s.exit = .ready none ∨ s.exit = .taken none) ∧ s.Arrived := by
  rcases s with ⟨pc, cancelled, exit, stdout, stderr, log⟩
  cases exit with
  | running => simp [Wait.complete, Wait.Arrived]
  | returned r => simp [Wait.complete, Wait.Arrived]
  | ready r => cases r <;> simp [Wait.complete, Wait.Arrived]
  | taken r => cases r <;> simp [Wait.complete, Wait.Arrived]

/-! ## The environment -/

/-- What an environment step leaves alone: the place, the log up to the
observer's entry, every result already received, and the readiness of the rest. -/
structure Wait.Frame (s s' : Wait E) : Prop where
  pc : s'.pc = s.pc
  reaps : reaps s'.log = reaps s.log
  events : ∀ e, (∀ r, e ≠ .exitObserved r) → (e ∈ s'.log ↔ e ∈ s.log)
  exitTaken : ∀ r, s'.exit = .taken r ↔ s.exit = .taken r
  exitReady : ∀ r, s.exit = .ready r → s'.exit = .ready r
  stdoutTaken : ∀ r, s'.stdout = .taken r ↔ s.stdout = .taken r
  stderrTaken : ∀ r, s'.stderr = .taken r ↔ s.stderr = .taken r
  stdoutIsTaken : s'.stdout.isTaken = s.stdout.isTaken
  stderrIsTaken : s'.stderr.isTaken = s.stderr.isTaken
  stdoutArrived : s.stdout.isPending = false → s'.stdout.isPending = false
  stderrArrived : s.stderr.isPending = false → s'.stderr.isPending = false

theorem WaitEnv.frame (h : WaitEnv s s') : s.Frame s' := by
  cases h with
  | cancel => constructor <;> simp
  | observe r running =>
    constructor <;> simp [reaps, WaitEvent.isReap, running]
    exact fun e he h => absurd h (he r)
  | send r returned => constructor <;> simp [returned]
  | stdout r pending => constructor <;> simp [pending, Copy.isTaken, Copy.isPending]
  | stderr r pending => constructor <;> simp [pending, Copy.isTaken, Copy.isPending]

/-- So it keeps what is known at the place. -/
theorem Wait.Place.frame (f : s.Frame s') (hp : s.Place) : s'.Place := by
  have hearly : Early s'.log ↔ Early s.log :=
    and_congr (by rw [f.reaps]) (not_congr (f.events _ nofun))
  have hcomplete : Complete s'.log ↔ Complete s.log := f.events _ nofun
  have hclosed : .stdinClosed ∈ s'.log ↔ .stdinClosed ∈ s.log := f.events _ nofun
  have hsignal : .terminated ∈ s'.log ↔ .terminated ∈ s.log := f.events _ nofun
  have hreaped : ∀ r, .reaped r ∈ s'.log ↔ .reaped r ∈ s.log := fun r => f.events _ nofun
  have hclean : s'.ExitedClean ↔ s.ExitedClean := and_congr hclosed (f.exitTaken none)
  have hboth : s'.BothTaken ↔ s.BothTaken := by
    rw [Wait.BothTaken, Wait.BothTaken, f.stdoutIsTaken, f.stderrIsTaken]
  have harrived : s.Arrived → s'.Arrived := And.imp f.stdoutArrived f.stderrArrived
  unfold Wait.Place at hp ⊢
  rw [f.pc]
  simp only [hearly, hcomplete, hclosed, hsignal, hreaped, hclean, hboth, f.reaps, f.exitTaken,
    f.stdoutTaken, f.stderrTaken, f.stdoutIsTaken, ne_eq]
  cases hpc : s.pc with
  | pollExit =>
    simp only [hpc] at hp
    exact ⟨hp.1, fun c => ⟨f.exitReady _ (hp.2.1 c).1, harrived (hp.2.1 c).2⟩, hp.2.2⟩
  | closeStdin r =>
    simp only [hpc] at hp
    exact ⟨hp.1, hp.2.1, fun c => ⟨(hp.2.2 c).1, harrived (hp.2.2 c).2⟩⟩
  | outputLoop => simp only [hpc] at hp; exact ⟨hp.1, hp.2.1, fun c => harrived (hp.2.2 c)⟩
  | pollStdout => simp only [hpc] at hp; exact ⟨hp.1, hp.2.1, fun c => harrived (hp.2.2 c)⟩
  | drainStdout => simp only [hpc] at hp; exact ⟨hp.1, hp.2.1, fun c => harrived (hp.2.2 c)⟩
  | pollStderr =>
    simp only [hpc] at hp
    exact ⟨hp.1, hp.2.1, fun c => ⟨(hp.2.2 c).1, f.stderrArrived (hp.2.2 c).2⟩⟩
  | drainStderr =>
    simp only [hpc] at hp
    exact ⟨hp.1, hp.2.1, fun c => ⟨(hp.2.2 c).1, f.stderrArrived (hp.2.2 c).2⟩⟩
  | _ => simp only [hpc] at hp; exact hp

/-! ## The code -/

/-- The result is nil only when the reap and both copies were. -/
theorem Wait.result_nil {p : Bool} {r : Option E} (h : s.result p r = .nil) :
    p = false ∧ r = none ∧ s.stdout.err = none ∧ s.stderr.err = none := by
  unfold Wait.result at h
  split at h
  · cases h
  · rename_i hp
    split at h
    · cases h
    · cases h
    · cases h
    · rename_i ho he
      exact ⟨by simpa using hp, rfl, ho, he⟩

theorem Wait.result_ctxErr {p : Bool} {r : Option E} (h : s.result p r = .ctxErr) : p = true := by
  unfold Wait.result at h
  split at h
  · assumption
  · split at h <;> cases h

/-- Each step of the code leads from one place's facts to the next's. -/
theorem WaitMain.place (h : WaitMain s s') (hp : s.Place) : s'.Place := by
  cases h with
  | selectExit r hpc hr =>
    simp only [Wait.Place, hpc] at hp
    exact ⟨hp.1, rfl, fun c => absurd c hp.2.1⟩
  | selectCancel hpc hc =>
    simp only [Wait.Place, hpc] at hp
    obtain ⟨early, calm, fresh⟩ := hp
    refine ⟨early.snoc rfl (by nofun), ?_, fresh⟩
    intro c
    obtain ⟨hexit, harrived⟩ := s.complete_iff.mp (complete_notice calm c)
    exact ⟨hexit.resolve_right (fresh none), harrived⟩
  | pollExit r hpc hr =>
    simp only [Wait.Place, hpc] at hp
    obtain ⟨early, comp, -⟩ := hp
    refine ⟨early, rfl, ?_⟩
    intro c
    obtain ⟨hexit, harrived⟩ := comp c
    rw [hr] at hexit
    cases hexit
    exact ⟨rfl, harrived⟩
  | pollDefault hpc hne =>
    simp only [Wait.Place, hpc] at hp
    exact ⟨hp.1, fun c => hne none (hp.2.1 c).1, hp.2.2⟩
  | abortStdin hpc =>
    simp only [Wait.Place, hpc] at hp
    exact ⟨hp.1.snoc rfl (by nofun), (complete_snoc (by nofun)).not.mpr hp.2.1, by simp, hp.2.2⟩
  | abortSignal hpc =>
    simp only [Wait.Place, hpc] at hp
    exact ⟨(reaps_snoc_call rfl).trans hp.1.1, (complete_snoc (by nofun)).not.mpr hp.2.1,
      closed_snoc hp.2.2.1, hp.2.2.2⟩
  | abortJoin r hpc hr =>
    simp only [Wait.Place, hpc] at hp
    exact ⟨hp.1, hp.2.1, hp.2.2.1, r, rfl⟩
  | abortReap r hpc =>
    simp only [Wait.Place, hpc] at hp
    refine ⟨by rw [reaps_snoc_reap, hp.1], nofun, ?_⟩
    intro c
    exact absurd ((complete_snoc (by nofun)).mp c) hp.2.1
  | closeStdin r hpc =>
    simp only [Wait.Place, hpc] at hp
    obtain ⟨early, hexit, comp⟩ := hp
    have early' : Early (s.log ++ [.stdinClosed]) := early.snoc rfl (by nofun)
    cases r with
    | none =>
      refine ⟨early', ⟨by simp, hexit⟩, ?_⟩
      intro c
      exact (comp ((complete_snoc (by nofun)).mp c)).2
    | some e =>
      refine ⟨early', ?_, by simp, hexit⟩
      intro c
      exact nomatch (comp ((complete_snoc (by nofun)).mp c)).1
  | observeSignal e hpc =>
    simp only [Wait.Place, hpc] at hp
    exact ⟨(reaps_snoc_call rfl).trans hp.1.1, (complete_snoc (by nofun)).not.mpr hp.2.1,
      closed_snoc hp.2.2.1, hp.2.2.2⟩
  | observeReap e r hpc =>
    simp only [Wait.Place, hpc] at hp
    refine ⟨by rw [reaps_snoc_reap, hp.1], nofun, ?_⟩
    intro c
    exact absurd ((complete_snoc (by nofun)).mp c) hp.2.1
  | loopDone hpc hboth =>
    simp only [Wait.Place, hpc] at hp
    exact ⟨hp.1, hp.2.1, fun _ => hboth, fun _ => rfl⟩
  | loopBody hpc hnot =>
    simp only [Wait.Place, hpc] at hp
    exact hp
  | pollStdout hpc =>
    simp only [Wait.Place, hpc] at hp
    refine ⟨hp.1, hp.2.1, ?_⟩
    intro c
    obtain ⟨hout, herr⟩ := hp.2.2 c
    exact ⟨by rw [Copy.poll_isTaken, hout]; rfl, herr⟩
  | pollStderr hpc =>
    simp only [Wait.Place, hpc] at hp
    refine ⟨hp.1, hp.2.1, ?_⟩
    intro c
    obtain ⟨hout, herr⟩ := hp.2.2 c
    show (s.stdout.isTaken && s.stderr.poll.isTaken) = true
    rw [Copy.poll_isTaken, hout, herr]
    rfl
  | bothTaken hpc hboth =>
    simp only [Wait.Place, hpc] at hp
    exact ⟨hp.1, hp.2.1, fun _ => hboth, fun _ => rfl⟩
  | notBoth hpc hnot =>
    simp only [Wait.Place, hpc] at hp
    have hnot' : ¬ s.BothTaken := by rw [Wait.BothTaken, hnot]; exact Bool.noConfusion
    exact ⟨hp.1, hp.2.1, fun c => hnot' (hp.2.2 c), hnot'⟩
  | selectStdout r hpc hr =>
    simp only [Wait.Place, hpc] at hp
    exact ⟨hp.1, hp.2.1, fun c => absurd c hp.2.2.1⟩
  | selectStderr r hpc hr =>
    simp only [Wait.Place, hpc] at hp
    exact ⟨hp.1, hp.2.1, fun c => absurd c hp.2.2.1⟩
  | selectDone hpc hc =>
    simp only [Wait.Place, hpc] at hp
    obtain ⟨early, clean, calm, -⟩ := hp
    refine ⟨early.snoc rfl (by nofun), ⟨closed_snoc clean.1, clean.2⟩, ?_⟩
    intro c
    exact (s.complete_iff.mp (complete_notice calm c)).2
  | drainStdout hpc =>
    simp only [Wait.Place, hpc] at hp
    refine ⟨hp.1, hp.2.1, ?_⟩
    intro c
    obtain ⟨hout, herr⟩ := hp.2.2 c
    exact ⟨by rw [Copy.poll_isTaken, hout]; rfl, herr⟩
  | drainStderr hpc =>
    simp only [Wait.Place, hpc] at hp
    refine ⟨hp.1, hp.2.1, ?_, ?_⟩
    · intro hdone
      show (s.stdout.isTaken && s.stderr.poll.isTaken) = true
      simpa only [Bool.not_eq_false'] using hdone
    · intro c
      obtain ⟨hout, herr⟩ := hp.2.2 c
      rw [Copy.poll_isTaken, hout, herr]
      rfl
  | outputPending hpc =>
    simp only [Wait.Place, hpc] at hp
    refine ⟨(reaps_snoc_call rfl).trans hp.1.1, ⟨closed_snoc hp.2.1.1, hp.2.1.2⟩, nofun, ?_⟩
    intro c
    exact nomatch hp.2.2.2 ((complete_snoc (by nofun)).mp c)
  | outputComplete hpc =>
    simp only [Wait.Place, hpc] at hp
    exact ⟨hp.1.1, hp.2.1, fun _ => ⟨hp.1.2, hp.2.2.1 trivial⟩, fun _ => rfl⟩
  | finalReap p r hpc =>
    simp only [Wait.Place, hpc] at hp
    obtain ⟨hreaps, clean, hdone, comp⟩ := hp
    refine ⟨by rw [reaps_snoc_reap, hreaps], ?_, ?_⟩
    · intro hnil
      obtain ⟨rfl, rfl, hout, herr⟩ := Wait.result_nil hnil
      obtain ⟨hsignal, hboth⟩ := hdone rfl
      obtain ⟨houtTaken, herrTaken⟩ := Bool.and_eq_true_iff.mp hboth
      refine ⟨clean.2, by simp, ?_, ?_, (mem_snoc_of_ne (by nofun)).not.mpr hsignal⟩
      · rw [← hout]; exact Copy.eq_taken houtTaken
      · rw [← herr]; exact Copy.eq_taken herrTaken
    · intro c
      have hp := comp ((complete_snoc (by nofun)).mp c)
      refine ⟨(mem_snoc_of_ne (by nofun)).not.mpr (hdone hp).1, ?_⟩
      intro hctx
      rw [Wait.result_ctxErr hctx] at hp
      exact Bool.noConfusion hp

/-- A step of the code adds nothing to the log, or one entry it is allowed. -/
theorem WaitMain.logged (h : WaitMain s s') (hp : s.Place) (ho : s.Observed) :
    s'.log = s.log ∨ ∃ e, s'.log = s.log ++ [e] ∧ WaitAllowed s.log e := by
  have observed : ∀ r, s.exit = .taken r → ∃ r, .exitObserved r ∈ s.log := by
    intro r hr
    exact ⟨r, ho r (.inr (.inr hr))⟩
  cases h with
  | selectCancel hpc hc => exact .inr ⟨_, rfl, trivial⟩
  | abortStdin hpc => exact .inr ⟨_, rfl, trivial⟩
  | abortSignal hpc =>
    simp only [Wait.Place, hpc] at hp
    exact .inr ⟨_, rfl, hp.1.1⟩
  | abortReap r hpc =>
    simp only [Wait.Place, hpc] at hp
    obtain ⟨-, -, closed, r', hr'⟩ := hp
    exact .inr ⟨_, rfl, closed, observed r' hr'⟩
  | closeStdin r hpc => exact .inr ⟨_, rfl, trivial⟩
  | observeSignal e hpc =>
    simp only [Wait.Place, hpc] at hp
    exact .inr ⟨_, rfl, hp.1.1⟩
  | observeReap e r hpc =>
    simp only [Wait.Place, hpc] at hp
    exact .inr ⟨_, rfl, hp.2.2.1, observed _ hp.2.2.2⟩
  | selectDone hpc hc => exact .inr ⟨_, rfl, trivial⟩
  | outputPending hpc =>
    simp only [Wait.Place, hpc] at hp
    exact .inr ⟨_, rfl, hp.1.1⟩
  | finalReap p r hpc =>
    simp only [Wait.Place, hpc] at hp
    exact .inr ⟨_, rfl, hp.2.1.1, observed _ hp.2.1.2⟩
  | _ => exact .inl rfl

/-- It touches the observer's result only to receive it. -/
theorem WaitMain.exit (h : WaitMain s s') :
    s'.exit = s.exit ∨ ∃ r, s.exit = .ready r ∧ s'.exit = .taken r := by
  cases h with
  | selectExit r hpc hr => exact .inr ⟨r, hr, rfl⟩
  | pollExit r hpc hr => exact .inr ⟨r, hr, rfl⟩
  | abortJoin r hpc hr => exact .inr ⟨r, hr, rfl⟩
  | _ => exact .inl rfl

/-! ## Whole runs -/

theorem WaitInv.start : WaitInv (Wait.start : Wait E) where
  place := ⟨⟨rfl, nofun⟩, nofun, nofun⟩
  observed := by rintro r (h | h | h) <;> cases h
  justified := .nil

theorem WaitInv.env (inv : WaitInv s) (h : WaitEnv s s') : WaitInv s' := by
  refine ⟨inv.place.frame h.frame, ?_, ?_⟩
  · cases h with
    | observe r running =>
      rintro r' (hr | hr | hr) <;> cases hr
      exact List.mem_append_right _ (List.mem_singleton.mpr rfl)
    | send r returned =>
      rintro r' (hr | hr | hr) <;> cases hr
      exact inv.observed r (.inl returned)
    | _ => exact inv.observed
  · cases h with
    | observe r running => exact inv.justified.snoc trivial
    | _ => exact inv.justified

theorem WaitInv.main (inv : WaitInv s) (h : WaitMain s s') : WaitInv s' := by
  have logged := h.logged inv.place inv.observed
  refine ⟨h.place inv.place, ?_, ?_⟩
  · intro r hr
    have grows : s.log ⊆ s'.log := by
      rcases logged with heq | ⟨e, heq, -⟩ <;> rw [heq]
      · exact List.Subset.refl _
      · exact List.subset_append_left _ _
    apply grows
    apply inv.observed r
    rcases h.exit with heq | ⟨r', hready, htaken⟩
    · rwa [heq] at hr
    · rw [htaken] at hr
      rcases hr with hr | hr | hr <;> cases hr
      exact .inr (.inl hready)
  · rcases logged with heq | ⟨e, heq, allowed⟩ <;> rw [heq]
    · exact inv.justified
    · exact inv.justified.snoc allowed

theorem WaitInv.step (inv : WaitInv s) (h : WaitStep s s') : WaitInv s' :=
  h.elim inv.env inv.main

/-- The invariant holds in every state a call can reach. -/
theorem waitInv_of_run (run : ReflTransGen WaitStep Wait.start s) : WaitInv s := by
  have keeps (a b : Wait E) (inv : WaitInv a) (step : WaitStep a b) : WaitInv b := inv.step step
  exact invariant_of_steps keeps .start run

theorem Wait.Place.reaps_le_one (hp : s.Place) : reaps s.log ≤ 1 := by
  unfold Wait.Place Early at hp
  split at hp <;> omega

theorem Wait.Place.not_signalled (hp : s.Place) (c : Complete s.log) :
    .terminated ∉ s.log := by
  unfold Wait.Place at hp
  split at hp
  case h_5 => exact absurd c hp.2.1
  case h_6 => exact absurd c hp.2.1
  case h_9 => exact absurd c hp.2.1
  case h_18 => exact (hp.2.2.1 (hp.2.2.2 c)).1
  case h_19 => exact (hp.2.2 c).1
  all_goals exact hp.1.2

/-! ## Progress -/

/-- What the code still waits for has come: the exit, and a cancellation or the
outputs. -/
structure Wait.Ready (s : Wait E) : Prop where
  exited : ∃ r, s.exit = .ready r ∨ s.exit = .taken r
  output : s.cancelled = true ∨ s.Arrived

def WaitPC.rank : WaitPC E → Nat
  | .selectExit => 20
  | .pollExit => 19
  | .closeStdin _ => 18
  | .outputLoop => 10
  | .pollStdout => 9
  | .pollStderr => 8
  | .bothTaken => 7
  | .selectOutput => 6
  | .drainStdout => 5
  | .drainStderr => 4
  | .outputDone _ => 3
  | .finalReap _ => 2
  | .abortStdin => 4
  | .abortSignal => 3
  | .abortJoin => 2
  | .abortReap => 1
  | .observeSignal _ => 2
  | .observeReap _ => 1
  | .returned _ => 0

def Copy.rank (c : Copy E) : Nat := if c.isTaken then 0 else 10

/-- The steps left: one round of the output loop for each copy not received. -/
def Wait.rank (s : Wait E) : Nat := s.stdout.rank + s.stderr.rank + s.pc.rank

theorem Copy.rank_ready (r : Option E) : (Copy.ready r).rank = 10 := rfl

theorem Copy.rank_taken (r : Option E) : (Copy.taken r).rank = 0 := rfl

theorem Copy.rank_poll_le (c : Copy E) : c.poll.rank ≤ c.rank := by
  cases c <;> simp [Copy.rank, Copy.poll, Copy.isTaken]

theorem WaitMain.rank_lt (h : WaitMain s s') : s'.rank < s.rank := by
  have hout := s.stdout.rank_poll_le
  have herr := s.stderr.rank_poll_le
  cases h with
  | closeStdin r hpc => cases r <;> simp only [Wait.rank, hpc, afterClose, WaitPC.rank] <;> omega
  -- a received copy pays for another round
  | selectStdout r hpc hr =>
    simp only [Wait.rank, hpc, hr, WaitPC.rank, Copy.rank_ready, Copy.rank_taken]
    omega
  | selectStderr r hpc hr =>
    simp only [Wait.rank, hpc, hr, WaitPC.rank, Copy.rank_ready, Copy.rank_taken]
    omega
  | _ => (simp only [Wait.rank, *, WaitPC.rank]; omega)

theorem WaitMain.arrived (h : WaitMain s s') (ha : s.Arrived) : s'.Arrived := by
  unfold Wait.Arrived at ha ⊢
  cases h with
  | selectStdout r hpc hr => exact ⟨rfl, ha.2⟩
  | selectStderr r hpc hr => exact ⟨ha.1, rfl⟩
  | _ => simpa only [Copy.poll_isPending] using ha

theorem WaitMain.cancelled (h : WaitMain s s') : s'.cancelled = s.cancelled := by
  cases h <;> rfl

theorem WaitMain.ready (h : WaitMain s s') (hr : s.Ready) : s'.Ready := by
  refine ⟨?_, hr.output.imp (h.cancelled.trans ·) h.arrived⟩
  rcases h.exit with heq | ⟨r, -, htaken⟩
  · rw [heq]
    exact hr.exited
  · exact ⟨r, .inr htaken⟩

/-- A copy neither pending nor received is in its channel. -/
theorem Copy.eq_ready {c : Copy E} (hp : c.isPending = false) (ht : ¬ c.isTaken = true) :
    ∃ r, c = .ready r := by
  cases c with
  | pending => cases hp
  | ready r => exact ⟨r, rfl⟩
  | taken r => exact absurd rfl ht

/-- Short of its return, the code can always go on. -/
theorem Wait.Ready.moves (hr : s.Ready) (hp : s.Place) (h : ¬ ∃ r, s.pc = .returned r) :
    ∃ s', WaitMain s s' := by
  obtain ⟨r, hexit⟩ := hr.exited
  cases hpc : s.pc with
  | selectExit =>
    simp only [Wait.Place, hpc] at hp
    exact ⟨_, .selectExit s r hpc (hexit.resolve_right (hp.2.2 r))⟩
  | pollExit =>
    simp only [Wait.Place, hpc] at hp
    exact ⟨_, .pollExit s r hpc (hexit.resolve_right (hp.2.2 r))⟩
  | abortStdin => exact ⟨_, .abortStdin s hpc⟩
  | abortSignal => exact ⟨_, .abortSignal s hpc⟩
  | abortJoin =>
    simp only [Wait.Place, hpc] at hp
    exact ⟨_, .abortJoin s r hpc (hexit.resolve_right (hp.2.2.2 r))⟩
  | abortReap => exact ⟨_, .abortReap s none hpc⟩
  | closeStdin r => exact ⟨_, .closeStdin s r hpc⟩
  | observeSignal e => exact ⟨_, .observeSignal s e hpc⟩
  | observeReap e => exact ⟨_, .observeReap s e none hpc⟩
  | outputLoop =>
    cases hb : s.stdout.isTaken && s.stderr.isTaken with
    | true => exact ⟨_, .loopDone s hpc hb⟩
    | false => exact ⟨_, .loopBody s hpc hb⟩
  | pollStdout => exact ⟨_, .pollStdout s hpc⟩
  | pollStderr => exact ⟨_, .pollStderr s hpc⟩
  | bothTaken =>
    cases hb : s.stdout.isTaken && s.stderr.isTaken with
    | true => exact ⟨_, .bothTaken s hpc hb⟩
    | false => exact ⟨_, .notBoth s hpc hb⟩
  | selectOutput =>
    simp only [Wait.Place, hpc] at hp
    rcases hr.output with hc | ⟨hout, herr⟩
    · exact ⟨_, .selectDone s hpc hc⟩
    · by_cases ht : s.stdout.isTaken = true
      · have ht' : ¬ s.stderr.isTaken = true := by
          intro h
          exact hp.2.2.2 (Bool.and_eq_true_iff.mpr ⟨ht, h⟩)
        obtain ⟨r, hr⟩ := Copy.eq_ready herr ht'
        exact ⟨_, .selectStderr s r hpc hr⟩
      · obtain ⟨r, hr⟩ := Copy.eq_ready hout ht
        exact ⟨_, .selectStdout s r hpc hr⟩
  | drainStdout => exact ⟨_, .drainStdout s hpc⟩
  | drainStderr => exact ⟨_, .drainStderr s hpc⟩
  | outputDone p =>
    cases p with
    | true => exact ⟨_, .outputPending s hpc⟩
    | false => exact ⟨_, .outputComplete s hpc⟩
  | finalReap p => exact ⟨_, .finalReap s p none hpc⟩
  | returned r => exact absurd ⟨r, hpc⟩ h

theorem Wait.Ready.returns (hr : s.Ready) (hp : s.Place) :
    Inevitable WaitMain (fun t => ∃ r, t.pc = .returned r) s := by
  apply inevitable_of_rank (fun t => t.Ready ∧ t.Place) Wait.rank
  · intro t inv
    exact inv.1.moves inv.2
  · intro t t' inv h
    exact ⟨⟨h.ready inv.1, h.place inv.2⟩, h.rank_lt⟩
  · exact ⟨hr, hp⟩

/-! ## The contract -/

/-- What every moment of every call satisfies. -/
structure Lifecycle (s : Wait E) : Prop where
  reapOnce : reaps s.log ≤ 1
  reapedOnReturn : ∀ r, s.pc = .returned r → reaps s.log = 1
  noSignalAfterReap : ∀ before r after,
    s.log = before ++ .reaped r :: after → .terminated ∉ after
  reapAfterExit : ∀ before r after,
    s.log = before ++ .reaped r :: after → ∃ o, .exitObserved o ∈ before
  stdinClosedBeforeReap : ∀ before r after,
    s.log = before ++ .reaped r :: after → .stdinClosed ∈ before
  nilReturn : s.pc = .returned .nil →
    .exitObserved none ∈ s.log ∧ .reaped none ∈ s.log ∧ s.stdout = .taken none ∧
      s.stderr = .taken none ∧ .terminated ∉ s.log
  completionWins : .cancelNoticed true ∈ s.log →
    .terminated ∉ s.log ∧ s.pc ≠ .returned .ctxErr
  returns : s.Ready → Inevitable WaitMain (fun t => ∃ r, t.pc = .returned r) s

/-- The place of a call that has returned. -/
theorem Wait.Place.returned {ret : Ret E} (h : s.Place) (hpc : s.pc = .returned ret) :
    reaps s.log = 1 ∧
      (ret = .nil → s.exit = .taken none ∧ .reaped none ∈ s.log ∧ s.stdout = .taken none ∧
        s.stderr = .taken none ∧ .terminated ∉ s.log) ∧
      (Complete s.log → .terminated ∉ s.log ∧ ret ≠ .ctxErr) := by
  simpa only [Wait.Place, hpc] using h

/-- A signal entry owes a log without a reap. -/
theorem no_signal_after_reap (h : Justified WaitAllowed s.log) {before after : List (WaitEvent E)}
    {r : Option E} (hlog : s.log = before ++ .reaped r :: after) : .terminated ∉ after := by
  intro hmem
  obtain ⟨between, rest, rfl⟩ := List.append_of_mem hmem
  have allowed : reaps (before ++ .reaped r :: between) = 0 :=
    h _ .terminated rest (by rw [hlog, List.append_assoc, List.cons_append])
  simp [reaps, WaitEvent.isReap] at allowed

/-- PROCESS LIFECYCLE. However the exit, the outputs and a cancellation
interleave with the code, every state of a `waitLocalProcess` call keeps the
contract. -/
theorem waitLocalProcess_lifecycle (run : ReflTransGen WaitStep (Wait.start : Wait E) s) :
    Lifecycle s := by
  obtain ⟨hp, ho, hj⟩ := waitInv_of_run run
  exact {
    reapOnce := hp.reaps_le_one
    reapedOnReturn := fun r hpc => (hp.returned hpc).1
    noSignalAfterReap := fun _ _ _ => no_signal_after_reap hj
    reapAfterExit := fun before r after hlog => (hj before (.reaped r) after hlog).2
    stdinClosedBeforeReap := fun before r after hlog => (hj before (.reaped r) after hlog).1
    nilReturn := fun hpc => by
      obtain ⟨hexit, rest⟩ := (hp.returned hpc).2.1 rfl
      exact ⟨ho none (.inr (.inr hexit)), rest⟩
    completionWins := fun c =>
      ⟨hp.not_signalled c, fun hpc => ((hp.returned hpc).2.2 c).2 rfl⟩
    returns := fun hr => hr.returns hp }

/-- A call whose command was complete when its cancellation was noticed. -/
def completed : Wait Unit :=
  { pc := .returned .nil, cancelled := true, exit := .taken none, stdout := .taken none,
    stderr := .taken none,
    log := [.exitObserved none, .cancelNoticed true, .stdinClosed, .reaped none] }

theorem completed_run : ReflTransGen WaitStep Wait.start completed :=
  .head (.inl (.observe _ none rfl)) <|
  .head (.inl (.send _ none rfl)) <|
  .head (.inl (.stdout _ none rfl)) <|
  .head (.inl (.stderr _ none rfl)) <|
  .head (.inl (.cancel _)) <|
  .head (.inr (.selectCancel _ rfl rfl)) <|
  .head (.inr (.pollExit _ none rfl rfl)) <|
  .head (.inr (.closeStdin _ none rfl)) <|
  .head (.inr (.loopBody _ rfl rfl)) <|
  .head (.inr (.pollStdout _ rfl)) <|
  .head (.inr (.pollStderr _ rfl)) <|
  .head (.inr (.bothTaken _ rfl rfl)) <|
  .head (.inr (.outputComplete _ rfl)) <|
  .head (.inr (.finalReap _ false none rfl)) .refl

theorem waitLocalProcess_lifecycle_completed :
    completed.pc = .returned .nil ∧ Lifecycle completed :=
  ⟨rfl, waitLocalProcess_lifecycle completed_run⟩

end FakeSSH.GitServer
