import FakeSSH.Laws.Shell.Execute
import FakeSSH.Laws.Shell.Paths
import FakeSSH.Lib.Transition

/-!
# The session's variables over a run

A run is a list of executions of simple commands, with what the surroundings answered.
Every line that `executeShellLine` executes is one. The caps on the session's variables
are checked by commands of assignments alone, and `PWD` is kept trusted by `cd` alone:
what the other one does decides how far each of them holds.
-/

namespace FakeSSH.Shell

open FakeSSH.Go FakeSSH.Lib

variable {lib : StdLib} {r : CommandRunner}

/-! ## Runs -/

/-- An execution of a simple command: what `executeSimpleCommand` is given beside the
runner. -/
structure Execution where
  around : Surroundings
  lastStatus : Int
  command : SimpleCommand
  stdout : Stdout

/-- The runner after an execution. -/
def CommandRunner.after (lib : StdLib) (r : CommandRunner) (e : Execution) : CommandRunner :=
  (executeSimpleCommand lib e.around r e.lastStatus e.command e.stdout).runner

/-- What an execution can do to the runner: assign variables for good, if it has no name
and is not refused, or else what a command does. -/
inductive Effect (lib : StdLib) (r : CommandRunner) (e : Execution) : CommandRunner → Prop
  | refused {err : ShellError} (unnamed : e.command.name = [])
      (refused : validateAssignmentOnlyEnv r e.command.envAssignments = .error err) :
      Effect lib r e r
  | assigned {parsed : List EnvPair} (unnamed : e.command.name = [])
      (accepted : validateAssignmentOnlyEnv r e.command.envAssignments = .ok parsed) :
      Effect lib r e (setEnvs r parsed)
  | ran (named : e.command.name ≠ []) (calls : List RecordCall) :
      Effect lib r e
        ((r.movedTo (lastingMove lib e.around r e.lastStatus e.command)).recording lib calls)

theorem after_effect (lib : StdLib) (r : CommandRunner) (e : Execution) :
    Effect lib r e (r.after lib e) := by
  unfold CommandRunner.after
  by_cases unnamed : e.command.name = []
  · rw [execute_unnamed lib e.around r e.lastStatus e.stdout unnamed]
    cases validated : validateAssignmentOnlyEnv r e.command.envAssignments with
    | error _ => exact .refused unnamed validated
    | ok _ => exact .assigned unnamed validated
  · obtain ⟨calls, done⟩ := execute_named lib e.around r e.lastStatus e.stdout unnamed
    rw [done]
    exact .ran unnamed calls

/-- A run leads from one runner to another. -/
def Leads (lib : StdLib) (r r' : CommandRunner) : Prop :=
  ∃ run : List Execution, run.foldl (CommandRunner.after lib) r = r'

theorem Leads.refl (r : CommandRunner) : Leads lib r r := ⟨[], rfl⟩

theorem Leads.head {r' : CommandRunner} (e : Execution) (h : Leads lib (r.after lib e) r') :
    Leads lib r r' := by
  obtain ⟨run, hrun⟩ := h
  exact ⟨e :: run, hrun⟩

theorem Leads.trans {r' r'' : CommandRunner} (h : Leads lib r r') (h' : Leads lib r' r'') :
    Leads lib r r'' := by
  obtain ⟨run, rfl⟩ := h
  obtain ⟨run', rfl⟩ := h'
  exact ⟨run ++ run', List.foldl_append ..⟩

theorem executeParts_leads {lastStatus status status' : Int} {h h' : Host}
    {parts : List SimpleCommand}
    (done : executeParts lib lastStatus h status parts = .ok (h', status')) :
    Leads lib h.runner h'.runner := by
  induction parts generalizing h status with
  | nil =>
    cases done
    exact .refl _
  | cons part rest ih =>
    simp only [executeParts] at done
    split at done
    next => cases done
    next => exact .head ⟨h.ahead 0, lastStatus, part, _⟩ (ih done)

theorem executeAfter_leads {s s' : Session Host} {step : Option Operator × Pipeline}
    (done : executeAfter (executePipeline lib) s step = .ok s') :
    Leads lib s.runner.runner s'.runner.runner := by
  obtain ⟨op, pipe⟩ := step
  simp only [executeAfter, executePipeline] at done
  split at done
  · cases done
    exact .refl _
  · cases parts : executeParts lib s.lastStatus s.runner 0 pipe.parts with
    | error e =>
      rw [parts] at done
      cases done
    | ok answer =>
      rw [parts] at done
      cases done
      exact executeParts_leads parts

theorem executeSteps_leads {s s' : Session Host} {steps : List (Option Operator × Pipeline)}
    (done : steps.foldlM (executeAfter (executePipeline lib)) s = .ok s') :
    Leads lib s.runner.runner s'.runner.runner := by
  induction steps generalizing s with
  | nil =>
    cases done
    exact .refl _
  | cons step rest ih =>
    rw [List.foldlM_cons, bind_eq_ok] at done
    obtain ⟨mid, first, later⟩ := done
    exact (executeAfter_leads first).trans (ih later)

/-- What a line of commands does, a run does. -/
theorem executeShellLine_leads {s s' : Session Host} {segment : Bytes}
    (done : executeShellLine (executePipeline lib) s segment = .ok s') :
    Leads lib s.runner.runner s'.runner.runner := by
  unfold executeShellLine at done
  cases parsed : parseShellLine segment with
  | error e =>
    rw [parsed] at done
    dsimp only at done
    split at done
    · cases done
    · cases done
      exact .refl _
  | ok line =>
    rw [parsed] at done
    dsimp only at done
    cases steps : line.steps.foldlM (executeAfter (executePipeline lib)) s with
    | error e =>
      rw [steps] at done
      cases done
    | ok final =>
      rw [steps] at done
      cases done
      exact executeSteps_leads steps

/-! ## Setting variables -/

theorem setEnvs_append (r : CommandRunner) (parsed : List EnvPair) (p : EnvPair) :
    setEnvs r (parsed ++ [p]) = (setEnvs r parsed).setEnv p.key p.value := by
  rw [setEnvs, List.foldl_append]
  rfl

/-- Setting variables changes nothing else. -/
theorem setEnvs_eq (r : CommandRunner) (parsed : List EnvPair) :
    setEnvs r parsed = { r with tempEnv := (setEnvs r parsed).tempEnv } := by
  induction parsed using List.reverseRecOn with
  | nil => rfl
  | append_singleton parsed p ih =>
    rw [setEnvs_append]
    exact congrArg (fun s : CommandRunner => s.setEnv p.key p.value) ih

theorem setEnvs_keys (r : CommandRunner) (parsed : List EnvPair) :
    (setEnvs r parsed).tempEnv.keys =
      r.tempEnv.keys ∪ (parsed.map fun p => toUpper p.key).toFinset := by
  induction parsed using List.reverseRecOn with
  | nil => exact (Finset.union_empty _).symm
  | append_singleton parsed p ih =>
    rw [setEnvs_append, CommandRunner.setEnv, FiniteMap.keys_insert, ih]
    ext key
    simp only [Finset.mem_insert, Finset.mem_union, List.mem_toFinset, List.map_append,
      List.mem_append, List.map_cons, List.map_nil, List.mem_singleton]
    tauto

/-- What a variable is after assignments: what the last one to it says. -/
theorem setEnvs_lookup (r : CommandRunner) (parsed : List EnvPair) (key : Bytes) :
    (setEnvs r parsed).tempEnv.lookup key =
      (parsed.reverse.find? fun p => decide (toUpper p.key = key)).or (r.tempEnv.lookup key) := by
  induction parsed using List.reverseRecOn with
  | nil => rfl
  | append_singleton parsed p ih =>
    rw [setEnvs_append, List.reverse_append, List.reverse_singleton, List.singleton_append,
      List.find?_cons, CommandRunner.setEnv]
    by_cases hk : toUpper p.key = key
    · rw [decide_eq_true hk, ← hk, Finmap.lookup_insert]
      rfl
    · rw [decide_eq_false hk, Finmap.lookup_insert_of_ne _ fun h => hk h.symm, ih]

/-! ## The caps -/

/-- The session's variables are within their caps. -/
structure WithinCaps (r : CommandRunner) : Prop where
  entries : r.tempEnv.keys.card ≤ maxSessionEnvEntries
  bytes : r.tempEnv.weight EnvPair.bytes ≤ maxSessionEnvBytes

/-- Assignments that are accepted leave the variables within the caps, whatever they
were before. -/
theorem assignments_within {assignments : List Bytes} {parsed : List EnvPair}
    (accepted : validateAssignmentOnlyEnv r assignments = .ok parsed) :
    WithinCaps (setEnvs r parsed) := by
  unfold validateAssignmentOnlyEnv at accepted
  obtain ⟨-, accepted⟩ := check_eq_ok.mp accepted
  obtain ⟨parsed', -, accepted⟩ := bind_eq_ok.mp accepted
  obtain ⟨entries, accepted⟩ := check_eq_ok.mp accepted
  obtain ⟨bytes, accepted⟩ := check_eq_ok.mp accepted
  cases accepted
  refine ⟨?_, Nat.not_lt.mp bytes⟩
  rw [setEnvs_keys]
  refine le_trans (Finset.card_le_card ?_)
    ((Finset.card_union_le ..).trans (Nat.not_lt.mp entries))
  intro key h
  rcases Finset.mem_union.mp h with old | assigned
  · exact Finset.mem_union_left _ old
  · by_cases old : key ∈ r.tempEnv
    · exact Finset.mem_union_left _ (Finmap.mem_keys.mpr old)
    · refine Finset.mem_union_right _ (List.mem_toFinset.mpr ?_)
      exact List.mem_filter.mpr ⟨List.mem_toFinset.mp assigned, decide_eq_true old⟩

/-- A move to a directory fits: `PWD` is set already or there is room for one more
variable, and the other variables leave room for the bytes. -/
structure MoveFits (r : CommandRunner) (d : Bytes) : Prop where
  entries : pwdKey ∈ r.tempEnv ∨ r.tempEnv.keys.card < maxSessionEnvEntries
  bytes : (EnvPair.mk pwdKey d).bytes + FiniteMap.weight EnvPair.bytes (r.tempEnv.erase pwdKey) ≤
    maxSessionEnvBytes

theorem moved_within_iff (within : WithinCaps r) (d : Bytes) :
    WithinCaps (r.movedTo (some d)) ↔ MoveFits r d := by
  have weight := FiniteMap.weight_insert EnvPair.bytes r.tempEnv pwdKey ⟨pwdKey, d⟩
  have keys := FiniteMap.keys_insert r.tempEnv pwdKey ⟨pwdKey, d⟩
  constructor
  · intro after
    refine ⟨?_, weight ▸ after.bytes⟩
    by_cases old : pwdKey ∈ r.tempEnv
    · exact .inl old
    · have entries := after.entries
      rw [CommandRunner.movedTo, keys,
        Finset.card_insert_of_notMem fun h => old (Finmap.mem_keys.mp h)] at entries
      exact .inr entries
  · rintro ⟨entries, bytes⟩
    refine ⟨?_, weight ▸ bytes⟩
    rw [CommandRunner.movedTo, keys]
    rcases entries with old | room
    · rw [Finset.insert_eq_self.mpr (Finmap.mem_keys.mpr old)]
      exact within.entries
    · exact (Finset.card_insert_le ..).trans room

/-- An execution keeps the caps: if it is a `cd` whose move lasts, the move fits. -/
def KeepsCaps (lib : StdLib) (r : CommandRunner) (e : Execution) : Prop :=
  e.command.name ≠ [] →
    ∀ d, lastingMove lib e.around r e.lastStatus e.command = some d → MoveFits r d

theorem after_within_iff (e : Execution) (within : WithinCaps r) :
    WithinCaps (r.after lib e) ↔ KeepsCaps lib r e := by
  have effect := after_effect lib r e
  unfold KeepsCaps
  generalize r.after lib e = r' at effect
  cases effect with
  | refused unnamed _ => exact ⟨fun _ named => absurd unnamed named, fun _ => within⟩
  | assigned unnamed accepted =>
    exact ⟨fun _ named => absurd unnamed named, fun _ => assignments_within accepted⟩
  | ran named calls =>
    cases lastingMove lib e.around r e.lastStatus e.command with
    | none => exact ⟨fun _ _ _ h => (nomatch h), fun _ => ⟨within.entries, within.bytes⟩⟩
    | some d =>
      constructor
      · intro after named d' hd
        cases hd
        exact (moved_within_iff within d).mp ⟨after.entries, after.bytes⟩
      · intro fits
        obtain ⟨entries, bytes⟩ := (moved_within_iff within d).mpr (fits named d rfl)
        exact ⟨entries, bytes⟩

/-- The caps hold in every state of a run from a new session exactly if every lasting
`cd` of the run fits when it comes. -/
theorem session_env_capped_iff (lib : StdLib) (r : CommandRunner) (fresh : r.tempEnv = ∅)
    (run : List Execution) :
    Throughout (CommandRunner.after lib) WithinCaps r run ↔
      EachInput (CommandRunner.after lib) (KeepsCaps lib) r run := by
  apply throughout_iff
  · intro s e within
    exact after_within_iff e within
  · constructor
    · rw [fresh]
      exact Nat.zero_le _
    · rw [fresh]
      exact Nat.zero_le _

noncomputable section

/-- `AA= AB= … HH=`. -/
def setSixtyFour : Execution where
  around := stillSurroundings
  lastStatus := 0
  command := {
    envAssignments := (List.range 64).map fun i =>
      [UInt8.ofNat (0x41 + i / 8), UInt8.ofNat (0x41 + i % 8), equals] }
  stdout := .channel

/-- `cd /`. -/
def cdRoot : Execution where
  around := stillSurroundings
  lastStatus := 0
  command := { name := str "cd", args := [[slash]] }
  stdout := .channel

end

theorem session_env_capped_of_cd : ({} : CommandRunner).tempEnv = ∅ ∧
    Throughout (CommandRunner.after asciiLib) WithinCaps {} [cdRoot] := by
  refine ⟨rfl, (session_env_capped_iff asciiLib {} rfl [cdRoot]).mpr ⟨?_, trivial⟩⟩
  intro _ d moves
  have toRoot : lastingMove asciiLib stillSurroundings {} 0 cdRoot.command = some [slash] := rfl
  obtain rfl : [slash] = d := Option.some.inj (toRoot.symm.trans moves)
  exact ⟨.inr (by decide), by decide⟩

/-- At the cap, `cd` sets `PWD` as a variable too many. -/
theorem cd_exceeds_caps :
    ¬ Throughout (CommandRunner.after asciiLib) WithinCaps {} [setSixtyFour, cdRoot] := by
  rintro ⟨-, -, last⟩
  have entries : ((({} : CommandRunner).after asciiLib setSixtyFour).after asciiLib
      cdRoot).tempEnv.keys.card = 65 := by decide +kernel
  have capped := last.entries
  rw [entries] at capped
  exact absurd capped (by decide)

/-! ## `PWD` -/

/-- What `ResolvePath` asks of its working directory. -/
structure TrustedPath (p : Bytes) : Prop where
  absolute : p.head? = some slash
  plain : Go.dotdot ∉ components p
  bytes : PathBytes p

def PwdTrusted (r : CommandRunner) : Prop := TrustedPath (r.getEnv pwdKey)

/-- From a trusted directory every path resolves to a trusted one. -/
theorem resolvePath_trusted {cwd arg p : Bytes} (trusted : TrustedPath cwd)
    (h : resolvePath cwd arg = .ok p) : TrustedPath p := by
  have bytes := resolvePath_bytes trusted.bytes h
  obtain ⟨q, rfl⟩ := resolvePath_path h
  exact ⟨rfl, q.dotdot_not_mem, bytes⟩

theorem getEnv_pwdKey (r : CommandRunner) :
    r.getEnv pwdKey = ((r.tempEnv.lookup pwdKey).or (r.env.lookup pwdKey)).elim [] (·.value) := by
  have upper : toUpper pwdKey = pwdKey := by decide
  rw [CommandRunner.getEnv, upper]
  cases r.tempEnv.lookup pwdKey with
  | some v => rfl
  | none => cases r.env.lookup pwdKey <;> rfl

/-- Assignments to other variables leave `PWD` alone. -/
theorem getEnv_applyCommandEnv {assignments : List Bytes}
    (free : pwdKey ∉ (envWrites assignments).map Prod.fst) :
    (applyCommandEnv r assignments).1.getEnv pwdKey = r.getEnv pwdKey := by
  rw [(applyCommandEnv_eq r assignments).1, getEnv_pwdKey, getEnv_pwdKey,
    FiniteMap.lookup_journal_of_not_mem free]

/-- A lasting move from a trusted directory goes to a trusted one. -/
theorem lastingMove_trusted {around : Surroundings} {lastStatus : Int} {cmd : SimpleCommand}
    {d : Bytes} (trusted : PwdTrusted r)
    (moves : lastingMove lib around r lastStatus cmd = some d) : TrustedPath d := by
  obtain ⟨free, args, moves⟩ := lastingMove_eq_some moves
  have resolves := cdDestination_eq_some moves
  rw [getEnv_applyCommandEnv free] at resolves
  exact resolvePath_trusted trusted resolves

theorem getEnv_movedTo (r : CommandRunner) (d : Bytes) :
    (r.movedTo (some d)).getEnv pwdKey = d := by
  rw [getEnv_pwdKey, CommandRunner.movedTo, Finmap.lookup_insert]
  rfl

/-- The last of some assignments to `PWD`. -/
def lastPwd (parsed : List EnvPair) : Option EnvPair :=
  parsed.reverse.find? fun p => decide (toUpper p.key = pwdKey)

theorem getEnv_setEnvs (r : CommandRunner) (parsed : List EnvPair) :
    (setEnvs r parsed).getEnv pwdKey = (lastPwd parsed).elim (r.getEnv pwdKey) (·.value) := by
  have env : (setEnvs r parsed).env = r.env := by rw [setEnvs_eq]
  rw [getEnv_pwdKey, getEnv_pwdKey, env, setEnvs_lookup, lastPwd]
  cases parsed.reverse.find? fun p => decide (toUpper p.key = pwdKey) <;> rfl

/-- An execution keeps `PWD` trusted: if it sets variables for the session, the last
assignment to `PWD` is one of a trusted path. -/
def KeepsPwd (r : CommandRunner) (e : Execution) : Prop :=
  e.command.name = [] →
    ∀ parsed, validateAssignmentOnlyEnv r e.command.envAssignments = .ok parsed →
      ∀ p, lastPwd parsed = some p → TrustedPath p.value

theorem after_trusted_iff (e : Execution) (trusted : PwdTrusted r) :
    PwdTrusted (r.after lib e) ↔ KeepsPwd r e := by
  have effect := after_effect lib r e
  unfold KeepsPwd
  generalize r.after lib e = r' at effect
  cases effect with
  | refused _ refused =>
    rw [refused]
    exact ⟨fun _ _ _ h => (nomatch h), fun _ => trusted⟩
  | @assigned parsed unnamed accepted =>
    rw [accepted]
    show TrustedPath ((setEnvs r parsed).getEnv pwdKey) ↔ _
    rw [getEnv_setEnvs]
    constructor
    · intro after _ parsed' hparsed p hp
      cases hparsed
      rw [hp] at after
      exact after
    · intro keeps
      cases hp : lastPwd parsed with
      | none => exact trusted
      | some p => exact keeps unnamed parsed rfl p hp
  | ran named calls =>
    refine ⟨fun _ unnamed => absurd unnamed named, fun _ => ?_⟩
    cases moves : lastingMove lib e.around r e.lastStatus e.command with
    | none => exact trusted
    | some d =>
      show TrustedPath ((r.movedTo (some d)).getEnv pwdKey)
      rw [getEnv_movedTo]
      exact lastingMove_trusted trusted moves

/-- `PWD` is trusted in every state of a run exactly if each assignment to it that the
run makes for good is one of a trusted path. -/
theorem session_pwd_trusted_iff (lib : StdLib) (r : CommandRunner) (start : PwdTrusted r)
    (run : List Execution) :
    Throughout (CommandRunner.after lib) PwdTrusted r run ↔
      EachInput (CommandRunner.after lib) KeepsPwd r run :=
  throughout_iff (fun _ e trusted => after_trusted_iff e trusted) start run

/-- A session whose configuration puts it in `/root`. -/
def sessionInRoot : CommandRunner where
  env := (∅ : EnvMap).insert pwdKey ⟨pwdKey, str "/root"⟩

theorem sessionInRoot_trusted : PwdTrusted sessionInRoot :=
  ⟨rfl, by decide, validatePathChars_ok_iff.mp rfl⟩

/-- A command of one assignment. -/
noncomputable def assigning (assignment : Bytes) : Execution where
  around := stillSurroundings
  lastStatus := 0
  command := { envAssignments := [assignment] }
  stdout := .channel

theorem session_pwd_trusted_of_assignment : PwdTrusted sessionInRoot ∧
    Throughout (CommandRunner.after asciiLib) PwdTrusted sessionInRoot
      [assigning (str "pwd=/tmp")] := by
  refine ⟨sessionInRoot_trusted, (session_pwd_trusted_iff asciiLib sessionInRoot
    sessionInRoot_trusted [assigning (str "pwd=/tmp")]).mpr ⟨?_, trivial⟩⟩
  intro _ parsed accepted p hp
  have answer : validateAssignmentOnlyEnv sessionInRoot [str "pwd=/tmp"] =
      .ok [⟨str "pwd", str "/tmp"⟩] := rfl
  obtain rfl : [⟨str "pwd", str "/tmp"⟩] = parsed := Except.ok.inj (answer.symm.trans accepted)
  cases hp
  exact ⟨rfl, by decide, validatePathChars_ok_iff.mp rfl⟩

/-- `PWD=..` is accepted like any assignment. -/
theorem pwd_assigned_untrusted : PwdTrusted sessionInRoot ∧
    ¬ Throughout (CommandRunner.after asciiLib) PwdTrusted sessionInRoot
      [assigning (str "PWD=..")] := by
  refine ⟨sessionInRoot_trusted, ?_⟩
  rintro ⟨-, last⟩
  have value : (sessionInRoot.after asciiLib (assigning (str "PWD=.."))).getEnv pwdKey =
      Go.dotdot := by rfl
  have absolute := last.absolute
  rw [value] at absolute
  exact absurd absolute (by decide)

end FakeSSH.Shell
