import FakeSSH.Laws.Shell.Closing
import FakeSSH.Laws.Shell.Grammar
import FakeSSH.Laws.Shell.Redirect
import FakeSSH.Laws.Shell.SessionEnv
import Mathlib.Data.List.TakeWhile

/-!
# All redirections or none

An error of `applyFakeRedirections` should leave the store as it was, and its success
should leave nothing to fail later. Behind the preflight there are two errors that it
does not foresee, a path that `Record` refuses and a descriptor that the opening does
not know. Either comes too late once a target is reserved. Without them the cleanup's
calls of `Record` write paths that have their entries, and these never fail. The parser
makes known descriptors only, so for a line it is the paths that decide.
-/

namespace FakeSSH.Shell

open FakeSSH.Go FakeSSH.Lib

variable {lib : StdLib} {clock : Nat → Int} {r : CommandRunner} {s : DynamicStore}
  {redirects : List Redirect} {p : Bytes}

/-! ## The opening -/

/-- A descriptor that the opening knows. A duplicate is not asked for one. -/
def Redirect.known (x : Redirect) : Bool := x.duplicate || x.fd = 1 || x.fd = 2

/-- The opening at a redirection that has passed. -/
theorem openRedirect_passed (staged : Staged r redirects s) (passed : Passed r redirects)
    (valid : DynamicStore.Valid r.dynamic) {x : Redirect} (hx : x ∈ redirects) (o : Opened) :
    if x.known then
      ∃ o', openRedirect (r.withStore s) o x = .ok o' ∧
        o'.records = o.records ++ (redirectTarget r x).toList
    else ∃ e, openRedirect (r.withStore s) o x = .error e := by
  unfold openRedirect Redirect.known
  rcases passed.each x hx with ⟨dup, allowed⟩ | ⟨single, operator, p, checked⟩
  · rw [dup, allowed, redirectTarget_duplicate dup]
    exact ⟨_, rfl, (List.append_nil _).symm⟩
  · have goesTo := redirectTarget_single single checked
    have again := staged.validate passed valid checked
      (List.mem_filterMap.mpr ⟨x, hx, goesTo⟩)
    rw [single, operator, again, goesTo]
    by_cases out : x.fd = 1
    · simp [out, Except.map]
    · by_cases err : x.fd = 2
      · simp [err, Except.map]
      · simp [out, err]

/-- The opening of redirections that have passed. -/
theorem opening_passed (staged : Staged r redirects s) (passed : Passed r redirects)
    (valid : DynamicStore.Valid r.dynamic) {rest : List Redirect}
    (sub : ∀ x ∈ rest, x ∈ redirects) (o : Opened) :
    if rest.all Redirect.known then
      ∃ o', rest.foldlM (openRedirect (r.withStore s)) o = .ok o' ∧
        o'.records = o.records ++ redirectTargets r rest
    else ∃ e, rest.foldlM (openRedirect (r.withStore s)) o = .error e := by
  induction rest generalizing o with
  | nil => exact ⟨o, rfl, (List.append_nil _).symm⟩
  | cons x rest ih =>
    have here := openRedirect_passed staged passed valid (sub x List.mem_cons_self) o
    rw [List.all_cons, List.foldlM_cons]
    cases known : x.known with
    | false =>
      rw [known] at here
      obtain ⟨e, refused⟩ := here
      rw [refused]
      exact ⟨e, rfl⟩
    | true =>
      rw [known] at here
      obtain ⟨o', opened, records⟩ := here
      have later := ih (fun y hy => sub y (List.mem_cons_of_mem _ hy)) o'
      have targets : redirectTargets r (x :: rest) =
          (redirectTarget r x).toList ++ redirectTargets r rest := by
        rw [redirectTargets, List.filterMap_cons]
        cases redirectTarget r x <;> rfl
      rw [opened, Bool.true_and, targets, ← List.append_assoc, ← records]
      exact later

/-! ## The whole call -/

/-- What the preflight does not look at is in order. -/
structure Foreseen (r : CommandRunner) (redirects : List Redirect) : Prop where
  paths : ∀ p ∈ redirectTargets r redirects, recordable p = true
  descriptors : redirects.all Redirect.known = true

/-- The call once the preflight has passed: it reserves the targets up to the first that
`Record` refuses, and succeeds if all is foreseen. -/
theorem applyFakeRedirections_passed (lib : StdLib) (clock : Nat → Int)
    (valid : DynamicStore.Valid r.dynamic) (passed : Passed r redirects) :
    ∃ answer, applyFakeRedirections lib clock r redirects =
        (r.withStore (reservedStore clock r
          ((redirectTargets r redirects).takeWhile recordable).eraseDups), answer) ∧
      (Foreseen r redirects →
        ∃ opened, answer = .ok opened ∧ opened.records = redirectTargets r redirects) ∧
      (¬ Foreseen r redirects → ∃ e, answer = .error e) := by
  have reserved := reserveTargets_spec lib clock valid passed (fun _ => id) [] nofun
  change (reserveTargets lib clock r [] redirects).1 = _ ∧
    ((reserveTargets lib clock r [] redirects).2 = _ ↔ _) at reserved
  rw [List.nil_append] at reserved
  unfold applyFakeRedirections
  rw [(preflight_ok_iff valid).mpr passed]
  rcases run : reserveTargets lib clock r [] redirects with ⟨after, e | u⟩
  · rw [run] at reserved
    obtain ⟨rfl, done⟩ := reserved
    exact ⟨.error e, rfl, fun foreseen => (nomatch done.mpr foreseen.paths), fun _ => ⟨e, rfl⟩⟩
  · rw [run] at reserved
    obtain ⟨rfl, done⟩ := reserved
    have paths := done.mp rfl
    have staged : Staged r redirects (reservedStore clock r
        ((redirectTargets r redirects).takeWhile recordable).eraseDups) := by
      refine staged_reservedStore valid passed fun p hp => ?_
      have isTarget := (List.takeWhile_sublist _).subset (List.mem_eraseDups.mp hp)
      exact ⟨isTarget, paths p isTarget⟩
    have opening := opening_passed staged passed valid (fun _ => id) {}
    refine ⟨_, rfl, ?_, ?_⟩
    · intro foreseen
      rw [if_pos foreseen.descriptors] at opening
      exact opening
    · intro unforeseen
      rw [if_neg fun descriptors => unforeseen ⟨paths, descriptors⟩] at opening
      exact opening

/-- A call that succeeds: all is foreseen, the targets are reserved and then opened. -/
theorem applyFakeRedirections_ok (lib : StdLib) (clock : Nat → Int)
    (valid : DynamicStore.Valid r.dynamic) {after : CommandRunner} {opened : Opened}
    (accepted : applyFakeRedirections lib clock r redirects = (after, .ok opened)) :
    Passed r redirects ∧ Foreseen r redirects ∧
      after = r.withStore (reservedStore clock r (redirectTargets r redirects).eraseDups) ∧
      opened.records = redirectTargets r redirects ∧
      redirects.foldlM (openRedirect after) {} = .ok opened := by
  have opens : redirects.foldlM (openRedirect after) {} = .ok opened := by
    unfold applyFakeRedirections at accepted
    split at accepted
    next => cases accepted
    next =>
    split at accepted
    next => cases accepted
    next =>
      obtain ⟨rfl, opens⟩ := Prod.mk.inj accepted
      exact opens
  by_cases passed : Passed r redirects
  · obtain ⟨answer, call, foreseen, unforeseen⟩ :=
      applyFakeRedirections_passed lib clock valid passed
    obtain ⟨rfl, rfl⟩ := Prod.mk.inj (call.symm.trans accepted)
    by_cases good : Foreseen r redirects
    · obtain ⟨_, ok, records⟩ := foreseen good
      cases ok
      rw [List.takeWhile_eq_self_iff.mpr good.paths] at opens ⊢
      exact ⟨passed, good, rfl, records, opens⟩
    · obtain ⟨e, failed⟩ := unforeseen good
      cases failed
  · obtain ⟨e, failed⟩ := eq_error_of_not_ok fun _ ok => passed ((preflight_ok_iff valid).mp ok)
    rw [applyFakeRedirections, failed] at accepted
    cases accepted

/-! ## Atomicity -/

/-- All the redirections or none, whatever the clock reads: an error leaves the store as
it was, and after a success every target has its entry and the cleanup's calls succeed,
whatever was recorded in between. -/
structure Atomic (lib : StdLib) (r : CommandRunner) (redirects : List Redirect) : Prop where
  unchanged : ∀ clock e, (applyFakeRedirections lib clock r redirects).2 = .error e →
    OrderedMap.Same r.dynamic (applyFakeRedirections lib clock r redirects).1.dynamic
  reserved : ∀ clock opened, (applyFakeRedirections lib clock r redirects).2 = .ok opened →
    ∀ x ∈ redirects, x.duplicate = false → ∃ p, resolvePath r.currentPWD x.target = .ok p ∧
      p ∈ (applyFakeRedirections lib clock r redirects).1.dynamic.entries
  closed : ∀ clock opened, (applyFakeRedirections lib clock r redirects).2 = .ok opened →
    ∀ between closedAt count, AllRecorded lib
      (recordDropping lib (applyFakeRedirections lib clock r redirects).1.dynamic between)
      (closingCalls closedAt opened.records count)

theorem stamped_keys (clock : Nat → Int) (targets : List Bytes) :
    (stamped clock targets).map Prod.fst = targets := by
  simp [stamped, List.mapIdx_eq_zipIdx_map, Function.comp_def]

theorem mem_reservedStore (targets : List Bytes) (h : p ∈ targets) :
    p ∈ (reservedStore clock r targets).entries := by
  refine (OrderedMap.mem_putAll ..).mpr (.inr ?_)
  rw [stamped_keys]
  exact h

/-- What the cleanup asks `Record` for, of a descriptor that was opened. -/
theorem opened_entry (valid : DynamicStore.Valid r.dynamic) {after : CommandRunner}
    {opened : Opened} (accepted : applyFakeRedirections lib clock r redirects = (after, .ok opened))
    (isRecord : p ∈ opened.records) (size : Nat) (now : Int) :
    RecordCall.entry lib.cases { pathArg := p, kind := kindFile, size := size, now := now } =
      .ok { path := p, kind := kindFile, size := size, updatedAt := now } := by
  obtain ⟨-, foreseen, -, records, -⟩ := applyFakeRedirections_ok lib clock valid accepted
  rw [records] at isRecord
  have normal := (normalizeDynamicPath_resolved (mem_redirectTargets valid isRecord)).mpr
    (foreseen.paths p isRecord)
  exact fileCall_entry lib.cases normal size now

theorem opened_reserved (valid : DynamicStore.Valid r.dynamic) {after : CommandRunner}
    {opened : Opened} (accepted : applyFakeRedirections lib clock r redirects = (after, .ok opened))
    (isRecord : p ∈ opened.records) : p ∈ after.dynamic.entries := by
  obtain ⟨-, -, rfl, records, -⟩ := applyFakeRedirections_ok lib clock valid accepted
  rw [records] at isRecord
  exact mem_reservedStore _ (List.mem_eraseDups.mpr isRecord)

/-- The cleanup writes paths that have their entries, whatever was recorded in between. -/
theorem closingCalls_known (valid : DynamicStore.Valid r.dynamic) {after : CommandRunner}
    {opened : Opened} (accepted : applyFakeRedirections lib clock r redirects = (after, .ok opened))
    (between : List RecordCall) (closedAt : Nat → Int) (count : Nat → Nat) :
    ∀ c ∈ closingCalls closedAt opened.records count, ∃ e, c.entry lib.cases = .ok e ∧
      e.path ∈ (recordDropping lib after.dynamic between).entries := by
  intro c hc
  obtain ⟨path, isRecord, now, rfl⟩ := mem_closingCalls hc
  exact ⟨_, opened_entry valid accepted isRecord _ now,
    mem_recordDropping between (opened_reserved valid accepted isRecord)⟩

/-- A success is always one in full, so it is the errors that decide. -/
theorem atomic_of_unchanged (valid : DynamicStore.Valid r.dynamic)
    (unchanged : ∀ clock e, (applyFakeRedirections lib clock r redirects).2 = .error e →
      OrderedMap.Same r.dynamic (applyFakeRedirections lib clock r redirects).1.dynamic) :
    Atomic lib r redirects := by
  refine ⟨unchanged, ?_, ?_⟩
  · intro clock opened ok x hx single
    have accepted : applyFakeRedirections lib clock r redirects = (_, .ok opened) := Prod.ext rfl ok
    obtain ⟨passed, -, -, records, -⟩ := applyFakeRedirections_ok lib clock valid accepted
    rcases passed.each x hx with ⟨dup, -⟩ | ⟨-, -, p, checked⟩
    · rw [single] at dup
      cases dup
    · have isTarget : p ∈ redirectTargets r redirects :=
        List.mem_filterMap.mpr ⟨x, hx, redirectTarget_single single checked⟩
      exact ⟨p, ((validate_ok_iff valid).mp checked).1,
        opened_reserved valid accepted (records ▸ isTarget)⟩
  · intro clock opened ok between closedAt count
    exact allRecorded_of_known
      (closingCalls_known valid (Prod.ext rfl ok) between closedAt count)

/-- Where there are no targets there is nothing to foresee. -/
theorem foreseen_of_no_targets (passed : Passed r redirects)
    (none : redirectTargets r redirects = []) : Foreseen r redirects := by
  refine ⟨?_, List.all_eq_true.mpr ?_⟩
  · rw [none]
    exact nofun
  · intro x hx
    rcases passed.each x hx with ⟨dup, -⟩ | ⟨single, -, p, checked⟩
    · rw [Redirect.known, dup]
      rfl
    · have isTarget : p ∈ redirectTargets r redirects :=
        List.mem_filterMap.mpr ⟨x, hx, redirectTarget_single single checked⟩
      rw [none] at isTarget
      cases isTarget

/-- The store is the same after a reservation for every clock only if nothing is reserved. -/
theorem reservedStore_same {targets : List Bytes}
    (same : ∀ clock, OrderedMap.Same r.dynamic (reservedStore clock r targets.eraseDups)) :
    targets = [] := by
  cases targets with
  | nil => rfl
  | cons p targets =>
    have isTarget : p ∈ (p :: targets).eraseDups := List.mem_eraseDups.mpr List.mem_cons_self
    obtain ⟨i, hi, at_i⟩ := List.getElem_of_mem isTarget
    have entry (now : Int) : r.dynamic.entries.lookup p =
        some (reservedEntry (fun _ => now) i p) := by
      have nodup : ((stamped (fun _ => now) (p :: targets).eraseDups).map Prod.fst).Nodup := by
        rw [stamped_keys]
        exact OrderedMap.nodup_eraseDups _
      apply (OrderedMap.same_putAll_iff nodup).mp (same fun _ => now) (p, reservedEntry _ i p)
      exact List.mem_mapIdx.mpr ⟨i, hi, by rw [at_i]⟩
    have clocks := (entry 0).symm.trans (entry 1)
    cases clocks

/-- Redirections are all or nothing exactly if, once they pass, what the preflight does
not look at is in order, or the first target is refused already. -/
theorem atomic_iff (lib : StdLib) (valid : DynamicStore.Valid r.dynamic) :
    Atomic lib r redirects ↔
      (Passed r redirects → Foreseen r redirects ∨
        ∃ p, (redirectTargets r redirects).head? = some p ∧ recordable p = false) := by
  constructor
  · intro atomic passed
    by_contra unforeseen
    rw [not_or] at unforeseen
    obtain ⟨unforeseen, accepted⟩ := unforeseen
    -- the call fails, and so nothing can have been reserved
    have same (clock : Nat → Int) : OrderedMap.Same r.dynamic (reservedStore clock r
        ((redirectTargets r redirects).takeWhile recordable).eraseDups) := by
      obtain ⟨_, done, -, failed⟩ := applyFakeRedirections_passed lib clock valid passed
      obtain ⟨e, rfl⟩ := failed unforeseen
      have unchanged := atomic.unchanged clock e (by rw [done])
      rw [done] at unchanged
      exact unchanged
    have none := reservedStore_same same
    cases targets : redirectTargets r redirects with
    | nil => exact unforeseen (foreseen_of_no_targets passed targets)
    | cons p rest =>
      rw [targets, List.takeWhile_cons] at none
      cases bytes : recordable p with
      | true =>
        rw [bytes] at none
        cases none
      | false => exact accepted ⟨p, by rw [targets, List.head?_cons], bytes⟩
  · intro condition
    apply atomic_of_unchanged valid
    intro clock e failed
    by_cases passed : Passed r redirects
    · obtain ⟨answer, done, foreseen, -⟩ := applyFakeRedirections_passed lib clock valid passed
      rw [done] at failed ⊢
      rcases condition passed with good | ⟨p, first, refused⟩
      · obtain ⟨opened, ok, -⟩ := foreseen good
        cases ok.symm.trans failed
      · -- nothing is taken before the first target
        obtain ⟨rest, targets⟩ := List.head?_eq_some_iff.mp first
        rw [targets, List.takeWhile_cons, refused]
        exact ⟨rfl, fun _ => rfl⟩
    · obtain ⟨e', refused⟩ :=
        eq_error_of_not_ok fun _ ok => passed ((preflight_ok_iff valid).mp ok)
      unfold applyFakeRedirections
      rw [refused]
      exact ⟨rfl, fun _ => rfl⟩

/-! ## In a session -/

theorem setEnvs_dynamic (r : CommandRunner) (parsed : List EnvPair) :
    (setEnvs r parsed).dynamic = r.dynamic := by rw [setEnvs_eq]

theorem DynamicStore.Valid.recordDropping (valid : DynamicStore.Valid s)
    (calls : List RecordCall) : DynamicStore.Valid (recordDropping lib s calls) := by
  induction calls generalizing s with
  | nil => exact valid
  | cons c calls ih => exact ih (valid.record lib.cases c)

theorem after_valid (e : Execution) (valid : DynamicStore.Valid r.dynamic) :
    DynamicStore.Valid (r.after lib e).dynamic := by
  have effect := after_effect lib r e
  generalize r.after lib e = r' at effect
  cases effect with
  | refused => exact valid
  | assigned =>
    rw [setEnvs_dynamic]
    exact valid
  | ran _ calls =>
    have moved (d : Option Bytes) : (r.movedTo d).dynamic = r.dynamic := by cases d <;> rfl
    rw [CommandRunner.recording, moved]
    exact valid.recordDropping calls

theorem Leads.valid {r' : CommandRunner} (h : Leads lib r r')
    (valid : DynamicStore.Valid r.dynamic) : DynamicStore.Valid r'.dynamic := by
  obtain ⟨run, rfl⟩ := h
  induction run generalizing r with
  | nil => exact valid
  | cons e run ih => exact ih (after_valid e valid)

theorem expandSimpleCommand_dynamic (r : CommandRunner) (cmd : SimpleCommand) (lastStatus : Int) :
    (expandSimpleCommand r cmd lastStatus).1.dynamic = r.dynamic := by
  by_cases unnamed : cmd.name = []
  · unfold expandSimpleCommand executeAssignmentOnly
    rw [if_pos unnamed]
    cases validateAssignmentOnlyEnv r cmd.envAssignments with
    | error e => rfl
    | ok parsed => exact setEnvs_dynamic r parsed
  · rcases expandSimpleCommand_named r lastStatus unnamed with ⟨e, -, h⟩ | ⟨expanded, -, h⟩
    · rw [h]
    · rw [h, (applyCommandEnv_eq r cmd.envAssignments).1]

/-- REDIRECTIONS. In every state of a session, the redirections of an expanded command
are all or nothing exactly if what the preflight does not look at is in order, or the
preflight fails, or the first target is refused already. -/
theorem redirections_atomic_iff (lib : StdLib) (start r r' : CommandRunner)
    (fresh : start.dynamic = {}) (reached : Leads lib start r) (cmd expanded : SimpleCommand)
    (lastStatus : Int) (cleanup : List SavedCommandEnv)
    (expands : expandSimpleCommand r cmd lastStatus = (r', .ok (expanded, cleanup))) :
    Atomic lib r' expanded.redirects ↔
      (Passed r' expanded.redirects → Foreseen r' expanded.redirects ∨
        ∃ p, (redirectTargets r' expanded.redirects).head? = some p ∧ recordable p = false) := by
  apply atomic_iff
  have same := expandSimpleCommand_dynamic r cmd lastStatus
  rw [expands] at same
  rw [same]
  apply reached.valid
  rw [fresh]
  exact empty_valid

/-- `echo > /a 2> .`. -/
def echoToBoth : SimpleCommand where
  name := str "echo"
  redirects := [{ fd := 1, operator := str ">", target := str "/a" },
    { fd := 2, operator := str "2>", target := str "." }]

/-- A session after `PWD=/x` and `echo > /b`. -/
noncomputable def sessionInX : CommandRunner :=
  (({} : CommandRunner).after asciiLib (assigning (str "PWD=/x"))).after asciiLib
    { assigning [] with command := {
        name := str "echo", redirects := [{ fd := 1, operator := str ">", target := str "/b" }] } }

/-- Both targets are reserved, behind the one of the line before. -/
theorem redirections_atomic_of_echo :
    Leads asciiLib {} sessionInX ∧ sessionInX.dynamic.order = [str "/b"] ∧
      redirectTargets sessionInX echoToBoth.redirects = [str "/a", str "/x"] ∧
      (applyFakeRedirections asciiLib (fun _ => 0) sessionInX
        echoToBoth.redirects).1.dynamic.order = [str "/b", str "/a", str "/x"] ∧
      Atomic asciiLib sessionInX echoToBoth.redirects := by
  have reached : Leads asciiLib {} sessionInX := .head _ (.head _ (.refl _))
  have targets : redirectTargets sessionInX echoToBoth.redirects = [str "/a", str "/x"] := rfl
  refine ⟨reached, rfl, targets, rfl, ?_⟩
  refine (redirections_atomic_iff asciiLib {} sessionInX sessionInX rfl reached echoToBoth
    echoToBoth 0 [] rfl).mpr fun _ => .inl ⟨?_, rfl⟩
  rw [targets]
  exact List.forall_mem_cons.mpr ⟨rfl, List.forall_mem_singleton.mpr rfl⟩

/-- A session after `PWD=/x:y`. -/
noncomputable def sessionInColon : CommandRunner :=
  ({} : CommandRunner).after asciiLib (assigning (str "PWD=/x:y"))

/-- The first target is reserved when the second one is refused for its colon. -/
theorem reserved_before_refused : Leads asciiLib {} sessionInColon ∧
    expandSimpleCommand sessionInColon echoToBoth 0 = (sessionInColon, .ok (echoToBoth, [])) ∧
      ¬ Atomic asciiLib sessionInColon echoToBoth.redirects := by
  refine ⟨.head _ (.refl _), rfl, ?_⟩
  intro atomic
  have same := atomic.unchanged (fun _ => 0) (.dynamic (.path .colon)) rfl
  have order : (applyFakeRedirections asciiLib (fun _ => 0) sessionInColon
      echoToBoth.redirects).1.dynamic.order = [str "/a"] := rfl
  exact absurd (order.symm.trans same.order) (List.cons_ne_nil _ _)

/-! ## What the parser makes -/

/-- A group's redirections move the output or the error output. -/
theorem redirectsOf_known (g : List Token) : ∀ x ∈ redirectsOf g, x.known = true := by
  fun_induction redirectsOf g with
  | case1 g ih | case2 w g ih | case3 w g ih => exact List.forall_mem_cons.mpr ⟨rfl, ih⟩
  | case4 t g _ _ _ ih => exact ih
  | case5 =>
    intro x hx
    cases hx

/-- The descriptors of every command are known. -/
def Pipeline.Known (p : Pipeline) : Prop := ∀ c ∈ p.parts, ∀ x ∈ c.redirects, x.known = true

theorem parseShellLine_known {segment : Bytes} {line : ShellLine}
    (h : parseShellLine segment = .ok line) : ∀ p ∈ line.pipelines, p.Known := by
  intro p hp c hc
  unfold parseShellLine at h
  split at h
  next => cases h
  next tokens _ =>
    have isPart : c ∈ line.pipelines.flatMap (·.parts) := List.mem_flatMap.mpr ⟨p, hp, hc⟩
    rw [parseTokens_commands h] at isPart
    obtain ⟨g, -, rfl⟩ := List.mem_map.mp isPart
    rw [commandOf, ofWords_redirects]
    exact redirectsOf_known g

theorem expandRedirect_known {lastStatus : Int} {x y : Redirect}
    (h : expandRedirect r lastStatus x = .ok y) (known : x.known = true) : y.known = true := by
  unfold expandRedirect at h
  split at h
  next =>
    cases h
    exact known
  next =>
    cases expanded : expandRedirectTarget r lastStatus (writtenWord x.targetWord x.target) with
    | error e =>
      rw [expanded] at h
      cases h
    | ok target =>
      rw [expanded] at h
      cases h
      exact known

theorem expandRedirects_known {lastStatus : Int} {redirects' : List Redirect}
    (made : List.Forall₂ (fun x y => expandRedirect r lastStatus x = .ok y) redirects redirects')
    (known : ∀ x ∈ redirects, x.known = true) : ∀ y ∈ redirects', y.known = true := by
  induction made with
  | nil => exact nofun
  | cons here _ ih =>
    rw [List.forall_mem_cons] at known ⊢
    exact ⟨expandRedirect_known here known.1, ih known.2⟩

theorem expandAssigned_known {lastStatus : Int} {cmd expanded : SimpleCommand}
    (h : expandAssigned r cmd lastStatus = .ok expanded)
    (known : ∀ x ∈ cmd.redirects, x.known = true) : ∀ x ∈ expanded.redirects, x.known = true := by
  unfold expandAssigned at h
  obtain ⟨words, -, h⟩ := bind_eq_ok.mp h
  obtain ⟨redirects, made, h⟩ := bind_eq_ok.mp h
  obtain ⟨_, -, h⟩ := bind_eq_ok.mp h
  cases h
  exact expandRedirects_known (mapM_eq_ok.mp made) known

/-- In a command of a line only the paths are left to foresee. -/
theorem line_foreseen_iff {segment : Bytes} {line : ShellLine} {pipe : Pipeline}
    {cmd expanded : SimpleCommand} {lastStatus : Int} {r' : CommandRunner}
    {cleanup : List SavedCommandEnv} (parsed : parseShellLine segment = .ok line)
    (hpipe : pipe ∈ line.pipelines) (hcmd : cmd ∈ pipe.parts)
    (expands : expandSimpleCommand r cmd lastStatus = (r', .ok (expanded, cleanup))) :
    Foreseen r' expanded.redirects ↔
      ∀ p ∈ redirectTargets r' expanded.redirects, recordable p = true := by
  have known := parseShellLine_known parsed pipe hpipe cmd hcmd
  refine ⟨Foreseen.paths, fun paths => ⟨paths, List.all_eq_true.mpr ?_⟩⟩
  by_cases unnamed : cmd.name = []
  · unfold expandSimpleCommand at expands
    rw [if_pos unnamed] at expands
    split at expands
    next => cases expands
    next =>
      cases expands
      exact known
  · rcases expandSimpleCommand_named r lastStatus unnamed with ⟨e, -, h⟩ | ⟨_, made, h⟩
    · rw [h] at expands
      cases expands
    · rw [h] at expands
      cases expands
      exact expandAssigned_known made known

end FakeSSH.Shell
