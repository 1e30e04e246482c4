import FakeSSH.Laws.Shell.Atomic
import FakeSSH.Laws.Shell.Children

/-!
# What `ls` prints of a directory

A listing of a directory of the root file system has the names of its children there
and in the dynamic store, in order and each once. The root's own path is the only one
that spoils it: its name is a slash. Redirections refuse it as a directory, `touch`
does not, and then the root's listing has a name that is not a component.
-/

namespace FakeSSH.Shell

open FakeSSH.Go FakeSSH.Lib

variable {lib : StdLib} {r : CommandRunner} {d n p : Bytes}

/-! ## Listings -/

/-- The names that `ls` joins for a directory of the file system. -/
def CommandRunner.listed (r : CommandRunner) (d : Bytes) : List Bytes :=
  sortDedup (r.rootFS.readDirNames d ++ dynamicChildNames r d)

/-- A listing of a directory as it should be: in order, each name once and a component,
and exactly those whose path inside the directory exists. -/
structure Listing (r : CommandRunner) (d : Bytes) (names : List Bytes) : Prop where
  increasing : names.Pairwise (· < ·)
  component : ∀ n ∈ names, n ≠ [] ∧ slash ∉ n
  complete : ∀ n, n ≠ [] → slash ∉ n →
    (n ∈ names ↔ inside d n ∈ r.rootFS.nodes ∨ ∃ e ∈ dynamicEntries r.dynamic, e.path = inside d n)

/-- `ls` prints its listing of every directory of the file system, and it is one. -/
def ListsWell (r : CommandRunner) : Prop :=
  ∀ d, r.rootFS.isDir d = true →
    Cmds.ls r [d] = printLine ((str "  ").intercalate (r.listed d)) ∧ Listing r d (r.listed d)

theorem ls_dir (loaded : r.rootFS.Loaded) (isDir : r.rootFS.isDir d = true) :
    Cmds.ls r [d] = printLine ((str "  ").intercalate (r.listed d)) := by
  obtain ⟨q, rfl, bytes⟩ := loaded.isDir isDir
  have target : Cmds.lsTarget r [q.render] = q.render := if_neg (List.cons_ne_nil _ _)
  have stat : r.rootFS.stat q.render = some .dir := of_decide_eq_true isDir
  unfold Cmds.ls
  rw [target, q.resolve _ bytes]
  dsimp only
  rw [stat]
  rfl

/-- LISTINGS. Whatever a session has recorded, its listings are in order exactly if the
root's own path has no entry. -/
theorem listsWell_iff (loaded : r.rootFS.Loaded) (valid : DynamicStore.Valid r.dynamic) :
    ListsWell r ↔ [slash] ∉ r.dynamic.entries := by
  constructor
  · intro well rooted
    have root : r.rootFS.isDir [slash] = true := rfl
    have own : [slash] ∈ dynamicChildNames r [slash] :=
      (mem_dynamicChildNames valid).mpr ⟨[slash], rooted, rfl, rfl⟩
    have listed : [slash] ∈ r.listed [slash] := mem_sortDedup.mpr (List.mem_append_right _ own)
    exact ((well [slash] root).2.component _ listed).2 (List.mem_singleton_self slash)
  · intro noRoot d isDir
    refine ⟨ls_dir loaded isDir, sortDedup_increasing _, ?_, ?_⟩
    · intro n hn
      rcases List.mem_append.mp (mem_sortDedup.mp hn) with static | dynamic
      · exact loaded.component static
      · exact dynamicChildNames_component valid noRoot dynamic
    · intro n full plain
      obtain ⟨q, rfl, -⟩ := loaded.isDir isDir
      rw [CommandRunner.listed, mem_sortDedup, List.mem_append,
        loaded.mem_readDirNames q full plain, mem_dynamicChildNames_inside valid q full plain,
        valid.mem_paths]

/-! ## What commands record -/

variable {s : DynamicStore} {t : CaseTable}

/-- A path that is normal already stays as it is. -/
theorem normalizeDynamicPath_render (q : FakePath) (h : normalizeDynamicPath q.render = .ok p) :
    p = q.render := by
  have bytes := normalizeDynamicPath_arg h
  unfold normalizeDynamicPath at h
  rw [q.resolve [slash] bytes] at h
  obtain ⟨-, h⟩ := check_eq_ok.mp h
  exact (Except.ok.inj h).symm

/-- Of a path of the fake root, `Record` adds that path alone. -/
theorem mem_record_path (q : FakePath) {c : RecordCall} (arg : c.pathArg = q.render)
    (h : p ∈ (record t s c).1.entries) : p ∈ s.entries ∨ p = q.render := by
  rcases record_cases t s c with ⟨_, same⟩ | ⟨e, made, -, wrote⟩
  · rw [same] at h
    exact .inl h
  · rw [wrote] at h
    rcases (AList.mem_insert _).mp h with rfl | known
    · exact .inr (normalizeDynamicPath_render q (arg ▸ RecordCall.entry_path made))
    · exact .inl known

/-- Calls for paths of the fake root add these alone. -/
theorem mem_recordDropping_paths {paths : List Bytes}
    (spelled : ∀ p ∈ paths, ∃ q : FakePath, p = q.render)
    {calls : List RecordCall} (args : ∀ c ∈ calls, c.pathArg ∈ paths)
    (h : p ∈ (recordDropping lib s calls).entries) : p ∈ s.entries ∨ p ∈ paths := by
  induction calls generalizing s with
  | nil => exact .inl h
  | cons c calls ih =>
    have own := args c List.mem_cons_self
    rcases ih (fun c' hc' => args c' (List.mem_cons_of_mem _ hc')) h with known | new
    · obtain ⟨q, spelling⟩ := spelled _ own
      rcases mem_record_path q spelling known with known | rfl
      · exact .inl known
      · exact .inr (spelling ▸ own)
    · exact .inr new

theorem mem_record_root {now : Int} :
    [slash] ∈ (record t s (reservation [slash] now)).1.entries ↔
      [slash] ∈ s.entries ∨ s.size < maxDynamicEntries := by
  have made : (reservation [slash] now).entry t =
      .ok { path := [slash], kind := kindFile, size := 0, updatedAt := now } :=
    fileCall_entry t rfl 0 now
  unfold record
  rw [made]
  dsimp only
  split
  next full =>
    exact ⟨fun known => absurd known full.1,
      fun room => room.elim (absurd · full.1) (absurd · (Nat.not_lt.mpr full.2))⟩
  next room =>
    refine ⟨fun _ => ?_, fun _ => (AList.mem_insert _).mpr (.inl rfl)⟩
    rwa [not_and_or, not_not, Nat.not_le] at room

/-- The path that `touch` is asked for. -/
def touchPath (r : CommandRunner) : List Bytes → Option Bytes
  | [arg] => (resolvePath r.currentPWD arg).toOption
  | _ => none

theorem touch_root (r : CommandRunner) (args : List Bytes) (lib : StdLib) (now : Int) :
    [slash] ∈ (Cmds.touch r args lib now).1.dynamic.entries ↔
      [slash] ∈ r.dynamic.entries ∨
        touchPath r args = some [slash] ∧ r.dynamic.size < maxDynamicEntries := by
  -- what `Record` makes of the path that is asked for
  have recorded {arg resolved : Bytes} {after : DynamicStore × Except DynamicError DynamicEntry}
      (resolves : resolvePath r.currentPWD arg = .ok resolved)
      (call : record lib.cases r.dynamic (reservation resolved now) = after) :
      [slash] ∈ after.1.entries ↔ [slash] ∈ r.dynamic.entries ∨
        touchPath r [arg] = some [slash] ∧ r.dynamic.size < maxDynamicEntries := by
    have asked : touchPath r [arg] = some resolved := by
      rw [touchPath, resolves]
      rfl
    subst call
    rw [asked, Option.some.injEq]
    by_cases root : resolved = [slash]
    · rw [root, mem_record_root, and_iff_right rfl]
    · obtain ⟨q, rfl⟩ := resolvePath_path resolves
      constructor
      · exact fun h => .inl ((mem_record_path q rfl h).resolve_right (Ne.symm root))
      · exact fun h => mem_record (h.resolve_right fun other => root other.1)
  have unasked (h : touchPath r args ≠ some [slash]) : [slash] ∈ r.dynamic.entries ↔
      [slash] ∈ r.dynamic.entries ∨
        touchPath r args = some [slash] ∧ r.dynamic.size < maxDynamicEntries :=
    ⟨.inl, fun asked => asked.resolve_right fun other => h other.1⟩
  fun_cases Cmds.touch with
  | case1 =>
    apply unasked
    intro asked
    cases asked
  | case2 arg e refused =>
    apply unasked
    rw [touchPath, refused]
    intro asked
    cases asked
  | case3 arg resolved resolves orphan =>
    apply unasked
    rw [touchPath, resolves]
    intro asked
    obtain rfl : resolved = [slash] := Option.some.inj asked
    have root : Cmds.parentExists r (dir [slash]) = true := rfl
    rw [root] at orphan
    cases orphan
  | case4 arg resolved resolves _ s e call => exact recorded resolves call
  | case5 arg resolved resolves _ s _ call => exact recorded resolves call
  | case6 many none single =>
    apply unasked
    unfold touchPath
    split
    next arg => exact absurd rfl (single arg)
    next =>
      intro asked
      cases asked

/-- No built-in but `touch` writes the store. -/
theorem runCmd_dynamic (lib : StdLib) (around : Surroundings) (r : CommandRunner)
    (args : List Bytes) {name : Bytes} (other : name ≠ str "touch") :
    (runCmd r args lib around name).2.1.dynamic = r.dynamic := by
  unfold runCmd
  cases found : Builtin.all.find? (fun b => b.name = name) with
  | none =>
    dsimp only
    split <;> rfl
  | some b =>
    cases b with
    | touch =>
      have named := List.find?_some found
      exact absurd (of_decide_eq_true named).symm other
    | cd =>
      show (Cmds.cd r args).1.dynamic = r.dynamic
      rw [cd_runner]
      cases cdDestination r args <;> rfl
    | _ => rfl

theorem runCmd_root (lib : StdLib) (around : Surroundings) (r : CommandRunner)
    (args : List Bytes) (name : Bytes) :
    [slash] ∈ (runCmd r args lib around name).2.1.dynamic.entries ↔
      [slash] ∈ r.dynamic.entries ∨ name = str "touch" ∧
        touchPath r args = some [slash] ∧ r.dynamic.size < maxDynamicEntries := by
  by_cases isTouch : name = str "touch"
  · subst isTouch
    rw [and_iff_right rfl, ← touch_root r args lib around.ranAt]
    rfl
  · rw [runCmd_dynamic lib around r args isTouch]
    exact ⟨.inl, fun h => h.resolve_right fun asked => isTouch asked.1⟩

/-! ## Redirections -/

variable {redirects : List Redirect} {clock : Nat → Int}

/-- The root is a directory, which no redirection goes to. -/
theorem root_not_target (valid : DynamicStore.Valid r.dynamic) :
    [slash] ∉ redirectTargets r redirects := by
  intro h
  have notDir := (mem_redirectTargets valid h).notDir
  have root : fakeDirExists r [slash] = true := rfl
  rw [root] at notDir
  cases notDir

/-- The redirections record their targets alone. -/
theorem mem_applyFakeRedirections (valid : DynamicStore.Valid r.dynamic)
    (h : p ∈ (applyFakeRedirections lib clock r redirects).1.dynamic.entries) :
    p ∈ r.dynamic.entries ∨ p ∈ redirectTargets r redirects := by
  by_cases passed : Passed r redirects
  · obtain ⟨answer, call, -⟩ := applyFakeRedirections_passed lib clock valid passed
    rw [call] at h
    refine (staged_reservedStore valid passed fun q hq => ?_).within p h
    have taken := List.mem_eraseDups.mp hq
    exact ⟨(List.takeWhile_sublist _).subset taken, List.mem_takeWhile_imp taken⟩
  · obtain ⟨e, failed⟩ := eq_error_of_not_ok fun _ ok => passed ((preflight_ok_iff valid).mp ok)
    rw [applyFakeRedirections, failed] at h
    exact .inl h

theorem applyFakeRedirections_root (valid : DynamicStore.Valid r.dynamic) :
    [slash] ∈ (applyFakeRedirections lib clock r redirects).1.dynamic.entries ↔
      [slash] ∈ r.dynamic.entries := by
  constructor
  · intro h
    exact (mem_applyFakeRedirections valid h).resolve_right (root_not_target valid)
  · intro h
    obtain ⟨calls, after⟩ := applyFakeRedirections_runner lib clock r redirects
    rw [after]
    exact mem_recordDropping calls h

/-- The cleanup does not record the root. -/
theorem runOpened_root (lib : StdLib) (around : Surroundings) (r : CommandRunner)
    (cmd : ParsedCommand) {opened : Opened} (stdout : Stdout)
    (spelled : ∀ p ∈ opened.records, ∃ q : FakePath, p = q.render)
    (other : [slash] ∉ opened.records) :
    [slash] ∈ (runOpened lib around r cmd opened stdout).runner.dynamic.entries ↔
      [slash] ∈ (runCmd r cmd.args lib around cmd.name).2.1.dynamic.entries := by
  constructor
  · intro h
    refine (mem_recordDropping_paths spelled (fun c hc => ?_) h).resolve_right other
    obtain ⟨path, isRecord, _, rfl⟩ := mem_closingCalls hc
    exact isRecord
  · exact mem_recordDropping _

/-! ## In a session -/

/-- An expanded command records the root's path: it is a `touch` of the root, it gets past
the checks and its redirections, and these leave room in the store. -/
def TouchesRoot (lib : StdLib) (clock : Nat → Int) (r : CommandRunner) (expanded : SimpleCommand) :
    Prop :=
  expanded.name = str "touch" ∧ validateParsedCommand (parserCommandFromSimple expanded) = .ok () ∧
    ∃ after opened,
      applyFakeRedirections lib clock r expanded.redirects = (after, .ok opened) ∧
      touchPath after expanded.args = some [slash] ∧ after.dynamic.size < maxDynamicEntries

theorem runExpanded_root (lib : StdLib) (around : Surroundings)
    (valid : DynamicStore.Valid r.dynamic) (expanded : SimpleCommand) (stdout : Stdout) :
    [slash] ∈ (runExpanded lib around r expanded stdout).runner.dynamic.entries ↔
      [slash] ∈ r.dynamic.entries ∨ TouchesRoot lib around.reservedAt r expanded := by
  unfold runExpanded TouchesRoot
  by_cases unnamed : expanded.name = []
  · have notTouch : expanded.name ≠ str "touch" := by
      rw [unnamed]
      decide
    rw [if_pos unnamed]
    exact ⟨.inl, fun h => h.resolve_right fun touches => notTouch touches.1⟩
  · rw [if_neg unnamed]
    cases checked : validateParsedCommand (parserCommandFromSimple expanded) with
    | error e => exact ⟨.inl, fun h => h.resolve_right fun touches => nomatch touches.2.1⟩
    | ok u =>
      have before : [slash] ∈ (applyFakeRedirections lib around.reservedAt r
          expanded.redirects).1.dynamic.entries ↔ [slash] ∈ r.dynamic.entries :=
        applyFakeRedirections_root valid
      rcases applied : applyFakeRedirections lib around.reservedAt r expanded.redirects with
        ⟨after, e | opened⟩
      · rw [applied] at before
        have same : [slash] ∈ after.dynamic.entries ↔ [slash] ∈ r.dynamic.entries ∨
            expanded.name = str "touch" ∧ (.ok u : Except InputError Unit) = .ok () ∧
              ∃ after' opened, (after, (.error e : Except ShellError Opened)) =
                (after', .ok opened) ∧ touchPath after' expanded.args = some [slash] ∧
                after'.dynamic.size < maxDynamicEntries := by
          rw [before]
          refine ⟨.inl, fun h => h.resolve_right ?_⟩
          rintro ⟨-, -, _, _, applies, -⟩
          cases applies
        dsimp only
        split <;> exact same
      · rw [applied] at before
        obtain ⟨-, -, -, records, -⟩ :=
          applyFakeRedirections_ok lib around.reservedAt valid applied
        have spelled : ∀ p ∈ opened.records, ∃ q : FakePath, p = q.render := by
          rw [records]
          exact fun p hp => (mem_redirectTargets valid hp).path
        have other : [slash] ∉ opened.records := records ▸ root_not_target valid
        refine (runOpened_root lib around after _ stdout spelled other).trans ?_
        rw [runCmd_root, before]
        refine or_congr_right ⟨?_, ?_⟩
        · rintro ⟨named, asked, room⟩
          exact ⟨named, rfl, after, opened, rfl, asked, room⟩
        · rintro ⟨named, -, _, _, applies, asked, room⟩
          cases applies
          exact ⟨named, asked, room⟩

theorem restoreCommandEnv_dynamic (r : CommandRunner) (saved : List SavedCommandEnv) :
    (restoreCommandEnv r saved).dynamic = r.dynamic := by rw [restoreCommandEnv_eq]

/-- An execution leaves the root's path alone: it is no `touch` that records it. -/
def SparesRoot (lib : StdLib) (r : CommandRunner) (e : Execution) : Prop :=
  e.command.name ≠ [] → ∀ expanded,
    expandAssigned (applyCommandEnv r e.command.envAssignments).1 e.command e.lastStatus =
        .ok expanded →
      ¬ TouchesRoot lib e.around.reservedAt (applyCommandEnv r e.command.envAssignments).1 expanded

theorem after_root (e : Execution) (valid : DynamicStore.Valid r.dynamic)
    (noRoot : [slash] ∉ r.dynamic.entries) :
    [slash] ∉ (r.after lib e).dynamic.entries ↔ SparesRoot lib r e := by
  unfold CommandRunner.after SparesRoot
  by_cases unnamed : e.command.name = []
  · refine ⟨fun _ named => absurd unnamed named, fun _ => ?_⟩
    rw [execute_unnamed lib e.around r e.lastStatus e.stdout unnamed]
    cases validateAssignmentOnlyEnv r e.command.envAssignments with
    | error _ => exact noRoot
    | ok parsed =>
      show [slash] ∉ (setEnvs r parsed).dynamic.entries
      rw [setEnvs_dynamic]
      exact noRoot
  · have assigned : (applyCommandEnv r e.command.envAssignments).1.dynamic = r.dynamic := by
      rw [(applyCommandEnv_eq r e.command.envAssignments).1]
    unfold executeSimpleCommand
    rcases expandSimpleCommand_named r e.lastStatus unnamed with
      ⟨err, failed, expansion⟩ | ⟨expanded, expands, expansion⟩
    · rw [expansion, failed]
      refine ⟨fun _ _ _ => nofun, fun _ => ?_⟩
      dsimp only
      split <;> exact noRoot
    · rw [expansion, expands]
      dsimp only
      rw [restoreCommandEnv_dynamic, runExpanded_root lib e.around (assigned ▸ valid), assigned,
        not_or, and_iff_right noRoot]
      constructor
      · intro spared _ expanded' same
        cases same
        exact spared
      · intro spared
        exact spared unnamed expanded rfl

/-- The file system is the same throughout a session. -/
theorem after_rootFS (e : Execution) : (r.after lib e).rootFS = r.rootFS := by
  have effect := after_effect lib r e
  generalize r.after lib e = r' at effect
  cases effect with
  | refused => rfl
  | assigned => rw [setEnvs_eq]
  | ran => cases lastingMove lib e.around r e.lastStatus e.command <;> rfl

/-- LISTINGS IN A SESSION. Over a loaded file system, `ls` lists well in every state of a
run from a new session exactly if no `touch` of the run records the root's path. -/
theorem listings_well_iff (lib : StdLib) (r : CommandRunner) (loaded : r.rootFS.Loaded)
    (fresh : r.dynamic = {}) (run : List Execution) :
    Throughout (CommandRunner.after lib) ListsWell r run ↔
      EachInput (CommandRunner.after lib) (SparesRoot lib) r run := by
  have start : DynamicStore.Valid r.dynamic := by
    rw [fresh]
    exact empty_valid
  have keeps (s : CommandRunner) (e : Execution) :
      s.rootFS.Loaded ∧ DynamicStore.Valid s.dynamic →
        (s.after lib e).rootFS.Loaded ∧ DynamicStore.Valid (s.after lib e).dynamic := by
    rintro ⟨loaded, valid⟩
    rw [after_rootFS]
    exact ⟨loaded, after_valid e valid⟩
  refine throughout_iff_within keeps ?_ ⟨loaded, start⟩ ?_ run
  · intro s e within well
    obtain ⟨loaded', valid'⟩ := keeps s e within
    rw [listsWell_iff loaded' valid']
    exact after_root e within.2 ((listsWell_iff within.1 within.2).mp well)
  · rw [listsWell_iff loaded start, fresh]
    exact List.not_mem_nil

noncomputable section

/-- A `touch` of a path. -/
def touching (p : Bytes) : Execution where
  around := stillSurroundings
  lastStatus := 0
  command := { name := str "touch", args := [p] }
  stdout := .channel

end

theorem empty_loaded : ({} : RootFS).Loaded := ⟨nofun, Nat.zero_le _⟩

theorem listings_well_of_touch : ({} : CommandRunner).rootFS.Loaded ∧
    ({} : CommandRunner).dynamic = {} ∧
    Throughout (CommandRunner.after asciiLib) ListsWell {} [touching (str "/a")] := by
  refine ⟨empty_loaded, rfl, (listings_well_iff asciiLib {} empty_loaded rfl _).mpr ⟨?_, trivial⟩⟩
  intro _ expanded expands
  have same : expandAssigned (applyCommandEnv {} []).1 (touching (str "/a")).command 0 =
      .ok (touching (str "/a")).command := rfl
  cases same.symm.trans expands
  rintro ⟨-, -, after, opened, applied, asked, -⟩
  have opens : applyFakeRedirections asciiLib stillSurroundings.reservedAt {} [] = ({}, .ok {}) :=
    rfl
  cases opens.symm.trans applied
  exact absurd asked (by decide)

/-- After `touch /` the root lists itself as `/`. -/
theorem touched_root_lists_slash : ({} : CommandRunner).rootFS.Loaded ∧
    ¬ Throughout (CommandRunner.after asciiLib) ListsWell {} [touching [slash]] := by
  refine ⟨empty_loaded, ?_⟩
  rintro ⟨-, last⟩
  have listed : (({} : CommandRunner).after asciiLib (touching [slash])).listed [slash] =
      [[slash]] := by decide +kernel
  have component := (last [slash] rfl).2.component [slash]
    (by rw [listed]; exact List.mem_cons_self)
  exact component.2 (List.mem_singleton_self slash)

end FakeSSH.Shell
