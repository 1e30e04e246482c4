import FakeSSH.Laws.Shell.Children
import FakeSSH.Shell.Execute

/-!
# How much a command prints

The output of a command should stay within `MaxCommandOutputBytes`. The recon commands
write through `writeBounded`. The older ones print what they have, and stay within the
cap as far as the arguments, the variables, the configuration or the directory let them.
-/

namespace FakeSSH.Shell

open FakeSSH.Go FakeSSH.Lib

/-! ## Bounded reports -/

theorem truncateOutput_length (data : Bytes) :
    (truncateOutput data).length ≤ maxCommandOutputBytes := by
  have marker : outputTruncatedMarker.length ≤ maxCommandOutputBytes := by decide
  unfold truncateOutput
  split
  next short => exact short
  next =>
    rw [List.length_append, List.length_take]
    omega

/-- The bytes of a report's output. -/
def Report.size (report : Report) : Nat := (report.out.getD []).length

/-- A report that keeps to the cap. -/
def Report.Capped (report : Report) : Prop := report.size ≤ maxCommandOutputBytes

theorem complain_capped (line error : Bytes) : (complain line error).Capped := Nat.zero_le _

theorem writeBounded_capped (data : Bytes) : (writeBounded data).Capped :=
  truncateOutput_length data

theorem printUnless_capped (cmd : Bytes) (refused : Option Bytes) (text : Bytes) :
    (printUnless cmd refused text).Capped := by
  cases refused with
  | some opt => exact complain_capped _ _
  | none => exact writeBounded_capped text

variable {r : CommandRunner} {args : List Bytes}

/-- A file that is refused is refused with a complaint. -/
theorem resolveSingleFakeFile_error {cmd : Bytes} {report : Report}
    (h : Cmds.resolveSingleFakeFile r args cmd = .error report) : report.Capped := by
  unfold Cmds.resolveSingleFakeFile at h
  split at h
  next =>
    cases h
    exact complain_capped _ _
  next =>
  split at h
  next =>
    cases h
    exact complain_capped _ _
  next arg =>
    split at h
    next =>
      cases h
      exact complain_capped _ _
    next =>
    dsimp only at h
    split at h
    next => cases h
    next =>
    split at h
    next =>
      cases h
      exact complain_capped _ _
    next => cases h
    next =>
      split at h
      next =>
        split_ifs at h <;> cases h <;> exact complain_capped _ _
      next =>
        cases h
        exact complain_capped _ _
  next =>
    cases h
    exact complain_capped _ _

theorem reportFile_capped {cmd : Bytes} (describe : Cmds.ReconFile → Bytes) :
    (Cmds.reportFile (Cmds.resolveSingleFakeFile r args cmd) describe).Capped := by
  cases file : Cmds.resolveSingleFakeFile r args cmd with
  | error report => exact resolveSingleFakeFile_error file
  | ok f => exact writeBounded_capped _

theorem parseHeadTailFrom_error {cmd : Bytes} {n : Int} {fileArgs : List Bytes} {report : Report}
    (h : Cmds.parseHeadTailFrom cmd n fileArgs args = .error report) : report.Capped := by
  fun_induction Cmds.parseHeadTailFrom cmd n fileArgs args with
  | case1 => cases h
  -- a count or a file, and on to the next argument
  | case4 | case6 | case8 | case10 =>
    rename_i ih
    exact ih h
  | _ =>
    cases h
    exact complain_capped _ _

theorem someLines_capped (cmd : Bytes) (choose : Bytes → Int → Bytes) :
    (Cmds.someLines r args cmd choose).Capped := by
  unfold Cmds.someLines
  split
  next report refused => exact parseHeadTailFrom_error refused
  next => exact reportFile_capped _

theorem which_capped : (Cmds.which args).Capped := by
  unfold Cmds.which
  split
  next => exact complain_capped _ _
  next =>
    split
    · exact complain_capped _ _
    · exact truncateOutput_length _

theorem cd_capped : (Cmds.cd r args).2.Capped := by
  unfold Cmds.cd
  split
  next => exact complain_capped _ _
  next =>
    split
    · exact complain_capped _ _
    · exact complain_capped _ _
    · exact Nat.zero_le _

theorem touch_capped (lib : StdLib) (now : Int) : (Cmds.touch r args lib now).2.Capped := by
  unfold Cmds.touch
  split
  next => exact complain_capped _ _
  next =>
    split
    next => exact complain_capped _ _
    next =>
      split
      · exact complain_capped _ _
      · split
        · exact complain_capped _ _
        · exact Nat.zero_le _
  next => exact complain_capped _ _

/-! ## What is printed directly -/

/-- Joining puts a separator between two parts. -/
theorem length_intercalate (sep : Bytes) {parts : List Bytes} (some : parts ≠ []) :
    (sep.intercalate parts).length + sep.length =
      parts.flatten.length + sep.length * parts.length := by
  induction parts with
  | nil => exact absurd rfl some
  | cons part parts ih =>
    cases parts with
    | nil =>
      rw [List.intercalate_singleton, List.flatten_singleton, List.length_singleton, Nat.mul_one]
    | cons next parts =>
      have rest := ih (List.cons_ne_nil next parts)
      rw [List.intercalate_cons_cons, List.flatten_cons, List.length_append, List.length_append,
        List.length_append, List.length_cons, Nat.mul_succ]
      omega

theorem printLine_capped_iff (text : Bytes) :
    (printLine text).Capped ↔ text.length < maxCommandOutputBytes := by
  have size : (printLine text).size = text.length + 1 := List.length_append
  rw [Report.Capped, size]
  exact Nat.lt_iff_add_one_le.symm

theorem echo_capped_iff :
    (Cmds.echo args).Capped ↔ args.flatten.length + args.length ≤ maxCommandOutputBytes := by
  have one : (str " ").length = 1 := by decide
  rw [Cmds.echo, printLine_capped_iff]
  cases args with
  | nil => decide
  | cons a args =>
    have joined := length_intercalate (str " ") (List.cons_ne_nil a args)
    rw [one] at joined
    omega

/-- The names of a directory, each once, with the space of two before the next. -/
def namesBytes (names : List Bytes) : Nat := names.dedup.flatten.length + 2 * names.dedup.length

theorem listing_capped_iff (names : List Bytes) :
    (Cmds.listing names).Capped ↔ namesBytes names ≤ maxCommandOutputBytes + 1 := by
  have two : (str "  ").length = 2 := by decide
  have same : (sortDedup names).Perm names.dedup := by
    rw [sortDedup_eq_dedup]
    exact (List.perm_insertionSort _ names).dedup
  rw [Cmds.listing, printLine_capped_iff, namesBytes, ← same.flatten.length_eq, ← same.length_eq]
  cases sorted : sortDedup names with
  | nil => decide
  | cons n names =>
    have joined := length_intercalate (str "  ") (List.cons_ne_nil n names)
    rw [two] at joined
    omega

theorem envLines_length (pairs : List EnvPair) :
    (pairs.map fun e => e.key ++ equals :: e.value).flatten.length + pairs.length =
      ((pairs : Multiset EnvPair).map fun e => e.bytes + 2).sum := by
  induction pairs with
  | nil => rfl
  | cons e pairs ih =>
    rw [← Multiset.cons_coe, Multiset.map_cons, Multiset.sum_cons, ← ih, List.map_cons,
      List.flatten_cons, List.length_append, List.length_append, List.length_cons, List.length_cons,
      EnvPair.bytes]
    omega

theorem env_capped_iff (iterate : EnvMap → List EnvPair)
    (all : ∀ m, (iterate m : Multiset EnvPair) = m.entries.map fun e => e.2) :
    (Cmds.env r iterate).Capped ↔
      r.getEnvs.weight (fun e => e.bytes + 2) ≤ maxCommandOutputBytes + 1 := by
  have weight : r.getEnvs.weight (fun e => e.bytes + 2) =
      ((iterate r.getEnvs : Multiset EnvPair).map fun e => e.bytes + 2).sum := by
    rw [all, Multiset.map_map]
    rfl
  rw [weight, ← envLines_length]
  unfold Cmds.env Report.Capped Report.size
  dsimp only
  cases listed : iterate r.getEnvs with
  | nil => exact iff_of_true (Nat.zero_le _) (Nat.zero_le _)
  | cons e pairs =>
    have some : ((e :: pairs).map fun e => e.key ++ equals :: e.value) ≠ [] := List.cons_ne_nil _ _
    have joined := length_intercalate [newline] some
    rw [List.length_map, List.length_singleton] at joined
    rw [if_neg some, Option.getD_some]
    omega

theorem uname_capped_iff :
    (Cmds.uname r).Capped ↔
      r.os.length + r.hostName.length + r.kernel.length + 21 ≤ maxCommandOutputBytes := by
  have one : (str " ").length = 1 := by decide
  have rest : (str " \xc2\xa9 FakeShell 2024").length = 18 := by decide
  rw [Cmds.uname, printLine_capped_iff]
  simp only [List.length_append, one, rest]
  omega

/-! ## `ls` -/

/-- `ls` finds a file there. -/
def LsFile (r : CommandRunner) (d : Bytes) : Prop :=
  r.rootFS.stat d = some .file ∨
    r.rootFS.stat d = none ∧ ∃ de, lookupDynamicPath r d = some de ∧ de.kind = kindFile

/-- `ls` finds a directory there that has these names, with some twice. -/
def LsDir (r : CommandRunner) (d : Bytes) (names : List Bytes) : Prop :=
  r.rootFS.stat d = some .dir ∧ names = r.rootFS.readDirNames d ++ dynamicChildNames r d ∨
    r.rootFS.stat d = none ∧ (∃ de, lookupDynamicPath r d = some de ∧ de.kind = kindDir) ∧
      names = dynamicChildNames r d

/-- What `ls` prints is not too much. -/
def LsModest (r : CommandRunner) (args : List Bytes) : Prop :=
  ∀ d, resolvePath (r.getEnv pwdKey) (Cmds.lsTarget r args) = .ok d →
    (LsFile r d → (base d).length < maxCommandOutputBytes) ∧
      ∀ names, LsDir r d names → namesBytes names ≤ maxCommandOutputBytes + 1

theorem lsModest_iff {d : Bytes}
    (resolves : resolvePath (r.getEnv pwdKey) (Cmds.lsTarget r args) = .ok d) :
    LsModest r args ↔ (LsFile r d → (base d).length < maxCommandOutputBytes) ∧
      ∀ names, LsDir r d names → namesBytes names ≤ maxCommandOutputBytes + 1 :=
  ⟨fun h => h d resolves, fun h _ resolves' => Except.ok.inj (resolves.symm.trans resolves') ▸ h⟩

theorem lsModest_of_file {d : Bytes} (file : LsFile r d) (noDir : ∀ names, ¬LsDir r d names)
    (resolves : resolvePath (r.getEnv pwdKey) (Cmds.lsTarget r args) = .ok d) :
    (printLine (base d)).Capped ↔ LsModest r args := by
  rw [printLine_capped_iff, lsModest_iff resolves]
  exact ⟨fun h => ⟨fun _ => h, fun names dir => absurd dir (noDir names)⟩, fun h => h.1 file⟩

theorem lsModest_of_dir {d : Bytes} {names : List Bytes} (noFile : ¬LsFile r d)
    (dir : ∀ other, LsDir r d other ↔ other = names)
    (resolves : resolvePath (r.getEnv pwdKey) (Cmds.lsTarget r args) = .ok d) :
    (Cmds.listing names).Capped ↔ LsModest r args := by
  rw [listing_capped_iff, lsModest_iff resolves]
  refine ⟨fun h => ⟨fun file => absurd file noFile, fun other isDir => ?_⟩,
    fun h => h.2 names ((dir _).2 rfl)⟩
  rw [(dir other).1 isDir]
  exact h

/-- Where the file system has nothing, the dynamic store decides. -/
theorem lsFile_iff_of_none {d : Bytes} (stat : r.rootFS.stat d = none) :
    LsFile r d ↔ ∃ de, lookupDynamicPath r d = some de ∧ de.kind = kindFile := by
  unfold LsFile
  rw [stat]
  exact ⟨fun h => (h.resolve_left nofun).2, fun h => .inr ⟨rfl, h⟩⟩

theorem lsDir_iff_of_none {d : Bytes} (stat : r.rootFS.stat d = none) (names : List Bytes) :
    LsDir r d names ↔ (∃ de, lookupDynamicPath r d = some de ∧ de.kind = kindDir) ∧
      names = dynamicChildNames r d := by
  unfold LsDir
  rw [stat]
  exact ⟨fun h => (h.resolve_left nofun).2, fun h => .inr ⟨rfl, h⟩⟩

theorem ls_capped_iff : (Cmds.ls r args).Capped ↔ LsModest r args := by
  have kinds : kindFile ≠ kindDir := by decide
  unfold Cmds.ls
  split
  next e refused =>
    exact iff_of_true (complain_capped _ _) fun d resolves => nomatch refused.symm.trans resolves
  next d resolves =>
  split
  next stat =>
    refine lsModest_of_file (.inl stat) ?_ resolves
    rintro names (⟨other, -⟩ | ⟨other, -⟩) <;> exact nomatch stat.symm.trans other
  next stat =>
    refine lsModest_of_dir ?_ (fun other => ⟨?_, fun same => .inl ⟨stat, same⟩⟩) resolves
    · rintro (other | ⟨other, -⟩) <;> exact nomatch stat.symm.trans other
    · rintro (⟨-, same⟩ | ⟨none, -⟩)
      · exact same
      · exact nomatch stat.symm.trans none
  next stat =>
    have silent (noFile : ¬LsFile r d) (noDir : ∀ names, ¬LsDir r d names) :
        (Cmds.lsMissing (Cmds.lsTarget r args)).Capped ↔ LsModest r args :=
      iff_of_true (complain_capped _ _) ((lsModest_iff resolves).2
        ⟨fun file => absurd file noFile, fun names dir => absurd dir (noDir names)⟩)
    split
    next de found =>
      have file : LsFile r d ↔ de.kind = kindFile := by
        rw [lsFile_iff_of_none stat, found]
        exact ⟨fun ⟨_, same, kind⟩ => Option.some.inj same ▸ kind, fun kind => ⟨de, rfl, kind⟩⟩
      have dirs (names : List Bytes) :
          LsDir r d names ↔ de.kind = kindDir ∧ names = dynamicChildNames r d := by
        rw [lsDir_iff_of_none stat, found]
        exact and_congr_left fun _ =>
          ⟨fun ⟨_, same, kind⟩ => Option.some.inj same ▸ kind, fun kind => ⟨de, rfl, kind⟩⟩
      split
      next isFile =>
        refine lsModest_of_file (file.2 isFile) (fun names dir => ?_) resolves
        exact kinds (isFile.symm.trans ((dirs names).1 dir).1)
      next notFile =>
        split
        next isDir =>
          exact lsModest_of_dir (fun h => notFile (file.1 h))
            (fun other => (dirs other).trans (and_iff_right isDir)) resolves
        next notDir =>
          exact silent (fun h => notFile (file.1 h)) fun names h => notDir ((dirs names).1 h).1
    next lost =>
      refine silent ?_ fun names => ?_
      · rw [lsFile_iff_of_none stat, lost]
        exact fun ⟨_, h, _⟩ => nomatch h
      · rw [lsDir_iff_of_none stat, lost]
        exact fun ⟨⟨_, h, _⟩, _⟩ => nomatch h

/-! ## All commands -/

/-- What a command prints past the cap's check is not too much. -/
def Modest (r : CommandRunner) (args : List Bytes) : Builtin → Prop
  | .ls => LsModest r args
  | .pwd => r.currentPWD.length < maxCommandOutputBytes
  | .whoami => (Cmds.envOr r (str "USER") (str "LOGNAME")).length < maxCommandOutputBytes
  | .hostname => (Cmds.envOr r (str "NAME") (str "HOSTNAME")).length < maxCommandOutputBytes
  | .echo => args.flatten.length + args.length ≤ maxCommandOutputBytes
  | .uname => r.os.length + r.hostName.length + r.kernel.length + 21 ≤ maxCommandOutputBytes
  | .env => r.getEnvs.weight (fun e => e.bytes + 2) ≤ maxCommandOutputBytes + 1
  | _ => True

theorem builtin_capped_iff (lib : StdLib) (around : Surroundings) (b : Builtin) :
    (b.run r args lib around).2.Capped ↔ Modest r args b := by
  cases b with
  | ls => exact ls_capped_iff
  | pwd | whoami | hostname => exact printLine_capped_iff _
  | echo => exact echo_capped_iff
  | uname => exact uname_capped_iff
  | env => exact env_capped_iff around.iterate around.iterate_all
  | cd => exact iff_of_true cd_capped trivial
  | touch => exact iff_of_true (touch_capped lib around.ranAt) trivial
  | exit => exact iff_of_true (Nat.zero_le _) trivial
  | which => exact iff_of_true which_capped trivial
  | stat | wc | cat => exact iff_of_true (reportFile_capped _) trivial
  | head | tail => exact iff_of_true (someLines_capped _ _) trivial
  | _ => exact iff_of_true (printUnless_capped _ _ _) trivial

/-- The switch finds each command by its own name. -/
theorem find_builtin (b : Builtin) : (Builtin.all.find? fun b' => b'.name = b.name) = some b := by
  have each : ∀ b ∈ Builtin.all, (Builtin.all.find? fun b' => b'.name = b.name) = some b := by
    decide +kernel
  exact each b (by cases b <;> decide)

/-- The cap. A command keeps its output within it exactly if what it prints past the
check is not too much. -/
theorem output_capped_iff (lib : StdLib) (around : Surroundings) (r : CommandRunner)
    (args : List Bytes)
    (name : Bytes) :
    (runCmd r args lib around name).2.2.size ≤ maxCommandOutputBytes ↔
      ∀ b : Builtin, b.name = name → Modest r args b := by
  unfold runCmd
  cases found : Builtin.all.find? fun b => b.name = name with
  | some b =>
    have own : b.name = name := by simpa using List.find?_some found
    refine (builtin_capped_iff lib around b).trans ⟨?_, fun h => h b own⟩
    rintro modest b' rfl
    cases (find_builtin b').symm.trans found
    exact modest
  | none =>
    refine iff_of_true ?_ ?_
    · dsimp only
      split <;> exact Nat.zero_le _
    · rintro b rfl
      cases (find_builtin b).symm.trans found

theorem length_flatten_le {n : Nat} {parts : List Bytes} (short : ∀ a ∈ parts, a.length ≤ n) :
    parts.flatten.length ≤ n * parts.length := by
  induction parts with
  | nil => exact Nat.zero_le _
  | cons a parts ih =>
    obtain ⟨first, later⟩ := List.forall_mem_cons.1 short
    rw [List.flatten_cons, List.length_append, List.length_cons, Nat.mul_succ, Nat.add_comm]
    exact Nat.add_le_add (ih later) first

/-- Up to 63 arguments `echo` keeps to the cap. -/
theorem echo_modest {cmd : ParsedCommand} (valid : validateParsedCommand cmd = .ok ())
    (few : cmd.args.length < maxInputArgs) : Modest r cmd.args .echo := by
  obtain ⟨-, valid⟩ := check_eq_ok.mp valid
  obtain ⟨-, valid⟩ := check_eq_ok.mp valid
  obtain ⟨short, -⟩ := check_eq_ok.mp valid
  have each : ∀ a ∈ cmd.args, a.length ≤ maxInputTokenBytes := by simpa using short
  have total := length_flatten_le each
  have most : cmd.args.length ≤ 63 := Nat.le_of_lt_succ few
  have limits : maxInputTokenBytes * 63 + 63 ≤ maxCommandOutputBytes := by decide
  have scaled := Nat.mul_le_mul_left maxInputTokenBytes most
  show cmd.args.flatten.length + cmd.args.length ≤ maxCommandOutputBytes
  omega

/-- Sixty-four arguments of the greatest length. -/
def longArgs : List Bytes := List.replicate 64 (List.replicate 1024 0x61)

/-- `echo` of them prints 65600 bytes. -/
theorem echo_exceeds_cap : ({} : CommandRunner).rootFS.Loaded ∧
    validateParsedCommand ⟨str "echo", longArgs, []⟩ = .ok () ∧
    ∀ lib around, ¬(runCmd {} longArgs lib around (str "echo")).2.2.size ≤
      maxCommandOutputBytes := by
  refine ⟨⟨nofun, Nat.zero_le _⟩, ?_, fun lib around => ?_⟩
  · have each : ∀ a ∈ longArgs, a.length ≤ maxInputTokenBytes := by
      intro a ha
      rw [List.eq_of_mem_replicate ha, List.length_replicate]
      exact Nat.le_refl 1024
    have count : longArgs.length ≤ maxInputArgs := by
      rw [longArgs, List.length_replicate]
      exact Nat.le_refl 64
    have name : (str "echo").length ≤ maxInputTokenBytes := by decide
    exact check_eq_ok.mpr ⟨Nat.not_lt.2 name, check_eq_ok.mpr ⟨Nat.not_lt.2 count,
      check_eq_ok.mpr ⟨by simpa using each, rfl⟩⟩⟩
  · have found : (Builtin.all.find? fun b => b.name = str "echo") = some .echo := find_builtin .echo
    have flat : longArgs.flatten.length = 65536 := by
      rw [longArgs, List.flatten_replicate_replicate, List.length_replicate]
    have count : longArgs.length = 64 := List.length_replicate
    have cap : maxCommandOutputBytes = 65536 := rfl
    unfold runCmd
    rw [found]
    intro capped
    have modest := (builtin_capped_iff lib around .echo).1 capped
    have sum : longArgs.flatten.length + longArgs.length ≤ maxCommandOutputBytes := modest
    omega

end FakeSSH.Shell
