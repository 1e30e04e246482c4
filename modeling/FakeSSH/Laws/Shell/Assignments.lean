import FakeSSH.Laws.Shell.Execute
import FakeSSH.Laws.Shell.Glob
import FakeSSH.Laws.Shell.Grammar
import Mathlib.Data.List.TakeWhile

/-!
# Which assignments last

The assignments before a command should last exactly if the command is nothing else.
The parser keeps the text of the command's word as the name, and the executor takes an
empty name for no name. So an empty word in quotes makes the assignments last, and the
words behind it are passed over; a word that expands to nothing has the words behind it
passed over as well, with its assignments taken back.
-/

namespace FakeSSH.Shell

open FakeSSH.Go FakeSSH.Lib

variable {r : CommandRunner} {lastStatus : Int}

/-! ## The name of an expanded command -/

theorem base_ne_nil (p : Bytes) : base p ≠ [] := by
  unfold base
  split
  · exact List.cons_ne_nil _ _
  · dsimp only
    split
    · exact List.cons_ne_nil _ _
    · assumption

theorem childName_ne_nil {d n : Bytes} (h : n ∈ staticChildNames r d ++ dynamicChildNames r d) :
    n ≠ [] := by
  unfold staticChildNames RootFS.readDirNames dynamicChildNames at h
  rcases List.mem_append.mp h with h | h
  · split at h
    · obtain ⟨p, -, rfl⟩ := List.mem_map.mp h
      exact base_ne_nil p
    · cases h
  · obtain ⟨e, -, rfl⟩ := List.mem_map.mp h
    exact base_ne_nil e.path

/-- A word expands to something, and to the empty text only if that is what it says. -/
theorem expandGlobWord_head {w : ExpandedWord} {found : List Bytes}
    (h : expandGlobWord r w = .ok found) :
    found ≠ [] ∧ (found.headD [] = [] ↔ w.text = []) := by
  have own : [w.text] ≠ [] ∧ ([w.text].headD [] = [] ↔ w.text = []) :=
    ⟨List.cons_ne_nil _ _, Iff.rfl⟩
  rcases expandGlobWord_ok h with ⟨-, rfl⟩ | ⟨full, d, -, ⟨-, rfl⟩ | ⟨some, rfl⟩⟩
  · exact own
  · exact own
  · obtain ⟨n, rest, sorted⟩ := List.exists_cons_of_ne_nil some
    have listed : n ∈ n :: rest := List.mem_cons_self
    rw [← sorted, mem_matchingNames] at listed
    rw [sorted, List.map_cons]
    refine ⟨List.cons_ne_nil _ _, iff_of_false ?_ ?_⟩
    · exact List.append_ne_nil_of_right_ne_nil _ (childName_ne_nil listed.1)
    · intro none
      rw [none] at full
      exact full rfl

theorem expandWord_head {word : SyntaxWord} {found : List Bytes}
    (h : expandWord r lastStatus word = .ok found) :
    found ≠ [] ∧ ∃ x, expandWordSegments r lastStatus word = .ok x ∧
      (found.headD [] = [] ↔ x.text = []) := by
  obtain ⟨x, expanded, h⟩ := bind_eq_ok.mp h
  obtain ⟨_, -, h⟩ := bind_eq_ok.mp h
  obtain ⟨found', globbed, h⟩ := bind_eq_ok.mp h
  obtain ⟨_, -, h⟩ := bind_eq_ok.mp h
  cases h
  obtain ⟨some, first⟩ := expandGlobWord_head globbed
  exact ⟨some, x, expanded, first⟩

/-- The name is empty exactly if the name's word expands to the empty text. -/
theorem expandAssigned_name {cmd expanded : SimpleCommand}
    (h : expandAssigned r cmd lastStatus = .ok expanded) :
    ∃ x, expandWordSegments r lastStatus (writtenWord cmd.nameWord cmd.name) = .ok x ∧
      (expanded.name = [] ↔ x.text = []) := by
  obtain ⟨words, expansion, h⟩ := bind_eq_ok.mp h
  obtain ⟨redirects, -, h⟩ := bind_eq_ok.mp h
  obtain ⟨_, -, h⟩ := bind_eq_ok.mp h
  cases h
  obtain ⟨parts, each, rfl⟩ := map_eq_ok.mp expansion
  cases mapM_eq_ok.mp each with
  | @cons _ found _ rest first later =>
    obtain ⟨some, x, expanded, name⟩ := expandWord_head first
    refine ⟨x, expanded, ?_⟩
    obtain ⟨b, more, rfl⟩ := List.exists_cons_of_ne_nil some
    exact name

/-! ## What is heard of a command -/

/-- Nothing is heard of an execution: it writes nothing, logs nothing and does not fail. -/
def Executed.Silent (done : Executed) : Prop :=
  done.writes = [] ∧ done.logged = none ∧ done.error = none

/-- It is heard that a command failed: the session ends with an error, or one line is
written to the standard error. -/
structure Executed.Complains (done : Executed) : Prop where
  status : done.status = 1
  heard : done.error ≠ none ∨ ∃ line, done.writes = [(.stderr, line)]

variable (lib : StdLib) (around : Surroundings) (stdout : Stdout)

/-- None of a command's words and redirections is passed over. Either the command is not
run and it is heard why; or its redirections cannot be made, which is heard, and all the
words are logged; or they are all logged, and the command that they make is run. -/
inductive WordsTaken (r : CommandRunner) (lastStatus : Int) (words : List SyntaxWord)
    (redirects : List Redirect) (done : Executed) : Prop
  | refused (why : done.Complains) (unlogged : done.logged = none)
  | unopened (event : Event) (why : done.Complains) (logged : done.logged = some event)
      (all : expandCommandWords r lastStatus words = .ok (event.command :: event.args))
  | run (event : Event) (envs : List EnvPair) (targets : List Redirect) (after : CommandRunner)
      (opened : Opened) (logged : done.logged = some event)
      (all : expandCommandWords r lastStatus words = .ok (event.command :: event.args))
      (aimed : redirects.mapM (expandRedirect r lastStatus) = .ok targets)
      (made : applyFakeRedirections lib around.reservedAt r targets = (after, .ok opened))
      (ran : done =
        { runOpened lib around after ⟨event.command, event.args, envs⟩ opened stdout with
          runner := done.runner })

/-- Of an expanded command without a name nothing is heard. -/
theorem runExpanded_silent (r : CommandRunner) {expanded : SimpleCommand}
    (unnamed : expanded.name = []) : (runExpanded lib around r expanded stdout).Silent := by
  unfold runExpanded
  rw [if_pos unnamed]
  exact ⟨rfl, rfl, rfl⟩

/-- What an expanded command with a name comes to. -/
theorem runExpanded_taken (after : CommandRunner) {cmd expanded : SimpleCommand}
    (expansion : expandAssigned r cmd lastStatus = .ok expanded) (named : expanded.name ≠ []) :
    WordsTaken lib around stdout r lastStatus (commandWords cmd) cmd.redirects
      { runExpanded lib around r expanded stdout with runner := after } := by
  obtain ⟨words, all, expansion⟩ := bind_eq_ok.mp expansion
  obtain ⟨redirects, aimed, expansion⟩ := bind_eq_ok.mp expansion
  obtain ⟨_, -, expansion⟩ := bind_eq_ok.mp expansion
  cases expansion
  obtain ⟨name, args, rfl⟩ : ∃ name args, words = name :: args :=
    List.exists_cons_of_ne_nil fun none => named (by rw [none]; rfl)
  unfold runExpanded
  rw [if_neg named]
  cases validateParsedCommand _ with
  | error e => exact .refused ⟨rfl, .inl nofun⟩ rfl
  | ok u =>
    rcases made : applyFakeRedirections lib around.reservedAt r redirects with ⟨next, e | opened⟩
    · dsimp only
      split
      · exact .refused ⟨rfl, .inl nofun⟩ rfl
      · exact .unopened _ ⟨rfl, .inr ⟨_, rfl⟩⟩ rfl all
    · exact .run _ _ redirects next opened rfl all aimed made rfl

theorem execute_named_cases (r : CommandRunner) {cmd : SimpleCommand} (named : cmd.name ≠ []) :
    ((executeSimpleCommand lib around r lastStatus cmd stdout).Silent ∧
      ∃ expanded, expandAssigned (applyCommandEnv r cmd.envAssignments).1 cmd lastStatus =
        .ok expanded ∧ expanded.name = []) ∨
      WordsTaken lib around stdout (applyCommandEnv r cmd.envAssignments).1 lastStatus
        (commandWords cmd) cmd.redirects
        (executeSimpleCommand lib around r lastStatus cmd stdout) := by
  unfold executeSimpleCommand
  rcases expandSimpleCommand_named r lastStatus named with
    ⟨e, -, expansion⟩ | ⟨expanded, expands, expansion⟩
  · rw [expansion]
    right
    dsimp only
    split
    · exact .refused ⟨rfl, .inl nofun⟩ rfl
    · exact .refused ⟨rfl, .inr ⟨_, rfl⟩⟩ rfl
  · rw [expansion]
    by_cases vanished : expanded.name = []
    · exact .inl ⟨(runExpanded_silent lib around stdout _ vanished), expanded, expands, vanished⟩
    · exact .inr (runExpanded_taken lib around stdout _ expands vanished)

theorem execute_unnamed_cases (r : CommandRunner) {cmd : SimpleCommand} (unnamed : cmd.name = []) :
    ((executeSimpleCommand lib around r lastStatus cmd stdout).Silent ∧
      ∃ parsed, validateAssignmentOnlyEnv r cmd.envAssignments = .ok parsed) ∨
    ((executeSimpleCommand lib around r lastStatus cmd stdout).Complains ∧
      (executeSimpleCommand lib around r lastStatus cmd stdout).logged = none ∧
      ∃ e, validateAssignmentOnlyEnv r cmd.envAssignments = .error e) := by
  unfold executeSimpleCommand expandSimpleCommand executeAssignmentOnly
  rw [if_pos unnamed]
  cases validateAssignmentOnlyEnv r cmd.envAssignments with
  | error e =>
    right
    dsimp only [Except.map]
    split
    · exact ⟨⟨rfl, .inl nofun⟩, rfl, e, rfl⟩
    · exact ⟨⟨rfl, .inr ⟨_, rfl⟩⟩, rfl, e, rfl⟩
  | ok parsed => exact .inl ⟨runExpanded_silent lib around stdout _ unnamed, parsed, rfl⟩

/-- A group of assignments and redirections alone. -/
def PureAssignments (g : List Token) : Prop := ∀ w ∈ plainWords g, isEnvAssignment w.text = true

theorem pureAssignments_iff {g : List Token} :
    PureAssignments g ↔ namedWords (plainWords g) = [] :=
  List.dropWhile_eq_nil_iff.symm

/-- The words of a group behind its assignments. -/
def remainingWords (g : List Token) : List SyntaxWord :=
  (namedWords (plainWords g)).map fun w => writtenWord w w.text

theorem redirects_commandOf (g : List Token) : (commandOf g).redirects = redirectsOf g := by
  rw [commandOf]
  cases namedWords (plainWords g) <;> rfl

theorem commandWords_commandOf {g : List Token} (impure : ¬ PureAssignments g) :
    commandWords (commandOf g) = remainingWords g := by
  obtain ⟨w, args, named⟩ := List.exists_cons_of_ne_nil fun h => impure (pureAssignments_iff.mpr h)
  rw [commandOf, remainingWords, named, commandWords_ofWords]

/-- The word of a command does not vanish. An empty one does unless its assignments are
refused; another one does if it expands to the empty text and the rest of the command
expands too. -/
structure NameStays (r : CommandRunner) (lastStatus : Int) (cmd : SimpleCommand) : Prop where
  written : cmd.name = [] → ¬ (validateAssignmentOnlyEnv r cmd.envAssignments).isOk
  expanded : cmd.name ≠ [] →
    (expandAssigned (applyCommandEnv r cmd.envAssignments).1 cmd lastStatus).isOk →
      ∀ x, expandWordSegments (applyCommandEnv r cmd.envAssignments).1 lastStatus
        (writtenWord cmd.nameWord cmd.name) = .ok x → x.text ≠ []

theorem isOk_iff {ε α : Type} {x : Except ε α} : x.isOk = true ↔ ∃ a, x = .ok a := by
  cases x with
  | error e => exact ⟨nofun, nofun⟩
  | ok a => exact ⟨fun _ => ⟨a, rfl⟩, fun _ => rfl⟩

theorem NameStays.taken {g : List Token} (impure : ¬ PureAssignments g)
    (stays : NameStays r lastStatus (commandOf g)) :
    WordsTaken lib around stdout (applyCommandEnv r (commandOf g).envAssignments).1 lastStatus
      (remainingWords g) (redirectsOf g)
      (executeSimpleCommand lib around r lastStatus (commandOf g) stdout) := by
  by_cases unnamed : (commandOf g).name = []
  · rcases execute_unnamed_cases lib around stdout r unnamed with
      ⟨-, parsed, accepted⟩ | ⟨why, unlogged, -⟩
    · exact absurd (isOk_iff.mpr ⟨parsed, accepted⟩) (stays.written unnamed)
    · exact .refused why unlogged
  · rcases execute_named_cases lib around stdout r unnamed with
      ⟨-, expanded, expansion, none⟩ | taken
    · obtain ⟨x, expands, name⟩ := expandAssigned_name expansion
      have full := stays.expanded unnamed (isOk_iff.mpr ⟨_, expansion⟩) x expands
      exact absurd (name.mp none) full
    · rw [commandWords_commandOf impure, redirects_commandOf] at taken
      exact taken

/-- A line of one command. -/
def lineOf (g : List Token) : ShellLine := { pipelines := [{ parts := [commandOf g] }] }

end FakeSSH.Shell
