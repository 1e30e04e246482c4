import FakeSSH.Laws.Shell.Fuel
import FakeSSH.Lib.Cut

/-!
# The grammar of a line

Cutting the tokens of a line at `&&`, `||` and `|` leaves groups, one for each simple
command. A group is well formed (`CommandTokens`) when each `>` and `2>` has a target, the
redirections are few and not alone, and the assignments before the name are literal;
`commandOf` is then its command. `parsePipelineFrom_ok_iff` and `parseLineFrom_ok`
follow the loops over the groups.
-/

namespace FakeSSH.Shell

open FakeSSH.Go FakeSSH.Lib

/-! ## Groups -/

def Token.isOperator : Token → Bool
  | .operator _ => true
  | _ => false

def Token.operator? : Token → Option Operator
  | .operator op => some op
  | _ => none

def Token.isRedirect : Token → Bool
  | .redirect _ => true
  | _ => false

/-- The descriptor that a redirection moves. -/
def RedirectOp.fd : RedirectOp → Nat
  | .out => 1
  | .err | .errToOut => 2

/-- The redirection to a target. -/
def RedirectOp.to (op : RedirectOp) (w : SyntaxWord) : Redirect :=
  { fd := op.fd, operator := op.text, target := w.text, targetWord := w }

/-- The redirection `2>&1`. -/
def errToOut : Redirect := { fd := 2, operator := str ">&", duplicate := true, duplicateFD := 1 }

/-- The words of a group that are no targets. -/
def plainWords : List Token → List SyntaxWord
  | .word w :: g => w :: plainWords g
  | .redirect .errToOut :: g => plainWords g
  | .redirect .out :: .word _ :: g => plainWords g
  | .redirect .err :: .word _ :: g => plainWords g
  | _ :: g => plainWords g
  | [] => []

/-- The redirections of a group, with their targets. -/
def redirectsOf : List Token → List Redirect
  | .redirect .errToOut :: g => errToOut :: redirectsOf g
  | .redirect .out :: .word w :: g => RedirectOp.out.to w :: redirectsOf g
  | .redirect .err :: .word w :: g => RedirectOp.err.to w :: redirectsOf g
  | _ :: g => redirectsOf g
  | [] => []

/-- The assignments that a command starts with. -/
def assignmentWords (words : List SyntaxWord) : List SyntaxWord :=
  words.takeWhile (isEnvAssignment ·.text)

/-- The words from the command's name on. -/
def namedWords (words : List SyntaxWord) : List SyntaxWord :=
  words.dropWhile (isEnvAssignment ·.text)

/-- The command of a group. -/
def commandOf (g : List Token) : SimpleCommand :=
  SimpleCommand.ofWords ((assignmentWords (plainWords g)).map (·.text)) (redirectsOf g)
    (namedWords (plainWords g))

/-- Every `>` and `2>` is directly followed by a word with a text. -/
def Aimed (g : List Token) : Prop :=
  ∀ front op back, g = front ++ .redirect op :: back → op ≠ .errToOut →
    ∃ w rest, back = .word w :: rest ∧ w.text ≠ []

/-- An assignment without quotes, and without expansions in its value. -/
structure LiteralAssignment (w : SyntaxWord) : Prop where
  unquoted : ∀ s ∈ w.segments, s.quote = .unquoted
  value : ∀ b ∈ w.text.drop ((w.text.findIdx? (· = equals)).elim 0 (· + 1)), b ∉ str "$*?~"

/-- What the parser asks of a group. -/
structure CommandTokens (g : List Token) : Prop where
  aimed : Aimed g
  few : g.countP Token.isRedirect ≤ maxRedirectionsPerCommand
  literal : ∀ w ∈ assignmentWords (plainWords g), LiteralAssignment w
  grounded : (∃ t ∈ g, t.isRedirect = true) → assignmentWords (plainWords g) ≠ [] ∨
    ∃ w args, namedWords (plainWords g) = w :: args ∧ w.text ≠ []

/-! ## One command -/

theorem aimed_cons {t : Token} {g : List Token} :
    Aimed (t :: g) ↔ (∀ op, t = .redirect op → op ≠ .errToOut →
      ∃ w rest, g = .word w :: rest ∧ w.text ≠ []) ∧ Aimed g := by
  constructor
  · intro h
    refine ⟨fun op ht => h [] op g (by rw [ht]; rfl), fun front op back hg => ?_⟩
    exact h (t :: front) op back (by rw [hg]; rfl)
  · rintro ⟨first, later⟩ front op back hg
    cases front with
    | nil =>
      obtain ⟨rfl, rfl⟩ := List.cons.inj hg
      exact first op rfl
    | cons t' front =>
      obtain ⟨rfl, rfl⟩ := List.cons.inj hg
      exact later front op back rfl

theorem aimed_word {w : SyntaxWord} {g : List Token} : Aimed (.word w :: g) ↔ Aimed g := by
  rw [aimed_cons]
  exact and_iff_right nofun

theorem aimed_nil : Aimed [] := by
  intro front op back h
  exact absurd h.symm (List.append_ne_nil_of_right_ne_nil _ (List.cons_ne_nil _ _))

theorem parseRedirect_target {op : RedirectOp} (known : op ≠ .errToOut) {w : SyntaxWord}
    {rest : List Token} (full : w.text ≠ []) :
    parseRedirect op (.word w :: rest) = .ok (op.to w, rest) := by
  cases op with
  | errToOut => exact absurd rfl known
  | out | err => exact if_neg full

theorem parseRedirect_aimed {op : RedirectOp} (known : op ≠ .errToOut) {tokens rest : List Token}
    {x : Redirect} (h : parseRedirect op tokens = .ok (x, rest)) :
    ∃ w, tokens = .word w :: rest ∧ w.text ≠ [] ∧ x = op.to w := by
  have target (h : parseRedirect.target op op.fd tokens = .ok (x, rest)) :
      ∃ w, tokens = .word w :: rest ∧ w.text ≠ [] ∧ x = op.to w := by
    unfold parseRedirect.target at h
    split at h
    next =>
      obtain ⟨full, h⟩ := check_eq_ok.mp h
      cases h
      exact ⟨_, rfl, full, rfl⟩
    next => cases h
  cases op with
  | errToOut => exact absurd rfl known
  | out | err => exact target h

/-- The words of a group that starts with a redirection to a target. -/
theorem plainWords_target {op : RedirectOp} (known : op ≠ .errToOut) (w : SyntaxWord)
    (g : List Token) : plainWords (.redirect op :: .word w :: g) = plainWords g := by
  cases op with
  | errToOut => exact absurd rfl known
  | out | err => rfl

theorem redirectsOf_target {op : RedirectOp} (known : op ≠ .errToOut) (w : SyntaxWord)
    (g : List Token) :
    redirectsOf (.redirect op :: .word w :: g) = op.to w :: redirectsOf g := by
  cases op with
  | errToOut => exact absurd rfl known
  | out | err => rfl

/-- Tokens that end a command. -/
def Stopped (rest : List Token) : Prop := ∀ t ∈ rest.head?, t.isOperator = true

theorem takeCommand_stopped {rest : List Token} (stop : Stopped rest) (f : Nat)
    (words : List SyntaxWord) (redirects : List Redirect) :
    takeCommand f words redirects rest = .ok (words, redirects, rest) := by
  cases rest with
  | nil => exact takeCommand_nil f words redirects
  | cons t rest =>
    cases t with
    | operator op => exact takeCommand_operator f words redirects op rest
    | word w => exact nomatch stop _ rfl
    | redirect op => exact nomatch stop _ rfl

/-- A word at the front of a group and what stops it is the group's. -/
theorem starts_with_word {g rest tokens : List Token} {w : SyntaxWord} (stop : Stopped rest)
    (h : g ++ rest = .word w :: tokens) : ∃ g', g = .word w :: g' ∧ tokens = g' ++ rest := by
  cases g with
  | nil =>
    rw [List.nil_append] at h
    rw [h] at stop
    exact nomatch stop _ rfl
  | cons t g =>
    obtain ⟨rfl, rfl⟩ := List.cons.inj h
    exact ⟨g, rfl, rfl⟩

/-- The loop at a redirection to a target, which it takes with the redirection. -/
theorem takeCommand_target {op : RedirectOp} (known : op ≠ .errToOut) {f : Nat}
    {words : List SyntaxWord} {redirects : List Redirect}
    (room : ¬ maxRedirectionsPerCommand ≤ redirects.length) {tokens : List Token}
    {out : List SyntaxWord × List Redirect × List Token} :
    takeCommand (f + 1) words redirects (.redirect op :: tokens) = .ok out ↔
      ∃ w rest, tokens = .word w :: rest ∧ w.text ≠ [] ∧
        takeCommand f words (redirects ++ [op.to w]) rest = .ok out := by
  rw [takeCommand, if_neg room]
  constructor
  · intro h
    split at h
    next => cases h
    next x rest parsed =>
      obtain ⟨w, rfl, full, rfl⟩ := parseRedirect_aimed known parsed
      exact ⟨w, rest, rfl, full, h⟩
  · rintro ⟨w, rest, rfl, full, h⟩
    rw [parseRedirect_target known full]
    exact h

/-- The loop over a group. -/
theorem takeCommand_ok_iff {g rest : List Token} (plain : ∀ t ∈ g, t.isOperator = false)
    (stop : Stopped rest) {f : Nat} (fuel : g.length ≤ f) (words : List SyntaxWord)
    {redirects : List Redirect} (few : redirects.length ≤ maxRedirectionsPerCommand)
    {out : List SyntaxWord × List Redirect × List Token} :
    takeCommand f words redirects (g ++ rest) = .ok out ↔
      Aimed g ∧ redirects.length + g.countP Token.isRedirect ≤ maxRedirectionsPerCommand ∧
        out = (words ++ plainWords g, redirects ++ redirectsOf g, rest) := by
  induction f generalizing g words redirects out with
  | zero =>
    rw [List.eq_nil_of_length_eq_zero (Nat.le_zero.mp fuel), List.nil_append,
      takeCommand_stopped stop]
    simp [aimed_nil, few, plainWords, redirectsOf, eq_comm]
  | succ f ih =>
    cases g with
    | nil =>
      rw [List.nil_append, takeCommand_stopped stop]
      simp [aimed_nil, few, plainWords, redirectsOf, eq_comm]
    | cons t g =>
    have shorter : g.length ≤ f := Nat.le_of_succ_le_succ fuel
    obtain ⟨first, others⟩ := List.forall_mem_cons.mp plain
    cases t with
    | operator op => cases first
    | word w =>
      show takeCommand f (words ++ [w]) redirects (g ++ rest) = .ok out ↔ _
      rw [ih others shorter _ few, aimed_word, plainWords, List.append_assoc, List.singleton_append]
      rfl
    | redirect op =>
      rw [List.countP_cons_of_pos (by rfl), List.cons_append]
      by_cases full : maxRedirectionsPerCommand ≤ redirects.length
      · rw [takeCommand, if_pos full]
        constructor
        · intro h
          cases h
        · rintro ⟨-, count, -⟩
          omega
      have room (x : Redirect) : (redirects ++ [x]).length ≤ maxRedirectionsPerCommand := by
        rw [List.length_append, List.length_singleton]
        omega
      by_cases known : op = .errToOut
      · subst known
        rw [takeCommand, if_neg full]
        show takeCommand f words (redirects ++ [errToOut]) (g ++ rest) = .ok out ↔ _
        rw [ih others shorter _ (room _), aimed_cons, List.length_append, List.length_singleton,
          plainWords, redirectsOf, List.append_assoc, List.singleton_append, Nat.add_assoc,
          Nat.add_comm 1]
        refine and_congr_left fun _ => (and_iff_right fun op h other => ?_).symm
        cases h
        exact absurd rfl other
      · rw [takeCommand_target known full]
        constructor
        · rintro ⟨w, tokens, hg, hw, h⟩
          obtain ⟨g, rfl, rfl⟩ := starts_with_word stop hg
          rw [ih (List.forall_mem_cons.mp others).2 (Nat.le_of_succ_le shorter) _ (room _)] at h
          obtain ⟨aimed, count, rfl⟩ := h
          rw [List.length_append, List.length_singleton] at count
          refine ⟨aimed_cons.mpr ⟨fun _ _ _ => ⟨w, g, rfl, hw⟩, aimed_word.mpr aimed⟩, ?_, ?_⟩
          · rw [List.countP_cons_of_neg Bool.false_ne_true]
            omega
          · rw [plainWords_target known, redirectsOf_target known, List.append_assoc,
              List.singleton_append]
        · rintro ⟨aimed, count, rfl⟩
          obtain ⟨first, later⟩ := aimed_cons.mp aimed
          obtain ⟨w, g, rfl, hw⟩ := first op rfl known
          rw [List.countP_cons_of_neg Bool.false_ne_true] at count
          rw [plainWords_target known, redirectsOf_target known]
          refine ⟨w, g ++ rest, rfl, hw, (ih (List.forall_mem_cons.mp others).2
            (Nat.le_of_succ_le shorter) _ (room _)).mpr ⟨aimed_word.mp later, ?_, ?_⟩⟩
          · rw [List.length_append, List.length_singleton]
            omega
          · rw [List.append_assoc, List.singleton_append]

theorem validateLiteralEnvAssignment_ok_iff {w : SyntaxWord} (h : isEnvAssignment w.text = true) :
    validateLiteralEnvAssignment w = .ok () ↔ LiteralAssignment w := by
  unfold validateLiteralEnvAssignment
  rw [h, Bool.not_true, if_neg Bool.false_ne_true, check_eq_ok, check_eq_ok, and_iff_left rfl]
  constructor
  · rintro ⟨unquoted, value⟩
    simp only [List.any_eq_true, decide_eq_true_eq, not_exists, not_and, not_not] at unquoted
    refine ⟨unquoted, fun b hb hmem => value ?_⟩
    exact List.any_eq_true.mpr ⟨b, hb, List.contains_iff_mem.mpr hmem⟩
  · rintro ⟨unquoted, value⟩
    constructor
    · simpa only [List.any_eq_true, decide_eq_true_eq, not_exists, not_and, not_not] using unquoted
    · intro hany
      obtain ⟨b, hb, hmem⟩ := List.any_eq_true.mp hany
      exact value b hb (List.contains_iff_mem.mp hmem)

theorem assignmentWords_cons {w : SyntaxWord} (h : isEnvAssignment w.text = true)
    (words : List SyntaxWord) : assignmentWords (w :: words) = w :: assignmentWords words :=
  List.takeWhile_cons_of_pos (p := fun w : SyntaxWord => isEnvAssignment w.text) h

theorem namedWords_cons {w : SyntaxWord} (h : isEnvAssignment w.text = true)
    (words : List SyntaxWord) : namedWords (w :: words) = namedWords words :=
  List.dropWhile_cons_of_pos (p := fun w : SyntaxWord => isEnvAssignment w.text) h

theorem takeAssignments_ok_iff {words : List SyntaxWord} {out : List Bytes × List SyntaxWord} :
    takeAssignments words = .ok out ↔ (∀ w ∈ assignmentWords words, LiteralAssignment w) ∧
      out = ((assignmentWords words).map (·.text), namedWords words) := by
  induction words generalizing out with
  | nil => simp [takeAssignments, assignmentWords, namedWords, eq_comm]
  | cons w words ih =>
    cases h : isEnvAssignment w.text with
    | false => simp [takeAssignments, assignmentWords, namedWords, h, eq_comm]
    | true =>
      rw [assignmentWords_cons h, namedWords_cons h, takeAssignments, if_pos h,
        List.forall_mem_cons, ← validateLiteralEnvAssignment_ok_iff h]
      cases validateLiteralEnvAssignment w with
      | error e => exact ⟨nofun, fun h => nomatch h.1.1⟩
      | ok _ =>
        rw [and_iff_right rfl]
        constructor
        · intro h
          obtain ⟨taken, htaken, rfl⟩ := map_eq_ok.mp h
          obtain ⟨literal, rfl⟩ := ih.mp htaken
          exact ⟨literal, rfl⟩
        · rintro ⟨literal, rfl⟩
          exact map_eq_ok.mpr ⟨_, ih.mpr ⟨literal, rfl⟩, rfl⟩

/-- With a target at each, the redirections are as many as their tokens. -/
theorem length_redirectsOf {g : List Token} (aimed : Aimed g) :
    (redirectsOf g).length = g.countP Token.isRedirect := by
  fun_induction redirectsOf g with
  | case1 g ih =>
    rw [List.countP_cons_of_pos (by rfl), List.length_cons, ih (aimed_cons.mp aimed).2]
  | case2 w g ih | case3 w g ih =>
    rw [List.countP_cons_of_pos (by rfl), List.countP_cons_of_neg (by nofun), List.length_cons,
      ih (aimed_word.mp (aimed_cons.mp aimed).2)]
  | case4 t g notDup notOut notErr ih =>
    obtain ⟨first, later⟩ := aimed_cons.mp aimed
    rw [ih later]
    cases t with
    | word w | operator op => rw [List.countP_cons_of_neg (by nofun)]
    | redirect op =>
      have known : op ≠ .errToOut := fun h => notDup (h ▸ rfl)
      obtain ⟨w, rest, rfl, -⟩ := first op rfl known
      cases op with
      | errToOut => exact absurd rfl known
      | out => exact absurd rfl (notOut w rest rfl)
      | err => exact absurd rfl (notErr w rest rfl)
  | case5 => rfl

theorem ofWords_redirects (envs : List Bytes) (redirects : List Redirect)
    (words : List SyntaxWord) :
    (SimpleCommand.ofWords envs redirects words).redirects = redirects := by
  cases words <;> rfl

theorem ofWords_envAssignments (envs : List Bytes) (redirects : List Redirect)
    (words : List SyntaxWord) :
    (SimpleCommand.ofWords envs redirects words).envAssignments = envs := by
  cases words <;> rfl

theorem ofWords_name {envs : List Bytes} {redirects : List Redirect} {words : List SyntaxWord} :
    (SimpleCommand.ofWords envs redirects words).name ≠ [] ↔
      ∃ w args, words = w :: args ∧ w.text ≠ [] := by
  cases words with
  | nil => exact ⟨fun h => absurd rfl h, nofun⟩
  | cons w args =>
    refine ⟨fun h => ⟨w, args, rfl, h⟩, ?_⟩
    rintro ⟨_, _, heq, hw⟩
    cases heq
    exact hw

/-- The last check of `parseSimpleCommandTokens`, on a group. -/
theorem grounded_iff {g : List Token} (aimed : Aimed g) :
    ¬ ((commandOf g).name = [] ∧ (commandOf g).envAssignments = [] ∧
        (commandOf g).redirects ≠ []) ↔
      ((∃ t ∈ g, t.isRedirect = true) → assignmentWords (plainWords g) ≠ [] ∨
        ∃ w args, namedWords (plainWords g) = w :: args ∧ w.text ≠ []) := by
  have redirects : (∃ t ∈ g, t.isRedirect = true) ↔ redirectsOf g ≠ [] := by
    rw [← List.countP_pos_iff, ← length_redirectsOf aimed, List.length_pos_iff]
  rw [redirects, commandOf, ofWords_redirects, ofWords_envAssignments, List.map_eq_nil_iff,
    ← ofWords_name]
  tauto

/-- ONE COMMAND. The tokens of a group are parsed exactly when they are well formed, to the
group's command, and what stops the group is left. -/
theorem parseSimpleCommandTokens_ok_iff {g rest : List Token}
    (plain : ∀ t ∈ g, t.isOperator = false) (stop : Stopped rest)
    {out : SimpleCommand × List Token} :
    parseSimpleCommandTokens (g ++ rest) = .ok out ↔
      CommandTokens g ∧ out = (commandOf g, rest) := by
  have fuel : g.length ≤ (g ++ rest).length := by
    rw [List.length_append]
    exact Nat.le_add_right _ _
  have taken {out : List SyntaxWord × List Redirect × List Token} :
      takeCommand (g ++ rest).length [] [] (g ++ rest) = .ok out ↔
        Aimed g ∧ g.countP Token.isRedirect ≤ maxRedirectionsPerCommand ∧
          out = (plainWords g, redirectsOf g, rest) := by
    rw [takeCommand_ok_iff plain stop fuel [] (Nat.zero_le _), List.length_nil, Nat.zero_add,
      List.nil_append, List.nil_append]
  unfold parseSimpleCommandTokens
  constructor
  · intro h
    split at h
    next => cases h
    next words redirects rest' hg =>
    obtain ⟨aimed, few, hout⟩ := taken.mp hg
    cases hout
    split at h
    next => cases h
    next envs words hwords =>
    obtain ⟨literal, hout⟩ := takeAssignments_ok_iff.mp hwords
    cases hout
    obtain ⟨grounded, h⟩ := check_eq_ok.mp h
    cases h
    exact ⟨⟨aimed, few, literal, (grounded_iff aimed).mp grounded⟩, rfl⟩
  · rintro ⟨ok, rfl⟩
    rw [taken.mpr ⟨ok.aimed, ok.few, rfl⟩]
    dsimp only
    rw [takeAssignments_ok_iff.mpr ⟨ok.literal, rfl⟩]
    exact check_eq_ok.mpr ⟨(grounded_iff ok.aimed).mpr ok.grounded, rfl⟩

/-! ## Pipelines and lines -/

/-- The operators with the groups behind them, as tokens. -/
abbrev operatorTokens (tail : List (Operator × List Token)) : List Token :=
  spell Token.operator tail

theorem operatorTokens_cons (x : Operator × List Token) (tail : List (Operator × List Token)) :
    operatorTokens (x :: tail) = .operator x.1 :: (x.2 ++ operatorTokens tail) := rfl

/-- Tokens are groups and the operators between them. -/
theorem exists_groups (tokens : List Token) :
    ∃ g tail, Cut Token.isOperator g tail ∧ tokens = g ++ operatorTokens tail ∧
      tokens.splitOnP Token.isOperator = g :: tail.map (·.2) ∧
      tokens.filterMap Token.operator? = tail.map (·.1) := by
  have separator (t : Token) (h : t.isOperator = true) : ∃ op, t = .operator op := by
    cases t with
    | operator op => exact ⟨op, rfl⟩
    | word w | redirect op => cases h
  have plain (t : Token) (h : t.isOperator = false) : t.operator? = none := by
    cases t with
    | operator op => cases h
    | word w | redirect op => rfl
  have read (op : Operator) : (Token.operator op).operator? = some op := rfl
  obtain ⟨g, tail, rfl, cut⟩ := exists_cut separator tokens
  exact ⟨g, tail, cut, rfl, splitOnP_spell (fun _ => rfl) cut, filterMap_spell read plain cut⟩

theorem stopped_operatorTokens (tail : List (Operator × List Token)) :
    Stopped (operatorTokens tail) := by
  cases tail with
  | nil => exact nofun
  | cons x tail =>
    intro t ht
    cases ht
    rfl

theorem atCommand_iff {g : List Token} {tail : List (Operator × List Token)}
    (plain : ∀ t ∈ g, t.isOperator = false) :
    atCommand (g ++ operatorTokens tail) = true ↔ g ≠ [] := by
  cases g with
  | nil =>
    refine iff_of_false ?_ (not_not.mpr rfl)
    cases tail <;> nofun
  | cons t g =>
    refine iff_of_true ?_ (List.cons_ne_nil _ _)
    cases t with
    | operator op => exact nomatch plain _ List.mem_cons_self
    | word w | redirect op => rfl

/-- A group that a pipeline takes. -/
def Acceptable (g : List Token) : Prop := g ≠ [] ∧ CommandTokens g

/-- The groups behind `|` up to the next `&&` or `||`, and what is left from there. -/
structure PipedBy (tail : List (Operator × List Token)) (piped : List (List Token))
    (after : List (Operator × List Token)) : Prop where
  spelled : tail = piped.map (Prod.mk .pipe) ++ after
  stop : ∀ x ∈ after.head?, x.1 ≠ .pipe

theorem pipedBy_stop_iff {tail after : List (Operator × List Token)} {piped : List (List Token)}
    (stop : ∀ x ∈ tail.head?, x.1 ≠ .pipe) :
    PipedBy tail piped after ↔ piped = [] ∧ after = tail := by
  constructor
  · rintro ⟨spelled, -⟩
    cases piped with
    | nil => exact ⟨rfl, spelled.symm⟩
    | cons g piped => exact absurd rfl (stop (.pipe, g) (spelled ▸ rfl))
  · rintro ⟨rfl, rfl⟩
    exact ⟨rfl, stop⟩

theorem pipedBy_pipe_iff {g : List Token} {tail after : List (Operator × List Token)}
    {piped : List (List Token)} :
    PipedBy ((.pipe, g) :: tail) piped after ↔
      ∃ later, piped = g :: later ∧ PipedBy tail later after := by
  constructor
  · rintro ⟨spelled, stop⟩
    cases piped with
    | nil =>
      cases spelled
      exact absurd rfl (stop _ rfl)
    | cons h later =>
      obtain ⟨first, rfl⟩ := List.cons.inj spelled
      cases first
      exact ⟨later, rfl, rfl, stop⟩
  · rintro ⟨later, rfl, rfl, stop⟩
    exact ⟨rfl, stop⟩

theorem PipedBy.groups {tail after : List (Operator × List Token)} {piped : List (List Token)}
    (h : PipedBy tail piped after) : tail.map (·.2) = piped ++ after.map (·.2) := by
  rw [h.spelled, List.map_append, List.map_map]
  exact congrArg (· ++ _) (List.map_id piped)

theorem PipedBy.operators {tail after : List (Operator × List Token)} {piped : List (List Token)}
    (h : PipedBy tail piped after) :
    tail.map (·.1) = (piped.map fun _ => Operator.pipe) ++ after.map (·.1) := by
  rw [h.spelled, List.map_append, List.map_map]
  rfl

theorem PipedBy.cut {p : Token → Bool} {g : List Token} {tail after : List (Operator × List Token)}
    {piped : List (List Token)} (h : PipedBy tail piped after) (cut : Cut p g tail) :
    Cut p g after :=
  Cut.append (h.spelled ▸ cut)

theorem PipedBy.length {tail after : List (Operator × List Token)} {piped : List (List Token)}
    (h : PipedBy tail piped after) : after.length ≤ tail.length := by
  rw [h.spelled, List.length_append]
  exact Nat.le_add_left _ _

/-- How a pipeline goes on behind a command. -/
def pipelineBehind (f : Nat) (p : Pipeline) :
    List (Operator × List Token) → Except SyntaxError (Pipeline × List Token)
  | (.pipe, g) :: tail =>
    parsePipelineFrom f { p with operators := p.operators ++ [.pipe] } (g ++ operatorTokens tail)
  | tail => .ok (p, operatorTokens tail)

theorem pipelineBehind_stop {tail : List (Operator × List Token)}
    (stop : ∀ x ∈ tail.head?, x.1 ≠ .pipe) {f : Nat} {p : Pipeline} :
    pipelineBehind f p tail = .ok (p, operatorTokens tail) := by
  cases tail with
  | nil => rfl
  | cons x tail =>
    obtain ⟨op, g⟩ := x
    cases op with
    | pipe => exact absurd rfl (stop _ rfl)
    | and | or => rfl

/-- One turn of the loop over a pipeline. -/
theorem parsePipelineFrom_step {g : List Token} {tail : List (Operator × List Token)}
    (plain : ∀ t ∈ g, t.isOperator = false) {f : Nat} {p : Pipeline}
    {out : Pipeline × List Token} :
    parsePipelineFrom (f + 1) p (g ++ operatorTokens tail) = .ok out ↔
      Acceptable g ∧
        pipelineBehind f { p with parts := p.parts ++ [commandOf g] } tail = .ok out := by
  unfold parsePipelineFrom Acceptable
  have parsed {out : SimpleCommand × List Token} :
      parseSimpleCommandTokens (g ++ operatorTokens tail) = .ok out ↔
        CommandTokens g ∧ out = (commandOf g, operatorTokens tail) :=
    parseSimpleCommandTokens_ok_iff plain (stopped_operatorTokens tail)
  by_cases empty : g = []
  · have missing : atCommand (g ++ operatorTokens tail) = false :=
      Bool.eq_false_iff.mpr fun h => (atCommand_iff plain).mp h empty
    rw [missing, Bool.not_false, if_pos rfl]
    constructor
    · intro h
      cases h
    · exact fun h => absurd empty h.1.1
  rw [(atCommand_iff plain).mpr empty, Bool.not_true, if_neg Bool.false_ne_true,
    and_iff_right empty]
  by_cases ok : CommandTokens g
  · rw [parsed.mpr ⟨ok, rfl⟩, and_iff_right ok]
    cases tail with
    | nil => exact Iff.rfl
    | cons x tail =>
      obtain ⟨op, h⟩ := x
      cases op <;> exact Iff.rfl
  · obtain ⟨e, he⟩ := eq_error_of_not_ok fun out h => ok (parsed.mp h).1
    rw [he]
    constructor
    · intro h
      cases h
    · exact fun h => absurd h.1 ok

/-- Where no `|` comes next, the pipeline ends. -/
theorem pipelineBehind_ends {g : List Token} {tail : List (Operator × List Token)}
    (stop : ∀ x ∈ tail.head?, x.1 ≠ .pipe) {f : Nat} {p : Pipeline} {out : Pipeline × List Token} :
    Acceptable g ∧ pipelineBehind f { p with parts := p.parts ++ [commandOf g] } tail = .ok out ↔
      ∃ piped after, PipedBy tail piped after ∧ (∀ h ∈ g :: piped, Acceptable h) ∧
        out = (⟨p.parts ++ (g :: piped).map commandOf,
          p.operators ++ piped.map fun _ => .pipe⟩, operatorTokens after) := by
  have alone : p.operators ++ ([] : List (List Token)).map (fun _ => Operator.pipe) =
    p.operators := List.append_nil _
  rw [pipelineBehind_stop stop]
  constructor
  · rintro ⟨ok, h⟩
    cases h
    refine ⟨[], tail, (pipedBy_stop_iff stop).mpr ⟨rfl, rfl⟩, List.forall_mem_singleton.mpr ok, ?_⟩
    rw [alone]
    rfl
  · rintro ⟨piped, after, hpiped, ok, rfl⟩
    obtain ⟨rfl, rfl⟩ := (pipedBy_stop_iff stop).mp hpiped
    rw [alone]
    exact ⟨List.forall_mem_singleton.mp ok, rfl⟩

/-- The loop over a pipeline: it takes the groups up to the next `&&` or `||`. -/
theorem parsePipelineFrom_ok_iff {g : List Token} {tail : List (Operator × List Token)}
    (cut : Cut Token.isOperator g tail) {f : Nat} (fuel : tail.length < f) {p : Pipeline}
    {out : Pipeline × List Token} :
    parsePipelineFrom f p (g ++ operatorTokens tail) = .ok out ↔
      ∃ piped after, PipedBy tail piped after ∧ (∀ h ∈ g :: piped, Acceptable h) ∧
        out = (⟨p.parts ++ (g :: piped).map commandOf,
          p.operators ++ piped.map fun _ => .pipe⟩, operatorTokens after) := by
  obtain ⟨f, rfl⟩ := Nat.exists_eq_add_one_of_ne_zero (Nat.ne_zero_of_lt fuel)
  rw [parsePipelineFrom_step cut.front]
  induction tail generalizing f g p with
  | nil =>
    apply pipelineBehind_ends
    exact nofun
  | cons x tail ih =>
    obtain ⟨op, h⟩ := x
    by_cases hop : op = .pipe
    · subst hop
      obtain ⟨f, rfl⟩ := Nat.exists_eq_add_one_of_ne_zero
        (Nat.ne_zero_of_lt (Nat.lt_of_succ_lt_succ fuel))
      show _ ∧ parsePipelineFrom (f + 1) _ (h ++ operatorTokens tail) = _ ↔ _
      rw [parsePipelineFrom_step cut.cons.front, ih cut.cons f (Nat.lt_of_succ_lt_succ fuel)]
      constructor
      · rintro ⟨ok, piped, after, hpiped, oks, rfl⟩
        refine ⟨h :: piped, after, pipedBy_pipe_iff.mpr ⟨piped, rfl, hpiped⟩,
          List.forall_mem_cons.mpr ⟨ok, oks⟩, ?_⟩
        simp only [List.map_cons, List.append_assoc, List.singleton_append]
      · rintro ⟨_, after, all, oks, rfl⟩
        obtain ⟨piped, rfl, hpiped⟩ := pipedBy_pipe_iff.mp all
        obtain ⟨ok, oks⟩ := List.forall_mem_cons.mp oks
        refine ⟨ok, piped, after, hpiped, oks, ?_⟩
        simp only [List.map_cons, List.append_assoc, List.singleton_append]
    · apply pipelineBehind_ends
      intro x hx
      cases hx
      exact hop

theorem exists_pipedBy (tail : List (Operator × List Token)) :
    ∃ piped after, PipedBy tail piped after := by
  induction tail with
  | nil => exact ⟨[], [], rfl, nofun⟩
  | cons x tail ih =>
    obtain ⟨op, g⟩ := x
    by_cases hop : op = .pipe
    · obtain ⟨piped, after, h⟩ := ih
      exact ⟨g :: piped, after, hop ▸ pipedBy_pipe_iff.mpr ⟨piped, rfl, h⟩⟩
    · refine ⟨[], (op, g) :: tail, rfl, ?_⟩
      intro x hx
      cases hx
      exact hop

/-- The pipeline of groups. -/
def pipelineOf (g : List Token) (piped : List (List Token)) : Pipeline :=
  ⟨(g :: piped).map commandOf, piped.map fun _ => .pipe⟩

/-- How a line goes on behind a pipeline. -/
def lineBehind (f : Nat) (line : ShellLine) :
    List (Operator × List Token) → Except SyntaxError ShellLine
  | [] => .ok line
  | (op, g) :: tail =>
    if g ++ operatorTokens tail = [] then .error .missingCommandAfterLogicalOperator
    else parseLineFrom f { line with operators := line.operators ++ [op] }
      (g ++ operatorTokens tail)

theorem length_operatorTokens (tail : List (Operator × List Token)) :
    tail.length ≤ (operatorTokens tail).length := by
  induction tail with
  | nil => exact le_rfl
  | cons x tail ih =>
    rw [operatorTokens_cons, List.length_cons, List.length_cons, List.length_append]
    omega

/-- One turn of the loop over a line. -/
theorem parseLineFrom_step {g : List Token} {tail : List (Operator × List Token)}
    (cut : Cut Token.isOperator g tail) {f : Nat} {line line' : ShellLine} :
    parseLineFrom (f + 1) line (g ++ operatorTokens tail) = .ok line' ↔
      ∃ piped after, PipedBy tail piped after ∧ (∀ h ∈ g :: piped, Acceptable h) ∧
        lineBehind f { line with pipelines := line.pipelines ++ [pipelineOf g piped] } after =
          .ok line' := by
  have fuel : tail.length < (g ++ operatorTokens tail).length + 1 := by
    have := length_operatorTokens tail
    rw [List.length_append]
    omega
  have parsed {out : Pipeline × List Token} :
      parsePipelineFrom ((g ++ operatorTokens tail).length + 1) {} (g ++ operatorTokens tail) =
          .ok out ↔
        ∃ piped after, PipedBy tail piped after ∧ (∀ h ∈ g :: piped, Acceptable h) ∧
          out = (pipelineOf g piped, operatorTokens after) :=
    parsePipelineFrom_ok_iff cut fuel
  unfold parseLineFrom parsePipelineTokens
  constructor
  · intro h
    split at h
    next => cases h
    next p rest hp =>
    obtain ⟨piped, after, hpiped, oks, hout⟩ := parsed.mp hp
    cases hout
    refine ⟨piped, after, hpiped, oks, ?_⟩
    cases after with
    | nil => exact h
    | cons x after =>
      rw [operatorTokens_cons] at h
      exact (check_eq_ok.mp h).2
  · rintro ⟨piped, after, hpiped, oks, h⟩
    rw [parsed.mpr ⟨piped, after, hpiped, oks, rfl⟩]
    cases after with
    | nil => exact h
    | cons x after =>
      rw [operatorTokens_cons]
      exact check_eq_ok.mpr ⟨hpiped.stop x rfl, h⟩

/-- The operators of a line and of its pipelines, from left to right. -/
def operatorsInOrder : List Pipeline → List Operator → List Operator
  | [], ops => ops
  | p :: ps, [] => p.operators ++ operatorsInOrder ps []
  | p :: ps, op :: ops => p.operators ++ op :: operatorsInOrder ps ops

/-- How pipelines and the operators between them stand for groups and operators. -/
structure LineOf (pipelines : List Pipeline) (ops : List Operator) (groups : List (List Token))
    (operators : List Operator) : Prop where
  commands : pipelines.flatMap (·.parts) = groups.map commandOf
  inOrder : operatorsInOrder pipelines ops = operators
  between : ops.length + 1 = pipelines.length
  within : ∀ p ∈ pipelines, p.operators.length + 1 = p.parts.length
  logical : ∀ op ∈ ops, op ≠ .pipe
  pipes : ∀ p ∈ pipelines, ∀ op ∈ p.operators, op = .pipe

theorem LineOf.single (g : List Token) (piped : List (List Token)) :
    LineOf [pipelineOf g piped] [] (g :: piped) (piped.map fun _ => .pipe) := by
  refine ⟨?_, ?_, rfl, List.forall_mem_singleton.mpr ?_, nofun, List.forall_mem_singleton.mpr ?_⟩
  · rw [List.flatMap_singleton]
    rfl
  · exact List.append_nil _
  · rw [pipelineOf, List.length_map, List.length_map, List.length_cons]
  · exact List.forall_mem_map.mpr fun _ _ => rfl

theorem LineOf.cons {pipelines : List Pipeline} {ops operators : List Operator}
    {groups : List (List Token)} (g : List Token) (piped : List (List Token)) {op : Operator}
    (hop : op ≠ .pipe) (h : LineOf pipelines ops groups operators) :
    LineOf (pipelineOf g piped :: pipelines) (op :: ops) (g :: piped ++ groups)
      ((piped.map fun _ => .pipe) ++ op :: operators) := by
  have first := LineOf.single g piped
  refine ⟨?_, ?_, ?_, ?_, ?_, ?_⟩
  · rw [List.flatMap_cons, h.commands, List.map_append]
    rfl
  · rw [operatorsInOrder, h.inOrder]
    rfl
  · rw [List.length_cons, List.length_cons, h.between]
  · exact List.forall_mem_cons.mpr ⟨first.within _ (List.mem_singleton_self _), h.within⟩
  · exact List.forall_mem_cons.mpr ⟨hop, h.logical⟩
  · exact List.forall_mem_cons.mpr ⟨first.pipes _ (List.mem_singleton_self _), h.pipes⟩

/-- The loop over a line. -/
theorem parseLineFrom_ok {g : List Token} {tail : List (Operator × List Token)}
    (cut : Cut Token.isOperator g tail) {f : Nat} (fuel : tail.length < f) {line line' : ShellLine}
    (h : parseLineFrom f line (g ++ operatorTokens tail) = .ok line') :
    (∀ h ∈ g :: tail.map (·.2), Acceptable h) ∧ ∃ pipelines ops,
      line' = ⟨line.pipelines ++ pipelines, line.operators ++ ops⟩ ∧
        LineOf pipelines ops (g :: tail.map (·.2)) (tail.map (·.1)) := by
  induction f generalizing g tail line with
  | zero => exact absurd fuel (Nat.not_lt_zero _)
  | succ f ih =>
    obtain ⟨piped, after, hpiped, oks, h⟩ := (parseLineFrom_step cut).mp h
    rw [hpiped.groups, hpiped.operators]
    cases after with
    | nil =>
      cases h
      rw [List.map_nil, List.append_nil, List.map_nil, List.append_nil]
      refine ⟨oks, [pipelineOf g piped], [], ?_, LineOf.single g piped⟩
      rw [List.append_nil]
    | cons x after =>
      have shorter : after.length < f := by
        have := hpiped.length
        rw [List.length_cons] at this
        omega
      obtain ⟨-, h⟩ := check_eq_ok.mp h
      obtain ⟨later, pipelines, ops, rfl, lineOf⟩ := ih (hpiped.cut cut).cons shorter h
      refine ⟨List.forall_mem_append.mpr ⟨oks, later⟩, pipelineOf g piped :: pipelines,
        x.1 :: ops, ?_, lineOf.cons g piped (hpiped.stop x rfl)⟩
      rw [List.append_assoc, List.append_assoc]
      rfl

/-- A line of acceptable groups is parsed. -/
theorem parseLineFrom_total {g : List Token} {tail : List (Operator × List Token)}
    (cut : Cut Token.isOperator g tail) {f : Nat} (fuel : tail.length < f) (line : ShellLine)
    (ok : ∀ h ∈ g :: tail.map (·.2), Acceptable h) :
    ∃ line', parseLineFrom f line (g ++ operatorTokens tail) = .ok line' := by
  induction f generalizing g tail line with
  | zero => exact absurd fuel (Nat.not_lt_zero _)
  | succ f ih =>
    obtain ⟨piped, after, hpiped⟩ := exists_pipedBy tail
    rw [hpiped.groups] at ok
    obtain ⟨oks, later⟩ := List.forall_mem_append.mp (show ∀ h ∈ (g :: piped) ++ _, _ from ok)
    suffices h : ∃ line', lineBehind f
        { line with pipelines := line.pipelines ++ [pipelineOf g piped] } after = .ok line' by
      obtain ⟨line', h⟩ := h
      exact ⟨line', (parseLineFrom_step cut).mpr ⟨piped, after, hpiped, oks, h⟩⟩
    cases after with
    | nil => exact ⟨_, rfl⟩
    | cons x after =>
      have shorter : after.length < f := by
        have := hpiped.length
        rw [List.length_cons] at this
        omega
      obtain ⟨line', h⟩ := ih (hpiped.cut cut).cons shorter _ later
      have full : x.2 ≠ [] := (later x.2 List.mem_cons_self).1
      exact ⟨line', check_eq_ok.mpr ⟨List.append_ne_nil_of_left_ne_nil full _, h⟩⟩

/-- A command holds all of its group: the words that are no targets, first the assignments,
then the name and the arguments, and the redirections. -/
structure Holds (c : SimpleCommand) (g : List Token) : Prop where
  words : plainWords g = assignmentWords (plainWords g) ++ namedWords (plainWords g)
  assignments : c.envAssignments = (assignmentWords (plainWords g)).map (·.text)
  unnamed : namedWords (plainWords g) = [] →
    c.name = [] ∧ c.nameWord = {} ∧ c.args = [] ∧ c.argWords = []
  named : ∀ w args, namedWords (plainWords g) = w :: args →
    c.name = w.text ∧ c.nameWord = w ∧ c.args = args.map (·.text) ∧ c.argWords = args
  redirects : c.redirects = redirectsOf g
  targets : c.redirects.length = g.countP Token.isRedirect

theorem commandOf_holds {g : List Token} (aimed : Aimed g) : Holds (commandOf g) g := by
  refine ⟨List.takeWhile_append_dropWhile.symm, ofWords_envAssignments _ _ _, ?_, ?_,
    ofWords_redirects _ _ _, ?_⟩
  · intro h
    rw [commandOf, h]
    exact ⟨rfl, rfl, rfl, rfl⟩
  · intro w args h
    rw [commandOf, h]
    exact ⟨rfl, rfl, rfl, rfl⟩
  · rw [commandOf, ofWords_redirects, length_redirectsOf aimed]

/-- What is parsed of some tokens. -/
theorem parseTokens_ok {tokens : List Token} (some : tokens ≠ []) {line : ShellLine}
    (h : parseTokens tokens = .ok line) :
    (∀ g ∈ tokens.splitOnP Token.isOperator, Acceptable g) ∧
      LineOf line.pipelines line.operators (tokens.splitOnP Token.isOperator)
        (tokens.filterMap Token.operator?) := by
  rw [parseTokens, if_neg some] at h
  obtain ⟨g, tail, cut, rfl, groups, operators⟩ := exists_groups tokens
  have fuel : tail.length < (g ++ operatorTokens tail).length + 1 := by
    have := length_operatorTokens tail
    rw [List.length_append]
    omega
  obtain ⟨ok, pipelines, ops, rfl, lineOf⟩ := parseLineFrom_ok cut fuel h
  rw [groups, operators]
  exact ⟨ok, lineOf⟩

/-- The tokens of each command of a line. -/
def commandGroups (tokens : List Token) : List (List Token) :=
  if tokens = [] then [] else tokens.splitOnP Token.isOperator

/-- The commands of a line are those of its groups. -/
theorem parseTokens_commands {tokens : List Token} {line : ShellLine}
    (h : parseTokens tokens = .ok line) :
    line.pipelines.flatMap (·.parts) = (commandGroups tokens).map commandOf := by
  unfold commandGroups
  by_cases none : tokens = []
  · rw [parseTokens, if_pos none] at h
    cases h
    rw [if_pos none]
    rfl
  · rw [if_neg none]
    exact (parseTokens_ok none h).2.commands

/-- A line that is one command. -/
theorem parseTokens_group {g : List Token} (plain : ∀ t ∈ g, t.isOperator = false)
    (ok : Acceptable g) : parseTokens g = .ok ⟨[⟨[commandOf g], []⟩], []⟩ := by
  have cut : Cut Token.isOperator g ([] : List (Operator × List Token)) := ⟨plain, nofun⟩
  have step : parseLineFrom (g.length + 1) {} (g ++ operatorTokens []) =
      .ok ⟨[pipelineOf g []], []⟩ :=
    (parseLineFrom_step cut).mpr
      ⟨[], [], ⟨rfl, nofun⟩, List.forall_mem_singleton.mpr ok, rfl⟩
  have alone : g ++ operatorTokens [] = g := List.append_nil g
  rw [alone] at step
  rw [parseTokens, if_neg ok.1, step]
  rfl

theorem plainWords_words (words : List SyntaxWord) : plainWords (words.map .word) = words := by
  induction words with
  | nil => rfl
  | cons w words ih => rw [List.map_cons, plainWords, ih]

theorem redirectsOf_words (words : List SyntaxWord) : redirectsOf (words.map .word) = [] := by
  induction words with
  | nil => rfl
  | cons w words ih => rw [List.map_cons, redirectsOf, ih] <;> nofun

theorem commandTokens_words {words : List SyntaxWord}
    (literal : ∀ w ∈ assignmentWords words, LiteralAssignment w) :
    CommandTokens (words.map .word) := by
  have none : ∀ t ∈ words.map Token.word, t.isRedirect = false :=
    List.forall_mem_map.mpr fun _ _ => rfl
  refine ⟨?_, ?_, ?_, ?_⟩
  · rintro front op back spelled -
    have here := none (.redirect op) (spelled ▸ List.mem_append_right front List.mem_cons_self)
    cases here
  · rw [List.countP_eq_zero.mpr fun t ht => by rw [none t ht]; exact Bool.false_ne_true]
    exact Nat.zero_le _
  · rw [plainWords_words]
    exact literal
  · rintro ⟨t, ht, redirect⟩
    rw [none t ht] at redirect
    cases redirect

/-- A line of words, of which the first is no assignment, is a command of that name. -/
theorem parseTokens_words {w : SyntaxWord} (named : isEnvAssignment w.text = false)
    (args : List SyntaxWord) :
    parseTokens ((w :: args).map .word) =
      .ok ⟨[⟨[SimpleCommand.ofWords [] [] (w :: args)], []⟩], []⟩ := by
  have none : assignmentWords (w :: args) = [] := List.takeWhile_cons_of_neg (by rw [named]; nofun)
  have all : namedWords (w :: args) = w :: args := List.dropWhile_cons_of_neg (by rw [named]; nofun)
  have ok : Acceptable ((w :: args).map .word) := ⟨nofun, commandTokens_words (none ▸ nofun)⟩
  rw [parseTokens_group (List.forall_mem_map.mpr fun _ _ => rfl) ok, commandOf, plainWords_words,
    redirectsOf_words, none, all]
  rfl

/-- THE GRAMMAR. Tokens are parsed exactly when there are none or cutting them at the
operators leaves well-formed groups and no empty one. The line then has the command of each
group, in order, which holds all of the group, and the operators between them. -/
theorem parser_accepts_grammar (tokens : List Token) :
    ((∃ line, parseTokens tokens = .ok line) ↔
      tokens = [] ∨ ∀ g ∈ tokens.splitOnP Token.isOperator, g ≠ [] ∧ CommandTokens g) ∧
    (tokens ≠ [] → ∀ line, parseTokens tokens = .ok line →
      LineOf line.pipelines line.operators (tokens.splitOnP Token.isOperator)
        (tokens.filterMap Token.operator?) ∧
      ∀ g ∈ tokens.splitOnP Token.isOperator, Holds (commandOf g) g) := by
  refine ⟨⟨?_, ?_⟩, ?_⟩
  · rintro ⟨line, h⟩
    by_cases none : tokens = []
    · exact .inl none
    · exact .inr (parseTokens_ok none h).1
  · rintro (none | ok)
    · exact ⟨{}, if_pos none⟩
    · by_cases none : tokens = []
      · exact ⟨{}, if_pos none⟩
      rw [parseTokens, if_neg none]
      obtain ⟨g, tail, cut, rfl, groups, -⟩ := exists_groups tokens
      rw [groups] at ok
      refine parseLineFrom_total cut ?_ {} ok
      have := length_operatorTokens tail
      rw [List.length_append]
      omega
  · intro some line h
    obtain ⟨ok, lineOf⟩ := parseTokens_ok some h
    exact ⟨lineOf, fun g hg => commandOf_holds (ok g hg).2.aimed⟩

end FakeSSH.Shell
