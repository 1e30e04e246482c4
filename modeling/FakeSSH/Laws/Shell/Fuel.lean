import FakeSSH.Go.Errors
import FakeSSH.Shell.Syntax

/-!
# The loops of the tokenizer and the parser end

Each turn of each loop takes a byte or a token. So a loop that is allowed more
turns than there are bytes or tokens left ends before it runs out of them, and
what it returns does not depend on how many it is allowed. The bounds in
`tokenizeShellSegment`, `parseSimpleCommandTokens`, `parsePipelineTokens` and
`parseTokens` are such bounds.
-/

namespace FakeSSH.Shell

open FakeSSH.Go

/-! ## One turn of the tokenizer -/

/-- What a turn does at a byte, by the kind of byte. -/
inductive LexedAs (c : UInt8) (rest : Bytes) (r : Except SyntaxError Lexeme) : Prop
  | space : isShellSpace c = true → r = .ok (.skip rest) → LexedAs c rest r
  | comment : c = numberSign → r = .ok .stop → LexedAs c rest r
  | separator : c = semicolon ∨ c = newline →
      r = .ok .stop ∨ r = .error .unexpectedCommandSeparator → LexedAs c rest r
  | operator (t : Token) : isSyntaxOperatorStart c = true → r = .ok (.token t rest) →
      LexedAs c rest r
  | operators (t : Token) : isSyntaxOperatorStart c = true → rest.head? = some c →
      r = .ok (.token t rest.tail) → LexedAs c rest r
  | refused (e : SyntaxError) : isSyntaxOperatorStart c = true →
      e ≠ .unexpectedCommandSeparator ∧ e ≠ .unterminatedQuote → r = .error e → LexedAs c rest r
  | word : endsWord c = false → c ≠ numberSign → r = lexDigitOrWord (c :: rest) → LexedAs c rest r

theorem lex_cons (c : UInt8) (rest : Bytes) : LexedAs c rest (lex (c :: rest)) := by
  rw [lex]
  by_cases space : isShellSpace c = true
  · rw [if_pos space]
    exact .space space rfl
  rw [if_neg space]
  by_cases hash : c = numberSign
  · rw [if_pos hash]
    exact .comment hash rfl
  rw [if_neg hash]
  by_cases sep : c = semicolon ∨ c = newline
  · rw [if_pos sep]
    refine .separator sep ?_
    split
    · exact .inl rfl
    · exact .inr rfl
  rw [if_neg sep]
  by_cases amp : c = ampersand
  · rw [if_pos amp]
    subst amp
    split
    next again => exact .operators _ rfl again rfl
    next => exact .refused _ rfl (by decide) rfl
  rw [if_neg amp]
  by_cases bar : c = verticalBar
  · rw [if_pos bar]
    subst bar
    split
    next again => exact .operators _ rfl again rfl
    next => exact .operator _ rfl rfl
  rw [if_neg bar]
  by_cases lt : c = lessThan
  · rw [if_pos lt]
    subst lt
    split
    next => exact .refused _ rfl (by decide) rfl
    next => split <;> exact .refused _ rfl (by decide) rfl
  rw [if_neg lt]
  by_cases gt : c = greaterThan
  · rw [if_pos gt]
    subst gt
    split
    next => exact .refused _ rfl (by decide) rfl
    next =>
      split
      next => exact .refused _ rfl (by decide) rfl
      next => exact .operator _ rfl rfl
  rw [if_neg gt]
  refine .word ?_ hash rfl
  simp_all [endsWord, isSyntaxOperatorStart]

/-! ## Bytes -/

theorem scanWordFrom_length {place : WordPlace} {w w' : SyntaxWord} {input rest : Bytes}
    (h : scanWordFrom place w input = .ok (w', rest)) : rest.length ≤ input.length := by
  fun_induction scanWordFrom place w input with
  | case1 | case2 | case5 =>
    cases h
    simp
  | case8 | case11 | case13 => cases h
  | case6 w e rest' _ _ _ ih | case14 w e rest' _ ih =>
    have := ih h
    simp only [List.length_cons]
    omega
  | case3 _ rest' _ ih | case4 _ rest' _ _ ih | case7 _ _ rest' _ _ _ _ ih | case9 _ _ rest' ih
  | case10 _ _ _ rest' _ ih | case12 _ rest' ih | case15 _ _ rest' _ _ ih =>
    have := ih h
    simp only [List.length_cons]
    omega

/-- A word takes its first byte. -/
theorem scanSyntaxWord_length {c : UInt8} {w : SyntaxWord} {input rest : Bytes}
    (hc : endsWord c = false) (h : scanSyntaxWord (c :: input) = .ok (w, rest)) :
    rest.length < (c :: input).length := by
  unfold scanSyntaxWord scanWordFrom at h
  simp only [hc, Bool.false_eq_true, if_false] at h
  rw [List.length_cons, Nat.lt_succ_iff]
  split_ifs at h
  · exact scanWordFrom_length h
  · exact scanWordFrom_length h
  · cases input with
    | nil =>
      cases h
      exact le_rfl
    | cons e input =>
      have := scanWordFrom_length h
      rw [List.length_cons]
      omega
  · exact scanWordFrom_length h

theorem lexDigitOrWord_length {c : UInt8} {l : Lexeme} {input rest : Bytes}
    (hc : endsWord c = false) (h : lexDigitOrWord (c :: input) = .ok l) (hr : l.rest? = some rest) :
    rest.length < (c :: input).length := by
  unfold lexDigitOrWord at h
  split_ifs at h
  · cases h
    cases hr
    simp only [List.length_drop, List.length_cons]
    omega
  · cases h
    cases hr
    simp only [List.length_drop, List.length_cons]
    omega
  · unfold lexWord at h
    split at h
    next => cases h
    next w rest' hw =>
      split at h <;> cases h
      cases hr
      exact scanSyntaxWord_length hc hw

theorem LexStep.length_lt {input rest : Bytes} (h : LexStep input rest) :
    rest.length < input.length := by
  obtain ⟨l, hl, hr⟩ := h
  cases input with
  | nil =>
    cases hl
    cases hr
  | cons c input =>
    cases lex_cons c input with
    | space _ hlex | operator t _ hlex =>
      cases hl.symm.trans hlex
      cases hr
      exact Nat.lt_succ_self _
    | comment _ hlex =>
      cases hl.symm.trans hlex
      cases hr
    | separator _ hlex =>
      rcases hlex with hlex | hlex <;> cases hl.symm.trans hlex
      cases hr
    | operators t _ _ hlex =>
      cases hl.symm.trans hlex
      cases hr
      simp only [List.length_tail, List.length_cons]
      omega
    | refused e _ _ hlex => cases hl.symm.trans hlex
    | word hc _ hlex => exact lexDigitOrWord_length hc (hlex.symm.trans hl) hr

theorem tokenizeFrom_fuel {f g : Nat} {tokens : List Token} {operators : Nat} {input : Bytes}
    (hf : input.length < f) (hg : input.length < g) :
    tokenizeFrom f tokens operators input = tokenizeFrom g tokens operators input := by
  induction f generalizing g tokens operators input with
  | zero => omega
  | succ f ih =>
    obtain ⟨g, rfl⟩ : ∃ g', g = g' + 1 := ⟨g - 1, by omega⟩
    unfold tokenizeFrom
    split
    next => rfl
    next => rfl
    next rest hl =>
      have shorter := LexStep.length_lt ⟨_, hl, rfl⟩
      exact ih (by omega) (by omega)
    next t rest hl =>
      have shorter := LexStep.length_lt ⟨_, hl, rfl⟩
      split
      next => rfl
      next => exact ih (by omega) (by omega)

/-! ## Tokens -/

/-- What `parseRedirect` makes: `2>&1`, which takes no token, or a redirection to the word
that comes next. -/
theorem parseRedirect_cases {op : RedirectOp} {tokens rest : List Token} {x : Redirect}
    (h : parseRedirect op tokens = .ok (x, rest)) :
    (x = { fd := 2, operator := str ">&", duplicate := true, duplicateFD := 1 } ∧ rest = tokens) ∨
      ∃ fd w, (fd = 1 ∨ fd = 2) ∧ tokens = .word w :: rest ∧
        x = { fd := fd, operator := op.text, target := w.text, targetWord := w } := by
  have target (fd : Nat) (known : fd = 1 ∨ fd = 2)
      (h : parseRedirect.target op fd tokens = .ok (x, rest)) :
      ∃ fd w, (fd = 1 ∨ fd = 2) ∧ tokens = .word w :: rest ∧
        x = { fd := fd, operator := op.text, target := w.text, targetWord := w } := by
    unfold parseRedirect.target at h
    split at h
    next w rest' =>
      obtain ⟨-, h⟩ := check_eq_ok.mp h
      cases h
      exact ⟨fd, _, known, rfl, rfl⟩
    next => cases h
  cases op with
  | errToOut =>
    cases h
    exact .inl ⟨rfl, rfl⟩
  | out => exact .inr (target 1 (.inl rfl) h)
  | err => exact .inr (target 2 (.inr rfl) h)

theorem parseRedirect_length {op : RedirectOp} {tokens rest : List Token} {x : Redirect}
    (h : parseRedirect op tokens = .ok (x, rest)) : rest.length ≤ tokens.length := by
  rcases parseRedirect_cases h with ⟨-, rfl⟩ | ⟨fd, w, -, rfl, -⟩
  · exact le_rfl
  · exact Nat.le_succ _

theorem takeCommand_length {f : Nat} {words words' : List SyntaxWord}
    {redirects redirects' : List Redirect} {tokens rest : List Token}
    (h : takeCommand f words redirects tokens = .ok (words', redirects', rest)) :
    rest.length ≤ tokens.length := by
  fun_induction takeCommand f words redirects tokens with
  | case1 | case2 | case3 =>
    cases h
    exact le_rfl
  | case4 | case5 => cases h
  | case6 _ _ _ _ _ _ _ _ hr ih =>
    have := parseRedirect_length hr
    have := ih h
    simp only [List.length_cons]
    omega
  | case7 _ _ _ _ _ ih =>
    have := ih h
    simp only [List.length_cons]
    omega

theorem takeCommand_nil (f : Nat) (words : List SyntaxWord) (redirects : List Redirect) :
    takeCommand f words redirects [] = .ok (words, redirects, []) := by
  cases f <;> rfl

theorem takeCommand_operator (f : Nat) (words : List SyntaxWord) (redirects : List Redirect)
    (op : Operator) (rest : List Token) :
    takeCommand f words redirects (.operator op :: rest) =
      .ok (words, redirects, .operator op :: rest) := by
  cases f <;> rfl

theorem takeCommand_fuel {f g : Nat} {words : List SyntaxWord} {redirects : List Redirect}
    {tokens : List Token} (hf : tokens.length ≤ f) (hg : tokens.length ≤ g) :
    takeCommand f words redirects tokens = takeCommand g words redirects tokens := by
  induction f generalizing g words redirects tokens with
  | zero =>
    obtain rfl := List.length_eq_zero_iff.mp (Nat.le_zero.mp hf)
    rw [takeCommand_nil, takeCommand_nil]
  | succ f ih =>
    cases tokens with
    | nil => rw [takeCommand_nil, takeCommand_nil]
    | cons t rest =>
      rw [List.length_cons] at hf hg
      obtain ⟨g, rfl⟩ : ∃ g', g = g' + 1 := ⟨g - 1, by omega⟩
      cases t with
      | operator op => rw [takeCommand_operator, takeCommand_operator]
      | word w => exact ih (by omega) (by omega)
      | redirect op =>
        simp only [takeCommand]
        split
        next => rfl
        next =>
          split
          next => rfl
          next r rest' hr =>
            have := parseRedirect_length hr
            exact ih (by omega) (by omega)

theorem parseSimpleCommandTokens_cases {tokens rest : List Token} {cmd : SimpleCommand}
    (h : parseSimpleCommandTokens tokens = .ok (cmd, rest)) :
    ∃ words redirects envs named, takeCommand tokens.length [] [] tokens =
        .ok (words, redirects, rest) ∧ cmd = SimpleCommand.ofWords envs redirects named := by
  unfold parseSimpleCommandTokens at h
  split at h
  next => cases h
  next words redirects rest' taken =>
    split at h
    next => cases h
    next envs named _ =>
      obtain ⟨-, h⟩ := check_eq_ok.mp h
      cases h
      exact ⟨words, redirects, envs, named, taken, rfl⟩

theorem parseSimpleCommandTokens_length {tokens rest : List Token} {cmd : SimpleCommand}
    (h : parseSimpleCommandTokens tokens = .ok (cmd, rest)) : rest.length ≤ tokens.length := by
  obtain ⟨words, redirects, envs, named, taken, -⟩ := parseSimpleCommandTokens_cases h
  exact takeCommand_length taken

theorem parsePipelineFrom_length {f : Nat} {p p' : Pipeline} {tokens rest : List Token}
    (h : parsePipelineFrom f p tokens = .ok (p', rest)) : rest.length ≤ tokens.length := by
  fun_induction parsePipelineFrom f p tokens with
  | case1 =>
    cases h
    exact le_rfl
  | case2 | case3 | case8 => cases h
  | case4 _ _ _ _ _ _ hcmd | case5 _ _ _ _ _ _ _ hcmd | case6 _ _ _ _ _ _ _ hcmd =>
    rw [← (Prod.mk.inj (Except.ok.inj h)).2]
    exact parseSimpleCommandTokens_length hcmd
  | case7 _ _ _ _ _ _ _ hcmd ih =>
    have shorter := parseSimpleCommandTokens_length hcmd
    have := ih h
    rw [List.length_cons] at shorter
    omega

theorem parsePipelineFrom_fuel {f g : Nat} {p : Pipeline} {tokens : List Token}
    (hf : tokens.length < f) (hg : tokens.length < g) :
    parsePipelineFrom f p tokens = parsePipelineFrom g p tokens := by
  induction f generalizing g p tokens with
  | zero => omega
  | succ f ih =>
    obtain ⟨g, rfl⟩ : ∃ g', g = g' + 1 := ⟨g - 1, by omega⟩
    unfold parsePipelineFrom
    split
    next => rfl
    next =>
      split
      next => rfl
      next cmd rest hcmd =>
        have shorter := parseSimpleCommandTokens_length hcmd
        dsimp only
        split <;> first | rfl | skip
        -- after a `|`, one token less
        rw [List.length_cons] at shorter
        exact ih (by omega) (by omega)

theorem parseLineFrom_fuel {f g : Nat} {line : ShellLine} {tokens : List Token}
    (hf : tokens.length < f) (hg : tokens.length < g) :
    parseLineFrom f line tokens = parseLineFrom g line tokens := by
  induction f generalizing g line tokens with
  | zero => omega
  | succ f ih =>
    obtain ⟨g, rfl⟩ : ∃ g', g = g' + 1 := ⟨g - 1, by omega⟩
    unfold parseLineFrom
    split
    next => rfl
    next p rest hp =>
      have shorter := parsePipelineFrom_length hp
      dsimp only
      split <;> first | rfl | skip
      rw [List.length_cons] at shorter
      split
      next => rfl
      next =>
        split
        next => rfl
        next => exact ih (by omega) (by omega)

end FakeSSH.Shell
