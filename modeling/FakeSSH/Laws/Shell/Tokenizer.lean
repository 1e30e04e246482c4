import FakeSSH.Laws.Shell.Fuel
import FakeSSH.Laws.Shell.Separator
import FakeSSH.Lib.Transition

/-!
# The splitter and the tokenizer read alike

The splitter decides where a segment ends before the tokenizer sees it. Both keep
track of quotes, escapes and comments, each in its own way. `InStep` ties them:
wherever the tokenizer's loop stands, the splitter, reading the same bytes, is
outside quotes, and where the next byte could open a comment both say that a
token starts here. As the splitter met no separator in the segment, the tokenizer
meets none.
-/

namespace FakeSSH.Shell

open FakeSSH.Go FakeSSH.Lib Relation

/-! ## Bytes -/

variable {c : UInt8} {b : Bool}

theorem isShellSpace_iff :
    isShellSpace c = true ↔ c = 0x20 ∨ c = 0x09 ∨ c = 0x0D ∨ c = 0x0C ∨ c = 0x0B := by
  simp [isShellSpace, or_assoc]

/-- A space outside quotes starts a token after it. -/
theorem Mode.next_space (h : isShellSpace c = true) :
    (Mode.plain b).next c = some (.plain true) := by
  rcases isShellSpace_iff.mp h with rfl | rfl | rfl | rfl | rfl <;> cases b <;> rfl

theorem Mode.next_operator (h : isSyntaxOperatorStart c = true) :
    (Mode.plain b).next c = some (.plain true) := by
  simp only [isSyntaxOperatorStart, Bool.or_eq_true, beq_iff_eq, or_assoc] at h
  rcases h with rfl | rfl | rfl | rfl <;> cases b <;> rfl

/-- A byte of a word outside quotes. A `#` is one only within the word. -/
theorem Mode.next_word (hend : endsWord c = false) (hs : c ≠ singleQuote) (hd : c ≠ doubleQuote)
    (hb : c ≠ backslash) (hash : c = numberSign → b = false) :
    (Mode.plain b).next c = some (.plain false) := by
  simp only [endsWord, Bool.or_eq_false_iff, beq_eq_false_iff_ne] at hend
  obtain ⟨⟨⟨hspace, hsemi⟩, hnl⟩, hop⟩ := hend
  by_cases hc : c = numberSign
  · obtain rfl := hash hc
    subst hc
    rfl
  · simp [Mode.next, hnl, hb, hs, hd, hc, hsemi, hspace, hop]

/-- The byte after a backslash, which is no newline, does not matter. -/
theorem Mode.next_escape {m : Mode} (h : Mode.escape.next c = some m) : m = .plain false := by
  unfold Mode.next at h
  split at h <;> cases h
  rfl

theorem Mode.next_doubleEscape {m : Mode} (h : Mode.doubleEscape.next c = some m) :
    m = .double := by
  unfold Mode.next at h
  split at h <;> cases h
  rfl

theorem Mode.next_single {m : Mode} (hc : c ≠ singleQuote) (h : Mode.single.next c = some m) :
    m = .single := by
  simp only [Mode.next, hc, if_false] at h
  split at h <;> cases h
  rfl

theorem Mode.next_double {m : Mode} (hc : c ≠ doubleQuote) (hb : c ≠ backslash)
    (h : Mode.double.next c = some m) : m = .double := by
  simp only [Mode.next, hc, hb, if_false] at h
  split at h <;> cases h
  rfl

/-! ## Words -/

/-- The splitter's mode while the tokenizer is inside a word. -/
def WordPlace.Matches (input : Bytes) : WordPlace → Mode → Prop
  | .outside, m => ∃ b, m = .plain b ∧ (input.head? = some numberSign → b = false)
  | .single _, m => m = .single
  | .double, m => m = .double

/-- The tokenizer is between tokens and the splitter, which will end in `n`, is
outside quotes. -/
def InStep (n : Mode) (rest : Bytes) : Prop :=
  rest = [] ∨
    ∃ b, scan Mode.next (.plain b) rest = some n ∧ (b = true ∨ isTokenBoundary rest = true)

/-- A word ends in step, unless a quote stays open to the end of both. -/
def WordInStep (n : Mode) : Except SyntaxError (SyntaxWord × Bytes) → Prop
  | .ok (_, rest) => InStep n rest
  | .error e => e = .unterminatedQuote ∧ ∀ b, n ≠ .plain b

theorem scanWordFrom_inStep {place : WordPlace} {w : SyntaxWord} {input : Bytes} {m n : Mode}
    (hm : place.Matches input m) (read : scan Mode.next m input = some n) :
    WordInStep n (scanWordFrom place w input) := by
  fun_induction scanWordFrom place w input generalizing m with
  | case1 => exact .inl rfl
  | case2 w c rest hend =>
    obtain ⟨b, rfl, -⟩ := hm
    exact .inr ⟨b, read, .inr hend⟩
  | case3 w rest hend ih =>
    obtain ⟨b, rfl, -⟩ := hm
    have step : (Mode.plain b).next singleQuote = some .single := by cases b <;> rfl
    rw [scan_cons step] at read
    exact ih rfl read
  | case4 w rest hend hs ih =>
    obtain ⟨b, rfl, -⟩ := hm
    have step : (Mode.plain b).next doubleQuote = some .double := by cases b <;> rfl
    rw [scan_cons step] at read
    exact ih rfl read
  | case5 => exact .inl rfl
  | case6 w e rest hend hs hd ih =>
    obtain ⟨b, rfl, -⟩ := hm
    have step : (Mode.plain b).next backslash = some .escape := by cases b <;> rfl
    rw [scan_cons step, scan_cons_eq_some] at read
    obtain ⟨m', escaped, later⟩ := read
    obtain rfl := Mode.next_escape escaped
    exact ih ⟨false, rfl, fun _ => rfl⟩ later
  | case7 w c rest hend hs hd hb ih =>
    obtain ⟨b, rfl, hash⟩ := hm
    have step := Mode.next_word (eq_false_of_ne_true hend) hs hd hb fun hc => hash (hc ▸ rfl)
    rw [scan_cons step] at read
    exact ih ⟨false, rfl, fun _ => rfl⟩ read
  | case8 =>
    cases hm
    cases read
    refine ⟨rfl, ?_⟩
    intro b plain
    cases plain
  | case9 text w rest ih =>
    cases hm
    rw [scan_cons (show Mode.single.next singleQuote = some (.plain false) from rfl)] at read
    exact ih ⟨false, rfl, fun _ => rfl⟩ read
  | case10 text w c rest hc ih =>
    cases hm
    obtain ⟨m', step, later⟩ := scan_cons_eq_some.mp read
    obtain rfl := Mode.next_single hc step
    exact ih rfl later
  | case11 =>
    cases hm
    cases read
    refine ⟨rfl, ?_⟩
    intro b plain
    cases plain
  | case12 w rest ih =>
    cases hm
    rw [scan_cons (show Mode.double.next doubleQuote = some (.plain false) from rfl)] at read
    exact ih ⟨false, rfl, fun _ => rfl⟩ read
  | case13 =>
    cases hm
    cases read
    refine ⟨rfl, ?_⟩
    intro b plain
    cases plain
  | case14 w e rest hq ih =>
    cases hm
    rw [scan_cons (show Mode.double.next backslash = some .doubleEscape from rfl),
      scan_cons_eq_some] at read
    obtain ⟨m', escaped, later⟩ := read
    obtain rfl := Mode.next_doubleEscape escaped
    exact ih rfl later
  | case15 w c rest hq hb ih =>
    cases hm
    obtain ⟨m', step, later⟩ := scan_cons_eq_some.mp read
    obtain rfl := Mode.next_double hq hb step
    exact ih rfl later

/-! ## One turn -/

/-- A turn of the loop ends in step, and fails neither at a separator nor, where
the splitter ends outside quotes, in a quote. -/
def LexInStep (n : Mode) : Except SyntaxError Lexeme → Prop
  | .ok .stop => True
  | .ok (.skip rest) => InStep n rest
  | .ok (.token _ rest) => InStep n rest
  | .error e => e ≠ .unexpectedCommandSeparator ∧ (e = .unterminatedQuote → ∀ b, n ≠ .plain b)

/-- What `validateSyntaxWord` objects to is never a separator or a quote. -/
theorem validateSyntaxWord_error {w : SyntaxWord} {e : SyntaxError}
    (h : validateSyntaxWord w = .error e) :
    e ≠ .unexpectedCommandSeparator ∧ e ≠ .unterminatedQuote := by
  unfold validateSyntaxWord at h
  split at h
  next e' hm =>
    cases h
    obtain ⟨s, -, hs⟩ := forM_eq_error hm
    unfold validateSegment at hs
    split_ifs at hs <;> cases hs <;> decide
  next =>
    split at h
    next =>
      split at h <;> cases h
      decide
    next => cases h

variable {n : Mode} {rest : Bytes}

theorem lexWord_inStep {input : Bytes} (read : scan Mode.next (.plain b) input = some n)
    (hash : input.head? = some numberSign → b = false) : LexInStep n (lexWord input) := by
  have word : WordInStep n (scanSyntaxWord input) := scanWordFrom_inStep ⟨b, rfl, hash⟩ read
  unfold lexWord
  split
  next e he =>
    rw [he] at word
    obtain ⟨rfl, opened⟩ := word
    exact ⟨nofun, fun _ => opened⟩
  next w rest hw =>
    rw [hw] at word
    split
    next e he =>
      obtain ⟨hsep, hquote⟩ := validateSyntaxWord_error he
      exact ⟨hsep, fun hq => absurd hq hquote⟩
    next => exact word

theorem lexDigitOrWord_inStep {input : Bytes} (read : scan Mode.next (.plain b) input = some n)
    (hash : input.head? = some numberSign → b = false) : LexInStep n (lexDigitOrWord input) := by
  unfold lexDigitOrWord
  split_ifs with h₁ h₂ h₃ h₄
  · -- `2>&1` leaves the splitter within a token, at a byte that ends it
    rw [Bool.and_eq_true, List.isPrefixOf_iff_prefix] at h₁
    obtain ⟨⟨rest, rfl⟩, boundary⟩ := h₁
    refine .inr ⟨false, ?_, .inr boundary⟩
    cases b <;> exact read
  · exact ⟨nofun, nofun⟩
  · rw [List.isPrefixOf_iff_prefix] at h₃
    obtain ⟨rest, rfl⟩ := h₃
    refine .inr ⟨true, ?_, .inl rfl⟩
    cases b <;> exact read
  · exact ⟨nofun, nofun⟩
  · exact lexWord_inStep read hash

/-- An operator byte leaves both between tokens. -/
theorem inStep_of_operator (hc : isSyntaxOperatorStart c = true)
    (read : scan Mode.next (.plain b) (c :: rest) = some n) : InStep n rest := by
  rw [scan_cons (Mode.next_operator hc)] at read
  exact .inr ⟨true, read, .inl rfl⟩

/-- So do two. -/
theorem inStep_of_operators (hc : isSyntaxOperatorStart c = true)
    (read : scan Mode.next (.plain b) (c :: rest) = some n) (again : rest.head? = some c) :
    InStep n rest.tail := by
  obtain ⟨rest', rfl⟩ := List.head?_eq_some_iff.mp again
  rw [scan_cons (Mode.next_operator hc)] at read
  exact inStep_of_operator hc read

/-- The splitter does not read past a separator outside quotes. -/
theorem scan_separator (hc : c = semicolon ∨ c = newline) :
    scan Mode.next (.plain b) (c :: rest) = none := by
  rcases hc with rfl | rfl <;> cases b <;> rfl

theorem InStep.lex {input : Bytes} (h : InStep n input) : LexInStep n (lex input) := by
  rcases h with rfl | ⟨b, read, -⟩
  · trivial
  cases input with
  | nil => trivial
  | cons c rest =>
    cases lex_cons c rest with
    | space hc hlex =>
      rw [hlex]
      rw [scan_cons (Mode.next_space hc)] at read
      exact .inr ⟨true, read, .inl rfl⟩
    | comment hc hlex =>
      rw [hlex]
      trivial
    | separator hc hlex =>
      rw [scan_separator hc] at read
      cases read
    | operator t hc hlex =>
      rw [hlex]
      exact inStep_of_operator hc read
    | operators t hc again hlex =>
      rw [hlex]
      exact inStep_of_operators hc read again
    | refused e hc he hlex =>
      rw [hlex]
      exact ⟨he.1, fun hq => absurd hq he.2⟩
    | word hc hash hlex =>
      rw [hlex]
      exact lexDigitOrWord_inStep read fun h => absurd (Option.some.inj h) hash

/-! ## The loop -/

theorem InStep.step {input : Bytes} (h : InStep n input) (hs : LexStep input rest) :
    InStep n rest := by
  obtain ⟨l, hl, hr⟩ := hs
  have here := h.lex
  rw [hl] at here
  cases l <;> cases hr <;> exact here

theorem InStep.run {input : Bytes} (h : InStep n input) (run : ReflTransGen LexStep input rest) :
    InStep n rest := by
  have keeps (s s' : Bytes) (inv : InStep n s) (hs : LexStep s s') : InStep n s' := inv.step hs
  exact invariant_of_steps keeps h run

/-- Where the tokenizer's loop stands on a segment, at some turn. -/
def Stands (segment rest : Bytes) : Prop := ReflTransGen LexStep (trimShellSegment segment) rest

theorem appendToken_error {tokens : List Token} {operators : Nat} {t : Token} {e : SyntaxError}
    (h : appendToken tokens operators t = .error e) : e.isLimit = true := by
  unfold appendToken at h
  split at h
  · cases h
    rfl
  · split at h
    · split at h <;> cases h
      rfl
    · cases h

/-- The tokenizer fails at a limit or where a turn of its loop fails. -/
theorem tokenizeFrom_error {fuel : Nat} {tokens : List Token} {operators : Nat} {input : Bytes}
    {e : SyntaxError} (h : tokenizeFrom fuel tokens operators input = .error e) :
    e.isLimit = true ∨ ∃ rest, ReflTransGen LexStep input rest ∧ lex rest = .error e := by
  induction fuel generalizing tokens operators input with
  | zero => cases h
  | succ fuel ih =>
    unfold tokenizeFrom at h
    split at h
    next e' hl =>
      cases h
      exact .inr ⟨input, .refl, hl⟩
    next => cases h
    next rest hl =>
      rcases ih h with limit | ⟨at', run, fails⟩
      · exact .inl limit
      · exact .inr ⟨at', run.head ⟨_, hl, rfl⟩, fails⟩
    next t rest hl =>
      split at h
      next e' he =>
        cases h
        exact .inl (appendToken_error he)
      next tokens' operators' _ =>
        rcases ih h with limit | ⟨at', run, fails⟩
        · exact .inl limit
        · exact .inr ⟨at', run.head ⟨_, hl, rfl⟩, fails⟩

/-! ## Segments -/

/-- The segment that `processBufferedInput` takes off a buffer at the end of the
input: up to the first separator, or all of it. -/
def firstSegment (buf : Bytes) : Bytes :=
  match findCommandSeparator buf with
  | some sep => buf.take (sep + 1)
  | none => buf

variable {buf : Bytes} {sep : Nat}

theorem findCommandSeparator_take (h : findCommandSeparator buf = some sep) :
    findCommandSeparator (buf.take (sep + 1)) = some sep := by
  have hlt := findCommandSeparator_lt h
  rw [← List.take_append_drop (sep + 1) buf] at h
  refine findCommandSeparator_of_append h ?_
  rw [List.length_take]
  omega

/-- The tokenizer reads the segment without its separator. -/
theorem trimShellSegment_firstSegment (buf : Bytes) :
    trimShellSegment (firstSegment buf) =
      match findCommandSeparator buf with
      | some sep => buf.take sep
      | none => buf := by
  unfold firstSegment
  cases h : findCommandSeparator buf with
  | none => simp only [trimShellSegment, h]
  | some sep =>
    have hlt := findCommandSeparator_lt h
    have rest : (buf.take (sep + 1)).drop (sep + 1) = [] :=
      List.drop_eq_nil_of_le (List.length_take_le _ _)
    simp only [trimShellSegment, findCommandSeparator_take h, rest]
    show (buf.take (sep + 1)).take sep = buf.take sep
    rw [List.take_take, Nat.min_eq_left (Nat.le_succ sep)]

/-- The splitter reads what the tokenizer will read to its end, and outside
quotes where it split at a `;`. -/
theorem scan_firstSegment (buf : Bytes) :
    ∃ n, scan Mode.next (.plain true) (trimShellSegment (firstSegment buf)) = some n ∧
      ∀ sep, findCommandSeparator buf = some sep → buf[sep]? = some semicolon →
        ∃ b, n = .plain b := by
  rw [trimShellSegment_firstSegment]
  cases h : findCommandSeparator buf with
  | none =>
    have none := h
    rw [findCommandSeparator_eq, firstStop_eq_none] at none
    obtain ⟨n, read⟩ := none
    exact ⟨n, read, nofun⟩
  | some sep =>
    obtain ⟨n, read, stop⟩ := findCommandSeparator_stop h
    refine ⟨n, read, ?_⟩
    intro sep' hsep semi
    cases hsep
    rcases stop with nl | ⟨-, plain⟩
    · rw [nl] at semi
      exact absurd semi (by decide)
    · exact plain

theorem InStep.head_ne_semicolon (h : InStep n rest) : rest.head? ≠ some semicolon := by
  intro hc
  obtain ⟨rest', rfl⟩ := List.head?_eq_some_iff.mp hc
  rcases h with nil | ⟨b, read, -⟩
  · cases nil
  · rw [scan_separator (.inl rfl)] at read
    cases read

theorem eq_comment_of_scan (read : scan Mode.next .comment rest = some n) : n = .comment := by
  induction rest with
  | nil =>
    cases read
    rfl
  | cons c rest ih =>
    obtain ⟨m, step, later⟩ := scan_cons_eq_some.mp read
    have hm : m = .comment := by
      unfold Mode.next at step
      split at step <;> cases step
      rfl
    subst hm
    exact ih later

/-- Where the tokenizer meets a comment, the splitter has met it too. -/
theorem InStep.comment (h : InStep n rest) (hc : rest.head? = some numberSign) : n = .comment := by
  obtain ⟨rest', rfl⟩ := List.head?_eq_some_iff.mp hc
  rcases h with nil | ⟨b, read, rfl | boundary⟩
  · cases nil
  · rw [scan_cons (show (Mode.plain true).next numberSign = some .comment from rfl)] at read
    exact eq_comment_of_scan read
  · exact absurd (show endsWord numberSign = true from boundary) (by decide)

/-- How the tokenizer reads the first segment of a buffer. -/
structure ReadsAlike (buf : Bytes) : Prop where
  noSeparator : tokenizeShellSegment (firstSegment buf) ≠ .error .unexpectedCommandSeparator
  noOpenQuote : ∀ sep, findCommandSeparator buf = some sep → buf[sep]? = some semicolon →
    tokenizeShellSegment (firstSegment buf) ≠ .error .unterminatedQuote
  standsAtNoSeparator : ∀ rest, Stands (firstSegment buf) rest → rest.head? ≠ some semicolon
  standsAtNoComment : ∀ sep, findCommandSeparator buf = some sep → buf[sep]? = some semicolon →
    ∀ rest, Stands (firstSegment buf) rest → rest.head? ≠ some numberSign

/-- SPLITTER AND TOKENIZER. On the first segment of any buffer the tokenizer never
meets a `;` as a separator and never complains of one. Where the splitter split at
a `;`, the tokenizer is in no quote and in no comment there. -/
theorem tokenizer_reads_alike (buf : Bytes) : ReadsAlike buf := by
  obtain ⟨n, read, plain⟩ := scan_firstSegment buf
  have start : InStep n (trimShellSegment (firstSegment buf)) := .inr ⟨true, read, .inl rfl⟩
  have inStep (rest : Bytes) (h : Stands (firstSegment buf) rest) : InStep n rest := start.run h
  have fails (e : SyntaxError) (limit : e.isLimit = false)
      (h : tokenizeShellSegment (firstSegment buf) = .error e) : LexInStep n (.error e) := by
    rcases tokenizeFrom_error h with tooMany | ⟨rest, run, fails⟩
    · rw [limit] at tooMany
      cases tooMany
    · have here := (inStep rest run).lex
      rwa [fails] at here
  refine ⟨?_, ?_, ?_, ?_⟩
  · intro h
    exact (fails _ rfl h).1 rfl
  · intro sep hsep semi h
    obtain ⟨b, rfl⟩ := plain sep hsep semi
    exact (fails _ rfl h).2 rfl b rfl
  · intro rest h
    exact (inStep rest h).head_ne_semicolon
  · intro sep hsep semi rest h hash
    obtain ⟨b, rfl⟩ := plain sep hsep semi
    cases (inStep rest h).comment hash

/-- `'a;b';c`: the first `;` is quoted, the second splits. -/
theorem tokenizer_reads_alike_quoted :
    findCommandSeparator (str "'a;b';c") = some 5 ∧
      tokenizeShellSegment (firstSegment (str "'a;b';c")) ≠ .error .unterminatedQuote :=
  ⟨by decide +kernel,
    (tokenizer_reads_alike (str "'a;b';c")).noOpenQuote 5 (by decide +kernel) (by decide +kernel)⟩

end FakeSSH.Shell
