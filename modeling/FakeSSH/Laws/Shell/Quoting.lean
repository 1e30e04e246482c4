import FakeSSH.Laws.Shell.Expand
import FakeSSH.Laws.Shell.Fuel
import FakeSSH.Laws.Shell.Glob
import FakeSSH.Laws.Shell.Grammar
import FakeSSH.Laws.Shell.Pieces
import FakeSSH.Laws.Shell.Separator

/-!
# Quoted arguments arrive as they are

Any byte string without a newline can be written as an argument: between single quotes,
with each quote in it closed, escaped and opened again. The separator search, the
tokenizer, the validator and the expander each pass over what is so written.
-/

namespace FakeSSH.Shell

open FakeSSH.Go FakeSSH.Lib

/-! ## Writing -/

def space : UInt8 := 0x20

/-- A byte between single quotes. -/
def quoteByte (c : UInt8) : Bytes :=
  if c = singleQuote then [singleQuote, backslash, singleQuote, singleQuote] else [c]

/-- A string in single quotes. -/
def quoted (a : Bytes) : Bytes := singleQuote :: a.flatMap quoteByte ++ [singleQuote]

/-- `echo` with arguments in quotes. -/
def echoLine (args : List Bytes) : Bytes := str "echo " ++ [space].intercalate (args.map quoted)

/-- The pieces of a quoted string, of which `read` has been read. -/
def quotePieces : Bytes → (read : Bytes) → singleQuote ∉ read → List Piece
  | [], read, closed => [.single read closed]
  | c :: a, read, closed =>
    if h : c = singleQuote then
      .single read closed :: .escape singleQuote :: quotePieces a [] List.not_mem_nil
    else quotePieces a (read ++ [c]) (by simp [closed, Ne.symm h])

theorem quotePieces_spelled (a read : Bytes) (closed : singleQuote ∉ read) :
    (quotePieces a read closed).flatMap Piece.spelled =
      singleQuote :: read ++ a.flatMap quoteByte ++ [singleQuote] := by
  induction a generalizing read with
  | nil => simp [quotePieces, Piece.spelled]
  | cons c a ih =>
    rw [quotePieces, List.flatMap_cons, quoteByte]
    split
    next => simp [Piece.spelled, ih]
    next => simp [ih]

theorem quotePieces_text (a read : Bytes) (closed : singleQuote ∉ read) :
    ((quotePieces a read closed).flatMap Piece.atoms).flatMap (·.text) = read ++ a := by
  induction a generalizing read with
  | nil => simp [quotePieces, Piece.atoms]
  | cons c a ih =>
    rw [quotePieces]
    split
    next h => simp [Piece.atoms, ih, h]
    next => simp [ih]

/-- A segment that no later stage looks into. -/
def WordSegment.Literal (s : WordSegment) : Prop := s.quote = .singleQuoted ∨ s.quote = .escaped

theorem quotePieces_literal (a read : Bytes) (closed : singleQuote ∉ read) :
    (∀ s ∈ (quotePieces a read closed).flatMap Piece.atoms, s.Literal) ∧
      (quotePieces a read closed).flatMap Piece.atoms ≠ [] := by
  induction a generalizing read with
  | nil => exact ⟨List.forall_mem_singleton.2 (.inl rfl), List.cons_ne_nil _ _⟩
  | cons c a ih =>
    rw [quotePieces]
    split
    next =>
      refine ⟨List.forall_mem_cons.2 ⟨.inl rfl, List.forall_mem_cons.2 ⟨.inr rfl, ?_⟩⟩,
        List.cons_ne_nil _ _⟩
      exact (ih [] List.not_mem_nil).1
    next => exact ih _ _

/-- The word of a quoted string. -/
def quotedWord (a : Bytes) : SyntaxWord := wordOf (quotePieces a [] List.not_mem_nil)

theorem quoted_eq (a : Bytes) :
    quoted a = (quotePieces a [] List.not_mem_nil).flatMap Piece.spelled := by
  rw [quotePieces_spelled]
  rfl

theorem quotedWord_literal (a : Bytes) : ∀ s ∈ (quotedWord a).segments, s.Literal := by
  intro s hs
  obtain ⟨t, ht, alike⟩ := exists_key_of_mem_runs WordSegment.join_quote hs
  have literal := (quotePieces_literal a [] List.not_mem_nil).1 t ht
  rwa [WordSegment.Literal, alike] at literal

theorem quotedWord_segments (a : Bytes) :
    (quotedWord a).segments ≠ [] ∧ (quotedWord a).segments.flatMap (·.text) = a := by
  refine ⟨runs_ne_nil (quotePieces_literal a [] List.not_mem_nil).2, ?_⟩
  exact (flatMap_runs _ (fun _ _ _ => rfl) _).trans (quotePieces_text a [] _)

/-! ## The separator search -/

theorem Mode.next_inSingle {c : UInt8} (line : c ≠ newline) (h : c ≠ singleQuote) :
    Mode.single.next c = some .single := by
  simp [Mode.next, line, h]

theorem scan_quoteBytes {a : Bytes} (line : newline ∉ a) :
    scan Mode.next .single (a.flatMap quoteByte) = some .single := by
  induction a with
  | nil => rfl
  | cons c a ih =>
    rw [List.mem_cons, not_or] at line
    rw [List.flatMap_cons]
    have one : scan Mode.next .single (quoteByte c) = some .single := by
      unfold quoteByte
      split
      · rfl
      next h => rw [scan_cons (Mode.next_inSingle (Ne.symm line.1) h)]; rfl
    rw [scan_append one, ih line.2]

theorem scan_quoted {a : Bytes} (line : newline ∉ a) (b : Bool) :
    scan Mode.next (.plain b) (quoted a) = some (.plain false) := by
  have opens : (Mode.plain b).next singleQuote = some .single := rfl
  rw [quoted, List.cons_append, scan_cons opens, scan_append (scan_quoteBytes line)]
  rfl

/-- The arguments, each behind a space. -/
def quotedArgs (args : List Bytes) : Bytes := args.flatMap fun a => space :: quoted a

theorem scan_quotedArgs {args : List Bytes} (line : ∀ a ∈ args, newline ∉ a) (b : Bool) :
    ∃ b', scan Mode.next (.plain b) (quotedArgs args) = some (.plain b') := by
  induction args generalizing b with
  | nil => exact ⟨b, rfl⟩
  | cons a args ih =>
    obtain ⟨first, later⟩ := List.forall_mem_cons.1 line
    have spaced : (Mode.plain b).next space = some (.plain true) := by cases b <;> rfl
    obtain ⟨b', done⟩ := ih later false
    refine ⟨b', ?_⟩
    rw [quotedArgs, List.flatMap_cons, List.cons_append, scan_cons spaced,
      scan_append (scan_quoted first true)]
    exact done

/-- Where a line is read to its end outside quotes, the tokenizer sees it without what
separates it from the next. -/
theorem trimShellSegment_line {line : Bytes} {b : Bool}
    (read : scan Mode.next (.plain true) line = some (.plain b)) {ending : Bytes}
    (ended : ending = [] ∨ ending = [semicolon] ∨ ending = [newline]) :
    trimShellSegment (line ++ ending) = line := by
  have stop : ∀ c, (Mode.plain b).next c = none → trimShellSegment (line ++ [c]) = line := by
    intro c stops
    have found : findCommandSeparator (line ++ [c]) = some line.length := by
      rw [findCommandSeparator_eq, firstStop_append_of_scan read, firstStop_cons_of_stop stops,
        Option.map_some, Nat.zero_add]
    have behind : (line ++ [c]).drop (line.length + 1) = [] :=
      List.drop_eq_nil_of_le (by rw [List.length_append, List.length_singleton])
    unfold trimShellSegment
    rw [found]
    dsimp only
    rw [behind, List.take_left]
    rfl
  rcases ended with rfl | rfl | rfl
  · have none : findCommandSeparator line = none := by
      rw [findCommandSeparator_eq, firstStop_eq_none]
      exact ⟨_, read⟩
    unfold trimShellSegment
    rw [List.append_nil, none]
  · exact stop semicolon rfl
  · exact stop newline rfl

/-! ## The tokenizer -/

section Tokens

variable {tokens : List Token} {operators fuel : Nat} {input rest : Bytes}

theorem tokenizeFrom_skip (h : lex input = .ok (.skip rest)) :
    tokenizeFrom (fuel + 1) tokens operators input = tokenizeFrom fuel tokens operators rest := by
  rw [tokenizeFrom, h]

theorem tokenizeFrom_word {w : SyntaxWord} (h : lex input = .ok (.token (.word w) rest))
    (room : tokens.length < maxSyntaxTokens) :
    tokenizeFrom (fuel + 1) tokens operators input =
      tokenizeFrom fuel (tokens ++ [.word w]) operators rest := by
  have added : appendToken tokens operators (.word w) = .ok (tokens ++ [.word w], operators) :=
    if_neg (Nat.not_lt.2 room)
  rw [tokenizeFrom, h]
  dsimp only
  rw [added]

/-- A byte that no operator, comment or descriptor starts with starts a word. -/
theorem lex_word {c : UInt8} (inWord : endsWord c = false) (hash : c ≠ numberSign)
    (digit : isDigit c = false) : lex (c :: input) = lexWord (c :: input) := by
  have noTwo : ∀ op : Bytes, op.head? = some 0x32 → ¬ op.isPrefixOf (c :: input) = true := by
    intro op two h
    obtain ⟨_, same⟩ := List.isPrefixOf_iff_prefix.mp h
    obtain ⟨rest, rfl⟩ := List.head?_eq_some_iff.1 two
    rw [← (List.cons.inj same).1] at digit
    cases digit
  have word : lexDigitOrWord (c :: input) = lexWord (c :: input) := by
    unfold lexDigitOrWord
    rw [if_neg fun h => noTwo (str "2>&1") (by decide) (Bool.and_eq_true_iff.1 h).1,
      if_neg (noTwo (str "2>>") (by decide)), if_neg (noTwo (str "2>") (by decide)),
      List.head?_cons, Option.any_some, digit]
    rfl
  simp only [endsWord, Bool.or_eq_false_iff, beq_eq_false_iff_ne] at inWord
  obtain ⟨⟨⟨noSpace, noSemicolon⟩, noNewline⟩, noOperator⟩ := inWord
  cases lex_cons c input with
  | space h => exact absurd h (noSpace ▸ Bool.false_ne_true)
  | comment h => exact absurd h hash
  | separator h => exact absurd h (not_or.2 ⟨noSemicolon, noNewline⟩)
  | operator _ h | operators _ h | refused _ h => exact absurd h (noOperator ▸ Bool.false_ne_true)
  | word _ _ h => exact h.trans word

theorem lex_pieces {c : UInt8} {pieces : List Piece}
    (spelled : pieces.flatMap Piece.spelled = c :: input)
    (inWord : endsWord c = false) (hash : c ≠ numberSign) (digit : isDigit c = false)
    (ok : validateSyntaxWord (wordOf pieces) = .ok ()) (ended : isTokenBoundary rest = true) :
    lex (c :: (input ++ rest)) = .ok (.token (.word (wordOf pieces)) rest) := by
  rw [lex_word inWord hash digit, lexWord, ← List.cons_append, ← spelled,
    scanSyntaxWord_pieces pieces ended]
  dsimp only
  rw [ok]

theorem validateSyntaxWord_literal {w : SyntaxWord} (literal : ∀ s ∈ w.segments, s.Literal) :
    validateSyntaxWord w = .ok () := by
  have each : w.segments.forM validateSegment = .ok () :=
    forM_eq_ok.mpr fun s hs => if_pos (literal s hs)
  unfold validateSyntaxWord
  rw [each]
  dsimp only
  split
  next s found =>
    refine if_neg fun h => ?_
    have quote := literal s (List.mem_of_find?_eq_some found)
    rw [WordSegment.Literal, h.1] at quote
    exact absurd quote (by decide)
  next => rfl

theorem lex_quoted (a : Bytes) (ended : isTokenBoundary rest = true) :
    lex (quoted a ++ rest) = .ok (.token (.word (quotedWord a)) rest) := by
  have spelled := (quoted_eq a).symm
  rw [quoted, List.cons_append] at spelled
  rw [quoted, List.cons_append, List.cons_append]
  exact lex_pieces spelled (by decide) (by decide) (by decide)
    (validateSyntaxWord_literal (quotedWord_literal a)) ended

theorem isTokenBoundary_quotedArgs (args : List Bytes) :
    isTokenBoundary (quotedArgs args) = true := by
  cases args <;> rfl

theorem lex_space (input : Bytes) : lex (space :: input) = .ok (.skip input) := rfl

theorem tokenizeFrom_quotedArgs {args : List Bytes}
    (room : tokens.length + args.length ≤ maxSyntaxTokens)
    (enough : 2 * args.length < fuel) :
    tokenizeFrom fuel tokens operators (quotedArgs args) =
      .ok (tokens ++ args.map fun a => .word (quotedWord a)) := by
  induction args generalizing tokens fuel with
  | nil =>
    obtain ⟨fuel, rfl⟩ := Nat.exists_eq_add_one.2 enough
    rw [List.map_nil, List.append_nil]
    rfl
  | cons a args ih =>
    rw [List.length_cons] at room enough
    obtain ⟨fuel, rfl⟩ : ∃ n, fuel = n + 1 + 1 := ⟨fuel - 2, by omega⟩
    have next : quotedArgs (a :: args) = space :: (quoted a ++ quotedArgs args) := rfl
    rw [next, tokenizeFrom_skip (lex_space _),
      tokenizeFrom_word (lex_quoted a (isTokenBoundary_quotedArgs args)) (by omega),
      ih (by rw [List.length_append, List.length_singleton]; omega) (by omega), List.append_assoc]
    rfl

end Tokens

/-! ## The command -/

theorem ordinary_echo : ∀ c ∈ str "echo", Ordinary c := by
  intro c hc
  have each : ∀ c ∈ str "echo",
      endsWord c = false ∧ c ≠ singleQuote ∧ c ≠ doubleQuote ∧ c ≠ backslash := by
    decide +kernel
  obtain ⟨inWord, noSingle, noDouble, noBackslash⟩ := each c hc
  exact ⟨inWord, noSingle, noDouble, noBackslash⟩

def echoWord : SyntaxWord := ⟨str "echo", [⟨str "echo", .unquoted⟩]⟩

theorem lex_echo {rest : Bytes} (ended : isTokenBoundary rest = true) :
    lex (str "echo" ++ rest) = .ok (.token (.word echoWord) rest) := by
  have word : wordOf [.run (str "echo") ordinary_echo (by decide)] = echoWord := by rfl
  rw [← word]
  exact lex_pieces (List.append_nil _) (by decide) (by decide) (by decide) (by rfl) ended

theorem intercalate_quoted (a : Bytes) (args : List Bytes) :
    space :: [space].intercalate ((a :: args).map quoted) = quotedArgs (a :: args) := by
  induction args generalizing a with
  | nil => rfl
  | cons b args ih =>
    rw [List.map_cons, List.map_cons, List.intercalate_cons_cons, ← List.map_cons,
      List.append_assoc,
      List.singleton_append, ih]
    rfl

/-- The name and what follows it. -/
theorem echoLine_eq (args : List Bytes) :
    echoLine args = str "echo" ++ (if args = [] then [space] else quotedArgs args) := by
  have name : str "echo " = str "echo" ++ [space] := by decide
  rw [echoLine, name, List.append_assoc, List.singleton_append]
  cases args with
  | nil => rfl
  | cons a args => rw [intercalate_quoted, if_neg (List.cons_ne_nil a args)]

theorem length_quotedArgs (args : List Bytes) : 2 * args.length ≤ (quotedArgs args).length := by
  induction args with
  | nil => exact Nat.le_refl 0
  | cons a args ih =>
    have next : quotedArgs (a :: args) = space :: (quoted a ++ quotedArgs args) := rfl
    rw [next, List.length_cons, List.length_cons, List.length_append, quoted, List.cons_append,
      List.length_cons]
    omega

theorem tokenizeShellSegment_echoLine {args : List Bytes} (few : args.length ≤ maxInputArgs)
    (line : ∀ a ∈ args, newline ∉ a) {ending : Bytes}
    (ended : ending = [] ∨ ending = [semicolon] ∨ ending = [newline]) :
    tokenizeShellSegment (echoLine args ++ ending) =
      .ok ((echoWord :: args.map quotedWord).map .word) := by
  have name : scan Mode.next (.plain true) (str "echo") = some (.plain false) := by decide
  have read : ∃ b, scan Mode.next (.plain true) (echoLine args) = some (.plain b) := by
    rw [echoLine_eq, scan_append name]
    split
    · exact ⟨true, rfl⟩
    · exact scan_quotedArgs line false
  obtain ⟨b, read⟩ := read
  unfold tokenizeShellSegment
  rw [trimShellSegment_line read ended, echoLine_eq]
  dsimp only
  split
  next none =>
    subst none
    rw [tokenizeFrom_word (lex_echo rfl) (by decide), List.length_append]
    rfl
  next =>
    have long := length_quotedArgs args
    have room : ([] ++ [Token.word echoWord]).length + args.length ≤ maxSyntaxTokens :=
      Nat.le_trans (Nat.add_le_add_left few 1) (by decide)
    rw [tokenizeFrom_word (lex_echo (isTokenBoundary_quotedArgs args)) (by decide),
      tokenizeFrom_quotedArgs room (by
        rw [List.length_append]
        have four : (str "echo").length = 4 := by decide
        omega)]
    rw [List.map_cons, List.map_map]
    rfl

/-! ## The expansion -/

section Expansion

variable (r : CommandRunner) (lastStatus : Int)

/-- A word without variables and wildcards expands to its text. -/
theorem expandWord_plain {w : SyntaxWord} {text : Bytes}
    (texts : w.segments.flatMap (segmentText r lastStatus) = text)
    (quoted : ∀ s ∈ w.segments, s.quote = .unquoted → ∀ c ∈ segmentText r lastStatus s,
      c ≠ star ∧ c ≠ question)
    (short : text.length ≤ maxInputTokenBytes) : expandWord r lastStatus w = .ok [text] := by
  have expands : ∃ x, expandWordSegments r lastStatus w = .ok x :=
    expandWordSegments_of_short (texts ▸ short)
  obtain ⟨x, expanded⟩ := expands
  have same : x.text = text := (expandWordSegments_text expanded).1.trans texts
  have globbed := expandGlobWord_quoted expanded quoted r
  have fits : validateExpandedTokenLen text = .ok () := if_neg (Nat.not_lt.2 short)
  rw [same] at globbed
  refine bind_eq_ok.mpr ⟨x, expanded, bind_eq_ok.mpr ⟨(), same ▸ fits, ?_⟩⟩
  exact bind_eq_ok.mpr ⟨[text], globbed, bind_eq_ok.mpr
    ⟨(), forM_eq_ok.mpr (List.forall_mem_singleton.mpr fits), rfl⟩⟩

theorem expandWord_quotedWord {a : Bytes} (short : a.length ≤ maxInputTokenBytes) :
    expandWord r lastStatus (quotedWord a) = .ok [a] := by
  have literal := quotedWord_literal a
  have own : ∀ s ∈ (quotedWord a).segments, segmentText r lastStatus s = s.text := by
    intro s hs
    unfold segmentText
    rcases literal s hs with quote | quote <;> rw [quote]
  refine expandWord_plain r lastStatus ?_ ?_ short
  · rw [List.flatMap_congr own, (quotedWord_segments a).2]
  · intro s hs bare
    have quote := literal s hs
    rw [WordSegment.Literal, bare] at quote
    exact absurd quote (by decide)

theorem expandWord_echoWord : expandWord r lastStatus echoWord = .ok [str "echo"] := by
  refine expandWord_plain r lastStatus rfl (List.forall_mem_singleton.mpr fun _ => ?_) (by decide)
  have each : ∀ c ∈ str "echo", c ≠ star ∧ c ≠ question := by decide +kernel
  exact each

theorem map_writtenWord {words : List SyntaxWord} (full : ∀ w ∈ words, w.segments ≠ []) :
    words.map (fun w => writtenWord w w.text) = words :=
  (List.map_congr_left fun w hw => if_pos (full w hw)).trans (List.map_id' words)

theorem expandCommandWords_echo {args : List Bytes}
    (short : ∀ a ∈ args, a.length ≤ maxInputTokenBytes) :
    expandCommandWords r lastStatus (echoWord :: args.map quotedWord) =
      .ok (str "echo" :: args) := by
  have each : (echoWord :: args.map quotedWord).mapM (expandWord r lastStatus) =
      .ok ([str "echo"] :: args.map fun a => [a]) := by
    refine mapM_eq_ok.mpr (.cons (expandWord_echoWord r lastStatus) ?_)
    rw [List.forall₂_map_left_iff, List.forall₂_map_right_iff, List.forall₂_same]
    exact fun a ha => expandWord_quotedWord r lastStatus (short a ha)
  rw [expandCommandWords, each]
  refine congrArg Except.ok ?_
  rw [List.flatten_cons, List.singleton_append]
  exact congrArg _ (List.flatMap_singleton' args)

theorem expandSimpleCommand_echo {args : List Bytes} (few : args.length ≤ maxInputArgs)
    (short : ∀ a ∈ args, a.length ≤ maxInputTokenBytes) :
    expandSimpleCommand r
      (SimpleCommand.ofWords [] [] (echoWord :: args.map quotedWord)) lastStatus =
      (r, .ok ({ name := str "echo", args := args }, [])) := by
  have full : ∀ x ∈ echoWord :: args.map quotedWord, x.segments ≠ [] :=
    List.forall_mem_cons.2 ⟨List.cons_ne_nil _ _,
      List.forall_mem_map.2 fun a _ => (quotedWord_segments a).1⟩
  have name : (str "echo").length ≤ maxInputTokenBytes := by decide
  have bounds :
      validateExpandedSimpleCommandBounds { name := str "echo", args := args } = .ok () := by
    refine check_eq_ok.mpr
      ⟨Nat.not_lt.2 name, check_eq_ok.mpr ⟨Nat.not_lt.2 few, check_eq_ok.mpr ⟨?_, rfl⟩⟩⟩
    simpa using short
  have expanded : expandAssigned r (SimpleCommand.ofWords [] [] (echoWord :: args.map quotedWord))
      lastStatus = .ok { name := str "echo", args := args } := by
    refine bind_eq_ok.mpr ⟨str "echo" :: args, ?_, bind_eq_ok.mpr ⟨[], rfl, ?_⟩⟩
    · rw [commandWords_ofWords, map_writtenWord full]
      exact expandCommandWords_echo r lastStatus short
    · exact bind_eq_ok.mpr ⟨(), bounds, rfl⟩
  have named : (SimpleCommand.ofWords [] [] (echoWord :: args.map quotedWord)).name ≠ [] :=
    show str "echo" ≠ [] by decide
  have unassigned : applyCommandEnv r
      (SimpleCommand.ofWords [] [] (echoWord :: args.map quotedWord)).envAssignments = (r, []) :=
        rfl
  unfold expandSimpleCommand
  rw [if_neg named, unassigned]
  dsimp only
  rw [expanded]

end Expansion

/-- Quoted arguments arrive. The line is one command, and whatever the session is, it
expands to `echo` with the arguments as they are. -/
theorem quoted_arguments_arrive (args : List Bytes) (few : args.length ≤ maxInputArgs)
    (plain : ∀ a ∈ args, newline ∉ a ∧ a.length ≤ maxInputTokenBytes) (ending : Bytes)
    (ended : ending = [] ∨ ending = [semicolon] ∨ ending = [newline]) :
    ∃ cmd, parseShellLine (echoLine args ++ ending) = .ok ⟨[⟨[cmd], []⟩], []⟩ ∧
      ∀ r lastStatus, expandSimpleCommand r cmd lastStatus =
        (r, .ok ({ name := str "echo", args := args }, [])) := by
  refine ⟨SimpleCommand.ofWords [] [] (echoWord :: args.map quotedWord), ?_, fun r lastStatus =>
    expandSimpleCommand_echo r lastStatus few fun a ha => (plain a ha).2⟩
  unfold parseShellLine
  rw [tokenizeShellSegment_echoLine few (fun a ha => (plain a ha).1) ended]
  exact parseTokens_words (by decide) _

/-- A quote, nothing, and what would mean something outside quotes. -/
theorem quoted_arguments_of_three :
    ∃ cmd, parseShellLine (str "echo 'it'\\''s' '' '$A;*';") = .ok ⟨[⟨[cmd], []⟩], []⟩ ∧
      ∀ r lastStatus, expandSimpleCommand r cmd lastStatus =
        (r, .ok ({ name := str "echo", args := [str "it's", [], str "$A;*"] }, [])) := by
  have written : echoLine [str "it's", [], str "$A;*"] ++ [semicolon] =
      str "echo 'it'\\''s' '' '$A;*';" := by decide +kernel
  rw [← written]
  exact quoted_arguments_arrive [str "it's", [], str "$A;*"] (by decide) (by decide +kernel)
    [semicolon] (.inr (.inl rfl))

end FakeSSH.Shell
