import FakeSSH.Shell.Input

/-!
# Shell syntax (`syntax.go`)

A segment is cut into tokens and the tokens are read as pipelines joined by `&&`
and `||`. Positions in the source are indices; here a position is what is left of
the bytes or the tokens from it on.
-/

namespace FakeSSH.Shell

open FakeSSH.Go

def maxSyntaxTokens : Nat := 128
def maxSyntaxOperators : Nat := 64
def maxRedirectionsPerCommand : Nat := 8

/-! ## Errors -/

/-- The errors of `newSyntaxError` and `newSyntaxLimitError`, by their reason. -/
inductive SyntaxError where
  | expectedLogicalOperator
  | missingCommandAfterLogicalOperator
  | unexpectedCommandSeparator
  | unsupportedBackgroundOperator
  | unsupportedHeredoc
  | unsupportedProcessSubstitution
  | unsupportedRedirection
  | unsupportedRedirectionDescriptor
  | missingCommand
  | unexpectedToken
  | redirectionWithoutCommand
  | missingRedirectionTarget
  | unterminatedQuote
  | unsupportedCommandSubstitution
  | unsupportedGrouping
  | unsupportedTildeExpansion
  | unsupportedEnvironmentAssignment
  | tooManySyntaxTokens
  | tooManySyntaxOperators
  | tooManyRedirections
  deriving DecidableEq, Repr

/-- `isSyntaxLimitError`. -/
def SyntaxError.isLimit : SyntaxError → Bool
  | .tooManySyntaxTokens | .tooManySyntaxOperators | .tooManyRedirections => true
  | _ => false

def SyntaxError.reason : SyntaxError → Bytes
  | .expectedLogicalOperator => str "expected logical operator"
  | .missingCommandAfterLogicalOperator => str "missing command after logical operator"
  | .unexpectedCommandSeparator => str "unexpected command separator"
  | .unsupportedBackgroundOperator => str "unsupported background operator"
  | .unsupportedHeredoc => str "unsupported heredoc"
  | .unsupportedProcessSubstitution => str "unsupported process substitution"
  | .unsupportedRedirection => str "unsupported redirection"
  | .unsupportedRedirectionDescriptor => str "unsupported redirection descriptor"
  | .missingCommand => str "missing command"
  | .unexpectedToken => str "unexpected token"
  | .redirectionWithoutCommand => str "redirection without command"
  | .missingRedirectionTarget => str "missing redirection target"
  | .unterminatedQuote => str "unterminated quote"
  | .unsupportedCommandSubstitution => str "unsupported command substitution"
  | .unsupportedGrouping => str "unsupported grouping"
  | .unsupportedTildeExpansion => str "unsupported tilde expansion"
  | .unsupportedEnvironmentAssignment => str "unsupported environment assignment"
  | .tooManySyntaxTokens => str "too many syntax tokens"
  | .tooManySyntaxOperators => str "too many syntax operators"
  | .tooManyRedirections => str "too many redirections"

/-- The text of the wrapped error. -/
def SyntaxError.text (e : SyntaxError) : Bytes :=
  str "syntax parse error: " ++
    (if e.isLimit then str "syntax limit exceeded: " else []) ++ e.reason

/-! ## Words -/

inductive WordQuote where
  | unquoted
  | singleQuoted
  | doubleQuoted
  | escaped
  deriving DecidableEq, Repr

structure WordSegment where
  text : Bytes
  quote : WordQuote
  deriving DecidableEq, Repr

/-- `syntaxWordValue`: the text of a word, and its pieces by how each was quoted. -/
structure SyntaxWord where
  text : Bytes := []
  segments : List WordSegment := []
  deriving DecidableEq, Repr

/-- `appendSegment`: a piece quoted like the last one joins it. -/
def SyntaxWord.append (w : SyntaxWord) (text : Bytes) (quote : WordQuote) : SyntaxWord :=
  { text := w.text ++ text
    segments :=
      match w.segments.getLast? with
      | some last =>
        if last.quote = quote then w.segments.dropLast ++ [{ last with text := last.text ++ text }]
        else w.segments ++ [⟨text, quote⟩]
      | none => [⟨text, quote⟩] }

def onlyShellSpace (s : Bytes) : Bool := s.all isShellSpace

def isDigit (c : UInt8) : Bool := decide (0x30 ≤ c) && decide (c ≤ 0x39)

/-- A byte that ends a word outside quotes. -/
def endsWord (c : UInt8) : Bool :=
  isShellSpace c || c == semicolon || c == newline || isSyntaxOperatorStart c

def isTokenBoundary : Bytes → Bool
  | [] => true
  | c :: _ => endsWord c

/-- Where `scanSyntaxWord` is: outside quotes, in single quotes after `text`, or
in double quotes. -/
inductive WordPlace where
  | outside
  | single (text : Bytes)
  | double
  deriving DecidableEq, Repr

/-- The loop of `scanSyntaxWord`: the word and what follows it. -/
def scanWordFrom : WordPlace → SyntaxWord → Bytes → Except SyntaxError (SyntaxWord × Bytes)
  | .outside, w, [] => .ok (w, [])
  | .outside, w, c :: rest =>
    if endsWord c then .ok (w, c :: rest)
    else if c = singleQuote then scanWordFrom (.single []) w rest
    else if c = doubleQuote then scanWordFrom .double w rest
    else if c = backslash then
      match rest with
      | [] => .ok (w.append [c] .escaped, [])
      | e :: rest => scanWordFrom .outside (w.append [e] .escaped) rest
    else scanWordFrom .outside (w.append [c] .unquoted) rest
  | .single _, _, [] => .error .unterminatedQuote
  | .single text, w, c :: rest =>
    if c = singleQuote then scanWordFrom .outside (w.append text .singleQuoted) rest
    else scanWordFrom (.single (text ++ [c])) w rest
  | .double, _, [] => .error .unterminatedQuote
  | .double, w, c :: rest =>
    if c = doubleQuote then scanWordFrom .outside w rest
    else if c = backslash then
      match rest with
      -- a backslash at the end stands for itself, in a quote that nothing closes
      | [] => .error .unterminatedQuote
      | e :: rest => scanWordFrom .double (w.append [e] .escaped) rest
    else scanWordFrom .double (w.append [c] .doubleQuoted) rest

def scanSyntaxWord (input : Bytes) : Except SyntaxError (SyntaxWord × Bytes) :=
  scanWordFrom .outside {} input

/-- The first loop of `validateSyntaxWord` at one piece. -/
def validateSegment (s : WordSegment) : Except SyntaxError Unit :=
  if s.quote = .singleQuoted ∨ s.quote = .escaped then .ok ()
  else if contains (str "$(") s.text || s.text.contains 0x60 then
    .error .unsupportedCommandSubstitution
  else if contains (str "<(") s.text || contains (str ">(") s.text then
    .error .unsupportedProcessSubstitution
  else if containsAny s.text (str "()\x7b\x7d") then .error .unsupportedGrouping
  else if s.text.contains ampersand then .error .unsupportedBackgroundOperator
  else .ok ()

/-- `validateSyntaxWord`. -/
def validateSyntaxWord (w : SyntaxWord) : Except SyntaxError Unit :=
  match w.segments.forM validateSegment with
  | .error e => .error e
  | .ok () =>
    match w.segments.find? (fun s => s.text ≠ []) with
    | some s =>
      if s.quote = .unquoted ∧ s.text.head? = some 0x7E then .error .unsupportedTildeExpansion
      else .ok ()
    | none => .ok ()

/-! ## Tokens -/

inductive Operator where
  | and
  | or
  | pipe
  deriving DecidableEq, Repr

def Operator.text : Operator → Bytes
  | .and => str "&&"
  | .or => str "||"
  | .pipe => str "|"

/-- The redirections the tokenizer makes tokens of. -/
inductive RedirectOp where
  | out
  | err
  | errToOut
  deriving DecidableEq, Repr

def RedirectOp.text : RedirectOp → Bytes
  | .out => str ">"
  | .err => str "2>"
  | .errToOut => str "2>&1"

inductive Token where
  | word (w : SyntaxWord)
  | operator (op : Operator)
  | redirect (op : RedirectOp)
  deriving DecidableEq, Repr

/-- What one turn of the tokenizer's loop does: leave the loop, pass over a
space, or make a token. -/
inductive Lexeme where
  | stop
  | skip (rest : Bytes)
  | token (t : Token) (rest : Bytes)
  deriving DecidableEq, Repr

/-- Where the loop goes on. -/
def Lexeme.rest? : Lexeme → Option Bytes
  | .stop => none
  | .skip rest => some rest
  | .token _ rest => some rest

/-- A word, once no operator stands here. -/
def lexWord (input : Bytes) : Except SyntaxError Lexeme :=
  match scanSyntaxWord input with
  | .error e => .error e
  | .ok (w, rest) =>
    match validateSyntaxWord w with
    | .error e => .error e
    | .ok () => .ok (.token (.word w) rest)

/-- A word or a redirection that starts with a digit. -/
def lexDigitOrWord (input : Bytes) : Except SyntaxError Lexeme :=
  if (str "2>&1").isPrefixOf input && isTokenBoundary (input.drop 4) then
    .ok (.token (.redirect .errToOut) (input.drop 4))
  else if (str "2>>").isPrefixOf input then .error .unsupportedRedirection
  else if (str "2>").isPrefixOf input then .ok (.token (.redirect .err) (input.drop 2))
  else if (input.head?.any isDigit) &&
      ((input.dropWhile isDigit).head?.any fun c => c == greaterThan || c == lessThan) then
    .error .unsupportedRedirectionDescriptor
  else lexWord input

/-- One turn of the loop of `tokenizeShellSegment`. -/
def lex : Bytes → Except SyntaxError Lexeme
  | [] => .ok .stop
  | c :: rest =>
    if isShellSpace c then .ok (.skip rest)
    else if c = numberSign then .ok .stop
    else if c = semicolon ∨ c = newline then
      if onlyShellSpace rest then .ok .stop else .error .unexpectedCommandSeparator
    else if c = ampersand then
      if rest.head? = some ampersand then .ok (.token (.operator .and) rest.tail)
      else .error .unsupportedBackgroundOperator
    else if c = verticalBar then
      if rest.head? = some verticalBar then .ok (.token (.operator .or) rest.tail)
      else .ok (.token (.operator .pipe) rest)
    else if c = lessThan then
      if rest.head? = some lessThan then .error .unsupportedHeredoc
      else if rest.head? = some 0x28 then .error .unsupportedProcessSubstitution
      else .error .unsupportedRedirection
    else if c = greaterThan then
      if rest.head? = some 0x28 then .error .unsupportedProcessSubstitution
      else if rest.head? = some greaterThan then .error .unsupportedRedirection
      else .ok (.token (.redirect .out) rest)
    else lexDigitOrWord (c :: rest)

/-- A turn of the tokenizer's loop after which it goes on at `rest`. -/
def LexStep (input rest : Bytes) : Prop := ∃ l, lex input = .ok l ∧ l.rest? = some rest

/-- `appendToken`, with the number of operators so far. -/
def appendToken (tokens : List Token) (operators : Nat) (t : Token) :
    Except SyntaxError (List Token × Nat) :=
  if maxSyntaxTokens < tokens.length + 1 then .error .tooManySyntaxTokens
  else match t with
    | .operator _ =>
      if maxSyntaxOperators < operators + 1 then .error .tooManySyntaxOperators
      else .ok (tokens ++ [t], operators + 1)
    | _ => .ok (tokens ++ [t], operators)

/-- The loop, for at most `fuel` turns. -/
def tokenizeFrom : Nat → List Token → Nat → Bytes → Except SyntaxError (List Token)
  | 0, tokens, _, _ => .ok tokens
  | fuel + 1, tokens, operators, input =>
    match lex input with
    | .error e => .error e
    | .ok .stop => .ok tokens
    | .ok (.skip rest) => tokenizeFrom fuel tokens operators rest
    | .ok (.token t rest) =>
      match appendToken tokens operators t with
      | .error e => .error e
      | .ok (tokens, operators) => tokenizeFrom fuel tokens operators rest

def trimShellSegment (segment : Bytes) : Bytes :=
  match findCommandSeparator segment with
  | some sep => if onlyShellSpace (segment.drop (sep + 1)) then segment.take sep else segment
  | none => segment

/-- `tokenizeShellSegment`. A turn that does not end the loop takes a byte, so
the loop has no more turns than the input has bytes. -/
def tokenizeShellSegment (segment : Bytes) : Except SyntaxError (List Token) :=
  let input := trimShellSegment segment
  tokenizeFrom (input.length + 1) [] 0 input

/-! ## Commands -/

/-- `redirectSpec`. -/
structure Redirect where
  fd : Nat
  operator : Bytes
  target : Bytes := []
  targetWord : SyntaxWord := {}
  duplicate : Bool := false
  duplicateFD : Nat := 0
  deriving DecidableEq, Repr

structure SimpleCommand where
  envAssignments : List Bytes := []
  name : Bytes := []
  nameWord : SyntaxWord := {}
  args : List Bytes := []
  argWords : List SyntaxWord := []
  redirects : List Redirect := []
  deriving DecidableEq, Repr

structure Pipeline where
  parts : List SimpleCommand := []
  operators : List Operator := []
  deriving DecidableEq, Repr

structure ShellLine where
  pipelines : List Pipeline := []
  operators : List Operator := []
  deriving DecidableEq, Repr

def isNameStart (c : UInt8) : Bool :=
  (decide (0x41 ≤ c) && decide (c ≤ 0x5A)) || (decide (0x61 ≤ c) && decide (c ≤ 0x7A)) || c == 0x5F

def equals : UInt8 := 0x3D

/-- `isEnvAssignment`: a name before the first `=`. -/
def isEnvAssignment (word : Bytes) : Bool :=
  match word.findIdx? (· = equals) with
  | none | some 0 => false
  | some eq =>
    match word.take eq with
    | [] => false
    | c :: rest => isNameStart c && rest.all fun c => isNameStart c || isDigit c

/-- `validateLiteralEnvAssignment`. -/
def validateLiteralEnvAssignment (w : SyntaxWord) : Except SyntaxError Unit :=
  if !isEnvAssignment w.text then .ok ()
  else if w.segments.any fun s => s.quote ≠ .unquoted then .error .unsupportedEnvironmentAssignment
  else
    let value := w.text.drop ((w.text.findIdx? (· = equals)).elim 0 (· + 1))
    if containsAny value (str "$*?~") then .error .unsupportedEnvironmentAssignment else .ok ()

/-- `parseRedirect`, at the tokens after the redirection. -/
def parseRedirect (op : RedirectOp) (rest : List Token) :
    Except SyntaxError (Redirect × List Token) :=
  match op with
  | .errToOut => .ok ({ fd := 2, operator := str ">&", duplicate := true, duplicateFD := 1 }, rest)
  | .out => target 1 rest
  | .err => target 2 rest
where
  target (fd : Nat) : List Token → Except SyntaxError (Redirect × List Token)
    | .word w :: rest =>
      if w.text = [] then .error .missingRedirectionTarget
      else .ok ({ fd := fd, operator := op.text, target := w.text, targetWord := w }, rest)
    | _ => .error .missingRedirectionTarget

/-- The first loop of `parseSimpleCommandTokens`, for at most `fuel` turns: the
words and redirections up to an operator. -/
def takeCommand : Nat → List SyntaxWord → List Redirect → List Token →
    Except SyntaxError (List SyntaxWord × List Redirect × List Token)
  | 0, words, redirects, tokens => .ok (words, redirects, tokens)
  | _, words, redirects, [] => .ok (words, redirects, [])
  | _, words, redirects, .operator op :: rest => .ok (words, redirects, .operator op :: rest)
  | fuel + 1, words, redirects, .redirect op :: rest =>
    if maxRedirectionsPerCommand ≤ redirects.length then .error .tooManyRedirections
    else match parseRedirect op rest with
      | .error e => .error e
      | .ok (r, rest) => takeCommand fuel words (redirects ++ [r]) rest
  | fuel + 1, words, redirects, .word w :: rest => takeCommand fuel (words ++ [w]) redirects rest

/-- The second loop: the assignments before the name, and the words after them. -/
def takeAssignments : List SyntaxWord → Except SyntaxError (List Bytes × List SyntaxWord)
  | [] => .ok ([], [])
  | w :: words =>
    if isEnvAssignment w.text then
      match validateLiteralEnvAssignment w with
      | .error e => .error e
      | .ok () => (takeAssignments words).map fun (envs, rest) => (w.text :: envs, rest)
    else .ok ([], w :: words)

/-- The command of the words after the assignments. -/
def SimpleCommand.ofWords (envs : List Bytes) (redirects : List Redirect) :
    List SyntaxWord → SimpleCommand
  | [] => { envAssignments := envs, redirects := redirects }
  | w :: args =>
    { envAssignments := envs, name := w.text, nameWord := w, args := args.map (·.text)
      argWords := args, redirects := redirects }

/-- `parseSimpleCommandTokens`. -/
def parseSimpleCommandTokens (tokens : List Token) :
    Except SyntaxError (SimpleCommand × List Token) :=
  match takeCommand tokens.length [] [] tokens with
  | .error e => .error e
  | .ok (words, redirects, rest) =>
    match takeAssignments words with
    | .error e => .error e
    | .ok (envs, words) =>
      let cmd := SimpleCommand.ofWords envs redirects words
      if cmd.name = [] ∧ cmd.envAssignments = [] ∧ cmd.redirects ≠ [] then
        .error .redirectionWithoutCommand
      else .ok (cmd, rest)

/-- The tokens start with one that a command can start with. -/
def atCommand : List Token → Bool
  | [] | .operator _ :: _ => false
  | _ => true

/-- The loop of `parsePipelineTokens`, for at most `fuel` turns. -/
def parsePipelineFrom : Nat → Pipeline → List Token → Except SyntaxError (Pipeline × List Token)
  | 0, p, tokens => .ok (p, tokens)
  | fuel + 1, p, tokens =>
    if !atCommand tokens then .error .missingCommand
    else match parseSimpleCommandTokens tokens with
      | .error e => .error e
      | .ok (cmd, rest) =>
        let p := { p with parts := p.parts ++ [cmd] }
        match rest with
        | [] | .operator .and :: _ | .operator .or :: _ => .ok (p, rest)
        | .operator .pipe :: rest =>
          parsePipelineFrom fuel { p with operators := p.operators ++ [.pipe] } rest
        | _ => .error .unexpectedToken

def parsePipelineTokens (tokens : List Token) : Except SyntaxError (Pipeline × List Token) :=
  parsePipelineFrom (tokens.length + 1) {} tokens

/-- The loop of `parseShellLine`, for at most `fuel` turns. -/
def parseLineFrom : Nat → ShellLine → List Token → Except SyntaxError ShellLine
  | 0, line, _ => .ok line
  | fuel + 1, line, tokens =>
    match parsePipelineTokens tokens with
    | .error e => .error e
    | .ok (p, rest) =>
      let line := { line with pipelines := line.pipelines ++ [p] }
      match rest with
      | [] => .ok line
      | .operator op :: rest =>
        if op = .pipe then .error .expectedLogicalOperator
        else if rest = [] then .error .missingCommandAfterLogicalOperator
        else parseLineFrom fuel { line with operators := line.operators ++ [op] } rest
      | _ => .error .expectedLogicalOperator

/-- `parseShellLine` once the segment is cut into tokens. -/
def parseTokens (tokens : List Token) : Except SyntaxError ShellLine :=
  if tokens = [] then .ok {} else parseLineFrom (tokens.length + 1) {} tokens

/-- `parseShellLine`. -/
def parseShellLine (segment : Bytes) : Except SyntaxError ShellLine :=
  match tokenizeShellSegment segment with
  | .error e => .error e
  | .ok tokens => parseTokens tokens

end FakeSSH.Shell
