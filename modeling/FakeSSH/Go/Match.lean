import FakeSSH.Go.Strings

/-!
# Shell patterns (`path.Match`)

A pattern is cut at its stars into chunks. A chunk is matched at a place of the name,
and after a star at the first later place where it matches. The answer `none` is
`ErrBadPattern`. Every turn of a loop over a pattern takes a byte of it, so the
pattern's length bounds the turns.
-/

namespace FakeSSH.Go

def star : UInt8 := 0x2A
def question : UInt8 := 0x3F
def openBracket : UInt8 := 0x5B
def closeBracket : UInt8 := 0x5D
def caret : UInt8 := 0x5E
def hyphen : UInt8 := 0x2D

/-- `getEsc`: a rune of a class, and the rest of the chunk. -/
def getEsc : Bytes → Option (Nat × Bytes)
  | [] => none
  | c :: rest =>
    if c = hyphen ∨ c = closeBracket then none
    else
      let chunk := if c = backslash then rest else c :: rest
      let (r, n) := decodeRune chunk
      if chunk = [] ∨ (r = runeError ∧ n = 1) ∨ chunk.drop n = [] then none
      else some (r, chunk.drop n)

/-- The ranges of a class up to its `]`: whether `r` is in one, and what follows. -/
def matchRanges : Nat → Nat → Bool → Bool → Bytes → Option (Bool × Bytes)
  | 0, _, _, _, _ => none
  | fuel + 1, r, started, found, chunk =>
    if started && chunk.head? = some closeBracket then some (found, chunk.tail)
    else do
      let (lo, chunk) ← getEsc chunk
      let (hi, chunk) ← if chunk.head? = some hyphen then getEsc chunk.tail else some (lo, chunk)
      matchRanges fuel r true (found || (decide (lo ≤ r) && decide (r ≤ hi))) chunk

/-- The loop of `matchChunk`. It reads the chunk to its end also when the match has
failed, to see that it is well formed. -/
def matchChunkFrom : Nat → Bool → Bytes → Bytes → Option (Option Bytes)
  | _, failed, [], s => some (if failed then none else some s)
  | 0, _, _ :: _, _ => none
  | fuel + 1, failed, c :: chunk, s =>
    let failed := failed || decide (s = [])
    let literal := fun (c : UInt8) (chunk : Bytes) =>
      if failed then matchChunkFrom fuel true chunk s
      else matchChunkFrom fuel (decide (s.head? ≠ some c)) chunk s.tail
    if c = openBracket then
      let (r, s) := if failed then (0, s) else ((decodeRune s).1, s.drop (decodeRune s).2)
      let negated := decide (chunk.head? = some caret)
      match matchRanges (chunk.length + 1) r false false (if negated then chunk.tail else chunk) with
      | none => none
      | some (found, chunk) => matchChunkFrom fuel (failed || found == negated) chunk s
    else if c = question then
      if failed then matchChunkFrom fuel true chunk s
      else matchChunkFrom fuel (decide (s.head? = some slash)) chunk (s.drop (decodeRune s).2)
    else if c = backslash then
      match chunk with
      | [] => none
      | e :: chunk => literal e chunk
    else literal c chunk

/-- `matchChunk`: what is left of `s` after the chunk, if the chunk matches. -/
def matchChunk (chunk s : Bytes) : Option (Option Bytes) :=
  matchChunkFrom chunk.length false chunk s

/-- The scan of `scanChunk`, up to a star outside a class. -/
def splitChunk : Bool → Bytes → Bytes × Bytes
  | _, [] => ([], [])
  | inRange, c :: rest =>
    if c = backslash then
      match rest with
      | [] => ([c], [])
      | e :: rest => (splitChunk inRange rest).map (fun chunk => c :: e :: chunk) id
    else if c = star ∧ inRange = false then ([], c :: rest)
    else
      (splitChunk (c = openBracket || (inRange && c ≠ closeBracket)) rest).map (c :: ·) id

/-- `scanChunk`: whether a star comes first, the chunk, and the rest of the pattern. -/
def scanChunk (pattern : Bytes) : Bool × Bytes × Bytes :=
  (decide (pattern.head? = some star), splitChunk false (pattern.dropWhile (· = star)))

/-- The first place after a star at which the chunk matches; the last chunk has to
match up to the end. -/
def skipToChunk (chunk : Bytes) (last : Bool) : Bytes → Option (Option Bytes)
  | [] => some none
  | c :: name =>
    if c = slash then some none
    else match matchChunk chunk name with
      | none => none
      | some (some t) => if last && t ≠ [] then skipToChunk chunk last name else some (some t)
      | some none => skipToChunk chunk last name

/-- A failed match reads the rest of the pattern too. -/
def failMatch : Nat → Bytes → Option Bool
  | 0, _ => some false
  | _, [] => some false
  | fuel + 1, pattern =>
    let (_, chunk, rest) := scanChunk pattern
    match matchChunk chunk [] with
    | none => none
    | some _ => failMatch fuel rest

/-- The loop of `path.Match`. -/
def matchFrom : Nat → Bytes → Bytes → Option Bool
  | _, [], name => some (decide (name = []))
  | 0, _ :: _, _ => some false
  | fuel + 1, pattern, name =>
    let (starred, chunk, rest) := scanChunk pattern
    if starred && chunk = [] then some (!name.contains slash)
    else
      match matchChunk chunk name with
      | none => none
      | some t =>
        match t.filter fun t => t = [] || rest ≠ [] with
        | some t => matchFrom fuel rest t
        | none =>
          if starred then
            match skipToChunk chunk (rest = []) name with
            | none => none
            | some (some t) => matchFrom fuel rest t
            | some none => failMatch rest.length rest
          else failMatch rest.length rest

/-- `path.Match`. -/
def pathMatch (pattern name : Bytes) : Option Bool := matchFrom pattern.length pattern name

end FakeSSH.Go
