import FakeSSH.Go.Match

/-!
# What `path.Match` documents

The package documents a pattern as a sequence of terms: `*`, `?`, a class in brackets, a
character, and a character behind a backslash. `readPattern` reads a pattern by that
grammar, with `none` for a bad pattern, and `Matches` is what it says of the terms. A
literal term is a byte here. The characters that `?`, `*` and a class match are those
that decoding finds, a byte that is no part of a rune being one of its own.
-/

namespace FakeSSH.Go

inductive GlobTerm where
  | many
  | any
  | oneOf (negated : Bool) (ranges : List (Nat × Nat))
  | literal (c : UInt8)
  deriving DecidableEq, Repr

/-! ## The grammar -/

/-- A character of a class: one that is not `-` or `]`, or any behind a backslash. -/
def readClassChar : Bytes → Option (Nat × Bytes)
  | [] => none
  | c :: rest =>
    if c = hyphen ∨ c = closeBracket then none
    else
      let chars := if c = backslash then rest else c :: rest
      if chars = [] then none else some ((decodeRune chars).1, chars.drop (decodeRune chars).2)

/-- `c` or `lo-hi`. -/
def readRange (p : Bytes) : Option ((Nat × Nat) × Bytes) := do
  let (lo, p) ← readClassChar p
  if p.head? = some hyphen then
    let (hi, p) ← readClassChar p.tail
    some ((lo, hi), p)
  else some ((lo, lo), p)

/-- The ranges of a class, one or more, up to the `]`. -/
def readClass : Nat → Bytes → Option (List (Nat × Nat) × Bytes)
  | 0, _ => none
  | fuel + 1, p => do
    let (range, p) ← readRange p
    if p.head? = some closeBracket then some ([range], p.tail)
    else
      let (ranges, p) ← readClass fuel p
      some (range :: ranges, p)

/-- The terms of a pattern, with the pattern's length for fuel. -/
def readFrom : Nat → Bytes → Option (List GlobTerm)
  | _, [] => some []
  | 0, _ :: _ => none
  | fuel + 1, c :: p =>
    if c = star then (readFrom fuel p).map (.many :: ·)
    else if c = question then (readFrom fuel p).map (.any :: ·)
    else if c = backslash then do
      let e ← p.head?
      (readFrom fuel p.tail).map (.literal e :: ·)
    else if c = openBracket then do
      let negated := decide (p.head? = some caret)
      let (ranges, p) ← readClass p.length (if negated then p.tail else p)
      (readFrom fuel p).map (.oneOf negated ranges :: ·)
    else (readFrom fuel p).map (.literal c :: ·)

def readPattern (p : Bytes) : Option (List GlobTerm) := readFrom p.length p

/-! ## Matching -/

/-- The text behind the first character. -/
def behindChar (s : Bytes) : Bytes := s.drop (decodeRune s).2

/-- A name matches a sequence of terms. -/
inductive Matches : List GlobTerm → Bytes → Prop
  | nil : Matches [] []
  | literal (c : UInt8) {ts : List GlobTerm} {s : Bytes} :
      Matches ts s → Matches (.literal c :: ts) (c :: s)
  | any {b : UInt8} {ts : List GlobTerm} {s : Bytes} :
      b ≠ slash → Matches ts (behindChar (b :: s)) → Matches (.any :: ts) (b :: s)
  | oneOf {negated : Bool} {ranges : List (Nat × Nat)} {b : UInt8} {ts : List GlobTerm}
    {s : Bytes} :
      ((ranges.any fun x => x.1 ≤ (decodeRune (b :: s)).1 ∧ (decodeRune (b :: s)).1 ≤ x.2) ≠
        negated) →
        Matches ts (behindChar (b :: s)) → Matches (.oneOf negated ranges :: ts) (b :: s)
  | none {ts : List GlobTerm} {s : Bytes} : Matches ts s → Matches (.many :: ts) s
  | more {b : UInt8} {ts : List GlobTerm} {s : Bytes} :
      b ≠ slash → Matches (.many :: ts) (behindChar (b :: s)) → Matches (.many :: ts) (b :: s)

/-! ## Spelling terms -/

/-- A byte of a pattern and whether it is to be a wildcard, as it is spelled: what is
special and no wildcard stands behind a backslash. -/
def spellByte (x : UInt8 × Bool) : Bytes :=
  if x.1 = openBracket ∨ x.1 = closeBracket ∨ x.1 = backslash ∨
      ((x.1 = star ∨ x.1 = question) ∧ !x.2) then [backslash, x.1]
  else [x.1]

/-- The term that is meant. -/
def termOf (x : UInt8 × Bool) : GlobTerm :=
  if x.2 = true ∧ x.1 = star then .many
  else if x.2 = true ∧ x.1 = question then .any
  else .literal x.1

theorem spellByte_length (x : UInt8 × Bool) : 1 ≤ (spellByte x).length := by
  unfold spellByte
  split
  · exact Nat.le_add_left 1 1
  · exact Nat.le_refl 1

/-- The three spellings. -/
theorem spellByte_cases (x : UInt8 × Bool) :
    spellByte x = [star] ∧ termOf x = .many ∨ spellByte x = [question] ∧ termOf x = .any ∨
      spellByte x = [backslash, x.1] ∧ termOf x = .literal x.1 ∨
      spellByte x = [x.1] ∧ termOf x = .literal x.1 ∧ x.1 ≠ star ∧ x.1 ≠ question ∧
        x.1 ≠ backslash ∧ x.1 ≠ openBracket := by
  obtain ⟨c, wild⟩ := x
  unfold spellByte termOf
  dsimp only
  by_cases many : c = star
  · subst many
    cases wild with
    | true => exact .inl ⟨rfl, rfl⟩
    | false => exact .inr (.inr (.inl ⟨rfl, rfl⟩))
  by_cases one : c = question
  · subst one
    cases wild with
    | true => exact .inr (.inl ⟨rfl, rfl⟩)
    | false => exact .inr (.inr (.inl ⟨rfl, rfl⟩))
  have notMany : ¬(wild = true ∧ c = star) := fun h => many h.2
  have notOne : ¬(wild = true ∧ c = question) := fun h => one h.2
  rw [if_neg notMany, if_neg notOne]
  split
  next => exact .inr (.inr (.inl ⟨rfl, rfl⟩))
  next plain =>
    rw [not_or, not_or, not_or] at plain
    exact .inr (.inr (.inr ⟨rfl, rfl, many, one, plain.2.2.1, plain.1⟩))

/-- What is spelled is read as it is meant, term by term. -/
theorem readFrom_spelled (xs : List (UInt8 × Bool)) {fuel : Nat}
    (enough : (xs.flatMap spellByte).length ≤ fuel) :
    readFrom fuel (xs.flatMap spellByte) = some (xs.map termOf) := by
  induction xs generalizing fuel with
  | nil => cases fuel <;> rfl
  | cons x xs ih =>
    rw [List.flatMap_cons, List.length_append] at enough
    have first := spellByte_length x
    obtain ⟨fuel, rfl⟩ : ∃ n, fuel = n + 1 := Nat.exists_eq_add_one.2 (by omega)
    have rest : readFrom fuel (xs.flatMap spellByte) = some (xs.map termOf) := ih (by omega)
    rw [List.flatMap_cons, List.map_cons]
    rcases spellByte_cases x with ⟨spelled, term⟩ | ⟨spelled, term⟩ | ⟨spelled, term⟩ |
        ⟨spelled, term, many, one, back, bracket⟩
    · rw [spelled, term, List.singleton_append, readFrom, if_pos rfl, rest]
      rfl
    · rw [spelled, term, List.singleton_append, readFrom, if_neg (by decide), if_pos rfl, rest]
      rfl
    · rw [spelled, term, List.cons_append, List.singleton_append, readFrom, if_neg (by decide),
        if_neg (by decide), if_pos rfl, List.tail_cons, rest]
      rfl
    · rw [spelled, term, List.singleton_append, readFrom, if_neg many, if_neg one, if_neg back,
        if_neg bracket, rest]
      rfl

theorem readPattern_spelled (xs : List (UInt8 × Bool)) :
    readPattern (xs.flatMap spellByte) = some (xs.map termOf) :=
  readFrom_spelled xs (Nat.le_refl _)

end FakeSSH.Go
