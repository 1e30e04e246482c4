import FakeSSH.Go.Glob

/-!
# `path.Match` on plain names

For a name in ASCII that has no slash the matcher does what the grammar says of a
spelled pattern. Its search takes the first place after a star at which a chunk matches
and never comes back to it; that place leaves the most of the name, and what is behind
the chunk starts with a star, which can take the rest.
-/

namespace FakeSSH.Go

/-- The byte is a star that is meant as one. -/
def isMany (x : UInt8 × Bool) : Bool := x.2 && x.1 == star

/-- A name in ASCII without a slash. -/
def Plain (name : Bytes) : Prop := ∀ b ∈ name, b < 0x80 ∧ b ≠ slash

/-! ## Terms -/

section Terms

variable {ts : List GlobTerm} {s : Bytes} {b c : UInt8}

theorem behindChar_ascii (ascii : b < 0x80) : behindChar (b :: s) = s := by
  have width : decodeRune (b :: s) = (b.toNat, 1) := if_pos ascii
  rw [behindChar, width]
  rfl

theorem Plain.tail (plain : Plain (b :: s)) : Plain s :=
  fun x hx => plain x (List.mem_cons_of_mem b hx)

theorem Plain.suffix {v : Bytes} (plain : Plain s) (part : v <:+ s) : Plain v :=
  fun x hx => plain x (part.mem hx)

theorem matches_nil_iff : Matches [] s ↔ s = [] := by
  constructor
  · intro h
    cases h
    rfl
  · rintro rfl
    exact .nil

theorem matches_any_iff (plain : Plain (b :: s)) :
    Matches (.any :: ts) (b :: s) ↔ Matches ts s := by
  obtain ⟨ascii, noSlash⟩ := plain b List.mem_cons_self
  constructor
  · intro h
    cases h with
    | any _ rest =>
      rw [behindChar_ascii ascii] at rest
      exact rest
  · intro h
    exact .any noSlash ((behindChar_ascii ascii).symm ▸ h)

theorem matches_literal_iff : Matches (.literal c :: ts) (b :: s) ↔ b = c ∧ Matches ts s := by
  constructor
  · intro h
    cases h with
    | literal _ rest => exact ⟨rfl, rest⟩
  · rintro ⟨rfl, h⟩
    exact .literal b h

/-- A star takes any part of a plain name. -/
theorem matches_many_iff (plain : Plain s) :
    Matches (.many :: ts) s ↔ ∃ v, v <:+ s ∧ Matches ts v := by
  induction s with
  | nil =>
    constructor
    · intro h
      cases h with
      | none rest => exact ⟨[], List.suffix_refl [], rest⟩
    · rintro ⟨v, part, h⟩
      obtain rfl := List.suffix_nil.1 part
      exact .none h
  | cons b s ih =>
    obtain ⟨ascii, noSlash⟩ := plain b List.mem_cons_self
    constructor
    · intro h
      cases h with
      | none rest => exact ⟨b :: s, List.suffix_refl _, rest⟩
      | more _ rest =>
        rw [behindChar_ascii ascii] at rest
        obtain ⟨v, part, h⟩ := (ih plain.tail).1 rest
        exact ⟨v, part.trans (List.suffix_cons b s), h⟩
    · rintro ⟨v, part, h⟩
      rcases List.suffix_cons_iff.1 part with rfl | part
      · exact .none h
      · exact .more noSlash ((behindChar_ascii ascii).symm ▸ (ih plain.tail).2 ⟨v, part, h⟩)

/-- What a star matches with less of the name it matches with more of it. -/
theorem Matches.many_more {v : Bytes} (h : Matches (.many :: ts) v) (plain : Plain s)
    (part : v <:+ s) :
    Matches (.many :: ts) s := by
  obtain ⟨w, inner, rest⟩ := (matches_many_iff (plain.suffix part)).1 h
  exact (matches_many_iff plain).2 ⟨w, inner.trans part, rest⟩

end Terms

/-! ## Chunks -/

section Chunks

variable {x : UInt8 × Bool} {xs ys : List (UInt8 × Bool)} {s t name : Bytes}

/-- What is left of a name behind the bytes of a chunk. -/
def eat : List (UInt8 × Bool) → Bytes → Option Bytes
  | [], s => some s
  | _ :: _, [] => none
  | x :: xs, b :: s => if termOf x = .any ∨ termOf x = .literal b then eat xs s else none

theorem isMany_iff : isMany x = true ↔ termOf x = .many := by
  unfold isMany termOf
  rw [Bool.and_eq_true, beq_iff_eq]
  split
  next h => exact ⟨fun _ => rfl, fun _ => h⟩
  next h =>
    refine ⟨fun h' => absurd h' h, fun h' => ?_⟩
    split at h' <;> cases h'

theorem spellByte_many (h : isMany x = true) : spellByte x = [star] := by
  have term := isMany_iff.1 h
  rcases spellByte_cases x with ⟨spelled, _⟩ | ⟨_, other⟩ | ⟨_, other⟩ | ⟨_, other, _⟩
  · exact spelled
  all_goals exact absurd (term.symm.trans other) nofun

/-- The spellings of what is no star. -/
theorem spellByte_step (h : isMany x = false) :
    spellByte x = [question] ∧ termOf x = .any ∨
      spellByte x = [backslash, x.1] ∧ termOf x = .literal x.1 ∨
      spellByte x = [x.1] ∧ termOf x = .literal x.1 ∧ x.1 ≠ star ∧ x.1 ≠ question ∧
        x.1 ≠ backslash ∧ x.1 ≠ openBracket := by
  rcases spellByte_cases x with ⟨_, term⟩ | rest
  · exact absurd (isMany_iff.2 term) (h ▸ Bool.false_ne_true)
  · exact rest

theorem eat_suffix (h : eat xs s = some t) : t <:+ s ∧ s.length = xs.length + t.length := by
  induction xs generalizing s with
  | nil =>
    obtain rfl := Option.some.inj h
    exact ⟨List.suffix_refl s, (Nat.zero_add _).symm⟩
  | cons x xs ih =>
    cases s with
    | nil => cases h
    | cons b s =>
      rw [eat] at h
      split at h
      · obtain ⟨part, same⟩ := ih h
        exact ⟨part.trans (List.suffix_cons b s), by
          rw [List.length_cons, List.length_cons, same, Nat.add_right_comm]⟩
      · cases h

/-- An earlier place leaves more of the name. -/
theorem eat_earlier {v t' : Bytes} (h : eat xs s = some t) (part : v <:+ s)
    (h' : eat xs v = some t') :
    t' <:+ t := by
  obtain ⟨inside, long⟩ := eat_suffix h
  obtain ⟨inside', long'⟩ := eat_suffix h'
  have shorter := part.length_le
  exact List.suffix_of_suffix_length_le (inside'.trans part) inside (by omega)

/-- A chunk at the front of a pattern. -/
theorem matches_chunk_iff (steps : ∀ x ∈ xs, isMany x = false) (plain : Plain s) :
    Matches ((xs ++ ys).map termOf) s ↔ ∃ t, eat xs s = some t ∧ Matches (ys.map termOf) t := by
  induction xs generalizing s with
  | nil => exact ⟨fun h => ⟨s, rfl, h⟩, fun ⟨_, left, h⟩ => Option.some.inj left ▸ h⟩
  | cons x xs ih =>
    have step := steps x List.mem_cons_self
    have more := fun y hy => steps y (List.mem_cons_of_mem x hy)
    rw [List.cons_append, List.map_cons]
    cases s with
    | nil =>
      constructor
      · intro h
        rcases spellByte_step step with ⟨_, term⟩ | ⟨_, term⟩ | ⟨_, term, _⟩ <;>
          · rw [term] at h
            cases h
      · rintro ⟨_, left, _⟩
        cases left
    | cons b s =>
      have rest := ih (s := s) more plain.tail
      rw [eat]
      rcases spellByte_step step with ⟨_, term⟩ | ⟨_, term⟩ | ⟨_, term, _⟩
      · rw [term, matches_any_iff plain, if_pos (.inl rfl)]
        exact rest
      all_goals
        rw [term, matches_literal_iff, rest]
        by_cases same : b = x.1
        · rw [if_pos (.inr (congrArg _ same.symm))]
          exact ⟨And.right, .intro same⟩
        · rw [if_neg (by rintro (h | h) <;> cases h; exact same rfl)]
          exact ⟨fun h => absurd h.1 same, fun ⟨_, h, _⟩ => nomatch h⟩

/-! ### The loops of the matcher -/

theorem matchChunkFrom_question (fuel : Nat) (failed : Bool) (chunk : Bytes) :
    matchChunkFrom (fuel + 1) failed (question :: chunk) s =
      if failed || decide (s = []) then matchChunkFrom fuel true chunk s
      else matchChunkFrom fuel (decide (s.head? = some slash)) chunk (s.drop (decodeRune s).2) := by
  rw [matchChunkFrom.eq_def]
  dsimp only
  rw [if_neg (by decide), if_pos rfl]

theorem matchChunkFrom_escaped (fuel : Nat) (failed : Bool) (c : UInt8) (chunk : Bytes) :
    matchChunkFrom (fuel + 1) failed (backslash :: c :: chunk) s =
      if failed || decide (s = []) then matchChunkFrom fuel true chunk s
      else matchChunkFrom fuel (decide (s.head? ≠ some c)) chunk s.tail := by
  rw [matchChunkFrom.eq_def]
  dsimp only
  rw [if_neg (by decide), if_neg (by decide), if_pos rfl]

theorem matchChunkFrom_plain (fuel : Nat) (failed : Bool) {c : UInt8} (chunk : Bytes)
    (bracket : c ≠ openBracket) (one : c ≠ question) (back : c ≠ backslash) :
    matchChunkFrom (fuel + 1) failed (c :: chunk) s =
      if failed || decide (s = []) then matchChunkFrom fuel true chunk s
      else matchChunkFrom fuel (decide (s.head? ≠ some c)) chunk s.tail := by
  rw [matchChunkFrom.eq_def]
  dsimp only
  rw [if_neg bracket, if_neg one, if_neg back]

/-- A byte of the chunk when the match has failed or the name has ended. -/
theorem matchChunkFrom_failed (step : isMany x = false) (fuel : Nat) {failed : Bool}
    (idle : (failed || decide (s = [])) = true) (chunk : Bytes) :
    matchChunkFrom (fuel + 1) failed (spellByte x ++ chunk) s =
      matchChunkFrom fuel true chunk s := by
  rcases spellByte_step step with ⟨spelled, _⟩ | ⟨spelled, _⟩ | ⟨spelled, _, _, one, back, bracket⟩
  · rw [spelled, List.singleton_append, matchChunkFrom_question, if_pos idle]
  · rw [spelled, List.cons_append, List.singleton_append, matchChunkFrom_escaped, if_pos idle]
  · rw [spelled, List.singleton_append, matchChunkFrom_plain _ _ _ bracket one back, if_pos idle]

/-- A byte of the chunk against a byte of the name. -/
theorem matchChunkFrom_step (step : isMany x = false) (fuel : Nat) {b : UInt8}
    (plain : Plain (b :: s)) (chunk : Bytes) :
    matchChunkFrom (fuel + 1) false (spellByte x ++ chunk) (b :: s) =
      matchChunkFrom fuel (!decide (termOf x = .any ∨ termOf x = .literal b)) chunk s := by
  obtain ⟨ascii, noSlash⟩ := plain b List.mem_cons_self
  have left : ¬(false || decide (b :: s = [])) = true := Bool.false_ne_true
  rcases spellByte_step step with ⟨spelled, term⟩ | ⟨spelled, term⟩ |
      ⟨spelled, term, _, one, back, bracket⟩
  · have other : decide ((b :: s).head? = some slash) = false :=
      decide_eq_false fun h => noSlash (Option.some.inj h)
    have behind : (b :: s).drop (decodeRune (b :: s)).2 = s := behindChar_ascii ascii
    rw [spelled, term, List.singleton_append, matchChunkFrom_question, if_neg left, other, behind]
    rfl
  all_goals
    have same : decide ((b :: s).head? ≠ some x.1) =
        !decide (GlobTerm.literal x.1 = .any ∨ GlobTerm.literal x.1 = .literal b) := by
      rw [← decide_not]
      refine decide_eq_decide.2 (not_congr ⟨fun h => .inr ?_, fun h => ?_⟩)
      · exact congrArg _ (Option.some.inj h).symm
      · rcases h with h | h
        · cases h
        · exact congrArg some (GlobTerm.literal.inj h).symm
  · rw [spelled, term, List.cons_append, List.singleton_append, matchChunkFrom_escaped,
      if_neg left, same]
    rfl
  · rw [spelled, term, List.singleton_append, matchChunkFrom_plain _ _ _ bracket one back,
      if_neg left, same]
    rfl

theorem matchChunkFrom_spelled (steps : ∀ x ∈ xs, isMany x = false) (plain : Plain s) {fuel : Nat}
    (enough : (xs.flatMap spellByte).length ≤ fuel) (failed : Bool) :
    matchChunkFrom fuel failed (xs.flatMap spellByte) s =
      some (if failed then none else eat xs s) := by
  induction xs generalizing fuel failed s with
  | nil => cases fuel <;> rfl
  | cons x xs ih =>
    have step := steps x List.mem_cons_self
    have more := fun y hy => steps y (List.mem_cons_of_mem x hy)
    rw [List.flatMap_cons, List.length_append] at enough
    have first := spellByte_length x
    obtain ⟨fuel, rfl⟩ : ∃ n, fuel = n + 1 := Nat.exists_eq_add_one.2 (by omega)
    rw [List.flatMap_cons]
    by_cases idle : (failed || decide (s = [])) = true
    · rw [matchChunkFrom_failed step fuel idle, ih more plain (by omega), if_pos rfl]
      rcases Bool.or_eq_true_iff.1 idle with failed | ended
      · rw [if_pos failed]
      · rw [of_decide_eq_true ended, eat, ite_self]
    · rw [Bool.not_eq_true, Bool.or_eq_false_iff] at idle
      obtain ⟨rfl, left⟩ := idle
      cases s with
      | nil => cases left
      | cons b s =>
        rw [matchChunkFrom_step step fuel plain, ih more plain.tail (by omega), eat]
        by_cases fits : termOf x = .any ∨ termOf x = .literal b
        · rw [decide_eq_true fits, if_pos fits]
          rfl
        · rw [decide_eq_false fits, if_neg fits]
          rfl

theorem matchChunk_spelled (steps : ∀ x ∈ xs, isMany x = false) (plain : Plain s) :
    matchChunk (xs.flatMap spellByte) s = some (eat xs s) :=
  matchChunkFrom_spelled steps plain (Nat.le_refl _) false

theorem splitChunk_star (p : Bytes) : splitChunk false (star :: p) = ([], star :: p) := by
  rw [splitChunk.eq_def]
  dsimp only
  rw [if_neg (by decide), if_pos ⟨rfl, rfl⟩]

theorem splitChunk_escaped (c : UInt8) (p : Bytes) :
    splitChunk false (backslash :: c :: p) =
      (splitChunk false p).map (fun chunk => backslash :: c :: chunk) id := by
  rw [splitChunk.eq_def]
  dsimp only
  rw [if_pos rfl]

theorem splitChunk_other {c : UInt8} (many : c ≠ star) (back : c ≠ backslash)
    (bracket : c ≠ openBracket) (p : Bytes) :
    splitChunk false (c :: p) = (splitChunk false p).map (c :: ·) id := by
  rw [splitChunk.eq_def]
  dsimp only
  rw [if_neg back, if_neg fun h => many h.1, decide_eq_false bracket]
  rfl

/-- The scan stops at the first star that is meant as one. -/
theorem splitChunk_spelled (xs : List (UInt8 × Bool)) :
    splitChunk false (xs.flatMap spellByte) =
      ((xs.takeWhile (!isMany ·)).flatMap spellByte,
        (xs.dropWhile (!isMany ·)).flatMap spellByte) := by
  induction xs with
  | nil => rfl
  | cons x xs ih =>
    cases many : isMany x with
    | true =>
      rw [List.takeWhile_cons_of_neg (by simp [many]), List.dropWhile_cons_of_neg (by simp [many]),
        List.flatMap_cons, spellByte_many many, List.singleton_append, splitChunk_star]
      rfl
    | false =>
      rw [List.takeWhile_cons_of_pos (by simp [many]), List.dropWhile_cons_of_pos (by simp [many]),
        List.flatMap_cons, List.flatMap_cons]
      rcases spellByte_step many with ⟨spelled, _⟩ | ⟨spelled, _⟩ |
          ⟨spelled, _, noStar, _, back, bracket⟩
      · rw [spelled, List.singleton_append,
          splitChunk_other (by decide) (by decide) (by decide), ih]
        rfl
      · rw [spelled, List.cons_append, List.singleton_append, splitChunk_escaped, ih]
        rfl
      · rw [spelled, List.singleton_append, splitChunk_other noStar back bracket, ih]
        rfl

/-- What is no star is spelled by bytes of which the first is no star. -/
theorem spellByte_head (h : isMany x = false) : ∃ c rest, spellByte x = c :: rest ∧ c ≠ star := by
  rcases spellByte_step h with ⟨spelled, _⟩ | ⟨spelled, _⟩ | ⟨spelled, _, noStar, _⟩
  · exact ⟨question, [], spelled, by decide⟩
  · exact ⟨backslash, [x.1], spelled, by decide⟩
  · exact ⟨x.1, [], spelled, noStar⟩

theorem dropStars_spelled (xs : List (UInt8 × Bool)) :
    (xs.flatMap spellByte).dropWhile (· = star) = (xs.dropWhile isMany).flatMap spellByte := by
  induction xs with
  | nil => rfl
  | cons x xs ih =>
    cases many : isMany x with
    | true =>
      rw [List.dropWhile_cons_of_pos many, List.flatMap_cons, spellByte_many many,
        List.singleton_append, List.dropWhile_cons_of_pos (by decide), ih]
    | false =>
      obtain ⟨c, rest, spelled, noStar⟩ := spellByte_head many
      rw [List.dropWhile_cons_of_neg (by simp [many]), List.flatMap_cons, spelled, List.cons_append,
        List.dropWhile_cons_of_neg (by simpa using noStar)]

theorem startsStarred_spelled (xs : List (UInt8 × Bool)) :
    decide ((xs.flatMap spellByte).head? = some star) = xs.head?.any isMany := by
  cases xs with
  | nil => rfl
  | cons x xs =>
    cases many : isMany x with
    | true =>
      rw [List.flatMap_cons, spellByte_many many, List.head?_cons, Option.any_some, many]
      rfl
    | false =>
      obtain ⟨c, rest, spelled, noStar⟩ := spellByte_head many
      rw [List.flatMap_cons, spelled, List.head?_cons, Option.any_some, many]
      exact decide_eq_false fun h => noStar (Option.some.inj h)

/-- The chunk of a pattern behind its stars, and the pattern behind the chunk. -/
def chunkOf (xs : List (UInt8 × Bool)) : List (UInt8 × Bool) :=
  (xs.dropWhile isMany).takeWhile (!isMany ·)
def behindChunk (xs : List (UInt8 × Bool)) : List (UInt8 × Bool) :=
  (xs.dropWhile isMany).dropWhile (!isMany ·)

theorem scanChunk_spelled (xs : List (UInt8 × Bool)) :
    scanChunk (xs.flatMap spellByte) =
      (xs.head?.any isMany, (chunkOf xs).flatMap spellByte,
        (behindChunk xs).flatMap spellByte) := by
  rw [scanChunk, dropStars_spelled, startsStarred_spelled, splitChunk_spelled]
  rfl

theorem spelled_length (xs : List (UInt8 × Bool)) : xs.length ≤ (xs.flatMap spellByte).length := by
  induction xs with
  | nil => exact Nat.le_refl 0
  | cons x xs ih =>
    have first := spellByte_length x
    rw [List.flatMap_cons, List.length_append, List.length_cons]
    omega

theorem spelled_eq_nil : xs.flatMap spellByte = [] ↔ xs = [] := by
  constructor
  · intro h
    cases xs with
    | nil => rfl
    | cons x xs =>
      have first := spellByte_length x
      rw [List.flatMap_cons, List.append_eq_nil_iff] at h
      rw [h.1] at first
      exact absurd first (by decide)
  · rintro rfl
    rfl

theorem chunkOf_steps (h : x ∈ chunkOf xs) : isMany x = false := by
  have step : (!isMany x) = true := List.all_eq_true.1 List.all_takeWhile x h
  exact (Bool.not_eq_eq_eq_not ..).1 step

theorem behindChunk_cases (xs : List (UInt8 × Bool)) :
    behindChunk xs = [] ∨ ∃ y ys, behindChunk xs = y :: ys ∧ isMany y = true := by
  have first := List.head?_dropWhile_not (!isMany ·) (xs.dropWhile isMany)
  cases h : behindChunk xs with
  | nil => exact .inl rfl
  | cons y ys =>
    rw [← behindChunk, h] at first
    exact .inr ⟨y, ys, rfl, by simpa using first⟩

theorem behindChunk_shorter (full : xs ≠ []) : (behindChunk xs).length < xs.length := by
  cases xs with
  | nil => exact absurd rfl full
  | cons x xs =>
    have inner : ∀ ys, ys <:+ xs → (ys.dropWhile (!isMany ·)).length < (x :: xs).length :=
      fun ys part =>
      Nat.lt_succ_of_le ((List.dropWhile_suffix _).trans part).length_le
    cases many : isMany x with
    | true =>
      rw [behindChunk, List.dropWhile_cons_of_pos many]
      exact inner _ (List.dropWhile_suffix _)
    | false =>
      rw [behindChunk, List.dropWhile_cons_of_neg (by simp [many]),
        List.dropWhile_cons_of_pos (by simp [many])]
      exact inner xs (List.suffix_refl xs)

/-- Stars one after the other do what one does. -/
theorem matches_stars_iff (plain : Plain s) (starred : xs.head?.any isMany = true) :
    Matches (xs.map termOf) s ↔ ∃ v, v <:+ s ∧ Matches ((xs.dropWhile isMany).map termOf) v := by
  induction xs generalizing s with
  | nil => cases starred
  | cons x xs ih =>
    have many : isMany x = true := starred
    rw [List.map_cons, isMany_iff.1 many, matches_many_iff plain, List.dropWhile_cons_of_pos many]
    cases more : xs.head?.any isMany with
    | true =>
      constructor
      · rintro ⟨v, part, h⟩
        obtain ⟨w, inner, h⟩ := (ih (plain.suffix part) more).1 h
        exact ⟨w, inner.trans part, h⟩
      · intro h
        exact ⟨s, List.suffix_refl s, (ih plain more).2 h⟩
    | false =>
      have same : xs.dropWhile isMany = xs := by
        cases xs with
        | nil => rfl
        | cons y ys => exact List.dropWhile_cons_of_neg (by simpa using more)
      rw [same]

theorem dropStars_of_not (starred : xs.head?.any isMany = false) : xs.dropWhile isMany = xs := by
  cases xs with
  | nil => rfl
  | cons x xs => exact List.dropWhile_cons_of_neg (by simpa using starred)

/-- The chunk matches at the place `v` and leaves `t`, which is nothing if it is the last. -/
def Leaves (xs : List (UInt8 × Bool)) (last : Bool) (v t : Bytes) : Prop :=
  eat xs v = some t ∧ (last = true → t = [])

/-- A pattern matches if its chunk does at a place that the stars before it allow, and
the rest matches what that leaves. -/
theorem matches_iff_leaves (plain : Plain s) :
    Matches (xs.map termOf) s ↔ ∃ v t, v <:+ s ∧ (xs.head?.any isMany = false → v = s) ∧
      Leaves (chunkOf xs) (decide (behindChunk xs = [])) v t ∧
      Matches ((behindChunk xs).map termOf) t := by
  have cut : chunkOf xs ++ behindChunk xs = xs.dropWhile isMany := List.takeWhile_append_dropWhile
  have chunk : ∀ {v}, v <:+ s → (Matches ((xs.dropWhile isMany).map termOf) v ↔
      ∃ t, Leaves (chunkOf xs) (decide (behindChunk xs = [])) v t ∧
        Matches ((behindChunk xs).map termOf) t) := by
    intro v part
    rw [← cut, matches_chunk_iff (fun _ => chunkOf_steps) (plain.suffix part)]
    refine exists_congr fun t =>
      ⟨fun ⟨left, h⟩ => ⟨⟨left, fun last => ?_⟩, h⟩, fun ⟨left, h⟩ => ⟨left.1, h⟩⟩
    rw [of_decide_eq_true last] at h
    exact matches_nil_iff.1 h
  cases starred : xs.head?.any isMany with
  | true =>
    rw [matches_stars_iff plain starred]
    constructor
    · rintro ⟨v, part, h⟩
      obtain ⟨t, left, rest⟩ := (chunk part).1 h
      exact ⟨v, t, part, nofun, left, rest⟩
    · rintro ⟨v, t, part, _, left, rest⟩
      exact ⟨v, part, (chunk part).2 ⟨t, left, rest⟩⟩
  | false =>
    have here := chunk (List.suffix_refl s)
    rw [dropStars_of_not starred] at here
    rw [here]
    constructor
    · rintro ⟨t, left, rest⟩
      exact ⟨s, t, List.suffix_refl s, fun _ => rfl, left, rest⟩
    · rintro ⟨v, t, _, whole, left, rest⟩
      exact ⟨t, whole rfl ▸ left, rest⟩

/-- Of the places of a name, the answer is what the one that leaves the most leaves. -/
structure Most (xs : List (UInt8 × Bool)) (last : Bool) (name : Bytes) (found : Option Bytes) :
    Prop where
  lost : found = none → ∀ v t, v <:+ name → ¬Leaves xs last v t
  place : ∀ t, found = some t → ∃ v, v <:+ name ∧ Leaves xs last v t
  most : ∀ t, found = some t → ∀ v' t', v' <:+ name → Leaves xs last v' t' → t' <:+ t

theorem Most.here {last : Bool} (left : Leaves xs last name t) : Most xs last name (some t) where
  lost := nofun
  place := by
    rintro _ ⟨⟩
    exact ⟨name, List.suffix_refl name, left⟩
  most := by
    rintro _ ⟨⟩ v' t' part left'
    exact eat_earlier left.1 part left'.1

theorem Most.nil {last : Bool} (no : ∀ t, ¬Leaves xs last [] t) : Most xs last [] none where
  lost := fun _ _ t part => List.suffix_nil.1 part ▸ no t
  place := nofun
  most := nofun

/-- A place that is no match can be passed over. -/
theorem Most.cons {last : Bool} {b : UInt8} {found : Option Bytes}
    (no : ∀ t, ¬Leaves xs last (b :: name) t)
    (h : Most xs last name found) : Most xs last (b :: name) found where
  lost := fun ended v t part left => by
    rcases List.suffix_cons_iff.1 part with rfl | part
    · exact no t left
    · exact h.lost ended v t part left
  place := fun t ht => by
    obtain ⟨v, part, left⟩ := h.place t ht
    exact ⟨v, part.trans (List.suffix_cons b name), left⟩
  most := fun t ht v' t' part left => by
    rcases List.suffix_cons_iff.1 part with rfl | part
    · exact absurd left (no t')
    · exact h.most t ht v' t' part left

/-- A starred pattern matches if its rest matches what the chunk leaves at most. -/
theorem Most.matches_iff {found : Option Bytes} (plain : Plain s)
    (starred : xs.head?.any isMany = true)
    (h : Most (chunkOf xs) (decide (behindChunk xs = [])) s found) :
    Matches (xs.map termOf) s ↔ ∃ t, found = some t ∧ Matches ((behindChunk xs).map termOf) t := by
  rw [matches_iff_leaves plain]
  constructor
  · rintro ⟨v, t', part, _, left, rest⟩
    cases found with
    | none => exact absurd left (h.lost rfl v t' part)
    | some t =>
      refine ⟨t, rfl, ?_⟩
      obtain ⟨w, inner, leftMost⟩ := h.place t rfl
      have inside := h.most t rfl v t' part left
      have plainLeft : Plain t := plain.suffix ((eat_suffix leftMost.1).1.trans inner)
      rcases behindChunk_cases xs with ended | ⟨y, ys, behind, many⟩
      · rw [leftMost.2 (decide_eq_true ended), ended]
        exact .nil
      · rw [behind, List.map_cons, isMany_iff.1 many] at rest ⊢
        exact rest.many_more plainLeft inside
  · rintro ⟨t, rfl, rest⟩
    obtain ⟨v, part, left⟩ := h.place t rfl
    exact ⟨v, t, part, fun no => absurd starred (no ▸ Bool.false_ne_true), left, rest⟩

theorem skipToChunk_here (steps : ∀ x ∈ xs, isMany x = false) {last : Bool} {b : UInt8}
    (plain : Plain (b :: name)) (left : Leaves xs last name t) :
    skipToChunk (xs.flatMap spellByte) last (b :: name) = some (some t) := by
  have ends : ¬(last && decide (t ≠ [])) = true := by
    rw [Bool.and_eq_true, decide_eq_true_iff]
    exact fun h => h.2 (left.2 h.1)
  rw [skipToChunk, if_neg (plain b List.mem_cons_self).2, matchChunk_spelled steps plain.tail,
    left.1]
  exact if_neg ends

theorem skipToChunk_on (steps : ∀ x ∈ xs, isMany x = false) {last : Bool} {b : UInt8}
    (plain : Plain (b :: name)) (none : ∀ t, ¬Leaves xs last name t) :
    skipToChunk (xs.flatMap spellByte) last (b :: name) =
      skipToChunk (xs.flatMap spellByte) last name := by
  rw [skipToChunk, if_neg (plain b List.mem_cons_self).2, matchChunk_spelled steps plain.tail]
  cases eaten : eat xs name with
  | none => rfl
  | some t =>
    have more : (last && decide (t ≠ [])) = true := by
      rw [Bool.and_eq_true, decide_eq_true_iff]
      exact Classical.not_imp.1 fun h => none t ⟨eaten, h⟩
    exact if_pos more

/-- The search after a star finds the place that leaves the most. -/
theorem skipToChunk_most (steps : ∀ x ∈ xs, isMany x = false) (last : Bool) {b : UInt8}
    (plain : Plain (b :: name)) :
    ∃ found, skipToChunk (xs.flatMap spellByte) last (b :: name) = some found ∧
      Most xs last name found := by
  induction name generalizing b with
  | nil =>
    by_cases here : ∃ t, Leaves xs last [] t
    · obtain ⟨t, left⟩ := here
      exact ⟨some t, skipToChunk_here steps plain left, .here left⟩
    · rw [not_exists] at here
      exact ⟨none, skipToChunk_on steps plain here, .nil here⟩
  | cons c name ih =>
    by_cases here : ∃ t, Leaves xs last (c :: name) t
    · obtain ⟨t, left⟩ := here
      exact ⟨some t, skipToChunk_here steps plain left, .here left⟩
    · rw [not_exists] at here
      obtain ⟨found, skipped, most⟩ := ih plain.tail
      exact ⟨found, (skipToChunk_on steps plain here).trans skipped, .cons here most⟩

theorem failMatch_spelled (fuel : Nat) (xs : List (UInt8 × Bool)) :
    failMatch fuel (xs.flatMap spellByte) = some false := by
  induction fuel generalizing xs with
  | zero => rfl
  | succ fuel ih =>
    cases spelled : xs.flatMap spellByte with
    | nil => rfl
    | cons c p =>
      rw [failMatch, ← spelled, scanChunk_spelled]
      · dsimp only
        rw [matchChunk_spelled (fun _ => chunkOf_steps) (nofun : Plain [])]
        exact ih _
      · nofun

/-- Where the whole name is no match, the search is over all its places. -/
theorem skipToChunk_most_of_not (steps : ∀ x ∈ xs, isMany x = false) {last : Bool}
    (plain : Plain name)
    (no : ∀ t, ¬Leaves xs last name t) :
    ∃ found, skipToChunk (xs.flatMap spellByte) last name = some found ∧
      Most xs last name found := by
  cases name with
  | nil => exact ⟨none, rfl, .nil no⟩
  | cons b name =>
    obtain ⟨found, skipped, most⟩ := skipToChunk_most steps last plain
    exact ⟨found, skipped, .cons no most⟩

/-- The places that the matcher takes at once. -/
theorem filter_eq_some_iff_leaves (ys : List (UInt8 × Bool)) :
    ((eat xs s).filter fun t => decide (t = []) || decide (ys.flatMap spellByte ≠ [])) = some t ↔
      Leaves xs (decide (ys = [])) s t := by
  rw [Option.filter_eq_some_iff, Bool.or_eq_true, decide_eq_true_iff, decide_eq_true_iff, Ne,
    spelled_eq_nil, Leaves, decide_eq_true_iff, or_comm, Decidable.imp_iff_not_or]

theorem Leaves.matches_iff (plain : Plain s)
    (left : Leaves (chunkOf xs) (decide (behindChunk xs = [])) s t) :
    Matches (xs.map termOf) s ↔ Matches ((behindChunk xs).map termOf) t := by
  cases starred : xs.head?.any isMany with
  | true =>
    rw [(Most.here left).matches_iff plain starred]
    exact ⟨fun ⟨_, same, h⟩ => Option.some.inj same ▸ h, fun h => ⟨t, rfl, h⟩⟩
  | false =>
    rw [matches_iff_leaves plain]
    constructor
    · rintro ⟨v, t', _, whole, left', h⟩
      obtain rfl := whole starred
      exact Option.some.inj (left'.1.symm.trans left.1) ▸ h
    · intro h
      exact ⟨s, t, List.suffix_refl s, fun _ => rfl, left, h⟩

theorem behindChunk_of_chunkOf_nil (h : chunkOf xs = []) : behindChunk xs = [] := by
  have first := List.head?_dropWhile_not isMany xs
  unfold chunkOf at h
  unfold behindChunk
  cases behind : xs.dropWhile isMany with
  | nil => rfl
  | cons y ys =>
    rw [behind] at first h
    rw [List.takeWhile_cons_of_pos (by simpa using first)] at h
    cases h

/-- A pattern of stars matches every plain name. -/
theorem matches_stars (plain : Plain s) (starred : xs.head?.any isMany = true)
    (h : chunkOf xs = []) :
    Matches (xs.map termOf) s := by
  refine (matches_iff_leaves plain).2 ⟨[], [], List.nil_suffix, ?_, ⟨?_, fun _ => rfl⟩, ?_⟩
  · exact fun no => absurd starred (no ▸ Bool.false_ne_true)
  · rw [h]
    rfl
  · rw [behindChunk_of_chunkOf_nil h]
    exact .nil

theorem matchFrom_spelled {fuel : Nat} (enough : xs.length ≤ fuel) (plain : Plain name) :
    ∃ answer, matchFrom fuel (xs.flatMap spellByte) name = some answer ∧
      (answer = true ↔ Matches (xs.map termOf) name) := by
  induction fuel generalizing xs name with
  | zero =>
    obtain rfl := List.length_eq_zero_iff.1 (Nat.le_zero.1 enough)
    exact ⟨_, rfl, decide_eq_true_iff.trans matches_nil_iff.symm⟩
  | succ fuel ih =>
    cases spelled : xs.flatMap spellByte with
    | nil =>
      obtain rfl := spelled_eq_nil.1 spelled
      exact ⟨_, rfl, decide_eq_true_iff.trans matches_nil_iff.symm⟩
    | cons c p =>
      have full : xs ≠ [] := fun h => by
        rw [h] at spelled
        cases spelled
      have shorter := behindChunk_shorter full
      have rest : ∀ {t}, t <:+ name →
          ∃ answer, matchFrom fuel ((behindChunk xs).flatMap spellByte) t = some answer ∧
            (answer = true ↔ Matches ((behindChunk xs).map termOf) t) :=
        fun h => ih (by omega) (plain.suffix h)
      have failed := failMatch_spelled ((behindChunk xs).flatMap spellByte).length (behindChunk xs)
      rw [matchFrom, ← spelled, scanChunk_spelled]
      · dsimp only
        rw [matchChunk_spelled (fun _ => chunkOf_steps) plain]
        dsimp only
        split
        next stars =>
          obtain ⟨starred, empty⟩ := Bool.and_eq_true_iff.1 stars
          have noSlash : (!name.contains slash) = true := by
            simpa using fun h => (plain slash h).2 rfl
          refine ⟨true, congrArg some noSlash, iff_of_true rfl ?_⟩
          exact matches_stars plain starred (spelled_eq_nil.1 (of_decide_eq_true empty))
        next =>
          split
          next t kept =>
            have left := (filter_eq_some_iff_leaves _).1 kept
            rw [left.matches_iff plain]
            exact rest (eat_suffix left.1).1
          next dropped =>
            have no : ∀ t, ¬Leaves (chunkOf xs) (decide (behindChunk xs = [])) name t :=
              fun t left =>
              nomatch dropped.symm.trans ((filter_eq_some_iff_leaves _).2 left)
            split
            next starred =>
              obtain ⟨found, skipped, most⟩ :=
                skipToChunk_most_of_not (fun _ => chunkOf_steps) plain no
              have last : decide ((behindChunk xs).flatMap spellByte = []) =
                  decide (behindChunk xs = []) :=
                decide_eq_decide.2 spelled_eq_nil
              rw [most.matches_iff plain starred, last, skipped]
              cases found with
              | none => exact ⟨false, failed, iff_of_false Bool.false_ne_true nofun⟩
              | some t =>
                obtain ⟨v, part, left⟩ := most.place t rfl
                obtain ⟨answer, matched, meaning⟩ := rest ((eat_suffix left.1).1.trans part)
                refine ⟨answer, matched, meaning.trans ⟨fun h => ⟨t, rfl, h⟩, ?_⟩⟩
                rintro ⟨_, ⟨⟩, h⟩
                exact h
            next starred =>
              refine ⟨false, failed, iff_of_false Bool.false_ne_true fun h => ?_⟩
              obtain ⟨v, t, _, whole, left, _⟩ := (matches_iff_leaves plain).1 h
              exact no t (whole (Bool.not_eq_true _ ▸ starred) ▸ left)
      · nofun

end Chunks

/-- On a plain name the matcher does what the grammar says of a spelled pattern. -/
theorem pathMatch_spelled (xs : List (UInt8 × Bool)) {name : Bytes} (plain : Plain name) :
    pathMatch (xs.flatMap spellByte) name = some true ↔ Matches (xs.map termOf) name := by
  obtain ⟨answer, matched, meaning⟩ := matchFrom_spelled (spelled_length xs) plain
  rw [pathMatch, matched, ← meaning, Option.some_inj]

end FakeSSH.Go
