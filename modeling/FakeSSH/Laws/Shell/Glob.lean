import FakeSSH.Go.GlobMatch
import FakeSSH.Laws.Shell.Children

/-!
# Which bytes of a word are wildcards

A word carries a mark for each of its bytes. The marks are set on the `*` and `?` of
what unquoted segments expand to, and on nothing else. `globPattern` spells the part of
the word behind its last slash so that a reader of `path.Match`'s grammar finds a
wildcard at each marked byte and the byte itself everywhere else.
-/

namespace FakeSSH.Shell

open FakeSSH.Go

variable {r : CommandRunner} {lastStatus : Int} {word : SyntaxWord} {w : ExpandedWord}
variable {d : Bytes} {found : List Bytes}

/-! ## The marks of a word -/

/-- What a segment expands to. -/
def segmentText (r : CommandRunner) (lastStatus : Int) (s : WordSegment) : Bytes :=
  match s.quote with
  | .singleQuoted | .escaped => s.text
  | .doubleQuoted | .unquoted => expandVariables r lastStatus s.text

/-- The bytes of an expanded segment with their marks. -/
def markedSegment (r : CommandRunner) (lastStatus : Int) (s : WordSegment) : List (UInt8 × Bool) :=
  (segmentText r lastStatus s).map fun c =>
    (c, s.quote == .unquoted && (c == star || c == question))

/-- The bytes of a word with their marks. -/
def ExpandedWord.marked (w : ExpandedWord) : List (UInt8 × Bool) := w.text.zip w.globEligible

theorem expandSegment_eq (r : CommandRunner) (lastStatus : Int) (w : ExpandedWord)
    (s : WordSegment) :
    expandSegment r lastStatus w s =
      w.append (segmentText r lastStatus s) (s.quote == .unquoted) := by
  unfold expandSegment segmentText
  cases s.quote <;> rfl

theorem ExpandedWord.append_marked (fits : w.globEligible.length = w.text.length) (text : Bytes)
    (eligible : Bool) :
    (w.append text eligible).globEligible.length = (w.append text eligible).text.length ∧
      (w.append text eligible).marked =
        w.marked ++ text.map fun c => (c, eligible && (c == star || c == question)) := by
  constructor
  · unfold ExpandedWord.append
    rw [List.length_append, List.length_append, List.length_map, fits]
  · unfold ExpandedWord.append ExpandedWord.marked
    rw [List.zip_append fits.symm]
    congr 1
    induction text with
    | nil => rfl
    | cons c text ih => exact congrArg _ ih

theorem expandSegments_marked (r : CommandRunner) (lastStatus : Int) (segments : List WordSegment)
    (fits : w.globEligible.length = w.text.length) :
    (segments.foldl (expandSegment r lastStatus) w).globEligible.length =
        (segments.foldl (expandSegment r lastStatus) w).text.length ∧
      (segments.foldl (expandSegment r lastStatus) w).marked =
        w.marked ++ segments.flatMap (markedSegment r lastStatus) := by
  induction segments generalizing w with
  | nil => exact ⟨fits, (List.append_nil _).symm⟩
  | cons s segments ih =>
    rw [List.foldl_cons, expandSegment_eq]
    obtain ⟨fits', marked⟩ :=
      w.append_marked fits (segmentText r lastStatus s) (s.quote == .unquoted)
    obtain ⟨done, marks⟩ := ih fits'
    refine ⟨done, marks.trans ?_⟩
    rw [marked, List.append_assoc, List.flatMap_cons]
    rfl

theorem expandSegments_text (r : CommandRunner) (lastStatus : Int) (segments : List WordSegment)
    (w : ExpandedWord) :
    (segments.foldl (expandSegment r lastStatus) w).text =
      w.text ++ segments.flatMap (segmentText r lastStatus) := by
  induction segments generalizing w with
  | nil => exact (List.append_nil _).symm
  | cons s segments ih =>
    rw [List.foldl_cons, ih, expandSegment_eq, List.flatMap_cons, ← List.append_assoc]
    rfl

/-- A word expands to the texts of its segments. -/
theorem expandWordSegments_text (h : expandWordSegments r lastStatus word = .ok w) :
    w.text = word.segments.flatMap (segmentText r lastStatus) ∧
      w.text.length ≤ maxInputTokenBytes := by
  obtain ⟨_, short, h⟩ := bind_eq_ok.mp h
  cases h
  exact ⟨expandSegments_text r lastStatus word.segments {}, Nat.not_lt.1 (check_eq_ok.mp short).1⟩

theorem expandWordSegments_of_short
    (short : (word.segments.flatMap (segmentText r lastStatus)).length ≤ maxInputTokenBytes) :
    ∃ w, expandWordSegments r lastStatus word = .ok w := by
  refine ⟨_, bind_eq_ok.mpr ⟨(), check_eq_ok.mpr ⟨Nat.not_lt.2 ?_, rfl⟩, rfl⟩⟩
  rw [expandSegments_text]
  exact short

theorem expandWordSegments_marked (h : expandWordSegments r lastStatus word = .ok w) :
    w.globEligible.length = w.text.length ∧
      w.marked = word.segments.flatMap (markedSegment r lastStatus) := by
  obtain ⟨_, -, h⟩ := bind_eq_ok.mp h
  cases h
  exact expandSegments_marked r lastStatus word.segments rfl

/-! ## The pattern of a word -/

/-- The marks behind the last slash. -/
def ExpandedWord.patternMarks (w : ExpandedWord) : List Bool :=
  w.globEligible.drop (splitGlobPattern w.text).lead.length

/-- The pattern `expandGlobWord` asks `path.Match` with. -/
def ExpandedWord.pattern (w : ExpandedWord) : Bytes :=
  globPattern (splitGlobPattern w.text).pattern w.patternMarks

/-- One term for each byte behind the last slash. -/
def ExpandedWord.terms (w : ExpandedWord) : List GlobTerm :=
  ((splitGlobPattern w.text).pattern.zip w.patternMarks).map termOf

theorem globPattern_eq (text : Bytes) (eligible : List Bool) :
    globPattern text eligible = (text.zip eligible).flatMap spellByte := rfl

theorem ExpandedWord.patternMarks_length (fits : w.globEligible.length = w.text.length) :
    w.patternMarks.length = (splitGlobPattern w.text).pattern.length := by
  unfold ExpandedWord.patternMarks splitGlobPattern
  rw [List.length_drop, List.length_drop, fits]

theorem ExpandedWord.terms_length (fits : w.globEligible.length = w.text.length) :
    w.terms.length = (splitGlobPattern w.text).pattern.length := by
  rw [ExpandedWord.terms, List.length_map, List.length_zip, w.patternMarks_length fits,
    Nat.min_self]

theorem readPattern_pattern (w : ExpandedWord) : readPattern w.pattern = some w.terms := by
  rw [ExpandedWord.pattern, globPattern_eq]
  exact readPattern_spelled _

/-- On a plain name `path.Match` does what its grammar says. -/
theorem pathMatch_pattern (w : ExpandedWord) {n : Bytes} (plain : Plain n) :
    pathMatch w.pattern n = some true ↔ Matches w.terms n := by
  rw [ExpandedWord.pattern, globPattern_eq]
  exact pathMatch_spelled _ plain

/-! ## What a word expands to -/

/-- The names a pattern is tried on. -/
def childNames (r : CommandRunner) (d : Bytes) : List Bytes :=
  staticChildNames r d ++ dynamicChildNames r d

/-- The names of a directory that match. -/
def matchingNames (r : CommandRunner) (d : Bytes) (w : ExpandedWord) : List Bytes :=
  sortDedup ((childNames r d).filter (globNameMatches w.pattern))

/-- What an expansion that succeeds has found. -/
theorem expandGlobWord_ok (h : expandGlobWord r w = .ok found) :
    ((containsEligibleGlobMeta w.globEligible = false ∨ (splitGlobPattern w.text).pattern = []) ∧
        found = [w.text]) ∨
      (splitGlobPattern w.text).pattern ≠ [] ∧
        ∃ d, resolvePath r.currentPWD (splitGlobPattern w.text).dirArg = .ok d ∧
          (matchingNames r d w = [] ∧ found = [w.text] ∨
            matchingNames r d w ≠ [] ∧
              found = (matchingNames r d w).map ((splitGlobPattern w.text).lead ++ ·)) := by
  unfold expandGlobWord at h
  dsimp only at h
  split at h
  next quoted =>
    cases h
    exact .inl ⟨.inl (by simpa using quoted), rfl⟩
  next =>
  split at h
  next empty =>
    cases h
    exact .inl ⟨.inr empty, rfl⟩
  next full =>
  obtain ⟨-, h⟩ := check_eq_ok.mp h
  split at h
  next => cases h
  next resolved resolves =>
  refine .inr ⟨full, resolved, resolves, ?_⟩
  split at h
  next none =>
    cases h
    exact .inl ⟨none, rfl⟩
  next some =>
    obtain ⟨-, h⟩ := check_eq_ok.mp h
    cases h
    exact .inr ⟨some, rfl⟩

theorem mem_matchingNames {n : Bytes} :
    n ∈ matchingNames r d w ↔ n ∈ childNames r d ∧ pathMatch w.pattern n = some true := by
  rw [matchingNames, mem_sortDedup, List.mem_filter, globNameMatches, beq_iff_eq]

/-- The list holds what the lead and a matching child make, each once and in order, or
the word alone if no child matches. -/
def Globbed (w : ExpandedWord) (names found : List Bytes) : Prop :=
  ((∀ n ∈ names, ¬Matches w.terms n) → found = [w.text]) ∧
    ((∃ n ∈ names, Matches w.terms n) → found.Pairwise (· < ·) ∧
      ∀ x, x ∈ found ↔ ∃ n ∈ names, Matches w.terms n ∧ x = (splitGlobPattern w.text).lead ++ n)

theorem append_lt_append (lead : Bytes) {a b : Bytes} (h : a < b) : lead ++ a < lead ++ b := by
  induction lead with
  | nil => exact h
  | cons c lead ih => exact List.cons_lt_cons_self.2 ih

theorem globbed_of_ok (eligible : containsEligibleGlobMeta w.patternMarks = true)
    (fits : w.globEligible.length = w.text.length) (h : expandGlobWord r w = .ok found) :
    ∃ d, resolvePath r.currentPWD (splitGlobPattern w.text).dirArg = .ok d ∧
      ((∀ n ∈ childNames r d, pathMatch w.pattern n = some true ↔ Matches w.terms n) →
        Globbed w (childNames r d) found) := by
  obtain ⟨mark, listed, wild⟩ := List.any_eq_true.1 eligible
  rcases expandGlobWord_ok h with ⟨quoted | empty, -⟩ | ⟨-, d, resolves, answer⟩
  · have none := List.any_eq_false.1 quoted mark (List.mem_of_mem_drop listed)
    exact absurd wild none
  · have short := w.patternMarks_length fits
    rw [empty] at short
    rw [List.length_eq_zero_iff.1 short] at listed
    cases listed
  · refine ⟨d, resolves, fun documented => ?_⟩
    have mem : ∀ n, n ∈ matchingNames r d w ↔ n ∈ childNames r d ∧ Matches w.terms n := fun n =>
      mem_matchingNames.trans (and_congr_right fun child => documented n child)
    rcases answer with ⟨none, rfl⟩ | ⟨some, rfl⟩
    · refine ⟨fun _ => rfl, fun ⟨n, child, fit⟩ => ?_⟩
      have listed := (mem n).2 ⟨child, fit⟩
      rw [none] at listed
      cases listed
    · refine ⟨fun no => ?_, fun _ => ⟨?_, fun x => ?_⟩⟩
      · obtain ⟨n, listed⟩ := List.exists_mem_of_ne_nil _ some
        obtain ⟨child, fit⟩ := (mem n).1 listed
        exact absurd fit (no n child)
      · exact (sortDedup_increasing _).map _ fun _ _ => append_lt_append _
      · rw [List.mem_map]
        constructor
        · rintro ⟨n, listed, rfl⟩
          obtain ⟨child, fit⟩ := (mem n).1 listed
          exact ⟨n, child, fit, rfl⟩
        · rintro ⟨n, child, fit, rfl⟩
          exact ⟨n, (mem n).2 ⟨child, fit⟩, rfl⟩

/-- Without marks a word stays as it is. -/
theorem expandGlobWord_unmarked (fits : w.globEligible.length = w.text.length)
    (none : ∀ x ∈ w.marked, x.2 = false) (r : CommandRunner) :
    expandGlobWord r w = .ok [w.text] := by
  have marks : w.marked.map Prod.snd = w.globEligible := List.map_snd_zip fits.le
  have quoted : containsEligibleGlobMeta w.globEligible = false := by
    refine List.any_eq_false.2 fun mark listed => ?_
    rw [← marks] at listed
    obtain ⟨x, hx, rfl⟩ := List.mem_map.1 listed
    rw [none x hx]
    exact Bool.false_ne_true
  unfold expandGlobWord
  rw [quoted]
  rfl

/-- A word with no wildcard in its unquoted part stays as it is. -/
theorem expandGlobWord_quoted (built : expandWordSegments r lastStatus word = .ok w)
    (quoted : ∀ s ∈ word.segments, s.quote = .unquoted → ∀ c ∈ segmentText r lastStatus s,
      c ≠ star ∧ c ≠ question) (r' : CommandRunner) : expandGlobWord r' w = .ok [w.text] := by
  obtain ⟨fits, marked⟩ := expandWordSegments_marked built
  refine expandGlobWord_unmarked fits (fun x hx => ?_) r'
  rw [marked] at hx
  obtain ⟨s, listed, hx⟩ := List.mem_flatMap.1 hx
  obtain ⟨c, hc, rfl⟩ := List.mem_map.1 hx
  by_cases bare : s.quote = .unquoted
  · obtain ⟨noStar, noQuestion⟩ := quoted s listed bare c hc
    simp [noStar, noQuestion]
  · simp [bare]

/-- The marks are the wildcards. A word that `expandWordSegments` has built has a mark
on each `*` and `?` of its unquoted part. Its pattern is well formed and reads as one
term for each byte behind the last slash, a wildcard where there is a mark and the byte
itself elsewhere. If `path.Match` takes the names of the directory as its grammar says,
the word stands for those that match the terms. A word with no wildcard in its unquoted
part stands for itself. -/
theorem marks_are_wildcards (r₀ : CommandRunner) (lastStatus : Int) {word : SyntaxWord}
    {w : ExpandedWord} (built : expandWordSegments r₀ lastStatus word = .ok w) :
    (w.globEligible.length = w.text.length ∧
      w.marked = word.segments.flatMap (markedSegment r₀ lastStatus)) ∧
    (readPattern w.pattern = some w.terms ∧
      w.terms.length = (splitGlobPattern w.text).pattern.length) ∧
    (∀ r found, containsEligibleGlobMeta w.patternMarks = true → expandGlobWord r w = .ok found →
      ∃ d, resolvePath r.currentPWD (splitGlobPattern w.text).dirArg = .ok d ∧
        ((∀ n ∈ childNames r d, pathMatch w.pattern n = some true ↔ Matches w.terms n) →
          Globbed w (childNames r d) found)) ∧
    ((∀ s ∈ word.segments, s.quote = .unquoted → ∀ c ∈ segmentText r₀ lastStatus s,
        c ≠ star ∧ c ≠ question) → ∀ r, expandGlobWord r w = .ok [w.text]) := by
  obtain ⟨fits, marked⟩ := expandWordSegments_marked built
  exact ⟨⟨fits, marked⟩, ⟨readPattern_pattern w, w.terms_length fits⟩,
    fun r found eligible h => globbed_of_ok eligible fits h, expandGlobWord_quoted built⟩

/-- The word `*'?'` with its marks. -/
def starQuestion : ExpandedWord := ⟨str "*?", [true, false]⟩

/-- A session with the files `/ab` and `/a?`. -/
def twoFiles : CommandRunner where
  dynamic := (({} : DynamicStore).put (str "/ab") { path := str "/ab" }).put
    (str "/a?") { path := str "/a?" }

theorem quoted_question_is_literal :
    expandWordSegments {} 0 ⟨str "*?", [⟨str "*", .unquoted⟩, ⟨str "?", .singleQuoted⟩]⟩ =
        .ok starQuestion ∧
      Globbed starQuestion [str "ab", str "a?"] [str "a?"] := by
  have built : expandWordSegments {} 0
      ⟨str "*?", [⟨str "*", .unquoted⟩, ⟨str "?", .singleQuoted⟩]⟩ =
      .ok starQuestion := by decide +kernel
  refine ⟨built, ?_⟩
  obtain ⟨-, -, globs, -⟩ := marks_are_wildcards {} 0 built
  obtain ⟨d, resolves, globbed⟩ := globs twoFiles [str "a?"] (by decide) (by decide +kernel)
  have root : resolvePath twoFiles.currentPWD (splitGlobPattern starQuestion.text).dirArg =
      .ok [slash] := by decide +kernel
  cases root.symm.trans resolves
  have names : childNames twoFiles [slash] = [str "ab", str "a?"] := by decide +kernel
  rw [names] at globbed
  have plain : ∀ n ∈ [str "ab", str "a?"], Plain n := by
    unfold Plain
    decide +kernel
  exact globbed fun n child => pathMatch_pattern starQuestion (plain n child)

end FakeSSH.Shell
