import FakeSSH.Go.Format
import FakeSSH.Laws.Shell.Glob
import FakeSSH.Laws.Shell.Pieces
import FakeSSH.Lib.Transducer

/-!
# Variables across quotes

A word should expand to what its pieces expand to, one after the other. The scanner
joins neighbours that are quoted alike, and the expander looks for variables in what is
joined. So a name goes on from one piece into the next: `"$A""B"` is the variable `AB`.
-/

namespace FakeSSH.Shell

open FakeSSH.Go FakeSSH.Lib

/-! ## The expander as a transducer -/

/-- Where the loop is after a byte. -/
def nextPlace : VariablePlace → UInt8 → VariablePlace
  | .text, c => if c = dollar then .dollar else .text
  | .dollar, c =>
    if c = question then .text
    else if isVariableNameStart c then .name [c]
    else if c = dollar then .dollar else .text
  | .name read, c =>
    if isVariableNameChar c then .name (read ++ [c])
    else if c = dollar then .dollar else .text

/-- What a byte is in the text. -/
def textByte (c : UInt8) : Bytes := if c = dollar then [] else [c]

/-- `expandVariables`, with what it writes at each byte and at the end. -/
def expander (r : CommandRunner) (lastStatus : Int) : Transducer VariablePlace UInt8 UInt8 where
  start := .text
  step := nextPlace
  emit
    | .text, c => textByte c
    | .dollar, c =>
      if c = question then str (toString lastStatus)
      else if isVariableNameStart c then []
      else dollar :: textByte c
    | .name read, c => if isVariableNameChar c then [] else r.getEnv read ++ textByte c
  finish
    | .text => []
    | .dollar => [dollar]
    | .name read => r.getEnv read

variable {r : CommandRunner} {lastStatus : Int}

/-- A byte of the text and what follows it. -/
theorem textByte_run (c : UInt8) (s : Bytes) (ih : ∀ place, expandFrom r lastStatus place s =
    (expander r lastStatus).run place s) :
    (if c = dollar then expandFrom r lastStatus .dollar s
      else c :: expandFrom r lastStatus .text s) =
      textByte c ++ (expander r lastStatus).run (if c = dollar then .dollar else .text) s := by
  unfold textByte
  split
  · exact ih .dollar
  · exact congrArg _ (ih .text)

theorem expandFrom_eq (r : CommandRunner) (lastStatus : Int) (place : VariablePlace) (s : Bytes) :
    expandFrom r lastStatus place s = (expander r lastStatus).run place s := by
  induction s generalizing place with
  | nil => cases place <;> rfl
  | cons c s ih =>
    have plain := textByte_run c s ih
    rw [Transducer.run]
    cases place with
    | text => exact plain
    | dollar =>
      rw [expandFrom]
      dsimp only [expander, nextPlace]
      split
      · rw [ih]; rfl
      · split
        · exact ih _
        · exact congrArg _ plain
    | name read =>
      rw [expandFrom]
      dsimp only [expander, nextPlace]
      split
      · exact ih _
      · rw [List.append_assoc]; exact congrArg _ plain

/-! ## Where a variable goes on -/

/-- The byte belongs to the variable that the place is in. -/
def VariablePlace.Continues : VariablePlace → UInt8 → Prop
  | .text, _ => False
  | .dollar, c => c = question ∨ isVariableNameStart c = true
  | .name _, c => isVariableNameChar c = true

theorem restarts_of_not_continues {place : VariablePlace} {c : UInt8} (h : ¬place.Continues c) :
    (expander r lastStatus).Restarts place c := by
  cases place with
  | text => exact ⟨rfl, rfl⟩
  | dollar =>
    obtain ⟨noQuestion, noName⟩ := not_or.1 h
    exact ⟨(if_neg noQuestion).trans (if_neg noName), (if_neg noQuestion).trans (if_neg noName)⟩
  | name read => exact ⟨if_neg h, if_neg h⟩

/-- Where the loop is after a text. -/
def placeAfter (s : Bytes) : VariablePlace := s.foldl nextPlace .text

/-- The second text goes on with a variable of the first. -/
def GoesOn (first second : Bytes) : Prop := ∃ c ∈ second.head?, (placeAfter first).Continues c

theorem expandVariables_append {first second : Bytes} (h : ¬GoesOn first second) :
    expandVariables r lastStatus (first ++ second) =
      expandVariables r lastStatus first ++ expandVariables r lastStatus second := by
  unfold expandVariables
  rw [expandFrom_eq, expandFrom_eq, expandFrom_eq]
  exact Transducer.run_append_of_restarts rfl fun c hc =>
    restarts_of_not_continues fun goesOn => h ⟨c, hc, goesOn⟩

/-! ## Without variables

Where no variable is set and the last status is 0, an expansion is the shortest it can
be, and a variable that goes on takes bytes away. -/

section Bare

theorem getEnv_bare (key : Bytes) : ({} : CommandRunner).getEnv key = [] := rfl

/-- The expander of a session without variables. -/
abbrev bare : Transducer VariablePlace UInt8 UInt8 := expander {} 0

theorem isVariableNameChar_ne_dollar {c : UInt8} (h : isVariableNameChar c = true) :
    c ≠ dollar := by
  rintro rfl
  exact absurd h (by decide)

theorem bare_run_cons {c : UInt8} (h : c ≠ dollar) (s : Bytes) :
    bare.run .text (c :: s) = c :: bare.run .text s := by
  have emitted : bare.emit .text c = [c] := if_neg h
  have place : bare.step .text c = .text := if_neg h
  rw [Transducer.run, emitted, place, List.singleton_append]

theorem bare_run_name_cons {read : Bytes} {c : UInt8} (h : isVariableNameChar c = true)
    (s : Bytes) :
    bare.run (.name read) (c :: s) = bare.run (.name (read ++ [c])) s := by
  have emitted : bare.emit (.name read) c = [] := if_pos h
  have place : bare.step (.name read) c = .name (read ++ [c]) := if_pos h
  rw [Transducer.run, emitted, place, List.nil_append]

/-- In a name bytes are lost. -/
theorem bare_run_name (read s : Bytes) :
    (bare.run (.name read) s).length ≤ (bare.run .text s).length := by
  induction s generalizing read with
  | nil => exact Nat.le_refl 0
  | cons c s ih =>
    by_cases inName : isVariableNameChar c = true
    · have less := ih (read ++ [c])
      rw [bare_run_name_cons inName, bare_run_cons (isVariableNameChar_ne_dollar inName),
        List.length_cons]
      omega
    · have apart : ¬(VariablePlace.name read).Continues c := inName
      rw [Transducer.run_cons_of_restarts (restarts_of_not_continues apart)]
      exact Nat.le_refl _

theorem bare_run_continued {place : VariablePlace} {c : UInt8} (h : place.Continues c) (s : Bytes) :
    (bare.run place (c :: s)).length <
      (bare.finish place).length + (bare.run .text (c :: s)).length := by
  cases place with
  | text => exact h.elim
  | dollar =>
    have held : (bare.finish .dollar).length = 1 := rfl
    by_cases status : c = question
    · subst status
      have emitted : bare.emit .dollar question = [0x30] := by decide
      have place : bare.step .dollar question = .text := rfl
      rw [Transducer.run, emitted, place, bare_run_cons (by decide), held, List.singleton_append,
        List.length_cons, List.length_cons]
      omega
    · have named := h.resolve_left status
      have inName : isVariableNameChar c = true := Bool.or_eq_true_iff.2 (.inl named)
      have emitted : bare.emit .dollar c = [] := (if_neg status).trans (if_pos named)
      have place : bare.step .dollar c = .name [c] := (if_neg status).trans (if_pos named)
      have less := bare_run_name [c] s
      rw [Transducer.run, emitted, place, List.nil_append, held,
        bare_run_cons (isVariableNameChar_ne_dollar inName), List.length_cons]
      omega
  | name read =>
    have less := bare_run_name (read ++ [c]) s
    rw [bare_run_name_cons h, bare_run_cons (isVariableNameChar_ne_dollar h), List.length_cons]
    omega

/-- Two texts together are shorter than apart exactly if a variable goes on. -/
theorem bare_append_length (first second : Bytes) :
    (expandVariables {} 0 (first ++ second)).length ≤
        (expandVariables {} 0 first ++ expandVariables {} 0 second).length ∧
      ((expandVariables {} 0 (first ++ second)).length =
          (expandVariables {} 0 first ++ expandVariables {} 0 second).length ↔
        ¬GoesOn first second) := by
  by_cases goesOn : GoesOn first second
  · obtain ⟨c, head, continued⟩ := goesOn
    obtain ⟨rest, rfl⟩ := List.head?_eq_some_iff.1 head
    have less := bare_run_continued continued rest
    have shorter : (expandVariables {} 0 (first ++ c :: rest)).length <
        (expandVariables {} 0 first ++ expandVariables {} 0 (c :: rest)).length := by
      unfold expandVariables
      rw [expandFrom_eq, expandFrom_eq, expandFrom_eq, Transducer.run_append,
        bare.run_eq .text first,
        List.length_append, List.length_append, List.length_append, Nat.add_assoc]
      exact Nat.add_lt_add_left less _
    exact ⟨Nat.le_of_lt shorter,
      iff_of_false (Nat.ne_of_lt shorter) fun apart => apart ⟨c, head, continued⟩⟩
  · rw [expandVariables_append goesOn]
    exact ⟨Nat.le_refl _, iff_of_true rfl goesOn⟩

theorem bare_emit_le (r : CommandRunner) (lastStatus : Int) (place : VariablePlace) (c : UInt8) :
    (bare.emit place c).length ≤ ((expander r lastStatus).emit place c).length := by
  cases place with
  | text => exact Nat.le_refl _
  | dollar =>
    dsimp only [bare, expander]
    split
    · exact List.length_pos_of_ne_nil (itoa_ne_nil lastStatus)
    · exact Nat.le_refl _
  | name read =>
    dsimp only [bare, expander]
    split
    · exact Nat.le_refl _
    · rw [getEnv_bare, List.nil_append, List.length_append]
      exact Nat.le_add_left _ _

/-- No session expands a text to less. -/
theorem bare_shortest (r : CommandRunner) (lastStatus : Int) (place : VariablePlace) (s : Bytes) :
    (bare.run place s).length ≤ ((expander r lastStatus).run place s).length := by
  induction s generalizing place with
  | nil =>
    cases place with
    | text | dollar => exact Nat.le_refl _
    | name read => exact Nat.zero_le _
  | cons c s ih =>
    have here := bare_emit_le r lastStatus place c
    have later := ih (nextPlace place c)
    rw [Transducer.run, Transducer.run, List.length_append, List.length_append]
    exact Nat.add_le_add here later

end Bare

/-! ## Segments that are joined -/

/-- The quotes in which variables are expanded. -/
def WordQuote.expands : WordQuote → Bool
  | .doubleQuoted | .unquoted => true
  | .singleQuoted | .escaped => false

/-- Two segments expand to the same, joined or not. -/
def WordSegment.Apart (s t : WordSegment) : Prop :=
  s.quote = t.quote → s.quote.expands = true → ¬GoesOn s.text t.text

theorem segmentText_eq (s : WordSegment) : segmentText r lastStatus s =
    if s.quote.expands then expandVariables r lastStatus s.text else s.text := by
  unfold segmentText
  cases s.quote <;> rfl

theorem segmentText_join {s t : WordSegment} (alike : s.quote = t.quote) (apart : s.Apart t) :
    segmentText r lastStatus (s.join t) =
      segmentText r lastStatus s ++ segmentText r lastStatus t := by
  rw [segmentText_eq, segmentText_eq, segmentText_eq, s.join_quote, ← alike]
  cases expands : s.quote.expands with
  | false => rfl
  | true => exact expandVariables_append (apart alike expands)

/-- In a session without variables only segments that stay apart expand to as much. -/
theorem bare_join_length {s t : WordSegment} (alike : s.quote = t.quote) :
    (segmentText {} 0 (s.join t)).length ≤ (segmentText {} 0 s ++ segmentText {} 0 t).length ∧
      ((segmentText {} 0 (s.join t)).length = (segmentText {} 0 s ++ segmentText {} 0 t).length ↔
        s.Apart t) := by
  rw [segmentText_eq, segmentText_eq, segmentText_eq, s.join_quote, ← alike]
  cases expands : s.quote.expands with
  | false =>
    exact ⟨Nat.le_refl _, iff_of_true rfl fun _ h => absurd (expands.symm.trans h) (by decide)⟩
  | true =>
    obtain ⟨less, same⟩ := bare_append_length s.text t.text
    exact ⟨less, same.trans ⟨fun h _ _ => h, fun h => h alike expands⟩⟩

theorem joinedSegments_step (s : WordSegment) (segments : List WordSegment) :
    joinedSegments (s :: segments) =
      consRun WordSegment.quote WordSegment.join s (joinedSegments segments) := rfl

theorem joinedSegments_cons (a : WordSegment) (segments : List WordSegment) :
    ∃ b more, joinedSegments (a :: segments) = b :: more ∧ (b = a ∨ ∃ c, b = a.join c) :=
  runs_cons_eq a segments

/-- What goes on into the first of the joined segments goes on into the first of all. -/
theorem apart_of_first (s : WordSegment) {a b : WordSegment} (first : b = a ∨ ∃ c, b = a.join c)
    (full : a.quote.expands = true → a.text ≠ []) :
    b.quote = a.quote ∧ (s.Apart b ↔ s.Apart a) := by
  rcases first with rfl | ⟨c, rfl⟩
  · exact ⟨rfl, Iff.rfl⟩
  · refine ⟨rfl, forall_congr' fun alike => forall_congr' fun expands => ?_⟩
    have head : (a.join c).text.head? = a.text.head? :=
      List.head?_append_of_ne_nil _ (full (alike ▸ expands))
    unfold GoesOn
    rw [head]

section Segments

variable {segments : List WordSegment} (full : ∀ s ∈ segments, s.quote.expands = true → s.text ≠ [])
include full

/-- Segments that stay apart expand to the same, joined or not. -/
theorem expand_joined (apart : segments.IsChain WordSegment.Apart) :
    (joinedSegments segments).flatMap (segmentText r lastStatus) =
      segments.flatMap (segmentText r lastStatus) := by
  induction segments with
  | nil => rfl
  | cons s segments ih =>
    have later := fun t ht => full t (List.mem_cons_of_mem s ht)
    cases segments with
    | nil => rfl
    | cons a segments =>
      obtain ⟨firstApart, restApart⟩ := List.isChain_cons_cons.1 apart
      have rest := ih later restApart
      obtain ⟨b, more, joined, isFirst⟩ := joinedSegments_cons a segments
      obtain ⟨quote, apartIff⟩ := apart_of_first s isFirst (later a List.mem_cons_self)
      rw [joined, List.flatMap_cons] at rest
      rw [joinedSegments_step, joined, List.flatMap_cons, ← rest]
      by_cases alike : b.quote = s.quote
      · rw [consRun_same alike, List.flatMap_cons,
          segmentText_join alike.symm (apartIff.2 firstApart),
          List.append_assoc]
      · rw [consRun_other alike, List.flatMap_cons, List.flatMap_cons]

/-- In a session without variables only segments that stay apart expand to as much. -/
theorem bare_joined_length :
    ((joinedSegments segments).flatMap (segmentText {} 0)).length ≤
        (segments.flatMap (segmentText {} 0)).length ∧
      (((joinedSegments segments).flatMap (segmentText {} 0)).length =
          (segments.flatMap (segmentText {} 0)).length ↔ segments.IsChain WordSegment.Apart) := by
  induction segments with
  | nil => exact ⟨Nat.le_refl 0, iff_of_true rfl .nil⟩
  | cons s segments ih =>
    have later := fun t ht => full t (List.mem_cons_of_mem s ht)
    cases segments with
    | nil => exact ⟨Nat.le_refl _, iff_of_true rfl (.singleton s)⟩
    | cons a segments =>
      obtain ⟨restLess, restSame⟩ := ih later
      obtain ⟨b, more, joined, isFirst⟩ := joinedSegments_cons a segments
      obtain ⟨quote, apartIff⟩ := apart_of_first s isFirst (later a List.mem_cons_self)
      rw [joined, List.flatMap_cons, List.length_append] at restLess restSame
      rw [joinedSegments_step, joined, List.isChain_cons_cons, List.flatMap_cons,
        List.length_append, ← apartIff, ← restSame]
      by_cases alike : b.quote = s.quote
      · obtain ⟨less, same⟩ := bare_join_length alike.symm
        rw [List.length_append] at less same
        rw [consRun_same alike, List.flatMap_cons, List.length_append, ← same]
        omega
      · have trivially : s.Apart b := fun h => absurd h.symm alike
        rw [consRun_other alike, List.flatMap_cons, List.flatMap_cons, List.length_append,
          List.length_append, and_iff_right trivially]
        omega

end Segments

/-! ## The law -/

/-- The segments of a piece that is a word of its own. -/
def Piece.segments (p : Piece) : List WordSegment := joinedSegments p.atoms

theorem wordOf_segments (pieces : List Piece) :
    (wordOf pieces).segments = joinedSegments (pieces.flatMap Piece.segments) :=
  (runs_flatMap_runs WordSegment.join_quote WordSegment.join_assoc Piece.atoms pieces).symm

theorem wordOf_singleton_segments (p : Piece) : (wordOf [p]).segments = p.segments := by
  rw [wordOf, List.flatMap_singleton]
  rfl

theorem Piece.segments_full (p : Piece) :
    ∀ s ∈ p.segments, s.quote.expands = true → s.text ≠ [] := by
  refine forall_mem_runs (fun s hs => ?_) fun s t first _ expands =>
    List.append_ne_nil_of_left_ne_nil (first expands) _
  cases p with
  | single text closed =>
    obtain rfl := List.mem_singleton.1 hs
    exact nofun
  | double items =>
    obtain ⟨item, -, rfl⟩ := List.mem_map.1 hs
    cases item <;> exact fun _ => List.cons_ne_nil _ _
  | escape c =>
    obtain rfl := List.mem_singleton.1 hs
    exact nofun
  | run text ordinary full =>
    obtain ⟨c, -, rfl⟩ := List.mem_map.1 hs
    exact fun _ => List.cons_ne_nil _ _

/-- A word as it is written is scanned, accepted and expanded to a text. -/
def ExpandsTo (r : CommandRunner) (lastStatus : Int) (written text : Bytes) : Prop :=
  ∃ w x, scanSyntaxWord written = .ok (w, []) ∧ validateSyntaxWord w = .ok () ∧
    expandWordSegments r lastStatus w = .ok x ∧ x.text = text

theorem expandsTo_iff (pieces : List Piece) {text : Bytes} :
    ExpandsTo r lastStatus (pieces.flatMap Piece.spelled) text ↔
      validateSyntaxWord (wordOf pieces) = .ok () ∧
        text = (wordOf pieces).segments.flatMap (segmentText r lastStatus) ∧
        text.length ≤ maxInputTokenBytes := by
  have scanned : scanSyntaxWord (pieces.flatMap Piece.spelled) = .ok (wordOf pieces, []) := by
    rw [← List.append_nil (pieces.flatMap Piece.spelled)]
    exact scanSyntaxWord_pieces pieces rfl
  constructor
  · rintro ⟨w, x, scan, accepted, expanded, rfl⟩
    cases scanned.symm.trans scan
    obtain ⟨text, short⟩ := expandWordSegments_text expanded
    exact ⟨accepted, text, short⟩
  · rintro ⟨accepted, rfl, short⟩
    obtain ⟨x, expanded⟩ := expandWordSegments_of_short short
    exact ⟨wordOf pieces, x, scanned, accepted, expanded, (expandWordSegments_text expanded).1⟩

/-- The word of the pieces expands to one text, and each of the pieces to one. -/
structure Reads (r : CommandRunner) (lastStatus : Int) (pieces : List Piece) (whole : Bytes)
    (texts : List Bytes) : Prop where
  word : ExpandsTo r lastStatus (pieces.flatMap Piece.spelled) whole
  each : List.Forall₂ (fun p text => ExpandsTo r lastStatus p.spelled text) pieces texts

/-- No variable goes on from a piece into what is quoted alike behind it. -/
def PiecesApart (pieces : List Piece) : Prop :=
  (pieces.flatMap Piece.segments).IsChain WordSegment.Apart

theorem pieces_full (pieces : List Piece) :
    ∀ s ∈ pieces.flatMap Piece.segments, s.quote.expands = true → s.text ≠ [] := by
  intro s hs
  obtain ⟨p, -, hs⟩ := List.mem_flatMap.1 hs
  exact p.segments_full s hs

theorem expandsTo_piece_iff (p : Piece) {text : Bytes} :
    ExpandsTo r lastStatus p.spelled text ↔
      validateSyntaxWord (wordOf [p]) = .ok () ∧
        text = p.segments.flatMap (segmentText r lastStatus) ∧
          text.length ≤ maxInputTokenBytes := by
  have alone : ExpandsTo r lastStatus ([p].flatMap Piece.spelled) text ↔ _ := expandsTo_iff [p]
  rwa [List.flatMap_singleton, wordOf_singleton_segments] at alone

/-- What the pieces expand to, one after the other. -/
theorem Reads.texts_eq {pieces : List Piece} {whole : Bytes} {texts : List Bytes}
    (h : Reads r lastStatus pieces whole texts) :
    texts.flatten = (pieces.flatMap Piece.segments).flatMap (segmentText r lastStatus) := by
  have each := h.each
  clear h
  induction each with
  | nil => rfl
  | cons first _ ih =>
    obtain ⟨-, rfl, -⟩ := (expandsTo_piece_iff _).1 first
    rw [List.flatten_cons, ih, List.flatMap_cons, List.flatMap_append]

theorem segmentText_shortest (r : CommandRunner) (lastStatus : Int) (segments : List WordSegment) :
    (segments.flatMap (segmentText {} 0)).length ≤
      (segments.flatMap (segmentText r lastStatus)).length := by
  induction segments with
  | nil => exact Nat.le_refl 0
  | cons s segments ih =>
    have here : (segmentText {} 0 s).length ≤ (segmentText r lastStatus s).length := by
      rw [segmentText_eq, segmentText_eq]
      cases s.quote.expands with
      | false => exact Nat.le_refl _
      | true =>
        have least := bare_shortest r lastStatus .text s.text
        rwa [← expandFrom_eq, ← expandFrom_eq] at least
    rw [List.flatMap_cons, List.flatMap_cons, List.length_append, List.length_append]
    exact Nat.add_le_add here ih

/-- What any session reads a session without variables reads. -/
theorem Reads.bare {pieces : List Piece} {whole : Bytes} {texts : List Bytes}
    (h : Reads r lastStatus pieces whole texts) : ∃ whole texts, Reads {} 0 pieces whole texts := by
  obtain ⟨accepted, rfl, short⟩ := (expandsTo_iff pieces).1 h.word
  have word : ExpandsTo {} 0 (pieces.flatMap Piece.spelled) _ :=
    (expandsTo_iff pieces).2 ⟨accepted, rfl, (segmentText_shortest r lastStatus _).trans short⟩
  refine ⟨_, pieces.map fun p => p.segments.flatMap (segmentText {} 0), word, ?_⟩
  rw [List.forall₂_map_right_iff, List.forall₂_same]
  refine ((List.forall₂_and_left _ _).1 (h.each.imp fun p text piece => ⟨?_, piece⟩)).1
  obtain ⟨accepted, rfl, short⟩ := (expandsTo_piece_iff p).1 piece
  exact (expandsTo_piece_iff p).2 ⟨accepted, rfl, (segmentText_shortest r lastStatus _).trans short⟩

/-- The texts of the pieces make up the text of the word, whatever the session is,
exactly if no variable goes on from one piece into another. -/
theorem pieces_expand_apart_iff (pieces : List Piece)
    (spoken : ∃ r lastStatus whole texts, Reads r lastStatus pieces whole texts) :
    (∀ r lastStatus whole texts, Reads r lastStatus pieces whole texts → whole = texts.flatten) ↔
      PiecesApart pieces := by
  constructor
  · intro law
    obtain ⟨r, lastStatus, whole, texts, read⟩ := spoken
    obtain ⟨whole, texts, read⟩ := read.bare
    have same := congrArg List.length (law {} 0 whole texts read)
    obtain ⟨-, rfl, -⟩ := (expandsTo_iff pieces).1 read.word
    rw [read.texts_eq, wordOf_segments] at same
    exact (bare_joined_length (pieces_full pieces)).2.1 same
  · intro apart r lastStatus whole texts read
    obtain ⟨-, rfl, -⟩ := (expandsTo_iff pieces).1 read.word
    rw [read.texts_eq, wordOf_segments, expand_joined (pieces_full pieces) apart]

/-- The word `"$A""-"`. -/
def twoDoubles : List Piece :=
  [.double [.byte 0x24 (by decide), .byte 0x41 (by decide)], .double [.byte 0x2D (by decide)]]

theorem twoDoubles_law :
    Reads {} 0 twoDoubles (str "-") [[], str "-"] ∧
      ∀ r lastStatus whole texts, Reads r lastStatus twoDoubles whole texts →
        whole = texts.flatten := by
  have read : Reads {} 0 twoDoubles (str "-") [[], str "-"] := by
    refine ⟨(expandsTo_iff twoDoubles).2 (by decide +kernel), .cons ?_ (.cons ?_ .nil)⟩
    · exact (expandsTo_piece_iff _).2 (by decide +kernel)
    · exact (expandsTo_piece_iff _).2 (by decide +kernel)
  refine ⟨read, (pieces_expand_apart_iff twoDoubles ⟨_, _, _, _, read⟩).2 ?_⟩
  have segments : twoDoubles.flatMap Piece.segments =
      [⟨str "$A", .doubleQuoted⟩, ⟨[0x2D], .doubleQuoted⟩] := by decide +kernel
  have place : placeAfter (str "$A") = .name (str "A") := by decide +kernel
  have dash : ¬isVariableNameChar 0x2D = true := by decide
  unfold PiecesApart
  rw [segments]
  refine .cons_cons ?_ (.singleton _)
  rintro - - ⟨c, head, goesOn⟩
  cases head
  rw [place] at goesOn
  exact dash goesOn

/-- The word `"$A""B"`. -/
def splitName : List Piece :=
  [.double [.byte 0x24 (by decide), .byte 0x41 (by decide)], .double [.byte 0x42 (by decide)]]

/-- Without variables `"$A""B"` expands to nothing, and its pieces to `B`. -/
theorem splitName_joined : Reads {} 0 splitName [] [[], str "B"] ∧
    ¬∀ r lastStatus whole texts, Reads r lastStatus splitName whole texts →
      whole = texts.flatten := by
  have read : Reads {} 0 splitName [] [[], str "B"] := by
    refine ⟨(expandsTo_iff splitName).2 (by decide +kernel), .cons ?_ (.cons ?_ .nil)⟩
    · exact (expandsTo_piece_iff _).2 (by decide +kernel)
    · exact (expandsTo_piece_iff _).2 (by decide +kernel)
  exact ⟨read, fun law => absurd (law {} 0 [] [[], str "B"] read) (by decide)⟩

end FakeSSH.Shell
