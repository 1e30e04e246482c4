import FakeSSH.Lib.Runs
import FakeSSH.Shell.Expand

/-!
# The pieces of a word

A word is written as pieces: strings in quotes, escaped bytes and runs of bytes outside
quotes. The scanner reads it byte by byte and joins what is quoted alike, so that the
segments of a word know the quotes of their bytes but not where a piece has ended.
-/

namespace FakeSSH.Shell

open FakeSSH.Go FakeSSH.Lib

/-! ## Pieces -/

/-- A byte of a word that is itself: it ends no word and opens no quote or escape. -/
structure Ordinary (c : UInt8) : Prop where
  inWord : endsWord c = false
  noSingle : c ≠ singleQuote
  noDouble : c ≠ doubleQuote
  noBackslash : c ≠ backslash

/-- What stands between double quotes: bytes, and bytes behind a backslash. -/
inductive DoubleItem where
  | byte (c : UInt8) (inside : c ≠ doubleQuote ∧ c ≠ backslash)
  | escape (c : UInt8)

/-- A piece of a word. -/
inductive Piece where
  | single (text : Bytes) (closed : singleQuote ∉ text)
  | double (items : List DoubleItem)
  | escape (c : UInt8)
  | run (text : Bytes) (ordinary : ∀ c ∈ text, Ordinary c) (some : text ≠ [])

/-- How it is written. -/
def DoubleItem.spelled : DoubleItem → Bytes
  | .byte c _ => [c]
  | .escape c => [backslash, c]

def Piece.spelled : Piece → Bytes
  | .single text _ => singleQuote :: text ++ [singleQuote]
  | .double items => doubleQuote :: items.flatMap DoubleItem.spelled ++ [doubleQuote]
  | .escape c => [backslash, c]
  | .run text _ _ => text

/-- What the scanner hands to `appendSegment`. -/
def DoubleItem.atom : DoubleItem → WordSegment
  | .byte c _ => ⟨[c], .doubleQuoted⟩
  | .escape c => ⟨[c], .escaped⟩

def Piece.atoms : Piece → List WordSegment
  | .single text _ => [⟨text, .singleQuoted⟩]
  | .double items => items.map DoubleItem.atom
  | .escape c => [⟨[c], .escaped⟩]
  | .run text _ _ => text.map fun c => ⟨[c], .unquoted⟩

/-! ## The scanner -/

/-- Two segments that are quoted alike as one. -/
def WordSegment.join (s t : WordSegment) : WordSegment := ⟨s.text ++ t.text, s.quote⟩

/-- Segments with the neighbours that are quoted alike joined. -/
abbrev joinedSegments (segments : List WordSegment) : List WordSegment :=
  runs WordSegment.quote WordSegment.join segments

theorem WordSegment.join_quote (s t : WordSegment) : (s.join t).quote = s.quote := rfl

theorem WordSegment.join_assoc (s t u : WordSegment) : (s.join t).join u = s.join (t.join u) :=
  congrArg (WordSegment.mk · s.quote) (List.append_assoc ..)

def SyntaxWord.add (w : SyntaxWord) (s : WordSegment) : SyntaxWord := w.append s.text s.quote

theorem SyntaxWord.add_segments (w : SyntaxWord) (s : WordSegment) :
    (w.add s).segments = addRun WordSegment.quote WordSegment.join w.segments s := by
  unfold SyntaxWord.add SyntaxWord.append addRun
  cases w.segments.getLast? <;> rfl

theorem foldl_add_segments (w : SyntaxWord) (atoms : List WordSegment) :
    (atoms.foldl SyntaxWord.add w).segments =
      atoms.foldl (addRun WordSegment.quote WordSegment.join) w.segments := by
  induction atoms generalizing w with
  | nil => rfl
  | cons s atoms ih => rw [List.foldl_cons, List.foldl_cons, ih, SyntaxWord.add_segments]

theorem foldl_add_text (w : SyntaxWord) (atoms : List WordSegment) :
    (atoms.foldl SyntaxWord.add w).text = w.text ++ atoms.flatMap (·.text) := by
  induction atoms generalizing w with
  | nil => exact (List.append_nil _).symm
  | cons s atoms ih =>
    rw [List.foldl_cons, ih, List.flatMap_cons, ← List.append_assoc]
    rfl

/-- The word that the scanner makes of the atoms. -/
def wordOfAtoms (atoms : List WordSegment) : SyntaxWord where
  text := atoms.flatMap (·.text)
  segments := joinedSegments atoms

theorem foldl_add_eq (atoms : List WordSegment) :
    atoms.foldl SyntaxWord.add {} = wordOfAtoms atoms := by
  have text := foldl_add_text {} atoms
  have segments := (foldl_add_segments {} atoms).trans
    (foldl_addRun WordSegment.join_quote WordSegment.join_assoc [] atoms)
  cases whole : atoms.foldl SyntaxWord.add {}
  rw [whole] at text segments
  exact congrArg₂ SyntaxWord.mk text segments

section Scan

variable (w : SyntaxWord) (rest : Bytes)

theorem scanWordFrom_end {c : UInt8} (h : endsWord c = true) :
    scanWordFrom .outside w (c :: rest) = .ok (w, c :: rest) := by
  rw [scanWordFrom.eq_def]
  exact if_pos h

theorem scanWordFrom_openSingle :
    scanWordFrom .outside w (singleQuote :: rest) = scanWordFrom (.single []) w rest := by
  rw [scanWordFrom.eq_def]
  dsimp only
  rw [if_neg (by decide), if_pos rfl]

theorem scanWordFrom_openDouble :
    scanWordFrom .outside w (doubleQuote :: rest) = scanWordFrom .double w rest := by
  rw [scanWordFrom.eq_def]
  dsimp only
  rw [if_neg (by decide), if_neg (by decide), if_pos rfl]

theorem scanWordFrom_escape (c : UInt8) :
    scanWordFrom .outside w (backslash :: c :: rest) =
      scanWordFrom .outside (w.append [c] .escaped) rest := by
  rw [scanWordFrom.eq_def]
  dsimp only
  rw [if_neg (by decide), if_neg (by decide), if_neg (by decide), if_pos rfl]

theorem scanWordFrom_ordinary {c : UInt8} (h : Ordinary c) :
    scanWordFrom .outside w (c :: rest) = scanWordFrom .outside (w.append [c] .unquoted) rest := by
  rw [scanWordFrom.eq_def]
  dsimp only
  rw [if_neg (h.inWord ▸ Bool.false_ne_true), if_neg h.noSingle, if_neg h.noDouble,
    if_neg h.noBackslash]

theorem scanWordFrom_doubleItem (item : DoubleItem) :
    scanWordFrom .double w (item.spelled ++ rest) =
      scanWordFrom .double (w.add item.atom) rest := by
  cases item with
  | byte c inside =>
    rw [DoubleItem.spelled, List.singleton_append, scanWordFrom.eq_def]
    dsimp only
    rw [if_neg inside.1, if_neg inside.2]
    rfl
  | escape c =>
    rw [DoubleItem.spelled, List.cons_append, List.singleton_append, scanWordFrom.eq_def]
    dsimp only
    rw [if_neg (by decide), if_pos rfl]
    rfl

theorem scanWordFrom_single {body : Bytes} (closed : singleQuote ∉ body) (read : Bytes) :
    scanWordFrom (.single read) w (body ++ singleQuote :: rest) =
      scanWordFrom .outside (w.append (read ++ body) .singleQuoted) rest := by
  induction body generalizing read with
  | nil => rw [List.nil_append, List.append_nil, scanWordFrom, if_pos rfl]
  | cons c body ih =>
    rw [List.mem_cons, not_or] at closed
    rw [List.cons_append, scanWordFrom, if_neg fun h => closed.1 h.symm, ih closed.2,
      List.append_assoc, List.singleton_append]

theorem scanWordFrom_double (items : List DoubleItem) :
    scanWordFrom .double w (items.flatMap DoubleItem.spelled ++ doubleQuote :: rest) =
      scanWordFrom .outside ((items.map DoubleItem.atom).foldl SyntaxWord.add w) rest := by
  induction items generalizing w with
  | nil => exact scanWordFrom.eq_def ..
  | cons item items ih =>
    rw [List.flatMap_cons, List.append_assoc, scanWordFrom_doubleItem, ih, List.map_cons,
      List.foldl_cons]

theorem scanWordFrom_run {body : Bytes} (ordinary : ∀ c ∈ body, Ordinary c) :
    scanWordFrom .outside w (body ++ rest) =
      scanWordFrom .outside ((body.map fun c => ⟨[c], .unquoted⟩).foldl SyntaxWord.add w) rest := by
  induction body generalizing w with
  | nil => rfl
  | cons c body ih =>
    rw [List.cons_append, scanWordFrom_ordinary _ _ (ordinary c List.mem_cons_self),
      ih _ fun d hd => ordinary d (List.mem_cons_of_mem c hd)]
    rfl

/-- A piece is read as its atoms. -/
theorem scanWordFrom_piece (p : Piece) :
    scanWordFrom .outside w (p.spelled ++ rest) =
      scanWordFrom .outside (p.atoms.foldl SyntaxWord.add w) rest := by
  cases p with
  | single text closed =>
    rw [Piece.spelled, List.append_assoc, List.cons_append, List.singleton_append,
      scanWordFrom_openSingle, scanWordFrom_single w rest closed]
    rfl
  | double items =>
    rw [Piece.spelled, List.append_assoc, List.cons_append, List.singleton_append,
      scanWordFrom_openDouble, scanWordFrom_double]
    rfl
  | escape c => exact scanWordFrom_escape w rest c
  | run text ordinary => exact scanWordFrom_run w rest ordinary

theorem scanWordFrom_pieces (pieces : List Piece) :
    scanWordFrom .outside w (pieces.flatMap Piece.spelled ++ rest) =
      scanWordFrom .outside ((pieces.flatMap Piece.atoms).foldl SyntaxWord.add w) rest := by
  induction pieces generalizing w with
  | nil => rfl
  | cons p pieces ih =>
    rw [List.flatMap_cons, List.append_assoc, scanWordFrom_piece, ih, List.flatMap_cons,
      List.foldl_append]

end Scan

/-- The word of some pieces. -/
def wordOf (pieces : List Piece) : SyntaxWord := wordOfAtoms (pieces.flatMap Piece.atoms)

/-- Pieces are scanned to their word, up to a byte that ends it. -/
theorem scanSyntaxWord_pieces (pieces : List Piece) {rest : Bytes}
    (ended : isTokenBoundary rest = true) :
    scanSyntaxWord (pieces.flatMap Piece.spelled ++ rest) = .ok (wordOf pieces, rest) := by
  rw [scanSyntaxWord, scanWordFrom_pieces, foldl_add_eq]
  cases rest with
  | nil => rfl
  | cons c rest => exact scanWordFrom_end _ rest ended

end FakeSSH.Shell
