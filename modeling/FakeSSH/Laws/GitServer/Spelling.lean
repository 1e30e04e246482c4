import FakeSSH.Go.Runes
import FakeSSH.Laws.GitServer.Authorization

/-!
# The spellings of one request

A request for a service and a repository can be written in many ways: hyphenated or
split, the repository bare or in quotes, with spaces before, between and behind. All
of them parse to one `Request`, and so does the command that is built for the
backend, which is one of them.

The tokenizer is taken piece by piece. `Reads st w st'` says that the text `w` takes
it from `st` to `st'` whatever stands behind, so pieces compose; spaces, words and
quoted words have one such law each.
-/

namespace FakeSSH.GitServer

open FakeSSH.Go

variable {st st' st'' : TokenizeState} {w v p : Bytes}

/-- A byte of a repository path or of a command's name. -/
def WordByte (b : UInt8) : Prop := b = slash ∨ repoSegmentChar b = true

/-- A word that needs no quotes. -/
structure PlainWord (w : Bytes) : Prop where
  full : w ≠ []
  chars : ∀ b ∈ w, WordByte b

theorem plainWord_of_normalizeRepoPath {q : Bytes} (h : normalizeRepoPath p = .ok q) :
    PlainWord p := by
  obtain ⟨chars, -, -, n, hsegs, -⟩ := normalizeRepoPath_ok_iff.mp h
  refine ⟨?_, chars⟩
  rintro rfl
  exact n.nonempty (hsegs.trans rfl)

theorem Service.plainWord_command (svc : Service) : PlainWord svc.command := by
  cases svc <;> exact ⟨by decide, by unfold WordByte; decide +kernel⟩

theorem Service.plainWord_subcommand (svc : Service) : PlainWord svc.subcommand := by
  cases svc <;> exact ⟨by decide, by unfold WordByte; decide +kernel⟩

theorem plainWord_git : PlainWord (str "git") :=
  ⟨by decide, by unfold WordByte; decide +kernel⟩

/-- The bytes of a word are printable, none is a space and none a quote. -/
theorem WordByte.bounds {b : UInt8} (h : WordByte b) :
    (0x20 < b.toNat ∧ b.toNat < 0x7F) ∧ b.toNat ≠ 0x27 ∧ b.toNat ≠ 0x22 := by
  have symbols : ∀ c ∈ str "._@+-",
      (0x20 < c.toNat ∧ c.toNat < 0x7F) ∧ c.toNat ≠ 0x27 ∧ c.toNat ≠ 0x22 := by decide +kernel
  rcases h with rfl | h
  · decide
  · simp only [repoSegmentChar, Bool.or_eq_true, Bool.and_eq_true, decide_eq_true_eq,
      List.contains_iff_mem, UInt8.le_iff_toNat_le] at h
    rcases h with ((⟨lo, hi⟩ | ⟨lo, hi⟩) | ⟨lo, hi⟩) | h
    · simp at lo hi
      omega
    · simp at lo hi
      omega
    · simp at lo hi
      omega
    · exact symbols b h

theorem WordByte.ascii {b : UInt8} (h : WordByte b) : b < 0x80 := by
  have bounds := h.bounds
  rw [UInt8.lt_iff_toNat_lt]
  simp
  omega

/-! ## Pieces of text -/

/-- The text takes the tokenizer from one state to the other, whatever follows. -/
def Reads (st : TokenizeState) (w : Bytes) (st' : TokenizeState) : Prop :=
  ∀ i rest, (runesFrom i 0 (w ++ rest)).foldlM tokenizeStep st =
    (runesFrom (i + w.length) 0 rest).foldlM tokenizeStep st'

theorem Reads.refl (st : TokenizeState) : Reads st [] st := fun _ _ => rfl

theorem Reads.trans (first : Reads st w st') (second : Reads st' v st'') :
    Reads st (w ++ v) st'' := by
  intro i rest
  rw [List.append_assoc, first, second, List.length_append, Nat.add_assoc]

/-- An ASCII byte is its own rune. -/
theorem reads_byte {b : UInt8} (ascii : b < 0x80)
    (step : ∀ i, tokenizeStep st ⟨i, b.toNat, 1⟩ = .ok st') : Reads st [b] st' := by
  intro i rest
  show (runesFrom i 0 (b :: rest)).foldlM tokenizeStep st = _
  rw [runesFrom, decodeRune_ascii ascii, List.foldlM_cons]
  dsimp only
  rw [step]
  rfl

/-- How a word is written. -/
inductive Quoting where
  | bare
  | single
  | double
  deriving DecidableEq, Repr

def Quoting.write : Quoting → Bytes → Bytes
  | .bare, w => w
  | .single, w => str "'" ++ w ++ str "'"
  | .double, w => str "\"" ++ w ++ str "\""

/-- Between two tokens, after these. -/
def gap (ts : List Bytes) : TokenizeState := { tokens := ts }

/-- In a token of which this much is read, after these, behind an open quote or not. -/
def inside (q : Quoting) (ts : List Bytes) (w : Bytes) : TokenizeState :=
  { tokens := ts, cur := w, inToken := true, inSingle := q == .single, inDouble := q == .double }

/-! ## Spaces -/

def spaces (n : Nat) : Bytes := List.replicate n 0x20

theorem reads_spaces (ts : List Bytes) (n : Nat) : Reads (gap ts) (spaces n) (gap ts) := by
  have one : Reads (gap ts) [0x20] (gap ts) := reads_byte (by decide) fun _ => rfl
  induction n with
  | zero => exact .refl _
  | succ n ih =>
    rw [spaces, List.replicate_succ]
    exact one.trans ih

/-- A word ends at its first space. -/
theorem reads_end (ts : List Bytes) (w : Bytes) {n : Nat} (h : 0 < n) :
    Reads (inside .bare ts w) (spaces n) (gap (ts ++ [w])) := by
  have one : Reads (inside .bare ts w) [0x20] (gap (ts ++ [w])) :=
    reads_byte (by decide) fun _ => rfl
  obtain ⟨m, rfl⟩ := Nat.exists_eq_add_one.mpr h
  rw [spaces, List.replicate_succ]
  exact one.trans (reads_spaces _ m)

/-! ## Words -/

/-- The two checks before the quote switch find nothing in a word. -/
theorem WordByte.checked {b : UInt8} (hb : WordByte b) (i : Nat) :
    ¬ (b.toNat = runeError ∧ (⟨i, b.toNat, 1⟩ : RuneAt).size = 1) ∧
      ¬ (b.toNat < 0x20 ∨ b.toNat = 0x7F) := by
  have bounds := hb.bounds.1
  unfold runeError
  omega

/-- A byte of a word outside quotes starts or continues the token. -/
theorem reads_wordByte {b : UInt8} (hb : WordByte b) (single : st.inSingle = false)
    (double : st.inDouble = false) :
    Reads st [b] { st with cur := st.cur ++ [b], inToken := true } := by
  obtain ⟨⟨lo, hi⟩, hsingle, hdouble⟩ := hb.bounds
  have hspace : ¬ (b.toNat = 0x20 ∨ b.toNat = 0x09) := by omega
  refine reads_byte hb.ascii fun i => ?_
  obtain ⟨hvalid, hcontrol⟩ := hb.checked i
  rw [tokenizeStep, if_neg hvalid, if_neg hcontrol, single, double, if_neg Bool.false_ne_true,
    if_neg Bool.false_ne_true, if_neg hsingle, if_neg hdouble, if_neg hspace,
    encodeRune_ascii (by omega)]

/-- Behind an open quote it continues the token. -/
theorem reads_quotedByte {b : UInt8} (hb : WordByte b)
    (quoted : st.inSingle = true ∨ st.inDouble = true) :
    Reads st [b] { st with cur := st.cur ++ [b] } := by
  obtain ⟨⟨lo, hi⟩, hsingle, hdouble⟩ := hb.bounds
  refine reads_byte hb.ascii fun i => ?_
  obtain ⟨hvalid, hcontrol⟩ := hb.checked i
  rw [tokenizeStep, if_neg hvalid, if_neg hcontrol]
  by_cases single : st.inSingle = true
  · rw [if_pos single, if_neg hsingle, encodeRune_ascii (by omega)]
  · rw [if_neg single, if_pos (quoted.resolve_left single), if_neg hdouble,
      encodeRune_ascii (by omega)]

theorem reads_wordBytes (q : Quoting) (ts : List Bytes) (read : Bytes)
    (chars : ∀ b ∈ w, WordByte b) : Reads (inside q ts read) w (inside q ts (read ++ w)) := by
  induction w generalizing read with
  | nil =>
    rw [List.append_nil]
    exact .refl _
  | cons b w ih =>
    obtain ⟨hb, chars⟩ := List.forall_mem_cons.mp chars
    have one : Reads (inside q ts read) [b] (inside q ts (read ++ [b])) := by
      cases q with
      | bare => exact reads_wordByte hb rfl rfl
      | single => exact reads_quotedByte hb (.inl rfl)
      | double => exact reads_quotedByte hb (.inr rfl)
    have more := ih (read ++ [b]) chars
    rw [List.append_assoc, List.singleton_append] at more
    exact one.trans more

/-- However a word is written, it is the word that is read. -/
theorem reads_word (q : Quoting) (ts : List Bytes) (plain : PlainWord w) :
    Reads (gap ts) (q.write w) (inside .bare ts w) := by
  cases q with
  | bare =>
    obtain ⟨b, rest, rfl⟩ := List.exists_cons_of_ne_nil plain.full
    obtain ⟨hb, chars⟩ := List.forall_mem_cons.mp plain.chars
    have first : Reads (gap ts) [b] (inside .bare ts [b]) := reads_wordByte hb rfl rfl
    exact first.trans (reads_wordBytes .bare ts [b] chars)
  | single =>
    have opens : Reads (gap ts) (str "'") (inside .single ts []) :=
      reads_byte (by decide) fun _ => rfl
    have closes : Reads (inside .single ts w) (str "'") (inside .bare ts w) :=
      reads_byte (by decide) fun _ => rfl
    exact (opens.trans (reads_wordBytes .single ts [] plain.chars)).trans closes
  | double =>
    have opens : Reads (gap ts) (str "\"") (inside .double ts []) :=
      reads_byte (by decide) fun _ => rfl
    have closes : Reads (inside .double ts w) (str "\"") (inside .bare ts w) :=
      reads_byte (by decide) fun _ => rfl
    exact (opens.trans (reads_wordBytes .double ts [] plain.chars)).trans closes

/-! ## Lines -/

/-- What the tokenizer answers where it ends outside quotes. -/
theorem tokenize_of_reads (h : Reads (gap []) w st) (single : st.inSingle = false)
    (double : st.inDouble = false) (some : st.flush.tokens ≠ []) :
    tokenize w = .ok st.flush.tokens := by
  have run : (runes w).foldlM tokenizeStep {} = .ok st := by
    have all := h 0 []
    rw [List.append_nil] at all
    exact all
  unfold tokenize
  refine bind_eq_ok.mpr ⟨st, run, ?_⟩
  rw [single, double, if_neg Bool.false_ne_true, if_neg Bool.false_ne_true, if_neg some]

/-- A line may end in its last word or in spaces. -/
theorem tokenize_line {ts : List Bytes} (h : Reads (gap []) w (inside .bare ts v)) (trail : Nat) :
    tokenize (w ++ spaces trail) = .ok (ts ++ [v]) := by
  have some : ts ++ [v] ≠ [] := List.append_ne_nil_of_right_ne_nil _ (List.cons_ne_nil _ _)
  rcases Nat.eq_zero_or_pos trail with rfl | positive
  · show tokenize (w ++ []) = _
    rw [List.append_nil]
    exact tokenize_of_reads h rfl rfl some
  · exact tokenize_of_reads (h.trans (reads_end ts v positive)) rfl rfl some

theorem tokenize_two {a b : Bytes} (ha : PlainWord a) (hb : PlainWord b) (q : Quoting)
    (lead trail : Nat) {n : Nat} (hn : 0 < n) :
    tokenize (spaces lead ++ a ++ spaces n ++ q.write b ++ spaces trail) = .ok [a, b] := by
  have first := (reads_spaces [] lead).trans (reads_word .bare [] ha)
  have second := (first.trans (reads_end [] a hn)).trans (reads_word q [a] hb)
  exact tokenize_line second trail

theorem tokenize_three {a b c : Bytes} (ha : PlainWord a) (hb : PlainWord b) (hc : PlainWord c)
    (q : Quoting) (lead trail : Nat) {n m : Nat} (hn : 0 < n) (hm : 0 < m) :
    tokenize (spaces lead ++ a ++ spaces n ++ b ++ spaces m ++ q.write c ++ spaces trail) =
      .ok [a, b, c] := by
  have first := (reads_spaces [] lead).trans (reads_word .bare [] ha)
  have second := (first.trans (reads_end [] a hn)).trans (reads_word .bare [a] hb)
  have third := (second.trans (reads_end [a] b hm)).trans (reads_word q [a, b] hc)
  exact tokenize_line third trail

/-! ## Metacharacters -/

/-- Nothing that the filter refuses. -/
def Safe (s : Bytes) : Prop := ∀ b ∈ s, b ∉ unsafeShellMetacharacters

theorem rejectUnsafeChars_safe (h : Safe w) : rejectUnsafeChars w = .ok () := by
  rw [rejectUnsafeChars, if_neg]
  intro bad
  obtain ⟨b, hb, hmeta⟩ := List.any_eq_true.mp bad
  exact h b hb (List.contains_iff_mem.mp hmeta)

theorem Safe.append (hw : Safe w) (hv : Safe v) : Safe (w ++ v) :=
  List.forall_mem_append.mpr ⟨hw, hv⟩

theorem safe_spaces (n : Nat) : Safe (spaces n) := by
  intro b hb
  rw [List.eq_of_mem_replicate hb]
  decide

theorem PlainWord.safe (plain : PlainWord w) : Safe w := by
  have outside : ∀ m ∈ unsafeShellMetacharacters, ¬ (m = slash ∨ repoSegmentChar m = true) := by
    decide +kernel
  exact fun b hb hmeta => outside b hmeta (plain.chars b hb)

theorem PlainWord.safe_write (plain : PlainWord w) (q : Quoting) : Safe (q.write w) := by
  cases q with
  | bare => exact plain.safe
  | single =>
    have quote : Safe (str "'") := by unfold Safe; decide +kernel
    exact (quote.append plain.safe).append quote
  | double =>
    have quote : Safe (str "\"") := by unfold Safe; decide +kernel
    exact (quote.append plain.safe).append quote

/-! ## One request -/

/-- The request for a service on a repository. -/
def Service.request (svc : Service) (repo : Bytes) : Request :=
  { command := svc.command, operation := svc.operation, repoPath := repo }

/-- The hyphenated form. -/
theorem parseGitCommand_hyphenated (svc : Service) {q : Bytes} (h : normalizeRepoPath p = .ok q)
    (quoting : Quoting) (lead trail : Nat) {n : Nat} (hn : 0 < n) :
    parseGitCommand (spaces lead ++ svc.command ++ spaces n ++ quoting.write p ++ spaces trail) =
      .ok (svc.request q) := by
  have plain := plainWord_of_normalizeRepoPath h
  refine parseGitCommand_ok_iff.mpr ⟨?_, svc, p, q, .inl ?_, h, rfl⟩
  · apply rejectUnsafeChars_safe
    exact ((((safe_spaces lead).append svc.plainWord_command.safe).append (safe_spaces n)).append
      (plain.safe_write quoting)).append (safe_spaces trail)
  · exact tokenize_two svc.plainWord_command plain quoting lead trail hn

/-- The split form. -/
theorem parseGitCommand_split (svc : Service) {q : Bytes} (h : normalizeRepoPath p = .ok q)
    (quoting : Quoting) (lead trail : Nat) {n m : Nat} (hn : 0 < n) (hm : 0 < m) :
    parseGitCommand (spaces lead ++ str "git" ++ spaces n ++ svc.subcommand ++ spaces m ++
      quoting.write p ++ spaces trail) = .ok (svc.request q) := by
  have plain := plainWord_of_normalizeRepoPath h
  refine parseGitCommand_ok_iff.mpr ⟨?_, svc, p, q, .inr ?_, h, rfl⟩
  · apply rejectUnsafeChars_safe
    exact ((((((safe_spaces lead).append plainWord_git.safe).append (safe_spaces n)).append
      svc.plainWord_subcommand.safe).append (safe_spaces m)).append
      (plain.safe_write quoting)).append (safe_spaces trail)
  · exact tokenize_three plainWord_git svc.plainWord_subcommand plain quoting lead trail hn hm

/-- ROUND TRIP. The command built for the backend parses to the service it was built
for and the normal form of the backend path; and every spelling of a service and an
accepted path, hyphenated or split, bare or quoted, with any spaces, is one request. -/
theorem backendCommand_roundTrip :
    (∀ (r : Request) (svc : Service) (q : Bytes), r.command = svc.command → r.backendPath ≠ [] →
      normalizeRepoPath r.backendPath = .ok q →
      ∃ out, buildBackendCommand r = .ok out ∧ parseGitCommand out =
        .ok { command := r.command, operation := svc.operation, repoPath := q }) ∧
    (∀ (svc : Service) (p q : Bytes), normalizeRepoPath p = .ok q →
      ∀ (quoting : Quoting) (lead n m trail : Nat), 0 < n → 0 < m →
        parseGitCommand (spaces lead ++ svc.command ++ spaces n ++ quoting.write p ++
          spaces trail) = .ok (svc.request q) ∧
        parseGitCommand (spaces lead ++ str "git" ++ spaces n ++ svc.subcommand ++ spaces m ++
          quoting.write p ++ spaces trail) = .ok (svc.request q)) := by
  constructor
  · intro r svc q command full accepted
    refine ⟨_, buildBackendCommand_eq command full accepted, ?_⟩
    have spelled := parseGitCommand_hyphenated svc (normalizeRepoPath_idem accepted) .single 0 0
      Nat.one_pos
    -- the built command is the spelling with one space and single quotes
    have same : spaces 0 ++ svc.command ++ spaces 1 ++ Quoting.single.write q ++ spaces 0 =
        svc.command ++ str " '" ++ q ++ str "'" := by
      simp [spaces, Quoting.write, str]
    rw [same] at spelled
    rw [command]
    exact spelled
  · intro svc p q accepted quoting lead n m trail hn hm
    exact ⟨parseGitCommand_hyphenated svc accepted quoting lead trail hn,
      parseGitCommand_split svc accepted quoting lead trail hn hm⟩

/-- A push to a repository that the backend knows under another path, and two spellings of
the same fetch. -/
theorem backendCommand_roundTrip_of_spellings :
    (∃ out, buildBackendCommand ⟨str "git-receive-pack", .write, str "p", str "/team//p.git"⟩ =
        .ok out ∧ out = str "git-receive-pack 'team/p.git'" ∧
      parseGitCommand out = .ok {
        command := str "git-receive-pack", operation := .write, repoPath := str "team/p.git" }) ∧
    parseGitCommand (str " git-upload-pack  \"/p\"") = .ok (Service.uploadPack.request (str "p")) ∧
    parseGitCommand (str "git upload-pack 'p' ") = .ok (Service.uploadPack.request (str "p")) := by
  refine ⟨?_, ?_, ?_⟩
  · obtain ⟨out, built, parsed⟩ := backendCommand_roundTrip.1
      ⟨str "git-receive-pack", .write, str "p", str "/team//p.git"⟩ .receivePack (str "team/p.git")
      rfl (by decide) (by decide)
    refine ⟨out, built, ?_, parsed⟩
    exact (Except.ok.inj (built.symm.trans (by decide)))
  · exact (backendCommand_roundTrip.2 .uploadPack (str "/p") (str "p") (by decide) .double 1 2 1 0
      (by decide) (by decide)).1
  · exact (backendCommand_roundTrip.2 .uploadPack (str "p") (str "p") (by decide) .single 0 1 1 1
      (by decide) (by decide)).2

end FakeSSH.GitServer
