import FakeSSH.Lib.Scanner
import FakeSSH.Shell.Input

/-!
# Separator search reads byte by byte

`findCommandSeparator` looks one byte ahead after a backslash and runs to the end
of a comment. It is the same as a scanner that reads one byte at a time and keeps
in its state whether the last byte was a backslash or a comment has begun
(`findCommandSeparator_eq`). So what it finds depends on no byte after it.
-/

namespace FakeSSH.Shell

open FakeSSH.Go FakeSSH.Lib

/-- Where the search is: outside quotes, at the byte after a backslash, in a
quote, or in a comment. -/
inductive Mode where
  | plain (tokenStart : Bool)
  | escape
  | single
  | double
  | doubleEscape
  | comment
  deriving DecidableEq, Repr

/-- One byte, `none` at a separator. -/
def Mode.next (m : Mode) (c : UInt8) : Option Mode :=
  if c = newline then none
  else match m with
    | .plain tokenStart =>
      if c = backslash then some .escape
      else if c = singleQuote then some .single
      else if c = doubleQuote then some .double
      else if c = numberSign then some (if tokenStart then .comment else .plain tokenStart)
      else if c = semicolon then none
      else some (.plain (isShellSpace c || isSyntaxOperatorStart c))
    | .escape => some (.plain false)
    | .single => some (if c = singleQuote then .plain false else .single)
    | .double =>
      if c = backslash then some .doubleEscape
      else some (if c = doubleQuote then .plain false else .double)
    | .doubleEscape => some .double
    | .comment => some .comment

theorem Mode.next_newline (m : Mode) : m.next newline = none := by
  simp [Mode.next]

/-- The quote that a mode is in. A quote opens in the middle of a token. -/
def Mode.ofQuote (tokenStart : Bool) : Quote → Mode
  | .noQuote => .plain tokenStart
  | .single => .single
  | .double => .double

theorem firstStop_comment (buf : Bytes) :
    firstStop Mode.next .comment buf = buf.findIdx? (· = newline) := by
  induction buf with
  | nil => rfl
  | cons c rest ih =>
    by_cases hc : c = newline
    · subst hc
      rw [firstStop_cons_of_stop (Mode.next_newline _)]
      simp [List.findIdx?_cons]
    · have step : Mode.comment.next c = some .comment := by simp [Mode.next, hc]
      rw [firstStop_cons step, ih]
      simp [List.findIdx?_cons, hc]

theorem findSeparatorFrom_eq (quote : Quote) (tokenStart : Bool) (buf : Bytes)
    (inside : quote ≠ .noQuote → tokenStart = false) :
    findSeparatorFrom quote tokenStart buf =
      firstStop Mode.next (.ofQuote tokenStart quote) buf := by
  fun_induction findSeparatorFrom quote tokenStart buf with
  | case1 => rfl
  | case8 => simp_all [firstStop, Mode.next, Mode.ofQuote, firstStop_comment]
  -- a byte in a quote closes it or not
  | case12 _ c =>
    by_cases hc : c = singleQuote <;> simp_all [firstStop, Mode.next, Mode.ofQuote]
  | case16 _ c =>
    by_cases hc : c = doubleQuote <;> simp_all [firstStop, Mode.next, Mode.ofQuote]
  | _ => simp_all [firstStop, Mode.next, Mode.ofQuote, Option.map_map, Function.comp_def]

theorem findCommandSeparator_eq (buf : Bytes) :
    findCommandSeparator buf = firstStop Mode.next (.plain true) buf :=
  findSeparatorFrom_eq .noQuote true buf nofun

/-! ## What it finds -/

variable {buf more : Bytes} {i : Nat}

theorem findCommandSeparator_lt (h : findCommandSeparator buf = some i) : i < buf.length := by
  rw [findCommandSeparator_eq] at h
  exact firstStop_lt h

theorem findCommandSeparator_append (h : findCommandSeparator buf = some i) :
    findCommandSeparator (buf ++ more) = some i := by
  rw [findCommandSeparator_eq] at h ⊢
  exact firstStop_append h

theorem findCommandSeparator_of_append (h : findCommandSeparator (buf ++ more) = some i)
    (hi : i < buf.length) : findCommandSeparator buf = some i := by
  rw [findCommandSeparator_eq] at h ⊢
  exact firstStop_of_append h hi

/-- A scanner that was not stopped has met no newline. -/
theorem not_mem_newline_of_scan {m n : Mode} (h : scan Mode.next m buf = some n) :
    newline ∉ buf := by
  induction buf generalizing m with
  | nil => exact List.not_mem_nil
  | cons c rest ih =>
    obtain ⟨m', step, later⟩ := scan_cons_eq_some.mp h
    intro hmem
    rcases List.mem_cons.mp hmem with rfl | hrest
    · rw [Mode.next_newline] at step
      cases step
    · exact ih later hrest

theorem not_mem_newline_of_none (h : findCommandSeparator buf = none) : newline ∉ buf := by
  rw [findCommandSeparator_eq, firstStop_eq_none] at h
  obtain ⟨n, read⟩ := h
  exact not_mem_newline_of_scan read

/-- What stops the scanner: a newline anywhere, or a `;` outside quotes. -/
theorem Mode.next_eq_none {m : Mode} {c : UInt8} (h : m.next c = none) :
    c = newline ∨ c = semicolon ∧ ∃ tokenStart, m = .plain tokenStart := by
  by_cases hc : c = newline
  · exact .inl hc
  · refine .inr ?_
    cases m with
    | plain tokenStart =>
      refine ⟨?_, tokenStart, rfl⟩
      by_contra hs
      simp only [Mode.next, hc, hs, if_false] at h
      split_ifs at h
    | double =>
      simp only [Mode.next, hc, if_false] at h
      split_ifs at h
    | _ => simp [Mode.next, hc] at h

/-- The separator that is found, and the mode in which it is met. -/
theorem findCommandSeparator_stop (h : findCommandSeparator buf = some i) :
    ∃ m, scan Mode.next (.plain true) (buf.take i) = some m ∧ (buf[i]? = some newline ∨
      buf[i]? = some semicolon ∧ ∃ tokenStart, m = .plain tokenStart) := by
  rw [findCommandSeparator_eq] at h
  obtain ⟨m, c, read, hc, stop⟩ := firstStop_eq_some h
  refine ⟨m, read, ?_⟩
  rcases Mode.next_eq_none stop with rfl | ⟨rfl, plain⟩
  · exact .inl hc
  · exact .inr ⟨hc, plain⟩

/-- STABILITY. Bytes that arrive later neither move nor hide a separator, and a separator
within the earlier bytes is found without the later ones. It is a newline or a `;`, and
no newline stands before it. -/
theorem findCommandSeparator_stable (b m : Bytes) (i : Nat) :
    (findCommandSeparator b = some i →
      findCommandSeparator (b ++ m) = some i ∧ newline ∉ b.take i ∧
      (b[i]? = some newline ∨ b[i]? = some semicolon)) ∧
    (findCommandSeparator (b ++ m) = some i → i < b.length →
      findCommandSeparator b = some i) := by
  refine ⟨fun found => ?_, findCommandSeparator_of_append⟩
  obtain ⟨n, read, stop⟩ := findCommandSeparator_stop found
  refine ⟨findCommandSeparator_append found, not_mem_newline_of_scan read, ?_⟩
  rcases stop with newline | ⟨semicolon, -⟩
  · exact .inl newline
  · exact .inr semicolon

end FakeSSH.Shell
