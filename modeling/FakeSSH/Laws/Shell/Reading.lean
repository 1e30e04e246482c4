import FakeSSH.Laws.Shell.Separator
import FakeSSH.Shell.Loop

/-!
# The shell without a buffer

What the loop is for, said without reads: it takes segments off the whole of what
the peer sends (`takeSegment`). A segment reaches to the first separator, which
must be within the length of a line, or to the end of the input. After one that
does not parse, the rest of its physical line is passed over.
-/

namespace FakeSSH.Shell

open FakeSSH.Go FakeSSH.Lib Relation

variable {σ E : Type}

/-! ## Lines -/

/-- What comes after the physical line that the bytes begin with. -/
def afterLine : Bytes → Bytes
  | [] => []
  | c :: rest => if c = newline then rest else afterLine rest

variable {s t : Bytes}

theorem afterLine_append (h : newline ∉ s) : afterLine (s ++ t) = afterLine t := by
  induction s with
  | nil => rfl
  | cons c s ih =>
    have hc : c ≠ newline := fun hc => h (hc ▸ List.mem_cons_self)
    rw [List.cons_append, afterLine, if_neg hc]
    exact ih fun hs => h (List.mem_cons_of_mem c hs)

theorem afterLine_of_not_mem (h : newline ∉ s) : afterLine s = [] := by
  have := afterLine_append (t := []) h
  rwa [List.append_nil] at this

theorem afterLine_line (h : newline ∉ s) : afterLine (s ++ newline :: t) = t := by
  rw [afterLine_append h, afterLine, if_pos rfl]

theorem afterLine_suffix (s : Bytes) : afterLine s <:+ s := by
  induction s with
  | nil => exact List.suffix_refl _
  | cons c s ih =>
    unfold afterLine
    split
    · exact List.suffix_cons c s
    · exact ih.trans (List.suffix_cons c s)

/-- `consumePhysicalInputLine` finds the end of the line or passes over all. -/
theorem consumePhysicalInputLine_cases (buf : Bytes) :
    (∃ line rest, buf = line ++ newline :: rest ∧ newline ∉ line ∧
      consumePhysicalInputLine buf = (line.length + 1, true)) ∨
    newline ∉ buf ∧ consumePhysicalInputLine buf = (buf.length, false) := by
  unfold consumePhysicalInputLine
  cases h : buf.findIdx? (· = newline) with
  | none =>
    refine .inr ⟨?_, rfl⟩
    rw [List.findIdx?_eq_none_iff] at h
    intro hm
    simpa using h newline hm
  | some i =>
    rw [List.findIdx?_eq_some_iff_getElem] at h
    obtain ⟨hi, at', before⟩ := h
    refine .inl ⟨buf.take i, buf.drop (i + 1), ?_, ?_, ?_⟩
    · have hnl : buf[i] = newline := by simpa using at'
      rw [← hnl, List.getElem_cons_drop, List.take_append_drop]
    · intro hm
      obtain ⟨j, hj, hnl⟩ := List.mem_iff_getElem.mp hm
      rw [List.length_take] at hj
      have := before j (by omega)
      rw [List.getElem_take] at hnl
      simp [hnl] at this
    · rw [List.length_take, Nat.min_eq_left (Nat.le_of_lt hi)]

/-! ## Segments -/

/-- What the bytes to come begin with. -/
inductive Taken where
  | finished
  | tooLong
  | limit (e : SyntaxError)
  | segment (seg rest : Bytes)

/-- A segment at the beginning of `left`, with what follows it. -/
def judge (left seg rest : Bytes) : Taken :=
  match parseShellLine seg with
  | .ok _ => .segment seg rest
  | .error e => if e.isLimit then .limit e else .segment seg (afterLine left)

def takeSegment (left : Bytes) : Taken :=
  if left = [] then .finished
  else match findCommandSeparator (left.take (maxInputLineBytes + 1)) with
    | some sep => judge left (left.take (sep + 1)) (left.drop (sep + 1))
    | none => if maxInputLineBytes < left.length then .tooLong else judge left left []

/-- A separator in the first bytes decides. -/
theorem takeSegment_of_separator {sep : Nat} (h : findCommandSeparator s = some sep)
    (fits : s.length ≤ maxInputLineBytes + 1) :
    findCommandSeparator ((s ++ t).take (maxInputLineBytes + 1)) = some sep ∧
      takeSegment (s ++ t) = judge (s ++ t) (s.take (sep + 1)) (s.drop (sep + 1) ++ t) := by
  have hlt := findCommandSeparator_lt h
  have found : findCommandSeparator ((s ++ t).take (maxInputLineBytes + 1)) = some sep := by
    rw [List.take_append, List.take_of_length_le fits]
    exact findCommandSeparator_append h
  refine ⟨found, ?_⟩
  have nonempty : s ++ t ≠ [] := by
    intro nil
    rw [(List.append_eq_nil_iff.mp nil).1] at hlt
    exact Nat.not_lt_zero _ hlt
  rw [takeSegment, if_neg nonempty, found]
  dsimp only
  rw [List.take_append_of_le_length hlt, List.drop_append_of_le_length hlt]

/-- The last bytes are a segment without a separator. -/
theorem takeSegment_last (h : findCommandSeparator s = none) (nonempty : s ≠ [])
    (short : s.length ≤ maxInputLineBytes) : takeSegment s = judge s s [] := by
  rw [takeSegment, if_neg nonempty, List.take_of_length_le (by omega), h]
  dsimp only
  rw [if_neg (by omega)]

/-- A full buffer without a separator is too long, whatever follows. -/
theorem takeSegment_full (h : findCommandSeparator s = none)
    (full : s.length = maxInputLineBytes + 1) : takeSegment (s ++ t) = .tooLong := by
  have nonempty : s ++ t ≠ [] := by
    intro nil
    rw [(List.append_eq_nil_iff.mp nil).1] at full
    exact absurd full (by decide)
  rw [takeSegment, if_neg nonempty, List.take_append_of_le_length (Nat.le_of_eq full.symm),
    List.take_of_length_le (Nat.le_of_eq full), h]
  dsimp only
  rw [if_pos (by rw [List.length_append]; omega)]

/-- Where the first bytes have a separator, they are cut behind it. -/
theorem cut_at_separator {left : Bytes} {sep : Nat}
    (h : findCommandSeparator (left.take (maxInputLineBytes + 1)) = some sep) :
    ∃ line c rest, left = line ++ [c] ++ rest ∧ line.length = sep ∧ sep ≤ maxInputLineBytes ∧
      newline ∉ line ∧ findCommandSeparator (line ++ [c]) = some sep := by
  have within := findCommandSeparator_lt h
  rw [List.length_take] at within
  have hlt : sep < left.length := by omega
  have cut : left.take (sep + 1) = left.take sep ++ [left[sep]] := by
    rw [List.take_add_one, List.getElem?_eq_getElem hlt]
    rfl
  have length : (left.take sep).length = sep := by
    rw [List.length_take]
    omega
  refine ⟨left.take sep, left[sep], left.drop (sep + 1), ?_, length, by omega, ?_, ?_⟩
  · rw [← cut, List.take_append_drop]
  · obtain ⟨m, read, -⟩ := findCommandSeparator_stop h
    rw [List.take_take, Nat.min_eq_left (by omega)] at read
    exact not_mem_newline_of_scan read
  · have split := List.take_append_drop (sep + 1) (left.take (maxInputLineBytes + 1))
    rw [List.take_take, Nat.min_eq_left (by omega)] at split
    rw [← split] at h
    rw [← cut]
    exact findCommandSeparator_of_append h (by rw [List.length_take]; omega)

/-- What `judge` hands over: the segment, with what follows it if it parses and with the
next line if it is malformed. -/
theorem judge_eq_segment {left seg₀ rest₀ seg rest : Bytes}
    (h : judge left seg₀ rest₀ = .segment seg rest) : seg = seg₀ ∧
      ((∃ line, parseShellLine seg₀ = .ok line) ∧ rest = rest₀ ∨
        (∃ e, parseShellLine seg₀ = .error e ∧ e.isLimit = false) ∧ rest = afterLine left) := by
  unfold judge at h
  cases hparse : parseShellLine seg₀ with
  | ok line =>
    rw [hparse] at h
    cases h
    exact ⟨rfl, .inl ⟨⟨line, rfl⟩, rfl⟩⟩
  | error e =>
    rw [hparse] at h
    dsimp only at h
    split at h
    · cases h
    · next hlimit =>
      cases h
      exact ⟨rfl, .inr ⟨⟨e, rfl, eq_false_of_ne_true hlimit⟩, rfl⟩⟩

/-- After a segment comes what follows it, or the next line. -/
theorem judge_rest {left seg₀ rest₀ seg rest : Bytes}
    (h : judge left seg₀ rest₀ = .segment seg rest) : rest = rest₀ ∨ rest = afterLine left := by
  rcases judge_eq_segment h with ⟨-, ⟨-, parsed⟩ | ⟨-, malformed⟩⟩
  · exact .inl parsed
  · exact .inr malformed

theorem judge_rest_le {seg rest : Bytes} {c : UInt8} (h : newline ∉ s)
    (taken : judge (s ++ [c] ++ t) (s ++ [c]) t = .segment seg rest) : rest.length ≤ t.length := by
  rcases judge_rest taken with rfl | rfl
  · exact Nat.le_refl _
  · rw [List.append_assoc, List.singleton_append, afterLine_append h, afterLine]
    split
    · exact Nat.le_refl _
    · exact (afterLine_suffix t).length_le

/-- Nothing is left after the last segment. -/
theorem judge_last {seg rest : Bytes} (h : newline ∉ s) (taken : judge s s [] = .segment seg rest) :
    rest = [] := by
  rcases judge_rest taken with rfl | rfl
  · rfl
  · exact afterLine_of_not_mem h

theorem takeSegment_suffix {left seg rest : Bytes} (h : takeSegment left = .segment seg rest) :
    rest <:+ left := by
  have judged (seg₀ rest₀ : Bytes) (inside : rest₀ <:+ left)
      (h : judge left seg₀ rest₀ = .segment seg rest) : rest <:+ left := by
    rcases judge_rest h with rfl | rfl
    · exact inside
    · exact afterLine_suffix left
  unfold takeSegment at h
  split at h
  · cases h
  · split at h
    · exact judged _ _ (List.drop_suffix _ _) h
    · split at h
      · cases h
      · exact judged _ _ List.nil_suffix h

/-- The session at a segment boundary, with what is left of the input. -/
structure Reading (σ E : Type) where
  session : Session σ
  left : Bytes
  passed : List Bytes := []
  ended : Option (EndReason E) := none

/-- Hands a segment over. -/
def Reading.pass (exec : Pipelines σ E) (r : Reading σ E) (seg rest : Bytes) : Reading σ E :=
  match executeShellLine exec r.session seg with
  | .ok s => { session := s, left := rest, passed := r.passed ++ [seg] }
  | .error why =>
    { session := r.session, left := rest, passed := r.passed ++ [seg], ended := some why }

theorem Reading.pass_passed (exec : Pipelines σ E) (r : Reading σ E) (seg rest : Bytes) :
    (r.pass exec seg rest).passed = r.passed ++ [seg] := by
  unfold Reading.pass
  cases executeShellLine exec r.session seg <;> rfl

theorem Reading.pass_left (exec : Pipelines σ E) (r : Reading σ E) (seg rest : Bytes) :
    (r.pass exec seg rest).left = rest := by
  unfold Reading.pass
  cases executeShellLine exec r.session seg <;> rfl

/-- Takes the next segment, or ends. -/
def Reading.next (exec : Pipelines σ E) (r : Reading σ E) : Reading σ E :=
  match takeSegment r.left with
  | .finished => { r with ended := some .endOfInput }
  | .tooLong => { r with ended := some .inputLineTooLong }
  | .limit e => { r with ended := some (.syntaxLimit e) }
  | .segment seg rest => r.pass exec seg rest

def ReadingStep (exec : Pipelines σ E) (r r' : Reading σ E) : Prop :=
  r.ended = none ∧ r' = r.next exec

def Reading.start (s : Session σ) (input : Bytes) : Reading σ E := { session := s, left := input }

variable {exec : Pipelines σ E} {r r₁ r₂ : Reading σ E}

theorem Reading.next_finished (h : takeSegment r.left = .finished) :
    r.next exec = { r with ended := some .endOfInput } := by
  simp only [Reading.next, h]

theorem Reading.next_tooLong (h : takeSegment r.left = .tooLong) :
    r.next exec = { r with ended := some .inputLineTooLong } := by
  simp only [Reading.next, h]

theorem Reading.next_limit {e : SyntaxError} (h : takeSegment r.left = .limit e) :
    r.next exec = { r with ended := some (.syntaxLimit e) } := by
  simp only [Reading.next, h]

theorem Reading.next_segment {seg rest : Bytes} (h : takeSegment r.left = .segment seg rest) :
    r.next exec = r.pass exec seg rest := by
  simp only [Reading.next, h]

/-- A reading ends in one way. -/
theorem Reading.end_unique (h₁ : ReflTransGen (ReadingStep exec) r r₁)
    (h₂ : ReflTransGen (ReadingStep exec) r r₂) (end₁ : r₁.ended ≠ none) (end₂ : r₂.ended ≠ none) :
    r₁ = r₂ := by
  refine stop_unique ?_ h₁ h₂ (fun x hx => end₁ hx.1) (fun x hx => end₂ hx.1)
  intro s a b ha hb
  rw [ha.2, hb.2]

/-- What is left is the end of what there was. -/
theorem Reading.left_suffix (reading : ReflTransGen (ReadingStep exec) r r₁) :
    r₁.left <:+ r.left := by
  have keeps (a b : Reading σ E) (inside : a.left <:+ r.left) (step : ReadingStep exec a b) :
      b.left <:+ r.left := by
    obtain ⟨-, rfl⟩ := step
    cases taken : takeSegment a.left with
    | finished => rwa [Reading.next_finished taken]
    | tooLong => rwa [Reading.next_tooLong taken]
    | limit e => rwa [Reading.next_limit taken]
    | segment seg rest =>
      rw [Reading.next_segment taken, Reading.pass_left]
      exact (takeSegment_suffix taken).trans inside
  exact invariant_of_steps keeps (List.suffix_refl _) reading

/-! ## Windows -/

/-- After the line that `left` is in the middle of, the input is too long anyway,
if that line has a whole buffer without a separator in it. -/
def Tolerant (left : Bytes) : Prop :=
  ∀ pre window post, left = pre ++ window ++ post → newline ∉ pre →
    window.length = maxInputLineBytes + 1 → findCommandSeparator window = none →
    takeSegment (afterLine left) = .tooLong

theorem Tolerant.of_append (h : Tolerant (s ++ t)) (hs : newline ∉ s) : Tolerant t := by
  intro pre window post ht hpre hlen hsep
  have whole := h (s ++ pre) window post (by rw [ht]; simp) (by simp [hs, hpre]) hlen hsep
  rwa [afterLine_append hs] at whole

/-- The reading comes to a segment that does not parse and ends in a `;`; the line
goes on with `left`. -/
def Reading.Discards (r : Reading σ E) (left : Bytes) : Prop :=
  r.ended = none ∧ ∃ sep e,
    findCommandSeparator (r.left.take (maxInputLineBytes + 1)) = some sep ∧
    r.left[sep]? = some semicolon ∧ parseShellLine (r.left.take (sep + 1)) = .error e ∧
    e.isLimit = false ∧ left = r.left.drop (sep + 1)

end FakeSSH.Shell
