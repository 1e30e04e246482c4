import FakeSSH.Laws.Shell.Turns

/-!
# A malformed segment takes its own line with it

The stream is divided into parts, each a segment that was handed over and what was
dropped behind it (`Divided`). Only a segment that does not parse and does not end
its line has something dropped behind it: what is left of that line, through its
newline. One part at the end may still be open, in the middle of its line.
-/

namespace FakeSSH.Shell

open FakeSSH.Go FakeSSH.Lib Relation

variable {σ E : Type} {exec : Pipelines σ E} {l l' : Loop σ E}

/-- `parseShellLine` rejects the segment, and not for a limit. -/
def Malformed (seg : Bytes) : Prop := ∃ e, parseShellLine seg = .error e ∧ e.isLimit = false

/-- A malformed segment in the middle of a line. -/
def Poisons (seg : Bytes) : Prop := Malformed seg ∧ seg.getLast? ≠ some newline

/-- A segment that was handed over, and what was dropped behind it. -/
structure Part where
  segment : Bytes
  remainder : Bytes

def Part.bytes (p : Part) : Bytes := p.segment ++ p.remainder

/-- Behind a segment that poisons its line the line is gone, through its newline.
Behind any other nothing is. -/
structure Part.Closed (p : Part) : Prop where
  line : Poisons p.segment → ∃ line, newline ∉ line ∧ p.remainder = line ++ [newline]
  nothing : ¬ Poisons p.segment → p.remainder = []

/-- A part whose line has not ended yet. -/
structure Part.Open (p : Part) : Prop where
  poisons : Poisons p.segment
  unended : newline ∉ p.remainder

/-- The stream in front of `rest`, as the segments handed over and what was dropped
behind each. -/
structure Divided (stream : Bytes) (passed : List Bytes) (rest : Bytes) (closed : List Part)
    (last : Option Part) : Prop where
  covers : stream = (closed ++ last.toList).flatMap Part.bytes ++ rest
  segments : passed = (closed ++ last.toList).map Part.segment
  closed : ∀ p ∈ closed, p.Closed
  last : ∀ p ∈ last, p.Open

variable {stream rest seg : Bytes} {passed : List Bytes} {closed : List Part} {last : Option Part}

/-! ## The next part -/

/-- What is dropped up to the next line is a line, or all there is. -/
theorem line_cases (s : Bytes) :
    (∃ line, newline ∉ line ∧ s = (line ++ [newline]) ++ afterLine s) ∨
      newline ∉ s ∧ afterLine s = [] := by
  induction s with
  | nil => exact .inr ⟨List.not_mem_nil, rfl⟩
  | cons c s ih =>
    by_cases hc : c = newline
    · exact .inl ⟨[], List.not_mem_nil, by rw [afterLine, if_pos hc, hc]; rfl⟩
    · have hc' : newline ≠ c := fun h => hc h.symm
      rw [afterLine, if_neg hc]
      rcases ih with ⟨line, hline, hs⟩ | ⟨hs, hafter⟩
      · refine .inl ⟨c :: line, ?_, ?_⟩
        · rw [List.mem_cons, not_or]
          exact ⟨hc', hline⟩
        · rw [List.cons_append, List.cons_append, ← hs]
      · refine .inr ⟨?_, hafter⟩
        rw [List.mem_cons, not_or]
        exact ⟨hc', hs⟩

/-- A segment that is handed over parses, or is malformed. -/
theorem judge_cases {left seg₀ rest₀ : Bytes} (h : judge left seg₀ rest₀ = .segment seg rest) :
    seg = seg₀ ∧ (¬ Malformed seg ∧ rest = rest₀ ∨ Malformed seg ∧ rest = afterLine left) := by
  obtain ⟨rfl, ⟨⟨line, parsed⟩, rfl⟩ | ⟨malformed, rfl⟩⟩ := judge_eq_segment h
  · refine ⟨rfl, .inl ⟨?_, rfl⟩⟩
    rintro ⟨e, failed, -⟩
    cases parsed.symm.trans failed
  · exact ⟨rfl, .inr ⟨malformed, rfl⟩⟩

theorem Part.closed_of_clean (clean : ¬ Poisons seg) : (Part.mk seg []).Closed :=
  ⟨fun poisons => absurd poisons clean, fun _ => rfl⟩

/-- The part that begins with a malformed segment goes to the end of its line. -/
theorem malformed_part {line tail : Bytes} {c : UInt8} (noNewline : newline ∉ line)
    (malformed : Malformed (line ++ [c])) :
    ∃ p : Part, p.segment = line ++ [c] ∧
      line ++ [c] ++ tail = p.bytes ++ afterLine (line ++ [c] ++ tail) ∧
      (p.Closed ∨ p.Open ∧ afterLine (line ++ [c] ++ tail) = []) := by
  have after : afterLine (line ++ [c] ++ tail) = afterLine (c :: tail) := by
    rw [List.append_assoc, List.singleton_append, afterLine_append noNewline]
  rw [after, afterLine]
  by_cases hc : c = newline
  · -- the segment ends its line
    rw [if_pos hc]
    refine ⟨⟨line ++ [c], []⟩, rfl, by simp [Part.bytes], .inl (Part.closed_of_clean ?_)⟩
    intro poisons
    exact absurd (by simp [hc]) poisons.2
  · have poisons : Poisons (line ++ [c]) := ⟨malformed, by simpa using hc⟩
    rw [if_neg hc]
    rcases line_cases tail with ⟨more, hmore, htail⟩ | ⟨htail, hafter⟩
    · refine ⟨⟨line ++ [c], more ++ [newline]⟩, rfl, ?_, .inl ⟨?_, ?_⟩⟩
      · rw [Part.bytes, List.append_assoc _ _ (afterLine tail), ← htail]
      · intro _
        exact ⟨more, hmore, rfl⟩
      · intro clean
        exact absurd poisons clean
    · refine ⟨⟨line ++ [c], tail⟩, rfl, ?_, .inr ⟨⟨poisons, htail⟩, hafter⟩⟩
      rw [hafter, Part.bytes, List.append_nil]

/-- The part that begins with a segment: what is dropped behind it lies between it
and what is read next. -/
theorem takeSegment_part {left : Bytes} (h : takeSegment left = .segment seg rest) :
    ∃ p : Part, p.segment = seg ∧ left = p.bytes ++ rest ∧
      (p.Closed ∨ p.Open ∧ rest = []) := by
  unfold takeSegment at h
  split at h
  next => cases h
  next =>
  cases hsep : findCommandSeparator (left.take (maxInputLineBytes + 1)) with
  | some sep =>
    rw [hsep] at h
    obtain ⟨line, c, tail, hcut, hlen, -, noNewline, hfound⟩ := cut_at_separator hsep
    have length : (line ++ [c]).length = sep + 1 := by simp [hlen]
    have hseg₀ : left.take (sep + 1) = line ++ [c] := by rw [hcut, List.take_left' length]
    have hrest₀ : left.drop (sep + 1) = tail := by rw [hcut, List.drop_left' length]
    dsimp only at h
    rw [hseg₀, hrest₀] at h
    obtain ⟨rfl, ⟨parses, rfl⟩ | ⟨malformed, rfl⟩⟩ := judge_cases h
    · refine ⟨⟨line ++ [c], []⟩, rfl, by simpa [Part.bytes] using hcut, .inl ?_⟩
      exact Part.closed_of_clean fun poisons => parses poisons.1
    · rw [hcut]
      exact malformed_part noNewline malformed
  | none =>
    rw [hsep] at h
    dsimp only at h
    split at h
    next => cases h
    next hshort =>
    have hnone : newline ∉ left := by
      rw [List.take_of_length_le (by omega)] at hsep
      exact not_mem_newline_of_none hsep
    obtain ⟨rfl, ⟨parses, rfl⟩ | ⟨malformed, rfl⟩⟩ := judge_cases h
    · refine ⟨⟨seg, []⟩, rfl, by simp [Part.bytes], .inl ?_⟩
      exact Part.closed_of_clean fun poisons => parses poisons.1
    · have hafter := afterLine_of_not_mem hnone
      refine ⟨⟨seg, []⟩, rfl, by simp [Part.bytes, hafter], .inr ⟨⟨⟨malformed, ?_⟩, ?_⟩, hafter⟩⟩
      · intro hlast
        exact hnone (List.mem_of_getLast? hlast)
      · exact List.not_mem_nil

/-! ## Going on -/

theorem Divided.start (stream : Bytes) : Divided stream [] stream [] none :=
  ⟨rfl, rfl, nofun, nofun⟩

/-- The next segment, with its line. -/
theorem Divided.push {p : Part} (h : Divided stream passed (p.bytes ++ rest) closed none)
    (whole : p.Closed) :
    Divided stream (passed ++ [p.segment]) rest (closed ++ [p]) none := by
  refine ⟨?_, ?_, ?_, nofun⟩
  · rw [h.covers]
    simp
  · rw [h.segments]
    simp
  · intro q hq
    rcases List.mem_append.mp hq with hq | hq
    · exact h.closed q hq
    · exact List.mem_singleton.mp hq ▸ whole

/-- The next segment, in the middle of its line. -/
theorem Divided.open {p : Part} (h : Divided stream passed (p.bytes ++ rest) closed none)
    (unended : p.Open) :
    Divided stream (passed ++ [p.segment]) rest closed (some p) := by
  refine ⟨?_, ?_, h.closed, ?_⟩
  · rw [h.covers]
    simp
  · rw [h.segments]
    simp
  · intro q hq
    exact Option.mem_some.mp hq ▸ unended

/-- More of the line. -/
theorem Divided.skip {p : Part} {more : Bytes}
    (h : Divided stream passed (more ++ rest) closed (some p)) (hmore : newline ∉ more) :
    Divided stream passed rest closed (some { p with remainder := p.remainder ++ more }) := by
  obtain ⟨poisons, unended⟩ := h.last p rfl
  refine ⟨?_, ?_, h.closed, ?_⟩
  · rw [h.covers]
    simp [Part.bytes]
  · rw [h.segments]
    simp
  · intro q hq
    rw [← Option.mem_some.mp hq]
    exact ⟨poisons, by simp [unended, hmore]⟩

/-- The end of the line. -/
theorem Divided.close {p : Part} (h : Divided stream passed (newline :: rest) closed (some p)) :
    Divided stream passed rest
      (closed ++ [{ p with remainder := p.remainder ++ [newline] }]) none := by
  obtain ⟨poisons, unended⟩ := h.last p rfl
  refine ⟨?_, ?_, ?_, nofun⟩
  · rw [h.covers]
    simp [Part.bytes]
  · rw [h.segments]
    simp
  · intro q hq
    rcases List.mem_append.mp hq with hq | hq
    · exact h.closed q hq
    · rw [List.mem_singleton.mp hq]
      exact ⟨fun _ => ⟨p.remainder, unended, rfl⟩, fun clean => absurd poisons clean⟩

/-! ## Runs -/

/-- The input is divided up to what the loop still has. The last part is open while
its line is being discarded, and stays open when the input ends first. -/
def Loop.Divides (stream : Bytes) (l : Loop σ E) : Prop :=
  ∃ closed last, Divided stream l.passed (l.buf ++ l.unread) closed last ∧
    (l.discardPhysicalLine = true → last ≠ none) ∧
    (last ≠ none → l.discardPhysicalLine = true ∨ l.buf ++ l.unread = [])

/-- Outside a discarded line, with something to read, every part is closed. -/
theorem Loop.Divides.all_closed (h : l.Divides stream) (hdis : l.discardPhysicalLine = false)
    (more : l.buf ++ l.unread ≠ []) :
    ∃ closed, Divided stream l.passed (l.buf ++ l.unread) closed none := by
  obtain ⟨closed, last, divided, -, stays⟩ := h
  cases last with
  | none => exact ⟨closed, divided⟩
  | some p =>
    rcases stays nofun with discards | nothing
    · rw [hdis] at discards
      cases discards
    · exact absurd nothing more

theorem Loop.Divides.of_closed
    (divided : Divided stream l.passed (l.buf ++ l.unread) closed none)
    (hdis : l.discardPhysicalLine = false) : l.Divides stream := by
  refine ⟨closed, none, divided, ?_, fun some => absurd rfl some⟩
  intro discards
  rw [hdis] at discards
  cases discards

/-- The end of a discarded line closes its part. -/
theorem Loop.Divides.lineEnd {line : Bytes} (h : l.Divides stream)
    (hdis : l.discardPhysicalLine = true) (hline : newline ∉ line)
    (cut : l.buf ++ l.unread = line ++ newline :: rest) :
    ∃ closed, Divided stream l.passed rest closed none := by
  obtain ⟨closed, last, divided, opened, -⟩ := h
  cases last with
  | none => exact absurd rfl (opened hdis)
  | some p =>
    rw [cut] at divided
    exact ⟨_, (divided.skip hline).close⟩

theorem Resumes.divides {l₀ : Loop σ E} (resumes : Resumes l l₀) (h : l.Divides stream) :
    l₀.Divides stream := by
  have passed : l₀.passed = l.passed := congrArg Reading.passed resumes.view
  rcases resumes.shorter with rfl | shorter
  · exact h
  · have left : l₀.buf ++ l₀.unread = l.view.left := by
      rw [← resumes.view, Loop.view_left resumes.open']
    have nonempty : l₀.buf ++ l₀.unread ≠ [] := by simp [resumes.nonempty]
    cases hdis : l.discardPhysicalLine with
    | false =>
      -- a buffer that is not being discarded is not shortened
      rw [Loop.view_left hdis, resumes.unread, List.append_cancel_right_eq] at left
      rw [left] at shorter
      exact absurd shorter (Nat.lt_irrefl _)
    | true =>
      have after : l₀.buf ++ l₀.unread = afterLine (l.buf ++ l.unread) := by
        rw [left, Loop.view, hdis]
        rfl
      rcases line_cases (l.buf ++ l.unread) with ⟨line, hline, cut⟩ | ⟨-, nothing⟩
      · rw [← after, List.append_assoc, List.singleton_append] at cut
        obtain ⟨closed, divided⟩ := h.lineEnd hdis hline cut
        exact .of_closed (passed ▸ divided) resumes.open'
      · exact absurd (after.trans nothing) nonempty

/-- A segment in whose line the buffer ends is a prefix of the buffer. -/
theorem Reading.Discards.seg_eq {r : Reading σ E} {buf unread rest : Bytes}
    (h : r.Discards (buf.drop seg.length ++ unread)) (left : r.left = buf ++ unread)
    (taken : takeSegment (buf ++ unread) = .segment seg rest) :
    Poisons seg ∧ seg = buf.take seg.length := by
  obtain ⟨-, sep, e, found, semi, hparse, hlimit, drops⟩ := h
  rw [left] at found semi hparse drops
  have hlt : sep < (buf ++ unread).length := by
    obtain ⟨h, -⟩ := List.getElem?_eq_some_iff.mp semi
    exact h
  have malformed : Malformed ((buf ++ unread).take (sep + 1)) := ⟨e, hparse, hlimit⟩
  have hseg : seg = (buf ++ unread).take (sep + 1) := by
    unfold takeSegment at taken
    split at taken
    · cases taken
    · rw [found] at taken
      exact (judge_cases taken).1
  have length : seg.length = sep + 1 := by
    rw [hseg, List.length_take]
    omega
  have fits : sep + 1 ≤ buf.length := by
    have := congrArg List.length drops
    rw [length] at this
    simp only [List.length_append, List.length_drop] at this hlt
    omega
  have prefix' : seg = buf.take (sep + 1) := by
    rw [hseg, List.take_append_of_le_length fits]
  refine ⟨⟨hseg ▸ malformed, ?_⟩, length ▸ prefix'⟩
  rw [List.getLast?_eq_getElem?, length, hseg, Nat.add_sub_cancel,
    List.getElem?_take_of_lt (Nat.lt_succ_self sep), semi]
  decide

theorem Segmented.divides {out : Loop σ E × Except (EndReason E) Bool}
    (segmented : Segmented exec l out) (h : l.Divides stream)
    (hdis : l.discardPhysicalLine = false) (hbuf : l.buf ≠ []) :
    (Loop.settle out).Divides stream := by
  cases segmented with
  | waits | limit => exact h
  | passed seg k hk taken =>
    have handed := l.handOver_fields exec seg k false
    obtain ⟨closed, divided⟩ := h.all_closed hdis (by simp [hbuf])
    obtain ⟨p, rfl, cut, part⟩ := takeSegment_part taken
    rw [cut] at divided
    unfold Loop.Divides
    rw [handed.passed, handed.buf, handed.unread, handed.discards]
    rcases part with whole | ⟨opened, nothing⟩
    · exact ⟨_, none, divided.push whole, nofun, fun some => absurd rfl some⟩
    · exact ⟨closed, some p, divided.open opened, nofun, fun _ => .inr nothing⟩
  | discards seg open' taken discards =>
    have handed := l.handOver_fields exec seg l.buf.length true
    obtain ⟨closed, divided⟩ := h.all_closed hdis (by simp [hbuf])
    obtain ⟨poisons, front⟩ := discards.seg_eq (Loop.view_left hdis) taken
    have opened : Part.Open ⟨seg, l.buf.drop seg.length⟩ :=
      ⟨poisons, fun hmem => open' (List.mem_of_mem_drop hmem)⟩
    have cut : l.buf = Part.bytes ⟨seg, l.buf.drop seg.length⟩ := by
      calc l.buf = l.buf.take seg.length ++ l.buf.drop seg.length :=
            (List.take_append_drop _ _).symm
        _ = seg ++ l.buf.drop seg.length := by rw [← front]
    rw [cut] at divided
    unfold Loop.Divides
    rw [handed.passed, handed.buf, handed.unread, handed.discards, List.drop_length,
      List.nil_append]
    exact ⟨closed, some _, divided.open opened, nofun, fun _ => .inl rfl⟩

theorem Processed.divides {out : Loop σ E × Except (EndReason E) Bool} (sound : l.Sound)
    (proc : Processed exec l out) (h : l.Divides stream) : (Loop.settle out).Divides stream := by
  cases proc with
  | empty => exact h
  | skipped hbuf hdis open' =>
    obtain ⟨closed, last, divided, opened, -⟩ := h
    cases last with
    | none => exact absurd rfl (opened hdis)
    | some p =>
      refine ⟨closed, some _, divided.skip open', nofun, ?_⟩
      intro _
      cases heof : l.eof with
      | true => exact .inr (by simp [Loop.settle, sound.eof heof])
      | false => exact .inl rfl
  | lineEnd line hdis hline hbuf =>
    have cut : l.buf ++ l.unread = line ++ newline :: l.unread := by
      rw [hbuf]
      simp
    obtain ⟨closed, divided⟩ := h.lineEnd hdis hline cut
    exact .of_closed divided rfl
  | segment l₀ _ resumes segmented =>
    exact segmented.divides (resumes.divides h) resumes.open' resumes.nonempty

/-- What a `Read` brings moves from the stream to the buffer. -/
theorem Loop.Divides.receive {got more : Bytes} {atEOF : Bool} (h : l.Divides stream)
    (hunread : l.unread = got ++ more) : (l.prompt.receive got more atEOF).Divides stream := by
  obtain ⟨closed, last, divided, opened, stays⟩ := h
  rw [hunread, ← List.append_assoc] at divided stays
  refine ⟨closed, last, ?_, ?_, ?_⟩
  · simpa [Loop.receive] using divided
  · simpa [Loop.receive] using opened
  · simpa [Loop.receive] using stays

theorem Turned.divides (sound : l.Sound) (hend : l.ended = none) (turned : Turned exec l l')
    (h : l.Divides stream) : l'.Divides stream := by
  cases turned with
  | settled out proc _ => exact proc.divides sound h
  | newCycle => exact h
  | finished l₀ proc _ => exact proc.divides sound h
  | full l₀ _ proc hrem => exact absurd hrem (proc.quiet.remaining_ne_zero (proc.sound sound) hend)
  | read l₀ got rest proc _ hunread _ _ =>
    have h₀ : l₀.Divides stream := proc.divides sound h
    exact h₀.receive hunread
  | eof l₀ proc _ hunread =>
    have h₀ : l₀.Divides stream := proc.divides sound h
    exact h₀.receive hunread

theorem divides_of_run (s : Session σ) (stream : Bytes)
    (run : ReflTransGen (LoopStep exec) (.start s stream) l) : l.Divides stream := by
  have keeps (a b : Loop σ E) (inv : a.Sound ∧ a.Divides stream) (step : LoopStep exec a b) :
      b.Sound ∧ b.Divides stream :=
    ⟨step.sound inv.1, (step.turned inv.1).divides inv.1 step.ended_eq_none inv.2⟩
  have start : (Loop.start s stream : Loop σ E).Divides stream :=
    ⟨[], none, .start stream, nofun, fun some => absurd rfl some⟩
  exact (invariant_of_steps keeps ⟨Loop.start_sound s stream, start⟩ run).2

/-- POISONED LINES. However the input is cut, in every state of the loop the bytes it
is done with are, in order, the segments handed over, each with what was dropped
behind it: behind a malformed segment that does not end its line the rest of the
line, through the next newline, and behind every other segment nothing. Only the
last part may be open, with no newline in what was dropped so far: the line is
being discarded, or the input has ended in it. -/
theorem malformed_poisons_its_line (exec : Pipelines σ E) (s : Session σ) (input : Bytes)
    (l : Loop σ E) (run : ReflTransGen (LoopStep exec) (.start s input) l) :
    ∃ closed last, Divided input l.passed (l.buf ++ l.unread) closed last ∧
      (last ≠ none → l.discardPhysicalLine = true ∨ l.buf ++ l.unread = []) := by
  obtain ⟨closed, last, divided, -, stays⟩ := divides_of_run s input run
  exact ⟨closed, last, divided, stays⟩

/-- A loop that has dropped the rest of a line that begins with a malformed segment. -/
def dropped : Loop Unit Unit :=
  { session := ⟨(), 2⟩, unread := [], commandsThisCycle := 1, passed := [str "&;"], prompts := 1 }

theorem dropped_run :
    ReflTransGen (LoopStep fun s _ => .ok (s, 0)) (.start ⟨(), 0⟩ (str "&;x\n")) dropped := by
  have found : findCommandSeparator (str "&;x\n") = some 1 := by decide +kernel
  have rejected : parseShellLine (str "&;") = .error .unsupportedBackgroundOperator := rfl
  have whole : consumePhysicalInputLine (str "&;x\n") = (4, true) := by decide
  have received : (Loop.start ⟨(), 0⟩ (str "&;x\n") : Loop Unit Unit).prompt.receive
      (str "&;x\n") [] false =
      { session := ⟨(), 0⟩, unread := [], buf := str "&;x\n", done := false, prompts := 1 } := by
    simp [Loop.receive, Loop.prompt, Loop.start]
    decide
  refine .head (.read _ (str "&;x\n") [] rfl rfl rfl (by decide) (by decide)) (.single ?_)
  refine .next _ rfl ?_
  rw [received]
  have nonempty : str "&;x\n" ≠ [] := by decide
  have front : (str "&;x\n").take 2 = str "&;" := by decide
  have behind : (str "&;x\n").drop 4 = [] := by decide
  simp [Loop.turn, Loop.processBufferedInput, Loop.processSegment, Loop.passSegment,
    Loop.handOver, executeShellLine, nonempty, found, front, rejected, whole, behind,
    maxCommandsPerReadCycle, SyntaxError.isLimit, normalizeShellStatus, dropped]

theorem malformed_poisons_its_line_dropped :
    ∃ closed last, Divided (str "&;x\n") [str "&;"] [] closed last ∧
      (last ≠ none → false = true ∨ ([] : Bytes) = []) :=
  malformed_poisons_its_line _ _ _ dropped dropped_run

end FakeSSH.Shell
