import FakeSSH.Laws.Shell.Following

/-!
# How the input is cut does not matter, with one exception

The loop over reads follows the reading of the whole input (`Loop.view`): a turn
leaves the view alone or takes the next segment. The exception is a line that is
being discarded. The buffer is then emptied before each read, and yet the length
check of `readInput` applies to what the read brings: a single read that fills the
buffer, with no separator in it, ends the session, where shorter reads of the same
bytes do not.
-/

namespace FakeSSH.Shell

open FakeSSH.Go FakeSSH.Lib Relation

variable {σ E : Type} {exec : Pipelines σ E} {l l' : Loop σ E}

/-! ## Following the reading -/

variable {s : Session σ} {input : Bytes}

/-- Wherever a line is discarded, it does not matter how it is read. -/
def Steady (exec : Pipelines σ E) (s : Session σ) (input : Bytes) : Prop :=
  ∀ r left, ReflTransGen (ReadingStep exec) (.start s input) r → r.Discards left → Tolerant left

/-- The loop is where the reading of the whole input has come to. -/
structure Tracks (exec : Pipelines σ E) (s : Session σ) (input : Bytes) (l : Loop σ E) : Prop
    extends l.Sound where
  follows : ReflTransGen (ReadingStep exec) (.start s input) l.view
  tolerant : l.ended = none → l.discardPhysicalLine = true → Tolerant (l.buf ++ l.unread)

theorem Processed.tracks {out : Loop σ E × Except (EndReason E) Bool} (steady : Steady exec s input)
    (track : Tracks exec s input l) (hend : l.ended = none) (proc : Processed exec l out) :
    Tracks exec s input (Loop.settle out) := by
  refine ⟨proc.sound track.toSound, track.follows.trans (proc.follows track.toSound hend), ?_⟩
  intro goesOn hdis
  cases proc with
  | empty => exact track.tolerant hend hdis
  | skipped _ before open' => exact (track.tolerant hend before).of_append open'
  | lineEnd => cases hdis
  | segment l₀ _ resumes seg =>
    cases seg with
    | waits => exact absurd hdis (by simp [Loop.settle, resumes.open'])
    | limit => cases goesOn
    | passed seg k =>
      rw [(l₀.handOver_fields exec seg k false).discards] at hdis
      cases hdis
    | discards seg open' _ discards =>
      -- what is left of the line is part of what followed the segment
      have handed := l₀.handOver_fields exec seg l₀.buf.length true
      rw [handed.buf, handed.unread, List.drop_length]
      refine (steady _ _ track.follows (resumes.view ▸ discards)).of_append ?_
      exact fun h => open' (List.mem_of_mem_drop h)

/-- A read that the reading does not notice, or that ends both. -/
theorem Tracks.read_follows {l₀ : Loop σ E} {got rest : Bytes} {atEOF : Bool}
    (track : Tracks exec s input l₀) (hend : l₀.ended = none) (quiet : Quiet l l₀)
    (hunread : l₀.unread = got ++ rest)
    (fits : (l₀.buf ++ got).length ≤ maxInputLineBytes + 1) :
    ReflTransGen (ReadingStep exec) (.start s input) (l₀.prompt.receive got rest atEOF).view := by
  have same := Loop.view_receive hend hunread atEOF
  have ended := Loop.receive_ended (l₀.prompt_buf.symm ▸ fits) rest atEOF
  rw [l₀.prompt_buf] at ended
  split at ended
  next full =>
    have tooLong : takeSegment l₀.view.left = .tooLong := by
      cases hdis : l₀.discardPhysicalLine with
      | false =>
        rw [Loop.view_left hdis, hunread, ← List.append_assoc]
        exact takeSegment_full full.2 full.1
      | true =>
        -- the line is being discarded, and the reading is too long after it
        have nil := quiet.discards hdis
        rw [nil, List.nil_append] at full
        have := track.tolerant hend hdis [] got rest (by rw [nil, hunread]; rfl) List.not_mem_nil
          full.1 full.2
        simpa [Loop.view, hdis] using this
    refine track.follows.tail ⟨hend, ?_⟩
    rw [Reading.next_tooLong tooLong, ← same, ← ended]
    rfl
  next =>
    have : (l₀.prompt.receive got rest atEOF).view = l₀.view := by
      rw [← same, ← ended]
    rw [this]
    exact track.follows

theorem Tracks.read {l₀ : Loop σ E} {got rest : Bytes} {atEOF : Bool}
    (track : Tracks exec s input l₀) (hend : l₀.ended = none) (quiet : Quiet l l₀)
    (hunread : l₀.unread = got ++ rest) (hlen : got.length ≤ l₀.remaining)
    (open' : l₀.eof = false) (heof : atEOF = true → rest = []) :
    Tracks exec s input (l₀.prompt.receive got rest atEOF) := by
  have fits := track.append_fits hlen
  refine ⟨track.receive hlen open' heof, track.read_follows hend quiet hunread fits, ?_⟩
  intro _ hdis
  have := track.tolerant hend (by simpa [Loop.receive] using hdis)
  rw [hunread, ← List.append_assoc] at this
  simpa [Loop.receive] using this

theorem Turned.tracks (steady : Steady exec s input) (track : Tracks exec s input l)
    (hend : l.ended = none) (turned : Turned exec l l') : Tracks exec s input l' := by
  cases turned with
  | settled out proc _ => exact proc.tracks steady track hend
  | newCycle _ => exact ⟨⟨track.eof, track.fits, track.room⟩, track.follows, track.tolerant⟩
  | finished l₀ proc heof =>
    have track₀ : Tracks exec s input l₀ := proc.tracks steady track hend
    have quiet := proc.quiet
    have left : l₀.view.left = [] := by
      simp [Loop.view, quiet.eof heof, track₀.eof heof, afterLine]
    have step : ReadingStep exec l₀.view
        ({ l₀ with ended := some .endOfInput } : Loop σ E).view := by
      refine ⟨quiet.ended.trans hend, ?_⟩
      rw [Reading.next_finished (by rw [left]; rfl)]
      rfl
    refine ⟨⟨track₀.eof, track₀.fits, ?_⟩, track₀.follows.tail step, ?_⟩
    · intro _ goesOn
      cases goesOn
    · intro goesOn
      cases goesOn
  | full l₀ _ proc hrem =>
    exact absurd hrem (proc.quiet.remaining_ne_zero (proc.sound track.toSound) hend)
  | read l₀ got rest proc heof hunread hgot hlen =>
    apply (proc.tracks steady track hend : Tracks exec s input l₀).read
      (proc.quiet.ended.trans hend) proc.quiet hunread hlen heof
    intro h
    cases h
  | eof l₀ proc heof hunread =>
    exact (proc.tracks steady track hend : Tracks exec s input l₀).read
      (proc.quiet.ended.trans hend) proc.quiet hunread (Nat.zero_le _) heof fun _ => rfl

theorem tracks_of_run (steady : Steady exec s input)
    (run : ReflTransGen (LoopStep exec) (.start s input) l) : Tracks exec s input l := by
  have keeps (a b : Loop σ E) (track : Tracks exec s input a) (step : LoopStep exec a b) :
      Tracks exec s input b :=
    (step.turned track.toSound).tracks steady track step.ended_eq_none
  have start : Tracks exec s input (.start s input) :=
    ⟨Loop.start_sound s input, .refl, fun _ h => Bool.noConfusion h⟩
  exact invariant_of_steps keeps start run

/-! ## Independence -/

/-- What a session does is up to what the peer sends and not to how it is cut:
the loop ends, and any two runs hand over the same segments and end for the same
reason. -/
def ChunkIndependent (exec : Pipelines σ E) (s : Session σ) (input : Bytes) : Prop :=
  Inevitable (LoopStep exec) (fun l => l.ended ≠ none) (.start s input) ∧
    ∀ l₁ l₂, ReflTransGen (LoopStep exec) (.start s input) l₁ →
      ReflTransGen (LoopStep exec) (.start s input) l₂ → l₁.ended ≠ none → l₂.ended ≠ none →
      l₁.passed = l₂.passed ∧ l₁.ended = l₂.ended

theorem Steady.independent (steady : Steady exec s input) : ChunkIndependent exec s input := by
  refine ⟨loop_ends exec (Loop.start_sound s input), ?_⟩
  intro l₁ l₂ run₁ run₂ end₁ end₂
  have same : l₁.view = l₂.view :=
    Reading.end_unique (tracks_of_run steady run₁).follows (tracks_of_run steady run₂).follows
      end₁ end₂
  exact ⟨congrArg Reading.passed same, congrArg Reading.ended same⟩

/-! ## The exception -/

/-- A buffer that is a segment which does not parse, without a newline: the loop
goes on in the middle of the line. -/
theorem Loop.process_malformed (exec : Pipelines σ E) {seg : Bytes} {e : SyntaxError}
    (hbuf : l.buf = seg) (hdis : l.discardPhysicalLine = false) (heof : l.eof = false)
    (found : findCommandSeparator seg = some (seg.length - 1)) (open' : newline ∉ seg)
    (hparse : parseShellLine seg = .error e) (hlimit : e.isLimit = false) :
    l.processBufferedInput exec = ({ l with
      session := { l.session with lastStatus := normalizeShellStatus 2 }
      buf := []
      done := true
      discardPhysicalLine := true
      commandsThisCycle := l.commandsThisCycle + 1
      passed := l.passed ++ [seg] }, .ok true) := by
  have lt := findCommandSeparator_lt found
  have whole : seg.take (seg.length - 1 + 1) = seg := List.take_of_length_le (by omega)
  have nonempty : seg ≠ [] := List.ne_nil_of_length_pos (by omega)
  have consumed : consumePhysicalInputLine seg = (seg.length, false) := by
    rcases consumePhysicalInputLine_cases seg with ⟨first, more, split, -, -⟩ | ⟨-, h⟩
    · exact absurd (by rw [split]; simp) open'
    · exact h
  simp [Loop.processBufferedInput, Loop.processSegment, Loop.passSegment, Loop.handOver,
    executeShellLine, hbuf, nonempty, hdis, found, whole, hparse, hlimit, consumed, heof]

/-- A segment that does not parse, read up to its `;`, leaves the loop discarding
what follows. -/
theorem Idle.discards {left : Bytes} (idle : Idle l) (exec : Pipelines σ E)
    (discards : l.view.Discards left) :
    ∃ l', ReflTransGen (LoopStep exec) l l' ∧ Idle l' ∧ l'.discardPhysicalLine = true ∧
      l'.unread = left := by
  obtain ⟨l₁, run₁, idle₁, same, reached⟩ := idle.catchUp exec
  rw [← same] at discards
  obtain ⟨-, sep, e, hsep, semi, hparse, hlimit, rfl⟩ := discards
  have hdis : l₁.discardPhysicalLine = false := by
    apply reached.resolve_right
    intro nil
    have left : l₁.view.left = [] := by simp [Loop.view, idle₁.buf, nil, afterLine]
    rw [left] at semi
    cases semi
  have left : l₁.view.left = l₁.unread := by
    rw [Loop.view_left hdis, idle₁.buf, List.nil_append]
  rw [left] at hsep semi hparse ⊢
  obtain ⟨line, c, rest, hunread, rfl, fits, open', found⟩ := cut_at_separator hsep
  have hc : c = semicolon := by
    rw [hunread, List.append_assoc, List.getElem?_append_right (Nat.le_refl _)] at semi
    simpa using semi
  have noNewline : newline ∉ line ++ [c] := by
    rw [hc, List.mem_append, not_or]
    exact ⟨open', by decide⟩
  have length : (line ++ [c]).length = line.length + 1 := List.length_append
  rw [hunread, List.take_left' length] at hparse
  rw [hunread, List.drop_left' length]
  obtain ⟨l₂, read, brought⟩ := idle₁.read exec hunread (by simp)
    (by rw [length]; exact Nat.succ_le_succ fits)
    (.inr (by rw [found]; exact Option.some_ne_none _))
  have proc := Loop.process_malformed exec brought.buf (brought.discards.trans hdis)
    brought.eof (by rw [length]; exact found) noNewline hparse hlimit
  have processed : (l₂.processBufferedInput exec).2 ≠ .ok false := by
    rw [proc]
    intro h
    cases h
  have step := l₂.process_step brought.ended brought.cycle_lt processed
  rw [proc] at step
  refine ⟨_, run₁.trans (.head read (.single step)), ⟨rfl, brought.ended, ?_, ?_⟩, rfl,
    brought.unread⟩
  · show l₂.commandsThisCycle + 1 < maxCommandsPerReadCycle
    rw [brought.cycle]
    decide
  · intro heof
    rw [Loop.settle, brought.eof] at heof
    cases heof

/-- Where cuts do not matter, a line that is discarded has no window in which
they would, or the session is too long behind it. -/
theorem ChunkIndependent.steady (independent : ChunkIndependent exec s input) :
    Steady exec s input := by
  intro r left reading discards pre window post hleft hpre full none'
  obtain ⟨l, run, idle, rfl⟩ := idle_of_reading reading discards.1
  obtain ⟨l₁, run₁, idle₁, hdis, hunread⟩ := idle.discards exec discards
  have reach₁ := run.trans run₁
  -- one run comes to the window byte by byte, and reads it at once
  obtain ⟨l₂, run₂, idle₂, view₂, unread₂, -⟩ :=
    idle₁.skipPart exec hdis (hunread.trans (hleft.trans (List.append_assoc _ _ _))) hpre
  obtain ⟨l₃, read, view₃⟩ := idle₂.read_full exec unread₂ full none'
  rw [view₂] at view₃
  have ended₃ : l₃.ended = some .inputLineTooLong := congrArg Reading.ended view₃
  have agrees (l' : Loop σ E) (run' : ReflTransGen (LoopStep exec) l₁ l') (end' : l'.ended ≠ none) :
      l'.passed = l₁.passed ∧ l'.ended = some .inputLineTooLong := by
    obtain ⟨passed, ended⟩ := independent.2 l' l₃ (reach₁.trans run')
      (reach₁.trans (run₂.tail read)) end' (by rw [ended₃]; exact Option.some_ne_none _)
    exact ⟨passed.trans (congrArg Reading.passed view₃), ended.trans ended₃⟩
  -- the other takes the next segment after the line
  obtain ⟨l₄, run₄, ⟨-, next⟩, -⟩ := idle₁.follows exec
  have left₁ : l₁.view.left = afterLine left := by
    simp [Loop.view, hdis, idle₁.buf, hunread]
  have ends (why : EndReason E) (ended₄ : l₄.view.ended = some why) : why = .inputLineTooLong := by
    have ended₄ : l₄.ended = some why := ended₄
    have := (agrees l₄ run₄ (by rw [ended₄]; exact Option.some_ne_none _)).2
    rw [ended₄] at this
    exact Option.some.inj this
  cases taken : takeSegment (afterLine left) with
  | tooLong => rfl
  | finished =>
    rw [Reading.next_finished (left₁ ▸ taken)] at next
    cases ends .endOfInput (by rw [next])
  | limit e =>
    rw [Reading.next_limit (left₁ ▸ taken)] at next
    cases ends (.syntaxLimit e) (by rw [next])
  | segment seg rest =>
    rw [Reading.next_segment (left₁ ▸ taken)] at next
    have passed₄ : l₄.passed = l₁.passed ++ [seg] :=
      (congrArg Reading.passed next).trans (Reading.pass_passed exec _ seg rest)
    have sound₄ := sound_of_run idle₁.sound run₄
    obtain ⟨l₅, run₅, end₅⟩ := (loop_ends exec sound₄).reaches
    obtain ⟨more, passed₅⟩ := passed_of_run sound₄ run₅
    have := congrArg List.length (agrees l₅ (run₄.trans run₅) end₅).1
    rw [passed₅, passed₄] at this
    simp at this

/-- CUTS MATTER ONLY IN A DISCARDED LINE. A session is independent of how its input
is cut exactly if, wherever the reading passes over the rest of a line, that rest
holds no whole buffer without a separator, or what comes after the line is too long
by itself. -/
theorem loop_independent_iff (exec : Pipelines σ E) (s : Session σ) (input : Bytes) :
    ChunkIndependent exec s input ↔ Steady exec s input := by
  constructor
  · intro independent
    exact independent.steady
  · intro steady
    exact steady.independent

/-- In particular a session is independent of cuts if every buffer's worth of its
input has a separator in it. -/
theorem independent_of_separators (exec : Pipelines σ E) (s : Session σ)
    (short : ∀ window, window <:+: input → window.length = maxInputLineBytes + 1 →
      findCommandSeparator window ≠ none) : ChunkIndependent exec s input := by
  apply Steady.independent
  intro r left reading discards pre window post hleft _ full none'
  obtain ⟨-, sep, e, -, -, -, -, dropped⟩ := discards
  have inside : window <:+: input := by
    refine List.IsInfix.trans ⟨pre, post, hleft.symm⟩ ?_
    rw [dropped]
    exact ((List.drop_suffix _ _).trans (Reading.left_suffix reading)).isInfix
  exact absurd none' (short window inside full)

theorem findCommandSeparator_replicate (n : Nat) :
    findCommandSeparator (List.replicate n 0x61) = none := by
  have reads (n : Nat) (tokenStart : Bool) :
      ∃ m, scan Mode.next (.plain tokenStart) (List.replicate n 0x61) = some m := by
    induction n generalizing tokenStart with
    | zero => exact ⟨_, rfl⟩
    | succ n ih =>
      have step : (Mode.plain tokenStart).next 0x61 = some (.plain false) := by
        cases tokenStart <;> decide
      rw [List.replicate_succ, scan_cons step]
      exact ih false
  rw [findCommandSeparator_eq, firstStop_eq_none]
  exact reads n true

/-- `&;` does not parse, and the `a`s after it are discarded. Byte by byte they are
gone; a read of as many as the buffer takes ends the session. -/
theorem discarded_line_ends_session :
    ∃ l₁ l₂ : Loop Unit Unit,
      ReflTransGen (LoopStep fun s _ => .ok (s, 0))
        (.start ⟨(), 0⟩ (str "&;" ++ (List.replicate 5000 0x61 ++ [newline]))) l₁ ∧
      ReflTransGen (LoopStep fun s _ => .ok (s, 0))
        (.start ⟨(), 0⟩ (str "&;" ++ (List.replicate 5000 0x61 ++ [newline]))) l₂ ∧
      l₁.ended = some .endOfInput ∧ l₂.ended = some .inputLineTooLong := by
  let line : Bytes := List.replicate 5000 0x61 ++ [newline]
  let exec : Pipelines Unit Unit := fun s _ => .ok (s, 0)
  let start : Loop Unit Unit := .start ⟨(), 0⟩ (str "&;" ++ line)
  have found : findCommandSeparator (str "&;") = some 1 := by decide +kernel
  have discards : start.view.Discards line := by
    refine ⟨rfl, 1, .unsupportedBackgroundOperator, ?_, ?_, ?_, rfl, ?_⟩
    · exact (takeSegment_of_separator found (by decide +kernel)).1
    · rfl
    · decide +kernel
    · rfl
  obtain ⟨l, run, idle, hdis, hunread⟩ :=
    (Idle.start ⟨(), 0⟩ (str "&;" ++ line)).discards exec discards
  have left : l.view.left = [] := by
    have open' : newline ∉ List.replicate 5000 (0x61 : UInt8) :=
      not_mem_newline_of_none (findCommandSeparator_replicate 5000)
    simp only [Loop.view, hdis, idle.buf, hunread, List.nil_append, if_true]
    exact afterLine_line open'
  obtain ⟨l₁, run₁, ⟨-, next⟩, -⟩ := idle.follows exec
  rw [Reading.next_finished (by rw [left]; rfl)] at next
  have window : l.unread = List.replicate 4097 0x61 ++ (List.replicate 903 0x61 ++ [newline]) := by
    rw [hunread, ← List.append_assoc, List.replicate_append_replicate]
  obtain ⟨l₂, read, same⟩ := idle.read_full exec window List.length_replicate
    (findCommandSeparator_replicate 4097)
  exact ⟨l₁, l₂, run.trans run₁, run.tail read, congrArg Reading.ended next,
    congrArg Reading.ended same⟩

end FakeSSH.Shell
