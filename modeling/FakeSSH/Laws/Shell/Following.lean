import FakeSSH.Laws.Shell.Turns

/-!
# Reads that follow the reading

The loop can be fed so that it takes the segments of the whole input one by one:
a read brings a segment and no more, and a line that is being discarded comes
byte by byte. So whatever the reading does is done by some run of the loop
(`Idle.follows`, `idle_of_reading`).
-/

namespace FakeSSH.Shell

open FakeSSH.Go FakeSSH.Lib Relation

variable {σ E : Type} {exec : Pipelines σ E} {l l' : Loop σ E} {got rest : Bytes}

/-- About to read, with nothing in the buffer. -/
structure Idle (l : Loop σ E) : Prop where
  buf : l.buf = []
  ended : l.ended = none
  cycle : l.commandsThisCycle < maxCommandsPerReadCycle
  eof : l.eof = true → l.unread = []

theorem Idle.sound (idle : Idle l) : l.Sound := by
  refine ⟨idle.eof, ?_, ?_⟩
  · rw [idle.buf]
    exact Nat.zero_le _
  · intro _ _
    rw [idle.buf]
    exact Nat.zero_le _

theorem Idle.start (s : Session σ) (input : Bytes) : Idle (Loop.start s input : Loop σ E) :=
  ⟨rfl, rfl, Nat.zero_lt_succ _, nofun⟩

theorem Idle.turn (idle : Idle l) (exec : Pipelines σ E) :
    l.turn exec = if l.eof then .stop l .endOfInput else .read l.prompt := by
  have sameCycle := Nat.not_le_of_lt idle.cycle
  simp [Loop.turn, Loop.processBufferedInput, Loop.idleTurn, idle.buf, sameCycle]

theorem Idle.eof_eq_false (idle : Idle l) (hunread : l.unread ≠ []) : l.eof = false :=
  eq_false_of_ne_true fun h => hunread (idle.eof h)

/-- Where something can be read the end has not been. -/
theorem Idle.eof_of_read (idle : Idle l) (hunread : l.unread = got ++ rest) (hgot : got ≠ []) :
    l.eof = false := by
  apply idle.eof_eq_false
  rw [hunread]
  exact List.append_ne_nil_of_left_ne_nil hgot rest

/-! ## One read -/

/-- After a read that has left `got` in the buffer. -/
structure Brought (l : Loop σ E) (got rest : Bytes) (atEOF : Bool) (l' : Loop σ E) : Prop where
  buf : l'.buf = got
  unread : l'.unread = rest
  eof : l'.eof = atEOF
  discards : l'.discardPhysicalLine = l.discardPhysicalLine
  cycle : l'.commandsThisCycle = 0
  ended : l'.ended = none
  view : l'.view = l.view

theorem Brought.cycle_lt {atEOF : Bool} (brought : Brought l got rest atEOF l') :
    l'.commandsThisCycle < maxCommandsPerReadCycle := by
  rw [brought.cycle]
  decide

/-- What a read that is not too long leaves: the same view. -/
theorem Loop.view_receive (hend : l.ended = none) (hunread : l.unread = got ++ rest)
    (atEOF : Bool) :
    ({ l.prompt.receive got rest atEOF with ended := none } : Loop σ E).view = l.view := by
  simp [Loop.view, Loop.receive, hend, hunread]

theorem Idle.read_step (idle : Idle l) (exec : Pipelines σ E) (hunread : l.unread = got ++ rest)
    (hgot : got ≠ []) (hlen : got.length ≤ maxInputLineBytes + 1) :
    LoopStep exec l (l.prompt.receive got rest false) := by
  have heof := idle.eof_of_read hunread hgot
  refine .read l.prompt got rest idle.ended ?_ (l.prompt_unread ▸ hunread) hgot ?_
  · rw [idle.turn, heof]
    rfl
  · rw [l.prompt_remaining, Loop.remaining, idle.buf]
    exact hlen

/-- A read of part of a line, or of one with a separator, goes on. -/
theorem Idle.read (idle : Idle l) (exec : Pipelines σ E) (hunread : l.unread = got ++ rest)
    (hgot : got ≠ []) (hlen : got.length ≤ maxInputLineBytes + 1)
    (short : got.length ≤ maxInputLineBytes ∨ findCommandSeparator got ≠ none) :
    ∃ l', LoopStep exec l l' ∧ Brought l got rest false l' := by
  have buf : l.prompt.buf ++ got = got := by rw [l.prompt_buf, idle.buf, List.nil_append]
  have ended : (l.prompt.receive got rest false).ended = none := by
    rw [Loop.receive_ended (buf.symm ▸ hlen), buf, if_neg]
    rintro ⟨full, none'⟩
    rcases short with short | found
    · omega
    · exact found none'
  have heof := idle.eof_of_read hunread hgot
  refine ⟨_, idle.read_step exec hunread hgot hlen, buf, rfl, ?_, ?_, rfl, ended, ?_⟩
  · simp [Loop.receive, heof]
  · simp [Loop.receive]
  · rw [← Loop.view_receive idle.ended hunread false, ← ended]

/-- A read that fills the buffer without a separator ends the session, also where
the line is being discarded. -/
theorem Idle.read_full (idle : Idle l) (exec : Pipelines σ E) (hunread : l.unread = got ++ rest)
    (full : got.length = maxInputLineBytes + 1) (none' : findCommandSeparator got = none) :
    ∃ l', LoopStep exec l l' ∧ l'.view = { l.view with ended := some .inputLineTooLong } := by
  have buf : l.prompt.buf ++ got = got := by rw [l.prompt_buf, idle.buf, List.nil_append]
  have hgot : got ≠ [] := by
    intro nil
    rw [nil] at full
    cases full
  have ended : (l.prompt.receive got rest false).ended = some .inputLineTooLong := by
    rw [Loop.receive_ended (buf.symm ▸ Nat.le_of_eq full), buf, if_pos ⟨full, none'⟩]
  refine ⟨_, idle.read_step exec hunread hgot (Nat.le_of_eq full), ?_⟩
  rw [← Loop.view_receive idle.ended hunread false, ← ended]
  rfl

/-- The end of the input can be read where nothing else is left. -/
theorem Loop.read_end (hend : l.ended = none) (turn : l.turn exec = .read l.prompt)
    (hunread : l.unread = []) (fits : l.buf.length ≤ maxInputLineBytes) :
    ∃ l', LoopStep exec l l' ∧ Brought l l.buf [] true l' := by
  have buf : l.prompt.buf ++ [] = l.buf := by rw [l.prompt_buf, List.append_nil]
  have ended : (l.prompt.receive [] [] true).ended = none := by
    rw [Loop.receive_ended (by rw [buf]; exact Nat.le_succ_of_le fits), buf, if_neg]
    rintro ⟨full, -⟩
    omega
  have hrem : l.prompt.remaining ≠ 0 := by
    rw [l.prompt_remaining, Loop.remaining]
    omega
  refine ⟨_, .eof l.prompt hend turn hrem (l.prompt_unread.trans hunread), buf, rfl,
    Bool.or_true _, l.prompt_discardPhysicalLine, rfl, ended, ?_⟩
  rw [← Loop.view_receive hend (show l.unread = [] ++ [] from hunread) true, ← ended]

/-! ## One turn over what was read -/

theorem Loop.process_step (hend : l.ended = none)
    (cycle : l.commandsThisCycle < maxCommandsPerReadCycle)
    (hout : (l.processBufferedInput exec).2 ≠ .ok false) :
    LoopStep exec l (Loop.settle (l.processBufferedInput exec)) := by
  rcases hproc : l.processBufferedInput exec with ⟨l', why | _ | _⟩
  · exact .stop l' why hend (by simp [Loop.turn, cycle, hproc])
  · rw [hproc] at hout
    exact absurd rfl hout
  · exact .next l' hend (by simp [Loop.turn, cycle, hproc])

/-- A turn that takes the one segment in the buffer leaves it empty. -/
theorem Segmented.idle {out : Loop σ E × Except (EndReason E) Bool} (seg : Segmented exec l out)
    (sound : l.Sound) (cycle : l.commandsThisCycle = 0) (hout : out.2 ≠ .ok false)
    (short : ∀ seg rest, takeSegment (l.buf ++ l.unread) = .segment seg rest →
      rest.length ≤ l.unread.length)
    (goesOn : (Loop.settle out).ended = none) : Idle (Loop.settle out) := by
  cases seg with
  | waits => exact absurd rfl hout
  | limit => cases goesOn
  | passed seg k hk taken =>
    have handed := l.handOver_fields exec seg k false
    refine ⟨?_, goesOn, ?_, ?_⟩
    · have := short _ _ taken
      rw [List.length_append] at this
      rw [handed.buf]
      exact List.eq_nil_of_length_eq_zero (by omega)
    · rw [handed.cycle, cycle]
      decide
    · rw [handed.eof, handed.unread]
      exact sound.eof
  | discards seg open' taken discards =>
    have handed := l.handOver_fields exec seg l.buf.length true
    refine ⟨?_, goesOn, ?_, ?_⟩
    · rw [handed.buf, List.drop_length]
    · rw [handed.cycle, cycle]
      decide
    · rw [handed.eof, handed.unread]
      exact sound.eof

theorem Loop.Sound.takes (sound : l.Sound) (exec : Pipelines σ E) (hend : l.ended = none)
    (hdis : l.discardPhysicalLine = false) (hbuf : l.buf ≠ []) (cycle : l.commandsThisCycle = 0)
    (ready : findCommandSeparator l.buf ≠ none ∨ l.eof = true)
    (short : ∀ seg rest, takeSegment (l.buf ++ l.unread) = .segment seg rest →
      rest.length ≤ l.unread.length) :
    ∃ l', LoopStep exec l l' ∧ ReadingStep exec l.view l'.view ∧ (l'.ended = none → Idle l') := by
  have same : l.processBufferedInput exec = l.processSegment exec := by
    simp [Loop.processBufferedInput, hbuf, hdis]
  have seg : Segmented exec l (l.processBufferedInput exec) := by
    rw [same]
    exact sound.processSegment hend hdis hbuf
  have hout : (l.processBufferedInput exec).2 ≠ .ok false := by
    intro nothing
    obtain ⟨-, none', open'⟩ := seg.waiting nothing
    rcases ready with found | heof
    · exact found none'
    · rw [open'] at heof
      cases heof
  have cycle' : l.commandsThisCycle < maxCommandsPerReadCycle := by
    rw [cycle]
    decide
  exact ⟨_, l.process_step hend cycle' hout, seg.step hend hdis hout,
    seg.idle sound cycle hout short⟩

/-! ## A line that is being discarded -/

/-- One byte of it, read alone. -/
theorem Idle.skip (idle : Idle l) (exec : Pipelines σ E) (hdis : l.discardPhysicalLine = true)
    {c : UInt8} (hunread : l.unread = [c] ++ rest) :
    ∃ l', ReflTransGen (LoopStep exec) l l' ∧ Idle l' ∧ l'.view = l.view ∧ l'.unread = rest ∧
      l'.discardPhysicalLine = decide (c ≠ newline) := by
  obtain ⟨l₁, read, brought⟩ := idle.read exec hunread (List.cons_ne_nil c [])
    (Nat.succ_le_succ (Nat.zero_le _)) (.inl (Nat.succ_le_succ (Nat.zero_le _)))
  have proc : l₁.processBufferedInput exec =
      ({ l₁ with buf := [], discardPhysicalLine := decide (c ≠ newline) }, .ok true) := by
    have hdis₁ := brought.discards.trans hdis
    by_cases hc : c = newline <;>
      simp [Loop.processBufferedInput, consumePhysicalInputLine, brought.buf, brought.eof, hdis₁,
        hc]
  have processed : (l₁.processBufferedInput exec).2 ≠ .ok false := by
    rw [proc]
    intro h
    cases h
  have step := l₁.process_step brought.ended brought.cycle_lt processed
  rw [proc] at step
  refine ⟨_, .head read (.single step), ⟨rfl, brought.ended, brought.cycle_lt, ?_⟩, ?_,
    brought.unread, rfl⟩
  · intro heof
    rw [Loop.settle, brought.eof] at heof
    cases heof
  · have hdis₁ := brought.discards.trans hdis
    rw [← brought.view]
    by_cases hc : c = newline <;>
      simp [Loop.view, Loop.settle, brought.buf, hdis₁, afterLine, hc]

theorem Idle.skipPart (idle : Idle l) (exec : Pipelines σ E) (hdis : l.discardPhysicalLine = true)
    {part : Bytes} (hunread : l.unread = part ++ rest) (open' : newline ∉ part) :
    ∃ l', ReflTransGen (LoopStep exec) l l' ∧ Idle l' ∧ l'.view = l.view ∧ l'.unread = rest ∧
      l'.discardPhysicalLine = true := by
  induction part generalizing l with
  | nil => exact ⟨l, .refl, idle, rfl, hunread, hdis⟩
  | cons c part ih =>
    have hc : c ≠ newline := fun hc => open' (hc ▸ List.mem_cons_self)
    obtain ⟨l₁, run₁, idle₁, view₁, unread₁, dis₁⟩ := idle.skip exec hdis hunread
    obtain ⟨l₂, run₂, idle₂, view₂, rest₂⟩ := ih idle₁ (by rw [dis₁]; exact decide_eq_true hc)
      unread₁ fun h => open' (List.mem_cons_of_mem c h)
    exact ⟨l₂, run₁.trans run₂, idle₂, view₂.trans view₁, rest₂⟩

/-- The discarding comes to its end. -/
theorem Idle.catchUp (idle : Idle l) (exec : Pipelines σ E) :
    ∃ l', ReflTransGen (LoopStep exec) l l' ∧ Idle l' ∧ l'.view = l.view ∧
      (l'.discardPhysicalLine = false ∨ l'.unread = []) := by
  induction hunread : l.unread generalizing l with
  | nil => exact ⟨l, .refl, idle, rfl, .inr hunread⟩
  | cons c rest ih =>
    cases hdis : l.discardPhysicalLine with
    | false => exact ⟨l, .refl, idle, rfl, .inl hdis⟩
    | true =>
      obtain ⟨l₁, run₁, idle₁, view₁, unread₁, -⟩ := idle.skip exec hdis hunread
      obtain ⟨l₂, run₂, idle₂, view₂, reached⟩ := ih idle₁ unread₁
      exact ⟨l₂, run₁.trans run₂, idle₂, view₂.trans view₁, reached⟩

/-! ## The next segment -/

/-- The loop takes the next step of the reading, and is idle again if it goes on. -/
def Follows (exec : Pipelines σ E) (l : Loop σ E) : Prop :=
  ∃ l', ReflTransGen (LoopStep exec) l l' ∧ ReadingStep exec l.view l'.view ∧
    (l'.ended = none → Idle l')

theorem Idle.follows_end (idle : Idle l) (hunread : l.unread = []) : Follows exec l := by
  have finished : ReadingStep exec l.view { l.view with ended := some .endOfInput } := by
    have left : l.view.left = [] := by simp [Loop.view, idle.buf, hunread, afterLine]
    exact ⟨idle.ended, (Reading.next_finished (by rw [left]; rfl)).symm⟩
  cases heof : l.eof with
  | true =>
    have stop : l.turn exec = .stop l .endOfInput := by rw [idle.turn, heof, if_pos rfl]
    refine ⟨_, .single (.stop l _ idle.ended stop), finished, ?_⟩
    intro goesOn
    cases goesOn
  | false =>
    -- the end of the input has yet to be read
    have turn : l.turn exec = .read l.prompt := by
      rw [idle.turn, heof, if_neg Bool.false_ne_true]
    obtain ⟨l₁, read, brought⟩ := l.read_end idle.ended turn hunread
      (by rw [idle.buf]; exact Nat.zero_le _)
    have idle₁ : Idle l₁ :=
      ⟨brought.buf.trans idle.buf, brought.ended, brought.cycle_lt, fun _ => brought.unread⟩
    have stop : l₁.turn exec = .stop l₁ .endOfInput := by
      rw [idle₁.turn, brought.eof, if_pos rfl]
    refine ⟨_, .head read (.single (.stop l₁ _ brought.ended stop)), ?_, ?_⟩
    · rw [← brought.view] at finished ⊢
      exact finished
    · intro goesOn
      cases goesOn

theorem Idle.follows_separator (idle : Idle l) (hdis : l.discardPhysicalLine = false) {sep : Nat}
    (h : findCommandSeparator (l.unread.take (maxInputLineBytes + 1)) = some sep) :
    Follows exec l := by
  obtain ⟨line, c, rest, hunread, hlen, fits, open', found⟩ := cut_at_separator h
  have length : (line ++ [c]).length ≤ maxInputLineBytes + 1 := by
    rw [List.length_append, hlen]
    exact Nat.succ_le_succ fits
  obtain ⟨l₁, read, brought⟩ := idle.read exec hunread (by simp) length
    (.inr (by rw [found]; nofun))
  have short (seg after : Bytes) (taken : takeSegment (l₁.buf ++ l₁.unread) = .segment seg after) :
      after.length ≤ l₁.unread.length := by
    have whole : (line ++ [c]).length ≤ sep + 1 := by
      rw [List.length_append, hlen]
      exact Nat.le_refl _
    rw [brought.buf, brought.unread, (takeSegment_of_separator found length).2,
      List.take_of_length_le whole, List.drop_of_length_le whole, List.nil_append] at taken
    rw [brought.unread]
    exact judge_rest_le open' taken
  obtain ⟨l', step, next, goesOn⟩ := (read.sound idle.sound).takes exec brought.ended
    (brought.discards.trans hdis) (by rw [brought.buf]; simp) brought.cycle
    (.inl (by rw [brought.buf, found]; nofun)) short
  exact ⟨l', .head read (.single step), brought.view ▸ next, goesOn⟩

/-- The last segment: all that is left is read, and then the end. -/
theorem Idle.follows_last (idle : Idle l) (hdis : l.discardPhysicalLine = false)
    (nonempty : l.unread ≠ []) (none' : findCommandSeparator l.unread = none)
    (fits : l.unread.length ≤ maxInputLineBytes) : Follows exec l := by
  obtain ⟨l₁, read, brought⟩ := idle.read exec (List.append_nil l.unread).symm nonempty
    (Nat.le_succ_of_le fits) (.inl fits)
  have hdis₁ := brought.discards.trans hdis
  have turn : l₁.turn exec = .read l₁.prompt := by
    simp [Loop.turn, Loop.processBufferedInput, Loop.processSegment, Loop.idleTurn, brought.buf,
      brought.cycle, brought.eof, hdis₁, nonempty, none', maxCommandsPerReadCycle]
  obtain ⟨l₂, atEnd, brought₂⟩ := l₁.read_end brought.ended turn brought.unread
    (by rw [brought.buf]; exact fits)
  have buf : l₂.buf = l.unread := brought₂.buf.trans brought.buf
  have short (seg after : Bytes) (taken : takeSegment (l₂.buf ++ l₂.unread) = .segment seg after) :
      after.length ≤ l₂.unread.length := by
    rw [buf, brought₂.unread, List.append_nil, takeSegment_last none' nonempty fits] at taken
    rw [judge_last (not_mem_newline_of_none none') taken]
    exact Nat.zero_le _
  obtain ⟨l', step, next, goesOn⟩ := (atEnd.sound (read.sound idle.sound)).takes exec
    brought₂.ended (brought₂.discards.trans hdis₁) (by rw [buf]; exact nonempty) brought₂.cycle
    (.inr brought₂.eof) short
  rw [brought₂.view, brought.view] at next
  exact ⟨l', .head read (.head atEnd (.single step)), next, goesOn⟩

theorem Idle.follows_tooLong (idle : Idle l) (hdis : l.discardPhysicalLine = false)
    (none' : findCommandSeparator (l.unread.take (maxInputLineBytes + 1)) = none)
    (long : maxInputLineBytes < l.unread.length) : Follows exec l := by
  have full : (l.unread.take (maxInputLineBytes + 1)).length = maxInputLineBytes + 1 := by
    rw [List.length_take]
    omega
  have hunread := (List.take_append_drop (maxInputLineBytes + 1) l.unread).symm
  obtain ⟨l', read, same⟩ := idle.read_full exec hunread full none'
  have tooLong : takeSegment l.view.left = .tooLong := by
    rw [Loop.view_left hdis, idle.buf, List.nil_append, hunread]
    exact takeSegment_full none' full
  refine ⟨l', .single read, ⟨idle.ended, ?_⟩, ?_⟩
  · rw [same, Reading.next_tooLong tooLong]
  · intro goesOn
    have ended : l'.ended = some .inputLineTooLong := congrArg Reading.ended same
    rw [ended] at goesOn
    cases goesOn

/-- From an idle state the loop can take every step of the reading. -/
theorem Idle.follows (idle : Idle l) (exec : Pipelines σ E) : Follows exec l := by
  obtain ⟨l₁, run, idle₁, same, reached⟩ := idle.catchUp exec
  have follows : Follows exec l₁ := by
    by_cases hunread : l₁.unread = []
    · exact idle₁.follows_end hunread
    · have hdis := reached.resolve_right hunread
      cases hsep : findCommandSeparator (l₁.unread.take (maxInputLineBytes + 1)) with
      | some sep => exact idle₁.follows_separator hdis hsep
      | none =>
        by_cases long : maxInputLineBytes < l₁.unread.length
        · exact idle₁.follows_tooLong hdis hsep long
        · rw [List.take_of_length_le (by omega)] at hsep
          exact idle₁.follows_last hdis hunread hsep (by omega)
  obtain ⟨l', run', step, goesOn⟩ := follows
  exact ⟨l', run.trans run', same ▸ step, goesOn⟩

/-- Where the reading has come to, some run of the loop has come to. -/
theorem idle_of_reading {s : Session σ} {input : Bytes} {r : Reading σ E}
    (reading : ReflTransGen (ReadingStep exec) (.start s input) r) (hend : r.ended = none) :
    ∃ l, ReflTransGen (LoopStep exec) (.start s input) l ∧ Idle l ∧ l.view = r := by
  induction reading with
  | refl => exact ⟨.start s input, .refl, .start s input, rfl⟩
  | tail _ step ih =>
    obtain ⟨l, run, idle, rfl⟩ := ih step.1
    obtain ⟨l', run', step', goesOn⟩ := idle.follows exec
    have same := step'.2.trans step.2.symm
    exact ⟨l', run.trans run', goesOn (by rw [← hend, ← same]; rfl), same⟩

end FakeSSH.Shell
