import FakeSSH.Laws.Shell.Reading

/-!
# What a turn of the loop does

`processBufferedInput` empties the buffer of a discarded line, waits for more, or
hands one segment over (`Processed`); a turn does that, or starts a new cycle, or
reads (`Turned`). Everything about runs of the loop is derived from these. Here:
the buffer stays within its bounds (`Loop.Sound`), segments are only ever added to
those handed over, and the loop ends however the input is cut (`loop_ends`).
-/

namespace FakeSSH.Shell

open FakeSSH.Go FakeSSH.Lib Relation

variable {σ E : Type} {exec : Pipelines σ E} {l l' : Loop σ E}

/-- The reading that a state of the loop stands for. -/
def Loop.view (l : Loop σ E) : Reading σ E :=
  { session := l.session
    left := if l.discardPhysicalLine then afterLine (l.buf ++ l.unread) else l.buf ++ l.unread
    passed := l.passed
    ended := l.ended }

theorem Loop.view_left (hdis : l.discardPhysicalLine = false) :
    l.view.left = l.buf ++ l.unread := by
  simp [Loop.view, hdis]

/-- What every turn keeps, however reads are cut. A full buffer without a
separator does not outlive the turn that read it. -/
structure Loop.Sound (l : Loop σ E) : Prop where
  eof : l.eof = true → l.unread = []
  fits : l.buf.length ≤ maxInputLineBytes + 1
  room : findCommandSeparator l.buf = none → l.ended = none → l.buf.length ≤ maxInputLineBytes

/-- The state after `processBufferedInput`, with an error as the end. -/
def Loop.settle : Loop σ E × Except (EndReason E) Bool → Loop σ E
  | (l, .ok _) => l
  | (l, .error why) => { l with ended := some why }

theorem Loop.view_handOver (l : Loop σ E) (hend : l.ended = none) (seg : Bytes) (k : Nat)
    (discard : Bool) :
    (settle (l.handOver exec seg k discard)).view = l.view.pass exec seg
      (if discard then afterLine (l.buf.drop k ++ l.unread) else l.buf.drop k ++ l.unread) := by
  unfold Loop.handOver Reading.pass
  dsimp only [Loop.view]
  cases executeShellLine exec l.session seg with
  | ok s => simp [Loop.settle, hend]
  | error why => rfl

/-- What a handing over leaves, whether the session goes on or not. -/
structure HandedOver (l : Loop σ E) (seg : Bytes) (k : Nat) (discard : Bool)
    (out : Loop σ E × Except (EndReason E) Bool) : Prop where
  buf : (Loop.settle out).buf = l.buf.drop k
  unread : (Loop.settle out).unread = l.unread
  eof : (Loop.settle out).eof = l.eof
  discards : (Loop.settle out).discardPhysicalLine = discard
  cycle : (Loop.settle out).commandsThisCycle = l.commandsThisCycle + 1
  passed : (Loop.settle out).passed = l.passed ++ [seg]
  processed : out.2 ≠ .ok false

theorem Loop.handOver_fields (exec : Pipelines σ E) (l : Loop σ E) (seg : Bytes) (k : Nat)
    (discard : Bool) : HandedOver l seg k discard (l.handOver exec seg k discard) := by
  unfold Loop.handOver
  dsimp only
  cases executeShellLine exec l.session seg with
  | ok s => exact ⟨rfl, rfl, rfl, rfl, rfl, rfl, nofun⟩
  | error why => exact ⟨rfl, rfl, rfl, rfl, rfl, rfl, nofun⟩

/-! ## One segment -/

/-- What `processSegment` does to a buffer that is not being discarded: it waits
for more, meets a limit, or hands a segment over and goes on behind it or, after
one that does not parse, in the middle of its line. -/
inductive Segmented (exec : Pipelines σ E) (l : Loop σ E) :
    Loop σ E × Except (EndReason E) Bool → Prop
  | waits : findCommandSeparator l.buf = none → l.eof = false → Segmented exec l (l, .ok false)
  | limit (e : SyntaxError) : takeSegment (l.buf ++ l.unread) = .limit e →
      Segmented exec l (l, .error (.syntaxLimit e))
  | passed (seg : Bytes) (k : Nat) : 0 < k →
      takeSegment (l.buf ++ l.unread) = .segment seg (l.buf.drop k ++ l.unread) →
      Segmented exec l (l.handOver exec seg k false)
  | discards (seg : Bytes) : newline ∉ l.buf →
      takeSegment (l.buf ++ l.unread) = .segment seg (afterLine l.unread) →
      l.view.Discards (l.buf.drop seg.length ++ l.unread) →
      Segmented exec l (l.handOver exec seg l.buf.length true)

/-- Only a wait has nothing to report. -/
theorem Segmented.waiting {out : Loop σ E × Except (EndReason E) Bool} (seg : Segmented exec l out)
    (hout : out.2 = .ok false) :
    out.1 = l ∧ findCommandSeparator l.buf = none ∧ l.eof = false := by
  cases seg with
  | waits hsep heof => exact ⟨rfl, hsep, heof⟩
  | limit => cases hout
  | passed seg k => exact absurd hout (l.handOver_fields exec seg k false).processed
  | discards seg => exact absurd hout (l.handOver_fields exec seg l.buf.length true).processed

theorem Loop.passSegment_cases {k : Nat} (hk : 0 < k) (hbuf : l.buf ≠ [])
    (hdis : l.discardPhysicalLine = false) (heof : l.eof = true → l.unread = [])
    (taken : takeSegment (l.buf ++ l.unread) =
      judge (l.buf ++ l.unread) (l.buf.take k) (l.buf.drop k ++ l.unread))
    (opens : l.eof = false → newline ∉ l.buf → ∀ e, parseShellLine (l.buf.take k) = .error e →
      e.isLimit = false → l.view.Discards (l.buf.drop (l.buf.take k).length ++ l.unread)) :
    Segmented exec l (l.passSegment exec k) := by
  unfold Loop.passSegment
  dsimp only
  cases hparse : parseShellLine (l.buf.take k) with
  | ok line =>
    rw [hdis]
    refine .passed _ k hk ?_
    rw [taken, judge, hparse]
  | error e =>
    dsimp only
    cases hlimit : e.isLimit with
    | true =>
      rw [if_pos rfl]
      refine .limit e ?_
      rw [taken, judge, hparse]
      simp [hlimit]
    | false =>
      have segment : takeSegment (l.buf ++ l.unread) =
          .segment (l.buf.take k) (afterLine (l.buf ++ l.unread)) := by
        rw [taken, judge, hparse]
        simp [hlimit]
      rw [if_neg Bool.false_ne_true]
      rcases consumePhysicalInputLine_cases l.buf with
        ⟨line, rest, hline, closed, hcons⟩ | ⟨open', hcons⟩
      · -- the line ends within the buffer
        rw [hcons]
        dsimp only
        rw [if_pos rfl, hdis]
        refine .passed _ (line.length + 1) (Nat.succ_pos _) ?_
        rw [segment, hline, List.append_assoc, List.cons_append, afterLine_line closed,
          List.drop_append]
        simp
      · rw [hcons]
        dsimp only
        rw [if_neg Bool.false_ne_true]
        cases he : l.eof with
        | true =>
          refine .passed _ l.buf.length (List.length_pos_of_ne_nil hbuf) ?_
          rw [segment, heof he, List.append_nil, afterLine_of_not_mem open', List.drop_length]
          rfl
        | false =>
          refine .discards _ open' ?_ (opens he open' e hparse hlimit)
          rw [segment, afterLine_append open']

theorem Loop.Sound.processSegment (sound : l.Sound) (hend : l.ended = none)
    (hdis : l.discardPhysicalLine = false) (hbuf : l.buf ≠ []) :
    Segmented exec l (l.processSegment exec) := by
  unfold Loop.processSegment
  cases hsep : findCommandSeparator l.buf with
  | some sep =>
    have hlt := findCommandSeparator_lt hsep
    obtain ⟨found, taken⟩ := takeSegment_of_separator (t := l.unread) hsep sound.fits
    refine Loop.passSegment_cases (Nat.succ_pos sep) hbuf hdis sound.eof taken ?_
    intro _ open' e hparse hlimit
    have left := Loop.view_left hdis
    refine ⟨hend, sep, e, ?_, ?_, ?_, hlimit, ?_⟩
    · rw [left, found]
    · -- the buffer has no newline, so the separator is a `;`
      rw [left, List.getElem?_append_left hlt]
      obtain ⟨m, -, nl | ⟨semi, -⟩⟩ := findCommandSeparator_stop hsep
      · exact absurd (List.mem_of_getElem? nl) open'
      · exact semi
    · rw [left, List.take_append_of_le_length hlt, hparse]
    · rw [left, List.length_take, Nat.min_eq_left hlt, List.drop_append_of_le_length hlt]
  | none =>
    dsimp only
    cases heof : l.eof with
    | false =>
      rw [if_neg Bool.false_ne_true]
      exact .waits hsep heof
    | true =>
      rw [if_pos rfl]
      have taken := takeSegment_last hsep hbuf (sound.room hsep hend)
      refine Loop.passSegment_cases (List.length_pos_of_ne_nil hbuf) hbuf hdis sound.eof ?_ ?_
      · rw [sound.eof heof, List.append_nil, List.append_nil, List.take_length, List.drop_length,
          taken]
      · intro hopen
        rw [heof] at hopen
        cases hopen

/-! ## The buffer -/

/-- The state from which the next segment is looked for: the same one, or one in
which the end of a discarded line has been dropped. -/
structure Resumes (l l₀ : Loop σ E) : Prop where
  view : l₀.view = l.view
  nonempty : l₀.buf ≠ []
  open' : l₀.discardPhysicalLine = false
  unread : l₀.unread = l.unread
  eof : l₀.eof = l.eof
  cycle : l₀.commandsThisCycle = l.commandsThisCycle
  ended : l₀.ended = l.ended
  shorter : l₀ = l ∨ l₀.buf.length < l.buf.length

theorem Resumes.length_le {l₀ : Loop σ E} (resumes : Resumes l l₀) :
    l₀.buf.length ≤ l.buf.length := by
  rcases resumes.shorter with rfl | shorter
  · exact Nat.le_refl _
  · exact Nat.le_of_lt shorter

/-- What `processBufferedInput` does. -/
inductive Processed (exec : Pipelines σ E) (l : Loop σ E) :
    Loop σ E × Except (EndReason E) Bool → Prop
  | empty : l.buf = [] → Processed exec l (l, .ok false)
  | skipped : l.buf ≠ [] → l.discardPhysicalLine = true → newline ∉ l.buf →
      Processed exec l ({ l with buf := [], discardPhysicalLine := !l.eof }, .ok true)
  | lineEnd (line : Bytes) : l.discardPhysicalLine = true → newline ∉ line →
      l.buf = line ++ [newline] →
      Processed exec l ({ l with buf := [], discardPhysicalLine := false }, .ok true)
  | segment (l₀ : Loop σ E) (out : Loop σ E × Except (EndReason E) Bool) : Resumes l l₀ →
      Segmented exec l₀ out → Processed exec l out

theorem Loop.Sound.processBufferedInput (exec : Pipelines σ E) (sound : l.Sound)
    (hend : l.ended = none) : Processed exec l (l.processBufferedInput exec) := by
  unfold Loop.processBufferedInput
  split
  next hbuf => exact .empty hbuf
  next hbuf =>
  split
  next hdis =>
    rcases consumePhysicalInputLine_cases l.buf with
      ⟨line, rest, hline, closed, hcons⟩ | ⟨open', hcons⟩
    · have dropped : l.buf.drop (line.length + 1) = rest := by
        rw [hline, List.drop_append]
        simp
      simp only [hcons, dropped, if_true]
      split
      next hrest =>
        subst hrest
        exact .lineEnd line hdis closed hline
      next hrest =>
        have shorter : rest.length < l.buf.length := by
          rw [hline, List.length_append, List.length_cons]
          omega
        refine .segment { l with buf := rest, discardPhysicalLine := false } _ ?_ ?_
        · refine ⟨?_, hrest, rfl, rfl, rfl, rfl, rfl, .inr shorter⟩
          simp only [Loop.view, hdis, hline, if_true, List.append_assoc, List.cons_append,
            afterLine_line closed]
          simp
        · refine Loop.Sound.processSegment ⟨sound.eof, ?_, ?_⟩ hend rfl hrest
          · exact Nat.le_trans (Nat.le_of_lt shorter) sound.fits
          · intro _ _
            have := sound.fits
            show rest.length ≤ _
            omega
    · simp only [hcons, List.drop_length, Bool.false_eq_true, if_false]
      exact .skipped hbuf hdis open'
  next hdis =>
    have hdis := eq_false_of_ne_true hdis
    exact .segment l _ ⟨rfl, hbuf, hdis, rfl, rfl, rfl, rfl, .inl rfl⟩
      (sound.processSegment hend hdis hbuf)

/-! ## One turn -/

section Prompt

variable (l : Loop σ E)

@[simp] theorem Loop.prompt_buf : l.prompt.buf = l.buf := by unfold Loop.prompt; split <;> rfl

@[simp] theorem Loop.prompt_unread : l.prompt.unread = l.unread := by
  unfold Loop.prompt; split <;> rfl

@[simp] theorem Loop.prompt_eof : l.prompt.eof = l.eof := by unfold Loop.prompt; split <;> rfl

@[simp] theorem Loop.prompt_discardPhysicalLine :
    l.prompt.discardPhysicalLine = l.discardPhysicalLine := by
  unfold Loop.prompt; split <;> rfl

@[simp] theorem Loop.prompt_session : l.prompt.session = l.session := by
  unfold Loop.prompt; split <;> rfl

@[simp] theorem Loop.prompt_passed : l.prompt.passed = l.passed := by
  unfold Loop.prompt; split <;> rfl

@[simp] theorem Loop.prompt_remaining : l.prompt.remaining = l.remaining := by
  simp [Loop.remaining]

end Prompt

/-- What a turn that is not over comes to. `l₀` is the state in which there was
nothing to process. -/
inductive Turned (exec : Pipelines σ E) (l : Loop σ E) : Loop σ E → Prop
  | settled (out : Loop σ E × Except (EndReason E) Bool) : Processed exec l out →
      out.2 ≠ .ok false → Turned exec l (Loop.settle out)
  | newCycle : maxCommandsPerReadCycle ≤ l.commandsThisCycle →
      Turned exec l { l with commandsThisCycle := 0 }
  | finished (l₀ : Loop σ E) : Processed exec l (l₀, .ok false) → l₀.eof = true →
      Turned exec l { l₀ with ended := some .endOfInput }
  | full (l₀ l' : Loop σ E) : Processed exec l (l₀, .ok false) → l₀.remaining = 0 → Turned exec l l'
  | read (l₀ : Loop σ E) (got rest : Bytes) : Processed exec l (l₀, .ok false) → l₀.eof = false →
      l₀.unread = got ++ rest → got ≠ [] → got.length ≤ l₀.remaining →
      Turned exec l (l₀.prompt.receive got rest false)
  | eof (l₀ : Loop σ E) : Processed exec l (l₀, .ok false) → l₀.eof = false → l₀.unread = [] →
      Turned exec l (l₀.prompt.receive [] [] true)

/-- Where there is nothing to process, the buffer has no separator, and it is
empty in a discarded line and at the end of the input. -/
structure Quiet (l l₀ : Loop σ E) : Prop where
  noSeparator : findCommandSeparator l₀.buf = none
  discards : l₀.discardPhysicalLine = true → l₀.buf = []
  eof : l₀.eof = true → l₀.buf = []
  ended : l₀.ended = l.ended
  cycle : l₀.commandsThisCycle = l.commandsThisCycle
  unread : l₀.unread = l.unread
  sameEof : l₀.eof = l.eof
  shorter : l₀.buf.length ≤ l.buf.length

theorem Processed.quiet {l₀ : Loop σ E} (h : Processed exec l (l₀, .ok false)) : Quiet l l₀ := by
  generalize hout : (l₀, (.ok false : Except (EndReason E) Bool)) = out at h
  cases h with
  | empty hbuf =>
    cases hout
    refine ⟨?_, fun _ => hbuf, fun _ => hbuf, rfl, rfl, rfl, rfl, Nat.le_refl _⟩
    rw [hbuf]
    rfl
  | skipped => cases hout
  | lineEnd => cases hout
  | segment l₁ _ resumes seg =>
    subst hout
    obtain ⟨rfl, hsep, heof⟩ := seg.waiting rfl
    refine ⟨hsep, ?_, ?_, resumes.ended, resumes.cycle, resumes.unread, resumes.eof,
      resumes.length_le⟩
    · intro h
      rw [resumes.open'] at h
      cases h
    · intro h
      rw [heof] at h
      cases h

/-- The same for the part of a turn before a `Read`. -/
inductive TurnIs (exec : Pipelines σ E) (l : Loop σ E) : Loop.Turn σ E → Prop
  | next (l' : Loop σ E) : Processed exec l (l', .ok true) → TurnIs exec l (.next l')
  | newCycle (l' : Loop σ E) : maxCommandsPerReadCycle ≤ l.commandsThisCycle →
      l' = { l with commandsThisCycle := 0 } → TurnIs exec l (.next l')
  | stop (l' : Loop σ E) (why : EndReason E) : Processed exec l (l', .error why) →
      TurnIs exec l (.stop l' why)
  | finished (l₀ : Loop σ E) (why : EndReason E) : Processed exec l (l₀, .ok false) →
      l₀.eof = true → why = .endOfInput → TurnIs exec l (.stop l₀ why)
  | read (l₀ l' : Loop σ E) : Processed exec l (l₀, .ok false) → l₀.eof = false → l' = l₀.prompt →
      TurnIs exec l (.read l')

theorem Loop.Sound.turn (exec : Pipelines σ E) (sound : l.Sound) (hend : l.ended = none) :
    TurnIs exec l (l.turn exec) := by
  have proc := sound.processBufferedInput exec hend
  unfold Loop.turn
  split
  next cycle =>
    split
    next l' why hout => exact .stop l' why (hout ▸ proc)
    next l' hout => exact .next l' (hout ▸ proc)
    next l₀ hout =>
      rw [hout] at proc
      have same := proc.quiet.cycle
      unfold Loop.idleTurn
      rw [if_neg (by omega)]
      split
      next heof => exact .finished l₀ _ proc heof rfl
      next heof => exact .read l₀ _ proc (eq_false_of_ne_true heof) rfl
  next cycle =>
    unfold Loop.idleTurn
    rw [if_pos (Nat.le_of_not_lt cycle)]
    exact .newCycle _ (Nat.le_of_not_lt cycle) rfl

theorem LoopStep.turned (step : LoopStep exec l l') (sound : l.Sound) : Turned exec l l' := by
  cases step with
  | next l' hend hturn =>
    have turn := hturn ▸ sound.turn exec hend
    cases turn with
    | next _ proc => exact .settled _ proc nofun
    | newCycle _ cycle same => exact same ▸ .newCycle cycle
  | stop l' why hend hturn =>
    have turn := hturn ▸ sound.turn exec hend
    cases turn with
    | stop _ _ proc => exact .settled _ proc nofun
    | finished _ _ proc heof hwhy => exact hwhy ▸ .finished l' proc heof
  | full l' hend hturn hrem =>
    have turn := hturn ▸ sound.turn exec hend
    cases turn with
    | read l₀ _ proc heof same =>
      subst same
      exact .full l₀ _ proc (l₀.prompt_remaining ▸ hrem)
  | read l' got rest hend hturn hun hgot hlen =>
    have turn := hturn ▸ sound.turn exec hend
    cases turn with
    | read l₀ _ proc heof same =>
      subst same
      exact .read l₀ got rest proc heof (l₀.prompt_unread ▸ hun) hgot (l₀.prompt_remaining ▸ hlen)
  | eof l' hend hturn hrem hun =>
    have turn := hturn ▸ sound.turn exec hend
    cases turn with
    | read l₀ _ proc heof same =>
      subst same
      exact .eof l₀ proc heof (l₀.prompt_unread ▸ hun)

/-! ## Bounds -/

theorem Resumes.sound {l₀ : Loop σ E} (resumes : Resumes l l₀) (sound : l.Sound) : l₀.Sound := by
  refine ⟨?_, ?_, ?_⟩
  · rw [resumes.eof, resumes.unread]
    exact sound.eof
  · exact Nat.le_trans resumes.length_le sound.fits
  · rcases resumes.shorter with rfl | shorter
    · exact sound.room
    · intro _ _
      have := sound.fits
      omega

theorem Loop.Sound.handOver (sound : l.Sound) (seg : Bytes) {k : Nat} (hk : 0 < k)
    (discard : Bool) : (Loop.settle (l.handOver exec seg k discard)).Sound := by
  have handed := l.handOver_fields exec seg k discard
  have fits := sound.fits
  refine ⟨?_, ?_, ?_⟩
  · rw [handed.eof, handed.unread]
    exact sound.eof
  · rw [handed.buf, List.length_drop]
    omega
  · intro _ _
    rw [handed.buf, List.length_drop]
    omega

theorem Processed.sound {out : Loop σ E × Except (EndReason E) Bool} (sound : l.Sound)
    (proc : Processed exec l out) : (Loop.settle out).Sound := by
  cases proc with
  | empty => exact sound
  | skipped | lineEnd => exact ⟨sound.eof, Nat.zero_le _, fun _ _ => Nat.zero_le _⟩
  | segment l₀ _ resumes seg =>
    have sound₀ := resumes.sound sound
    cases seg with
    | waits => exact sound₀
    | limit => exact ⟨sound₀.eof, sound₀.fits, nofun⟩
    | passed seg k hk taken => exact sound₀.handOver seg hk false
    | discards seg open' taken discards =>
      exact sound₀.handOver seg (List.length_pos_of_ne_nil resumes.nonempty) true

/-- `readInput` ends the session exactly at a full buffer without a separator. -/
theorem Loop.receive_ended {got : Bytes} (fits : (l.buf ++ got).length ≤ maxInputLineBytes + 1)
    (rest : Bytes) (atEOF : Bool) :
    (l.receive got rest atEOF).ended =
      if (l.buf ++ got).length = maxInputLineBytes + 1 ∧ findCommandSeparator (l.buf ++ got) = none
      then some .inputLineTooLong else none := by
  have within (sep : Nat) (h : findCommandSeparator (l.buf ++ got) = some sep) :
      sep ≤ maxInputLineBytes := by
    have := findCommandSeparator_lt h
    omega
  unfold Loop.receive
  dsimp only
  cases hsep : findCommandSeparator (l.buf ++ got) with
  | none =>
    by_cases full : (l.buf ++ got).length = maxInputLineBytes + 1
    · simp [full]
    · have : ¬ maxInputLineBytes < (l.buf ++ got).length := by omega
      simp only [full, this, decide_false, Bool.false_and, Bool.false_eq_true, false_and, if_false]
  | some sep =>
    have := Nat.not_lt_of_le (within sep hsep)
    simp [this]

theorem Loop.Sound.append_fits {got : Bytes} (sound : l.Sound) (hlen : got.length ≤ l.remaining) :
    (l.buf ++ got).length ≤ maxInputLineBytes + 1 := by
  have := sound.fits
  unfold Loop.remaining at hlen
  rw [List.length_append]
  omega

theorem Loop.Sound.receive {got rest : Bytes} {atEOF : Bool} (sound : l.Sound)
    (hlen : got.length ≤ l.remaining) (open' : l.eof = false) (heof : atEOF = true → rest = []) :
    (l.prompt.receive got rest atEOF).Sound := by
  have fits : (l.prompt.buf ++ got).length ≤ maxInputLineBytes + 1 := by
    rw [l.prompt_buf]
    exact sound.append_fits hlen
  refine ⟨?_, fits, ?_⟩
  · intro h
    simp only [Loop.receive, l.prompt_eof, open', Bool.false_or] at h
    exact heof h
  · intro hsep goesOn
    show (l.prompt.buf ++ got).length ≤ maxInputLineBytes
    by_contra long
    rw [Loop.receive_ended fits, if_pos ⟨by omega, hsep⟩] at goesOn
    cases goesOn

/-- A quiet buffer has room for a read. -/
theorem Quiet.remaining_ne_zero {l₀ : Loop σ E} (quiet : Quiet l l₀) (sound : l₀.Sound)
    (hend : l.ended = none) : l₀.remaining ≠ 0 := by
  have := sound.room quiet.noSeparator (quiet.ended.trans hend)
  unfold Loop.remaining
  omega

theorem Turned.sound (sound : l.Sound) (hend : l.ended = none) (turned : Turned exec l l') :
    l'.Sound := by
  cases turned with
  | settled out proc _ => exact proc.sound sound
  | newCycle => exact ⟨sound.eof, sound.fits, sound.room⟩
  | finished l₀ proc heof =>
    have sound₀ : l₀.Sound := proc.sound sound
    exact ⟨sound₀.eof, sound₀.fits, nofun⟩
  | full l₀ _ proc hrem => exact absurd hrem (proc.quiet.remaining_ne_zero (proc.sound sound) hend)
  | read l₀ got rest proc heof hunread hgot hlen =>
    exact Loop.Sound.receive (proc.sound sound) hlen heof nofun
  | eof l₀ proc heof hunread =>
    exact Loop.Sound.receive (proc.sound sound) (Nat.zero_le _) heof fun _ => rfl

/-! ## Segments -/

/-- Handing a segment over is the next step of the reading. -/
theorem Segmented.step {out : Loop σ E × Except (EndReason E) Bool} (seg : Segmented exec l out)
    (hend : l.ended = none) (hdis : l.discardPhysicalLine = false) (hout : out.2 ≠ .ok false) :
    ReadingStep exec l.view (Loop.settle out).view := by
  have left := Loop.view_left hdis
  refine ⟨hend, ?_⟩
  cases seg with
  | waits => exact absurd rfl hout
  | limit e taken =>
    rw [Reading.next_limit (left ▸ taken)]
    rfl
  | passed seg k hk taken =>
    rw [Reading.next_segment (left ▸ taken), l.view_handOver hend]
    rfl
  | discards seg open' taken discards =>
    rw [Reading.next_segment (left ▸ taken), l.view_handOver hend, List.drop_length]
    rfl

/-- Processing leaves the reading where it is, or takes its next step. -/
theorem Processed.follows {out : Loop σ E × Except (EndReason E) Bool} (sound : l.Sound)
    (hend : l.ended = none) (proc : Processed exec l out) :
    ReflTransGen (ReadingStep exec) l.view (Loop.settle out).view := by
  cases proc with
  | empty => exact .refl
  | skipped _ hdis open' =>
    have same : (Loop.settle ({ l with buf := [], discardPhysicalLine := !l.eof },
        (.ok true : Except (EndReason E) Bool))).view = l.view := by
      cases heof : l.eof with
      | true => simp [Loop.view, Loop.settle, hdis, sound.eof heof, afterLine_of_not_mem open']
      | false => simp [Loop.view, Loop.settle, hdis, afterLine_append open']
    rw [same]
  | lineEnd line hdis closed hline =>
    have same : (Loop.settle ({ l with buf := [], discardPhysicalLine := false },
        (.ok true : Except (EndReason E) Bool))).view = l.view := by
      simp [Loop.view, Loop.settle, hdis, hline, afterLine_line closed]
    rw [same]
  | segment l₀ out resumes seg =>
    rw [← resumes.view]
    by_cases hout : out.2 = .ok false
    · obtain ⟨l', answer⟩ := out
      cases hout
      obtain ⟨rfl, -, -⟩ := seg.waiting rfl
      exact .refl
    · exact .single (seg.step (resumes.ended.trans hend) resumes.open' hout)

theorem Processed.adds {out : Loop σ E × Except (EndReason E) Bool} (proc : Processed exec l out) :
    ∃ more, (Loop.settle out).passed = l.passed ++ more := by
  cases proc with
  | empty | skipped | lineEnd => exact ⟨[], (List.append_nil _).symm⟩
  | segment l₀ _ resumes seg =>
    have same : l₀.passed = l.passed := congrArg Reading.passed resumes.view
    rw [← same]
    cases seg with
    | waits | limit => exact ⟨[], (List.append_nil _).symm⟩
    | passed seg k _ _ => exact ⟨_, (l₀.handOver_fields exec seg k false).passed⟩
    | discards seg _ _ _ => exact ⟨_, (l₀.handOver_fields exec seg l₀.buf.length true).passed⟩

theorem Turned.adds (sound : l.Sound) (hend : l.ended = none) (turned : Turned exec l l') :
    ∃ more, l'.passed = l.passed ++ more := by
  cases turned with
  | settled out proc _ => exact proc.adds
  | newCycle => exact ⟨[], (List.append_nil _).symm⟩
  | full l₀ _ proc hrem => exact absurd hrem (proc.quiet.remaining_ne_zero (proc.sound sound) hend)
  | finished l₀ proc => exact proc.adds
  | read l₀ got rest proc | eof l₀ proc =>
    obtain ⟨more, h⟩ := proc.adds
    exact ⟨more, l₀.prompt_passed.trans h⟩

/-! ## The end -/

/-- A measure that every turn lowers. A byte counts more before it is read than
after, so that a read lowers it too. -/
def Loop.rank (l : Loop σ E) : Nat :=
  4 * l.unread.length + 2 * l.buf.length +
    (if maxCommandsPerReadCycle ≤ l.commandsThisCycle then 1 else 0) +
    (if l.eof then 0 else 1) + (if l.ended.isNone then 1 else 0)

/-- A handing over shortens a buffer from which it takes something. -/
theorem Resumes.handOver_shorter {l₀ : Loop σ E} (resumes : Resumes l l₀) (seg : Bytes) {k : Nat}
    (hk : 0 < k) (discard : Bool) :
    (Loop.settle (l₀.handOver exec seg k discard)).buf.length < l.buf.length := by
  have pos := List.length_pos_of_ne_nil resumes.nonempty
  have shorter := resumes.length_le
  rw [(l₀.handOver_fields exec seg k discard).buf, List.length_drop]
  omega

/-- Processing shortens the buffer, or ends the session as it is. -/
theorem Processed.shrinks {out : Loop σ E × Except (EndReason E) Bool}
    (proc : Processed exec l out) (hout : out.2 ≠ .ok false) :
    (Loop.settle out).unread = l.unread ∧ (Loop.settle out).eof = l.eof ∧
      ((Loop.settle out).buf.length < l.buf.length ∨
        (Loop.settle out).buf.length ≤ l.buf.length ∧
          (Loop.settle out).commandsThisCycle = l.commandsThisCycle ∧
          (Loop.settle out).ended.isNone = false) := by
  cases proc with
  | empty => exact absurd rfl hout
  | skipped hbuf => exact ⟨rfl, rfl, .inl (List.length_pos_of_ne_nil hbuf)⟩
  | lineEnd line hdis closed hline =>
    refine ⟨rfl, rfl, .inl ?_⟩
    rw [hline, List.length_append]
    exact Nat.succ_pos _
  | segment l₀ _ resumes seg =>
    cases seg with
    | waits => exact absurd rfl hout
    | limit => exact ⟨resumes.unread, resumes.eof, .inr ⟨resumes.length_le, resumes.cycle, rfl⟩⟩
    | passed seg k hk taken =>
      have handed := l₀.handOver_fields exec seg k false
      exact ⟨handed.unread.trans resumes.unread, handed.eof.trans resumes.eof,
        .inl (resumes.handOver_shorter seg hk false)⟩
    | discards seg open' taken discards =>
      have handed := l₀.handOver_fields exec seg l₀.buf.length true
      exact ⟨handed.unread.trans resumes.unread, handed.eof.trans resumes.eof,
        .inl (resumes.handOver_shorter seg (List.length_pos_of_ne_nil resumes.nonempty) true)⟩

theorem Loop.rank_receive (l : Loop σ E) (got rest : Bytes) (atEOF : Bool) :
    (l.prompt.receive got rest atEOF).rank ≤
      4 * rest.length + 2 * (l.buf.length + got.length) +
        (if l.eof || atEOF then 0 else 1) + 1 := by
  have cycle : ¬ maxCommandsPerReadCycle ≤ 0 := by decide
  simp only [Loop.rank, Loop.receive, l.prompt_buf, l.prompt_eof, List.length_append, if_neg cycle]
  split_ifs <;> omega

theorem Turned.rank_lt (sound : l.Sound) (hend : l.ended = none) (turned : Turned exec l l') :
    l'.rank < l.rank := by
  have before : l.rank = 4 * l.unread.length + 2 * l.buf.length +
      (if maxCommandsPerReadCycle ≤ l.commandsThisCycle then 1 else 0) +
      (if l.eof then 0 else 1) + 1 := by
    rw [Loop.rank, hend]
    rfl
  rw [before]
  cases turned with
  | settled out proc hout =>
    unfold Loop.rank
    obtain ⟨hunread, heof, shorter | ⟨same, cycle, stopped⟩⟩ := proc.shrinks hout
    · rw [hunread, heof]
      split_ifs <;> omega
    · rw [hunread, heof, cycle, stopped, if_neg Bool.false_ne_true]
      omega
  | newCycle cycle =>
    have after : ({ l with commandsThisCycle := 0 } : Loop σ E).rank =
        4 * l.unread.length + 2 * l.buf.length + 0 + (if l.eof then 0 else 1) + 1 := by
      rw [Loop.rank, hend]
      rfl
    rw [after, if_pos cycle]
    omega
  | finished l₀ proc heof =>
    obtain ⟨-, -, -, -, cycle, unread, sameEof, shorter⟩ := proc.quiet
    have after : ({ l₀ with ended := some .endOfInput } : Loop σ E).rank =
        4 * l.unread.length + 2 * l₀.buf.length +
          (if maxCommandsPerReadCycle ≤ l.commandsThisCycle then 1 else 0) +
          (if l.eof then 0 else 1) + 0 := by
      rw [← cycle, ← unread, ← sameEof]
      rfl
    omega
  | full l₀ _ proc hrem => exact absurd hrem (proc.quiet.remaining_ne_zero (proc.sound sound) hend)
  | read l₀ got rest proc heof hunread hgot hlen =>
    obtain ⟨-, -, -, -, -, unread, sameEof, shorter⟩ := proc.quiet
    have pos := List.length_pos_of_ne_nil hgot
    have after := l₀.rank_receive got rest false
    rw [heof] at after
    rw [← unread, ← sameEof, hunread, heof, List.length_append]
    simp only [Bool.or_false, Bool.false_eq_true, if_false] at after ⊢
    omega
  | eof l₀ proc heof hunread =>
    obtain ⟨-, -, -, -, -, unread, sameEof, shorter⟩ := proc.quiet
    have after := l₀.rank_receive [] [] true
    rw [← unread, ← sameEof, hunread, heof]
    simp only [Bool.or_true, if_true, List.length_nil, Bool.false_eq_true, if_false] at after ⊢
    omega

theorem Loop.start_sound (s : Session σ) (input : Bytes) : (Loop.start s input : Loop σ E).Sound :=
  ⟨nofun, Nat.zero_le _, fun _ _ => Nat.zero_le _⟩

theorem LoopStep.ended_eq_none (step : LoopStep exec l l') : l.ended = none := by
  cases step <;> assumption

theorem LoopStep.sound (step : LoopStep exec l l') (sound : l.Sound) : l'.Sound :=
  (step.turned sound).sound sound step.ended_eq_none

theorem sound_of_run (sound : l.Sound) (run : ReflTransGen (LoopStep exec) l l') : l'.Sound := by
  have keeps (a b : Loop σ E) (sound : a.Sound) (step : LoopStep exec a b) : b.Sound :=
    step.sound sound
  exact invariant_of_steps keeps sound run

/-- Segments that have been handed over stay. -/
theorem passed_of_run (sound : l.Sound) (run : ReflTransGen (LoopStep exec) l l') :
    ∃ more, l'.passed = l.passed ++ more := by
  have keeps (a b : Loop σ E) (inv : a.Sound ∧ ∃ more, a.passed = l.passed ++ more)
      (step : LoopStep exec a b) : b.Sound ∧ ∃ more, b.passed = l.passed ++ more := by
    obtain ⟨sound, before, ha⟩ := inv
    obtain ⟨more, hb⟩ := (step.turned sound).adds sound step.ended_eq_none
    exact ⟨step.sound sound, before ++ more, by rw [hb, ha, List.append_assoc]⟩
  exact (invariant_of_steps keeps ⟨sound, [], (List.append_nil _).symm⟩ run).2

/-- A loop that has not ended has a next turn: a `Read` may always bring one byte,
or the end. -/
theorem Loop.moves (exec : Pipelines σ E) (l : Loop σ E) (hend : l.ended = none) :
    ∃ l', LoopStep exec l l' := by
  cases hturn : l.turn exec with
  | next l' => exact ⟨_, .next l' hend hturn⟩
  | stop l' why => exact ⟨_, .stop l' why hend hturn⟩
  | read l' =>
    by_cases hrem : l'.remaining = 0
    · exact ⟨_, .full l' hend hturn hrem⟩
    · cases hunread : l'.unread with
      | nil => exact ⟨_, .eof l' hend hturn hrem hunread⟩
      | cons c rest =>
        exact ⟨_, .read l' [c] rest hend hturn hunread nofun (Nat.one_le_iff_ne_zero.mpr hrem)⟩

/-- THE LOOP ENDS. However the input is cut, no run of turns goes on for ever. -/
theorem loop_ends (exec : Pipelines σ E) (sound : l.Sound) :
    Inevitable (LoopStep exec) (fun l => l.ended ≠ none) l := by
  refine inevitable_of_rank Loop.Sound Loop.rank ?_ ?_ sound
  · intro l _ goesOn
    exact l.moves exec (not_not.mp goesOn)
  · intro l l' sound step
    exact ⟨step.sound sound, (step.turned sound).rank_lt sound step.ended_eq_none⟩

end FakeSSH.Shell
