import FakeSSH.Lib.Log
import FakeSSH.Laws.Shell.Truncation

/-!
# The session log stays within its caps

A logger is live, with only whole ordinary lines behind it, or it has made its last
write: a marker, or a line that failed (`Logged`). An ordinary line is written only
below a ceiling that leaves room for a marker, whichever cap the marker is written
for, so the two together stay within the byte cap. Where no write fails the file is
the lines of the events up to the first that meets a cap, and then the marker.
-/

namespace FakeSSH.Shell

open FakeSSH.Go FakeSSH.Lib

variable {c : LogCodec} {l : SessionLogger} {ws : List LogWrite} {w : LogWrite}

/-- What is assumed of the two markers' serialized forms. -/
structure LogCodec.Bounded (c : LogCodec) : Prop where
  marker : ∀ now, (truncationMarker c now).length ≤ truncationMarkerReserve
  tooLarge : ∀ ev, (marshalEventTooLarge c ev).length ≤ maxLogEventBytes

/-- A write that did not fail and was not short. -/
def LogWrite.Complete (w : LogWrite) : Prop := w.err = none ∧ w.n = w.line.length

instance (w : LogWrite) : Decidable w.Complete := inferInstanceAs (Decidable (_ ∧ _))

/-- How much was written. -/
def written : List LogWrite → Nat
  | [] => 0
  | w :: ws => w.n + written ws

/-- What the writes put in the file. -/
def fileOf (ws : List LogWrite) : Bytes := (ws.map fun w => w.line.take w.n).flatten

theorem written_append (ws vs : List LogWrite) : written (ws ++ vs) = written ws + written vs := by
  induction ws with
  | nil => exact (Nat.zero_add _).symm
  | cons w ws ih => rw [List.cons_append, written, ih, written, Nat.add_assoc]

theorem written_singleton (w : LogWrite) : written [w] = w.n := Nat.add_zero _

theorem eventLine_length (h : c.Bounded) (ev : Event) :
    (eventLine c ev).length ≤ maxLogEventBytes := by
  unfold eventLine
  generalize (if (marshalEvent c ev).2 then marshalEventTooLarge c ev
    else (marshalEvent c ev).1) = line
  show (if maxLogEventBytes < line.length then _ else line).length ≤ _
  split
  next => exact h.tooLarge ev
  next fits => exact Nat.le_of_not_lt fits

/-! ## One call -/

namespace SessionLogger

/-- The logger takes no more. -/
def Dead (l : SessionLogger) : Prop := l.closed = true ∨ l.writeErr ≠ none ∨ l.trunc = true

/-- A cap is met by an event. -/
def Full (c : LogCodec) (l : SessionLogger) (ev : Event) : Prop :=
  maxLogEventsPerSession ≤ l.events ∨ byteCeiling < l.bytes + (eventLine c ev).length

theorem log_dead (h : l.Dead) (ev : Event) (now : Int) (answer : WriteAnswer) :
    l.log c ev now answer = (l, none) := by
  unfold log
  rcases h with h | h | h
  · exact if_pos (.inl h)
  · exact if_pos (.inr h)
  · rw [if_pos h]
    exact ite_self _

variable {ev : Event} {now : Int} {answer : WriteAnswer}

theorem log_full (alive : ¬ l.Dead) (full : l.Full c ev) :
    l.log c ev now answer =
      ({ (l.writeLine true (truncationMarker c now) answer).1 with trunc := true },
        some (l.writeLine true (truncationMarker c now) answer).2) := by
  obtain ⟨open_, noErr, untruncated⟩ := not_or.mp alive |>.imp_right not_or.mp
  unfold log writeTruncationMarker
  rw [if_neg (not_or.mpr ⟨open_, noErr⟩), if_neg untruncated, if_neg untruncated]
  exact if_pos full

theorem log_room (alive : ¬ l.Dead) (room : ¬ l.Full c ev) :
    l.log c ev now answer =
      ((l.writeLine false (eventLine c ev) answer).1,
        some (l.writeLine false (eventLine c ev) answer).2) := by
  obtain ⟨open_, noErr, untruncated⟩ := not_or.mp alive |>.imp_right not_or.mp
  unfold log
  rw [if_neg (not_or.mpr ⟨open_, noErr⟩), if_neg untruncated]
  exact if_neg room

variable {isMarker : Bool} {text : Bytes}

theorem writeLine_le : (l.writeLine isMarker text answer).2.n ≤ text.length := Nat.min_le_right _ _

/-- A whole write is counted and leaves no error. -/
theorem writeLine_complete (h : (l.writeLine isMarker text answer).2.Complete) :
    (l.writeLine isMarker text answer).1 =
      { l with bytes := l.bytes + text.length, events := l.events + 1 } := by
  obtain ⟨herr, hn⟩ := h
  have hn : min answer.n text.length = text.length := hn
  have herr : answer.err = none := herr
  unfold writeLine recordWriteResult
  simp [hn, herr]

/-- Any other leaves its error. -/
theorem writeLine_failed (h : ¬ (l.writeLine isMarker text answer).2.Complete)
    (before : l.writeErr = none) : (l.writeLine isMarker text answer).1.writeErr ≠ none := by
  have failed : (if answer.err = none ∧ min answer.n text.length ≠ text.length then
      some errShortWrite else answer.err) ≠ none := by
    split
    next => exact Option.some_ne_none _
    next whole =>
      intro herr
      exact whole ⟨herr, fun hn => h ⟨herr, hn⟩⟩
  unfold writeLine recordWriteResult
  simpa only [before, and_true, if_pos failed] using failed

/-! ## Runs -/

/-- Whole ordinary lines, within the caps. -/
structure Ordinary (ws : List LogWrite) : Prop where
  each : ∀ w ∈ ws, w.marker = false ∧ w.Complete ∧ w.line.length ≤ maxLogEventBytes
  events : ws.length ≤ maxLogEventsPerSession
  bytes : written ws ≤ byteCeiling

/-- A logger that has written whole lines only. -/
structure Live (l : SessionLogger) (ws : List LogWrite) : Prop where
  ordinary : Ordinary ws
  trunc : l.trunc = false
  writeErr : l.closed = false → l.writeErr = none
  events : l.events = ws.length
  bytes : l.bytes = written ws

/-- A logger that has made its last write. -/
structure Ended (l : SessionLogger) (ws : List LogWrite) : Prop where
  dead : l.writeErr ≠ none ∨ l.trunc = true
  last : ∃ before w, ws = before ++ [w] ∧ Ordinary before ∧ w.n ≤ w.line.length ∧
    w.line.length ≤ maxLogEventBytes ∧
    (w.marker = true ∧ w.line.length ≤ truncationMarkerReserve ∨
      w.marker = false ∧ ¬ w.Complete ∧ before.length < maxLogEventsPerSession ∧
        written before + w.line.length ≤ byteCeiling)

/-- A logger and what it has written. -/
def Logged (l : SessionLogger) (ws : List LogWrite) : Prop := l.Live ws ∨ l.Ended ws

theorem Live.dead_iff (h : l.Live ws) : l.Dead ↔ l.closed = true := by
  constructor
  · rintro (closed | err | trunc)
    · exact closed
    · by_contra hopen
      exact err (h.writeErr (Bool.eq_false_iff.mpr hopen))
    · rw [h.trunc] at trunc
      cases trunc
  · exact .inl

/-- One more whole line below the ceiling. -/
theorem Live.line (h : l.Live ws) (hc : c.Bounded) (room : ¬ l.Full c ev)
    (whole : (l.writeLine false (eventLine c ev) answer).2.Complete) :
    (l.writeLine false (eventLine c ev) answer).1.Live
      (ws ++ [(l.writeLine false (eventLine c ev) answer).2]) := by
  obtain ⟨hevents, hbytes⟩ := not_or.mp room
  rw [h.events] at hevents
  rw [h.bytes] at hbytes
  have added : (l.writeLine false (eventLine c ev) answer).2.n = (eventLine c ev).length :=
    whole.2
  rw [writeLine_complete whole]
  refine ⟨⟨?_, ?_, ?_⟩, h.trunc, h.writeErr, ?_, ?_⟩
  · intro w hw
    rcases List.mem_append.mp hw with hw | hw
    · exact h.ordinary.each w hw
    · rw [List.mem_singleton.mp hw]
      exact ⟨rfl, whole, eventLine_length hc ev⟩
  · rw [List.length_append, List.length_singleton]
    omega
  · rw [written_append, written_singleton, added]
    omega
  · rw [List.length_append, h.events, List.length_singleton]
  · rw [written_append, written_singleton, added, h.bytes]

/-- A line that fails. -/
theorem Live.failed (h : l.Live ws) (alive : ¬ l.Dead) (hc : c.Bounded) (room : ¬ l.Full c ev)
    (fails : ¬ (l.writeLine false (eventLine c ev) answer).2.Complete) :
    (l.writeLine false (eventLine c ev) answer).1.Ended
      (ws ++ [(l.writeLine false (eventLine c ev) answer).2]) where
  dead := .inl (writeLine_failed fails (not_not.mp fun err => alive (.inr (.inl err))))
  last := by
    obtain ⟨hevents, hbytes⟩ := not_or.mp room
    rw [h.events] at hevents
    rw [h.bytes] at hbytes
    exact ⟨ws, _, rfl, h.ordinary, writeLine_le, eventLine_length hc ev,
      .inr ⟨rfl, fails, Nat.lt_of_not_le hevents, Nat.le_of_not_lt hbytes⟩⟩

/-- The marker. -/
theorem Live.marker (h : l.Live ws) (hc : c.Bounded) :
    Ended { (l.writeLine true (truncationMarker c now) answer).1 with trunc := true }
      (ws ++ [(l.writeLine true (truncationMarker c now) answer).2]) where
  dead := .inr rfl
  last := by
    refine ⟨ws, _, rfl, h.ordinary, writeLine_le, ?_, .inl ⟨rfl, hc.marker now⟩⟩
    exact Nat.le_trans (hc.marker now) (by decide)

theorem Ended.is_dead (h : l.Ended ws) : l.Dead := .inr h.dead

/-- A logger that is not live stays as it is until it is closed. -/
theorem Logged.close (h : l.Logged ws) (wErr rawErr : Option Bytes) :
    (l.close wErr rawErr).1.Logged ws := by
  unfold SessionLogger.close
  split
  · exact h
  · rcases h with live | ended
    · exact .inl {
        ordinary := live.ordinary
        trunc := live.trunc
        writeErr := by intro hopen; cases hopen
        events := live.events
        bytes := live.bytes }
    · refine .inr ⟨?_, ended.last⟩
      rcases ended.dead with err | trunc
      · left
        have kept : (if l.compressed ∧ l.writeErr = none then wErr else l.writeErr) = l.writeErr :=
          if_neg fun both => err both.2
        simp only [kept, if_neg err]
        exact err
      · exact .inr trunc

/-- What one call keeps. -/
theorem Logged.call (h : l.Logged ws) (hc : c.Bounded) (step : LogCall) :
    (l.call c step).1.Logged (ws ++ (l.call c step).2.toList) := by
  cases step with
  | close wErr rawErr =>
    show (l.close wErr rawErr).1.Logged (ws ++ [])
    rw [List.append_nil]
    exact h.close wErr rawErr
  | log ev now answer =>
    show (l.log c ev now answer).1.Logged (ws ++ (l.log c ev now answer).2.toList)
    by_cases dead : l.Dead
    · rw [log_dead dead]
      show l.Logged (ws ++ [])
      rw [List.append_nil]
      exact h
    · have live : l.Live ws := h.resolve_right fun ended => dead ended.is_dead
      by_cases full : l.Full c ev
      · rw [log_full dead full]
        exact .inr (live.marker hc)
      · rw [log_room dead full]
        by_cases whole : (l.writeLine false (eventLine c ev) answer).2.Complete
        · exact .inl (live.line hc full whole)
        · exact .inr (live.failed dead hc full whole)

/-- What every run keeps. -/
theorem Logged.calls (h : l.Logged ws) (hc : c.Bounded) (steps : List LogCall) :
    (l.calls c steps).1.Logged (ws ++ (l.calls c steps).2) := by
  induction steps generalizing l ws with
  | nil =>
    show l.Logged (ws ++ [])
    rw [List.append_nil]
    exact h
  | cons step steps ih =>
    have after := ih (h.call hc step)
    rw [List.append_assoc] at after
    exact after

theorem live_new (compressed : Bool) : Live { compressed } [] where
  ordinary := {
    each := by intro w hw; cases hw
    events := Nat.zero_le _
    bytes := Nat.zero_le _ }
  trunc := rfl
  writeErr := fun _ => rfl
  events := rfl
  bytes := rfl

/-! ## What is read off a run -/

/-- A write is made only after whole ordinary ones. -/
def Allowed (before : List LogWrite) (_ : LogWrite) : Prop :=
  ∀ w ∈ before, w.marker = false ∧ w.Complete

theorem Ordinary.justified (h : Ordinary ws) : Justified Allowed ws := by
  intro before w after heq v hv
  have hmem : v ∈ ws := by
    rw [heq]
    exact List.mem_append_left _ hv
  exact ⟨(h.each v hmem).1, (h.each v hmem).2.1⟩

theorem Logged.justified (h : l.Logged ws) : Justified Allowed ws := by
  rcases h with live | ended
  · exact live.ordinary.justified
  · obtain ⟨before, w, rfl, ordinary, -⟩ := ended.last
    exact ordinary.justified.snoc fun v hv => ⟨(ordinary.each v hv).1, (ordinary.each v hv).2.1⟩

theorem Logged.total (h : l.Logged ws) : written ws ≤ maxLogBytesPerSession := by
  have ceiling : byteCeiling + truncationMarkerReserve = maxLogBytesPerSession := by decide
  rcases h with live | ended
  · have := live.ordinary.bytes
    omega
  · obtain ⟨before, w, rfl, ordinary, within, -, ⟨-, small⟩ | ⟨-, -, -, below⟩⟩ := ended.last
    · have := ordinary.bytes
      rw [written_append, written_singleton]
      omega
    · rw [written_append, written_singleton]
      omega

theorem Logged.short (h : l.Logged ws) : ∀ w ∈ ws, w.line.length ≤ maxLogEventBytes := by
  intro v hv
  rcases h with live | ended
  · exact (live.ordinary.each v hv).2.2
  · obtain ⟨before, w, rfl, ordinary, -, short, -⟩ := ended.last
    rcases List.mem_append.mp hv with hv | hv
    · exact (ordinary.each v hv).2.2
    · rw [List.mem_singleton.mp hv]
      exact short

theorem Ordinary.countP_marker (h : Ordinary ws) :
    ws.countP LogWrite.marker = 0 ∧ ws.countP (fun w => !w.marker) = ws.length := by
  constructor
  · exact List.countP_eq_zero.mpr fun w hw => by simp [(h.each w hw).1]
  · exact List.countP_eq_length.mpr fun w hw => by simp [(h.each w hw).1]

theorem Logged.counts (h : l.Logged ws) :
    ws.countP (fun w => !w.marker) ≤ maxLogEventsPerSession ∧ ws.countP LogWrite.marker ≤ 1 := by
  rcases h with live | ended
  · rw [live.ordinary.countP_marker.1, live.ordinary.countP_marker.2]
    exact ⟨live.ordinary.events, Nat.zero_le _⟩
  · obtain ⟨before, w, rfl, ordinary, -, -, which⟩ := ended.last
    rw [List.countP_append, List.countP_append, ordinary.countP_marker.1,
      ordinary.countP_marker.2, List.countP_singleton, List.countP_singleton]
    rcases which with ⟨isMarker, -⟩ | ⟨isLine, -, room, -⟩
    · simpa [isMarker] using ordinary.events
    · simpa [isLine] using Nat.succ_le_of_lt room

/-! ## After the last write -/

theorem close_closed (wErr rawErr : Option Bytes) : (l.close wErr rawErr).1.closed = true := by
  unfold SessionLogger.close
  split
  · assumption
  · rfl

theorem call_dead (h : l.Dead) (step : LogCall) :
    (l.call c step).1.Dead ∧ (l.call c step).2 = none := by
  cases step with
  | log ev now answer =>
    show (l.log c ev now answer).1.Dead ∧ (l.log c ev now answer).2 = none
    rw [log_dead h]
    exact ⟨h, rfl⟩
  | close wErr rawErr => exact ⟨.inl (close_closed wErr rawErr), rfl⟩

theorem calls_dead (h : l.Dead) (steps : List LogCall) : (l.calls c steps).2 = [] := by
  induction steps generalizing l with
  | nil => rfl
  | cons step steps ih =>
    obtain ⟨dead, nothing⟩ := call_dead (c := c) h step
    rw [SessionLogger.calls, nothing, ih dead]
    rfl

/-- What comes after a `Close` writes nothing. -/
theorem calls_close (l : SessionLogger) (before after : List LogCall) (wErr rawErr : Option Bytes) :
    (l.calls c (before ++ .close wErr rawErr :: after)).2 = (l.calls c before).2 := by
  induction before generalizing l with
  | nil => exact calls_dead (.inl (close_closed wErr rawErr)) after
  | cons step before ih =>
    rw [List.cons_append, SessionLogger.calls, SessionLogger.calls, ih]

/-! ## Without failures -/

/-- The events logged before the first `Close`, with the clock's reading at each. -/
def loggedEvents : List LogCall → List (Event × Int)
  | [] => []
  | .close _ _ :: _ => []
  | .log ev now _ :: rest => (ev, now) :: loggedEvents rest

/-- The bytes of the lines of some events. -/
def lineBytes (c : LogCodec) : List (Event × Int) → Nat
  | [] => 0
  | e :: evs => (eventLine c e.1).length + lineBytes c evs

/-- The event at index `k` meets a cap when `events` lines of `bytes` bytes are written
before the list. -/
def CapAt (c : LogCodec) (events bytes : Nat) (evs : List (Event × Int)) (k : Nat) : Prop :=
  maxLogEventsPerSession ≤ events + k ∨ byteCeiling < bytes + lineBytes c (evs.take (k + 1))

/-- The lines of the first `k` events, and the marker if there is one more. -/
def expectedFile (c : LogCodec) (evs : List (Event × Int)) (k : Nat) : Bytes :=
  ((evs.take k).map fun e => eventLine c e.1).flatten ++
    ((evs.drop k).head?.map fun e => truncationMarker c e.2).getD []

theorem fileOf_append (ws vs : List LogWrite) : fileOf (ws ++ vs) = fileOf ws ++ fileOf vs := by
  simp [fileOf]

theorem fileOf_complete (h : w.Complete) : fileOf [w] = w.line := by
  simp [fileOf, h.2]

theorem capAt_succ {events bytes i : Nat} {evs : List (Event × Int)} {ev : Event} {now : Int} :
    CapAt c events bytes ((ev, now) :: evs) (i + 1) ↔
      CapAt c (events + 1) (bytes + (eventLine c ev).length) evs i := by
  have sum : lineBytes c (((ev, now) :: evs).take (i + 1 + 1)) =
      (eventLine c ev).length + lineBytes c (evs.take (i + 1)) := rfl
  unfold CapAt
  rw [sum, ← Nat.add_assoc bytes, Nat.add_assoc events 1 i, Nat.add_comm 1 i]

theorem capAt_zero {evs : List (Event × Int)} {ev : Event} {now : Int} :
    CapAt c l.events l.bytes ((ev, now) :: evs) 0 ↔ l.Full c ev := by
  have one : lineBytes c (((ev, now) :: evs).take 1) = (eventLine c ev).length := rfl
  unfold CapAt
  rw [Nat.zero_add, one]
  rfl

/-- A run without failures: the events up to the first that meets a cap. -/
theorem Live.file (h : l.Live ws) (hc : c.Bounded) (hopen : l.closed = false)
    (steps : List LogCall) (whole : ∀ w ∈ (l.calls c steps).2, w.Complete) :
    ∃ k ≤ (loggedEvents steps).length,
      fileOf (l.calls c steps).2 = expectedFile c (loggedEvents steps) k ∧
      (∀ i < k, ¬ CapAt c l.events l.bytes (loggedEvents steps) i) ∧
      (k < (loggedEvents steps).length → CapAt c l.events l.bytes (loggedEvents steps) k) := by
  have stop {k : Nat} (h : k < 0) {p : Prop} : p := absurd h (Nat.not_lt_zero k)
  induction steps generalizing l ws with
  | nil => exact ⟨0, Nat.le_refl _, rfl, fun i hi => stop hi, fun hk => stop hk⟩
  | cons step steps ih =>
    cases step with
    | close wErr rawErr =>
      have nothing : (l.calls c (.close wErr rawErr :: steps)).2 = [] :=
        calls_close l [] steps wErr rawErr
      rw [nothing]
      exact ⟨0, Nat.le_refl _, rfl, fun i hi => stop hi, fun hk => stop hk⟩
    | log ev now answer =>
      have alive : ¬ l.Dead := by
        rw [h.dead_iff, hopen]
        exact Bool.false_ne_true
      have run : (l.calls c (.log ev now answer :: steps)).2 =
          (l.log c ev now answer).2.toList ++ ((l.log c ev now answer).1.calls c steps).2 := rfl
      have events : loggedEvents (.log ev now answer :: steps) =
          (ev, now) :: loggedEvents steps := rfl
      rw [run] at whole ⊢
      rw [events]
      by_cases full : l.Full c ev
      · -- The marker, and nothing after it.
        have ended : (l.log c ev now answer).1.Dead := by
          rw [log_full alive full]
          exact .inr (.inr rfl)
        rw [calls_dead ended, List.append_nil] at whole ⊢
        rw [log_full alive full] at whole ⊢
        exact ⟨0, Nat.zero_le _, fileOf_complete (whole _ (List.mem_singleton_self _)),
          fun i hi => stop hi, fun _ => capAt_zero.mpr full⟩
      · rw [log_room alive full] at whole ⊢
        have first := whole _ (List.mem_append_left _ (List.mem_singleton_self _))
        have live := h.line hc full first
        have counted := writeLine_complete first
        obtain ⟨k, hk, hfile, below, cap⟩ := ih live (by rw [counted]; exact hopen)
          fun w hw => whole w (List.mem_append_right _ hw)
        rw [counted] at below cap
        refine ⟨k + 1, Nat.succ_le_succ hk, ?_, ?_, ?_⟩
        · rw [fileOf_append, hfile]
          show fileOf [_] ++ _ = _
          rw [fileOf_complete first]
          simp only [expectedFile, List.take_succ_cons, List.map_cons, List.flatten_cons,
            List.drop_succ_cons, List.append_assoc]
          rfl
        · intro i hi
          cases i with
          | zero => exact fun hcap => full (capAt_zero.mp hcap)
          | succ i => exact fun hcap => below i (Nat.lt_of_succ_lt_succ hi) (capAt_succ.mp hcap)
        · intro hlt
          exact capAt_succ.mpr (cap (Nat.lt_of_succ_lt_succ hlt))

/-- THE LOG. For any calls, and whatever the writer answers: no more bytes are written than
the byte cap; no line is longer than the line cap; there are at most so many ordinary
lines and one marker; nothing is written after the marker, after a write that failed or
was short, or after a `Close`. And where no write fails, the file is the lines of the
events before the first that meets a cap, and a marker exactly when there is such an
event. -/
theorem session_log_bounded (c : LogCodec) (hc : c.Bounded) (compressed : Bool)
    (steps : List LogCall) :
    written (calls c { compressed } steps).2 ≤ maxLogBytesPerSession ∧
      (∀ w ∈ (calls c { compressed } steps).2, w.line.length ≤ maxLogEventBytes) ∧
      (calls c { compressed } steps).2.countP (fun w => !w.marker) ≤ maxLogEventsPerSession ∧
      (calls c { compressed } steps).2.countP LogWrite.marker ≤ 1 ∧
      Justified Allowed (calls c { compressed } steps).2 ∧
      (∀ before after wErr rawErr, steps = before ++ .close wErr rawErr :: after →
        (calls c { compressed } steps).2 = (calls c { compressed } before).2) ∧
      ((∀ w ∈ (calls c { compressed } steps).2, w.Complete) →
        ∃ k ≤ (loggedEvents steps).length,
          fileOf (calls c { compressed } steps).2 = expectedFile c (loggedEvents steps) k ∧
          (∀ i < k, ¬ CapAt c 0 0 (loggedEvents steps) i) ∧
          (k < (loggedEvents steps).length → CapAt c 0 0 (loggedEvents steps) k)) := by
  have logged : Logged (calls c { compressed } steps).1 (calls c { compressed } steps).2 :=
    Logged.calls (.inl (live_new compressed)) hc steps
  refine ⟨logged.total, logged.short, logged.counts.1, logged.counts.2, logged.justified, ?_, ?_⟩
  · rintro before after wErr rawErr rfl
    exact calls_close _ before after wErr rawErr
  · intro whole
    exact (live_new compressed).file hc rfl steps whole

/-! ## A run into the cap -/

/-- Events, each written whole, and a `Close`. -/
def logAll (evs : List (Event × Int)) : List LogCall :=
  evs.map (fun e => .log e.1 e.2 ⟨maxLogEventBytes, none⟩) ++ [.close none none]

theorem loggedEvents_logAll (evs : List (Event × Int)) : loggedEvents (logAll evs) = evs := by
  induction evs with
  | nil => rfl
  | cons e evs ih => exact congrArg (e :: ·) ih

/-- A write is what the writer answers a call. -/
theorem mem_calls {steps : List LogCall} (h : w ∈ (l.calls c steps).2) :
    ∃ ev now answer, LogCall.log ev now answer ∈ steps ∧ w.err = answer.err ∧
      w.n = min answer.n w.line.length := by
  induction steps generalizing l with
  | nil => cases h
  | cons step steps ih =>
    rcases List.mem_append.mp h with h | h
    · cases step with
      | close wErr rawErr => cases h
      | log ev now answer =>
        refine ⟨ev, now, answer, List.mem_cons_self, ?_⟩
        have made : (l.log c ev now answer).2 = some w := Option.mem_toList.mp h
        by_cases dead : l.Dead
        · rw [log_dead dead] at made
          cases made
        · by_cases full : l.Full c ev
          · rw [log_full dead full] at made
            cases made
            exact ⟨rfl, rfl⟩
          · rw [log_room dead full] at made
            cases made
            exact ⟨rfl, rfl⟩
    · obtain ⟨ev, now, answer, called, answered⟩ := ih h
      exact ⟨ev, now, answer, List.mem_cons_of_mem _ called, answered⟩

/-- A writer that takes every line makes every write whole. -/
theorem calls_logAll_complete (hc : c.Bounded) (compressed : Bool) (evs : List (Event × Int)) :
    ∀ w ∈ (calls c { compressed } (logAll evs)).2, w.Complete := by
  intro w hw
  have short := (Logged.calls (.inl (live_new compressed)) hc (logAll evs)).short w hw
  obtain ⟨ev, now, answer, called, err, n⟩ := mem_calls hw
  rcases List.mem_append.mp called with called | called
  · obtain ⟨e, -, made⟩ := List.mem_map.mp called
    cases made
    exact ⟨err, n.trans (Nat.min_eq_right short)⟩
  · cases List.mem_singleton.mp called

/-- A byte of a JSON string. -/
def jsonByte (b : UInt8) : Bytes :=
  let digit (d : UInt8) := if d < 10 then 0x30 + d else 0x57 + d
  if b = 0x22 ∨ b = backslash then [backslash, b]
  else if b < 0x20 then str "\\u00" ++ [digit (b / 16), digit (b % 16)]
  else [b]

def jsonString (s : Bytes) : Bytes := 0x22 :: s.flatMap jsonByte ++ [0x22]

/-- A field with `omitempty`, behind the ones before it. -/
def jsonField (name value : Bytes) : Bytes :=
  if value = [] then [] else str "," ++ jsonString name ++ str ":" ++ jsonString value

/-- A clock in the first minute of its time. -/
def clockTime (now : Int) : Bytes :=
  str "1970-01-01T00:00:" ++
    [0x30 + UInt8.ofNat (now.toNat % 60 / 10), 0x30 + UInt8.ofNat (now.toNat % 10)] ++ str "Z"

/-- Records without arguments and metadata as JSON. -/
def jsonCodec : LogCodec where
  json r :=
    if r.args = [] ∧ r.metadata = [] then
      some (str "\x7b\"time\":" ++ jsonString r.time ++ str ",\"type\":" ++ jsonString r.type ++
        jsonField (str "cwd") r.cwd ++ jsonField (str "command") r.command ++
        jsonField (str "error") r.error ++ jsonField (str "reason") r.reason ++ str "\x7d")
    else none
  formatTime := clockTime
  base64 := id

theorem jsonByte_length (b : UInt8) : (jsonByte b).length ≤ 6 := by
  unfold jsonByte
  dsimp only
  split
  next => exact Nat.le_of_ble_eq_true rfl
  next =>
  split
  next => exact Nat.le_of_ble_eq_true rfl
  next => exact Nat.le_of_ble_eq_true rfl

theorem jsonString_length (s : Bytes) : (jsonString s).length ≤ 6 * s.length + 2 := by
  have body : (s.flatMap jsonByte).length ≤ 6 * s.length := by
    induction s with
    | nil => exact Nat.zero_le _
    | cons b s ih =>
      have first := jsonByte_length b
      rw [List.flatMap_cons, List.length_append, List.length_cons]
      omega
  rw [jsonString, List.length_append, List.length_cons, List.length_singleton]
  omega

theorem jsonField_length (name value : Bytes) :
    (jsonField name value).length ≤ 6 * (name.length + value.length) + 6 := by
  unfold jsonField
  split
  next => exact Nat.zero_le _
  next =>
    have first := jsonString_length name
    have second := jsonString_length value
    have comma : (str ",").length = 1 := rfl
    have colon : (str ":").length = 1 := rfl
    simp only [List.length_append, comma, colon]
    omega

/-- The line of a marker, in which the time and the type of an event are not known. -/
theorem marker_length (now : Int) (type cwd reason : Bytes) :
    ((jsonCodec.json { time := jsonCodec.formatTime now, type, cwd, reason }).getD [] ++
        [newline]).length ≤
      (jsonString type).length + (jsonField (str "cwd") cwd).length +
        (jsonField (str "reason") reason).length + 141 := by
  have time := jsonString_length (jsonCodec.formatTime now)
  have shown : (jsonCodec.formatTime now).length = 20 := rfl
  have start : (str "\x7b\"time\":").length = 8 := rfl
  have middle : (str ",\"type\":").length = 8 := rfl
  have finish : (str "\x7d").length = 1 := rfl
  have none {name : Bytes} : jsonField name [] = [] := rfl
  show (_ ++ _ ++ _ ++ _ ++ _ ++ jsonField _ [] ++ jsonField _ [] ++ _ ++ _ ++ _ : Bytes).length ≤ _
  simp only [List.length_append, none, List.length_nil, List.length_singleton, start, middle,
    finish]
  omega

theorem jsonCodec_bounded : jsonCodec.Bounded where
  marker now := by
    have short := marker_length now (str "truncated") [] truncationMarkerReason
    have fixed : (jsonString (str "truncated")).length + (jsonField (str "cwd") []).length +
        (jsonField (str "reason") truncationMarkerReason).length + 141 ≤
          truncationMarkerReserve := by decide
    have whole : ¬ maxLogEventBytes < _ :=
      Nat.not_lt.mpr (Nat.le_trans (Nat.le_trans short fixed) (by decide))
    unfold truncationMarker
    dsimp only
    rw [if_neg whole]
    exact Nat.le_trans short fixed
  tooLarge ev := by
    have short := marker_length ev.time (str "event_too_large")
      (if ev.type = [] then [] else truncateString ev.type 128)
      (str "single_event_exceeds_max_log_event_bytes")
    have type : (if ev.type = [] then [] else truncateString ev.type 128).length ≤ 128 := by
      split
      next => exact Nat.zero_le _
      next => exact truncateString_length (by decide) _
    have field := jsonField_length (str "cwd")
      (if ev.type = [] then [] else truncateString ev.type 128)
    have name : (str "cwd").length = 3 := rfl
    have fixed : (jsonString (str "event_too_large")).length + (jsonField (str "reason")
        (str "single_event_exceeds_max_log_event_bytes")).length ≤ 100 := by decide
    have cap : maxLogEventBytes = 8192 := rfl
    show ((jsonCodec.json _).getD [] ++ [newline]).length ≤ _
    refine Nat.le_trans short ?_
    omega

theorem lineBytes_replicate (n : Nat) (e : Event × Int) :
    lineBytes c (List.replicate n e) = n * (eventLine c e.1).length := by
  induction n with
  | zero => exact (Nat.zero_mul _).symm
  | succ n ih => rw [List.replicate_succ, lineBytes, ih, Nat.succ_mul, Nat.add_comm]

def login : Event × Int := ({ time := 5, type := str "login", cwd := str "/" }, 7)

def loginLine : Bytes :=
  str "\x7b\"time\":\"1970-01-01T00:00:05Z\",\"type\":\"login\",\"cwd\":\"/\"\x7d\n"

def markerLine : Bytes :=
  str "\x7b\"time\":\"1970-01-01T00:00:07Z\",\"type\":\"truncated\"," ++
    str "\"reason\":\"session_log_limit\"\x7d\n"

/-- One event more than a session may log: as many lines as it may, and the marker. -/
theorem session_log_of_logins :
    jsonCodec.Bounded ∧
      fileOf (calls jsonCodec {} (logAll (List.replicate 1025 login))).2 =
        (List.replicate 1024 loginLine).flatten ++ markerLine := by
  refine ⟨jsonCodec_bounded, ?_⟩
  obtain ⟨-, -, -, -, -, -, file⟩ :=
    session_log_bounded jsonCodec jsonCodec_bounded false (logAll (List.replicate 1025 login))
  obtain ⟨k, -, shown, below, cap⟩ := file (calls_logAll_complete jsonCodec_bounded false _)
  rw [loggedEvents_logAll] at shown below cap
  have line : eventLine jsonCodec login.1 = loginLine := by decide +kernel
  have marker : truncationMarker jsonCodec login.2 = markerLine := by decide +kernel
  have width : loginLine.length = 57 := by decide
  have ceiling : byteCeiling = 1048320 := rfl
  have most : maxLogEventsPerSession = 1024 := rfl
  -- it is the count of the events that ends the log, not their bytes
  have met (i : Nat) : CapAt jsonCodec 0 0 (List.replicate 1025 login) i ↔ 1024 ≤ i := by
    rw [CapAt, List.take_replicate, lineBytes_replicate, line, width, ceiling, most]
    omega
  simp only [met, List.length_replicate] at below cap
  have last : k = 1024 := by
    have noLater := below 1024
    omega
  rw [shown, last, expectedFile, List.take_replicate, List.drop_replicate, List.map_replicate, line,
    Nat.min_eq_left (by decide)]
  show _ ++ truncationMarker jsonCodec login.2 = _
  rw [marker]

end SessionLogger

end FakeSSH.Shell
