import FakeSSH.Laws.Shell.Atomic
import FakeSSH.Laws.Shell.Execute
import FakeSSH.Laws.Shell.Grammar

/-!
# What redirected output leaves in the store

Every redirection with a target opens a descriptor of its own, and the redirections of a
command move its two streams from left to right. After the command, the entry of a path
has the size of the longest output that went through a descriptor opened on it, up to
the cap. Nothing else in the store is written, and what is not redirected goes where it
went.
-/

namespace FakeSSH.Shell

open FakeSSH.Go FakeSSH.Lib

variable {lib : StdLib} {clock : Nat → Int} {r : CommandRunner} {s : DynamicStore}
  {redirects : List Redirect} {p : Bytes}

/-! ## Streams -/

/-- The two streams of a command. -/
inductive Stream where
  | out
  | err
  deriving DecidableEq, Repr

def Opened.writer (o : Opened) : Stream → Writer
  | .out => o.out
  | .err => o.errw

/-- Where the writes of a command go. -/
def Opened.sent (o : Opened) (writes : List (Stream × Bytes)) : List (Writer × Bytes) :=
  writes.map fun w => (o.writer w.1, w.2)

/-- What goes to a writer, in order. -/
def through (writes : List (Writer × Bytes)) (w : Writer) : Bytes :=
  ((writes.filter fun x => x.1 = w).map Prod.snd).flatten

theorem foldl_countWrite {c : Nat} (capped : c ≤ maxCommandOutputBytes) (texts : List Bytes) :
    texts.foldl countWrite c = min maxCommandOutputBytes (c + texts.flatten.length) := by
  induction texts generalizing c with
  | nil =>
    rw [List.foldl_nil, List.flatten_nil, List.length_nil, Nat.add_zero, Nat.min_eq_right capped]
  | cons text texts ih =>
    have step : countWrite c text = min maxCommandOutputBytes (c + text.length) := by
      unfold countWrite
      split <;> omega
    rw [List.foldl_cons, step, ih (Nat.min_le_left _ _), List.flatten_cons, List.length_append]
    omega

/-- A record counts what goes through its descriptor, up to the cap. -/
theorem recordCount_eq (writes : List (Writer × Bytes)) (n : Nat) :
    recordCount writes n = min maxCommandOutputBytes (through writes (.file n)).length := by
  rw [recordCount, foldl_countWrite (Nat.zero_le _), Nat.zero_add]
  rfl

/-! ## Descriptors -/

def Redirect.movesOut (x : Redirect) : Bool := !x.duplicate && decide (x.fd = 1)

def Redirect.movesErr (x : Redirect) : Bool := x.duplicate || decide (x.fd = 2)

/-- How many descriptors some redirections open. -/
def opens (redirects : List Redirect) : Nat := redirects.countP fun x => !x.duplicate

/-- Where the redirections leave the output: at the caller's, or at the descriptor that the
last `>` opens. -/
def OutputOf (redirects : List Redirect) (w : Writer) : Prop :=
  (∀ x ∈ redirects, x.movesOut = false) ∧ w = .stdout ∨
    ∃ before x behind, redirects = before ++ x :: behind ∧ x.movesOut = true ∧
      (∀ y ∈ behind, y.movesOut = false) ∧ w = .file (opens before)

/-- Where the redirections leave the error output: at the caller's, at the descriptor that
the last `2>` opens, or where the output was at the last `2>&1`, if that comes later. -/
def ErrorOf (redirects : List Redirect) (w : Writer) : Prop :=
  (∀ x ∈ redirects, x.movesErr = false) ∧ w = .stderr ∨
    ∃ before x behind, redirects = before ++ x :: behind ∧ x.movesErr = true ∧
      (∀ y ∈ behind, y.movesErr = false) ∧
      (if x.duplicate then OutputOf before w else w = .file (opens before))

theorem opens_concat (redirects : List Redirect) (x : Redirect) :
    opens (redirects ++ [x]) = opens redirects + (if x.duplicate then 0 else 1) := by
  rw [opens, List.countP_append, List.countP_singleton]
  cases x.duplicate <;> rfl

/-- The last redirection that moves a stream is still the last one behind a redirection
that does not. -/
theorem lastMover_kept (moves : Redirect → Bool) (none : Prop)
    (goes : List Redirect → Redirect → Prop)
    (h : (∀ x ∈ redirects, moves x = false) ∧ none ∨
      ∃ before x behind, redirects = before ++ x :: behind ∧ moves x = true ∧
        (∀ y ∈ behind, moves y = false) ∧ goes before x) {z : Redirect} (stays : moves z = false) :
    (∀ x ∈ redirects ++ [z], moves x = false) ∧ none ∨
      ∃ before x behind, redirects ++ [z] = before ++ x :: behind ∧ moves x = true ∧
        (∀ y ∈ behind, moves y = false) ∧ goes before x := by
  rcases h with ⟨still, start⟩ | ⟨before, x, behind, rfl, moved, last, end'⟩
  · exact .inl ⟨List.forall_mem_append.mpr ⟨still, List.forall_mem_singleton.mpr stays⟩, start⟩
  · refine .inr ⟨before, x, behind ++ [z], by simp, moved, ?_, end'⟩
    exact List.forall_mem_append.mpr ⟨last, List.forall_mem_singleton.mpr stays⟩

theorem OutputOf.kept {w : Writer} (h : OutputOf redirects w) {x : Redirect}
    (stays : x.movesOut = false) : OutputOf (redirects ++ [x]) w :=
  lastMover_kept Redirect.movesOut (w = .stdout) (fun before _ => w = .file (opens before)) h stays

theorem OutputOf.moved {x : Redirect} (moves : x.movesOut = true) :
    OutputOf (redirects ++ [x]) (.file (opens redirects)) :=
  .inr ⟨redirects, x, [], rfl, moves, nofun, rfl⟩

theorem ErrorOf.kept {w : Writer} (h : ErrorOf redirects w) {x : Redirect}
    (stays : x.movesErr = false) : ErrorOf (redirects ++ [x]) w :=
  lastMover_kept Redirect.movesErr (w = .stderr)
    (fun before x => if x.duplicate then OutputOf before w else w = .file (opens before)) h stays

/-- What one turn of the opening does. -/
theorem openRedirect_ok {x : Redirect} {o o' : Opened} (h : openRedirect r o x = .ok o') :
    x.duplicate = true ∧ o' = { o with errw := o.out } ∨
      x.duplicate = false ∧ ∃ p,
        (x.fd = 1 ∧ o' = { o with out := .file o.records.length, records := o.records ++ [p] } ∨
          x.fd = 2 ∧
            o' = { o with errw := .file o.records.length, records := o.records ++ [p] }) := by
  unfold openRedirect at h
  split at h
  next dup =>
    obtain ⟨_, -, rfl⟩ := map_eq_ok.mp h
    exact .inl ⟨dup, rfl⟩
  next single =>
    obtain ⟨-, h⟩ := check_eq_ok.mp h
    obtain ⟨known, h⟩ := check_eq_ok.mp h
    obtain ⟨p, -, rfl⟩ := map_eq_ok.mp h
    refine .inr ⟨Bool.eq_false_iff.mpr single, p, ?_⟩
    by_cases out : x.fd = 1
    · rw [if_pos out]
      exact .inl ⟨out, rfl⟩
    · have err : x.fd = 2 := by
        by_contra other
        exact known ⟨out, other⟩
      rw [if_neg out]
      exact .inr ⟨err, rfl⟩

/-- The opening from left to right. -/
theorem opening_routes {o : Opened} (h : redirects.foldlM (openRedirect r) {} = .ok o) :
    OutputOf redirects o.out ∧ ErrorOf redirects o.errw ∧ o.records.length = opens redirects := by
  induction redirects using List.reverseRecOn generalizing o with
  | nil =>
    cases h
    exact ⟨.inl ⟨nofun, rfl⟩, .inl ⟨nofun, rfl⟩, rfl⟩
  | append_singleton redirects x ih =>
    rw [List.foldlM_append, bind_eq_ok] at h
    obtain ⟨o', first, h⟩ := h
    rw [List.foldlM_cons, bind_eq_ok] at h
    obtain ⟨o'', last, h⟩ := h
    cases h
    obtain ⟨out, err, count⟩ := ih first
    rcases openRedirect_ok last with ⟨dup, rfl⟩ | ⟨single, p, ⟨fd, rfl⟩ | ⟨fd, rfl⟩⟩
    · refine ⟨out.kept ?_, .inr ⟨redirects, x, [], rfl, ?_, nofun, ?_⟩, ?_⟩
      · rw [Redirect.movesOut, dup]
        rfl
      · rw [Redirect.movesErr, dup]
        rfl
      · rw [if_pos dup]
        exact out
      · rw [opens_concat, if_pos dup]
        exact count
    · refine ⟨?_, err.kept ?_, ?_⟩
      · dsimp only
        rw [count]
        apply OutputOf.moved
        rw [Redirect.movesOut, single, fd]
        rfl
      · rw [Redirect.movesErr, single, fd]
        rfl
      · rw [opens_concat, single, List.length_append, count]
        rfl
    · refine ⟨out.kept ?_, .inr ⟨redirects, x, [], rfl, ?_, nofun, ?_⟩, ?_⟩
      · rw [Redirect.movesOut, single, fd]
        rfl
      · rw [Redirect.movesErr, single, fd]
        rfl
      · rw [single, ← count]
        rfl
      · rw [opens_concat, single, List.length_append, count]
        rfl

/-! ## The account -/

/-- The account of a redirected command: `middle` is the store that the command leaves, and
`final` the one after the cleanup. -/
structure Accounted (r after : CommandRunner) (redirects : List Redirect) (opened : Opened)
    (writes : List (Stream × Bytes)) (middle final : DynamicStore) : Prop where
  output : OutputOf redirects opened.out
  error : ErrorOf redirects opened.errw
  paths : List.Forall₂ (fun x p => resolvePath r.currentPWD x.target = .ok p)
    (redirects.filter fun x => !x.duplicate) opened.records
  sized : ∀ p ∈ opened.records, ∃ e, final.entries.lookup p = some e ∧ e.kind = kindFile ∧
    ∃ size : Nat, e.size = size ∧ IsGreatest {n | ∃ i, opened.records[i]? = some p ∧
      n = min maxCommandOutputBytes (through (opened.sent writes) (.file i)).length} size
  delivered : ∀ w, through (opened.sent writes) w =
    ((writes.filter fun x => opened.writer x.1 = w).map Prod.snd).flatten
  reserved : ∀ q ∉ opened.records,
    after.dynamic.entries.lookup q = r.dynamic.entries.lookup q
  closed : ∀ q ∉ opened.records, final.entries.lookup q = middle.entries.lookup q

theorem redirectTargets_resolved (valid : DynamicStore.Valid r.dynamic)
    (each : ∀ x ∈ redirects, x.Passes r) :
    List.Forall₂ (fun x p => resolvePath r.currentPWD x.target = .ok p)
      (redirects.filter fun x => !x.duplicate) (redirectTargets r redirects) := by
  induction redirects with
  | nil => exact .nil
  | cons x rest ih =>
    obtain ⟨first, later⟩ := List.forall_mem_cons.mp each
    rw [redirectTargets, List.filterMap_cons, List.filter_cons]
    rcases first with ⟨dup, -⟩ | ⟨single, -, p, checked⟩
    · rw [redirectTarget_duplicate dup, dup]
      exact ih later
    · rw [redirectTarget_single single checked, single]
      exact .cons ((validate_ok_iff valid).mp checked).1 (ih later)

/-- REDIRECTED OUTPUT. Whatever redirections are accepted, whatever the command records and
writes: each target's entry has the greatest of the counts of its descriptors, the streams
go where the redirections leave them, and no other entry is touched. -/
theorem redirected_output_accounted (lib : StdLib) (clock closedAt : Nat → Int)
    {after : CommandRunner} {opened : Opened} (valid : DynamicStore.Valid r.dynamic)
    (accepted : applyFakeRedirections lib clock r redirects = (after, .ok opened))
    (recorded : List RecordCall) (writes : List (Stream × Bytes)) :
    Accounted r after redirects opened writes (recordDropping lib after.dynamic recorded)
      (recordDropping lib (recordDropping lib after.dynamic recorded)
        (closingCalls closedAt opened.records (recordCount (opened.sent writes)))) := by
  obtain ⟨passed, -, after_eq, records, opens⟩ :=
    applyFakeRedirections_ok lib clock valid accepted
  obtain ⟨output, error, -⟩ := opening_routes opens
  have made {path : Bytes} (isRecord : path ∈ opened.records) (size : Nat) (now : Int) :=
    opened_entry valid accepted isRecord size now
  have known := closingCalls_known valid accepted recorded closedAt
    (recordCount (opened.sent writes))
  refine ⟨output, error, records ▸ redirectTargets_resolved valid passed.each, ?_, ?_, ?_, ?_⟩
  · intro p isRecord
    have greatest :=
      (redirectionSizes_spec opened.records (recordCount (opened.sent writes))).greatest p isRecord
    simp only [countsOn, recordCount_eq] at greatest
    have wrote := recordDropping_written (P := fun e => e.kind = kindFile ∧
        e.size = (((redirectionSizes opened.records (recordCount (opened.sent writes))).1.lookup
          p).getD 0 : Nat)) (p := p) known ?_ ?_
    · obtain ⟨e, lookup, kind, size⟩ := wrote
      exact ⟨e, lookup, kind, _, size, greatest⟩
    · intro c hc e entry path
      obtain ⟨path', isRecord', now, rfl⟩ := mem_closingCalls hc
      cases (made isRecord' _ now).symm.trans entry
      obtain rfl : path' = p := path
      exact ⟨rfl, rfl⟩
    · obtain ⟨c, hc, arg⟩ := closingCalls_of_mem (recordCount (opened.sent writes)) isRecord
      obtain ⟨path', isRecord', now, rfl⟩ := mem_closingCalls hc
      exact ⟨_, hc, _, made isRecord' _ now, arg⟩
  · intro w
    rw [through, Opened.sent, List.filter_map, List.map_map]
    rfl
  · intro q other
    rw [records] at other
    rw [after_eq]
    apply OrderedMap.lookup_putAll_of_not_mem
    rw [stamped_keys, List.mem_eraseDups]
    exact other
  · intro q other
    apply recordDropping_other
    intro c hc e entry
    obtain ⟨path, isRecord, now, rfl⟩ := mem_closingCalls hc
    cases (made isRecord _ now).symm.trans entry
    rintro rfl
    exact other isRecord

/-- `echo x > /a 2>&1` has one descriptor, for both streams. -/
theorem redirected_output_of_echo : ∃ after opened,
    applyFakeRedirections asciiLib (fun _ => 0) {}
        [RedirectOp.out.to (literalUnquotedWord (str "/a")), errToOut] = (after, .ok opened) ∧
      Accounted {} after [RedirectOp.out.to (literalUnquotedWord (str "/a")), errToOut] opened
        [(.out, str "x\n")] after.dynamic (recordDropping asciiLib after.dynamic
          (closingCalls (fun _ => 1) opened.records
            (recordCount (opened.sent [(.out, str "x\n")])))) :=
  ⟨_, _, rfl, redirected_output_accounted asciiLib (fun _ => 0) (fun _ => 1) empty_valid rfl []
    [(.out, str "x\n")]⟩

/-- What the executor writes and leaves in the store, in the terms of the account. -/
theorem runOpened_account (lib : StdLib) (around : Surroundings) (after : CommandRunner)
    (cmd : ParsedCommand) (opened : Opened) (stdout : Stdout) :
    ∃ writes recorded,
      (runOpened lib around after cmd opened stdout).writes = opened.sent writes ∧
      (runOpened lib around after cmd opened stdout).runner.dynamic =
        recordDropping lib (recordDropping lib after.dynamic recorded)
          (closingCalls around.closedAt opened.records (recordCount (opened.sent writes))) := by
  obtain ⟨recorded, ran⟩ := runCmd_runner lib around after cmd.args cmd.name
  have dynamic : (runCmd after cmd.args lib around cmd.name).2.1.dynamic =
      recordDropping lib after.dynamic recorded := by
    rw [ran]
    cases (if cmd.name = str "cd" then cdDestination after cmd.args else none) <;> rfl
  let report := (runCmd after cmd.args lib around cmd.name).2.2
  let msg := (runCmd after cmd.args lib around cmd.name).1
  have sent : opened.sent (report.errs.map (Stream.err, ·) ++
      report.out.toList.map (Stream.out, ·) ++
        if msg = [] then [] else [(Stream.err, msg ++ [newline])]) =
      report.errs.map (opened.errw, ·) ++ report.out.toList.map (opened.out, ·) ++
        if msg = [] then [] else [(opened.errw, msg ++ [newline])] := by
    rw [Opened.sent, List.map_append, List.map_append, List.map_map, List.map_map]
    congr 1
    split <;> rfl
  refine ⟨_, recorded, sent.symm, ?_⟩
  rw [← dynamic, sent]
  rfl

end FakeSSH.Shell
