import FakeSSH.Go.Errors
import FakeSSH.Laws.Shell.Dynamic
import FakeSSH.Shell.Redirect

/-!
# Redirections are checked before they are made

The preflight foresees every later check but one: `Record` checks the bytes of the whole
path, and the preflight those of the target alone. What is behind the preflight depends
on the store through its directories and its capacity, and reserving a target changes
neither for the others. So the reservation gets past every target up to the first one
whose path has a byte that is not allowed, which `PWD` has brought in.
-/

namespace FakeSSH.Shell

open FakeSSH.Go FakeSSH.Lib

variable {lib : StdLib} {clock : Nat → Int} {r : CommandRunner} {s : DynamicStore}
  {redirects : List Redirect} {p q : Bytes}

/-! ## Only the store is written, and only by `Record` -/

/-- The runner with another store. -/
def CommandRunner.withStore (r : CommandRunner) (s : DynamicStore) : CommandRunner :=
  { r with dynamic := s }

/-- The runner after calls of `Record`. -/
def CommandRunner.recording (lib : StdLib) (r : CommandRunner) (calls : List RecordCall) :
    CommandRunner :=
  r.withStore (recordDropping lib r.dynamic calls)

theorem recording_append (r : CommandRunner) (calls calls' : List RecordCall) :
    r.recording lib (calls ++ calls') = (r.recording lib calls).recording lib calls' :=
  congrArg r.withStore (List.foldl_append ..)

theorem reserveTargets_runner (lib : StdLib) (clock : Nat → Int) (r : CommandRunner)
    (reserved : List Bytes) (redirects : List Redirect) :
    ∃ calls, (reserveTargets lib clock r reserved redirects).1 = r.recording lib calls := by
  fun_induction reserveTargets with
  | case1 r => exact ⟨[], rfl⟩
  | case2 r reserved redir rest _ ih => exact ih
  | case3 r => exact ⟨[], rfl⟩
  | case4 r reserved redir rest _ resolved _ _ ih => exact ih
  | case5 r reserved redir rest _ resolved _ _ s _ recorded =>
    obtain rfl := congrArg Prod.fst recorded
    exact ⟨[reservation resolved (clock reserved.length)], rfl⟩
  | case6 r reserved redir rest _ resolved _ _ s _ recorded ih =>
    obtain rfl := congrArg Prod.fst recorded
    obtain ⟨calls, after⟩ := ih
    exact ⟨reservation resolved (clock reserved.length) :: calls, after⟩

theorem applyFakeRedirections_runner (lib : StdLib) (clock : Nat → Int) (r : CommandRunner)
    (redirects : List Redirect) :
    ∃ calls, (applyFakeRedirections lib clock r redirects).1 = r.recording lib calls := by
  unfold applyFakeRedirections
  cases preflightOutputRedirectionTargets r redirects with
  | error e => exact ⟨[], rfl⟩
  | ok u =>
    obtain ⟨calls, after⟩ := reserveTargets_runner lib clock r [] redirects
    refine ⟨calls, Eq.trans ?_ after⟩
    rcases reserveTargets lib clock r [] redirects with ⟨after, e | u⟩ <;> rfl

/-! ## Reading the store -/

theorem DynamicStore.Valid.mem_dynamicEntries (valid : DynamicStore.Valid s) {e : DynamicEntry} :
    e ∈ dynamicEntries s ↔ s.entries.lookup e.path = some e := by
  unfold dynamicEntries OrderedMap.values
  rw [List.mem_map]
  constructor
  · rintro ⟨k, hk, rfl⟩
    obtain ⟨old, hold⟩ := Option.isSome_iff_exists.mp
      (AList.lookup_isSome.mpr ((valid.sound.listed k).mp hk))
    rw [hold, Option.getD_some, valid.own k old hold, hold]
  · intro h
    refine ⟨e.path, (valid.sound.listed _).mpr (AList.lookup_isSome.mp (by rw [h]; rfl)), ?_⟩
    rw [h, Option.getD_some]

theorem DynamicStore.Valid.dynamicEntryExists_iff (valid : DynamicStore.Valid s) :
    dynamicEntryExists (dynamicEntries s) p = true ↔ p ∈ s.entries := by
  simp only [dynamicEntryExists, List.any_eq_true, decide_eq_true_eq]
  rw [← AList.lookup_isSome, Option.isSome_iff_exists]
  constructor
  · rintro ⟨e, he, rfl⟩
    exact ⟨e, valid.mem_dynamicEntries.mp he⟩
  · rintro ⟨e, he⟩
    obtain rfl := valid.own p e he
    exact ⟨e, valid.mem_dynamicEntries.mpr he, rfl⟩

theorem dynamicDirExists_iff (valid : DynamicStore.Valid r.dynamic) :
    dynamicDirExists r q = true ↔
      ∃ e, r.dynamic.entries.lookup q = some e ∧ e.kind = kindDir := by
  simp only [dynamicDirExists, List.any_eq_true, decide_eq_true_eq]
  constructor
  · rintro ⟨e, he, rfl, isDir⟩
    exact ⟨e, valid.mem_dynamicEntries.mp he, isDir⟩
  · rintro ⟨e, he, isDir⟩
    obtain rfl := valid.own q e he
    exact ⟨e, valid.mem_dynamicEntries.mpr he, rfl, isDir⟩

theorem DynamicStore.Valid.length_dynamicEntries (valid : DynamicStore.Valid s) :
    (dynamicEntries s).length = s.size := by
  rw [dynamicEntries, OrderedMap.values, List.length_map, valid.sound.length_order]

/-! ## A target that passes -/

/-- What a check asks of a path, the store's capacity apart. -/
structure Fits (r : CommandRunner) (p : Bytes) : Prop where
  short : p.length ≤ maxDynamicPathLen
  parent : fakeDirExists r (dir p) = true
  notDir : fakeDirExists r p = false

theorem validate_ok_iff (valid : DynamicStore.Valid r.dynamic) {target : Bytes} :
    validateFakeOutputRedirection r target = .ok p ↔
      resolvePath r.currentPWD target = .ok p ∧ Fits r p ∧
        (p ∈ r.dynamic.entries ∨ r.dynamic.size < maxDynamicEntries) := by
  unfold validateFakeOutputRedirection
  cases resolvePath r.currentPWD target with
  | error e => exact ⟨nofun, fun h => nomatch h.1⟩
  | ok resolved =>
    have full : (dynamicEntryExists (dynamicEntries r.dynamic) resolved = false ∧
        maxDynamicEntries ≤ (dynamicEntries r.dynamic).length) =
          ¬ (resolved ∈ r.dynamic.entries ∨ r.dynamic.size < maxDynamicEntries) := by
      rw [valid.length_dynamicEntries, ← Bool.not_eq_true, valid.dynamicEntryExists_iff, not_or,
        Nat.not_lt]
    simp only [check_eq_ok, Except.ok.injEq, Nat.not_lt, Bool.not_eq_true', Bool.not_eq_false,
      Bool.not_eq_true, full, not_not]
    constructor
    · rintro ⟨short, parent, notDir, room, rfl⟩
      exact ⟨rfl, ⟨short, parent, notDir⟩, room⟩
    · rintro ⟨rfl, ⟨short, parent, notDir⟩, room⟩
      exact ⟨short, parent, notDir, room, rfl⟩

/-- The path that a redirection goes to, if it has one and passes. -/
def redirectTarget (r : CommandRunner) (x : Redirect) : Option Bytes :=
  if x.duplicate then none else (validateFakeOutputRedirection r x.target).toOption

/-- The paths that the redirections go to, in order. -/
def redirectTargets (r : CommandRunner) (redirects : List Redirect) : List Bytes :=
  redirects.filterMap (redirectTarget r)

/-- A redirection that passes, the capacity for all of them together apart. -/
def Redirect.Passes (r : CommandRunner) (x : Redirect) : Prop :=
  x.duplicate = true ∧ validateDuplicate x = .ok () ∨
    x.duplicate = false ∧ isOutputOperator x.operator = true ∧
      ∃ p, validateFakeOutputRedirection r x.target = .ok p

theorem redirectTarget_duplicate {x : Redirect} (dup : x.duplicate = true) :
    redirectTarget r x = none := if_pos dup

theorem redirectTarget_single {x : Redirect} (single : x.duplicate = false)
    (checked : validateFakeOutputRedirection r x.target = .ok p) :
    redirectTarget r x = some p := by
  rw [redirectTarget, single, checked]
  rfl

theorem preflightRedirect_ok_iff {x : Redirect} {t : Option Bytes} :
    preflightRedirect r x = .ok t ↔ x.Passes r ∧ redirectTarget r x = t := by
  unfold preflightRedirect Redirect.Passes redirectTarget
  cases x.duplicate with
  | true => cases validateDuplicate x <;> simp [Except.map]
  | false =>
    cases isOutputOperator x.operator with
    | false => simp
    | true =>
      cases validateFakeOutputRedirection r x.target <;> simp [Except.map, Except.toOption]

/-- What the preflight has seen when it lets the redirections pass. -/
structure Passed (r : CommandRunner) (redirects : List Redirect) : Prop where
  each : ∀ x ∈ redirects, x.Passes r
  room : (r.dynamic.entries.keys ++ redirectTargets r redirects).toFinset.card ≤ maxDynamicEntries

/-- The two counts of the preflight are that of one set. -/
theorem preflight_count (valid : DynamicStore.Valid s) (targets : List Bytes) :
    ((dynamicEntries s).map (·.path)).toFinset.card +
        (targets.filter fun p => p ∉ (dynamicEntries s).map (·.path)).toFinset.card =
      (s.entries.keys ++ targets).toFinset.card := by
  have existing : ((dynamicEntries s).map (·.path)).toFinset = s.entries.keys.toFinset := by
    ext p
    rw [List.mem_toFinset, List.mem_toFinset]
    refine Iff.trans ?_ valid.dynamicEntryExists_iff
    simp [dynamicEntryExists]
  have new : (targets.filter fun p => p ∉ (dynamicEntries s).map (·.path)).toFinset =
      targets.toFinset \ ((dynamicEntries s).map (·.path)).toFinset := by
    ext p
    rw [List.mem_toFinset, Finset.mem_sdiff, List.mem_filter, decide_eq_true_iff,
      List.mem_toFinset, List.mem_toFinset]
  rw [new, Nat.add_comm, Finset.card_sdiff_add_card, existing, Finset.union_comm,
    List.toFinset_append]

theorem preflight_ok_iff (valid : DynamicStore.Valid r.dynamic) :
    preflightOutputRedirectionTargets r redirects = .ok () ↔ Passed r redirects := by
  have targets (ts : List (Option Bytes)) : redirects.mapM (preflightRedirect r) = .ok ts ↔
      (∀ x ∈ redirects, x.Passes r) ∧ redirects.map (redirectTarget r) = ts := by
    rw [mapM_eq_ok, ← List.forall₂_eq_eq_eq, List.forall₂_map_left_iff, ← List.forall₂_and_left]
    simp only [preflightRedirect_ok_iff]
  have paths : (redirects.map (redirectTarget r)).reduceOption = redirectTargets r redirects :=
    List.filterMap_map ..
  unfold preflightOutputRedirectionTargets
  simp only [bind_eq_ok, targets, check_eq_ok, preflight_count valid, Nat.not_lt, and_true]
  constructor
  · rintro ⟨ts, ⟨each, rfl⟩, room⟩
    exact ⟨each, paths ▸ room⟩
  · rintro ⟨each, room⟩
    exact ⟨_, ⟨each, rfl⟩, paths ▸ room⟩

/-! ## The store during the reservation -/

/-- A store between the preflight and the end of the reservation. -/
structure Staged (r : CommandRunner) (redirects : List Redirect) (s : DynamicStore) : Prop where
  valid : DynamicStore.Valid s
  dirs : ∀ q, dynamicDirExists (r.withStore s) q = dynamicDirExists r q
  within : ∀ q ∈ s.entries, q ∈ r.dynamic.entries ∨ q ∈ redirectTargets r redirects

theorem Staged.start (valid : DynamicStore.Valid r.dynamic) : Staged r redirects r.dynamic :=
  ⟨valid, fun _ => rfl, fun _ => .inl⟩

/-- There is room for every target that is not there yet. -/
theorem Staged.room (staged : Staged r redirects s) (passed : Passed r redirects)
    (target : p ∈ redirectTargets r redirects) :
    p ∈ s.entries ∨ s.size < maxDynamicEntries := by
  by_cases known : p ∈ s.entries
  · exact .inl known
  · refine .inr (lt_of_lt_of_le ?_ passed.room)
    have size : s.size = s.entries.keys.toFinset.card :=
      (List.toFinset_card_of_nodup s.entries.keys_nodup).symm
    rw [size]
    apply Finset.card_lt_card
    refine Finset.ssubset_iff_of_subset ?_ |>.mpr ⟨p, ?_, ?_⟩
    · intro q hq
      rw [List.mem_toFinset] at hq ⊢
      exact List.mem_append.mpr (staged.within q hq)
    · exact List.mem_toFinset.mpr (List.mem_append_right _ target)
    · exact fun h => known (List.mem_toFinset.mp h)

theorem fakeDirExists_withStore
    (dirs : ∀ q, dynamicDirExists (r.withStore s) q = dynamicDirExists r q) (q : Bytes) :
    fakeDirExists (r.withStore s) q = fakeDirExists r q := by
  unfold fakeDirExists
  rw [dirs]
  rfl

/-- A target that has passed once passes again. -/
theorem Staged.validate (staged : Staged r redirects s) (passed : Passed r redirects)
    (valid : DynamicStore.Valid r.dynamic) {target : Bytes}
    (checked : validateFakeOutputRedirection r target = .ok p)
    (isTarget : p ∈ redirectTargets r redirects) :
    validateFakeOutputRedirection (r.withStore s) target = .ok p := by
  obtain ⟨resolves, fits, -⟩ := (validate_ok_iff valid).mp checked
  refine (validate_ok_iff staged.valid).mpr ⟨resolves, ?_, staged.room passed isTarget⟩
  exact ⟨fits.short, (fakeDirExists_withStore staged.dirs _).trans fits.parent,
    (fakeDirExists_withStore staged.dirs _).trans fits.notDir⟩

/-- The entry of a target that is reserved as the `k`-th one. -/
def reservedEntry (clock : Nat → Int) (k : Nat) (p : Bytes) : DynamicEntry :=
  { path := p, kind := kindFile, updatedAt := clock k }

theorem Staged.put (staged : Staged r redirects s) (passed : Passed r redirects)
    (fits : Fits r p) (isTarget : p ∈ redirectTargets r redirects) (k : Nat)
    (entry : (reservedEntry clock k p).Valid) :
    Staged r redirects (s.put p (reservedEntry clock k p)) where
  valid := staged.valid.put entry (staged.room passed isTarget)
  dirs := by
    intro q
    have after := staged.valid.put entry (staged.room passed isTarget)
    rw [← staged.dirs q, Bool.eq_iff_iff, dynamicDirExists_iff after,
      dynamicDirExists_iff staged.valid]
    by_cases hq : q = p
    · -- neither before nor after is the target a directory
      subst hq
      have notDir : dynamicDirExists (r.withStore s) q ≠ true := by
        have none := fits.notDir
        rw [← fakeDirExists_withStore staged.dirs, fakeDirExists, Bool.or_eq_false_iff] at none
        exact Bool.eq_false_iff.mp none.2
      rw [Ne, dynamicDirExists_iff staged.valid] at notDir
      refine ⟨?_, fun h => absurd h notDir⟩
      rintro ⟨e, he, isDir⟩
      rw [CommandRunner.withStore, OrderedMap.lookup_put_self] at he
      cases he
      have kinds : kindFile ≠ kindDir := by decide
      exact absurd isDir kinds
    · rw [CommandRunner.withStore, OrderedMap.lookup_put_ne hq]
      rfl
  within := by
    intro q hq
    rcases (AList.mem_insert _).mp hq with rfl | hq
    · exact .inr isTarget
    · exact staged.within q hq

/-! ## The reservation -/

/-- The path has no byte that `Record` refuses. -/
def recordable (p : Bytes) : Bool := (validatePathChars p).isOk

theorem recordable_iff : recordable p = true ↔ PathBytes p := by
  rw [recordable, ← validatePathChars_ok_iff]
  cases validatePathChars p with
  | error e => exact ⟨nofun, nofun⟩
  | ok u => exact ⟨fun _ => rfl, fun _ => rfl⟩

/-- A path that a check has resolved. -/
structure Resolved (r : CommandRunner) (p : Bytes) : Prop extends Fits r p where
  path : ∃ q : FakePath, p = q.render

theorem mem_redirectTargets (valid : DynamicStore.Valid r.dynamic)
    (h : p ∈ redirectTargets r redirects) : Resolved r p := by
  obtain ⟨x, -, hx⟩ := List.mem_filterMap.mp h
  rw [redirectTarget, Option.ite_none_left_eq_some] at hx
  cases checked : validateFakeOutputRedirection r x.target with
  | error e =>
    rw [checked] at hx
    cases hx.2
  | ok p' =>
    rw [checked] at hx
    cases hx.2
    obtain ⟨resolves, fits, -⟩ := (validate_ok_iff valid).mp checked
    exact ⟨fits, resolvePath_path resolves⟩

theorem normalizeDynamicPath_arg (h : normalizeDynamicPath p = .ok q) : PathBytes p := by
  unfold normalizeDynamicPath at h
  split at h
  next => cases h
  next resolves => exact (resolvePath_ok_iff.mp resolves).1

theorem normalizeDynamicPath_resolved (resolved : Resolved r p) :
    normalizeDynamicPath p = .ok p ↔ recordable p = true := by
  rw [recordable_iff]
  constructor
  · exact fun h => (normalizeDynamicPath_ok h).1
  · intro bytes
    obtain ⟨q, rfl⟩ := resolved.path
    unfold normalizeDynamicPath
    rw [q.resolve [slash] bytes]
    exact if_neg (Nat.not_lt.mpr resolved.short)

/-- What `Record` makes of a file at a path that is recordable. -/
theorem fileCall_entry (t : CaseTable) (path : normalizeDynamicPath p = .ok p) (size : Nat)
    (now : Int) :
    RecordCall.entry t { pathArg := p, kind := kindFile, size := size, now := now } =
      .ok { path := p, kind := kindFile, size := size, updatedAt := now } := by
  have nonneg : ¬ (size : Int) < 0 := Int.not_lt.mpr (Int.natCast_nonneg size)
  exact bind_eq_ok.mpr ⟨p, path, bind_eq_ok.mpr ⟨(), rfl,
    check_eq_ok.mpr ⟨nonneg, bind_eq_ok.mpr ⟨[], rfl, rfl⟩⟩⟩⟩

theorem reservedEntry_valid (path : normalizeDynamicPath p = .ok p) (k : Nat) :
    (reservedEntry clock k p).Valid where
  path := path
  short := (normalizeDynamicPath_ok path).2.2
  kind := .inl rfl
  size := Int.le_refl 0
  preview := Nat.zero_le _
  sha256 := .inl rfl

/-- The writes that reserve some targets, in order. -/
def stamped (clock : Nat → Int) (targets : List Bytes) : List (Bytes × DynamicEntry) :=
  targets.mapIdx fun k p => (p, reservedEntry clock k p)

/-- The store once some targets are reserved. -/
def reservedStore (clock : Nat → Int) (r : CommandRunner) (targets : List Bytes) : DynamicStore :=
  r.dynamic.putAll (stamped clock targets)

theorem reservedStore_concat (targets : List Bytes) (p : Bytes) :
    reservedStore clock r (targets ++ [p]) =
      (reservedStore clock r targets).put p (reservedEntry clock targets.length p) := by
  rw [reservedStore, stamped, List.mapIdx_concat, OrderedMap.putAll_concat]
  rfl

theorem staged_reservedStore (valid : DynamicStore.Valid r.dynamic) (passed : Passed r redirects)
    {targets : List Bytes}
    (good : ∀ p ∈ targets, p ∈ redirectTargets r redirects ∧ recordable p = true) :
    Staged r redirects (reservedStore clock r targets) := by
  induction targets using List.reverseRecOn with
  | nil => exact .start valid
  | append_singleton targets p ih =>
    obtain ⟨isTarget, bytes⟩ := good p (List.mem_append_right _ (List.mem_singleton_self p))
    have resolved := mem_redirectTargets valid isTarget
    have path := (normalizeDynamicPath_resolved resolved).mpr bytes
    rw [reservedStore_concat]
    exact (ih fun q hq => good q (List.mem_append_left _ hq)).put passed resolved.toFits isTarget
      targets.length (reservedEntry_valid path targets.length)

/-- `Record` of a target during the reservation. -/
theorem record_reservation (lib : StdLib) (clock : Nat → Int) (staged : Staged r redirects s)
    (passed : Passed r redirects) (valid : DynamicStore.Valid r.dynamic)
    (isTarget : p ∈ redirectTargets r redirects) (k : Nat) :
    if recordable p then
      record lib.cases s (reservation p (clock k)) =
        (s.put p (reservedEntry clock k p), .ok (reservedEntry clock k p))
    else ∃ e, record lib.cases s (reservation p (clock k)) = (s, .error e) := by
  have path := normalizeDynamicPath_resolved (mem_redirectTargets valid isTarget)
  split
  next bytes =>
    have made : (reservation p (clock k)).entry lib.cases = .ok (reservedEntry clock k p) :=
      fileCall_entry lib.cases (path.mpr bytes) 0 (clock k)
    unfold record
    rw [made]
    have room := staged.room passed isTarget
    exact if_neg fun full => room.elim full.1 (Nat.not_lt.mpr full.2)
  next bad =>
    rcases record_cases lib.cases s (reservation p (clock k)) with refused | ⟨e, made, -, -⟩
    · exact refused
    · obtain ⟨cleaned, normal, -⟩ := bind_eq_ok.mp made
      exact absurd (recordable_iff.mpr (normalizeDynamicPath_arg normal)) bad

/-- The reservation at a target: it passes over one that it has reserved, reserves a new
one, or fails with the store as it is. -/
theorem reserveTargets_step (lib : StdLib) (clock : Nat → Int) (staged : Staged r redirects s)
    (passed : Passed r redirects) (valid : DynamicStore.Valid r.dynamic) {x : Redirect}
    (single : x.duplicate = false) (checked : validateFakeOutputRedirection r x.target = .ok p)
    (isTarget : p ∈ redirectTargets r redirects) (reserved : List Bytes) (rest : List Redirect) :
    if p ∈ reserved then
      reserveTargets lib clock (r.withStore s) reserved (x :: rest) =
        reserveTargets lib clock (r.withStore s) reserved rest
    else if recordable p then
      reserveTargets lib clock (r.withStore s) reserved (x :: rest) =
        reserveTargets lib clock (r.withStore (s.put p (reservedEntry clock reserved.length p)))
          (reserved ++ [p]) rest
    else ∃ e, reserveTargets lib clock (r.withStore s) reserved (x :: rest) =
      (r.withStore s, .error e) := by
  have again := staged.validate passed valid checked isTarget
  have recorded := record_reservation lib clock staged passed valid isTarget reserved.length
  simp only [reserveTargets, single, Bool.false_eq_true, if_false, again]
  simp only [CommandRunner.withStore] at recorded ⊢
  by_cases known : p ∈ reserved
  · rw [if_pos known, if_pos known]
  · rw [if_neg known]
    by_cases bytes : recordable p = true
    · rw [if_pos bytes] at recorded ⊢
      rw [if_neg known, recorded]
    · rw [if_neg bytes] at recorded ⊢
      obtain ⟨e, refused⟩ := recorded
      rw [if_neg known, refused]
      exact ⟨.dynamic e, rfl⟩

/-- The reservation after a list of targets that it has taken: it takes the targets up to
the first one that is not recordable, and fails if there is one. -/
theorem reserveTargets_spec (lib : StdLib) (clock : Nat → Int)
    (valid : DynamicStore.Valid r.dynamic) (passed : Passed r redirects) {rest : List Redirect}
    (sub : ∀ x ∈ rest, x ∈ redirects) (taken : List Bytes)
    (good : ∀ p ∈ taken, p ∈ redirectTargets r redirects ∧ recordable p = true) :
    (reserveTargets lib clock (r.withStore (reservedStore clock r taken.eraseDups)) taken.eraseDups
        rest).1 =
      r.withStore (reservedStore clock r
        (taken ++ (redirectTargets r rest).takeWhile recordable).eraseDups) ∧
    ((reserveTargets lib clock (r.withStore (reservedStore clock r taken.eraseDups))
        taken.eraseDups rest).2 = .ok () ↔
      ∀ p ∈ redirectTargets r rest, recordable p = true) := by
  induction rest generalizing taken with
  | nil =>
    rw [reserveTargets]
    refine ⟨?_, fun _ => nofun, fun _ => rfl⟩
    rw [redirectTargets, List.filterMap_nil, List.takeWhile_nil, List.append_nil]
  | cons x rest ih =>
    have hx : x ∈ redirects := sub x List.mem_cons_self
    have later : ∀ x ∈ rest, x ∈ redirects := fun y hy => sub y (List.mem_cons_of_mem _ hy)
    rcases passed.each x hx with ⟨dup, -⟩ | ⟨single, -, p, checked⟩
    · rw [reserveTargets, if_pos dup, redirectTargets,
        List.filterMap_cons_none (redirectTarget_duplicate dup)]
      exact ih later taken good
    · have goesTo := redirectTarget_single single checked
      have isTarget : p ∈ redirectTargets r redirects := List.mem_filterMap.mpr ⟨x, hx, goesTo⟩
      have staged : Staged r redirects (reservedStore clock r taken.eraseDups) :=
        staged_reservedStore valid passed fun q hq => good q (List.mem_eraseDups.mp hq)
      have step := reserveTargets_step lib clock staged passed valid single checked isTarget
        taken.eraseDups rest
      rw [redirectTargets, List.filterMap_cons_some goesTo, List.takeWhile_cons,
        List.forall_mem_cons]
      by_cases bytes : recordable p = true
      · have after := ih later (taken ++ [p]) (List.forall_mem_append.mpr
          ⟨good, List.forall_mem_singleton.mpr ⟨isTarget, bytes⟩⟩)
        rw [if_pos bytes, List.append_cons taken, and_iff_right bytes]
        by_cases known : p ∈ taken
        · rw [if_pos (List.mem_eraseDups.mpr known)] at step
          rw [OrderedMap.eraseDups_concat_of_mem known] at after
          rw [step]
          exact after
        · rw [if_neg fun h => known (List.mem_eraseDups.mp h), if_pos bytes] at step
          rw [OrderedMap.eraseDups_concat_of_not_mem known, reservedStore_concat] at after
          rw [step]
          exact after
      · have new : p ∉ taken.eraseDups := fun h => bytes (good p (List.mem_eraseDups.mp h)).2
        rw [if_neg new, if_neg bytes] at step
        obtain ⟨e, refused⟩ := step
        rw [if_neg bytes, List.append_nil, refused]
        exact ⟨rfl, nofun, fun h => absurd h.1 bytes⟩

end FakeSSH.Shell
