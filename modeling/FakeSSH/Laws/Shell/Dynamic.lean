import FakeSSH.Laws.Shell.Paths
import FakeSSH.Shell.Dynamic

/-!
# What the dynamic store holds

`RecordCall.entry` makes only valid entries, so every entry of a store that `record`
built is one, under its own path (`DynamicStore.Valid`). A run of calls is a history
of writes of those that were answered, and what the store lists is read off that
history: the last value of each path, the paths in the order in which they came.
-/

namespace FakeSSH.Shell

open FakeSSH.Go FakeSSH.Lib

variable {t : CaseTable} {s : DynamicStore} {c : RecordCall} {e : DynamicEntry}

/-! ## Hashes -/

/-- An ASCII capital. -/
def Capital (b : UInt8) : Prop := 0x41 ≤ b ∧ b ≤ 0x5A

theorem not_capital_of_high {n : Nat} (low : 0x80 ≤ n) (high : n < 0x100) :
    ¬ Capital (UInt8.ofNat n) := by
  rintro ⟨-, h⟩
  rw [UInt8.le_iff_toNat_le, UInt8.toNat_ofNat_of_lt' high] at h
  have : n ≤ 0x5A := h
  omega

/-- Only an ASCII capital is encoded with one. -/
theorem encodeRune_not_capital {r : Nat} (bound : r ≤ 0x10FFFF)
    (small : ¬ (0x41 ≤ r ∧ r ≤ 0x5A)) : ∀ b ∈ encodeRune r, ¬ Capital b := by
  intro b hb
  unfold encodeRune at hb
  split at hb
  next ascii =>
    rw [List.mem_singleton.mp hb]
    rintro ⟨low, high⟩
    rw [UInt8.le_iff_toNat_le, UInt8.toNat_ofNat_of_lt' (Nat.lt_trans ascii (by decide))]
      at low high
    exact small ⟨low, high⟩
  split at hb
  next =>
    simp only [List.mem_cons, List.not_mem_nil, or_false] at hb
    rcases hb with rfl | rfl <;> exact not_capital_of_high (by omega) (by omega)
  split at hb
  next =>
    simp only [List.mem_cons, List.not_mem_nil, or_false] at hb
    rcases hb with rfl | rfl | rfl <;> exact not_capital_of_high (by omega) (by omega)
  next =>
    simp only [List.mem_cons, List.not_mem_nil, or_false] at hb
    rcases hb with rfl | rfl | rfl | rfl <;> exact not_capital_of_high (by omega) (by omega)

/-- A decoded rune is one of Unicode's. -/
theorem toLowerRune_le {r : Nat} : t.toLowerRune r ≤ 0x10FFFF := by
  unfold CaseTable.toLowerRune
  split
  · split <;> omega
  · exact t.lower_le r

theorem toLowerRune_not_capital {r : Nat} :
    ¬ (0x41 ≤ t.toLowerRune r ∧ t.toLowerRune r ≤ 0x5A) := by
  unfold CaseTable.toLowerRune
  split
  · split <;> omega
  · exact t.lower_not_capital r

theorem toLower_not_capital (t : CaseTable) (x : Bytes) : ∀ b ∈ t.toLower x, ¬ Capital b := by
  intro b hb
  obtain ⟨d, -, hb⟩ := List.mem_flatMap.mp hb
  exact encodeRune_not_capital toLowerRune_le toLowerRune_not_capital b hb

/-- A lower-case hexadecimal digit. -/
def isLowerHex (b : UInt8) : Bool :=
  (decide (0x30 ≤ b) && decide (b ≤ 0x39)) || (decide (0x61 ≤ b) && decide (b ≤ 0x66))

theorem isLowerHex_of_isHexDigit {b : UInt8} (digit : isHexDigit b = true)
    (small : ¬ Capital b) : isLowerHex b = true := by
  unfold isHexDigit at digit
  rcases Bool.or_eq_true_iff.mp digit with h | h
  · exact h
  · simp only [Bool.and_eq_true, decide_eq_true_eq] at h
    exact absurd ⟨h.1, UInt8.le_trans h.2 (by decide)⟩ small

theorem normalizeSHA256_ok {x hash : Bytes} (h : normalizeSHA256 t x = .ok hash) :
    hash = [] ∨ hash.length = 64 ∧ ∀ b ∈ hash, isLowerHex b = true := by
  unfold normalizeSHA256 at h
  split at h
  next =>
    cases h
    exact .inl rfl
  next =>
    obtain ⟨long, h⟩ := check_eq_ok.mp h
    split at h
    next => cases h
    next digits =>
      cases h
      refine .inr ⟨not_not.mp long, ?_⟩
      intro b hb
      have digit : isHexDigit b = true := by simpa using List.find?_eq_none.mp digits b hb
      exact isLowerHex_of_isHexDigit digit (toLower_not_capital t x b hb)

/-! ## Paths -/

/-- What is normalized is normal. -/
theorem normalizeDynamicPath_ok {arg p : Bytes} (h : normalizeDynamicPath arg = .ok p) :
    PathBytes p ∧ (∃ q : FakePath, p = q.render) ∧ p.length ≤ maxDynamicPathLen := by
  unfold normalizeDynamicPath at h
  split at h
  next => cases h
  next cleaned resolved =>
    obtain ⟨short, h⟩ := check_eq_ok.mp h
    cases h
    exact ⟨resolvePath_bytes pathBytes_root resolved, resolvePath_path resolved,
      Nat.le_of_not_lt short⟩

theorem normalizeDynamicPath_idem {arg p : Bytes} (h : normalizeDynamicPath arg = .ok p) :
    normalizeDynamicPath p = .ok p := by
  obtain ⟨chars, ⟨q, rfl⟩, short⟩ := normalizeDynamicPath_ok h
  unfold normalizeDynamicPath
  rw [q.resolve [slash] chars]
  exact if_neg (Nat.not_lt.mpr short)

/-! ## Entries -/

/-- What an entry of the store is. -/
structure DynamicEntry.Valid (e : DynamicEntry) : Prop where
  path : normalizeDynamicPath e.path = .ok e.path
  short : e.path.length ≤ maxDynamicPathLen
  kind : e.kind = kindFile ∨ e.kind = kindDir
  size : 0 ≤ e.size
  preview : e.preview.length ≤ maxDynamicPreviewBytes
  sha256 : e.sha256 = [] ∨ e.sha256.length = 64 ∧ ∀ b ∈ e.sha256, isLowerHex b = true

theorem validateDynamicKind_ok {kind : Bytes} :
    validateDynamicKind kind = .ok () ↔ kind = kindFile ∨ kind = kindDir := by
  unfold validateDynamicKind
  constructor
  · intro h
    obtain ⟨-, h⟩ := check_eq_ok.mp h
    obtain ⟨known, -⟩ := guard_eq_ok.mp h
    simpa [validDynamicKinds] using known
  · rintro (rfl | rfl) <;> rfl

/-- A call whose arguments are in order makes a valid entry. -/
theorem RecordCall.entry_valid (h : c.entry t = .ok e) : e.Valid := by
  unfold RecordCall.entry at h
  obtain ⟨cleaned, hpath, h⟩ := bind_eq_ok.mp h
  obtain ⟨_, hkind, h⟩ := bind_eq_ok.mp h
  obtain ⟨nonneg, h⟩ := check_eq_ok.mp h
  obtain ⟨hash, hhash, h⟩ := bind_eq_ok.mp h
  cases h
  exact {
    path := normalizeDynamicPath_idem hpath
    short := (normalizeDynamicPath_ok hpath).2.2
    kind := validateDynamicKind_ok.mp hkind
    size := Int.not_lt.mp nonneg
    preview := List.length_take_le _ _
    sha256 := normalizeSHA256_ok hhash }

/-- The path of the entry is the call's, normalized. -/
theorem RecordCall.entry_path (h : c.entry t = .ok e) :
    normalizeDynamicPath c.pathArg = .ok e.path := by
  unfold RecordCall.entry at h
  obtain ⟨cleaned, hpath, h⟩ := bind_eq_ok.mp h
  obtain ⟨_, -, h⟩ := bind_eq_ok.mp h
  obtain ⟨-, h⟩ := check_eq_ok.mp h
  obtain ⟨hash, -, h⟩ := bind_eq_ok.mp h
  cases h
  exact hpath

/-! ## One call -/

/-- What a call does: nothing, with an error, or the one write of its answer. -/
theorem record_cases (t : CaseTable) (s : DynamicStore) (c : RecordCall) :
    (∃ err, record t s c = (s, .error err)) ∨
      ∃ e, c.entry t = .ok e ∧ (e.path ∈ s.entries ∨ s.size < maxDynamicEntries) ∧
        record t s c = (s.put e.path e, .ok e) := by
  unfold record
  split
  next err _ => exact .inl ⟨err, rfl⟩
  next e made =>
  split
  next => exact .inl ⟨.full, rfl⟩
  next room =>
  refine .inr ⟨e, made, ?_, rfl⟩
  by_cases known : e.path ∈ s.entries
  · exact .inl known
  · exact .inr (Nat.lt_of_not_le fun full => room ⟨known, full⟩)

theorem record_error {err : DynamicError} (h : (record t s c).2 = .error err) :
    (record t s c).1 = s := by
  obtain ⟨_, same⟩ | ⟨e, -, -, wrote⟩ := record_cases t s c
  · rw [same]
  · rw [wrote] at h
    cases h

/-- A path that has its entry is written whatever the store holds. -/
theorem record_known (made : c.entry t = .ok e) (known : e.path ∈ s.entries) :
    record t s c = (s.put e.path e, .ok e) := by
  unfold record
  rw [made]
  exact if_neg fun full => full.1 known

/-- A path that has no entry is written exactly below capacity. -/
theorem record_new (made : c.entry t = .ok e) (new : e.path ∉ s.entries) :
    record t s c =
      if s.size < maxDynamicEntries then (s.put e.path e, .ok e) else (s, .error .full) := by
  unfold record
  rw [made]
  by_cases room : s.size < maxDynamicEntries
  · rw [if_pos room]
    exact if_neg fun full => Nat.not_le.mpr room full.2
  · rw [if_neg room]
    exact if_pos ⟨new, Nat.le_of_not_lt room⟩

/-! ## Stores -/

/-- The store's invariant. -/
structure DynamicStore.Valid (s : DynamicStore) : Prop where
  sound : s.Sound
  capped : s.order.length ≤ maxDynamicEntries
  own : ∀ p e, s.entries.lookup p = some e → e.path = p
  valid : ∀ p e, s.entries.lookup p = some e → e.Valid

theorem empty_valid : DynamicStore.Valid {} where
  sound := OrderedMap.empty_sound
  capped := Nat.zero_le _
  own := by intro _ _ h; cases h
  valid := by intro _ _ h; cases h

theorem DynamicStore.Valid.put (h : DynamicStore.Valid s) (entry : e.Valid)
    (room : e.path ∈ s.entries ∨ s.size < maxDynamicEntries) :
    DynamicStore.Valid (s.put e.path e) where
  sound := h.sound.put e.path e
  capped := by
    rcases room with known | room
    · rw [OrderedMap.order_put_of_mem known]
      exact h.capped
    · rw [← h.sound.length_order] at room
      unfold OrderedMap.put
      split
      · exact h.capped
      · rw [List.length_append]
        exact room
  own := OrderedMap.forall_lookup_put h.own rfl
  valid := OrderedMap.forall_lookup_put h.valid entry

theorem DynamicStore.Valid.record (h : DynamicStore.Valid s) (t : CaseTable) (c : RecordCall) :
    DynamicStore.Valid (record t s c).1 := by
  obtain ⟨_, same⟩ | ⟨e, made, room, wrote⟩ := record_cases t s c
  · rw [same]
    exact h
  · rw [wrote]
    exact h.put (RecordCall.entry_valid made) room

/-- What a path's entry is replaced by stands where the entry stood. -/
theorem DynamicStore.Valid.entries_put (h : DynamicStore.Valid s) (known : e.path ∈ s.entries) :
    dynamicEntries (s.put e.path e) =
      (dynamicEntries s).map fun old => if old.path = e.path then e else old := by
  unfold dynamicEntries OrderedMap.values
  rw [OrderedMap.order_put_of_mem known, List.map_map]
  apply List.map_congr_left
  intro p hp
  obtain ⟨old, hold⟩ := Option.isSome_iff_exists.mp
    (AList.lookup_isSome.mpr ((h.sound.listed p).mp hp))
  have stored : old.path = p := h.own p old hold
  simp only [Function.comp_apply, hold, Option.getD_some, stored]
  split
  next same => rw [same, OrderedMap.lookup_put_self, Option.getD_some]
  next other => rw [OrderedMap.lookup_put_ne other, hold, Option.getD_some]

/-- A new path's entry comes last, and the others stay as they are. -/
theorem DynamicStore.Valid.entries_new (h : DynamicStore.Valid s) (new : e.path ∉ s.entries) :
    dynamicEntries (s.put e.path e) = dynamicEntries s ++ [e] := by
  unfold dynamicEntries OrderedMap.values
  rw [OrderedMap.order_put_of_not_mem new, List.map_append, List.map_singleton,
    OrderedMap.lookup_put_self, Option.getD_some]
  congr 1
  apply List.map_congr_left
  intro p hp
  have other : p ≠ e.path := fun same => new (same ▸ (h.sound.listed p).mp hp)
  rw [OrderedMap.lookup_put_ne other]

/-! ## Runs -/

/-- A run of calls: the store after it, and the entries that were answered. -/
def recordAll (t : CaseTable) (s : DynamicStore) : List RecordCall → DynamicStore × List DynamicEntry
  | [] => (s, [])
  | c :: calls =>
    let after := recordAll t (record t s c).1 calls
    (after.1, (record t s c).2.toOption.toList ++ after.2)

theorem DynamicStore.Valid.recordAll (h : DynamicStore.Valid s) (calls : List RecordCall) :
    DynamicStore.Valid (recordAll t s calls).1 := by
  induction calls generalizing s with
  | nil => exact h
  | cons c calls ih => exact ih (h.record t c)

/-- An entry as a write under its own path. -/
def DynamicEntry.keyed (e : DynamicEntry) : Bytes × DynamicEntry := (e.path, e)

/-- The store of a run is what the answered entries write. -/
theorem recordAll_written (t : CaseTable) (before : List DynamicEntry) (calls : List RecordCall) :
    (recordAll t (OrderedMap.written (before.map DynamicEntry.keyed)) calls).1 =
      OrderedMap.written ((before ++
        (recordAll t (OrderedMap.written (before.map DynamicEntry.keyed)) calls).2).map
          DynamicEntry.keyed) := by
  induction calls generalizing before with
  | nil => rw [recordAll, List.append_nil]
  | cons c calls ih =>
    rw [recordAll]
    obtain ⟨_, same⟩ | ⟨e, -, -, wrote⟩ :=
      record_cases t (OrderedMap.written (before.map DynamicEntry.keyed)) c
    · rw [same]
      exact ih before
    · have grown : (OrderedMap.written (before.map DynamicEntry.keyed)).put e.path e =
          OrderedMap.written ((before ++ [e]).map DynamicEntry.keyed) := by
        rw [List.map_append]
        exact (OrderedMap.written_append _ e.keyed).symm
      rw [wrote]
      simp only [grown, Except.toOption, Option.toList_some]
      rw [ih (before ++ [e]), List.append_assoc]

theorem find_keyed (es : List DynamicEntry) (p : Bytes) :
    ((es.map DynamicEntry.keyed).find? fun w => decide (w.1 = p)).map Prod.snd =
      es.find? fun e => decide (e.path = p) := by
  rw [List.find?_map, Option.map_map]
  exact Option.map_id'

/-- `Entries()` after a run from an empty store: for each path that was answered, in the
order of first answers, the last answer. -/
theorem entries_recordAll (t : CaseTable) (calls : List RecordCall) :
    dynamicEntries (recordAll t {} calls).1 =
      ((recordAll t {} calls).2.map DynamicEntry.path).eraseDups.map fun p =>
        ((recordAll t {} calls).2.reverse.find? fun e => decide (e.path = p)).getD default := by
  have history : (recordAll t {} calls).1 =
      OrderedMap.written ((recordAll t {} calls).2.map DynamicEntry.keyed) :=
    recordAll_written t [] calls
  have paths (es : List DynamicEntry) :
      (es.map DynamicEntry.keyed).map Prod.fst = es.map DynamicEntry.path := by
    rw [List.map_map]
    rfl
  rw [dynamicEntries, history, OrderedMap.values_written, paths]
  simp only [← List.map_reverse, find_keyed]

/-- THE STORE. After any run of calls: the invariant holds; a failing call changes
nothing; a call for a path that has an entry, its arguments in order, succeeds however
full the store is and replaces the entry in its place; one for a new path succeeds below
capacity and is listed last, and is refused in a full store; and what is listed is the
last answer for each path, in the order in which the paths were first answered. -/
theorem dynamic_store_runs (t : CaseTable) (calls : List RecordCall) :
    DynamicStore.Valid (recordAll t {} calls).1 ∧
      (∀ c err, (record t (recordAll t {} calls).1 c).2 = .error err →
        (record t (recordAll t {} calls).1 c).1 = (recordAll t {} calls).1) ∧
      (∀ c e, c.entry t = .ok e → e.path ∈ (recordAll t {} calls).1.entries →
        (record t (recordAll t {} calls).1 c).2 = .ok e ∧
          dynamicEntries (record t (recordAll t {} calls).1 c).1 =
            (dynamicEntries (recordAll t {} calls).1).map fun old =>
              if old.path = e.path then e else old) ∧
      (∀ c e, c.entry t = .ok e → e.path ∉ (recordAll t {} calls).1.entries →
        ((recordAll t {} calls).1.order.length < maxDynamicEntries →
          (record t (recordAll t {} calls).1 c).2 = .ok e ∧
            dynamicEntries (record t (recordAll t {} calls).1 c).1 =
              dynamicEntries (recordAll t {} calls).1 ++ [e]) ∧
        ((recordAll t {} calls).1.order.length = maxDynamicEntries →
          (record t (recordAll t {} calls).1 c).2 = .error .full)) ∧
      dynamicEntries (recordAll t {} calls).1 =
        ((recordAll t {} calls).2.map DynamicEntry.path).eraseDups.map fun p =>
          ((recordAll t {} calls).2.reverse.find? fun e => decide (e.path = p)).getD default := by
  have valid : DynamicStore.Valid (recordAll t {} calls).1 := empty_valid.recordAll calls
  refine ⟨valid, fun c err => record_error, ?_, ?_, entries_recordAll t calls⟩
  · intro c e made known
    rw [record_known made known]
    exact ⟨rfl, valid.entries_put known⟩
  · intro c e made new
    rw [record_new made new, valid.sound.length_order]
    refine ⟨fun room => ?_, fun full => ?_⟩
    · rw [if_pos room]
      exact ⟨rfl, valid.entries_new new⟩
    · rw [if_neg (full ▸ Nat.lt_irrefl _)]

/-- A file, a directory, a call that fails, and the file again. -/
def touched : List RecordCall :=
  [{ pathArg := str "a", kind := kindFile, size := 3 },
    { pathArg := str "/tmp/./d", kind := kindDir },
    { pathArg := str "/b", kind := kindFile, size := -1 },
    { pathArg := str "/a", kind := kindFile, size := 5 }]

/-- A new file is stored behind what the calls before it have left. -/
theorem dynamic_store_runs_of_touched :
    (dynamicEntries (record asciiCase (recordAll asciiCase {} touched).1
        { pathArg := str "c", kind := kindFile, preview := str "x", now := 7 }).1) =
      [{ path := str "/a", kind := kindFile, size := 5 },
        { path := str "/tmp/d", kind := kindDir },
        { path := str "/c", kind := kindFile, preview := str "x", updatedAt := 7 }] := by
  have stored := (dynamic_store_runs asciiCase touched).2.2.2.1
    { pathArg := str "c", kind := kindFile, preview := str "x", now := 7 }
    { path := str "/c", kind := kindFile, preview := str "x", updatedAt := 7 } (by decide)
    (by decide)
  rw [(stored.1 (by decide)).2]
  decide

end FakeSSH.Shell
