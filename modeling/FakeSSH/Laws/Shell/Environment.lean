import FakeSSH.Lib.Iteration
import FakeSSH.Shell.Environment

/-!
# What the first environment says

Two names of the configuration can be one variable: names count up to case. Then either
value can be the variable's, as the runtime orders its maps, and nothing else can: a
generated value stands only where no configured name is (`getEnvBy_iff`). So sessions
agree on their variables exactly if the configuration is unambiguous.

`Filled` is the invariant of the loop in `CheckAndFill`. It needs that a name in capitals
stays what it is, since the loop removes the variable whose name is the capitals of the
one it writes, be it a generated one or a configured one.
-/

namespace FakeSSH.Shell

open FakeSSH.Go FakeSSH.Lib FakeSSH.Conf

variable {t : CapitalTable} {c : EnvConfig} {r : CommandRunner} {k v key : Bytes}

/-! ## The merged variables -/

/-- The variables that are generated, if they are. -/
def generatedEnv (c : EnvConfig) : Map Bytes :=
  if c.generateEnv then c.fillHome.defaultEnv else ∅

/-- The variables after a loop that has met `done`. -/
structure Filled (t : CapitalTable) (defaults : Map Bytes) (done : EnvOrder)
    (envs : Map Bytes) : Prop where
  /-- A variable is one of those met, or a default that none of them replaces. -/
  entry : ∀ {k v}, envs.lookup k = some v →
    ⟨k, v⟩ ∈ done ∨ defaults.lookup k = some v ∧ ∀ e ∈ done, t.toUpper e.1 ≠ k
  /-- Each variable met is there, if not under this name. -/
  met : ∀ e ∈ done, ∃ k v, envs.lookup k = some v ∧ t.toUpper k = t.toUpper e.1
  kept : ∀ {k v}, defaults.lookup k = some v → (∀ e ∈ done, t.toUpper e.1 ≠ k) →
    envs.lookup k = some v

theorem lookup_mergeEnv (envs : Map Bytes) (e : Σ _ : Bytes, Bytes) (k : Bytes) :
    (EnvConfig.mergeEnv t envs e).lookup k =
      if k = e.1 then some e.2 else if k = t.toUpper e.1 then none else envs.lookup k := by
  unfold EnvConfig.mergeEnv
  dsimp only
  by_cases written : k = e.1
  · rw [if_pos written, written, AList.lookup_insert]
  rw [if_neg written, AList.lookup_insert_ne written]
  by_cases removed : k = t.toUpper e.1
  · rw [if_pos removed, removed]
    split
    next => exact AList.lookup_erase _ _
    next absent => exact Option.not_isSome_iff_eq_none.mp absent
  · rw [if_neg removed]
    split
    next => exact AList.lookup_erase_ne removed
    next => rfl

section Loop

variable {defaults envs : Map Bytes} {done : EnvOrder}
  (capitals : ∀ k v, defaults.lookup k = some v → t.toUpper k = k)

include capitals

/-- STEP. The loop's body keeps the invariant. -/
theorem Filled.merge (filled : Filled t defaults done envs) (e : Σ _ : Bytes, Bytes) :
    Filled t defaults (done ++ [e]) (EnvConfig.mergeEnv t envs e) where
  entry := by
    intro k v h
    rw [lookup_mergeEnv] at h
    split_ifs at h with written removed
    · cases h
      subst written
      exact .inl (List.mem_append_right _ List.mem_cons_self)
    · rcases filled.entry h with met | ⟨default, untouched⟩
      · exact .inl (List.mem_append_left _ met)
      · refine .inr ⟨default, ?_⟩
        intro e' he'
        rcases List.mem_append.mp he' with old | new
        · exact untouched e' old
        · rw [List.mem_singleton.mp new]
          exact fun h => removed h.symm
  met := by
    intro e' he'
    have written : (EnvConfig.mergeEnv t envs e).lookup e.1 = some e.2 := by
      rw [lookup_mergeEnv, if_pos rfl]
    rcases List.mem_append.mp he' with old | new
    · obtain ⟨k, v, found, same⟩ := filled.met e' old
      by_cases gone : k = e.1 ∨ k = t.toUpper e.1
      · -- what stood for it is written over or removed, and the new one stands for it
        refine ⟨e.1, e.2, written, ?_⟩
        rcases gone with rfl | rfl
        · exact same
        · rw [← same, t.toUpper_idem]
      · obtain ⟨notWritten, notRemoved⟩ := not_or.mp gone
        refine ⟨k, v, ?_, same⟩
        rw [lookup_mergeEnv, if_neg notWritten, if_neg notRemoved, found]
    · rw [List.mem_singleton.mp new]
      exact ⟨e.1, e.2, written, rfl⟩
  kept := by
    intro k v default untouched
    have notRemoved : k ≠ t.toUpper e.1 :=
      fun h => untouched e (List.mem_append_right _ List.mem_cons_self) h.symm
    have notWritten : k ≠ e.1 := by
      rintro rfl
      exact notRemoved (capitals _ _ default).symm
    rw [lookup_mergeEnv, if_neg notWritten, if_neg notRemoved]
    exact filled.kept default fun e' he' => untouched e' (List.mem_append_left _ he')

/-- RUN. The whole loop keeps it. -/
theorem Filled.mergeAll (filled : Filled t defaults done envs) (ranged : EnvOrder) :
    Filled t defaults (done ++ ranged) (ranged.foldl (EnvConfig.mergeEnv t) envs) := by
  induction ranged generalizing done envs with
  | nil => rwa [List.append_nil]
  | cons e ranged ih =>
    have later := ih (filled.merge capitals e)
    rwa [List.append_assoc] at later

end Loop

/-- The generated names are in capitals. -/
theorem generatedEnv_capitals (h : (generatedEnv c).lookup k = some v) : t.toUpper k = k := by
  have ascii (k : Bytes) (small : ∀ b ∈ k, b < 0x80) (upper : Go.toUpper k = k) :
      t.toUpper k = k := (t.toUpper_of_ascii small).trans upper
  unfold generatedEnv at h
  split at h
  next =>
    rw [EnvConfig.defaultEnv, AList.lookup_to_alist] at h
    have entry := List.of_mem_dlookup h
    simp only [List.mem_cons, Sigma.mk.injEq, List.not_mem_nil, or_false] at entry
    rcases entry with ⟨rfl, -⟩ | ⟨rfl, -⟩ | ⟨rfl, -⟩ | ⟨rfl, -⟩ <;>
      exact ascii _ (by decide +kernel) (by decide +kernel)
  next => cases h

theorem fillHome_envs (c : EnvConfig) : c.fillHome.envs = c.envs := by
  unfold EnvConfig.fillHome
  split <;> rfl

theorem fillHome_generateEnv (c : EnvConfig) : c.fillHome.generateEnv = c.generateEnv := by
  unfold EnvConfig.fillHome
  split <;> rfl

/-- `CheckAndFill`, after its loop or without it. -/
theorem checkAndFill_filled {copied ranged : EnvOrder}
    (copies : copied.Perm c.fillHome.defaultEnv.entries) (ranges : ranged.Perm c.envs.entries) :
    Filled t (generatedEnv c) ranged (c.checkAndFill t copied ranged).envs := by
  have capitals (k v : Bytes) (h : (generatedEnv c).lookup k = some v) : t.toUpper k = k :=
    generatedEnv_capitals h
  unfold EnvConfig.checkAndFill
  dsimp only
  rw [fillHome_generateEnv]
  by_cases generate : c.generateEnv = true
  · rw [if_pos generate]
    have defaults : generatedEnv c = c.fillHome.defaultEnv := if_pos generate
    rw [defaults] at capitals ⊢
    have copy : Filled t c.fillHome.defaultEnv [] (copied.foldl _ ∅) := {
      entry := fun h => .inr ⟨lookup_copy copies _ ▸ h, List.forall_mem_nil _⟩
      met := List.forall_mem_nil _
      kept := fun h _ => (lookup_copy copies _).trans h }
    exact copy.mergeAll capitals ranged
  · rw [if_neg generate, fillHome_envs]
    refine ⟨?_, ?_, ?_⟩
    · intro k v h
      exact .inl (ranges.mem_iff.mpr (AList.mem_lookup_iff.mp h))
    · intro e he
      exact ⟨e.1, e.2, AList.mem_lookup_iff.mpr (ranges.mem_iff.mp he), rfl⟩
    · intro k v h
      rw [generatedEnv, if_neg generate] at h
      cases h

/-- A variable that the loop meets last is there under its own name. -/
theorem checkAndFill_last (h : c.envs.lookup k = some v) (copied before : EnvOrder) :
    (c.checkAndFill t copied (before ++ [⟨k, v⟩])).envs.lookup k = some v := by
  unfold EnvConfig.checkAndFill
  dsimp only
  split
  next =>
    rw [List.foldl_append, List.foldl_cons, List.foldl_nil, lookup_mergeEnv, if_pos rfl]
  next =>
    rw [fillHome_envs]
    exact h

/-! ## The answers of `GetEnv` -/

/-- On names in ASCII it is the `GetEnv` of the built-in commands. -/
theorem getEnvBy_of_ascii (ascii : ∀ b ∈ key, b < 0x80) : r.getEnvBy t key = r.getEnv key := by
  unfold CommandRunner.getEnvBy CommandRunner.getEnv
  dsimp only
  generalize upper : t.toUpper key = name
  obtain rfl : toUpper key = name := (t.toUpper_of_ascii ascii).symm.trans upper
  cases r.tempEnv.lookup (toUpper key) with
  | some pair => rfl
  | none => cases r.env.lookup (toUpper key) <;> rfl

/-- A new runner has no variables of its own yet. -/
theorem getEnvBy_new (c : EnvConfig) (stored : EnvOrder) (key : Bytes) :
    (newCommandRunner t c stored).getEnvBy t key =
      ((newEnvMap t stored).lookup (t.toUpper key)).elim [] EnvPair.value := by
  have set : (newCommandRunner t c stored).tempEnv.lookup (t.toUpper key) = none := rfl
  have configured : (newCommandRunner t c stored).env = newEnvMap t stored := rfl
  unfold CommandRunner.getEnvBy
  dsimp only
  rw [set, configured]
  cases (newEnvMap t stored).lookup (t.toUpper key) <;> rfl

/-- What is read of `NewEnvMap`: one of the variables with the name, up to case. -/
theorem lookup_newEnvMap (stored : EnvOrder) (name : Bytes) :
    (∃ e ∈ stored, t.toUpper e.1 = name ∧ (newEnvMap t stored).lookup name = some ⟨e.1, e.2⟩) ∨
      (∀ e ∈ stored, t.toUpper e.1 ≠ name) ∧ (newEnvMap t stored).lookup name = none :=
  Cells.ofFinmap.get_loop (fun e : Σ _ : Bytes, Bytes => t.toUpper e.1)
    (fun e => EnvPair.mk e.1 e.2) ∅ stored name

/-- The values that a variable can have, by its name in capitals: those of the configured
names that are this one up to case, or else the generated one. -/
def CanBe (t : CapitalTable) (c : EnvConfig) (name v : Bytes) : Prop :=
  (∃ k, c.envs.lookup k = some v ∧ t.toUpper k = name) ∨
    (∀ k v, c.envs.lookup k = some v → t.toUpper k ≠ name) ∧
      v = ((generatedEnv c).lookup name).getD []

theorem Starts.canBe (starts : Starts t c r) (key : Bytes) :
    CanBe t c (t.toUpper key) (r.getEnvBy t key) := by
  cases starts with
  | @new copied ranged stored copies ranges stores =>
  have filled : Filled t (generatedEnv c) ranged _ := checkAndFill_filled copies ranges
  have configured {k v : Bytes} : ⟨k, v⟩ ∈ ranged ↔ c.envs.lookup k = some v :=
    ranges.mem_iff.trans AList.mem_lookup_iff.symm
  rw [getEnvBy_new]
  generalize t.toUpper key = name
  rcases lookup_newEnvMap stored name with ⟨e, he, named, read⟩ | ⟨missing, read⟩
  · rw [read]
    rcases filled.entry (AList.mem_lookup_iff.mpr (stores.mem_iff.mp he)) with
      met | ⟨default, untouched⟩
    · exact .inl ⟨e.1, configured.mp met, named⟩
    · -- a default, whose name is in capitals already
      have capitals : t.toUpper e.1 = e.1 := generatedEnv_capitals default
      rw [← named, capitals]
      refine .inr ⟨fun k v h => untouched ⟨k, v⟩ (configured.mpr h), ?_⟩
      rw [default]
      rfl
  · rw [read]
    have none_named {k v : Bytes}
        (h : (c.checkAndFill t copied ranged).envs.lookup k = some v) : t.toUpper k ≠ name :=
      missing ⟨k, v⟩ (stores.mem_iff.mpr (AList.mem_lookup_iff.mp h))
    have unconfigured : ∀ e ∈ ranged, t.toUpper e.1 ≠ name := by
      intro e he same
      obtain ⟨k, v, found, up⟩ := filled.met e he
      exact none_named found (up.trans same)
    have ungenerated : (generatedEnv c).lookup name = none := by
      refine Option.eq_none_iff_forall_not_mem.mpr fun v default => ?_
      exact none_named (filled.kept default unconfigured) (generatedEnv_capitals default)
    refine .inr ⟨fun k v h => unconfigured ⟨k, v⟩ (configured.mpr h), ?_⟩
    rw [ungenerated]
    rfl

/-- Each configured variable is the one that is read in some session: where both loops
meet it last. -/
theorem exists_starts_of_entry (h : c.envs.lookup k = some v) :
    ∃ r, Starts t c r ∧ ∀ key, t.toUpper key = t.toUpper k → r.getEnvBy t key = v := by
  obtain ⟨before, ranges⟩ := exists_perm_last (AList.mem_lookup_iff.mp h)
  have there := checkAndFill_last (t := t) h c.fillHome.defaultEnv.entries before
  obtain ⟨others, stores⟩ := exists_perm_last (AList.mem_lookup_iff.mp there)
  refine ⟨_, .new (.refl _) ranges stores, ?_⟩
  intro key same
  have last : (newEnvMap t (others ++ [⟨k, v⟩])).lookup (t.toUpper k) = some ⟨k, v⟩ :=
    Cells.ofFinmap.get_loop_last (fun e : Σ _ : Bytes, Bytes => t.toUpper e.1)
      (fun e => EnvPair.mk e.1 e.2) ∅ others ⟨k, v⟩
  rw [getEnvBy_new, same, last]
  rfl

theorem exists_starts (t : CapitalTable) (c : EnvConfig) : ∃ r, Starts t c r :=
  ⟨_, .new (.refl _) (.refl _) (.refl _)⟩

/-- What `GetEnv` answers is a value that the variable can have, and each of them is
answered in some session. -/
theorem getEnvBy_iff (t : CapitalTable) (c : EnvConfig) (key v : Bytes) :
    (∃ r, Starts t c r ∧ r.getEnvBy t key = v) ↔ CanBe t c (t.toUpper key) v := by
  constructor
  · rintro ⟨r, starts, rfl⟩
    exact starts.canBe key
  · rintro (⟨k, found, same⟩ | ⟨unconfigured, rfl⟩)
    · obtain ⟨r, starts, read⟩ := exists_starts_of_entry found
      exact ⟨r, starts, read key same.symm⟩
    · obtain ⟨r, starts⟩ := exists_starts t c
      refine ⟨r, starts, ?_⟩
      rcases starts.canBe key with ⟨k, found, same⟩ | ⟨-, read⟩
      · exact absurd same (unconfigured k _ found)
      · exact read

/-- Names that are the same up to case have one value. -/
def Unambiguous (t : CapitalTable) (c : EnvConfig) : Prop :=
  ∀ k k' v v', c.envs.lookup k = some v → c.envs.lookup k' = some v' →
    t.toUpper k = t.toUpper k' → v = v'

/-- ENVIRONMENT. Sessions of one configuration agree on every variable exactly if it is
unambiguous. In any case a variable that is configured, in whatever case, has a
configured value, never the generated one. -/
theorem getEnv_order_iff (t : CapitalTable) (c : EnvConfig) :
    ((∀ r r', Starts t c r → Starts t c r' → ∀ key, r.getEnvBy t key = r'.getEnvBy t key) ↔
      Unambiguous t c) ∧
    ∀ r, Starts t c r → ∀ k v key, c.envs.lookup k = some v → t.toUpper key = t.toUpper k →
      ∃ k', c.envs.lookup k' = some (r.getEnvBy t key) ∧ t.toUpper k' = t.toUpper k := by
  refine ⟨⟨?_, ?_⟩, ?_⟩
  · intro agree k k' v v' found found' same
    obtain ⟨r, starts, read⟩ := (getEnvBy_iff t c k v).mpr (.inl ⟨k, found, rfl⟩)
    obtain ⟨r', starts', read'⟩ := (getEnvBy_iff t c k v').mpr (.inl ⟨k', found', same.symm⟩)
    rw [← read, ← read']
    exact agree r r' starts starts' k
  · intro unambiguous r r' starts starts' key
    rcases starts.canBe key with ⟨k, found, same⟩ | ⟨unconfigured, read⟩
    · rcases starts'.canBe key with ⟨k', found', same'⟩ | ⟨unconfigured', -⟩
      · exact unambiguous k k' _ _ found found' (same.trans same'.symm)
      · exact absurd same (unconfigured' k _ found)
    · rcases starts'.canBe key with ⟨k', found', same'⟩ | ⟨-, read'⟩
      · exact absurd same' (unconfigured k' _ found')
      · rw [read, read']
  · intro r starts k v key found same
    rcases starts.canBe key with ⟨k', found', same'⟩ | ⟨unconfigured, -⟩
    · exact ⟨k', found', same'.trans same⟩
    · exact absurd same.symm (unconfigured k v found)

/-- A configuration with two spellings of one name. -/
def spellings : EnvConfig where
  user := str "root"
  generateEnv := true
  envs := [⟨str "path", str "1"⟩, ⟨str "PATH", str "2"⟩].toAList

/-- `CheckAndFill` meets `path` first and keeps both. Two sessions of the one filled
configuration differ when `NewEnvMap` meets them in the two orders. -/
theorem getEnv_order_spellings : ∃ r r',
    Starts asciiCapitals spellings r ∧ Starts asciiCapitals spellings r' ∧
    r.getEnvBy asciiCapitals (str "PATH") = str "1" ∧
    r'.getEnvBy asciiCapitals (str "PATH") = str "2" := by
  have ranges := List.Perm.refl spellings.envs.entries
  have copies := List.Perm.refl spellings.fillHome.defaultEnv.entries
  refine ⟨_, _, .new copies ranges (.refl _), .new copies ranges (List.reverse_perm _), ?_, ?_⟩
  · decide +kernel
  · decide +kernel

end FakeSSH.Shell
