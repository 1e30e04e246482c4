import FakeSSH.Laws.Shell.Redirect
import FakeSSH.Lib.Transition
import Mathlib.Data.List.Induction
import Mathlib.Order.Bounds.Basic

/-!
# The cleanup of redirections

The cleanup records each path once, with the greatest count of the descriptors that are
opened on it, and drops the errors of `Record`. A call for a path that has its entry does
not fail, and the calls write no other path.
-/

namespace FakeSSH.Shell

open FakeSSH.Go FakeSSH.Lib

variable {lib : StdLib} {clock : Nat → Int} {s : DynamicStore} {p : Bytes}

/-! ## Calls of `Record` -/

theorem mem_record {t : CaseTable} {c : RecordCall} (h : p ∈ s.entries) :
    p ∈ (record t s c).1.entries := by
  obtain ⟨_, same⟩ | ⟨e, -, -, wrote⟩ := record_cases t s c
  · rw [same]
    exact h
  · rw [wrote]
    exact (AList.mem_insert _).mpr (.inr h)

/-- No call of `Record` removes an entry. -/
theorem mem_recordDropping (calls : List RecordCall) (h : p ∈ s.entries) :
    p ∈ (recordDropping lib s calls).entries := by
  induction calls generalizing s with
  | nil => exact h
  | cons c calls ih => exact ih (mem_record h)

/-- The calls succeed one after another. -/
def AllRecorded (lib : StdLib) : DynamicStore → List RecordCall → Prop :=
  EachInput (fun s c => (record lib.cases s c).1) fun s c => ∃ e, (record lib.cases s c).2 = .ok e

theorem allRecorded_of_known {calls : List RecordCall}
    (known : ∀ c ∈ calls, ∃ e, c.entry lib.cases = .ok e ∧ e.path ∈ s.entries) :
    AllRecorded lib s calls := by
  induction calls generalizing s with
  | nil => trivial
  | cons c calls ih =>
    obtain ⟨e, made, there⟩ := known c List.mem_cons_self
    refine ⟨⟨e, by rw [record_known made there]⟩, ih ?_⟩
    intro c' hc'
    obtain ⟨e', made', there'⟩ := known c' (List.mem_cons_of_mem _ hc')
    exact ⟨e', made', mem_record there'⟩

/-- The entry of a path after calls that write paths with entries: one that a call makes. -/
theorem recordDropping_written {calls : List RecordCall} {P : DynamicEntry → Prop}
    (known : ∀ c ∈ calls, ∃ e, c.entry lib.cases = .ok e ∧ e.path ∈ s.entries)
    (made : ∀ c ∈ calls, ∀ e, c.entry lib.cases = .ok e → e.path = p → P e)
    (called : ∃ c ∈ calls, ∃ e, c.entry lib.cases = .ok e ∧ e.path = p) :
    ∃ e, (recordDropping lib s calls).entries.lookup p = some e ∧ P e := by
  induction calls using List.reverseRecOn with
  | nil =>
    obtain ⟨c, hc, -⟩ := called
    cases hc
  | append_singleton calls c ih =>
    have isLast : c ∈ calls ++ [c] := List.mem_append_right _ (List.mem_singleton_self c)
    obtain ⟨e, entry, there⟩ := known c isLast
    have step : recordDropping lib s (calls ++ [c]) =
        (recordDropping lib s calls).put e.path e := by
      rw [recordDropping, List.foldl_append]
      exact congrArg Prod.fst (record_known entry (mem_recordDropping calls there))
    rw [step]
    by_cases here : e.path = p
    · rw [← here, OrderedMap.lookup_put_self]
      exact ⟨e, rfl, made c isLast e entry here⟩
    · rw [OrderedMap.lookup_put_ne fun same => here same.symm]
      refine ih (fun c' hc' => known c' (List.mem_append_left _ hc'))
        (fun c' hc' => made c' (List.mem_append_left _ hc')) ?_
      obtain ⟨c', hc', e', entry', path⟩ := called
      rcases List.mem_append.mp hc' with earlier | last
      · exact ⟨c', earlier, e', entry', path⟩
      · rw [List.mem_singleton.mp last] at entry'
        cases entry.symm.trans entry'
        exact absurd path here

/-- Calls leave the other paths alone. -/
theorem recordDropping_other {calls : List RecordCall}
    (other : ∀ c ∈ calls, ∀ e, c.entry lib.cases = .ok e → e.path ≠ p) :
    (recordDropping lib s calls).entries.lookup p = s.entries.lookup p := by
  induction calls generalizing s with
  | nil => rfl
  | cons c calls ih =>
    obtain ⟨first, later⟩ := List.forall_mem_cons.mp other
    have step : recordDropping lib s (c :: calls) =
        recordDropping lib (record lib.cases s c).1 calls := rfl
    rw [step, ih later]
    rcases record_cases lib.cases s c with ⟨_, same⟩ | ⟨e, made, -, wrote⟩
    · rw [same]
    · rw [wrote]
      exact OrderedMap.lookup_put_ne fun same => first e made same.symm

/-! ## Sizes -/

/-- The counts of the descriptors that are opened on a path. -/
def countsOn (records : List Bytes) (count : Nat → Nat) (p : Bytes) : Set Nat :=
  {n | ∃ i, records[i]? = some p ∧ n = count i}

theorem getElem?_concat_eq_some {records : List Bytes} {q : Bytes} {i : Nat} :
    (records ++ [q])[i]? = some p ↔ records[i]? = some p ∨ i = records.length ∧ q = p := by
  rcases Nat.lt_trichotomy i records.length with less | rfl | more
  · rw [List.getElem?_append_left less]
    exact ⟨.inl, fun h => h.resolve_right fun last => Nat.ne_of_lt less last.1⟩
  · rw [List.getElem?_append_right (Nat.le_refl _), Nat.sub_self,
      List.getElem?_eq_none (Nat.le_refl _)]
    simp
  · have behind : records.length ≤ i := Nat.le_of_lt more
    have outside : (records ++ [q]).length ≤ i := by
      rw [List.length_append]
      exact more
    rw [List.getElem?_eq_none outside, List.getElem?_eq_none behind]
    exact ⟨nofun, fun h => h.elim nofun fun last => absurd last.1 (Nat.ne_of_gt more)⟩

theorem countsOn_concat_self (records : List Bytes) (count : Nat → Nat) (p : Bytes) :
    countsOn (records ++ [p]) count p =
      insert (count records.length) (countsOn records count p) := by
  ext n
  simp only [countsOn, getElem?_concat_eq_some, Set.mem_ofPred_eq, Set.mem_insert_iff]
  constructor
  · rintro ⟨i, opened | ⟨rfl, -⟩, rfl⟩
    · exact .inr ⟨i, opened, rfl⟩
    · exact .inl rfl
  · rintro (rfl | ⟨i, opened, rfl⟩)
    · exact ⟨_, .inr ⟨rfl, trivial⟩, rfl⟩
    · exact ⟨i, .inl opened, rfl⟩

theorem countsOn_concat_ne (records : List Bytes) (count : Nat → Nat) {q : Bytes} (h : p ≠ q) :
    countsOn (records ++ [q]) count p = countsOn records count p := by
  ext n
  simp only [countsOn, getElem?_concat_eq_some, Set.mem_ofPred_eq]
  constructor
  · rintro ⟨i, opened | ⟨-, rfl⟩, rfl⟩
    · exact ⟨i, opened, rfl⟩
    · exact absurd rfl h
  · rintro ⟨i, opened, rfl⟩
    exact ⟨i, .inl opened, rfl⟩

theorem countsOn_eq_empty {records : List Bytes} (count : Nat → Nat) (h : p ∉ records) :
    countsOn records count p = ∅ := by
  apply Set.eq_empty_of_forall_notMem
  rintro n ⟨i, opened, -⟩
  exact h (List.mem_of_getElem? opened)

/-- The first loop of the cleanup after some records. -/
structure SizesOf (records : List Bytes) (count : Nat → Nat) (acc : Map Nat × List Bytes) :
    Prop where
  paths : ∀ p, p ∈ acc.2 ↔ p ∈ records
  known : ∀ p ∈ acc.1, p ∈ records
  greatest : ∀ p ∈ records, IsGreatest (countsOn records count p) ((acc.1.lookup p).getD 0)

theorem lookup_noteSize_self (acc : Map Nat × List Bytes) (p : Bytes) (c : Nat) :
    ((noteSize acc p c).1.lookup p).getD 0 = max c ((acc.1.lookup p).getD 0) := by
  unfold noteSize
  dsimp only
  split
  next less =>
    rw [AList.lookup_insert, Option.getD_some]
    omega
  next => omega

theorem lookup_noteSize_ne (acc : Map Nat × List Bytes) {p q : Bytes} (c : Nat) (h : p ≠ q) :
    (noteSize acc q c).1.lookup p = acc.1.lookup p := by
  unfold noteSize
  dsimp only
  split
  · exact AList.lookup_insert_ne h
  · rfl

theorem SizesOf.note {records : List Bytes} {count : Nat → Nat} {acc : Map Nat × List Bytes}
    (h : SizesOf records count acc) (q : Bytes) :
    SizesOf (records ++ [q]) count (noteSize acc q (count records.length)) where
  paths := by
    intro p
    rw [List.mem_append, List.mem_singleton, ← h.paths p]
    unfold noteSize
    dsimp only
    split
    next seen =>
      refine ⟨.inl, fun hp => hp.elim id ?_⟩
      rintro rfl
      exact (h.paths p).mpr (h.known p seen)
    next => rw [List.mem_append, List.mem_singleton]
  known := by
    intro p hp
    unfold noteSize at hp
    dsimp only at hp
    split at hp
    · rcases (AList.mem_insert _).mp hp with rfl | hp
      · exact List.mem_append_right _ (List.mem_singleton_self p)
      · exact List.mem_append_left _ (h.known p hp)
    · exact List.mem_append_left _ (h.known p hp)
  greatest := by
    intro p hp
    by_cases same : p = q
    · subst same
      rw [countsOn_concat_self, lookup_noteSize_self]
      by_cases before : p ∈ records
      · exact (h.greatest p before).insert _
      · have unseen : acc.1.lookup p = none :=
          AList.lookup_eq_none.mpr fun seen => before (h.known p seen)
        rw [countsOn_eq_empty count before, unseen, Option.getD_none, Nat.max_zero,
          insert_empty_eq]
        exact isGreatest_singleton
    · have before := (List.mem_append.mp hp).resolve_right fun last =>
        same (List.mem_singleton.mp last)
      rw [countsOn_concat_ne records count same, lookup_noteSize_ne acc _ same]
      exact h.greatest p before

/-- The sizes that the cleanup records: of each path, the greatest count on it. -/
theorem redirectionSizes_spec (records : List Bytes) (count : Nat → Nat) :
    SizesOf records count (redirectionSizes records count) := by
  induction records using List.reverseRecOn with
  | nil => exact ⟨fun _ => Iff.rfl, nofun, nofun⟩
  | append_singleton records q ih =>
    have step : redirectionSizes (records ++ [q]) count =
        noteSize (redirectionSizes records count) q (count records.length) := by
      rw [redirectionSizes, List.zipIdx_append, List.foldl_append]
      simp [redirectionSizes]
    rw [step]
    exact ih.note q

/-! ## The calls that are made -/

/-- The calls of the cleanup, one for each path with its size. -/
theorem mem_closingCalls {records : List Bytes} {count : Nat → Nat} {c : RecordCall}
    (h : c ∈ closingCalls clock records count) : ∃ path ∈ records, ∃ now, c =
      { pathArg := path, kind := kindFile, now := now
        size := (((redirectionSizes records count).1.lookup path).getD 0 : Nat) } := by
  obtain ⟨i, hi, rfl⟩ := List.mem_mapIdx.mp h
  exact ⟨_, ((redirectionSizes_spec records count).paths _).mp (List.getElem_mem hi), _, rfl⟩

theorem closingCalls_of_mem {records : List Bytes} (count : Nat → Nat) (h : p ∈ records) :
    ∃ c ∈ closingCalls clock records count, c.pathArg = p := by
  obtain ⟨i, hi, rfl⟩ := List.getElem_of_mem (((redirectionSizes_spec records count).paths p).mpr h)
  exact ⟨_, List.mem_mapIdx.mpr ⟨i, hi, rfl⟩, rfl⟩

end FakeSSH.Shell
