import Mathlib.Data.List.Basic

/-!
# Neighbours that are joined

Of a list whose elements have keys, neighbours with the same key are joined into one
element. `runs` does it from the right and `addRun` adds one element at the end, which is
how a loop builds such a list. Joining is associative and keeps the key, so the two
agree, and parts of a list can be joined before the whole is.
-/

namespace FakeSSH.Lib

variable {α κ : Type} [DecidableEq κ] (key : α → κ) (join : α → α → α)

/-- An element before others, joined with the first of them if it has the same key. -/
def consRun (a : α) : List α → List α
  | [] => [a]
  | b :: rest => if key b = key a then join a b :: rest else a :: b :: rest

/-- The list with all neighbours of the same key joined. -/
def runs (l : List α) : List α := l.foldr (consRun key join) []

/-- An element behind others, joined with the last of them if it has the same key. -/
def addRun (l : List α) (a : α) : List α :=
  match l.getLast? with
  | some b => if key b = key a then l.dropLast ++ [join b a] else l ++ [a]
  | none => [a]

variable {key join} {a b : α} {l : List α}

theorem consRun_same (h : key b = key a) (rest : List α) :
    consRun key join a (b :: rest) = join a b :: rest := if_pos h

theorem consRun_other (h : key b ≠ key a) (rest : List α) :
    consRun key join a (b :: rest) = a :: b :: rest := if_neg h

@[simp] theorem runs_nil : runs key join [] = [] := rfl

theorem runs_cons (a : α) (l : List α) :
    runs key join (a :: l) = consRun key join a (runs key join l) := rfl

/-- The first run starts with the first element. -/
theorem runs_cons_eq (a : α) (l : List α) :
    ∃ b rest, runs key join (a :: l) = b :: rest ∧ (b = a ∨ ∃ c, b = join a c) := by
  rw [runs_cons]
  cases runs key join l with
  | nil => exact ⟨a, [], rfl, .inl rfl⟩
  | cons c rest =>
    by_cases same : key c = key a
    · exact ⟨_, _, consRun_same same rest, .inr ⟨c, rfl⟩⟩
    · exact ⟨_, _, consRun_other same rest, .inl rfl⟩

theorem runs_ne_nil (h : l ≠ []) : runs key join l ≠ [] := by
  cases l with
  | nil => exact absurd rfl h
  | cons a l =>
    obtain ⟨b, rest, first, -⟩ : ∃ b rest, runs key join (a :: l) = b :: rest ∧ _ :=
      runs_cons_eq a l
    rw [first]
    exact List.cons_ne_nil b rest

theorem runs_append (l m : List α) :
    runs key join (l ++ m) = l.foldr (consRun key join) (runs key join m) := List.foldr_append

theorem addRun_singleton (b a : α) :
    addRun key join [b] a = if key b = key a then [join b a] else [b, a] := rfl

theorem addRun_cons (b a : α) {rest : List α} (full : rest ≠ []) :
    addRun key join (b :: rest) a = b :: addRun key join rest a := by
  obtain ⟨last, isLast⟩ := Option.isSome_iff_exists.1 (List.getLast?_isSome.2 full)
  have same : (b :: rest).getLast? = some last := by
    rw [List.getLast?_cons, isLast]
    rfl
  unfold addRun
  rw [same, isLast, List.dropLast_cons_of_ne_nil full]
  dsimp only
  split <;> rfl

/-- What the elements stand for, if joined ones stand for one after the other. -/
theorem flatMap_runs {β : Type} (f : α → List β)
    (hf : ∀ a b, key b = key a → f (join a b) = f a ++ f b)
    (l : List α) : (runs key join l).flatMap f = l.flatMap f := by
  have step : ∀ a l, (consRun key join a l).flatMap f = f a ++ l.flatMap f := by
    intro a l
    cases l with
    | nil => rfl
    | cons b rest =>
      by_cases same : key b = key a
      · rw [consRun_same same, List.flatMap_cons, List.flatMap_cons, hf a b same, List.append_assoc]
      · rw [consRun_other same, List.flatMap_cons]
  induction l with
  | nil => rfl
  | cons a l ih => rw [runs_cons, step, ih, List.flatMap_cons]

/-- What holds of the elements, and of two that are joined, holds of the runs. -/
theorem forall_mem_runs {P : α → Prop} (each : ∀ a ∈ l, P a)
    (joins : ∀ a b, P a → P b → P (join a b)) :
    ∀ a ∈ runs key join l, P a := by
  induction l with
  | nil => exact nofun
  | cons a l ih =>
    obtain ⟨first, later⟩ := List.forall_mem_cons.1 each
    have rest := ih later
    rw [runs_cons]
    cases whole : runs key join l with
    | nil => exact List.forall_mem_singleton.2 first
    | cons b more =>
      rw [whole] at rest
      obtain ⟨next, rest⟩ := List.forall_mem_cons.1 rest
      by_cases same : key b = key a
      · rw [consRun_same same]
        exact List.forall_mem_cons.2 ⟨joins a b first next, rest⟩
      · rw [consRun_other same]
        exact List.forall_mem_cons.2 ⟨first, List.forall_mem_cons.2 ⟨next, rest⟩⟩

section Keys

variable (keyed : ∀ a b, key (join a b) = key a)
include keyed

/-- The keys of the runs are keys of the list. -/
theorem exists_key_of_mem_runs (h : b ∈ runs key join l) : ∃ a ∈ l, key a = key b :=
  forall_mem_runs (P := fun b => ∃ a ∈ l, key a = key b) (fun a ha => ⟨a, ha, rfl⟩)
    (fun b c hb _ => (keyed b c).symm ▸ hb) b h

variable (assoc : ∀ a b c, join (join a b) c = join a (join b c))
include assoc

theorem consRun_consRun (same : key b = key a) (l : List α) :
    consRun key join a (consRun key join b l) = consRun key join (join a b) l := by
  cases l with
  | nil => exact consRun_same same []
  | cons c rest =>
    by_cases third : key c = key b
    · rw [consRun_same third, consRun_same ((keyed b c).trans same),
        consRun_same (third.trans (same.trans (keyed a b).symm)), assoc]
    · rw [consRun_other third, consRun_same same, consRun_other]
      rw [keyed]
      exact fun h => third (h.trans same.symm)

theorem runs_consRun_append (a : α) (l m : List α) :
    runs key join (consRun key join a l ++ m) = consRun key join a (runs key join (l ++ m)) := by
  cases l with
  | nil => rfl
  | cons b l =>
    by_cases same : key b = key a
    · rw [consRun_same same, List.cons_append, List.cons_append, runs_cons, runs_cons,
        consRun_consRun keyed assoc same]
    · rw [consRun_other same]
      rfl

/-- What is joined already can be joined with more. -/
theorem runs_runs_append (l m : List α) :
    runs key join (runs key join l ++ m) = runs key join (l ++ m) := by
  induction l with
  | nil => rfl
  | cons a l ih => rw [runs_cons, runs_consRun_append keyed assoc, ih, List.cons_append, runs_cons]

theorem runs_flatMap_runs {β : Type} (f : β → List α) (parts : List β) :
    runs key join (parts.flatMap fun b => runs key join (f b)) =
      runs key join (parts.flatMap f) := by
  induction parts with
  | nil => rfl
  | cons b parts ih =>
    rw [List.flatMap_cons, List.flatMap_cons, runs_runs_append keyed assoc, runs_append, ih,
      runs_append]

theorem addRun_consRun (b a : α) (l : List α) :
    addRun key join (consRun key join b l) a = consRun key join b (addRun key join l a) := by
  cases l with
  | nil =>
    by_cases same : key b = key a
    · exact (if_pos same).trans (consRun_same same.symm []).symm
    · exact (if_neg same).trans (consRun_other (fun h => same h.symm) []).symm
  | cons c rest =>
    by_cases same : key c = key b
    · rw [consRun_same same]
      cases rest with
      | nil =>
        rw [addRun_singleton, addRun_singleton, keyed]
        by_cases last : key b = key a
        · rw [if_pos last, if_pos (same.trans last), consRun_same ((keyed c a).trans same), assoc]
        · rw [if_neg last, if_neg fun h => last (same.symm.trans h), consRun_same same]
      | cons d rest =>
        rw [addRun_cons _ _ (List.cons_ne_nil d rest), addRun_cons _ _ (List.cons_ne_nil d rest),
          consRun_same same]
    · rw [consRun_other same, addRun_cons _ _ (List.cons_ne_nil c rest)]
      cases rest with
      | nil =>
        rw [addRun_singleton]
        split
        · rw [consRun_other fun h => same ((keyed c a).symm.trans h)]
        · rw [consRun_other same]
      | cons d rest => rw [addRun_cons _ _ (List.cons_ne_nil d rest), consRun_other same]

/-- Elements added one by one at the end. -/
theorem foldl_addRun (l m : List α) :
    m.foldl (addRun key join) (runs key join l) = runs key join (l ++ m) := by
  induction m generalizing l with
  | nil => rw [List.append_nil, List.foldl_nil]
  | cons a m ih =>
    have one : addRun key join (runs key join l) a = runs key join (l ++ [a]) := by
      induction l with
      | nil => rfl
      | cons b l ih => rw [runs_cons, addRun_consRun keyed assoc, ih, List.cons_append, runs_cons]
    rw [List.foldl_cons, one, ih, List.append_assoc, List.singleton_append]

end Keys

end FakeSSH.Lib
