import Mathlib.Data.List.Basic
import Mathlib.Data.List.TakeWhile

/-!
# Lists cut at separators

A list is a group followed by separators, each with the group behind it. `sep` makes a
separator of what distinguishes them, and `p` recognises one.

A scanner that goes on as long as a test passes cuts its input once, where the test
first fails (`Stops`).
-/

namespace FakeSSH.Lib

variable {α β : Type} {sep : β → α} {p : α → Bool}

/-- The separators with their groups, written out. -/
def spell (sep : β → α) (tail : List (β × List α)) : List α := tail.flatMap fun x => sep x.1 :: x.2

theorem spell_cons (sep : β → α) (x : β × List α) (tail : List (β × List α)) :
    spell sep (x :: tail) = sep x.1 :: (x.2 ++ spell sep tail) := rfl

/-- Groups hold no separator. -/
structure Cut (p : α → Bool) (front : List α) (tail : List (β × List α)) : Prop where
  front : ∀ a ∈ front, p a = false
  tail : ∀ x ∈ tail, ∀ a ∈ x.2, p a = false

theorem Cut.cons {x : β × List α} {front : List α} {tail : List (β × List α)}
    (h : Cut p front (x :: tail)) : Cut p x.2 tail :=
  ⟨h.tail x List.mem_cons_self, fun y hy => h.tail y (List.mem_cons_of_mem _ hy)⟩

theorem Cut.append {front : List α} {some rest : List (β × List α)}
    (h : Cut p front (some ++ rest)) : Cut p front rest :=
  ⟨h.front, fun y hy => h.tail y (List.mem_append_right _ hy)⟩

/-- Every list can be cut. -/
theorem exists_cut (hp : ∀ a, p a = true → ∃ b, a = sep b) (xs : List α) :
    ∃ front tail, xs = front ++ spell sep tail ∧ Cut p front tail := by
  induction xs with
  | nil => exact ⟨[], [], rfl, nofun, nofun⟩
  | cons a xs ih =>
    obtain ⟨front, tail, rfl, cut⟩ := ih
    cases ha : p a with
    | true =>
      obtain ⟨b, rfl⟩ := hp a ha
      exact ⟨[], (b, front) :: tail, rfl, nofun, List.forall_mem_cons.mpr ⟨cut.front, cut.tail⟩⟩
    | false =>
      exact ⟨a :: front, tail, rfl, List.forall_mem_cons.mpr ⟨ha, cut.front⟩, cut.tail⟩

/-- Cutting at the separators gives the groups back. -/
theorem splitOnP_spell (hsep : ∀ b, p (sep b) = true) {front : List α} {tail : List (β × List α)}
    (cut : Cut p front tail) :
    (front ++ spell sep tail).splitOnP p = front :: tail.map (·.2) := by
  induction tail generalizing front with
  | nil =>
    rw [show spell sep ([] : List (β × List α)) = [] from rfl, List.append_nil]
    exact List.splitOnP_eq_singleton cut.front
  | cons x tail ih =>
    rw [spell_cons, List.splitOnP_append_cons_of_forall_mem cut.front _ (hsep x.1), ih cut.cons]
    rfl

/-- And what distinguishes the separators is read off the list. -/
theorem filterMap_spell {f : α → Option β} (hsep : ∀ b, f (sep b) = some b)
    (hp : ∀ a, p a = false → f a = none) {front : List α} {tail : List (β × List α)}
    (cut : Cut p front tail) : (front ++ spell sep tail).filterMap f = tail.map (·.1) := by
  have plain : front.filterMap f = [] :=
    List.filterMap_eq_nil_iff.mpr fun a ha => hp a (cut.front a ha)
  rw [List.filterMap_append, plain, List.nil_append]
  induction tail generalizing front with
  | nil => rfl
  | cons x tail ih =>
    have group : x.2.filterMap f = [] :=
      List.filterMap_eq_nil_iff.mpr fun a ha => hp a (cut.cons.front a ha)
    rw [spell_cons, List.filterMap_cons_some (hsep x.1), List.filterMap_append, group,
      List.nil_append, ih cut.cons group]
    rfl

/-! ## One cut -/

/-- A test passes on a beginning and fails right behind it. -/
structure Stops (p : α → Bool) (front rest : List α) : Prop where
  front : ∀ a ∈ front, p a = true
  rest : ∀ a ∈ rest.head?, p a = false

theorem exists_stops (p : α → Bool) (xs : List α) : ∃ front rest, xs = front ++ rest ∧
    Stops p front rest := by
  refine ⟨xs.takeWhile p, xs.dropWhile p, List.takeWhile_append_dropWhile.symm,
    fun a ha => List.mem_takeWhile_imp ha, ?_⟩
  intro a ha
  have first := List.head?_dropWhile_not p xs
  rw [ha] at first
  exact first

theorem Stops.dropWhile {front rest : List α} (h : Stops p front rest) :
    (front ++ rest).dropWhile p = rest := by
  rw [List.dropWhile_append_of_pos h.front]
  cases rest with
  | nil => rfl
  | cons a rest => rw [List.dropWhile_cons_of_neg (by simp [h.rest a rfl])]

theorem Stops.takeWhile {front rest : List α} (h : Stops p front rest) :
    (front ++ rest).takeWhile p = front := by
  rw [List.takeWhile_append_of_pos h.front]
  cases rest with
  | nil => rw [List.takeWhile_nil, List.append_nil]
  | cons a rest => rw [List.takeWhile_cons_of_neg (by simp [h.rest a rfl]), List.append_nil]

end FakeSSH.Lib
