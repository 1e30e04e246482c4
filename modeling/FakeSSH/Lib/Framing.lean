import Mathlib.Data.List.Basic

/-!
# Records that carry their length

A framing reads from the beginning of a sequence how long the record that starts there
is. The length is a matter of the record alone: it is read the same with anything
behind the record (`append`), and from the record cut out (`take`). So a sequence
splits into records in at most one way, and one that is not empty splits exactly when
a record starts it and what is left splits (`splits_cons_iff`), which is what a loop
over the records checks.
-/

namespace FakeSSH.Lib

variable {α : Type}

/-- How long the record is that starts a sequence. -/
structure Framing (α : Type) where
  len : List α → Option Nat
  pos : ∀ {s n}, len s = some n → 0 < n
  append : ∀ {r} more, len r = some r.length → len (r ++ more) = some r.length
  take : ∀ {s n}, len s = some n → n ≤ s.length → len (s.take n) = some n

namespace Framing

variable {F : Framing α} {s r : List α} {rs : List (List α)} {n : Nat}

/-- The sequence is a record. -/
def Record (F : Framing α) (r : List α) : Prop := F.len r = some r.length

/-- The sequence is these records, one after the other. -/
structure Splits (F : Framing α) (s : List α) (rs : List (List α)) : Prop where
  whole : rs.flatten = s
  records : ∀ r ∈ rs, F.Record r

theorem Record.ne_nil (h : F.Record r) : r ≠ [] := by
  rintro rfl
  exact Nat.lt_irrefl 0 (F.pos h)

theorem splits_nil_iff : F.Splits [] rs ↔ rs = [] := by
  constructor
  · rintro ⟨whole, records⟩
    cases rs with
    | nil => rfl
    | cons r rs =>
      rw [List.flatten_cons, List.append_eq_nil_iff] at whole
      exact absurd whole.1 (records r List.mem_cons_self).ne_nil
  · rintro rfl
    exact ⟨rfl, List.forall_mem_nil _⟩

/-- A sequence that is not empty splits when a record starts it and the rest splits. -/
theorem splits_cons_iff (hs : s ≠ []) : F.Splits s rs ↔
    ∃ n rest, F.len s = some n ∧ n ≤ s.length ∧ rs = s.take n :: rest ∧
      F.Splits (s.drop n) rest := by
  constructor
  · rintro ⟨rfl, records⟩
    cases rs with
    | nil => exact absurd rfl hs
    | cons r rest =>
      obtain ⟨hr, records⟩ := List.forall_mem_cons.mp records
      rw [List.flatten_cons]
      refine ⟨r.length, rest, F.append _ hr, ?_, ?_, ?_⟩
      · rw [List.length_append]
        exact Nat.le_add_right _ _
      · rw [List.take_left]
      · rw [List.drop_left]
        exact ⟨rfl, records⟩
  · rintro ⟨n, rest, hlen, hle, rfl, whole, records⟩
    refine ⟨?_, List.forall_mem_cons.mpr ⟨?_, records⟩⟩
    · rw [List.flatten_cons, whole, List.take_append_drop]
    · rw [Record, F.take hlen hle, List.length_take, Nat.min_eq_left hle]

end Framing

end FakeSSH.Lib
