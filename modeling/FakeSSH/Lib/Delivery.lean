import Mathlib.Data.List.Basic

/-!
# Data that arrives in pieces

A delivery is what an `io.Reader` does in one run: the pieces it has ready, in order,
and whether it reports the end together with the last of them or on the read after it.
A read takes the next piece, or as much of it as the buffer holds; a piece may be
empty, for a read that answers nothing and no error.

Whatever the pieces and the buffers, what was read and what is left make up the data
(`read_data`), a read that does not report the end brings it nearer
(`read_progress`), and the end is reported only when nothing is left (`read_ended`).
-/

namespace FakeSSH.Lib

/-- The pieces that are still to come, and whether the end comes with the last. -/
structure Delivery (α : Type) where
  chunks : List (List α)
  together : Bool

namespace Delivery

variable {α : Type} {d : Delivery α} {b : Nat}

/-- What a read answers: the elements, whether the end is reported, and what is left. -/
structure Answer (α : Type) where
  got : List α
  ended : Bool
  rest : Delivery α

/-- A read with a buffer for `b` elements. -/
def read (d : Delivery α) (b : Nat) : Answer α :=
  match d.chunks with
  | [] => ⟨[], true, d⟩
  | c :: cs =>
    if c.length ≤ b then ⟨c, d.together && cs.isEmpty, { d with chunks := cs }⟩
    else ⟨c.take b, false, { d with chunks := c.drop b :: cs }⟩

/-- All that is still to come. -/
def data (d : Delivery α) : List α := d.chunks.flatten

/-- A bound on the reads that do not report the end. -/
def pending (d : Delivery α) : Nat := d.chunks.length + d.data.length

/-- The end comes with the last elements, and not on a read of its own. -/
def EndsWithData (d : Delivery α) : Prop :=
  d.together = true ∧ ∃ c, d.chunks.getLast? = some c ∧ c ≠ []

/-- What a read can do: report the end where no piece is left, take a piece, or take
the beginning of one. -/
theorem read_cases (d : Delivery α) (b : Nat) :
    (d.chunks = [] ∧ d.read b = ⟨[], true, d⟩) ∨
    ∃ c cs, d.chunks = c :: cs ∧
      ((c.length ≤ b ∧ d.read b = ⟨c, d.together && cs.isEmpty, ⟨cs, d.together⟩⟩) ∨
        (b < c.length ∧ d.read b = ⟨c.take b, false, ⟨c.drop b :: cs, d.together⟩⟩)) := by
  obtain ⟨chunks, together⟩ := d
  cases chunks with
  | nil => exact .inl ⟨rfl, rfl⟩
  | cons c cs =>
    refine .inr ⟨c, cs, rfl, ?_⟩
    by_cases fits : c.length ≤ b
    · exact .inl ⟨fits, if_pos fits⟩
    · exact .inr ⟨Nat.not_le.mp fits, if_neg fits⟩

/-- What is read and what is left make up the data. -/
theorem read_data (d : Delivery α) (b : Nat) : (d.read b).got ++ (d.read b).rest.data = d.data := by
  unfold data
  obtain ⟨-, hread⟩ | ⟨c, cs, hchunks, ⟨-, hread⟩ | ⟨-, hread⟩⟩ := read_cases d b
  · rw [hread]
    rfl
  · rw [hread, hchunks, List.flatten_cons]
  · rw [hread, hchunks, List.flatten_cons, List.flatten_cons, ← List.append_assoc,
      List.take_append_drop]

/-- The end is reported only when nothing is left. -/
theorem read_ended (h : (d.read b).ended = true) : (d.read b).rest.data = [] := by
  unfold data
  obtain ⟨hchunks, hread⟩ | ⟨c, cs, hchunks, ⟨-, hread⟩ | ⟨-, hread⟩⟩ := read_cases d b
  · rw [hread, hchunks]
    rfl
  · rw [hread] at h ⊢
    rw [Bool.and_eq_true, List.isEmpty_iff] at h
    rw [h.2]
    rfl
  · rw [hread] at h
    cases h

/-- A read that does not report the end brings it nearer. -/
theorem read_progress (hb : 0 < b) (h : (d.read b).ended = false) :
    (d.read b).rest.pending < d.pending := by
  unfold pending data
  obtain ⟨hchunks, hread⟩ | ⟨c, cs, hchunks, ⟨-, hread⟩ | ⟨long, hread⟩⟩ := read_cases d b
  · rw [hread] at h
    cases h
  · rw [hread, hchunks, List.flatten_cons, List.length_append, List.length_cons]
    dsimp only
    omega
  · rw [hread, hchunks, List.flatten_cons, List.flatten_cons, List.length_append,
      List.length_append, List.length_cons, List.length_cons, List.length_drop]
    omega

theorem EndsWithData.data_ne_nil (h : d.EndsWithData) : d.data ≠ [] := by
  obtain ⟨-, c, hlast, full⟩ := h
  intro hnil
  exact full (List.flatten_eq_nil_iff.mp hnil c (List.mem_of_getLast? hlast))

/-- How the end comes is a matter of the last piece. -/
theorem endsWithData_cons {c e : List α} {cs : List (List α)} {t : Bool} (h : cs ≠ []) :
    EndsWithData ⟨c :: cs, t⟩ ↔ EndsWithData ⟨e :: cs, t⟩ := by
  obtain ⟨last, hlast⟩ := Option.isSome_iff_exists.mp (List.getLast?_isSome.mpr h)
  simp only [EndsWithData, List.getLast?_cons, hlast, Option.getD_some]

theorem endsWithData_singleton {c : List α} {t : Bool} :
    EndsWithData ⟨[c], t⟩ ↔ t = true ∧ c ≠ [] := by
  simp [EndsWithData]

/-- A read keeps how the end comes, until it reports it. -/
theorem endsWithData_rest (h : (d.read b).ended = false) :
    (d.read b).rest.EndsWithData ↔ d.EndsWithData := by
  obtain ⟨hchunks, hread⟩ | ⟨c, cs, hchunks, ⟨-, hread⟩ | ⟨long, hread⟩⟩ := read_cases d b
  · rw [hread] at h
    cases h
  · rw [hread] at h ⊢
    obtain ⟨chunks, together⟩ := d
    cases hchunks
    cases cs with
    | nil =>
      have apart : together = false := by simpa using h
      rw [endsWithData_singleton, apart]
      refine iff_of_false ?_ ?_
      · rintro ⟨ends, -⟩
        cases ends
      · rintro ⟨ends, -⟩
        cases ends
    | cons e cs => simp only [EndsWithData, List.getLast?_cons, Option.getD_some]
  · rw [hread]
    obtain ⟨chunks, together⟩ := d
    cases hchunks
    by_cases hcs : cs = []
    · have some : c.drop b ≠ [] := by
        rw [Ne, List.drop_eq_nil_iff, Nat.not_le]
        exact long
      have full : c ≠ [] := by
        rintro rfl
        exact absurd long (Nat.not_lt_zero b)
      rw [hcs, endsWithData_singleton, endsWithData_singleton, and_iff_left some, and_iff_left full]
    · exact endsWithData_cons hcs

/-- Where the end does not come with the last elements, it comes with none. -/
theorem got_of_ended (apart : ¬ d.EndsWithData) (h : (d.read b).ended = true) :
    (d.read b).got = [] := by
  obtain ⟨hchunks, hread⟩ | ⟨c, cs, hchunks, ⟨-, hread⟩ | ⟨-, hread⟩⟩ := read_cases d b
  · rw [hread]
  · rw [hread] at h ⊢
    rw [Bool.and_eq_true, List.isEmpty_iff] at h
    by_contra full
    refine apart ⟨h.1, c, ?_, full⟩
    rw [hchunks, h.2]
    rfl
  · rw [hread] at h
    cases h

end Delivery

end FakeSSH.Lib
