import Mathlib.Algebra.BigOperators.Group.Multiset.Basic
import Mathlib.Data.Finmap

/-!
# Finite maps, written and put back

`store` writes a key or clears it. A journal notes of each write the key and what was
there before it, and `undo` takes a journal back, the latest write first: after it the
map is the one the journal was started on, however often a key was written.

`weight` sums a size over the entries of a map. A write changes it at its own key only.
-/

namespace FakeSSH.Lib

variable {κ β : Type} [DecidableEq κ]

abbrev FiniteMap (κ β : Type) := Finmap fun _ : κ => β

namespace FiniteMap

/-- Writes a value at a key, or clears the key. -/
def store (m : FiniteMap κ β) (k : κ) : Option β → FiniteMap κ β
  | some v => m.insert k v
  | none => m.erase k

variable {m : FiniteMap κ β} {k k' : κ} {v : β}

theorem lookup_store_self (m : FiniteMap κ β) (k : κ) (o : Option β) :
    (store m k o).lookup k = o := by
  cases o with
  | none => exact Finmap.lookup_erase ..
  | some v => exact Finmap.lookup_insert ..

theorem lookup_store_ne {o : Option β} (h : k' ≠ k) :
    (store m k o).lookup k' = m.lookup k' := by
  cases o with
  | none => exact Finmap.lookup_erase_ne h
  | some v => exact Finmap.lookup_insert_of_ne _ h

/-- To write back what a key held undoes a write to it. -/
theorem store_lookup_insert : store (m.insert k v) k (m.lookup k) = m := by
  apply Finmap.ext_lookup
  intro k'
  by_cases hk : k' = k
  · subst hk
    exact lookup_store_self ..
  · rw [lookup_store_ne hk, Finmap.lookup_insert_of_ne _ hk]

theorem keys_insert (m : FiniteMap κ β) (k : κ) (v : β) :
    (m.insert k v).keys = insert k m.keys := by
  ext k'
  rw [Finmap.mem_keys, Finmap.mem_insert, Finset.mem_insert, Finmap.mem_keys]

/-! ## Journals -/

/-- The keys written, in order, each with what it held before. -/
abbrev Journal (κ β : Type) := List (κ × Option β)

/-- The map after a list of writes, and their journal. -/
def journal (m : FiniteMap κ β) : List (κ × β) → FiniteMap κ β × Journal κ β
  | [] => (m, [])
  | (k, v) :: rest =>
    let (written, log) := journal (m.insert k v) rest
    (written, (k, m.lookup k) :: log)

/-- Takes a journal back, from its end. -/
def undo (m : FiniteMap κ β) (log : Journal κ β) : FiniteMap κ β :=
  log.reverse.foldl (fun m entry => store m entry.1 entry.2) m

variable {log : Journal κ β}

theorem undo_cons (entry : κ × Option β) (log : Journal κ β) :
    undo m (entry :: log) = store (undo m log) entry.1 entry.2 := by
  simp [undo]

theorem undo_journal (m : FiniteMap κ β) (writes : List (κ × β)) :
    undo (journal m writes).1 (journal m writes).2 = m := by
  induction writes generalizing m with
  | nil => rfl
  | cons w rest ih =>
    rw [journal, undo_cons, ih]
    exact store_lookup_insert

theorem journal_keys (m : FiniteMap κ β) (writes : List (κ × β)) :
    (journal m writes).2.map Prod.fst = writes.map Prod.fst := by
  induction writes generalizing m with
  | nil => rfl
  | cons w rest ih => rw [journal, List.map_cons, List.map_cons, ih]

/-- What is read after an undo: the first note of the key, as the last one to be
taken back, or else what is there. -/
theorem lookup_undo (m : FiniteMap κ β) (log : Journal κ β) (k : κ) :
    (undo m log).lookup k =
      ((log.find? fun entry => decide (entry.1 = k)).map Prod.snd).getD (m.lookup k) := by
  induction log with
  | nil => rfl
  | cons entry log ih =>
    rw [undo_cons, List.find?_cons]
    by_cases hk : entry.1 = k
    · rw [decide_eq_true hk, ← hk]
      exact lookup_store_self ..
    · rw [decide_eq_false hk, lookup_store_ne fun h => hk h.symm, ih]

theorem lookup_undo_of_not_mem (h : k ∉ log.map Prod.fst) :
    (undo m log).lookup k = m.lookup k := by
  have missing : log.find? (fun entry => decide (entry.1 = k)) = none := by
    apply List.find?_eq_none.mpr
    intro entry mem found
    exact h (List.mem_map.mpr ⟨entry, mem, of_decide_eq_true found⟩)
  rw [lookup_undo, missing]
  rfl

/-- A key without a note was not written. -/
theorem lookup_journal_of_not_mem {writes : List (κ × β)} (h : k ∉ writes.map Prod.fst) :
    (journal m writes).1.lookup k = m.lookup k := by
  rw [← journal_keys m] at h
  rw [← lookup_undo_of_not_mem h, undo_journal]

/-- A write to a key of the journal does not outlast the undo. -/
theorem undo_insert_of_mem (h : k ∈ log.map Prod.fst) : undo (m.insert k v) log = undo m log := by
  obtain ⟨entry, mem, rfl⟩ := List.mem_map.mp h
  apply Finmap.ext_lookup
  intro k'
  rw [lookup_undo, lookup_undo]
  by_cases hk : k' = entry.1
  · obtain ⟨found, hfound⟩ : ∃ found, log.find? (fun e => decide (e.1 = k')) = some found := by
      apply Option.isSome_iff_exists.mp
      exact List.find?_isSome.mpr ⟨entry, mem, decide_eq_true hk.symm⟩
    rw [hfound]
    rfl
  · rw [Finmap.lookup_insert_of_ne _ hk]

/-- A write to any other key does. -/
theorem undo_insert_of_not_mem (h : k ∉ log.map Prod.fst) :
    undo (m.insert k v) log = (undo m log).insert k v := by
  apply Finmap.ext_lookup
  intro k'
  by_cases hk : k' = k
  · subst hk
    rw [lookup_undo_of_not_mem h, Finmap.lookup_insert, Finmap.lookup_insert]
  · rw [lookup_undo, Finmap.lookup_insert_of_ne _ hk, Finmap.lookup_insert_of_ne _ hk, lookup_undo]

/-! ## Weights -/

/-- The sum of a size over the entries. -/
def weight (size : β → Nat) (m : FiniteMap κ β) : Nat := (m.entries.map fun e => size e.2).sum

theorem weight_insert (size : β → Nat) (m : FiniteMap κ β) (k : κ) (v : β) :
    weight size (m.insert k v) = size v + weight size (m.erase k) := by
  have again : m.insert k v = (m.erase k).insert k v := by
    apply Finmap.ext_lookup
    intro k'
    by_cases hk : k' = k
    · rw [hk, Finmap.lookup_insert, Finmap.lookup_insert]
    · rw [Finmap.lookup_insert_of_ne _ hk, Finmap.lookup_insert_of_ne _ hk,
        Finmap.lookup_erase_ne hk]
  rw [again, weight, Finmap.entries_insert_of_notMem Finmap.notMem_erase_self, Multiset.map_cons,
    Multiset.sum_cons]
  rfl

end FiniteMap

end FakeSSH.Lib
