import Mathlib.Data.Finmap

/-!
# Loops over maps

A loop over a map meets its entries in an order that nothing fixes: the list it works
through is some permutation of them. Where the loop writes into another map, at a key
that it computes from the entry, what is read afterwards is what some entry wrote there
(`get_loop`), and every entry can be the one: in some order it is the last
(`exists_perm_last`). So the order cannot be seen exactly if the entries that write to
one key write the same.
-/

namespace FakeSSH.Lib

variable {M κ β ι : Type}

/-- A kind of map that is read and written by key. -/
structure Cells (M κ β : Type) where
  get : M → κ → Option β
  put : M → κ → β → M
  get_put : ∀ m k v, get (put m k v) k = some v
  get_put_ne : ∀ m v {k k'}, k' ≠ k → get (put m k v) k' = get m k'

namespace Cells

def ofAList [DecidableEq κ] : Cells (AList fun _ : κ => β) κ β where
  get m k := m.lookup k
  put m k v := m.insert k v
  get_put m _ _ := AList.lookup_insert m
  get_put_ne _ _ _ _ ne := AList.lookup_insert_ne ne

def ofFinmap [DecidableEq κ] : Cells (Finmap fun _ : κ => β) κ β where
  get m k := m.lookup k
  put m k v := m.insert k v
  get_put m _ _ := Finmap.lookup_insert m
  get_put_ne m _ _ _ ne := Finmap.lookup_insert_of_ne m ne

variable (cells : Cells M κ β) (key : ι → κ) (value : ι → β)

/-- The loop: `value x` is written at `key x` for every item it meets. -/
def loop (m : M) (items : List ι) : M :=
  items.foldl (fun m x => cells.put m (key x) (value x)) m

theorem loop_append_singleton (m : M) (items : List ι) (x : ι) :
    cells.loop key value m (items ++ [x]) =
      cells.put (cells.loop key value m items) (key x) (value x) := by
  rw [loop, List.foldl_append]
  rfl

/-- The last item met is read. -/
theorem get_loop_last (m : M) (items : List ι) (x : ι) :
    cells.get (cells.loop key value m (items ++ [x])) (key x) = some (value x) := by
  rw [loop_append_singleton, cells.get_put]

/-- What is read after a loop: what one of its items wrote, or what was there if none
wrote to the key. -/
theorem get_loop (m : M) (items : List ι) (k : κ) :
    (∃ x ∈ items, key x = k ∧ cells.get (cells.loop key value m items) k = some (value x)) ∨
      (∀ x ∈ items, key x ≠ k) ∧ cells.get (cells.loop key value m items) k = cells.get m k := by
  induction items using List.reverseRecOn with
  | nil => exact .inr ⟨List.forall_mem_nil _, rfl⟩
  | append_singleton items x ih =>
    by_cases hk : key x = k
    · subst hk
      exact .inl ⟨x, List.mem_append_right _ List.mem_cons_self, rfl, cells.get_loop_last ..⟩
    · rw [loop_append_singleton, cells.get_put_ne _ _ fun h => hk h.symm]
      rcases ih with ⟨y, hy, written⟩ | ⟨unwritten, kept⟩
      · exact .inl ⟨y, List.mem_append_left _ hy, written⟩
      · refine .inr ⟨?_, kept⟩
        intro y hy
        rcases List.mem_append.mp hy with hy | hy
        · exact unwritten y hy
        · rwa [List.mem_singleton.mp hy]

end Cells

/-- Any item can be met last. -/
theorem exists_perm_last {items : List ι} {x : ι} (h : x ∈ items) :
    ∃ before, (before ++ [x]).Perm items := by
  obtain ⟨before, after, rfl⟩ := List.append_of_mem h
  refine ⟨before ++ after, ?_⟩
  rw [List.append_assoc]
  exact (List.perm_append_singleton x after).append_left before

/-- A copy is the map that is copied, in whatever order it is made. -/
theorem lookup_copy [DecidableEq κ] {m : AList fun _ : κ => β} {order : List (Σ _ : κ, β)}
    (h : order.Perm m.entries) (k : κ) :
    (order.foldl (fun copy e => copy.insert e.1 e.2) (∅ : AList fun _ : κ => β)).lookup k =
      m.lookup k := by
  have read := Cells.ofAList.get_loop (fun e : Σ _ : κ, β => e.1) (fun e => e.2) ∅ order k
  rcases read with ⟨⟨k, v⟩, mem, rfl, written⟩ | ⟨unwritten, kept⟩
  · exact written.trans (AList.mem_lookup_iff.mpr (h.mem_iff.mp mem)).symm
  · have absent : m.lookup k = none := by
      refine Option.eq_none_iff_forall_not_mem.mpr fun v found => ?_
      exact unwritten ⟨k, v⟩ (h.mem_iff.mpr (AList.mem_lookup_iff.mp found)) rfl
    rw [absent]
    exact kept

end FakeSSH.Lib
