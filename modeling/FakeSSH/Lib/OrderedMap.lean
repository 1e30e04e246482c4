import Mathlib.Data.List.AList
import Mathlib.Data.List.Induction

/-!
# Maps that remember the order of insertion

A map beside the list of its keys, in the order in which they first came. Writing a
key that is there replaces its value and leaves the order alone. `Sound` ties the
two; `putAll` makes a list of writes, which leaves the map the same exactly if it writes
what is there. `written` is a history of writes, and `values_written` says what is read
back after one: the last value of each key, the keys in the order of their first write.
-/

namespace FakeSSH.Lib

variable {κ β : Type} [DecidableEq κ]

structure OrderedMap (κ β : Type) where
  entries : AList fun _ : κ => β := ∅
  order : List κ := []

namespace OrderedMap

/-- Writes a value. A new key goes to the end. -/
def put (m : OrderedMap κ β) (k : κ) (v : β) : OrderedMap κ β :=
  { entries := m.entries.insert k v
    order := if k ∈ m.entries then m.order else m.order ++ [k] }

/-- The values, in order. -/
def values [Inhabited β] (m : OrderedMap κ β) : List β :=
  m.order.map fun k => (m.entries.lookup k).getD default

/-- How many keys the map holds. -/
def size (m : OrderedMap κ β) : Nat := m.entries.keys.length

/-- The list holds each key of the map once, and nothing else. -/
structure Sound (m : OrderedMap κ β) : Prop where
  nodup : m.order.Nodup
  listed : ∀ k, k ∈ m.order ↔ k ∈ m.entries

variable {m : OrderedMap κ β} {k k' : κ} {v : β}

omit [DecidableEq κ] in
theorem empty_sound : ({} : OrderedMap κ β).Sound := ⟨List.nodup_nil, fun _ => Iff.rfl⟩

theorem Sound.put (h : m.Sound) (k : κ) (v : β) : (m.put k v).Sound := by
  unfold OrderedMap.put
  by_cases known : k ∈ m.entries
  · rw [if_pos known]
    refine ⟨h.nodup, ?_⟩
    intro k'
    rw [AList.mem_insert, h.listed]
    constructor
    · exact .inr
    · rintro (rfl | hk)
      · exact known
      · exact hk
  · rw [if_neg known]
    refine ⟨?_, ?_⟩
    · rw [List.nodup_append_comm]
      exact List.nodup_cons.mpr ⟨fun hk => known ((h.listed k).mp hk), h.nodup⟩
    · intro k'
      rw [AList.mem_insert, List.mem_append, List.mem_singleton, h.listed, or_comm]

omit [DecidableEq κ] in
/-- The list is as long as the map is large. -/
theorem Sound.length_order (h : m.Sound) : m.order.length = m.size :=
  ((List.perm_ext_iff_of_nodup h.nodup m.entries.keys_nodup).mpr h.listed).length_eq

theorem lookup_put_self : (m.put k v).entries.lookup k = some v := AList.lookup_insert _

theorem lookup_put_ne (h : k' ≠ k) : (m.put k v).entries.lookup k' = m.entries.lookup k' :=
  AList.lookup_insert_ne h

theorem order_put_of_mem (h : k ∈ m.entries) : (m.put k v).order = m.order := if_pos h

theorem order_put_of_not_mem (h : k ∉ m.entries) : (m.put k v).order = m.order ++ [k] := if_neg h

/-- What every value of the map satisfies, together with a new one, every value
satisfies after the write. -/
theorem forall_lookup_put {P : κ → β → Prop} (old : ∀ k v, m.entries.lookup k = some v → P k v)
    (new : P k v) : ∀ k' v', (m.put k v).entries.lookup k' = some v' → P k' v' := by
  intro k' v' h
  by_cases hk : k' = k
  · subst hk
    rw [lookup_put_self, Option.some.injEq] at h
    exact h ▸ new
  · rw [lookup_put_ne hk] at h
    exact old k' v' h

/-! ## Lists of writes -/

/-- The map after a list of writes. -/
def putAll (m : OrderedMap κ β) (writes : List (κ × β)) : OrderedMap κ β :=
  writes.foldl (fun m w => m.put w.1 w.2) m

theorem putAll_concat (m : OrderedMap κ β) (writes : List (κ × β)) (w : κ × β) :
    putAll m (writes ++ [w]) = (putAll m writes).put w.1 w.2 := by
  simp [putAll]

theorem mem_putAll (m : OrderedMap κ β) (writes : List (κ × β)) (k : κ) :
    k ∈ (putAll m writes).entries ↔ k ∈ m.entries ∨ k ∈ writes.map Prod.fst := by
  induction writes using List.reverseRecOn with
  | nil => simp [putAll]
  | append_singleton writes w ih =>
    rw [putAll_concat, OrderedMap.put, AList.mem_insert, ih, List.map_append, List.mem_append,
      List.map_singleton, List.mem_singleton]
    tauto

theorem lookup_putAll_of_mem {writes : List (κ × β)} (nodup : (writes.map Prod.fst).Nodup)
    {w : κ × β} (h : w ∈ writes) : (putAll m writes).entries.lookup w.1 = some w.2 := by
  induction writes using List.reverseRecOn with
  | nil => cases h
  | append_singleton writes last ih =>
    rw [List.map_append, List.nodup_append] at nodup
    rw [putAll_concat]
    rcases List.mem_append.mp h with h | h
    · have other : w.1 ≠ last.1 :=
        nodup.2.2 w.1 (List.mem_map_of_mem h) last.1 (List.mem_singleton_self _)
      rw [lookup_put_ne other, ih nodup.1 h]
    · rw [List.mem_singleton.mp h, lookup_put_self]

/-- Writes leave the other keys alone. -/
theorem lookup_putAll_of_not_mem {writes : List (κ × β)} (h : k ∉ writes.map Prod.fst) :
    (putAll m writes).entries.lookup k = m.entries.lookup k := by
  induction writes using List.reverseRecOn with
  | nil => rfl
  | append_singleton writes last ih =>
    rw [List.map_append, List.mem_append, not_or] at h
    rw [putAll_concat, lookup_put_ne fun same => h.2 (List.mem_singleton.mpr same), ih h.1]

/-- The same values at the same keys, in the same order. -/
structure Same (m m' : OrderedMap κ β) : Prop where
  order : m'.order = m.order
  lookup : ∀ k, m'.entries.lookup k = m.entries.lookup k

theorem same_put (h : m.entries.lookup k = some v) : Same m (m.put k v) := by
  refine ⟨order_put_of_mem (AList.lookup_isSome.mp (by rw [h]; rfl)), ?_⟩
  intro k'
  by_cases hk : k' = k
  · rw [hk, lookup_put_self, h]
  · rw [lookup_put_ne hk]

/-- Writes to different keys leave a map the same exactly if each writes what is there. -/
theorem same_putAll_iff {writes : List (κ × β)} (nodup : (writes.map Prod.fst).Nodup) :
    Same m (putAll m writes) ↔ ∀ w ∈ writes, m.entries.lookup w.1 = some w.2 := by
  constructor
  · intro same w hw
    rw [← same.lookup, lookup_putAll_of_mem nodup hw]
  · intro there
    induction writes using List.reverseRecOn with
    | nil => exact ⟨rfl, fun _ => rfl⟩
    | append_singleton writes w ih =>
      rw [List.map_append, List.nodup_append] at nodup
      have same := ih nodup.1 fun w' hw' => there w' (List.mem_append_left _ hw')
      have here : (putAll m writes).entries.lookup w.1 = some w.2 := by
        rw [same.lookup]
        exact there w (List.mem_append_right _ (List.mem_singleton_self _))
      rw [putAll_concat]
      have again := same_put here
      exact ⟨again.order.trans same.order, fun k => (again.lookup k).trans (same.lookup k)⟩

/-! ## Histories -/

/-- The map after a history of writes. -/
def written (writes : List (κ × β)) : OrderedMap κ β :=
  writes.foldl (fun m w => m.put w.1 w.2) {}

variable {writes : List (κ × β)}

theorem written_append (writes : List (κ × β)) (w : κ × β) :
    written (writes ++ [w]) = (written writes).put w.1 w.2 :=
  putAll_concat {} writes w

theorem lookup_written (writes : List (κ × β)) (k : κ) :
    (written writes).entries.lookup k =
      (writes.reverse.find? fun w => decide (w.1 = k)).map Prod.snd := by
  induction writes using List.reverseRecOn with
  | nil => rfl
  | append_singleton writes w ih =>
    rw [written_append, List.reverse_append, List.reverse_singleton, List.singleton_append,
      List.find?_cons]
    by_cases hk : w.1 = k
    · rw [decide_eq_true hk, ← hk, lookup_put_self]
      rfl
    · rw [decide_eq_false hk, lookup_put_ne fun h => hk h.symm, ih]

theorem mem_written (writes : List (κ × β)) (k : κ) :
    k ∈ (written writes).entries ↔ k ∈ writes.map Prod.fst :=
  (mem_putAll {} writes k).trans (or_iff_right (AList.notMem_empty k))

variable [BEq κ] [LawfulBEq κ]

omit [DecidableEq κ] in
theorem eraseDups_concat_of_mem {l : List κ} (known : k ∈ l) :
    (l ++ [k]).eraseDups = l.eraseDups := by
  have gone : [k].removeAll l = [] := by simpa [List.removeAll] using known
  rw [List.eraseDups_append, gone, List.eraseDups_nil, List.append_nil]

omit [DecidableEq κ] in
theorem eraseDups_concat_of_not_mem {l : List κ} (new : k ∉ l) :
    (l ++ [k]).eraseDups = l.eraseDups ++ [k] := by
  have kept : [k].removeAll l = [k] := by simpa [List.removeAll] using new
  rw [List.eraseDups_append, kept]
  rfl

omit [DecidableEq κ] in
theorem nodup_eraseDups (l : List κ) : l.eraseDups.Nodup := by
  induction l using List.reverseRecOn with
  | nil => exact List.nodup_nil
  | append_singleton l k ih =>
    by_cases known : k ∈ l
    · rw [eraseDups_concat_of_mem known]
      exact ih
    · rw [eraseDups_concat_of_not_mem known, ← List.concat_eq_append, List.nodup_concat]
      exact ⟨fun h => known (List.mem_eraseDups.mp h), ih⟩

/-- The order is that of the first write of each key. -/
theorem order_written (writes : List (κ × β)) :
    (written writes).order = (writes.map Prod.fst).eraseDups := by
  induction writes using List.reverseRecOn with
  | nil => rfl
  | append_singleton writes w ih =>
    rw [written_append, OrderedMap.put, List.map_append, List.map_singleton, ih]
    by_cases known : w.1 ∈ writes.map Prod.fst
    · rw [if_pos ((mem_written writes w.1).mpr known), eraseDups_concat_of_mem known]
    · rw [if_neg fun h => known ((mem_written writes w.1).mp h),
        eraseDups_concat_of_not_mem known]

/-- What is read back: the last value of each key, in the order of first writes. -/
theorem values_written [Inhabited β] (writes : List (κ × β)) :
    (written writes).values = (writes.map Prod.fst).eraseDups.map
      fun k => ((writes.reverse.find? fun w => decide (w.1 = k)).map Prod.snd).getD default := by
  rw [values, order_written]
  simp only [lookup_written]

end OrderedMap

end FakeSSH.Lib
