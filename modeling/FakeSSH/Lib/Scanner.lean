import Mathlib.Data.List.Basic

/-!
# Scanners that stop

A scanner reads symbols one at a time. `step` is its state after a symbol, or
`none` where it stops. `scan` reads a whole list, and `firstStop` is the index of
the symbol it stops at. Whether it stops at a symbol depends on what came before
and on nothing after, so `firstStop` of a list and of its beginnings agree.
-/

namespace FakeSSH.Lib

variable {M α : Type} (step : M → α → Option M)

/-- The state after a whole list, `none` where the scanner stops in it. -/
def scan : M → List α → Option M
  | m, [] => some m
  | m, a :: rest =>
    match step m a with
    | none => none
    | some m' => scan m' rest

/-- The index of the first symbol that the scanner stops at. -/
def firstStop : M → List α → Option Nat
  | _, [] => none
  | m, a :: rest =>
    match step m a with
    | none => some 0
    | some m' => (firstStop m' rest).map (· + 1)

variable {step} {m m' : M} {a : α} {xs ys : List α} {i : Nat}

theorem scan_cons (h : step m a = some m') : scan step m (a :: xs) = scan step m' xs := by
  simp only [scan, h]

theorem firstStop_cons (h : step m a = some m') :
    firstStop step m (a :: xs) = (firstStop step m' xs).map (· + 1) := by
  simp only [firstStop, h]

theorem firstStop_cons_of_stop (h : step m a = none) : firstStop step m (a :: xs) = some 0 := by
  simp only [firstStop, h]

/-- A list that is read to its end was not stopped at its first symbol. -/
theorem scan_cons_eq_some {n : M} :
    scan step m (a :: xs) = some n ↔ ∃ m', step m a = some m' ∧ scan step m' xs = some n := by
  cases h : step m a <;> simp [scan, h]

theorem firstStop_eq_none : firstStop step m xs = none ↔ ∃ n, scan step m xs = some n := by
  induction xs generalizing m with
  | nil => simp [firstStop, scan]
  | cons a xs ih =>
    cases h : step m a with
    | none => simp [firstStop, scan, h]
    | some m' => rw [firstStop_cons h, Option.map_eq_none_iff, ih, scan_cons h]

/-- A list behind one that is read to its end. -/
theorem scan_append {n : M} (h : scan step m xs = some n) :
    scan step m (xs ++ ys) = scan step n ys := by
  induction xs generalizing m with
  | nil => rw [Option.some.inj h, List.nil_append]
  | cons a xs ih =>
    obtain ⟨m', hs, later⟩ := scan_cons_eq_some.mp h
    rw [List.cons_append, scan_cons hs, ih later]

theorem firstStop_append_of_scan {n : M} (h : scan step m xs = some n) :
    firstStop step m (xs ++ ys) = (firstStop step n ys).map (· + xs.length) := by
  induction xs generalizing m with
  | nil =>
    rw [Option.some.inj h]
    exact Option.map_id'.symm
  | cons a xs ih =>
    obtain ⟨m', hs, later⟩ := scan_cons_eq_some.mp h
    rw [List.cons_append, firstStop_cons hs, ih later, Option.map_map]
    rfl

theorem firstStop_lt (h : firstStop step m xs = some i) : i < xs.length := by
  induction xs generalizing m i with
  | nil => cases h
  | cons a xs ih =>
    cases hs : step m a with
    | none =>
      rw [firstStop_cons_of_stop hs] at h
      cases h
      exact Nat.zero_lt_succ _
    | some m' =>
      rw [firstStop_cons hs, Option.map_eq_some_iff] at h
      obtain ⟨j, hj, rfl⟩ := h
      exact Nat.succ_lt_succ (ih hj)

/-- What comes after the stop does not move it. -/
theorem firstStop_append (h : firstStop step m xs = some i) :
    firstStop step m (xs ++ ys) = some i := by
  induction xs generalizing m i with
  | nil => cases h
  | cons a xs ih =>
    cases hs : step m a with
    | none =>
      rw [firstStop_cons_of_stop hs] at h
      rw [List.cons_append, firstStop_cons_of_stop hs, h]
    | some m' =>
      rw [firstStop_cons hs, Option.map_eq_some_iff] at h
      obtain ⟨j, hj, rfl⟩ := h
      rw [List.cons_append, firstStop_cons hs, ih hj, Option.map_some]

/-- A stop within the first list is one of the first list. -/
theorem firstStop_of_append (h : firstStop step m (xs ++ ys) = some i) (hi : i < xs.length) :
    firstStop step m xs = some i := by
  induction xs generalizing m i with
  | nil => cases hi
  | cons a xs ih =>
    cases hs : step m a with
    | none =>
      rw [List.cons_append, firstStop_cons_of_stop hs] at h
      rw [firstStop_cons_of_stop hs, h]
    | some m' =>
      rw [List.cons_append, firstStop_cons hs, Option.map_eq_some_iff] at h
      obtain ⟨j, hj, rfl⟩ := h
      rw [firstStop_cons hs, ih hj (Nat.lt_of_succ_lt_succ hi), Option.map_some]

/-- Where it stops: it read everything before, and the next symbol stops it. -/
theorem firstStop_eq_some (h : firstStop step m xs = some i) :
    ∃ n a, scan step m (xs.take i) = some n ∧ xs[i]? = some a ∧ step n a = none := by
  induction xs generalizing m i with
  | nil => cases h
  | cons a xs ih =>
    cases hs : step m a with
    | none =>
      rw [firstStop_cons_of_stop hs] at h
      cases h
      exact ⟨m, a, rfl, rfl, hs⟩
    | some m' =>
      rw [firstStop_cons hs, Option.map_eq_some_iff] at h
      obtain ⟨j, hj, rfl⟩ := h
      obtain ⟨n, b, read, hb, stop⟩ := ih hj
      refine ⟨n, b, ?_, hb, stop⟩
      rw [List.take_succ_cons, scan_cons hs, read]

end FakeSSH.Lib
