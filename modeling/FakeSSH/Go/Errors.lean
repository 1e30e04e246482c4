import Mathlib.Data.List.Forall2

/-!
# Peeling a computation that may fail

Fallible functions return `Except`. A success of a sequence is a success of
each part; the rules below take it apart without unfolding the parts.
-/

namespace FakeSSH.Go

variable {ε α β : Type}

theorem bind_eq_ok {x : Except ε α} {f : α → Except ε β} {b : β} :
    (x >>= f) = .ok b ↔ ∃ a, x = .ok a ∧ f a = .ok b := by
  cases x with
  | error e => exact ⟨nofun, fun ⟨_, h, _⟩ => nomatch h⟩
  | ok a => exact ⟨fun h => ⟨a, rfl, h⟩, fun ⟨_, ha, h⟩ => by cases ha; exact h⟩

theorem map_eq_ok {x : Except ε α} {f : α → β} {b : β} :
    x.map f = .ok b ↔ ∃ a, x = .ok a ∧ f a = b := by
  cases x with
  | error e => exact ⟨nofun, fun ⟨_, h, _⟩ => nomatch h⟩
  | ok a => exact ⟨fun h => ⟨a, rfl, Except.ok.inj h⟩, fun ⟨_, ha, h⟩ => by cases ha; rw [← h]; rfl⟩

theorem mapError_eq_ok {δ : Type} {x : Except ε α} {f : ε → δ} {a : α} :
    x.mapError f = .ok a ↔ x = .ok a := by
  cases x with
  | error e => simp [Except.mapError]
  | ok b => simp [Except.mapError]

/-- A check that was passed. -/
theorem check_eq_ok {c : Prop} [Decidable c] {e : ε} {x : Except ε α} {a : α} :
    (if c then .error e else x) = .ok a ↔ ¬ c ∧ x = .ok a := by
  by_cases h : c
  · rw [if_pos h]
    exact ⟨nofun, fun passed => absurd h passed.1⟩
  · rw [if_neg h]
    exact ⟨fun hx => ⟨h, hx⟩, fun passed => passed.2⟩

/-- The same, with the error in the other branch. -/
theorem guard_eq_ok {c : Prop} [Decidable c] {e : ε} {x : Except ε α} {a : α} :
    (if c then x else .error e) = .ok a ↔ c ∧ x = .ok a := by
  rw [← ite_not, check_eq_ok, not_not]

/-- A loop that maps succeeds where it succeeds at each element. -/
theorem mapM_eq_ok {f : α → Except ε β} {l : List α} {bs : List β} :
    l.mapM f = .ok bs ↔ List.Forall₂ (fun a b => f a = .ok b) l bs := by
  induction l generalizing bs with
  | nil =>
    rw [List.mapM_nil, List.forall₂_nil_left_iff]
    exact ⟨fun h => by cases h; rfl, fun h => h ▸ rfl⟩
  | cons a l ih =>
    rw [List.mapM_cons, bind_eq_ok, List.forall₂_cons_left_iff]
    constructor
    · rintro ⟨b, hb, rest⟩
      obtain ⟨bs', hbs, done⟩ := bind_eq_ok.mp rest
      cases done
      exact ⟨b, bs', hb, ih.mp hbs, rfl⟩
    · rintro ⟨b, bs', hb, hbs, rfl⟩
      exact ⟨b, hb, bind_eq_ok.mpr ⟨bs', ih.mpr hbs, rfl⟩⟩

/-- A loop of checks succeeds where each check does. -/
theorem forM_eq_ok {f : α → Except ε Unit} {l : List α} :
    l.forM f = .ok () ↔ ∀ a ∈ l, f a = .ok () := by
  induction l with
  | nil => exact ⟨nofun, fun _ => rfl⟩
  | cons a l ih =>
    rw [List.forall_mem_cons, ← ih]
    exact bind_eq_ok.trans ⟨fun ⟨_, first, rest⟩ => ⟨first, rest⟩, fun h => ⟨(), h.1, h.2⟩⟩

/-- The error of a loop of checks is that of one check. -/
theorem forM_eq_error {f : α → Except ε Unit} {l : List α} {e : ε}
    (h : l.forM f = .error e) : ∃ a ∈ l, f a = .error e := by
  induction l with
  | nil => cases h
  | cons a l ih =>
    change (f a >>= fun _ => l.forM f) = _ at h
    cases hf : f a with
    | error e' =>
      rw [hf] at h
      cases h
      exact ⟨a, List.mem_cons_self, hf⟩
    | ok u =>
      rw [hf] at h
      obtain ⟨x, hx, hfx⟩ := ih h
      exact ⟨x, List.mem_cons_of_mem a hx, hfx⟩

theorem eq_error_of_not_ok {x : Except ε α} (h : ∀ a, x ≠ .ok a) : ∃ e, x = .error e := by
  cases x with
  | error e => exact ⟨e, rfl⟩
  | ok a => exact absurd rfl (h a)

/-! ## How a computation can fail -/

/-- The errors of a computation are such errors. -/
def FailsAs (P : ε → Prop) (x : Except ε α) : Prop := ∀ e, x = .error e → P e

variable {P : ε → Prop}

theorem failsAs_ok (a : α) : FailsAs P (.ok a) := by
  rintro e ⟨⟩

theorem failsAs_error {e : ε} (h : P e) : FailsAs P (.error e : Except ε α) := by
  rintro e ⟨⟩
  exact h

theorem FailsAs.bind {x : Except ε α} {f : α → Except ε β} (hx : FailsAs P x)
    (hf : ∀ a, x = .ok a → FailsAs P (f a)) : FailsAs P (x >>= f) := by
  cases x with
  | error e => exact failsAs_error (hx e rfl)
  | ok a => exact hf a rfl

theorem FailsAs.map {x : Except ε α} (hx : FailsAs P x) (f : α → β) : FailsAs P (x.map f) := by
  cases x with
  | error e => exact failsAs_error (hx e rfl)
  | ok a => exact failsAs_ok _

end FakeSSH.Go
