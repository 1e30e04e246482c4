import Mathlib.Data.List.Basic

/-!
# Computations whose states are watched

A computation changes a state, and answers or fails. `Watched` keeps the states that
it passed through, so that what holds at every moment of it can be stated, of a run
that fails as of one that answers. `Holds` is the triple: from a state with the
precondition, every state passed through satisfies the invariant, and the last one
the postcondition for an answer or the one for a failure. The rules follow the ways
in which computations are built.
-/

namespace FakeSSH.Lib

variable {σ ε α β : Type}

/-- What came of a computation: the states after its changes, the last state, and the
answer. -/
structure Outcome (σ ε α : Type) where
  passed : List σ
  state : σ
  result : Except ε α

def Watched (σ ε α : Type) := σ → Outcome σ ε α

namespace Watched

def pure (a : α) : Watched σ ε α := fun s => ⟨[], s, .ok a⟩

def bind (x : Watched σ ε α) (f : α → Watched σ ε β) : Watched σ ε β := fun s =>
  let first := x s
  match first.result with
  | .error e => ⟨first.passed, first.state, .error e⟩
  | .ok a =>
    let second := f a first.state
    ⟨first.passed ++ second.passed, second.state, second.result⟩

instance : Monad (Watched σ ε) where
  pure := pure
  bind := bind

def fail (e : ε) : Watched σ ε α := fun s => ⟨[], s, .error e⟩

def read : Watched σ ε σ := fun s => ⟨[], s, .ok s⟩

/-- A change of the state, which is seen. -/
def change (f : σ → σ) : Watched σ ε Unit := fun s => ⟨[f s], f s, .ok ()⟩

/-- What needs no state. -/
def lift (x : Except ε α) : Watched σ ε α := fun s => ⟨[], s, x⟩

/-- The same computation with its errors told in other words. -/
def mapError {δ : Type} (f : ε → δ) (x : Watched σ ε α) : Watched σ δ α := fun s =>
  ⟨(x s).passed, (x s).state, (x s).result.mapError f⟩

/-- The triple. -/
def Holds (I P : σ → Prop) (x : Watched σ ε α) (Q : α → σ → Prop) (E : σ → Prop) : Prop :=
  ∀ s, P s → (∀ m ∈ (x s).passed, I m) ∧
    (∀ a, (x s).result = .ok a → Q a (x s).state) ∧
    ∀ e, (x s).result = .error e → E (x s).state

variable {I P P' : σ → Prop} {Q : α → σ → Prop} {R : β → σ → Prop} {E : σ → Prop}

theorem Holds.pure {a : α} (h : ∀ s, P s → Q a s) :
    Holds I P (Pure.pure a : Watched σ ε α) Q E := by
  intro s hs
  refine ⟨nofun, ?_, nofun⟩
  rintro _ ⟨⟩
  exact h s hs

theorem Holds.fail {e : ε} (h : ∀ s, P s → E s) : Holds I P (Watched.fail e : Watched σ ε α) Q E := by
  intro s hs
  exact ⟨nofun, nofun, fun _ _ => h s hs⟩

theorem Holds.lift {x : Except ε α} (ok : ∀ s a, P s → x = .ok a → Q a s)
    (error : ∀ s, P s → E s) : Holds I P (Watched.lift x) Q E := by
  intro s hs
  exact ⟨nofun, fun a ha => ok s a hs ha, fun _ _ => error s hs⟩

theorem bind_of_error {x : Watched σ ε α} {f : α → Watched σ ε β} {s : σ} {e : ε}
    (h : (x s).result = .error e) : (x >>= f) s = ⟨(x s).passed, (x s).state, .error e⟩ := by
  show Watched.bind x f s = _
  simp only [Watched.bind, h]

theorem bind_of_ok {x : Watched σ ε α} {f : α → Watched σ ε β} {s : σ} {a : α}
    (h : (x s).result = .ok a) : (x >>= f) s =
      ⟨(x s).passed ++ (f a (x s).state).passed, (f a (x s).state).state,
        (f a (x s).state).result⟩ := by
  show Watched.bind x f s = _
  simp only [Watched.bind, h]

/-- What comes second is asked about the answers of the first only. -/
theorem bind_congr {x : Watched σ ε α} {f g : α → Watched σ ε β}
    (same : ∀ s a, (x s).result = .ok a → f a = g a) : x >>= f = x >>= g := by
  funext s
  cases hx : (x s).result with
  | error e => rw [bind_of_error hx, bind_of_error hx]
  | ok a => rw [bind_of_ok hx, bind_of_ok hx, same s a hx]

/-- One after the other. -/
theorem Holds.bind {x : Watched σ ε α} {f : α → Watched σ ε β} (first : Holds I P x Q E)
    (second : ∀ a, Holds I (Q a) (f a) R E) : Holds I P (x >>= f) R E := by
  intro s hs
  obtain ⟨passed, ok, error⟩ := first s hs
  cases hx : (x s).result with
  | error e =>
    rw [bind_of_error hx]
    exact ⟨passed, nofun, fun _ _ => error e hx⟩
  | ok a =>
    obtain ⟨passed', ok', error'⟩ := second a (x s).state (ok a hx)
    rw [bind_of_ok hx]
    refine ⟨?_, ok', error'⟩
    intro m hm
    rcases List.mem_append.mp hm with hm | hm
    · exact passed m hm
    · exact passed' m hm

/-- A computation that starts by reading the state. -/
theorem Holds.bind_read {f : σ → Watched σ ε β}
    (h : ∀ before, Holds I (fun s => s = before ∧ P s) (f before) R E) :
    Holds I P (Watched.read >>= f) R E := by
  intro s hs
  rw [bind_of_ok (s := s) rfl]
  exact h s s ⟨rfl, hs⟩

/-- A computation that starts with a change. -/
theorem Holds.bind_change {g : σ → σ} {f : Unit → Watched σ ε β} (seen : ∀ s, P s → I (g s))
    (h : Holds I (fun s => ∃ before, P before ∧ s = g before) (f ()) R E) :
    Holds I P (Watched.change g >>= f) R E := by
  intro s hs
  obtain ⟨passed, post⟩ := h (g s) ⟨s, hs, rfl⟩
  rw [bind_of_ok (s := s) rfl]
  refine ⟨?_, post⟩
  intro m hm
  rcases List.mem_cons.mp hm with rfl | hm
  · exact seen s hs
  · exact passed m hm

/-- A change alone. -/
theorem Holds.change {g : σ → σ} {Q : Unit → σ → Prop} (seen : ∀ s, P s → I (g s))
    (post : ∀ s, P s → Q () (g s)) : Holds I P (Watched.change g : Watched σ ε Unit) Q E := by
  intro s hs
  refine ⟨?_, fun _ _ => post s hs, nofun⟩
  intro m hm
  rw [List.mem_singleton.mp hm]
  exact seen s hs

/-- A stronger precondition will do. -/
theorem Holds.pre {x : Watched σ ε α} (h : Holds I P x Q E) (weaker : ∀ s, P' s → P s) :
    Holds I P' x Q E :=
  fun s hs => h s (weaker s hs)

/-- A weaker postcondition will do. -/
theorem Holds.post {Q' : α → σ → Prop} {x : Watched σ ε α} (h : Holds I P x Q E)
    (stronger : ∀ a s, Q a s → Q' a s) : Holds I P x Q' E := by
  intro s hs
  obtain ⟨passed, ok, error⟩ := h s hs
  exact ⟨passed, fun a ha => stronger a _ (ok a ha), error⟩

/-- Less may be asked of the states passed through, and of those after a failure. -/
theorem Holds.weaken {I' E' : σ → Prop} {x : Watched σ ε α} (h : Holds I P x Q E)
    (seen : ∀ s, I s → I' s) (failed : ∀ s, E s → E' s) : Holds I' P x Q E' := by
  intro s hs
  obtain ⟨passed, ok, error⟩ := h s hs
  exact ⟨fun m hm => seen m (passed m hm), ok, fun e he => failed _ (error e he)⟩

/-- What is known of the answers by themselves may be added. -/
theorem Holds.answers {R : α → Prop} {x : Watched σ ε α} (h : Holds I P x Q E)
    (only : ∀ s a, (x s).result = .ok a → R a) : Holds I P x (fun a s => Q a s ∧ R a) E := by
  intro s hs
  obtain ⟨passed, ok, error⟩ := h s hs
  exact ⟨passed, fun a ha => ⟨ok a ha, only s a ha⟩, error⟩

/-- A triple without states says what the answers are like. -/
theorem Holds.answer {R : α → Prop} {x : Watched σ ε α}
    (h : Holds (fun _ => True) (fun _ => True) x (fun a _ => R a) fun _ => True) (s : σ) (a : α)
    (ok : (x s).result = .ok a) : R a :=
  (h s trivial).2.1 a ok

theorem holds_true (x : Watched σ ε α) :
    Holds (fun _ => True) (fun _ => True) x (fun _ _ => True) fun _ => True :=
  fun _ _ => ⟨fun _ _ => trivial, fun _ _ => trivial, fun _ _ => trivial⟩

theorem Holds.mapError {δ : Type} {x : Watched σ ε α} (h : Holds I P x Q E) (f : ε → δ) :
    Holds I P (x.mapError f) Q E := by
  intro s hs
  obtain ⟨passed, ok, error⟩ := h s hs
  refine ⟨passed, ?_, ?_⟩
  · intro a ha
    cases hx : (x s).result with
    | error e =>
      rw [Watched.mapError, hx] at ha
      cases ha
    | ok b =>
      rw [Watched.mapError, hx] at ha
      cases ha
      exact ok _ hx
  · intro e he
    cases hx : (x s).result with
    | error e' => exact error e' hx
    | ok b =>
      rw [Watched.mapError, hx] at he
      cases he

theorem Holds.ite {c : Prop} [Decidable c] {x y : Watched σ ε α} (yes : c → Holds I P x Q E)
    (no : ¬ c → Holds I P y Q E) : Holds I P (if c then x else y) Q E := by
  split
  · exact yes ‹_›
  · exact no ‹_›

end Watched

end FakeSSH.Lib
