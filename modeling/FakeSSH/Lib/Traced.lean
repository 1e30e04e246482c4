import Mathlib.Data.List.Infix
import Mathlib.Logic.Relation

/-!
# Computations that talk to their surroundings

A computation asks its surroundings and is told answers; the record of what was asked and
answered is its trace. An answer may depend on everything in the trace so far and on nothing
else, so a statement about every way of answering is one about all surroundings, with a memory
or not.

`Leads` says what a computation comes to from a trace: what holds of its result and the trace
then, and what holds of its error and the trace where it fails. Its rules, one for each way of
building a computation, are equivalences, so that they can be used to run a computation
symbolically.

`Asks` says what the events are that a computation adds to the trace. It holds of what is built
from parts of which it holds.
-/

namespace FakeSSH.Lib

open Relation

variable {ε ι α β : Type}

/-- A computation with errors `ε` and events `ι`. -/
def Traced (ε ι α : Type) : Type := List ι → Except ε α × List ι

namespace Traced

/-- An event, with the answer of the surroundings to it. -/
def ask (answer : List ι → β) (event : β → ι) : Traced ε ι β :=
  fun t => (.ok (answer t), t ++ [event (answer t)])

def fail (e : ε) : Traced ε ι α := fun t => (.error e, t)

instance : Monad (Traced ε ι) where
  pure a := fun t => (.ok a, t)
  bind x f := fun t =>
    match x t with
    | (.ok a, t) => f a t
    | (.error e, t) => (.error e, t)

/-- What holds at the end of a computation. -/
def Ends (post : α → List ι → Prop) (bad : ε → List ι → Prop) : Except ε α × List ι → Prop
  | (.ok a, t) => post a t
  | (.error e, t) => bad e t

/-- What a computation comes to from a trace. -/
def Leads (x : Traced ε ι α) (t : List ι) (post : α → List ι → Prop)
    (bad : ε → List ι → Prop) : Prop :=
  Ends post bad (x t)

variable {t : List ι} {post : α → List ι → Prop} {bad : ε → List ι → Prop}

@[simp] theorem leads_pure {a : α} : (pure a : Traced ε ι α).Leads t post bad ↔ post a t := Iff.rfl

@[simp] theorem leads_fail {e : ε} : (fail e : Traced ε ι α).Leads t post bad ↔ bad e t := Iff.rfl

@[simp] theorem leads_ask {answer : List ι → α} {event : α → ι} :
    (ask answer event : Traced ε ι α).Leads t post bad ↔
      post (answer t) (t ++ [event (answer t)]) := Iff.rfl

@[simp] theorem leads_bind {x : Traced ε ι β} {f : β → Traced ε ι α} :
    (x >>= f).Leads t post bad ↔ x.Leads t (fun b t' => (f b).Leads t' post bad) bad := by
  change Ends post bad ((x >>= f) t) ↔ Ends _ bad (x t)
  have run : (x >>= f) t = match x t with
    | (.ok a, t) => f a t
    | (.error e, t) => (.error e, t) := rfl
  rw [run]
  obtain ⟨a | b, t'⟩ := x t
  · exact Iff.rfl
  · exact Iff.rfl

/-- What follows from what a computation comes to, it comes to as well. -/
theorem Leads.mono {x : Traced ε ι α} {post' : α → List ι → Prop} {bad' : ε → List ι → Prop}
    (h : x.Leads t post bad) (hp : ∀ a t', post a t' → post' a t')
    (hb : ∀ e t', bad e t' → bad' e t') : x.Leads t post' bad' := by
  unfold Leads at h ⊢
  revert h
  obtain ⟨a | b, t'⟩ := x t
  · exact hb a t'
  · exact hp b t'

/-- From what the first part comes to, what the whole comes to. -/
theorem Leads.bind {x : Traced ε ι β} {f : β → Traced ε ι α} {mid : β → List ι → Prop}
    {bad' : ε → List ι → Prop} (hx : x.Leads t mid bad')
    (hf : ∀ b t', mid b t' → (f b).Leads t' post bad) (hb : ∀ e t', bad' e t' → bad e t') :
    (x >>= f).Leads t post bad :=
  leads_bind.mpr (hx.mono hf hb)

/-- What a computation that succeeded came to. -/
theorem Leads.ok {x : Traced ε ι α} (h : x.Leads t post bad) {a : α} {t' : List ι}
    (run : x t = (.ok a, t')) : post a t' := by
  unfold Leads at h
  rwa [run] at h

/-- What holds of the trace whether a computation succeeds or fails. -/
theorem Leads.anyway {x : Traced ε ι α} {P : List ι → Prop}
    (h : x.Leads t (fun _ => P) (fun _ => P)) : P (x t).2 := by
  unfold Leads at h
  revert h
  obtain ⟨a | b, t'⟩ := x t
  · exact id
  · exact id

/-- A run that was evaluated, as far as something of its result is concerned. -/
theorem exists_ok {x : Traced ε ι α} {f : α → β} {b : β}
    (h : (x t).1.toOption.map f = some b) : ∃ a t', x t = (.ok a, t') ∧ f a = b := by
  revert h
  obtain ⟨e | a, t'⟩ := x t
  · exact fun never => by cases never
  · exact fun same => ⟨a, t', rfl, Option.some.inj same⟩

/-! ## What a computation asks -/

/-- A trace grows by events of which something is known where they are added. -/
def Grows (gives : List ι → ι → Prop) : List ι → List ι → Prop :=
  ReflTransGen fun t t' => ∃ e, gives t e ∧ t' = t ++ [e]

/-- A computation adds such events only, whatever comes of it. -/
def Asks (gives : List ι → ι → Prop) (x : Traced ε ι α) : Prop :=
  ∀ t, x.Leads t (fun _ => Grows gives t) (fun _ => Grows gives t)

variable {gives : List ι → ι → Prop}

theorem Grows.isPrefix {t t' : List ι} (h : Grows gives t t') : t <+: t' := by
  induction h with
  | refl => exact List.prefix_rfl
  | tail _ step ih =>
    obtain ⟨e, -, rfl⟩ := step
    exact ih.trans (List.prefix_append _ _)

/-- An event that was added was given at its place. -/
theorem Grows.mem {t t' : List ι} (h : Grows gives t t') {e : ι} (he : e ∈ t') :
    e ∈ t ∨ ∃ before, before ++ [e] <+: t' ∧ gives before e := by
  induction h with
  | refl => exact .inl he
  | @tail t₁ t₂ _ step ih =>
    obtain ⟨e', given, rfl⟩ := step
    rcases List.mem_append.mp he with earlier | last
    · rcases ih earlier with old | ⟨before, sooner, given'⟩
      · exact .inl old
      · exact .inr ⟨before, sooner.trans (List.prefix_append _ _), given'⟩
    · cases List.mem_singleton.mp last
      exact .inr ⟨t₁, List.prefix_rfl, given⟩

theorem asks_pure (a : α) : Asks gives (pure a : Traced ε ι α) := fun _ => .refl

theorem asks_fail (e : ε) : Asks gives (fail e : Traced ε ι α) := fun _ => .refl

theorem asks_ask {answer : List ι → β} {event : β → ι} (h : ∀ t, gives t (event (answer t))) :
    Asks gives (ask answer event : Traced ε ι β) :=
  fun t => .single ⟨_, h t, rfl⟩

theorem Asks.bind {x : Traced ε ι β} {f : β → Traced ε ι α} (hx : Asks gives x)
    (hf : ∀ b, Asks gives (f b)) : Asks gives (x >>= f) := by
  intro t
  apply (hx t).bind _ fun _ _ => id
  intro b t' grown
  exact (hf b t').mono (fun _ _ => grown.trans) fun _ _ => grown.trans

theorem Asks.mono {gives' : List ι → ι → Prop} {x : Traced ε ι α} (hx : Asks gives x)
    (h : ∀ t e, gives t e → gives' t e) : Asks gives' x := by
  have grows {t t' : List ι} (grown : Grows gives t t') : Grows gives' t t' := by
    refine ReflTransGen.mono ?_ t t' grown
    rintro t t' ⟨e, given, eq⟩
    exact ⟨e, h t e given, eq⟩
  intro t
  exact (hx t).mono (fun _ _ => grows) fun _ _ => grows

end Traced

end FakeSSH.Lib
