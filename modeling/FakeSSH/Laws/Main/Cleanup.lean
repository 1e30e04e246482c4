import FakeSSH.Laws.Main.Rate
import Mathlib.Data.Option.Defs

/-!
# Cleaning up cannot be observed

`CleanEmpty` drops an address's limiter when all its buckets are full, and the
next connection from there gets a new one. A full bucket and a new one have the
same tokens from then on, whatever the readings of the clock, and what a limiter
answers depends on nothing else (`allowN_same`). So the run that cleans is
simulated by the one that keeps every limiter (`Forgets`), call by call.
-/

namespace FakeSSH.Main

open FakeSSH.Go FakeSSH.Lib

variable {L L' : SSHRateLimiter} {ip : Bytes} {c c' t now n : ℚ} {ls ls' : RateLimiter}

/-! ## Limiters with the same future -/

abbrev SameLimiter (c : ℚ) : RateLimiter → RateLimiter → Prop := List.Forall₂ (Bucket.SameFrom c)

theorem SameLimiter.later (h : SameLimiter c ls ls') (hc : c ≤ c') : SameLimiter c' ls ls' :=
  h.imp fun _ _ same => same.later hc

theorem SameLimiter.trans {ls'' : RateLimiter} (h : SameLimiter c ls ls')
    (h' : SameLimiter c ls' ls'') : SameLimiter c ls ls'' := by
  induction h generalizing ls'' with
  | nil =>
    cases h'
    exact .nil
  | cons hl _ ih =>
    cases h' with
    | cons hl' hls' => exact .cons (hl.trans hl') (ih hls')

theorem short_iff {b b' : Bucket ℚ} (h : b.SameFrom c b') (hc : c ≤ now) :
    b'.Short now n ↔ b.Short now n := by
  unfold Bucket.Short
  rw [h.rate, h.tokensAt now hc]

/-- Two buckets booked from alike, kept or given back. -/
structure SameTaken (now : ℚ) (x x' : Bucket ℚ × Booking ℚ) : Prop where
  booking : x'.2 = x.2
  kept : x.1.SameFrom now x'.1
  cancelled : (x.1.cancel x.2 now).SameFrom now (x'.1.cancel x'.2 now)

/-- The loop of `AllowN` sees of a limiter only its future. -/
theorem allowLoop_same {taken taken' : List (Bucket ℚ × Booking ℚ)}
    (ht : List.Forall₂ (SameTaken now) taken taken') (h : SameLimiter c ls ls') (hc : c ≤ now) :
    (allowLoop now n taken' ls').1 = (allowLoop now n taken ls).1 ∧
      SameLimiter now (allowLoop now n taken ls).2 (allowLoop now n taken' ls').2 := by
  induction h generalizing taken taken' with
  | nil =>
    refine ⟨?_, List.forall₂_map_left_iff.mpr (List.forall₂_map_right_iff.mpr ?_)⟩
    · have bookings : taken'.map (·.2) = taken.map (·.2) := by
        induction ht with
        | nil => rfl
        | cons hx _ ih => simp [hx.booking, ih]
      simp only [allowLoop_nil, bookings]
    · exact ht.imp fun _ _ same => same.kept
  | @cons l l' ls ls' hl hls ih =>
    by_cases hshort : l.Short now n
    · rw [allowLoop_short hshort, allowLoop_short ((short_iff hl hc).mpr hshort)]
      refine ⟨rfl, List.rel_append ?_ (.cons (hl.cancelled hc now) (SameLimiter.later hls hc))⟩
      exact List.forall₂_map_left_iff.mpr
        (List.forall₂_map_right_iff.mpr (ht.imp fun _ _ same => same.cancelled))
    · rw [allowLoop_pass hshort, allowLoop_pass ((short_iff hl hc).not.mpr hshort)]
      exact ih (List.rel_append ht
        (.cons ⟨hl.booking hc, hl.booked hc, hl.cancelled hc now⟩ .nil))

theorem allowN_same (h : SameLimiter c ls ls') (hc : c ≤ now) :
    (allowN ls' now n).1 = (allowN ls now n).1 ∧
      SameLimiter now (allowN ls now n).2 (allowN ls' now n).2 :=
  allowLoop_same .nil h hc

/-! ## New limiters for old -/

/-- The bucket that `NewRateLimiter` made. -/
def renew (b : Bucket ℚ) : Bucket ℚ := .fresh b.rate b.burst

theorem newRateLimiter_renew {cs : List RateLimitConfig} (h : newRateLimiter cs = some ls) :
    ls.map renew = ls := by
  conv_rhs => rw [← List.map_id ls]
  apply List.map_congr_left
  intro l hl
  obtain ⟨rate, burst, rfl⟩ := newRateLimiter_fresh h l hl
  rfl

theorem allowN_renew : (allowN ls now n).2.map renew = ls.map renew := by
  have touched {b b' : Bucket ℚ} (h : b.Touched now b') : renew b' = renew b := by
    rw [renew, renew, h.rate, h.burst]
  have booked (l : Bucket ℚ) : renew (l.reserve now n).2 = renew l :=
    touched Bucket.reserve_touched
  have back (l : Bucket ℚ) : renew (settled now n l) = renew l :=
    (touched Bucket.cancel_touched).trans (booked l)
  by_cases h : ∀ l ∈ ls, ¬ l.Short now n
  · rw [allowN_of_ok h]
    simp [booked]
  · push Not at h
    obtain ⟨asked, rest, rfl, heq⟩ := allowN_of_short h
    rw [heq]
    simp [back]

/-- A limiter found full has the future of a new one. -/
theorem sameLimiter_renew {clock : Nat → ℚ} (hclock : ∀ k, clock k ≤ c')
    (full : ∀ l ∈ ls, ∃ k, ¬ l.tokensAt (clock k) < l.burst) :
    SameLimiter c' ls (ls.map renew) := by
  apply List.forall₂_map_right_iff.mpr
  apply List.forall₂_same.mpr
  intro l hl
  obtain ⟨k, hk⟩ := full l hl
  exact (Bucket.SameFrom.fresh hk).later (hclock k)

/-! ## The simulation -/

/-- `L'` is `L` but for limiters that it has forgotten, which were full. -/
structure Forgets (c : ℚ) (L L' : SSHRateLimiter) : Prop where
  confs : L'.peripConfs = L.peripConfs
  global : L'.globalRl = L.globalRl
  made : ∀ ip rl, L'.peripRls.lookup ip = some rl →
    newRateLimiter L'.peripConfs = some (rl.map renew)
  same : ∀ ip, Option.Rel (SameLimiter c) (L.limiterFor ip) (L'.limiterFor ip)

theorem rel_cases {α β : Type} {R : α → β → Prop} {x : Option α} {y : Option β}
    (h : Option.Rel R x y) :
    (x = none ∧ y = none) ∨ ∃ a b, x = some a ∧ y = some b ∧ R a b := by
  cases h with
  | some h => exact .inr ⟨_, _, rfl, rfl, h⟩
  | none => exact .inl ⟨rfl, rfl⟩

theorem Forgets.later (h : Forgets c L L') (hc : c ≤ c') : Forgets c' L L' := by
  refine ⟨h.confs, h.global, h.made, ?_⟩
  intro ip
  rcases rel_cases (h.same ip) with ⟨hL, hL'⟩ | ⟨rl, rl', hL, hL', same⟩ <;> rw [hL, hL']
  · exact .none
  · exact .some (SameLimiter.later same hc)

/-- Any limiter that `L'` uses is one that `NewRateLimiter` made. -/
theorem Forgets.limiterFor_made {rl : RateLimiter} (h : Forgets c L L')
    (hrl : L'.limiterFor ip = some rl) : newRateLimiter L'.peripConfs = some (rl.map renew) := by
  rcases limiterFor_cases hrl with stored | made
  · exact h.made ip rl stored
  · rw [made, newRateLimiter_renew made]

theorem Forgets.cleanEmpty {clock : Nat → ℚ} (h : Forgets c L L')
    (hclock : ∀ k, c ≤ clock k ∧ clock k ≤ c') (order : List Bytes) :
    Forgets c' L (L'.cleanEmpty clock order).2 := by
  have later := h.later ((hclock 0).1.trans (hclock 0).2)
  refine ⟨h.confs, h.global, ?_, ?_⟩
  · intro ip rl hrl
    rcases cleanEmpty_keptOrFull clock ip L' order with same | ⟨gone, -⟩
    · exact h.made ip rl (same ▸ hrl)
    · exact nomatch gone.symm.trans hrl
  · intro ip
    rcases cleanEmpty_keptOrFull clock ip L' order with same | ⟨gone, rl, hrl, full⟩
    · have unchanged : (L'.cleanEmpty clock order).2.limiterFor ip = L'.limiterFor ip := by
        simp only [SSHRateLimiter.limiterFor, same]
        rfl
      rw [unchanged]
      exact later.same ip
    · -- the address is given a new limiter where `L` still has the full one
      have stored : L'.limiterFor ip = some rl := by rw [SSHRateLimiter.limiterFor, hrl]
      have renewed : (L'.cleanEmpty clock order).2.limiterFor ip = some (rl.map renew) := by
        rw [SSHRateLimiter.limiterFor, gone]
        exact h.made ip rl hrl
      rcases rel_cases (later.same ip) with ⟨-, hL'⟩ | ⟨rl₀, rl', hL, hL', same⟩
      · exact nomatch stored.symm.trans hL'
      · cases stored.symm.trans hL'
        rw [hL, renewed]
        exact .some (SameLimiter.trans same (sameLimiter_renew (fun k => (hclock k).2) full))

/-- Both give an address limiters with the same future. -/
theorem Forgets.update {g rl rl' : RateLimiter} (h : Forgets c L L') (hrl : SameLimiter c rl rl')
    (made : newRateLimiter L'.peripConfs = some (rl'.map renew)) :
    Forgets c { L with globalRl := g, peripRls := L.peripRls.insert ip rl }
      { L' with globalRl := g, peripRls := L'.peripRls.insert ip rl' } := by
  refine ⟨h.confs, rfl, ?_, ?_⟩
  · intro ip' rl'' hlookup
    by_cases hip : ip' = ip
    · subst hip
      cases (AList.lookup_insert _).symm.trans hlookup
      exact made
    · rw [AList.lookup_insert_ne hip] at hlookup
      exact h.made ip' rl'' hlookup
  · intro ip'
    by_cases hip : ip' = ip
    · subst hip
      simp only [SSHRateLimiter.limiterFor, AList.lookup_insert]
      exact .some hrl
    · simp only [SSHRateLimiter.limiterFor, AList.lookup_insert_ne hip]
      exact h.same ip'

/-- The results of a call on the one and on the other. -/
abbrev SameResult {α : Type} (c : ℚ) : Option (α × SSHRateLimiter) → Option (α × SSHRateLimiter) →
    Prop :=
  Option.Rel fun x x' => x'.1 = x.1 ∧ Forgets c x.2 x'.2

theorem Forgets.hasPerIP (h : Forgets c L L') : L'.hasPerIP = L.hasPerIP := by
  rw [SSHRateLimiter.hasPerIP, SSHRateLimiter.hasPerIP, h.confs]

theorem Forgets.allowPerIP (h : Forgets c L L') (hc : c ≤ t) :
    SameResult t (L.allowPerIP ip t) (L'.allowPerIP ip t) := by
  cases hp : L.hasPerIP with
  | false =>
    rw [allowPerIP_of_none hp, allowPerIP_of_none (h.hasPerIP.trans hp)]
    exact .some ⟨rfl, h.later hc⟩
  | true =>
    rw [allowPerIP_of_perIP hp, allowPerIP_of_perIP (h.hasPerIP.trans hp), h.global]
    rcases rel_cases (h.same ip) with ⟨hL, hL'⟩ | ⟨rl, rl', hL, hL', same⟩ <;> rw [hL, hL']
    · exact .none
    · obtain ⟨answer, limiters⟩ := allowN_same (n := 1) same hc
      refine .some ⟨answer, (h.later hc).update limiters ?_⟩
      rw [h.limiterFor_made hL', allowN_renew]

theorem Forgets.allow {t₁ t₂ t₃ : ℚ} (h : Forgets c L L') (h₁ : c ≤ t₁) (h₂ : t₁ ≤ t₂)
    (h₃ : t₂ ≤ t₃) : SameResult t₃ (L.allow ip t₁ t₂ t₃) (L'.allow ip t₁ t₂ t₃) := by
  have later := h.later (h₁.trans (h₂.trans h₃))
  by_cases go : (allowN L.globalRl t₁ 1).1.ok = true ∧ L.hasPerIP = true
  · rw [allow_perIP go.1 go.2, allow_perIP (by rw [h.global]; exact go.1) (h.hasPerIP.trans go.2)]
    rcases rel_cases (h.same ip) with ⟨hL, hL'⟩ | ⟨rl, rl', hL, hL', same⟩ <;> rw [hL, hL']
    · exact .none
    · obtain ⟨answer, limiters⟩ := allowN_same (n := 1) same (h₁.trans h₂)
      have made : newRateLimiter L'.peripConfs = some ((allowN rl' t₂ 1).2.map renew) := by
        rw [h.limiterFor_made hL', allowN_renew]
      simp only [Option.map_some, answer, h.global]
      split
      · exact .some ⟨rfl, later.update (SameLimiter.later limiters h₃) made⟩
      · exact .some ⟨rfl, later.update (SameLimiter.later limiters h₃) made⟩
  · have stop := not_and_or.mp go
    rw [Bool.not_eq_true, Bool.not_eq_true] at stop
    rw [allow_global stop, allow_global (by rw [h.global, h.hasPerIP]; exact stop)]
    exact .some ⟨by rw [h.global], later.confs, by rw [h.global], later.made, later.same⟩

/-! ## Whole runs -/

/-- The calls that are answered: all but `CleanEmpty`. -/
def RateCall.isAnswered : RateCall → Bool
  | .cleanEmpty _ _ => false
  | _ => true

theorem SameResult.make {x x' : Option (Reservation × SSHRateLimiter)} (h : SameResult c x x')
    (hc : c ≤ c') : SameResult c' (x.map fun (rsv, L) => (some rsv.ok, L))
      (x'.map fun (rsv, L) => (some rsv.ok, L)) := by
  cases h with
  | none => exact .none
  | some h => exact .some ⟨congrArg (fun r : Reservation => some r.ok) h.1, h.2.later hc⟩

theorem Forgets.make {call : RateCall} (h : Forgets c L L') (within : call.Within c c')
    (answered : call.isAnswered = true) : SameResult c' (L.make call) (L'.make call) := by
  cases call with
  | allow ip t₁ t₂ t₃ =>
    obtain ⟨h₁, h₂, h₃, hend⟩ := within
    exact SameResult.make (h.allow h₁ h₂ h₃) hend
  | allowPerIP ip t => exact SameResult.make (h.allowPerIP within.1) within.2
  | cleanEmpty clock order => cases answered

/-- The run that cleans answers as the run that does not. -/
theorem Forgets.outcomes {calls : List RateCall} (h : Forgets c L L') (timed : Timed c calls) :
    L'.outcomes calls = L.outcomes (calls.filter RateCall.isAnswered) := by
  induction calls generalizing c L L' with
  | nil => rfl
  | cons call calls ih =>
    obtain ⟨c', within, timed⟩ := timed
    cases ha : call.isAnswered with
    | false =>
      cases call with
      | cleanEmpty clock order =>
        rw [List.filter_cons_of_neg (by simp [RateCall.isAnswered])]
        exact ih (h.cleanEmpty within order) timed
      | _ => cases ha
    | true =>
      rw [List.filter_cons_of_pos ha]
      unfold SSHRateLimiter.outcomes
      rcases rel_cases (h.make within ha) with ⟨hL, hL'⟩ | ⟨⟨ok, L₁⟩, ⟨ok', L₁'⟩, hL, hL', same⟩
      · rw [hL, hL']
      · obtain ⟨rfl, forgets⟩ := same
        rw [hL, hL']
        cases ok' <;> simp only [ih forgets timed]

/-- CLEANUP IS UNOBSERVABLE. For every configuration, the calls of `AllowPerIP`
and `Allow` in a timed sequence have the same outcomes as without the calls of
`CleanEmpty` between them. -/
theorem cleanEmpty_unobservable {global perip : List RateLimitConfig} {calls : List RateCall}
    (new : newSSHRateLimiter global perip = some L) (timed : Timed c calls) :
    L.outcomes calls = L.outcomes (calls.filter RateCall.isAnswered) := by
  refine Forgets.outcomes (c := c) ⟨rfl, rfl, ?_, ?_⟩ timed
  · intro ip rl hrl
    obtain ⟨rl', -, hnew⟩ := Option.bind_eq_some_iff.mp new
    cases hnew
    simp at hrl
  · intro ip
    cases L.limiterFor ip with
    | none => exact .none
    | some rl => exact .some (List.forall₂_same.mpr fun l _ => .refl c l)

/-- Two connections from an address, three seconds apart, with a cleanup between
them that drops its limiter. -/
def cleanedBetween : List RateCall :=
  [.allowPerIP (str "a") 1, .cleanEmpty (fun _ => 2000000000) [str "a"],
    .allowPerIP (str "a") 3000000000]

theorem cleanedBetween_timed : Timed 0 cleanedBetween :=
  ⟨1, by norm_num [RateCall.Within], 2000000000, by norm_num [RateCall.Within], 3000000000,
    by norm_num [RateCall.Within], trivial⟩

theorem cleanEmpty_unobservable_between : ∃ L,
    newSSHRateLimiter [] [⟨1000000000, 1⟩] = some L ∧
      L.outcomes cleanedBetween = L.outcomes (cleanedBetween.filter RateCall.isAnswered) := by
  obtain ⟨L, new⟩ : ∃ L, newSSHRateLimiter [] [⟨1000000000, 1⟩] = some L := ⟨_, rfl⟩
  exact ⟨L, new, cleanEmpty_unobservable new cleanedBetween_timed⟩

end FakeSSH.Main
