import FakeSSH.Lib.Transition
import FakeSSH.Laws.Main.Rate

/-!
# What a rejected connection costs

`AllowN` puts back what it booked at the reading of the clock it booked with, so
a rejection by the global limiter, or by an address's own, costs that limiter
nothing. `Allow` puts the global booking back with a new reading. The booking
came due when it was made, so any later reading finds it past and nothing is
restored (`Bucket.cancel_late`): the rejected connection has paid its global
token, unless the bucket fills again before the call is over.
`allow_refunds_iff` says exactly when.
-/

namespace FakeSSH.Main

open FakeSSH.Go FakeSSH.Lib Relation

variable {L L' : SSHRateLimiter} {ip : Bytes} {c c' t₁ t₂ t₃ : ℚ} {rsv : Reservation}

/-! ## Rejections -/

theorem merge_ok {r o : Reservation} (hr : r.ok = true) (ho : o.ok = true) :
    (r.merge o).ok = true := by
  simp [Reservation.merge, hr, ho]

theorem not_ok_iff_short {ls : RateLimiter} {now n : ℚ} :
    (allowN ls now n).1.ok = false ↔ ∃ l ∈ ls, l.Short now n := by
  rw [← Bool.not_eq_true, allowN_ok_iff]
  simp

/-- A call that is rejected was rejected by the global limiter, or passed it and
was rejected by the address's. -/
theorem allow_rejected (h : L.allow ip t₁ t₂ t₃ = some (rsv, L')) (rejected : rsv.ok = false) :
    ((∃ l ∈ L.globalRl, l.Short t₁ 1) ∧
      L' = { L with globalRl := (allowN L.globalRl t₁ 1).2 }) ∨
    ((∀ l ∈ L.globalRl, ¬ l.Short t₁ 1) ∧
      ∃ rl, L.limiterFor ip = some rl ∧ (∃ l ∈ rl, l.Short t₂ 1) ∧
        L' = { L with
          globalRl := cancelAt t₃ (allowN L.globalRl t₁ 1).2 (allowN L.globalRl t₁ 1).1.reservations
          peripRls := L.peripRls.insert ip (allowN rl t₂ 1).2 }) := by
  by_cases go : (allowN L.globalRl t₁ 1).1.ok = true ∧ L.hasPerIP = true
  · rw [allow_perIP go.1 go.2] at h
    obtain ⟨rl, hrl, h⟩ := Option.map_eq_some_iff.mp h
    split at h
    · rename_i hok
      cases h
      rw [merge_ok go.1 hok] at rejected
      cases rejected
    · rename_i hshort
      cases h
      refine .inr ⟨allowN_ok_iff.mp go.1, rl, hrl, ?_, rfl⟩
      exact not_ok_iff_short.mp (by simpa using hshort)
  · rw [allow_global (by simpa [← Bool.not_eq_true, ← not_and_or] using go)] at h
    cases h
    exact .inl ⟨not_ok_iff_short.mp rejected, rfl⟩

/-! ## Clocks -/

/-- No bucket of the limiter was changed after `c`. -/
def Before (c : ℚ) (rl : RateLimiter) : Prop := ∀ l ∈ rl, l.last ≤ c

theorem Before.later {rl : RateLimiter} (h : Before c rl) (hc : c ≤ c') : Before c' rl :=
  fun l hl => (h l hl).trans hc

theorem Before.allowN {rl : RateLimiter} {n : ℚ} (h : Before c rl) (hc : c ≤ c') :
    Before c' (allowN rl c' n).2 := by
  have booked (l : Bucket ℚ) (hl : l ∈ rl) : (l.reserve c' n).2.last ≤ c' :=
    Bucket.reserve_touched.last_le (h.later hc l hl)
  apply allowN_forall (h.later hc) booked
  intro l hl
  exact Bucket.cancel_touched.last_le (booked l hl)

theorem Before.cancelAt {rl : RateLimiter} (h : Before c rl) (xs : List (Booking ℚ)) :
    Before c (cancelAt c rl xs) := by
  induction rl generalizing xs with
  | nil => cases xs <;> exact h
  | cons l ls ih =>
    cases xs with
    | nil => exact h
    | cons x xs =>
      obtain ⟨hl, hls⟩ := List.forall_mem_cons.mp h
      exact List.forall_mem_cons.mpr ⟨Bucket.cancel_touched.last_le hl, ih hls xs⟩

/-- No bucket of the server's limiter was changed after `c`. -/
structure SettledBy (L : SSHRateLimiter) (c : ℚ) : Prop where
  origin : 0 ≤ c
  global : Before c L.globalRl
  perip : ∀ ip rl, L.peripRls.lookup ip = some rl → Before c rl

theorem SettledBy.limiterFor {rl : RateLimiter} (h : SettledBy L c)
    (hrl : L.limiterFor ip = some rl) : Before c rl := by
  rcases limiterFor_cases hrl with stored | made
  · exact h.perip ip rl stored
  · intro l hl
    obtain ⟨rate, burst, rfl⟩ := newRateLimiter_fresh made l hl
    exact h.origin

theorem SettledBy.later (h : SettledBy L c) (hc : c ≤ c') : SettledBy L c' :=
  ⟨h.origin.trans hc, h.global.later hc, fun ip rl hrl => (h.perip ip rl hrl).later hc⟩

/-- New limiters in place of the old ones, changed by `c'` at the latest. -/
theorem SettledBy.update {g rl : RateLimiter} (h : SettledBy L c) (hc : c ≤ c') (hg : Before c' g)
    (hrl : Before c' rl) :
    SettledBy { L with globalRl := g, peripRls := L.peripRls.insert ip rl } c' := by
  refine ⟨h.origin.trans hc, hg, ?_⟩
  intro ip' rl' hlookup
  by_cases hip : ip' = ip
  · subst hip
    cases (AList.lookup_insert _).symm.trans hlookup
    exact hrl
  · rw [AList.lookup_insert_ne hip] at hlookup
    exact (h.perip ip' rl' hlookup).later hc

theorem SettledBy.allowPerIP (h : SettledBy L c) (hc : c ≤ c')
    (call : L.allowPerIP ip c' = some (rsv, L')) : SettledBy L' c' := by
  cases hp : L.hasPerIP with
  | false =>
    rw [allowPerIP_of_none hp] at call
    cases call
    exact h.later hc
  | true =>
    rw [allowPerIP_of_perIP hp] at call
    obtain ⟨rl, hrl, call⟩ := Option.map_eq_some_iff.mp call
    cases call
    exact h.update hc (h.global.later hc) ((h.limiterFor hrl).allowN hc)

theorem SettledBy.allow (h : SettledBy L c) (h₁ : c ≤ t₁) (h₂ : t₁ ≤ t₂) (h₃ : t₂ ≤ t₃)
    (call : L.allow ip t₁ t₂ t₃ = some (rsv, L')) : SettledBy L' t₃ := by
  have hg : Before t₃ (FakeSSH.Main.allowN L.globalRl t₁ 1).2 :=
    (h.global.allowN h₁).later (h₂.trans h₃)
  by_cases go : (FakeSSH.Main.allowN L.globalRl t₁ 1).1.ok = true ∧ L.hasPerIP = true
  · rw [allow_perIP go.1 go.2] at call
    obtain ⟨rl, hrl, call⟩ := Option.map_eq_some_iff.mp call
    have hrl' := ((h.limiterFor hrl).allowN (n := 1) (h₁.trans h₂)).later h₃
    split at call <;> cases call
    · exact h.update (h₁.trans (h₂.trans h₃)) hg hrl'
    · exact h.update (h₁.trans (h₂.trans h₃)) (hg.cancelAt _) hrl'
  · rw [allow_global (by simpa [← Bool.not_eq_true, ← not_and_or] using go)] at call
    cases call
    have later := h.later (h₁.trans (h₂.trans h₃))
    exact ⟨later.origin, hg, later.perip⟩

theorem SettledBy.cleanEmpty (h : SettledBy L c) (clock : Nat → ℚ) (order : List Bytes) :
    SettledBy (L.cleanEmpty clock order).2 c := by
  refine ⟨h.origin, h.global, ?_⟩
  intro ip rl hrl
  apply h.perip ip rl
  rcases cleanEmpty_keptOrFull clock ip L order with same | ⟨gone, -⟩
  · exact same ▸ hrl
  · exact nomatch gone.symm.trans hrl

theorem SettledBy.step {s s' : SSHRateLimiter × ℚ} (h : SettledBy s.1 s.2) (step : RateStep s s') :
    SettledBy s'.1 s'.2 := by
  obtain ⟨call, answer, within, made⟩ := step
  cases call with
  | allow ip t₁ t₂ t₃ =>
    obtain ⟨h₁, h₂, h₃, hend⟩ := within
    obtain ⟨⟨rsv, L'⟩, hcall, heq⟩ := Option.map_eq_some_iff.mp made
    cases heq
    exact (h.allow h₁ h₂ h₃ hcall).later hend
  | allowPerIP ip t =>
    obtain ⟨⟨rsv, L'⟩, hcall, heq⟩ := Option.map_eq_some_iff.mp made
    cases heq
    exact (h.allowPerIP within.1 hcall).later within.2
  | cleanEmpty clock order =>
    obtain ⟨-, heq⟩ := Prod.mk.inj (Option.some.inj made)
    rw [← heq]
    exact (h.cleanEmpty clock order).later ((within 0).1.trans (within 0).2)

theorem settledBy_of_run {global perip : List RateLimitConfig} {L₀ : SSHRateLimiter}
    (new : newSSHRateLimiter global perip = some L₀)
    (run : ReflTransGen RateStep (L₀, 0) (L, c)) : SettledBy L c := by
  have start : SettledBy L₀ 0 := by
    obtain ⟨rl, hrl, hnew⟩ := Option.bind_eq_some_iff.mp new
    cases hnew
    refine ⟨le_rfl, ?_, ?_⟩
    · intro l hl
      obtain ⟨rate, burst, rfl⟩ := newRateLimiter_fresh hrl l hl
      exact le_rfl
    · intro ip rl hlookup
      simp at hlookup
  have keeps : ∀ s s', SettledBy s.1 s.2 → RateStep s s' → SettledBy s'.1 s'.2 := by
    intro s s' inv step
    exact inv.step step
  exact invariant_of_steps keeps start run

/-! ## The refund -/

/-- Every limiter has the same tokens in `L'` as in `L` at every moment from `c` on. -/
def SameTokens (c : ℚ) (L L' : SSHRateLimiter) : Prop :=
  ∀ t, c ≤ t → L'.globalRl.map (·.tokensAt t) = L.globalRl.map (·.tokensAt t) ∧
    ∀ ip, (L'.limiterFor ip).map (List.map (·.tokensAt t)) =
      (L.limiterFor ip).map (List.map (·.tokensAt t))

/-- The global limiter rejects by itself; or the clock has not moved between the
booking and its cancellation; or every global bucket is full again by then. -/
def Refunded (L : SSHRateLimiter) (t₁ t₃ : ℚ) : Prop :=
  (∃ l ∈ L.globalRl, l.Short t₁ 1) ∨ t₃ = t₁ ∨
    ∀ l ∈ L.globalRl, ∀ r, l.rate = some r → l.burst ≤ l.tokensAt t₁ - 1 + r.val * (t₃ - t₁)

/-- A rejection by the address's limiter leaves it its tokens. -/
theorem limiterFor_insert_rejected {rl g : RateLimiter} {t : ℚ} (h : SettledBy L c)
    (hc : c ≤ t₂) (hrl : L.limiterFor ip = some rl) (short : ∃ l ∈ rl, l.Short t₂ 1) (ht : t₂ ≤ t)
    (ip' : Bytes) :
    (SSHRateLimiter.limiterFor { L with
        globalRl := g, peripRls := L.peripRls.insert ip (allowN rl t₂ 1).2 } ip').map
      (List.map (·.tokensAt t)) = (L.limiterFor ip').map (List.map (·.tokensAt t)) := by
  by_cases hip : ip' = ip
  · subst hip
    have same := tokensAt_allowN_of_short one_pos ((h.limiterFor hrl).later hc) short ht
    rw [hrl, SSHRateLimiter.limiterFor, AList.lookup_insert]
    exact congrArg some same
  · simp only [SSHRateLimiter.limiterFor, AList.lookup_insert_ne hip]

/-- Cancelling at the moment of the booking settles every bucket. -/
theorem cancelAt_now {ls : RateLimiter} {t n : ℚ} :
    cancelAt t (ls.map fun l => (l.reserve t n).2) (ls.map fun l => (l.reserve t n).1) =
      ls.map (settled t n) := by
  induction ls with
  | nil => rfl
  | cons l ls ih => simp only [List.map_cons, cancelAt, ih, settled]

/-- Cancelling later changes nothing: the bookings came due when they were made. -/
theorem cancelAt_later {ls : RateLimiter} {t t' n : ℚ} (enough : ∀ l ∈ ls, ¬ l.Short t n)
    (h : t < t') :
    cancelAt t' (ls.map fun l => (l.reserve t n).2) (ls.map fun l => (l.reserve t n).1) =
      ls.map fun l => (l.reserve t n).2 := by
  induction ls with
  | nil => rfl
  | cons l ls ih =>
    obtain ⟨hl, hls⟩ := List.forall_mem_cons.mp enough
    have due : ¬ 0 < (l.reserve t n).1.delayFrom t := by
      intro late
      exact hl (Bucket.refused_iff.mp (.inr late))
    rw [Bucket.delayFrom_pos_iff, not_lt] at due
    simp only [List.map_cons, cancelAt, ih hls, Bucket.cancel_late (due.trans_lt h)]

/-- THE COST OF A REJECTION. In every state that calls can reach, and for every
non-decreasing readings of the clock, a call of `Allow` that is rejected leaves
every limiter the tokens it would have had without the call exactly where the
global limiter rejected it, or the clock stood still between the global booking
and its cancellation, or every global bucket was full again by then. -/
theorem allow_refunds_iff {global perip : List RateLimitConfig} {L₀ : SSHRateLimiter}
    (new : newSSHRateLimiter global perip = some L₀)
    (run : ReflTransGen RateStep (L₀, 0) (L, c)) (h₁ : c ≤ t₁) (h₂ : t₁ ≤ t₂) (h₃ : t₂ ≤ t₃)
    (call : L.allow ip t₁ t₂ t₃ = some (rsv, L')) (rejected : rsv.ok = false) :
    SameTokens t₃ L L' ↔ Refunded L t₁ t₃ := by
  have settledBy := settledBy_of_run new run
  have hl := settledBy.global.later h₁
  rcases allow_rejected call rejected with ⟨short, rfl⟩ | ⟨enough, rl, hrl, short, rfl⟩
  · refine iff_of_true (fun t ht => ⟨?_, fun ip' => rfl⟩) (.inl short)
    exact tokensAt_allowN_of_short one_pos hl short ((h₂.trans h₃).trans ht)
  · have perIP : ∀ t, t₃ ≤ t → ∀ ip', _ := fun t ht =>
      limiterFor_insert_rejected (g := cancelAt t₃ (allowN L.globalRl t₁ 1).2
        (allowN L.globalRl t₁ 1).1.reservations) settledBy (h₁.trans h₂) hrl short (h₃.trans ht)
    have notShort : ¬ ∃ l ∈ L.globalRl, l.Short t₁ 1 := by
      rintro ⟨l, hmem, hs⟩
      exact enough l hmem hs
    have passed := h₂.trans h₃
    unfold SameTokens Refunded
    rw [or_iff_right notShort, allowN_of_ok enough]
    rcases passed.eq_or_lt with rfl | later
    · -- the clock stood still
      refine iff_of_true (fun t ht => ⟨?_, perIP t ht⟩) (.inl rfl)
      rw [cancelAt_now, List.map_map]
      exact List.map_congr_left fun l hmem =>
        Bucket.tokensAt_cancel_reserve one_pos (hl l hmem) ht
    · rw [or_iff_right later.ne', cancelAt_later enough later]
      simp only [List.map_map, List.map_inj_left, Function.comp_apply]
      constructor
      · intro same l hmem
        exact (Bucket.tokensAt_reserve_eq_iff one_pos (hl l hmem) (enough l hmem) passed).mp
          fun t ht => (same t ht).1 l hmem
      · intro full t ht
        refine ⟨?_, perIP t ht⟩
        intro l hmem
        exact (Bucket.tokensAt_reserve_eq_iff one_pos (hl l hmem) (enough l hmem) passed).mpr
          (full l hmem) t ht

/-- Three connections in two seconds from everywhere, one a second from an address. -/
def threeInTwoSeconds : List RateLimitConfig := [⟨2000000000, 3⟩]

def oneASecond : List RateLimitConfig := [⟨1000000000, 1⟩]

def address : Bytes := str "192.0.2.1"

/-- An address connects and, a nanosecond later, again. The second connection is
rejected, and the clock moves once more before the global booking is cancelled. -/
theorem second_rejected : ∃ L₀ L L' rsv,
    newSSHRateLimiter threeInTwoSeconds oneASecond = some L₀ ∧
      ReflTransGen RateStep (L₀, 0) (L, 1) ∧ L.allow address 2 2 3 = some (rsv, L') ∧
      rsv.ok = false ∧ L'.globalRl.map (·.tokensAt 3) ≠ L.globalRl.map (·.tokensAt 3) := by
  have calls : ((newSSHRateLimiter threeInTwoSeconds oneASecond).bind fun L₀ =>
      (L₀.allow address 1 1 1).bind fun first =>
        (first.2.allow address 2 2 3).map fun second =>
          (second.1.ok, decide (second.2.globalRl.map (·.tokensAt 3) =
            first.2.globalRl.map (·.tokensAt 3)))) = some (false, false) := by
    decide +kernel
  obtain ⟨L₀, new, calls⟩ := Option.bind_eq_some_iff.mp calls
  obtain ⟨⟨rsv₁, L⟩, first, calls⟩ := Option.bind_eq_some_iff.mp calls
  obtain ⟨⟨rsv₂, L'⟩, second, results⟩ := Option.map_eq_some_iff.mp calls
  obtain ⟨rejected, differ⟩ := Prod.mk.inj results
  refine ⟨L₀, L, L', rsv₂, new, .single ?_, second, rejected, of_decide_eq_false differ⟩
  refine ⟨.allow address 1 1 1, some rsv₁.ok, by norm_num [RateCall.Within], ?_⟩
  simp only [SSHRateLimiter.make, first, Option.map_some]

/-- The rejected connection has taken a global token. -/
theorem allow_costs_global_token : ∃ L₀ L L' rsv,
    checkRateLimits (threeInTwoSeconds.map some) = .ok () ∧
      checkRateLimits (oneASecond.map some) = .ok () ∧
      newSSHRateLimiter threeInTwoSeconds oneASecond = some L₀ ∧
      ReflTransGen RateStep (L₀, 0) (L, 1) ∧ L.allow address 2 2 3 = some (rsv, L') ∧
      rsv.ok = false ∧ ¬ SameTokens 3 L L' := by
  obtain ⟨L₀, L, L', rsv, new, run, call, rejected, differ⟩ := second_rejected
  exact ⟨L₀, L, L', rsv, rfl, rfl, new, run, call, rejected,
    fun same => differ (same 3 le_rfl).1⟩

theorem allow_refunds_iff_second : ∃ L₀ L L' rsv,
    newSSHRateLimiter threeInTwoSeconds oneASecond = some L₀ ∧
      L.allow address 2 2 3 = some (rsv, L') ∧ rsv.ok = false ∧
      (SameTokens 3 L L' ↔ Refunded L 2 3) := by
  obtain ⟨L₀, L, L', rsv, new, run, call, rejected, -⟩ := second_rejected
  exact ⟨L₀, L, L', rsv, new, call, rejected,
    allow_refunds_iff new run (by norm_num) le_rfl (by norm_num) call rejected⟩

end FakeSSH.Main
