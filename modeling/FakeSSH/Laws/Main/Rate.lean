import FakeSSH.Main.Rate

/-!
# What `AllowN` does to its limiters

All or nothing: it succeeds when no bucket is short, and has then booked from
each; otherwise every bucket that it booked from has the tokens it would have had
without the call. Neither changes a bucket's rate or burst.
-/

namespace FakeSSH.Main

open FakeSSH.Go FakeSSH.Lib

variable {now n c t : ℚ} {ls : RateLimiter} {taken : List (Bucket ℚ × Booking ℚ)}

/-- A bucket booked from and given back at the same moment. -/
def settled (now n : ℚ) (l : Bucket ℚ) : Bucket ℚ :=
  (l.reserve now n).2.cancel (l.reserve now n).1 now

theorem cancel_unless_refused (l : Bucket ℚ) (x : Booking ℚ) :
    (if x.ok then l.cancel x t else l) = l.cancel x t := by
  cases h : x.ok with
  | true => rfl
  | false => simp [Bucket.cancel, h]

theorem allowLoop_nil :
    allowLoop now n taken [] =
      ({ reservations := taken.map (·.2), ok := true }, taken.map (·.1)) := rfl

theorem allowLoop_short {l : Bucket ℚ} (h : l.Short now n) :
    allowLoop now n taken (l :: ls) =
      ({ ok := false }, taken.map (fun x => x.1.cancel x.2 now) ++ settled now n l :: ls) := by
  have refused :
      (!(l.reserve now n).1.ok || decide (0 < (l.reserve now n).1.delayFrom now)) = true := by
    simpa using Bucket.refused_iff.mpr h
  rw [allowLoop]
  simp only [refused, if_true, cancel_unless_refused]
  rfl

theorem allowLoop_pass {l : Bucket ℚ} (h : ¬ l.Short now n) :
    allowLoop now n taken (l :: ls) =
      allowLoop now n (taken ++ [((l.reserve now n).2, (l.reserve now n).1)]) ls := by
  have passed :
      (!(l.reserve now n).1.ok || decide (0 < (l.reserve now n).1.delayFrom now)) = false := by
    simpa using Bucket.refused_iff.not.mpr h
  rw [allowLoop]
  simp only [passed, Bool.false_eq_true, if_false]

/-- The loop fails exactly at a bucket that is short. -/
theorem allowLoop_ok_iff : (allowLoop now n taken ls).1.ok = true ↔ ∀ l ∈ ls, ¬ l.Short now n := by
  induction ls generalizing taken with
  | nil => simp [allowLoop_nil]
  | cons l ls ih =>
    by_cases h : l.Short now n
    · simp [allowLoop_short h, h]
    · simp [allowLoop_pass h, ih, h]

/-- Where it succeeds it has booked from every bucket. -/
theorem allowLoop_of_ok (h : ∀ l ∈ ls, ¬ l.Short now n) :
    allowLoop now n taken ls =
      ({ reservations := taken.map (·.2) ++ ls.map fun l => (l.reserve now n).1, ok := true },
        taken.map (·.1) ++ ls.map fun l => (l.reserve now n).2) := by
  induction ls generalizing taken with
  | nil => simp [allowLoop_nil]
  | cons l ls ih =>
    obtain ⟨hl, hls⟩ := List.forall_mem_cons.mp h
    rw [allowLoop_pass hl, ih hls]
    simp

/-- Where it fails, it has settled the buckets up to the one that is short. -/
theorem allowLoop_of_short (h : ∃ l ∈ ls, l.Short now n) (taken : List (Bucket ℚ × Booking ℚ)) :
    ∃ asked rest, ls = asked ++ rest ∧ allowLoop now n taken ls = ({ ok := false },
      taken.map (fun x => x.1.cancel x.2 now) ++ asked.map (settled now n) ++ rest) := by
  induction ls generalizing taken with
  | nil => simp at h
  | cons l ls ih =>
    by_cases hl : l.Short now n
    · refine ⟨[l], ls, rfl, ?_⟩
      rw [allowLoop_short hl]
      simp
    · have later : ∃ l ∈ ls, l.Short now n := by simpa [hl] using h
      obtain ⟨asked, rest, rfl, heq⟩ :=
        ih later (taken ++ [((l.reserve now n).2, (l.reserve now n).1)])
      refine ⟨l :: asked, rest, rfl, ?_⟩
      rw [allowLoop_pass hl, heq]
      simp [settled]

/-! ## New limiters -/

theorem newRateLimiter_fresh : ∀ {cs : List RateLimitConfig} {rl : RateLimiter},
    newRateLimiter cs = some rl → ∀ l ∈ rl, ∃ rate burst, l = .fresh rate burst
  | [], rl, h, l, hl => by
    cases h
    cases hl
  | conf :: cs, rl, h, l, hl => by
    obtain ⟨first, hfirst, h⟩ := Option.bind_eq_some_iff.mp (List.mapM_cons.symm.trans h)
    obtain ⟨others, hothers, h⟩ := Option.bind_eq_some_iff.mp h
    cases h
    rcases List.mem_cons.mp hl with rfl | hl
    · unfold newLimiter at hfirst
      split at hfirst <;> cases hfirst
      exact ⟨_, _, rfl⟩
    · exact newRateLimiter_fresh hothers l hl

/-! ## `AllowN` -/

theorem allowN_ok_iff : (allowN ls now n).1.ok = true ↔ ∀ l ∈ ls, ¬ l.Short now n :=
  allowLoop_ok_iff

theorem allowN_of_ok (h : ∀ l ∈ ls, ¬ l.Short now n) :
    allowN ls now n = ({ reservations := ls.map fun l => (l.reserve now n).1, ok := true },
      ls.map fun l => (l.reserve now n).2) :=
  allowLoop_of_ok h

theorem allowN_of_short (h : ∃ l ∈ ls, l.Short now n) : ∃ asked rest, ls = asked ++ rest ∧
    allowN ls now n = ({ ok := false }, asked.map (settled now n) ++ rest) :=
  allowLoop_of_short h []

/-- Every bucket comes out as it went in, booked from, or settled. -/
theorem allowN_forall {P : Bucket ℚ → Prop} (keep : ∀ l ∈ ls, P l)
    (book : ∀ l ∈ ls, P (l.reserve now n).2) (settle : ∀ l ∈ ls, P (settled now n l)) :
    ∀ l ∈ (allowN ls now n).2, P l := by
  by_cases h : ∀ l ∈ ls, ¬ l.Short now n
  · rw [allowN_of_ok h]
    simpa using book
  · push Not at h
    obtain ⟨asked, rest, rfl, heq⟩ := allowN_of_short h
    rw [heq]
    intro l hl
    rcases List.mem_append.mp hl with hl | hl
    · obtain ⟨x, hx, rfl⟩ := List.mem_map.mp hl
      exact settle x (List.mem_append_left _ hx)
    · exact keep l (List.mem_append_right _ hl)

/-- A rejection costs the limiters asked no tokens. -/
theorem tokensAt_allowN_of_short (h0 : 0 < n) (hl : ∀ l ∈ ls, l.last ≤ now)
    (h : ∃ l ∈ ls, l.Short now n) (ht : now ≤ t) :
    (allowN ls now n).2.map (·.tokensAt t) = ls.map (·.tokensAt t) := by
  obtain ⟨asked, rest, rfl, heq⟩ := allowN_of_short h
  rw [heq, List.map_append, List.map_append, List.map_map]
  congr 1
  apply List.map_congr_left
  intro l hmem
  exact Bucket.tokensAt_cancel_reserve h0 (hl l (List.mem_append_left _ hmem)) ht

/-! ## `AllowPerIP` and `Allow` -/

section Calls

variable {L : SSHRateLimiter} {ip : Bytes} {t₁ t₂ t₃ : ℚ}

/-- The limiter of an address is a stored one or a new one. -/
theorem limiterFor_cases {rl : RateLimiter} (h : L.limiterFor ip = some rl) :
    L.peripRls.lookup ip = some rl ∨ newRateLimiter L.peripConfs = some rl := by
  unfold SSHRateLimiter.limiterFor at h
  split at h
  next stored =>
    cases h
    exact .inl stored
  next => exact .inr h

theorem allowPerIP_of_none (h : L.hasPerIP = false) :
    L.allowPerIP ip t = some ({ ok := true }, L) := by
  simp [SSHRateLimiter.allowPerIP, h]

theorem allowPerIP_of_perIP (h : L.hasPerIP = true) :
    L.allowPerIP ip t = (L.limiterFor ip).map fun rl =>
      ((allowN rl t 1).1, { L with peripRls := L.peripRls.insert ip (allowN rl t 1).2 }) := by
  simp [SSHRateLimiter.allowPerIP, h]

/-- Without per-address limits, or where the global limiter rejects, `Allow` is
the global limiter. -/
theorem allow_global (h : (allowN L.globalRl t₁ 1).1.ok = false ∨ L.hasPerIP = false) :
    L.allow ip t₁ t₂ t₃ =
      some ((allowN L.globalRl t₁ 1).1, { L with globalRl := (allowN L.globalRl t₁ 1).2 }) := by
  have stop : ((allowN L.globalRl t₁ 1).1.ok && L.hasPerIP) = false := by
    rcases h with h | h <;> simp [h]
  exact if_neg (ne_true_of_eq_false stop)

/-- Otherwise the address's limiter decides. -/
theorem allow_perIP (hg : (allowN L.globalRl t₁ 1).1.ok = true) (hp : L.hasPerIP = true) :
    L.allow ip t₁ t₂ t₃ = (L.limiterFor ip).map fun rl =>
      if (allowN rl t₂ 1).1.ok then
        ((allowN L.globalRl t₁ 1).1.merge (allowN rl t₂ 1).1,
          { L with
            globalRl := (allowN L.globalRl t₁ 1).2
            peripRls := L.peripRls.insert ip (allowN rl t₂ 1).2 })
      else ({ ok := false },
        { L with
          globalRl := cancelAt t₃ (allowN L.globalRl t₁ 1).2 (allowN L.globalRl t₁ 1).1.reservations
          peripRls := L.peripRls.insert ip (allowN rl t₂ 1).2 }) := by
  have go : ((allowN L.globalRl t₁ 1).1.ok && L.hasPerIP) = true := by rw [hg, hp]; rfl
  refine (if_pos go).trans ?_
  rw [allowPerIP_of_perIP (by exact hp), Option.map_map]
  rfl

end Calls

/-! ## `CleanEmpty` -/

section Clean

variable (clock : Nat → ℚ) (ip : Bytes)

variable {clock} in
/-- A limiter found full has a full bucket at one reading for each bucket. -/
theorem allFull_true {k reads : Nat} (h : allFull clock k ls = (true, reads)) :
    ∀ l ∈ ls, ∃ j, ¬ l.tokensAt (clock j) < l.burst := by
  induction ls generalizing k with
  | nil => nofun
  | cons l ls ih =>
    unfold allFull at h
    split at h
    · cases h
    · rename_i full
      exact List.forall_mem_cons.mpr ⟨⟨k, full⟩, ih h⟩

/-- An address keeps its limiter, or loses one that was found full. -/
def KeptOrFull (clock : Nat → ℚ) (ip : Bytes) (before after : Map RateLimiter) : Prop :=
  after.lookup ip = before.lookup ip ∨
    (after.lookup ip = none ∧ ∃ rl, before.lookup ip = some rl ∧
      ∀ l ∈ rl, ∃ j, ¬ l.tokensAt (clock j) < l.burst)

theorem cleanEntry_keptOrFull (st : CleanState) (visited : Bytes) :
    KeptOrFull clock ip st.peripRls (cleanEntry clock st visited).peripRls := by
  unfold cleanEntry
  split
  · exact .inl rfl
  · rename_i rl hrl
    split
    · rename_i reads hfull
      by_cases h : ip = visited
      · subst h
        exact .inr ⟨AList.lookup_erase _ _, rl, hrl, allFull_true hfull⟩
      · exact .inl (AList.lookup_erase_ne h)
    · exact .inl rfl

theorem foldl_cleanEntry_keptOrFull (order : List Bytes) (st : CleanState) :
    KeptOrFull clock ip st.peripRls (order.foldl (cleanEntry clock) st).peripRls := by
  induction order generalizing st with
  | nil => exact .inl rfl
  | cons visited order ih =>
    rcases ih (cleanEntry clock st visited) with same | ⟨gone, rl, hrl, full⟩ <;>
      rcases cleanEntry_keptOrFull clock ip st visited with first | ⟨first, rest⟩
    · exact .inl (same.trans first)
    · exact .inr ⟨same.trans first, rest⟩
    · exact .inr ⟨gone, rl, first ▸ hrl, full⟩
    · exact nomatch first.symm.trans hrl

theorem cleanEmpty_keptOrFull (L : SSHRateLimiter) (order : List Bytes) :
    KeptOrFull clock ip L.peripRls (L.cleanEmpty clock order).2.peripRls :=
  foldl_cleanEntry_keptOrFull clock ip order { peripRls := L.peripRls }

end Clean

end FakeSSH.Main
