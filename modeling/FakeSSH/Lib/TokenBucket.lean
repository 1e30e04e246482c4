import Mathlib.Algebra.Order.Field.Basic
import Mathlib.Tactic.Linarith
import Mathlib.Tactic.Ring

/-!
# Token buckets

A bucket fills at a constant rate up to its burst. A caller books tokens: they
leave the bucket at once, below zero if need be, and the booking says when the
caller may act. A booking that has not come due can be cancelled, which puts its
tokens back, less those that were booked after it.

Arithmetic is exact, over any ordered field. A bucket without a rate is never
short. Two rules carry the uses: a booking cancelled at once leaves no trace
(`tokensAt_cancel_reserve`), one cancelled after it came due leaves all of it
(`cancel_late`); and what a bucket does from a moment on is determined by the
tokens it will have (`SameFrom`), so a full bucket is a fresh one.
-/

namespace FakeSSH.Lib

variable {F : Type} [Field F] [LinearOrder F]

/-- A bucket as it was after its last change; `lastEvent` is when its latest
booking comes due. -/
structure Bucket (F : Type) [Zero F] [LT F] where
  rate : Option { r : F // 0 < r }
  burst : F
  tokens : F
  last : F
  lastEvent : F

structure Booking (F : Type) where
  ok : Bool
  tokens : F
  actAt : F

namespace Bucket

/-- A bucket that starts full. -/
def fresh (rate : Option { r : F // 0 < r }) (burst : F) : Bucket F :=
  { rate := rate, burst := burst, tokens := burst, last := 0, lastEvent := 0 }

/-- The tokens at a time. A time before the last change counts as that change. -/
def tokensAt (b : Bucket F) (t : F) : F :=
  match b.rate with
  | none => b.burst
  | some r => min b.burst (b.tokens + r.val * (t - min b.last t))

/-- Books `n` tokens at a time, unless that is more than the burst. -/
def reserve (b : Bucket F) (t n : F) : Booking F × Bucket F :=
  match b.rate with
  | none => (⟨true, n, t⟩, b)
  | some r =>
    let left := b.tokensAt t - n
    let actAt := t + if left < 0 then -left / r.val else 0
    if n ≤ b.burst then
      (⟨true, n, actAt⟩, { b with tokens := left, last := t, lastEvent := actAt })
    else (⟨false, 0, 0⟩, b)

/-- Puts back what can be put back of a booking at a time. -/
def cancel (b : Bucket F) (x : Booking F) (t : F) : Bucket F :=
  match x.ok, b.rate with
  | false, _ => b
  | true, none => b
  | true, some r =>
    if x.tokens = 0 ∨ x.actAt < t then b
    else
      let restored := x.tokens - r.val * (b.lastEvent - x.actAt)
      let previous := x.actAt - x.tokens / r.val
      if restored ≤ 0 then b
      else { b with
        tokens := min b.burst (b.tokensAt t + restored)
        last := t
        lastEvent := if x.actAt = b.lastEvent ∧ ¬ previous < t then previous else b.lastEvent }

end Bucket

/-- How long after a time the booking comes due. -/
def Booking.delayFrom (x : Booking F) (t : F) : F :=
  if x.actAt - t < 0 then 0 else x.actAt - t

namespace Bucket

variable {b b' : Bucket F} {t t' n c : F}

/-! ## The tokens over time -/

theorem tokensAt_none (h : b.rate = none) : b.tokensAt t = b.burst := by
  rw [tokensAt, h]

theorem tokensAt_some {r : { r : F // 0 < r }} (h : b.rate = some r) :
    b.tokensAt t = min b.burst (b.tokens + r.val * (t - min b.last t)) := by
  rw [tokensAt, h]

theorem tokensAt_le_burst : b.tokensAt t ≤ b.burst := by
  cases h : b.rate with
  | none => exact (tokensAt_none h).le
  | some r => exact (tokensAt_some h).trans_le (min_le_left _ _)

theorem tokensAt_fresh (rate : Option { r : F // 0 < r }) (burst : F) [IsStrictOrderedRing F] :
    (fresh rate burst).tokensAt t = burst := by
  cases rate with
  | none => rfl
  | some r =>
    have grown : 0 ≤ r.val * (t - min 0 t) :=
      mul_nonneg r.property.le (sub_nonneg.mpr (min_le_right _ _))
    exact min_eq_left (by simpa [fresh] using grown)

variable [IsStrictOrderedRing F]

theorem tokensAt_mono (h : t ≤ t') : b.tokensAt t ≤ b.tokensAt t' := by
  cases hr : b.rate with
  | none => rw [tokensAt_none hr, tokensAt_none hr]
  | some r =>
    rw [tokensAt_some hr, tokensAt_some hr]
    have elapsed : t - min b.last t ≤ t' - min b.last t' := by
      rcases le_total b.last t with hl | hl
      · rw [min_eq_left hl, min_eq_left (hl.trans h)]
        linarith
      · rw [min_eq_right hl, sub_self]
        exact sub_nonneg.mpr (min_le_right _ _)
    have grown := mul_le_mul_of_nonneg_left elapsed r.property.le
    exact min_le_min_left _ (by linarith)

/-- A full bucket stays full until something is booked. -/
theorem full_of_full (full : ¬ b.tokensAt t < b.burst) (h : t ≤ t') : b.tokensAt t' = b.burst :=
  le_antisymm tokensAt_le_burst ((not_lt.mp full).trans (tokensAt_mono h))

/-- From its tokens at one time, a bucket's tokens at a later one. -/
theorem tokensAt_later {r : { r : F // 0 < r }} (hr : b.rate = some r) (hl : b.last ≤ t)
    (h : t ≤ t') : b.tokensAt t' = min b.burst (b.tokensAt t + r.val * (t' - t)) := by
  rw [tokensAt_some hr, tokensAt_some hr, min_eq_left hl, min_eq_left (hl.trans h)]
  have grown : 0 ≤ r.val * (t' - t) := mul_nonneg r.property.le (sub_nonneg.mpr h)
  have split : r.val * (t' - b.last) = r.val * (t - b.last) + r.val * (t' - t) := by ring
  rw [split, ← add_assoc]
  rcases le_total b.burst (b.tokens + r.val * (t - b.last)) with hfull | hshort
  · rw [min_eq_left hfull, min_eq_left (by linarith), min_eq_left (by linarith)]
  · rw [min_eq_right hshort]

/-! ## Bookings -/

/-- When a booking made at a time comes due. -/
def due (b : Bucket F) (r t n : F) : F :=
  t + if b.tokensAt t - n < 0 then -(b.tokensAt t - n) / r else 0

omit [IsStrictOrderedRing F] in
theorem reserve_none (hr : b.rate = none) : b.reserve t n = (⟨true, n, t⟩, b) := by
  simp only [reserve, hr]

omit [IsStrictOrderedRing F] in
theorem reserve_some {r : { r : F // 0 < r }} (hr : b.rate = some r) (hn : n ≤ b.burst) :
    b.reserve t n = (⟨true, n, b.due r t n⟩,
      { b with tokens := b.tokensAt t - n, last := t, lastEvent := b.due r t n }) := by
  simp only [reserve, hr, if_pos hn, due]

omit [IsStrictOrderedRing F] in
theorem reserve_over {r : { r : F // 0 < r }} (hr : b.rate = some r) (hn : ¬ n ≤ b.burst) :
    b.reserve t n = (⟨false, 0, 0⟩, b) := by
  simp only [reserve, hr, if_neg hn]

/-- What a booking and its cancellation may do to a bucket at a time: nothing, or a
change of all but its rate and its burst that is stamped with the time. -/
inductive Touched (b : Bucket F) (t : F) : Bucket F → Prop
  | kept : Touched b t b
  | changed (tokens event : F) :
      Touched b t { b with tokens := tokens, last := t, lastEvent := event }

omit [IsStrictOrderedRing F] in
theorem reserve_touched : b.Touched t (b.reserve t n).2 := by
  unfold reserve
  split
  · exact .kept
  · dsimp only
    split
    · exact .changed _ _
    · exact .kept

omit [IsStrictOrderedRing F] in
theorem cancel_touched {x : Booking F} : b.Touched t (b.cancel x t) := by
  unfold cancel
  split
  · exact .kept
  · exact .kept
  · dsimp only
    split
    · exact .kept
    · split
      · exact .kept
      · exact .changed _ _

omit [IsStrictOrderedRing F] in
theorem Touched.rate (h : b.Touched t b') : b'.rate = b.rate := by
  cases h <;> rfl

omit [IsStrictOrderedRing F] in
theorem Touched.burst (h : b.Touched t b') : b'.burst = b.burst := by
  cases h <;> rfl

omit [IsStrictOrderedRing F] in
theorem Touched.last_le (h : b.Touched t b') (hl : b.last ≤ t) : b'.last ≤ t := by
  cases h with
  | kept => exact hl
  | changed => exact le_rfl

theorem le_due (r : { r : F // 0 < r }) : t ≤ b.due r t n := by
  unfold due
  split
  · rename_i short
    have wait : 0 ≤ -(b.tokensAt t - n) / r.val :=
      div_nonneg (neg_nonneg.mpr short.le) r.property.le
    linarith
  · rw [add_zero]

/-- A booking waits exactly where its bucket is short of it. -/
theorem due_gt_iff (r : { r : F // 0 < r }) : t < b.due r t n ↔ b.tokensAt t < n := by
  unfold due
  constructor
  · intro h
    by_contra enough
    rw [if_neg (by linarith), add_zero] at h
    exact lt_irrefl t h
  · intro short
    rw [if_pos (by linarith)]
    have wait : 0 < -(b.tokensAt t - n) / r.val := div_pos (by linarith) r.property
    linarith

/-- Whether a caller that will not wait is turned away: the bucket has a rate,
and less than the tokens asked for. -/
def Short (b : Bucket F) (t n : F) : Prop := b.rate ≠ none ∧ b.tokensAt t < n

theorem delayFrom_pos_iff {x : Booking F} : 0 < x.delayFrom t ↔ t < x.actAt := by
  unfold Booking.delayFrom
  split
  · rename_i past
    exact iff_of_false (lt_irrefl 0) (by linarith)
  · exact sub_pos

theorem refused_iff : ((b.reserve t n).1.ok = false ∨ 0 < (b.reserve t n).1.delayFrom t) ↔
    b.Short t n := by
  cases hr : b.rate with
  | none =>
    rw [reserve_none hr, delayFrom_pos_iff]
    simp [Short, hr]
  | some r =>
    by_cases hn : n ≤ b.burst
    · rw [reserve_some hr hn, delayFrom_pos_iff, due_gt_iff]
      simp [Short, hr]
    · rw [reserve_over hr hn]
      have short : b.tokensAt t < n := tokensAt_le_burst.trans_lt (not_le.mp hn)
      simp [Short, hr, short]

omit [IsStrictOrderedRing F] in
/-- A booking takes its tokens from every later moment. -/
theorem tokensAt_reserve {r : { r : F // 0 < r }} (hr : b.rate = some r) (hn : n ≤ b.burst)
    (h : t ≤ t') :
    (b.reserve t n).2.tokensAt t' = min b.burst (b.tokensAt t - n + r.val * (t' - t)) := by
  rw [reserve_some hr hn, tokensAt_some (by exact hr), min_eq_left h]

theorem tokensAt_reserve_now {r : { r : F // 0 < r }} (hr : b.rate = some r) (h0 : 0 < n)
    (hn : n ≤ b.burst) : (b.reserve t n).2.tokensAt t = b.tokensAt t - n := by
  rw [tokensAt_reserve hr hn le_rfl, sub_self, mul_zero, add_zero]
  exact min_eq_right ((sub_le_self _ h0.le).trans tokensAt_le_burst)

omit [IsStrictOrderedRing F] in
/-- A booking that has come due is not put back. -/
theorem cancel_late {x : Booking F} (h : x.actAt < t) : b.cancel x t = b := by
  unfold cancel
  split
  · rfl
  · rfl
  · exact if_pos (.inr h)

omit [IsStrictOrderedRing F] in
theorem cancel_none {x : Booking F} (hr : b.rate = none) : b.cancel x t = b := by
  unfold cancel
  rw [hr]
  cases x.ok <;> rfl

omit [IsStrictOrderedRing F] in
/-- The latest booking, not yet due, is put back whole. -/
theorem cancel_latest {r : { r : F // 0 < r }} {x : Booking F} (hr : b.rate = some r)
    (ok : x.ok = true) (h0 : 0 < x.tokens) (ht : t ≤ x.actAt) (hlast : b.lastEvent = x.actAt) :
    ∃ event, b.cancel x t =
      { b with tokens := min b.burst (b.tokensAt t + x.tokens), last := t, lastEvent := event } := by
  refine ⟨if x.actAt = b.lastEvent ∧ ¬ x.actAt - x.tokens / r.val < t then
    x.actAt - x.tokens / r.val else b.lastEvent, ?_⟩
  unfold cancel
  simp only [ok, hr, hlast, sub_self, mul_zero, sub_zero]
  rw [if_neg (not_or.mpr ⟨h0.ne', not_lt.mpr ht⟩), if_neg (not_le.mpr h0)]

/-- So a booking cancelled at once gives back exactly what it took. -/
theorem cancel_reserve {r : { r : F // 0 < r }} (hr : b.rate = some r) (h0 : 0 < n)
    (hn : n ≤ b.burst) : ∃ event, (b.reserve t n).2.cancel (b.reserve t n).1 t =
      { b with tokens := b.tokensAt t, last := t, lastEvent := event } := by
  have now := tokensAt_reserve_now (t := t) hr h0 hn
  rw [reserve_some hr hn] at now ⊢
  obtain ⟨event, heq⟩ := cancel_latest (b := { b with
    tokens := b.tokensAt t - n, last := t, lastEvent := b.due r t n })
    (x := ⟨true, n, b.due r t n⟩) hr rfl h0 (le_due r) rfl
  refine ⟨event, heq.trans ?_⟩
  simp only [now, sub_add_cancel, min_eq_right tokensAt_le_burst]

theorem tokensAt_cancel_reserve (h0 : 0 < n) (hl : b.last ≤ t) (h : t ≤ t') :
    ((b.reserve t n).2.cancel (b.reserve t n).1 t).tokensAt t' = b.tokensAt t' := by
  cases hr : b.rate with
  | none => rw [reserve_none hr, cancel_none hr]
  | some r =>
    by_cases hn : n ≤ b.burst
    · obtain ⟨event, heq⟩ := cancel_reserve (t := t) hr h0 hn
      rw [heq, tokensAt_later hr hl h, tokensAt_some (by exact hr), min_eq_left h]
    · rw [reserve_over hr hn]
      rfl

/-- A booking that is not put back goes unnoticed from a later moment on only
where the bucket is full again by then. -/
theorem tokensAt_reserve_eq_iff (h0 : 0 < n) (hl : b.last ≤ t) (enough : ¬ b.Short t n)
    (h : t ≤ t') : (∀ u, t' ≤ u → (b.reserve t n).2.tokensAt u = b.tokensAt u) ↔
      ∀ r, b.rate = some r → b.burst ≤ b.tokensAt t - n + r.val * (t' - t) := by
  cases hr : b.rate with
  | none => simp [reserve_none hr]
  | some r =>
    have hn : n ≤ b.burst := by
      refine le_trans (not_lt.mp ?_) (tokensAt_le_burst (b := b) (t := t))
      intro short
      apply enough
      exact ⟨by simp [hr], short⟩
    constructor
    · rintro same _ ⟨⟩
      by_contra short
      have := same t' le_rfl
      rw [tokensAt_reserve hr hn h, tokensAt_later hr hl h,
        min_eq_right (not_le.mp short).le] at this
      rcases min_choice b.burst (b.tokensAt t + r.val * (t' - t)) with hm | hm <;> rw [hm] at this
      · exact short this.ge
      · linarith
    · intro full u hu
      have grown : r.val * (t' - t) ≤ r.val * (u - t) :=
        mul_le_mul_of_nonneg_left (by linarith) r.property.le
      have := full r rfl
      rw [tokensAt_reserve hr hn (h.trans hu), tokensAt_later hr hl (h.trans hu),
        min_eq_left (by linarith), min_eq_left (by linarith)]

/-! ## Buckets with the same future -/

/-- The buckets have the same tokens at every moment from `c` on. -/
structure SameFrom (c : F) (b b' : Bucket F) : Prop where
  rate : b'.rate = b.rate
  burst : b'.burst = b.burst
  tokensAt : ∀ t, c ≤ t → b'.tokensAt t = b.tokensAt t

omit [IsStrictOrderedRing F] in
theorem SameFrom.refl (c : F) (b : Bucket F) : SameFrom c b b := ⟨rfl, rfl, fun _ _ => rfl⟩

omit [IsStrictOrderedRing F] in
theorem SameFrom.later (h : SameFrom c b b') (hc : c ≤ t) : SameFrom t b b' :=
  ⟨h.rate, h.burst, fun _ ht => h.tokensAt _ (hc.trans ht)⟩

omit [IsStrictOrderedRing F] in
theorem SameFrom.trans {b'' : Bucket F} (h : SameFrom c b b') (h' : SameFrom c b' b'') :
    SameFrom c b b'' :=
  ⟨h'.rate.trans h.rate, h'.burst.trans h.burst,
    fun t ht => (h'.tokensAt t ht).trans (h.tokensAt t ht)⟩

/-- A full bucket is a fresh one from then on. -/
theorem SameFrom.fresh (full : ¬ b.tokensAt t < b.burst) :
    SameFrom t b (Bucket.fresh b.rate b.burst) :=
  ⟨rfl, rfl, fun _ ht => (tokensAt_fresh _ _).trans (full_of_full full ht).symm⟩

omit [IsStrictOrderedRing F] in
/-- A booking either makes the two buckets one, or leaves both alone and cannot
be cancelled. -/
theorem SameFrom.reserve (h : SameFrom c b b') (hc : c ≤ t) :
    b'.reserve t n = b.reserve t n ∨
      ∃ x : Booking F, b.reserve t n = (x, b) ∧ b'.reserve t n = (x, b') ∧
        ∀ t', b.cancel x t' = b ∧ b'.cancel x t' = b' := by
  cases hr : b.rate with
  | none =>
    have hr' : b'.rate = none := h.rate.trans hr
    exact .inr ⟨_, reserve_none hr, reserve_none hr',
      fun _ => ⟨cancel_none hr, cancel_none hr'⟩⟩
  | some r =>
    have hr' : b'.rate = some r := h.rate.trans hr
    by_cases hn : n ≤ b.burst
    · refine .inl ?_
      rw [reserve_some hr hn, reserve_some hr' (h.burst ▸ hn)]
      simp only [due, h.tokensAt t hc, h.rate, h.burst]
    · exact .inr ⟨_, reserve_over hr hn, reserve_over hr' (h.burst ▸ hn), fun _ => ⟨rfl, rfl⟩⟩

omit [IsStrictOrderedRing F] in
theorem SameFrom.booking (h : SameFrom c b b') (hc : c ≤ t) :
    (b'.reserve t n).1 = (b.reserve t n).1 := by
  rcases h.reserve (n := n) hc with heq | ⟨x, hb, hb', -⟩
  · rw [heq]
  · rw [hb, hb']

omit [IsStrictOrderedRing F] in
theorem SameFrom.booked (h : SameFrom c b b') (hc : c ≤ t) :
    SameFrom t (b.reserve t n).2 (b'.reserve t n).2 := by
  rcases h.reserve (n := n) hc with heq | ⟨x, hb, hb', -⟩
  · rw [heq]
    exact .refl _ _
  · rw [hb, hb']
    exact h.later hc

omit [IsStrictOrderedRing F] in
theorem SameFrom.cancelled (h : SameFrom c b b') (hc : c ≤ t) (t' : F) :
    SameFrom t ((b.reserve t n).2.cancel (b.reserve t n).1 t')
      ((b'.reserve t n).2.cancel (b'.reserve t n).1 t') := by
  rcases h.reserve (n := n) hc with heq | ⟨x, hb, hb', inert⟩
  · rw [heq]
    exact .refl _ _
  · rw [hb, hb']
    simp only [(inert t').1, (inert t').2]
    exact h.later hc

end Bucket

end FakeSSH.Lib
