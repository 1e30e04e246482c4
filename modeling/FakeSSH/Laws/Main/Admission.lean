import FakeSSH.Laws.Main.Connections
import FakeSSH.Lib.Draw

/-!
# Admission gets stricter

`checkMaxConnections` compares a random number with a loss that depends on the
count: none up to `max`, all of it above `hardMax`, and in between what
`connectionLossProbability` says. The loss of a limit from the options never
falls as the count rises, so the chance to be admitted never rises.

A `max` of zero, which is what a negative option becomes, switches the region in
between off: only the hard limit is left, and the ratio is not looked at.
-/

namespace FakeSSH.Main

open FakeSSH.Lib

variable {l : Limit} {curr next max hardMax : Int} {ratio : ℚ}

/-! ## The loss -/

/-- What `StartSSHServer` makes of its options. -/
structure Limit.Prepared (l : Limit) : Prop where
  limits : l.max = 0 ∨ 0 < l.max ∧ l.max < l.hardMax
  ratio_nonneg : 0 ≤ l.lossRatio
  ratio_le_one : l.lossRatio ≤ 1

theorem limitOf_prepared {default defaultHard : Int} {c : MaxConnectionsConfig}
    (hd : 0 < default ∧ default < 2 ^ 62) (hc : c.max < 2 ^ 62) :
    (limitOf default defaultHard c).Prepared := by
  refine ⟨?_, ?_, ?_⟩
  · obtain normal | ⟨off, -⟩ := limitOf_normalized hd hc
    · obtain both | ⟨off, -⟩ := normal
      · exact .inr both
      · exact .inl off
    · exact .inl off
  · dsimp only [limitOf]
    split
    · exact le_rfl
    · split <;> linarith
  · dsimp only [limitOf]
    split
    · exact zero_le_one
    · split <;> linarith

/-- The random numbers below this are refused. -/
def Limit.loss (l : Limit) (curr : Int) : ℚ :=
  if l.max ≤ 0 then if l.hardMax ≤ 0 ∨ curr ≤ l.hardMax then 0 else 1
  else if curr ≤ l.max then 0
  else if l.hardMax < curr then 1
  else if l.lossRatio ≤ 0 then 0
  else if 1 ≤ l.lossRatio then 1
  else connectionLossProbability curr l.max l.hardMax l.lossRatio

/-- The check for a count, of a random number. -/
def Limit.admits (l : Limit) (curr : Int) (rnd : ℚ) : Prop :=
  checkMaxConnections curr l.max l.hardMax l.lossRatio rnd = true

theorem Limit.admits_passesFrom (l : Limit) (curr : Int) :
    PassesFrom (l.admits curr) (l.loss curr) := by
  intro rnd nonneg below
  have always : true = true ↔ (0 : ℚ) ≤ rnd := iff_of_true rfl nonneg
  have never : false = true ↔ (1 : ℚ) ≤ rnd := iff_of_false Bool.noConfusion below.not_ge
  unfold admits checkMaxConnections loss
  by_cases off : l.max ≤ 0
  · rw [if_pos off, if_pos off, ← Bool.decide_or]
    by_cases within : l.hardMax ≤ 0 ∨ curr ≤ l.hardMax
    · rwa [if_pos within, decide_eq_true within]
    · rwa [if_neg within, decide_eq_false within]
  rw [if_neg off, if_neg off]
  by_cases low : curr ≤ l.max
  · rwa [if_pos low, if_pos low]
  rw [if_neg low, if_neg low]
  by_cases high : l.hardMax < curr
  · rwa [if_pos high, if_pos high]
  rw [if_neg high, if_neg high]
  by_cases lossless : l.lossRatio ≤ 0
  · rwa [if_pos lossless, if_pos lossless, decide_eq_true (not_lt.mp high)]
  rw [if_neg lossless, if_neg lossless]
  by_cases all : 1 ≤ l.lossRatio
  · rwa [if_pos all, if_pos all]
  rw [if_neg all, if_neg all, decide_eq_true_eq]

theorem connectionLossProbability_nonneg (nonneg : 0 ≤ ratio) :
    0 ≤ connectionLossProbability curr max hardMax ratio := by
  unfold connectionLossProbability
  split
  · exact zero_le_one
  · dsimp only
    split
    · rwa [add_zero]
    · exact add_nonneg nonneg (not_lt.mp ‹_›)

section Probability

variable (le_one : ratio ≤ 1) (beyond : max < curr)

include le_one beyond

/-- Above `max` the clamp does nothing. -/
theorem connectionLossProbability_eq (room : max + 1 < hardMax) :
    connectionLossProbability curr max hardMax ratio =
      ratio + (1 - ratio) * ((curr - (max + 1) : Int) / (hardMax - (max + 1) : Int)) := by
  have count : (0 : ℚ) ≤ (curr - (max + 1) : Int) := by exact_mod_cast (by omega)
  have width : (0 : ℚ) ≤ (hardMax - (max + 1) : Int) := by exact_mod_cast (by omega)
  have rise : 0 ≤ (1 - ratio) * ((curr - (max + 1) : Int) / (hardMax - (max + 1) : Int)) :=
    mul_nonneg (sub_nonneg.mpr le_one) (div_nonneg count width)
  rw [connectionLossProbability, if_neg (not_le.mpr room)]
  dsimp only
  rw [if_neg (not_lt.mpr rise)]

theorem connectionLossProbability_mono (le : curr ≤ next) :
    connectionLossProbability curr max hardMax ratio ≤
      connectionLossProbability next max hardMax ratio := by
  by_cases room : max + 1 < hardMax
  · have width : (0 : ℚ) ≤ (hardMax - (max + 1) : Int) := by exact_mod_cast (by omega)
    have count : ((curr - (max + 1) : Int) : ℚ) ≤ (next - (max + 1) : Int) := by
      exact_mod_cast (by omega)
    have left : 0 ≤ 1 - ratio := sub_nonneg.mpr le_one
    rw [connectionLossProbability_eq le_one beyond room,
      connectionLossProbability_eq le_one (beyond.trans_le le) room]
    gcongr
  · rw [connectionLossProbability, connectionLossProbability, if_pos (not_lt.mp room),
      if_pos (not_lt.mp room)]

end Probability

theorem connectionLossProbability_hardMax (le_one : ratio ≤ 1) (beyond : max < hardMax) :
    connectionLossProbability hardMax max hardMax ratio = 1 := by
  by_cases room : max + 1 < hardMax
  · have width : ((hardMax - (max + 1) : Int) : ℚ) ≠ 0 := by exact_mod_cast (by omega)
    rw [connectionLossProbability_eq le_one beyond room, div_self width]
    ring
  · rw [connectionLossProbability, if_pos (not_lt.mp room)]

theorem connectionLossProbability_le_one (le_one : ratio ≤ 1) (beyond : max < curr)
    (within : curr ≤ hardMax) : connectionLossProbability curr max hardMax ratio ≤ 1 := by
  calc connectionLossProbability curr max hardMax ratio
      ≤ connectionLossProbability hardMax max hardMax ratio :=
        connectionLossProbability_mono le_one beyond within
    _ = 1 := connectionLossProbability_hardMax le_one (beyond.trans_le within)

/-! ## The loss by regions -/

namespace Limit

theorem loss_off (off : l.max = 0) :
    l.loss curr = if l.hardMax ≤ 0 ∨ curr ≤ l.hardMax then 0 else 1 := by
  rw [loss, if_pos off.le]

theorem loss_low (on : 0 < l.max) (low : curr ≤ l.max) : l.loss curr = 0 := by
  rw [loss, if_neg (not_le.mpr on), if_pos low]

theorem loss_high (h : l.Prepared) (binds : 0 < l.hardMax) (high : l.hardMax < curr) :
    l.loss curr = 1 := by
  obtain off | ⟨on, above⟩ := h.limits
  · rw [loss_off off, if_neg (by omega)]
  · rw [loss, if_neg (not_le.mpr on), if_neg (not_le.mpr (above.trans high)), if_pos high]

theorem loss_lossless (on : 0 < l.max) (beyond : l.max < curr) (within : curr ≤ l.hardMax)
    (lossless : l.lossRatio ≤ 0) : l.loss curr = 0 := by
  rw [loss, if_neg (not_le.mpr on), if_neg (not_le.mpr beyond), if_neg (not_lt.mpr within),
    if_pos lossless]

/-- The source has a branch for a ratio of one, which says what the formula says. -/
theorem loss_between (h : l.Prepared) (on : 0 < l.max) (beyond : l.max < curr)
    (within : curr ≤ l.hardMax) (lossy : 0 < l.lossRatio) :
    l.loss curr = connectionLossProbability curr l.max l.hardMax l.lossRatio := by
  rw [loss, if_neg (not_le.mpr on), if_neg (not_le.mpr beyond), if_neg (not_lt.mpr within),
    if_neg (not_le.mpr lossy)]
  by_cases all : 1 ≤ l.lossRatio
  · have one : l.lossRatio = 1 := le_antisymm h.ratio_le_one all
    rw [if_pos all, one]
    by_cases room : l.max + 1 < l.hardMax
    · rw [connectionLossProbability_eq le_rfl beyond room, sub_self, zero_mul, add_zero]
    · rw [connectionLossProbability, if_pos (not_lt.mp room)]
  · rw [if_neg all]

theorem loss_mem (h : l.Prepared) (curr : Int) : 0 ≤ l.loss curr ∧ l.loss curr ≤ 1 := by
  obtain off | ⟨on, above⟩ := h.limits
  · rw [loss_off off]
    split
    · exact ⟨le_rfl, zero_le_one⟩
    · exact ⟨zero_le_one, le_rfl⟩
  · by_cases low : curr ≤ l.max
    · rw [loss_low on low]
      exact ⟨le_rfl, zero_le_one⟩
    by_cases high : l.hardMax < curr
    · rw [loss_high h (on.trans above) high]
      exact ⟨zero_le_one, le_rfl⟩
    rw [not_le] at low
    rw [not_lt] at high
    by_cases lossless : l.lossRatio ≤ 0
    · rw [loss_lossless on low high lossless]
      exact ⟨le_rfl, zero_le_one⟩
    · rw [loss_between h on low high (not_le.mp lossless)]
      exact ⟨connectionLossProbability_nonneg h.ratio_nonneg,
        connectionLossProbability_le_one h.ratio_le_one low high⟩

theorem loss_mono (h : l.Prepared) : Monotone l.loss := by
  intro curr next le
  obtain off | ⟨on, above⟩ := h.limits
  · by_cases within : l.hardMax ≤ 0 ∨ next ≤ l.hardMax
    · rw [loss_off off, if_pos (by omega)]
      exact (loss_mem h next).1
    · have refused : l.loss next = 1 := loss_high h (by omega) (by omega)
      rw [refused]
      exact (loss_mem h curr).2
  · by_cases low : curr ≤ l.max
    · rw [loss_low on low]
      exact (loss_mem h next).1
    by_cases high : l.hardMax < next
    · rw [loss_high h (on.trans above) high]
      exact (loss_mem h curr).2
    by_cases lossless : l.lossRatio ≤ 0
    · rw [loss_lossless on (by omega) (by omega) lossless]
      exact (loss_mem h next).1
    · rw [loss_between h on (by omega) (by omega) (not_le.mp lossless),
        loss_between h on (by omega) (by omega) (not_le.mp lossless)]
      exact connectionLossProbability_mono h.ratio_le_one (not_le.mp low) le

/-! ## The chance to be admitted -/

/-- How likely the check answers that a connection may go on, with a uniform
number in place of what `rand.Float64` returns. -/
noncomputable def admission (l : Limit) (curr : Int) : ℝ := chance (l.admits curr)

theorem admission_eq (h : l.Prepared) (curr : Int) : l.admission curr = 1 - l.loss curr :=
  (l.admits_passesFrom curr).chance_eq (loss_mem h curr).1 (loss_mem h curr).2

end Limit

/-- The chance to be admitted under a limit from the options never rises with the
count. It is one up to `max`, falls from `1 - ratio` at the next count to zero at
`hardMax`, and is zero beyond. Without a `max` it drops from one to zero at
`hardMax` at once, and without either it is always one. -/
theorem admission_stricter (c : MaxConnectionsConfig) (small : c.max < 2 ^ 62) (l : Limit)
    (hl : l = connLimit c ∨ l = succConnLimit c) :
    (∀ n q, 0 ≤ q → q < 1 → (Passes (l.admits n) (q : ℚ) ↔
      checkMaxConnections n l.max l.hardMax l.lossRatio q = true)) ∧
    Antitone l.admission ∧ (∀ n, 0 ≤ l.admission n ∧ l.admission n ≤ 1) ∧
    (0 < l.max → ∀ n ≤ l.max, l.admission n = 1) ∧
    (0 < l.max → 0 < l.lossRatio → l.lossRatio < 1 → l.max + 1 < l.hardMax →
      l.admission (l.max + 1) = 1 - l.lossRatio ∧ l.admission l.hardMax = 0) ∧
    (l.max = 0 → ∀ n ≤ l.hardMax, l.admission n = 1) ∧
    (0 < l.hardMax → ∀ n > l.hardMax, l.admission n = 0) ∧
    (l.max = 0 → l.hardMax ≤ 0 → ∀ n, l.admission n = 1) := by
  have h : l.Prepared := by
    obtain rfl | rfl := hl
    · exact limitOf_prepared (by decide) small
    · exact limitOf_prepared (by decide) small
  have full {n : Int} (none : l.loss n = 0) : l.admission n = 1 := by
    rw [Limit.admission_eq h, none, Rat.cast_zero, sub_zero]
  have empty {n : Int} (all : l.loss n = 1) : l.admission n = 0 := by
    rw [Limit.admission_eq h, all, Rat.cast_one, sub_self]
  refine ⟨?_, ?_, ?_, ?_, ?_, ?_, ?_, ?_⟩
  · intro n q nonneg below
    exact (l.admits_passesFrom n).passes_cast (Limit.loss_mem h n).1 nonneg below
  · intro m n le
    rw [Limit.admission_eq h, Limit.admission_eq h]
    have mono := Limit.loss_mono h le
    gcongr
  · intro n
    obtain ⟨nonneg, le_one⟩ := Limit.loss_mem h n
    rw [Limit.admission_eq h]
    constructor
    · exact sub_nonneg.mpr (by exact_mod_cast le_one)
    · exact sub_le_self _ (by exact_mod_cast nonneg)
  · intro on n low
    exact full (Limit.loss_low on low)
  · intro on lossy _ room
    constructor
    · have start : l.loss (l.max + 1) = l.lossRatio := by
        rw [Limit.loss_between h on (by omega) (by omega) lossy,
          connectionLossProbability_eq h.ratio_le_one (by omega) room]
        simp
      rw [Limit.admission_eq h, start]
    · apply empty
      rw [Limit.loss_between h on (by omega) le_rfl lossy]
      exact connectionLossProbability_hardMax h.ratio_le_one (by omega)
  · intro off n within
    apply full
    rw [Limit.loss_off off, if_pos (.inr within)]
  · intro binds n high
    exact empty (Limit.loss_high h binds high)
  · intro off unlimited n
    apply full
    rw [Limit.loss_off off, if_pos (.inl unlimited)]

/-- A limit of 5, a hard one of 10, and half of the connections lost at first. -/
def halfLost : MaxConnectionsConfig := { max := 5, hardMax := 10, lossRatio := 1 / 2 }

theorem connLimit_halfLost : connLimit halfLost = ⟨5, 10, 1 / 2⟩ := by
  norm_num [connLimit, limitOf, halfLost]

theorem admission_stricter_halfLost : Antitone (connLimit halfLost).admission ∧
    (connLimit halfLost).admission 6 = 1 - (1 / 2 : ℚ) ∧ (connLimit halfLost).admission 10 = 0 := by
  obtain ⟨-, antitone, -, -, between, -⟩ :=
    admission_stricter halfLost (by decide) (connLimit halfLost) (.inl rfl)
  rw [connLimit_halfLost] at antitone between ⊢
  exact ⟨antitone, between (by decide) (by norm_num) (by norm_num) (by decide)⟩

/-- A negative limit, which is none, with a hard limit and a ratio. -/
def hardOnly : MaxConnectionsConfig := { max := -1, hardMax := 10, lossRatio := 1 / 2 }

theorem connLimit_hardOnly : connLimit hardOnly = ⟨0, 10, 1 / 2⟩ := by
  norm_num [connLimit, limitOf, hardOnly]

/-- The ratio lies between zero and one and the hard limit is above the count
after `max`, and no connection is lost up to the hard limit. -/
theorem hardOnly_lossless : (connLimit hardOnly).max = 0 ∧
    0 < (connLimit hardOnly).lossRatio ∧ (connLimit hardOnly).lossRatio < 1 ∧
    (connLimit hardOnly).max + 1 < (connLimit hardOnly).hardMax ∧
    (connLimit hardOnly).admission ((connLimit hardOnly).max + 1) ≠
      1 - (connLimit hardOnly).lossRatio ∧
    (connLimit hardOnly).admission (connLimit hardOnly).hardMax ≠ 0 := by
  have h : (connLimit hardOnly).Prepared := limitOf_prepared (by decide) (by decide)
  rw [connLimit_hardOnly] at h ⊢
  have one {n : Int} (within : n ≤ 10) : (Limit.mk 0 10 (1 / 2)).admission n = 1 := by
    rw [Limit.admission_eq h, Limit.loss_off rfl, if_pos (.inr within), Rat.cast_zero, sub_zero]
  refine ⟨rfl, by norm_num, by norm_num, by decide, ?_, ?_⟩
  · rw [one (by decide)]
    norm_num
  · rw [one (by decide)]
    norm_num

end FakeSSH.Main
