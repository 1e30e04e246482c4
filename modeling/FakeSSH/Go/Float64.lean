import Mathlib.Data.Int.Log
import Mathlib.Data.Rat.Floor

/-!
# `float64`

A value of the type `float64` is a rational number here, and an operation is that of the rationals,
rounded to the nearest value of the type and at a tie to the even one. Infinities, NaN and the sign
of zero are left out; nothing here comes near the largest value.
-/

namespace FakeSSH.Go

/-- The nearest integer, and the even one of two. -/
def roundEven (q : ℚ) : ℤ :=
  if q - ⌊q⌋ < 1 / 2 then ⌊q⌋
  else if 1 / 2 < q - ⌊q⌋ then ⌊q⌋ + 1
  else ⌊q⌋ + ⌊q⌋ % 2

/-- The distance of the values around a number: 53 bits are kept, and none below `2 ^ -1074`. -/
def ulp (q : ℚ) : ℚ := 2 ^ max (Int.log 2 |q| - 52) (-1074)

/-- The nearest value of the type. -/
def float64 (q : ℚ) : ℚ := roundEven (q / ulp q) * ulp q

-- 0.1, and `float64(math.MaxUint64)`
example : float64 (1 / 10) = 3602879701896397 / 36028797018963968 := by decide +kernel
example : float64 18446744073709551615 = 18446744073709551616 := by decide +kernel

end FakeSSH.Go
