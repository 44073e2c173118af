import Mathlib.Algebra.Order.Group.Nat

/-!
# Support — binary long division

Division by shift and subtract.  The divisor starts shifted up to the quotient's top bit `k`;
each round compares it with what is left of the numerator, subtracts it and sets bit `k` of the
quotient when it fits, then halves it and moves to bit `k - 1`.  `loop_eq`: from a remainder
below the divisor shifted once more, the rounds add exactly the quotient of the remainder to the
quotient so far.  Nothing here names a program.
-/

namespace LongDivision

/-- `k` more rounds from the remainder `num`, the shifted divisor `div` and the quotient `q`. -/
def loop : Nat → Nat → Nat → Nat → Nat
  | 0, _, _, q => q
  | k + 1, num, div, q =>
    if div ≤ num then loop k (num - div) (div / 2) (q + 2 ^ k)
    else loop k num (div / 2) q

/-- The shifted divisor halves exactly while bits are left. -/
theorem half_shifted (d k : Nat) : d * 2 ^ (k + 1) / 2 = d * 2 ^ k := by
  rw [pow_succ, ← Nat.mul_assoc, Nat.mul_div_cancel _ Nat.two_pos]

/-- A round where the shifted divisor fits takes `2 ^ k` copies of the divisor away. -/
theorem sub_shifted_div (num d k : Nat) : (num - d * 2 ^ k) / d = num / d - 2 ^ k :=
  Nat.sub_mul_div num d (2 ^ k)

/-- Each round keeps the remainder below the divisor shifted to the current bit, which is all the
rounds need to compute the quotient. -/
theorem loop_eq {d : Nat} (hd : 0 < d) :
    ∀ (k num q : Nat), num < d * 2 ^ k → loop k num (d * 2 ^ k / 2) q = q + num / d
  | 0, num, q, hnum => by
    rw [loop, Nat.div_eq_of_lt (by simpa using hnum), Nat.add_zero]
  | k + 1, num, q, hnum => by
    rw [loop, half_shifted]
    by_cases hfit : d * 2 ^ k ≤ num
    · -- bit `k` is set: `num / d` has it, and the rest is below `d * 2 ^ k`
      have hlt : num - d * 2 ^ k < d * 2 ^ k := by
        rw [pow_succ, ← Nat.mul_assoc] at hnum
        omega
      have hbit : 2 ^ k ≤ num / d := (Nat.le_div_iff_mul_le hd).mpr (by rwa [Nat.mul_comm])
      rw [if_pos hfit, loop_eq hd k _ _ hlt, sub_shifted_div]
      omega
    · rw [if_neg hfit, loop_eq hd k _ _ (by omega)]

end LongDivision
