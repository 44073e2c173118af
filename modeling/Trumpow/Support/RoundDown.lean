import Mathlib

/-!
# Support — rounding down to a mantissa

`truncDigits b k x` is `x` with its low `k` digits in base `b` zeroed.  A number is written with
a mantissa below `M` when it is `m * b ^ j` for some `m < M`; a format of such numbers rounds a
value down by keeping its top digits.  Nothing here names a program.

The facts are that rounding down stays at or below the value (`truncDigits_le`) and is exact
exactly when the dropped digits are zero (`truncDigits_eq_self_iff`), and that when the kept
digits fill the mantissa (`Normal`) it is the greatest number with a mantissa below `M` at or
below the value (`le_truncDigits_of_mantissa`); so rounding two values down, each to its own
normal mantissa, keeps their order (`truncDigits_le_truncDigits`).
-/

namespace RoundDown

/-- `x` with its low `k` digits in base `b` zeroed. -/
def truncDigits (b k x : Nat) : Nat := x / b ^ k * b ^ k

/-- Keeping the digits of `x` from the `k`-th up leaves a mantissa below `M` that no
smaller `k` would: `k = 0`, or one digit more would not fit. -/
def Normal (b M k x : Nat) : Prop := x / b ^ k < M ∧ (k = 0 ∨ M ≤ b * (x / b ^ k))

variable {b k x : Nat}

theorem truncDigits_le : truncDigits b k x ≤ x := Nat.div_mul_le_self x (b ^ k)

theorem truncDigits_eq_self_iff : truncDigits b k x = x ↔ x % b ^ k = 0 := by
  rw [truncDigits, ← Nat.dvd_iff_mod_eq_zero]
  exact ⟨fun h => h ▸ Nat.dvd_mul_left _ _, Nat.div_mul_cancel⟩

/-- A multiple of `b ^ k` at or below `x` is at or below `x` rounded down. -/
theorem le_truncDigits_of_dvd {n : Nat} (hd : b ^ k ∣ n) (hn : n ≤ x) :
    n ≤ truncDigits b k x := by
  obtain ⟨q, rfl⟩ := hd
  rcases Nat.eq_zero_or_pos (b ^ k) with h0 | hpos
  · simp [h0]
  · rw [truncDigits, mul_comm (b ^ k) q]
    exact Nat.mul_le_mul_right _ ((Nat.le_div_iff_mul_le hpos).mpr (by rwa [mul_comm] at hn))

/-- Rounding down to a normal mantissa gives the greatest number with a mantissa below `M` at or
below `x`: a mantissa scaled by at least `b ^ k` is a multiple of it, and one scaled by less is
below what the kept digits give. -/
theorem le_truncDigits_of_mantissa (hb : 0 < b) {M : Nat} (hx : Normal b M k x) {m j : Nat}
    (hm : m < M) (hr : m * b ^ j ≤ x) : m * b ^ j ≤ truncDigits b k x := by
  rcases le_or_gt k j with hkj | hjk
  · exact le_truncDigits_of_dvd (Dvd.dvd.mul_left (Nat.pow_dvd_pow b hkj) m) hr
  · have hnorm : M ≤ b * (x / b ^ k) := hx.2.resolve_left (by omega)
    have hpow : b ^ j * b ≤ b ^ k := by
      rw [← pow_succ]
      exact Nat.pow_le_pow_right hb hjk
    calc m * b ^ j ≤ M * b ^ j := Nat.mul_le_mul_right _ hm.le
      _ ≤ b * (x / b ^ k) * b ^ j := Nat.mul_le_mul_right _ hnorm
      _ = x / b ^ k * (b ^ j * b) := by ring
      _ ≤ x / b ^ k * b ^ k := Nat.mul_le_mul_left _ hpow
      _ = truncDigits b k x := rfl

/-- Rounding down to normal mantissas keeps the order of the values. -/
theorem truncDigits_le_truncDigits (hb : 0 < b) {M j y : Nat} (hx : x / b ^ j < M)
    (hy : Normal b M k y) (hxy : x ≤ y) : truncDigits b j x ≤ truncDigits b k y :=
  le_truncDigits_of_mantissa hb hy hx (truncDigits_le.trans hxy)

end RoundDown
