import Mathlib

/-!
# Support — bits of a count

Facts about `n / 2^k` and `n % 2^k` for the loops that walk a counter's binary digits level by
level: bit `k` of `n` is the parity of `n / 2^k` (`testBit_iff`), and the digits of `c` and of
`c + 1` agree above the lowest set bit of `c + 1` (`succ_div_eq_of_lt`) while below it `c`'s are
all set (`odd_of_succ`).
-/

namespace Bits

theorem testBit_iff (n k : Nat) : n.testBit k ↔ n / 2 ^ k % 2 = 1 := by
  rw [Nat.testBit_eq_decide_div_mod_eq]; simp

theorem div_pow_succ (n k : Nat) : n / 2 ^ (k + 1) = n / 2 ^ k / 2 := by
  rw [pow_succ, Nat.div_div_eq_div_mul]

theorem mod_pow_succ_eq_zero {n k : Nat} (h : n % 2 ^ k = 0) (h2 : n / 2 ^ k % 2 = 0) :
    n % 2 ^ (k + 1) = 0 := by
  rw [pow_succ, Nat.mod_mul, h, h2]; simp

theorem mod_pow_eq_zero_of_le {n k m : Nat} (h : n % 2 ^ m = 0) (hk : k ≤ m) : n % 2 ^ k = 0 :=
  Nat.mod_eq_zero_of_dvd (dvd_trans (pow_dvd_pow 2 hk) (Nat.dvd_of_mod_eq_zero h))

/-- The leaf before a multiple of `2^t` ends a block of `2^t`. -/
theorem succ_div_of_mod {c t : Nat} (h : (c + 1) % 2 ^ t = 0) : (c + 1) / 2 ^ t = c / 2 ^ t + 1 := by
  have hp := Nat.two_pow_pos t
  obtain ⟨a, ha⟩ := Nat.dvd_of_mod_eq_zero h
  have ha1 : 1 ≤ a := by rcases a with _ | a <;> simp_all
  rw [ha, Nat.mul_div_cancel_left _ hp]
  have : c = (a - 1) * 2 ^ t + (2 ^ t - 1) := by
    have e : (a - 1) * 2 ^ t = 2 ^ t * a - 2 ^ t := by
      rw [Nat.sub_one_mul, Nat.mul_comm]
    have : 2 ^ t ≤ 2 ^ t * a := Nat.le_mul_of_pos_right _ ha1
    omega
  rw [this, Nat.add_comm ((a - 1) * 2 ^ t), Nat.add_mul_div_right _ _ hp,
    Nat.div_eq_of_lt (by omega)]
  omega

theorem div_pow_add (n k d : Nat) : n / 2 ^ (k + d) = n / 2 ^ k / 2 ^ d := by
  rw [pow_add, Nat.div_div_eq_div_mul]

/-- An odd number and the even one below it agree after at least one halving. -/
theorem odd_div_pow {a d : Nat} (ha : a % 2 = 1) (hd : 1 ≤ d) : a / 2 ^ d = (a - 1) / 2 ^ d := by
  obtain ⟨d, rfl⟩ : ∃ e, d = e + 1 := ⟨d - 1, by omega⟩
  rw [pow_succ', ← Nat.div_div_eq_div_mul, ← Nat.div_div_eq_div_mul]
  congr 1
  omega

/-- Above the lowest set bit `t` of `c + 1`, `c` and `c + 1` have the same high part. -/
theorem succ_div_eq_of_lt {c t lv : Nat} (h : (c + 1) % 2 ^ t = 0) (hb : (c + 1) / 2 ^ t % 2 = 1)
    (hlt : t < lv) : (c + 1) / 2 ^ lv = c / 2 ^ lv := by
  obtain ⟨d, rfl⟩ : ∃ d, lv = t + d := ⟨lv - t, by omega⟩
  rw [div_pow_add, div_pow_add, odd_div_pow hb (by omega), succ_div_of_mod h]
  simp

theorem div_mod_two_eq_zero_of_mod {n k : Nat} (h : n % 2 ^ (k + 1) = 0) : n / 2 ^ k % 2 = 0 := by
  obtain ⟨a, rfl⟩ := Nat.dvd_of_mod_eq_zero h
  rw [pow_succ, Nat.mul_assoc, Nat.mul_div_cancel_left _ (Nat.two_pow_pos k)]
  simp

/-- Below the lowest set bit of `c + 1`, every bit of `c` is set. -/
theorem odd_of_succ {c lv : Nat} (h : (c + 1) % 2 ^ lv = 0) (hb : (c + 1) / 2 ^ lv % 2 = 0) :
    c / 2 ^ lv % 2 = 1 := by
  rw [succ_div_of_mod h] at hb
  omega

/-- A digit of `c` that is set: `c / 2^lv` is twice `c / 2^(lv+1)`, plus one. -/
theorem div_eq_of_odd {c lv : Nat} (h : c / 2 ^ lv % 2 = 1) :
    c / 2 ^ lv = 2 * (c / 2 ^ (lv + 1)) + 1 := by
  rw [div_pow_succ]
  omega

/-- Below the lowest set bit `t` of `c + 1`, the bits of `c + 1` are clear. -/
theorem succ_div_mod_two_of_lt {c t lv : Nat} (h : (c + 1) % 2 ^ t = 0) (hlt : lv < t) :
    (c + 1) / 2 ^ lv % 2 = 0 :=
  div_mod_two_eq_zero_of_mod (mod_pow_eq_zero_of_le h hlt)

/-- Below the lowest set bit `t` of `c + 1`, the bits of `c` are set. -/
theorem odd_of_lt {c t lv : Nat} (h : (c + 1) % 2 ^ t = 0) (hlt : lv < t) : c / 2 ^ lv % 2 = 1 :=
  odd_of_succ (mod_pow_eq_zero_of_le h hlt.le) (succ_div_mod_two_of_lt h hlt)

/-- A position in the block of a set bit `lv` of `c` is, at every higher level `t`, under the
same node as `c`. -/
theorem div_eq_of_block_lt {c p lv t : Nat} (hlv : p / 2 ^ lv = c / 2 ^ lv - 1)
    (hodd : c / 2 ^ lv % 2 = 1) (hlt : lv < t) : p / 2 ^ t = c / 2 ^ t := by
  obtain ⟨d, rfl⟩ : ∃ d, t = lv + d := ⟨t - lv, by omega⟩
  rw [div_pow_add, div_pow_add, hlv, ← odd_div_pow hodd (by omega)]

/-- The blocks of the set bits of `c` are disjoint: a position in the block of bit `lv` is in
no block of a higher set bit `lv'`. -/
theorem div_ne_of_block {c p lv lv' : Nat} (hlv : p / 2 ^ lv = c / 2 ^ lv - 1)
    (hodd : c / 2 ^ lv % 2 = 1) (hodd' : c / 2 ^ lv' % 2 = 1) (hlt : lv < lv') :
    p / 2 ^ lv' ≠ c / 2 ^ lv' - 1 := by
  rw [div_eq_of_block_lt hlv hodd hlt]
  omega

/-- Positions whose block precedes `c`'s at some level come before `c`. -/
theorem lt_of_div_lt {p c lv : Nat} (h : p / 2 ^ lv < c / 2 ^ lv) : p < c := by
  by_contra hc
  exact absurd (Nat.div_le_div_right (c := 2 ^ lv) (not_lt.mp hc)) (not_le.mpr h)

/-- Above the lowest set bit `t` of `n`, `n` is not a multiple of the power of two. -/
theorem mod_ne_zero_of_lt {n t lv : Nat} (hodd : n / 2 ^ t % 2 = 1) (hlt : t < lv) :
    n % 2 ^ lv ≠ 0 := by
  intro h0
  have := div_mod_two_eq_zero_of_mod (mod_pow_eq_zero_of_le h0 hlt)
  omega

/-- The sibling of an odd node is the one before it. -/
theorem xor_one_odd {x : Nat} (h : x % 2 = 1) : x ^^^ 1 = x - 1 :=
  Nat.xor_one_of_odd (Nat.odd_iff.mpr h)

/-- The sibling of an even node is the one after it. -/
theorem xor_one_even {x : Nat} (h : x % 2 = 0) : x ^^^ 1 = x + 1 :=
  Nat.xor_one_of_even (Nat.even_iff.mpr h)

/-- Bits shifted above a smaller value are added to it. -/
theorem or_shiftLeft_eq_add {a b k : Nat} (hb : b < 2 ^ k) : (a <<< k) ||| b = a * 2 ^ k + b := by
  rw [Nat.shiftLeft_eq, Nat.mul_comm, Nat.two_pow_add_eq_or_of_lt hb]

/-! ### Masks of the low bits, as remainders -/

theorem and_three (x : Nat) : x &&& 3 = x % 4 := Nat.and_two_pow_sub_one_eq_mod x 2
theorem and_seven (x : Nat) : x &&& 7 = x % 8 := Nat.and_two_pow_sub_one_eq_mod x 3
theorem and_fifteen (x : Nat) : x &&& 15 = x % 16 := Nat.and_two_pow_sub_one_eq_mod x 4
theorem and_thirtyOne (x : Nat) : x &&& 31 = x % 32 := Nat.and_two_pow_sub_one_eq_mod x 5
theorem and_sixtyThree (x : Nat) : x &&& 63 = x % 64 := Nat.and_two_pow_sub_one_eq_mod x 6

/-- A value shifted up by `k` has no bits under a mask below `2 ^ k`. -/
theorem shiftLeft_and_eq_zero (x : Nat) {k m : Nat} (hm : m < 2 ^ k) : (x <<< k) &&& m = 0 := by
  apply Nat.eq_of_testBit_eq
  intro i
  rw [Nat.testBit_and, Nat.testBit_shiftLeft, Nat.zero_testBit]
  by_cases hi : k ≤ i
  · -- bit `i` of the mask is clear
    rw [Nat.testBit_eq_false_of_lt (lt_of_lt_of_le hm (Nat.pow_le_pow_right Nat.two_pos hi))]
    simp
  · simp [hi]

end Bits
