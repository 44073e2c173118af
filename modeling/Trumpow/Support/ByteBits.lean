import Mathlib

/-!
# Support — a byte array as an array of bits

Bit `n` of a byte array is bit `n % 8` of byte `n / 8` (`test`); `set` turns it on.  Setting bits
only ever adds bits: bit `m` after setting the bits of a list of indices is the old bit, or `m`
is one of the indices inside the array (`test_foldl_set`).  C's spelling of the two, byte
`n >> 3` and mask `1 << (7 & n)`, is the same (`set_eq_shift`, `test_eq_shift`).  An array of `0xff` bytes has every
bit inside it set, and setting one changes nothing (`set_of_forall_eq_ff`); an array of zero
bytes has none.  Nothing here names a program.
-/

namespace ByteBits

/-- Bit `n` of `v`: bit `n % 8` of byte `n / 8`, and no bit past the end. -/
def test (v : List UInt8) (n : Nat) : Bool := (v.getD (n / 8) 0).toNat.testBit (n % 8)

/-- `v` with bit `n` set; past the end nothing changes. -/
def set (v : List UInt8) (n : Nat) : List UInt8 :=
  v.set (n / 8) (v.getD (n / 8) 0 ||| UInt8.ofNat (2 ^ (n % 8)))

@[simp] theorem length_set (v : List UInt8) (n : Nat) : (set v n).length = v.length :=
  List.length_set ..

@[simp] theorem length_foldl_set (v : List UInt8) (ns : List Nat) :
    (ns.foldl set v).length = v.length := by
  induction ns generalizing v with
  | nil => rfl
  | cons n ns ih => rw [List.foldl_cons, ih, length_set]

theorem toNat_two_pow_mod_eight (n : Nat) : (UInt8.ofNat (2 ^ (n % 8))).toNat = 2 ^ (n % 8) := by
  have h : 2 ^ (n % 8) < 2 ^ 8 := Nat.pow_lt_pow_right (by norm_num) (Nat.mod_lt _ (by norm_num))
  exact UInt8.toNat_ofNat_of_lt' (by simpa using h)

theorem and_two_pow_ne_zero (x k : Nat) : x &&& 2 ^ k ≠ 0 ↔ x.testBit k = true := by
  constructor
  · intro h
    by_contra hb
    apply h
    apply Nat.eq_of_testBit_eq
    intro i
    rw [Nat.testBit_and, Nat.testBit_two_pow, Nat.zero_testBit]
    by_cases hi : k = i
    · subst hi
      simpa using hb
    · simp [hi]
  · intro hb h
    have h' := congrArg (fun y => Nat.testBit y k) h
    simp [Nat.testBit_and, hb] at h'

/-- Bit `n` as a masked byte: the byte `n / 8` and the power of two of its place. -/
theorem test_eq_and (v : List UInt8) (n : Nat) :
    test v n = (v.getD (n / 8) 0 &&& UInt8.ofNat (2 ^ (n % 8)) != 0) := by
  unfold test
  apply Bool.eq_iff_iff.mpr
  rw [bne_iff_ne, ne_eq, ← UInt8.toNat_inj, UInt8.toNat_and, toNat_two_pow_mod_eight,
    UInt8.toNat_zero]
  exact (and_two_pow_ne_zero _ _).symm

/-! The same two operations as C writes them: byte `n >> 3`, mask `1 << (7 & n)`. -/

theorem shiftRight_three (n : Nat) : n >>> 3 = n / 8 := by
  simp [Nat.shiftRight_eq_div_pow]

theorem seven_and (n : Nat) : 7 &&& n = n % 8 := by
  rw [Nat.land_comm]
  exact Nat.and_two_pow_sub_one_eq_mod n 3

theorem one_shiftLeft (n : Nat) : (1 : UInt8) <<< UInt8.ofNat (n % 8) = UInt8.ofNat (2 ^ (n % 8)) := by
  have h8 : n % 8 < 8 := Nat.mod_lt _ (by norm_num)
  generalize n % 8 = k at h8 ⊢
  interval_cases k <;> decide

theorem set_eq_shift (v : List UInt8) (n : Nat) :
    set v n = v.set (n >>> 3) (v.getD (n >>> 3) 0 ||| 1 <<< UInt8.ofNat (7 &&& n)) := by
  rw [shiftRight_three, seven_and, one_shiftLeft]
  rfl

theorem test_eq_shift (v : List UInt8) (n : Nat) :
    test v n = (v.getD (n >>> 3) 0 &&& 1 <<< UInt8.ofNat (7 &&& n) != 0) := by
  rw [shiftRight_three, seven_and, one_shiftLeft, test_eq_and]

/-- Two bit indices with the same byte and the same place in it are equal. -/
theorem eq_of_div_of_mod {m n : Nat} (hd : m / 8 = n / 8) (hm : m % 8 = n % 8) : m = n := by
  rw [← Nat.div_add_mod m 8, ← Nat.div_add_mod n 8, hd, hm]

/-- After setting bit `n`, bit `m` is set when it was, or when it is `n` inside the array. -/
theorem test_set (v : List UInt8) (n m : Nat) :
    test (set v n) m = (test v m || decide (m = n ∧ n / 8 < v.length)) := by
  unfold test set
  by_cases hd : m / 8 = n / 8
  · rw [hd]
    by_cases hlt : n / 8 < v.length
    · have hbyte : (v.set (n / 8) (v.getD (n / 8) 0 ||| UInt8.ofNat (2 ^ (n % 8)))).getD (n / 8) 0 =
          v.getD (n / 8) 0 ||| UInt8.ofNat (2 ^ (n % 8)) := by
        simp [List.getD_eq_getElem?_getD, hlt]
      rw [hbyte, UInt8.toNat_or, Nat.testBit_or, toNat_two_pow_mod_eight, Nat.testBit_two_pow]
      by_cases hm : m % 8 = n % 8
      · simp [eq_of_div_of_mod hd hm, hlt]
      · have hne : m ≠ n := fun h => hm (h ▸ rfl)
        simp [hne, Ne.symm hm]
    · -- past the end the array is unchanged
      simp [hlt]
  · -- another byte
    have hne : m ≠ n := fun h => hd (h ▸ rfl)
    have hbyte : (v.set (n / 8) (v.getD (n / 8) 0 ||| UInt8.ofNat (2 ^ (n % 8)))).getD (m / 8) 0 =
        v.getD (m / 8) 0 := by
      simp [List.getD_eq_getElem?_getD, Ne.symm hd]
    rw [hbyte]
    simp [hne]

/-- After setting the bits `ns`, bit `m` is set when it was, or when it is one of `ns` inside the
array. -/
theorem test_foldl_set (v : List UInt8) (ns : List Nat) (m : Nat) :
    test (ns.foldl set v) m = (test v m || decide (m ∈ ns ∧ m / 8 < v.length)) := by
  induction ns generalizing v with
  | nil => simp
  | cons n ns ih =>
    rw [List.foldl_cons, ih, test_set, length_set]
    by_cases hmn : m = n
    · subst hmn
      by_cases hl : m / 8 < v.length <;> simp [hl]
    · simp [hmn]

/-- Setting bits never clears one. -/
theorem test_foldl_set_of_test {v : List UInt8} {m : Nat} (h : test v m = true) (ns : List Nat) :
    test (ns.foldl set v) m = true := by
  simp [test_foldl_set, h]

/-- In an array of `0xff` bytes every bit inside is set. -/
theorem test_of_forall_eq_ff {v : List UInt8} (h : ∀ b ∈ v, b = 0xff) {n : Nat}
    (hn : n / 8 < v.length) : test v n = true := by
  have hb : v.getD (n / 8) 0 = 0xff := h _ (by simp [List.getD_eq_getElem?_getD, hn])
  have h8 : n % 8 < 8 := Nat.mod_lt _ (by norm_num)
  unfold test
  rw [hb]
  interval_cases (n % 8) <;> decide

/-- In an array of zero bytes no bit is set. -/
theorem test_of_forall_eq_zero {v : List UInt8} (h : ∀ b ∈ v, b = 0) (n : Nat) :
    test v n = false := by
  have hb : v.getD (n / 8) 0 = 0 := by
    rw [List.getD_eq_getElem?_getD]
    cases hv : v[n / 8]? with
    | none => rfl
    | some b => exact h b (List.mem_of_getElem? hv)
  unfold test
  rw [hb]
  simp

/-- Setting a bit of an array of `0xff` bytes changes nothing. -/
theorem set_of_forall_eq_ff {v : List UInt8} (h : ∀ b ∈ v, b = 0xff) (n : Nat) : set v n = v := by
  unfold set
  by_cases hlt : n / 8 < v.length
  · have hb : v.getD (n / 8) 0 = 0xff := h _ (by simp [List.getD_eq_getElem?_getD, hlt])
    have hor : (0xff : UInt8) ||| UInt8.ofNat (2 ^ (n % 8)) = 0xff := by
      have h8 : n % 8 < 8 := Nat.mod_lt _ (by norm_num)
      interval_cases (n % 8) <;> decide
    rw [hb, hor, ← hb, List.getD_eq_getElem _ _ hlt, List.set_getElem_self]
  · exact List.set_eq_of_length_le (by omega)

theorem foldl_set_of_forall_eq_ff {v : List UInt8} (h : ∀ b ∈ v, b = 0xff) (ns : List Nat) :
    ns.foldl set v = v := by
  induction ns with
  | nil => rfl
  | cons n ns ih => rw [List.foldl_cons, set_of_forall_eq_ff h, ih]

end ByteBits
