import Mathlib.Data.List.TakeWhile
import Mathlib.Data.Nat.Digits.Lemmas
import Mathlib.Data.Nat.Size

/-!
# Support — digit lists

Numbers as little-endian digit lists, read by Mathlib's `Nat.ofDigits`, and the facts a
conversion between radices through a fixed buffer rests on: zero digits are worth nothing
(`ofDigits_eq_zero`); big-endian digits with their leading zeros dropped are `Nat.digits` of their
value (`dropWhile_zero_eq_digits`); and a buffer of `n * p / q + 1` digits of radix `b` holds every
number of `n` digits of radix `a` once `a ^ q ≤ b ^ p` (`pow_lt_pow_div_add_one`), room that is
kept digit by digit (`mulAdd_fits`).  In base `2 ^ w` the digits are blocks of `w` bits
(`testBit_ofDigits_two_pow`), so two numbers agree when every bit of every block does
(`eq_of_testBit_blocks`).  A number with a top digit compares by that digit first
(`add_mul_lt_add_mul_iff`) and has the top digit's bit length above the digits below
(`size_add_two_pow_mul`).  Nothing here names a program.
-/

namespace Digits

/-- Zero digits are worth nothing. -/
theorem ofDigits_eq_zero {b : Nat} : ∀ {ds : List Nat}, (∀ d ∈ ds, d = 0) → Nat.ofDigits b ds = 0
  | [], _ => rfl
  | d :: ds, h => by
    rw [Nat.ofDigits_cons, h d (by simp), ofDigits_eq_zero fun x hx => h x (by simp [hx])]
    simp

/-- Big-endian digits with their leading zeros dropped are the digits of their value. -/
theorem dropWhile_zero_eq_digits {r : Nat} (hr : 1 < r) :
    ∀ (L : List Nat), (∀ d ∈ L, d < r) →
      L.dropWhile (· = 0) = (Nat.digits r (Nat.ofDigits r L.reverse)).reverse
  | [], _ => by simp
  | d :: L, hL => by
    by_cases hd : d = 0
    · -- a leading zero adds nothing to the value
      have ih := dropWhile_zero_eq_digits hr L fun x hx => hL x (by simp [hx])
      rw [List.dropWhile_cons_of_pos (by simpa using hd), ih, List.reverse_cons,
        Nat.ofDigits_append, hd]
      simp
    · -- from a digit that is not zero on, the digits are the value's
      rw [List.dropWhile_cons_of_neg (by simpa using hd), Nat.digits_ofDigits r hr _ ?_ ?_,
        List.reverse_reverse]
      · exact fun x hx => hL x (List.mem_reverse.mp hx)
      · intro h
        rw [List.getLast_reverse]
        exact hd

/-- Big-endian digits that do not start with a zero are the digits of their value. -/
theorem digits_ofDigits_reverse {r : Nat} (hr : 1 < r) {L : List Nat} (hL : ∀ d ∈ L, d < r)
    (hhead : L.head? ≠ some 0) : Nat.digits r (Nat.ofDigits r L.reverse) = L.reverse := by
  have h := dropWhile_zero_eq_digits hr L hL
  have hself : L.dropWhile (· = 0) = L := by
    cases L with
    | nil => rfl
    | cons d L => exact List.dropWhile_cons_of_neg (by simpa using hhead)
  rw [hself] at h
  conv_rhs => rw [h, List.reverse_reverse]

/-- The big-endian digits of a number do not start with a zero. -/
theorem head?_reverse_digits_ne_zero (b m : Nat) : (Nat.digits b m).reverse.head? ≠ some 0 := by
  rw [List.head?_reverse]
  intro h
  by_cases hm : m = 0
  · simp [hm] at h
  · rw [List.getLast?_eq_some_getLast (Nat.digits_ne_nil_iff_ne_zero.mpr hm)] at h
    exact Nat.getLast_digit_ne_zero b hm (Option.some.inj h)

/-- Skipping a prefix of what `dropWhile` skips anyway changes nothing. -/
theorem dropWhile_drop {α : Type*} {p : α → Bool} :
    ∀ {L : List α} {k : Nat}, (∀ x ∈ L.take k, p x) → (L.drop k).dropWhile p = L.dropWhile p
  | [], _, _ => by simp
  | _ :: _, 0, _ => rfl
  | x :: L, k + 1, h => by
    rw [List.drop_succ_cons, List.dropWhile_cons_of_pos (h x (by simp))]
    exact dropWhile_drop fun y hy => h y (by simp [hy])

/-- A list is its run of leading `x`s followed by a rest that does not start with `x`. -/
theorem eq_replicate_append_dropWhile {α : Type*} [DecidableEq α] (x : α) (l : List α) :
    l = List.replicate (l.takeWhile (· = x)).length x ++ l.dropWhile (· = x) ∧
      (l.dropWhile (· = x)).head? ≠ some x := by
  constructor
  · conv_lhs => rw [← List.takeWhile_append_dropWhile (p := (· = x)) (l := l)]
    congr 1
    exact List.eq_replicate_iff.mpr ⟨rfl, fun b hb => by simpa using List.mem_takeWhile_imp hb⟩
  · intro h
    have := List.head?_dropWhile_not (fun y => decide (y = x)) l
    rw [h] at this
    simp at this

/-- A buffer of `n * p / q + 1` digits of radix `b` holds every number of `n` digits of radix `a`
when `a ^ q ≤ b ^ p`: both sides raised to the power `q`, the buffer wins by the rounding up. -/
theorem pow_lt_pow_div_add_one {a b p q : Nat} (hq : 0 < q) (hb : 1 < b) (h : a ^ q ≤ b ^ p)
    (n : Nat) : a ^ n < b ^ (n * p / q + 1) := by
  have hround : n * p < q * (n * p / q + 1) := by
    rw [Nat.mul_add, Nat.mul_one]
    exact Nat.lt_mul_div_succ _ hq
  have hpow : (a ^ n) ^ q < (b ^ (n * p / q + 1)) ^ q :=
    calc (a ^ n) ^ q = (a ^ q) ^ n := by rw [← pow_mul, ← pow_mul, Nat.mul_comm]
      _ ≤ (b ^ p) ^ n := Nat.pow_le_pow_left h n
      _ = b ^ (n * p) := by rw [← pow_mul, Nat.mul_comm]
      _ < b ^ (q * (n * p / q + 1)) := Nat.pow_lt_pow_right hb hround
      _ = (b ^ (n * p / q + 1)) ^ q := by rw [← pow_mul, Nat.mul_comm]
  exact (Nat.pow_lt_pow_iff_left hq.ne').mp hpow

/-- One more digit `v < b` taken into a number `N` that leaves room for `k + 1` more digits of
radix `b` below `M`: the new number is below `M`, and leaves room for `k` more. -/
theorem mulAdd_fits {b N v k M : Nat} (hv : v < b) (h : (N + 1) * b ^ (k + 1) ≤ M) :
    b * N + v < M ∧ (b * N + v + 1) * b ^ k ≤ M := by
  have hpow : 1 ≤ b ^ k := Nat.one_le_pow _ _ (by omega)
  have hstep : b * N + v + 1 ≤ (N + 1) * b := by
    rw [Nat.succ_mul, Nat.mul_comm N b]
    omega
  have hroom : (N + 1) * b ≤ (N + 1) * b ^ (k + 1) :=
    Nat.mul_le_mul_left _ (by rw [pow_succ]; exact Nat.le_mul_of_pos_left b hpow)
  refine ⟨by omega, ?_⟩
  calc (b * N + v + 1) * b ^ k ≤ (N + 1) * b * b ^ k := Nat.mul_le_mul_right _ hstep
    _ = (N + 1) * b ^ (k + 1) := by rw [pow_succ]; ring
    _ ≤ M := h

/-! ### Digits in base `2 ^ w` -/

/-- Bit `b < w` of digit `j` of a number written in base `2 ^ w`. -/
theorem testBit_ofDigits_two_pow {w b : Nat} (hb : b < w) :
    ∀ {L : List Nat}, (∀ d ∈ L, d < 2 ^ w) → ∀ j,
      (Nat.ofDigits (2 ^ w) L).testBit (w * j + b) = (L.getD j 0).testBit b
  | [], _, j => by simp
  | d :: L, hL, j => by
    rw [Nat.ofDigits_cons, Nat.add_comm, Nat.testBit_two_pow_mul_add _ (hL d (by simp))]
    cases j with
    | zero => simp [hb]
    | succ j =>
      rw [if_neg (by rw [Nat.mul_succ]; omega), show w * (j + 1) + b - w = w * j + b by
        rw [Nat.mul_succ]; omega]
      exact testBit_ofDigits_two_pow hb (fun d hd => hL d (by simp [hd])) j

/-- Two numbers are equal when every bit of every block of `w` bits is. -/
theorem eq_of_testBit_blocks {w : Nat} (hw : 0 < w) {x y : Nat}
    (h : ∀ j, ∀ b < w, x.testBit (w * j + b) = y.testBit (w * j + b)) : x = y :=
  Nat.eq_of_testBit_eq fun p => by
    rw [← Nat.div_add_mod p w]
    exact h _ _ (Nat.mod_lt _ hw)

/-! ### The top digit -/

/-- Numbers with their top digits `p` and `q` above the same place `K` compare by the top digit
first. -/
theorem add_mul_lt_add_mul_iff {K X Y p q : Nat} (hX : X < K) (hY : Y < K) :
    X + K * p < Y + K * q ↔ p < q ∨ p = q ∧ X < Y := by
  constructor
  · intro h
    rcases lt_trichotomy p q with hpq | rfl | hpq
    · exact .inl hpq
    · exact .inr ⟨rfl, by omega⟩
    · have hK := Nat.mul_le_mul_left K hpq
      rw [Nat.mul_succ] at hK
      omega
  · rintro (hpq | ⟨rfl, h⟩)
    · have hK := Nat.mul_le_mul_left K hpq
      rw [Nat.mul_succ] at hK
      omega
    · omega

/-- A non-zero top digit `d` above `s` bits adds `s` to its own bit length. -/
theorem size_add_two_pow_mul {s X d : Nat} (hX : X < 2 ^ s) (hd : d ≠ 0) :
    Nat.size (X + 2 ^ s * d) = s + Nat.size d := by
  have hsz : 0 < Nat.size d := Nat.size_pos.mpr (Nat.pos_of_ne_zero hd)
  apply le_antisymm
  · apply Nat.size_le.mpr
    calc X + 2 ^ s * d < 2 ^ s * (d + 1) := by rw [Nat.mul_succ]; omega
      _ ≤ 2 ^ s * 2 ^ Nat.size d := Nat.mul_le_mul_left _ (Nat.lt_size_self d)
      _ = 2 ^ (s + Nat.size d) := (pow_add 2 s _).symm
  · have hlow : 2 ^ (Nat.size d - 1) ≤ d := Nat.lt_size.mp (by omega)
    have htop : s + Nat.size d - 1 < Nat.size (X + 2 ^ s * d) := by
      apply Nat.lt_size.mpr
      calc 2 ^ (s + Nat.size d - 1) = 2 ^ s * 2 ^ (Nat.size d - 1) := by
            rw [← pow_add]
            congr 1
            omega
        _ ≤ 2 ^ s * d := Nat.mul_le_mul_left _ hlow
        _ ≤ X + 2 ^ s * d := Nat.le_add_left _ _
    omega

end Digits
