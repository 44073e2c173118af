import Trumpow.Primitives.ArithUint256
import Trumpow.Support.Digits

/-!
# Primitives — `base_uint` on its limbs

`base_uint<BITS>` of `arith_uint256.h` and `arith_uint256.cpp` as the code stores it: `WIDTH`
limbs `uint32_t pn[WIDTH]`, the least significant first, read as `Nat.ofDigits (2 ^ 32)`.  Each
operator is its loop over the limbs: the shifts OR the two halves of each limb into the limbs
`shift / 32` and `shift / 32 + 1` away; addition and both multiplications run a `uint64_t` carry;
`operator++` carries through the limbs that wrap; `CompareTo` and `bits()` scan from the top.

Each loop computes its operation on the value modulo `2 ^ (32 * WIDTH)`.  The shifts are argued
bit by bit: what the loop writes into limb `j` from round `i` on is closed form in `j`
(`shiftLeftLoop_getD`, `shiftRightLoop_getD`).  The carry loops write the value plus the carry
modulo the limbs they reach (`mulWordLoop_toNat`, `mulAddLoop_toNat`, `addLoop_toNat`); the
outer loop of `operator*=` adds one shifted row per round (`mulLoop_modEq`).  `CompareTo`,
`operator-=` and `operator>>=` then make the loop of `operator/=` the long division of
`Support/LongDivision` (`divLoop_toNat`), so it returns the quotient for every non-zero divisor
(`divAssign_of_toNat_ne_zero`).  At `WIDTH = 8` the limbs refine the `BitVec 256` of
`Primitives/ArithUint256` (`toBitVec_ops`, `toBitVec_divAssign`).
-/

namespace Trumpow

/-- `base_uint<BITS>` with `WIDTH = BITS / 32`: the limbs `pn`, least significant first. -/
structure BaseUint (WIDTH : Nat) where
  pn : List UInt32
  length_pn : pn.length = WIDTH

namespace BaseUint

/-- The number a list of limbs stands for. -/
def limbsToNat (pn : List UInt32) : Nat := Nat.ofDigits (2 ^ 32) (pn.map UInt32.toNat)

/-- The number a `base_uint` stands for. -/
def toNat {WIDTH : Nat} (a : BaseUint WIDTH) : Nat := limbsToNat a.pn

/-- `base_uint()`: every limb zero. -/
def zero (WIDTH : Nat) : BaseUint WIDTH := ⟨List.replicate WIDTH 0, List.length_replicate⟩

/-! ### The shifts -/

/-- The loop of `operator<<=`: limbs `a.pn[i]` on, ORed into `pn`, with `k = shift / 32` and
`shift % 32` as `shift`. -/
def shiftLeftLoop (WIDTH k shift : Nat) : Nat → List UInt32 → List UInt32 → List UInt32
  | _, [], pn => pn
  | i, a :: as, pn =>
    let pn := if i + k + 1 < WIDTH ∧ shift ≠ 0 then
      pn.modify (i + k + 1) (· ||| a >>> UInt32.ofNat (32 - shift)) else pn
    let pn := if i + k < WIDTH then pn.modify (i + k) (· ||| a <<< UInt32.ofNat shift) else pn
    shiftLeftLoop WIDTH k shift (i + 1) as pn

theorem length_shiftLeftLoop (WIDTH k shift : Nat) :
    ∀ i as pn, (shiftLeftLoop WIDTH k shift i as pn).length = pn.length
  | _, [], _ => rfl
  | i, a :: as, pn => by
    rw [shiftLeftLoop, length_shiftLeftLoop]
    split_ifs <;> simp

/-- `operator<<=(shift)`. -/
def shiftLeft {WIDTH : Nat} (a : BaseUint WIDTH) (shift : Nat) : BaseUint WIDTH where
  pn := shiftLeftLoop WIDTH (shift / 32) (shift % 32) 0 a.pn (List.replicate WIDTH 0)
  length_pn := by rw [length_shiftLeftLoop, List.length_replicate]

/-- The loop of `operator>>=`: limbs `a.pn[i]` on, ORed into `pn`, with `k = shift / 32` and
`shift % 32` as `shift`; `i - k - 1 >= 0` is `k + 1 ≤ i`. -/
def shiftRightLoop (k shift : Nat) : Nat → List UInt32 → List UInt32 → List UInt32
  | _, [], pn => pn
  | i, a :: as, pn =>
    let pn := if k + 1 ≤ i ∧ shift ≠ 0 then
      pn.modify (i - k - 1) (· ||| a <<< UInt32.ofNat (32 - shift)) else pn
    let pn := if k ≤ i then pn.modify (i - k) (· ||| a >>> UInt32.ofNat shift) else pn
    shiftRightLoop k shift (i + 1) as pn

theorem length_shiftRightLoop (k shift : Nat) :
    ∀ i as pn, (shiftRightLoop k shift i as pn).length = pn.length
  | _, [], _ => rfl
  | i, a :: as, pn => by
    rw [shiftRightLoop, length_shiftRightLoop]
    split_ifs <;> simp

/-- `operator>>=(shift)`. -/
def shiftRight {WIDTH : Nat} (a : BaseUint WIDTH) (shift : Nat) : BaseUint WIDTH where
  pn := shiftRightLoop (shift / 32) (shift % 32) 0 a.pn (List.replicate WIDTH 0)
  length_pn := by rw [length_shiftRightLoop, List.length_replicate]

/-! ### The carry loops -/

/-- The loop of `operator*=(uint32_t b32)`: `n = carry + b32 * pn[i]`, `pn[i] = n & 0xffffffff`,
`carry = n >> 32`. -/
def mulWordLoop (b32 : UInt32) : UInt64 → List UInt32 → List UInt32
  | _, [] => []
  | carry, p :: pn =>
    let n := carry + b32.toUInt64 * p.toUInt64
    (n &&& 0xffffffff).toUInt32 :: mulWordLoop b32 (n >>> 32) pn

theorem length_mulWordLoop (b32 : UInt32) :
    ∀ carry pn, (mulWordLoop b32 carry pn).length = pn.length
  | _, [] => rfl
  | _, _ :: pn => by simp [mulWordLoop, length_mulWordLoop b32 _ pn]

/-- `operator*=(uint32_t b32)`. -/
def mulWord {WIDTH : Nat} (a : BaseUint WIDTH) (b32 : UInt32) : BaseUint WIDTH where
  pn := mulWordLoop b32 0 a.pn
  length_pn := by rw [length_mulWordLoop, a.length_pn]

/-- The inner loop of `operator*=(b)`, over `i` while `i + j < WIDTH`, on the limbs `pn[j]` on
and `b.pn[i]`, with `aj = a.pn[j]`. -/
def mulAddLoop (aj : UInt32) : UInt64 → List UInt32 → List UInt32 → List UInt32
  | carry, p :: pn, b :: bs =>
    let n := carry + p.toUInt64 + aj.toUInt64 * b.toUInt64
    (n &&& 0xffffffff).toUInt32 :: mulAddLoop aj (n >>> 32) pn bs
  | _, pn, _ => pn

theorem length_mulAddLoop (aj : UInt32) :
    ∀ carry pn bs, (mulAddLoop aj carry pn bs).length = pn.length
  | _, _ :: pn, _ :: bs => by simp [mulAddLoop, length_mulAddLoop aj _ pn bs]
  | _, [], _ | _, _ :: _, [] => rfl

/-- The outer loop of `operator*=(b)`, over `j` and the limbs `a.pn[j]` on: the inner loop
rewrites the limbs from `j` on. -/
def mulLoop (b : List UInt32) : Nat → List UInt32 → List UInt32 → List UInt32
  | _, [], pn => pn
  | j, aj :: as, pn => mulLoop b (j + 1) as (pn.take j ++ mulAddLoop aj 0 (pn.drop j) b)

theorem length_mulLoop (b : List UInt32) :
    ∀ j as pn, (mulLoop b j as pn).length = pn.length
  | _, [], _ => rfl
  | j, aj :: as, pn => by
    have hlen : (pn.take j ++ mulAddLoop aj 0 (pn.drop j) b).length = pn.length := by
      simp [length_mulAddLoop]
      omega
    rw [mulLoop, length_mulLoop, hlen]

/-- `operator*=(b)`. -/
def mul {WIDTH : Nat} (a b : BaseUint WIDTH) : BaseUint WIDTH where
  pn := mulLoop b.pn 0 a.pn (List.replicate WIDTH 0)
  length_pn := by rw [length_mulLoop, List.length_replicate]

/-- The loop of `operator+=(b)`. -/
def addLoop : UInt64 → List UInt32 → List UInt32 → List UInt32
  | carry, p :: pn, b :: bs =>
    let n := carry + p.toUInt64 + b.toUInt64
    (n &&& 0xffffffff).toUInt32 :: addLoop (n >>> 32) pn bs
  | _, pn, _ => pn

theorem length_addLoop : ∀ carry pn bs, (addLoop carry pn bs).length = pn.length
  | _, _ :: pn, _ :: bs => by simp [addLoop, length_addLoop _ pn bs]
  | _, [], _ | _, _ :: _, [] => rfl

/-- `operator+=(b)`. -/
def add {WIDTH : Nat} (a b : BaseUint WIDTH) : BaseUint WIDTH where
  pn := addLoop 0 a.pn b.pn
  length_pn := by rw [length_addLoop, a.length_pn]

/-- `operator~()`. -/
def complement {WIDTH : Nat} (a : BaseUint WIDTH) : BaseUint WIDTH where
  pn := a.pn.map (~~~ ·)
  length_pn := by rw [List.length_map, a.length_pn]

/-- The loop `while (++pn[i] == 0 && i < WIDTH-1) i++;` of the prefix `operator++`, from
`pn[i]` on. -/
def incLoop : List UInt32 → List UInt32
  | [] => []
  | p :: pn => if p + 1 = 0 ∧ pn ≠ [] then (p + 1) :: incLoop pn else (p + 1) :: pn

theorem length_incLoop : ∀ pn, (incLoop pn).length = pn.length
  | [] => rfl
  | _ :: pn => by
    rw [incLoop]
    split_ifs <;> simp [length_incLoop pn]

/-- The prefix `operator++()`. -/
def inc {WIDTH : Nat} (a : BaseUint WIDTH) : BaseUint WIDTH where
  pn := incLoop a.pn
  length_pn := by rw [length_incLoop, a.length_pn]

/-- The unary `operator-()`: `~a`, then `++`. -/
def neg {WIDTH : Nat} (a : BaseUint WIDTH) : BaseUint WIDTH := inc (complement a)

/-- `operator-=(b)`: `*this += -b`. -/
def sub {WIDTH : Nat} (a b : BaseUint WIDTH) : BaseUint WIDTH := add a (neg b)

/-! ### The scans from the top -/

/-- The loop of `CompareTo(b)`, on both limb lists from the top. -/
def compareLoop : List UInt32 → List UInt32 → Int
  | p :: pn, b :: bs => if p < b then -1 else if p > b then 1 else compareLoop pn bs
  | _, _ => 0

/-- `CompareTo(b)`. -/
def CompareTo {WIDTH : Nat} (a b : BaseUint WIDTH) : Int := compareLoop a.pn.reverse b.pn.reverse

/-- The inner loop of `bits()`, over `bits` from `31` down to `1`, at the limb `pos` holding
`p`. -/
def bitsLoop (pos : Nat) (p : UInt32) : Nat → Nat
  | 0 => 32 * pos + 1
  | bits + 1 =>
    if p &&& (1 : UInt32) <<< UInt32.ofNat (bits + 1) ≠ 0 then 32 * pos + (bits + 1) + 1
    else bitsLoop pos p bits

/-- The outer loop of `bits()`, over `pos` from the top limb down. -/
def bitsPos (pn : List UInt32) : Nat → Nat
  | 0 => 0
  | pos + 1 => if pn.getD pos 0 ≠ 0 then bitsLoop pos (pn.getD pos 0) 31 else bitsPos pn pos

/-- `bits()`: the position of the highest set bit plus one, zero for zero. -/
def bits {WIDTH : Nat} (a : BaseUint WIDTH) : Nat := bitsPos a.pn WIDTH

/-! ### Division -/

/-- `pn[shift / 32] |= (1 << (shift & 31))`: set bit `shift`. -/
def setBit {WIDTH : Nat} (a : BaseUint WIDTH) (shift : Nat) : BaseUint WIDTH where
  pn := a.pn.modify (shift / 32) (· ||| (1 : UInt32) <<< UInt32.ofNat (shift % 32))
  length_pn := by rw [List.length_modify, a.length_pn]

/-- The `while (shift >= 0)` loop of `operator/=`, with `shift + 1` rounds left: the remainder
`num`, the shifted divisor `div` and the quotient. -/
def divLoop {WIDTH : Nat} : Nat → BaseUint WIDTH → BaseUint WIDTH → BaseUint WIDTH →
    BaseUint WIDTH
  | 0, _, _, quot => quot
  | shift + 1, num, div, quot =>
    if CompareTo num div ≥ 0 then
      divLoop shift (sub num div) (shiftRight div 1) (setBit quot shift)
    else divLoop shift num (shiftRight div 1) quot

/-- `operator/=(b)`: the quotient, or the `uint_error` it throws on a zero divisor. -/
def divAssign {WIDTH : Nat} (a b : BaseUint WIDTH) : Except String (BaseUint WIDTH) :=
  let div := b
  let num := a
  let num_bits := bits num
  let div_bits := bits div
  if div_bits = 0 then .error "Division by zero"
  -- the result is certainly 0
  else if div_bits > num_bits then .ok (zero WIDTH)
  else
    let shift := num_bits - div_bits
    -- shift so that div and num align
    let div := shiftLeft div shift
    .ok (divLoop (shift + 1) num div (zero WIDTH))

/-! ### Limbs as a number -/

theorem limbs_lt (pn : List UInt32) : ∀ d ∈ pn.map UInt32.toNat, d < 2 ^ 32 := by
  intro d hd
  obtain ⟨p, -, rfl⟩ := List.mem_map.mp hd
  exact p.toNat_lt

@[simp] theorem limbsToNat_nil : limbsToNat [] = 0 := rfl

theorem limbsToNat_cons (p : UInt32) (pn : List UInt32) :
    limbsToNat (p :: pn) = p.toNat + 2 ^ 32 * limbsToNat pn := by
  simp [limbsToNat, Nat.ofDigits_cons]

theorem limbsToNat_append (pn qn : List UInt32) :
    limbsToNat (pn ++ qn) = limbsToNat pn + 2 ^ (32 * pn.length) * limbsToNat qn := by
  rw [limbsToNat, List.map_append, Nat.ofDigits_append, List.length_map, ← pow_mul]
  rfl

theorem limbsToNat_lt (pn : List UInt32) : limbsToNat pn < 2 ^ (32 * pn.length) := by
  rw [pow_mul, ← List.length_map (f := UInt32.toNat)]
  exact Nat.ofDigits_lt_base_pow_length (by norm_num) (limbs_lt pn)

theorem toNat_lt {WIDTH : Nat} (a : BaseUint WIDTH) : a.toNat < 2 ^ (32 * WIDTH) := by
  have h := limbsToNat_lt a.pn
  rwa [a.length_pn] at h

theorem limbsToNat_replicate_zero (n : Nat) : limbsToNat (List.replicate n 0) = 0 :=
  Digits.ofDigits_eq_zero (by simp)

@[simp] theorem toNat_zero (WIDTH : Nat) : (zero WIDTH).toNat = 0 :=
  limbsToNat_replicate_zero WIDTH

/-- Bit `b` of limb `j`. -/
theorem testBit_limbsToNat (pn : List UInt32) (j : Nat) {b : Nat} (hb : b < 32) :
    (limbsToNat pn).testBit (32 * j + b) = (pn.getD j 0).toNat.testBit b := by
  rw [limbsToNat, Digits.testBit_ofDigits_two_pow hb (limbs_lt pn), List.getD_eq_getElem?_getD,
    List.getD_eq_getElem?_getD, List.getElem?_map]
  cases pn[j]? <;> rfl

/-- Two limb lists of one length stand for one number exactly when they are equal. -/
theorem limbsToNat_injective {pn qn : List UInt32} (hlen : pn.length = qn.length)
    (h : limbsToNat pn = limbsToNat qn) : pn = qn := by
  apply List.ext_getElem hlen
  intro j h1 h2
  apply UInt32.toNat_inj.mp
  apply Nat.eq_of_testBit_eq
  intro b
  by_cases hb : b < 32
  · have := testBit_limbsToNat pn j hb
    rw [h, testBit_limbsToNat qn j hb, List.getD_eq_getElem _ _ h1,
      List.getD_eq_getElem _ _ h2] at this
    exact this.symm
  · rw [Nat.testBit_lt_two_pow ((UInt32.toNat_lt _).trans_le (Nat.pow_le_pow_right (by norm_num)
      (by omega))), Nat.testBit_lt_two_pow ((UInt32.toNat_lt _).trans_le
      (Nat.pow_le_pow_right (by norm_num) (by omega)))]

/-- Limbs hold the bits of `X` below `2 ^ (32 * length)`. -/
theorem limbsToNat_eq_of_bits {pn : List UInt32} {X : Nat}
    (h : ∀ j < pn.length, ∀ b < 32, (pn.getD j 0).toNat.testBit b = X.testBit (32 * j + b)) :
    limbsToNat pn = X % 2 ^ (32 * pn.length) := by
  apply Digits.eq_of_testBit_blocks (by norm_num : 0 < 32)
  intro j b hb
  rw [testBit_limbsToNat pn j hb, Nat.testBit_mod_two_pow]
  by_cases hj : j < pn.length
  · rw [h j hj b hb, decide_eq_true (by omega), Bool.true_and]
  · rw [List.getD_eq_default _ _ (by omega), decide_eq_false (by omega), Bool.false_and]
    simp

/-- A `base_uint` whose limbs hold the bits of `X` stands for `X` modulo `2 ^ (32 * WIDTH)`. -/
theorem toNat_eq_of_bits {WIDTH : Nat} {X : Nat} (c : BaseUint WIDTH)
    (h : ∀ j < WIDTH, ∀ b < 32, (c.pn.getD j 0).toNat.testBit b = X.testBit (32 * j + b)) :
    c.toNat = X % 2 ^ (32 * WIDTH) := by
  have hc := @limbsToNat_eq_of_bits c.pn X (by rw [c.length_pn]; exact h)
  rwa [c.length_pn] at hc

/-! ### Bits of the words -/

theorem getD_modify (pn : List UInt32) (m j : Nat) (f : UInt32 → UInt32) (hj : j < pn.length) :
    (pn.modify m f).getD j 0 = if m = j then f (pn.getD j 0) else pn.getD j 0 := by
  rw [List.getD_eq_getElem _ _ (by simpa using hj), List.getElem_modify,
    List.getD_eq_getElem _ _ hj]

theorem testBit_or (x y : UInt32) (b : Nat) :
    (x ||| y).toNat.testBit b = (x.toNat.testBit b || y.toNat.testBit b) := by
  rw [UInt32.toNat_or, Nat.testBit_or]

/-- `x << s` keeps the bits of `x` that stay below `32`. -/
theorem testBit_shiftLeft_ofNat (x : UInt32) {s : Nat} (hs : s < 32) (b : Nat) :
    (x <<< UInt32.ofNat s).toNat.testBit b =
      (decide (b < 32) && decide (s ≤ b) && x.toNat.testBit (b - s)) := by
  rw [UInt32.toNat_shiftLeft, UInt32.toNat_ofNat_of_lt' (by simp [UInt32.size]; omega), Nat.mod_eq_of_lt hs,
    Nat.testBit_mod_two_pow, Nat.testBit_shiftLeft]
  simp only [ge_iff_le, Bool.and_assoc]

theorem testBit_shiftRight_ofNat (x : UInt32) {s : Nat} (hs : s < 32) (b : Nat) :
    (x >>> UInt32.ofNat s).toNat.testBit b = x.toNat.testBit (s + b) := by
  rw [UInt32.toNat_shiftRight, UInt32.toNat_ofNat_of_lt' (by simp [UInt32.size]; omega), Nat.mod_eq_of_lt hs,
    Nat.testBit_shiftRight]

theorem testBit_toNat_ge (x : UInt32) {b : Nat} (hb : 32 ≤ b) : x.toNat.testBit b = false :=
  Nat.testBit_lt_two_pow ((UInt32.toNat_lt _).trans_le (Nat.pow_le_pow_right (by norm_num) hb))

/-- A write `pn[m] |= y` that may be skipped. -/
theorem getD_modify_or (c : Prop) [Decidable c] (pn : List UInt32) (m j : Nat) (y : UInt32)
    (hj : j < pn.length) :
    (if c then pn.modify m (· ||| y) else pn).getD j 0 =
      (pn.getD j 0 ||| if c ∧ m = j then y else 0) := by
  by_cases hc : c
  · rw [if_pos hc, getD_modify _ _ _ _ hj]
    by_cases hm : m = j
    · rw [if_pos hm, if_pos ⟨hc, hm⟩]
    · rw [if_neg hm, if_neg fun h => hm h.2, UInt32.or_zero]
  · rw [if_neg hc, if_neg fun h => hc h.1, UInt32.or_zero]

/-! ### `operator<<=` -/

/-- What the loop of `operator<<=` writes from round `i` on: limb `j` gets the low part of limb
`j - k` of `a` and the high part of limb `j - k - 1`, when those rounds are still to come. -/
theorem shiftLeftLoop_getD (WIDTH k s : Nat) (a : List UInt32) :
    ∀ i pn, ∀ j < pn.length, (shiftLeftLoop WIDTH k s i (a.drop i) pn).getD j 0 =
      (pn.getD j 0 |||
        (if i + k ≤ j ∧ j < WIDTH then a.getD (j - k) 0 <<< UInt32.ofNat s else 0) |||
        (if s ≠ 0 ∧ i + k + 1 ≤ j ∧ j < WIDTH then
          a.getD (j - k - 1) 0 >>> UInt32.ofNat (32 - s) else 0)) := by
  intro i pn j hj
  generalize hn : a.length - i = n
  induction n generalizing i pn with
  | zero =>
    -- every round is done: what is left to come reads past the end of `a`
    have hlo : (if i + k ≤ j ∧ j < WIDTH then a.getD (j - k) 0 <<< UInt32.ofNat s else 0) = 0 := by
      split_ifs
      · rw [List.getD_eq_default _ _ (by omega), UInt32.zero_shiftLeft]
      · rfl
    have hhi : (if s ≠ 0 ∧ i + k + 1 ≤ j ∧ j < WIDTH then
        a.getD (j - k - 1) 0 >>> UInt32.ofNat (32 - s) else 0) = 0 := by
      split_ifs
      · rw [List.getD_eq_default _ _ (by omega), UInt32.zero_shiftRight]
      · rfl
    rw [List.drop_eq_nil_of_le (by omega), shiftLeftLoop, hlo, hhi, UInt32.or_zero, UInt32.or_zero]
  | succ n ih =>
    have hi : i < a.length := by omega
    have hlen1 : j < (if i + k + 1 < WIDTH ∧ s ≠ 0 then
        pn.modify (i + k + 1) (· ||| a.getD i 0 >>> UInt32.ofNat (32 - s)) else pn).length := by
      split_ifs <;> simpa using hj
    have hlen2 : j < (if i + k < WIDTH then (if i + k + 1 < WIDTH ∧ s ≠ 0 then
        pn.modify (i + k + 1) (· ||| a.getD i 0 >>> UInt32.ofNat (32 - s)) else pn).modify (i + k)
          (· ||| a.getD i 0 <<< UInt32.ofNat s) else (if i + k + 1 < WIDTH ∧ s ≠ 0 then
        pn.modify (i + k + 1) (· ||| a.getD i 0 >>> UInt32.ofNat (32 - s)) else pn)).length := by
      split_ifs <;> simpa using hj
    rw [List.drop_eq_getElem_cons hi, ← List.getD_eq_getElem _ 0 hi, shiftLeftLoop,
      ih (i + 1) _ hlen2 (by omega), getD_modify_or _ _ _ _ _ hlen1, getD_modify_or _ _ _ _ _ hj]
    -- round `i` writes limbs `i + k` and `i + k + 1`; the other limbs are left to later rounds
    have hlo : j = i + k → a.getD (j - k) 0 = a.getD i 0 := fun h => by rw [h, Nat.add_sub_cancel]
    have hhi : j = i + k + 1 → a.getD (j - k - 1) 0 = a.getD i 0 := fun h => by
      rw [h, show i + k + 1 - k - 1 = i by omega]
    by_cases hs : s = 0 <;> by_cases hjW : j < WIDTH <;>
    rcases (show j < i + k ∨ j = i + k ∨ j = i + k + 1 ∨ i + k + 1 < j by omega) with
      h | h | h | h <;>
    simp (disch := omega) only [if_pos, if_neg, UInt32.or_zero, hlo, hhi] <;>
    ac_rfl

/-- `operator<<=` multiplies by `2 ^ shift`, modulo `2 ^ (32 * WIDTH)`: bit `b` of limb `j` is
bit `32 j + b - shift` of `a`, from limb `j - k` when `b ≥ shift % 32` and from the limb below
otherwise. -/
theorem toNat_shiftLeft {WIDTH : Nat} (a : BaseUint WIDTH) (shift : Nat) :
    (a.shiftLeft shift).toNat = a.toNat * 2 ^ shift % 2 ^ (32 * WIDTH) := by
  apply toNat_eq_of_bits
  intro j hjW b hb
  set k := shift / 32
  set s := shift % 32
  have hs : s < 32 := Nat.mod_lt _ (by norm_num)
  have hshift : shift = 32 * k + s := (Nat.div_add_mod shift 32).symm
  have hloop := shiftLeftLoop_getD WIDTH k s a.pn 0 (List.replicate WIDTH 0) j (by simpa using hjW)
  rw [List.drop_zero] at hloop
  have h0 : (List.replicate WIDTH (0 : UInt32)).getD j 0 = 0 := List.getD_replicate 0 hjW
  rw [shiftLeft, hloop, h0, UInt32.zero_or, testBit_or, Nat.testBit_mul_two_pow,
    hshift]
  by_cases hbs : s ≤ b
  · -- bit `b` comes from limb `j - k`
    have hhi : (if s ≠ 0 ∧ 0 + k + 1 ≤ j ∧ j < WIDTH then
        a.pn.getD (j - k - 1) 0 >>> UInt32.ofNat (32 - s) else 0).toNat.testBit b = false := by
      split_ifs
      · rw [testBit_shiftRight_ofNat _ (by omega), testBit_toNat_ge _ (by omega)]
      · simp
    rw [hhi, Bool.or_false]
    by_cases hkj : k ≤ j
    · rw [if_pos ⟨by omega, hjW⟩, testBit_shiftLeft_ofNat _ hs, decide_eq_true hb,
        decide_eq_true hbs, decide_eq_true (by omega),
        show 32 * j + b - (32 * k + s) = 32 * (j - k) + (b - s) by omega, toNat,
        testBit_limbsToNat _ _ (by omega)]
      rfl
    · rw [if_neg (by omega), decide_eq_false (by omega)]
      simp
  · -- bit `b` comes from the top of limb `j - k - 1`
    have hlo : (if 0 + k ≤ j ∧ j < WIDTH then
        a.pn.getD (j - k) 0 <<< UInt32.ofNat s else 0).toNat.testBit b = false := by
      split_ifs
      · rw [testBit_shiftLeft_ofNat _ hs, decide_eq_false hbs, Bool.and_false, Bool.false_and]
      · simp
    rw [hlo, Bool.false_or]
    by_cases hkj : k + 1 ≤ j
    · rw [if_pos ⟨by omega, by omega, hjW⟩, testBit_shiftRight_ofNat _ (by omega),
        decide_eq_true (by omega),
        show 32 * j + b - (32 * k + s) = 32 * (j - k - 1) + (32 - s + b) by omega, toNat,
        testBit_limbsToNat _ _ (by omega)]
      rfl
    · rw [if_neg (by omega), decide_eq_false (by omega)]
      simp

/-! ### `operator>>=` -/

/-- What the loop of `operator>>=` writes from round `i` on: limb `j` gets the high part of limb
`j + k` of `a` and the low part of limb `j + k + 1`, when those rounds are still to come. -/
theorem shiftRightLoop_getD (k s : Nat) (a : List UInt32) :
    ∀ i pn, ∀ j < pn.length, (shiftRightLoop k s i (a.drop i) pn).getD j 0 =
      (pn.getD j 0 |||
        (if i ≤ j + k then a.getD (j + k) 0 >>> UInt32.ofNat s else 0) |||
        (if s ≠ 0 ∧ i ≤ j + k + 1 then a.getD (j + k + 1) 0 <<< UInt32.ofNat (32 - s) else 0)) := by
  intro i pn j hj
  generalize hn : a.length - i = n
  induction n generalizing i pn with
  | zero =>
    -- every round is done: what is left to come reads past the end of `a`
    have hlo : (if i ≤ j + k then a.getD (j + k) 0 >>> UInt32.ofNat s else 0) = 0 := by
      split_ifs
      · rw [List.getD_eq_default _ _ (by omega), UInt32.zero_shiftRight]
      · rfl
    have hhi : (if s ≠ 0 ∧ i ≤ j + k + 1 then
        a.getD (j + k + 1) 0 <<< UInt32.ofNat (32 - s) else 0) = 0 := by
      split_ifs
      · rw [List.getD_eq_default _ _ (by omega), UInt32.zero_shiftLeft]
      · rfl
    rw [List.drop_eq_nil_of_le (by omega), shiftRightLoop, hlo, hhi, UInt32.or_zero,
      UInt32.or_zero]
  | succ n ih =>
    have hi : i < a.length := by omega
    have hlen1 : j < (if k + 1 ≤ i ∧ s ≠ 0 then
        pn.modify (i - k - 1) (· ||| a.getD i 0 <<< UInt32.ofNat (32 - s)) else pn).length := by
      split_ifs <;> simpa using hj
    have hlen2 : j < (if k ≤ i then (if k + 1 ≤ i ∧ s ≠ 0 then
        pn.modify (i - k - 1) (· ||| a.getD i 0 <<< UInt32.ofNat (32 - s)) else pn).modify (i - k)
          (· ||| a.getD i 0 >>> UInt32.ofNat s) else (if k + 1 ≤ i ∧ s ≠ 0 then
        pn.modify (i - k - 1) (· ||| a.getD i 0 <<< UInt32.ofNat (32 - s)) else pn)).length := by
      split_ifs <;> simpa using hj
    rw [List.drop_eq_getElem_cons hi, ← List.getD_eq_getElem _ 0 hi, shiftRightLoop,
      ih (i + 1) _ hlen2 (by omega), getD_modify_or _ _ _ _ _ hlen1, getD_modify_or _ _ _ _ _ hj]
    -- round `i` writes limbs `i - k - 1` and `i - k`; the other limbs are left to other rounds
    have hlo : j + k = i → a.getD (j + k) 0 = a.getD i 0 := fun h => by rw [h]
    have hhi : j + k + 1 = i → a.getD (j + k + 1) 0 = a.getD i 0 := fun h => by rw [h]
    by_cases hs : s = 0 <;>
    rcases (show j + k + 1 < i ∨ j + k + 1 = i ∨ j + k = i ∨ i < j + k by omega) with
      h | h | h | h <;>
    simp (disch := omega) only [if_pos, if_neg, UInt32.or_zero, hlo, hhi]

/-- `operator>>=` divides by `2 ^ shift`: bit `b` of limb `j` is bit `32 j + b + shift` of `a`,
from limb `j + k` when it stays below `32` and from the limb above otherwise. -/
theorem toNat_shiftRight {WIDTH : Nat} (a : BaseUint WIDTH) (shift : Nat) :
    (a.shiftRight shift).toNat = a.toNat / 2 ^ shift := by
  have hlt : a.toNat / 2 ^ shift < 2 ^ (32 * WIDTH) :=
    (Nat.div_le_self _ _).trans_lt (toNat_lt a)
  rw [← Nat.mod_eq_of_lt hlt]
  apply toNat_eq_of_bits
  intro j hjW b hb
  set k := shift / 32
  set s := shift % 32
  have hs : s < 32 := Nat.mod_lt _ (by norm_num)
  have hshift : shift = 32 * k + s := (Nat.div_add_mod shift 32).symm
  have hloop := shiftRightLoop_getD k s a.pn 0 (List.replicate WIDTH 0) j (by simpa using hjW)
  rw [List.drop_zero] at hloop
  have h0 : (List.replicate WIDTH (0 : UInt32)).getD j 0 = 0 := List.getD_replicate 0 hjW
  rw [shiftRight, hloop, h0, UInt32.zero_or, testBit_or, Nat.testBit_div_two_pow, hshift,
    if_pos (Nat.zero_le _)]
  by_cases hbs : b + s < 32
  · -- bit `b` comes from limb `j + k`
    have hhi : (if s ≠ 0 ∧ 0 ≤ j + k + 1 then
        a.pn.getD (j + k + 1) 0 <<< UInt32.ofNat (32 - s) else 0).toNat.testBit b = false := by
      split_ifs
      · rw [testBit_shiftLeft_ofNat _ (by omega), decide_eq_false (show ¬ 32 - s ≤ b by omega),
          Bool.and_false, Bool.false_and]
      · simp
    rw [hhi, Bool.or_false, testBit_shiftRight_ofNat _ hs,
      show 32 * j + b + (32 * k + s) = 32 * (j + k) + (s + b) by omega, toNat,
      testBit_limbsToNat _ _ (by omega)]
  · -- bit `b` comes from the bottom of limb `j + k + 1`
    rw [testBit_shiftRight_ofNat _ hs, testBit_toNat_ge _ (by omega), Bool.false_or,
      if_pos ⟨by omega, Nat.zero_le _⟩, testBit_shiftLeft_ofNat _ (by omega), decide_eq_true hb,
      decide_eq_true (by omega), show 32 * j + b + (32 * k + s) = 32 * (j + k + 1) +
        (b - (32 - s)) by omega, toNat, testBit_limbsToNat _ _ (by omega)]
    rfl

/-! ### The carry loops -/

theorem two_pow_limbs_succ (n : Nat) : 2 ^ (32 * (n + 1)) = 2 ^ 32 * 2 ^ (32 * n) := by
  rw [Nat.mul_succ, pow_add, Nat.mul_comm]

/-- `n & 0xffffffff`: the limb a carry loop writes. -/
theorem toNat_lo (n : UInt64) : (n &&& 0xffffffff).toUInt32.toNat = n.toNat % 2 ^ 32 := by
  rw [UInt64.toNat_toUInt32, UInt64.toNat_and,
    show (0xffffffff : UInt64).toNat = 2 ^ 32 - 1 from rfl, Nat.and_two_pow_sub_one_eq_mod,
    Nat.mod_mod]

/-- `n >> 32`: the carry into the next limb. -/
theorem toNat_hi (n : UInt64) : (n >>> 32).toNat = n.toNat / 2 ^ 32 := by
  rw [UInt64.toNat_shiftRight, Nat.shiftRight_eq_div_pow]
  rfl

theorem hi_lt (n : UInt64) : (n >>> 32).toNat < 2 ^ 32 := by
  rw [toNat_hi]
  have := n.toNat_lt
  omega

/-- One round of a carry loop: the limb written is `n` modulo `2 ^ 32` and `n >> 32` goes on, so
a value taken modulo `2 ^ 32 * Q` splits at the written limb. -/
theorem limbsToNat_carry_cons (n : UInt64) {pn : List UInt32} {M Q : Nat}
    (h : limbsToNat pn = (n.toNat / 2 ^ 32 + M) % Q) :
    limbsToNat ((n &&& 0xffffffff).toUInt32 :: pn) = (n.toNat + 2 ^ 32 * M) % (2 ^ 32 * Q) := by
  rw [limbsToNat_cons, toNat_lo, h, Nat.mod_mul, Nat.add_mul_mod_self_left,
    Nat.add_mul_div_left _ _ (by norm_num)]

theorem mul_le_word (a b : UInt32) : a.toNat * b.toNat ≤ (2 ^ 32 - 1) * (2 ^ 32 - 1) :=
  Nat.mul_le_mul (by have := a.toNat_lt; omega) (by have := b.toNat_lt; omega)

/-- The `uint64_t` accumulator of the multiplications does not wrap while the carry is a
word. -/
theorem toNat_mulAdd_acc {carry : UInt64} (hc : carry.toNat < 2 ^ 32) (p a b : UInt32) :
    (carry + p.toUInt64 + a.toUInt64 * b.toUInt64).toNat =
      carry.toNat + p.toNat + a.toNat * b.toNat := by
  have hp := p.toNat_lt
  have hab := mul_le_word a b
  simp only [UInt64.toNat_add, UInt64.toNat_mul, UInt32.toNat_toUInt64]
  rw [Nat.mod_eq_of_lt (a := a.toNat * b.toNat) (by omega), Nat.mod_eq_of_lt (by omega),
    Nat.mod_eq_of_lt (by omega)]

theorem toNat_mulWord_acc {carry : UInt64} (hc : carry.toNat < 2 ^ 32) (a b : UInt32) :
    (carry + a.toUInt64 * b.toUInt64).toNat = carry.toNat + a.toNat * b.toNat := by
  have hab := mul_le_word a b
  simp only [UInt64.toNat_add, UInt64.toNat_mul, UInt32.toNat_toUInt64]
  rw [Nat.mod_eq_of_lt (a := a.toNat * b.toNat) (by omega), Nat.mod_eq_of_lt (by omega)]

theorem toNat_add_acc {carry : UInt64} (hc : carry.toNat < 2 ^ 32) (p b : UInt32) :
    (carry + p.toUInt64 + b.toUInt64).toNat = carry.toNat + p.toNat + b.toNat := by
  have hp := p.toNat_lt
  have hb := b.toNat_lt
  simp only [UInt64.toNat_add, UInt32.toNat_toUInt64]
  rw [Nat.mod_eq_of_lt (by omega), Nat.mod_eq_of_lt (by omega)]

/-- The loop of `operator*=(uint32_t)` multiplies the limbs by `b32` and adds the carry, modulo
`2 ^ (32 * length)`. -/
theorem mulWordLoop_toNat (b32 : UInt32) : ∀ (carry : UInt64) (pn : List UInt32),
    carry.toNat < 2 ^ 32 → limbsToNat (mulWordLoop b32 carry pn) =
      (carry.toNat + b32.toNat * limbsToNat pn) % 2 ^ (32 * pn.length)
  | _, [], _ => by rw [mulWordLoop, List.length_nil, Nat.mul_zero, pow_zero, Nat.mod_one]; rfl
  | carry, p :: pn, hc => by
    have ih := mulWordLoop_toNat b32 _ pn (hi_lt (carry + b32.toUInt64 * p.toUInt64))
    rw [toNat_hi] at ih
    rw [mulWordLoop, limbsToNat_carry_cons _ ih, toNat_mulWord_acc hc, limbsToNat_cons,
      List.length_cons, two_pow_limbs_succ]
    congr 1
    ring

theorem toNat_mulWord {WIDTH : Nat} (a : BaseUint WIDTH) (b32 : UInt32) :
    (a.mulWord b32).toNat = a.toNat * b32.toNat % 2 ^ (32 * WIDTH) := by
  have h := mulWordLoop_toNat b32 0 a.pn (by decide)
  rw [a.length_pn] at h
  rw [toNat, mulWord, h, toNat, Nat.mul_comm, UInt64.toNat_zero, Nat.zero_add]

/-- The inner loop of `operator*=(b)` adds `aj` times the low limbs of `b` and the carry to the
limbs, modulo `2 ^ (32 * length)`. -/
theorem mulAddLoop_toNat (aj : UInt32) : ∀ (carry : UInt64) (pn bs : List UInt32),
    carry.toNat < 2 ^ 32 → pn.length ≤ bs.length → limbsToNat (mulAddLoop aj carry pn bs) =
      (carry.toNat + limbsToNat pn + aj.toNat * limbsToNat (bs.take pn.length)) %
        2 ^ (32 * pn.length)
  | _, [], _, _, _ => by
    simp only [mulAddLoop, List.length_nil, Nat.mul_zero, pow_zero, Nat.mod_one, limbsToNat_nil]
  | _, _ :: _, [], _, hlen => by simp at hlen
  | carry, p :: pn, b :: bs, hc, hlen => by
    have ih := mulAddLoop_toNat aj _ pn bs
      (hi_lt (carry + p.toUInt64 + aj.toUInt64 * b.toUInt64)) (by simpa using hlen)
    rw [toNat_hi, Nat.add_assoc] at ih
    rw [mulAddLoop, limbsToNat_carry_cons _ ih, toNat_mulAdd_acc hc, List.length_cons,
      List.take_succ_cons, limbsToNat_cons, limbsToNat_cons, two_pow_limbs_succ]
    congr 1
    ring

/-- The loop of `operator+=(b)` adds the limbs and the carry, modulo `2 ^ (32 * length)`. -/
theorem addLoop_toNat : ∀ (carry : UInt64) (pn bs : List UInt32),
    carry.toNat < 2 ^ 32 → pn.length = bs.length → limbsToNat (addLoop carry pn bs) =
      (carry.toNat + limbsToNat pn + limbsToNat bs) % 2 ^ (32 * pn.length)
  | _, [], _, _, _ => by
    simp only [addLoop, List.length_nil, Nat.mul_zero, pow_zero, Nat.mod_one, limbsToNat_nil]
  | _, _ :: _, [], _, hlen => by simp at hlen
  | carry, p :: pn, b :: bs, hc, hlen => by
    have ih := addLoop_toNat _ pn bs (hi_lt (carry + p.toUInt64 + b.toUInt64))
      (by simpa using hlen)
    rw [toNat_hi, Nat.add_assoc] at ih
    rw [addLoop, limbsToNat_carry_cons _ ih, toNat_add_acc hc, List.length_cons,
      limbsToNat_cons, limbsToNat_cons, two_pow_limbs_succ]
    congr 1
    ring

theorem toNat_add {WIDTH : Nat} (a b : BaseUint WIDTH) :
    (a.add b).toNat = (a.toNat + b.toNat) % 2 ^ (32 * WIDTH) := by
  have h := addLoop_toNat 0 a.pn b.pn (by decide) (by rw [a.length_pn, b.length_pn])
  rw [a.length_pn] at h
  rw [toNat, add, h, toNat, toNat, UInt64.toNat_zero, Nat.zero_add]

/-- The low `m` limbs stand for the value modulo `2 ^ (32 m)`. -/
theorem limbsToNat_take (pn : List UInt32) (m : Nat) :
    limbsToNat (pn.take m) = limbsToNat pn % 2 ^ (32 * m) := by
  rcases le_or_gt m pn.length with hm | hm
  · have hlt := limbsToNat_lt (pn.take m)
    rw [List.length_take_of_le hm] at hlt
    conv_rhs => rw [← List.take_append_drop m pn]
    rw [limbsToNat_append, List.length_take_of_le hm, Nat.add_mul_mod_self_left,
      Nat.mod_eq_of_lt hlt]
  · rw [List.take_of_length_le hm.le, Nat.mod_eq_of_lt ((limbsToNat_lt pn).trans_le
      (Nat.pow_le_pow_right (by norm_num) (by omega)))]

/-- Round `j` of `operator*=(b)` adds `aj * b`, shifted up `j` limbs, to the limbs: the inner
loop drops what falls off the top, and `b` only counts modulo the limbs it reaches. -/
theorem mulLoop_round (b : List UInt32) (aj : UInt32) {j : Nat} {pn : List UInt32}
    (hj : j ≤ pn.length) (hb : pn.length ≤ b.length) :
    limbsToNat (pn.take j ++ mulAddLoop aj 0 (pn.drop j) b) ≡
      limbsToNat pn + 2 ^ (32 * j) * (aj.toNat * limbsToNat b) [MOD 2 ^ (32 * pn.length)] := by
  have hinner := mulAddLoop_toNat aj 0 (pn.drop j) b (by decide)
    (by rw [List.length_drop]; omega)
  rw [List.length_drop, UInt64.toNat_zero, Nat.zero_add, limbsToNat_take] at hinner
  have hsplit : 2 ^ (32 * pn.length) = 2 ^ (32 * j) * 2 ^ (32 * (pn.length - j)) := by
    rw [← pow_add]
    congr 1
    omega
  -- both reductions modulo `2 ^ (32 * (pn.length - j))` vanish once shifted up `j` limbs
  have hcarry := (Nat.mod_modEq (limbsToNat (pn.drop j) +
    aj.toNat * (limbsToNat b % 2 ^ (32 * (pn.length - j)))) (2 ^ (32 * (pn.length - j)))).mul_left'
      (2 ^ (32 * j))
  have hb := ((Nat.mod_modEq (limbsToNat b) (2 ^ (32 * (pn.length - j)))).mul_left
    aj.toNat).mul_left' (2 ^ (32 * j))
  rw [← hsplit] at hcarry hb
  conv_rhs => rw [← List.take_append_drop j pn]
  rw [limbsToNat_append, limbsToNat_append, List.length_take_of_le hj, hinner]
  refine (hcarry.add_left _).trans ?_
  rw [Nat.mul_add, ← Nat.add_assoc]
  exact hb.add_left _

/-- The outer loop of `operator*=(b)` from round `j` on adds `a * b`, shifted up `j` limbs, where
`as` are the limbs of `a` still to come. -/
theorem mulLoop_modEq (b : List UInt32) : ∀ (j : Nat) (as pn : List UInt32),
    j + as.length = pn.length → pn.length ≤ b.length →
    limbsToNat (mulLoop b j as pn) ≡
      limbsToNat pn + 2 ^ (32 * j) * (limbsToNat as * limbsToNat b) [MOD 2 ^ (32 * pn.length)]
  | j, [], pn, _, _ => by simp [mulLoop, Nat.ModEq.refl]
  | j, aj :: as, pn, hj, hb => by
    have hlen : (pn.take j ++ mulAddLoop aj 0 (pn.drop j) b).length = pn.length := by
      simp only [List.length_append, List.length_take, length_mulAddLoop, List.length_drop]
      omega
    have ih := mulLoop_modEq b (j + 1) as _ (by rw [hlen]; simp at hj; omega) (hlen ▸ hb)
    rw [hlen] at ih
    rw [mulLoop]
    refine ih.trans ?_
    refine ((mulLoop_round b aj (by simp at hj; omega) hb).add_right _).trans ?_
    -- `aj` and the limbs above it are `aj :: as`
    rw [limbsToNat_cons, two_pow_limbs_succ, Nat.ModEq]
    congr 1
    ring

theorem toNat_mul {WIDTH : Nat} (a b : BaseUint WIDTH) :
    (a.mul b).toNat = a.toNat * b.toNat % 2 ^ (32 * WIDTH) := by
  have h := mulLoop_modEq b.pn 0 a.pn (List.replicate WIDTH 0)
    (by rw [a.length_pn, List.length_replicate, Nat.zero_add])
    (by rw [b.length_pn, List.length_replicate])
  rw [List.length_replicate, limbsToNat_replicate_zero, Nat.zero_add, Nat.mul_zero, pow_zero,
    Nat.one_mul] at h
  have hlt := toNat_lt (a.mul b)
  rw [← Nat.mod_eq_of_lt hlt]
  exact h

/-! ### `operator~`, `operator++` and `operator-=` -/

/-- The limbs and their complements add up to all ones. -/
theorem limbsToNat_complement : ∀ pn : List UInt32,
    limbsToNat (pn.map (~~~ ·)) + limbsToNat pn + 1 = 2 ^ (32 * pn.length)
  | [] => rfl
  | p :: pn => by
    have ih := limbsToNat_complement pn
    have hp := p.toNat_lt
    rw [List.map_cons, limbsToNat_cons, limbsToNat_cons, UInt32.toNat_not, List.length_cons,
      two_pow_limbs_succ, ← ih]
    simp only [UInt32.size]
    omega

theorem toNat_complement {WIDTH : Nat} (a : BaseUint WIDTH) :
    a.complement.toNat = 2 ^ (32 * WIDTH) - 1 - a.toNat := by
  have h := limbsToNat_complement a.pn
  rw [a.length_pn] at h
  show limbsToNat (a.pn.map (~~~ ·)) = 2 ^ (32 * WIDTH) - 1 - limbsToNat a.pn
  omega

/-- `++` carries through the limbs that wrap to zero and drops the carry out of the top. -/
theorem limbsToNat_incLoop : ∀ pn : List UInt32,
    limbsToNat (incLoop pn) = (limbsToNat pn + 1) % 2 ^ (32 * pn.length)
  | [] => rfl
  | p :: pn => by
    have hL := limbsToNat_lt pn
    have hp := p.toNat_lt
    have hsucc : (p + 1).toNat = (p.toNat + 1) % 2 ^ 32 := by simp [UInt32.toNat_add]
    rw [incLoop, limbsToNat_cons, List.length_cons, two_pow_limbs_succ]
    by_cases hwrap : p + 1 = 0
    · have hp' : p.toNat = 2 ^ 32 - 1 := by
        rw [hwrap, UInt32.toNat_zero] at hsucc
        omega
      by_cases hpn : pn = []
      · -- the top limb wraps and the carry is lost
        subst hpn
        rw [if_neg fun h => h.2 rfl, limbsToNat_cons, hwrap, hp']
        rfl
      · rw [if_pos ⟨hwrap, hpn⟩, limbsToNat_cons, hwrap, limbsToNat_incLoop pn, hp',
          show 2 ^ 32 - 1 + 2 ^ 32 * limbsToNat pn + 1 = 2 ^ 32 * (limbsToNat pn + 1) by omega,
          Nat.mul_mod_mul_left, UInt32.toNat_zero, Nat.zero_add]
    · -- no wrap: the carry stops at this limb
      have hlt : p.toNat + 1 < 2 ^ 32 := by
        by_contra hge
        apply hwrap
        apply UInt32.toNat_inj.mp
        rw [hsucc, UInt32.toNat_zero]
        omega
      rw [if_neg fun h => hwrap h.1, limbsToNat_cons, hsucc, Nat.mod_eq_of_lt hlt,
        Nat.mod_eq_of_lt (by omega)]
      omega

theorem toNat_inc {WIDTH : Nat} (a : BaseUint WIDTH) :
    a.inc.toNat = (a.toNat + 1) % 2 ^ (32 * WIDTH) := by
  have h := limbsToNat_incLoop a.pn
  rw [a.length_pn] at h
  rw [toNat, inc, h, toNat]

theorem toNat_neg {WIDTH : Nat} (a : BaseUint WIDTH) :
    a.neg.toNat = (2 ^ (32 * WIDTH) - a.toNat) % 2 ^ (32 * WIDTH) := by
  have ha := toNat_lt a
  rw [neg, toNat_inc, toNat_complement,
    show 2 ^ (32 * WIDTH) - 1 - a.toNat + 1 = 2 ^ (32 * WIDTH) - a.toNat by omega]

/-- `-=` subtracts when it cannot wrap. -/
theorem toNat_sub_of_le {WIDTH : Nat} {a b : BaseUint WIDTH} (h : b.toNat ≤ a.toNat) :
    (a.sub b).toNat = a.toNat - b.toNat := by
  have ha := toNat_lt a
  rw [sub, toNat_add, toNat_neg, Nat.add_mod_mod,
    show a.toNat + (2 ^ (32 * WIDTH) - b.toNat) = a.toNat - b.toNat + 2 ^ (32 * WIDTH) by omega,
    Nat.add_mod_right, Nat.mod_eq_of_lt (by omega)]

/-! ### `CompareTo` and `bits()` -/

theorem limbsToNat_singleton (p : UInt32) : limbsToNat [p] = p.toNat := by
  rw [limbsToNat_cons, limbsToNat_nil, Nat.mul_zero, Nat.add_zero]

/-- From the top limb down, the first limbs that differ decide the comparison. -/
theorem compareLoop_eq : ∀ xs ys : List UInt32, xs.length = ys.length →
    compareLoop xs ys = if limbsToNat xs.reverse < limbsToNat ys.reverse then -1
      else if limbsToNat ys.reverse < limbsToNat xs.reverse then 1 else 0
  | [], [], _ => rfl
  | [], _ :: _, h | _ :: _, [], h => by simp at h
  | p :: xs, q :: ys, h => by
    have hlen : xs.length = ys.length := by simpa using h
    have hX := limbsToNat_lt xs.reverse
    have hY := limbsToNat_lt ys.reverse
    rw [List.length_reverse, hlen] at hX
    rw [List.length_reverse] at hY
    rw [compareLoop, compareLoop_eq xs ys hlen, List.reverse_cons, List.reverse_cons,
      limbsToNat_append, limbsToNat_append, List.length_reverse, List.length_reverse, hlen,
      limbsToNat_singleton, limbsToNat_singleton]
    simp only [Digits.add_mul_lt_add_mul_iff hX hY, Digits.add_mul_lt_add_mul_iff hY hX, gt_iff_lt,
      UInt32.lt_iff_toNat_lt]
    split_ifs <;> omega

/-- `CompareTo` is the three-way comparison of the values. -/
theorem compareTo_eq {WIDTH : Nat} (a b : BaseUint WIDTH) :
    CompareTo a b = if a.toNat < b.toNat then -1 else if b.toNat < a.toNat then 1 else 0 := by
  rw [CompareTo, compareLoop_eq _ _ (by rw [List.length_reverse, List.length_reverse, a.length_pn,
    b.length_pn]), List.reverse_reverse, List.reverse_reverse]
  rfl

theorem compareTo_nonneg_iff {WIDTH : Nat} (a b : BaseUint WIDTH) :
    CompareTo a b ≥ 0 ↔ b.toNat ≤ a.toNat := by
  rw [compareTo_eq]
  split_ifs <;> omega

theorem toNat_one_shiftLeft {b : Nat} (hb : b < 32) :
    ((1 : UInt32) <<< UInt32.ofNat b).toNat = 2 ^ b := by
  rw [UInt32.toNat_shiftLeft, UInt32.toNat_ofNat_of_lt' (by simp [UInt32.size]; omega),
    Nat.mod_eq_of_lt hb, UInt32.toNat_one, Nat.shiftLeft_eq, Nat.one_mul,
    Nat.mod_eq_of_lt (Nat.pow_lt_pow_right (by norm_num) hb)]

/-- `pn[pos] & 1 << bits`: bit `bits` of the limb. -/
theorem and_one_shiftLeft_ne_zero (p : UInt32) {b : Nat} (hb : b < 32) :
    p &&& (1 : UInt32) <<< UInt32.ofNat b ≠ 0 ↔ p.toNat.testBit b = true := by
  rw [Ne, ← UInt32.toNat_inj, UInt32.toNat_and, toNat_one_shiftLeft hb, UInt32.toNat_zero,
    Nat.and_two_pow]
  cases p.toNat.testBit b <;> simp

/-- The scan of `bits()` down a non-zero limb below `2 ^ (k + 1)` stops at its top bit. -/
theorem bitsLoop_eq (pos : Nat) (p : UInt32) : ∀ k, k < 32 → p.toNat ≠ 0 →
    p.toNat < 2 ^ (k + 1) → bitsLoop pos p k = 32 * pos + Nat.size p.toNat
  | 0, _, hp, hlt => by
    have h1 : p.toNat = 1 := by omega
    rw [bitsLoop, h1, Nat.size_one]
  | k + 1, hk, hp, hlt => by
    rw [bitsLoop]
    by_cases hbit : p.toNat.testBit (k + 1) = true
    · -- the top bit is set: `p` has `k + 2` bits
      have hge : 2 ^ (k + 1) ≤ p.toNat := Nat.ge_two_pow_of_testBit hbit
      have hsize : Nat.size p.toNat = k + 2 :=
        le_antisymm (Nat.size_le.mpr hlt) (Nat.lt_size.mpr hge)
      rw [if_pos ((and_one_shiftLeft_ne_zero p (by omega)).mpr hbit), hsize]
      omega
    · have hlt' : p.toNat < 2 ^ (k + 1) := by
        by_contra hge
        exact hbit (Nat.testBit_of_two_pow_le_and_two_pow_add_one_gt (by omega) hlt)
      rw [if_neg (mt (and_one_shiftLeft_ne_zero p (by omega)).mp hbit),
        bitsLoop_eq pos p k (by omega) hp hlt']

/-- The scan of `bits()` from limb `m - 1` down finds the bit length of the limbs below `m`. -/
theorem bitsPos_eq (pn : List UInt32) :
    ∀ m, m ≤ pn.length → bitsPos pn m = Nat.size (limbsToNat (pn.take m))
  | 0, _ => by rw [bitsPos, List.take_zero, limbsToNat_nil, Nat.size_zero]
  | m + 1, hm => by
    have htake : pn.take (m + 1) = pn.take m ++ [pn.getD m 0] := by
      rw [List.take_add_one, List.getElem?_eq_getElem (by omega), List.getD_eq_getElem _ _ (by omega)]
      rfl
    have hT := limbsToNat_lt (pn.take m)
    rw [List.length_take_of_le (by omega)] at hT
    rw [bitsPos, htake, limbsToNat_append, List.length_take_of_le (by omega),
      limbsToNat_singleton]
    by_cases hz : pn.getD m 0 = 0
    · -- a zero limb adds nothing: the scan goes on below it
      rw [if_neg (not_not.mpr hz), hz, UInt32.toNat_zero, Nat.mul_zero, Nat.add_zero,
        bitsPos_eq pn m (by omega)]
    · have hz' : (pn.getD m 0).toNat ≠ 0 := fun h => hz (UInt32.toNat_inj.mp h)
      rw [if_pos hz, bitsLoop_eq m _ 31 (by norm_num) hz' (UInt32.toNat_lt _),
        Digits.size_add_two_pow_mul hT hz']

/-- `bits()` is the bit length of the value. -/
theorem bits_eq {WIDTH : Nat} (a : BaseUint WIDTH) : a.bits = Nat.size a.toNat := by
  have h := bitsPos_eq a.pn WIDTH a.length_pn.ge
  rwa [List.take_of_length_le a.length_pn.le] at h

/-! ### `operator/=` -/

/-- `pn[shift / 32] |= 1 << (shift & 31)` sets bit `shift` of the value. -/
theorem toNat_setBit {WIDTH : Nat} (a : BaseUint WIDTH) {shift : Nat} (hs : shift < 32 * WIDTH) :
    (a.setBit shift).toNat = a.toNat ||| 2 ^ shift := by
  have hlt : a.toNat ||| 2 ^ shift < 2 ^ (32 * WIDTH) :=
    Nat.or_lt_two_pow (toNat_lt a) (Nat.pow_lt_pow_right (by norm_num) hs)
  rw [← Nat.mod_eq_of_lt hlt]
  apply toNat_eq_of_bits
  intro j hj b hb
  rw [setBit, getD_modify _ _ _ _ (by rw [a.length_pn]; exact hj), Nat.testBit_or, toNat,
    testBit_limbsToNat a.pn j hb, Nat.testBit_two_pow]
  split_ifs with hm
  · rw [testBit_or, toNat_one_shiftLeft (Nat.mod_lt _ (by norm_num)), Nat.testBit_two_pow]
    congr 1
    exact decide_eq_decide.mpr (by omega)
  · rw [decide_eq_false (by omega), Bool.or_false]

/-- Setting a bit the quotient does not have yet adds it. -/
theorem toNat_setBit_of_dvd {WIDTH : Nat} {quot : BaseUint WIDTH} {k : Nat} (hk : k < 32 * WIDTH)
    (hquot : 2 ^ (k + 1) ∣ quot.toNat) : (quot.setBit k).toNat = quot.toNat + 2 ^ k := by
  obtain ⟨m, hm⟩ := hquot
  rw [toNat_setBit quot hk, hm, Nat.two_pow_add_eq_or_of_lt (Nat.pow_lt_pow_succ (by norm_num))]

/-- The loop of `operator/=` on the limbs computes `LongDivision.loop` on the values:
`CompareTo` decides the round, `-=` cannot wrap there, `>>= 1` halves and each bit is set in a
quotient that lacks it. -/
theorem divLoop_toNat {WIDTH : Nat} : ∀ (k : Nat) (num div quot : BaseUint WIDTH),
    k ≤ 32 * WIDTH → 2 ^ k ∣ quot.toNat →
    (divLoop k num div quot).toNat = LongDivision.loop k num.toNat div.toNat quot.toNat
  | 0, _, _, _, _, _ => rfl
  | k + 1, num, div, quot, hk, hquot => by
    have hhalf : (div.shiftRight 1).toNat = div.toNat / 2 := by rw [toNat_shiftRight, pow_one]
    have hdvd : 2 ^ k ∣ quot.toNat := (Nat.pow_dvd_pow 2 (Nat.le_succ k)).trans hquot
    rw [divLoop, LongDivision.loop]
    by_cases hfit : div.toNat ≤ num.toNat
    · have hset := toNat_setBit_of_dvd (by omega) hquot
      have hdvd' : 2 ^ k ∣ (quot.setBit k).toNat := by
        rw [hset]
        exact Nat.dvd_add hdvd dvd_rfl
      rw [if_pos ((compareTo_nonneg_iff num div).mpr hfit), if_pos hfit,
        divLoop_toNat k _ _ _ (by omega) hdvd', toNat_sub_of_le hfit, hhalf, hset]
    · rw [if_neg (mt (compareTo_nonneg_iff num div).mp hfit), if_neg hfit,
        divLoop_toNat k _ _ _ (by omega) hdvd, hhalf]

/-- A zero divisor throws. -/
theorem divAssign_of_toNat_eq_zero {WIDTH : Nat} (a b : BaseUint WIDTH) (hb : b.toNat = 0) :
    a.divAssign b = .error "Division by zero" := by
  rw [divAssign, if_pos (by rw [bits_eq, hb, Nat.size_zero])]

/-- A non-zero divisor gives the quotient: with the divisor shifted to the numerator's top bit,
the remainder starts below the divisor shifted once more, and `LongDivision.loop_eq` applies. -/
theorem divAssign_of_toNat_ne_zero {WIDTH : Nat} (a b : BaseUint WIDTH) (hb : b.toNat ≠ 0) :
    ∃ q, a.divAssign b = .ok q ∧ q.toNat = a.toNat / b.toNat := by
  have hnum : a.toNat < 2 ^ a.bits := by rw [bits_eq]; exact Nat.lt_size_self _
  have hbits : b.bits ≠ 0 := by rw [bits_eq]; exact mt Nat.size_eq_zero.mp hb
  have hlow : 2 ^ (b.bits - 1) ≤ b.toNat := by
    rw [bits_eq] at hbits ⊢
    exact Nat.lt_size.mp (by omega)
  have hdiv : b.toNat < 2 ^ b.bits := by rw [bits_eq]; exact Nat.lt_size_self _
  have hwidth : a.bits ≤ 32 * WIDTH := by rw [bits_eq]; exact Nat.size_le.mpr (toNat_lt a)
  unfold divAssign
  rw [if_neg hbits]
  split_ifs with hgt
  · -- the numerator is below the divisor
    refine ⟨_, rfl, ?_⟩
    rw [toNat_zero, Nat.div_eq_of_lt (hnum.trans_le
      ((Nat.pow_le_pow_right (by norm_num) (by omega)).trans hlow))]
  · refine ⟨_, rfl, ?_⟩
    set shift := a.bits - b.bits
    have htop : a.bits = b.bits - 1 + (shift + 1) := by omega
    have hstart : a.toNat < b.toNat * 2 ^ (shift + 1) := by
      rw [htop, pow_add] at hnum
      exact hnum.trans_le (Nat.mul_le_mul_right _ hlow)
    have hshifted : (b.shiftLeft shift).toNat = b.toNat * 2 ^ (shift + 1) / 2 := by
      rw [LongDivision.half_shifted, toNat_shiftLeft, Nat.mod_eq_of_lt]
      calc b.toNat * 2 ^ shift < 2 ^ b.bits * 2 ^ shift :=
            Nat.mul_lt_mul_of_pos_right hdiv (Nat.two_pow_pos _)
        _ = 2 ^ a.bits := by rw [← pow_add]; congr 1; omega
        _ ≤ 2 ^ (32 * WIDTH) := Nat.pow_le_pow_right (by norm_num) hwidth
    rw [divLoop_toNat _ _ _ _ (by omega) (by simp), hshifted, toNat_zero,
      LongDivision.loop_eq (Nat.pos_of_ne_zero hb) _ _ _ hstart, Nat.zero_add]

/-! ### `base_uint<256>` -/

/-- The number a `base_uint<256>` stands for, as the `BitVec 256` of `Primitives/ArithUint256`. -/
def toBitVec (a : BaseUint 8) : BitVec 256 := BitVec.ofNat 256 a.toNat

theorem toNat_toBitVec (a : BaseUint 8) : a.toBitVec.toNat = a.toNat := by
  rw [toBitVec, BitVec.toNat_ofNat, Nat.mod_eq_of_lt (toNat_lt a)]

theorem toBitVec_eq_iff {a : BaseUint 8} {x : BitVec 256} : a.toBitVec = x ↔ a.toNat = x.toNat := by
  rw [← toNat_toBitVec a]
  exact ⟨congrArg BitVec.toNat, BitVec.eq_of_toNat_eq⟩

/-- The limbs refine the `BitVec 256` model of `arith_uint256`: each operator on the limbs is the
operator on the bit vector. -/
theorem toBitVec_ops (a b : BaseUint 8) (s : Nat) :
    (a.shiftLeft s).toBitVec = a.toBitVec <<< s ∧
    (a.shiftRight s).toBitVec = a.toBitVec >>> s ∧
    (a.mul b).toBitVec = a.toBitVec * b.toBitVec ∧
    (a.add b).toBitVec = a.toBitVec + b.toBitVec ∧
    a.bits = ArithUint256.bits a.toBitVec := by
  refine ⟨toBitVec_eq_iff.mpr ?_, toBitVec_eq_iff.mpr ?_, toBitVec_eq_iff.mpr ?_,
    toBitVec_eq_iff.mpr ?_, ?_⟩
  · rw [toNat_shiftLeft, BitVec.toNat_shiftLeft, Nat.shiftLeft_eq, toNat_toBitVec]
  · rw [toNat_shiftRight, BitVec.toNat_ushiftRight, Nat.shiftRight_eq_div_pow, toNat_toBitVec]
  · rw [toNat_mul, BitVec.toNat_mul, toNat_toBitVec, toNat_toBitVec]
  · rw [toNat_add, BitVec.toNat_add, toNat_toBitVec, toNat_toBitVec]
  · rw [bits_eq, ArithUint256.bits, toNat_toBitVec]

/-- `operator/=` on the limbs is `operator/=` on the bit vector, error included. -/
theorem toBitVec_divAssign (a b : BaseUint 8) :
    (a.divAssign b).map toBitVec = ArithUint256.divAssign a.toBitVec b.toBitVec := by
  by_cases hb : b.toNat = 0
  · have hzero : b.toBitVec = 0 := toBitVec_eq_iff.mpr hb
    rw [divAssign_of_toNat_eq_zero a b hb, ArithUint256.divAssign,
      if_pos (ArithUint256.bits_eq_zero_iff.mpr hzero)]
    rfl
  · have hnz : b.toBitVec ≠ 0 := mt toBitVec_eq_iff.mp hb
    obtain ⟨q, hq, hqv⟩ := divAssign_of_toNat_ne_zero a b hb
    rw [hq, ArithUint256.divAssign_eq hnz]
    show Except.ok q.toBitVec = _
    have hquot : q.toNat = (a.toBitVec / b.toBitVec).toNat := by
      rw [hqv, BitVec.toNat_udiv, toNat_toBitVec, toNat_toBitVec]
    rw [toBitVec_eq_iff.mpr hquot]

end BaseUint

end Trumpow
