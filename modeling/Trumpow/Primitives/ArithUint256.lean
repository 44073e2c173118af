import Mathlib
import Trumpow.Support.RoundDown
import Trumpow.Support.LongDivision

/-!
# Primitives — `arith_uint256` and the compact encoding of targets

`arith_uint256` (`arith_uint256.h`) is a 256-bit unsigned integer, here `BitVec 256`: its shifts
drop the bits that leave the 256, as `<<<` and `>>>` do.  A block's `nBits` is a target in the
compact form of `SetCompact`/`GetCompact`: a byte count `nSize` in the top byte, and a 23-bit
mantissa `nWord` below the sign bit `0x00800000`, standing for `nWord * 256 ^ (nSize - 3)`.

`GetCompact` keeps the top three significant bytes of a value, or the top two when the third would
set the sign bit; `compactShift` counts the bytes it drops and `compactTrunc` is the value with them
zeroed.  The proofs work on the `Nat` view of both functions (`getCompact_eq`,
`setCompact_fst`): `GetCompact` writes `compactWord x`, whose fields `SetCompact` reads back as
`compactTrunc x` with no flag set (`setCompact_compactWord`), and `compactTrunc x` writes the
same word again (`compactWord_compactTrunc`).  `compactTrunc` is `RoundDown.truncDigits` at a
normal mantissa (`normal_compactShift`), so it is monotone (`compactTrunc_mono`).

`operator/=` is long division: the divisor is shifted to the numerator's top bit and brought down
one bit per round (`divLoop`).  Its values follow `LongDivision.loop` (`divLoop_toNat`), so it
returns the quotient for every non-zero divisor (`divAssign_eq`).
-/

namespace Trumpow

namespace ArithUint256

/-- `base_uint::bits()`: the position of the highest set bit plus one, zero for zero. -/
def bits (a : BitVec 256) : Nat := a.toNat.size

/-- `base_uint::GetLow64()`. -/
def GetLow64 (a : BitVec 256) : Nat := a.toNat % 2 ^ 64

/-- `arith_uint256::SetCompact(nCompact, pfNegative, pfOverflow)`: the value, `*pfNegative` and
`*pfOverflow`.  For a size of at most three the mantissa is shifted down, and the flags read the
shifted `nWord`. -/
def SetCompact (nCompact : UInt32) : BitVec 256 × Bool × Bool :=
  let nSize := (nCompact >>> 24).toNat
  let nWord := nCompact &&& 0x007fffff
  let nWord := if nSize ≤ 3 then nWord >>> UInt32.ofNat (8 * (3 - nSize)) else nWord
  let r : BitVec 256 :=
    if nSize ≤ 3 then BitVec.ofNat 256 nWord.toNat
    else BitVec.ofNat 256 nWord.toNat <<< (8 * (nSize - 3))
  (r, decide (nWord ≠ 0 ∧ (nCompact &&& 0x00800000) ≠ 0),
    decide (nWord ≠ 0 ∧
      (nSize > 34 ∨ (nWord > 0xff ∧ nSize > 33) ∨ (nWord > 0xffff ∧ nSize > 32))))

/-- `arith_uint256::GetCompact(fNegative)`; its two `assert`s are the `error` cases.  The
`uint64_t` word of the small case is narrowed to `uint32_t`. -/
def GetCompact (a : BitVec 256) (fNegative : Bool) : Except String UInt32 :=
  let nSize := (bits a + 7) / 8
  let nCompact : UInt32 :=
    if nSize ≤ 3 then UInt32.ofNat ((GetLow64 a <<< (8 * (3 - nSize))) % 2 ^ 64)
    else UInt32.ofNat (GetLow64 (a >>> (8 * (nSize - 3))))
  -- the 0x00800000 bit is the sign: a mantissa that has it is divided by 256
  let fSign := (nCompact &&& 0x00800000) ≠ 0
  let nCompact := if fSign then nCompact >>> 8 else nCompact
  let nSize := if fSign then nSize + 1 else nSize
  if (nCompact &&& ~~~0x007fffff) ≠ 0 then .error "assert((nCompact & ~0x007fffff) == 0)"
  else if ¬ nSize < 256 then .error "assert(nSize < 256)"
  else
    let nCompact := nCompact ||| (UInt32.ofNat nSize <<< 24)
    .ok (nCompact |||
      if fNegative = true ∧ (nCompact &&& 0x007fffff) ≠ 0 then 0x00800000 else 0)

/-! ## The `Nat` view -/

/-- The byte count `GetCompact` starts from, `(bits() + 7) / 8`. -/
def byteSize (x : Nat) : Nat := (x.size + 7) / 8

/-- The word `GetCompact` reads before the sign check: `x` moved up into three bytes, or its top
three bytes. -/
def window (x : Nat) : Nat :=
  if byteSize x ≤ 3 then x * 2 ^ (8 * (3 - byteSize x)) else x / 2 ^ (8 * (byteSize x - 3))

/-- The word `GetCompact` writes for `x`, as a number: the size above bit 24, the mantissa below. -/
def compactWord (x : Nat) : Nat :=
  if 2 ^ 23 ≤ window x then (byteSize x + 1) * 2 ^ 24 + window x / 2 ^ 8
  else byteSize x * 2 ^ 24 + window x

/-- The value `SetCompact` reads from size `nSize` and mantissa `nWord`. -/
def compactValue (nSize nWord : Nat) : Nat :=
  if nSize ≤ 3 then nWord / 2 ^ (8 * (3 - nSize)) else nWord * 2 ^ (8 * (nSize - 3))

/-- The low bytes `GetCompact` drops: all but the top three significant bytes of `x`, or all but
the top two when the top three have the sign bit. -/
def compactShift (x : Nat) : Nat :=
  if 2 ^ 23 ≤ x / 2 ^ (8 * (byteSize x - 3)) then byteSize x - 2 else byteSize x - 3

/-- `x` with the bytes `GetCompact` drops zeroed. -/
def compactTrunc (x : Nat) : Nat := RoundDown.truncDigits 256 (compactShift x) x

theorem byteSize_le_iff {x s : Nat} : byteSize x ≤ s ↔ x < 2 ^ (8 * s) := by
  rw [← Nat.size_le, byteSize]
  omega

theorem lt_byteSize_iff {x s : Nat} : s < byteSize x ↔ 2 ^ (8 * s) ≤ x := by
  rw [← Nat.lt_size, byteSize]
  omega

/-- The byte count of a value between two powers of 256. -/
theorem byteSize_eq_of_bounds {x s : Nat} (hlow : 2 ^ (8 * s) ≤ x)
    (hhigh : x < 2 ^ (8 * (s + 1))) : byteSize x = s + 1 := by
  have hle := byteSize_le_iff.mpr hhigh
  have hlt := lt_byteSize_iff.mpr hlow
  omega

theorem two_pow_eight_mul (k : Nat) : 2 ^ (8 * k) = 256 ^ k := by
  rw [pow_mul]
  rfl

open RoundDown

variable {x : Nat}

theorem lt_two_pow_byteSize : x < 2 ^ (8 * byteSize x) := byteSize_le_iff.mp le_rfl

theorem two_pow_le_of_byteSize (h : 0 < byteSize x) : 2 ^ (8 * (byteSize x - 1)) ≤ x :=
  lt_byteSize_iff.mp (by omega)

theorem window_of_three_le (h : 3 ≤ byteSize x) : window x = x / 2 ^ (8 * (byteSize x - 3)) := by
  rcases h.lt_or_eq with h | h
  · rw [window, if_neg (by omega)]
  · rw [window, if_pos h.ge, ← h]
    simp

theorem window_of_le_two (h : byteSize x ≤ 2) : window x = x * 2 ^ (8 * (3 - byteSize x)) := by
  rw [window, if_pos (by omega)]

theorem window_lt : window x < 2 ^ 24 := by
  rcases le_or_gt (byteSize x) 2 with h | h
  · rw [window_of_le_two h]
    calc x * 2 ^ (8 * (3 - byteSize x)) < 2 ^ (8 * byteSize x) * 2 ^ (8 * (3 - byteSize x)) :=
          Nat.mul_lt_mul_of_pos_right lt_two_pow_byteSize (by positivity)
      _ = 2 ^ 24 := by rw [← pow_add]; congr 1; omega
  · rw [window_of_three_le h, Nat.div_lt_iff_lt_mul (by positivity), ← pow_add]
    exact lt_two_pow_byteSize.trans_le (Nat.pow_le_pow_right (by norm_num) (by omega))

theorem le_window (h : 3 ≤ byteSize x) : 2 ^ 16 ≤ window x := by
  rw [window_of_three_le h, Nat.le_div_iff_mul_le (by positivity), ← pow_add]
  exact (Nat.pow_le_pow_right (by norm_num) (by omega)).trans (two_pow_le_of_byteSize (by omega))

theorem compactShift_of_le_two (h : byteSize x ≤ 2) : compactShift x = 0 := by
  have hx : x < 2 ^ 16 := byteSize_le_iff.mp h
  rw [compactShift, if_neg (by rw [show byteSize x - 3 = 0 by omega]; simp; omega)]
  omega

theorem compactShift_of_three_le (h : 3 ≤ byteSize x) :
    compactShift x = if 2 ^ 23 ≤ window x then byteSize x - 2 else byteSize x - 3 := by
  rw [compactShift, window_of_three_le h]

theorem compactTrunc_le : compactTrunc x ≤ x := truncDigits_le

theorem compactValue_of_three_le {s w : Nat} (h : 3 ≤ s) :
    compactValue s w = w * 2 ^ (8 * (s - 3)) := by
  rcases h.lt_or_eq with h | rfl
  · rw [compactValue, if_neg (by omega)]
  · simp [compactValue]

theorem compactTrunc_of_le_two (h : byteSize x ≤ 2) : compactTrunc x = x := by
  simp [compactTrunc, truncDigits, compactShift_of_le_two h]

theorem compactTrunc_of_three_le (h : 3 ≤ byteSize x) :
    compactTrunc x = if 2 ^ 23 ≤ window x then window x / 2 ^ 8 * 2 ^ (8 * (byteSize x - 2))
      else window x * 2 ^ (8 * (byteSize x - 3)) := by
  rw [compactTrunc, truncDigits, compactShift_of_three_le h, window_of_three_le h]
  split_ifs
  · rw [← two_pow_eight_mul, Nat.div_div_eq_div_mul, ← pow_add]
    congr 3
    omega
  · rw [two_pow_eight_mul]

theorem word_div {s w : Nat} (hw : w < 2 ^ 23) : (s * 2 ^ 24 + w) / 2 ^ 24 = s := by omega

theorem word_mod {s w : Nat} (hw : w < 2 ^ 23) : (s * 2 ^ 24 + w) % 2 ^ 23 = w := by omega

/-- What `SetCompact` reads from the word `GetCompact` writes is the value with its dropped bytes
zeroed. -/
theorem compactValue_compactWord :
    compactValue (compactWord x / 2 ^ 24) (compactWord x % 2 ^ 23) = compactTrunc x := by
  have hw := window_lt (x := x)
  rcases le_or_gt (byteSize x) 2 with h2 | h3
  · -- up to two bytes: the mantissa is `x` moved up, and moving it down again gives `x`
    rw [compactTrunc_of_le_two h2]
    unfold compactWord
    split_ifs with hs
    · rw [word_div (by omega), word_mod (by omega), compactValue, if_pos (by omega),
        window_of_le_two h2, Nat.div_div_eq_div_mul, ← pow_add,
        show 8 + 8 * (3 - (byteSize x + 1)) = 8 * (3 - byteSize x) by omega,
        Nat.mul_div_cancel _ (by positivity)]
    · rw [word_div (by omega), word_mod (by omega), compactValue, if_pos (by omega),
        window_of_le_two h2, Nat.mul_div_cancel _ (by positivity)]
  · -- three bytes or more: the kept bytes times the dropped bytes' weight
    rw [compactTrunc_of_three_le h3]
    unfold compactWord
    split_ifs with hs
    · rw [word_div (by omega), word_mod (by omega), compactValue_of_three_le (by omega),
        show byteSize x + 1 - 3 = byteSize x - 2 by omega]
    · rw [word_div (by omega), word_mod (by omega), compactValue_of_three_le h3]

theorem byteSize_compactTrunc (h : 3 ≤ byteSize x) : byteSize (compactTrunc x) = byteSize x := by
  have hshift : compactShift x ≤ byteSize x - 1 := by
    rw [compactShift_of_three_le h]
    split_ifs <;> omega
  have hlow : 2 ^ (8 * (byteSize x - 1)) ≤ compactTrunc x := by
    apply le_truncDigits_of_dvd _ (two_pow_le_of_byteSize (by omega))
    rw [two_pow_eight_mul]
    exact Nat.pow_dvd_pow 256 hshift
  apply le_antisymm
  · exact byteSize_le_iff.mpr (truncDigits_le.trans_lt lt_two_pow_byteSize)
  · have := lt_byteSize_iff.mpr hlow
    omega

/-- The value with its dropped bytes zeroed writes the same word. -/
theorem compactWord_compactTrunc : compactWord (compactTrunc x) = compactWord x := by
  rcases le_or_gt (byteSize x) 2 with h2 | h3
  · rw [compactTrunc_of_le_two h2]
  · have hsize := byteSize_compactTrunc h3
    have hwin : window (compactTrunc x) =
        if 2 ^ 23 ≤ window x then window x / 2 ^ 8 * 2 ^ 8 else window x := by
      rw [window_of_three_le (hsize ▸ h3), hsize, compactTrunc_of_three_le h3]
      split_ifs
      · rw [show 8 * (byteSize x - 2) = 8 + 8 * (byteSize x - 3) by omega, pow_add, ← mul_assoc,
          Nat.mul_div_cancel _ (by positivity)]
      · rw [Nat.mul_div_cancel _ (by positivity)]
    unfold compactWord
    rw [hsize, hwin]
    -- the sign bit and the mantissa are those of `x`: the zeroed byte is below both
    split_ifs <;> omega

/-! ## The fields of a compact word -/

theorem toNat_ofNat_of_lt {n : Nat} (h : n < 2 ^ 32) : (UInt32.ofNat n).toNat = n :=
  UInt32.toNat_ofNat_of_lt' (by unfold UInt32.size; omega)

theorem and_sign_eq (c : UInt32) : (c &&& 0x00800000).toNat = c.toNat / 2 ^ 23 % 2 * 2 ^ 23 := by
  rw [UInt32.toNat_and, show (0x00800000 : UInt32).toNat = 2 ^ 23 from rfl, Nat.and_two_pow,
    Nat.toNat_testBit]

theorem and_sign_ne_zero_iff {w : Nat} (hw : w < 2 ^ 24) :
    (UInt32.ofNat w &&& 0x00800000) ≠ 0 ↔ 2 ^ 23 ≤ w := by
  rw [ne_eq, ← UInt32.toNat_inj, and_sign_eq, toNat_ofNat_of_lt (by omega)]
  simp only [UInt32.toNat_zero]
  omega

theorem ofNat_shiftRight_eight {w : Nat} (hw : w < 2 ^ 32) :
    UInt32.ofNat w >>> 8 = UInt32.ofNat (w / 2 ^ 8) := by
  rw [← UInt32.toNat_inj, UInt32.toNat_shiftRight, toNat_ofNat_of_lt hw,
    toNat_ofNat_of_lt (by omega)]
  simp [Nat.shiftRight_eq_div_pow]

theorem and_mask_eq (c : UInt32) : (c &&& 0x007fffff).toNat = c.toNat % 2 ^ 23 := by
  rw [UInt32.toNat_and, show (0x007fffff : UInt32).toNat = 2 ^ 23 - 1 from rfl,
    Nat.and_two_pow_sub_one_eq_mod]

theorem ofNat_and_not_mask {m : Nat} (hm : m < 2 ^ 23) : UInt32.ofNat m &&& ~~~0x007fffff = 0 := by
  have hmask : UInt32.ofNat m &&& 0x007fffff = UInt32.ofNat m := by
    rw [← UInt32.toNat_inj, and_mask_eq,
      Nat.mod_eq_of_lt (by rw [toNat_ofNat_of_lt (by omega)]; exact hm)]
  rw [← hmask, UInt32.and_assoc, UInt32.and_not_self, UInt32.and_zero]

theorem ofNat_or_shiftLeft {m s : Nat} (hm : m < 2 ^ 24) (hs : s < 2 ^ 8) :
    UInt32.ofNat m ||| UInt32.ofNat s <<< 24 = UInt32.ofNat (s * 2 ^ 24 + m) := by
  have hshift : (UInt32.ofNat s <<< 24).toNat = s <<< 24 := by
    simp [UInt32.toNat_shiftLeft, Nat.shiftLeft_eq]
    omega
  rw [← UInt32.toNat_inj, UInt32.toNat_or, hshift, toNat_ofNat_of_lt (by omega),
    toNat_ofNat_of_lt (by omega), Nat.or_comm, ← Nat.shiftLeft_add_eq_or_of_lt hm,
    Nat.shiftLeft_eq]

theorem shiftRight_24 (c : UInt32) : (c >>> 24).toNat = c.toNat / 2 ^ 24 := by
  simp [UInt32.toNat_shiftRight, Nat.shiftRight_eq_div_pow]

theorem getCompact_readWindow (a : BitVec 256) :
    (if byteSize a.toNat ≤ 3 then
        UInt32.ofNat ((GetLow64 a <<< (8 * (3 - byteSize a.toNat))) % 2 ^ 64)
      else UInt32.ofNat (GetLow64 (a >>> (8 * (byteSize a.toNat - 3))))) =
    UInt32.ofNat (window a.toNat) := by
  have hw := window_lt (x := a.toNat)
  unfold window at hw ⊢
  split_ifs at hw ⊢ with h
  · have hx : a.toNat < 2 ^ 24 := byteSize_le_iff.mp h
    rw [GetLow64, Nat.mod_eq_of_lt (a := a.toNat) (by omega), Nat.shiftLeft_eq,
      Nat.mod_eq_of_lt (by omega)]
  · rw [GetLow64, BitVec.toNat_ushiftRight, Nat.shiftRight_eq_div_pow, Nat.mod_eq_of_lt (by omega)]

theorem getCompact_eq (a : BitVec 256) :
    GetCompact a false = .ok (UInt32.ofNat (compactWord a.toNat)) := by
  have hw := window_lt (x := a.toNat)
  have hs : byteSize a.toNat ≤ 32 := byteSize_le_iff.mpr a.isLt
  simp only [GetCompact, show (bits a + 7) / 8 = byteSize a.toNat from rfl, getCompact_readWindow]
  by_cases hsign : 2 ^ 23 ≤ window a.toNat
  · have hne := (and_sign_ne_zero_iff hw).mpr hsign
    simp only [if_pos hne]
    rw [ofNat_shiftRight_eight (by omega), ofNat_and_not_mask (by omega), if_neg (by simp),
      if_neg (by omega), ofNat_or_shiftLeft (by omega) (by omega), compactWord, if_pos hsign,
      if_neg (by simp), UInt32.or_zero]
  · have hne : ¬ (UInt32.ofNat (window a.toNat) &&& 0x00800000) ≠ 0 :=
      fun h => hsign ((and_sign_ne_zero_iff hw).mp h)
    simp only [if_neg hne]
    rw [ofNat_and_not_mask (by omega), if_neg (by simp),
      if_neg (by omega), ofNat_or_shiftLeft (by omega) (by omega), compactWord, if_neg hsign,
      if_neg (by simp), UInt32.or_zero]

theorem setCompact_fst (c : UInt32) :
    (SetCompact c).1 = BitVec.ofNat 256 (compactValue (c.toNat / 2 ^ 24) (c.toNat % 2 ^ 23)) := by
  simp only [SetCompact, shiftRight_24]
  unfold compactValue
  split_ifs with h
  · rw [UInt32.toNat_shiftRight, and_mask_eq, toNat_ofNat_of_lt (by omega),
      Nat.shiftRight_eq_div_pow, Nat.mod_eq_of_lt (a := 8 * (3 - c.toNat / 2 ^ 24)) (by omega)]
  · apply BitVec.eq_of_toNat_eq
    rw [BitVec.toNat_shiftLeft, BitVec.toNat_ofNat, BitVec.toNat_ofNat, and_mask_eq,
      Nat.mod_eq_of_lt (a := c.toNat % 2 ^ 23) (by omega), Nat.shiftLeft_eq]

theorem compactWord_bounds (hx : x < 2 ^ 256) :
    compactWord x % 2 ^ 24 < 2 ^ 23 ∧ compactWord x / 2 ^ 24 ≤ 33 ∧
      (32 < compactWord x / 2 ^ 24 → compactWord x % 2 ^ 24 < 2 ^ 16) := by
  have hw := window_lt (x := x)
  have hs : byteSize x ≤ 32 := byteSize_le_iff.mpr hx
  unfold compactWord
  split_ifs <;> omega

/-- `SetCompact` reads the word `GetCompact` writes as the value with its dropped bytes zeroed,
with neither flag set. -/
theorem setCompact_compactWord (hx : x < 2 ^ 256) :
    SetCompact (UInt32.ofNat (compactWord x)) =
      (BitVec.ofNat 256 (compactTrunc x), false, false) := by
  obtain ⟨hbit, hsize, hsmall⟩ := compactWord_bounds hx
  have hc : (UInt32.ofNat (compactWord x)).toNat = compactWord x := toNat_ofNat_of_lt (by omega)
  refine Prod.ext ?_ (Prod.ext ?_ ?_)
  · rw [setCompact_fst, hc, compactValue_compactWord]
  · -- the sign bit of the word is clear
    have hsign : (UInt32.ofNat (compactWord x) &&& 0x00800000) = 0 := by
      rw [← UInt32.toNat_inj, and_sign_eq, hc, UInt32.toNat_zero]
      omega
    simp [SetCompact, hsign]
  · -- the size is at most 33, and at 33 the mantissa has two bytes
    simp only [SetCompact, shiftRight_24, hc]
    apply decide_eq_false
    rintro ⟨-, hov⟩
    split_ifs at hov with h3
    · omega
    · simp only [UInt32.lt_iff_toNat_lt, and_mask_eq, hc, gt_iff_lt, UInt32.reduceToNat] at hov
      have : compactWord x % 2 ^ 23 = compactWord x % 2 ^ 24 := by omega
      omega

/-! ## The round trip -/

/-- `SetCompact(GetCompact(x))` is `x` with the bytes below its mantissa zeroed, with neither flag
set: a value at or below `x`, and `x` itself when the dropped bytes are zero; and a word
`GetCompact` writes is written again from the value it stands for. -/
theorem setCompact_getCompact (x : BitVec 256) :
    (∃ c, GetCompact x false = .ok c ∧
      SetCompact c = (BitVec.ofNat 256 (compactTrunc x.toNat), false, false)) ∧
    compactTrunc x.toNat ≤ x.toNat ∧
    (compactTrunc x.toNat = x.toNat ↔ x.toNat % 256 ^ compactShift x.toNat = 0) ∧
    ∀ c, GetCompact x false = .ok c → GetCompact (SetCompact c).1 false = .ok c := by
  have hx := x.isLt
  refine ⟨⟨_, getCompact_eq x, setCompact_compactWord hx⟩, compactTrunc_le,
    truncDigits_eq_self_iff, fun c hc => ?_⟩
  rw [getCompact_eq, Except.ok.injEq] at hc
  subst hc
  rw [setCompact_compactWord hx, getCompact_eq, BitVec.toNat_ofNat,
    Nat.mod_eq_of_lt (compactTrunc_le.trans_lt hx), compactWord_compactTrunc]

theorem setCompact_getCompact_powLimit :
    GetCompact (BitVec.ofNat 256 (2 ^ 236 - 1)) false = .ok 0x1e0fffff ∧
      GetCompact (SetCompact 0x1e0fffff).1 false = .ok 0x1e0fffff := by
  have hsize : byteSize (2 ^ 236 - 1) = 29 + 1 := byteSize_eq_of_bounds (by norm_num) (by norm_num)
  have hc : GetCompact (BitVec.ofNat 256 (2 ^ 236 - 1)) false = .ok 0x1e0fffff := by
    rw [getCompact_eq, BitVec.toNat_ofNat, Nat.mod_eq_of_lt (by norm_num), compactWord, window,
      hsize]
    rfl
  exact ⟨hc, (setCompact_getCompact _).2.2.2 _ hc⟩

/-- The bytes `GetCompact` keeps are a normal mantissa below the sign bit. -/
theorem normal_compactShift : RoundDown.Normal 256 (2 ^ 23) (compactShift x) x := by
  have hw := window_lt (x := x)
  rcases le_or_gt (byteSize x) 2 with h2 | h3
  · have hx : x < 2 ^ 16 := byteSize_le_iff.mp h2
    rw [compactShift_of_le_two h2]
    exact ⟨by simpa using hx.trans (by norm_num), .inl rfl⟩
  · have hlow := le_window h3
    unfold RoundDown.Normal
    rw [compactShift_of_three_le h3, window_of_three_le h3] at *
    split_ifs with hs
    · -- the sign bit is set: the top two bytes, one more than the three would not fit
      rw [← two_pow_eight_mul, show 8 * (byteSize x - 2) = 8 * (byteSize x - 3) + 8 by omega,
        pow_add, ← Nat.div_div_eq_div_mul]
      exact ⟨by omega, .inr (by omega)⟩
    · rw [← two_pow_eight_mul]
      exact ⟨by omega, .inr (by omega)⟩

/-- Zeroing the dropped bytes keeps the order of values. -/
theorem compactTrunc_mono {y : Nat} (h : x ≤ y) : compactTrunc x ≤ compactTrunc y :=
  truncDigits_le_truncDigits (by norm_num) normal_compactShift.1 normal_compactShift h

/-- The decoded target is below `2 ^ 256 - 1`, so `bnTarget + 1` does not wrap: a small target
is below `2 ^ 23`, and a large one ends in a zero byte. -/
theorem toNat_setCompact_add_one_lt (c : UInt32) : (SetCompact c).1.toNat + 1 < 2 ^ 256 := by
  rw [setCompact_fst, BitVec.toNat_ofNat]
  unfold compactValue
  split_ifs with h
  · have hw : c.toNat % 2 ^ 23 / 2 ^ (8 * (3 - c.toNat / 2 ^ 24)) < 2 ^ 23 :=
      (Nat.div_le_self _ _).trans_lt (Nat.mod_lt _ (by norm_num))
    have := Nat.mod_le (c.toNat % 2 ^ 23 / 2 ^ (8 * (3 - c.toNat / 2 ^ 24))) (2 ^ 256)
    omega
  · have h256 : 2 ^ 8 ∣ c.toNat % 2 ^ 23 * 2 ^ (8 * (c.toNat / 2 ^ 24 - 3)) % 2 ^ 256 := by
      rw [Nat.dvd_mod_iff (Nat.pow_dvd_pow 2 (by norm_num))]
      exact Dvd.dvd.mul_left (Nat.pow_dvd_pow 2 (by omega)) _
    have := Nat.mod_lt (c.toNat % 2 ^ 23 * 2 ^ (8 * (c.toNat / 2 ^ 24 - 3))) (Nat.two_pow_pos 256)
    omega

/-! ## Division -/

/-- The `while (shift >= 0)` loop of `base_uint::operator/=`, with `k` rounds left: the shifted
divisor is compared with the remainder `num`, and when it fits it is subtracted and bit `k - 1`
of the quotient is set. -/
def divLoop : Nat → BitVec 256 → BitVec 256 → BitVec 256 → BitVec 256
  | 0, _, _, quot => quot
  | k + 1, num, div, quot =>
    if num ≥ div then divLoop k (num - div) (div >>> 1) (quot ||| (1 : BitVec 256) <<< k)
    else divLoop k num (div >>> 1) quot

/-- `base_uint::operator/=(b)`: the quotient, or the `uint_error` it throws on a zero divisor. -/
def divAssign (num div : BitVec 256) : Except String (BitVec 256) :=
  let num_bits := bits num
  let div_bits := bits div
  if div_bits = 0 then .error "Division by zero"
  -- the result is certainly 0
  else if div_bits > num_bits then .ok 0
  else
    let shift := num_bits - div_bits
    -- shift so that div and num align
    .ok (divLoop (shift + 1) num (div <<< shift) 0)

/-- Setting a bit the quotient does not have yet adds it. -/
theorem toNat_or_shiftLeft {quot : BitVec 256} {k : Nat} (hk : k < 256)
    (hquot : 2 ^ (k + 1) ∣ quot.toNat) :
    (quot ||| (1 : BitVec 256) <<< k).toNat = quot.toNat + 2 ^ k := by
  obtain ⟨m, hm⟩ := hquot
  have hone : ((1 : BitVec 256) <<< k).toNat = 2 ^ k := by
    rw [BitVec.toNat_shiftLeft, Nat.shiftLeft_eq, show (1 : BitVec 256).toNat = 1 from rfl,
      Nat.one_mul, Nat.mod_eq_of_lt (Nat.pow_lt_pow_right (by norm_num) hk)]
  rw [BitVec.toNat_or, hone, hm, Nat.two_pow_add_eq_or_of_lt (Nat.pow_lt_pow_succ (by norm_num))]

/-- The loop on `BitVec 256` computes what `LongDivision.loop` does on the values: the
subtraction only runs when it cannot wrap, and each bit is set in a quotient that lacks it. -/
theorem divLoop_toNat : ∀ (k : Nat) (num div quot : BitVec 256), k ≤ 256 → 2 ^ k ∣ quot.toNat →
    (divLoop k num div quot).toNat = LongDivision.loop k num.toNat div.toNat quot.toNat
  | 0, _, _, _, _, _ => rfl
  | k + 1, num, div, quot, hk, hquot => by
    rw [divLoop, LongDivision.loop]
    by_cases hfit : div ≤ num
    · have hfit' : div.toNat ≤ num.toNat := BitVec.le_def.mp hfit
      have hor := toNat_or_shiftLeft (by omega) hquot
      have hdvd : 2 ^ k ∣ (quot ||| (1 : BitVec 256) <<< k).toNat := by
        rw [hor]
        exact Nat.dvd_add ((Nat.pow_dvd_pow 2 (Nat.le_succ k)).trans hquot) dvd_rfl
      rw [if_pos hfit, if_pos hfit', divLoop_toNat k _ _ _ (by omega) hdvd,
        BitVec.toNat_sub_of_le hfit, BitVec.toNat_ushiftRight, Nat.shiftRight_one, hor]
    · have hfit' : ¬ div.toNat ≤ num.toNat := mt BitVec.le_def.mpr hfit
      rw [if_neg hfit, if_neg hfit', divLoop_toNat k _ _ _ (by omega)
        ((Nat.pow_dvd_pow 2 (Nat.le_succ k)).trans hquot), BitVec.toNat_ushiftRight,
        Nat.shiftRight_one]

theorem bits_eq_zero_iff {a : BitVec 256} : bits a = 0 ↔ a = 0 := by
  rw [bits, Nat.size_eq_zero]
  constructor
  · intro h
    exact BitVec.eq_of_toNat_eq (by simp [h])
  · rintro rfl
    rfl

theorem toNat_lt_two_pow_bits (a : BitVec 256) : a.toNat < 2 ^ bits a := Nat.lt_size_self _

theorem two_pow_bits_le {a : BitVec 256} (ha : a ≠ 0) : 2 ^ (bits a - 1) ≤ a.toNat := by
  have : bits a ≠ 0 := mt bits_eq_zero_iff.mp ha
  exact Nat.lt_size.mp (by unfold bits at this ⊢; omega)

theorem bits_le (a : BitVec 256) : bits a ≤ 256 := Nat.size_le.mpr a.isLt

/-- `operator/=` divides: with the divisor shifted to the numerator's top bit, the loop's
remainder starts below the divisor shifted once more, and `LongDivision.loop_eq` applies. -/
theorem divAssign_eq {num div : BitVec 256} (hdiv : div ≠ 0) :
    divAssign num div = .ok (num / div) := by
  have hnum := toNat_lt_two_pow_bits num
  have hlow := two_pow_bits_le hdiv
  unfold divAssign
  rw [if_neg (mt bits_eq_zero_iff.mp hdiv)]
  split_ifs with hgt
  · -- the numerator is below the divisor
    congr 1
    apply BitVec.eq_of_toNat_eq
    rw [BitVec.toNat_udiv, Nat.div_eq_of_lt (hnum.trans_le ((Nat.pow_le_pow_right (by norm_num) (by omega)).trans
      hlow))]
    rfl
  · dsimp only
    congr 1
    apply BitVec.eq_of_toNat_eq
    rw [BitVec.toNat_udiv]
    have hd : 0 < div.toNat := (Nat.two_pow_pos _).trans_le hlow
    have hbits : bits div ≠ 0 := mt bits_eq_zero_iff.mp hdiv
    have h256 := bits_le num
    set shift := bits num - bits div
    have htop : bits num = bits div - 1 + (shift + 1) := by omega
    have hstart : num.toNat < div.toNat * 2 ^ (shift + 1) := by
      rw [htop, pow_add] at hnum
      exact hnum.trans_le (Nat.mul_le_mul_right _ hlow)
    have hshifted : (div <<< shift).toNat = div.toNat * 2 ^ (shift + 1) / 2 := by
      rw [LongDivision.half_shifted, BitVec.toNat_shiftLeft, Nat.shiftLeft_eq, Nat.mod_eq_of_lt]
      calc div.toNat * 2 ^ shift < 2 ^ bits div * 2 ^ shift :=
            Nat.mul_lt_mul_of_pos_right (toNat_lt_two_pow_bits div) (Nat.two_pow_pos _)
        _ = 2 ^ bits num := by rw [← pow_add]; congr 1; omega
        _ ≤ 2 ^ 256 := Nat.pow_le_pow_right (by norm_num) (bits_le num)
    rw [divLoop_toNat _ _ _ _ (by omega) (by simp), hshifted,
      LongDivision.loop_eq hd _ _ _ hstart]
    simp

end ArithUint256

end Trumpow
