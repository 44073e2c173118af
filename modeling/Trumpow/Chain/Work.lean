import Trumpow.Primitives.ArithUint256

/-!
# Chain — the work of a block

`chain.cpp`.  `GetBlockProof` is the number of hashes a block at the target `T` that `nBits`
encodes takes on average, `2 ^ 256 / (T + 1)`; a negative, overflowing or zero target is worth
nothing.  `2 ^ 256` does not fit in an `arith_uint256`, so the code computes
`~T / (T + 1) + 1`, with `operator/=`'s shift-and-subtract loop.

* `divAssign_not_add_one`: that expression is the quotient, for any non-zero `T` whose successor
  does not wrap, and every decoded target has such a successor
  (`ArithUint256.toNat_setCompact_add_one_lt`).
* `getBlockProof_floor`: the work of a valid target, positive and antitone in the target.
-/

namespace Trumpow

open ArithUint256

/-- `GetBlockProof(block)`, which reads only `block.nBits`. -/
def GetBlockProof (nBits : UInt32) : Except String (BitVec 256) :=
  let bnTarget := (SetCompact nBits).1
  let fNegative := (SetCompact nBits).2.1
  let fOverflow := (SetCompact nBits).2.2
  if fNegative ∨ fOverflow ∨ bnTarget = 0 then .ok 0
  else do
    -- `2 ^ 256` does not fit: it is `(2 ^ 256 - bnTarget - 1) / (bnTarget + 1) + 1`
    let q ← divAssign (~~~bnTarget) (bnTarget + 1)
    pure (q + 1)

/-- The computation after the guard: for a non-zero target whose successor does not wrap,
`~T / (T + 1) + 1` is `2 ^ 256 / (T + 1)`. -/
theorem divAssign_not_add_one {T : BitVec 256} (hzero : T ≠ 0) (hlt : T.toNat + 1 < 2 ^ 256) :
    (do let q ← divAssign (~~~T) (T + 1); pure (q + 1) : Except String (BitVec 256)) =
      .ok (BitVec.ofNat 256 (2 ^ 256 / (T.toNat + 1))) := by
  have hpos : 0 < T.toNat := BitVec.toNat_pos_of_ne_zero hzero
  have hT1 : (T + 1).toNat = T.toNat + 1 := by
    rw [BitVec.toNat_add, show (1 : BitVec 256).toNat = 1 from rfl, Nat.mod_eq_of_lt hlt]
  have hne : T + 1 ≠ 0 := fun h => by
    rw [h] at hT1
    simp at hT1
  -- `~T` is `2 ^ 256 - (T + 1)`, one divisor short of `2 ^ 256`
  have hq : (~~~T / (T + 1)).toNat = 2 ^ 256 / (T.toNat + 1) - 1 := by
    rw [BitVec.toNat_udiv, BitVec.toNat_not, hT1,
      show 2 ^ 256 - 1 - T.toNat = 2 ^ 256 - (T.toNat + 1) * 1 by omega, Nat.sub_mul_div]
  have hone : 1 ≤ 2 ^ 256 / (T.toNat + 1) := (Nat.one_le_div_iff (by omega)).mpr hlt.le
  rw [divAssign_eq hne]
  show Except.ok (~~~T / (T + 1) + 1) = _
  congr 1
  apply BitVec.eq_of_toNat_eq
  rw [BitVec.toNat_add, hq, show (1 : BitVec 256).toNat = 1 from rfl, BitVec.toNat_ofNat,
    Nat.sub_add_cancel hone]

/-- A target the guard lets through has the work `2 ^ 256 / (bnTarget + 1)`. -/
theorem getBlockProof_eq {nBits : UInt32} (hneg : (SetCompact nBits).2.1 = false)
    (hover : (SetCompact nBits).2.2 = false) (hzero : (SetCompact nBits).1 ≠ 0) :
    GetBlockProof nBits =
      .ok (BitVec.ofNat 256 (2 ^ 256 / ((SetCompact nBits).1.toNat + 1))) := by
  have hguard : ¬ ((SetCompact nBits).2.1 = true ∨ (SetCompact nBits).2.2 = true ∨
      (SetCompact nBits).1 = 0) := by
    rw [hneg, hover]
    simpa using hzero
  unfold GetBlockProof
  rw [if_neg hguard]
  exact divAssign_not_add_one hzero (toNat_setCompact_add_one_lt nBits)

/-- For a compact target that is not negative, does not overflow and is not zero, the work is
`⌊2 ^ 256 / (T + 1)⌋`, computed with no division by zero and no wrap; it is positive, and no
larger for a larger target. -/
theorem getBlockProof_floor (nBits : UInt32) (hneg : (SetCompact nBits).2.1 = false)
    (hover : (SetCompact nBits).2.2 = false) (hzero : (SetCompact nBits).1 ≠ 0) :
    ∃ w, GetBlockProof nBits = .ok w ∧ w.toNat = 2 ^ 256 / ((SetCompact nBits).1.toNat + 1) ∧
      0 < w.toNat ∧
      ∀ nBits' w', (SetCompact nBits').2.1 = false → (SetCompact nBits').2.2 = false →
        (SetCompact nBits).1 ≤ (SetCompact nBits').1 → GetBlockProof nBits' = .ok w' → w' ≤ w := by
  have hlt := toNat_setCompact_add_one_lt nBits
  have hpos : 0 < (SetCompact nBits).1.toNat := BitVec.toNat_pos_of_ne_zero hzero
  have hwork : 2 ^ 256 / ((SetCompact nBits).1.toNat + 1) < 2 ^ 256 :=
    Nat.div_lt_self (by norm_num) (by omega)
  refine ⟨_, getBlockProof_eq hneg hover hzero, by rw [BitVec.toNat_ofNat, Nat.mod_eq_of_lt hwork],
    ?_, fun nBits' w' hneg' hover' hle h' => ?_⟩
  · rw [BitVec.toNat_ofNat, Nat.mod_eq_of_lt hwork]
    exact (Nat.one_le_div_iff (by omega)).mpr hlt.le
  · -- the larger target is not zero either, and divides `2 ^ 256` by more
    have hle' : (SetCompact nBits).1.toNat ≤ (SetCompact nBits').1.toNat := BitVec.le_def.mp hle
    have hzero' : (SetCompact nBits').1 ≠ 0 := fun h => by
      rw [h] at hle'
      simp at hle'
      omega
    rw [getBlockProof_eq hneg' hover' hzero'] at h'
    cases h'
    have hwork' : 2 ^ 256 / ((SetCompact nBits').1.toNat + 1) < 2 ^ 256 :=
      Nat.div_lt_self (by norm_num) (by omega)
    rw [BitVec.le_def, BitVec.toNat_ofNat, BitVec.toNat_ofNat, Nat.mod_eq_of_lt hwork,
      Nat.mod_eq_of_lt hwork']
    exact Nat.div_le_div_left (by omega) (by omega)

/-- The target of difficulty one, `0x1d00ffff`, is worth `0x100010001` hashes. -/
theorem getBlockProof_floor_difficulty_one :
    ∃ w, GetBlockProof 0x1d00ffff = .ok w ∧ w.toNat = 0x100010001 := by
  obtain ⟨w, hw, hfloor, -⟩ := getBlockProof_floor 0x1d00ffff (by decide) (by decide) (by decide)
  exact ⟨w, hw, by rw [hfloor]; decide⟩

end Trumpow
