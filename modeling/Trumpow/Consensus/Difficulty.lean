import Trumpow.Consensus.Params
import Trumpow.Primitives.ArithUint256

/-!
# Consensus — the Digishield retarget

`CalculateTrumpowNextWorkRequired` (`trumpow.cpp`) decodes the previous block's `nBits` to a
target `T`, multiplies it by the actual timespan, filtered by Digishield's amplitude filter and
limited to `[nMinTimespan, nMaxTimespan]`, divides by `nPowTargetTimespan`, caps the result at
`powLimit` and writes it back in compact form.  `int64_t` arithmetic is `Int` (block times and
the chains' timespans are far from its bounds) with `/` truncating toward zero (`Int.tdiv`);
`bnNew *= nModulatedTimespan` takes the `uint32_t` overload, so the timespan is narrowed to 32
bits and the product kept to 256.

`calculate_eq` is the function's `Nat` view.  Where nothing overflows (`RetargetSafe`: a
positive timespan, `0 ≤ nMinTimespan ≤ nMaxTimespan`, and `powLimit * nMaxTimespan < 2^256`)
the new target is the compact truncation of `min (T * nModulatedTimespan / R) powLimit`
(`calculate_of_safe`), so it lies between the truncations at the two timespan limits
(`retargetWithin_of_safe`) and grows with the actual timespan (`calculate_mono`).  Every set
`GetConsensus` reaches on the main and test chains, and on regtest from height 10, is safe
(`retargetSafe_of_reachable`); regtest's first set, with a 4-hour timespan under a `2^255`
limit, is not.
-/

namespace Trumpow

namespace Consensus

open ArithUint256

/-- The `if` chain of `CalculateTrumpowNextWorkRequired`: the modulated timespan (Digishield's
amplitude filter, or the actual timespan untouched), `nMinTimespan` and `nMaxTimespan`. -/
def retargetLimits (params : Params) (nHeight nActualTimespan : Int) : Int × Int × Int :=
  let retargetTimespan := params.nPowTargetTimespan
  if params.fDigishieldDifficultyCalculation then
    (retargetTimespan + (nActualTimespan - retargetTimespan).tdiv 8,
      retargetTimespan - retargetTimespan.tdiv 4, retargetTimespan + retargetTimespan.tdiv 2)
  else if nHeight > 10000 then (nActualTimespan, retargetTimespan.tdiv 4, retargetTimespan * 4)
  else if nHeight > 5000 then (nActualTimespan, retargetTimespan.tdiv 8, retargetTimespan * 4)
  else (nActualTimespan, retargetTimespan.tdiv 16, retargetTimespan * 4)

/-- `nModulatedTimespan` after the source's "Limit adjustment step". -/
def modulatedTimespan (params : Params) (nHeight nActualTimespan : Int) : Int :=
  let limits := retargetLimits params nHeight nActualTimespan
  if limits.1 < limits.2.1 then limits.2.1
  else if limits.1 > limits.2.2 then limits.2.2 else limits.1

/-- `CalculateTrumpowNextWorkRequired(pindexLast, nFirstBlockTime, params)`, given the three
fields of `pindexLast` it reads: `nHeight`, `GetBlockTime()` and `nBits`.  `operator/=` converts
the timespan through `base_uint(uint64_t)` and throws on a zero divisor. -/
def CalculateTrumpowNextWorkRequired (nHeightLast nTimeLast : Int) (nBitsLast : UInt32)
    (nFirstBlockTime : Int) (params : Params) : Except String UInt32 :=
  let nHeight := nHeightLast + 1
  let retargetTimespan := params.nPowTargetTimespan
  let nModulatedTimespan := modulatedTimespan params nHeight (nTimeLast - nFirstBlockTime)
  let bnPowLimit := params.powLimit
  let bnNew := (SetCompact nBitsLast).1
  let bnNew := bnNew * BitVec.ofNat 256 (nModulatedTimespan % 2 ^ 32).toNat
  let divisor : BitVec 256 := BitVec.ofNat 256 (retargetTimespan % 2 ^ 64).toNat
  if divisor = 0 then .error "Division by zero"
  else
    let bnNew := bnNew / divisor
    let bnNew := if bnNew > bnPowLimit then bnPowLimit else bnNew
    GetCompact bnNew false

/-! ## The limits and the `Nat` view -/

variable {params : Params}

/-- `nMinTimespan` and `nMaxTimespan` do not read the actual timespan. -/
theorem retargetLimits_snd (nHeight A A' : Int) :
    (retargetLimits params nHeight A).2 = (retargetLimits params nHeight A').2 := by
  unfold retargetLimits
  split_ifs <;> rfl

/-- The amplitude filter is monotone: `tdiv` by 8 keeps the order. -/
theorem retargetLimits_fst_mono {nHeight A A' : Int} (h : A ≤ A') :
    (retargetLimits params nHeight A).1 ≤ (retargetLimits params nHeight A').1 := by
  unfold retargetLimits
  split_ifs
  · exact Int.add_le_add_left (Int.tdiv_le_tdiv (by norm_num) (Int.sub_le_sub_right h _)) _
  all_goals exact h

theorem modulatedTimespan_mem {nHeight A : Int}
    (h : (retargetLimits params nHeight 0).2.1 ≤ (retargetLimits params nHeight 0).2.2) :
    (retargetLimits params nHeight 0).2.1 ≤ modulatedTimespan params nHeight A ∧
      modulatedTimespan params nHeight A ≤ (retargetLimits params nHeight 0).2.2 := by
  rw [retargetLimits_snd nHeight 0 A] at h ⊢
  dsimp only [modulatedTimespan]
  split_ifs <;> omega

theorem modulatedTimespan_mono {nHeight A A' : Int} (hA : A ≤ A')
    (h : (retargetLimits params nHeight 0).2.1 ≤ (retargetLimits params nHeight 0).2.2) :
    modulatedTimespan params nHeight A ≤ modulatedTimespan params nHeight A' := by
  have hm : (retargetLimits params nHeight A).1 ≤ (retargetLimits params nHeight A').1 :=
    retargetLimits_fst_mono hA
  rw [retargetLimits_snd nHeight 0 A'] at h
  dsimp only [modulatedTimespan]
  rw [retargetLimits_snd nHeight A A']
  split_ifs <;> omega

/-- The target `CalculateTrumpowNextWorkRequired` compacts, as a number: the product with the
narrowed timespan kept to 256 bits, divided by the converted timespan, capped at the limit. -/
def retargetValue (T powLimit : Nat) (nModulatedTimespan retargetTimespan : Int) : Nat :=
  min (T * (nModulatedTimespan % 2 ^ 32).toNat % 2 ^ 256 / (retargetTimespan % 2 ^ 64).toNat)
    powLimit

theorem toNat_cap (b a : BitVec 256) : (if b > a then a else b).toNat = min b.toNat a.toNat := by
  split_ifs with h
  · rw [gt_iff_lt, BitVec.lt_def] at h
    omega
  · rw [gt_iff_lt, BitVec.lt_def] at h
    omega

theorem calculate_eq {nHeightLast nTimeLast nFirstBlockTime : Int} {nBitsLast : UInt32}
    (hR : (params.nPowTargetTimespan % 2 ^ 64).toNat ≠ 0) :
    CalculateTrumpowNextWorkRequired nHeightLast nTimeLast nBitsLast nFirstBlockTime params =
      .ok (UInt32.ofNat (compactWord (retargetValue (SetCompact nBitsLast).1.toNat
        params.powLimit.toNat
        (modulatedTimespan params (nHeightLast + 1) (nTimeLast - nFirstBlockTime))
        params.nPowTargetTimespan))) := by
  have hR64 : (params.nPowTargetTimespan % 2 ^ 64).toNat < 2 ^ 64 := by omega
  have hdiv : BitVec.ofNat 256 (params.nPowTargetTimespan % 2 ^ 64).toNat ≠ 0 := by
    intro h0
    have := congrArg BitVec.toNat h0
    rw [BitVec.toNat_ofNat, Nat.mod_eq_of_lt (by omega)] at this
    exact hR this
  have hm32 : (modulatedTimespan params (nHeightLast + 1) (nTimeLast - nFirstBlockTime) %
      2 ^ 32).toNat < 2 ^ 256 := by omega
  simp only [CalculateTrumpowNextWorkRequired, if_neg hdiv]
  rw [getCompact_eq, toNat_cap, BitVec.toNat_udiv, BitVec.toNat_mul, BitVec.toNat_ofNat,
    BitVec.toNat_ofNat, Nat.mod_eq_of_lt (hR64.trans (by norm_num)), Nat.mod_eq_of_lt hm32]
  rfl

/-- A parameter set whose retarget at `nHeight` cannot overflow: a positive timespan within
`int64_t`, limits `0 ≤ nMinTimespan ≤ nMaxTimespan < 2^32`, and `powLimit * nMaxTimespan` below
`2^256`. -/
structure RetargetSafe (params : Params) (nHeight : Int) : Prop where
  timespan_pos : 0 < params.nPowTargetTimespan
  timespan_lt : params.nPowTargetTimespan < 2 ^ 63
  min_nonneg : 0 ≤ (retargetLimits params nHeight 0).2.1
  min_le_max : (retargetLimits params nHeight 0).2.1 ≤ (retargetLimits params nHeight 0).2.2
  max_lt : (retargetLimits params nHeight 0).2.2 < 2 ^ 32
  no_overflow : params.powLimit.toNat * (retargetLimits params nHeight 0).2.2.toNat < 2 ^ 256

/-- What one retarget is to satisfy: no overflow in the product, and a compact result that
decodes with no flag set to a target at most `powLimit`, at least the truncated target at
`nMinTimespan` and at most the target at `nMaxTimespan`. -/
def RetargetWithin (params : Params) (nHeightLast nTimeLast : Int) (nBitsLast : UInt32)
    (nFirstBlockTime : Int) : Prop :=
  let T := (SetCompact nBitsLast).1.toNat
  let R := params.nPowTargetTimespan.toNat
  let limits := retargetLimits params (nHeightLast + 1) (nTimeLast - nFirstBlockTime)
  T * (modulatedTimespan params (nHeightLast + 1) (nTimeLast - nFirstBlockTime)).toNat < 2 ^ 256 ∧
  ∃ c, CalculateTrumpowNextWorkRequired nHeightLast nTimeLast nBitsLast nFirstBlockTime params =
      .ok c ∧
    (SetCompact c).2 = (false, false) ∧
    (SetCompact c).1.toNat ≤ params.powLimit.toNat ∧
    compactTrunc (min params.powLimit.toNat (T * limits.2.1.toNat / R)) ≤
      (SetCompact c).1.toNat ∧
    (SetCompact c).1.toNat ≤ T * limits.2.2.toNat / R

section Safe

variable {nHeightLast nTimeLast nFirstBlockTime : Int} {nBitsLast : UInt32}
  (hs : RetargetSafe params (nHeightLast + 1))
  (hT : (SetCompact nBitsLast).1.toNat ≤ params.powLimit.toNat)
include hs hT

theorem mul_modulatedTimespan_lt (A : Int) :
    (SetCompact nBitsLast).1.toNat * (modulatedTimespan params (nHeightLast + 1) A).toNat <
      2 ^ 256 := by
  obtain ⟨-, hhi⟩ := modulatedTimespan_mem (A := A) hs.min_le_max
  calc (SetCompact nBitsLast).1.toNat * (modulatedTimespan params (nHeightLast + 1) A).toNat
      ≤ params.powLimit.toNat * (retargetLimits params (nHeightLast + 1) 0).2.2.toNat :=
        Nat.mul_le_mul hT (Int.toNat_le_toNat hhi)
    _ < 2 ^ 256 := hs.no_overflow

/-- Without overflow the retarget computes `min (T * nModulatedTimespan / R) powLimit`. -/
theorem calculate_of_safe :
    CalculateTrumpowNextWorkRequired nHeightLast nTimeLast nBitsLast nFirstBlockTime params =
      .ok (UInt32.ofNat (compactWord (min ((SetCompact nBitsLast).1.toNat *
        (modulatedTimespan params (nHeightLast + 1) (nTimeLast - nFirstBlockTime)).toNat /
          params.nPowTargetTimespan.toNat) params.powLimit.toNat))) := by
  obtain ⟨hlo, hhi⟩ := modulatedTimespan_mem (A := nTimeLast - nFirstBlockTime) hs.min_le_max
  have hR := hs.timespan_pos
  have h32 : modulatedTimespan params (nHeightLast + 1) (nTimeLast - nFirstBlockTime) % 2 ^ 32 =
      modulatedTimespan params (nHeightLast + 1) (nTimeLast - nFirstBlockTime) :=
    Int.emod_eq_of_lt (by have := hs.min_nonneg; omega) (by have := hs.max_lt; omega)
  have h64 : params.nPowTargetTimespan % 2 ^ 64 = params.nPowTargetTimespan :=
    Int.emod_eq_of_lt hR.le (by have := hs.timespan_lt; omega)
  rw [calculate_eq (by rw [h64]; omega), retargetValue, h32, h64,
    Nat.mod_eq_of_lt (mul_modulatedTimespan_lt hs hT _)]

/-- The target a safe retarget writes, decoded. -/
theorem setCompact_of_calculate {c : UInt32}
    (hc : CalculateTrumpowNextWorkRequired nHeightLast nTimeLast nBitsLast nFirstBlockTime params =
      .ok c) :
    SetCompact c = (BitVec.ofNat 256 (compactTrunc (min ((SetCompact nBitsLast).1.toNat *
        (modulatedTimespan params (nHeightLast + 1) (nTimeLast - nFirstBlockTime)).toNat /
          params.nPowTargetTimespan.toNat) params.powLimit.toNat)), false, false) := by
  rw [calculate_of_safe hs hT, Except.ok.injEq] at hc
  subst hc
  exact setCompact_compactWord ((min_le_right _ _).trans_lt params.powLimit.isLt)

theorem toNat_setCompact_of_calculate {c : UInt32}
    (hc : CalculateTrumpowNextWorkRequired nHeightLast nTimeLast nBitsLast nFirstBlockTime params =
      .ok c) :
    (SetCompact c).1.toNat = compactTrunc (min ((SetCompact nBitsLast).1.toNat *
        (modulatedTimespan params (nHeightLast + 1) (nTimeLast - nFirstBlockTime)).toNat /
          params.nPowTargetTimespan.toNat) params.powLimit.toNat) := by
  rw [setCompact_of_calculate hs hT hc, BitVec.toNat_ofNat,
    Nat.mod_eq_of_lt (compactTrunc_le.trans_lt ((min_le_right _ _).trans_lt params.powLimit.isLt))]

/-- A safe retarget stays within its bounds: the product does not overflow, and the written
target decodes with no flag set between the truncated target at `nMinTimespan` and the target
at `nMaxTimespan`, and at most `powLimit`. -/
theorem retargetWithin_of_safe :
    RetargetWithin params nHeightLast nTimeLast nBitsLast nFirstBlockTime := by
  obtain ⟨hlo, hhi⟩ := modulatedTimespan_mem (A := nTimeLast - nFirstBlockTime) hs.min_le_max
  have hc : CalculateTrumpowNextWorkRequired nHeightLast nTimeLast nBitsLast nFirstBlockTime
      params = _ := calculate_of_safe hs hT
  dsimp only [RetargetWithin]
  rw [retargetLimits_snd _ (nTimeLast - nFirstBlockTime) 0]
  refine ⟨mul_modulatedTimespan_lt hs hT _, _, hc,
    (setCompact_of_calculate hs hT hc).symm ▸ rfl, ?_, ?_, ?_⟩
  all_goals rw [toNat_setCompact_of_calculate hs hT hc]
  · exact compactTrunc_le.trans (min_le_right _ _)
  · -- the limited timespan is at least `nMinTimespan`, and truncation keeps the order
    rw [min_comm]
    exact compactTrunc_mono
      (min_le_min (Nat.div_le_div_right (Nat.mul_le_mul_left _ (Int.toNat_le_toNat hlo))) le_rfl)
  · exact compactTrunc_le.trans ((min_le_left _ _).trans
      (Nat.div_le_div_right (Nat.mul_le_mul_left _ (Int.toNat_le_toNat hhi))))

end Safe

/-- For a fixed previous block, a longer actual timespan never gives a smaller target. -/
theorem calculate_mono {nHeightLast nTimeLast nFirstBlockTime nFirstBlockTime' : Int}
    {nBitsLast : UInt32} (hs : RetargetSafe params (nHeightLast + 1))
    (hT : (SetCompact nBitsLast).1.toNat ≤ params.powLimit.toNat)
    (hA : nTimeLast - nFirstBlockTime ≤ nTimeLast - nFirstBlockTime') {c c' : UInt32}
    (hc : CalculateTrumpowNextWorkRequired nHeightLast nTimeLast nBitsLast nFirstBlockTime params =
      .ok c)
    (hc' : CalculateTrumpowNextWorkRequired nHeightLast nTimeLast nBitsLast nFirstBlockTime'
      params = .ok c') :
    (SetCompact c).1.toNat ≤ (SetCompact c').1.toNat := by
  rw [toNat_setCompact_of_calculate hs hT hc, toNat_setCompact_of_calculate hs hT hc']
  -- the limited timespan grows with the actual one; every later step is monotone
  have hm : modulatedTimespan params (nHeightLast + 1) (nTimeLast - nFirstBlockTime) ≤
      modulatedTimespan params (nHeightLast + 1) (nTimeLast - nFirstBlockTime') :=
    modulatedTimespan_mono hA hs.min_le_max
  exact compactTrunc_mono
    (min_le_min (Nat.div_le_div_right (Nat.mul_le_mul_left _ (Int.toNat_le_toNat hm))) le_rfl)

/-- With Digishield the limits are `R - R / 4` and `R + R / 2` at every height. -/
theorem retargetLimits_snd_of_digishield (h : params.fDigishieldDifficultyCalculation = true)
    (nHeight A : Int) :
    (retargetLimits params nHeight A).2 =
      (params.nPowTargetTimespan - params.nPowTargetTimespan.tdiv 4,
        params.nPowTargetTimespan + params.nPowTargetTimespan.tdiv 2) := by
  simp [retargetLimits, h]

/-- A Digishield set is safe at every height when its limit times `R + R / 2` stays below
`2^256`. -/
theorem retargetSafe_of_digishield (h : params.fDigishieldDifficultyCalculation = true)
    (hR : 0 < params.nPowTargetTimespan) (hR' : params.nPowTargetTimespan < 2 ^ 31)
    (hlimit : params.powLimit.toNat *
      (params.nPowTargetTimespan + params.nPowTargetTimespan.tdiv 2).toNat < 2 ^ 256)
    (nHeight : Int) : RetargetSafe params nHeight := by
  have hq4 := Int.tdiv_eq_ediv_of_nonneg (b := 4) hR.le
  have hq2 := Int.tdiv_eq_ediv_of_nonneg (b := 2) hR.le
  have hl := retargetLimits_snd_of_digishield h nHeight 0
  refine ⟨hR, by omega, ?_, ?_, ?_, ?_⟩ <;> rw [hl] <;> dsimp only
  · omega
  · omega
  · omega
  · exact hlimit

/-- Every parameter set `GetConsensus` reaches on the main and test chains, and on regtest from
height 10, is safe at every height. -/
theorem retargetSafe_of_reachable :
    ∀ root ∈ [CMainParams.pConsensusRoot, CTestNetParams.pConsensusRoot,
      CRegTestParams.pConsensusRoot],
    ∀ (h : Nat) (params : Params), Params.GetConsensus h root = some params →
      (root = CRegTestParams.pConsensusRoot → 10 ≤ h) →
      ∀ nHeight, RetargetSafe params nHeight := by
  intro root hroot h params hget hreg
  simp only [List.mem_cons, List.not_mem_nil, or_false] at hroot
  rcases hroot with rfl | rfl | rfl
  · rw [CMainParams.getConsensus, Option.some_inj] at hget
    subst hget
    split_ifs <;> exact retargetSafe_of_digishield rfl (by decide) (by decide) (by decide)
  · rw [CTestNetParams.getConsensus, Option.some_inj] at hget
    subst hget
    split_ifs <;> exact retargetSafe_of_digishield rfl (by decide) (by decide) (by decide)
  · rw [CRegTestParams.getConsensus, if_neg (by have := hreg rfl; omega), Option.some_inj] at hget
    subst hget
    split_ifs <;> exact retargetSafe_of_digishield rfl (by decide) (by decide) (by decide)

/-- On every parameter set reachable on the main and test chains, and on regtest from height 10,
and for every previous block whose target is at most the limit, the retarget stays within its
bounds for every first-block time, and its target grows with the actual timespan. -/
theorem calculateTrumpowNextWorkRequired_within :
    ∀ root ∈ [CMainParams.pConsensusRoot, CTestNetParams.pConsensusRoot,
      CRegTestParams.pConsensusRoot],
    ∀ (h : Nat) (params : Params), Params.GetConsensus h root = some params →
      (root = CRegTestParams.pConsensusRoot → 10 ≤ h) →
    ∀ (nHeightLast nTimeLast : Int) (nBitsLast : UInt32),
      (SetCompact nBitsLast).1.toNat ≤ params.powLimit.toNat →
      (∀ nFirstBlockTime,
        RetargetWithin params nHeightLast nTimeLast nBitsLast nFirstBlockTime) ∧
      ∀ (nFirstBlockTime nFirstBlockTime' : Int) (c c' : UInt32),
        nTimeLast - nFirstBlockTime ≤ nTimeLast - nFirstBlockTime' →
        CalculateTrumpowNextWorkRequired nHeightLast nTimeLast nBitsLast nFirstBlockTime params =
          .ok c →
        CalculateTrumpowNextWorkRequired nHeightLast nTimeLast nBitsLast nFirstBlockTime' params =
          .ok c' →
        (SetCompact c).1.toNat ≤ (SetCompact c').1.toNat := by
  intro root hroot h params hget hreg nHeightLast nTimeLast nBitsLast hT
  have hs := retargetSafe_of_reachable root hroot h params hget hreg (nHeightLast + 1)
  exact ⟨fun _ => retargetWithin_of_safe hs hT,
    fun _ _ _ _ hA hc hc' => calculate_mono hs hT hA hc hc'⟩

theorem calculateTrumpowNextWorkRequired_within_auxpow :
    RetargetWithin CMainParams.auxpowConsensus 60000 61060 0x1e0fffff 61000 :=
  (calculateTrumpowNextWorkRequired_within CMainParams.pConsensusRoot (by simp) 60001
    CMainParams.auxpowConsensus (by rw [CMainParams.getConsensus]; rfl) (fun _ => by norm_num) 60000 61060 0x1e0fffff
    (by decide)).1 61000

/-- Regtest's first set, at heights below 10, retargets a 4-hour timespan under a `2^255` limit:
from the genesis `nBits` the product with the 900-second lower limit passes `2^256`, and the
written target, about `2^242`, is far below the target at the lower limit, `T / 16`. -/
theorem calculateTrumpowNextWorkRequired_regtest_overflow :
    Params.GetConsensus 0 CRegTestParams.pConsensusRoot = some CRegTestParams.consensus ∧
      (SetCompact 0x207fffff).2 = (false, false) ∧
      0 < (SetCompact 0x207fffff).1.toNat ∧
      (SetCompact 0x207fffff).1.toNat ≤ CRegTestParams.consensus.powLimit.toNat ∧
      CalculateTrumpowNextWorkRequired 0 0 0x207fffff 0 CRegTestParams.consensus =
        .ok 0x1f048d05 ∧
      (SetCompact 0x1f048d05).1.toNat < (SetCompact 0x207fffff).1.toNat / 16 ∧
      ¬ RetargetWithin CRegTestParams.consensus 0 0 0x207fffff 0 := by
  have hv : retargetValue (SetCompact 0x207fffff).1.toNat CRegTestParams.consensus.powLimit.toNat
      (modulatedTimespan CRegTestParams.consensus (0 + 1) (0 - 0))
      CRegTestParams.consensus.nPowTargetTimespan = 16776316 * 2 ^ 232 / 14400 := by decide
  refine ⟨by rw [CRegTestParams.getConsensus]; rfl, by decide, by decide, by decide, ?_,
    by decide, fun h => absurd h.1 (by decide)⟩
  rw [calculate_eq (by decide), hv, compactWord, window,
    byteSize_eq_of_bounds (s := 30) (by norm_num) (by norm_num)]
  rfl

end Consensus

end Trumpow
