import Trumpow.Consensus.MerkleLoop

/-!
# Consensus — Merkle — the final sweep

After the leaf loop, `MerkleComputation` finds the lowest set bit `t` of the number of leaves
(`lowestLevel_spec`) and sweeps up from `inner[t]`.  At each level `lv` the sweep keeps
(`SweepInv`) `count` as the number of leaves rounded up to a multiple of `2^lv`, taken modulo
`2^32`, and `h` as the last node of level `lv`: an odd level pairs `h` with itself
(`SweepInv.dup`), an even one pairs `inner[lv]` with it (`SweepInv.combine`), and the loop stops
when the level has one node (`SweepInv.top`).

With more than `2^31` leaves the rounded count reaches `2^32`, the `uint32_t` wraps to zero and
the sweep never meets `count == 1u << level` below level 32 (`sweep_spec`).

`merkleComputation_eq` puts the two loops together.
-/

set_option linter.unusedSectionVars false

namespace Trumpow.Merkle
open PadTree

variable {α : Type} [DecidableEq α] [Inhabited α] (hash : α → α → α)

/-! ### The lowest set bit -/

/-- `lowestLevel` finds the lowest set bit of a count in `[1, 2^32)`. -/
theorem lowestLevel_spec {n : Nat} (h1 : 1 ≤ n) (hn : n < 2 ^ 32) :
    ∀ d lv, lv + d = 32 → n % 2 ^ lv = 0 →
      ∃ t, lowestLevel n lv = some t ∧ t < 32 ∧ n % 2 ^ t = 0 ∧ n / 2 ^ t % 2 = 1 := by
  intro d
  induction d with
  | zero =>
      intro lv hd hlow
      rw [Nat.add_zero] at hd
      subst hd
      rw [Nat.mod_eq_of_lt hn] at hlow
      omega
  | succ d ih =>
      intro lv hd hlow
      have hl : lv < 32 := by omega
      by_cases hb : n.testBit lv
      · exact ⟨lv, by rw [lowestLevel, if_pos hl, if_pos hb], hl, hlow, (Bits.testBit_iff _ _).mp hb⟩
      · have hb0 : n / 2 ^ lv % 2 = 0 := by rw [Bits.testBit_iff] at hb; omega
        obtain ⟨t, ht, hrest⟩ := ih (lv + 1) (by omega) (Bits.mod_pow_succ_eq_zero hlow hb0)
        exact ⟨t, by rw [lowestLevel, if_pos hl, if_neg hb, ht], hrest⟩

/-! ### The final sweep -/

section Sweep

variable (leaves : List α) (p : Nat) (s : Acc α)

/-- What the sweep keeps at level `lv`, from the lowest set bit `t` of the number of leaves up:
`count` is the number of leaves rounded up to a multiple of `2^lv`, as a `uint32_t`; `h` is the
last node of level `lv`; `matchh` says whether it holds the leaf `p`, and then the branch is
`p`'s up to level `lv`. -/
structure SweepInv (t lv count : Nat) (h : α) (matchh : Bool) (br : List α) : Prop where
  t_le : t ≤ lv
  le_height : lv ≤ height leaves.length
  count_eq : count = width leaves.length lv * 2 ^ lv % 2 ^ 32
  h_eq : h = node hash leaves lv (width leaves.length lv - 1)
  matchh_iff : matchh = true ↔ p < leaves.length ∧ p / 2 ^ lv = width leaves.length lv - 1
  branch_eq : br =
    if p < leaves.length ∧ p / 2 ^ lv = width leaves.length lv - 1 then branch hash leaves p lv
    else s.branch

variable {leaves p s}
variable {t : Nat}

theorem width_mul_le_two_pow_32 (hn : leaves.length < 2 ^ 32) {lv : Nat}
    (hlv : lv ≤ height leaves.length) :
    width leaves.length lv * 2 ^ lv ≤ 2 ^ 32 := by
  have hh : height leaves.length ≤ 32 := (height_le_iff_le_two_pow _ _).mpr hn.le
  exact (width_mul_le hlv (le_two_pow_height _)).trans (Nat.pow_le_pow_right (by omega) hh)

/-- Bit `lv` of the count is the parity of the width of level `lv`. -/
theorem SweepInv.testBit_iff {lv count : Nat} {h : α} {matchh : Bool} {br : List α}
    (hi : SweepInv hash leaves p s t lv count h matchh br) (hl : lv < 32) :
    count.testBit lv ↔ width leaves.length lv % 2 = 1 := by
  rw [hi.count_eq, Nat.testBit_mod_two_pow, Nat.testBit_mul_two_pow, Nat.sub_self,
    Nat.testBit_zero]
  simp [hl]

/-- The count is `1u << lv` exactly when level `lv` has one node. -/
theorem SweepInv.count_eq_iff (hn : leaves.length < 2 ^ 32) {lv count : Nat} {h : α}
    {matchh : Bool} {br : List α} (hi : SweepInv hash leaves p s t lv count h matchh br)
    (hl : lv < 32) :
    count = 2 ^ lv ↔ width leaves.length lv = 1 := by
  have hle := width_mul_le_two_pow_32 hn hi.le_height
  have hp := Nat.two_pow_pos lv
  have hp32 : 2 ^ lv < 2 ^ 32 := Nat.pow_lt_pow_right (by omega) hl
  rw [hi.count_eq]
  constructor
  · intro he
    rcases hle.lt_or_eq with hlt | heq
    · rw [Nat.mod_eq_of_lt hlt] at he
      exact Nat.eq_of_mul_eq_mul_right hp (by rw [he, Nat.one_mul])
    · rw [heq, Nat.mod_self] at he
      omega
  · intro hw
    rw [hw, Nat.one_mul, Nat.mod_eq_of_lt hp32]

/-- At the top, `count == 1u << level`: the level has one node, the root, and the branch is
complete. -/
theorem SweepInv.top (hn : leaves.length < 2 ^ 32) {lv count : Nat} {h : α} {matchh : Bool}
    {br : List α} (hi : SweepInv hash leaves p s t lv count h matchh br) (hl : lv < 32)
    (hc : count = 2 ^ lv) :
    lv = height leaves.length ∧ h = node hash leaves (height leaves.length) 0 ∧
      br = if p < leaves.length then branch hash leaves p (height leaves.length) else s.branch := by
  have hw := (hi.count_eq_iff hash hn hl).mp hc
  have hlv : lv = height leaves.length :=
    le_antisymm hi.le_height ((height_le_iff _ _).mpr hw.le)
  refine ⟨hlv, by rw [hi.h_eq, hw, hlv], ?_⟩
  -- every leaf is under the root
  have hcond : p < leaves.length ∧ p / 2 ^ lv = width leaves.length lv - 1 ↔ p < leaves.length := by
    rw [hw, hlv]
    exact ⟨And.left, fun hp => ⟨hp, Nat.div_eq_of_lt (lt_of_lt_of_le hp (le_two_pow_height _))⟩⟩
  rw [hi.branch_eq, if_congr hcond rfl rfl, hlv]

/-- An odd level below the top: `h` is combined with itself and `count` grows by `1u << level`,
to the next multiple of `2^(level+1)`. -/
theorem SweepInv.dup (hn : leaves.length < 2 ^ 32) {lv count : Nat} {h : α} {matchh : Bool}
    {br : List α} (hi : SweepInv hash leaves p s t lv count h matchh br) (hl : lv < 32)
    (hb : count.testBit lv) (hc : count ≠ 2 ^ lv) :
    SweepInv hash leaves p s t (lv + 1) ((count + 2 ^ lv) % 2 ^ 32) (hash h h) matchh
      (if matchh then br ++ [h] else br) := by
  have hw1 := (hi.testBit_iff hash hl).mp hb
  have hw2 : width leaves.length lv ≠ 1 := fun hw => hc ((hi.count_eq_iff hash hn hl).mpr hw)
  have hlt : lv < height leaves.length := (lt_height_iff _ _).mpr (by omega)
  have hsucc : width leaves.length (lv + 1) = (width leaves.length lv + 1) / 2 := rfl
  -- `p`'s node is the last one at level `lv + 1` exactly when it was at level `lv`
  have hcond : p < leaves.length ∧ p / 2 ^ (lv + 1) = width leaves.length (lv + 1) - 1 ↔
      p < leaves.length ∧ p / 2 ^ lv = width leaves.length lv - 1 := by
    refine and_congr_right fun hp => ?_
    have hpw := div_lt_width hp lv
    rw [Bits.div_pow_succ, hsucc]
    generalize p / 2 ^ lv = x at *
    omega
  refine ⟨by have := hi.t_le; omega, hlt, ?_, ?_, hi.matchh_iff.trans hcond.symm, ?_⟩
  · have hmul : (width leaves.length lv + 1) / 2 * 2 ^ (lv + 1) =
        width leaves.length lv * 2 ^ lv + 2 ^ lv := by
      rw [pow_succ, Nat.mul_comm (2 ^ lv) 2, ← Nat.mul_assoc,
        Nat.div_mul_cancel (by omega : 2 ∣ width leaves.length lv + 1), Nat.add_mul, Nat.one_mul]
    rw [hi.count_eq, Nat.mod_add_mod, hsucc, hmul]
  · rw [hi.h_eq, hsucc, node_succ_of_ge hash leaves (by omega)]
    congr 2 <;> omega
  · rw [hi.branch_eq, if_congr hcond rfl rfl]
    by_cases hm : p < leaves.length ∧ p / 2 ^ lv = width leaves.length lv - 1
    · -- `h` is the last node of an odd level, its own sibling
      rw [if_pos (hi.matchh_iff.mpr hm), if_pos hm, if_pos hm, branch_succ, hm.2,
        Bits.xor_one_even (by omega), Nat.min_eq_right (by omega), hi.h_eq]
    · rw [if_neg (mt hi.matchh_iff.mp hm), if_neg hm, if_neg hm]

section Leaves

variable (hs : LoopInv hash leaves p leaves.length s) (ht : leaves.length % 2 ^ t = 0)
  (hodd : leaves.length / 2 ^ t % 2 = 1)
include hs ht hodd

/-- An even level: `inner[level]`, stored by the leaf loop, and `h` are the last two nodes. -/
theorem SweepInv.combine {lv count : Nat} {h : α} {matchh : Bool} {br : List α}
    (hi : SweepInv hash leaves p s t lv count h matchh br) (hl : lv < 32)
    (hb : ¬ count.testBit lv) :
    SweepInv hash leaves p s t (lv + 1) count (hash (s.inner lv) h)
      (record s.inner s.matchlevel lv h matchh br).1
      (record s.inner s.matchlevel lv h matchh br).2 := by
  have hw0 : width leaves.length lv % 2 = 0 := by
    have := mt (hi.testBit_iff hash hl).mpr hb
    omega
  have hlt : t < lv := by
    rcases hi.t_le.lt_or_eq with h | h
    · exact h
    · subst h
      rw [width_of_mod_eq_zero ht] at hw0
      omega
  have hw := width_of_mod_ne_zero (Bits.mod_ne_zero_of_lt hodd hlt)
  have hnodd : leaves.length / 2 ^ lv % 2 = 1 := by omega
  have hinner := hs.inner_eq lv ((Bits.testBit_iff _ _).mpr hnodd)
  have hh : h = node hash leaves lv (leaves.length / 2 ^ lv) := by rw [hi.h_eq, hw, Nat.add_sub_cancel]
  have hq := Bits.div_eq_of_odd hnodd
  have hsucc : width leaves.length (lv + 1) = leaves.length / 2 ^ (lv + 1) + 1 := by
    show (width leaves.length lv + 1) / 2 = _
    omega
  have hlth : lv < height leaves.length := (lt_height_iff _ _).mpr (by omega)
  -- the branch bookkeeping is the leaf loop's, with `c` the number of leaves
  have hrec : ((record s.inner s.matchlevel lv h matchh br).1 = true ↔
        p < leaves.length ∧ p / 2 ^ (lv + 1) = leaves.length / 2 ^ (lv + 1)) ∧
      (record s.inner s.matchlevel lv h matchh br).2 =
        if p < leaves.length ∧ p / 2 ^ (lv + 1) = leaves.length / 2 ^ (lv + 1) then
          branch hash leaves p (lv + 1)
        else s.branch := by
    by_cases hp : p < leaves.length
    · have hmatch : matchh = true ↔ p / 2 ^ lv = leaves.length / 2 ^ lv := by
        rw [hi.matchh_iff, hw, Nat.add_sub_cancel]
        simp [hp]
      have hbr : br = if p / 2 ^ lv = leaves.length / 2 ^ lv then branch hash leaves p lv
          else s.branch := by
        rw [hi.branch_eq, hw, Nat.add_sub_cancel]
        simp [hp]
      have hrec := record_climb hash leaves p hs (by omega) hnodd hinner hh hmatch hbr
      simpa [hp] using hrec
    · -- `p` is past the last leaf: nothing is recorded
      have hm : matchh = false := by simpa [hp] using hi.matchh_iff
      have hml : s.matchlevel ≠ lv := by rw [(hs.before (by omega)).1]; omega
      simp [record, hm, hml, hp, hi.branch_eq]
  refine ⟨by omega, hlth, ?_, ?_, ?_, ?_⟩
  · -- the count already is a multiple of `2^(lv+1)`
    have hmul : width leaves.length lv * 2 ^ lv =
        (leaves.length / 2 ^ (lv + 1) + 1) * 2 ^ (lv + 1) := by
      rw [hw, hq, pow_succ 2 lv]
      ring
    rw [hi.count_eq, hsucc, hmul]
  · rw [hinner, hh, hsucc, Nat.add_sub_cancel, node_succ_of_lt hash leaves (by omega)]
    congr 2
    omega
  · rw [hsucc, Nat.add_sub_cancel]
    exact hrec.1
  · rw [hsucc, Nat.add_sub_cancel]
    exact hrec.2

/-- The sweep starts at the lowest set bit `t` of the number of leaves, from `inner[t]`. -/
theorem SweepInv.start (hn : leaves.length < 2 ^ 32) :
    SweepInv hash leaves p s t t leaves.length (s.inner t) (decide (s.matchlevel = t)) s.branch := by
  have hw := width_of_mod_eq_zero ht
  have hpos : 0 < leaves.length := Nat.pos_of_ne_zero fun h0 => by simp [h0] at hodd
  have hdvd := Nat.div_mul_cancel (Nat.dvd_of_mod_eq_zero ht)
  -- the frontier node of `p` is `inner[t]` exactly when `p` is under it
  have hcond : s.matchlevel = t ↔ p < leaves.length ∧ p / 2 ^ t = leaves.length / 2 ^ t - 1 := by
    by_cases hp : p < leaves.length
    · obtain ⟨lv, hb, hp', hml, -⟩ := hs.after hp
      rw [hml, Nat.cast_inj]
      refine ⟨fun e => ⟨hp, e ▸ hp'⟩, fun ⟨_, hpt⟩ => ?_⟩
      have hodd' := (Bits.testBit_iff _ _).mp hb
      rcases lt_trichotomy lv t with hlt | heq | hgt
      · have := Bits.div_mod_two_eq_zero_of_mod (Bits.mod_pow_eq_zero_of_le ht hlt)
        omega
      · exact heq
      · exact absurd hp' (Bits.div_ne_of_block hpt hodd hodd' hgt)
    · rw [(hs.before (by omega)).1]
      simp only [hp, false_and, iff_false]
      omega
  refine ⟨le_rfl, ?_, ?_, ?_, ?_, ?_⟩
  · -- `2^t` divides the number of leaves, so level `t` is not above the top
    by_contra hlt
    have h1 : leaves.length ≤ 2 ^ (t - 1) := (height_le_iff_le_two_pow _ _).mp (by omega)
    have h2 : 2 ^ t ≤ leaves.length := Nat.le_of_dvd hpos (Nat.dvd_of_mod_eq_zero ht)
    have h3 : 2 ^ (t - 1) < 2 ^ t := Nat.pow_lt_pow_right (by omega) (by omega)
    omega
  · rw [hw, hdvd, Nat.mod_eq_of_lt hn]
  · rw [hw]
    exact hs.inner_eq t ((Bits.testBit_iff _ _).mpr hodd)
  · rw [hw, decide_eq_true_iff]
    exact hcond
  · rw [hw]
    split_ifs with hc
    · obtain ⟨lv, -, -, hml, hbr⟩ := hs.after hc.1
      rw [hbr, show lv = t by exact_mod_cast hml.symm.trans (hcond.mpr hc)]
    · rfl

/-- The sweep from any state of the invariant: with at most `2^31` leaves it reaches the root
and completes the branch; with more, some `count` overflows and the loop runs past level 31. -/
theorem sweep_spec (hn : leaves.length < 2 ^ 32) :
    ∀ d lv count h matchh br, lv + d = 32 → SweepInv hash leaves p s t lv count h matchh br →
      sweep hash s.inner s.matchlevel count lv h matchh br =
        if height leaves.length ≤ 31 then
          some (node hash leaves (height leaves.length) 0,
            if p < leaves.length then branch hash leaves p (height leaves.length) else s.branch)
        else none := by
  intro d
  induction d with
  | zero =>
      intro lv count h matchh br hd hi
      have hle := hi.le_height
      rw [sweep, if_neg (by omega), if_neg (by omega)]
  | succ d ih =>
      intro lv count h matchh br hd hi
      have hl : lv < 32 := by omega
      rw [sweep, if_pos hl]
      by_cases hb : count.testBit lv
      · rw [if_pos hb]
        by_cases hc : count = 2 ^ lv
        · obtain ⟨hlv, hh, hbr⟩ := hi.top hash hn hl hc
          rw [if_pos hc, if_pos (by omega), hh, hbr]
        · rw [if_neg hc]
          exact ih _ _ _ _ _ (by omega) (hi.dup hash hn hl hb hc)
      · rw [if_neg hb]
        exact ih _ _ _ _ _ (by omega) (hi.combine hash hs ht hodd hl hb)

end Leaves

end Sweep

/-- `MerkleComputation` over a non-empty list of fewer than `2^32` leaves: with at most `2^31`
leaves it returns the root of the padded tree, `mutated` exactly when two complete siblings are
equal, and the branch of the leaf at `branchpos` (empty past the last leaf); with more, a
`count` overflows in the sweep and the result is undefined. -/
theorem merkleComputation_eq (leaves : List α) (branchpos : Nat) (hne : leaves ≠ [])
    (hn : leaves.length < 2 ^ 32) :
    merkleComputation hash leaves branchpos =
      if leaves.length ≤ 2 ^ 31 then
        some (node hash leaves (height leaves.length) 0, decide (EqualCompletePair hash leaves),
          if branchpos < leaves.length then branch hash leaves branchpos (height leaves.length)
          else [])
      else none := by
  obtain ⟨s, hfold, hs⟩ := foldlM_push hash leaves branchpos hn _ le_rfl
  rw [List.take_length] at hfold
  have hpos : 1 ≤ leaves.length := List.length_pos_iff.mpr hne
  obtain ⟨t, hlow, ht32, ht, hodd⟩ := lowestLevel_spec hpos hn 32 0 rfl (Nat.mod_one _)
  have hsweep := sweep_spec hash hs ht hodd hn (32 - t) t _ _ _ _ (by omega)
    (SweepInv.start hash hs ht hodd hn)
  have hmut : s.mutated = decide (EqualCompletePair hash leaves) :=
    Bool.eq_iff_iff.mpr (by rw [decide_eq_true_iff]; exact hs.mutated_iff)
  have hbr : ¬ branchpos < leaves.length → s.branch = [] := fun hp => (hs.before (by omega)).2
  rw [merkleComputation, if_neg hne, if_neg (show ¬ 2 ^ 32 ≤ leaves.length by omega), hfold]
  simp only [Option.bind_eq_bind, Option.bind_some, hs.count_eq, hlow, hsweep,
    height_le_iff_le_two_pow]
  split_ifs with h31 hp
  · simp [hmut]
  · simp [hmut, hbr hp]
  · rfl

end Trumpow.Merkle
