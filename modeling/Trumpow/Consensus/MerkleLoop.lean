import Trumpow.Support.Bits
import Trumpow.Consensus.Merkle

/-!
# Consensus — Merkle — the leaf loop

The invariant of `MerkleComputation`'s leaf loop (`LoopInv`): after `c` leaves, `inner[lv]` is,
for each set bit `lv` of `c`, the node of level `lv` of the padded tree that ends at leaf
`c / 2^lv * 2^lv - 1` (`PadTree.node`); `mutated` records exactly the equal complete sibling
pairs among the first `c` leaves; and the subtree of the frontier that holds the leaf at
`branchpos` is at `matchlevel`, with the siblings below it collected in the branch.

The level loop of one leaf climbs the low clear bits of `c + 1` (`ClimbInv`, `climb_spec`);
it stops at the lowest set bit, below 32 as long as there are fewer than `2^32` leaves.
`foldlM_push` runs the loop over every prefix of the leaves.
-/

set_option linter.unusedSectionVars false

namespace Trumpow.Merkle
open PadTree

variable {α : Type} [DecidableEq α] [Inhabited α] (hash : α → α → α)

/-! ### Unfolding the loops -/

theorem climb_of_testBit {count : Nat} {inner : Nat → α} {matchlevel : Int} {c : Climb α}
    (hl : c.level < 32) (hb : count.testBit c.level) :
    climb hash count inner matchlevel c = some c := by
  rw [climb, if_pos hl, if_pos hb]

theorem climb_of_not_testBit {count : Nat} {inner : Nat → α} {matchlevel : Int} {c : Climb α}
    (hl : c.level < 32) (hb : ¬ count.testBit c.level) :
    climb hash count inner matchlevel c =
      climb hash count inner matchlevel
        { level := c.level + 1, h := hash (inner c.level) c.h,
          matchh := (record inner matchlevel c.level c.h c.matchh c.branch).1,
          mutated := c.mutated || decide (inner c.level = c.h),
          branch := (record inner matchlevel c.level c.h c.matchh c.branch).2 } := by
  rw [climb, if_pos hl, if_neg hb]

/-! ### The leaf loop -/

section Loop

variable (leaves : List α) (p : Nat)

/-- What the leaf loop keeps after `c` leaves, for the branch of leaf `p`: `inner[lv]` is the
`(c / 2^lv)`-th node of level `lv` for each set bit `lv` of `c`; `mutated` says whether two
complete siblings among the first `c` leaves are equal; the subtree of the frontier holding `p`
is at `matchlevel`, with the siblings below it in the branch. -/
structure LoopInv (c : Nat) (s : Acc α) : Prop where
  count_eq : s.count = c
  inner_eq : ∀ lv, c.testBit lv → s.inner lv = node hash leaves lv (c / 2 ^ lv - 1)
  mutated_iff : s.mutated = true ↔ ∃ k j, (2 * j + 2) * 2 ^ k ≤ c ∧
    perfect hash leaves k (2 * j) = perfect hash leaves k (2 * j + 1)
  before : c ≤ p → s.matchlevel = -1 ∧ s.branch = []
  after : p < c → ∃ lv, c.testBit lv ∧ p / 2 ^ lv = c / 2 ^ lv - 1 ∧ s.matchlevel = lv ∧
    s.branch = branch hash leaves p lv

/-- What the level loop of the `c`-th leaf keeps at level `lv`: `h` is the node of level `lv`
ending at that leaf, and `matchh` says whether `p` is under it. -/
structure ClimbInv (c : Nat) (s : Acc α) (lv : Nat) (cl : Climb α) : Prop where
  level_eq : cl.level = lv
  low : (c + 1) % 2 ^ lv = 0
  h_eq : cl.h = node hash leaves lv (c / 2 ^ lv)
  mutated_iff : cl.mutated = true ↔ s.mutated = true ∨
    ∃ k < lv, node hash leaves k (c / 2 ^ k - 1) = node hash leaves k (c / 2 ^ k)
  matchh_iff : cl.matchh = true ↔ p / 2 ^ lv = c / 2 ^ lv
  branch_eq : cl.branch = if p / 2 ^ lv = c / 2 ^ lv then branch hash leaves p lv else s.branch

theorem LoopInv.init : LoopInv hash leaves p 0 Acc.init := by
  refine ⟨rfl, fun lv h => by simp at h, ?_, fun _ => ⟨rfl, rfl⟩, fun h => absurd h (by omega)⟩
  simp only [Acc.init, Bool.false_eq_true, false_iff, not_exists, not_and]
  intro k j h
  have := Nat.two_pow_pos k
  nlinarith

/-- The `c`-th leaf starts its level loop at level 0. -/
theorem ClimbInv.start {c : Nat} {s : Acc α} (hs : LoopInv hash leaves p c s) :
    ClimbInv hash leaves p c s 0
      { level := 0, h := leaves.getD c default, matchh := decide (s.count = p),
        mutated := s.mutated, branch := s.branch } := by
  refine ⟨rfl, Nat.mod_one _, by simp [node], by simp, ?_, ?_⟩
  · rw [hs.count_eq]; simp [eq_comm]
  · simp only [pow_zero, Nat.div_one]
    split_ifs with h
    · rw [(hs.before (by omega)).2, h]; rfl
    · rfl

/-- The branch bookkeeping where the `c`-th leaf's loop combines `inner[lv]` with `h`: `p` is
under the combined node exactly when it was under `h` or under `inner[lv]`, and the branch
gains the other one. -/
theorem record_climb {c lv : Nat} {s : Acc α} {h : α} {matchh : Bool} {br : List α}
    (hs : LoopInv hash leaves p c s) (hw : c / 2 ^ lv < width leaves.length lv) (hodd : c / 2 ^ lv % 2 = 1)
    (hinner : s.inner lv = node hash leaves lv (c / 2 ^ lv - 1))
    (hh : h = node hash leaves lv (c / 2 ^ lv))
    (hmatch : matchh = true ↔ p / 2 ^ lv = c / 2 ^ lv)
    (hbr : br = if p / 2 ^ lv = c / 2 ^ lv then branch hash leaves p lv else s.branch) :
    ((record s.inner s.matchlevel lv h matchh br).1 = true ↔
        p / 2 ^ (lv + 1) = c / 2 ^ (lv + 1)) ∧
      (record s.inner s.matchlevel lv h matchh br).2 =
        if p / 2 ^ (lv + 1) = c / 2 ^ (lv + 1) then branch hash leaves p (lv + 1) else s.branch := by
  by_cases hA : p / 2 ^ lv = c / 2 ^ lv
  · -- `p` was under `h`: its sibling `inner[lv]` joins the branch
    have hm : matchh = true := hmatch.mpr hA
    have hup : p / 2 ^ (lv + 1) = c / 2 ^ (lv + 1) := by
      rw [Bits.div_pow_succ, Bits.div_pow_succ, hA]
    simp only [record, hm, if_true, hup, hbr, hA, branch_succ, hinner]
    rw [Bits.xor_one_odd hodd, Nat.min_eq_left (by generalize c / 2 ^ lv = x at *; omega)]
    simp
  · by_cases hB : s.matchlevel = (lv : Int)
    · -- `p` was under `inner[lv]`: `h` joins the branch
      have hm : matchh = false := by simpa [hA] using hmatch
      have hpc : p < c := by
        by_contra hpc
        have := (hs.before (by omega)).1
        omega
      obtain ⟨lv', hb', hp', hml, hbr'⟩ := hs.after hpc
      have hlv : lv' = lv := by rw [hml] at hB; exact_mod_cast hB
      subst hlv
      generalize hx : c / 2 ^ lv' = x at *
      have hup : p / 2 ^ (lv' + 1) = c / 2 ^ (lv' + 1) := by
        rw [Bits.div_pow_succ, Bits.div_pow_succ, hp', hx]; omega
      simp only [record, hm, hB, Bool.false_eq_true, if_false, if_true, hup, hbr, hA, hbr',
        branch_succ, hh]
      rw [hp', Bits.xor_one_even (by omega), Nat.min_eq_left (by omega), Nat.sub_add_cancel (by omega)]
      exact ⟨trivial, rfl⟩
    · -- `p` is elsewhere: nothing changes
      have hm : matchh = false := by simpa [hA] using hmatch
      have hnot : p / 2 ^ (lv + 1) ≠ c / 2 ^ (lv + 1) := by
        intro he
        rw [Bits.div_pow_succ, Bits.div_pow_succ] at he
        have hpl : p / 2 ^ lv = c / 2 ^ lv - 1 := by
          generalize c / 2 ^ lv = x at *; generalize p / 2 ^ lv = y at *; omega
        have hlt : p / 2 ^ lv < c / 2 ^ lv := by
          generalize c / 2 ^ lv = x at *; generalize p / 2 ^ lv = y at *; omega
        have hpc : p < c := Bits.lt_of_div_lt hlt
        obtain ⟨lv', hb', hp', hml, -⟩ := hs.after hpc
        have hne : lv' ≠ lv := fun e => hB (by rw [hml, e])
        rw [Bits.testBit_iff] at hb'
        rcases Nat.lt_or_gt_of_ne hne with hlt | hlt
        · exact Bits.div_ne_of_block hp' hb' hodd hlt hpl
        · exact Bits.div_ne_of_block hpl hodd hb' hlt hp'
      simp only [record, hm, hB, Bool.false_eq_true, if_false, hnot, hbr, hA, and_self]

/-- One level of the `c`-th leaf's loop: bit `lv` of `c + 1` is clear, so bit `lv` of `c` is
set and `inner[lv]` is the node before `h`; combined they are the parent. -/
theorem ClimbInv.step {c lv : Nat} {s : Acc α} {cl : Climb α} (hs : LoopInv hash leaves p c s)
    (hc : c < leaves.length) (hi : ClimbInv hash leaves p c s lv cl)
    (hb : ¬ (c + 1).testBit lv) :
    ClimbInv hash leaves p c s (lv + 1)
      { level := cl.level + 1, h := hash (s.inner cl.level) cl.h,
        matchh := (record s.inner s.matchlevel cl.level cl.h cl.matchh cl.branch).1,
        mutated := cl.mutated || decide (s.inner cl.level = cl.h),
        branch := (record s.inner s.matchlevel cl.level cl.h cl.matchh cl.branch).2 } := by
  obtain ⟨rfl, hlow, hh, hmut, hmatch, hbr⟩ := hi
  have hb0 : (c + 1) / 2 ^ cl.level % 2 = 0 := by
    rw [Bits.testBit_iff] at hb; omega
  have hodd := Bits.odd_of_succ hlow hb0
  have hinner := hs.inner_eq cl.level ((Bits.testBit_iff _ _).mpr hodd)
  have hw := div_lt_width hc cl.level
  have hq := Bits.div_eq_of_odd hodd
  have hrec := record_climb hash leaves p hs hw hodd hinner hh hmatch hbr
  refine ⟨rfl, Bits.mod_pow_succ_eq_zero hlow hb0, ?_, ?_, hrec.1, hrec.2⟩
  · -- `inner[lv]` and `h` are the two children of the parent of the `c`-th leaf's node
    show hash (s.inner cl.level) cl.h = _
    rw [hinner, hh, node_succ_of_lt hash leaves (by rw [← hq]; exact hw), hq, Nat.add_sub_cancel]
  · show (cl.mutated || decide (s.inner cl.level = cl.h)) = true ↔ _
    rw [Bool.or_eq_true, hmut, hinner, hh, decide_eq_true_iff, or_assoc]
    simp only [Nat.lt_succ_iff_lt_or_eq, or_and_right, exists_or, exists_eq_left]

/-- The level loop of the `c`-th leaf stops at the lowest set bit of `c + 1`, before level 32
as `c + 1 < 2^32`. -/
theorem climb_spec {c : Nat} {s : Acc α} (hs : LoopInv hash leaves p c s) (hc : c < leaves.length)
    (hn : leaves.length < 2 ^ 32) :
    ∀ d lv (cl : Climb α), lv + d = 32 → ClimbInv hash leaves p c s lv cl →
      ∃ cl', climb hash (c + 1) s.inner s.matchlevel cl = some cl' ∧
        (c + 1).testBit cl'.level ∧ ClimbInv hash leaves p c s cl'.level cl' := by
  intro d
  induction d with
  | zero =>
      intro lv cl hd hi
      have := Nat.le_of_dvd (by omega) (Nat.dvd_of_mod_eq_zero hi.low)
      rw [Nat.add_zero] at hd
      subst hd
      omega
  | succ d ih =>
      intro lv cl hd hi
      have hl : cl.level < 32 := by rw [hi.level_eq]; omega
      by_cases hb : (c + 1).testBit cl.level
      · exact ⟨cl, climb_of_testBit hash hl hb, hb, hi.level_eq ▸ hi⟩
      · rw [climb_of_not_testBit hash hl hb]
        exact ih (lv + 1) _ (by omega) (hi.step hash leaves p hs hc (hi.level_eq ▸ hb))

/-- The pairs complete within the first `c + 1` leaves: those within the first `c`, and one
ending at the `c`-th leaf for each clear low bit of `c + 1`. -/
theorem exists_pair_succ {c t : Nat} (hc : c < leaves.length) (hlow : (c + 1) % 2 ^ t = 0)
    (hbit : (c + 1) / 2 ^ t % 2 = 1) :
    ((∃ k j, (2 * j + 2) * 2 ^ k ≤ c ∧
        perfect hash leaves k (2 * j) = perfect hash leaves k (2 * j + 1)) ∨
      ∃ k < t, node hash leaves k (c / 2 ^ k - 1) = node hash leaves k (c / 2 ^ k)) ↔
    ∃ k j, (2 * j + 2) * 2 ^ k ≤ c + 1 ∧
      perfect hash leaves k (2 * j) = perfect hash leaves k (2 * j + 1) := by
  constructor
  · rintro (⟨k, j, hk, he⟩ | ⟨k, hk, he⟩)
    · exact ⟨k, j, by omega, he⟩
    · -- the pair of the `c`-th leaf's node at level `k` ends at that leaf
      have hlowk := Bits.mod_pow_eq_zero_of_le hlow hk.le
      have hq := Bits.div_eq_of_odd (Bits.odd_of_lt hlow hk)
      have hsucc := Bits.succ_div_of_mod hlowk
      have hdiv := Nat.div_mul_cancel (Nat.dvd_of_mod_eq_zero hlowk)
      have hj : 2 * (c / 2 ^ (k + 1)) + 2 = (c + 1) / 2 ^ k := by omega
      have hend : (2 * (c / 2 ^ (k + 1)) + 2) * 2 ^ k = c + 1 := by rw [hj, hdiv]
      have hn : (2 * (c / 2 ^ (k + 1)) + 2) * 2 ^ k ≤ leaves.length := by rw [hend]; omega
      refine ⟨k, c / 2 ^ (k + 1), hend.le, ?_⟩
      rw [← node_eq_perfect hash leaves k (2 * (c / 2 ^ (k + 1)) + 1) (by rwa [Nat.add_assoc]),
        ← node_eq_perfect hash leaves k (2 * (c / 2 ^ (k + 1)))
          (le_trans (Nat.mul_le_mul_right _ (by omega)) hn)]
      rwa [show 2 * (c / 2 ^ (k + 1)) + 1 = c / 2 ^ k by omega,
        show 2 * (c / 2 ^ (k + 1)) = c / 2 ^ k - 1 by omega]
  · rintro ⟨k, j, hk, he⟩
    by_cases hle : (2 * j + 2) * 2 ^ k ≤ c
    · exact .inl ⟨k, j, hle, he⟩
    · -- a pair that ends at the `c`-th leaf, below the lowest set bit of `c + 1`
      right
      have heq : (2 * j + 2) * 2 ^ k = c + 1 := by omega
      have hkt : k < t := by
        by_contra hkt
        have hmod : (c + 1) % 2 ^ (k + 1) = 0 := by
          rw [← heq, pow_succ]
          exact Nat.mod_eq_zero_of_dvd ⟨j + 1, by ring⟩
        have := Bits.succ_div_mod_two_of_lt hmod (show t < k + 1 by omega)
        omega
      have hsucc := Bits.succ_div_of_mod (Bits.mod_pow_eq_zero_of_le hlow hkt.le)
      have hck : (c + 1) / 2 ^ k = 2 * j + 2 := by
        rw [← heq, Nat.mul_div_cancel _ (Nat.two_pow_pos k)]
      refine ⟨k, hkt, ?_⟩
      have hn : (2 * j + 2) * 2 ^ k ≤ leaves.length := by rw [heq]; omega
      rw [show c / 2 ^ k = 2 * j + 1 by omega, Nat.add_sub_cancel,
        node_eq_perfect hash leaves k (2 * j + 1) (by rwa [Nat.add_assoc]),
        node_eq_perfect hash leaves k (2 * j) (le_trans (Nat.mul_le_mul_right _ (by omega)) hn)]
      exact he

/-- After the level loop of the `c`-th leaf stops at level `t`, its node is stored in
`inner[t]`, and the invariant holds for `c + 1` leaves. -/
theorem LoopInv.exit {c : Nat} {s : Acc α} {cl : Climb α} (hs : LoopInv hash leaves p c s)
    (hc : c < leaves.length) (hn : leaves.length < 2 ^ 32) (hb : (c + 1).testBit cl.level)
    (hi : ClimbInv hash leaves p c s cl.level cl) :
    LoopInv hash leaves p (c + 1)
      { count := (c + 1) % 2 ^ 32, inner := Function.update s.inner cl.level cl.h,
        matchlevel := if cl.matchh then cl.level else s.matchlevel, mutated := cl.mutated,
        branch := cl.branch } := by
  have hlow := hi.low
  have hbit := (Bits.testBit_iff _ _).mp hb
  have hsucc := Bits.succ_div_of_mod hlow
  -- the levels where `c + 1` has a set bit are `t` and those above it, where `c` agrees
  have habove : ∀ lv, (c + 1).testBit lv → lv ≠ cl.level → cl.level < lv := by
    intro lv hlv hne
    rcases Nat.lt_or_gt_of_ne hne with h | h
    · rw [Bits.testBit_iff, Bits.succ_div_mod_two_of_lt hlow h] at hlv
      exact absurd hlv (by decide)
    · exact h
  refine ⟨Nat.mod_eq_of_lt (by omega), ?_, ?_, ?_, ?_⟩
  · intro lv hlv
    show Function.update s.inner cl.level cl.h lv = _
    by_cases hne : lv = cl.level
    · subst hne
      rw [Function.update_self, hi.h_eq, hsucc, Nat.add_sub_cancel]
    · have heq := Bits.succ_div_eq_of_lt hlow hbit (habove lv hlv hne)
      rw [Function.update_of_ne hne, heq]
      exact hs.inner_eq lv (by rw [Bits.testBit_iff, ← heq]; exact (Bits.testBit_iff _ _).mp hlv)
  · show cl.mutated = true ↔ _
    rw [hi.mutated_iff, hs.mutated_iff]
    exact exists_pair_succ hash leaves hc hlow hbit
  · intro hp
    -- `c` ends its block at level `t`, so a later `p` is in a later block
    have hne : p / 2 ^ cl.level ≠ c / 2 ^ cl.level := by
      have hle := Nat.div_le_div_right (c := 2 ^ cl.level) hp
      rw [hsucc] at hle
      omega
    have hm : cl.matchh = false := by simpa [hne] using hi.matchh_iff
    simp only [hm, Bool.false_eq_true, if_false]
    rw [hi.branch_eq, if_neg hne]
    exact hs.before (by omega)
  · intro hp
    by_cases hA : p / 2 ^ cl.level = c / 2 ^ cl.level
    · -- the new node holds `p`: it becomes the frontier node of `p`
      refine ⟨cl.level, hb, by rw [hsucc, hA, Nat.add_sub_cancel], by simp [hi.matchh_iff.mpr hA], ?_⟩
      rw [hi.branch_eq, if_pos hA]
    · -- `p` stays under the stored node of a higher set bit of `c`
      have hpc : p < c := by
        rcases Nat.lt_or_ge p c with h | h
        · exact h
        · exact absurd (by rw [show p = c by omega]) hA
      obtain ⟨lv, hb', hp', hml, hbr'⟩ := hs.after hpc
      have hodd := (Bits.testBit_iff _ _).mp hb'
      have hgt : cl.level < lv := by
        rcases lt_trichotomy lv cl.level with h | h | h
        · exact absurd (Bits.div_eq_of_block_lt hp' hodd h) hA
        · rw [h] at hodd
          generalize c / 2 ^ cl.level = x at *
          omega
        · exact h
      have heq := Bits.succ_div_eq_of_lt hlow hbit hgt
      have hm : cl.matchh = false := by simpa [hA] using hi.matchh_iff
      refine ⟨lv, by rw [Bits.testBit_iff, heq]; exact hodd, by rw [heq]; exact hp', ?_, ?_⟩
      · simp [hm, hml]
      · rw [hi.branch_eq, if_neg hA, hbr']

/-- One pass of the leaf loop keeps the invariant. -/
theorem LoopInv.push {c : Nat} {s : Acc α} (hs : LoopInv hash leaves p c s)
    (hc : c < leaves.length) (hn : leaves.length < 2 ^ 32) :
    ∃ s', Acc.push hash p s (leaves.getD c default) = some s' ∧ LoopInv hash leaves p (c + 1) s' := by
  obtain ⟨cl, hcl, hb, hi⟩ :=
    climb_spec hash leaves p hs hc hn 32 0 _ rfl (ClimbInv.start hash leaves p hs)
  refine ⟨_, ?_, hs.exit hash leaves p hc hn hb hi⟩
  rw [hs.count_eq] at hcl
  rw [Acc.push, hs.count_eq, Nat.mod_eq_of_lt (show c + 1 < 2 ^ 32 by omega), hcl]
  rfl

/-- The leaf loop over the first `k` leaves runs through, and leaves the invariant for `k`. -/
theorem foldlM_push (hn : leaves.length < 2 ^ 32) :
    ∀ k ≤ leaves.length, ∃ s, (leaves.take k).foldlM (Acc.push hash p) Acc.init = some s ∧
      LoopInv hash leaves p k s := by
  intro k
  induction k with
  | zero => exact fun _ => ⟨Acc.init, rfl, LoopInv.init hash leaves p⟩
  | succ k ih =>
      intro hk
      obtain ⟨s, hfold, hs⟩ := ih (by omega)
      obtain ⟨s', hpush, hs'⟩ := hs.push hash leaves p (by omega) hn
      refine ⟨s', ?_, hs'⟩
      rw [List.getD_eq_getElem _ _ (by omega)] at hpush
      rw [List.take_add_one, List.getElem?_eq_getElem (by omega), Option.toList_some,
        List.foldlM_append, hfold]
      simp [hpush]

end Loop

end Trumpow.Merkle
