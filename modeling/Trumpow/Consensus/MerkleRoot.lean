import Trumpow.Consensus.MerkleSweep

/-!
# Consensus — Merkle — roots and branches

The constant-space computation against the level-by-level construction of `merkle_tests`:
`BlockBuildMerkleTree` builds `PadTree.level k` for each `k` up to the `height`, so its root is
the top node and it flags the levels whose last two nodes are equal
(`blockBuildMerkleTree_eq`); `BlockGetMerkleBranch` reads `PadTree.branch`
(`blockGetMerkleBranch_eq`); and folding a leaf with its branch, as
`ComputeMerkleRootFromBranch` does, climbs to the root (`computeMerkleRootFromBranch_branch`).

`ComputeMerkleRoot` flags only equal siblings that are both complete subtrees: the level loop
compares `inner[level]` with `h` when both are, and the sweep compares nothing.  Equal siblings
one of which has padding below are caught only through a collision of the combiner.
-/

set_option linter.unusedSectionVars false

namespace Trumpow.Merkle
open PadTree

variable {α : Type} [DecidableEq α] [Inhabited α] (hash : α → α → α)

/-! ### The level-by-level construction -/

theorem lastPairEqual_level (leaves : List α) {k : Nat} (hw : 2 ≤ width leaves.length k) :
    lastPairEqual (level hash leaves k) = true ↔ width leaves.length k % 2 = 0 ∧
      node hash leaves k (width leaves.length k - 2) = node hash leaves k (width leaves.length k - 1) := by
  rw [lastPairEqual, length_level, getD_level hash leaves (by omega),
    getD_level hash leaves (by omega)]
  simp

/-- Built from level `k`, the tree reaches the top node, and flags the levels from `k` up whose
last two nodes are equal. -/
theorem blockBuildMerkleTree_level (leaves : List α) (hn : 1 ≤ leaves.length) :
    ∀ m k, k + m = height leaves.length →
      (blockBuildMerkleTree hash (level hash leaves k)).1 = node hash leaves (height leaves.length) 0 ∧
      ((blockBuildMerkleTree hash (level hash leaves k)).2 = true ↔
        ∃ k', k ≤ k' ∧ k' < height leaves.length ∧ width leaves.length k' % 2 = 0 ∧
          node hash leaves k' (width leaves.length k' - 2) =
            node hash leaves k' (width leaves.length k' - 1)) := by
  intro m
  induction m with
  | zero =>
      -- the top level: one node, nothing flagged
      intro k hk
      have hw : width leaves.length k = 1 :=
        le_antisymm ((height_le_iff _ _).mp (by omega)) (one_le_width hn k)
      rw [blockBuildMerkleTree, dif_pos (by rw [length_level, hw])]
      refine ⟨by simp [level, hw, ← hk], ?_⟩
      simp only [Bool.false_eq_true, false_iff, not_exists, not_and]
      omega
  | succ m ih =>
      intro k hk
      have hw : 2 ≤ width leaves.length k := (lt_height_iff _ _).mp (by omega)
      obtain ⟨hroot, hmut⟩ := ih (k + 1) (by omega)
      rw [blockBuildMerkleTree, dif_neg (by rw [length_level]; omega), pairUp_level]
      refine ⟨hroot, ?_⟩
      simp only [Bool.or_eq_true, hmut, lastPairEqual_level hash leaves hw]
      constructor
      · rintro (h | ⟨k', hk', hrest⟩)
        · exact ⟨k, le_rfl, by omega, h⟩
        · exact ⟨k', by omega, hrest⟩
      · rintro ⟨k', hk', hlt, hrest⟩
        rcases hk'.lt_or_eq with hk' | rfl
        · exact .inr ⟨k', hk', hlt, hrest⟩
        · exact .inl hrest

/-- `BlockBuildMerkleTree`: the top node of the padded tree, flagged when some level below the
top has an even width and its last two nodes equal. -/
theorem blockBuildMerkleTree_eq (leaves : List α) (hn : 1 ≤ leaves.length) :
    (blockBuildMerkleTree hash leaves).1 = node hash leaves (height leaves.length) 0 ∧
      ((blockBuildMerkleTree hash leaves).2 = true ↔
        ∃ k < height leaves.length, width leaves.length k % 2 = 0 ∧
          node hash leaves k (width leaves.length k - 2) =
            node hash leaves k (width leaves.length k - 1)) := by
  have h := blockBuildMerkleTree_level hash leaves hn (height leaves.length) 0 (Nat.zero_add _)
  rw [level_zero] at h
  refine ⟨h.1, h.2.trans ?_⟩
  simp

/-- With an injective combiner, what the reference flags has two equal complete siblings. -/
theorem equalCompletePair_of_blockBuildMerkleTree (hinj : Function.Injective2 hash)
    (leaves : List α) (hn : 1 ≤ leaves.length) (h : (blockBuildMerkleTree hash leaves).2 = true) :
    EqualCompletePair hash leaves := by
  obtain ⟨k, hk, hev, he⟩ := (blockBuildMerkleTree_eq hash leaves hn).2.mp h
  have hw : 2 ≤ width leaves.length k := (lt_height_iff _ _).mp hk
  refine equalCompletePair_of_pair hash hinj leaves hn (k := k) (j := width leaves.length k / 2 - 1)
    (by omega) ?_
  rwa [show 2 * (width leaves.length k / 2 - 1) = width leaves.length k - 2 by omega,
    show width leaves.length k - 2 + 1 = width leaves.length k - 1 by omega]

/-- From level `k`, the branch the reference reads completes `p`'s branch below `k`. -/
theorem blockGetMerkleBranch_level (leaves : List α) (p : Nat) :
    ∀ m k, k + m = height leaves.length →
      branch hash leaves p k ++ blockGetMerkleBranch hash (level hash leaves k) (p / 2 ^ k) =
        branch hash leaves p (height leaves.length) := by
  intro m
  induction m with
  | zero =>
      intro k hk
      have hw : width leaves.length k ≤ 1 := (height_le_iff _ _).mp (by omega)
      rw [blockGetMerkleBranch, dif_pos (by rw [length_level]; exact hw), List.append_nil, ← hk,
        Nat.add_zero]
  | succ m ih =>
      intro k hk
      have hw : 2 ≤ width leaves.length k := (lt_height_iff _ _).mp (by omega)
      rw [blockGetMerkleBranch, dif_neg (by rw [length_level]; omega), pairUp_level, length_level,
        getD_level hash leaves (by omega), List.append_cons, ← branch_succ, ← Bits.div_pow_succ]
      exact ih (k + 1) (by omega)

/-- `BlockGetMerkleBranch` is `p`'s branch up to the top. -/
theorem blockGetMerkleBranch_eq (leaves : List α) (p : Nat) :
    blockGetMerkleBranch hash leaves p = branch hash leaves p (height leaves.length) := by
  have h := blockGetMerkleBranch_level hash leaves p (height leaves.length) 0 (Nat.zero_add _)
  rwa [branch_zero, List.nil_append, level_zero, pow_zero, Nat.div_one] at h

/-! ### Climbing a branch -/

/-- The last sibling of a branch is combined last, on the side the index's bit at that level
says. -/
theorem computeMerkleRootFromBranch_append (b : α) :
    ∀ (bs : List α) (leaf : α) (nIndex : Nat),
      computeMerkleRootFromBranch hash leaf (bs ++ [b]) nIndex =
        if nIndex / 2 ^ bs.length % 2 = 1 then hash b (computeMerkleRootFromBranch hash leaf bs nIndex)
        else hash (computeMerkleRootFromBranch hash leaf bs nIndex) b
  | [], leaf, nIndex => by simp [computeMerkleRootFromBranch]
  | c :: bs, leaf, nIndex => by
      rw [List.cons_append, computeMerkleRootFromBranch, computeMerkleRootFromBranch_append b bs,
        computeMerkleRootFromBranch, List.length_cons, pow_succ', ← Nat.div_div_eq_div_mul]

/-- Folding leaf `p` with its branch below level `lv` gives `p`'s node at level `lv`. -/
theorem computeMerkleRootFromBranch_branch (leaves : List α) {p : Nat} (hp : p < leaves.length) :
    ∀ lv, computeMerkleRootFromBranch hash (leaves.getD p default) (branch hash leaves p lv) p =
      node hash leaves lv (p / 2 ^ lv) := by
  intro lv
  induction lv with
  | zero =>
      rw [branch_zero, computeMerkleRootFromBranch]
      simp [node]
  | succ lv ih =>
      rw [branch_succ, computeMerkleRootFromBranch_append, length_branch, ih, Bits.div_pow_succ,
        node_parent hash leaves (div_lt_width hp lv)]

/-! ### `ComputeMerkleRoot` and `ComputeMerkleBranch` -/

section Compute

variable (leaves : List α) (hne : leaves ≠ []) (hn : leaves.length ≤ 2 ^ 31)
include hne hn

theorem merkleComputation_of_le (branchpos : Nat) :
    merkleComputation hash leaves branchpos =
      some (node hash leaves (height leaves.length) 0, decide (EqualCompletePair hash leaves),
        if branchpos < leaves.length then branch hash leaves branchpos (height leaves.length)
        else []) := by
  rw [merkleComputation_eq hash leaves branchpos hne (by omega), if_pos hn]

/-- `ComputeMerkleRoot` agrees with `BlockBuildMerkleTree` on the root; its `mutated` flag says
that two complete siblings are equal, which for an injective combiner is the same as two equal
siblings, and then covers every input the reference flags. -/
theorem computeMerkleRoot_spec :
    computeMerkleRoot hash leaves =
        some ((blockBuildMerkleTree hash leaves).1, decide (EqualCompletePair hash leaves)) ∧
      (Function.Injective2 hash →
        (EqualCompletePair hash leaves ↔ EqualSiblingPair hash leaves) ∧
        ((blockBuildMerkleTree hash leaves).2 = true → EqualCompletePair hash leaves)) := by
  have hpos : 1 ≤ leaves.length := List.length_pos_iff.mpr hne
  refine ⟨?_, fun hinj => ⟨equalCompletePair_iff hash hinj leaves hpos,
    equalCompletePair_of_blockBuildMerkleTree hash hinj leaves hpos⟩⟩
  rw [computeMerkleRoot, merkleComputation_of_le hash leaves hne hn,
    (blockBuildMerkleTree_eq hash leaves hpos).1]
  rfl

/-- `ComputeMerkleBranch` of a leaf is `BlockGetMerkleBranch`'s, and climbing it from the leaf
gives `ComputeMerkleRoot`'s root. -/
theorem computeMerkleBranch_spec {p : Nat} (hp : p < leaves.length) :
    computeMerkleBranch hash leaves p = some (blockGetMerkleBranch hash leaves p) ∧
      (computeMerkleRoot hash leaves).map Prod.fst =
        some (computeMerkleRootFromBranch hash (leaves.getD p default)
          (blockGetMerkleBranch hash leaves p) p) := by
  have hroot : p / 2 ^ height leaves.length = 0 :=
    Nat.div_eq_of_lt (lt_of_lt_of_le hp (le_two_pow_height _))
  rw [computeMerkleBranch, computeMerkleRoot, merkleComputation_of_le hash leaves hne hn,
    merkleComputation_of_le hash leaves hne hn, blockGetMerkleBranch_eq,
    computeMerkleRootFromBranch_branch hash leaves hp, hroot]
  simp [hp]

end Compute

/-- A result means at most `2^31` leaves. -/
theorem length_le_of_merkleComputation {leaves : List α} {branchpos : Nat} {r : α × Bool × List α}
    (h : merkleComputation hash leaves branchpos = some r) : leaves.length ≤ 2 ^ 31 := by
  by_cases hne : leaves = []
  · simp [hne]
  by_cases hn : 2 ^ 32 ≤ leaves.length
  · rw [merkleComputation, if_neg hne, if_pos hn] at h
    exact absurd h (by simp)
  · by_contra h31
    rw [merkleComputation_eq hash leaves branchpos hne (by omega), if_neg h31] at h
    exact absurd h (by simp)

/-- One leaf is its own root, with an empty branch. -/
theorem merkleComputation_singleton (x : α) (branchpos : Nat) :
    merkleComputation hash [x] branchpos = some (x, false, []) := by
  have hnone : ¬ EqualCompletePair hash [x] := by
    rintro ⟨k, j, hle, -⟩
    have := Nat.one_le_two_pow (n := k)
    simp only [List.length_singleton] at hle
    nlinarith
  rw [merkleComputation_of_le hash [x] (by simp) (by simp),
    height_of_le_one (by simp), decide_eq_false hnone]
  simp [node, branch_zero]

theorem computeMerkleRoot_spec_three :
    computeMerkleRoot Nat.add [1, 2, 3] =
        some ((blockBuildMerkleTree Nat.add [1, 2, 3]).1, decide (EqualCompletePair Nat.add [1, 2, 3])) ∧
      (Function.Injective2 Nat.add →
        (EqualCompletePair Nat.add [1, 2, 3] ↔ EqualSiblingPair Nat.add [1, 2, 3]) ∧
        ((blockBuildMerkleTree Nat.add [1, 2, 3]).2 = true → EqualCompletePair Nat.add [1, 2, 3])) :=
  computeMerkleRoot_spec Nat.add [1, 2, 3] (by simp) (by simp)

/-- Three leaves under a constant combiner: the reference flags the equal last pair of level 1,
`H(1,2)` and `H(3,3)`, two real siblings, and `ComputeMerkleRoot` does not, as the second one
has padding below it. -/
theorem computeMerkleRoot_const_three :
    computeMerkleRoot (fun _ _ => (0 : Nat)) [1, 2, 3] = some (0, false) ∧
      (blockBuildMerkleTree (fun _ _ => (0 : Nat)) [1, 2, 3]).2 = true := by
  decide +kernel

/-- Past `2^31` leaves, some count of the sweep wraps to zero and the level runs past 31: the
source shifts `1u` by 32 and reads `inner[32]`. -/
theorem computeMerkleBranch_of_lt (leaves : List α) (p : Nat) (h1 : 2 ^ 31 < leaves.length)
    (h2 : leaves.length < 2 ^ 32) : computeMerkleBranch hash leaves p = none := by
  have hne : leaves ≠ [] := List.ne_nil_of_length_pos (by omega)
  rw [computeMerkleBranch, merkleComputation_eq hash leaves p hne h2, if_neg (by omega)]
  rfl

theorem computeMerkleBranch_replicate (x : α) :
    computeMerkleBranch hash (List.replicate (2 ^ 31 + 1) x) 0 = none :=
  computeMerkleBranch_of_lt hash _ 0 (by rw [List.length_replicate]; norm_num)
    (by rw [List.length_replicate]; norm_num)

end Trumpow.Merkle
