import Mathlib
import Trumpow.Support.SearchTree

/-!
# Consensus — the tree of consensus parameters

Each chain keeps one `Consensus::Params` per hard fork and links them into a binary search tree
on `nHeightEffective` (`chainparams.cpp`); `Consensus::Params::GetConsensus(nTargetHeight)` walks
it from `pConsensusRoot`.  A node is a `Params` record of the fields the modelled code reads, and
its `pLeft` and `pRight` are the subtrees of a `BinaryTree Params`, `nil` standing for `NULL`.

`getConsensus_isFloor` is the lookup's correctness: on a tree ordered by `nHeightEffective`
(`SearchTree.Ordered`) with a node at or below the target, `GetConsensus` returns the node with
the greatest height at or below it (`SearchTree.IsFloor`), by one induction whose cases are the
branches of the source.  The three chains' trees are ordered, and each height gets the set of the
last fork at or below it (`CMainParams.getConsensus`, `CTestNetParams.getConsensus`,
`CRegTestParams.getConsensus`).
-/

namespace Trumpow

namespace Consensus

open SearchTree BinaryTree

/-- `Consensus::Params`, with the fields the lookup and the difficulty retarget read.  `powLimit`
is held as the `arith_uint256` that `UintToArith256` makes of it. -/
structure Params where
  nHeightEffective : Nat
  powLimit : BitVec 256
  nPowTargetSpacing : Int
  nPowTargetTimespan : Int
  fPowAllowMinDifficultyBlocks : Bool
  fDigishieldDifficultyCalculation : Bool
deriving DecidableEq, Repr

/-- `Consensus::Params::GetConsensus(nTargetHeight)` on the node `t`: below the node's height go
left, above it go right and keep the candidate found there if it is at or below the target;
otherwise the node itself.  The source never calls it on a null pointer, the `nil` case. -/
def Params.GetConsensus (nTargetHeight : Nat) : BinaryTree Params → Option Params
  | nil => none
  | node p pLeft pRight =>
    if nTargetHeight < p.nHeightEffective ∧ pLeft ≠ nil then GetConsensus nTargetHeight pLeft
    else if nTargetHeight > p.nHeightEffective ∧ pRight ≠ nil then
      match GetConsensus nTargetHeight pRight with
      | some pCandidate =>
        if pCandidate.nHeightEffective ≤ nTargetHeight then some pCandidate else some p
      | none => some p
    else some p

namespace Params

variable {h : Nat}

/-- On a node, `GetConsensus` returns one of the tree's nodes. -/
theorem getConsensus_mem {t : BinaryTree Params} (ht : t ≠ nil) :
    ∃ a, GetConsensus h t = some a ∧ a ∈ nodes t := by
  induction t with
  | nil => exact absurd rfl ht
  | node p l r ihl ihr =>
    simp only [GetConsensus]
    split_ifs with hl hr
    · obtain ⟨a, ha, hmem⟩ := ihl hl.2
      exact ⟨a, ha, mem_nodes_node.mpr (.inl hmem)⟩
    · obtain ⟨a, ha, hmem⟩ := ihr hr.2
      simp only [ha]
      split_ifs
      · exact ⟨a, rfl, mem_nodes_node.mpr (.inr (.inr hmem))⟩
      · exact ⟨p, rfl, mem_nodes_node.mpr (.inr (.inl rfl))⟩
    · exact ⟨p, rfl, mem_nodes_node.mpr (.inr (.inl rfl))⟩

/-- `GetConsensus` finds the floor of the target height in an ordered tree that has a node at or
below it.  The induction is on the tree; its cases are the source's three branches, and the
right branch splits on whether the right subtree has a node at or below the target. -/
theorem getConsensus_isFloor {t : BinaryTree Params} (ho : Ordered nHeightEffective t)
    (hex : ∃ b ∈ nodes t, b.nHeightEffective ≤ h) :
    ∃ a, GetConsensus h t = some a ∧ IsFloor nHeightEffective h t a := by
  induction t with
  | nil => simp at hex
  | node p l r ihl ihr =>
    have hol := ho.2.2.1
    have hor := ho.2.2.2
    simp only [GetConsensus]
    split_ifs with hleft hright
    · -- below the node: what is at or below the target lies in the left subtree
      have hexl : ∃ b ∈ nodes l, b.nHeightEffective ≤ h := by
        obtain ⟨b, hb, hbh⟩ := hex
        rcases mem_nodes_node.mp hb with hb | rfl | hb
        · exact ⟨b, hb, hbh⟩
        · exact absurd hbh hleft.1.not_ge
        · exact absurd hbh (hleft.1.trans (ho.2.1 b hb)).not_ge
      obtain ⟨a, ha, hfl⟩ := ihl hol hexl
      exact ⟨a, ha, (isFloor_node_of_lt ho hleft.1).mpr hfl⟩
    · -- above the node: the right subtree's candidate, unless it is above the target
      by_cases hexr : ∃ b ∈ nodes r, b.nHeightEffective ≤ h
      · obtain ⟨a, ha, hfl⟩ := ihr hor hexr
        simp only [ha, if_pos hfl.2.1]
        exact ⟨a, rfl, isFloor_node_of_right ho hright.1.le hfl⟩
      · push Not at hexr
        obtain ⟨c, hc, hmem⟩ := getConsensus_mem (h := h) hright.2
        simp only [hc, if_neg (hexr c hmem).not_ge]
        exact ⟨p, rfl, isFloor_node_self ho hright.1.le hexr⟩
    · -- at the node, or on a side with no subtree
      have hp : p.nHeightEffective ≤ h := by
        by_contra hlt
        push Not at hlt
        have hl : l = nil := by simpa [hlt] using hleft
        obtain ⟨b, hb, hbh⟩ := hex
        rcases mem_nodes_node.mp hb with hb | rfl | hb
        · simp [hl] at hb
        · exact hlt.not_ge hbh
        · exact (hlt.trans (ho.2.1 b hb)).not_ge hbh
      refine ⟨p, rfl, isFloor_node_self ho hp fun b hb => ?_⟩
      have hpr := ho.2.1 b hb
      rcases hp.lt_or_eq with hlt | heq
      · have hr : r = nil := by simpa [hlt] using hright
        simp [hr] at hb
      · exact heq ▸ hpr

/-- In an ordered tree, a floor of the target height is what `GetConsensus` returns. -/
theorem getConsensus_eq_of_isFloor {t : BinaryTree Params} (ho : Ordered nHeightEffective t)
    {a : Params} (hfl : IsFloor nHeightEffective h t a) : GetConsensus h t = some a := by
  obtain ⟨b, hb, hfb⟩ := getConsensus_isFloor ho ⟨a, hfl.1, hfl.2.1⟩
  rw [hb, hfb.unique ho hfl]

end Params

/-! ## The three chains' trees -/

/-! `CMainParams`: blocks from 1000 are Digishield without AuxPoW, from 60000 AuxPoW. -/

namespace CMainParams

def consensus : Params where
  nHeightEffective := 0
  powLimit := BitVec.ofNat 256 0x00000fffffffffffffffffffffffffffffffffffffffffffffffffffffffffff
  nPowTargetSpacing := 60
  nPowTargetTimespan := 60
  fPowAllowMinDifficultyBlocks := false
  fDigishieldDifficultyCalculation := true

def digishieldConsensus : Params :=
  { consensus with nHeightEffective := 1000, nPowTargetTimespan := 60,
                   fDigishieldDifficultyCalculation := true }

def auxpowConsensus : Params := { digishieldConsensus with nHeightEffective := 60000 }

def pConsensusRoot : BinaryTree Params :=
  node digishieldConsensus (node consensus nil nil) (node auxpowConsensus nil nil)

theorem getConsensus (h : Nat) :
    Params.GetConsensus h pConsensusRoot =
      some (if h < 1000 then consensus else if h < 60000 then digishieldConsensus
        else auxpowConsensus) := by
  apply Params.getConsensus_eq_of_isFloor (by decide)
  -- each case of the height is a floor of the tree's heights
  split_ifs <;> simp [IsFloor, pConsensusRoot, nodes, consensus, digishieldConsensus,
    auxpowConsensus] <;> omega

end CMainParams

/-! `CTestNetParams`: Digishield from 1000, minimum difficulty on all blocks from 1250, AuxPoW
from 60000. -/

namespace CTestNetParams

def consensus : Params where
  nHeightEffective := 0
  powLimit := BitVec.ofNat 256 0x00000fffffffffffffffffffffffffffffffffffffffffffffffffffffffffff
  nPowTargetSpacing := 60
  nPowTargetTimespan := 60
  fPowAllowMinDifficultyBlocks := true
  fDigishieldDifficultyCalculation := true

def digishieldConsensus : Params :=
  { consensus with nHeightEffective := 1000, nPowTargetTimespan := 60,
                   fDigishieldDifficultyCalculation := true, fPowAllowMinDifficultyBlocks := false }

def minDifficultyConsensus : Params :=
  { digishieldConsensus with nHeightEffective := 1250, fPowAllowMinDifficultyBlocks := true }

def auxpowConsensus : Params := { minDifficultyConsensus with nHeightEffective := 60000 }

def pConsensusRoot : BinaryTree Params :=
  node digishieldConsensus (node consensus nil nil)
    (node minDifficultyConsensus nil (node auxpowConsensus nil nil))

theorem getConsensus (h : Nat) :
    Params.GetConsensus h pConsensusRoot =
      some (if h < 1000 then consensus else if h < 1250 then digishieldConsensus
        else if h < 60000 then minDifficultyConsensus else auxpowConsensus) := by
  apply Params.getConsensus_eq_of_isFloor (by decide)
  -- each case of the height is a floor of the tree's heights
  split_ifs <;> simp [IsFloor, pConsensusRoot, nodes, consensus, digishieldConsensus,
    minDifficultyConsensus, auxpowConsensus] <;> omega

end CTestNetParams

/-! `CRegTestParams`: Digishield from 10, AuxPoW from 20.  The source never assigns
`consensus.nHeightEffective`; `regTestParams` is a static object, so it is zero. -/

namespace CRegTestParams

def consensus : Params where
  nHeightEffective := 0
  powLimit := BitVec.ofNat 256 0x7fffffffffffffffffffffffffffffffffffffffffffffffffffffffffffffff
  nPowTargetSpacing := 1
  nPowTargetTimespan := 4 * 60 * 60
  fPowAllowMinDifficultyBlocks := true
  fDigishieldDifficultyCalculation := false

def digishieldConsensus : Params :=
  { consensus with nHeightEffective := 10, nPowTargetTimespan := 1,
                   fDigishieldDifficultyCalculation := true }

def auxpowConsensus : Params := { digishieldConsensus with nHeightEffective := 20 }

def pConsensusRoot : BinaryTree Params :=
  node digishieldConsensus (node consensus nil nil) (node auxpowConsensus nil nil)

theorem getConsensus (h : Nat) :
    Params.GetConsensus h pConsensusRoot =
      some (if h < 10 then consensus else if h < 20 then digishieldConsensus
        else auxpowConsensus) := by
  apply Params.getConsensus_eq_of_isFloor (by decide)
  -- each case of the height is a floor of the tree's heights
  split_ifs <;> simp [IsFloor, pConsensusRoot, nodes, consensus, digishieldConsensus,
    auxpowConsensus] <;> omega

end CRegTestParams

/-- `GetConsensus` returns, in any tree ordered by `nHeightEffective` with a node at or below the
target, exactly the node with the greatest height at or below it; on the three chains' trees every
height gets the set of the last fork at or below it. -/
theorem getConsensus_greatest_at_or_below :
    (∀ t : BinaryTree Params, Ordered Params.nHeightEffective t → ∀ h : Nat,
      (∃ b ∈ nodes t, b.nHeightEffective ≤ h) →
      ∀ a, Params.GetConsensus h t = some a ↔ IsFloor Params.nHeightEffective h t a) ∧
    (∀ h, Params.GetConsensus h CMainParams.pConsensusRoot =
      some (if h < 1000 then CMainParams.consensus
        else if h < 60000 then CMainParams.digishieldConsensus
        else CMainParams.auxpowConsensus)) ∧
    (∀ h, Params.GetConsensus h CTestNetParams.pConsensusRoot =
      some (if h < 1000 then CTestNetParams.consensus
        else if h < 1250 then CTestNetParams.digishieldConsensus
        else if h < 60000 then CTestNetParams.minDifficultyConsensus
        else CTestNetParams.auxpowConsensus)) ∧
    (∀ h, Params.GetConsensus h CRegTestParams.pConsensusRoot =
      some (if h < 10 then CRegTestParams.consensus
        else if h < 20 then CRegTestParams.digishieldConsensus
        else CRegTestParams.auxpowConsensus)) := by
  refine ⟨fun t ho h hex a => ⟨fun hget => ?_, Params.getConsensus_eq_of_isFloor ho⟩,
    CMainParams.getConsensus, CTestNetParams.getConsensus, CRegTestParams.getConsensus⟩
  obtain ⟨b, hb, hfl⟩ := Params.getConsensus_isFloor ho hex
  rw [hget, Option.some_inj] at hb
  exact hb ▸ hfl

theorem getConsensus_testnet_minDifficulty :
    Params.GetConsensus 1300 CTestNetParams.pConsensusRoot =
      some CTestNetParams.minDifficultyConsensus :=
  (getConsensus_greatest_at_or_below.1 CTestNetParams.pConsensusRoot (by decide) 1300
    ⟨CTestNetParams.consensus, by decide, by decide⟩ _).mpr (by unfold IsFloor; decide)

end Consensus

end Trumpow
