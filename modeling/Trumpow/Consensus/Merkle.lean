import Trumpow.Support.PadTree

/-!
# Consensus — Merkle roots and branches

`consensus/merkle.cpp` computes a block's merkle root, and the branch of one leaf, in constant
space: `MerkleComputation` reads the leaves left to right, keeping in `inner[level]` the root of
the last complete subtree of `2^level` leaves, one for each set bit of the number `count` of
leaves read; a final sweep up the rightmost path pairs every odd level's last node with itself.
`matchlevel` and `matchh` follow the subtree that holds the leaf at `branchpos`, so that the
siblings of its path can be collected on the way.

The combiner `Hash(a, b)` (double SHA-256 of the 64 bytes `a ‖ b`) is a parameter `hash`, and the
digests a type `α`; `uint256()` is `default`.

`count` is a `uint32_t`, kept here as a `Nat` below `2^32` with the wrap-around explicit.  A
shift `1u << level` with `level ≥ 32`, and the read of `inner[level]` it guards, are undefined
behaviour; the model returns `none` there.  With `2^32` leaves or more, `count < leaves.size()`
never fails and the loop does not end, which is `none` too.

`merkle_tests.cpp` checks the computation against the level-by-level construction it replaced,
`BlockBuildMerkleTree` and `BlockGetMerkleBranch`, which close this module.
-/

namespace Trumpow.Merkle

variable {α : Type} [DecidableEq α] [Inhabited α] (hash : α → α → α)

/-- The `pbranch` bookkeeping where `inner[level]` and `h` are combined.  Once `h` depends on
the matching leaf (`matchh`), its sibling `inner[level]` joins the branch; when instead
`inner[level]` does (`matchlevel == level`), `h` joins it and `h` depends on the leaf from then
on. -/
def record (inner : Nat → α) (matchlevel : Int) (level : Nat) (h : α) (matchh : Bool)
    (branch : List α) : Bool × List α :=
  if matchh then (true, branch ++ [inner level])
  else if matchlevel = level then (true, branch ++ [h])
  else (false, branch)

/-- What the level loop of one leaf carries. -/
structure Climb (α : Type) where
  level : Nat
  h : α
  matchh : Bool
  mutated : Bool
  branch : List α

/-- `for (level = 0; !(count & (1u << level)); level++)`: while bit `level` of `count` is clear,
record the branch, note two equal siblings in `mutated`, and combine `inner[level]` with `h`. -/
def climb (count : Nat) (inner : Nat → α) (matchlevel : Int) (c : Climb α) : Option (Climb α) :=
  if c.level < 32 then
    if count.testBit c.level then some c
    else
      let r := record inner matchlevel c.level c.h c.matchh c.branch
      climb count inner matchlevel
        { level := c.level + 1, h := hash (inner c.level) c.h, matchh := r.1,
          mutated := c.mutated || decide (inner c.level = c.h), branch := r.2 }
  else none
termination_by 32 - c.level

/-- The state of `MerkleComputation` between two leaves. -/
structure Acc (α : Type) where
  count : Nat
  inner : Nat → α
  matchlevel : Int
  mutated : Bool
  branch : List α

/-- Before the first leaf: `inner` is 32 zero hashes, `matchlevel = -1`. -/
def Acc.init : Acc α :=
  { count := 0, inner := fun _ => default, matchlevel := -1, mutated := false, branch := [] }

/-- One pass of the leaf loop: `matchh = count == branchpos`, `count++`, the level loop, then
`inner[level] = h` and `matchlevel = level` if `h` depends on the matching leaf. -/
def Acc.push (branchpos : Nat) (s : Acc α) (leaf : α) : Option (Acc α) :=
  (climb hash ((s.count + 1) % 2 ^ 32) s.inner s.matchlevel
      { level := 0, h := leaf, matchh := decide (s.count = branchpos), mutated := s.mutated,
        branch := s.branch }).map fun c =>
    { count := (s.count + 1) % 2 ^ 32, inner := Function.update s.inner c.level c.h,
      matchlevel := if c.matchh then c.level else s.matchlevel, mutated := c.mutated,
      branch := c.branch }

/-- `while (!(count & (1u << level))) level++;` -/
def lowestLevel (count level : Nat) : Option Nat :=
  if level < 32 then
    if count.testBit level then some level else lowestLevel count (level + 1)
  else none
termination_by 32 - level

/-- The final sweep, level by level.  At a level whose bit of `count` is set, either
`count == 1u << level` and `h` is the root, or `h` is combined with itself and `count` grows by
`1u << level`; at a level whose bit is clear, `inner[level]` is combined with `h`.  This is the
source's outer `while (count != (1u << level))` with its inner `while (!(count & (1u << level)))`
walked one level at a time. -/
def sweep (inner : Nat → α) (matchlevel : Int) (count level : Nat) (h : α) (matchh : Bool)
    (branch : List α) : Option (α × List α) :=
  if level < 32 then
    if count.testBit level then
      if count = 2 ^ level then some (h, branch)
      else
        sweep inner matchlevel ((count + 2 ^ level) % 2 ^ 32) (level + 1) (hash h h) matchh
          (if matchh then branch ++ [h] else branch)
    else
      let r := record inner matchlevel level h matchh branch
      sweep inner matchlevel count (level + 1) (hash (inner level) h) r.1 r.2
  else none
termination_by 32 - level

/-- `MerkleComputation(leaves, proot, pmutated, branchpos, pbranch)`: the root, the `mutated`
flag and the branch of the leaf at `branchpos`.  The branch is always collected; `pbranch` being
null only discards it. -/
def merkleComputation (leaves : List α) (branchpos : Nat) : Option (α × Bool × List α) :=
  if leaves = [] then some (default, false, [])
  else if 2 ^ 32 ≤ leaves.length then none
  else do
    let s ← leaves.foldlM (Acc.push hash branchpos) Acc.init
    let level ← lowestLevel s.count 0
    let r ← sweep hash s.inner s.matchlevel s.count level (s.inner level)
      (decide (s.matchlevel = level)) s.branch
    pure (r.1, s.mutated, r.2)

/-- `ComputeMerkleRoot(leaves, mutated)`, with `branchpos = (uint32_t)-1`. -/
def computeMerkleRoot (leaves : List α) : Option (α × Bool) :=
  (merkleComputation hash leaves (2 ^ 32 - 1)).map fun r => (r.1, r.2.1)

/-- `ComputeMerkleBranch(leaves, position)`. -/
def computeMerkleBranch (leaves : List α) (position : Nat) : Option (List α) :=
  (merkleComputation hash leaves position).map fun r => r.2.2

/-- `ComputeMerkleRootFromBranch(leaf, vMerkleBranch, nIndex)` for a `uint32_t` index: the
sibling goes left when the index's low bit is set. -/
def computeMerkleRootFromBranch (leaf : α) : List α → Nat → α
  | [], _ => leaf
  | b :: bs, nIndex =>
      computeMerkleRootFromBranch (if nIndex % 2 = 1 then hash b leaf else hash leaf b) bs
        (nIndex / 2)

/-! ### The level-by-level construction of `merkle_tests` -/

/-- The test's check at one level: `i2 == i + 1 && i2 + 1 == nSize` with equal hashes, which
is the last two nodes of a level of even width. -/
def lastPairEqual (v : List α) : Bool :=
  v.length % 2 == 0 && v.getD (v.length - 2) default == v.getD (v.length - 1) default

omit [DecidableEq α] [Inhabited α] in
theorem length_pairUp_lt {v : List α} (h : ¬ v.length ≤ 1) :
    (PadTree.pairUp hash v).length < v.length := by
  rw [PadTree.length_pairUp]
  omega

/-- `BlockBuildMerkleTree`: the root and the `mutated` flag of the tree built level by level,
`nSize = (nSize + 1) / 2`, each level's pairs combined by `pairUp`.  Without leaves the root is
`uint256()`. -/
def blockBuildMerkleTree (v : List α) : α × Bool :=
  if _hv : v.length ≤ 1 then (v.headD default, false)
  else
    let r := blockBuildMerkleTree (PadTree.pairUp hash v)
    (r.1, lastPairEqual v || r.2)
termination_by v.length
decreasing_by exact length_pairUp_lt hash _hv

/-- `BlockGetMerkleBranch`: at each level the node at `min(nIndex ^ 1, nSize - 1)`, then
`nIndex >>= 1`. -/
def blockGetMerkleBranch (v : List α) (nIndex : Nat) : List α :=
  if h : v.length ≤ 1 then []
  else
    v.getD (min (nIndex ^^^ 1) (v.length - 1)) default ::
      blockGetMerkleBranch (PadTree.pairUp hash v) (nIndex / 2)
termination_by v.length
decreasing_by exact length_pairUp_lt hash h

end Trumpow.Merkle
