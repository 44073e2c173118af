import Mathlib.Data.Tree.Basic
import Mathlib.Order.Basic
import Mathlib.Order.Lattice

/-!
# Support — search trees and the greatest key at or below a bound

A `BinaryTree α` whose values carry a key in a linear order is `Ordered` when every value of a
left subtree has a smaller key than its node and every value of a right subtree a larger one.
`IsFloor key h t a` says that `a` is the value of `t` with the greatest key at or below `h`.
Nothing here names a program.

The lemmas are the three ways a floor is found at a node `node a l r`, one for each branch a
lookup takes: below the node's key the floor is the left subtree's (`isFloor_node_of_lt`); at or
above it, the right subtree's floor when it has one (`isFloor_node_of_right`) and the node itself
otherwise (`isFloor_node_self`).  In an ordered tree a key names one value (`eq_of_key_eq`), so
the floor is unique (`IsFloor.unique`).
-/

namespace SearchTree

open BinaryTree

variable {α κ : Type*} [LinearOrder κ] (key : α → κ)

/-- The values of a tree, in order. -/
def nodes : BinaryTree α → List α
  | nil => []
  | node a l r => nodes l ++ a :: nodes r

@[simp]
theorem mem_nodes_nil {b : α} : b ∉ nodes (nil : BinaryTree α) := List.not_mem_nil

@[simp]
theorem mem_nodes_node {a b : α} {l r : BinaryTree α} :
    b ∈ nodes (node a l r) ↔ b ∈ nodes l ∨ b = a ∨ b ∈ nodes r := by
  simp [nodes]

/-- Every value of a left subtree has a smaller key than its node, of a right subtree a larger. -/
def Ordered : BinaryTree α → Prop
  | nil => True
  | node a l r =>
    (∀ b ∈ nodes l, key b < key a) ∧ (∀ b ∈ nodes r, key a < key b) ∧
      Ordered l ∧ Ordered r

/-- `Ordered` is decided by running it, so that a concrete tree's order is checked by `decide`. -/
instance decOrdered [DecidableLT κ] : (t : BinaryTree α) → Decidable (Ordered key t)
  | nil => isTrue trivial
  | node a l r =>
    have := decOrdered l
    have := decOrdered r
    inferInstanceAs (Decidable
      ((∀ b ∈ nodes l, key b < key a) ∧ (∀ b ∈ nodes r, key a < key b) ∧
        Ordered key l ∧ Ordered key r))

/-- `a` is the value of `t` with the greatest key at or below `h`. -/
def IsFloor (h : κ) (t : BinaryTree α) (a : α) : Prop :=
  a ∈ nodes t ∧ key a ≤ h ∧ ∀ b ∈ nodes t, key b ≤ h → key b ≤ key a

variable {key}

/-- In an ordered tree two values with one key are one value. -/
theorem eq_of_key_eq {t : BinaryTree α} (ho : Ordered key t) {a b : α} (ha : a ∈ nodes t)
    (hb : b ∈ nodes t) (hab : key a = key b) : a = b := by
  induction t with
  | nil => simp at ha
  | node c l r ihl ihr =>
    obtain ⟨hl, hr, hol, hor⟩ := ho
    -- a value of the left subtree, the node and a value of the right subtree have three
    -- different keys, so `a` and `b` sit on the same side
    rw [mem_nodes_node] at ha hb
    rcases ha with ha | rfl | ha <;> rcases hb with hb | rfl | hb
    · exact ihl hol ha hb
    · exact absurd hab (hl a ha).ne
    · exact absurd hab ((hl a ha).trans (hr b hb)).ne
    · exact absurd hab (hl b hb).ne'
    · rfl
    · exact absurd hab (hr b hb).ne
    · exact absurd hab ((hl b hb).trans (hr a ha)).ne'
    · exact absurd hab (hr a ha).ne'
    · exact ihr hor ha hb

theorem IsFloor.unique {h : κ} {t : BinaryTree α} (ho : Ordered key t) {a b : α}
    (ha : IsFloor key h t a) (hb : IsFloor key h t b) : a = b :=
  eq_of_key_eq ho ha.1 hb.1 (le_antisymm (hb.2.2 a ha.1 ha.2.1) (ha.2.2 b hb.1 hb.2.1))

section Node

variable {h : κ} {a : α} {l r : BinaryTree α} (ho : Ordered key (node a l r))
include ho

/-- Below a node's key the floor lies in the left subtree: the node and its right subtree are
above the bound. -/
theorem isFloor_node_of_lt (hh : h < key a) {b : α} :
    IsFloor key h (node a l r) b ↔ IsFloor key h l b := by
  obtain ⟨_, hr, _, _⟩ := ho
  have above : ∀ c, c = a ∨ c ∈ nodes r → h < key c := by
    rintro c (rfl | hc)
    · exact hh
    · exact hh.trans (hr c hc)
  constructor
  · rintro ⟨hb, hbh, hmax⟩
    rcases mem_nodes_node.mp hb with hb | hb
    · exact ⟨hb, hbh, fun c hc => hmax c (mem_nodes_node.mpr (.inl hc))⟩
    · exact absurd hbh (above b hb).not_ge
  · rintro ⟨hb, hbh, hmax⟩
    refine ⟨mem_nodes_node.mpr (.inl hb), hbh, fun c hc hch => ?_⟩
    rcases mem_nodes_node.mp hc with hc | hc
    · exact hmax c hc hch
    · exact absurd hch (above c hc).not_ge

/-- At or above a node's key, a floor of the right subtree is the floor of the tree. -/
theorem isFloor_node_of_right (ha : key a ≤ h) {b : α} (hb : IsFloor key h r b) :
    IsFloor key h (node a l r) b := by
  obtain ⟨hl, hr, _, _⟩ := ho
  have hab : key a < key b := hr b hb.1
  refine ⟨mem_nodes_node.mpr (.inr (.inr hb.1)), hb.2.1, fun c hc hch => ?_⟩
  rcases mem_nodes_node.mp hc with hc | rfl | hc
  · exact ((hl c hc).trans hab).le
  · exact hab.le
  · exact hb.2.2 c hc hch

/-- At or above a node's key, with nothing of the right subtree at or below the bound, the node
is the floor. -/
theorem isFloor_node_self (ha : key a ≤ h) (hr' : ∀ b ∈ nodes r, h < key b) :
    IsFloor key h (node a l r) a := by
  obtain ⟨hl, _, _, _⟩ := ho
  refine ⟨mem_nodes_node.mpr (.inr (.inl rfl)), ha, fun c hc hch => ?_⟩
  rcases mem_nodes_node.mp hc with hc | rfl | hc
  · exact (hl c hc).le
  · exact le_rfl
  · exact absurd hch (hr' c hc).not_ge

end Node

end SearchTree
