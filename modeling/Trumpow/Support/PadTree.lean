import Trumpow.Support.Bits

/-!
# Support — padded hash trees

The binary hash tree over `n` leaves in which a level with an odd number of nodes pairs its last
node with itself.  Nothing here names a program: the tree is over any type `α` of digests and
any combiner `hash : α → α → α`.

* `width n k`: the number of nodes at level `k`, `⌈n / 2^k⌉` (`width_eq`), halving with rounding
  up (`width_succ'`).
* `height n`: the number of pairing rounds down to one node; level `m` has one node exactly when
  `height n ≤ m` (`height_le_iff`), that is when `n ≤ 2^m` (`width_le_one_iff`).
* `node leaves k j`, the node at level `k` and index `j`; `perfect leaves k j`, the subtree of
  height `k` at index `j` with no padding.  A node all of whose `2^k` leaves are real is perfect
  (`node_eq_perfect`).
* `pairUp`, one level from the one below; it takes `level k` to `level (k+1)` (`pairUp_level`).
* `leavesBelow n k j`, the leaves below the node at level `k`, index `j`: those below its left
  child, then those below its right (`leavesBelow_succ`); the top node's are all of them
  (`leavesBelow_height`).
* With an injective combiner, two equal siblings anywhere give two equal siblings that are both
  complete (`equalCompletePair_of_pair`): padding cannot hide an equal pair.
-/

namespace PadTree

variable {α : Type*} (hash : α → α → α)

/-- The number of nodes at level `k` of a tree over `n` leaves. -/
def width (n : Nat) : Nat → Nat
  | 0 => n
  | k + 1 => (width n k + 1) / 2

theorem width_eq (n k : Nat) : width n k = (n + 2 ^ k - 1) / 2 ^ k := by
  induction k with
  | zero => simp [width]
  | succ k ih =>
      rw [width, ih, pow_succ]
      have hp : 0 < 2 ^ k := Nat.two_pow_pos k
      rw [← Nat.add_div_right _ hp, Nat.div_div_eq_div_mul]
      congr 1
      omega

/-- Halving `k` times, then `m` more. -/
theorem width_add (n k m : Nat) : width (width n k) m = width n (k + m) := by
  induction m with
  | zero => rfl
  | succ m ih => rw [← Nat.add_assoc, width, width, ih]

/-- One level from the level below: adjacent nodes are combined, an odd last node with itself. -/
def pairUp : List α → List α
  | [] => []
  | [a] => [hash a a]
  | a :: b :: rest => hash a b :: pairUp rest

theorem length_pairUp : ∀ v : List α, (pairUp hash v).length = (v.length + 1) / 2
  | [] => by simp [pairUp]
  | [_] => by simp [pairUp]
  | _ :: _ :: rest => by
      simp only [pairUp, List.length_cons, length_pairUp rest]
      omega

theorem getD_pairUp [Inhabited α] : ∀ (v : List α) (j : Nat), j < (v.length + 1) / 2 →
    (pairUp hash v).getD j default =
      hash (v.getD (2 * j) default) (v.getD (if 2 * j + 1 < v.length then 2 * j + 1 else 2 * j) default)
  | [], j, h => by simp at h
  | [a], j, h => by
      obtain rfl : j = 0 := by simp at h; omega
      simp [pairUp]
  | a :: b :: rest, 0, _ => by simp [pairUp]
  | a :: b :: rest, j + 1, h => by
      simp only [pairUp, List.getD_cons_succ, List.length_cons] at h ⊢
      rw [getD_pairUp rest j (by omega)]
      have e1 : 2 * (j + 1) = 2 * j + 1 + 1 := by omega
      have e2 : (if 2 * (j + 1) + 1 < rest.length + 1 + 1 then 2 * (j + 1) + 1 else 2 * (j + 1)) =
          (if 2 * j + 1 < rest.length then 2 * j + 1 else 2 * j) + 1 + 1 := by split_ifs <;> omega
      rw [e2, e1, List.getD_cons_succ, List.getD_cons_succ, List.getD_cons_succ, List.getD_cons_succ]


theorem one_le_width {n : Nat} (h : 1 ≤ n) (k : Nat) : 1 ≤ width n k := by
  rw [width_eq, Nat.le_div_iff_mul_le (Nat.two_pow_pos k)]
  omega

theorem le_width_mul (n k : Nat) : n ≤ width n k * 2 ^ k := by
  rw [width_eq]
  have hp := Nat.two_pow_pos k
  generalize 2 ^ k = p at *
  have := Nat.div_add_mod (n + p - 1) p
  have := Nat.mod_lt (n + p - 1) hp
  rw [Nat.mul_comm]
  omega

theorem width_sub_one_mul_lt {n : Nat} (h : 1 ≤ n) (k : Nat) : (width n k - 1) * 2 ^ k < n := by
  have h1 := one_le_width h k
  rw [width_eq] at *
  have hp := Nat.two_pow_pos k
  generalize 2 ^ k = p at *
  have := Nat.div_mul_le_self (n + p - 1) p
  have e : ((n + p - 1) / p - 1) * p = (n + p - 1) / p * p - p := Nat.sub_one_mul _ _
  omega

theorem width_le_one_iff (n m : Nat) : width n m ≤ 1 ↔ n ≤ 2 ^ m := by
  rw [width_eq, Nat.div_le_iff_le_mul_add_pred (Nat.two_pow_pos m)]
  have hp := Nat.two_pow_pos m
  generalize 2 ^ m = p at *
  omega

/-- A level of whole blocks of `2^k` leaves. -/
theorem width_of_mod_eq_zero {n k : Nat} (h : n % 2 ^ k = 0) : width n k = n / 2 ^ k := by
  rw [width_eq]
  have hp := Nat.two_pow_pos k
  have hn := Nat.div_add_mod n (2 ^ k)
  have hc := Nat.mul_comm (2 ^ k) (n / 2 ^ k)
  apply Nat.div_eq_of_lt_le
  · omega
  · rw [Nat.succ_mul]; omega

/-- A level whose last block of leaves is short has one node more than whole blocks. -/
theorem width_of_mod_ne_zero {n k : Nat} (h : n % 2 ^ k ≠ 0) : width n k = n / 2 ^ k + 1 := by
  rw [width_eq]
  have hp := Nat.two_pow_pos k
  have hn := Nat.div_add_mod n (2 ^ k)
  have hr := Nat.mod_lt n hp
  have hc := Nat.mul_comm (2 ^ k) (n / 2 ^ k)
  apply Nat.div_eq_of_lt_le
  · rw [Nat.succ_mul]; omega
  · rw [Nat.succ_mul, Nat.succ_mul]; omega

/-- Below a level of one node, a level's nodes cover at most the `2^m` leaves of the top. -/
theorem width_mul_le {n k m : Nat} (hk : k ≤ m) (hn : n ≤ 2 ^ m) : width n k * 2 ^ k ≤ 2 ^ m := by
  have hm : 2 ^ m = 2 ^ (m - k) * 2 ^ k := by rw [← pow_add, Nat.sub_add_cancel hk]
  have hw : width n k ≤ 2 ^ (m - k) := by
    rw [width_eq, Nat.div_le_iff_le_mul_add_pred (Nat.two_pow_pos k)]
    have := Nat.mul_comm (2 ^ k) (2 ^ (m - k))
    omega
  rw [hm]
  exact Nat.mul_le_mul_right _ hw

/-- The number of pairing rounds that take `n` nodes down to one. -/
def height (n : Nat) : Nat :=
  if n ≤ 1 then 0 else height ((n + 1) / 2) + 1

theorem height_of_le_one {n : Nat} (h : n ≤ 1) : height n = 0 := by
  rw [height, if_pos h]

theorem height_of_one_lt {n : Nat} (h : 1 < n) : height n = height ((n + 1) / 2) + 1 := by
  rw [height, if_neg (by omega)]

/-- Halving the leaves first, then `m` more times. -/
theorem width_succ' (n m : Nat) : width n (m + 1) = width ((n + 1) / 2) m := by
  rw [show width n (m + 1) = width n (1 + m) by rw [Nat.add_comm], ← width_add]
  rfl

theorem width_le_one {n : Nat} (h : n ≤ 1) : ∀ k, width n k ≤ 1
  | 0 => h
  | k + 1 => by have := width_le_one h k; rw [width]; omega

/-- Level `m` has at most one node exactly from the `height` on. -/
theorem height_le_iff (n m : Nat) : height n ≤ m ↔ width n m ≤ 1 := by
  induction m generalizing n with
  | zero => rw [height]; split_ifs with h <;> simp [width] <;> omega
  | succ m ih =>
      by_cases h : n ≤ 1
      · simp [height_of_le_one h, width_le_one h]
      · rw [height_of_one_lt (by omega), width_succ', ← ih]
        omega

/-- The top level covers every leaf. -/
theorem le_two_pow_height (n : Nat) : n ≤ 2 ^ height n :=
  (width_le_one_iff n _).mp ((height_le_iff n _).mp le_rfl)

theorem height_le_iff_le_two_pow (n m : Nat) : height n ≤ m ↔ n ≤ 2 ^ m := by
  rw [height_le_iff, width_le_one_iff]

/-- The levels below the top are those with at least two nodes. -/
theorem lt_height_iff (n k : Nat) : k < height n ↔ 2 ≤ width n k := by
  rw [← not_le, height_le_iff]
  omega

/-- The top level's `2^height` leaves are fewer than twice the real ones. -/
theorem two_pow_height_lt {n : Nat} (h : 1 ≤ n) : 2 ^ height n < 2 * n := by
  cases hk : height n with
  | zero => simp; omega
  | succ k =>
      have hw : 2 ≤ width n k := (lt_height_iff n k).mp (by omega)
      have hlt : 2 ^ k < n := by
        by_contra hle
        have := (width_le_one_iff n k).mpr (by omega)
        omega
      rw [pow_succ]
      omega

/-! ### The leaves below a node -/

/-- Each level has at most as many nodes as there are leaves. -/
theorem width_le_self (n : Nat) : ∀ k, width n k ≤ n
  | 0 => le_rfl
  | k + 1 => by
      have := width_le_self n k
      rw [width]
      omega

/-- The first leaf below a node of a level exists. -/
theorem mul_lt_of_lt_width {n k j : Nat} (h : j < width n k) : j * 2 ^ k < n := by
  have hn : 1 ≤ n := le_trans (by omega) (width_le_self n k)
  have hlt := width_sub_one_mul_lt hn k
  have hle : j * 2 ^ k ≤ (width n k - 1) * 2 ^ k := Nat.mul_le_mul_right _ (by omega)
  omega

/-- The leaves below the node at level `k`, index `j`: from `j * 2^k` to `(j + 1) * 2^k`, those
of the `n` that exist. -/
def leavesBelow (n k j : Nat) : List Nat :=
  List.range' (j * 2 ^ k) (min ((j + 1) * 2 ^ k) n - j * 2 ^ k)

theorem mem_leavesBelow {n k j i : Nat} : i ∈ leavesBelow n k j ↔ i / 2 ^ k = j ∧ i < n := by
  have hp := Nat.two_pow_pos k
  have e : (j + 1) * 2 ^ k = j * 2 ^ k + 2 ^ k := by ring
  rw [leavesBelow, List.mem_range'_1, e]
  constructor
  · rintro ⟨h1, h2⟩
    refine ⟨Nat.div_eq_of_lt_le ?_ ?_, by omega⟩
    · exact h1
    · rw [Nat.add_mul, one_mul]; omega
  · rintro ⟨rfl, hn⟩
    have h1 := Nat.div_mul_le_self i (2 ^ k)
    have h2 := Nat.lt_div_mul_add (a := i) hp
    omega

theorem leavesBelow_zero (n j : Nat) : leavesBelow n 0 j = if j < n then [j] else [] := by
  rw [leavesBelow]
  simp only [pow_zero, mul_one]
  split_ifs with h
  · rw [show min (j + 1) n - j = 1 by omega]
    rfl
  · rw [show min (j + 1) n - j = 0 by omega]
    rfl

/-- The leaves below a node are those below its left child, then those below its right. -/
theorem leavesBelow_succ (n k j : Nat) :
    leavesBelow n (k + 1) j = leavesBelow n k (2 * j) ++ leavesBelow n k (2 * j + 1) := by
  have e1 : 2 * j * 2 ^ k = j * 2 ^ (k + 1) := by ring
  have e2 : (2 * j + 1) * 2 ^ k = j * 2 ^ (k + 1) + 2 ^ k := by ring
  have e3 : (2 * j + 1 + 1) * 2 ^ k = j * 2 ^ (k + 1) + 2 ^ k + 2 ^ k := by ring
  have e4 : (j + 1) * 2 ^ (k + 1) = j * 2 ^ (k + 1) + 2 ^ k + 2 ^ k := by ring
  rw [leavesBelow, leavesBelow, leavesBelow, e1, e2, e3, e4]
  generalize j * 2 ^ (k + 1) = a
  generalize 2 ^ k = p
  by_cases h : n ≤ a + p
  · -- the right child has no leaves
    rw [show min (a + p + p) n - (a + p) = 0 by omega, List.range'_zero, List.append_nil]
    congr 1
    omega
  · rw [show min (a + p) n - a = p by omega, List.range'_append_1]
    congr 1
    omega

/-- A node past the last of its level has no leaves. -/
theorem leavesBelow_eq_nil {n k j : Nat} (h : width n k ≤ j) : leavesBelow n k j = [] := by
  have h1 := le_width_mul n k
  have h2 : width n k * 2 ^ k ≤ j * 2 ^ k := Nat.mul_le_mul_right _ h
  rw [leavesBelow, List.range'_eq_nil_iff]
  omega

theorem leavesBelow_ne_nil {n k j : Nat} (h : j < width n k) : leavesBelow n k j ≠ [] :=
  List.ne_nil_of_mem (mem_leavesBelow.mpr ⟨Nat.mul_div_cancel _ (Nat.two_pow_pos k),
    mul_lt_of_lt_width h⟩)

/-- The top node covers every leaf. -/
theorem leavesBelow_height (n : Nat) : leavesBelow n (height n) 0 = List.range n := by
  rw [leavesBelow, zero_mul, zero_add, one_mul, Nat.min_eq_right (le_two_pow_height n),
    Nat.sub_zero, List.range_eq_range']

section Nodes

variable [Inhabited α]

/-- The node at level `k`, index `j`: a level's last node is paired with itself when the level
below has an odd width. -/
def node (leaves : List α) : Nat → Nat → α
  | 0, j => leaves.getD j default
  | k + 1, j => hash (node leaves k (2 * j))
      (node leaves k (if 2 * j + 1 < width leaves.length k then 2 * j + 1 else 2 * j))

/-- The perfect subtree of height `k` at index `j`. -/
def perfect (leaves : List α) : Nat → Nat → α
  | 0, j => leaves.getD j default
  | k + 1, j => hash (perfect leaves k (2 * j)) (perfect leaves k (2 * j + 1))

theorem lt_width_of_mul_le {n k j : Nat} (h : (j + 1) * 2 ^ k ≤ n) : j < width n k := by
  rw [width_eq, Nat.lt_div_iff_mul_lt (Nat.two_pow_pos k)]
  have e : (j + 1) * 2 ^ k = j * 2 ^ k + 2 ^ k := by ring
  have := Nat.two_pow_pos k
  omega

/-- A node whose `2^k` leaves all exist takes no padding. -/
theorem node_eq_perfect (leaves : List α) :
    ∀ k j, (j + 1) * 2 ^ k ≤ leaves.length → node hash leaves k j = perfect hash leaves k j := by
  intro k
  induction k with
  | zero => intro j _; rfl
  | succ k ih =>
      intro j h
      have h1 : (2 * j + 1 + 1) * 2 ^ k ≤ leaves.length := by rw [pow_succ] at h; nlinarith
      have h0 : (2 * j + 1) * 2 ^ k ≤ leaves.length :=
        le_trans (Nat.mul_le_mul_right _ (by omega)) h1
      rw [node, perfect, if_pos (lt_width_of_mul_le h1), ih _ h0, ih _ h1]

/-- Level `k` of the tree, left to right. -/
def level (leaves : List α) (k : Nat) : List α :=
  (List.range (width leaves.length k)).map (node hash leaves k)

theorem length_level (leaves : List α) (k : Nat) : (level hash leaves k).length = width leaves.length k := by
  simp [level]

theorem getD_level (leaves : List α) {k j : Nat} (hj : j < width leaves.length k) :
    (level hash leaves k).getD j default = node hash leaves k j := by
  simp [level, List.getD_eq_getElem?_getD, hj]

theorem level_zero (leaves : List α) : level hash leaves 0 = leaves := by
  apply List.ext_getElem
  · simp [level, width]
  · intro i h₁ h₂
    simp [level, node, width, List.getD_eq_getElem?_getD, h₂]

theorem pairUp_level (leaves : List α) (k : Nat) :
    pairUp hash (level hash leaves k) = level hash leaves (k + 1) := by
  apply List.ext_getElem
  · rw [length_pairUp, length_level, length_level, width]
  · intro j h₁ h₂
    rw [length_pairUp, length_level] at h₁
    have e := getD_pairUp hash (level hash leaves k) j (by rwa [length_level])
    rw [List.getD_eq_getElem _ _ (by rwa [length_pairUp, length_level])] at e
    rw [e, length_level]
    have hw : j < (width leaves.length k + 1) / 2 := h₁
    have h2 : 2 * j < width leaves.length k := by omega
    simp only [level, List.getD_eq_getElem?_getD, List.getElem?_map, List.getElem_map,
      List.getElem_range, node]
    split_ifs with hc
    · rw [List.getElem?_range h2, List.getElem?_range hc]; rfl
    · rw [List.getElem?_range h2]; rfl

/-- The siblings on the path of leaf `p` at the levels below `k`: at each level the node paired
with `p`'s, which is `p`'s own node when it is the last of an odd level. -/
def branch (leaves : List α) (p k : Nat) : List α :=
  (List.range k).map fun i => node hash leaves i (min ((p / 2 ^ i) ^^^ 1) (width leaves.length i - 1))

theorem branch_zero (leaves : List α) (p : Nat) : branch hash leaves p 0 = [] := rfl

theorem branch_succ (leaves : List α) (p k : Nat) :
    branch hash leaves p (k + 1) =
      branch hash leaves p k ++
        [node hash leaves k (min ((p / 2 ^ k) ^^^ 1) (width leaves.length k - 1))] := by
  simp [branch, List.range_succ]

theorem length_branch (leaves : List α) (p k : Nat) : (branch hash leaves p k).length = k := by
  simp [branch]

/-- A leaf before the `c`-th is in a node of level `k` before the `c`-th's. -/
theorem div_lt_width {n c : Nat} (hc : c < n) (k : Nat) : c / 2 ^ k < width n k := by
  have h1 := le_width_mul n k
  have h2 := Nat.div_mul_le_self c (2 ^ k)
  by_contra h
  have := Nat.mul_le_mul_right (2 ^ k) (not_lt.mp h)
  omega

/-- A node and its right sibling, both real, make their parent. -/
theorem node_succ_of_lt (leaves : List α) {k j : Nat} (h : 2 * j + 1 < width leaves.length k) :
    node hash leaves (k + 1) j = hash (node hash leaves k (2 * j)) (node hash leaves k (2 * j + 1)) := by
  rw [node, if_pos h]

/-- The last node of an odd level is paired with itself. -/
theorem node_succ_of_ge (leaves : List α) {k j : Nat} (h : width leaves.length k ≤ 2 * j + 1) :
    node hash leaves (k + 1) j = hash (node hash leaves k (2 * j)) (node hash leaves k (2 * j)) := by
  rw [node, if_neg (by omega)]

/-- A node combined with the sibling `branch` takes for it, on the side its index's low bit
says, gives its parent. -/
theorem node_parent (leaves : List α) {k j : Nat} (hj : j < width leaves.length k) :
    node hash leaves (k + 1) (j / 2) =
      if j % 2 = 1 then hash (node hash leaves k (min (j ^^^ 1) (width leaves.length k - 1)))
        (node hash leaves k j)
      else hash (node hash leaves k j) (node hash leaves k (min (j ^^^ 1) (width leaves.length k - 1))) := by
  by_cases hodd : j % 2 = 1
  · -- a right child: its sibling is the node before it
    rw [if_pos hodd, Bits.xor_one_odd hodd, Nat.min_eq_left (by omega),
      node_succ_of_lt hash leaves (by omega)]
    congr 2 <;> omega
  · rw [if_neg hodd, Bits.xor_one_even (by omega)]
    by_cases hlast : j + 1 < width leaves.length k
    · -- a left child with a right sibling
      rw [Nat.min_eq_left (by omega), node_succ_of_lt hash leaves (by omega)]
      congr 2 <;> omega
    · -- the last node of an odd level, paired with itself
      rw [Nat.min_eq_right (by omega), node_succ_of_ge hash leaves (by omega)]
      congr 2 <;> omega

/-- Some level has two equal siblings `(2j, 2j+1)` whose subtrees both have all their `2^k`
leaves, so that no padding entered either. -/
def EqualCompletePair (leaves : List α) : Prop :=
  ∃ k j, (2 * j + 2) * 2 ^ k ≤ leaves.length ∧
    perfect hash leaves k (2 * j) = perfect hash leaves k (2 * j + 1)

/-- Both the level and the index of a complete pair are below the number of leaves. -/
instance [DecidableEq α] (leaves : List α) : Decidable (EqualCompletePair hash leaves) :=
  decidable_of_iff (∃ k < leaves.length, ∃ j < leaves.length, (2 * j + 2) * 2 ^ k ≤ leaves.length ∧
      perfect hash leaves k (2 * j) = perfect hash leaves k (2 * j + 1)) (by
    constructor
    · rintro ⟨k, -, j, -, h⟩
      exact ⟨k, j, h⟩
    · rintro ⟨k, j, hle, he⟩
      have hk : k < 2 ^ k := Nat.lt_two_pow_self
      have hj : 2 * j + 2 ≤ (2 * j + 2) * 2 ^ k := Nat.le_mul_of_pos_right _ (Nat.two_pow_pos k)
      have hk' : 2 ^ k ≤ (2 * j + 2) * 2 ^ k := Nat.le_mul_of_pos_left _ (by omega)
      exact ⟨k, by omega, j, by omega, hle, he⟩)

/-- With an injective combiner, a complete node equal to the last node of its level, when that
one is padded, gives two equal complete siblings further down. -/
theorem equalCompletePair_of_eq_last (hinj : Function.Injective2 hash) (leaves : List α) :
    ∀ k x, (x + 1) * 2 ^ k ≤ leaves.length →
      leaves.length < width leaves.length k * 2 ^ k →
      node hash leaves k x = node hash leaves k (width leaves.length k - 1) →
      EqualCompletePair hash leaves := by
  intro k
  induction k with
  | zero => intro x _ hy _; simp [width] at hy
  | succ k ih =>
      intro x hx hy he
      have hx1 : (2 * x + 2) * 2 ^ k ≤ leaves.length := by rw [pow_succ] at hx; linarith
      have hx0 : 2 * x + 1 < width leaves.length k := lt_width_of_mul_le hx1
      rw [node, node, if_pos hx0] at he
      obtain ⟨hl, hr⟩ := hinj he
      have hw : width leaves.length (k + 1) = (width leaves.length k + 1) / 2 := rfl
      split_ifs at hr with hc
      · -- an even level: the right child is the last node of level `k`, itself padded
        have hlast : 2 * (width leaves.length (k + 1) - 1) + 1 = width leaves.length k - 1 := by omega
        rw [hlast] at hr
        refine ih (2 * x + 1) hx1 ?_ hr
        have : width leaves.length (k + 1) * 2 ^ (k + 1) = width leaves.length k * 2 ^ k := by
          rw [pow_succ, Nat.mul_comm (2 ^ k) 2, ← Nat.mul_assoc]; congr 1; omega
        omega
      · -- an odd level: the last node was paired with itself
        refine ⟨k, x, hx1, ?_⟩
        rw [← node_eq_perfect hash leaves k _ (le_trans (Nat.mul_le_mul_right _ (by omega)) hx1),
          ← node_eq_perfect hash leaves k _ hx1, hr]
        exact hl

/-- With an injective combiner, two equal siblings of a level, the right one a real node and not
the padding, give two equal complete siblings. -/
theorem equalCompletePair_of_pair (hinj : Function.Injective2 hash) (leaves : List α)
    (hn : 1 ≤ leaves.length) {k j : Nat} (hj : 2 * j + 1 < width leaves.length k)
    (he : node hash leaves k (2 * j) = node hash leaves k (2 * j + 1)) :
    EqualCompletePair hash leaves := by
  have hlt := width_sub_one_mul_lt hn k
  by_cases hc : (2 * j + 2) * 2 ^ k ≤ leaves.length
  · refine ⟨k, j, hc, ?_⟩
    rwa [← node_eq_perfect hash leaves k _ hc,
      ← node_eq_perfect hash leaves k _ (le_trans (Nat.mul_le_mul_right _ (by omega)) hc)]
  · -- the right sibling is the padded last node of its level
    have hlast : 2 * j + 1 = width leaves.length k - 1 := by
      by_contra hne
      exact hc (le_trans (Nat.mul_le_mul_right _ (by omega)) hlt.le)
    rw [hlast] at he
    refine equalCompletePair_of_eq_last hash hinj leaves k (2 * j)
      (le_trans (Nat.mul_le_mul_right _ (by omega)) hlt.le) ?_ he
    have : width leaves.length k = 2 * j + 2 := by omega
    rw [this]
    omega

/-- Some level has two equal siblings `(2j, 2j+1)`, both real nodes of the level; the right one
may have padding below it. -/
def EqualSiblingPair (leaves : List α) : Prop :=
  ∃ k j, 2 * j + 1 < width leaves.length k ∧
    node hash leaves k (2 * j) = node hash leaves k (2 * j + 1)

theorem EqualCompletePair.equalSiblingPair {leaves : List α} (h : EqualCompletePair hash leaves) :
    EqualSiblingPair hash leaves := by
  obtain ⟨k, j, hle, he⟩ := h
  refine ⟨k, j, lt_width_of_mul_le hle, ?_⟩
  rwa [node_eq_perfect hash leaves k _ hle,
    node_eq_perfect hash leaves k _ (le_trans (Nat.mul_le_mul_right _ (by omega)) hle)]

/-- With an injective combiner, padding makes no difference to whether two siblings are
equal. -/
theorem equalCompletePair_iff (hinj : Function.Injective2 hash) (leaves : List α)
    (hn : 1 ≤ leaves.length) : EqualCompletePair hash leaves ↔ EqualSiblingPair hash leaves :=
  ⟨EqualCompletePair.equalSiblingPair hash,
    fun ⟨_, _, hj, he⟩ => equalCompletePair_of_pair hash hinj leaves hn hj he⟩

/-- Both the level and the index of a pair of siblings are below the number of leaves. -/
instance [DecidableEq α] (leaves : List α) : Decidable (EqualSiblingPair hash leaves) :=
  decidable_of_iff (∃ k < leaves.length, ∃ j < leaves.length, 2 * j + 1 < width leaves.length k ∧
      node hash leaves k (2 * j) = node hash leaves k (2 * j + 1)) (by
    constructor
    · rintro ⟨k, -, j, -, h⟩
      exact ⟨k, j, h⟩
    · rintro ⟨k, j, hj, he⟩
      have hw := width_le_self leaves.length k
      have hk : k < height leaves.length := (lt_height_iff _ _).mpr (by omega)
      have hh : height leaves.length ≤ leaves.length :=
        (height_le_iff_le_two_pow _ _).mpr Nat.lt_two_pow_self.le
      exact ⟨k, by omega, j, by omega, hj, he⟩)

end Nodes

end PadTree
