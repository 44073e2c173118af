import Trumpow.Support.Slots
import Mathlib.Data.List.ReduceOption
import Mathlib.Data.Nat.Basic
import Mathlib.Order.Basic
import Mathlib.Order.Lattice

/-!
# Primitives — `prevector`

`prevector<N, T>` of `prevector.h` on raw slots: `_size` and the union of the `N` direct slots
with the heap buffer `indirect` and its `capacity`.  `_size ≤ N` says the direct slots are live,
and then `_size` is the size; otherwise the size is `_size - N - 1`.  Every operator is its code:
`change_capacity` moves the elements between the two buffers with `memcpy`, `malloc` and
`realloc`, the inserts open a gap with `memmove` and construct into it, `erase` closes one with
`memmove`.

What a `std::vector<T>` holds after the same calls is `Represents v l`: `size()` is `l.length`
and the live slots hold `l`.  Each operator keeps the representation invariant `Inv` and takes
`Represents v l` to `Represents v' l'` for the list `l'` the vector would hold
(`Op.run_represents`), `operator==` is equality of the lists (`beq_iff`) and `operator<` compares
the sizes first and then the elements, a strict total order (`lt_irrefl`, `lt_trans`,
`not_lt_iff_beq`).  The one place the two differ is a value argument that refers into the
prevector itself: `insert` reads it after its `memmove` has shifted the elements, so
`insert(pos, (*this)[i])` with `i > pos` constructs element `i - 1` (`insertSelf_spec`).
-/

namespace Trumpow

open Slots

/-- `union direct_or_indirect`: the direct slots, or the heap buffer with its capacity.  The
model keeps the members apart; which one is live is read off `_size`. -/
structure DirectOrIndirect (T : Type*) where
  direct : List (Option T)
  capacity : Nat
  indirect : List (Option T)

/-- `prevector<N, T>`. -/
structure Prevector (N : Nat) (T : Type*) where
  _size : Nat
  _union : DirectOrIndirect T

namespace Prevector

variable {N : Nat} {T : Type*}

/-- `is_direct()`. -/
def is_direct (v : Prevector N T) : Bool := decide (v._size ≤ N)

/-- `size()`. -/
def size (v : Prevector N T) : Nat := if v.is_direct then v._size else v._size - N - 1

/-- `capacity()`. -/
def capacity (v : Prevector N T) : Nat := if v.is_direct then N else v._union.capacity

/-- The live buffer, the one `item_ptr` points into. -/
def items (v : Prevector N T) : List (Option T) :=
  if v.is_direct then v._union.direct else v._union.indirect

/-- A write through `item_ptr`: `f` applied to the live buffer. -/
def setItems (v : Prevector N T) (f : List (Option T) → List (Option T)) : Prevector N T :=
  if v.is_direct then { v with _union := { v._union with direct := f v._union.direct } }
  else { v with _union := { v._union with indirect := f v._union.indirect } }

/-- `new(item_ptr(pos)) T(value)`. -/
def putItem (v : Prevector N T) (pos : Nat) (s : Option T) : Prevector N T :=
  v.setItems (put · pos s)

/-- `memmove(item_ptr(dst), item_ptr(src), n * sizeof(T))`. -/
def moveItems (v : Prevector N T) (dst src n : Nat) : Prevector N T :=
  v.setItems (memmove · dst src n)

/-- `operator[](pos)`. -/
def index (v : Prevector N T) (pos : Nat) : Option T := get v.items pos

/-- `front()`. -/
def front (v : Prevector N T) : Option T := get v.items 0

/-- `back()`. -/
def back (v : Prevector N T) : Option T := get v.items (v.size - 1)

/-- What a walk from `begin()` to `end()` reads. -/
def elems (v : Prevector N T) : List (Option T) := (List.range v.size).map (get v.items)

/-! ### Storage -/

/-- `change_capacity(new_capacity)`. -/
def change_capacity (v : Prevector N T) (new_capacity : Nat) : Prevector N T :=
  if new_capacity ≤ N then
    if !v.is_direct then
      -- `memcpy` into the direct slots, `free(indirect)`, `_size -= N + 1`
      { _size := v._size - (N + 1),
        _union := { v._union with direct := memcpy v._union.direct v._union.indirect v.size } }
    else v
  else
    if !v.is_direct then
      { v with _union := { v._union with
          indirect := realloc v._union.indirect new_capacity, capacity := new_capacity } }
    else
      -- `malloc`, `memcpy` out of the direct slots, `_size += N + 1`
      { _size := v._size + (N + 1),
        _union := { v._union with
          indirect := memcpy (alloc new_capacity) v._union.direct v.size,
          capacity := new_capacity } }

/-- `while (size() < n) { _size++; new(item_ptr(size() - 1)) T(val); }`, its `k = n - size()`
rounds counted out. -/
def fill (val : Option T) : Nat → Prevector N T → Prevector N T
  | 0, v => v
  | k + 1, v =>
    let v := { v with _size := v._size + 1 }
    fill val k (v.putItem (v.size - 1) val)

/-- `while (first != last) { _size++; new(item_ptr(size() - 1)) T(*first); ++first; }`. -/
def construct : List (Option T) → Prevector N T → Prevector N T
  | [], v => v
  | s :: ss, v =>
    let v := { v with _size := v._size + 1 }
    construct ss (v.putItem (v.size - 1) s)

/-- `while (first != last) { new(item_ptr(p)) T(*first); ++p; ++first; }`. -/
def putRange : Nat → List (Option T) → Prevector N T → Prevector N T
  | _, [], v => v
  | p, s :: ss, v => putRange (p + 1) ss (v.putItem p s)

/-- `prevector()`: `_size(0)`, the union not yet written. -/
def empty : Prevector N T := ⟨0, ⟨alloc N, 0, []⟩⟩

/-! ### Erasing and resizing -/

/-- `erase(first, last)`: the elements in `[first, last)` are destroyed, `_size` dropping by one
for each, and `memmove(&*first, &*last, endp - &*last)` closes the gap. -/
def erase (v : Prevector N T) (first last : Nat) : Prevector N T :=
  { v.moveItems first last (v.size - last) with _size := v._size - (last - first) }

/-- `erase(pos)`: `erase(pos, pos + 1)`. -/
def erase1 (v : Prevector N T) (pos : Nat) : Prevector N T := v.erase pos (pos + 1)

/-- `pop_back()`: `erase(end() - 1, end())`. -/
def pop_back (v : Prevector N T) : Prevector N T := v.erase (v.size - 1) v.size

/-- `resize(new_size)`, new elements value-initialised as `T()`. -/
def resize [Inhabited T] (v : Prevector N T) (new_size : Nat) : Prevector N T :=
  let v := if v.size > new_size then v.erase new_size v.size else v
  let v := if new_size > v.capacity then v.change_capacity new_size else v
  fill (some default) (new_size - v.size) v

/-- `reserve(new_capacity)`. -/
def reserve (v : Prevector N T) (new_capacity : Nat) : Prevector N T :=
  if new_capacity > v.capacity then v.change_capacity new_capacity else v

/-- `shrink_to_fit()`. -/
def shrink_to_fit (v : Prevector N T) : Prevector N T := v.change_capacity v.size

/-- `clear()`: `resize(0)`. -/
def clear [Inhabited T] (v : Prevector N T) : Prevector N T := v.resize 0

/-! ### Assigning and constructing -/

/-- `assign(n, val)`. -/
def assign [Inhabited T] (v : Prevector N T) (n : Nat) (val : T) : Prevector N T :=
  let v := v.clear
  let v := if v.capacity < n then v.change_capacity n else v
  fill (some val) (n - v.size) v

/-- `assign(first, last)`. -/
def assignRange [Inhabited T] (v : Prevector N T) (xs : List T) : Prevector N T :=
  let n := xs.length
  let v := v.clear
  let v := if v.capacity < n then v.change_capacity n else v
  construct (xs.map some) v

/-- `prevector(n)`: `resize(n)`. -/
def ofCount [Inhabited T] (n : Nat) : Prevector N T := (empty : Prevector N T).resize n

/-- `prevector(n, val)`. -/
def ofCountVal (n : Nat) (val : T) : Prevector N T :=
  let v := (empty : Prevector N T).change_capacity n
  fill (some val) (n - v.size) v

/-- `prevector(first, last)`. -/
def ofRange (xs : List T) : Prevector N T :=
  construct (xs.map some) ((empty : Prevector N T).change_capacity xs.length)

/-- The copy constructor `prevector(other)`. -/
def ofCopy (other : Prevector N T) : Prevector N T :=
  construct other.elems ((empty : Prevector N T).change_capacity other.size)

/-- `swap(other)`: the unions and the sizes trade places; this object's side. -/
def swap (_v other : Prevector N T) : Prevector N T := ⟨other._size, other._union⟩

/-- The move constructor `prevector(other&&)`: `_size(0)`, then `swap(other)`. -/
def ofMove (other : Prevector N T) : Prevector N T := (empty : Prevector N T).swap other

/-- The copy assignment `operator=(other)`. -/
def copyAssign [Inhabited T] (v other : Prevector N T) : Prevector N T :=
  construct other.elems ((v.resize 0).change_capacity other.size)

/-- The move assignment `operator=(other&&)`: `swap(other)`. -/
def moveAssign (v other : Prevector N T) : Prevector N T := v.swap other

/-! ### Inserting -/

/-- The part the inserts share: grow to `new_size + (new_size >> 1)` when the capacity is short,
`memmove` the elements from `p` on `count` places up, `_size += count`. -/
def makeRoom (v : Prevector N T) (p count : Nat) : Prevector N T :=
  let new_size := v.size + count
  let v := if v.capacity < new_size then v.change_capacity (new_size + new_size / 2) else v
  let v := v.moveItems (p + count) p (v.size - p)
  { v with _size := v._size + count }

/-- `insert(pos, value)` with `value` read, as the `const T&` it is, when the new element is
constructed: `value w` is what it refers to in the prevector `w` of that moment. -/
def insertWith (v : Prevector N T) (pos : Nat) (value : Prevector N T → Option T) :
    Prevector N T :=
  let w := v.makeRoom pos 1
  w.putItem pos (value w)

/-- `insert(pos, value)` for a `value` outside the prevector. -/
def insert (v : Prevector N T) (pos : Nat) (value : T) : Prevector N T :=
  v.insertWith pos fun _ => some value

/-- `insert(pos, (*this)[i])`: the reference reads slot `i` of the live buffer.  Not modelled
when the insert reallocates, where the reference is left pointing at freed or overwritten
storage. -/
def insertSelf (v : Prevector N T) (pos i : Nat) : Option (Prevector N T) :=
  if v.capacity < v.size + 1 then none else some (v.insertWith pos fun w => get w.items i)

/-- `insert(pos, count, value)`: `for (i = 0; i < count; i++) new(item_ptr(p + i)) T(value)`. -/
def insertCount (v : Prevector N T) (pos count : Nat) (value : T) : Prevector N T :=
  (v.makeRoom pos count).putRange pos (List.replicate count (some value))

/-- `insert(pos, first, last)`. -/
def insertRange (v : Prevector N T) (pos : Nat) (xs : List T) : Prevector N T :=
  (v.makeRoom pos xs.length).putRange pos (xs.map some)

/-- `push_back(value)`. -/
def push_back (v : Prevector N T) (value : T) : Prevector N T :=
  let new_size := v.size + 1
  let v := if v.capacity < new_size then v.change_capacity (new_size + new_size / 2) else v
  let v := v.putItem v.size (some value)
  { v with _size := v._size + 1 }

/-! ### Comparing -/

/-- The loop of `operator==`: `if ((*b1) != (*b2)) return false;`. -/
def eqLoop [DecidableEq T] : List (Option T) → List (Option T) → Bool
  | s :: ss, t :: ts => if s ≠ t then false else eqLoop ss ts
  | _, _ => true

/-- `operator==`. -/
def beq [DecidableEq T] (v other : Prevector N T) : Bool :=
  if other.size ≠ v.size then false else eqLoop v.elems other.elems

/-- `(*b1) < (*b2)` on two live slots. -/
def slotLt [LT T] [DecidableRel (α := T) (· < ·)] : Option T → Option T → Bool
  | some a, some b => decide (a < b)
  | _, _ => false

/-- The loop of `operator<`. -/
def ltLoop [LT T] [DecidableRel (α := T) (· < ·)] : List (Option T) → List (Option T) → Bool
  | s :: ss, t :: ts => if slotLt s t then true else if slotLt t s then false else ltLoop ss ts
  | _, _ => false

/-- `operator<`: the smaller size first, then the first differing element. -/
def lt [LT T] [DecidableRel (α := T) (· < ·)] (v other : Prevector N T) : Bool :=
  if v.size < other.size then true
  else if v.size > other.size then false
  else ltLoop v.elems other.elems

/-! ### The representation -/

/-- The representation invariant: `N` direct slots, a live buffer of `capacity()` slots, the heap
only above `N`, and `size() ≤ capacity()`. -/
structure Inv (v : Prevector N T) : Prop where
  length_direct : v._union.direct.length = N
  length_items : v.items.length = v.capacity
  lt_capacity : v.is_direct = false → N < v.capacity
  size_le : v.size ≤ v.capacity

/-- The prevector holds what the vector `l` holds: `size()` elements, read off the live slots. -/
def Represents (v : Prevector N T) (l : List T) : Prop := v.size = l.length ∧ Holds v.items l

theorem is_direct_iff (v : Prevector N T) : v.is_direct = true ↔ v._size ≤ N := decide_eq_true_iff

/-- Each mode, as `size()`, `capacity()` and the live buffer read it. -/
theorem mode (v : Prevector N T) :
    (v._size ≤ N ∧ v.is_direct = true ∧ v.size = v._size ∧ v.capacity = N ∧
      v.items = v._union.direct) ∨
    (N < v._size ∧ v.is_direct = false ∧ v.size = v._size - N - 1 ∧
      v.capacity = v._union.capacity ∧ v.items = v._union.indirect) := by
  by_cases h : v._size ≤ N
  · have hd : v.is_direct = true := (is_direct_iff v).mpr h
    exact .inl ⟨h, hd, by simp [size, hd], by simp [capacity, hd], by simp [items, hd]⟩
  · have hd : v.is_direct = false := by simpa [is_direct] using h
    exact .inr ⟨by omega, hd, by simp [size, hd], by simp [capacity, hd], by simp [items, hd]⟩

/-! ### Writes through `item_ptr` -/

section setItems

variable (v : Prevector N T) (f : List (Option T) → List (Option T))

@[simp] theorem setItems_size_raw : (v.setItems f)._size = v._size := by
  unfold setItems; split <;> rfl

@[simp] theorem setItems_is_direct : (v.setItems f).is_direct = v.is_direct := by
  simp only [is_direct, setItems_size_raw]

@[simp] theorem setItems_size : (v.setItems f).size = v.size := by
  simp only [size, setItems_is_direct, setItems_size_raw]

theorem setItems_union_capacity : (v.setItems f)._union.capacity = v._union.capacity := by
  unfold setItems; split <;> rfl

@[simp] theorem setItems_capacity : (v.setItems f).capacity = v.capacity := by
  simp only [capacity, setItems_is_direct, setItems_union_capacity]

@[simp] theorem setItems_items : (v.setItems f).items = f v.items := by
  cases hd : v.is_direct
  · simp only [items, setItems_is_direct, hd]
    simp [setItems, hd]
  · simp only [items, setItems_is_direct, hd]
    simp [setItems, hd]

theorem setItems_inv {v : Prevector N T} {f : List (Option T) → List (Option T)} (hv : Inv v)
    (hf : ∀ b, (f b).length = b.length) : Inv (v.setItems f) where
  length_direct := by
    unfold setItems; split
    · rw [hf]; exact hv.length_direct
    · exact hv.length_direct
  length_items := by rw [setItems_items, hf, setItems_capacity]; exact hv.length_items
  lt_capacity := by rw [setItems_is_direct, setItems_capacity]; exact hv.lt_capacity
  size_le := by rw [setItems_size, setItems_capacity]; exact hv.size_le

end setItems

/-! ### `_size++` -/

/-- `_size += k` within the capacity keeps the mode and grows `size()` by `k`. -/
theorem bump {v : Prevector N T} {k : Nat} (hk : v.size + k ≤ v.capacity) :
    ({ v with _size := v._size + k } : Prevector N T).is_direct = v.is_direct ∧
    ({ v with _size := v._size + k } : Prevector N T).size = v.size + k ∧
    ({ v with _size := v._size + k } : Prevector N T).capacity = v.capacity ∧
    ({ v with _size := v._size + k } : Prevector N T).items = v.items := by
  rcases mode v with ⟨h, hd, hs, hc, hi⟩ | ⟨h, hd, hs, hc, hi⟩
  · have hd' : ({ v with _size := v._size + k } : Prevector N T).is_direct = true :=
      (is_direct_iff _).mpr (by simp only; omega)
    refine ⟨by rw [hd, hd'], ?_, ?_, ?_⟩ <;> simp [size, capacity, items, hd, hd']
  · have hd' : ({ v with _size := v._size + k } : Prevector N T).is_direct = false := by
      simp only [is_direct, decide_eq_false_iff_not]; omega
    refine ⟨by rw [hd, hd'], ?_, ?_, ?_⟩ <;> simp [size, capacity, items, hd, hd']
    simp only [size, hd] at hs ⊢
    omega

theorem bump_inv {v : Prevector N T} (hv : Inv v) {k : Nat} (hk : v.size + k ≤ v.capacity) :
    Inv ({ v with _size := v._size + k } : Prevector N T) := by
  obtain ⟨hd, hs, hc, hi⟩ := bump hk
  exact ⟨hv.length_direct, by rw [hi, hc]; exact hv.length_items,
    by rw [hd, hc]; exact hv.lt_capacity, by rw [hs, hc]; exact hk⟩

/-! ### `change_capacity` -/

/-- `change_capacity(c)` for `c ≥ size()`: the elements stay in their slots, in whichever buffer
is now live, and `capacity()` becomes `max N c`. -/
theorem change_capacity_spec {v : Prevector N T} (hv : Inv v) {c : Nat} (hc : v.size ≤ c) :
    Inv (v.change_capacity c) ∧ (v.change_capacity c).size = v.size ∧
    (v.change_capacity c).capacity = max N c ∧
    ∀ j < v.size, get (v.change_capacity c).items j = get v.items j := by
  have hlen := hv.length_items
  have hdir := hv.length_direct
  unfold change_capacity
  rcases mode v with ⟨h, hd, hs, hcap, hi⟩ | ⟨h, hd, hs, hcap, hi⟩
  · by_cases hcN : c ≤ N
    · -- direct, and it stays so
      rw [if_pos hcN, hd, Bool.not_true, if_neg Bool.false_ne_true]
      exact ⟨hv, rfl, by rw [hcap]; omega, fun _ _ => rfl⟩
    · -- direct to the heap: `malloc(c)`, `memcpy` of the `size()` elements
      rw [if_neg hcN, hd, Bool.not_true, if_neg Bool.false_ne_true]
      rcases mode ({ _size := v._size + (N + 1), _union := { v._union with
          indirect := memcpy (alloc c) v._union.direct v.size, capacity := c } } : Prevector N T)
        with ⟨h', -⟩ | ⟨-, hd', hs', hcap', hi'⟩
      · simp only at h'; omega
      · simp only at hs' hcap' hi'
        refine ⟨⟨hdir, ?_, fun _ => by rw [hcap']; omega, ?_⟩, by rw [hs', hs]; omega, ?_, ?_⟩
        · rw [hi', hcap', length_memcpy, length_alloc]
        · rw [hs', hcap']; omega
        · rw [hcap']; omega
        · intro j hj
          rw [hi', get_memcpy _ (by rw [length_alloc]; omega), if_pos hj, hi]
  · by_cases hcN : c ≤ N
    · -- the heap back to direct: `memcpy` into the direct slots
      rw [if_pos hcN, hd, Bool.not_false, if_pos rfl]
      rcases mode ({ _size := v._size - (N + 1), _union := { v._union with
          direct := memcpy v._union.direct v._union.indirect v.size } } : Prevector N T)
        with ⟨-, hd', hs', hcap', hi'⟩ | ⟨h', -⟩
      · simp only at hs' hcap' hi'
        refine ⟨⟨by simp [hdir], ?_, fun h => by simp [hd'] at h, ?_⟩, by rw [hs', hs]; omega,
          by rw [hcap']; omega, ?_⟩
        · rw [hi', hcap', length_memcpy, hdir]
        · rw [hs', hcap']; omega
        · intro j hj
          rw [hi', get_memcpy _ (by omega), if_pos hj, hi]
      · simp only at h'; omega
    · -- the heap stays: `realloc(c)`
      rw [if_neg hcN, hd, Bool.not_false, if_pos rfl]
      rcases mode ({ v with _union := { v._union with
          indirect := realloc v._union.indirect c, capacity := c } } : Prevector N T)
        with ⟨h', -⟩ | ⟨-, hd', hs', hcap', hi'⟩
      · simp only at h'; omega
      · simp only at hs' hcap' hi'
        refine ⟨⟨hdir, ?_, fun _ => by rw [hcap']; omega, ?_⟩, by rw [hs', hs], ?_, ?_⟩
        · rw [hi', hcap', length_realloc]
        · rw [hs', hcap']; omega
        · rw [hcap']; omega
        · intro j hj
          rw [hi', get_realloc, if_pos (by omega), hi]

/-! ### Constructing into slots and moving them -/

theorem putItem_spec {v : Prevector N T} (hv : Inv v) {pos : Nat} (hpos : pos < v.capacity)
    (s : Option T) :
    Inv (v.putItem pos s) ∧ (v.putItem pos s).size = v.size ∧
    (v.putItem pos s).capacity = v.capacity ∧
    ∀ j, get (v.putItem pos s).items j = if pos = j then s else get v.items j :=
  ⟨setItems_inv hv fun b => length_put b pos s, setItems_size _ _, setItems_capacity _ _,
    fun j => by rw [putItem, setItems_items, get_put _ _ (by rw [hv.length_items]; exact hpos)]⟩

theorem moveItems_spec {v : Prevector N T} (hv : Inv v) {dst n : Nat} (src : Nat)
    (hn : dst + n ≤ v.capacity) :
    Inv (v.moveItems dst src n) ∧ (v.moveItems dst src n).size = v.size ∧
    (v.moveItems dst src n).capacity = v.capacity ∧
    ∀ j, get (v.moveItems dst src n).items j =
      if dst ≤ j ∧ j < dst + n then get v.items (src + (j - dst)) else get v.items j :=
  ⟨setItems_inv hv fun b => length_memmove b dst src n, setItems_size _ _, setItems_capacity _ _,
    fun j => by
      rw [moveItems, setItems_items, get_memmove _ _ (by rw [hv.length_items]; exact hn)]⟩

/-- The construction loops: `size()` grows by one per element, constructed at the new end. -/
theorem construct_spec : ∀ (ss : List (Option T)) (v : Prevector N T), Inv v →
    v.size + ss.length ≤ v.capacity →
    Inv (construct ss v) ∧ (construct ss v).size = v.size + ss.length ∧
    (construct ss v).capacity = v.capacity ∧
    ∀ j, get (construct ss v).items j =
      if v.size ≤ j ∧ j < v.size + ss.length then get ss (j - v.size) else get v.items j
  | [], v, hv, _ => ⟨hv, rfl, rfl, fun j => by rw [if_neg (by simp)]; rfl⟩
  | s :: ss, v, hv, hk => by
    have hk1 : v.size + 1 ≤ v.capacity := by simp at hk; omega
    obtain ⟨-, hs, hc, hi⟩ := bump hk1
    obtain ⟨hu, hus, huc, hug⟩ := putItem_spec (bump_inv hv hk1)
      (show ({ v with _size := v._size + 1 } : Prevector N T).size - 1 < _ by omega) s
    obtain ⟨h1, h2, h3, h4⟩ := construct_spec ss _ hu (by simp at hk; omega)
    simp only [construct]
    refine ⟨h1, by rw [h2, hus, hs, List.length_cons]; omega, by rw [h3, huc, hc], fun j => ?_⟩
    rw [h4, hug, hi, hus, hs, List.length_cons]
    -- the element lands at the old end `size()`; the rest follow it
    rcases Nat.lt_trichotomy j v.size with h | rfl | h
    · simp (disch := omega) only [if_neg]
    · simp (disch := omega) only [if_neg, if_pos, Nat.sub_self, get_cons_zero]
    · rw [show j - v.size = j - (v.size + 1) + 1 by omega, get_cons_succ]
      simp (disch := omega) only [if_neg]
      by_cases hj : j < v.size + 1 + ss.length
      · rw [if_pos ⟨by omega, hj⟩, if_pos ⟨by omega, by omega⟩]
      · rw [if_neg (by omega), if_neg (by omega)]

/-- `fill` is `construct` of `k` copies. -/
theorem fill_eq_construct (val : Option T) :
    ∀ (k : Nat) (v : Prevector N T), fill val k v = construct (List.replicate k val) v
  | 0, _ => rfl
  | k + 1, v => by rw [fill, fill_eq_construct val k, List.replicate_succ, construct]

theorem putRange_spec : ∀ (ss : List (Option T)) (p : Nat) (v : Prevector N T), Inv v →
    p + ss.length ≤ v.capacity →
    Inv (putRange p ss v) ∧ (putRange p ss v).size = v.size ∧
    (putRange p ss v).capacity = v.capacity ∧
    ∀ j, get (putRange p ss v).items j =
      if p ≤ j ∧ j < p + ss.length then get ss (j - p) else get v.items j
  | [], _, v, hv, _ => ⟨hv, rfl, rfl, fun j => by rw [if_neg (by simp)]; rfl⟩
  | s :: ss, p, v, hv, hk => by
    obtain ⟨hu, hus, huc, hug⟩ := putItem_spec hv (show p < _ by simp at hk; omega) s
    obtain ⟨h1, h2, h3, h4⟩ := putRange_spec ss (p + 1) _ hu (by simp at hk; omega)
    simp only [putRange]
    refine ⟨h1, by rw [h2, hus], by rw [h3, huc], fun j => ?_⟩
    rw [h4, hug, List.length_cons]
    rcases Nat.lt_trichotomy j p with h | rfl | h
    · simp (disch := omega) only [if_neg]
    · simp (disch := omega) only [if_neg, if_pos, Nat.sub_self, get_cons_zero, ↓reduceIte]
    · rw [show j - p = j - (p + 1) + 1 by omega, get_cons_succ]
      simp (disch := omega) only [if_neg]
      by_cases hj : j < p + 1 + ss.length
      · rw [if_pos ⟨by omega, hj⟩, if_pos ⟨by omega, by omega⟩]
      · rw [if_neg (by omega), if_neg (by omega)]

/-- `_size -= k` for `k ≤ size()` keeps the mode. -/
theorem unbump {v : Prevector N T} {k : Nat} (hk : k ≤ v.size) :
    ({ v with _size := v._size - k } : Prevector N T).is_direct = v.is_direct ∧
    ({ v with _size := v._size - k } : Prevector N T).size = v.size - k ∧
    ({ v with _size := v._size - k } : Prevector N T).capacity = v.capacity ∧
    ({ v with _size := v._size - k } : Prevector N T).items = v.items := by
  rcases mode v with ⟨h, hd, hs, hc, hi⟩ | ⟨h, hd, hs, hc, hi⟩
  · have hd' : ({ v with _size := v._size - k } : Prevector N T).is_direct = true :=
      (is_direct_iff _).mpr (by simp only; omega)
    refine ⟨by rw [hd, hd'], ?_, ?_, ?_⟩ <;> simp [size, capacity, items, hd, hd']
  · have hd' : ({ v with _size := v._size - k } : Prevector N T).is_direct = false := by
      simp only [is_direct, decide_eq_false_iff_not]; omega
    refine ⟨by rw [hd, hd'], ?_, ?_, ?_⟩ <;> simp [size, capacity, items, hd, hd']
    simp only [size, hd] at hs hk ⊢
    omega

theorem unbump_inv {v : Prevector N T} (hv : Inv v) {k : Nat} (hk : k ≤ v.size) :
    Inv ({ v with _size := v._size - k } : Prevector N T) := by
  obtain ⟨hd, hs, hc, hi⟩ := unbump hk
  exact ⟨hv.length_direct, by rw [hi, hc]; exact hv.length_items,
    by rw [hd, hc]; exact hv.lt_capacity, by rw [hs, hc]; have := hv.size_le; omega⟩

/-- `erase(first, last)` shifts the elements from `last` on down to `first`. -/
theorem erase_spec {v : Prevector N T} (hv : Inv v) {first last : Nat} (hft : first ≤ last)
    (hl : last ≤ v.size) :
    Inv (v.erase first last) ∧ (v.erase first last).size = v.size - (last - first) ∧
    (v.erase first last).capacity = v.capacity ∧
    ∀ j < v.size - (last - first), get (v.erase first last).items j =
      if j < first then get v.items j else get v.items (j + (last - first)) := by
  obtain ⟨hu, hus, huc, hug⟩ := moveItems_spec hv last
    (show first + (v.size - last) ≤ _ by have := hv.size_le; omega)
  have heq : v.erase first last = { v.moveItems first last (v.size - last) with
      _size := (v.moveItems first last (v.size - last))._size - (last - first) } := by
    simp only [erase, moveItems, setItems_size_raw]
  obtain ⟨-, hs, hc, hi⟩ := unbump (v := v.moveItems first last (v.size - last))
    (k := last - first) (by omega)
  rw [heq]
  refine ⟨unbump_inv hu (by omega), by rw [hs, hus], by rw [hc, huc], fun j hj => ?_⟩
  rw [hi, hug]
  by_cases hjf : j < first
  · rw [if_neg (by omega), if_pos hjf]
  · rw [if_pos ⟨by omega, by omega⟩, if_neg hjf]
    congr 1
    omega

/-- The growth step of the inserts and `push_back`: after it `new_size` elements fit. -/
theorem grow_spec {v : Prevector N T} (hv : Inv v) {new_size : Nat} (hn : v.size ≤ new_size) :
    let u := if v.capacity < new_size then v.change_capacity (new_size + new_size / 2) else v
    Inv u ∧ u.size = v.size ∧ new_size ≤ u.capacity ∧ ∀ j < v.size, get u.items j = get v.items j := by
  intro u
  by_cases hc : v.capacity < new_size
  · obtain ⟨h1, h2, h3, h4⟩ := change_capacity_spec hv (c := new_size + new_size / 2) (by omega)
    have hu : u = v.change_capacity (new_size + new_size / 2) := if_pos hc
    rw [hu]
    exact ⟨h1, h2, by rw [h3]; omega, h4⟩
  · have hu : u = v := if_neg hc
    rw [hu]
    exact ⟨hv, rfl, by omega, fun _ _ => rfl⟩

/-- The room the inserts make: `count` free slots at `p`, the elements before `p` where they were,
the ones from `p` on `count` places up. -/
theorem makeRoom_spec {v : Prevector N T} (hv : Inv v) {p : Nat} (hp : p ≤ v.size) (count : Nat) :
    Inv (v.makeRoom p count) ∧ (v.makeRoom p count).size = v.size + count ∧
    (∀ j < p + count, j < v.size → get (v.makeRoom p count).items j = get v.items j) ∧
    ∀ j, p + count ≤ j → j < v.size + count →
      get (v.makeRoom p count).items j = get v.items (j - count) := by
  obtain ⟨hu, hus, huc, hug⟩ := grow_spec hv (Nat.le_add_right v.size count)
  generalize hU : (if v.capacity < v.size + count then
    v.change_capacity (v.size + count + (v.size + count) / 2) else v) = u at hu hus huc hug
  obtain ⟨hm, hms, hmc, hmg⟩ := moveItems_spec hu p
    (show p + count + (u.size - p) ≤ _ by omega)
  obtain ⟨-, hs, -, hi⟩ := bump (v := u.moveItems (p + count) p (u.size - p)) (k := count)
    (by omega)
  have heq : v.makeRoom p count = { u.moveItems (p + count) p (u.size - p) with
      _size := (u.moveItems (p + count) p (u.size - p))._size + count } := by
    rw [← hU]
    rfl
  rw [heq]
  refine ⟨bump_inv hm (by omega), by rw [hs, hms, hus], fun j hj hjs => ?_, fun j hj1 hj2 => ?_⟩
  · rw [hi, hmg, if_neg (by omega), hug j hjs]
  · rw [hi, hmg, if_pos ⟨hj1, by omega⟩, show p + (j - (p + count)) = j - count by omega,
      hug _ (by omega)]

/-! ### What the vector holds -/

/-- What the elements read as a list, the uninitialised slots of a broken prevector skipped. -/
def toList (v : Prevector N T) : List T := v.elems.reduceOption

theorem represents_iff_elems {v : Prevector N T} {l : List T} :
    Represents v l ↔ v.elems = l.map some := by
  constructor
  · rintro ⟨hs, hh⟩
    apply List.ext_getElem (by simp [elems, hs])
    intro i h1 h2
    rw [List.length_map] at h2
    simp only [elems, List.getElem_map, List.getElem_range]
    rw [hh i h2, List.getElem?_eq_getElem h2]
  · intro h
    have hs : v.size = l.length := by simpa [elems] using congrArg List.length h
    refine ⟨hs, fun i hi => ?_⟩
    have := congrArg (·[i]?) h
    simp only [elems, List.getElem?_map, List.getElem?_range (by omega : i < v.size)] at this
    rw [List.getElem?_eq_getElem hi] at this ⊢
    simpa using this

theorem reduceOption_map_some (l : List T) : (l.map some).reduceOption = l := by
  induction l with
  | nil => rfl
  | cons x l ih => rw [List.map_cons, List.reduceOption_cons_of_some, ih]

theorem toList_eq {v : Prevector N T} {l : List T} (h : Represents v l) : v.toList = l := by
  rw [toList, represents_iff_elems.mp h, reduceOption_map_some]

/-- The same `size()` and the same first `size()` slots hold the same list. -/
theorem represents_of_slots {v w : Prevector N T} {l : List T} (h : Represents v l)
    (hs : w.size = v.size) (hg : ∀ j < v.size, get w.items j = get v.items j) : Represents w l :=
  ⟨by rw [hs, h.1], fun i hi => by rw [hg i (by rw [h.1]; exact hi)]; exact h.2 i hi⟩

theorem change_capacity_represents {v : Prevector N T} (hv : Inv v) {l : List T}
    (h : Represents v l) {c : Nat} (hc : v.size ≤ c) : Represents (v.change_capacity c) l :=
  have ⟨_, hs, _, hg⟩ := change_capacity_spec hv hc
  represents_of_slots h hs hg

theorem construct_represents {v : Prevector N T} (hv : Inv v) {l : List T}
    (h : Represents v l) (xs : List T) (hk : v.size + xs.length ≤ v.capacity) :
    Inv (construct (xs.map some) v) ∧ Represents (construct (xs.map some) v) (l ++ xs) := by
  obtain ⟨h1, h2, -, h4⟩ := construct_spec (xs.map some) v hv (by rw [List.length_map]; exact hk)
  refine ⟨h1, by rw [h2, h.1, List.length_map, List.length_append], fun i hi => ?_⟩
  rw [h4, List.length_map, h.1, get_map_some]
  by_cases hil : i < l.length
  · rw [if_neg (by omega), List.getElem?_append_left hil]
    exact h.2 i hil
  · rw [List.length_append] at hi
    rw [if_pos ⟨by omega, by omega⟩, List.getElem?_append_right (by omega)]

theorem fill_represents {v : Prevector N T} (hv : Inv v) {l : List T}
    (h : Represents v l) (x : T) (k : Nat) (hk : v.size + k ≤ v.capacity) :
    Inv (fill (some x) k v) ∧ Represents (fill (some x) k v) (l ++ List.replicate k x) := by
  rw [fill_eq_construct, ← List.map_replicate]
  exact construct_represents hv h _ (by rw [List.length_replicate]; exact hk)

theorem erase_represents {v : Prevector N T} (hv : Inv v) {l : List T} (h : Represents v l)
    {first last : Nat} (hft : first ≤ last) (hl : last ≤ l.length) :
    Inv (v.erase first last) ∧ Represents (v.erase first last) (l.take first ++ l.drop last) := by
  obtain ⟨h1, h2, -, h4⟩ := erase_spec hv hft (by rw [h.1]; exact hl)
  have hlen : (l.take first ++ l.drop last).length = l.length - (last - first) := by
    simp only [List.length_append, List.length_take, List.length_drop]; omega
  refine ⟨h1, by rw [h2, hlen, h.1], fun i hi => ?_⟩
  rw [hlen] at hi
  rw [h4 i (by rw [h.1]; exact hi), getElem?_cut l hft hl]
  by_cases hif : i < first
  · rw [if_pos hif, if_pos hif]
    exact h.2 i (by omega)
  · rw [if_neg hif, if_neg hif]
    exact h.2 _ (by omega)

/-- The three inserts: room for `xs` at `p`, then `xs` constructed into it. -/
theorem splice_represents {v : Prevector N T} (hv : Inv v) {l : List T} (h : Represents v l)
    {p : Nat} (hp : p ≤ l.length) (xs : List T) :
    Inv ((v.makeRoom p xs.length).putRange p (xs.map some)) ∧
    Represents ((v.makeRoom p xs.length).putRange p (xs.map some)) (l.take p ++ xs ++ l.drop p) := by
  obtain ⟨hm, hms, hlo, hhi⟩ := makeRoom_spec hv (p := p) (by rw [h.1]; exact hp) xs.length
  obtain ⟨h1, h2, -, h4⟩ := putRange_spec (xs.map some) p _ hm
    (by rw [List.length_map]; have := hm.size_le; have := h.1; omega)
  have hlen : (l.take p ++ xs ++ l.drop p).length = l.length + xs.length := by
    simp only [List.length_append, List.length_take, List.length_drop]; omega
  refine ⟨h1, by rw [h2, hms, hlen, h.1], fun i hi => ?_⟩
  rw [hlen] at hi
  rw [h4, List.length_map, get_map_some, getElem?_splice l xs hp]
  by_cases hip : i < p
  · rw [if_neg (by omega), if_pos hip, hlo i (by omega) (by rw [h.1]; omega)]
    exact h.2 i (by omega)
  · by_cases hix : i < p + xs.length
    · rw [if_pos ⟨by omega, hix⟩, if_neg hip, if_pos hix]
    · rw [if_neg (by omega), if_neg hip, if_neg hix, hhi i (by omega) (by rw [h.1]; omega)]
      exact h.2 _ (by omega)

/-! ### Each operator -/

section operators

variable {v : Prevector N T} {l : List T}

theorem empty_spec : Inv (empty : Prevector N T) ∧ Represents (empty : Prevector N T) [] := by
  have hd : (empty : Prevector N T).is_direct = true := (is_direct_iff _).mpr (Nat.zero_le N)
  have hs : (empty : Prevector N T).size = 0 := by rw [size, hd]; rfl
  have hc : (empty : Prevector N T).capacity = N := by rw [capacity, hd]; rfl
  have hi : (empty : Prevector N T).items = alloc N := by rw [items, hd]; rfl
  refine ⟨⟨length_alloc N, by rw [hi, hc, length_alloc], fun h => ?_, by omega⟩, hs,
    fun i hi' => absurd hi' (Nat.not_lt_zero i)⟩
  rw [hd] at h
  cases h

theorem push_back_spec (hv : Inv v) (h : Represents v l) (value : T) :
    Inv (v.push_back value) ∧ Represents (v.push_back value) (l ++ [value]) := by
  obtain ⟨hu, hus, huc, hug⟩ := grow_spec hv (Nat.le_add_right v.size 1)
  generalize hU : (if v.capacity < v.size + 1 then
    v.change_capacity (v.size + 1 + (v.size + 1) / 2) else v) = u at hu hus huc hug
  obtain ⟨hp, hps, hpc, hpg⟩ := putItem_spec hu (show u.size < _ by omega) (some value)
  obtain ⟨-, hs, -, hi⟩ := bump (v := u.putItem u.size (some value)) (k := 1) (by omega)
  have heq : v.push_back value = { u.putItem u.size (some value) with
      _size := (u.putItem u.size (some value))._size + 1 } := by
    rw [← hU]
    rfl
  rw [heq]
  refine ⟨bump_inv hp (by omega), by rw [hs, hps, hus, h.1, List.length_append]; rfl,
    fun i hi' => ?_⟩
  rw [hi, hpg]
  rw [List.length_append, List.length_singleton] at hi'
  by_cases hil : i < l.length
  · rw [if_neg (by rw [hus, h.1]; omega), hug i (by rw [h.1]; exact hil),
      List.getElem?_append_left hil]
    exact h.2 i hil
  · rw [if_pos (by rw [hus, h.1]; omega), List.getElem?_append_right (by omega),
      show i - l.length = 0 by omega]
    rfl

theorem resize_spec [Inhabited T] (hv : Inv v) (h : Represents v l) (n : Nat) :
    Inv (v.resize n) ∧ Represents (v.resize n) (l.take n ++ List.replicate (n - l.length) default) := by
  -- first `erase(item_ptr(n), end())` when shrinking
  have hcut : ∃ u : Prevector N T, (if v.size > n then v.erase n v.size else v) = u ∧ Inv u ∧
      Represents u (l.take n) := by
    by_cases hgt : v.size > n
    · obtain ⟨h1, h2⟩ := erase_represents hv h (show n ≤ v.size by omega)
        (Nat.le_of_eq h.1)
      have hdrop : l.drop v.size = [] := by rw [h.1, List.drop_length]
      refine ⟨_, if_pos hgt, h1, ?_⟩
      rwa [hdrop, List.append_nil] at h2
    · refine ⟨v, if_neg hgt, hv, ?_⟩
      rwa [List.take_of_length_le (by rw [← h.1]; omega)]
  obtain ⟨u, hu, hui, hur⟩ := hcut
  -- then `change_capacity(n)` when `n` does not fit
  have hgrow : ∃ w : Prevector N T, (if n > u.capacity then u.change_capacity n else u) = w ∧
      Inv w ∧ Represents w (l.take n) ∧ n ≤ w.capacity := by
    have hun : u.size ≤ n := by rw [hur.1, List.length_take]; omega
    by_cases hc : n > u.capacity
    · obtain ⟨h1, -, h3, -⟩ := change_capacity_spec hui hun
      exact ⟨_, if_pos hc, h1, change_capacity_represents hui hur hun, by rw [h3]; omega⟩
    · exact ⟨u, if_neg hc, hui, hur, by omega⟩
  obtain ⟨w, hw, hwi, hwr, hwc⟩ := hgrow
  have heq : v.resize n = fill (some default) (n - w.size) w := by
    rw [← hw, ← hu]
    rfl
  rw [heq, hwr.1, List.length_take, show n - min n l.length = n - l.length by omega]
  exact fill_represents hwi hwr default (n - l.length) (by rw [hwr.1, List.length_take]; omega)

theorem clear_spec [Inhabited T] (hv : Inv v) (h : Represents v l) :
    Inv v.clear ∧ Represents v.clear [] := by
  have := resize_spec hv h 0
  rwa [List.take_zero, Nat.zero_sub, List.replicate_zero, List.append_nil] at this

theorem reserve_spec (hv : Inv v) (h : Represents v l) (n : Nat) :
    Inv (v.reserve n) ∧ Represents (v.reserve n) l := by
  unfold reserve
  split_ifs with hc
  · have hn : v.size ≤ n := by have := hv.size_le; omega
    exact ⟨(change_capacity_spec hv hn).1, change_capacity_represents hv h hn⟩
  · exact ⟨hv, h⟩

theorem shrink_to_fit_spec (hv : Inv v) (h : Represents v l) :
    Inv v.shrink_to_fit ∧ Represents v.shrink_to_fit l :=
  ⟨(change_capacity_spec hv (Nat.le_refl _)).1, change_capacity_represents hv h (Nat.le_refl _)⟩

/-- After `clear()` or on a new prevector: `change_capacity(c)` when `n` elements do not fit, as
`assign`, the constructors and the copy assignment do before constructing their elements. -/
theorem prepare_spec {u : Prevector N T} (hu : Inv u) (h : Represents u []) (n c : Nat)
    (hc : n ≤ max N c) :
    let w := if u.capacity < n then u.change_capacity c else u
    Inv w ∧ Represents w [] ∧ n ≤ w.capacity := by
  intro w
  have h0 : u.size = 0 := h.1
  by_cases hlt : u.capacity < n
  · obtain ⟨h1, -, h3, -⟩ := change_capacity_spec hu (c := c) (by omega)
    have hw : w = u.change_capacity c := if_pos hlt
    rw [hw]
    exact ⟨h1, change_capacity_represents hu h (by omega), by rw [h3]; exact hc⟩
  · have hw : w = u := if_neg hlt
    rw [hw]
    exact ⟨hu, h, by omega⟩

theorem assign_spec [Inhabited T] (hv : Inv v) (h : Represents v l) (n : Nat) (val : T) :
    Inv (v.assign n val) ∧ Represents (v.assign n val) (List.replicate n val) := by
  obtain ⟨hu, hur⟩ := clear_spec hv h
  obtain ⟨hw, hwr, hwc⟩ := prepare_spec hu hur n n (Nat.le_max_right N n)
  have := fill_represents hw hwr val n (by rw [hwr.1]; simpa using hwc)
  rw [List.nil_append] at this
  unfold assign
  dsimp only
  rwa [hwr.1, List.length_nil, Nat.sub_zero]

theorem assignRange_spec [Inhabited T] (hv : Inv v) (h : Represents v l) (xs : List T) :
    Inv (v.assignRange xs) ∧ Represents (v.assignRange xs) xs := by
  obtain ⟨hu, hur⟩ := clear_spec hv h
  obtain ⟨hw, hwr, hwc⟩ := prepare_spec hu hur xs.length xs.length (Nat.le_max_right N _)
  have := construct_represents hw hwr xs (by rw [hwr.1]; simpa using hwc)
  rwa [List.nil_append] at this

theorem ofCount_spec [Inhabited T] (n : Nat) :
    Inv (ofCount n : Prevector N T) ∧ Represents (ofCount n : Prevector N T) (List.replicate n default) := by
  have := resize_spec (empty_spec (N := N) (T := T)).1 empty_spec.2 n
  rwa [List.take_nil, List.nil_append, List.length_nil, Nat.sub_zero] at this

/-- A new prevector after `change_capacity(n)`, ready for `n` elements. -/
theorem empty_change_capacity (n : Nat) :
    Inv ((empty : Prevector N T).change_capacity n) ∧
    Represents ((empty : Prevector N T).change_capacity n) [] ∧
    n ≤ ((empty : Prevector N T).change_capacity n).capacity := by
  have h0 : (empty : Prevector N T).size = 0 := empty_spec.2.1
  obtain ⟨h1, -, h3, -⟩ := change_capacity_spec empty_spec.1 (c := n) (by rw [h0]; omega)
  exact ⟨h1, change_capacity_represents empty_spec.1 empty_spec.2 (by rw [h0]; omega),
    by rw [h3]; omega⟩

theorem ofCountVal_spec (n : Nat) (val : T) :
    Inv (ofCountVal n val : Prevector N T) ∧
    Represents (ofCountVal n val : Prevector N T) (List.replicate n val) := by
  obtain ⟨hw, hwr, hwc⟩ := empty_change_capacity (N := N) (T := T) n
  have := fill_represents hw hwr val n (by rw [hwr.1]; simpa using hwc)
  rw [List.nil_append] at this
  unfold ofCountVal
  dsimp only
  rwa [hwr.1, List.length_nil, Nat.sub_zero]

theorem ofRange_spec (xs : List T) :
    Inv (ofRange xs : Prevector N T) ∧ Represents (ofRange xs : Prevector N T) xs := by
  obtain ⟨hw, hwr, hwc⟩ := empty_change_capacity (N := N) (T := T) xs.length
  have := construct_represents hw hwr xs (by rw [hwr.1]; simpa using hwc)
  rwa [List.nil_append] at this

theorem ofCopy_spec {other : Prevector N T} {m : List T} (ho : Represents other m) :
    Inv (ofCopy other) ∧ Represents (ofCopy other) m := by
  obtain ⟨hw, hwr, hwc⟩ := empty_change_capacity (N := N) (T := T) other.size
  have := construct_represents hw hwr m (by rw [hwr.1, ← ho.1]; simpa using hwc)
  rw [List.nil_append] at this
  rwa [ofCopy, represents_iff_elems.mp ho]

/-- The move constructor and the move assignment take over `other`'s representation whole. -/
theorem ofMove_eq (other : Prevector N T) : ofMove other = other := rfl

theorem moveAssign_eq (other : Prevector N T) : v.moveAssign other = other := rfl

theorem copyAssign_spec [Inhabited T] (hv : Inv v) (h : Represents v l) {other : Prevector N T}
    {m : List T} (ho : Represents other m) :
    Inv (v.copyAssign other) ∧ Represents (v.copyAssign other) m := by
  obtain ⟨hu, hur⟩ := clear_spec hv h
  have h0 : v.clear.size = 0 := hur.1
  obtain ⟨h1, -, h3, -⟩ := change_capacity_spec hu (c := other.size) (by rw [h0]; omega)
  have hwr := change_capacity_represents hu hur (c := other.size) (by rw [h0]; omega)
  have := construct_represents h1 hwr m
    (by rw [hwr.1, h3, ← ho.1, List.length_nil, Nat.zero_add]; exact Nat.le_max_right _ _)
  rw [List.nil_append] at this
  rwa [copyAssign, represents_iff_elems.mp ho]

theorem insert_spec (hv : Inv v) (h : Represents v l) {pos : Nat} (hp : pos ≤ l.length)
    (value : T) :
    Inv (v.insert pos value) ∧ Represents (v.insert pos value) (l.take pos ++ [value] ++ l.drop pos) :=
  splice_represents hv h hp [value]

theorem insertCount_spec (hv : Inv v) (h : Represents v l) {pos : Nat} (hp : pos ≤ l.length)
    (count : Nat) (value : T) :
    Inv (v.insertCount pos count value) ∧
    Represents (v.insertCount pos count value)
      (l.take pos ++ List.replicate count value ++ l.drop pos) := by
  have := splice_represents hv h hp (List.replicate count value)
  rwa [List.length_replicate, List.map_replicate] at this

theorem insertRange_spec (hv : Inv v) (h : Represents v l) {pos : Nat} (hp : pos ≤ l.length)
    (xs : List T) :
    Inv (v.insertRange pos xs) ∧ Represents (v.insertRange pos xs) (l.take pos ++ xs ++ l.drop pos) :=
  splice_represents hv h hp xs

theorem erase1_spec (hv : Inv v) (h : Represents v l) {pos : Nat} (hp : pos < l.length) :
    Inv (v.erase1 pos) ∧ Represents (v.erase1 pos) (l.take pos ++ l.drop (pos + 1)) :=
  erase_represents hv h (Nat.le_succ pos) hp

theorem pop_back_spec (hv : Inv v) (h : Represents v l) :
    Inv v.pop_back ∧ Represents v.pop_back l.dropLast := by
  have := erase_represents hv h (Nat.sub_le v.size 1) (Nat.le_of_eq h.1)
  have hdrop : l.drop v.size = [] := by rw [h.1, List.drop_length]
  have htake : l.take (v.size - 1) = l.dropLast := by rw [h.1, List.dropLast_eq_take]
  rwa [hdrop, List.append_nil, htake] at this

/-- `insert(pos, (*this)[i])` without a reallocation constructs the element the reference
points at once the `memmove` has run: element `i` if `i ≤ pos`, element `i - 1` otherwise. -/
theorem insertSelf_spec (hv : Inv v) (h : Represents v l) {pos i : Nat} (hp : pos ≤ l.length)
    (hi : i < l.length) (hcap : v.size + 1 ≤ v.capacity) {x : T}
    (hx : l[if i ≤ pos then i else i - 1]? = some x) :
    ∃ w, v.insertSelf pos i = some w ∧ Inv w ∧ Represents w (l.take pos ++ [x] ++ l.drop pos) := by
  obtain ⟨-, -, hlo, hhi⟩ := makeRoom_spec hv (p := pos) (by rw [h.1]; exact hp) 1
  have hread : get (v.makeRoom pos 1).items i = some x := by
    rw [← hx]
    by_cases hip : i ≤ pos
    · rw [if_pos hip, hlo i (by omega) (by rw [h.1]; exact hi)]
      exact h.2 i hi
    · rw [if_neg hip, hhi i (by omega) (by rw [h.1]; omega)]
      exact h.2 _ (by omega)
  have heq : v.insertWith pos (fun w => get w.items i) =
      (v.makeRoom pos [x].length).putRange pos ([x].map some) := by
    rw [insertWith, hread]
    rfl
  refine ⟨_, if_neg (by omega), ?_⟩
  rw [heq]
  exact splice_represents hv h hp [x]

end operators

/-! ### The accessors -/

theorem index_eq {v : Prevector N T} {l : List T} (h : Represents v l) {i : Nat}
    (hi : i < l.length) : v.index i = l[i]? :=
  h.2 i hi

theorem front_eq {v : Prevector N T} {l : List T} (h : Represents v l) (hl : l ≠ []) :
    v.front = l.head? := by
  rw [front, h.2 0 (List.length_pos_iff.mpr hl), List.head?_eq_getElem?]

theorem back_eq {v : Prevector N T} {l : List T} (h : Represents v l) (hl : l ≠ []) :
    v.back = l.getLast? := by
  rw [back, h.1, h.2 _ (by have := List.length_pos_iff.mpr hl; omega),
    List.getLast?_eq_getElem?]

/-! ### `operator==` and `operator<` -/

theorem eqLoop_map_some [DecidableEq T] : ∀ l m : List T, l.length = m.length →
    (eqLoop (l.map some) (m.map some) = true ↔ l = m)
  | [], [], _ => by simp [eqLoop]
  | [], _ :: _, h | _ :: _, [], h => by simp at h
  | x :: l, y :: m, h => by
    have ih := eqLoop_map_some l m (by simpa using h)
    by_cases hxy : x = y
    · subst hxy
      simp [eqLoop, ih]
    · simp [eqLoop, hxy]

/-- `operator==` is equality of what the two vectors hold. -/
theorem beq_iff [DecidableEq T] {v w : Prevector N T} {l m : List T} (hv : Represents v l)
    (hw : Represents w m) : v.beq w = true ↔ l = m := by
  rw [beq, represents_iff_elems.mp hv, represents_iff_elems.mp hw, hv.1, hw.1]
  by_cases hlen : m.length = l.length
  · rw [if_neg (not_not.mpr hlen), eqLoop_map_some l m hlen.symm]
  · rw [if_pos hlen]
    exact ⟨fun h => absurd h Bool.false_ne_true, fun h => absurd (congrArg List.length h).symm hlen⟩

section order

variable [LinearOrder T]

/-- The first pair of elements that differ decides. -/
theorem ltLoop_cons (x y : T) (l m : List T) :
    ltLoop ((x :: l).map some) ((y :: m).map some) =
      (decide (x < y) || (decide (x = y) && ltLoop (l.map some) (m.map some))) := by
  simp only [List.map_cons, ltLoop, slotLt]
  rcases lt_trichotomy x y with h | rfl | h
  · simp [h]
  · simp
  · simp [h, not_lt.mpr h.le, ne_of_gt h]

theorem ltLoop_irrefl : ∀ l : List T, ltLoop (l.map some) (l.map some) = false
  | [] => rfl
  | x :: l => by rw [ltLoop_cons, ltLoop_irrefl l]; simp

theorem ltLoop_trans : ∀ l m k : List T, ltLoop (l.map some) (m.map some) = true →
    ltLoop (m.map some) (k.map some) = true → ltLoop (l.map some) (k.map some) = true
  | [], _, _, h, _ => by simp [ltLoop] at h
  | _ :: _, [], _, h, _ => by simp [ltLoop] at h
  | _ :: _, _ :: _, [], _, h => by simp [ltLoop] at h
  | x :: l, y :: m, z :: k, h1, h2 => by
    rw [ltLoop_cons] at h1 h2 ⊢
    simp only [Bool.or_eq_true, decide_eq_true_eq, Bool.and_eq_true] at h1 h2 ⊢
    -- the first difference of `l, k` is the earlier of the two
    rcases h1 with h1 | ⟨rfl, h1⟩ <;> rcases h2 with h2 | ⟨rfl, h2⟩
    · exact .inl (h1.trans h2)
    · exact .inl h1
    · exact .inl h2
    · exact .inr ⟨rfl, ltLoop_trans l m k h1 h2⟩

theorem ltLoop_total : ∀ l m : List T, l.length = m.length → l ≠ m →
    ltLoop (l.map some) (m.map some) = true ∨ ltLoop (m.map some) (l.map some) = true
  | [], [], _, h => absurd rfl h
  | [], _ :: _, h, _ | _ :: _, [], h, _ => by simp at h
  | x :: l, y :: m, hlen, hne => by
    rw [ltLoop_cons, ltLoop_cons]
    simp only [Bool.or_eq_true, decide_eq_true_eq, Bool.and_eq_true]
    rcases lt_trichotomy x y with h | rfl | h
    · exact .inl (.inl h)
    · rcases ltLoop_total l m (by simpa using hlen) (fun h => hne (by rw [h])) with h | h
      · exact .inl (.inr ⟨rfl, h⟩)
      · exact .inr (.inr ⟨rfl, h⟩)
    · exact .inr (.inl h)

/-- `operator<` compares the sizes, then the elements. -/
theorem lt_iff {v w : Prevector N T} {l m : List T} (hv : Represents v l) (hw : Represents w m) :
    v.lt w = true ↔
      l.length < m.length ∨ l.length = m.length ∧ ltLoop (l.map some) (m.map some) = true := by
  rw [lt, represents_iff_elems.mp hv, represents_iff_elems.mp hw, hv.1, hw.1]
  by_cases h1 : l.length < m.length
  · simp [h1]
  · by_cases h2 : l.length > m.length
    · rw [if_neg h1, if_pos h2]
      exact ⟨fun h => absurd h Bool.false_ne_true, fun h => by rcases h with h | ⟨h, -⟩ <;> omega⟩
    · simp only [if_neg h2, h1, false_or]
      exact ⟨fun h => ⟨by omega, h⟩, fun h => h.2⟩

theorem lt_irrefl {v : Prevector N T} {l : List T} (hv : Represents v l) : v.lt v = false := by
  rw [Bool.eq_false_iff]
  intro h
  rcases (lt_iff hv hv).mp h with h | ⟨-, h⟩
  · omega
  · rw [ltLoop_irrefl] at h
    cases h

theorem lt_trans {u v w : Prevector N T} {l m k : List T} (hu : Represents u l)
    (hv : Represents v m) (hw : Represents w k) (h1 : u.lt v = true) (h2 : v.lt w = true) :
    u.lt w = true := by
  rw [lt_iff hu hv] at h1
  rw [lt_iff hv hw] at h2
  rw [lt_iff hu hw]
  rcases h1 with h1 | ⟨e1, h1⟩ <;> rcases h2 with h2 | ⟨e2, h2⟩
  · exact .inl (by omega)
  · exact .inl (by omega)
  · exact .inl (by omega)
  · exact .inr ⟨by omega, ltLoop_trans l m k h1 h2⟩

/-- Two prevectors neither of which is below the other are equal. -/
theorem not_lt_iff_beq {v w : Prevector N T} {l m : List T} (hv : Represents v l)
    (hw : Represents w m) : v.lt w = false ∧ w.lt v = false ↔ v.beq w = true := by
  rw [beq_iff hv hw, Bool.eq_false_iff, Bool.eq_false_iff, Ne, Ne, lt_iff hv hw, lt_iff hw hv]
  constructor
  · rintro ⟨h1, h2⟩
    by_contra hne
    by_cases hlen : l.length = m.length
    · rcases ltLoop_total l m hlen hne with h | h
      · exact h1 (.inr ⟨hlen, h⟩)
      · exact h2 (.inr ⟨hlen.symm, h⟩)
    · rcases Nat.lt_or_gt_of_ne hlen with h | h
      · exact h1 (.inl h)
      · exact h2 (.inl h)
  · rintro rfl
    rw [ltLoop_irrefl]
    simp

end order

/-! ### Runs of calls -/

/-- The calls made on a prevector after its construction. -/
inductive Op (N : Nat) (T : Type*) where
  | assign (n : Nat) (val : T)
  | assignRange (xs : List T)
  | copyAssign (other : Prevector N T)
  | moveAssign (other : Prevector N T)
  | resize (n : Nat)
  | reserve (n : Nat)
  | shrink_to_fit
  | clear
  | insert (pos : Nat) (value : T)
  | insertCount (pos count : Nat) (value : T)
  | insertRange (pos : Nat) (xs : List T)
  | erase (pos : Nat)
  | eraseRange (first last : Nat)
  | push_back (value : T)
  | pop_back
  | swap (other : Prevector N T)

/-- The constructors. -/
inductive Ctor (N : Nat) (T : Type*) where
  | default
  | count (n : Nat)
  | countVal (n : Nat) (val : T)
  | range (xs : List T)
  | copy (other : Prevector N T)
  | move (other : Prevector N T)

/-- A prevector argument that is one: the invariant, and slots that hold its elements. -/
def WellFormed (v : Prevector N T) : Prop := Inv v ∧ Represents v v.toList

namespace Op

variable [Inhabited T]

/-- The call on the prevector. -/
def apply : Op N T → Prevector N T → Prevector N T
  | assign n val, v => v.assign n val
  | assignRange xs, v => v.assignRange xs
  | copyAssign other, v => v.copyAssign other
  | moveAssign other, v => v.moveAssign other
  | resize n, v => v.resize n
  | reserve n, v => v.reserve n
  | shrink_to_fit, v => v.shrink_to_fit
  | clear, v => v.clear
  | insert pos value, v => v.insert pos value
  | insertCount pos count value, v => v.insertCount pos count value
  | insertRange pos xs, v => v.insertRange pos xs
  | erase pos, v => v.erase1 pos
  | eraseRange first last, v => v.erase first last
  | push_back value, v => v.push_back value
  | pop_back, v => v.pop_back
  | swap other, v => v.swap other

/-- What a `std::vector<T>` holding `l` holds after the same call. -/
def vec : Op N T → List T → List T
  | assign n val, _ => List.replicate n val
  | assignRange xs, _ => xs
  | copyAssign other, _ => other.toList
  | moveAssign other, _ => other.toList
  | resize n, l => l.take n ++ List.replicate (n - l.length) default
  | reserve _, l => l
  | shrink_to_fit, l => l
  | clear, _ => []
  | insert pos value, l => l.take pos ++ [value] ++ l.drop pos
  | insertCount pos count value, l => l.take pos ++ List.replicate count value ++ l.drop pos
  | insertRange pos xs, l => l.take pos ++ xs ++ l.drop pos
  | erase pos, l => l.take pos ++ l.drop (pos + 1)
  | eraseRange first last, l => l.take first ++ l.drop last
  | push_back value, l => l ++ [value]
  | pop_back, l => l.dropLast
  | swap other, _ => other.toList

/-- The calls `std::vector<T>` defines on `l`: positions in range, prevector arguments that
are well formed. -/
def Pre : Op N T → List T → Prop
  | copyAssign other, _ | moveAssign other, _ | swap other, _ => WellFormed other
  | insert pos _, l | insertCount pos _ _, l | insertRange pos _, l => pos ≤ l.length
  | erase pos, l => pos < l.length
  | eraseRange first last, l => first ≤ last ∧ last ≤ l.length
  | _, _ => True

/-- Each call keeps the invariant and does to the elements what it does to a vector. -/
theorem apply_spec {op : Op N T} {v : Prevector N T} {l : List T} (hv : Inv v)
    (h : Represents v l) (hpre : op.Pre l) : Inv (op.apply v) ∧ Represents (op.apply v) (op.vec l) := by
  cases op with
  | assign n val => exact assign_spec hv h n val
  | assignRange xs => exact assignRange_spec hv h xs
  | copyAssign other => exact copyAssign_spec hv h hpre.2
  | moveAssign other => exact hpre
  | resize n => exact resize_spec hv h n
  | reserve n => exact reserve_spec hv h n
  | shrink_to_fit => exact shrink_to_fit_spec hv h
  | clear => exact clear_spec hv h
  | insert pos value => exact insert_spec hv h hpre value
  | insertCount pos count value => exact insertCount_spec hv h hpre count value
  | insertRange pos xs => exact insertRange_spec hv h hpre xs
  | erase pos => exact erase1_spec hv h hpre
  | eraseRange first last => exact erase_represents hv h hpre.1 hpre.2
  | push_back value => exact push_back_spec hv h value
  | pop_back => exact pop_back_spec hv h
  | swap other => exact hpre

/-- A run of calls. -/
def run : List (Op N T) → Prevector N T → Prevector N T
  | [], v => v
  | op :: ops, v => run ops (op.apply v)

/-- What the vector holds after the same run. -/
def vecRun : List (Op N T) → List T → List T
  | [], l => l
  | op :: ops, l => vecRun ops (op.vec l)

/-- Every call of the run is one `std::vector<T>` defines, at the point it is made. -/
def Allowed : List (Op N T) → List T → Prop
  | [], _ => True
  | op :: ops, l => op.Pre l ∧ Allowed ops (op.vec l)

theorem run_represents : ∀ (ops : List (Op N T)) {v : Prevector N T} {l : List T}, Inv v →
    Represents v l → Allowed ops l → Inv (run ops v) ∧ Represents (run ops v) (vecRun ops l)
  | [], _, _, hv, h, _ => ⟨hv, h⟩
  | _ :: ops, _, _, hv, h, hpre =>
    have ⟨hv', h'⟩ := apply_spec hv h hpre.1
    run_represents ops hv' h' hpre.2

end Op

namespace Ctor

variable [Inhabited T]

/-- The constructed prevector. -/
def build : Ctor N T → Prevector N T
  | default => empty
  | count n => ofCount n
  | countVal n val => ofCountVal n val
  | range xs => ofRange xs
  | copy other => ofCopy other
  | move other => ofMove other

/-- What the vector constructed the same way holds. -/
def vec : Ctor N T → List T
  | default => []
  | count n => List.replicate n Inhabited.default
  | countVal n val => List.replicate n val
  | range xs => xs
  | copy other => other.toList
  | move other => other.toList

/-- The copy and the move constructor take a well-formed prevector. -/
def Pre : Ctor N T → Prop
  | copy other | move other => WellFormed other
  | _ => True

theorem build_spec {c : Ctor N T} (hpre : c.Pre) : Inv c.build ∧ Represents c.build c.vec := by
  cases c with
  | default => exact empty_spec
  | count n => exact ofCount_spec n
  | countVal n val => exact ofCountVal_spec n val
  | range xs => exact ofRange_spec xs
  | copy other => exact ofCopy_spec hpre.2
  | move other => exact hpre

end Ctor

/-! ### `prevector` against `std::vector` -/

/-- `prevector<N, T>` holds what `std::vector<T>` holds after every construction and run of
calls the vector defines, keeping its representation invariant, with `operator==` the equality of
the vectors and `operator<` a strict total order whose incomparable pairs are the equal ones;
but an `insert` whose value refers into the prevector itself, past the insertion point, reads the
element the `memmove` moved there: `insert(begin(), v[1])` on `{1, 2}` gives `{1, 1, 2}` where
`std::vector` gives `{2, 1, 2}`. -/
theorem prevector_vector {N : Nat} {T : Type*} [Inhabited T] [LinearOrder T] :
    (∀ (c : Ctor N T) (ops : List (Op N T)), c.Pre → Op.Allowed ops c.vec →
      Inv (Op.run ops c.build) ∧ Represents (Op.run ops c.build) (Op.vecRun ops c.vec)) ∧
    (∀ (v w : Prevector N T) (l m : List T), Represents v l → Represents w m →
      (v.beq w = true ↔ l = m)) ∧
    (∀ (v : Prevector N T) (l : List T), Represents v l → v.lt v = false) ∧
    (∀ (u v w : Prevector N T) (l m k : List T), Represents u l → Represents v m →
      Represents w k → u.lt v = true → v.lt w = true → u.lt w = true) ∧
    (∀ (v w : Prevector N T) (l m : List T), Represents v l → Represents w m →
      (v.lt w = false ∧ w.lt v = false ↔ v.beq w = true)) ∧
    (∀ (v : Prevector N T) (l : List T) (pos i : Nat) (x : T), Inv v → Represents v l →
      pos ≤ l.length → i < l.length → v.size + 1 ≤ v.capacity →
      l[if i ≤ pos then i else i - 1]? = some x →
      ∃ w, v.insertSelf pos i = some w ∧ Represents w (l.take pos ++ [x] ++ l.drop pos)) ∧
    ((ofRange [1, 2] : Prevector 8 Nat).insertSelf 0 1).map toList = some [1, 1, 2] := by
  refine ⟨fun c ops hc hops => ?_, fun v w l m hv hw => beq_iff hv hw,
    fun v l hv => lt_irrefl hv, fun u v w l m k hu hv hw => lt_trans hu hv hw,
    fun v w l m hv hw => not_lt_iff_beq hv hw, ?_, by decide⟩
  · have ⟨hv, h⟩ := Ctor.build_spec hc
    exact Op.run_represents ops hv h hops
  · intro v l pos i x hv h hp hi hcap hx
    obtain ⟨w, hw, -, hr⟩ := insertSelf_spec hv h hp hi hcap hx
    exact ⟨w, hw, hr⟩

theorem prevector_vector_push_back :
    Inv (Op.run [.push_back 3] (.range [1, 2] : Ctor 8 Nat).build) ∧
      Represents (Op.run [.push_back 3] (.range [1, 2] : Ctor 8 Nat).build) [1, 2, 3] :=
  (prevector_vector (N := 8) (T := Nat)).1 (.range [1, 2]) [.push_back 3] trivial ⟨trivial, trivial⟩

end Prevector

end Trumpow
