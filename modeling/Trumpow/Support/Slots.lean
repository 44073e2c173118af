import Mathlib.Data.List.GetD
import Mathlib.Tactic.SplitIfs

/-!
# Support — slot buffers

A buffer of slots of `α` as `List (Option α)`: `none` is a slot nothing was constructed in (what
`malloc` returns), `some a` a slot holding `a`.  The raw memory operations a container is built
from — placement `new` at one slot, `memmove` within one buffer, `memcpy` from another, `malloc`
and `realloc` — are each given by what they leave in slot `j` (`get_put`, `get_memmove`,
`get_memcpy`, `get_alloc`), which is all a container's proofs read.  `Holds buf l`: the first
`l.length` slots hold `l`.  The list operations of a sequence container read the same way
(`getElem?_splice`, `getElem?_cut`).  Nothing here names a program.
-/

namespace Slots

variable {α : Type*}

/-- Slot `j`; `none` past the end. -/
def get (buf : List (Option α)) (j : Nat) : Option α := buf.getD j none

/-- Placement `new` of `s` at slot `i`. -/
def put (buf : List (Option α)) (i : Nat) (s : Option α) : List (Option α) := buf.set i s

/-- `memmove(buf + dst, buf + src, n)`: slots `dst ..< dst + n` get what slots `src ..< src + n`
held before, overlap allowed. -/
def memmove (buf : List (Option α)) (dst src n : Nat) : List (Option α) :=
  buf.mapIdx fun j s => if dst ≤ j ∧ j < dst + n then get buf (src + (j - dst)) else s

/-- `memcpy(dst, src, n)` from another buffer. -/
def memcpy (dst src : List (Option α)) (n : Nat) : List (Option α) :=
  dst.mapIdx fun j s => if j < n then get src j else s

/-- `malloc` of `n` slots: nothing constructed in them. -/
def alloc (n : Nat) : List (Option α) := List.replicate n none

/-- `realloc` to `n` slots: what the old slots held moves over, as far as it fits. -/
def realloc (buf : List (Option α)) (n : Nat) : List (Option α) := memcpy (alloc n) buf n

/-- The first `l.length` slots hold `l`. -/
def Holds (buf : List (Option α)) (l : List α) : Prop := ∀ i < l.length, get buf i = l[i]?

/-! ### Lengths -/

@[simp] theorem length_put (buf : List (Option α)) (i : Nat) (s : Option α) :
    (put buf i s).length = buf.length := List.length_set

@[simp] theorem length_memmove (buf : List (Option α)) (dst src n : Nat) :
    (memmove buf dst src n).length = buf.length := List.length_mapIdx

@[simp] theorem length_memcpy (dst src : List (Option α)) (n : Nat) :
    (memcpy dst src n).length = dst.length := List.length_mapIdx

@[simp] theorem length_alloc (n : Nat) : (alloc n : List (Option α)).length = n :=
  List.length_replicate

@[simp] theorem length_realloc (buf : List (Option α)) (n : Nat) : (realloc buf n).length = n := by
  rw [realloc, length_memcpy, length_alloc]

/-! ### Slot by slot -/

theorem get_of_le {buf : List (Option α)} {j : Nat} (h : buf.length ≤ j) : get buf j = none :=
  List.getD_eq_default _ _ h

theorem get_eq_getElem {buf : List (Option α)} {j : Nat} (h : j < buf.length) :
    get buf j = buf[j] :=
  List.getD_eq_getElem _ _ h

@[simp] theorem get_cons_zero (s : Option α) (ss : List (Option α)) : get (s :: ss) 0 = s := rfl

@[simp] theorem get_cons_succ (s : Option α) (ss : List (Option α)) (j : Nat) :
    get (s :: ss) (j + 1) = get ss j := rfl

theorem get_map_some (l : List α) (j : Nat) : get (l.map some) j = l[j]? := by
  rw [get, List.getD_eq_getElem?_getD, List.getElem?_map]
  cases l[j]? <;> rfl

theorem get_put (buf : List (Option α)) {i : Nat} (s : Option α) (hi : i < buf.length) (j : Nat) :
    get (put buf i s) j = if i = j then s else get buf j := by
  by_cases hj : j < buf.length
  · rw [put, get_eq_getElem (by simpa using hj), List.getElem_set, get_eq_getElem hj]
  · rw [get_of_le (by simpa using hj), if_neg (by omega), get_of_le (by omega)]

theorem get_memmove (buf : List (Option α)) {dst n : Nat} (src : Nat) (hn : dst + n ≤ buf.length)
    (j : Nat) :
    get (memmove buf dst src n) j =
      if dst ≤ j ∧ j < dst + n then get buf (src + (j - dst)) else get buf j := by
  by_cases hj : j < buf.length
  · rw [memmove, get_eq_getElem (by simpa using hj), List.getElem_mapIdx, get_eq_getElem hj]
  · rw [get_of_le (by simpa using hj), if_neg (by omega), get_of_le (by omega)]

theorem get_memcpy {dst : List (Option α)} (src : List (Option α)) {n : Nat} (hn : n ≤ dst.length)
    (j : Nat) : get (memcpy dst src n) j = if j < n then get src j else get dst j := by
  by_cases hj : j < dst.length
  · rw [memcpy, get_eq_getElem (by simpa using hj), List.getElem_mapIdx, get_eq_getElem hj]
  · rw [get_of_le (by simpa using hj), if_neg (by omega), get_of_le (by omega)]

@[simp] theorem get_alloc (n j : Nat) : get (alloc n : List (Option α)) j = none := by
  by_cases hj : j < n
  · exact List.getD_replicate none hj
  · exact List.getD_eq_default _ _ (by rw [length_alloc]; omega)

theorem get_realloc (buf : List (Option α)) (n j : Nat) :
    get (realloc buf n) j = if j < n then get buf j else none := by
  rw [realloc, get_memcpy _ (Nat.le_of_eq (length_alloc n).symm), get_alloc]

/-! ### The list operations, read slot by slot -/

/-- `xs` spliced in at `p`, as `insert` leaves a sequence. -/
theorem getElem?_splice (l xs : List α) {p : Nat} (hp : p ≤ l.length) (i : Nat) :
    (l.take p ++ xs ++ l.drop p)[i]? =
      if i < p then l[i]? else if i < p + xs.length then xs[i - p]? else l[i - xs.length]? := by
  rw [List.append_assoc, List.getElem?_append, List.length_take_of_le hp]
  split_ifs with h1 h2
  · rw [List.getElem?_take_of_lt h1]
  · rw [List.getElem?_append_left (by omega)]
  · rw [List.getElem?_append_right (by omega), List.getElem?_drop]
    congr 1
    omega

/-- Slots `f ..< t` cut out, as `erase` leaves a sequence. -/
theorem getElem?_cut (l : List α) {f t : Nat} (hft : f ≤ t) (ht : t ≤ l.length) (i : Nat) :
    (l.take f ++ l.drop t)[i]? = if i < f then l[i]? else l[i + (t - f)]? := by
  rw [List.getElem?_append, List.length_take_of_le (by omega)]
  split_ifs with h
  · rw [List.getElem?_take_of_lt h]
  · rw [List.getElem?_drop]
    congr 1
    omega

end Slots
