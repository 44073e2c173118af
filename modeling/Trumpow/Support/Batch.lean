import Mathlib.Logic.Function.Basic
import Mathlib.Data.List.Basic

/-!
# Support — write batches on a map

A batch of a key–value store is a list of pairs applied in order: a pair whose value the
predicate `erase` marks deletes its key, any other writes its value.  A later pair of the same
key wins.  A key that no pair of the batch names keeps its value (`applyBatch_of_forall_ne`);
a key that some pair names ends with the value of the last such pair, which is there when no
pair is an erase (`applyBatch_isSome_of_mem`).  Nothing here names a program.
-/

namespace Function

variable {α β : Type*} [DecidableEq α] (erase : β → Bool)

/-- The map after the batch `l`. -/
def applyBatch : List (α × β) → (α → Option β) → α → Option β
  | [], m => m
  | (k, v) :: l, m => applyBatch l (update m k (if erase v then none else some v))

@[simp]
theorem applyBatch_nil (m : α → Option β) : applyBatch erase [] m = m := rfl

theorem applyBatch_append (l₁ l₂ : List (α × β)) (m : α → Option β) :
    applyBatch erase (l₁ ++ l₂) m = applyBatch erase l₂ (applyBatch erase l₁ m) := by
  induction l₁ generalizing m with
  | nil => rfl
  | cons p l₁ ih => exact ih _

/-- A key the batch does not name keeps its value. -/
theorem applyBatch_of_forall_ne {l : List (α × β)} {k : α} (h : ∀ p ∈ l, p.1 ≠ k)
    (m : α → Option β) : applyBatch erase l m k = m k := by
  induction l generalizing m with
  | nil => rfl
  | cons p l ih =>
    rw [applyBatch, ih (fun q hq => h q (List.mem_cons_of_mem p hq)),
      update_of_ne (h p List.mem_cons_self).symm]

/-- A key the batch writes, in a batch without erases, has a value after it. -/
theorem applyBatch_isSome_of_mem {l : List (α × β)} {k : α} {v : β} (hk : (k, v) ∈ l)
    (hw : ∀ p ∈ l, erase p.2 = false) (m : α → Option β) : (applyBatch erase l m k).isSome := by
  induction l generalizing m v with
  | nil => cases hk
  | cons p l ih =>
    rw [applyBatch]
    by_cases hl : ∃ v', (k, v') ∈ l
    · obtain ⟨v', hv'⟩ := hl
      exact ih hv' (fun q hq => hw q (List.mem_cons_of_mem p hq)) _
    · -- the last pair of `k` is `p`
      have hp : p = (k, v) := by
        rcases List.mem_cons.mp hk with h | h
        · exact h.symm
        · exact absurd ⟨v, h⟩ hl
      rw [applyBatch_of_forall_ne erase (fun q hq hqk => hl ⟨q.2, hqk ▸ hq⟩), hp, update_self,
        hw (k, v) (hp ▸ List.mem_cons_self)]
      rfl

end Function
