import Mathlib.Data.List.AList
import Mathlib.Algebra.BigOperators.Group.List.Basic

/-!
# Support — sums over association lists

A counter that a map keeps of the sizes of its entries, adding an entry's size when it is
inserted and subtracting it when it is removed, is exact when it equals the sum of the sizes over
the entries.  `AList.sum f s` is that sum, and the two rules below say how `insert` and `erase`
change it: by the size of the entry added, less the size of the entry of that key before.
Nothing here names a program.
-/

namespace AList

variable {α : Type*} {β : α → Type*} {M : Type*} [AddCommGroup M]

/-- The sum of `f` over the entries of `s`. -/
def sum (f : ∀ a, β a → M) (s : AList β) : M := (s.entries.map fun x => f x.1 x.2).sum

@[simp] theorem sum_empty (f : ∀ a, β a → M) : sum f (∅ : AList β) = 0 := rfl

variable [DecidableEq α]

/-- The value of `f` at the entry of `a`, or `0`. -/
def sumAt (f : ∀ a, β a → M) (a : α) (s : AList β) : M := ((s.lookup a).map (f a)).getD 0

/-- Removing the first entry of a key removes its term, whether or not keys repeat. -/
theorem sum_kerase (f : ∀ a, β a → M) (a : α) :
    ∀ l : List (Sigma β),
      ((l.kerase a).map fun x => f x.1 x.2).sum + ((l.dlookup a).map (f a)).getD 0 =
        (l.map fun x => f x.1 x.2).sum
  | [] => by simp
  | ⟨a', b⟩ :: l => by
      by_cases h : a = a'
      · subst h
        rw [List.kerase_cons_eq (show a = (⟨a, b⟩ : Sigma β).1 from rfl), List.dlookup_cons_eq]
        simp [add_comm]
      · rw [List.kerase_cons_ne h, List.dlookup_cons_ne l _ h, List.map_cons, List.sum_cons,
          List.map_cons, List.sum_cons, add_assoc, sum_kerase f a l]

theorem sum_erase (f : ∀ a, β a → M) (a : α) (s : AList β) :
    sum f (s.erase a) + sumAt f a s = sum f s :=
  sum_kerase f a s.entries

theorem sum_insert (f : ∀ a, β a → M) (a : α) (b : β a) (s : AList β) :
    sum f (s.insert a b) + sumAt f a s = sum f s + f a b := by
  have h : ((s.entries.kerase a).map fun x => f x.1 x.2).sum + sumAt f a s = sum f s :=
    sum_erase f a s
  rw [sum, entries_insert, List.map_cons, List.sum_cons, add_assoc, h, add_comm]

@[simp] theorem sumAt_insert (f : ∀ a, β a → M) (a : α) (b : β a) (s : AList β) :
    sumAt f a (s.insert a b) = f a b := by
  simp [sumAt, lookup_insert]

@[simp] theorem sumAt_erase (f : ∀ a, β a → M) (a : α) (s : AList β) :
    sumAt f a (s.erase a) = 0 := by
  simp [sumAt, lookup_erase]

end AList
