import Mathlib.Data.List.Forall2

/-!
# Support — matching a list into another, greedily

`List.SublistForall₂ R as bs` says that the elements of `as` can be assigned, in order and each
to its own element, to elements of `bs` they are related to.  `greedyMatch r as bs` decides it by
one scan of `bs`: the next element of `as` takes the first element of `bs` it is related to.
Taking the first is never wrong, since whatever a later element would have matched stays
available to the rest of `as` (`sublistForall₂_of_cons_left`); so the scan decides the relation
(`greedyMatch_iff`).  A list longer than the other has no assignment
(`not_sublistForall₂_of_length_lt`), which is how a scan may stop early.  Nothing here names a
program.
-/

namespace Greedy

open List

variable {α β : Type*}

/-- Scan `bs`, giving the head of `as` to the first element of `bs` that `r` relates it to. -/
def greedyMatch (r : α → β → Bool) : List α → List β → Bool
  | [], _ => true
  | _ :: _, [] => false
  | a :: as, b :: bs => if r a b then greedyMatch r as bs else greedyMatch r (a :: as) bs

section

variable {R : α → β → Prop}

/-- Dropping the first element of `as` keeps an assignment. -/
theorem sublistForall₂_of_cons_left {a : α} {as : List α} {bs : List β}
    (h : SublistForall₂ R (a :: as) bs) : SublistForall₂ R as bs := by
  induction bs with
  | nil => cases h
  | cons b bs ih =>
    cases h with
    | cons _ h => exact h.cons_right
    | cons_right h => exact (ih h).cons_right

theorem length_le_of_sublistForall₂ {as : List α} {bs : List β} (h : SublistForall₂ R as bs) :
    as.length ≤ bs.length := by
  obtain ⟨l, hl, hsub⟩ := sublistForall₂_iff.mp h
  rw [hl.length_eq]
  exact hsub.length_le

theorem not_sublistForall₂_of_length_lt {as : List α} {bs : List β}
    (h : bs.length < as.length) : ¬ SublistForall₂ R as bs :=
  fun hs => absurd (length_le_of_sublistForall₂ hs) (Nat.not_le.mpr h)

end

/-- The scan decides whether `as` can be assigned in order to elements of `bs` it relates to:
taking the first element `b` that the head `a` relates to is never wrong. -/
theorem greedyMatch_iff (r : α → β → Bool) {as : List α} {bs : List β} :
    greedyMatch r as bs = true ↔ SublistForall₂ (fun a b => r a b = true) as bs := by
  induction bs generalizing as with
  | nil =>
    cases as with
    | nil => exact iff_of_true rfl SublistForall₂.nil
    | cons a as => exact iff_of_false Bool.false_ne_true (fun h => by cases h)
  | cons b bs ih =>
    cases as with
    | nil => exact iff_of_true rfl SublistForall₂.nil
    | cons a as =>
      rw [greedyMatch]
      split_ifs with hab
      -- `a` takes `b`: an assignment that skips `b` still leaves `as` one into `bs`
      · rw [ih]
        constructor
        · exact SublistForall₂.cons hab
        · intro h
          cases h with
          | cons _ h => exact h
          | cons_right h => exact sublistForall₂_of_cons_left h
      -- `b` is of no use to `a`, so every assignment skips it
      · rw [ih]
        constructor
        · exact SublistForall₂.cons_right
        · intro h
          cases h with
          | cons hab' _ => exact absurd hab' hab
          | cons_right h => exact h

/-- The scan is a decision procedure. -/
instance decSublistForall₂ (r : α → β → Bool) (as : List α) (bs : List β) :
    Decidable (SublistForall₂ (fun a b => r a b = true) as bs) :=
  decidable_of_iff _ (greedyMatch_iff r)

theorem greedyMatch_of_length_lt (r : α → β → Bool) {as : List α} {bs : List β}
    (h : bs.length < as.length) : greedyMatch r as bs = false := by
  rw [← Bool.not_eq_true, greedyMatch_iff]
  exact not_sublistForall₂_of_length_lt h

end Greedy
