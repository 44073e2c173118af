import Mathlib.Data.List.Perm.Basic
import Mathlib.Data.List.Nodup
import Mathlib.Data.List.Count

/-!
# Support — a list whose elements change in place

A store kept as a list of distinct records changes one record by mapping `replace a a'` over it
(`a'` in place of `a`), and drops records with `List.erase`.  What is in the list afterwards
(`mem_map_replace`, `mem_foldl_erase`), how a count moves (`countP_map_replace`: by what the
record counted before and after), and that keys the change keeps stay distinct
(`map_map_replace`).  Nothing here names a program.
-/

namespace Replace

variable {α β : Type*} [DecidableEq α]

/-- `b`, or `a'` if `b` is `a`. -/
def replace (a a' b : α) : α := if b = a then a' else b

@[simp] theorem replace_self (a a' : α) : replace a a' a = a' := if_pos rfl

theorem replace_of_ne {a a' b : α} (h : b ≠ a) : replace a a' b = b := if_neg h

variable {l : List α} {a b : α}

theorem mem_map_replace {a' : α} : b ∈ l.map (replace a a') ↔ (a ∈ l ∧ b = a') ∨ (b ∈ l ∧ b ≠ a) := by
  rw [List.mem_map]
  constructor
  · rintro ⟨c, hc, rfl⟩
    by_cases hca : c = a
    · subst hca
      exact .inl ⟨hc, replace_self _ _⟩
    · rw [replace_of_ne hca]
      exact .inr ⟨hc, hca⟩
  · rintro (⟨ha, rfl⟩ | ⟨hb, hba⟩)
    · exact ⟨a, ha, replace_self _ _⟩
    · exact ⟨b, hb, replace_of_ne hba⟩

theorem map_replace_of_not_mem (a' : α) (h : a ∉ l) : l.map (replace a a') = l := by
  conv => rhs; rw [← List.map_id l]
  apply List.map_congr_left
  intro b hb
  exact replace_of_ne fun hba => h (hba ▸ hb)

/-- A change that keeps a key keeps the list of keys. -/
theorem map_map_replace {a' : α} (f : α → β) (hf : f a' = f a) : (l.map (replace a a')).map f = l.map f := by
  rw [List.map_map]
  apply List.map_congr_left
  intro b _
  by_cases hba : b = a
  · subst hba
    simp [hf]
  · simp [replace_of_ne hba]

/-- Two changes in a row, when the first record is new. -/
theorem map_replace_map_replace {a' a'' : α} (h : a' ∉ l) :
    (l.map (replace a a')).map (replace a' a'') = l.map (replace a a'') := by
  rw [List.map_map]
  apply List.map_congr_left
  intro b hb
  by_cases hba : b = a
  · subst hba
    simp
  · have hb' : b ≠ a' := fun h' => h (h' ▸ hb)
    simp [replace_of_ne hba, replace_of_ne hb']

/-- A count after a change of one record: what the old record counted goes, what the new one
counts comes. -/
theorem countP_map_replace (p : α → Bool) (hl : l.Nodup) (ha : a ∈ l) (a' : α) :
    (l.map (replace a a')).countP p + (if p a then 1 else 0) =
      l.countP p + (if p a' then 1 else 0) := by
  induction l with
  | nil => cases ha
  | cons c l ih =>
    rw [List.nodup_cons] at hl
    by_cases hca : c = a
    · subst hca
      have hrest : l.map (replace c a') = l := map_replace_of_not_mem a' hl.1
      rw [List.map_cons, replace_self, hrest, List.countP_cons, List.countP_cons]
      omega
    · have ha' : a ∈ l := (List.mem_cons.mp ha).resolve_left (Ne.symm hca)
      have := ih hl.2 ha'
      rw [List.map_cons, replace_of_ne hca, List.countP_cons, List.countP_cons]
      omega

/-- A count after dropping one record of the list. -/
theorem countP_erase_add (p : α → Bool) (ha : a ∈ l) :
    (l.erase a).countP p + (if p a then 1 else 0) = l.countP p := by
  rw [List.countP_erase]
  have hle : (if a ∈ l ∧ p a = true then 1 else 0) ≤ l.countP p := by
    split_ifs with h
    · exact List.countP_pos_iff.mpr ⟨a, h.1, h.2⟩
    · exact Nat.zero_le _
  simp only [ha, true_and] at hle ⊢
  omega

/-- A filter that drops a counted record counts at least one less. -/
theorem countP_filter_add_one_le (p q : α → Bool) (ha : a ∈ l) (hpa : p a = true)
    (hqa : q a = false) : (l.filter q).countP p + 1 ≤ l.countP p := by
  have hsub : List.Sublist (l.filter q) (l.erase a) := by
    have h := (List.filter_sublist (p := q) (l := l)).erase a
    rwa [List.erase_of_not_mem (by simp [hqa])] at h
  have he := countP_erase_add p ha
  simp only [hpa, if_true] at he
  have := hsub.countP_le (p := p)
  omega

/-- A count of at most one counts one record of a list of distinct records. -/
theorem eq_of_countP_le_one (p : α → Bool) (hl : l.Nodup) (h : l.countP p ≤ 1) (ha : a ∈ l)
    (hb : b ∈ l) (hpa : p a = true) (hpb : p b = true) : b = a := by
  by_contra hne
  have hrest : 0 < (l.erase a).countP p :=
    List.countP_pos_iff.mpr ⟨b, (hl.mem_erase_iff).mpr ⟨hne, hb⟩, hpb⟩
  have := countP_erase_add p ha
  simp only [hpa, if_true] at this
  omega

/-- What is left after dropping the records `as`, one by one, from a list of distinct records. -/
theorem mem_foldl_erase (as : List α) (hl : l.Nodup) :
    b ∈ as.foldl List.erase l ↔ b ∈ l ∧ b ∉ as := by
  induction as generalizing l with
  | nil => simp
  | cons c as ih =>
    rw [List.foldl_cons, ih (hl.erase c), hl.mem_erase_iff, List.mem_cons]
    tauto

theorem nodup_foldl_erase (as : List α) (hl : l.Nodup) : (as.foldl List.erase l).Nodup := by
  induction as generalizing l with
  | nil => exact hl
  | cons c as ih => exact ih (hl.erase c)

end Replace
