import Mathlib

/-!
# Support — searching a list for a sublist

`std::search(first, last, s_first, s_last)` over lists: `search l s` is the index of the first
position of `l` at which `s` starts (`OccursAt`), or `l.length` when there is none; an empty `s`
is found at once.  Nothing here names a program.

The lemmas characterise the result by occurrences: what `search` returns is an occurrence
(`occursAt_search`) before which there is none (`not_occursAt_of_lt_search`), and any such
occurrence is what it returns (`search_eq_of_occursAt`).
-/

namespace ListSearch

variable {α : Type*}

/-- `s` occurs in `l` starting at position `i`. -/
def OccursAt (s l : List α) (i : Nat) : Prop := s <+: l.drop i

theorem occursAt_zero {s l : List α} : OccursAt s l 0 ↔ s <+: l := Iff.rfl

theorem occursAt_cons_succ {s l : List α} {a : α} {i : Nat} :
    OccursAt s (a :: l) (i + 1) ↔ OccursAt s l i := Iff.rfl

theorem occursAt_drop {s l : List α} {k i : Nat} : OccursAt s (l.drop k) i ↔ OccursAt s l (k + i) := by
  rw [OccursAt, OccursAt, List.drop_drop]

/-- A non-empty `s` occurs only where it fits. -/
theorem OccursAt.add_length_le {s l : List α} {i : Nat} (hs : s ≠ []) (h : OccursAt s l i) :
    i + s.length ≤ l.length := by
  have := h.length_le
  rw [List.length_drop] at this
  by_cases hi : i ≤ l.length
  · omega
  · have hnil : l.drop i = [] := List.drop_eq_nil_of_le (by omega)
    rw [OccursAt, hnil, List.prefix_nil] at h
    exact absurd h hs

/-- An occurrence puts the elements of its window in `s`. -/
theorem OccursAt.getElem_mem {s l : List α} {i k : Nat} (h : OccursAt s l i) (hik : i ≤ k)
    (hks : k < i + s.length) (hk : k < l.length) : l[k] ∈ s := by
  obtain ⟨t, ht⟩ := h
  have hki : k - i < (l.drop i).length := by rw [List.length_drop]; omega
  have e : l[k] = (l.drop i)[k - i] := by rw [List.getElem_drop]; congr 1; omega
  rw [e]
  simp only [← ht]
  rw [List.getElem_append_left (by omega)]
  exact List.getElem_mem _

/-- An occurrence at `i` inside the part `l₁` of `l₁ ++ l₂` is an occurrence in `l₁`. -/
theorem occursAt_append_left {s l₁ l₂ : List α} {i : Nat} (h : OccursAt s (l₁ ++ l₂) i)
    (hfit : i + s.length ≤ l₁.length) : OccursAt s l₁ i := by
  rw [OccursAt, List.prefix_iff_eq_take] at h ⊢
  rwa [List.drop_append_of_le_length (by omega),
    List.take_append_of_le_length (by rw [List.length_drop]; omega)] at h

/-- A list occurs at the start of itself behind one more element only when it repeats that
element. -/
theorem eq_replicate_of_occursAt_cons {s t : List α} {x : α} (h : OccursAt s (x :: (s ++ t)) 0) :
    s = List.replicate s.length x := by
  induction s generalizing x with
  | nil => rfl
  | cons y s ih =>
      obtain ⟨u, hu⟩ := h
      simp only [List.drop_zero, List.cons_append, List.cons.injEq] at hu
      obtain ⟨rfl, hu⟩ := hu
      rw [List.length_cons, List.replicate_succ, ih ⟨u, by simpa using hu⟩]
      simp

variable [DecidableEq α]

instance (s l : List α) (i : Nat) : Decidable (OccursAt s l i) :=
  inferInstanceAs (Decidable (s <+: l.drop i))

/-- `std::search` on lists. -/
def search : List α → List α → Nat
  | [], _ => 0
  | a :: l, s => if s.isPrefixOf (a :: l) then 0 else search l s + 1

theorem search_le (l s : List α) : search l s ≤ l.length := by
  induction l with
  | nil => simp [search]
  | cons a l ih =>
      rw [search]
      split_ifs
      · omega
      · simp only [List.length_cons]
        omega

/-- What `search` finds, when it finds something, is an occurrence. -/
theorem occursAt_search {l s : List α} (h : search l s < l.length) : OccursAt s l (search l s) := by
  induction l with
  | nil => simp [search] at h
  | cons a l ih =>
      rw [search] at h ⊢
      split_ifs with hp
      · exact List.isPrefixOf_iff_prefix.mp hp
      · rw [if_neg hp, List.length_cons] at h
        exact occursAt_cons_succ.mpr (ih (by omega))

/-- Before what `search` returns, `s` does not occur. -/
theorem not_occursAt_of_lt_search {l s : List α} {j : Nat} (h : j < search l s) :
    ¬ OccursAt s l j := by
  induction l generalizing j with
  | nil => simp [search] at h
  | cons a l ih =>
      rw [search] at h
      split_ifs at h with hp
      · omega
      · cases j with
        | zero => exact fun h0 => hp (List.isPrefixOf_iff_prefix.mpr h0)
        | succ j => exact fun hj => ih (by omega) (occursAt_cons_succ.mp hj)

/-- The first occurrence is what `search` returns. -/
theorem search_eq_of_occursAt {l s : List α} {i : Nat} (h : OccursAt s l i)
    (hfirst : ∀ j < i, ¬ OccursAt s l j) : search l s = i := by
  induction l generalizing i with
  | nil =>
      -- only the empty list occurs in the empty list, and it occurs at `0`
      have hs : s = [] := List.prefix_nil.mp (by simpa [OccursAt] using h)
      subst hs
      cases i with
      | zero => rfl
      | succ i => exact absurd (List.nil_prefix) (hfirst 0 (by omega))
  | cons a l ih =>
      rw [search]
      split_ifs with hp
      · by_contra hi
        exact hfirst 0 (by omega) (List.isPrefixOf_iff_prefix.mp hp)
      · cases i with
        | zero => exact absurd (List.isPrefixOf_iff_prefix.mpr h) hp
        | succ i =>
            rw [ih (occursAt_cons_succ.mp h)
              (fun j hj hocc => hfirst (j + 1) (by omega) (occursAt_cons_succ.mpr hocc))]

/-- A non-empty `s` is not found exactly when it occurs nowhere. -/
theorem search_eq_length_iff {l s : List α} (hs : s ≠ []) :
    search l s = l.length ↔ ∀ j, ¬ OccursAt s l j := by
  constructor
  · intro h j hj
    have hfit := hj.add_length_le hs
    have hpos : 0 < s.length := List.length_pos_iff.mpr hs
    exact not_occursAt_of_lt_search (by omega) hj
  · intro h
    rcases (search_le l s).lt_or_eq with hlt | heq
    · exact absurd (occursAt_search hlt) (h _)
    · exact heq

end ListSearch
