import Mathlib.Data.List.DropRight
import Mathlib.Data.List.GetD

/-!
# Support — blanking an element and restoring it

A list whose blanks (the elements where `p` holds) are all the one blank `d`, and which does not
end in a blank, is restored by this round trip: blank its element `n`, drop the trailing blanks,
pad it back with `d` to length `n + 1`, and put the element back at `n`
(`set_rightpad_rdropWhile_set`).  Dropping can remove blanks before `n` as well, and padding
puts back the same blanks because there is only one.  Nothing here names a program.
-/

namespace List

variable {α : Type*} {p : α → Bool} {d : α}

/-- The trailing blanks of a list whose blanks are all `d`. -/
theorem rtakeWhile_eq_replicate {l : List α} (hd : ∀ x ∈ l, p x → x = d) :
    l.rtakeWhile p = replicate (l.rtakeWhile p).length d :=
  eq_replicate_iff.mpr ⟨rfl, fun x hx =>
    hd x ((rtakeWhile_suffix p l).subset hx) (mem_rtakeWhile_imp hx)⟩

/-- Padding back to the whole length undoes dropping the trailing blanks. -/
theorem rightpad_rdropWhile {l : List α} (hd : ∀ x ∈ l, p x → x = d) :
    (l.rdropWhile p).rightpad l.length d = l := by
  have happ := rdropWhile_append_rtakeWhile (p := p) (l := l)
  have hlen : (l.rdropWhile p).length + (l.rtakeWhile p).length = l.length := by
    rw [← length_append, happ]
  rw [rightpad, show l.length - (l.rdropWhile p).length = (l.rtakeWhile p).length by omega,
    ← rtakeWhile_eq_replicate hd, happ]

theorem rightpad_of_le {l : List α} {k : Nat} (h : k ≤ l.length) : l.rightpad k d = l := by
  simp [rightpad, Nat.sub_eq_zero_of_le h]

/-- Blank `n`, drop the trailing blanks, pad back to `n + 1` and restore `n`: the list is back. -/
theorem set_rightpad_rdropWhile_set {l : List α} {n : Nat} (hn : n < l.length) (hpd : p d)
    (hd : ∀ x ∈ l, p x → x = d) (hclean : l.rdropWhile p = l) :
    (((l.set n d).rdropWhile p).rightpad (n + 1) d).set n l[n] = l := by
  have hd' : ∀ x ∈ l.set n d, p x → x = d := fun x hx hpx => by
    rcases mem_or_eq_of_mem_set hx with hx | rfl
    · exact hd x hx hpx
    · rfl
  have hpad : ((l.set n d).rdropWhile p).rightpad (n + 1) d = l.set n d := by
    rcases Nat.lt_or_ge (n + 1) l.length with hlt | hge
    · -- the last element is not `n`, so nothing is dropped
      have hkeep : (l.set n d).rdropWhile p = l.set n d := by
        rw [rdropWhile_eq_self_iff]
        intro hne
        have hl : l ≠ [] := ne_nil_of_length_pos (by omega)
        have hlast' : (l.set n d).getLast? = l.getLast? := by
          rw [getLast?_eq_getElem?, getLast?_eq_getElem?, length_set, getElem?_set_ne (by omega)]
        rw [getLast?_eq_some_getLast hne, getLast?_eq_some_getLast hl, Option.some_inj] at hlast'
        rw [hlast']
        exact rdropWhile_eq_self_iff.mp hclean hl
      rw [hkeep, rightpad_of_le (by simp; omega)]
    · have hlen : (l.set n d).length = n + 1 := by simp; omega
      rw [← hlen, rightpad_rdropWhile hd']
  rw [hpad, set_set, set_getElem_self]

/-! Reading a slot with a default. -/

theorem getD_set_of_lt {l : List α} {k : Nat} (x : α) (hk : k < l.length) (h : Nat) :
    (l.set k x).getD h d = if h = k then x else l.getD h d := by
  by_cases hh : h = k
  · subst hh
    simp [getD_eq_getElem?_getD, hk]
  · simp [getD_eq_getElem?_getD, getElem?_set_ne (Ne.symm hh), hh]

theorem ext_getD {l₁ l₂ : List α} (hlen : l₁.length = l₂.length)
    (h : ∀ i < l₁.length, l₁.getD i d = l₂.getD i d) : l₁ = l₂ := by
  refine ext_getElem hlen fun i h₁ h₂ => ?_
  have := h i h₁
  rwa [getD_eq_getElem _ _ h₁, getD_eq_getElem _ _ h₂] at this

/-- `resize(n)` with `d`: the first `n` slots, read with default `d`. -/
theorem getD_rightpad_take (l : List α) (n h : Nat) :
    ((l.take n).rightpad n d).getD h d = if h < n then l.getD h d else d := by
  simp only [rightpad, getD_eq_getElem?_getD]
  by_cases hh : h < n
  · rw [if_pos hh]
    by_cases hl : h < (l.take n).length
    · rw [getElem?_append_left hl, getElem?_take_of_lt hh]
    · have : l.length ≤ h := by simp at hl; omega
      rw [getElem?_append_right (by omega), getElem?_replicate,
        getElem?_eq_none this]
      split <;> rfl
  · rw [if_neg hh, getElem?_eq_none (by simp; omega)]
    rfl

end List
