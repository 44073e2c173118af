import Mathlib.Data.Nat.Bitwise
import Mathlib.Data.List.GetD
import Mathlib.Order.Basic

/-!
# Chain — block indexes and their skip pointers

`chain.h`, `chain.cpp`.  A `CBlockIndex` points to its parent `pprev` and to an earlier
ancestor `pskip`.  The indexes live in an arena, a list, in the order `AddToBlockIndex` creates
them; a pointer is a position in it and `none` is `NULL`.  `AddToBlockIndex` gives a new index
the parent it finds, height one more, and calls `BuildSkip()`, which sets `pskip` to the
parent's ancestor at `GetSkipHeight(nHeight)`, found by `GetAncestor`.  `GetAncestor(height)`
walks down from the index along `pskip`, where that does not overshoot and the look-ahead
prefers it, and along `pprev` otherwise.

Results: every arena built so is `WellFormed`: each `pprev` is earlier and one lower, a root is
at height `0`, and each `pskip` is the ancestor at the skip height (`Built.wellFormed`).  On it
`GetAncestor(h)` is the index reached by following `pprev` `nHeight - h` times, and `NULL` outside
`0 ≤ h ≤ nHeight`, without failing its assertion (`getAncestor_eq`).  Only the first fact
about `GetSkipHeight` matters for that: it is below the height (`getSkipHeight_lt`).

The hash lookups of `AddToBlockIndex` are left out: the parent is given.
-/

namespace Trumpow

/-- `CBlockIndex`, with the fields the modelled code reads. -/
structure CBlockIndex where
  pprev : Option Nat := none
  pskip : Option Nat := none
  nHeight : Nat := 0
  nVersion : Int := 0
  nTime : Nat := 0
deriving DecidableEq

/-- `SetNull()`. -/
instance : Inhabited CBlockIndex := ⟨{}⟩

/-- `*pindex`: the index at a position of the arena. -/
def deref (t : List CBlockIndex) (p : Nat) : CBlockIndex := t.getD p default

/-! ### `GetSkipHeight` -/

/-- `InvertLowestOne(n)`: the lowest set bit of `n` cleared (`0 & -1 = 0` at `0`, as here). -/
def invertLowestOne (n : Nat) : Nat := n &&& (n - 1)

/-- `GetSkipHeight(height)`. -/
def getSkipHeight (height : Nat) : Nat :=
  if height < 2 then 0
  else if height &&& 1 ≠ 0 then invertLowestOne (invertLowestOne (height - 1)) + 1
  else invertLowestOne height

theorem invertLowestOne_le (n : Nat) : invertLowestOne n ≤ n - 1 := Nat.and_le_right

/-- Any height strictly lower is acceptable, says the source; this one is. -/
theorem getSkipHeight_lt {height : Nat} (h : 0 < height) : getSkipHeight height < height := by
  unfold getSkipHeight
  split
  · exact h
  · have h₁ := invertLowestOne_le (height - 1)
    have h₂ := invertLowestOne_le (invertLowestOne (height - 1))
    have h₃ := invertLowestOne_le height
    split <;> omega

/-! ### `GetAncestor` and `BuildSkip` -/

/-- The loop of `GetAncestor(height)`, from `pindexWalk` at `heightWalk`: follow `pskip` when it
lands on `height`, or above it where `pprev`'s skip would not do better; else `pprev`, which the
source asserts is there. -/
def getAncestorWalk (t : List CBlockIndex) (height : Nat) (pindexWalk heightWalk : Nat) :
    Except String Nat :=
  if hwalk : heightWalk > height then
    let heightSkip := getSkipHeight heightWalk
    let heightSkipPrev := getSkipHeight (heightWalk - 1)
    let b := deref t pindexWalk
    -- `pindexWalk->pskip != NULL && (...)`
    match b.pskip.filter fun _ => decide (heightSkip = height ∨ (heightSkip > height ∧
        ¬ ((heightSkipPrev : Int) < heightSkip - 2 ∧ heightSkipPrev ≥ height))) with
    | some pskip =>
      have : heightSkip < heightWalk := getSkipHeight_lt (by omega)
      getAncestorWalk t height pskip heightSkip
    | none =>
      match b.pprev with
      | some pprev => getAncestorWalk t height pprev (heightWalk - 1)
      | none => throw "GetAncestor: assert(pindexWalk->pprev)"
  else pure pindexWalk
termination_by heightWalk
decreasing_by all_goals omega

/-- `GetAncestor(height)`: `NULL` outside `0 ≤ height ≤ nHeight`. -/
def getAncestor (t : List CBlockIndex) (p : Nat) (height : Int) : Except String (Option Nat) :=
  let b := deref t p
  if height > b.nHeight ∨ height < 0 then pure none
  else some <$> getAncestorWalk t height.toNat p b.nHeight

/-- `AddToBlockIndex` for a header with version `nVersion` and time `nTime` whose parent is
`pprev`: the new index, at the end of the arena, is one above its parent and gets its skip
pointer from `BuildSkip()`; without a parent it is at height `0`. -/
def addToBlockIndex (t : List CBlockIndex) (nVersion : Int) (nTime : Nat) (pprev : Option Nat) :
    Except String (List CBlockIndex) :=
  match pprev with
  | none => pure (t ++ [{ nVersion, nTime }])
  | some q => do
    let nHeight := (deref t q).nHeight + 1
    -- BuildSkip()
    let pskip ← getAncestor t q (getSkipHeight nHeight)
    pure (t ++ [{ pprev := some q, pskip, nHeight, nVersion, nTime }])

/-- The arenas `AddToBlockIndex` builds, each parent an index already there. -/
inductive Built : List CBlockIndex → Prop where
  | nil : Built []
  | add {t t' : List CBlockIndex} (nVersion : Int) (nTime : Nat) (pprev : Option Nat) :
      Built t → (∀ q ∈ pprev, q < t.length) → addToBlockIndex t nVersion nTime pprev = .ok t' →
      Built t'

/-! ### Following `pprev` -/

/-- The index reached from `p` by following `pprev` `k` times. -/
def ancestor (t : List CBlockIndex) (p : Nat) : Nat → Option Nat
  | 0 => some p
  | k + 1 => (deref t p).pprev.bind fun q => ancestor t q k

theorem ancestor_add (t : List CBlockIndex) (p a b : Nat) :
    ancestor t p (a + b) = (ancestor t p a).bind fun q => ancestor t q b := by
  induction a generalizing p with
  | zero => simp [ancestor]
  | succ a ih =>
    rw [Nat.add_right_comm, ancestor, ancestor]
    cases (deref t p).pprev with
    | none => rfl
    | some q => exact ih q

theorem ancestor_of_pprev {t : List CBlockIndex} {p q : Nat} (h : (deref t p).pprev = some q)
    (k : Nat) : ancestor t p (k + 1) = ancestor t q k := by
  simp [ancestor, h]

/-- The shape of an arena `AddToBlockIndex` builds. -/
structure WellFormed (t : List CBlockIndex) : Prop where
  pprev_lt : ∀ i < t.length, ∀ q, (deref t i).pprev = some q → q < i
  nHeight_pprev : ∀ i < t.length, ∀ q, (deref t i).pprev = some q →
    (deref t i).nHeight = (deref t q).nHeight + 1
  nHeight_root : ∀ i < t.length, (deref t i).pprev = none → (deref t i).nHeight = 0
  pskip_eq : ∀ i < t.length, ∀ s, (deref t i).pskip = some s →
    ancestor t i ((deref t i).nHeight - getSkipHeight (deref t i).nHeight) = some s

section WellFormed

variable {t : List CBlockIndex}

/-- Below an index, its ancestors exist down to height `0`, one lower at each step. -/
theorem WellFormed.ancestor_spec (ht : WellFormed t) :
    ∀ (k : Nat) {p : Nat}, p < t.length → k ≤ (deref t p).nHeight →
      ∃ q, ancestor t p k = some q ∧ q < t.length ∧ (deref t q).nHeight = (deref t p).nHeight - k
  | 0, p, hp, _ => ⟨p, rfl, hp, rfl⟩
  | k + 1, p, hp, hk => by
    cases hprev : (deref t p).pprev with
    | none => rw [ht.nHeight_root p hp hprev] at hk; omega
    | some q =>
      have hq := ht.pprev_lt p hp q hprev
      have hh := ht.nHeight_pprev p hp q hprev
      obtain ⟨r, hr, hrlen, hrh⟩ := ht.ancestor_spec k (p := q) (hq.trans hp) (by omega)
      exact ⟨r, by rw [ancestor_of_pprev hprev, hr], hrlen, by omega⟩

/-- An index's height is at most its position: its parent is earlier and one lower. -/
theorem WellFormed.nHeight_le (ht : WellFormed t) : ∀ i < t.length, (deref t i).nHeight ≤ i := by
  intro i
  induction i using Nat.strong_induction_on with
  | _ i ih =>
    intro hi
    cases hprev : (deref t i).pprev with
    | none => rw [ht.nHeight_root i hi hprev]; omega
    | some q =>
      have hq := ht.pprev_lt i hi q hprev
      have := ih q hq (hq.trans hi)
      rw [ht.nHeight_pprev i hi q hprev]
      omega

/-- The walk of `GetAncestor` from an index at its own height ends at the ancestor at `height`:
each step follows a pointer to the ancestor at the height it steps to, never below `height`. -/
theorem WellFormed.getAncestorWalk_eq (ht : WellFormed t) (height : Nat) :
    ∀ (heightWalk : Nat) {p : Nat}, p < t.length → (deref t p).nHeight = heightWalk →
      height ≤ heightWalk →
      ∃ q, getAncestorWalk t height p heightWalk = .ok q ∧
        ancestor t p (heightWalk - height) = some q := by
  intro heightWalk
  induction heightWalk using Nat.strong_induction_on with
  | _ heightWalk ih =>
    intro p hp hpw hle
    rw [getAncestorWalk]
    by_cases hwalk : heightWalk > height
    · rw [dif_pos hwalk]
      simp only
      split
      · -- the `pskip` step: the ancestor at the skip height, not below `height`
        rename_i s hfilter
        obtain ⟨hps, hcond⟩ := Option.filter_eq_some_iff.mp hfilter
        have hskip := getSkipHeight_lt (show 0 < heightWalk by omega)
        have hsge : height ≤ getSkipHeight heightWalk := by simp at hcond; omega
        have hs := ht.pskip_eq p hp s hps
        rw [hpw] at hs
        obtain ⟨q', hq', hq'len, hq'h⟩ :=
          ht.ancestor_spec (heightWalk - getSkipHeight heightWalk) hp (by omega)
        rw [hs] at hq'
        cases hq'
        obtain ⟨r, hr, hanc⟩ := ih (getSkipHeight heightWalk) hskip hq'len (by omega) hsge
        refine ⟨r, hr, ?_⟩
        rw [show heightWalk - height = (heightWalk - getSkipHeight heightWalk) +
          (getSkipHeight heightWalk - height) by omega, ancestor_add, hs]
        exact hanc
      · -- the `pprev` step: there is a parent, one lower
        cases hpp : (deref t p).pprev with
        | none => rw [ht.nHeight_root p hp hpp] at hpw; omega
        | some q =>
          have hq := ht.pprev_lt p hp q hpp
          have hqh := ht.nHeight_pprev p hp q hpp
          obtain ⟨r, hr, hanc⟩ := ih (heightWalk - 1) (by omega) (p := q) (hq.trans hp)
            (by omega) (by omega)
          refine ⟨r, hr, ?_⟩
          rw [show heightWalk - height = heightWalk - 1 - height + 1 by omega,
            ancestor_of_pprev hpp, hanc]
    · rw [dif_neg hwalk]
      exact ⟨p, rfl, by rw [show heightWalk - height = 0 by omega]; rfl⟩

/-- `GetAncestor(h)` follows `pprev` `nHeight - h` times, and is `NULL` outside the range. -/
theorem WellFormed.getAncestor_eq (ht : WellFormed t) {p : Nat} (hp : p < t.length) (h : Int) :
    getAncestor t p h = .ok (if 0 ≤ h ∧ h ≤ (deref t p).nHeight then
      ancestor t p ((deref t p).nHeight - h.toNat) else none) := by
  unfold getAncestor
  by_cases hrange : h > (deref t p).nHeight ∨ h < 0
  · rw [if_pos hrange, if_neg (by omega)]
    rfl
  · rw [if_neg hrange, if_pos (by omega)]
    obtain ⟨q, hq, hanc⟩ := ht.getAncestorWalk_eq h.toNat _ hp rfl (by omega)
    rw [hq, hanc]
    rfl

end WellFormed

/-! ### Building keeps the arena well formed -/

theorem deref_append_of_lt {t : List CBlockIndex} (s : List CBlockIndex) {i : Nat}
    (hi : i < t.length) : deref (t ++ s) i = deref t i := by
  simp [deref, List.getD_eq_getElem?_getD, List.getElem?_append_left hi]

theorem deref_append_length (t : List CBlockIndex) (b : CBlockIndex) :
    deref (t ++ [b]) t.length = b := by
  simp [deref]

/-- The ancestors of an old index are old indexes, so appending changes none of them. -/
theorem ancestor_append {t : List CBlockIndex} (ht : WellFormed t) (s : List CBlockIndex) :
    ∀ (k : Nat) {p : Nat}, p < t.length → ancestor (t ++ s) p k = ancestor t p k
  | 0, _, _ => rfl
  | k + 1, p, hp => by
    simp only [ancestor, deref_append_of_lt s hp]
    cases hpp : (deref t p).pprev with
    | none => rfl
    | some q => exact ancestor_append ht s k (ht.pprev_lt p hp q hpp |>.trans hp)

/-- An index appended to a well-formed arena, with an earlier parent one below it, or none
and height `0`, and the skip pointer to the ancestor at its skip height, keeps it well formed. -/
theorem WellFormed.append {t : List CBlockIndex} (ht : WellFormed t) {b : CBlockIndex}
    (hprev : ∀ q, b.pprev = some q → q < t.length ∧ b.nHeight = (deref t q).nHeight + 1)
    (hroot : b.pprev = none → b.nHeight = 0)
    (hskip : ∀ s, b.pskip = some s →
      ∃ q, b.pprev = some q ∧ ancestor t q (b.nHeight - 1 - getSkipHeight b.nHeight) = some s) :
    WellFormed (t ++ [b]) := by
  -- each field: an old index reads as before, the new one as `b`
  have hcases : ∀ i < (t ++ [b]).length, i < t.length ∨ i = t.length := fun i hi => by
    simp at hi; omega
  refine ⟨fun i hi q hq => ?_, fun i hi q hq => ?_, fun i hi hr => ?_, fun i hi s hs => ?_⟩
  · rcases hcases i hi with hi | rfl
    · rw [deref_append_of_lt _ hi] at hq
      exact ht.pprev_lt i hi q hq
    · rw [deref_append_length] at hq
      exact (hprev q hq).1
  · rcases hcases i hi with hi | rfl
    · rw [deref_append_of_lt _ hi] at hq ⊢
      rw [deref_append_of_lt _ (ht.pprev_lt i hi q hq |>.trans hi)]
      exact ht.nHeight_pprev i hi q hq
    · rw [deref_append_length] at hq ⊢
      rw [deref_append_of_lt _ (hprev q hq).1]
      exact (hprev q hq).2
  · rcases hcases i hi with hi | rfl
    · rw [deref_append_of_lt _ hi] at hr ⊢
      exact ht.nHeight_root i hi hr
    · rw [deref_append_length] at hr ⊢
      exact hroot hr
  · rcases hcases i hi with hi | rfl
    · rw [deref_append_of_lt _ hi] at hs ⊢
      rw [ancestor_append ht _ _ hi]
      exact ht.pskip_eq i hi s hs
    · rw [deref_append_length] at hs ⊢
      obtain ⟨q, hq, hanc⟩ := hskip s hs
      obtain ⟨hqlen, hqh⟩ := hprev q hq
      have hlt := getSkipHeight_lt (show 0 < b.nHeight by omega)
      rw [show b.nHeight - getSkipHeight b.nHeight =
          b.nHeight - 1 - getSkipHeight b.nHeight + 1 by omega,
        ancestor_of_pprev (by rw [deref_append_length]; exact hq), ancestor_append ht _ _ hqlen]
      exact hanc

theorem WellFormed.nil : WellFormed [] :=
  ⟨fun _ h => absurd h (Nat.not_lt_zero _), fun _ h => absurd h (Nat.not_lt_zero _),
    fun _ h => absurd h (Nat.not_lt_zero _), fun _ h => absurd h (Nat.not_lt_zero _)⟩

/-- `AddToBlockIndex` keeps the arena well formed; `BuildSkip`'s `GetAncestor` does not fail. -/
theorem WellFormed.of_addToBlockIndex {t t' : List CBlockIndex} (ht : WellFormed t) {nVersion : Int}
    {nTime : Nat} {pprev : Option Nat} (hp : ∀ q ∈ pprev, q < t.length)
    (h : addToBlockIndex t nVersion nTime pprev = .ok t') : WellFormed t' := by
  cases pprev with
  | none =>
    cases h
    exact ht.append (fun _ h => nomatch h) (fun _ => rfl) (fun _ h => nomatch h)
  | some q =>
    have hq := hp q rfl
    have hlt := getSkipHeight_lt (show 0 < (deref t q).nHeight + 1 by omega)
    simp only [addToBlockIndex, ht.getAncestor_eq hq] at h
    cases h
    refine ht.append (fun _ h => ?_) (fun h => nomatch h) (fun s hs => ⟨q, rfl, ?_⟩)
    · cases h
      exact ⟨hq, rfl⟩
    · rw [if_pos (by omega)] at hs
      rw [← hs]
      simp

theorem Built.wellFormed {t : List CBlockIndex} (h : Built t) : WellFormed t := by
  induction h with
  | nil => exact .nil
  | add _ _ _ _ hp hadd ih => exact ih.of_addToBlockIndex hp hadd

end Trumpow
