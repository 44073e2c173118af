import Trumpow.Chain.BlockIndex
import Trumpow.Support.Blanks
import Trumpow.Support.Fold
import Mathlib.Logic.Relation

/-!
# Chain — the active chain

`CChain` of `chain.h`, `chain.cpp`: `vChain` holds the index at each height, `NULL` where
`resize` added a slot that is not yet set.  `SetTip(pindex)` resizes it to the new tip's height
and walks down from the tip along `pprev`, writing each index at its height, until it meets an
index already in place; below that it relies on the old chain being consistent.
`FindFork(pindex)` brings `pindex` down to the chain's height and walks down until an index is
in the chain.

A run interleaves `AddToBlockIndex` and `SetTip` (`ChainStep`).  Along every run the arena is
well formed and `vChain` is empty or the chain from a root up to an index (`chainTo`)
(`ChainState.Reachable.consistent`).  From that, `SetTip(p)` leaves exactly the chain up to `p`
(`setTip_eq`), every entry `vChain[h]` is at height `h` with parent `vChain[h - 1]`
(`Consistent.entry`), and `FindFork(p)` is the highest common ancestor of `p` and the tip: the
common ancestors are exactly its ancestors (`findFork_spec`).

The two loops run on fuel, the height of the index they start from plus one; running out of it
is an error, which no run meets.  A read of `vChain` beyond its end, which a consistent chain
never makes, reads `NULL`.
-/

namespace Trumpow

/-- `CChain`. -/
structure CChain where
  vChain : List (Option Nat) := []
deriving DecidableEq

namespace CChain

/-- `Height()`: `-1` for an empty chain. -/
def height (c : CChain) : Int := c.vChain.length - 1

/-- `Tip()`. -/
def tip (c : CChain) : Option Nat :=
  if c.vChain.length > 0 then c.vChain.getD (c.vChain.length - 1) none else none

/-- `(*this)[nHeight]`: `NULL` outside the chain. -/
def get (c : CChain) (nHeight : Int) : Option Nat :=
  if nHeight < 0 ∨ nHeight ≥ c.vChain.length then none else c.vChain.getD nHeight.toNat none

/-- `Contains(pindex)`. -/
def Contains (t : List CBlockIndex) (c : CChain) (p : Nat) : Prop :=
  c.get (deref t p).nHeight = some p

instance (t : List CBlockIndex) (c : CChain) (p : Nat) : Decidable (c.Contains t p) :=
  inferInstanceAs (Decidable (_ = _))

/-- The loop of `SetTip`: while `pindex` is not in place, put it in place and go to `pprev`. -/
def setTipLoop (t : List CBlockIndex) : Nat → List (Option Nat) → Option Nat →
    Except String (List (Option Nat))
  | _, vChain, none => pure vChain
  | 0, _, some _ => throw "SetTip: out of fuel"
  | fuel + 1, vChain, some p =>
    let h := (deref t p).nHeight
    if vChain.getD h none ≠ some p then setTipLoop t fuel (vChain.set h (some p)) (deref t p).pprev
    else pure vChain

/-- `vChain.resize(n)`: truncated, or padded with `NULL`. -/
def resize (vChain : List (Option Nat)) (n : Nat) : List (Option Nat) :=
  (vChain.take n).rightpad n none

/-- `SetTip(pindex)`. -/
def setTip (t : List CBlockIndex) (c : CChain) : Option Nat → Except String CChain
  | none => pure ⟨[]⟩
  | some p => do
    let n := (deref t p).nHeight + 1
    let vChain ← setTipLoop t n (resize c.vChain n) (some p)
    pure ⟨vChain⟩

/-- The loop of `FindFork`: while `pindex` is not in the chain, go to `pprev`. -/
def findForkLoop (t : List CBlockIndex) (c : CChain) : Nat → Option Nat → Except String (Option Nat)
  | _, none => pure none
  | 0, some _ => throw "FindFork: out of fuel"
  | fuel + 1, some p => if c.Contains t p then pure (some p) else findForkLoop t c fuel (deref t p).pprev

/-- `FindFork(pindex)`. -/
def findFork (t : List CBlockIndex) (c : CChain) : Option Nat → Except String (Option Nat)
  | none => pure none
  | some p => do
    let pindex ← if (deref t p).nHeight > c.height then getAncestor t p c.height else pure (some p)
    findForkLoop t c ((deref t p).nHeight + 1) pindex

end CChain

/-! ### Consistent chains -/

/-- The chain from a root up to `p`: at each height, `p`'s ancestor there. -/
def chainTo (t : List CBlockIndex) (p : Nat) : List (Option Nat) :=
  (List.range ((deref t p).nHeight + 1)).map fun h => ancestor t p ((deref t p).nHeight - h)

theorem length_chainTo (t : List CBlockIndex) (p : Nat) :
    (chainTo t p).length = (deref t p).nHeight + 1 := by
  simp [chainTo]

theorem getD_chainTo (t : List CBlockIndex) (p : Nat) (h : Nat) :
    (chainTo t p).getD h none =
      if h ≤ (deref t p).nHeight then ancestor t p ((deref t p).nHeight - h) else none := by
  simp only [chainTo, List.getD_eq_getElem?_getD, List.getElem?_map]
  by_cases hh : h ≤ (deref t p).nHeight
  · rw [if_pos hh, List.getElem?_range (by omega)]
    rfl
  · rw [if_neg hh, List.getElem?_eq_none (by simp; omega)]
    rfl

/-- `vChain` is empty or the chain up to one of the indexes. -/
def Consistent (t : List CBlockIndex) (c : CChain) : Prop :=
  c.vChain = [] ∨ ∃ p < t.length, c.vChain = chainTo t p

/-- `p` is reached from `q` along `pprev`. -/
def IsAncestor (t : List CBlockIndex) (p q : Nat) : Prop := ∃ k, ancestor t q k = some p

section WellFormed

variable {t : List CBlockIndex}

/-- An ancestor `k` steps down is `k` lower. -/
theorem WellFormed.ancestor_nHeight (ht : WellFormed t) :
    ∀ (k : Nat) {p q : Nat}, p < t.length → ancestor t p k = some q →
      q < t.length ∧ (deref t q).nHeight + k = (deref t p).nHeight
  | 0, _, _, hp, h => by cases h; exact ⟨hp, rfl⟩
  | k + 1, p, q, hp, h => by
    cases hpp : (deref t p).pprev with
    | none => simp [ancestor, hpp] at h
    | some r =>
      rw [ancestor_of_pprev hpp] at h
      have hr := ht.pprev_lt p hp r hpp
      obtain ⟨hq, hqh⟩ := ht.ancestor_nHeight k (hr.trans hp) h
      have := ht.nHeight_pprev p hp r hpp
      exact ⟨hq, by omega⟩

/-- An ancestor is the one at its own height. -/
theorem WellFormed.isAncestor_iff (ht : WellFormed t) {p q : Nat} (hq : q < t.length) :
    IsAncestor t p q ↔ (deref t p).nHeight ≤ (deref t q).nHeight ∧
      ancestor t q ((deref t q).nHeight - (deref t p).nHeight) = some p := by
  constructor
  · rintro ⟨k, hk⟩
    have := (ht.ancestor_nHeight k hq hk).2
    exact ⟨by omega, by rw [show (deref t q).nHeight - (deref t p).nHeight = k by omega]; exact hk⟩
  · rintro ⟨-, h⟩
    exact ⟨_, h⟩

theorem isAncestor_trans {p q r : Nat} (hpq : IsAncestor t p q)
    (hqr : IsAncestor t q r) : IsAncestor t p r := by
  obtain ⟨a, ha⟩ := hpq
  obtain ⟨b, hb⟩ := hqr
  exact ⟨b + a, by rw [ancestor_add, hb]; exact ha⟩

/-- A consistent chain's entries: each at its height, its parent the entry below. -/
theorem WellFormed.chainTo_entry (ht : WellFormed t) {p : Nat} (hp : p < t.length) {h : Nat}
    (hh : h < (chainTo t p).length) :
    ∃ q, (chainTo t p).getD h none = some q ∧ (deref t q).nHeight = h ∧
      (deref t q).pprev = if h = 0 then none else (chainTo t p).getD (h - 1) none := by
  rw [length_chainTo] at hh
  obtain ⟨q, hq, hqlen, hqh⟩ := ht.ancestor_spec ((deref t p).nHeight - h) hp (by omega)
  refine ⟨q, by rw [getD_chainTo, if_pos (by omega), hq], by omega, ?_⟩
  cases hqp : (deref t q).pprev with
  | none =>
    have := ht.nHeight_root q hqlen hqp
    rw [if_pos (by omega)]
  | some r =>
    have := ht.nHeight_pprev q hqlen r hqp
    rw [if_neg (by omega), getD_chainTo, if_pos (by omega),
      show (deref t p).nHeight - (h - 1) = (deref t p).nHeight - h + 1 by omega, ancestor_add, hq]
    simp [ancestor, hqp]

end WellFormed

/-! ### `SetTip` -/

/-- Each index set at or below `k` heads a consistent chain below it: what `SetTip` relies on
when it stops at an index already in place. -/
def ConsistentBelow (t : List CBlockIndex) (v : List (Option Nat)) (k : Nat) : Prop :=
  ∀ h ≤ k, ∀ x, v.getD h none = some x → ∀ h' ≤ h, v.getD h' none = ancestor t x (h - h')

section SetTip

variable {t : List CBlockIndex} {p : Nat} {v : List (Option Nat)}

/-- Where `SetTip` stops, at the index `c` of height `k` on the way down from `p`, already in
place: the heights above `k` are set, the old chain below is `c`'s, so `vChain` is the chain up
to `p`. -/
theorem eq_chainTo_of_stop {k c : Nat} (hlen : v.length = (deref t p).nHeight + 1)
    (hc : ancestor t p ((deref t p).nHeight - k) = some c) (hk : k ≤ (deref t p).nHeight)
    (habove : ∀ h, k < h → h ≤ (deref t p).nHeight →
      v.getD h none = ancestor t p ((deref t p).nHeight - h))
    (hbelow : ConsistentBelow t v k) (hvk : v.getD k none = some c) : v = chainTo t p := by
  refine List.ext_getD (d := none) (by rw [hlen, length_chainTo]) fun h hh => ?_
  rw [getD_chainTo, if_pos (by omega)]
  by_cases hhk : k < h
  · exact habove h hhk (by omega)
  · rw [hbelow k le_rfl c hvk h (by omega), show (deref t p).nHeight - h =
      ((deref t p).nHeight - k) + (k - h) by omega, ancestor_add, hc]
    rfl

/-- Setting the slot at `k` adds it to the heights set above. -/
theorem setTip_step_above {k c : Nat} (hlen : v.length = (deref t p).nHeight + 1)
    (hc : ancestor t p ((deref t p).nHeight - k) = some c) (hk : k ≤ (deref t p).nHeight)
    (habove : ∀ h, k < h → h ≤ (deref t p).nHeight →
      v.getD h none = ancestor t p ((deref t p).nHeight - h)) :
    ∀ h, k ≤ h → h ≤ (deref t p).nHeight →
      (v.set k (some c)).getD h none = ancestor t p ((deref t p).nHeight - h) := by
  intro h hkh hh
  rw [List.getD_set_of_lt _ (by omega)]
  split
  · subst_vars
    exact hc.symm
  · exact habove h (by omega) hh

/-- ... and leaves the slots below as they were. -/
theorem setTip_step_below {k : Nat} (x : Option Nat) (hk : k < v.length) (hk0 : 0 < k)
    (hbelow : ConsistentBelow t v k) : ConsistentBelow t (v.set k x) (k - 1) := by
  intro h hh y hy h' hh'
  rw [List.getD_set_of_lt _ hk, if_neg (by omega)] at hy
  rw [List.getD_set_of_lt _ hk, if_neg (by omega)]
  exact hbelow h (by omega) y hy h' hh'

/-- The loop of `SetTip`, at the index `c` of height `k` on the way down from `p`, with the
heights above `k` set and those at or below holding the old chain, ends with the chain up to
`p`. -/
theorem WellFormed.setTipLoop_eq (ht : WellFormed t) (hp : p < t.length) :
    ∀ (k : Nat) {v : List (Option Nat)} {c : Nat}, v.length = (deref t p).nHeight + 1 →
      ancestor t p ((deref t p).nHeight - k) = some c → k ≤ (deref t p).nHeight →
      (∀ h, k < h → h ≤ (deref t p).nHeight →
        v.getD h none = ancestor t p ((deref t p).nHeight - h)) →
      ConsistentBelow t v k →
      CChain.setTipLoop t (k + 1) v (some c) = .ok (chainTo t p) := by
  intro k
  induction k with
  | zero =>
    intro v c hlen hc hk habove hbelow
    obtain ⟨hclen, hch⟩ := ht.ancestor_nHeight _ hp hc
    rw [CChain.setTipLoop, show (deref t c).nHeight = 0 by omega]
    by_cases hvk : v.getD 0 none = some c
    · rw [if_neg (not_not.mpr hvk)]
      exact congrArg _ (eq_chainTo_of_stop hlen hc hk habove hbelow hvk)
    · -- a root: the loop ends below it
      rw [if_pos hvk]
      have hroot : (deref t c).pprev = none := by
        cases hcp : (deref t c).pprev with
        | none => rfl
        | some r => have := ht.nHeight_pprev c hclen r hcp; omega
      have habove' := setTip_step_above hlen hc hk habove
      rw [hroot, CChain.setTipLoop]
      refine congrArg _ (List.ext_getD (d := none)
        (by rw [List.length_set, hlen, length_chainTo]) fun h hh => ?_)
      have hh' : h < (deref t p).nHeight + 1 := by rw [List.length_set, hlen] at hh; exact hh
      rw [habove' h (Nat.zero_le _) (by omega), getD_chainTo, if_pos (by omega)]
  | succ k ih =>
    intro v c hlen hc hk habove hbelow
    obtain ⟨hclen, hch⟩ := ht.ancestor_nHeight _ hp hc
    rw [CChain.setTipLoop, show (deref t c).nHeight = k + 1 by omega]
    by_cases hvk : v.getD (k + 1) none = some c
    · rw [if_neg (not_not.mpr hvk)]
      exact congrArg _ (eq_chainTo_of_stop hlen hc hk habove hbelow hvk)
    · -- set the slot and go on to the parent, one lower
      rw [if_pos hvk]
      obtain ⟨c', hc'⟩ : ∃ c', (deref t c).pprev = some c' := by
        cases hcp : (deref t c).pprev with
        | none => have := ht.nHeight_root c hclen hcp; omega
        | some r => exact ⟨r, rfl⟩
      have habove' := setTip_step_above hlen hc hk habove
      have hbelow' : ConsistentBelow t (v.set (k + 1) (some c)) k := by
        simpa using setTip_step_below (some c) (by omega) (Nat.succ_pos k) hbelow
      rw [hc']
      refine ih (by rw [List.length_set, hlen]) ?_ (by omega)
        (fun h hkh hh => habove' h (by omega) hh) hbelow'
      rw [show (deref t p).nHeight - k = ((deref t p).nHeight - (k + 1)) + 1 by omega,
        ancestor_add, hc]
      simp [ancestor, hc']

/-- `SetTip(p)` on a consistent chain leaves the chain up to `p`. -/
theorem WellFormed.setTip_eq (ht : WellFormed t) {c : CChain} (hc : Consistent t c)
    (hp : p < t.length) :
    c.setTip t (some p) = .ok ⟨chainTo t p⟩ := by
  simp only [CChain.setTip]
  -- after `resize`, the slots hold the old chain, or `NULL`
  have hres : ∀ h ≤ (deref t p).nHeight,
      (CChain.resize c.vChain ((deref t p).nHeight + 1)).getD h none = c.vChain.getD h none :=
    fun h hh => by rw [CChain.resize, List.getD_rightpad_take, if_pos (by omega)]
  have hbelow : ConsistentBelow t (CChain.resize c.vChain ((deref t p).nHeight + 1))
      (deref t p).nHeight := by
    intro h hh x hx h' hh'
    rw [hres h hh] at hx
    rw [hres h' (by omega)]
    rcases hc with hnil | ⟨o, -, ho⟩
    · simp [hnil] at hx
    · rw [ho, getD_chainTo] at hx ⊢
      split at hx
      · rw [if_pos (by omega), show (deref t o).nHeight - h' =
          ((deref t o).nHeight - h) + (h - h') by omega, ancestor_add, hx]
        rfl
      · cases hx
  have hloop := ht.setTipLoop_eq hp (deref t p).nHeight (c := p)
    (by rw [CChain.resize, List.length_rightpad, List.length_take]; omega) (by simp [ancestor])
    le_rfl
    (fun h hh hh' => by omega) hbelow
  rw [hloop]
  rfl

end SetTip

/-! ### `FindFork` -/

section FindFork

variable {t : List CBlockIndex} {c : CChain}

theorem isAncestor_self (t : List CBlockIndex) (p : Nat) : IsAncestor t p p := ⟨0, rfl⟩

/-- The ancestors of an index are itself and its parent's. -/
theorem isAncestor_of_pprev_iff {x y : Nat} (h : (deref t x).pprev = some y) (a : Nat) :
    IsAncestor t a x ↔ a = x ∨ IsAncestor t a y := by
  constructor
  · rintro ⟨k, hk⟩
    cases k with
    | zero => cases hk; exact .inl rfl
    | succ k => rw [ancestor_of_pprev h] at hk; exact .inr ⟨k, hk⟩
  · rintro (rfl | ⟨k, hk⟩)
    · exact isAncestor_self t a
    · exact ⟨k + 1, by rw [ancestor_of_pprev h]; exact hk⟩

theorem isAncestor_of_root_iff {x : Nat} (h : (deref t x).pprev = none) (a : Nat) :
    IsAncestor t a x ↔ a = x := by
  constructor
  · rintro ⟨k, hk⟩
    cases k with
    | zero => cases hk; rfl
    | succ k => simp [ancestor, h] at hk
  · rintro rfl
    exact isAncestor_self t a

theorem get_of_vChain_eq_nil (hc : c.vChain = []) (h : Int) : c.get h = none := by
  simp [CChain.get, hc]

/-- In the chain up to `o`, the indexes are the ancestors of `o`. -/
theorem WellFormed.contains_iff (ht : WellFormed t) {o : Nat} (ho : o < t.length)
    (hc : c.vChain = chainTo t o) (a : Nat) : c.Contains t a ↔ IsAncestor t a o := by
  rw [ht.isAncestor_iff ho, CChain.Contains, CChain.get, hc, length_chainTo]
  by_cases hh : (deref t a).nHeight ≤ (deref t o).nHeight
  · rw [if_neg (by omega), Int.toNat_natCast, getD_chainTo, if_pos hh]
    exact ⟨fun h => ⟨hh, h⟩, fun h => h.2⟩
  · rw [if_pos (by omega)]
    exact ⟨fun h => (nomatch h), fun h => absurd h.1 hh⟩

/-- An index in the chain is below its height. -/
theorem contains_nHeight_le {a : Nat} (h : c.Contains t a) : (deref t a).nHeight ≤ c.height := by
  unfold CChain.Contains CChain.get at h
  unfold CChain.height
  split at h
  · cases h
  · omega

/-- A consistent chain holds every ancestor of an index it holds. -/
theorem WellFormed.contains_of_isAncestor (ht : WellFormed t) (hc : Consistent t c) {x a : Nat}
    (hcx : c.Contains t x) (hax : IsAncestor t a x) : c.Contains t a := by
  rcases hc with hnil | ⟨o, ho, hco⟩
  · rw [CChain.Contains, get_of_vChain_eq_nil hnil] at hcx
    cases hcx
  · rw [ht.contains_iff ho hco] at hcx ⊢
    exact isAncestor_trans hax hcx

/-- The loop of `FindFork` from `x` at height `j` ends at the highest index of the chain below
`x`: the indexes below `x` in the chain are exactly the ancestors of what it returns. -/
theorem WellFormed.findForkLoop_spec (ht : WellFormed t) (hc : Consistent t c) :
    ∀ (j : Nat) {x fuel : Nat}, x < t.length → (deref t x).nHeight = j → j < fuel →
      ∃ r, CChain.findForkLoop t c fuel (some x) = .ok r ∧
        ∀ a, (IsAncestor t a x ∧ c.Contains t a) ↔ ∃ f, r = some f ∧ IsAncestor t a f := by
  intro j
  induction j with
  | zero =>
    intro x fuel hx hxh hfuel
    obtain ⟨fuel, rfl⟩ : ∃ f, fuel = f + 1 := ⟨fuel - 1, by omega⟩
    have hroot : (deref t x).pprev = none := by
      cases hxp : (deref t x).pprev with
      | none => rfl
      | some y => have := ht.nHeight_pprev x hx y hxp; omega
    by_cases hcx : c.Contains t x
    · refine ⟨some x, by simp only [CChain.findForkLoop, if_pos hcx]; rfl, fun a => ?_⟩
      exact ⟨fun h => ⟨x, rfl, h.1⟩, fun ⟨_, hf, ha⟩ => by
        cases hf; exact ⟨ha, ht.contains_of_isAncestor hc hcx ha⟩⟩
    · refine ⟨none, by simp only [CChain.findForkLoop, if_neg hcx, hroot]; rfl, fun a => ?_⟩
      rw [isAncestor_of_root_iff hroot]
      exact ⟨fun ⟨ha, hca⟩ => absurd (ha ▸ hca) hcx, fun ⟨_, hf, _⟩ => by cases hf⟩
  | succ j ih =>
    intro x fuel hx hxh hfuel
    obtain ⟨fuel, rfl⟩ : ∃ f, fuel = f + 1 := ⟨fuel - 1, by omega⟩
    by_cases hcx : c.Contains t x
    · refine ⟨some x, by simp only [CChain.findForkLoop, if_pos hcx]; rfl, fun a => ?_⟩
      exact ⟨fun h => ⟨x, rfl, h.1⟩, fun ⟨_, hf, ha⟩ => by
        cases hf; exact ⟨ha, ht.contains_of_isAncestor hc hcx ha⟩⟩
    · -- not in the chain: go on from the parent, one lower
      obtain ⟨y, hy⟩ : ∃ y, (deref t x).pprev = some y := by
        cases hxp : (deref t x).pprev with
        | none => have := ht.nHeight_root x hx hxp; omega
        | some y => exact ⟨y, rfl⟩
      have hylt := ht.pprev_lt x hx y hy
      have hyh := ht.nHeight_pprev x hx y hy
      obtain ⟨r, hr, hspec⟩ := ih (hylt.trans hx) (by omega) (show j < fuel by omega)
      refine ⟨r, by simp only [CChain.findForkLoop, if_neg hcx, hy, hr], fun a => ?_⟩
      rw [← hspec, isAncestor_of_pprev_iff hy]
      constructor
      · rintro ⟨rfl | ha, hca⟩
        · exact absurd hca hcx
        · exact ⟨ha, hca⟩
      · rintro ⟨ha, hca⟩
        exact ⟨.inr ha, hca⟩

/-- The ancestors of `p` at or below a height are those of its ancestor there. -/
theorem WellFormed.isAncestor_of_nHeight_le (ht : WellFormed t) {p x a k : Nat}
    (hp : p < t.length) (hx : ancestor t p k = some x) (ha : IsAncestor t a p)
    (hh : (deref t a).nHeight ≤ (deref t x).nHeight) : IsAncestor t a x := by
  obtain ⟨j, hj⟩ := ha
  have hjh := ht.ancestor_nHeight j hp hj
  have hkh := ht.ancestor_nHeight k hp hx
  refine ⟨j - k, ?_⟩
  rw [show j = k + (j - k) by omega, ancestor_add, hx] at hj
  exact hj

/-- `FindFork(p)` is the highest index of a consistent chain among `p`'s ancestors: the
indexes of the chain below `p` are exactly the ancestors of what it returns. -/
theorem WellFormed.findFork_spec (ht : WellFormed t) (hc : Consistent t c) {p : Nat}
    (hp : p < t.length) :
    ∃ r, c.findFork t (some p) = .ok r ∧
      ∀ a, (IsAncestor t a p ∧ c.Contains t a) ↔ ∃ f, r = some f ∧ IsAncestor t a f := by
  simp only [CChain.findFork]
  by_cases hgt : (deref t p).nHeight > c.height
  · rw [if_pos hgt, ht.getAncestor_eq hp]
    by_cases hrange : 0 ≤ c.height ∧ c.height ≤ (deref t p).nHeight
    · -- down to the chain's height first
      rw [if_pos hrange]
      obtain ⟨x, hx, hxlen, hxh⟩ := ht.ancestor_spec ((deref t p).nHeight - c.height.toNat) hp
        (by omega)
      obtain ⟨r, hr, hspec⟩ := ht.findForkLoop_spec hc c.height.toNat hxlen (by omega)
        (show c.height.toNat < (deref t p).nHeight + 1 by omega)
      refine ⟨r, by rw [hx]; exact hr, fun a => ?_⟩
      rw [← hspec]
      constructor
      · rintro ⟨ha, hca⟩
        have := contains_nHeight_le hca
        exact ⟨ht.isAncestor_of_nHeight_le hp hx ha (by omega), hca⟩
      · rintro ⟨ha, hca⟩
        exact ⟨isAncestor_trans ha ⟨_, hx⟩, hca⟩
    · -- an empty chain holds nothing
      rw [if_neg hrange]
      refine ⟨none, rfl, fun a => ⟨fun ⟨_, hca⟩ => ?_, fun ⟨_, hf, _⟩ => by cases hf⟩⟩
      have := contains_nHeight_le hca
      omega
  · rw [if_neg hgt]
    exact ht.findForkLoop_spec hc _ hp rfl (Nat.lt_succ_self _)

end FindFork

/-! ### Runs -/

/-- One step of a run: `AddToBlockIndex` for a header whose parent is an index already there,
or `SetTip` to an index or `NULL`. -/
inductive ChainStep : List CBlockIndex × CChain → List CBlockIndex × CChain → Prop where
  | addToBlockIndex {t t' : List CBlockIndex} {c : CChain} (nVersion : Int) (nTime : Nat)
      (pprev : Option Nat) : (∀ q ∈ pprev, q < t.length) →
      addToBlockIndex t nVersion nTime pprev = .ok t' → ChainStep (t, c) (t', c)
  | setTip {t : List CBlockIndex} {c c' : CChain} (pindex : Option Nat) :
      (∀ p ∈ pindex, p < t.length) → c.setTip t pindex = .ok c' → ChainStep (t, c) (t, c')

/-- The states a run reaches from an empty block index and chain. -/
def ChainReachable (s : List CBlockIndex × CChain) : Prop :=
  Relation.ReflTransGen ChainStep ([], {}) s

theorem addToBlockIndex_eq_append {t t' : List CBlockIndex} {nVersion : Int} {nTime : Nat}
    {pprev : Option Nat} (h : addToBlockIndex t nVersion nTime pprev = .ok t') :
    ∃ b, t' = t ++ [b] := by
  cases pprev with
  | none => cases h; exact ⟨_, rfl⟩
  | some q =>
    simp only [addToBlockIndex, Except.bind_eq_ok] at h
    obtain ⟨pskip, -, h⟩ := h
    cases h
    exact ⟨_, rfl⟩

theorem chainTo_append {t : List CBlockIndex} (ht : WellFormed t) (s : List CBlockIndex) {o : Nat}
    (ho : o < t.length) : chainTo (t ++ s) o = chainTo t o := by
  simp only [chainTo, deref_append_of_lt s ho, ancestor_append ht s _ ho]

theorem tip_chainTo (t : List CBlockIndex) (p : Nat) : CChain.tip ⟨chainTo t p⟩ = some p := by
  simp only [CChain.tip, length_chainTo]
  rw [if_pos (by omega), getD_chainTo, if_pos (by omega), Nat.add_sub_cancel, Nat.sub_self]
  rfl

/-- In a consistent chain, the indexes are the ancestors of the tip. -/
theorem WellFormed.contains_iff_tip {t : List CBlockIndex} (ht : WellFormed t) {c : CChain}
    (hc : Consistent t c) (a : Nat) :
    c.Contains t a ↔ ∃ o, c.tip = some o ∧ IsAncestor t a o := by
  rcases hc with hnil | ⟨o, ho, hco⟩
  · rw [CChain.Contains, get_of_vChain_eq_nil hnil]
    simp [CChain.tip, hnil]
  · rw [ht.contains_iff ho hco, show c = ⟨chainTo t o⟩ from congrArg CChain.mk hco, tip_chainTo]
    simp

/-- A step keeps the arena well formed and the chain consistent. -/
theorem ChainStep.invariant {s s' : List CBlockIndex × CChain} (h : ChainStep s s')
    (hs : WellFormed s.1 ∧ Consistent s.1 s.2) : WellFormed s'.1 ∧ Consistent s'.1 s'.2 := by
  obtain ⟨ht, hc⟩ := hs
  cases h with
  | @addToBlockIndex t t' c nVersion nTime pprev hp hadd =>
    refine ⟨ht.of_addToBlockIndex hp hadd, ?_⟩
    obtain ⟨b, rfl⟩ := addToBlockIndex_eq_append hadd
    rcases hc with hnil | ⟨o, ho, hco⟩
    · exact .inl hnil
    · have ho' : o < t.length := ho
      exact .inr ⟨o, by simp only [List.length_append, List.length_singleton]; omega,
        by rw [hco, chainTo_append ht _ ho']⟩
  | setTip pindex hp hset =>
    refine ⟨ht, ?_⟩
    cases pindex with
    | none => cases hset; exact .inl rfl
    | some p =>
      rw [ht.setTip_eq hc (hp p rfl)] at hset
      cases hset
      exact .inr ⟨p, hp p rfl, rfl⟩

theorem ChainReachable.invariant {s : List CBlockIndex × CChain} (h : ChainReachable s) :
    WellFormed s.1 ∧ Consistent s.1 s.2 := by
  induction h with
  | refl => exact ⟨.nil, .inl rfl⟩
  | tail _ hstep ih => exact hstep.invariant ih

end Trumpow
