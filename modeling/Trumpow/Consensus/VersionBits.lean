import Trumpow.Chain.Chain
import Trumpow.Support.Fold
import Mathlib.Data.List.Sort
import Mathlib.Logic.Relation

/-!
# Consensus — BIP9 version bits

`versionbits.cpp`, `versionbits.h`, `chain.h` (`GetMedianTimePast`).  A deployment's state for
a block is that of the first block of its period, computed from the block before it, its
`pindexPrev`.  `GetStateFor` rounds `pindexPrev` down to the last block of the previous period,
walks back a period at a time until the cache knows the state there (or the block is `NULL`, or
its median time past is before the start time), and replays the periods forward, caching each.

The specification is BIP9's: from `DEFINED` at the genesis parent, the transition
`ThresholdState.next` applied at the end of every complete period (`stateFor`).  The cache is
sound when every entry is the specification's state (`CacheSound`); every query keeps it
sound and answers with the specification (`getStateFor_eq`), provided the period is positive,
the start time is not after the timeout, and median time past never decreases along a chain.
Without the second, the walk back stops at a block before the start time and caches
`DEFINED`, where the specification has already failed.

The cache is a function from the key, `NULL` as `none`, to the state it holds, if any.  Loops
without a bound in the source carry fuel, and running out of it is an error.
-/

namespace Trumpow

/-- `ThresholdState`. -/
inductive ThresholdState
  | DEFINED
  | STARTED
  | LOCKED_IN
  | ACTIVE
  | FAILED
deriving DecidableEq, Repr

/-- `ThresholdConditionCache`: the state of the period after a key, the last block of a period
or `NULL`. -/
abbrev ThresholdConditionCache := Option Nat → Option ThresholdState

/-! ### Median time past -/

/-- `nMedianTimeSpan`. -/
def nMedianTimeSpan : Nat := 11

/-- The block times the loop of `GetMedianTimePast` collects: of at most `n` blocks, down from
`pindex` along `pprev`. -/
def medianTimes (t : List CBlockIndex) : Nat → Option Nat → List Int
  | 0, _ => []
  | _ + 1, none => []
  | n + 1, some p => ((deref t p).nTime : Int) :: medianTimes t n (deref t p).pprev

/-- `GetMedianTimePast()`: the middle one of the sorted times. -/
def getMedianTimePast (t : List CBlockIndex) (p : Nat) : Int :=
  let pmedian := (medianTimes t nMedianTimeSpan (some p)).insertionSort (· ≤ ·)
  pmedian.getD (pmedian.length / 2) 0

/-! ### The checker -/

/-- `AbstractThresholdConditionChecker`, with what its virtual methods return for the consensus
parameters it is asked with. -/
structure AbstractThresholdConditionChecker where
  beginTime : Int
  endTime : Int
  period : Int
  threshold : Int
  condition : CBlockIndex → Bool

/-- The loop that counts the blocks of a period meeting the condition: `n` of them, down from
`pindexCount` along `pprev`. -/
def countCondition (t : List CBlockIndex) (c : AbstractThresholdConditionChecker) :
    Nat → Option Nat → Nat → Except String Nat
  | 0, _, count => .ok count
  | _ + 1, none, _ => .error "GetStateFor: pindexCount is NULL"
  | n + 1, some p, count =>
    countCondition t c n (deref t p).pprev (if c.condition (deref t p) then count + 1 else count)

/-- The `switch` of `GetStateFor`'s forward loop: the state of the period after `pindexPrev`,
from the state of the one it ends. -/
def nextState (t : List CBlockIndex) (c : AbstractThresholdConditionChecker)
    (state : ThresholdState) (pindexPrev : Nat) : Except String ThresholdState :=
  match state with
  | .DEFINED =>
    if getMedianTimePast t pindexPrev ≥ c.endTime then .ok .FAILED
    else if getMedianTimePast t pindexPrev ≥ c.beginTime then .ok .STARTED
    else .ok .DEFINED
  | .STARTED =>
    if getMedianTimePast t pindexPrev ≥ c.endTime then .ok .FAILED
    else do
      let count ← countCondition t c c.period.toNat (some pindexPrev) 0
      pure (if (count : Int) ≥ c.threshold then .LOCKED_IN else .STARTED)
  | .LOCKED_IN => .ok .ACTIVE
  | .FAILED => .ok .FAILED
  | .ACTIVE => .ok .ACTIVE

/-- `pindexPrev->GetAncestor(pindexPrev->nHeight - ((pindexPrev->nHeight + 1) % nPeriod))`:
the last block of the previous period, for a `pindexPrev` that is not `NULL`. -/
def alignToPeriod (t : List CBlockIndex) (c : AbstractThresholdConditionChecker) :
    Option Nat → Except String (Option Nat)
  | none => .ok none
  | some p =>
    getAncestor t p ((deref t p).nHeight - (((deref t p).nHeight : Int) + 1).tmod c.period)

/-- The backward loop of `GetStateFor`: down a period at a time until the cache has the key,
collecting the blocks to compute in `vToCompute`, whose head is its `back()`. -/
def walkBack (t : List CBlockIndex) (c : AbstractThresholdConditionChecker) :
    Nat → Option Nat → List Nat → ThresholdConditionCache →
      Except String (Option Nat × List Nat × ThresholdConditionCache)
  | 0, _, _, _ => .error "GetStateFor: out of fuel"
  | fuel + 1, pindexPrev, vToCompute, cache =>
    if (cache pindexPrev).isSome then .ok (pindexPrev, vToCompute, cache)
    else match pindexPrev with
      -- the genesis block is by definition defined
      | none => .ok (none, vToCompute, Function.update cache none (some .DEFINED))
      | some p =>
        -- every earlier block is before the start time too
        if getMedianTimePast t p < c.beginTime then
          .ok (some p, vToCompute, Function.update cache (some p) (some .DEFINED))
        else do
          let pindexPrev ← getAncestor t p ((deref t p).nHeight - c.period)
          walkBack t c fuel pindexPrev (p :: vToCompute) cache

/-- The forward loop of `GetStateFor`: the state of each collected block's next period, each
cached. -/
def walkForward (t : List CBlockIndex) (c : AbstractThresholdConditionChecker) :
    List Nat → ThresholdState → ThresholdConditionCache →
      Except String (ThresholdState × ThresholdConditionCache)
  | [], state, cache => .ok (state, cache)
  | pindexPrev :: vToCompute, state, cache => do
    let stateNext ← nextState t c state pindexPrev
    walkForward t c vToCompute stateNext (Function.update cache (some pindexPrev) (some stateNext))

/-- `GetStateFor`: the state of the block after `pindexPrev`, and the cache it leaves. -/
def getStateFor (t : List CBlockIndex) (c : AbstractThresholdConditionChecker)
    (pindexPrev : Option Nat) (cache : ThresholdConditionCache) :
    Except String (ThresholdState × ThresholdConditionCache) := do
  let pindexPrev ← alignToPeriod t c pindexPrev
  let (pindexPrev, vToCompute, cache) ← walkBack t c (t.length + 1) pindexPrev [] cache
  match cache pindexPrev with
  | none => .error "GetStateFor: assert(cache.count(pindexPrev))"
  | some state => walkForward t c vToCompute state cache

/-- The loop of `GetStateSinceHeightFor`: back a period at a time while the period before has
the same state. -/
def sinceLoop (t : List CBlockIndex) (c : AbstractThresholdConditionChecker)
    (initialState : ThresholdState) :
    Nat → Nat → Option Nat → ThresholdConditionCache → Except String (Int × ThresholdConditionCache)
  | 0, _, _, _ => .error "GetStateSinceHeightFor: out of fuel"
  | fuel + 1, pindexPrev, previousPeriodParent, cache =>
    match previousPeriodParent with
    | none => .ok ((deref t pindexPrev).nHeight + 1, cache)
    | some pp => do
      let (state, cache) ← getStateFor t c (some pp) cache
      if state = initialState then do
        let previousPeriodParent ← getAncestor t pp ((deref t pp).nHeight - c.period)
        sinceLoop t c initialState fuel pp previousPeriodParent cache
      else .ok ((deref t pindexPrev).nHeight + 1, cache)

/-- `GetStateSinceHeightFor`: the first height of the run of periods in the current state. -/
def getStateSinceHeightFor (t : List CBlockIndex) (c : AbstractThresholdConditionChecker)
    (pindexPrev : Option Nat) (cache : ThresholdConditionCache) :
    Except String (Int × ThresholdConditionCache) := do
  let (initialState, cache) ← getStateFor t c pindexPrev cache
  if initialState = .DEFINED then .ok (0, cache)
  else do
    match ← alignToPeriod t c pindexPrev with
    | none => .error "GetStateSinceHeightFor: pindexPrev is NULL"
    | some p => do
      let previousPeriodParent ← getAncestor t p ((deref t p).nHeight - c.period)
      sinceLoop t c initialState (t.length + 1) p previousPeriodParent cache

/-! ### `VersionBitsConditionChecker` -/

/-- `VERSIONBITS_TOP_BITS`. -/
def VERSIONBITS_TOP_BITS : Nat := 0x20000000

/-- `VERSIONBITS_TOP_MASK`. -/
def VERSIONBITS_TOP_MASK : Nat := 0xE0000000

/-- `Consensus::BIP9Deployment`. -/
structure BIP9Deployment where
  bit : Nat
  nStartTime : Int
  nTimeout : Int
deriving DecidableEq, Repr

/-- The fields of `Consensus::Params` the version bits read. -/
structure VersionBitsParams where
  nRuleChangeActivationThreshold : Nat
  nMinerConfirmationWindow : Nat
  vDeployments : List BIP9Deployment

/-- `VersionBitsConditionChecker::Mask`: `(uint32_t)1 << bit`. -/
def versionBitsMask (params : VersionBitsParams) (id : Nat) : Nat :=
  (1 <<< (params.vDeployments.getD id ⟨0, 0, 0⟩).bit) % 2 ^ 32

/-- `VersionBitsConditionChecker`: a version with the top bits `001` and the deployment's bit
set.  The version is read as the 32 bits of the `int32_t`. -/
def versionBitsConditionChecker (params : VersionBitsParams) (id : Nat) :
    AbstractThresholdConditionChecker where
  beginTime := (params.vDeployments.getD id ⟨0, 0, 0⟩).nStartTime
  endTime := (params.vDeployments.getD id ⟨0, 0, 0⟩).nTimeout
  period := params.nMinerConfirmationWindow
  threshold := params.nRuleChangeActivationThreshold
  condition pindex :=
    (pindex.nVersion % 2 ^ 32).toNat &&& VERSIONBITS_TOP_MASK = VERSIONBITS_TOP_BITS &&
      (pindex.nVersion % 2 ^ 32).toNat &&& versionBitsMask params id ≠ 0

/-- `VersionBitsState`. -/
def versionBitsState (t : List CBlockIndex) (pindexPrev : Option Nat) (params : VersionBitsParams)
    (pos : Nat) (cache : ThresholdConditionCache) :
    Except String (ThresholdState × ThresholdConditionCache) :=
  getStateFor t (versionBitsConditionChecker params pos) pindexPrev cache

/-- `VersionBitsStateSinceHeight`. -/
def versionBitsStateSinceHeight (t : List CBlockIndex) (pindexPrev : Option Nat)
    (params : VersionBitsParams) (pos : Nat) (cache : ThresholdConditionCache) :
    Except String (Int × ThresholdConditionCache) :=
  getStateSinceHeightFor t (versionBitsConditionChecker params pos) pindexPrev cache

/-! ### The specification -/

/-- BIP9's transition at the end of a period, from the median time past of its last block and
the number of its blocks that meet the condition. -/
def ThresholdState.next (c : AbstractThresholdConditionChecker) (mtp : Int) (count : Nat) :
    ThresholdState → ThresholdState
  | .DEFINED => if mtp ≥ c.endTime then .FAILED else if mtp ≥ c.beginTime then .STARTED else .DEFINED
  | .STARTED =>
    if mtp ≥ c.endTime then .FAILED else if (count : Int) ≥ c.threshold then .LOCKED_IN else .STARTED
  | .LOCKED_IN => .ACTIVE
  | .FAILED => .FAILED
  | .ACTIVE => .ACTIVE

/-- The moves between consecutive periods: forward along `DEFINED`, `STARTED`, `LOCKED_IN`,
`ACTIVE`, or to `FAILED` before lock-in. -/
inductive ThresholdState.Step : ThresholdState → ThresholdState → Prop
  | start : Step .DEFINED .STARTED
  | lockIn : Step .STARTED .LOCKED_IN
  | activate : Step .LOCKED_IN .ACTIVE
  | failDefined : Step .DEFINED .FAILED
  | failStarted : Step .STARTED .FAILED

/-- The last blocks of the complete periods on the chain up to `pindexPrev`, oldest first: its
ancestors at heights `period - 1`, `2 * period - 1`, and so on. -/
def periodEnds (t : List CBlockIndex) (c : AbstractThresholdConditionChecker) :
    Option Nat → List Nat
  | none => []
  | some p =>
    (List.range (((deref t p).nHeight + 1) / c.period.toNat)).filterMap fun j =>
      ancestor t p ((deref t p).nHeight - (c.period.toNat * (j + 1) - 1))

/-- How many of the `period` blocks down from `b` meet the condition. -/
def periodCount (t : List CBlockIndex) (c : AbstractThresholdConditionChecker) (b : Nat) : Nat :=
  ((List.range c.period.toNat).filterMap (ancestor t b)).countP fun p => c.condition (deref t p)

/-- The transition at the end of the period that ends at `b`. -/
def periodStep (t : List CBlockIndex) (c : AbstractThresholdConditionChecker)
    (state : ThresholdState) (b : Nat) : ThresholdState :=
  state.next c (getMedianTimePast t b) (periodCount t c b)

/-- BIP9's state of the block after `pindexPrev`: `DEFINED` at the genesis parent, then one
transition at the end of each complete period. -/
def stateFor (t : List CBlockIndex) (c : AbstractThresholdConditionChecker)
    (pindexPrev : Option Nat) : ThresholdState :=
  (periodEnds t c pindexPrev).foldl (periodStep t c) .DEFINED

/-- The state of the `i`-th period on the chain up to `pindexPrev`, from height `i * period`. -/
def periodState (t : List CBlockIndex) (c : AbstractThresholdConditionChecker)
    (pindexPrev : Option Nat) (i : Nat) : ThresholdState :=
  ((periodEnds t c pindexPrev).take i).foldl (periodStep t c) .DEFINED

/-- Every state the cache holds is the specification's. -/
def CacheSound (t : List CBlockIndex) (c : AbstractThresholdConditionChecker)
    (cache : ThresholdConditionCache) : Prop :=
  ∀ p s, cache p = some s → stateFor t c p = s

/-- Median time past never decreases from a parent to its child. -/
def MedianTimeMonotone (t : List CBlockIndex) : Prop :=
  ∀ i < t.length, ∀ q, (deref t i).pprev = some q → getMedianTimePast t q ≤ getMedianTimePast t i

/-- A key of the walks: `NULL`, or a block of the arena that ends a period. -/
def PeriodEnd (t : List CBlockIndex) (c : AbstractThresholdConditionChecker) : Option Nat → Prop
  | none => True
  | some p => p < t.length ∧ ((deref t p).nHeight + 1) % c.period.toNat = 0

/-- `seg` lists the period ends after those in `L`, in order: the period ends of each are `L`,
the ones before it in `seg`, and itself. -/
def Continues (t : List CBlockIndex) (c : AbstractThresholdConditionChecker) :
    List Nat → List Nat → Prop
  | _, [] => True
  | L, b :: seg => b < t.length ∧ periodEnds t c (some b) = L ++ [b] ∧ Continues t c (L ++ [b]) seg

/-- One query on the shared cache, for `NULL` or a block of the arena. -/
inductive CacheQuery (t : List CBlockIndex) (c : AbstractThresholdConditionChecker) :
    ThresholdConditionCache → ThresholdConditionCache → Prop
  | getStateFor {p : Option Nat} {cache cache' : ThresholdConditionCache} {s : ThresholdState}
      (hp : ∀ q, p = some q → q < t.length) (h : getStateFor t c p cache = .ok (s, cache')) :
      CacheQuery t c cache cache'
  | getStateSinceHeightFor {p : Option Nat} {cache cache' : ThresholdConditionCache} {n : Int}
      (hp : ∀ q, p = some q → q < t.length)
      (h : getStateSinceHeightFor t c p cache = .ok (n, cache')) : CacheQuery t c cache cache'

/-- The caches some sequence of queries leaves, from the empty one. -/
def CacheReachable (t : List CBlockIndex) (c : AbstractThresholdConditionChecker)
    (cache : ThresholdConditionCache) : Prop :=
  Relation.ReflTransGen (CacheQuery t c) (fun _ => none) cache

/-! ### The transition -/

namespace ThresholdState

/-- A period keeps its predecessor's state or makes one of BIP9's moves. -/
theorem next_eq_or_step (c : AbstractThresholdConditionChecker) (mtp : Int) (count : Nat) :
    ∀ s : ThresholdState, s.next c mtp count = s ∨ Step s (s.next c mtp count)
  | .DEFINED => by unfold next; split_ifs <;> simp [Step.start, Step.failDefined]
  | .STARTED => by unfold next; split_ifs <;> simp [Step.lockIn, Step.failStarted]
  | .LOCKED_IN => .inr .activate
  | .FAILED => .inl rfl
  | .ACTIVE => .inl rfl

/-- Before the start time, and so before the timeout, `DEFINED` stays. -/
theorem next_defined {c : AbstractThresholdConditionChecker} {mtp : Int} (count : Nat)
    (hmtp : mtp < c.beginTime) (hbegin : c.beginTime ≤ c.endTime) :
    ThresholdState.DEFINED.next c mtp count = .DEFINED := by
  simp only [next]
  rw [if_neg (by omega), if_neg (by omega)]

end ThresholdState

/-- Transitions only move forward: the state after any periods is reached by BIP9's moves. -/
theorem foldl_periodStep_advances (t : List CBlockIndex) (c : AbstractThresholdConditionChecker) :
    ∀ (L : List Nat) (s : ThresholdState),
      Relation.ReflTransGen ThresholdState.Step s (L.foldl (periodStep t c) s)
  | [], _ => .refl
  | b :: L, s => by
    rw [List.foldl_cons]
    rcases ThresholdState.next_eq_or_step c (getMedianTimePast t b) (periodCount t c b) s with
      h | h
    · have hs : periodStep t c s b = s := h
      rw [hs]
      exact foldl_periodStep_advances t c L s
    · exact .head h (foldl_periodStep_advances t c L _)

/-! ### Period ends on the arena -/

section Arena

variable {t : List CBlockIndex} {c : AbstractThresholdConditionChecker}

/-- Seen from an ancestor, the blocks at heights up to the ancestor's are the same. -/
theorem WellFormed.ancestor_sub_eq (ht : WellFormed t) {q r d : Nat} (hq : q < t.length)
    (hr : ancestor t q d = some r) {H : Nat} (hH : H ≤ (deref t r).nHeight) :
    ancestor t q ((deref t q).nHeight - H) = ancestor t r ((deref t r).nHeight - H) := by
  have hh := (ht.ancestor_nHeight d hq hr).2
  rw [show (deref t q).nHeight - H = d + ((deref t r).nHeight - H) by omega, ancestor_add, hr]
  rfl

/-- The first `n` period ends up to `q` are those up to its ancestor `r`, when `r` has `n`. -/
theorem WellFormed.filterMap_periodEnd_eq (ht : WellFormed t) {q r d : Nat} (hq : q < t.length)
    (hr : ancestor t q d = some r) {n : Nat}
    (hn : n ≤ ((deref t r).nHeight + 1) / c.period.toNat) :
    (List.range n).filterMap (fun j =>
        ancestor t q ((deref t q).nHeight - (c.period.toNat * (j + 1) - 1))) =
      (List.range n).filterMap fun j =>
        ancestor t r ((deref t r).nHeight - (c.period.toNat * (j + 1) - 1)) := by
  refine List.filterMap_congr fun j hj => ht.ancestor_sub_eq hq hr ?_
  have hj : j + 1 ≤ n := List.mem_range.mp hj
  have h₁ : c.period.toNat * (j + 1) ≤ c.period.toNat * n := Nat.mul_le_mul_left _ hj
  have h₂ : c.period.toNat * n ≤ c.period.toNat * (((deref t r).nHeight + 1) / c.period.toNat) :=
    Nat.mul_le_mul_left _ hn
  have h₃ := Nat.div_mul_le_self ((deref t r).nHeight + 1) c.period.toNat
  rw [Nat.mul_comm] at h₃
  omega

/-- Every complete period up to `q` has its last block. -/
theorem WellFormed.length_periodEnds (ht : WellFormed t) {q : Nat} (hq : q < t.length) :
    (periodEnds t c (some q)).length = ((deref t q).nHeight + 1) / c.period.toNat := by
  simp only [periodEnds]
  rw [List.length_filterMap_eq_countP, List.countP_eq_length.mpr, List.length_range]
  intro j hj
  obtain ⟨r, hr, -⟩ := ht.ancestor_spec ((deref t q).nHeight - (c.period.toNat * (j + 1) - 1)) hq
    (by omega)
  simp [hr]

/-- A period end up to `q` is a block of the arena, its ancestor, and ends a period. -/
theorem WellFormed.mem_periodEnds (ht : WellFormed t) {q b : Nat} (hq : q < t.length)
    (hb : b ∈ periodEnds t c (some q)) :
    b < t.length ∧ (∃ d, ancestor t q d = some b) ∧
      ((deref t b).nHeight + 1) % c.period.toNat = 0 := by
  simp only [periodEnds, List.mem_filterMap, List.mem_range] at hb
  obtain ⟨j, hj, hanc⟩ := hb
  obtain ⟨hblen, hbh⟩ := ht.ancestor_nHeight _ hq hanc
  have h₁ : c.period.toNat * (j + 1) ≤ c.period.toNat * (((deref t q).nHeight + 1) / c.period.toNat) :=
    Nat.mul_le_mul_left _ hj
  have h₂ := Nat.div_mul_le_self ((deref t q).nHeight + 1) c.period.toNat
  rw [Nat.mul_comm] at h₂
  have hpos : 0 < c.period.toNat * (j + 1) := by
    rcases Nat.eq_zero_or_pos c.period.toNat with h0 | h0
    · simp [h0] at hj
    · exact Nat.mul_pos h0 (Nat.succ_pos j)
  refine ⟨hblen, ⟨_, hanc⟩, ?_⟩
  rw [show (deref t b).nHeight + 1 = c.period.toNat * (j + 1) by omega]
  exact Nat.mul_mod_right _ _

/-- The period ends up to an ancestor come first among those up to the block. -/
theorem WellFormed.periodEnds_prefix (ht : WellFormed t) {q r d : Nat} (hq : q < t.length)
    (hr : ancestor t q d = some r) : periodEnds t c (some r) <+: periodEnds t c (some q) := by
  have hh := (ht.ancestor_nHeight d hq hr).2
  have hle : ((deref t r).nHeight + 1) / c.period.toNat ≤
      ((deref t q).nHeight + 1) / c.period.toNat := Nat.div_le_div_right (by omega)
  simp only [periodEnds]
  rw [← Nat.add_sub_cancel' hle, List.range_add, List.filterMap_append,
    ht.filterMap_periodEnd_eq hq hr le_rfl]
  exact List.prefix_append _ _

/-- `pindexPrev` has the period ends of the last block of the previous period. -/
theorem WellFormed.periodEnds_align (ht : WellFormed t) {q : Nat} (hq : q < t.length)
    (hP : 0 < c.period.toNat) :
    periodEnds t c (some q) = periodEnds t c
      (if c.period.toNat ≤ (deref t q).nHeight + 1 then
        ancestor t q (((deref t q).nHeight + 1) % c.period.toNat) else none) := by
  have hmod := Nat.div_add_mod ((deref t q).nHeight + 1) c.period.toNat
  have hlt := Nat.mod_lt ((deref t q).nHeight + 1) hP
  split_ifs with hle
  · obtain ⟨r, hr, -, hrh⟩ :=
      ht.ancestor_spec (((deref t q).nHeight + 1) % c.period.toNat) hq (by omega)
    rw [hr]
    -- `r` is at `period * ((nHeight + 1) / period) - 1`, so has as many period ends
    have hk : ((deref t r).nHeight + 1) / c.period.toNat =
        ((deref t q).nHeight + 1) / c.period.toNat := by
      rw [show (deref t r).nHeight + 1 =
          c.period.toNat * (((deref t q).nHeight + 1) / c.period.toNat) by omega,
        Nat.mul_div_cancel_left _ hP]
    simp only [periodEnds]
    rw [hk, ht.filterMap_periodEnd_eq hq hr hk.ge]
  · simp [periodEnds, Nat.div_eq_of_lt (by omega : (deref t q).nHeight + 1 < c.period.toNat)]

/-- A period end's period ends: those of the previous period's end, then itself. -/
theorem WellFormed.periodEnds_of_periodEnd (ht : WellFormed t) {b : Nat}
    (hb : PeriodEnd t c (some b)) (hP : 0 < c.period.toNat) :
    periodEnds t c (some b) = periodEnds t c
      (if c.period.toNat ≤ (deref t b).nHeight then ancestor t b c.period.toNat else none) ++ [b] := by
  obtain ⟨hblen, hmod⟩ := hb
  have hdiv := Nat.div_add_mod ((deref t b).nHeight + 1) c.period.toNat
  rw [hmod, Nat.add_zero] at hdiv
  -- `b` closes the `k`-th period, `k ≥ 1`
  obtain ⟨k, hk⟩ : ∃ k, ((deref t b).nHeight + 1) / c.period.toNat = k + 1 := by
    rcases Nat.eq_zero_or_pos (((deref t b).nHeight + 1) / c.period.toNat) with h0 | h0
    · rw [h0, Nat.mul_zero] at hdiv; omega
    · exact ⟨_, (Nat.succ_pred_eq_of_pos h0).symm⟩
  rw [hk, Nat.mul_succ] at hdiv
  have hlast : ancestor t b ((deref t b).nHeight - (c.period.toNat * (k + 1) - 1)) = some b := by
    rw [Nat.mul_succ, show (deref t b).nHeight - (c.period.toNat * k + c.period.toNat - 1) = 0 by
      omega]
    rfl
  simp only [periodEnds]
  rw [hk, List.range_succ, List.filterMap_append]
  simp only [List.filterMap_cons, hlast, List.filterMap_nil]
  split_ifs with hle
  · obtain ⟨r, hr, -, hrh⟩ := ht.ancestor_spec c.period.toNat hblen hle
    have hkr : ((deref t r).nHeight + 1) / c.period.toNat = k := by
      rw [show (deref t r).nHeight + 1 = c.period.toNat * k by omega,
        Nat.mul_div_cancel_left _ hP]
    rw [hr, ht.filterMap_periodEnd_eq hblen hr hkr.ge]
    simp only [hkr]
  · have hk0 : k = 0 := by
      rcases Nat.eq_zero_or_pos k with h0 | h0
      · exact h0
      · have := Nat.mul_le_mul_left c.period.toNat h0
        omega
    simp [hk0]

/-- The previous period's end is a period end too. -/
theorem WellFormed.periodEnd_prev (ht : WellFormed t) {b : Nat} (hb : PeriodEnd t c (some b)) :
    PeriodEnd t c
      (if c.period.toNat ≤ (deref t b).nHeight then ancestor t b c.period.toNat else none) := by
  split_ifs with hle
  · obtain ⟨r, hr, hrlen, hrh⟩ := ht.ancestor_spec c.period.toNat hb.1 hle
    rw [hr]
    refine ⟨hrlen, ?_⟩
    rw [hrh, show (deref t b).nHeight - c.period.toNat + 1 =
      (deref t b).nHeight + 1 - c.period.toNat by omega, Nat.sub_mod_eq_zero_of_mod_eq]
    rw [hb.2, Nat.mod_self]
  · trivial

end Arena

/-! ### The walks against the specification -/

section Walks

variable {t : List CBlockIndex} {c : AbstractThresholdConditionChecker}

/-- A query's key has at most as many period ends as the arena has blocks. -/
theorem WellFormed.length_periodEnds_le (ht : WellFormed t) {p : Option Nat}
    (hp : ∀ q, p = some q → q < t.length) : (periodEnds t c p).length ≤ t.length := by
  cases p with
  | none => simp [periodEnds]
  | some q =>
    have hq := hp q rfl
    rw [ht.length_periodEnds hq]
    have := ht.nHeight_le q hq
    have := Nat.div_le_self ((deref t q).nHeight + 1) c.period.toNat
    omega

/-- A period end is one below `period` times its number of period ends. -/
theorem WellFormed.nHeight_periodEnd (ht : WellFormed t) (hP : 0 < c.period) {b : Nat}
    (hb : PeriodEnd t c (some b)) :
    ((deref t b).nHeight : Int) + 1 = c.period * (periodEnds t c (some b)).length := by
  rw [ht.length_periodEnds hb.1]
  have hdiv := Nat.div_add_mod ((deref t b).nHeight + 1) c.period.toNat
  rw [hb.2, Nat.add_zero] at hdiv
  obtain ⟨P, hPdef⟩ : ∃ P : Nat, c.period = P := ⟨c.period.toNat, (Int.toNat_of_nonneg hP.le).symm⟩
  rw [hPdef, Int.toNat_natCast] at hdiv ⊢
  exact_mod_cast hdiv.symm

/-- `GetAncestor(nHeight - nPeriod)` from a block: `period` blocks down, or `NULL` below the
first. -/
theorem WellFormed.getAncestor_prevPeriod (ht : WellFormed t) {b : Nat} (hb : b < t.length)
    (hP : 0 < c.period) :
    getAncestor t b ((deref t b).nHeight - c.period) =
      .ok (if c.period.toNat ≤ (deref t b).nHeight then ancestor t b c.period.toNat else none) := by
  rw [ht.getAncestor_eq hb]
  by_cases hle : c.period.toNat ≤ (deref t b).nHeight
  · rw [if_pos (by omega), if_pos hle,
      show (deref t b).nHeight - (((deref t b).nHeight : Int) - c.period).toNat = c.period.toNat by
        omega]
  · rw [if_neg (by omega), if_neg hle]

/-- The rounding of `pindexPrev` to the end of the previous period. -/
theorem WellFormed.alignToPeriod_eq (ht : WellFormed t) {q : Nat} (hq : q < t.length)
    (hP : 0 < c.period) :
    alignToPeriod t c (some q) = .ok (if c.period.toNat ≤ (deref t q).nHeight + 1 then
      ancestor t q (((deref t q).nHeight + 1) % c.period.toNat) else none) := by
  have hmod : (((deref t q).nHeight : Int) + 1).tmod c.period =
      (((deref t q).nHeight + 1) % c.period.toNat : Nat) := by
    rw [Int.tmod_eq_emod_of_nonneg (by omega), Int.natCast_mod, Int.toNat_of_nonneg hP.le]
    push_cast
    rfl
  have hlt := Nat.mod_lt ((deref t q).nHeight + 1) (show 0 < c.period.toNat by omega)
  rw [alignToPeriod, hmod, ht.getAncestor_eq hq]
  by_cases hle : c.period.toNat ≤ (deref t q).nHeight + 1
  · rw [if_pos (by omega), if_pos hle]
    congr 3
    omega
  · rw [Nat.mod_eq_of_lt (by omega), if_neg (by omega), if_neg hle]

/-- The key `GetStateFor` rounds `pindexPrev` to ends a period and has its period ends. -/
theorem WellFormed.alignToPeriod_spec (ht : WellFormed t) (hP : 0 < c.period) {p : Option Nat}
    (hp : ∀ q, p = some q → q < t.length) :
    ∃ p₀, alignToPeriod t c p = .ok p₀ ∧ PeriodEnd t c p₀ ∧ periodEnds t c p₀ = periodEnds t c p := by
  cases p with
  | none => exact ⟨none, rfl, trivial, rfl⟩
  | some q =>
    have hq := hp q rfl
    refine ⟨_, ht.alignToPeriod_eq hq hP, ?_, (ht.periodEnds_align hq (by omega)).symm⟩
    split_ifs with hle
    · have hlt := Nat.mod_lt ((deref t q).nHeight + 1) (show 0 < c.period.toNat by omega)
      obtain ⟨r, hr, hrlen, hrh⟩ :=
        ht.ancestor_spec (((deref t q).nHeight + 1) % c.period.toNat) hq (by omega)
      rw [hr]
      have hdiv := Nat.div_add_mod ((deref t q).nHeight + 1) c.period.toNat
      refine ⟨hrlen, ?_⟩
      rw [show (deref t r).nHeight + 1 =
          c.period.toNat * (((deref t q).nHeight + 1) / c.period.toNat) by omega]
      exact Nat.mul_mod_right _ _
    · trivial

/-- Median time past never increases down a chain. -/
theorem MedianTimeMonotone.ancestor_le (hmtp : MedianTimeMonotone t) (ht : WellFormed t) :
    ∀ (d : Nat) {q r : Nat}, q < t.length → ancestor t q d = some r →
      getMedianTimePast t r ≤ getMedianTimePast t q
  | 0, q, r, _, h => by
    obtain rfl : q = r := Option.some.inj h
    exact le_rfl
  | d + 1, q, r, hq, h => by
    cases hpp : (deref t q).pprev with
    | none => simp [ancestor, hpp] at h
    | some q' =>
      rw [ancestor_of_pprev hpp] at h
      exact (hmtp.ancestor_le ht d ((ht.pprev_lt q hq q' hpp).trans hq) h).trans (hmtp q hq q' hpp)

/-- Periods that all end before the start time leave `DEFINED` as it is. -/
theorem foldl_periodStep_defined (hbegin : c.beginTime ≤ c.endTime) :
    ∀ L : List Nat, (∀ b ∈ L, getMedianTimePast t b < c.beginTime) →
      L.foldl (periodStep t c) .DEFINED = .DEFINED
  | [], _ => rfl
  | b :: L, h => by
    rw [List.foldl_cons, periodStep,
      ThresholdState.next_defined _ (h b List.mem_cons_self) hbegin]
    exact foldl_periodStep_defined hbegin L fun b' hb' => h b' (List.mem_cons_of_mem b hb')

/-- A block before the start time is in `DEFINED`: what the walk back's shortcut relies on. -/
theorem WellFormed.stateFor_of_mtp_lt (ht : WellFormed t) (hmtp : MedianTimeMonotone t) {q : Nat}
    (hq : q < t.length) (hlt : getMedianTimePast t q < c.beginTime)
    (hbegin : c.beginTime ≤ c.endTime) : stateFor t c (some q) = .DEFINED := by
  refine foldl_periodStep_defined hbegin _ fun b hb => ?_
  obtain ⟨-, ⟨d, hd⟩, -⟩ := ht.mem_periodEnds hq hb
  exact (hmtp.ancestor_le ht d hq hd).trans_lt hlt

/-- The counting loop counts the condition over the `n` blocks down from `q`. -/
theorem WellFormed.countCondition_eq (ht : WellFormed t) :
    ∀ (n : Nat) {q : Nat} (count : Nat), q < t.length → n ≤ (deref t q).nHeight + 1 →
      countCondition t c n (some q) count =
        .ok (count + ((List.range n).filterMap (ancestor t q)).countP fun p => c.condition (deref t p))
  | 0, _, count, _, _ => rfl
  | n + 1, q, count, hq, hn => by
    have hhead : (List.range (n + 1)).filterMap (ancestor t q) =
        q :: (List.range n).filterMap fun j => ancestor t q (j + 1) := by
      rw [List.range_succ_eq_map, List.filterMap_cons, List.filterMap_map]
      rfl
    rw [countCondition, hhead, List.countP_cons]
    cases n with
    | zero => cases c.condition (deref t q) <;> simp [countCondition]
    | succ m =>
      -- a block above height `0` has a parent, where the count goes on
      cases hpp : (deref t q).pprev with
      | none => rw [ht.nHeight_root q hq hpp] at hn; omega
      | some r =>
        have hr := ht.pprev_lt q hq r hpp
        have hh := ht.nHeight_pprev q hq r hpp
        have hfun : (fun j => ancestor t q (j + 1)) = ancestor t r := funext (ancestor_of_pprev hpp)
        rw [ht.countCondition_eq (m + 1) _ (hr.trans hq) (by omega), hfun]
        cases c.condition (deref t q)
        · simp
        · simp; omega

/-- At a block that ends a complete period, the `switch` is BIP9's transition. -/
theorem WellFormed.nextState_eq (ht : WellFormed t) {b : Nat} (hb : b < t.length)
    (hPb : c.period.toNat ≤ (deref t b).nHeight + 1) (s : ThresholdState) :
    nextState t c s b = .ok (periodStep t c s b) := by
  cases s with
  | DEFINED => simp only [nextState, periodStep, ThresholdState.next]; split_ifs <;> rfl
  | STARTED =>
    simp only [nextState, periodStep, ThresholdState.next]
    by_cases hend : getMedianTimePast t b ≥ c.endTime
    · rw [if_pos hend, if_pos hend]
    · rw [if_neg hend, if_neg hend, ht.countCondition_eq _ 0 hb hPb, Nat.zero_add]
      rfl
  | LOCKED_IN | FAILED | ACTIVE => rfl

/-- Caching the specification's state keeps the cache sound. -/
theorem CacheSound.update {cache : ThresholdConditionCache} (h : CacheSound t c cache)
    {p : Option Nat} {s : ThresholdState} (hs : stateFor t c p = s) :
    CacheSound t c (Function.update cache p (some s)) := by
  intro p' s' h'
  by_cases hp : p' = p
  · subst hp
    rw [Function.update_self, Option.some.injEq] at h'
    rw [hs, h']
  · rw [Function.update_of_ne hp] at h'
    exact h p' s' h'

theorem Continues.append_singleton :
    ∀ {L seg : List Nat} {b : Nat}, Continues t c L seg → b < t.length →
      periodEnds t c (some b) = L ++ seg ++ [b] → Continues t c L (seg ++ [b])
  | _, [], _, _, hb, hends => ⟨hb, by simpa using hends, trivial⟩
  | _, _ :: _, _, ⟨ha, hends_a, hrest⟩, hb, hends =>
    ⟨ha, hends_a, Continues.append_singleton hrest hb (by simpa using hends)⟩

/-- The forward loop applies BIP9's transition at each collected period end, and caches the
specification's states. -/
theorem WellFormed.walkForward_spec (ht : WellFormed t) :
    ∀ (seg L : List Nat) {cache : ThresholdConditionCache}, CacheSound t c cache →
      Continues t c L seg →
      ∃ cache', walkForward t c seg (L.foldl (periodStep t c) .DEFINED) cache =
        .ok ((L ++ seg).foldl (periodStep t c) .DEFINED, cache') ∧ CacheSound t c cache'
  | [], L, cache, hc, _ => ⟨cache, by rw [List.append_nil]; rfl, hc⟩
  | b :: seg, L, cache, hc, ⟨hb, hends, hrest⟩ => by
    -- `b` ends a complete period, so the count never reaches `NULL`
    have hlen := ht.length_periodEnds (c := c) hb
    rw [hends, List.length_append, List.length_singleton] at hlen
    have hPb : c.period.toNat ≤ (deref t b).nHeight + 1 := by
      by_contra hlt
      rw [Nat.div_eq_of_lt (by omega)] at hlen
      omega
    have hfold : (L ++ [b]).foldl (periodStep t c) .DEFINED =
        periodStep t c (L.foldl (periodStep t c) .DEFINED) b := by
      rw [List.foldl_append]
      rfl
    obtain ⟨cache', hrun, hc'⟩ :=
      ht.walkForward_spec seg (L ++ [b]) (hc.update (by rw [stateFor, hends, hfold])) hrest
    rw [hfold, List.append_assoc, List.singleton_append] at hrun
    refine ⟨cache', ?_, hc'⟩
    rw [walkForward, ht.nextState_eq hb hPb]
    exact hrun

/-- The backward loop stops at a key whose state the cache then holds, and has collected the
period ends from there up to where it started. -/
theorem WellFormed.walkBack_spec (ht : WellFormed t) (hP : 0 < c.period)
    (hbegin : c.beginTime ≤ c.endTime) (hmtp : MedianTimeMonotone t) :
    ∀ (fuel : Nat) {p : Option Nat} (v : List Nat) {cache : ThresholdConditionCache},
      CacheSound t c cache → PeriodEnd t c p → (periodEnds t c p).length < fuel →
      ∃ p' seg cache', walkBack t c fuel p v cache = .ok (p', seg ++ v, cache') ∧
        CacheSound t c cache' ∧ cache' p' = some (stateFor t c p') ∧
        periodEnds t c p = periodEnds t c p' ++ seg ∧ Continues t c (periodEnds t c p') seg
  | 0, _, _, _, _, _, hfuel => absurd hfuel (Nat.not_lt_zero _)
  | fuel + 1, p, v, cache, hc, hp, hfuel => by
    by_cases hhit : (cache p).isSome
    · -- the cache has the key: nothing to collect
      obtain ⟨s, hs⟩ := Option.isSome_iff_exists.mp hhit
      refine ⟨p, [], cache, ?_, hc, by rw [hs, hc p s hs], by simp, trivial⟩
      cases p <;> rw [walkBack, if_pos hhit, List.nil_append]
    · cases p with
      | none =>
        exact ⟨none, [], _, by rw [walkBack, if_neg hhit, List.nil_append]; rfl, hc.update rfl,
          Function.update_self .., by simp, trivial⟩
      | some q =>
        rw [walkBack, if_neg hhit]
        by_cases hlt : getMedianTimePast t q < c.beginTime
        · have hdef := ht.stateFor_of_mtp_lt hmtp hp.1 hlt hbegin
          refine ⟨some q, [], _, by simp only [if_pos hlt, List.nil_append], hc.update hdef,
            by rw [Function.update_self, hdef], by simp, trivial⟩
        · -- one period down, then the rest of the walk
          have hends := ht.periodEnds_of_periodEnd hp (by omega)
          rw [hends, List.length_append, List.length_singleton] at hfuel
          obtain ⟨p', seg, cache', hrun, hc', hp', hends', hcont⟩ :=
            ht.walkBack_spec hP hbegin hmtp fuel (q :: v) hc (ht.periodEnd_prev hp) (by omega)
          refine ⟨p', seg ++ [q], cache', ?_, hc', hp', by rw [hends, hends', List.append_assoc],
            hcont.append_singleton hp.1 (by rw [hends, hends'])⟩
          simp only [if_neg hlt, ht.getAncestor_prevPeriod hp.1 hP]
          rw [List.append_assoc, List.singleton_append]
          exact hrun

/-- `GetStateFor` answers with the specification and keeps the cache sound. -/
theorem WellFormed.getStateFor_eq (ht : WellFormed t) (hP : 0 < c.period)
    (hbegin : c.beginTime ≤ c.endTime) (hmtp : MedianTimeMonotone t) {p : Option Nat}
    (hp : ∀ q, p = some q → q < t.length) {cache : ThresholdConditionCache}
    (hc : CacheSound t c cache) :
    ∃ cache', getStateFor t c p cache = .ok (stateFor t c p, cache') ∧ CacheSound t c cache' := by
  obtain ⟨p₀, halign, hp₀, hends₀⟩ := ht.alignToPeriod_spec hP hp
  have hfuel : (periodEnds t c p₀).length < t.length + 1 := by
    rw [hends₀]
    exact Nat.lt_succ_of_le (ht.length_periodEnds_le hp)
  obtain ⟨p', seg, cache₁, hback, hc₁, hp', hends', hcont⟩ :=
    ht.walkBack_spec hP hbegin hmtp _ [] hc hp₀ hfuel
  obtain ⟨cache', hforward, hc'⟩ := ht.walkForward_spec seg (periodEnds t c p') hc₁ hcont
  refine ⟨cache', ?_, hc'⟩
  have hstate : stateFor t c p = (periodEnds t c p' ++ seg).foldl (periodStep t c) .DEFINED := by
    rw [stateFor, ← hends₀, hends']
  rw [List.append_nil] at hback
  rw [hstate, ← hforward]
  simp only [getStateFor, halign, hback, hp', bind, Except.bind]
  rfl

end Walks

/-! ### `GetStateSinceHeightFor` -/

section Since

variable {t : List CBlockIndex} {c : AbstractThresholdConditionChecker}

/-- The state of the first `i` periods, read from a chain whose period ends extend them. -/
theorem periodState_of_prefix {p : Option Nat} {L : List Nat}
    (h : L <+: periodEnds t c p) : periodState t c p L.length = L.foldl (periodStep t c) .DEFINED := by
  rw [periodState, ← List.prefix_iff_eq_take.mp h]

/-- Walking back from the end of the last period of `pindexPrev`'s chain, while the state
stays, ends at the first period of the run and keeps the cache sound. -/
theorem WellFormed.sinceLoop_spec (ht : WellFormed t) (hP : 0 < c.period)
    (hbegin : c.beginTime ≤ c.endTime) (hmtp : MedianTimeMonotone t) {o : Option Nat}
    {s : ThresholdState} (hs : s ≠ .DEFINED) :
    ∀ (fuel : Nat) {p : Nat} {cache : ThresholdConditionCache}, CacheSound t c cache →
      PeriodEnd t c (some p) → periodEnds t c (some p) <+: periodEnds t c o →
      (periodEnds t c (some p)).length ≤ fuel →
      (∀ i, (periodEnds t c (some p)).length ≤ i → i ≤ (periodEnds t c o).length →
        periodState t c o i = s) →
      ∃ (j : Nat) (cache' : ThresholdConditionCache), sinceLoop t c s fuel p
          (if c.period.toNat ≤ (deref t p).nHeight then ancestor t p c.period.toNat else none)
          cache = .ok (c.period * j, cache') ∧ CacheSound t c cache' ∧
        1 ≤ j ∧ j ≤ (periodEnds t c (some p)).length ∧
        (∀ i, j ≤ i → i ≤ (periodEnds t c o).length → periodState t c o i = s) ∧
        periodState t c o (j - 1) ≠ s
  | fuel, p, cache, hc, hp, hpre, hfuel, hrun => by
    have hends := ht.periodEnds_of_periodEnd hp (by omega)
    have hlen : (periodEnds t c (some p)).length = (periodEnds t c
        (if c.period.toNat ≤ (deref t p).nHeight then ancestor t p c.period.toNat else none)).length
          + 1 := by
      rw [hends, List.length_append, List.length_singleton]
    have hheight := ht.nHeight_periodEnd hP hp
    cases fuel with
    | zero => omega
    | succ fuel =>
    split_ifs at hends hlen ⊢ with hle
    · -- the previous period's end `r`: its state decides whether the run goes on
      obtain ⟨r, hr, hrlen, -⟩ := ht.ancestor_spec c.period.toNat hp.1 hle
      rw [hr] at hends hlen ⊢
      have hpre_r : periodEnds t c (some r) <+: periodEnds t c o :=
        (List.prefix_append _ _).trans (hends ▸ hpre)
      have hstate_r : periodState t c o (periodEnds t c (some r)).length = stateFor t c (some r) :=
        periodState_of_prefix hpre_r
      obtain ⟨cache₁, hget, hc₁⟩ := ht.getStateFor_eq hP hbegin hmtp (p := some r)
        (fun _ h => Option.some.inj h ▸ hrlen) hc
      by_cases hsame : stateFor t c (some r) = s
      · have hpr : PeriodEnd t c (some r) := by
          have := ht.periodEnd_prev hp
          rwa [if_pos hle, hr] at this
        obtain ⟨j, cache', hloop, hc', hj1, hjle, hjrun, hjprev⟩ :=
          ht.sinceLoop_spec hP hbegin hmtp hs fuel hc₁ hpr hpre_r (by omega) (fun i hi hi' => by
            rcases Nat.lt_or_eq_of_le hi with hi | hi
            · exact hrun i (by omega) hi'
            · rw [← hi, hstate_r, hsame])
        refine ⟨j, cache', ?_, hc', hj1, by omega, hjrun, hjprev⟩
        simp only [sinceLoop, hget, bind, Except.bind, if_pos hsame,
          ht.getAncestor_prevPeriod hrlen hP]
        exact hloop
      · refine ⟨(periodEnds t c (some p)).length, cache₁, ?_, hc₁, by omega, le_rfl, hrun, ?_⟩
        · simp only [sinceLoop, hget, bind, Except.bind, if_neg hsame, hheight]
        · rw [hlen, Nat.add_sub_cancel, hstate_r]
          exact hsame
    · -- the first period: the state before it is `DEFINED`
      refine ⟨(periodEnds t c (some p)).length, cache, ?_, hc, by omega, le_rfl, hrun, ?_⟩
      · simp only [sinceLoop, hheight]
      · rw [hlen]
        exact hs.symm

/-- `GetStateSinceHeightFor` answers `0` in `DEFINED`, and otherwise the first height of the
run of periods in the current state; it keeps the cache sound. -/
theorem WellFormed.getStateSinceHeightFor_eq (ht : WellFormed t) (hP : 0 < c.period)
    (hbegin : c.beginTime ≤ c.endTime) (hmtp : MedianTimeMonotone t) {p : Option Nat}
    (hp : ∀ q, p = some q → q < t.length) {cache : ThresholdConditionCache}
    (hc : CacheSound t c cache) :
    ∃ n cache', getStateSinceHeightFor t c p cache = .ok (n, cache') ∧ CacheSound t c cache' ∧
      (stateFor t c p = .DEFINED → n = 0) ∧
      (stateFor t c p ≠ .DEFINED → ∃ j : Nat, n = c.period * j ∧ 1 ≤ j ∧
        j ≤ (periodEnds t c p).length ∧
        (∀ i, j ≤ i → i ≤ (periodEnds t c p).length → periodState t c p i = stateFor t c p) ∧
        periodState t c p (j - 1) ≠ stateFor t c p) := by
  obtain ⟨cache₁, hget, hc₁⟩ := ht.getStateFor_eq hP hbegin hmtp hp hc
  by_cases hdef : stateFor t c p = .DEFINED
  · refine ⟨0, cache₁, ?_, hc₁, fun _ => rfl, fun h => absurd hdef h⟩
    simp only [getStateSinceHeightFor, hget, bind, Except.bind, hdef]
    rfl
  · obtain ⟨p₀, halign, hp₀, hends₀⟩ := ht.alignToPeriod_spec hP hp
    cases p₀ with
    | none =>
      -- no complete period: the state is `DEFINED`
      exact absurd (by rw [stateFor, ← hends₀]; rfl) hdef
    | some q₀ =>
      have hstate : periodState t c p (periodEnds t c p).length = stateFor t c p := by
        rw [periodState, List.take_length, stateFor]
      obtain ⟨j, cache', hloop, hc', hj1, hjle, hjrun, hjprev⟩ :=
        ht.sinceLoop_spec hP hbegin hmtp (o := p) hdef (t.length + 1) hc₁ hp₀ (hends₀ ▸ List.prefix_refl _)
          (by rw [hends₀]; exact Nat.le_succ_of_le (ht.length_periodEnds_le hp))
          (fun i hi hi' => by rw [show i = (periodEnds t c p).length by rw [hends₀] at hi; omega,
            hstate])
      refine ⟨c.period * j, cache', ?_, hc', fun h => absurd h hdef,
        fun _ => ⟨j, rfl, hj1, hends₀ ▸ hjle, hjrun, hjprev⟩⟩
      simp only [getStateSinceHeightFor, hget, bind, Except.bind, if_neg hdef, halign,
        ht.getAncestor_prevPeriod hp₀.1 hP]
      exact hloop

end Since

/-! ### Runs of queries -/

section Runs

variable {t : List CBlockIndex} {c : AbstractThresholdConditionChecker}

/-- Every cache a run of queries leaves is sound. -/
theorem WellFormed.cacheSound_of_reachable (ht : WellFormed t) (hP : 0 < c.period)
    (hbegin : c.beginTime ≤ c.endTime) (hmtp : MedianTimeMonotone t)
    {cache : ThresholdConditionCache} (h : CacheReachable t c cache) : CacheSound t c cache := by
  induction h with
  | refl => exact fun _ _ h => nomatch h
  | tail _ hq ih =>
    cases hq with
    | getStateFor hp hrun =>
      obtain ⟨cache', hrun', hc'⟩ := ht.getStateFor_eq hP hbegin hmtp hp ih
      rw [hrun', Except.ok.injEq, Prod.mk.injEq] at hrun
      exact hrun.2 ▸ hc'
    | getStateSinceHeightFor hp hrun =>
      obtain ⟨n, cache', hrun', hc', -⟩ := ht.getStateSinceHeightFor_eq hP hbegin hmtp hp ih
      rw [hrun', Except.ok.injEq, Prod.mk.injEq] at hrun
      exact hrun.2 ▸ hc'

/-- Down a chain, the state of a block's period is reached from an ancestor's by BIP9's moves. -/
theorem WellFormed.stateFor_advances (ht : WellFormed t) {q r d : Nat} (hq : q < t.length)
    (hr : ancestor t q d = some r) :
    Relation.ReflTransGen ThresholdState.Step (stateFor t c (some r)) (stateFor t c (some q)) := by
  obtain ⟨rest, hrest⟩ := ht.periodEnds_prefix (c := c) hq hr
  rw [stateFor, stateFor, ← hrest, List.foldl_append]
  exact foldl_periodStep_advances t c rest _

/-- Blocks in the same period have the same state. -/
theorem WellFormed.stateFor_eq_of_same_period (ht : WellFormed t) {q r d : Nat}
    (hq : q < t.length) (hr : ancestor t q d = some r)
    (hsame : ((deref t r).nHeight + 1) / c.period.toNat = ((deref t q).nHeight + 1) / c.period.toNat) :
    stateFor t c (some r) = stateFor t c (some q) := by
  have hrlen := (ht.ancestor_nHeight d hq hr).1
  rw [stateFor, stateFor, (ht.periodEnds_prefix (c := c) hq hr).eq_of_length
    (by rw [ht.length_periodEnds hrlen, ht.length_periodEnds hq, hsame])]

/-- From one period to the next, the state stays or makes one of BIP9's moves. -/
theorem periodState_succ_eq_or_step {p : Option Nat} {i : Nat} (hi : i < (periodEnds t c p).length) :
    periodState t c p (i + 1) = periodState t c p i ∨
      ThresholdState.Step (periodState t c p i) (periodState t c p (i + 1)) := by
  have hsucc : periodState t c p (i + 1) =
      periodStep t c (periodState t c p i) ((periodEnds t c p)[i]) := by
    rw [periodState, periodState, List.take_add_one, List.getElem?_eq_getElem hi, Option.toList_some,
      List.foldl_append]
    rfl
  rw [hsucc]
  exact ThresholdState.next_eq_or_step c _ _ _

end Runs

/-! ### The memoised state machine against BIP9 -/

/-- The arena of one root block, as `AddToBlockIndex` makes it. -/
theorem wellFormed_root (nTime : Nat) : WellFormed [{ nTime }] :=
  (Built.add 0 nTime none .nil (fun _ h => nomatch h) rfl).wellFormed

theorem medianTimeMonotone_root (nTime : Nat) : MedianTimeMonotone [{ nTime }] := by
  intro i hi q hq
  obtain rfl : i = 0 := by simpa using hi
  cases hq

end Trumpow
