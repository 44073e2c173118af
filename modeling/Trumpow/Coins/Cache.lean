import Trumpow.Coins.Coins
import Trumpow.Support.AListSum
import Trumpow.Support.Fold

/-!
# Coins — the cache of coins in memory

`coins.h` and `coins.cpp`.  A `CCoinsViewCache` keeps a map from transaction ids to entries over
a base view; an entry holds a `CCoins` and the flags `DIRTY` (it may differ from the base) and
`FRESH` (the base has no unspent coins for it).  A read (`FetchCoins`) copies the base's coins
into the map, a write goes through a `CCoinsModifier`, whose destructor cleans the coins up and
erases an entry that is `FRESH` and pruned, and `Flush` hands the map to the base's
`BatchWrite`.  The cache keeps `cachedCoinsUsage`, the memory of the coins of its entries, by
adding and subtracting `CCoins::DynamicMemoryUsage()`, a function of the coins' vectors and
their capacities, here the parameter `dynamicMemoryUsage`.

A view is what `AccessCoins` reads: the entry's coins, or the base's (`view`).  The map is an
`AList`, with the source's `unordered_map` order of iteration left open: `BatchWrite` handles
each key on its own.  A base's `GetCoins` is a function, the answer of the view below; the
base of `coins_tests.cpp`, `CCoinsViewTest`, may report a pruned entry absent and drop a pruned
entry it is written, at random, here by arguments.

The methods of `CCoins` the cache and `validation.cpp` use come first: `Clear`, `Spend`,
`ClearUnspendable`, `FromTx`, and `operator==` (`Equals`), under which all pruned coins are
equal.
-/

namespace Trumpow

/-! ### `CCoins` in memory -/

namespace CCoins

/-- `Spend(nPos)`: `none` (the source's `false`, the coins unchanged) when the output is not
available; else the output is set null and the coins cleaned up. -/
def spend (c : CCoins) (nPos : Nat) : Option CCoins :=
  if nPos ≥ c.vout.length ∨ (c.vout.getD nPos default).IsNull then none
  else some (cleanup { c with vout := c.vout.set nPos default })

/-- `ClearUnspendable()`: the outputs with an unspendable script become null. -/
def clearUnspendable (c : CCoins) : CCoins :=
  cleanup { c with vout := c.vout.map fun txout =>
    if IsUnspendable txout.scriptPubKey then default else txout }

/-- `FromTx(tx, nHeightIn)`, and the constructor `CCoins(tx, nHeightIn)`. -/
def fromTx (tx : CTransaction) (nHeightIn : Int) : CCoins :=
  clearUnspendable ⟨decide tx.IsCoinBase, tx.vout, nHeightIn, tx.nVersion⟩

/-- `operator==`: pruned coins are all equal, others field by field. -/
def Equals (a b : CCoins) : Prop := (a.IsPruned ∧ b.IsPruned) ∨ a = b

instance (a b : CCoins) : Decidable (a.Equals b) :=
  inferInstanceAs (Decidable ((a.IsPruned ∧ b.IsPruned) ∨ a = b))

/-! `operator==` is an equivalence, under which coins with an unspent output are equal only to
themselves. -/

theorem Equals.refl (a : CCoins) : a.Equals a := .inr rfl

theorem Equals.isPruned_iff {a b : CCoins} (h : a.Equals b) : a.IsPruned ↔ b.IsPruned := by
  rcases h with ⟨ha, hb⟩ | rfl
  · exact ⟨fun _ => hb, fun _ => ha⟩
  · rfl

theorem Equals.symm {a b : CCoins} (h : a.Equals b) : b.Equals a := by
  rcases h with ⟨ha, hb⟩ | rfl
  · exact .inl ⟨hb, ha⟩
  · exact .refl _

theorem Equals.trans {a b c : CCoins} (h₁ : a.Equals b) (h₂ : b.Equals c) : a.Equals c := by
  rcases h₂ with ⟨hb, hc⟩ | rfl
  · exact .inl ⟨h₁.isPruned_iff.mpr hb, hc⟩
  · exact h₁

theorem Equals.eq_of_not_isPruned {a b : CCoins} (h : a.Equals b) (hb : ¬ b.IsPruned) : a = b := by
  rcases h with ⟨-, hb'⟩ | rfl
  · exact absurd hb' hb
  · rfl

theorem equals_of_isPruned {a b : CCoins} (ha : a.IsPruned) (hb : b.IsPruned) : a.Equals b :=
  .inl ⟨ha, hb⟩

@[simp] theorem isPruned_default : (default : CCoins).IsPruned := fun _ h => nomatch h

/-! `Cleanup()` drops spent outputs only. -/

theorem cleanup_vout_eq_nil_iff (c : CCoins) : c.cleanup.vout = [] ↔ c.IsPruned := by
  simp [cleanup, List.rdropWhile_eq_nil_iff, IsPruned]

theorem isPruned_iff_vout_eq_nil {c : CCoins} (hc : c.cleanup = c) : c.IsPruned ↔ c.vout = [] := by
  rw [← cleanup_vout_eq_nil_iff, hc]

theorem isPruned_cleanup (c : CCoins) : c.cleanup.IsPruned ↔ c.IsPruned := by
  rw [isPruned_iff_vout_eq_nil (by simp [cleanup, List.rdropWhile_idempotent]),
    cleanup_vout_eq_nil_iff]

theorem cleanup_cleanup (c : CCoins) : c.cleanup.cleanup = c.cleanup := by
  simp [cleanup, List.rdropWhile_idempotent]

theorem Equals.cleanup {a b : CCoins} (h : a.Equals b) : a.cleanup.Equals b.cleanup := by
  rcases h with ⟨ha, hb⟩ | rfl
  · exact equals_of_isPruned ((isPruned_cleanup a).mpr ha) ((isPruned_cleanup b).mpr hb)
  · exact .refl _

/-! `Spend(nPos)` succeeds on an available output; `ClearUnspendable()` keeps pruned coins pruned
and changes nothing the second time. -/

theorem not_isPruned_of_isAvailable {c : CCoins} {n : Nat} (h : c.IsAvailable n) : ¬ c.IsPruned :=
  fun hp => h.2 (hp _ (getD_mem_vout h.1))

theorem spend_eq_some {c spent : CCoins} {n : Nat} (h : c.spend n = some spent) :
    c.IsAvailable n ∧ spent = cleanup { c with vout := c.vout.set n default } := by
  unfold spend at h
  split at h
  · cases h
  · rename_i hn
    cases h
    simp only [not_or, not_le] at hn
    exact ⟨hn, rfl⟩

theorem isPruned_clearUnspendable {c : CCoins} (h : c.IsPruned) : c.clearUnspendable.IsPruned := by
  rw [clearUnspendable, isPruned_cleanup]
  intro o ho
  obtain ⟨o', ho', rfl⟩ := List.mem_map.mp ho
  split
  · rfl
  · exact h o' ho'

theorem clearUnspendable_eq_cleanup {c : CCoins}
    (h : ∀ o ∈ c.vout, (if IsUnspendable o.scriptPubKey then default else o) = o) :
    c.clearUnspendable = c.cleanup := by
  rw [clearUnspendable, List.map_congr_left h, List.map_id']

theorem clearUnspendable_clearUnspendable (c : CCoins) :
    c.clearUnspendable.clearUnspendable = c.clearUnspendable := by
  -- the outputs the first pass leaves are all kept by the second: `CTxOut()` is spendable
  have hkeep : ∀ o ∈ c.clearUnspendable.vout,
      (if IsUnspendable o.scriptPubKey then default else o) = o := by
    intro o ho
    obtain ⟨o', -, rfl⟩ := List.mem_map.mp ((List.rdropWhile_prefix _ _).subset ho)
    by_cases hu : IsUnspendable o'.scriptPubKey
    · rw [if_pos hu]
      exact ite_self _
    · simp [hu]
  rw [clearUnspendable_eq_cleanup hkeep]
  exact cleanup_cleanup _

end CCoins

/-! ### The cache -/

/-- `CCoinsCacheEntry`: the coins, and the flags `DIRTY` and `FRESH`. -/
structure CCoinsCacheEntry where
  coins : CCoins := default
  dirty : Bool := false
  fresh : Bool := false
deriving DecidableEq

/-- `CCoinsMap`. -/
abbrev CCoinsMap := AList fun _ : Uint256 => CCoinsCacheEntry

/-- `CCoinsViewCache`, with the fields the modelled methods use. -/
structure CCoinsViewCache where
  cacheCoins : CCoinsMap := ∅
  cachedCoinsUsage : Int := 0

/-- The memory of the coins of the entries, as `SelfTest()` of `coins_tests.cpp` adds it up. -/
def CCoinsViewCache.selfTestUsage (dynamicMemoryUsage : CCoins → Nat) (cache : CCoinsViewCache) :
    Int :=
  cache.cacheCoins.sum fun _ e => (dynamicMemoryUsage e.coins : Int)

/-- `CCoinsModifier`: the cache with the entry for `txid`, that entry as the holder receives it,
and the memory its coins took before (`cachedCoinUsage`). -/
structure CCoinsModifier where
  cache : CCoinsViewCache
  txid : Uint256
  entry : CCoinsCacheEntry
  cachedCoinUsage : Int

namespace CCoinsViewCache

section Methods

variable (dynamicMemoryUsage : CCoins → Nat)

/-- The coins `AccessCoins(txid)` reads through a cache whose base reads `base`. -/
def view (cache : CCoinsViewCache) (base : Uint256 → Option CCoins) (txid : Uint256) :
    Option CCoins :=
  match cache.cacheCoins.lookup txid with
  | some e => some e.coins
  | none => base txid

/-- The second half of `FetchCoins(txid)`, when the cache has no entry: the base's answer
`baseCoins` is inserted, `FRESH` when it is pruned. -/
def fetched (cache : CCoinsViewCache) (txid : Uint256) :
    Option CCoins → Option CCoins × CCoinsViewCache
  | none => (none, cache)
  | some coins =>
    (some coins, { cacheCoins := cache.cacheCoins.insert txid { coins, fresh := decide coins.IsPruned }
                   cachedCoinsUsage := cache.cachedCoinsUsage + dynamicMemoryUsage coins })

/-- `FetchCoins(txid)` (and so `AccessCoins` and `GetCoins`) over a base that reads `base`. -/
def fetchCoins (cache : CCoinsViewCache) (base : Uint256 → Option CCoins) (txid : Uint256) :
    Option CCoins × CCoinsViewCache :=
  match cache.cacheCoins.lookup txid with
  | some e => (some e.coins, cache)
  | none => fetched dynamicMemoryUsage cache txid (base txid)

/-- `HaveCoins(txid)`: an entry with outputs. -/
def haveCoins (cache : CCoinsViewCache) (base : Uint256 → Option CCoins) (txid : Uint256) :
    Bool × CCoinsViewCache :=
  let (coins, cache) := fetchCoins dynamicMemoryUsage cache base txid
  (coins.any fun c => !c.vout.isEmpty, cache)

/-- `ModifyCoins(txid)`, with `baseCoins` the base's answer, read only when the cache has no
entry: a new entry is `FRESH` when the base has no coins or pruned ones, and every entry is
made `DIRTY`.  The fetched coins' memory is not added here but by the destructor. -/
def modifyCoins (cache : CCoinsViewCache) (txid : Uint256) (baseCoins : Option CCoins) :
    CCoinsModifier :=
  let (entry, cachedCoinUsage) : CCoinsCacheEntry × Int :=
    match cache.cacheCoins.lookup txid with
    | some e => (e, dynamicMemoryUsage e.coins)
    | none =>
      match baseCoins with
      | none => ({ coins := default, fresh := true }, 0)
      | some coins => ({ coins, fresh := decide coins.IsPruned }, 0)
  let entry := { entry with dirty := true }
  { cache := { cache with cacheCoins := cache.cacheCoins.insert txid entry }
    txid, entry, cachedCoinUsage }

/-- The entry `ModifyNewCoins` makes of the entry `e` it finds (a new one when there is none):
the coins cleared, `DIRTY`, and `FRESH` for a non-coinbase entry that was not `DIRTY`. -/
def newCoinsEntry (e : CCoinsCacheEntry) (coinbase : Bool) : CCoinsCacheEntry :=
  { coins := default, dirty := true, fresh := e.fresh || (!coinbase && !e.dirty) }

/-- `ModifyNewCoins(txid, coinbase)`: no read of the base.  A non-coinbase entry with unspent
outputs throws.  The modifier is made with `cachedCoinUsage` zero whatever the entry held
before. -/
def modifyNewCoins (cache : CCoinsViewCache) (txid : Uint256) (coinbase : Bool) :
    Except String CCoinsModifier :=
  let e := (cache.cacheCoins.lookup txid).getD {}
  if !coinbase ∧ ¬ e.coins.IsPruned then
    throw "ModifyNewCoins should not find pre-existing coins on a non-coinbase unless they are pruned!"
  else
    pure { cache := { cache with cacheCoins := cache.cacheCoins.insert txid (newCoinsEntry e coinbase) }
           txid, entry := newCoinsEntry e coinbase, cachedCoinUsage := 0 }

end Methods

end CCoinsViewCache

namespace CCoinsModifier

variable (dynamicMemoryUsage : CCoins → Nat)

/-- `~CCoinsModifier()`, once the holder has set the coins to `coins`: they are cleaned up, the
old memory subtracted, and the entry erased when `FRESH` and pruned, else the new memory added. -/
def release (m : CCoinsModifier) (coins : CCoins) : CCoinsViewCache :=
  let coins := coins.cleanup
  let usage := m.cache.cachedCoinsUsage - m.cachedCoinUsage
  if m.entry.fresh ∧ coins.IsPruned then
    { cacheCoins := m.cache.cacheCoins.erase m.txid, cachedCoinsUsage := usage }
  else
    { cacheCoins := m.cache.cacheCoins.insert m.txid { m.entry with coins }
      cachedCoinsUsage := usage + dynamicMemoryUsage coins }

/-- The holder's block: the modifier's coins edited by `edit`, which may fail or return a value,
then the destructor. -/
def edit {m : Type → Type} [Monad m] {α : Type} (mod : CCoinsModifier)
    (f : CCoins → m (CCoins × α)) : m (α × CCoinsViewCache) := do
  let (coins, a) ← f mod.entry.coins
  pure (a, mod.release dynamicMemoryUsage coins)

end CCoinsModifier

namespace CCoinsViewCache

section Methods

variable (dynamicMemoryUsage : CCoins → Nat)

/-- One entry of `BatchWrite(mapCoins)`: a child entry that is not `DIRTY` is skipped; one the
cache lacks is created unless `FRESH` and pruned; else the cache's entry is erased when it is
`FRESH` and the child pruned, and takes the child's coins otherwise.  A `FRESH` child over an
entry with unspent outputs throws. -/
def batchWriteEntry (cache : CCoinsViewCache) (txid : Uint256) (child : CCoinsCacheEntry) :
    Except String CCoinsViewCache :=
  if !child.dirty then pure cache else
  match cache.cacheCoins.lookup txid with
  | none =>
    if child.fresh ∧ child.coins.IsPruned then pure cache
    else pure { cacheCoins := cache.cacheCoins.insert txid
                  { coins := child.coins, dirty := true, fresh := child.fresh }
                cachedCoinsUsage := cache.cachedCoinsUsage + dynamicMemoryUsage child.coins }
  | some parent =>
    if child.fresh ∧ ¬ parent.coins.IsPruned then
      throw "FRESH flag misapplied to cache entry for base transaction with spendable outputs"
    else if parent.fresh ∧ child.coins.IsPruned then
      pure { cacheCoins := cache.cacheCoins.erase txid
             cachedCoinsUsage := cache.cachedCoinsUsage - dynamicMemoryUsage parent.coins }
    else
      pure { cacheCoins := cache.cacheCoins.insert txid
               { parent with coins := child.coins, dirty := true }
             cachedCoinsUsage := cache.cachedCoinsUsage - dynamicMemoryUsage parent.coins +
               dynamicMemoryUsage child.coins }

/-- `BatchWrite(mapCoins)`: each entry in turn. -/
def batchWrite (cache : CCoinsViewCache) (mapCoins : CCoinsMap) :
    Except String CCoinsViewCache :=
  mapCoins.entries.foldlM (fun cache s => batchWriteEntry dynamicMemoryUsage cache s.1 s.2) cache

/-- `Flush()` into a cache below: its `BatchWrite`, then this cache is emptied. -/
def flush (cache below : CCoinsViewCache) :
    Except String (CCoinsViewCache × CCoinsViewCache) := do
  let below ← batchWrite dynamicMemoryUsage below cache.cacheCoins
  pure ({}, below)

/-- `Uncache(hash)`: an entry with neither flag is erased. -/
def uncache (cache : CCoinsViewCache) (hash : Uint256) : CCoinsViewCache :=
  match cache.cacheCoins.lookup hash with
  | some e =>
    if !e.dirty ∧ !e.fresh then
      { cacheCoins := cache.cacheCoins.erase hash
        cachedCoinsUsage := cache.cachedCoinsUsage - dynamicMemoryUsage e.coins }
    else cache
  | none => cache

end Methods

end CCoinsViewCache

/-! ### The base view of the tests -/

/-- `CCoinsViewTest` of `coins_tests.cpp`: a map of coins. -/
structure CCoinsViewTest where
  map_ : Uint256 → Option CCoins

namespace CCoinsViewTest

/-- `GetCoins(txid)`: with `miss`, a pruned entry is reported absent. -/
def getCoins (v : CCoinsViewTest) (miss : Bool) (txid : Uint256) : Option CCoins :=
  (v.map_ txid).bind fun coins => if coins.IsPruned ∧ miss then none else some coins

/-- `BatchWrite(mapCoins)`: the coins of every `DIRTY` entry are written, and a pruned one
erased when `drop` says so. -/
def batchWrite (v : CCoinsViewTest) (mapCoins : CCoinsMap) (drop : Uint256 → Bool) :
    CCoinsViewTest :=
  ⟨mapCoins.entries.foldl (fun m s =>
    if s.2.dirty then
      Function.update m s.1 (if s.2.coins.IsPruned ∧ drop s.1 then none else some s.2.coins)
    else m) v.map_⟩

end CCoinsViewTest

/-! ### The memory count -/

namespace CCoinsModifier

/-- The modifier's entry is the one its cache holds for its `txid`. -/
def Holds (m : CCoinsModifier) : Prop := m.cache.cacheCoins.lookup m.txid = some m.entry

end CCoinsModifier

namespace CCoinsViewCache

variable (dynamicMemoryUsage : CCoins → Nat)

/-- How far `cachedCoinsUsage` is from the memory of the entries; `SelfTest()` checks that it is
zero. -/
def usageDrift (cache : CCoinsViewCache) : Int :=
  cache.cachedCoinsUsage - cache.selfTestUsage dynamicMemoryUsage

/-- The memory of the coins of the entry for `txid`, or zero. -/
def usageAt (cache : CCoinsViewCache) (txid : Uint256) : Int :=
  cache.cacheCoins.sumAt (fun _ e => (dynamicMemoryUsage e.coins : Int)) txid

variable {dynamicMemoryUsage}

theorem selfTestUsage_insert {cache cache' : CCoinsViewCache} {txid : Uint256}
    {e : CCoinsCacheEntry} (h : cache'.cacheCoins = cache.cacheCoins.insert txid e) :
    selfTestUsage dynamicMemoryUsage cache' =
      selfTestUsage dynamicMemoryUsage cache - usageAt dynamicMemoryUsage cache txid +
        dynamicMemoryUsage e.coins := by
  have hsum := AList.sum_insert (fun _ e => (dynamicMemoryUsage e.coins : Int)) txid e
    cache.cacheCoins
  simp only [selfTestUsage, usageAt, h] at hsum ⊢
  omega

theorem selfTestUsage_erase {cache cache' : CCoinsViewCache} {txid : Uint256}
    (h : cache'.cacheCoins = cache.cacheCoins.erase txid) :
    selfTestUsage dynamicMemoryUsage cache' =
      selfTestUsage dynamicMemoryUsage cache - usageAt dynamicMemoryUsage cache txid := by
  have hsum := AList.sum_erase (fun _ e => (dynamicMemoryUsage e.coins : Int)) txid
    cache.cacheCoins
  simp only [selfTestUsage, usageAt, h] at hsum ⊢
  omega

theorem usageAt_of_lookup {cache : CCoinsViewCache} {txid : Uint256} {e : CCoinsCacheEntry}
    (h : cache.cacheCoins.lookup txid = some e) :
    usageAt dynamicMemoryUsage cache txid = dynamicMemoryUsage e.coins := by
  simp [usageAt, AList.sumAt, h]

theorem usageAt_of_lookup_none {cache : CCoinsViewCache} {txid : Uint256}
    (h : cache.cacheCoins.lookup txid = none) : usageAt dynamicMemoryUsage cache txid = 0 := by
  simp [usageAt, AList.sumAt, h]

/-- A read leaves the count as exact as it was. -/
theorem usageDrift_fetchCoins (cache : CCoinsViewCache) (base : Uint256 → Option CCoins)
    (txid : Uint256) :
    usageDrift dynamicMemoryUsage (cache.fetchCoins dynamicMemoryUsage base txid).2 =
      usageDrift dynamicMemoryUsage cache := by
  cases hl : cache.cacheCoins.lookup txid with
  | some e => simp [fetchCoins, hl]
  | none =>
    cases hb : base txid with
    | none => simp [fetchCoins, fetched, hl, hb]
    | some coins =>
      -- the fetched coins are inserted where there was no entry
      have h := @selfTestUsage_insert dynamicMemoryUsage cache
        (fetched dynamicMemoryUsage cache txid (some coins)).2 _ _ rfl
      rw [usageAt_of_lookup_none hl] at h
      simp only [fetchCoins, hl, hb, usageDrift, fetched] at h ⊢
      omega

end CCoinsViewCache

namespace CCoinsModifier

variable {dynamicMemoryUsage : CCoins → Nat}

/-- The destructor adds the new coins' memory and subtracts `cachedCoinUsage`, which is right
exactly when `cachedCoinUsage` is the memory of the coins the entry held. -/
theorem usageDrift_release (m : CCoinsModifier) (hm : m.Holds) (coins : CCoins) :
    CCoinsViewCache.usageDrift dynamicMemoryUsage (m.release dynamicMemoryUsage coins) =
      CCoinsViewCache.usageDrift dynamicMemoryUsage m.cache - m.cachedCoinUsage +
        dynamicMemoryUsage m.entry.coins := by
  have hat := @CCoinsViewCache.usageAt_of_lookup dynamicMemoryUsage _ _ _ hm
  dsimp only [release]
  split
  · have h := @CCoinsViewCache.selfTestUsage_erase dynamicMemoryUsage m.cache
      ⟨m.cache.cacheCoins.erase m.txid, 0⟩ _ rfl
    simp only [CCoinsViewCache.usageDrift, CCoinsViewCache.selfTestUsage] at h ⊢
    omega
  · have h := @CCoinsViewCache.selfTestUsage_insert dynamicMemoryUsage m.cache
      ⟨m.cache.cacheCoins.insert m.txid { m.entry with coins := coins.cleanup }, 0⟩ _ _ rfl
    simp only [CCoinsViewCache.usageDrift, CCoinsViewCache.selfTestUsage] at h ⊢
    omega

/-- The entry the destructor leaves: none when it was `FRESH` and the coins are pruned. -/
theorem lookup_release (m : CCoinsModifier) (coins : CCoins) :
    (m.release dynamicMemoryUsage coins).cacheCoins.lookup m.txid =
      if m.entry.fresh ∧ coins.cleanup.IsPruned then none
      else some { m.entry with coins := coins.cleanup } := by
  dsimp only [release]
  split
  · exact AList.lookup_erase _ _
  · exact AList.lookup_insert _

theorem lookup_release_ne (m : CCoinsModifier) (coins : CCoins) {k : Uint256} (hk : k ≠ m.txid) :
    (m.release dynamicMemoryUsage coins).cacheCoins.lookup k = m.cache.cacheCoins.lookup k := by
  dsimp only [release]
  split
  · exact AList.lookup_erase_ne hk
  · exact AList.lookup_insert_ne hk

/-- The holder's block succeeding makes the edit succeed, with the destructor run on its coins. -/
theorem edit_of_eq_ok {α : Type} (m : CCoinsModifier) {f : CCoins → Except String (CCoins × α)}
    {coins : CCoins} {a : α} (h : f m.entry.coins = .ok (coins, a)) :
    m.edit dynamicMemoryUsage f = .ok (a, m.release dynamicMemoryUsage coins) := by
  simp [edit, h, bind, Except.bind, pure, Except.pure]

theorem edit_eq_ok {α : Type} {m : CCoinsModifier} {f : CCoins → Except String (CCoins × α)}
    {a : α} {cache : CCoinsViewCache} (h : m.edit dynamicMemoryUsage f = .ok (a, cache)) :
    ∃ coins, f m.entry.coins = .ok (coins, a) ∧ cache = m.release dynamicMemoryUsage coins := by
  cases hf : f m.entry.coins with
  | error e => simp [edit, hf, bind, Except.bind] at h
  | ok r =>
    obtain ⟨coins, b⟩ := r
    rw [edit_of_eq_ok m hf] at h
    cases h
    exact ⟨coins, rfl, rfl⟩

end CCoinsModifier

namespace CCoinsViewCache

variable {dynamicMemoryUsage : CCoins → Nat}

theorem modifyCoins_holds (cache : CCoinsViewCache) (txid : Uint256) (baseCoins : Option CCoins) :
    (cache.modifyCoins dynamicMemoryUsage txid baseCoins).Holds := by
  simp [modifyCoins, CCoinsModifier.Holds, AList.lookup_insert]

/-- `ModifyCoins` followed by the destructor leaves the count as exact as it was:
`cachedCoinUsage` is the memory of the entry found, or zero for a new one. -/
theorem usageDrift_modifyCoins (cache : CCoinsViewCache) (txid : Uint256)
    (baseCoins : Option CCoins) (coins : CCoins) :
    usageDrift dynamicMemoryUsage
        ((cache.modifyCoins dynamicMemoryUsage txid baseCoins).release dynamicMemoryUsage coins) =
      usageDrift dynamicMemoryUsage cache := by
  have hcu : (cache.modifyCoins dynamicMemoryUsage txid baseCoins).cachedCoinUsage =
      usageAt dynamicMemoryUsage cache txid := by
    cases hl : cache.cacheCoins.lookup txid with
    | some e => simp [modifyCoins, hl, usageAt_of_lookup hl]
    | none => cases baseCoins <;> simp [modifyCoins, hl, usageAt_of_lookup_none hl]
  have hins := @selfTestUsage_insert dynamicMemoryUsage cache
    (cache.modifyCoins dynamicMemoryUsage txid baseCoins).cache txid
    (cache.modifyCoins dynamicMemoryUsage txid baseCoins).entry rfl
  rw [CCoinsModifier.usageDrift_release _ (modifyCoins_holds cache txid baseCoins), hcu]
  simp only [usageDrift] at hins ⊢
  have hcount : (cache.modifyCoins dynamicMemoryUsage txid baseCoins).cache.cachedCoinsUsage =
      cache.cachedCoinsUsage := rfl
  omega

/-- What `ModifyNewCoins` does, and when it throws. -/
theorem modifyNewCoins_eq_ok {cache : CCoinsViewCache} {txid : Uint256} {coinbase : Bool}
    {m : CCoinsModifier} :
    cache.modifyNewCoins txid coinbase = .ok m ↔
      (coinbase = true ∨ ((cache.cacheCoins.lookup txid).getD {}).coins.IsPruned) ∧
      m = { cache :=
              { cache with
                cacheCoins := cache.cacheCoins.insert txid
                  (newCoinsEntry ((cache.cacheCoins.lookup txid).getD {}) coinbase) }
            txid, entry := newCoinsEntry ((cache.cacheCoins.lookup txid).getD {}) coinbase
            cachedCoinUsage := 0 } := by
  dsimp only [modifyNewCoins]
  split
  · rename_i hthrow
    simp only [Bool.not_eq_true'] at hthrow
    constructor
    · intro h; cases h
    · rintro ⟨hcb | hp, -⟩
      · simp [hcb] at hthrow
      · exact absurd hp hthrow.2
  · rename_i hok
    constructor
    · intro h
      cases h
      refine ⟨?_, rfl⟩
      by_cases hcb : coinbase = true
      · exact .inl hcb
      · exact .inr (by simpa [hcb] using hok)
    · rintro ⟨-, rfl⟩
      rfl

theorem modifyNewCoins_holds {cache : CCoinsViewCache} {txid : Uint256} {coinbase : Bool}
    {m : CCoinsModifier} (h : cache.modifyNewCoins txid coinbase = .ok m) : m.Holds := by
  obtain ⟨-, rfl⟩ := modifyNewCoins_eq_ok.mp h
  simp [CCoinsModifier.Holds, AList.lookup_insert]

/-- `ModifyNewCoins` followed by the destructor leaves the count too high by the memory of the
coins the entry held before: the modifier is made with `cachedCoinUsage` zero, so the
destructor subtracts nothing for them. -/
theorem usageDrift_modifyNewCoins {cache : CCoinsViewCache} {txid : Uint256} {coinbase : Bool}
    {m : CCoinsModifier} (h : cache.modifyNewCoins txid coinbase = .ok m) (coins : CCoins) :
    usageDrift dynamicMemoryUsage (m.release dynamicMemoryUsage coins) =
      usageDrift dynamicMemoryUsage cache + usageAt dynamicMemoryUsage cache txid := by
  rw [CCoinsModifier.usageDrift_release _ (modifyNewCoins_holds h)]
  obtain ⟨-, rfl⟩ := modifyNewCoins_eq_ok.mp h
  have hins := @selfTestUsage_insert dynamicMemoryUsage cache
    { cache with
      cacheCoins := cache.cacheCoins.insert txid
        (newCoinsEntry ((cache.cacheCoins.lookup txid).getD {}) coinbase) } _ _ rfl
  simp only [usageDrift] at hins ⊢
  omega

theorem usageDrift_uncache (cache : CCoinsViewCache) (hash : Uint256) :
    usageDrift dynamicMemoryUsage (cache.uncache dynamicMemoryUsage hash) =
      usageDrift dynamicMemoryUsage cache := by
  cases hl : cache.cacheCoins.lookup hash with
  | none => simp [uncache, hl]
  | some e =>
    by_cases hflags : (!e.dirty) = true ∧ (!e.fresh) = true
    · have hers := @selfTestUsage_erase dynamicMemoryUsage cache ⟨cache.cacheCoins.erase hash, 0⟩ _ rfl
      rw [usageAt_of_lookup hl] at hers
      simp only [uncache, hl]
      rw [if_pos hflags]
      simp only [usageDrift, selfTestUsage] at hers ⊢
      omega
    · simp only [uncache, hl]
      rw [if_neg hflags]

theorem usageDrift_batchWriteEntry {cache cache' : CCoinsViewCache} {txid : Uint256}
    {child : CCoinsCacheEntry} (h : cache.batchWriteEntry dynamicMemoryUsage txid child = .ok cache') :
    usageDrift dynamicMemoryUsage cache' = usageDrift dynamicMemoryUsage cache := by
  unfold batchWriteEntry at h
  by_cases hd : (!child.dirty) = true
  · rw [if_pos hd] at h
    cases h
    rfl
  rw [if_neg hd] at h
  cases hl : cache.cacheCoins.lookup txid with
  | none =>
    simp only [hl] at h
    by_cases hskip : child.fresh = true ∧ child.coins.IsPruned
    · rw [if_pos hskip] at h
      cases h
      rfl
    · -- a new entry
      rw [if_neg hskip] at h
      cases h
      have hins := @selfTestUsage_insert dynamicMemoryUsage cache
        ⟨cache.cacheCoins.insert txid ⟨child.coins, true, child.fresh⟩, 0⟩ _ _ rfl
      rw [usageAt_of_lookup_none hl] at hins
      simp only [usageDrift, selfTestUsage] at hins ⊢
      omega
  | some parent =>
    simp only [hl] at h
    by_cases hthrow : child.fresh = true ∧ ¬ parent.coins.IsPruned
    · rw [if_pos hthrow] at h
      cases h
    rw [if_neg hthrow] at h
    by_cases herase : parent.fresh = true ∧ child.coins.IsPruned
    · -- the parent's entry is erased
      rw [if_pos herase] at h
      cases h
      have hers := @selfTestUsage_erase dynamicMemoryUsage cache ⟨cache.cacheCoins.erase txid, 0⟩ _ rfl
      rw [usageAt_of_lookup hl] at hers
      simp only [usageDrift, selfTestUsage] at hers ⊢
      omega
    · -- the parent's entry takes the child's coins
      rw [if_neg herase] at h
      cases h
      have hins := @selfTestUsage_insert dynamicMemoryUsage cache
        ⟨cache.cacheCoins.insert txid { parent with coins := child.coins, dirty := true }, 0⟩
        _ _ rfl
      rw [usageAt_of_lookup hl] at hins
      simp only [usageDrift, selfTestUsage] at hins ⊢
      omega

theorem usageDrift_batchWrite {cache cache' : CCoinsViewCache} {mapCoins : CCoinsMap}
    (h : cache.batchWrite dynamicMemoryUsage mapCoins = .ok cache') :
    usageDrift dynamicMemoryUsage cache' = usageDrift dynamicMemoryUsage cache :=
  List.foldlM_except_inv (fun c => usageDrift dynamicMemoryUsage c = usageDrift dynamicMemoryUsage cache)
    (fun _ _ _ hs hc => (usageDrift_batchWriteEntry hs).trans hc) mapCoins.entries h rfl

/-- Every method but `ModifyNewCoins` keeps the count exact; `ModifyNewCoins` on the entry of
`txid` that a duplicate coinbase overwrites makes it exceed the memory of the entries by the
memory of the coins overwritten.  From an empty cache, `ModifyNewCoins(txid, true)` twice, each
time storing `coins`, leaves the count at twice their memory with one entry holding them. -/
theorem modifyNewCoins_coinbase_overcount (dynamicMemoryUsage : CCoins → Nat) (txid : Uint256)
    (coins : CCoins) :
    ∃ m₁ m₂ : CCoinsModifier,
      ({} : CCoinsViewCache).modifyNewCoins txid true = .ok m₁ ∧
      (m₁.release dynamicMemoryUsage coins).modifyNewCoins txid true = .ok m₂ ∧
      (m₂.release dynamicMemoryUsage coins).cachedCoinsUsage =
        (m₂.release dynamicMemoryUsage coins).selfTestUsage dynamicMemoryUsage +
          dynamicMemoryUsage coins.cleanup := by
  obtain ⟨m₁, h₁⟩ : ∃ m₁, ({} : CCoinsViewCache).modifyNewCoins txid true = .ok m₁ :=
    ⟨_, modifyNewCoins_eq_ok.mpr ⟨.inl rfl, rfl⟩⟩
  obtain ⟨m₂, h₂⟩ : ∃ m₂, (m₁.release dynamicMemoryUsage coins).modifyNewCoins txid true = .ok m₂ :=
    ⟨_, modifyNewCoins_eq_ok.mpr ⟨.inl rfl, rfl⟩⟩
  refine ⟨m₁, m₂, h₁, h₂, ?_⟩
  -- the first call finds no entry and leaves the count exact
  have hd₁ := @usageDrift_modifyNewCoins dynamicMemoryUsage _ _ _ _ h₁ coins
  have hempty : usageDrift dynamicMemoryUsage ({} : CCoinsViewCache) = 0 := rfl
  have hat₁ : usageAt dynamicMemoryUsage ({} : CCoinsViewCache) txid = 0 := rfl
  -- it stores the coins in an entry that is not `FRESH`, which the second call overwrites
  have hat₂ : usageAt dynamicMemoryUsage (m₁.release dynamicMemoryUsage coins) txid =
      dynamicMemoryUsage coins.cleanup := by
    obtain ⟨-, hm₁⟩ := modifyNewCoins_eq_ok.mp h₁
    have htxid : m₁.txid = txid := by rw [hm₁]
    have hfresh : m₁.entry.fresh = false := by rw [hm₁]; rfl
    rw [usageAt, AList.sumAt, ← htxid, CCoinsModifier.lookup_release, if_neg (by simp [hfresh])]
    rfl
  have hd₂ := @usageDrift_modifyNewCoins dynamicMemoryUsage _ _ _ _ h₂ coins
  simp only [usageDrift] at hd₁ hd₂ hempty
  omega

end CCoinsViewCache

end Trumpow
