import Trumpow.Coins.Cache

/-!
# Coins — the writes of `validation.cpp`, on a cache and on the UTXO set

`UpdateCoins`, `ApplyTxInUndo` and `DisconnectBlock` write to their `CCoinsViewCache` through
two calls only: `ModifyCoins(txid)` and `ModifyNewCoins(txid, coinbase)`, each followed by a
block that holds the modifier, reads the coins and changes them, and then the modifier's
destructor.  `CoinsWriter` is that interface; those functions are written once against it
(`Validation.UpdateCoins`).

It has two instances.  `cacheWriter` is the cache of `Coins.Cache` over a base.  `mapWriter` is
what the cache stands for, the UTXO set as a map from transaction ids to coins, where
`ModifyNewCoins` creates the coins of a transaction that has none, as its header assumes.
Coins are compared by the source's own `operator==`, under which all pruned coins are equal:
the cache may forget pruned coins (an entry erased as `FRESH` and pruned) and read the base's
instead.

`Simulates W₁ W₂ R` says that every write of `W₁` does what the same write of `W₂` does, for
states related by `R`.  A block that reads coins must give equal results on equal coins
(`EditCongr`), but only where its value satisfies a predicate `P`: `ApplyTxInUndo` on pruned
coins keeps their metadata, which `operator==` ignores, and reports that as unclean.  The cache
simulates the map (`cacheWriter_simulates`) through the invariant of its flags
(`CCoinsViewCache.Flags`), and the map simulates itself up to `operator==`
(`mapWriter_simulates`).
-/

namespace Trumpow

/-- A view that `validation.cpp` writes to: `ModifyCoins(txid)` or
`ModifyNewCoins(txid, coinbase)`, the block `f` that holds the modifier (it receives the coins and
returns the coins to store and a value), and the modifier's destructor. -/
structure CoinsWriter (σ : Type) where
  modifyCoins {α : Type} :
    σ → Uint256 → (CCoins → Except String (CCoins × α)) → Except String (α × σ)
  modifyNewCoins {α : Type} :
    σ → Uint256 → Bool → (CCoins → Except String (CCoins × α)) → Except String (α × σ)

/-- A `CCoinsViewCache` over a base that reads `base`. -/
def cacheWriter (dynamicMemoryUsage : CCoins → Nat) (base : Uint256 → Option CCoins) :
    CoinsWriter CCoinsViewCache where
  modifyCoins cache txid f :=
    (cache.modifyCoins dynamicMemoryUsage txid (base txid)).edit dynamicMemoryUsage f
  modifyNewCoins cache txid coinbase f := do
    let m ← cache.modifyNewCoins txid coinbase
    m.edit dynamicMemoryUsage f

/-- The UTXO set: the coins of every transaction id, pruned when it has none. -/
abbrev CoinsMap := Uint256 → CCoins

/-- The UTXO set as `CCoinsViewCache` stands for it: the coins are stored cleaned up, and
`ModifyNewCoins` requires that the transaction have no unspent coins. -/
def mapWriter : CoinsWriter CoinsMap where
  modifyCoins V txid f := do
    let (coins, a) ← f (V txid)
    pure (a, Function.update V txid coins.cleanup)
  modifyNewCoins V txid _ f :=
    if ¬ (V txid).IsPruned then throw "the transaction has unspent coins"
    else do
      let (coins, a) ← f default
      pure (a, Function.update V txid coins.cleanup)

/-- Two maps equal at every transaction id under `operator==`. -/
def MapEquiv (V W : CoinsMap) : Prop := ∀ txid, (V txid).Equals (W txid)

theorem MapEquiv.refl (V : CoinsMap) : MapEquiv V V := fun _ => .refl _

theorem MapEquiv.symm {V W : CoinsMap} (h : MapEquiv V W) : MapEquiv W V := fun k => (h k).symm

theorem MapEquiv.trans {U V W : CoinsMap} (h₁ : MapEquiv U V) (h₂ : MapEquiv V W) :
    MapEquiv U W := fun k => (h₁ k).trans (h₂ k)

theorem MapEquiv.update {V W : CoinsMap} (h : MapEquiv V W) (txid : Uint256) {c d : CCoins}
    (hcd : c.Equals d) : MapEquiv (Function.update V txid c) (Function.update W txid d) := by
  intro k
  by_cases hk : k = txid
  · subst hk
    simpa using hcd
  · simpa [Function.update_of_ne hk] using h k

/-- The block `f` gives the same value, and coins equal under `operator==` once cleaned up, on
coins equal under `operator==`, wherever its value on the second satisfies `P`. -/
def EditCongr {α : Type} (f : CCoins → Except String (CCoins × α)) (P : α → Prop) : Prop :=
  ∀ c d r, c.Equals d → f d = .ok r → P r.2 →
    ∃ r', f c = .ok r' ∧ r'.2 = r.2 ∧ r'.1.cleanup.Equals r.1.cleanup

/-- A block that does not read the coins it holds. -/
theorem EditCongr.const {α : Type} (r : Except String (CCoins × α)) (P : α → Prop) :
    EditCongr (fun _ => r) P := fun _ _ r' _ h _ => ⟨r', h, rfl, .refl _⟩

/-- A block that succeeds only on coins with an unspent output, which are equal only to
themselves. -/
theorem EditCongr.of_not_isPruned {α : Type} {f : CCoins → Except String (CCoins × α)}
    (P : α → Prop) (hf : ∀ d r, f d = .ok r → ¬ d.IsPruned) : EditCongr f P :=
  fun _ d r hcd hd _ => ⟨r, (hcd.eq_of_not_isPruned (hf d r hd)) ▸ hd, rfl, .refl _⟩

/-- Every write of `W₁` on `s` succeeds with the value of the same write of `W₂` on `t`, for
states related by `R`, and keeps them related, wherever `W₂`'s write succeeds with a value
satisfying `P` and the block is congruent up to `P`. -/
structure Simulates {σ τ : Type} (W₁ : CoinsWriter σ) (W₂ : CoinsWriter τ)
    (R : σ → τ → Prop) : Prop where
  modifyCoins {α : Type} {s : σ} {t t' : τ} {txid : Uint256}
      {f : CCoins → Except String (CCoins × α)} {P : α → Prop} {a : α} :
    R s t → EditCongr f P → W₂.modifyCoins t txid f = .ok (a, t') → P a →
      ∃ s', W₁.modifyCoins s txid f = .ok (a, s') ∧ R s' t'
  modifyNewCoins {α : Type} {s : σ} {t t' : τ} {txid : Uint256} {coinbase : Bool}
      {f : CCoins → Except String (CCoins × α)} {a : α} :
    R s t → W₂.modifyNewCoins t txid coinbase f = .ok (a, t') →
      ∃ s', W₁.modifyNewCoins s txid coinbase f = .ok (a, s') ∧ R s' t'

/-! ### The map -/

section Map

variable {α : Type} {V V' : CoinsMap} {txid : Uint256} {f : CCoins → Except String (CCoins × α)}
  {a : α}

theorem mapWriter_modifyCoins_eq_ok :
    mapWriter.modifyCoins V txid f = .ok (a, V') ↔
      ∃ coins, f (V txid) = .ok (coins, a) ∧ V' = Function.update V txid coins.cleanup := by
  simp only [mapWriter]
  cases hf : f (V txid) with
  | error e => simp [bind, Except.bind]
  | ok r =>
    obtain ⟨coins, b⟩ := r
    simp only [bind, Except.bind, pure, Except.pure, Except.ok.injEq, Prod.mk.injEq]
    constructor
    · rintro ⟨rfl, rfl⟩
      exact ⟨coins, ⟨rfl, rfl⟩, rfl⟩
    · rintro ⟨coins', ⟨rfl, rfl⟩, rfl⟩
      exact ⟨rfl, rfl⟩

theorem mapWriter_modifyNewCoins_eq_ok {coinbase : Bool} :
    mapWriter.modifyNewCoins V txid coinbase f = .ok (a, V') ↔
      (V txid).IsPruned ∧
        ∃ coins, f default = .ok (coins, a) ∧ V' = Function.update V txid coins.cleanup := by
  simp only [mapWriter]
  by_cases hp : (V txid).IsPruned
  · rw [if_neg (not_not.mpr hp)]
    cases hf : f default with
    | error e => simp [bind, Except.bind]
    | ok r =>
      obtain ⟨coins, b⟩ := r
      simp only [bind, Except.bind, pure, Except.pure, Except.ok.injEq, Prod.mk.injEq]
      constructor
      · rintro ⟨rfl, rfl⟩
        exact ⟨hp, coins, ⟨rfl, rfl⟩, rfl⟩
      · rintro ⟨-, coins', ⟨rfl, rfl⟩, rfl⟩
        exact ⟨rfl, rfl⟩
  · rw [if_pos hp]
    simp [throw, throwThe, MonadExceptOf.throw, hp]

end Map

/-- The map simulates itself up to `operator==`. -/
theorem mapWriter_simulates : Simulates mapWriter mapWriter MapEquiv where
  modifyCoins := by
    intro α V W W' txid f P a hVW hf hW hP
    obtain ⟨coins, hcoins, rfl⟩ := mapWriter_modifyCoins_eq_ok.mp hW
    obtain ⟨⟨coins', a'⟩, hcoins', ha', hequiv⟩ := hf (V txid) (W txid) _ (hVW txid) hcoins hP
    cases ha'
    exact ⟨_, mapWriter_modifyCoins_eq_ok.mpr ⟨coins', hcoins', rfl⟩, hVW.update txid hequiv⟩
  modifyNewCoins := by
    intro α V W W' txid coinbase f a hVW hW
    obtain ⟨hpruned, coins, hcoins, rfl⟩ := mapWriter_modifyNewCoins_eq_ok.mp hW
    exact ⟨_, mapWriter_modifyNewCoins_eq_ok.mpr
      ⟨(hVW txid).isPruned_iff.mpr hpruned, coins, hcoins, rfl⟩, hVW.update txid (.refl _)⟩

/-! ### The cache -/

namespace CCoinsViewCache

variable {dynamicMemoryUsage : CCoins → Nat} {base : Uint256 → Option CCoins}

/-- The invariant of the flags against the base a cache reads: a `FRESH` entry's base has no
unspent coins, and an entry that is not `DIRTY` has the base's coins. -/
structure Flags (base : Uint256 → Option CCoins) (cache : CCoinsViewCache) : Prop where
  fresh : ∀ txid e, cache.cacheCoins.lookup txid = some e → e.fresh = true →
    ((base txid).getD default).IsPruned
  notDirty : ∀ txid e, cache.cacheCoins.lookup txid = some e → e.dirty = false →
    e.coins.Equals ((base txid).getD default)

/-- A cache over `base` stands for the map `V`: its flags are right, and it reads `V`'s coins
up to `operator==`. -/
def Represents (base : Uint256 → Option CCoins) (cache : CCoinsViewCache) (V : CoinsMap) : Prop :=
  cache.Flags base ∧ ∀ txid, ((cache.view base txid).getD default).Equals (V txid)

/-- The coins `ModifyCoins` hands to its holder are those the cache reads. -/
theorem modifyCoins_entry_coins (cache : CCoinsViewCache) (txid : Uint256) :
    (cache.modifyCoins dynamicMemoryUsage txid (base txid)).entry.coins =
      (cache.view base txid).getD default := by
  unfold modifyCoins view
  cases cache.cacheCoins.lookup txid with
  | some e => rfl
  | none => cases base txid <;> rfl

theorem modifyCoins_entry_fresh {cache : CCoinsViewCache} (hflags : cache.Flags base)
    (txid : Uint256) (hfresh : (cache.modifyCoins dynamicMemoryUsage txid (base txid)).entry.fresh) :
    ((base txid).getD default).IsPruned := by
  unfold modifyCoins at hfresh
  cases hl : cache.cacheCoins.lookup txid with
  | some e =>
    rw [hl] at hfresh
    exact hflags.fresh txid e hl hfresh
  | none =>
    rw [hl] at hfresh
    cases hb : base txid with
    | none => simp
    | some coins =>
      rw [hb] at hfresh
      simpa using hfresh

/-- The destructor of a modifier that inserted a `DIRTY` entry with a right `FRESH` flag keeps the
flags right, and the cache then reads the stored coins at its `txid`, up to `operator==`. -/
theorem represents_release {cache : CCoinsViewCache} {V : CoinsMap} {m : CCoinsModifier}
    (hm : m.cache.cacheCoins = cache.cacheCoins.insert m.txid m.entry)
    (hrep : cache.Represents base V) (hdirty : m.entry.dirty = true)
    (hfresh : m.entry.fresh = true → ((base m.txid).getD default).IsPruned)
    {coins c : CCoins} (hc : coins.cleanup.Equals c.cleanup) :
    (m.release dynamicMemoryUsage coins).Represents base (Function.update V m.txid c.cleanup) := by
  have hne : ∀ k, k ≠ m.txid →
      (m.release dynamicMemoryUsage coins).cacheCoins.lookup k = cache.cacheCoins.lookup k :=
    fun k hk => by rw [CCoinsModifier.lookup_release_ne m coins hk, hm, AList.lookup_insert_ne hk]
  have hself := @CCoinsModifier.lookup_release dynamicMemoryUsage m coins
  refine ⟨⟨fun k e hk he => ?_, fun k e hk he => ?_⟩, fun k => ?_⟩
  · -- `FRESH` entries
    by_cases hkt : k = m.txid
    · subst hkt
      rw [hself] at hk
      split at hk
      · cases hk
      · cases hk
        exact hfresh he
    · exact hrep.1.fresh k e ((hne k hkt).symm.trans hk) he
  · -- entries that are not `DIRTY`
    by_cases hkt : k = m.txid
    · subst hkt
      rw [hself] at hk
      split at hk
      · cases hk
      · cases hk
        simp [hdirty] at he
    · exact hrep.1.notDirty k e ((hne k hkt).symm.trans hk) he
  · -- what the cache reads
    by_cases hkt : k = m.txid
    · subst hkt
      rw [Function.update_self, view, hself]
      by_cases herase : m.entry.fresh = true ∧ coins.cleanup.IsPruned
      · -- erased: the base has no unspent coins, nor have the stored ones
        rw [if_pos herase]
        exact CCoins.equals_of_isPruned (hfresh herase.1) (hc.isPruned_iff.mp herase.2)
      · rw [if_neg herase]
        exact hc
    · rw [Function.update_of_ne hkt, view, hne k hkt]
      exact hrep.2 k

end CCoinsViewCache

open CCoinsViewCache in
/-- The cache simulates the map it stands for. -/
theorem cacheWriter_simulates (dynamicMemoryUsage : CCoins → Nat)
    (base : Uint256 → Option CCoins) :
    Simulates (cacheWriter dynamicMemoryUsage base) mapWriter (Represents base) where
  modifyCoins := by
    intro α cache V V' txid f P a hrep hf hV hP
    obtain ⟨coins, hcoins, rfl⟩ := mapWriter_modifyCoins_eq_ok.mp hV
    set m := cache.modifyCoins dynamicMemoryUsage txid (base txid) with hm
    have hc : m.entry.coins.Equals (V txid) := by
      rw [hm, modifyCoins_entry_coins]
      exact hrep.2 txid
    obtain ⟨⟨coins', a'⟩, hcoins', ha, hequiv⟩ := hf m.entry.coins (V txid) _ hc hcoins hP
    cases ha
    exact ⟨m.release dynamicMemoryUsage coins', CCoinsModifier.edit_of_eq_ok m hcoins',
      represents_release rfl hrep rfl (modifyCoins_entry_fresh hrep.1 txid) hequiv⟩
  modifyNewCoins := by
    intro α cache V V' txid coinbase f a hrep hV
    obtain ⟨hpruned, coins, hcoins, rfl⟩ := mapWriter_modifyNewCoins_eq_ok.mp hV
    -- the entry found, if any, is the pruned coins the cache reads
    have hentry : ∀ e, cache.cacheCoins.lookup txid = some e → e.coins.IsPruned := fun e he => by
      have := hrep.2 txid
      rw [view, he] at this
      exact this.isPruned_iff.mpr hpruned
    have hfound : ((cache.cacheCoins.lookup txid).getD {}).coins.IsPruned := by
      cases hl : cache.cacheCoins.lookup txid with
      | some e => exact hentry e hl
      | none => exact CCoins.isPruned_default
    obtain ⟨m, hnew⟩ : ∃ m, cache.modifyNewCoins txid coinbase = .ok m :=
      ⟨_, modifyNewCoins_eq_ok.mpr ⟨.inr hfound, rfl⟩⟩
    obtain ⟨-, hm⟩ := modifyNewCoins_eq_ok.mp hnew
    have htxid : m.txid = txid := by rw [hm]
    have hcoins' : f m.entry.coins = .ok (coins, a) := by rw [hm]; exact hcoins
    -- `FRESH` is set on an entry that was `FRESH`, or was the base's, or was missing
    have hfresh : m.entry.fresh = true → ((base m.txid).getD default).IsPruned := by
      intro hfresh
      rw [htxid]
      rw [hm] at hfresh
      cases hl : cache.cacheCoins.lookup txid with
      | some e =>
        simp only [hl, Option.getD_some, newCoinsEntry, Bool.or_eq_true, Bool.and_eq_true,
          Bool.not_eq_true'] at hfresh
        rcases hfresh with he | ⟨-, he⟩
        · exact hrep.1.fresh txid e hl he
        · exact (hrep.1.notDirty txid e hl he).isPruned_iff.mp (hentry e hl)
      | none =>
        have := hrep.2 txid
        rw [view, hl] at this
        exact this.isPruned_iff.mpr hpruned
    have hrel := @represents_release dynamicMemoryUsage base cache V m
      (by rw [hm]) hrep (by rw [hm]; rfl) hfresh coins coins (.refl _)
    rw [htxid] at hrel
    refine ⟨_, ?_, hrel⟩
    simp only [cacheWriter, hnew, bind, Except.bind]
    exact CCoinsModifier.edit_of_eq_ok _ hcoins'

end Trumpow
