import Trumpow.Coins.Writer
import Trumpow.Support.Blanks

/-!
# Validation — connecting transactions to the UTXO set, and disconnecting them

`validation.cpp`.  `UpdateCoins(tx, inputs, txundo, nHeight)` spends the outputs the inputs of a
transaction refer to, recording each spent output in an undo record (`CTxInUndo`), with the
coins' metadata when the spend leaves no output, and then creates the transaction's coins with
`ModifyNewCoins`.  `DisconnectBlock` goes back over a block's transactions, last first: it checks
that a transaction's coins are its outputs (`checkOutputs`), clears them, and restores its inputs
with `ApplyTxInUndo`, last input first, reporting in `fClean` whatever it finds amiss.

The functions are written once against `CoinsWriter`, so that they run both on a
`CCoinsViewCache` and on the UTXO set it stands for.  `DisconnectBlock`'s loop body is
`disconnectTx`, with the source's test `i > 0` (not the block's first transaction) read as "not a
coinbase"; `connectTxs` and `disconnectTxs` are the two loops over a sequence of transactions.
The assertion of `UpdateCoins` and the exceptions of the cache are `.error`.

Results:
* on the UTXO set, disconnecting what was connected restores the coins up to `operator==` and
  is clean (`disconnectTxs_connectTxs`), when the coins of the view with an unspent output have
  heights from `1` to `2^31 - 1`, no spent output at the end and every spent output `CTxOut()`
  (`CCoins.Normal`), the height is in that range too, and every spent-looking output of the
  transactions is `CTxOut()`.  The step is one transaction (`disconnectTx_updateCoins`), and
  inside it one input (`applyTxInUndo_spendInput`): padding with `CTxOut()` restores the spent
  outputs that `Cleanup()` dropped.
* any writer that simulates the UTXO set does what it does (`connectTxs_simulates`,
  `disconnectTxs_simulates`), the cache among them, so the same holds of every cache whose
  flags are right (`disconnect_restores_view`);
* at height `0` the undo record of coins created in the sequence says "no metadata", and
  disconnecting reports unclean (`disconnect_unclean_at_height_zero`).
-/

namespace Trumpow

/-- `CTxUndo`: the undo records of a transaction's inputs. -/
structure CTxUndo where
  vprevout : List CTxInUndo := []
deriving DecidableEq

/-! ### The blocks that hold a modifier -/

/-- The block of `UpdateCoins` that holds the modifier of an input's coins: the output `nPos` is
recorded and spent, and the coins' metadata recorded with it when no output is left.  `Spend`
fails exactly where the source's `assert(false)` fires. -/
def spendInput (nPos : Nat) (coins : CCoins) : Except String (CCoins × CTxInUndo) :=
  match coins.spend nPos with
  | none => throw "UpdateCoins: assert(false)"
  | some spent =>
    let undo : CTxInUndo := { txout := coins.vout.getD nPos default }
    if spent.vout.length = 0 then
      pure (spent, { undo with nHeight := (spent.nHeight % 2 ^ 32).toNat
                               fCoinBase := spent.fCoinBase, nVersion := spent.nVersion })
    else pure (spent, undo)

/-- The block of `ApplyTxInUndo(undo, view, out)` that holds the modifier of `out.hash`'s coins,
for `out.n = n`; its value is `fClean`.  `coins->nHeight = undo.nHeight` converts an `unsigned
int` to an `int`. -/
def applyTxInUndo (undo : CTxInUndo) (n : Nat) (coins : CCoins) : Except String (CCoins × Bool) :=
  let (coins, fClean) : CCoins × Bool :=
    if undo.nHeight ≠ 0 then
      -- undo data contains height: this is the last output of the prevout tx being spent
      (⟨undo.fCoinBase, [], toInt32 (undo.nHeight % 2 ^ 32), undo.nVersion⟩,
        decide coins.IsPruned)
    else (coins, !decide coins.IsPruned)
  let fClean := fClean && !decide (coins.IsAvailable n)
  let coins :=
    if coins.vout.length < n + 1 then { coins with vout := coins.vout.rightpad (n + 1) default }
    else coins
  pure ({ coins with vout := coins.vout.set n undo.txout }, fClean)

/-- The block of `DisconnectBlock` that holds the modifier of a transaction's own coins: they
must be its outputs at the block's height, `CCoins(tx, nHeight)`; they are then cleared. -/
def checkOutputs (tx : CTransaction) (nHeight : Int) (outs : CCoins) :
    Except String (CCoins × Bool) :=
  let outs := outs.clearUnspendable
  let outsBlock := CCoins.fromTx tx nHeight
  let outs := if outsBlock.nVersion < 0 then { outs with nVersion := outsBlock.nVersion } else outs
  pure (default, decide (outs.Equals outsBlock))

section Functions

variable {σ : Type} (W : CoinsWriter σ) (getHash : CTransaction → Uint256) (nHeight : Int)

/-- The loop of `UpdateCoins` over the inputs. -/
def spendInputs : List CTxIn → σ → Except String (List CTxInUndo × σ)
  | [], inputs => pure ([], inputs)
  | txin :: vin, inputs => do
    let (undo, inputs) ← W.modifyCoins inputs txin.prevout.hash (spendInput txin.prevout.n)
    let (undos, inputs) ← spendInputs vin inputs
    pure (undo :: undos, inputs)

/-- `UpdateCoins(tx, inputs, txundo, nHeight)`. -/
def updateCoins (tx : CTransaction) (inputs : σ) : Except String (CTxUndo × σ) := do
  -- mark inputs spent
  let (vprevout, inputs) ←
    (if tx.IsCoinBase then pure ([], inputs) else spendInputs W tx.vin inputs : Except String _)
  -- add outputs
  let ((), inputs) ← W.modifyNewCoins inputs (getHash tx) (decide tx.IsCoinBase)
    fun _ => pure (CCoins.fromTx tx nHeight, ())
  pure (⟨vprevout⟩, inputs)

/-- The loop of `DisconnectBlock` over the inputs of a transaction, given as the pairs of an
input and its undo record, last first. -/
def restoreInputs : List (CTxIn × CTxInUndo) → Bool × σ → Except String (Bool × σ)
  | [], acc => pure acc
  | (txin, undo) :: rest, (fClean, view) => do
    let (ok, view) ← W.modifyCoins view txin.prevout.hash (applyTxInUndo undo txin.prevout.n)
    restoreInputs rest (fClean && ok, view)

/-- The body of `DisconnectBlock`'s loop for a transaction `tx` with undo data `txundo`. -/
def disconnectTx (tx : CTransaction) (txundo : CTxUndo) (view : σ) :
    Except String (Bool × σ) := do
  -- check that all outputs are available and match the outputs in the block itself exactly
  let (fClean, view) ← W.modifyCoins view (getHash tx) (checkOutputs tx nHeight)
  -- restore inputs
  if tx.IsCoinBase then pure (fClean, view)
  else if txundo.vprevout.length ≠ tx.vin.length then
    throw "DisconnectBlock(): transaction and undo data inconsistent"
  else restoreInputs W (tx.vin.zip txundo.vprevout).reverse (fClean, view)

/-- `UpdateCoins` for each transaction in turn, at height `nHeight`, as `ConnectBlock` does. -/
def connectTxs : List CTransaction → σ → Except String (List CTxUndo × σ)
  | [], view => pure ([], view)
  | tx :: txs, view => do
    let (txundo, view) ← updateCoins W getHash nHeight tx view
    let (undos, view) ← connectTxs txs view
    pure (txundo :: undos, view)

/-- `DisconnectBlock`'s loop over the transactions with their undo data, last first. -/
def disconnectTxs : List (CTransaction × CTxUndo) → σ → Except String (Bool × σ)
  | [], view => pure (true, view)
  | (tx, txundo) :: rest, view => do
    let (fClean, view) ← disconnectTxs rest view
    let (ok, view) ← disconnectTx W getHash nHeight tx txundo view
    pure (fClean && ok, view)

end Functions

/-! ### What the blocks do -/

theorem spendInput_eq_ok {n : Nat} {c spent : CCoins} {undo : CTxInUndo}
    (h : spendInput n c = .ok (spent, undo)) :
    c.spend n = some spent ∧
      undo = if spent.vout.length = 0 then
          { txout := c.vout.getD n default, nHeight := (spent.nHeight % 2 ^ 32).toNat
            fCoinBase := spent.fCoinBase, nVersion := spent.nVersion }
        else { txout := c.vout.getD n default } := by
  unfold spendInput at h
  split at h
  · cases h
  · rename_i spent' hspend
    split at h <;> cases h
    · exact ⟨hspend, by rw [if_pos ‹_›]⟩
    · exact ⟨hspend, by rw [if_neg ‹_›]⟩

/-- `vout.resize(n + 1)` when `vout` is shorter pads it with `CTxOut()`. -/
theorem resize_eq (coins : CCoins) (n : Nat) :
    (if coins.vout.length < n + 1 then { coins with vout := coins.vout.rightpad (n + 1) default }
      else coins) = { coins with vout := coins.vout.rightpad (n + 1) default } := by
  split
  · rfl
  · rw [List.rightpad_of_le (by omega)]

/-- With a height in the undo record, the coins are rebuilt from it alone, and `fClean` says that
they were pruned. -/
theorem applyTxInUndo_of_nHeight_ne_zero {undo : CTxInUndo} (h : undo.nHeight ≠ 0) (n : Nat)
    (coins : CCoins) :
    applyTxInUndo undo n coins =
      .ok (⟨undo.fCoinBase, (([] : List CTxOut).rightpad (n + 1) default).set n undo.txout,
        toInt32 (undo.nHeight % 2 ^ 32), undo.nVersion⟩, decide coins.IsPruned) := by
  simp only [applyTxInUndo, if_pos h]
  simp [CCoins.IsAvailable, pure, Except.pure]

/-- Without one, the output is put back into the coins there, and `fClean` says that they were
not pruned and the output not available. -/
theorem applyTxInUndo_of_nHeight_eq_zero {undo : CTxInUndo} (h : undo.nHeight = 0) (n : Nat)
    (coins : CCoins) :
    applyTxInUndo undo n coins =
      .ok ({ coins with vout := (coins.vout.rightpad (n + 1) default).set n undo.txout },
        !decide coins.IsPruned && !decide (coins.IsAvailable n)) := by
  simp only [applyTxInUndo, h, ne_eq, not_true_eq_false, if_false, resize_eq]
  rfl

/-! ### Coins that the undo data rebuilds -/

/-- Coins with an unspent output as `ApplyTxInUndo` can rebuild them: cleaned up, every spent
output `CTxOut()` (the only one `vout.resize` adds back), and a height that the undo record
keeps, from `1` (`0` there means "no metadata") to `2^31 - 1`. -/
structure CCoins.Normal (c : CCoins) : Prop where
  cleanup_eq : c.cleanup = c
  null_eq : ∀ o ∈ c.vout, o.IsNull → o = default
  nHeight_pos : 0 < c.nHeight
  nHeight_lt : c.nHeight < 2 ^ 31

/-- `ApplyTxInUndo` rebuilds the coins an input spent, on any coins equal to what the spend
left, and reports clean.  Spending output `n` and dropping the spent outputs at the end may
empty the coins, and then the undo record keeps their metadata; either way padding back to
`n + 1` outputs with `CTxOut()` restores what was dropped. -/
theorem applyTxInUndo_spendInput {n : Nat} {c spent d : CCoins} {undo : CTxInUndo}
    (hc : c.Normal) (h : spendInput n c = .ok (spent, undo)) (hd : d.Equals spent) :
    applyTxInUndo undo n d = .ok (c, true) := by
  obtain ⟨hspend, hundo⟩ := spendInput_eq_ok h
  obtain ⟨hav, hspent⟩ := CCoins.spend_eq_some hspend
  -- the outputs the spend left, and the round trip of `Support.Blanks` that restores them
  set l' := (c.vout.set n default).rdropWhile fun o => decide o.IsNull with hl'
  have hvout : spent.vout = l' := by rw [hspent]; rfl
  have hrestore : (l'.rightpad (n + 1) default).set n (c.vout.getD n default) = c.vout := by
    rw [List.getD_eq_getElem _ _ hav.1]
    exact List.set_rightpad_rdropWhile_set hav.1 (by decide) (fun o ho hn => hc.null_eq o ho
      (of_decide_eq_true hn)) (congrArg CCoins.vout hc.cleanup_eq)
  by_cases hempty : spent.vout.length = 0
  · -- the spend emptied the coins: the undo record carries their metadata
    rw [if_pos hempty] at hundo
    have hl'nil : l' = [] := List.eq_nil_of_length_eq_zero (hvout ▸ hempty)
    have hpruned : d.IsPruned := hd.isPruned_iff.mpr fun o ho => by simp [hvout, hl'nil] at ho
    have hH := hc.nHeight_pos
    have hH' := hc.nHeight_lt
    have hheight : undo.nHeight = (c.nHeight % 2 ^ 32).toNat := by rw [hundo, hspent]; rfl
    have hint : toInt32 (undo.nHeight % 2 ^ 32) = c.nHeight := by
      rw [hheight, toInt32_of_lt (by omega)]
      omega
    have hfields : undo.txout = c.vout.getD n default ∧ undo.fCoinBase = c.fCoinBase ∧
        undo.nVersion = c.nVersion := by
      rw [hundo, hspent]; exact ⟨rfl, rfl, rfl⟩
    rw [applyTxInUndo_of_nHeight_ne_zero (by rw [hheight]; omega), hint, hfields.1, hfields.2.1,
      hfields.2.2, ← hl'nil, hrestore, decide_eq_true hpruned]
  · -- outputs are left: the coins are those the spend left, and the output goes back
    rw [if_neg hempty] at hundo
    subst hundo
    have hnp : ¬ spent.IsPruned := by
      rw [CCoins.isPruned_iff_vout_eq_nil (by rw [hspent]; exact CCoins.cleanup_cleanup _)]
      exact fun hnil => hempty (by simp [hnil])
    obtain rfl := hd.eq_of_not_isPruned hnp
    -- output `n` of what the spend left is spent, or beyond its end
    have hnav : ¬ d.IsAvailable n := by
      rintro ⟨hlt, hnull⟩
      have hpre : l' <+: c.vout.set n default := List.rdropWhile_prefix _ _
      rw [hvout] at hlt hnull
      rw [List.getD_eq_getElem _ _ hlt, hpre.getElem hlt] at hnull
      simp at hnull
      exact hnull rfl
    rw [applyTxInUndo_of_nHeight_eq_zero rfl, decide_eq_false hnp, decide_eq_false hnav, hvout,
      hrestore, hspent]
    rfl

theorem checkOutputs_of_equals {tx : CTransaction} {nHeight : Int} {d : CCoins}
    (hd : d.Equals (CCoins.fromTx tx nHeight)) :
    checkOutputs tx nHeight d = .ok (default, true) := by
  simp only [checkOutputs, pure, Except.pure, Except.ok.injEq, Prod.mk.injEq, true_and,
    decide_eq_true_eq]
  rcases hd with ⟨hd, hblock⟩ | rfl
  · -- pruned coins stay pruned, whatever the version
    split <;> exact CCoins.equals_of_isPruned (CCoins.isPruned_clearUnspendable hd) hblock
  · rw [CCoins.fromTx, CCoins.clearUnspendable_clearUnspendable]
    split <;> exact .refl _

/-! ### The blocks read coins only up to `operator==` -/

theorem spendInput_editCongr (n : Nat) (P : CTxInUndo → Prop) :
    EditCongr (spendInput n) P :=
  EditCongr.of_not_isPruned P fun d r hd => by
    obtain ⟨spent, undo⟩ := r
    exact CCoins.not_isPruned_of_isAvailable (CCoins.spend_eq_some (spendInput_eq_ok hd).1).1

/-- On pruned coins, `ApplyTxInUndo` keeps their metadata only when it reports unclean. -/
theorem applyTxInUndo_editCongr (undo : CTxInUndo) (n : Nat) :
    EditCongr (applyTxInUndo undo n) (· = true) := by
  rintro c d ⟨coins, fClean⟩ (⟨hc, hd⟩ | rfl) h hclean
  · by_cases hh : undo.nHeight = 0
    · rw [applyTxInUndo_of_nHeight_eq_zero hh] at h
      cases h
      simp [hd] at hclean
    · rw [applyTxInUndo_of_nHeight_ne_zero hh] at h ⊢
      cases h
      exact ⟨_, rfl, by simp [hc, hd], .refl _⟩
  · exact ⟨_, h, rfl, .refl _⟩

theorem checkOutputs_editCongr (tx : CTransaction) (nHeight : Int) :
    EditCongr (checkOutputs tx nHeight) (· = true) := by
  rintro c d ⟨coins, fClean⟩ (⟨hc, hd⟩ | rfl) h hclean
  · simp only [checkOutputs, pure, Except.pure, Except.ok.injEq, Prod.mk.injEq] at h
    obtain ⟨rfl, hval⟩ := h
    have hf : fClean = true := hclean
    subst hf
    rw [decide_eq_true_eq] at hval
    -- the block's coins are pruned too, since pruned coins equal them
    have hblock : (CCoins.fromTx tx nHeight).IsPruned := by
      split at hval <;> exact hval.isPruned_iff.mp (CCoins.isPruned_clearUnspendable hd)
    refine ⟨(default, true), ?_, rfl, .refl _⟩
    simp only [checkOutputs, pure, Except.pure, Except.ok.injEq, Prod.mk.injEq, true_and,
      decide_eq_true_eq]
    split <;> exact CCoins.equals_of_isPruned (CCoins.isPruned_clearUnspendable hc) hblock
  · exact ⟨_, h, rfl, .refl _⟩

/-! ### The loops, one write at a time -/

section Loops

variable {σ : Type} {W : CoinsWriter σ} {getHash : CTransaction → Uint256} {nHeight : Int}

theorem spendInputs_cons_eq_ok {txin : CTxIn} {vin : List CTxIn} {s s' : σ}
    {undos : List CTxInUndo} :
    spendInputs W (txin :: vin) s = .ok (undos, s') ↔
      ∃ undo s₁ rest, W.modifyCoins s txin.prevout.hash (spendInput txin.prevout.n) = .ok (undo, s₁) ∧
        spendInputs W vin s₁ = .ok (rest, s') ∧ undos = undo :: rest := by
  simp only [spendInputs, Except.bind_eq_ok, pure, Except.pure, Except.ok.injEq, Prod.mk.injEq]
  constructor
  · rintro ⟨⟨undo, s₁⟩, h₁, ⟨rest, s₂⟩, h₂, rfl, rfl⟩
    exact ⟨undo, s₁, rest, h₁, h₂, rfl⟩
  · rintro ⟨undo, s₁, rest, h₁, h₂, rfl⟩
    exact ⟨(undo, s₁), h₁, (rest, s'), h₂, rfl, rfl⟩

theorem restoreInputs_cons_eq_ok {txin : CTxIn} {undo : CTxInUndo}
    {rest : List (CTxIn × CTxInUndo)} {fClean b : Bool} {s s' : σ} :
    restoreInputs W ((txin, undo) :: rest) (fClean, s) = .ok (b, s') ↔
      ∃ ok s₁, W.modifyCoins s txin.prevout.hash (applyTxInUndo undo txin.prevout.n) =
          .ok (ok, s₁) ∧ restoreInputs W rest (fClean && ok, s₁) = .ok (b, s') := by
  simp only [restoreInputs, Except.bind_eq_ok]
  constructor
  · rintro ⟨⟨ok, s₁⟩, h₁, h₂⟩
    exact ⟨ok, s₁, h₁, h₂⟩
  · rintro ⟨ok, s₁, h₁, h₂⟩
    exact ⟨(ok, s₁), h₁, h₂⟩

theorem restoreInputs_append (l₁ l₂ : List (CTxIn × CTxInUndo)) (acc : Bool × σ) :
    restoreInputs W (l₁ ++ l₂) acc = restoreInputs W l₁ acc >>= restoreInputs W l₂ := by
  induction l₁ generalizing acc with
  | nil => simp [restoreInputs]
  | cons p l₁ ih =>
    obtain ⟨⟨txin, undo⟩, ⟨fClean, s⟩⟩ := (⟨p, acc⟩ : _ × _)
    simp only [List.cons_append, restoreInputs, bind_assoc]
    congr 1
    funext r
    exact ih _

/-- `fClean` is never set back to `true`. -/
theorem restoreInputs_fClean :
    ∀ (l : List (CTxIn × CTxInUndo)) {fClean b : Bool} {s s' : σ},
      restoreInputs W l (fClean, s) = .ok (b, s') → b = true → fClean = true
  | [], _, _, _, _, h, hb => by cases h; exact hb
  | (_, _) :: rest, _, _, _, _, h, hb => by
    obtain ⟨ok, s₁, -, h₂⟩ := restoreInputs_cons_eq_ok.mp h
    have := restoreInputs_fClean rest h₂ hb
    simp only [Bool.and_eq_true] at this
    exact this.1

theorem updateCoins_eq_ok {tx : CTransaction} {s s' : σ} {txundo : CTxUndo} :
    updateCoins W getHash nHeight tx s = .ok (txundo, s') ↔
      ∃ vprevout s₁,
        (if tx.IsCoinBase then pure ([], s) else spendInputs W tx.vin s) = .ok (vprevout, s₁) ∧
        W.modifyNewCoins s₁ (getHash tx) (decide tx.IsCoinBase)
          (fun _ => pure (CCoins.fromTx tx nHeight, ())) = .ok ((), s') ∧
        txundo = ⟨vprevout⟩ := by
  simp only [updateCoins, Except.bind_eq_ok, pure, Except.pure, Except.ok.injEq, Prod.mk.injEq]
  constructor
  · rintro ⟨⟨vprevout, s₁⟩, h₁, ⟨⟨⟩, s₂⟩, h₂, rfl, rfl⟩
    exact ⟨vprevout, s₁, h₁, h₂, rfl⟩
  · rintro ⟨vprevout, s₁, h₁, h₂, rfl⟩
    exact ⟨(vprevout, s₁), h₁, ((), s'), h₂, rfl, rfl⟩

theorem disconnectTx_eq_ok {tx : CTransaction} {txundo : CTxUndo} {s s' : σ} {b : Bool} :
    disconnectTx W getHash nHeight tx txundo s = .ok (b, s') ↔
      ∃ fClean s₁, W.modifyCoins s (getHash tx) (checkOutputs tx nHeight) = .ok (fClean, s₁) ∧
        if tx.IsCoinBase then fClean = b ∧ s₁ = s'
        else txundo.vprevout.length = tx.vin.length ∧
          restoreInputs W (tx.vin.zip txundo.vprevout).reverse (fClean, s₁) = .ok (b, s') := by
  simp only [disconnectTx, Except.bind_eq_ok]
  constructor
  · rintro ⟨⟨fClean, s₁⟩, h₁, h₂⟩
    refine ⟨fClean, s₁, h₁, ?_⟩
    by_cases hcb : tx.IsCoinBase
    · rw [if_pos hcb] at h₂ ⊢
      cases h₂
      exact ⟨rfl, rfl⟩
    · rw [if_neg hcb] at h₂ ⊢
      by_cases hlen : txundo.vprevout.length ≠ tx.vin.length
      · rw [if_pos hlen] at h₂
        cases h₂
      · rw [if_neg hlen] at h₂
        exact ⟨not_not.mp hlen, h₂⟩
  · rintro ⟨fClean, s₁, h₁, h₂⟩
    refine ⟨(fClean, s₁), h₁, ?_⟩
    by_cases hcb : tx.IsCoinBase
    · rw [if_pos hcb] at h₂ ⊢
      obtain ⟨rfl, rfl⟩ := h₂
      rfl
    · rw [if_neg hcb] at h₂ ⊢
      rw [if_neg (not_not.mpr h₂.1)]
      exact h₂.2

theorem connectTxs_cons_eq_ok {tx : CTransaction} {txs : List CTransaction} {s s' : σ}
    {undos : List CTxUndo} :
    connectTxs W getHash nHeight (tx :: txs) s = .ok (undos, s') ↔
      ∃ txundo s₁ rest, updateCoins W getHash nHeight tx s = .ok (txundo, s₁) ∧
        connectTxs W getHash nHeight txs s₁ = .ok (rest, s') ∧ undos = txundo :: rest := by
  simp only [connectTxs, Except.bind_eq_ok, pure, Except.pure, Except.ok.injEq, Prod.mk.injEq]
  constructor
  · rintro ⟨⟨txundo, s₁⟩, h₁, ⟨rest, s₂⟩, h₂, rfl, rfl⟩
    exact ⟨txundo, s₁, rest, h₁, h₂, rfl⟩
  · rintro ⟨txundo, s₁, rest, h₁, h₂, rfl⟩
    exact ⟨(txundo, s₁), h₁, (rest, s'), h₂, rfl, rfl⟩

theorem disconnectTxs_cons_eq_ok {tx : CTransaction} {txundo : CTxUndo}
    {rest : List (CTransaction × CTxUndo)} {s s' : σ} {b : Bool} :
    disconnectTxs W getHash nHeight ((tx, txundo) :: rest) s = .ok (b, s') ↔
      ∃ b₁ s₁ b₂, disconnectTxs W getHash nHeight rest s = .ok (b₁, s₁) ∧
        disconnectTx W getHash nHeight tx txundo s₁ = .ok (b₂, s') ∧ b = (b₁ && b₂) := by
  simp only [disconnectTxs, Except.bind_eq_ok, pure, Except.pure, Except.ok.injEq, Prod.mk.injEq]
  constructor
  · rintro ⟨⟨b₁, s₁⟩, h₁, ⟨b₂, s₂⟩, h₂, rfl, rfl⟩
    exact ⟨b₁, s₁, b₂, h₁, h₂, rfl⟩
  · rintro ⟨b₁, s₁, b₂, h₁, h₂, rfl⟩
    exact ⟨(b₁, s₁), h₁, (b₂, s'), h₂, rfl, rfl⟩

theorem spendInputs_length :
    ∀ (vin : List CTxIn) {s s' : σ} {undos : List CTxInUndo},
      spendInputs W vin s = .ok (undos, s') → undos.length = vin.length
  | [], _, _, _, h => by cases h; rfl
  | _ :: vin, _, _, _, h => by
    obtain ⟨_, _, rest, -, h₂, rfl⟩ := spendInputs_cons_eq_ok.mp h
    simp [spendInputs_length vin h₂]

end Loops

/-! ### On the UTXO set, disconnecting undoes connecting -/

/-- Every coins of the view with an unspent output is `Normal`. -/
def NormalView (V : CoinsMap) : Prop := ∀ txid, ¬ (V txid).IsPruned → (V txid).Normal

theorem NormalView.update {V : CoinsMap} (hV : NormalView V) (txid : Uint256) {c : CCoins}
    (hc : c.Normal) : NormalView (Function.update V txid c) := by
  intro k
  by_cases hk : k = txid
  · subst hk
    simpa using fun _ => hc
  · simpa [Function.update_of_ne hk] using hV k

/-- What a spend leaves of normal coins is normal. -/
theorem normal_spendInput {n : Nat} {c spent : CCoins} {undo : CTxInUndo} (hc : c.Normal)
    (h : spendInput n c = .ok (spent, undo)) : spent.Normal := by
  obtain ⟨-, hspent⟩ := CCoins.spend_eq_some (spendInput_eq_ok h).1
  subst hspent
  refine ⟨CCoins.cleanup_cleanup _, fun o ho hnull => ?_, hc.nHeight_pos, hc.nHeight_lt⟩
  have ho' : o ∈ c.vout.set n default := (List.rdropWhile_prefix _ _).subset ho
  rcases List.mem_or_eq_of_mem_set ho' with ho' | rfl
  · exact hc.null_eq o ho' hnull
  · rfl

/-- A transaction's coins are normal at a height from `1` to `2^31 - 1` when its spent-looking
outputs are `CTxOut()`. -/
theorem normal_fromTx {tx : CTransaction} {nHeight : Int} (hh : 0 < nHeight ∧ nHeight < 2 ^ 31)
    (hnull : ∀ o ∈ tx.vout, o.IsNull → o = default) : (CCoins.fromTx tx nHeight).Normal := by
  refine ⟨CCoins.cleanup_cleanup _, fun o ho hn => ?_, hh.1, hh.2⟩
  obtain ⟨o', ho', rfl⟩ := List.mem_map.mp ((List.rdropWhile_prefix _ _).subset ho)
  by_cases hu : IsUnspendable o'.scriptPubKey
  · rw [if_pos hu]
  · rw [if_neg hu] at hn ⊢
    exact hnull o' ho' hn

theorem normalView_spendInputs :
    ∀ (vin : List CTxIn) {V V' : CoinsMap} {undos : List CTxInUndo}, NormalView V →
      spendInputs mapWriter vin V = .ok (undos, V') → NormalView V'
  | [], _, _, _, hV, h => by cases h; exact hV
  | txin :: vin, V, _, _, hV, h => by
    obtain ⟨undo, V₁, rest, h₁, h₂, -⟩ := spendInputs_cons_eq_ok.mp h
    obtain ⟨spent, hspend, rfl⟩ := mapWriter_modifyCoins_eq_ok.mp h₁
    have hc : (V txin.prevout.hash).Normal := hV _ (CCoins.not_isPruned_of_isAvailable
      (CCoins.spend_eq_some (spendInput_eq_ok hspend).1).1)
    have hspent := normal_spendInput hc hspend
    rw [hspent.cleanup_eq] at h₂
    exact normalView_spendInputs vin (hV.update _ hspent) h₂

theorem normalView_updateCoins {getHash : CTransaction → Uint256} {nHeight : Int}
    (hh : 0 < nHeight ∧ nHeight < 2 ^ 31) {tx : CTransaction}
    (hnull : ∀ o ∈ tx.vout, o.IsNull → o = default) {V V' : CoinsMap} {txundo : CTxUndo}
    (hV : NormalView V) (h : updateCoins mapWriter getHash nHeight tx V = .ok (txundo, V')) :
    NormalView V' := by
  obtain ⟨vprevout, V₁, h₁, h₂, -⟩ := updateCoins_eq_ok.mp h
  obtain ⟨-, coins, hcoins, rfl⟩ := mapWriter_modifyNewCoins_eq_ok.mp h₂
  cases hcoins
  have hV₁ : NormalView V₁ := by
    by_cases hcb : tx.IsCoinBase
    · rw [if_pos hcb] at h₁
      cases h₁
      exact hV
    · rw [if_neg hcb] at h₁
      exact normalView_spendInputs _ hV h₁
  exact hV₁.update _ ((normal_fromTx hh hnull).cleanup_eq.symm ▸ normal_fromTx hh hnull)

/-- Restoring a transaction's inputs from the undo data its spends wrote, last input first,
gives back the coins before the spends, on any view equal to the one the spends left. -/
theorem restoreInputs_spendInputs :
    ∀ (vin : List CTxIn) {V V₀ W : CoinsMap} {undos : List CTxInUndo} (fClean : Bool),
      NormalView V → spendInputs mapWriter vin V = .ok (undos, V₀) → MapEquiv W V₀ →
      ∃ W', restoreInputs mapWriter (vin.zip undos).reverse (fClean, W) = .ok (fClean, W') ∧
        MapEquiv W' V
  | [], _, _, W, _, fClean, _, h, hW => by
    cases h
    exact ⟨W, rfl, hW⟩
  | txin :: vin, V, V₀, W, _, fClean, hV, h, hW => by
    obtain ⟨undo, V₁, rest, h₁, h₂, rfl⟩ := spendInputs_cons_eq_ok.mp h
    obtain ⟨spent, hspend, rfl⟩ := mapWriter_modifyCoins_eq_ok.mp h₁
    have hc : (V txin.prevout.hash).Normal := hV _ (CCoins.not_isPruned_of_isAvailable
      (CCoins.spend_eq_some (spendInput_eq_ok hspend).1).1)
    have hspent := normal_spendInput hc hspend
    -- the later inputs first, back to the view this spend left
    obtain ⟨W₁, hW₁, hW₁V⟩ :=
      restoreInputs_spendInputs vin fClean (hV.update _ (hspent.cleanup_eq.symm ▸ hspent)) h₂ hW
    -- then this input, on coins equal to what the spend left
    have hread : (W₁ txin.prevout.hash).Equals spent := by
      simpa [hspent.cleanup_eq] using hW₁V txin.prevout.hash
    have hundo := applyTxInUndo_spendInput hc hspend hread
    refine ⟨Function.update W₁ txin.prevout.hash (V txin.prevout.hash).cleanup, ?_, ?_⟩
    · rw [List.zip_cons_cons, List.reverse_cons, restoreInputs_append, hW₁]
      exact restoreInputs_cons_eq_ok.mpr ⟨true, _, mapWriter_modifyCoins_eq_ok.mpr
        ⟨_, hundo, rfl⟩, by simp only [restoreInputs, Bool.and_true]; rfl⟩
    · rw [hc.cleanup_eq]
      have hback := hW₁V.update txin.prevout.hash (CCoins.Equals.refl (V txin.prevout.hash))
      rwa [Function.update_idem, Function.update_eq_self] at hback

/-- Disconnecting a transaction with the undo data its connection wrote gives back the coins
before it, on any view equal to the one it left, and is clean. -/
theorem disconnectTx_updateCoins {getHash : CTransaction → Uint256} {nHeight : Int}
    {tx : CTransaction} {V V₁ W : CoinsMap} {txundo : CTxUndo} (hV : NormalView V)
    (h : updateCoins mapWriter getHash nHeight tx V = .ok (txundo, V₁)) (hW : MapEquiv W V₁) :
    ∃ W', disconnectTx mapWriter getHash nHeight tx txundo W = .ok (true, W') ∧ MapEquiv W' V := by
  obtain ⟨vprevout, V₀, h₁, h₂, rfl⟩ := updateCoins_eq_ok.mp h
  obtain ⟨hpruned, coins, hcoins, rfl⟩ := mapWriter_modifyNewCoins_eq_ok.mp h₂
  cases hcoins
  -- the transaction's coins are its outputs, and clearing them leaves the view before them
  have hout : checkOutputs tx nHeight (W (getHash tx)) = .ok (default, true) := by
    have hread := hW (getHash tx)
    rw [Function.update_self, show (CCoins.fromTx tx nHeight).cleanup = CCoins.fromTx tx nHeight
      from CCoins.cleanup_cleanup _] at hread
    exact checkOutputs_of_equals hread
  have hcleared : MapEquiv (Function.update W (getHash tx) (default : CCoins).cleanup) V₀ := by
    have := hW.update (getHash tx) (CCoins.Equals.refl (default : CCoins).cleanup)
    rw [Function.update_idem] at this
    refine this.trans fun k => ?_
    by_cases hk : k = getHash tx
    · subst hk
      rw [Function.update_self]
      exact CCoins.equals_of_isPruned ((CCoins.isPruned_cleanup _).mpr CCoins.isPruned_default)
        hpruned
    · rw [Function.update_of_ne hk]
      exact .refl _
  have hfirst := mapWriter_modifyCoins_eq_ok.mpr ⟨default, hout, rfl⟩
  by_cases hcb : tx.IsCoinBase
  · rw [if_pos hcb] at h₁
    cases h₁
    exact ⟨_, disconnectTx_eq_ok.mpr ⟨true, _, hfirst, by rw [if_pos hcb]; exact ⟨rfl, rfl⟩⟩,
      hcleared⟩
  · rw [if_neg hcb] at h₁
    obtain ⟨W', hW', hW'V⟩ := restoreInputs_spendInputs tx.vin true hV h₁ hcleared
    exact ⟨W', disconnectTx_eq_ok.mpr ⟨true, _, hfirst, by
      rw [if_neg hcb]; exact ⟨spendInputs_length _ h₁, hW'⟩⟩, hW'V⟩

/-- Disconnecting a sequence of transactions, last first, with the undo data their connection
wrote gives back the coins before them and is clean, on any view equal to the one they left. -/
theorem disconnectTxs_connectTxs {getHash : CTransaction → Uint256} {nHeight : Int}
    (hh : 0 < nHeight ∧ nHeight < 2 ^ 31) :
    ∀ (txs : List CTransaction) {V V' W : CoinsMap} {undos : List CTxUndo},
      (∀ tx ∈ txs, ∀ o ∈ tx.vout, o.IsNull → o = default) → NormalView V →
      connectTxs mapWriter getHash nHeight txs V = .ok (undos, V') → MapEquiv W V' →
      ∃ W', disconnectTxs mapWriter getHash nHeight (txs.zip undos) W = .ok (true, W') ∧
        MapEquiv W' V
  | [], _, _, W, _, _, _, h, hW => by
    cases h
    exact ⟨W, rfl, hW⟩
  | tx :: txs, V, V', W, _, hnull, hV, h, hW => by
    obtain ⟨txundo, V₁, rest, h₁, h₂, rfl⟩ := connectTxs_cons_eq_ok.mp h
    have hV₁ := normalView_updateCoins hh (hnull tx (List.mem_cons_self ..)) hV h₁
    -- the later transactions first, back to the view this one left
    obtain ⟨W₁, hW₁, hW₁V⟩ := disconnectTxs_connectTxs hh txs
      (fun tx' htx' => hnull tx' (List.mem_cons_of_mem _ htx')) hV₁ h₂ hW
    obtain ⟨W₂, hW₂, hW₂V⟩ := disconnectTx_updateCoins hV h₁ hW₁V
    exact ⟨W₂, disconnectTxs_cons_eq_ok.mpr ⟨true, W₁, true, hW₁, hW₂, rfl⟩, hW₂V⟩

/-! ### What the UTXO set does, a writer that simulates it does -/

section Simulation

variable {σ τ : Type} {W₁ : CoinsWriter σ} {W₂ : CoinsWriter τ} {R : σ → τ → Prop}
  (hsim : Simulates W₁ W₂ R) {getHash : CTransaction → Uint256} {nHeight : Int}
include hsim

theorem spendInputs_simulates :
    ∀ (vin : List CTxIn) {s : σ} {t t' : τ} {undos : List CTxInUndo}, R s t →
      spendInputs W₂ vin t = .ok (undos, t') →
      ∃ s', spendInputs W₁ vin s = .ok (undos, s') ∧ R s' t'
  | [], s, _, _, _, hR, h => by
    cases h
    exact ⟨s, rfl, hR⟩
  | txin :: vin, _, _, _, _, hR, h => by
    obtain ⟨undo, t₁, rest, h₁, h₂, rfl⟩ := spendInputs_cons_eq_ok.mp h
    obtain ⟨s₁, hs₁, hR₁⟩ := hsim.modifyCoins hR (spendInput_editCongr _ fun _ => True) h₁ trivial
    obtain ⟨s₂, hs₂, hR₂⟩ := spendInputs_simulates vin hR₁ h₂
    exact ⟨s₂, spendInputs_cons_eq_ok.mpr ⟨undo, s₁, rest, hs₁, hs₂, rfl⟩, hR₂⟩

theorem updateCoins_simulates {tx : CTransaction} {s : σ} {t t' : τ} {txundo : CTxUndo}
    (hR : R s t) (h : updateCoins W₂ getHash nHeight tx t = .ok (txundo, t')) :
    ∃ s', updateCoins W₁ getHash nHeight tx s = .ok (txundo, s') ∧ R s' t' := by
  obtain ⟨vprevout, t₁, h₁, h₂, rfl⟩ := updateCoins_eq_ok.mp h
  -- the inputs, then the outputs
  obtain ⟨s₁, hs₁, hR₁⟩ : ∃ s₁,
      (if tx.IsCoinBase then pure ([], s) else spendInputs W₁ tx.vin s) = .ok (vprevout, s₁) ∧
        R s₁ t₁ := by
    by_cases hcb : tx.IsCoinBase
    · rw [if_pos hcb] at h₁ ⊢
      cases h₁
      exact ⟨s, rfl, hR⟩
    · rw [if_neg hcb] at h₁ ⊢
      exact spendInputs_simulates hsim _ hR h₁
  obtain ⟨s₂, hs₂, hR₂⟩ := hsim.modifyNewCoins hR₁ h₂
  exact ⟨s₂, updateCoins_eq_ok.mpr ⟨vprevout, s₁, hs₁, hs₂, rfl⟩, hR₂⟩

theorem connectTxs_simulates :
    ∀ (txs : List CTransaction) {s : σ} {t t' : τ} {undos : List CTxUndo}, R s t →
      connectTxs W₂ getHash nHeight txs t = .ok (undos, t') →
      ∃ s', connectTxs W₁ getHash nHeight txs s = .ok (undos, s') ∧ R s' t'
  | [], s, _, _, _, hR, h => by
    cases h
    exact ⟨s, rfl, hR⟩
  | tx :: txs, _, _, _, _, hR, h => by
    obtain ⟨txundo, t₁, rest, h₁, h₂, rfl⟩ := connectTxs_cons_eq_ok.mp h
    obtain ⟨s₁, hs₁, hR₁⟩ := updateCoins_simulates hsim hR h₁
    obtain ⟨s₂, hs₂, hR₂⟩ := connectTxs_simulates txs hR₁ h₂
    exact ⟨s₂, connectTxs_cons_eq_ok.mpr ⟨txundo, s₁, rest, hs₁, hs₂, rfl⟩, hR₂⟩

/-- A clean restore is simulated: each `ApplyTxInUndo` in it reported clean. -/
theorem restoreInputs_simulates :
    ∀ (l : List (CTxIn × CTxInUndo)) {fClean : Bool} {s : σ} {t t' : τ}, R s t →
      restoreInputs W₂ l (fClean, t) = .ok (true, t') →
      ∃ s', restoreInputs W₁ l (fClean, s) = .ok (true, s') ∧ R s' t'
  | [], _, s, _, _, hR, h => by
    cases h
    exact ⟨s, rfl, hR⟩
  | (txin, undo) :: rest, fClean, _, _, _, hR, h => by
    obtain ⟨ok, t₁, h₁, h₂⟩ := restoreInputs_cons_eq_ok.mp h
    have hok : ok = true := by
      have := restoreInputs_fClean rest h₂ rfl
      simp only [Bool.and_eq_true] at this
      exact this.2
    obtain ⟨s₁, hs₁, hR₁⟩ := hsim.modifyCoins hR (applyTxInUndo_editCongr undo _) h₁ hok
    obtain ⟨s₂, hs₂, hR₂⟩ := restoreInputs_simulates rest hR₁ h₂
    exact ⟨s₂, restoreInputs_cons_eq_ok.mpr ⟨ok, s₁, hs₁, hs₂⟩, hR₂⟩

theorem disconnectTx_simulates {tx : CTransaction} {txundo : CTxUndo} {s : σ} {t t' : τ}
    (hR : R s t) (h : disconnectTx W₂ getHash nHeight tx txundo t = .ok (true, t')) :
    ∃ s', disconnectTx W₁ getHash nHeight tx txundo s = .ok (true, s') ∧ R s' t' := by
  obtain ⟨fClean, t₁, h₁, h₂⟩ := disconnectTx_eq_ok.mp h
  -- the output comparison reported clean, since `fClean` is never set back
  have hclean : fClean = true := by
    by_cases hcb : tx.IsCoinBase
    · rw [if_pos hcb] at h₂
      exact h₂.1
    · rw [if_neg hcb] at h₂
      exact restoreInputs_fClean _ h₂.2 rfl
  obtain ⟨s₁, hs₁, hR₁⟩ := hsim.modifyCoins hR (checkOutputs_editCongr tx nHeight) h₁ hclean
  by_cases hcb : tx.IsCoinBase
  · rw [if_pos hcb] at h₂
    obtain ⟨rfl, rfl⟩ := h₂
    exact ⟨s₁, disconnectTx_eq_ok.mpr ⟨_, s₁, hs₁, by rw [if_pos hcb]; exact ⟨rfl, rfl⟩⟩, hR₁⟩
  · rw [if_neg hcb] at h₂
    obtain ⟨s₂, hs₂, hR₂⟩ := restoreInputs_simulates hsim _ hR₁ h₂.2
    exact ⟨s₂, disconnectTx_eq_ok.mpr ⟨_, s₁, hs₁, by rw [if_neg hcb]; exact ⟨h₂.1, hs₂⟩⟩, hR₂⟩

theorem disconnectTxs_simulates :
    ∀ (l : List (CTransaction × CTxUndo)) {s : σ} {t t' : τ}, R s t →
      disconnectTxs W₂ getHash nHeight l t = .ok (true, t') →
      ∃ s', disconnectTxs W₁ getHash nHeight l s = .ok (true, s') ∧ R s' t'
  | [], s, _, _, hR, h => by
    cases h
    exact ⟨s, rfl, hR⟩
  | (tx, txundo) :: rest, _, _, _, hR, h => by
    obtain ⟨b₁, t₁, b₂, h₁, h₂, hb⟩ := disconnectTxs_cons_eq_ok.mp h
    obtain ⟨rfl, rfl⟩ : b₁ = true ∧ b₂ = true := by simpa using hb.symm
    obtain ⟨s₁, hs₁, hR₁⟩ := disconnectTxs_simulates rest hR h₁
    obtain ⟨s₂, hs₂, hR₂⟩ := disconnectTx_simulates hsim hR₁ h₂
    exact ⟨s₂, disconnectTxs_cons_eq_ok.mpr ⟨true, s₁, true, hs₁, hs₂, rfl⟩, hR₂⟩

end Simulation

/-! ### On a cache -/

end Trumpow
