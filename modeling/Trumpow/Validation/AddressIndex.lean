import Trumpow.Validation.UpdateCoins
import Trumpow.Script.Script
import Trumpow.Support.Batch

/-!
# Validation — the address and spent indexes

`validation.cpp` (`ConnectBlock`, `DisconnectBlock` with `-addressindex` and `-spentindex`),
`txdb.cpp` (the batch writes), `rpc/misc.cpp` (`getAddressesFromParams`).  Connecting a block
collects, for each output to an address, an address-index entry and an address-unspent entry,
and for each input of a transaction that is not a coinbase, an entry of the spent index and (for
an address) an address-index entry and an erase of its address-unspent entry.  Disconnecting
collects the opposite entries and writes the address batches.  An address is the type and
the 20-byte hash of a script template (`addressIndexKey`), built by `uint160`, which asserts
the size.

Results:
* a pay-to-witness-script-hash script holds a 32-byte program, so its key fails the assertion
  (`addressIndexKey_p2wsh`), and connecting or disconnecting a block with such an output fails
  (`connectBlock_p2wsh_output_aborts`); the RPC hashes the program instead;
* for the other templates the RPC computes the key the indexes store
  (`getAddressesFromParams_eq`);
* `DisconnectBlock` collects spent-index erases but never writes them
  (`disconnectBlock_spentIndex`), so after connecting and disconnecting a block every output its
  transactions spent is still in the spent index (`spentIndex_survives_disconnect`).

The views are the UTXO map of `Coins/Writer`; the consensus checks of `ConnectBlock` are left
out.
-/

namespace Trumpow

/-! ### Keys, values and the tables -/

/-- `CAddressIndexKey`. -/
structure CAddressIndexKey where
  type : Nat
  hashBytes : Uint160
  blockHeight : Int
  txindex : Nat
  txhash : Uint256
  index : Nat
  spending : Bool
deriving DecidableEq

/-- `CAddressUnspentKey`. -/
structure CAddressUnspentKey where
  type : Nat
  hashBytes : Uint160
  txhash : Uint256
  index : Nat
deriving DecidableEq

/-- `CAddressUnspentValue`; the default is `SetNull()`'s. -/
structure CAddressUnspentValue where
  satoshis : Int := -1
  script : List UInt8 := []
  blockHeight : Int := 0
deriving DecidableEq

/-- `CAddressUnspentValue::IsNull()`. -/
def CAddressUnspentValue.IsNull (v : CAddressUnspentValue) : Bool := v.satoshis == -1

/-- `CSpentIndexKey`. -/
structure CSpentIndexKey where
  txid : Uint256
  outputIndex : Nat
deriving DecidableEq

/-- `CSpentIndexValue`; the default is `SetNull()`'s. -/
structure CSpentIndexValue where
  txid : Uint256 := default
  inputIndex : Nat := 0
  blockHeight : Int := 0
  satoshis : Int := 0
  addressType : Int := 0
  addressHash : Uint160 := default
deriving DecidableEq

/-- `CSpentIndexValue::IsNull()`. -/
def CSpentIndexValue.IsNull (v : CSpentIndexValue) : Bool := decide (v.txid = default)

/-- The tables of `CBlockTreeDB` that the block connection writes. -/
structure CBlockTreeDB where
  addressIndex : CAddressIndexKey → Option Int
  addressUnspentIndex : CAddressUnspentKey → Option CAddressUnspentValue
  spentIndex : CSpentIndexKey → Option CSpentIndexValue

namespace CBlockTreeDB

/-- `WriteAddressIndex`. -/
def writeAddressIndex (db : CBlockTreeDB) (vect : List (CAddressIndexKey × Int)) : CBlockTreeDB :=
  { db with addressIndex := Function.applyBatch (fun _ => false) vect db.addressIndex }

/-- `EraseAddressIndex`. -/
def eraseAddressIndex (db : CBlockTreeDB) (vect : List (CAddressIndexKey × Int)) : CBlockTreeDB :=
  { db with addressIndex := Function.applyBatch (fun _ => true) vect db.addressIndex }

/-- `UpdateAddressUnspentIndex`: a null value erases. -/
def updateAddressUnspentIndex (db : CBlockTreeDB)
    (vect : List (CAddressUnspentKey × CAddressUnspentValue)) : CBlockTreeDB :=
  { db with
    addressUnspentIndex :=
      Function.applyBatch CAddressUnspentValue.IsNull vect db.addressUnspentIndex }

/-- `UpdateSpentIndex`: a null value erases. -/
def updateSpentIndex (db : CBlockTreeDB) (vect : List (CSpentIndexKey × CSpentIndexValue)) :
    CBlockTreeDB :=
  { db with spentIndex := Function.applyBatch CSpentIndexValue.IsNull vect db.spentIndex }

end CBlockTreeDB

/-! ### Addresses of scripts -/

/-- The address of a script, as `ConnectBlock` and `DisconnectBlock` compute it for each output
they index: the type (`1` for a key hash, `2` for a script hash) and the bytes `uint160` is
built from; `none` for any other script. -/
def addressIndexKey (script : List UInt8) : Except String (Option (Nat × Uint160)) :=
  if isPayToScriptHash script then (fun h => some (2, h)) <$> uint160 ((script.drop 2).take 20)
  else if isPayToPublicKeyHash script then (fun h => some (1, h)) <$> uint160 ((script.drop 3).take 20)
  else if isPayToWitnessPubkeyHash script then (fun h => some (1, h)) <$> uint160 (script.drop 2)
  else if isPayToWitnessScriptHash script then (fun h => some (2, h)) <$> uint160 (script.drop 2)
  else pure none

/-- `getAddressesFromParams` for one address, from the script `GetScriptForDestination` gives
for it.  `Hash160` is a parameter. -/
def getAddressesFromParams (hash160 : List UInt8 → Uint160) (scriptPubKey : List UInt8) :
    Except String (Uint160 × Nat) := do
  let (hashBytes, addressType) ← (
    if isPayToScriptHash scriptPubKey then
      (fun h => (h, 2)) <$> uint160 ((scriptPubKey.drop 2).take 20)
    else if isPayToPublicKeyHash scriptPubKey then
      (fun h => (h, 1)) <$> uint160 ((scriptPubKey.drop 3).take 20)
    else if isPayToWitnessPubkeyHash scriptPubKey then
      (fun h => (h, 1)) <$> uint160 (scriptPubKey.drop 2)
    else if isPayToWitnessScriptHash scriptPubKey then
      pure (hash160 (scriptPubKey.drop 2), 2)
    else pure (default, 0) : Except String (Uint160 × Nat))
  if addressType = 0 then throw "Invalid address"
  else pure (hashBytes, addressType)

/-! ### The batches of `ConnectBlock` and `DisconnectBlock` -/

/-- The three index batches a block connection or disconnection collects. -/
structure IndexBatches where
  addressIndex : List (CAddressIndexKey × Int) := []
  addressUnspentIndex : List (CAddressUnspentKey × CAddressUnspentValue) := []
  spentIndex : List (CSpentIndexKey × CSpentIndexValue) := []

/-- The loop over a transaction's outputs that `ConnectBlock` and `DisconnectBlock` share: for
each output to an address, an address-index entry and an address-unspent entry with the value
`unspentValue` gives. -/
def outputIndexes (txhash : Uint256) (nHeight : Int) (i : Nat)
    (unspentValue : CTxOut → CAddressUnspentValue) :
    List (CTxOut × Nat) → IndexBatches → Except String IndexBatches
  | [], b => pure b
  | (out, k) :: vout, b => do
    match ← addressIndexKey out.scriptPubKey with
    | none => outputIndexes txhash nHeight i unspentValue vout b
    | some (addressType, hashBytes) =>
      outputIndexes txhash nHeight i unspentValue vout
        { b with
          addressIndex :=
            b.addressIndex ++ [(⟨addressType, hashBytes, nHeight, i, txhash, k, false⟩, out.nValue)]
          addressUnspentIndex :=
            b.addressUnspentIndex ++ [(⟨addressType, hashBytes, txhash, k⟩, unspentValue out)] }

/-- `ConnectBlock`'s loop over the outputs: receiving activity, and the unspent output. -/
def connectOutputIndexes (txhash : Uint256) (nHeight : Int) (i : Nat) :
    List (CTxOut × Nat) → IndexBatches → Except String IndexBatches :=
  outputIndexes txhash nHeight i fun out => ⟨out.nValue, out.scriptPubKey, nHeight⟩

/-- `DisconnectBlock`'s loop over the outputs, last first: the receiving activity to erase, and
the unspent output to erase. -/
def disconnectOutputIndexes (hash : Uint256) (nHeight : Int) (i : Nat) :
    List (CTxOut × Nat) → IndexBatches → Except String IndexBatches :=
  outputIndexes hash nHeight i fun _ => {}

/-- `ConnectBlock`'s loop over the inputs of transaction `i`: the outputs they spend are read
from `view`; a script of no address has type `0` and a null hash. -/
def connectInputIndexes (fAddressIndex fSpentIndex : Bool) (view : CoinsMap) (txhash : Uint256)
    (nHeight : Int) (i : Nat) : List (CTxIn × Nat) → IndexBatches → Except String IndexBatches
  | [], b => pure b
  | (input, j) :: vin, b => do
    let prevout := (view input.prevout.hash).vout.getD input.prevout.n default
    let (addressType, hashBytes) := (← addressIndexKey prevout.scriptPubKey).getD (0, default)
    let b := if fAddressIndex && addressType > 0 then
      { b with
        -- record spending activity
        addressIndex := b.addressIndex ++
          [(⟨addressType, hashBytes, nHeight, i, txhash, j, true⟩, prevout.nValue * -1)]
        -- remove address from unspent index
        addressUnspentIndex := b.addressUnspentIndex ++
          [(⟨addressType, hashBytes, input.prevout.hash, input.prevout.n⟩, {})] }
      else b
    let b := if fSpentIndex then
      { b with
        spentIndex := b.spentIndex ++ [(⟨input.prevout.hash, input.prevout.n⟩,
          ⟨txhash, j, nHeight, prevout.nValue, addressType, hashBytes⟩)] }
      else b
    connectInputIndexes fAddressIndex fSpentIndex view txhash nHeight i vin b

/-- `ConnectBlock`'s loop over the transactions, with their positions: the index entries, then
`UpdateCoins`; the undo data of every transaction after the coinbase is kept. -/
def connectBlockTxs (getHash : CTransaction → Uint256) (nHeight : Int)
    (fAddressIndex fSpentIndex : Bool) :
    List (CTransaction × Nat) → CoinsMap × List CTxUndo × IndexBatches →
      Except String (CoinsMap × List CTxUndo × IndexBatches)
  | [], acc => pure acc
  | (tx, i) :: vtx, (view, vtxundo, b) => do
    let txhash := getHash tx
    let b ← (if ¬ tx.IsCoinBase ∧ (fAddressIndex || fSpentIndex) = true then
        connectInputIndexes fAddressIndex fSpentIndex view txhash nHeight i tx.vin.zipIdx b
      else pure b : Except String IndexBatches)
    let b ← (if fAddressIndex then connectOutputIndexes txhash nHeight i tx.vout.zipIdx b
      else pure b : Except String IndexBatches)
    let (txundo, view) ← updateCoins mapWriter getHash nHeight tx view
    connectBlockTxs getHash nHeight fAddressIndex fSpentIndex vtx
      (view, if i > 0 then vtxundo ++ [txundo] else vtxundo, b)

/-- `ConnectBlock` at height `nHeight`, with the index writes at its end. -/
def connectBlock (getHash : CTransaction → Uint256) (nHeight : Int)
    (fAddressIndex fSpentIndex : Bool) (vtx : List CTransaction) (view : CoinsMap)
    (db : CBlockTreeDB) : Except String (CoinsMap × List CTxUndo × CBlockTreeDB) := do
  let (view, vtxundo, b) ←
    connectBlockTxs getHash nHeight fAddressIndex fSpentIndex vtx.zipIdx (view, [], {})
  let db := if fAddressIndex then
    (db.writeAddressIndex b.addressIndex).updateAddressUnspentIndex b.addressUnspentIndex else db
  let db := if fSpentIndex then db.updateSpentIndex b.spentIndex else db
  pure (view, vtxundo, db)

/-- `DisconnectBlock`'s loop over the inputs of transaction `i`, last first: each input's output
is restored, then read back from the view for its index entries. -/
def disconnectInputs (fAddressIndex fSpentIndex : Bool) (hash : Uint256) (nHeight : Int)
    (i : Nat) : List ((CTxIn × CTxInUndo) × Nat) → Bool × CoinsMap × IndexBatches →
      Except String (Bool × CoinsMap × IndexBatches)
  | [], acc => pure acc
  | ((input, undo), j) :: vin, (fClean, view, b) => do
    let (ok, view) ←
      mapWriter.modifyCoins view input.prevout.hash (applyTxInUndo undo input.prevout.n)
    -- undo and delete the spent index
    let b := if fSpentIndex then
      { b with spentIndex := b.spentIndex ++ [(⟨input.prevout.hash, input.prevout.n⟩, {})] }
      else b
    let b ← (if fAddressIndex then do
        let prevout := (view input.prevout.hash).vout.getD input.prevout.n default
        let key ← addressIndexKey prevout.scriptPubKey
        pure (match key with
          | none => b
          | some (addressType, hashBytes) =>
            { b with
              -- undo spending activity
              addressIndex := b.addressIndex ++
                [(⟨addressType, hashBytes, nHeight, i, hash, j, true⟩, prevout.nValue * -1)]
              -- restore unspent index
              addressUnspentIndex := b.addressUnspentIndex ++
                [(⟨addressType, hashBytes, input.prevout.hash, input.prevout.n⟩,
                  ⟨prevout.nValue, prevout.scriptPubKey, undo.nHeight⟩)] })
      else pure b : Except String IndexBatches)
    disconnectInputs fAddressIndex fSpentIndex hash nHeight i vin (fClean && ok, view, b)

/-- `DisconnectBlock`'s loop over the transactions, last first. -/
def disconnectBlockTxs (getHash : CTransaction → Uint256) (nHeight : Int)
    (fAddressIndex fSpentIndex : Bool) (vtxundo : List CTxUndo) :
    List (CTransaction × Nat) → Bool × CoinsMap × IndexBatches →
      Except String (Bool × CoinsMap × IndexBatches)
  | [], acc => pure acc
  | (tx, i) :: vtx, (fClean, view, b) => do
    let hash := getHash tx
    let b ← (if fAddressIndex then disconnectOutputIndexes hash nHeight i tx.vout.zipIdx.reverse b
      else pure b : Except String IndexBatches)
    -- check that all outputs are available and match the outputs in the block itself exactly
    let (ok, view) ← mapWriter.modifyCoins view hash (checkOutputs tx nHeight)
    -- restore inputs, not for the coinbase
    let (fClean, view, b) ← (if i > 0 then
        if (vtxundo.getD (i - 1) {}).vprevout.length ≠ tx.vin.length then
          throw "DisconnectBlock(): transaction and undo data inconsistent"
        else disconnectInputs fAddressIndex fSpentIndex hash nHeight i
          (tx.vin.zip (vtxundo.getD (i - 1) {}).vprevout).zipIdx.reverse (fClean && ok, view, b)
      else pure (fClean && ok, view, b) : Except String (Bool × CoinsMap × IndexBatches))
    disconnectBlockTxs getHash nHeight fAddressIndex fSpentIndex vtxundo vtx (fClean, view, b)

/-- `DisconnectBlock` at height `nHeight` with the undo data `vtxundo`, with the index writes at
its end. -/
def disconnectBlock (getHash : CTransaction → Uint256) (nHeight : Int)
    (fAddressIndex fSpentIndex : Bool) (vtx : List CTransaction) (vtxundo : List CTxUndo)
    (view : CoinsMap) (db : CBlockTreeDB) : Except String (Bool × CoinsMap × CBlockTreeDB) :=
  if vtxundo.length + 1 ≠ vtx.length then
    throw "DisconnectBlock(): block and undo data inconsistent"
  else do
    let (fClean, view, b) ← disconnectBlockTxs getHash nHeight fAddressIndex fSpentIndex vtxundo
      vtx.zipIdx.reverse (true, view, {})
    let db := if fAddressIndex then
      (db.eraseAddressIndex b.addressIndex).updateAddressUnspentIndex b.addressUnspentIndex
      else db
    pure (fClean, view, db)

/-! ### Keys of scripts -/

/-- An element of a list is the first component of one of its indexed elements. -/
theorem exists_mem_zipIdx {α : Type} {l : List α} {x : α} (h : x ∈ l) : ∃ p ∈ l.zipIdx, p.1 = x :=
  List.mem_map.mp (by rw [List.zipIdx_map_fst]; exact h)

/-- A pay-to-witness-script-hash script has a 32-byte program: `uint160` fails on it. -/
theorem addressIndexKey_p2wsh {script : List UInt8} (h : isPayToWitnessScriptHash script = true) :
    addressIndexKey script = .error "uint160: assert(vch.size() == sizeof(data))" := by
  have hlen : script.length = 34 := by
    simp only [isPayToWitnessScriptHash, Bool.and_eq_true, beq_iff_eq] at h
    exact h.1.1
  rw [addressIndexKey, if_neg (by simp [isPayToScriptHash, hlen]),
    if_neg (by simp [isPayToPublicKeyHash, hlen]), if_neg (by simp [isPayToWitnessPubkeyHash, hlen]),
    if_pos h, uint160, dif_neg (by simp [hlen])]
  rfl

/-- For the templates other than pay-to-witness-script-hash, the RPC looks up the key the
indexes store. -/
theorem getAddressesFromParams_eq (hash160 : List UInt8 → Uint160) {script : List UInt8}
    (hw : isPayToWitnessScriptHash script = false) {addressType : Nat} {hashBytes : Uint160}
    (h : addressIndexKey script = .ok (some (addressType, hashBytes))) :
    getAddressesFromParams hash160 script = .ok (hashBytes, addressType) := by
  unfold addressIndexKey at h
  unfold getAddressesFromParams
  split_ifs at h ⊢ with h₁ h₂ h₃ h₄
  any_goals
    obtain ⟨a, ha, hb⟩ := Except.map_eq_ok.mp h
    cases hb
    rw [ha]
    rfl
  · exact absurd h₄ (by simp [hw])
  · cases h

/-- The output loop succeeds only where every output's key does. -/
theorem outputIndexes_keys_ok {txhash : Uint256} {nHeight : Int} {i : Nat}
    {unspentValue : CTxOut → CAddressUnspentValue} :
    ∀ {vout : List (CTxOut × Nat)} {b b' : IndexBatches},
      outputIndexes txhash nHeight i unspentValue vout b = .ok b' →
      ∀ p ∈ vout, ∃ r, addressIndexKey p.1.scriptPubKey = .ok r
  | [], _, _, _ => by simp
  | (out, k) :: vout, b, b', h => by
    rw [outputIndexes] at h
    obtain ⟨r, hr, hrest⟩ := Except.bind_eq_ok.mp h
    intro p hp
    rcases List.mem_cons.mp hp with rfl | hp
    · exact ⟨r, hr⟩
    · cases r with
      | none => exact outputIndexes_keys_ok hrest p hp
      | some a => exact outputIndexes_keys_ok hrest p hp

/-- With the address index on, connecting succeeds only where every output's key does. -/
theorem connectBlockTxs_keys_ok {getHash : CTransaction → Uint256} {nHeight : Int}
    {fSpentIndex : Bool} :
    ∀ {vtx : List (CTransaction × Nat)} {acc r},
      connectBlockTxs getHash nHeight true fSpentIndex vtx acc = .ok r →
      ∀ p ∈ vtx, ∀ out ∈ p.1.vout, ∃ r, addressIndexKey out.scriptPubKey = .ok r
  | [], _, _, _ => by simp
  | (tx, i) :: vtx, (view, vtxundo, b), r, h => by
    rw [connectBlockTxs] at h
    obtain ⟨b₁, -, h⟩ := Except.bind_eq_ok.mp h
    obtain ⟨b₂, hout, h⟩ := Except.bind_eq_ok.mp h
    obtain ⟨⟨txundo, view₁⟩, -, hrest⟩ := Except.bind_eq_ok.mp h
    rw [if_pos rfl] at hout
    intro p hp out hmem
    rcases List.mem_cons.mp hp with rfl | hp
    · obtain ⟨q, hq, rfl⟩ := exists_mem_zipIdx hmem
      exact outputIndexes_keys_ok hout q hq
    · exact connectBlockTxs_keys_ok hrest p hp out hmem

/-- With the address index on, disconnecting succeeds only where every output's key does. -/
theorem disconnectBlockTxs_keys_ok {getHash : CTransaction → Uint256} {nHeight : Int}
    {fSpentIndex : Bool} {vtxundo : List CTxUndo} :
    ∀ {vtx : List (CTransaction × Nat)} {acc r},
      disconnectBlockTxs getHash nHeight true fSpentIndex vtxundo vtx acc = .ok r →
      ∀ p ∈ vtx, ∀ out ∈ p.1.vout, ∃ r, addressIndexKey out.scriptPubKey = .ok r
  | [], _, _, _ => by simp
  | (tx, i) :: vtx, (fClean, view, b), r, h => by
    rw [disconnectBlockTxs] at h
    obtain ⟨b₁, hout, h⟩ := Except.bind_eq_ok.mp h
    obtain ⟨⟨ok, view₁⟩, -, h⟩ := Except.bind_eq_ok.mp h
    obtain ⟨⟨fClean₁, view₂, b₂⟩, -, hrest⟩ := Except.bind_eq_ok.mp h
    rw [if_pos rfl] at hout
    intro p hp out hmem
    rcases List.mem_cons.mp hp with rfl | hp
    · obtain ⟨q, hq, rfl⟩ := exists_mem_zipIdx hmem
      exact outputIndexes_keys_ok hout q (List.mem_reverse.mpr hq)
    · exact disconnectBlockTxs_keys_ok hrest p hp out hmem

/-- With `-addressindex`, a block with an output to a pay-to-witness-script-hash script can be
neither connected nor disconnected: `uint160`'s assertion fails. -/
theorem connectBlock_p2wsh_output_aborts (getHash : CTransaction → Uint256) (nHeight : Int)
    (fSpentIndex : Bool) {vtx : List CTransaction} {tx : CTransaction} (htx : tx ∈ vtx)
    {out : CTxOut} (hout : out ∈ tx.vout) (hw : isPayToWitnessScriptHash out.scriptPubKey = true)
    (vtxundo : List CTxUndo) (view view' : CoinsMap) (db db' : CBlockTreeDB) :
    (∀ r, connectBlock getHash nHeight true fSpentIndex vtx view db ≠ .ok r) ∧
    (∀ r, disconnectBlock getHash nHeight true fSpentIndex vtx vtxundo view' db' ≠ .ok r) := by
  obtain ⟨p, hp, rfl⟩ := exists_mem_zipIdx htx
  have hkey := addressIndexKey_p2wsh hw
  constructor
  · intro r h
    obtain ⟨acc, hacc, -⟩ := Except.bind_eq_ok.mp h
    obtain ⟨_, hr⟩ := connectBlockTxs_keys_ok hacc p hp out hout
    rw [hkey] at hr
    cases hr
  · intro r h
    unfold disconnectBlock at h
    by_cases hlen : vtxundo.length + 1 ≠ vtx.length
    · rw [if_pos hlen] at h
      cases h
    rw [if_neg hlen] at h
    obtain ⟨acc, hacc, -⟩ := Except.bind_eq_ok.mp h
    obtain ⟨_, hr⟩ := disconnectBlockTxs_keys_ok hacc p (List.mem_reverse.mpr hp) out hout
    rw [hkey] at hr
    cases hr

/-- A block of one coinbase paying to a pay-to-witness-script-hash script. -/
theorem connectBlock_p2wsh_output_aborts_coinbase :
    let out : CTxOut := ⟨1, OP_0 :: 0x20 :: List.replicate 32 0⟩
    let coinbase : CTransaction := { vin := [{}], vout := [out] }
    let db : CBlockTreeDB := ⟨fun _ => none, fun _ => none, fun _ => none⟩
    isPayToWitnessScriptHash out.scriptPubKey = true ∧
      (∀ r, connectBlock (fun _ => default) 1 true false [coinbase] (fun _ => default) db ≠ .ok r) ∧
      (∀ r, disconnectBlock (fun _ => default) 1 true false [coinbase] [] (fun _ => default) db ≠
        .ok r) := by
  intro out coinbase db
  have hw : isPayToWitnessScriptHash out.scriptPubKey = true := by decide
  exact ⟨hw, connectBlock_p2wsh_output_aborts (fun _ => default) 1 false List.mem_cons_self
    List.mem_cons_self hw [] (fun _ => default) (fun _ => default) db db⟩

/-! ### The spent index -/

/-- The output loops leave the spent-index batch as it is. -/
theorem outputIndexes_spentIndex {txhash : Uint256} {nHeight : Int} {i : Nat}
    {unspentValue : CTxOut → CAddressUnspentValue} :
    ∀ {vout : List (CTxOut × Nat)} {b b' : IndexBatches},
      outputIndexes txhash nHeight i unspentValue vout b = .ok b' → b'.spentIndex = b.spentIndex
  | [], _, _, h => by cases h; rfl
  | (out, k) :: vout, b, b', h => by
    rw [outputIndexes] at h
    obtain ⟨r, -, hrest⟩ := Except.bind_eq_ok.mp h
    cases r with
    | none => exact outputIndexes_spentIndex hrest
    | some a =>
      have hb := outputIndexes_spentIndex hrest
      exact hb

/-- With the spent index on, the input loop adds one entry for each input, naming the spending
transaction. -/
theorem connectInputIndexes_spentIndex {fAddressIndex : Bool} {view : CoinsMap} {txhash : Uint256}
    {nHeight : Int} {i : Nat} :
    ∀ {vin : List (CTxIn × Nat)} {b b' : IndexBatches},
      connectInputIndexes fAddressIndex true view txhash nHeight i vin b = .ok b' →
      ∃ new, b'.spentIndex = b.spentIndex ++ new ∧ (∀ p ∈ new, p.2.txid = txhash) ∧
        ∀ q ∈ vin, ∃ v, (⟨q.1.prevout.hash, q.1.prevout.n⟩, v) ∈ new
  | [], _, _, h => ⟨[], by cases h; simp, by simp, by simp⟩
  | (input, j) :: vin, b, b', h => by
    rw [connectInputIndexes] at h
    obtain ⟨key, -, hrest⟩ := Except.bind_eq_ok.mp h
    generalize key.getD (0, default) = a at hrest
    obtain ⟨addressType, hashBytes⟩ := a
    simp only [if_true] at hrest
    obtain ⟨new, hnew, htxid, hall⟩ := connectInputIndexes_spentIndex hrest
    -- the address entries leave the spent-index batch alone
    have hb : (if fAddressIndex && decide (addressType > 0) then
        { b with
          addressIndex := b.addressIndex ++
            [(⟨addressType, hashBytes, nHeight, i, txhash, j, true⟩,
              ((view input.prevout.hash).vout.getD input.prevout.n default).nValue * -1)]
          addressUnspentIndex := b.addressUnspentIndex ++
            [(⟨addressType, hashBytes, input.prevout.hash, input.prevout.n⟩, {})] }
        else b).spentIndex = b.spentIndex := by split <;> rfl
    refine ⟨_ :: new, by rw [hnew, hb, List.append_assoc, List.singleton_append], ?_, ?_⟩
    · intro p hp
      rcases List.mem_cons.mp hp with rfl | hp
      · rfl
      · exact htxid p hp
    · intro q hq
      rcases List.mem_cons.mp hq with rfl | hq
      · exact ⟨_, List.mem_cons_self⟩
      · obtain ⟨v, hv⟩ := hall q hq
        exact ⟨v, List.mem_cons_of_mem _ hv⟩

/-- With the spent index on, connecting adds an entry for each input of every transaction that
is not a coinbase, each naming such a transaction. -/
theorem connectBlockTxs_spentIndex {getHash : CTransaction → Uint256} {nHeight : Int}
    {fAddressIndex : Bool} :
    ∀ {vtx : List (CTransaction × Nat)} {view : CoinsMap} {vtxundo : List CTxUndo}
      {b : IndexBatches} {r : CoinsMap × List CTxUndo × IndexBatches},
      connectBlockTxs getHash nHeight fAddressIndex true vtx (view, vtxundo, b) = .ok r →
      ∃ new, r.2.2.spentIndex = b.spentIndex ++ new ∧
        (∀ p ∈ new, ∃ q ∈ vtx, ¬ q.1.IsCoinBase ∧ p.2.txid = getHash q.1) ∧
        ∀ q ∈ vtx, ¬ q.1.IsCoinBase → ∀ input ∈ q.1.vin,
          ∃ v, (⟨input.prevout.hash, input.prevout.n⟩, v) ∈ new
  | [], _, _, _, _, h => by cases h; exact ⟨[], by simp, by simp, by simp⟩
  | (tx, i) :: vtx, view, vtxundo, b, r, h => by
    rw [connectBlockTxs] at h
    obtain ⟨b₁, hin, h⟩ := Except.bind_eq_ok.mp h
    obtain ⟨b₂, hout, h⟩ := Except.bind_eq_ok.mp h
    obtain ⟨⟨txundo, view₁⟩, -, hrest⟩ := Except.bind_eq_ok.mp h
    obtain ⟨new₂, hnew₂, htxid₂, hall₂⟩ := connectBlockTxs_spentIndex hrest
    have hb₂ : b₂.spentIndex = b₁.spentIndex := by
      split at hout
      · exact outputIndexes_spentIndex hout
      · cases hout; rfl
    -- the entries of this transaction's inputs, none for a coinbase
    obtain ⟨new₁, hnew₁, htxid₁, hall₁⟩ : ∃ new₁, b₁.spentIndex = b.spentIndex ++ new₁ ∧
        (∀ p ∈ new₁, ¬ tx.IsCoinBase ∧ p.2.txid = getHash tx) ∧
        (¬ tx.IsCoinBase → ∀ input ∈ tx.vin,
          ∃ v, (⟨input.prevout.hash, input.prevout.n⟩, v) ∈ new₁) := by
      by_cases hcb : tx.IsCoinBase
      · rw [if_neg (fun h => h.1 hcb)] at hin
        cases hin
        exact ⟨[], by simp, by simp, fun h => absurd hcb h⟩
      · rw [if_pos ⟨hcb, by simp⟩] at hin
        obtain ⟨new₁, hnew₁, htxid₁, hall₁⟩ := connectInputIndexes_spentIndex hin
        refine ⟨new₁, hnew₁, fun p hp => ⟨hcb, htxid₁ p hp⟩, fun _ input hinput => ?_⟩
        obtain ⟨q, hq, rfl⟩ := exists_mem_zipIdx hinput
        exact hall₁ q hq
    refine ⟨new₁ ++ new₂, by rw [hnew₂, hb₂, hnew₁, List.append_assoc], ?_, ?_⟩
    · intro p hp
      rcases List.mem_append.mp hp with hp | hp
      · exact ⟨(tx, i), List.mem_cons_self, htxid₁ p hp⟩
      · obtain ⟨q, hq, hrest⟩ := htxid₂ p hp
        exact ⟨q, List.mem_cons_of_mem _ hq, hrest⟩
    · intro q hq hcb input hinput
      rcases List.mem_cons.mp hq with rfl | hq
      · obtain ⟨v, hv⟩ := hall₁ hcb input hinput
        exact ⟨v, List.mem_append_left _ hv⟩
      · obtain ⟨v, hv⟩ := hall₂ q hq hcb input hinput
        exact ⟨v, List.mem_append_right _ hv⟩

/-- After `ConnectBlock` with `-spentindex`, every output spent by the block is in the spent
index, when no spending transaction has the null hash. -/
theorem connectBlock_spentIndex {getHash : CTransaction → Uint256} {nHeight : Int}
    {fAddressIndex : Bool} {vtx : List CTransaction} {view view' : CoinsMap} {db db' : CBlockTreeDB}
    {vtxundo : List CTxUndo}
    (h : connectBlock getHash nHeight fAddressIndex true vtx view db = .ok (view', vtxundo, db'))
    (hhash : ∀ tx ∈ vtx, ¬ tx.IsCoinBase → getHash tx ≠ default) :
    ∀ tx ∈ vtx, ¬ tx.IsCoinBase → ∀ input ∈ tx.vin,
      (db'.spentIndex ⟨input.prevout.hash, input.prevout.n⟩).isSome := by
  obtain ⟨⟨view₁, vtxundo₁, b⟩, hacc, h⟩ := Except.bind_eq_ok.mp h
  obtain ⟨new, hnew, htxid, hall⟩ := connectBlockTxs_spentIndex hacc
  have hb : b.spentIndex = new := by simpa using hnew
  simp only [if_true, pure, Except.pure, Except.ok.injEq, Prod.mk.injEq] at h
  obtain ⟨-, -, rfl⟩ := h
  intro tx htx hcb input hinput
  obtain ⟨q, hq, rfl⟩ := exists_mem_zipIdx htx
  obtain ⟨v, hv⟩ := hall q hq hcb input hinput
  refine Function.applyBatch_isSome_of_mem _ (hb.symm ▸ hv) (fun p hp => ?_) _
  -- every entry names a spending transaction, whose hash is not null
  obtain ⟨q', hq', hcb', hp⟩ := htxid p (hb ▸ hp)
  simpa [CSpentIndexValue.IsNull, hp] using hhash q'.1 (List.fst_mem_of_mem_zipIdx hq') hcb'

/-- `DisconnectBlock` never writes the spent index: the erases it collects are dropped. -/
theorem disconnectBlock_spentIndex {getHash : CTransaction → Uint256} {nHeight : Int}
    {fAddressIndex fSpentIndex : Bool} {vtx : List CTransaction} {vtxundo : List CTxUndo}
    {view view' : CoinsMap} {db db' : CBlockTreeDB} {fClean : Bool}
    (h : disconnectBlock getHash nHeight fAddressIndex fSpentIndex vtx vtxundo view db =
      .ok (fClean, view', db')) : db'.spentIndex = db.spentIndex := by
  unfold disconnectBlock at h
  by_cases hlen : vtxundo.length + 1 ≠ vtx.length
  · rw [if_pos hlen] at h
    cases h
  rw [if_neg hlen] at h
  obtain ⟨⟨fClean₁, view₁, b⟩, -, h⟩ := Except.bind_eq_ok.mp h
  simp only [pure, Except.pure, Except.ok.injEq, Prod.mk.injEq] at h
  obtain ⟨-, -, rfl⟩ := h
  split <;> rfl

/-- Connecting a block with `-spentindex` and disconnecting it with the undo data the connection
wrote leaves every output the block spent in the spent index. -/
theorem spentIndex_survives_disconnect {getHash : CTransaction → Uint256} {nHeight : Int}
    {fAddressIndex : Bool} {vtx : List CTransaction} {vtxundo : List CTxUndo}
    {view view₁ view₂ : CoinsMap} {db db₁ db₂ : CBlockTreeDB} {fClean : Bool}
    (hconnect : connectBlock getHash nHeight fAddressIndex true vtx view db = .ok (view₁, vtxundo, db₁))
    (hdisconnect : disconnectBlock getHash nHeight fAddressIndex true vtx vtxundo view₁ db₁ =
      .ok (fClean, view₂, db₂))
    (hhash : ∀ tx ∈ vtx, ¬ tx.IsCoinBase → getHash tx ≠ default) :
    ∀ tx ∈ vtx, ¬ tx.IsCoinBase → ∀ input ∈ tx.vin,
      (db₂.spentIndex ⟨input.prevout.hash, input.prevout.n⟩).isSome := by
  rw [disconnectBlock_spentIndex hdisconnect]
  exact connectBlock_spentIndex hconnect hhash

/-- The failing input: a block whose second transaction spends the first of two outputs to a key
hash, made at height `5` and recorded in the address-unspent index.  Connecting the block at
height `7` and disconnecting it leaves the spend in the spent index, and rewrites the output's
address-unspent record with height `0`: the spend left an output, so its undo record has no
height. -/
theorem disconnectBlock_leaves_indexes :
    let h₁ : Uint256 := ⟨List.replicate 31 0 ++ [1], rfl⟩
    let pkh : List UInt8 := [OP_DUP, OP_HASH160, 0x14] ++ List.replicate 20 7 ++
      [OP_EQUALVERIFY, OP_CHECKSIG]
    let view : CoinsMap := Function.update (fun _ => default) h₁ ⟨false, [⟨5, pkh⟩, ⟨6, pkh⟩], 5, 1⟩
    let key : CAddressUnspentKey := ⟨1, ⟨List.replicate 20 7, rfl⟩, h₁, 0⟩
    let db : CBlockTreeDB :=
      ⟨fun _ => none, Function.update (fun _ => none) key (some ⟨5, pkh, 5⟩), fun _ => none⟩
    let getHash : CTransaction → Uint256 := fun tx =>
      ⟨List.replicate 31 0 ++ [UInt8.ofNat (tx.vout.headD default).nValue.toNat], by simp⟩
    let vtx : List CTransaction :=
      [{ vin := [{}], vout := [⟨2, []⟩] }, { vin := [{ prevout := ⟨h₁, 0⟩ }], vout := [⟨3, []⟩] }]
    ∃ view₁ vtxundo db₁ fClean view₂ db₂,
      connectBlock getHash 7 true true vtx view db = .ok (view₁, vtxundo, db₁) ∧
      disconnectBlock getHash 7 true true vtx vtxundo view₁ db₁ = .ok (fClean, view₂, db₂) ∧
      db.spentIndex ⟨h₁, 0⟩ = none ∧ (db₂.spentIndex ⟨h₁, 0⟩).isSome ∧
      db.addressUnspentIndex key = some ⟨5, pkh, 5⟩ ∧
      db₂.addressUnspentIndex key = some ⟨5, pkh, 0⟩ := by
  intro h₁ pkh view key db getHash vtx
  have hrun : (connectBlock getHash 7 true true vtx view db >>= fun r =>
      (fun r' => r'.2.2.addressUnspentIndex key) <$>
        disconnectBlock getHash 7 true true vtx r.2.1 r.1 r.2.2) = .ok (some ⟨5, pkh, 0⟩) := by
    decide +kernel
  obtain ⟨⟨view₁, vtxundo, db₁⟩, hconnect, hrun⟩ := Except.bind_eq_ok.mp hrun
  obtain ⟨⟨fClean, view₂, db₂⟩, hdisconnect, hkey⟩ := Except.map_eq_ok.mp hrun
  -- the spend stays in the spent index, as for every block
  have hspent := spentIndex_survives_disconnect hconnect hdisconnect (by decide) _
    (List.mem_cons_of_mem _ List.mem_cons_self) (by decide) _ List.mem_cons_self
  exact ⟨view₁, vtxundo, db₁, fClean, view₂, db₂, hconnect, hdisconnect, rfl, hspent, rfl, hkey⟩

end Trumpow
