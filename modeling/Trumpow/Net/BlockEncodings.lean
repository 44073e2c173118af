import Trumpow.AuxPow.AuxPow
import Trumpow.Serialize.Transaction

/-!
# Net — compact blocks

`blockencodings.cpp` (BIP 152).  A compact block carries the header, a nonce, a 48-bit short ID
for each transaction left out and the transactions sent in full (`prefilledtxn`), each with the
distance to the previous one.  `PartiallyDownloadedBlock::InitData` lays the block out in
`txn_available`: it places the prefilled transactions, gives each short ID the next free position,
and fills positions from the mempool and from the extra transactions whose short IDs match.
`FillBlock` takes the transactions still missing, in order.

The hashes are parameters: `siphash header nonce h` is `SipHashUint256` of `h` under the keys
`FillShortTxIDSelector` derives from the header and the nonce, and `wtxid` is `GetWitnessHash`.
The `unordered_map` of short IDs is a list of pairs; the bucket its hashing puts a key in, which
the library decides and the map's size fixes, is the parameter `bucket`.  The mempool is its
`vTxHashes`, the witness hash and the transaction of each entry.

What ends a call other than a return is an `InitDataFault`: an index past the end of
`txn_available`, a failed `assert`, a loop that never ends, a null pointer dereferenced.

* `skipAvailable_eq_none_iff`: the search for a free position runs out of steps exactly when
  every position it looks at is taken; `skipAvailable_never_stops`: after `2^16` such steps the
  `uint16_t` offset has taken every value, and the search never stops.
* `initData_diverges`: a compact block with a short ID and 65536 prefilled transactions, each
  right after the previous one, passes every check of `InitData`, and the search for the first
  short ID's position never ends.
-/

namespace Trumpow

/-- `PrefilledTransaction`: a `uint16_t` index and a transaction. -/
structure PrefilledTransaction where
  index : Nat
  tx : CTransaction

/-- `CBlockHeaderAndShortTxIDs`. -/
structure CBlockHeaderAndShortTxIDs where
  header : CPureBlockHeader
  nonce : Nat
  shorttxids : List Nat
  prefilledtxn : List PrefilledTransaction

/-- `BlockTxCount()`. -/
def CBlockHeaderAndShortTxIDs.BlockTxCount (c : CBlockHeaderAndShortTxIDs) : Nat :=
  c.shorttxids.length + c.prefilledtxn.length

/-- `ReadStatus`. -/
inductive ReadStatus
  | OK
  | INVALID
  | FAILED
  | CHECKBLOCK_FAILED
deriving DecidableEq, Repr

/-- What ends `InitData`, `IsTxAvailable` or `FillBlock` without a return. -/
inductive InitDataFault
  /-- `txn_available[k]` past its end. -/
  | outOfRange
  /-- An `assert` that fails. -/
  | assertion
  /-- A loop that never ends. -/
  | diverges
  /-- A null `CTransactionRef` dereferenced. -/
  | nullDeref
deriving DecidableEq, Repr

/-- `PartiallyDownloadedBlock`, with the fields `InitData` and `FillBlock` use;
`PartiallyDownloadedBlock(pool)` has a null header and nothing available. -/
structure PartiallyDownloadedBlock where
  txn_available : List (Option CTransaction) := []
  mempool_count : Nat := 0
  header : CPureBlockHeader := default

/-- `MAX_BLOCK_BASE_SIZE`. -/
def MAX_BLOCK_BASE_SIZE : Nat := 1000000

/-- `MIN_TRANSACTION_BASE_SIZE`: the size of `CTransaction()` serialized without witness. -/
def MIN_TRANSACTION_BASE_SIZE : Nat := (serializeTransaction false {}).length

theorem max_block_tx_count : MAX_BLOCK_BASE_SIZE / MIN_TRANSACTION_BASE_SIZE = 100000 := by
  decide

section InitData

variable (siphash : CPureBlockHeader → Nat → Uint256 → Nat) (wtxid : CTransaction → Uint256)
  (bucket : Nat → Nat)

/-- `GetShortID(txhash)`: the SipHash under the compact block's keys, cut to 48 bits. -/
def CBlockHeaderAndShortTxIDs.GetShortID (c : CBlockHeaderAndShortTxIDs) (txhash : Uint256) :
    Nat :=
  siphash c.header c.nonce txhash &&& 0xffffffffffff

/-- `txn_available[k]`. -/
def readAvailable (txn_available : List (Option CTransaction)) (k : Nat) :
    Except InitDataFault (Option CTransaction) :=
  if h : k < txn_available.length then .ok txn_available[k] else .error .outOfRange

/-- `txn_available[k] = v`. -/
def writeAvailable (txn_available : List (Option CTransaction)) (k : Nat)
    (v : Option CTransaction) : Except InitDataFault (List (Option CTransaction)) :=
  if k < txn_available.length then .ok (txn_available.set k v) else .error .outOfRange

/-- The loop over `prefilledtxn` from its `i`-th element, with `lastprefilledindex = last`: each
transaction goes `index + 1` positions after the previous one.  It returns whether it went to
the end (`false` is `READ_STATUS_INVALID`) and `txn_available`. -/
def prefillLoop (nShort : Nat) :
    List PrefilledTransaction → Nat → Int → List (Option CTransaction) →
      Except InitDataFault (Bool × List (Option CTransaction))
  | [], _, _, txn_available => .ok (true, txn_available)
  | p :: ps, i, last, txn_available =>
    if p.tx.IsNull then .ok (false, txn_available)
    else
      -- index is a uint16_t, so can't overflow here
      let last := last + p.index + 1
      if last > 65535 then .ok (false, txn_available)
      -- a transaction with neither a prefilled transaction nor a short ID before it
      else if last > ↑(nShort + i) then .ok (false, txn_available)
      else do
        let txn_available ← writeAvailable txn_available last.toNat (some p.tx)
        prefillLoop nShort ps (i + 1) last txn_available

/-- `while (txn_available[i + index_offset]) index_offset++;` for at most `fuel` steps, with the
`uint16_t` `index_offset`: the offset it stops at, or `none` when it has not stopped. -/
def skipAvailable (txn_available : List (Option CTransaction)) (i : Nat) :
    Nat → UInt16 → Except InitDataFault (Option UInt16)
  | 0, _ => .ok none
  | fuel + 1, index_offset => do
    match ← readAvailable txn_available (i + index_offset.toNat) with
    | some _ => skipAvailable txn_available i fuel (index_offset + 1)
    | none => .ok (some index_offset)

/-- `shorttxids[k] = v` on the `unordered_map`: it replaces the value of `k`, or adds `k`. -/
def assignShortId (m : List (Nat × UInt16)) (k : Nat) (v : UInt16) : List (Nat × UInt16) :=
  if m.any (fun e => e.1 == k) then m.map (fun e => if e.1 = k then (k, v) else e)
  else m ++ [(k, v)]

/-- `shorttxids.bucket_size(shorttxids.bucket(k))`. -/
def bucketSize (m : List (Nat × UInt16)) (k : Nat) : Nat :=
  (m.filter fun e => bucket e.1 = bucket k).length

/-- `shorttxids.find(k)`. -/
def findShortId (m : List (Nat × UInt16)) (k : Nat) : Option UInt16 :=
  (m.find? fun e => e.1 == k).map Prod.snd

/-- The loop over the short IDs from the `i`-th: each gets the next position `i + index_offset`
that no prefilled transaction holds, as a `uint16_t`.  The offset only grows; once it has
visited all `2^16` values without stopping, the `while` loop comes back to where it started
and never ends.  It returns the map, or `none` for `READ_STATUS_FAILED` when a bucket holds
more than 12 short IDs. -/
def shortIdLoop (txn_available : List (Option CTransaction)) :
    List Nat → Nat → UInt16 → List (Nat × UInt16) →
      Except InitDataFault (Option (List (Nat × UInt16)))
  | [], _, _, m => .ok (some m)
  | k :: ks, i, index_offset, m => do
    match ← skipAvailable txn_available i (2 ^ 16) index_offset with
    | none => .error .diverges
    | some index_offset =>
      let m := assignShortId m k (UInt16.ofNat (i + index_offset.toNat))
      if bucketSize bucket m k > 12 then .ok none
      else shortIdLoop txn_available ks (i + 1) index_offset m

/-- The loop over the mempool's `vTxHashes`: a transaction whose short ID is in the map fills
its position, and a second one for the same position empties it again, to be requested.  The
loop stops early once as many positions are filled as there are short IDs. -/
def mempoolLoop (c : CBlockHeaderAndShortTxIDs) (m : List (Nat × UInt16)) :
    List (Uint256 × CTransaction) → List (Option CTransaction) → List Bool → Nat →
      Except InitDataFault (List (Option CTransaction) × List Bool × Nat)
  | [], txn_available, have_txn, mempool_count => .ok (txn_available, have_txn, mempool_count)
  | (h, tx) :: vTxHashes, txn_available, have_txn, mempool_count => do
    let (txn_available, have_txn, mempool_count) ← (match findShortId m (c.GetShortID siphash h) with
      | none => pure (txn_available, have_txn, mempool_count)
      | some pos =>
        if !have_txn.getD pos.toNat false then do
          let txn_available ← writeAvailable txn_available pos.toNat (some tx)
          pure (txn_available, have_txn.set pos.toNat true, mempool_count + 1)
        else do
          -- If we find two mempool txn that match the short id, just request it.
          match ← readAvailable txn_available pos.toNat with
          | some _ => do
            let txn_available ← writeAvailable txn_available pos.toNat none
            pure (txn_available, have_txn, mempool_count - 1)
          | none => pure (txn_available, have_txn, mempool_count) :
        Except InitDataFault (List (Option CTransaction) × List Bool × Nat))
    if mempool_count = m.length then .ok (txn_available, have_txn, mempool_count)
    else mempoolLoop c m vTxHashes txn_available have_txn mempool_count

/-- The loop over `extra_txn`, pairs of a witness hash and a transaction pointer that may be
null.  A second match for a position empties it only when the witness hashes differ, which
dereferences both pointers. -/
def extraLoop (c : CBlockHeaderAndShortTxIDs) (m : List (Nat × UInt16)) :
    List (Uint256 × Option CTransaction) → List (Option CTransaction) → List Bool → Nat →
      Except InitDataFault (List (Option CTransaction) × Nat)
  | [], txn_available, _, mempool_count => .ok (txn_available, mempool_count)
  | (h, tx) :: extra_txn, txn_available, have_txn, mempool_count => do
    let (txn_available, have_txn, mempool_count) ← (match findShortId m (c.GetShortID siphash h) with
      | none => pure (txn_available, have_txn, mempool_count)
      | some pos =>
        if !have_txn.getD pos.toNat false then do
          let txn_available ← writeAvailable txn_available pos.toNat tx
          pure (txn_available, have_txn.set pos.toNat true, mempool_count + 1)
        else do
          match ← readAvailable txn_available pos.toNat with
          | some avail =>
            match tx with
            | none => .error .nullDeref
            | some tx =>
              if wtxid avail ≠ wtxid tx then do
                let txn_available ← writeAvailable txn_available pos.toNat none
                pure (txn_available, have_txn, mempool_count - 1)
              else pure (txn_available, have_txn, mempool_count)
          | none => pure (txn_available, have_txn, mempool_count) :
        Except InitDataFault (List (Option CTransaction) × List Bool × Nat))
    if mempool_count = m.length then .ok (txn_available, mempool_count)
    else extraLoop c m extra_txn txn_available have_txn mempool_count

/-- `PartiallyDownloadedBlock::InitData(cmpctblock, extra_txn)`, with the mempool's
`vTxHashes`. -/
def initData (cmpctblock : CBlockHeaderAndShortTxIDs)
    (extra_txn : List (Uint256 × Option CTransaction)) (vTxHashes : List (Uint256 × CTransaction))
    (pdb : PartiallyDownloadedBlock) :
    Except InitDataFault (ReadStatus × PartiallyDownloadedBlock) := do
  if cmpctblock.header.IsNull ∨ (cmpctblock.shorttxids = [] ∧ cmpctblock.prefilledtxn = []) then
    return (.INVALID, pdb)
  if cmpctblock.BlockTxCount > MAX_BLOCK_BASE_SIZE / MIN_TRANSACTION_BASE_SIZE then
    return (.INVALID, pdb)
  if ¬pdb.header.IsNull ∨ pdb.txn_available ≠ [] then
    return (.FAILED, pdb)
  let nShort := cmpctblock.shorttxids.length
  let pdb := { pdb with header := cmpctblock.header,
                        txn_available := List.replicate cmpctblock.BlockTxCount none }
  let (complete, txn_available) ← prefillLoop nShort cmpctblock.prefilledtxn 0 (-1)
    pdb.txn_available
  let pdb := { pdb with txn_available }
  if ¬complete then return (.INVALID, pdb)
  match ← shortIdLoop bucket txn_available cmpctblock.shorttxids 0 0 [] with
  | none => return (.FAILED, pdb)
  | some m =>
    -- Short ID collision
    if m.length ≠ nShort then return (.FAILED, pdb)
    let (txn_available, have_txn, mempool_count) ← mempoolLoop siphash cmpctblock m vTxHashes
      txn_available (List.replicate txn_available.length false) pdb.mempool_count
    let (txn_available, mempool_count) ← extraLoop siphash wtxid cmpctblock m extra_txn
      txn_available have_txn mempool_count
    return (.OK, { pdb with txn_available, mempool_count })

/-- The loop of `FillBlock`: an available transaction is taken, a missing one is the next of
`vtx_missing`.  It returns the transactions and what is left of `vtx_missing`, or `none` for
`READ_STATUS_INVALID` when `vtx_missing` runs out. -/
def fillLoop : List (Option CTransaction) → List CTransaction →
    Option (List CTransaction × List CTransaction)
  | [], vtx_missing => some ([], vtx_missing)
  | some tx :: txn_available, vtx_missing =>
    (fillLoop txn_available vtx_missing).map fun r => (tx :: r.1, r.2)
  | none :: _, [] => none
  | none :: txn_available, tx :: vtx_missing =>
    (fillLoop txn_available vtx_missing).map fun r => (tx :: r.1, r.2)

/-- `FillBlock(block, vtx_missing)`: the status, the block when every position was filled, and
the object after the call.  `CheckBlock` and the `CorruptionPossible()` of its failure are
parameters.  After `READ_STATUS_INVALID` from the loop the caller drops the object, so the
transactions the loop had moved out of it are not followed. -/
def fillBlock (checkBlock corruptionPossible : CBlock → Bool) (pdb : PartiallyDownloadedBlock)
    (vtx_missing : List CTransaction) : ReadStatus × Option CBlock × PartiallyDownloadedBlock :=
  if pdb.header.IsNull then (.INVALID, none, pdb)
  else
    match fillLoop pdb.txn_available vtx_missing with
    | none => (.INVALID, none, pdb)
    | some (vtx, rest) =>
      let block : CBlock := ⟨pdb.header, vtx⟩
      -- Make sure we can't call FillBlock again.
      let pdb := { pdb with header := default, txn_available := [] }
      if rest ≠ [] then (.INVALID, some block, pdb)
      else if ¬checkBlock block then
        -- Possible Short ID collision
        (if corruptionPossible block then .FAILED else .CHECKBLOCK_FAILED, some block, pdb)
      else (.OK, some block, pdb)

/-- `CBlockHeaderAndShortTxIDs(block, fUseWTXID)`, with the random `nonce`: the first transaction
prefilled at index 0, and the short ID of each other one, of its witness hash when `fUseWTXID`
and of its hash (`txid`) otherwise.  `none` for a block without transactions, where
`block.vtx[0]` is undefined. -/
def CBlockHeaderAndShortTxIDs.ofBlock (txid : CTransaction → Uint256) (block : CBlock)
    (fUseWTXID : Bool) (nonce : Nat) : Option CBlockHeaderAndShortTxIDs :=
  match block.vtx with
  | [] => none
  | coinbase :: vtx =>
    let c : CBlockHeaderAndShortTxIDs :=
      { header := block.header, nonce, shorttxids := [], prefilledtxn := [⟨0, coinbase⟩] }
    let shorttxids := vtx.map fun tx =>
      c.GetShortID siphash (if fUseWTXID then wtxid tx else txid tx)
    some { c with shorttxids }

/-- `IsTxAvailable(index)`. -/
def isTxAvailable (pdb : PartiallyDownloadedBlock) (index : Nat) : Except InitDataFault Bool :=
  if pdb.header.IsNull then .ok false
  else if h : index < pdb.txn_available.length then .ok pdb.txn_available[index].isSome
  else .error .assertion

end InitData

/-! ### The position search -/

section Skip

variable {txn_available : List (Option CTransaction)} {i : Nat}

/-- The position `i + index_offset` holds a transaction. -/
def Occupied (txn_available : List (Option CTransaction)) (i : Nat) (index_offset : UInt16) :
    Prop :=
  ∃ tx, readAvailable txn_available (i + index_offset.toNat) = .ok (some tx)

theorem readAvailable_of_lt {k : Nat} (h : k < txn_available.length) :
    readAvailable txn_available k = .ok txn_available[k] := dif_pos h

/-- The search runs out of steps exactly when every position it looks at is taken. -/
theorem skipAvailable_eq_none_iff :
    ∀ {n : Nat} {index_offset : UInt16}, skipAvailable txn_available i n index_offset = .ok none ↔
      ∀ k < n, Occupied txn_available i (index_offset + UInt16.ofNat k)
  | 0, _ => by simp [skipAvailable]
  | n + 1, index_offset => by
    have hstep : ∀ k, index_offset + UInt16.ofNat (k + 1) = index_offset + 1 + UInt16.ofNat k := by
      intro k
      rw [UInt16.ofNat_add, UInt16.ofNat_one]
      ac_rfl
    rw [skipAvailable]
    cases hread : readAvailable txn_available (i + index_offset.toNat) with
    | error e =>
      -- an index past the end: the search fails, and that position is not taken
      simp only [bind, Except.bind, reduceCtorEq, false_iff, not_forall]
      refine ⟨0, by omega, ?_⟩
      rintro ⟨tx, htx⟩
      simp [hread] at htx
    | ok r =>
      cases r with
      | none =>
        simp only [bind, Except.bind, Except.ok.injEq, reduceCtorEq, false_iff, not_forall]
        refine ⟨0, by omega, ?_⟩
        rintro ⟨tx, htx⟩
        simp [hread] at htx
      | some tx =>
        simp only [bind, Except.bind]
        rw [skipAvailable_eq_none_iff]
        constructor
        · intro h k hk
          cases k with
          | zero => exact ⟨tx, by simpa using hread⟩
          | succ k => exact hstep k ▸ h k (by omega)
        · intro h k hk
          exact hstep k ▸ h (k + 1) (by omega)

/-- A search that looks at all `2^16` offsets without stopping never stops: its offset is a
`uint16_t`, so it comes back to every value again, however long it runs. -/
theorem skipAvailable_never_stops {index_offset : UInt16}
    (h : skipAvailable txn_available i (2 ^ 16) index_offset = .ok none) (n : Nat)
    (index_offset' : UInt16) : skipAvailable txn_available i n index_offset' = .ok none := by
  have hall : ∀ o : UInt16, Occupied txn_available i o := by
    intro o
    have ho := skipAvailable_eq_none_iff.mp h (o - index_offset).toNat (UInt16.toNat_lt _)
    simpa using ho
  exact skipAvailable_eq_none_iff.mpr fun k _ => hall _

end Skip

/-! ### A search that never ends -/

/-- Prefilled transactions, each right after the previous one, fill consecutive positions and
leave the earlier ones as they were. -/
theorem prefillLoop_consecutive (nShort : Nat) :
    ∀ (ps : List PrefilledTransaction) (i : Nat) (txn_available : List (Option CTransaction)),
      (∀ p ∈ ps, p.index = 0) → (∀ p ∈ ps, ¬p.tx.IsNull) → i + ps.length ≤ 2 ^ 16 →
      i + ps.length ≤ txn_available.length →
      ∃ avail, prefillLoop nShort ps i ((i : Int) - 1) txn_available = .ok (true, avail) ∧
        avail.length = txn_available.length ∧ (∀ j < i, avail[j]? = txn_available[j]?) ∧
        ∀ j, i ≤ j → j < i + ps.length → ∃ tx, avail[j]? = some (some tx)
  | [], i, txn_available, _, _, _, _ =>
    ⟨txn_available, rfl, rfl, fun _ _ => rfl, fun j h₁ h₂ => by simp at h₂; omega⟩
  | p :: ps, i, txn_available, hidx, htx, hbound, hlen => by
    have hp0 : p.index = 0 := hidx p List.mem_cons_self
    have hpn : ¬p.tx.IsNull := htx p List.mem_cons_self
    simp only [List.length_cons] at hbound hlen
    have hi : i < txn_available.length := by omega
    obtain ⟨avail, hrun, hlen', hlow, hfilled⟩ := prefillLoop_consecutive nShort ps (i + 1)
      (txn_available.set i (some p.tx)) (fun q hq => hidx q (List.mem_cons_of_mem p hq))
      (fun q hq => htx q (List.mem_cons_of_mem p hq)) (by omega) (by simp; omega)
    have hcast : ((i + 1 : Nat) : Int) - 1 = i := by omega
    rw [hcast] at hrun
    refine ⟨avail, ?_, by simpa using hlen', ?_, ?_⟩
    · -- this transaction goes to position `i`, which is in range
      rw [prefillLoop, if_neg hpn]
      dsimp only
      rw [hp0, show ((i : Int) - 1 + ((0 : Nat) : Int) + 1) = i by omega,
        if_neg (by omega), if_neg (by omega)]
      simp only [writeAvailable, Int.toNat_natCast, hi, if_true, bind, Except.bind]
      exact hrun
    · intro j hj
      rw [hlow j (by omega), List.getElem?_set_ne (by omega)]
    · intro j hj₁ hj₂
      rcases Nat.lt_or_ge j (i + 1) with hj | hj
      · -- position `i` keeps this transaction: the later ones go after it
        obtain rfl : j = i := by omega
        exact ⟨p.tx, by rw [hlow j (by omega), List.getElem?_set_self hi]⟩
      · exact hfilled j hj (by simp only [List.length_cons] at hj₂; omega)

/-- With 65536 prefilled transactions, each right after the previous one, and a short ID, the
prefilled transactions take positions 0 to 65535, every value of the `uint16_t` `index_offset`
points at one of them, and the search for the first short ID's position never ends.  Every
check before it passes: a block of up to 100000 transactions is allowed, the positions are at
most 65535, and none is past the short IDs and the prefilled transactions before it. -/
theorem initData_diverges (siphash : CPureBlockHeader → Nat → Uint256 → Nat)
    (wtxid : CTransaction → Uint256) (bucket : Nat → Nat) (cmpctblock : CBlockHeaderAndShortTxIDs)
    (extra_txn : List (Uint256 × Option CTransaction)) (vTxHashes : List (Uint256 × CTransaction))
    (hheader : ¬cmpctblock.header.IsNull) (hshort : cmpctblock.shorttxids ≠ [])
    (hcount : cmpctblock.BlockTxCount ≤ MAX_BLOCK_BASE_SIZE / MIN_TRANSACTION_BASE_SIZE)
    (hlen : cmpctblock.prefilledtxn.length = 2 ^ 16)
    (hindex : ∀ p ∈ cmpctblock.prefilledtxn, p.index = 0)
    (htx : ∀ p ∈ cmpctblock.prefilledtxn, ¬p.tx.IsNull) :
    initData siphash wtxid bucket cmpctblock extra_txn vTxHashes {} = .error .diverges := by
  have hsize : (List.replicate cmpctblock.BlockTxCount (none : Option CTransaction)).length =
      cmpctblock.shorttxids.length + 2 ^ 16 := by
    simp [CBlockHeaderAndShortTxIDs.BlockTxCount, hlen]
  obtain ⟨avail, hrun, hlen', -, hfilled⟩ := prefillLoop_consecutive cmpctblock.shorttxids.length
    cmpctblock.prefilledtxn 0 (List.replicate cmpctblock.BlockTxCount none) hindex htx (by omega)
    (by omega)
  simp only [Nat.cast_zero, zero_sub] at hrun
  -- every position a `uint16_t` offset reaches from position 0 holds a transaction
  have hall : ∀ o : UInt16, Occupied avail 0 o := by
    intro o
    have ho := o.toNat_lt
    obtain ⟨tx, htx⟩ := hfilled o.toNat (Nat.zero_le _) (by omega)
    obtain ⟨hin, heq⟩ := List.getElem?_eq_some_iff.mp htx
    refine ⟨tx, ?_⟩
    rw [Nat.zero_add, readAvailable_of_lt hin, heq]
  have hskip : skipAvailable avail 0 (2 ^ 16) 0 = .ok none :=
    skipAvailable_eq_none_iff.mpr fun k _ => hall _
  obtain ⟨k, ks, hks⟩ := List.exists_cons_of_ne_nil hshort
  have hpdb : (({} : PartiallyDownloadedBlock).header).IsNull := rfl
  unfold initData
  rw [if_neg (by simp [hheader, hshort]), if_neg (by omega), if_neg (by simp [hpdb])]
  simp only [Int.reduceNeg, hrun, bind, Except.bind, not_true_eq_false, if_false]
  simp only [hks, shortIdLoop, hskip, bind, Except.bind]

/-- The failing message: a header with `nBits = 1`, one short ID, and 65536 prefilled copies of
a transaction with one input, each at index 0. -/
theorem initData_diverges_prefilled_65536 :
    let cmpctblock : CBlockHeaderAndShortTxIDs :=
      { header := { (default : CPureBlockHeader) with nBits := 1 }, nonce := 0, shorttxids := [0],
        prefilledtxn := List.replicate (2 ^ 16) ⟨0, { vin := [{}] }⟩ }
    (¬cmpctblock.header.IsNull ∧ cmpctblock.shorttxids ≠ [] ∧
      cmpctblock.BlockTxCount ≤ MAX_BLOCK_BASE_SIZE / MIN_TRANSACTION_BASE_SIZE ∧
      cmpctblock.prefilledtxn.length = 2 ^ 16 ∧ (∀ p ∈ cmpctblock.prefilledtxn, p.index = 0) ∧
      ∀ p ∈ cmpctblock.prefilledtxn, ¬p.tx.IsNull) ∧
    initData (fun _ _ _ => 0) (fun _ => default) id cmpctblock [] [] {} = .error .diverges := by
  intro cmpctblock
  have hheader : ¬cmpctblock.header.IsNull := by decide
  have hshort : cmpctblock.shorttxids ≠ [] := by decide
  have hcount : cmpctblock.BlockTxCount ≤ MAX_BLOCK_BASE_SIZE / MIN_TRANSACTION_BASE_SIZE := by
    show ([0] : List Nat).length + (List.replicate (2 ^ 16) _).length ≤ _
    rw [List.length_replicate, max_block_tx_count]
    norm_num
  have hlen : cmpctblock.prefilledtxn.length = 2 ^ 16 := List.length_replicate
  have hindex : ∀ p ∈ cmpctblock.prefilledtxn, p.index = 0 := fun p hp => by
    rw [List.eq_of_mem_replicate hp]
  have htx : ∀ p ∈ cmpctblock.prefilledtxn, ¬p.tx.IsNull := fun p hp => by
    rw [List.eq_of_mem_replicate hp]
    decide
  exact ⟨⟨hheader, hshort, hcount, hlen, hindex, htx⟩, initData_diverges _ _ _ cmpctblock [] []
    hheader hshort hcount hlen hindex htx⟩

end Trumpow
