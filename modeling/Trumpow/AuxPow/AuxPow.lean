import Trumpow.Consensus.MerkleRoot
import Trumpow.Primitives.Transaction
import Trumpow.Script.Script
import Trumpow.Support.Search

/-!
# AuxPow — merge-mining proofs

`auxpow.cpp`: a `CAuxPow` proves that a block of this chain was merge-mined, by a parent
block whose coinbase commits to it.  `CAuxPow::check` verifies the two merkle branches (the
coinbase in the parent block, the block in the chain merkle tree) and finds the chain merkle
root in the coinbase script, behind the merged-mining header `fa be 6d 6d` or, for old
proofs without it, in the first 20 bytes; after the root come the tree size and a nonce that
fixes the block's slot (`getExpectedIndex`).

The double SHA-256 of two digests (`Hash`), of a transaction and of a block header
(`GetHash`) are parameters: `hash`, `txHash` and `headerHash`.  `check` returns
`Except.error` with the text `error(...)` logs where the source returns `false`.

Of the data the source carries, the model keeps what `check`, `initAuxPow` and the merkle
functions read: a block is its header and transactions.
-/

namespace Trumpow

open ListSearch

/-- `CPureBlockHeader`. -/
structure CPureBlockHeader where
  nVersion : Int
  hashPrevBlock : Uint256
  hashMerkleRoot : Uint256
  nTime : Nat
  nBits : Nat
  nNonce : Nat
deriving DecidableEq

/-- `CPureBlockHeader()`, after `SetNull()`. -/
instance : Inhabited CPureBlockHeader :=
  ⟨{ nVersion := 0, hashPrevBlock := default, hashMerkleRoot := default, nTime := 0, nBits := 0,
     nNonce := 0 }⟩

/-- `CPureBlockHeader::IsNull()`. -/
def CPureBlockHeader.IsNull (h : CPureBlockHeader) : Prop := h.nBits = 0

instance : DecidablePred CPureBlockHeader.IsNull := fun h => inferInstanceAs (Decidable (h.nBits = 0))

def VERSION_AUXPOW : Int := 2 ^ 8

/-- `GetChainId()`: `nVersion >> 16`. -/
def CPureBlockHeader.getChainId (h : CPureBlockHeader) : Int := h.nVersion >>> 16

/-- `SetAuxpowFlag(auxpow)`. -/
def CPureBlockHeader.setAuxpowFlag (h : CPureBlockHeader) (auxpow : Bool) : CPureBlockHeader :=
  if auxpow then { h with nVersion := Int.lor h.nVersion VERSION_AUXPOW }
  else { h with nVersion := Int.land h.nVersion (Int.lnot VERSION_AUXPOW) }

/-- `CBlock`: a header and its transactions. -/
structure CBlock where
  header : CPureBlockHeader
  vtx : List CTransaction

/-- `CAuxPow`: the parent coinbase `tx` with its branch `vMerkleBranch` at `nIndex` in the
parent block, the branch `vChainMerkleBranch` of this chain's block at `nChainIndex` in the
chain merkle tree, and the parent block's header. -/
structure CAuxPow where
  tx : CTransaction
  vMerkleBranch : List Uint256
  nIndex : Int
  vChainMerkleBranch : List Uint256
  nChainIndex : Int
  parentBlock : CPureBlockHeader

/-- `Consensus::Params`, with the one field `check` reads. -/
structure ConsensusParams where
  fStrictChainId : Bool

/-- `pchMergedMiningHeader`: `0xfa, 0xbe, 'm', 'm'`. -/
def pchMergedMiningHeader : List UInt8 := [0xfa, 0xbe, 0x6d, 0x6d]

/-- `getExpectedIndex(nNonce, nChainId, h)`: a linear congruential step in `uint32_t`
arithmetic, the chain ID added, another step, then the slot modulo `1 << h`.  Every call has
`h ≤ 30` (`check` bounds the branch length first), where `1 << h` is `2^h`. -/
def getExpectedIndex (nNonce : Nat) (nChainId : Int) (h : Nat) : Int :=
  let rand : Nat := nNonce
  let rand : Nat := (rand * 1103515245 + 12345) % 2 ^ 32
  let rand : Nat := ((rand + nChainId) % 2 ^ 32).toNat
  let rand : Nat := (rand * 1103515245 + 12345) % 2 ^ 32
  (rand % 2 ^ h : Nat)

section Hashes

variable (hash : Uint256 → Uint256 → Uint256) (txHash : CTransaction → Uint256)

/-- `BlockMerkleRoot(block)`: the merkle root of the transaction hashes. -/
def blockMerkleRoot (block : CBlock) : Option Uint256 :=
  (Merkle.computeMerkleRoot hash (block.vtx.map txHash)).map Prod.fst

/-- `BlockMerkleBranch(block, position)`. -/
def blockMerkleBranch (block : CBlock) (position : Nat) : Option (List Uint256) :=
  Merkle.computeMerkleBranch hash (block.vtx.map txHash) position

/-- `CAuxPow::CheckMerkleBranch(hash, vMerkleBranch, nIndex)`: `uint256()` for `nIndex == -1`,
else the branch climbed with the `int` index, its low bit by `nIndex & 1` and then shifted
arithmetically. -/
def checkMerkleBranch (h : Uint256) (vMerkleBranch : List Uint256) (nIndex : Int) : Uint256 :=
  if nIndex = -1 then default else go h vMerkleBranch nIndex
where
  go (h : Uint256) : List Uint256 → Int → Uint256
    | [], _ => h
    | b :: bs, nIndex => go (if nIndex % 2 = 1 then hash b h else hash h b) bs (nIndex >>> 1)

/-- `CAuxPow::check(hashAuxBlock, nChainId, params)`, each `return error(...)` an early
`throw`.  Positions in the script are indices, `script.end()` is `script.length`; the two
branches on whether the merged-mining header was found are guards on that condition. -/
def CAuxPow.check (a : CAuxPow) (hashAuxBlock : Uint256) (nChainId : Int)
    (params : ConsensusParams) : Except String Unit :=
  if a.nIndex ≠ 0 then throw "AuxPow is not a generate" else
  if params.fStrictChainId ∧ a.parentBlock.getChainId = nChainId then
    throw "Aux POW parent has our chain ID" else
  if a.vChainMerkleBranch.length > 30 then throw "Aux POW chain merkle branch too long" else
  let nRootHash := checkMerkleBranch hash hashAuxBlock a.vChainMerkleBranch a.nChainIndex
  -- correct endian
  let vchRootHash := nRootHash.data.reverse
  if checkMerkleBranch hash (txHash a.tx) a.vMerkleBranch a.nIndex ≠ a.parentBlock.hashMerkleRoot then
    throw "Aux POW merkle root incorrect" else
  match a.tx.vin with
  | [] => throw "Aux POW coinbase has no inputs"
  | txin :: _ =>
    let script := txin.scriptSig
    let pcHead := search script pchMergedMiningHeader
    let pc := search script vchRootHash
    if pc = script.length then throw "Aux POW missing chain merkle root in parent coinbase" else
    if pcHead ≠ script.length ∧
        search (script.drop (pcHead + 1)) pchMergedMiningHeader ≠ (script.drop (pcHead + 1)).length then
      throw "Multiple merged mining headers in coinbase" else
    if pcHead ≠ script.length ∧ pcHead + pchMergedMiningHeader.length ≠ pc then
      throw "Merged mining header is not just before chain merkle root" else
    -- for backward compatibility: without the header, the root starts early in the coinbase
    if pcHead = script.length ∧ pc > 20 then
      throw "Aux POW chain merkle root must start in the first 20 bytes of the parent coinbase" else
    let pc := pc + vchRootHash.length
    if script.length - pc < 8 then
      throw "Aux POW missing chain merkle tree size and nonce in parent coinbase" else
    let nSize := readLE32 (script.drop pc)
    let merkleHeight := a.vChainMerkleBranch.length
    if nSize ≠ 2 ^ merkleHeight then
      throw "Aux POW merkle branch size does not match parent coinbase" else
    let nNonce := readLE32 (script.drop (pc + 4))
    if a.nChainIndex ≠ getExpectedIndex nNonce nChainId merkleHeight then
      throw "Aux POW wrong index" else
    pure ()

variable (headerHash : CPureBlockHeader → Uint256)

/-- `CAuxPow::initAuxPow(header)`: the header with its auxpow flag set, and an auxpow whose
parent block (version 1) holds only a coinbase whose script pushes the reversed block hash,
then `1` and seven zero bytes: a tree of size 1 and nonce 0, with no merged-mining header. -/
def initAuxPow (header : CPureBlockHeader) : Option (CPureBlockHeader × CAuxPow) := do
  let header := header.setAuxpowFlag true
  let blockHash := headerHash header
  let inputData := blockHash.data.reverse ++ [1] ++ List.replicate 7 0
  let coinbase : CTransaction := { vin := [{ scriptSig := pushBytes [] inputData }] }
  let parent : CBlock := { header := { (default : CPureBlockHeader) with nVersion := 1 }, vtx := [coinbase] }
  let root ← blockMerkleRoot hash txHash parent
  let parent := { parent with header := { parent.header with hashMerkleRoot := root } }
  -- `SetAuxpow` sets the flag once more
  pure (header.setAuxpowFlag true,
    { tx := coinbase, vMerkleBranch := [], nIndex := 0, vChainMerkleBranch := [],
      nChainIndex := 0, parentBlock := parent.header })

end Hashes

end Trumpow
