import Trumpow.Net.PartialMerkleTree
import Trumpow.Net.Bloom
import Trumpow.Serialize.Block

/-!
# Net — `CMerkleBlock`, and the partial merkle tree on the wire

`merkleblock.h`, `merkleblock.cpp`.  `CPartialMerkleTree::SerializationOp` writes
`nTransactions`, the hashes as a vector of `uint256`, and the bits packed eight to a byte, least
significant first; reading unpacks every bit of the bytes and clears `fBad`.
`CMerkleBlock(block, filter)` runs the filter over the block's transactions
(`CBloomFilter.vMatch`) and builds the partial merkle tree of their hashes.

* `unpackBits_packBits`: the bits come back padded with clear bits to a whole byte.
* `ExtractMatches_readPartialMerkleTree`: the padding is never read, so a built tree gives the
  same `ExtractMatches` after the wire.
* `CMerkleBlock.new_ExtractMatches`: the peer of a filtered block gets the block's merkle root
  and exactly the transactions the filter matched.
-/

namespace Trumpow

open Codec PadTree

/-! ### The bits as bytes -/

/-- The writing half of `CPartialMerkleTree::SerializationOp`: `vBytes.resize((vBits.size()+7)/8)`,
then `vBytes[p / 8] |= vBits[p] << (p % 8)` for each bit. -/
def packBits (vBits : List Bool) : List UInt8 :=
  (List.range vBits.length).foldl
    (fun vBytes p => vBytes.set (p / 8)
      (vBytes.getD (p / 8) 0 ||| (if vBits.getD p false then 1 else 0) <<< UInt8.ofNat (p % 8)))
    (List.replicate ((vBits.length + 7) / 8) 0)

/-- The reading half: `vBits.resize(vBytes.size() * 8)`, then
`vBits[p] = (vBytes[p / 8] & (1 << (p % 8))) != 0` for each bit. -/
def unpackBits (vBytes : List UInt8) : List Bool :=
  (List.range (vBytes.length * 8)).map fun p => (vBytes.getD (p / 8) 0 &&& 1 <<< UInt8.ofNat (p % 8)) != 0

private theorem set_getD_self (v : List UInt8) (i : Nat) : v.set i (v.getD i 0) = v := by
  by_cases h : i < v.length
  · rw [List.getD_eq_getElem _ _ h, List.set_getElem_self]
  · exact List.set_eq_of_length_le (by omega)

/-- Packing sets the bits that are set, and only those: a clear bit ors in zero. -/
theorem packBits_eq (vBits : List Bool) :
    packBits vBits = ((List.range vBits.length).filter (vBits.getD · false)).foldl ByteBits.set
      (List.replicate ((vBits.length + 7) / 8) 0) := by
  rw [packBits, List.foldl_filter]
  congr 1
  funext vBytes p
  cases vBits.getD p false with
  | true => rw [if_pos rfl, if_pos rfl, ByteBits.one_shiftLeft]; rfl
  | false =>
    rw [if_neg (by simp), if_neg (by simp), UInt8.zero_shiftLeft, UInt8.or_zero, set_getD_self]

theorem unpackBits_eq (vBytes : List UInt8) :
    unpackBits vBytes = (List.range (vBytes.length * 8)).map (ByteBits.test vBytes) := by
  rw [unpackBits]
  congr 1
  funext p
  rw [ByteBits.one_shiftLeft, ByteBits.test_eq_and]

/-- Unpacking the packed bits gives them back, padded with clear bits to a whole byte. -/
theorem unpackBits_packBits (vBits : List Bool) :
    unpackBits (packBits vBits) =
      vBits ++ List.replicate ((vBits.length + 7) / 8 * 8 - vBits.length) false := by
  have hlen : (packBits vBits).length = (vBits.length + 7) / 8 := by
    rw [packBits_eq, ByteBits.length_foldl_set, List.length_replicate]
  rw [unpackBits_eq]
  apply List.ext_getElem
  · simp only [List.length_map, List.length_range, hlen, List.length_append, List.length_replicate]
    omega
  · intro p h1 h2
    rw [List.getElem_map, List.getElem_range, packBits_eq, ByteBits.test_foldl_set,
      ByteBits.test_of_forall_eq_zero (fun b hb => (List.mem_replicate.mp hb).2), List.getElem_append]
    split_ifs with hp
    · have hp8 : p / 8 < (vBits.length + 7) / 8 := by omega
      simp [List.mem_filter, hp, hp8]
    · simp [List.mem_filter, hp]

/-! ### `CPartialMerkleTree::SerializationOp` -/

/-- Writing: `nTransactions`, `vHash`, then the bits packed in bytes. -/
def serializePartialMerkleTree (t : CPartialMerkleTree Uint256) : List UInt8 :=
  writeLE 4 t.nTransactions ++ writeBranch t.vHash ++ writeBytes (packBits t.vBits)

/-- Reading: the bits are all those of the bytes, and `fBad` is cleared. -/
def readPartialMerkleTree : Reader UInt8 (CPartialMerkleTree Uint256) := do
  let nTransactions ← readData 4
  let vHash ← readBranch
  let vBytes ← readBytes
  pure { nTransactions, vBits := unpackBits vBytes, vHash, fBad := false }

theorem length_packBits (vBits : List Bool) : (packBits vBits).length = (vBits.length + 7) / 8 := by
  rw [packBits_eq, ByteBits.length_foldl_set, List.length_replicate]

/-- A tree is read back from its serialization with its bits padded to whole bytes and `fBad`
clear. -/
theorem reads_readPartialMerkleTree {t : CPartialMerkleTree Uint256} (hn : t.nTransactions < 2 ^ 32)
    (hh : t.vHash.length ≤ MAX_SIZE) (hb : (t.vBits.length + 7) / 8 ≤ MAX_SIZE) :
    Reads readPartialMerkleTree (serializePartialMerkleTree t)
      { t with vBits := t.vBits ++ List.replicate ((t.vBits.length + 7) / 8 * 8 - t.vBits.length) false,
               fBad := false } := by
  rw [serializePartialMerkleTree, List.append_assoc]
  exact (reads_readData (by simpa using hn)).bind <| (reads_readBranch hh).bind <|
    (reads_readBytes (by rw [length_packBits]; exact hb)).bind_pure (by rw [unpackBits_packBits])

section Wire

variable (Hash : Uint256 → Uint256 → Uint256) {vTxid : List Uint256} (vMatch : List Bool)

/-- The tree `CPartialMerkleTree(vTxid, vMatch)` builds, over at most `MAX_BLOCK_BASE_SIZE / 60`
txids with no two equal siblings, serialized and read back: `ExtractMatches` gives the top node
and the matches in order, the padding bits left unread. -/
theorem ExtractMatches_read_new (hn : 1 ≤ vTxid.length)
    (hmax : vTxid.length ≤ MAX_BLOCK_BASE_SIZE / 60) (hsib : ¬ EqualSiblingPair Hash vTxid)
    (rest : List UInt8) :
    ∃ t, readPartialMerkleTree.run
        (serializePartialMerkleTree (CPartialMerkleTree.new Hash vTxid vMatch) ++ rest) = some (t, rest) ∧
      t.ExtractMatches Hash [] =
        (node Hash vTxid (height vTxid.length) 0,
          { fBad := false,
            nBitsUsed := (CPartialMerkleTree.encode Hash vTxid vMatch (height vTxid.length) 0).1.length,
            nHashUsed := (CPartialMerkleTree.encode Hash vTxid vMatch (height vTxid.length) 0).2.length,
            vMatch := ((List.range vTxid.length).filter (vMatch.getD · false)).map (vTxid.getD · default),
            vnIndex := (List.range vTxid.length).filter (vMatch.getD · false) }) := by
  have hroot : 0 < width vTxid.length (height vTxid.length) := one_le_width hn _
  have hhash := CPartialMerkleTree.length_hashes_le_leaves Hash vTxid vMatch _ 0 hroot
  have hbits := CPartialMerkleTree.length_bits_lt Hash vTxid vMatch (height vTxid.length) 0
  have htop := two_pow_height_lt hn
  rw [leavesBelow_height, List.length_range] at hhash
  rw [pow_succ] at hbits
  have hmax' : vTxid.length ≤ 16666 := hmax
  rw [CPartialMerkleTree.new_eq]
  refine ⟨_, reads_readPartialMerkleTree (by simp only; omega) (by simp only [MAX_SIZE]; omega)
    (by simp only [MAX_SIZE]; omega) rest, ?_⟩
  -- the read tree holds the encoding, then at most seven clear bits
  exact CPartialMerkleTree.ExtractMatches_encode vMatch _ rfl hn hmax hsib rfl rfl
    (by simp only [List.length_append, List.length_replicate]; omega) rfl

/-- The wire loses nothing `ExtractMatches` reads: the tree `CPartialMerkleTree(vTxid, vMatch)`
builds over at most `MAX_BLOCK_BASE_SIZE / 60` txids with no two equal siblings, serialized and
read back from any stream, gives what the tree itself gives. -/
theorem ExtractMatches_readPartialMerkleTree (hn : 1 ≤ vTxid.length)
    (hmax : vTxid.length ≤ MAX_BLOCK_BASE_SIZE / 60) (hsib : ¬ EqualSiblingPair Hash vTxid)
    (rest : List UInt8) :
    ∃ t, readPartialMerkleTree.run
        (serializePartialMerkleTree (CPartialMerkleTree.new Hash vTxid vMatch) ++ rest) = some (t, rest) ∧
      t.ExtractMatches Hash [] = (CPartialMerkleTree.new Hash vTxid vMatch).ExtractMatches Hash [] := by
  obtain ⟨t, hread, hextract⟩ := ExtractMatches_read_new Hash vMatch hn hmax hsib rest
  refine ⟨t, hread, ?_⟩
  have hnew := CPartialMerkleTree.new_eq Hash vTxid vMatch
  rw [hextract, CPartialMerkleTree.ExtractMatches_encode vMatch [] (by rw [hnew]) hn hmax hsib
    (by rw [hnew]) (by rw [hnew, List.append_nil]) (by rw [hnew]) (by rw [hnew])]

theorem ExtractMatches_readPartialMerkleTree_two :
    let a : Uint256 := default
    let b : Uint256 := ⟨List.replicate 32 1, List.length_replicate⟩
    let Hash : Uint256 → Uint256 → Uint256 := fun l _ => l
    1 ≤ [a, b].length ∧ [a, b].length ≤ MAX_BLOCK_BASE_SIZE / 60 ∧ ¬ EqualSiblingPair Hash [a, b] ∧
      ∃ t, readPartialMerkleTree.run
          (serializePartialMerkleTree (CPartialMerkleTree.new Hash [a, b] [false, true]) ++ []) =
            some (t, []) ∧
        t.ExtractMatches Hash [] = (CPartialMerkleTree.new Hash [a, b] [false, true]).ExtractMatches Hash [] :=
  ⟨by decide, by decide, by decide,
    ExtractMatches_readPartialMerkleTree _ [false, true] (by decide) (by decide) (by decide) []⟩

end Wire

/-! ### `CMerkleBlock` -/

/-- `CMerkleBlock`: a block's header, the partial merkle tree of its transactions, and the
matched ones with their positions. -/
structure CMerkleBlock where
  header : CPureBlockHeader
  txn : CPartialMerkleTree Uint256
  vMatchedTxn : List (Nat × Uint256)

namespace CMerkleBlock

variable (Hash : Uint256 → Uint256 → Uint256) (GetHash : CTransaction → Uint256)

/-- `CMerkleBlock(block, filter)`: `IsRelevantAndUpdate` on each transaction in turn, which also
updates the filter, returned beside the merkle block. -/
def new (block : CBlock) (filter : CBloomFilter) : CMerkleBlock × CBloomFilter :=
  let r := filter.vMatch GetHash block.vtx
  let vHashes := block.vtx.map GetHash
  ({ header := block.header, txn := CPartialMerkleTree.new Hash vHashes r.1,
     vMatchedTxn := ((List.range block.vtx.length).filter (r.1.getD · false)).map
       fun i => (i, vHashes.getD i default) },
   r.2)

/-- A filtered block, end to end: a peer that reads the partial merkle tree of
`CMerkleBlock(block, filter)` from the wire and calls `ExtractMatches` gets the block's merkle
root and exactly the transactions the node matched, with their positions — for a block of at
most `MAX_BLOCK_BASE_SIZE / 60` transactions whose tree has no two equal siblings. -/
theorem new_ExtractMatches (block : CBlock) (filter : CBloomFilter) (hn : 1 ≤ block.vtx.length)
    (hmax : block.vtx.length ≤ MAX_BLOCK_BASE_SIZE / 60)
    (hsib : ¬ EqualSiblingPair Hash (block.vtx.map GetHash)) (rest : List UInt8) :
    let mb := (new Hash GetHash block filter).1
    ∃ txn, readPartialMerkleTree.run (serializePartialMerkleTree mb.txn ++ rest) = some (txn, rest) ∧
      blockMerkleRoot Hash GetHash block = some (txn.ExtractMatches Hash []).1 ∧
      (txn.ExtractMatches Hash []).2.vMatch = mb.vMatchedTxn.map Prod.snd ∧
      (txn.ExtractMatches Hash []).2.vnIndex = mb.vMatchedTxn.map Prod.fst := by
  intro mb
  have hn' : 1 ≤ (block.vtx.map GetHash).length := by rwa [List.length_map]
  have hmax' : (block.vtx.map GetHash).length ≤ MAX_BLOCK_BASE_SIZE / 60 := by rwa [List.length_map]
  obtain ⟨txn, hread, hextract⟩ :=
    ExtractMatches_read_new Hash (filter.vMatch GetHash block.vtx).1 hn' hmax' hsib rest
  refine ⟨txn, hread, ?_, ?_, ?_⟩
  · have h31 : (block.vtx.map GetHash).length ≤ 2 ^ 31 := le_trans hmax' (by decide)
    rw [blockMerkleRoot, CPartialMerkleTree.computeMerkleRoot_of_ne_nil Hash
      (List.ne_nil_of_length_pos hn') h31, hextract]
    rfl
  · rw [hextract]
    simp [mb, new, List.map_map, Function.comp_def]
  · rw [hextract]
    simp [mb, new, List.map_map, Function.comp_def]

theorem new_ExtractMatches_two :
    let Hash : Uint256 → Uint256 → Uint256 := fun l _ => l
    let GetHash : CTransaction → Uint256 := fun tx =>
      ⟨List.replicate 32 (UInt8.ofNat tx.vout.length), List.length_replicate⟩
    let block : CBlock := { header := default, vtx := [{}, { vout := [⟨0, [1, 7]⟩] }] }
    1 ≤ block.vtx.length ∧ block.vtx.length ≤ MAX_BLOCK_BASE_SIZE / 60 ∧
      ¬ EqualSiblingPair Hash (block.vtx.map GetHash) ∧
      (let mb := (new Hash GetHash block {}).1
       ∃ txn, readPartialMerkleTree.run (serializePartialMerkleTree mb.txn ++ []) = some (txn, []) ∧
         blockMerkleRoot Hash GetHash block = some (txn.ExtractMatches Hash []).1 ∧
         (txn.ExtractMatches Hash []).2.vMatch = mb.vMatchedTxn.map Prod.snd ∧
         (txn.ExtractMatches Hash []).2.vnIndex = mb.vMatchedTxn.map Prod.fst) :=
  ⟨by decide, by decide, by decide, new_ExtractMatches _ _ _ _ (by decide) (by decide) (by decide) []⟩

end CMerkleBlock

end Trumpow
