import Trumpow.AuxPow.AuxPow
import Trumpow.Serialize.Transaction

/-!
# Serialize — block headers, their auxpow, and blocks

The block format of `primitives/pureheader.h`, `primitives/block.h` and `auxpow.h`.  A pure
header is `nVersion` (an `int32_t`), the previous block's hash, the merkle root, then `nTime`,
`nBits` and `nNonce` (`uint32_t`s): 80 bytes.  A `CBlockHeader` adds the `auxpow` it points to,
written after the pure header exactly when the version has the `VERSION_AUXPOW` bit; writing a
header with that bit and no auxpow fails its `assert(auxpow)`, and reading a header without the
bit resets the pointer.  A `CAuxPow` is a `CMerkleTx` (the parent coinbase, `hashBlock`, its
branch and index), then the chain branch, its index and the parent block's pure header.  A block
is its header, then the vector of its transactions.  `CAuxPow` keeps what `check` reads, so
`hashBlock`, which the stream carries and nothing reads, is kept beside it.

* `reads_readBlock`: a block whose fields are in the ranges of their C++ types reads back from
  what `serializeBlock` writes; its header keeps its auxpow when its version has the bit, loses
  it when it does not, and its transactions, the auxpow's coinbase included, lose their
  witnesses in a stream that allows none.
* `readBlock_accepts`: what the reader returns has an auxpow exactly when its version has the
  bit, and from a stream without witnesses every string it accepts is the serialization of
  what it returns.
-/

namespace Trumpow

open Codec

/-! ### Fields -/

/-- An `int32_t` field, as its 32 bits. -/
def writeInt32 (v : Int) : List UInt8 := writeLE 4 (v % 2 ^ 32).toNat

def readInt32 : Reader UInt8 Int := toInt32 <$> readData 4

/-- The range of an `int32_t`. -/
def Int32Range (v : Int) : Prop := -2 ^ 31 ≤ v ∧ v < 2 ^ 31

instance : DecidablePred Int32Range := fun _ => inferInstanceAs (Decidable (_ ∧ _))

theorem reads_readInt32 {v : Int} (h : Int32Range v) : Reads readInt32 (writeInt32 v) v :=
  ((reads_readData (by simp; omega)).map toInt32).congr rfl (toInt32_toNat_emod h)

theorem readInt32_accepts {s rest : List UInt8} {v : Int}
    (h : readInt32.run s = some (v, rest)) : Int32Range v ∧ s = writeInt32 v ++ rest := by
  rw [readInt32, StateT.run_map] at h
  cases hr : (readData 4).run s with
  | none => rw [hr] at h; cases h
  | some p =>
    obtain ⟨n, mid⟩ := p
    rw [hr] at h
    cases h
    obtain ⟨hn, rfl⟩ := readData_accepts hr
    have hn' : n < 2 ^ 32 := by simpa using hn
    refine ⟨?_, by rw [writeInt32, toNat_emod_toInt32 hn']⟩
    unfold Int32Range toInt32
    split_ifs <;> omega

/-- `std::vector<uint256>`: a merkle branch. -/
def writeBranch (branch : List Uint256) : List UInt8 := writeVector Uint256.data branch

def readBranch : Reader UInt8 (List Uint256) := readVector readUint256

theorem reads_readBranch {branch : List Uint256} (hn : branch.length ≤ MAX_SIZE) :
    Reads readBranch (writeBranch branch) branch :=
  (reads_readVector Uint256.data id hn fun u _ => reads_readUint256 u).congr rfl
    (List.map_id branch)

theorem readBranch_accepts : Canonical readBranch writeBranch :=
  readVector_accepts readUint256_accepts

/-! ### The pure header -/

/-- `CPureBlockHeader::SerializationOp`. -/
def serializePureHeader (h : CPureBlockHeader) : List UInt8 :=
  writeInt32 h.nVersion ++ h.hashPrevBlock.data ++ h.hashMerkleRoot.data ++ writeLE 4 h.nTime ++
    writeLE 4 h.nBits ++ writeLE 4 h.nNonce

def readPureHeader : Reader UInt8 CPureBlockHeader := do
  let nVersion ← readInt32
  let hashPrevBlock ← readUint256
  let hashMerkleRoot ← readUint256
  let nTime ← readData 4
  let nBits ← readData 4
  let nNonce ← readData 4
  pure { nVersion, hashPrevBlock, hashMerkleRoot, nTime, nBits, nNonce }

/-- The ranges of the header's `int32_t` and `uint32_t` fields. -/
def CPureBlockHeader.InRange (h : CPureBlockHeader) : Prop :=
  Int32Range h.nVersion ∧ h.nTime < 2 ^ 32 ∧ h.nBits < 2 ^ 32 ∧ h.nNonce < 2 ^ 32

instance : DecidablePred CPureBlockHeader.InRange := fun _ =>
  inferInstanceAs (Decidable (_ ∧ _ ∧ _ ∧ _))

/-- `CPureBlockHeader::IsAuxpow()`: `nVersion & VERSION_AUXPOW`. -/
def CPureBlockHeader.IsAuxpow (h : CPureBlockHeader) : Bool := Int.land h.nVersion VERSION_AUXPOW != 0

theorem length_serializePureHeader (h : CPureBlockHeader) : (serializePureHeader h).length = 80 := by
  simp [serializePureHeader, writeInt32, length_writeLE, h.hashPrevBlock.length_data,
    h.hashMerkleRoot.length_data]

theorem reads_readPureHeader {h : CPureBlockHeader} (hr : h.InRange) :
    Reads readPureHeader (serializePureHeader h) h := by
  obtain ⟨hv, ht, hb, hn⟩ := hr
  simp only [serializePureHeader, List.append_assoc]
  exact (reads_readInt32 hv).bind <| (reads_readUint256 _).bind <| (reads_readUint256 _).bind <|
    (reads_readData (by simpa using ht)).bind <| (reads_readData (by simpa using hb)).bind <|
    (reads_readData (by simpa using hn)).bind_pure rfl

theorem readPureHeader_accepts {s rest : List UInt8} {h : CPureBlockHeader}
    (hrun : readPureHeader.run s = some (h, rest)) :
    h.InRange ∧ s = serializePureHeader h ++ rest := by
  obtain ⟨nVersion, m₁, hv, h₁⟩ := run_bind_eq_some.mp hrun
  obtain ⟨hashPrevBlock, m₂, hp, h₂⟩ := run_bind_eq_some.mp h₁
  obtain ⟨hashMerkleRoot, m₃, hm, h₃⟩ := run_bind_eq_some.mp h₂
  obtain ⟨nTime, m₄, ht, h₄⟩ := run_bind_eq_some.mp h₃
  obtain ⟨nBits, m₅, hb, h₅⟩ := run_bind_eq_some.mp h₄
  obtain ⟨nNonce, m₆, hn, hpure⟩ := run_bind_eq_some.mp h₅
  rw [run_pure] at hpure
  cases hpure
  obtain ⟨hn_lt, rfl⟩ := readData_accepts hn
  obtain ⟨hb_lt, rfl⟩ := readData_accepts hb
  obtain ⟨ht_lt, rfl⟩ := readData_accepts ht
  obtain ⟨hv_range, rfl⟩ := readInt32_accepts hv
  rw [readUint256_accepts _ _ _ hp, readUint256_accepts _ _ _ hm]
  refine ⟨⟨hv_range, by simpa using ht_lt, by simpa using hb_lt, by simpa using hn_lt⟩, ?_⟩
  simp only [serializePureHeader, List.append_assoc]

/-! ### The auxpow -/

/-- `CAuxPow::SerializationOp`, whose first part is `CMerkleTx::SerializationOp`: the
coinbase, `hashBlock`, `vMerkleBranch`, `nIndex`, then `vChainMerkleBranch`, `nChainIndex` and
`parentBlock`.  The coinbase is written as the stream writes transactions. -/
def serializeAuxPow (fAllowWitness : Bool) (a : CAuxPow) (hashBlock : Uint256) : List UInt8 :=
  serializeTransaction fAllowWitness a.tx ++ hashBlock.data ++ writeBranch a.vMerkleBranch ++
    writeInt32 a.nIndex ++ writeBranch a.vChainMerkleBranch ++ writeInt32 a.nChainIndex ++
    serializePureHeader a.parentBlock

def readAuxPow (fAllowWitness : Bool) : Reader UInt8 (CAuxPow × Uint256) := do
  let tx ← unserializeTransaction fAllowWitness
  let hashBlock ← readUint256
  let vMerkleBranch ← readBranch
  let nIndex ← readInt32
  let vChainMerkleBranch ← readBranch
  let nChainIndex ← readInt32
  let parentBlock ← readPureHeader
  pure ({ tx, vMerkleBranch, nIndex, vChainMerkleBranch, nChainIndex, parentBlock }, hashBlock)

/-- A transaction that a stream reads back: one with an input, its fields in the ranges of
their C++ types, and in a stream with witnesses its witness sizes too. -/
def CTransaction.Streamable (fAllowWitness : Bool) (tx : CTransaction) : Prop :=
  tx.vin ≠ [] ∧ tx.InRange ∧ (fAllowWitness = true → ∀ txin ∈ tx.vin, txin.WitnessInRange)

/-- What a stream carries of a transaction: all of it, or all but its witnesses. -/
def CTransaction.streamed (fAllowWitness : Bool) (tx : CTransaction) : CTransaction :=
  if fAllowWitness then tx else tx.withoutWitness

/-- An auxpow a stream reads back: its coinbase and parent header read back, its branches within
`MAX_SIZE` and its indexes `int`s. -/
def CAuxPow.Streamable (fAllowWitness : Bool) (a : CAuxPow) : Prop :=
  a.tx.Streamable fAllowWitness ∧ a.vMerkleBranch.length ≤ MAX_SIZE ∧ Int32Range a.nIndex ∧
    a.vChainMerkleBranch.length ≤ MAX_SIZE ∧ Int32Range a.nChainIndex ∧ a.parentBlock.InRange

/-- What a stream carries of an auxpow: its coinbase as the stream carries transactions. -/
def CAuxPow.streamed (fAllowWitness : Bool) (a : CAuxPow) : CAuxPow :=
  { a with tx := a.tx.streamed fAllowWitness }

instance (fAllowWitness : Bool) : DecidablePred (CTransaction.Streamable fAllowWitness) := fun _ =>
  inferInstanceAs (Decidable (_ ∧ _ ∧ _))

instance (fAllowWitness : Bool) : DecidablePred (CAuxPow.Streamable fAllowWitness) := fun _ =>
  inferInstanceAs (Decidable (_ ∧ _ ∧ _ ∧ _ ∧ _ ∧ _))

theorem reads_unserializeTransaction_streamed {fAllowWitness : Bool} {tx : CTransaction}
    (h : tx.Streamable fAllowWitness) :
    Reads (unserializeTransaction fAllowWitness) (serializeTransaction fAllowWitness tx)
      (tx.streamed fAllowWitness) :=
  reads_unserializeTransaction fAllowWitness h.1 h.2.1 h.2.2

theorem reads_readAuxPow {fAllowWitness : Bool} {a : CAuxPow} (hashBlock : Uint256)
    (h : a.Streamable fAllowWitness) :
    Reads (readAuxPow fAllowWitness) (serializeAuxPow fAllowWitness a hashBlock)
      (a.streamed fAllowWitness, hashBlock) := by
  obtain ⟨htx, hb, hi, hcb, hci, hp⟩ := h
  simp only [serializeAuxPow, List.append_assoc]
  exact (reads_unserializeTransaction_streamed htx).bind <| (reads_readUint256 _).bind <|
    (reads_readBranch hb).bind <| (reads_readInt32 hi).bind <| (reads_readBranch hcb).bind <|
    (reads_readInt32 hci).bind <| (reads_readPureHeader hp).bind_pure rfl

/-- From a stream without witnesses, `UnserializeTransaction` accepts only the basic format of
what it reads. -/
theorem unserializeTransaction_noWitness_accepts {s rest : List UInt8} {tx : CTransaction}
    (h : (unserializeTransaction false).run s = some (tx, rest)) :
    s = serializeTransaction false tx ++ rest := by
  obtain ⟨nVersion, m₁, hv, h₁⟩ := run_bind_eq_some.mp h
  obtain ⟨⟨flags, vin, vout⟩, m₂, hvv, h₂⟩ := run_bind_eq_some.mp h₁
  -- no flags byte: `vin`, then `vout`
  obtain ⟨vin₀, m₃, hvin, h₃⟩ := run_bind_eq_some.mp hvv
  rw [if_neg (by simp)] at h₃
  obtain ⟨vout₀, m₄, hvout, hpure⟩ := run_bind_eq_some.mp h₃
  rw [run_pure] at hpure
  simp only [Option.some.injEq, Prod.mk.injEq] at hpure
  obtain ⟨⟨rfl, rfl, rfl⟩, rfl⟩ := hpure
  -- and no witnesses
  obtain ⟨⟨flags', vin'⟩, m₅, hw, h₄⟩ := run_bind_eq_some.mp h₂
  rw [readWitnesses_of_and_one_eq_zero false (by decide), run_pure] at hw
  simp only [Option.some.injEq, Prod.mk.injEq] at hw
  obtain ⟨⟨rfl, rfl⟩, rfl⟩ := hw
  dsimp only at h₄
  rw [if_neg (by decide)] at h₄
  obtain ⟨nLockTime, m₆, hl, hpure⟩ := run_bind_eq_some.mp h₄
  rw [run_pure] at hpure
  cases hpure
  obtain ⟨-, rfl⟩ := readData_accepts hl
  obtain ⟨hv_lt, rfl⟩ := readData_accepts hv
  rw [serializeTransaction_basic false rfl, toNat_emod_toInt32 (by simpa using hv_lt),
    readVector_accepts readTxIn_canonical _ _ _ hvin,
    readVector_accepts readTxOut_accepts _ _ _ hvout]
  simp only [List.append_assoc]

theorem readAuxPow_accepts {fAllowWitness : Bool} {s rest : List UInt8} {a : CAuxPow}
    {hashBlock : Uint256} (h : (readAuxPow fAllowWitness).run s = some ((a, hashBlock), rest)) :
    a.parentBlock.InRange ∧
      (fAllowWitness = false → s = serializeAuxPow false a hashBlock ++ rest) := by
  obtain ⟨tx, m₁, htx, h₁⟩ := run_bind_eq_some.mp h
  obtain ⟨hb, m₂, hhb, h₂⟩ := run_bind_eq_some.mp h₁
  obtain ⟨vMerkleBranch, m₃, hmb, h₃⟩ := run_bind_eq_some.mp h₂
  obtain ⟨nIndex, m₄, hi, h₄⟩ := run_bind_eq_some.mp h₃
  obtain ⟨vChainMerkleBranch, m₅, hcb, h₅⟩ := run_bind_eq_some.mp h₄
  obtain ⟨nChainIndex, m₆, hci, h₆⟩ := run_bind_eq_some.mp h₅
  obtain ⟨parentBlock, m₇, hp, hpure⟩ := run_bind_eq_some.mp h₆
  rw [run_pure] at hpure
  simp only [Option.some.injEq, Prod.mk.injEq] at hpure
  obtain ⟨⟨rfl, rfl⟩, rfl⟩ := hpure
  obtain ⟨hp_range, rfl⟩ := readPureHeader_accepts hp
  refine ⟨hp_range, fun hf => ?_⟩
  subst hf
  rw [unserializeTransaction_noWitness_accepts htx, readUint256_accepts _ _ _ hhb,
    readBranch_accepts _ _ _ hmb, (readInt32_accepts hi).2, readBranch_accepts _ _ _ hcb,
    (readInt32_accepts hci).2]
  simp only [serializeAuxPow, List.append_assoc]

/-! ### Headers and blocks -/

/-- `CBlockHeader`: the pure header and the auxpow its `std::shared_ptr<CAuxPow>` points to, if
any, with the `hashBlock` of its `CMerkleTx` part. -/
structure CBlockHeader extends CPureBlockHeader where
  auxpow : Option (CAuxPow × Uint256)

/-- `CBlockHeader::SerializationOp` writing: the pure header, then the auxpow when the version
has the auxpow bit.  With the bit set and no auxpow, `assert(auxpow)` fails (`none`). -/
def serializeBlockHeader (fAllowWitness : Bool) (h : CBlockHeader) : Option (List UInt8) :=
  if h.IsAuxpow then
    match h.auxpow with
    | some p => some (serializePureHeader h.toCPureBlockHeader ++ serializeAuxPow fAllowWitness p.1 p.2)
    | none => none
  else some (serializePureHeader h.toCPureBlockHeader)

/-- `CBlockHeader::SerializationOp` reading: the pure header, then, when the version has the
auxpow bit, an auxpow into a new `CAuxPow`; without the bit the pointer is reset. -/
def readBlockHeader (fAllowWitness : Bool) : Reader UInt8 CBlockHeader := do
  let hdr ← readPureHeader
  if hdr.IsAuxpow then do
    let auxpow ← readAuxPow fAllowWitness
    pure { hdr with auxpow := some auxpow }
  else pure { hdr with auxpow := none }

/-- `CBlock::SerializationOp` writing: the header, then `vtx`. -/
def serializeBlock (fAllowWitness : Bool) (h : CBlockHeader) (vtx : List CTransaction) :
    Option (List UInt8) := do
  let header ← serializeBlockHeader fAllowWitness h
  pure (header ++ writeVector (serializeTransaction fAllowWitness) vtx)

def readBlock (fAllowWitness : Bool) : Reader UInt8 (CBlockHeader × List CTransaction) := do
  let header ← readBlockHeader fAllowWitness
  let vtx ← readVector (unserializeTransaction fAllowWitness)
  pure (header, vtx)

/-- What a stream carries of a header: the auxpow only when the version has the auxpow bit,
with its coinbase as the stream carries transactions. -/
def CBlockHeader.streamed (fAllowWitness : Bool) (h : CBlockHeader) : CBlockHeader :=
  { h with
    auxpow := if h.IsAuxpow then h.auxpow.map fun p => (p.1.streamed fAllowWitness, p.2) else none }

/-- A header a stream reads back: its fields in range, and its auxpow, when the version has the
bit, one that the stream reads back. -/
def CBlockHeader.Streamable (fAllowWitness : Bool) (h : CBlockHeader) : Prop :=
  h.InRange ∧ (h.IsAuxpow = true → ∀ p ∈ h.auxpow, p.1.Streamable fAllowWitness)

instance (fAllowWitness : Bool) : DecidablePred (CBlockHeader.Streamable fAllowWitness) := fun _ =>
  inferInstanceAs (Decidable (_ ∧ _))

theorem reads_readBlockHeader {fAllowWitness : Bool} {h : CBlockHeader} {w : List UInt8}
    (hs : h.Streamable fAllowWitness) (hw : serializeBlockHeader fAllowWitness h = some w) :
    Reads (readBlockHeader fAllowWitness) w (h.streamed fAllowWitness) := by
  obtain ⟨hr, ha⟩ := hs
  unfold serializeBlockHeader at hw
  cases hbit : h.IsAuxpow with
  | false =>
    -- the pure header alone, and the pointer reset
    rw [if_neg (by simp [hbit])] at hw
    cases hw
    refine ((reads_readPureHeader hr).bind_nil ?_)
    rw [if_neg (by simp [hbit])]
    exact (Reads.pure _).congr rfl (by simp [CBlockHeader.streamed, hbit])
  | true =>
    rw [if_pos hbit] at hw
    cases hp : h.auxpow with
    | none => rw [hp] at hw; cases hw
    | some p =>
      -- the pure header, then the auxpow
      rw [hp] at hw
      cases hw
      refine (reads_readPureHeader hr).bind ?_
      rw [if_pos hbit]
      refine (reads_readAuxPow p.2 (ha hbit p (by simp [hp]))).bind_pure ?_
      simp [CBlockHeader.streamed, hbit, hp]

/-- **Round trip of blocks.**  Writing a header whose version has the auxpow bit and which has no
auxpow fails `assert(auxpow)`.  Otherwise a block whose header and transactions are in the ranges
of their C++ types, with at most `MAX_SIZE` transactions each with an input, is written, and
reading what was written, followed by any bytes, gives back its header and transactions and
leaves the bytes that follow: the header keeps its auxpow exactly when its version has the bit,
and in a stream without witnesses every transaction, the auxpow's coinbase included, comes back
without its witnesses. -/
theorem reads_readBlock (fAllowWitness : Bool) (h : CBlockHeader) (vtx : List CTransaction)
    (hh : h.Streamable fAllowWitness) (hn : vtx.length ≤ MAX_SIZE)
    (htx : ∀ tx ∈ vtx, tx.Streamable fAllowWitness) :
    (h.IsAuxpow = true → h.auxpow = none → serializeBlock fAllowWitness h vtx = none) ∧
    ((h.IsAuxpow = true → h.auxpow ≠ none) →
      ∃ w, serializeBlock fAllowWitness h vtx = some w ∧ ∀ rest,
        (readBlock fAllowWitness).run (w ++ rest) =
          some ((h.streamed fAllowWitness, vtx.map (CTransaction.streamed fAllowWitness)), rest)) := by
  have hvtx : Reads (readVector (unserializeTransaction fAllowWitness))
      (writeVector (serializeTransaction fAllowWitness) vtx)
      (vtx.map (CTransaction.streamed fAllowWitness)) :=
    reads_readVector _ _ hn fun tx hx => reads_unserializeTransaction_streamed (htx tx hx)
  refine ⟨fun hbit hnone => ?_, fun hsome => ?_⟩
  · simp [serializeBlock, serializeBlockHeader, hbit, hnone]
  · -- the header is written, and reads back before the transactions
    obtain ⟨w, hw⟩ : ∃ w, serializeBlockHeader fAllowWitness h = some w := by
      unfold serializeBlockHeader
      cases hbit : h.IsAuxpow with
      | false => exact ⟨_, if_neg (by simp)⟩
      | true =>
        obtain ⟨p, hp⟩ := Option.ne_none_iff_exists'.mp (hsome hbit)
        exact ⟨_, by rw [if_pos rfl, hp]⟩
    refine ⟨w ++ writeVector (serializeTransaction fAllowWitness) vtx,
      by simp [serializeBlock, hw], fun rest => ?_⟩
    exact ((reads_readBlockHeader hh hw).bind (hvtx.bind_pure rfl)) rest

/-- A merge-mined header, whose coinbase is the block's one transaction, reads back whole from a
stream with witnesses. -/
theorem reads_readBlock_merged :
    let coinbase : CTransaction := { vin := [{}] }
    let auxpow : CAuxPow :=
      { tx := coinbase, vMerkleBranch := [], nIndex := 0,
        vChainMerkleBranch := [], nChainIndex := 0, parentBlock := default }
    let h : CBlockHeader :=
      { (default : CPureBlockHeader) with nVersion := VERSION_AUXPOW, auxpow := some (auxpow, default) }
    ∃ w, serializeBlock true h [coinbase] = some w ∧ ∀ rest,
      (readBlock true).run (w ++ rest) = some ((h, [coinbase]), rest) :=
  (reads_readBlock true _ _ (by decide) (by decide) (by decide)).2 (by decide)

theorem readBlockHeader_accepts {fAllowWitness : Bool} {s rest : List UInt8} {h : CBlockHeader}
    (hrun : (readBlockHeader fAllowWitness).run s = some (h, rest)) :
    h.auxpow.isSome = h.IsAuxpow ∧ h.InRange ∧ ∃ w, serializeBlockHeader fAllowWitness h = some w ∧
      (fAllowWitness = false → s = w ++ rest) := by
  obtain ⟨hdr, mid, hhdr, hbody⟩ := run_bind_eq_some.mp hrun
  obtain ⟨hr, rfl⟩ := readPureHeader_accepts hhdr
  cases hbit : hdr.IsAuxpow with
  | false =>
    -- no auxpow follows, and the pointer is reset
    rw [if_neg (by simp [hbit]), run_pure] at hbody
    simp only [Option.some.injEq, Prod.mk.injEq] at hbody
    obtain ⟨rfl, rfl⟩ := hbody
    refine ⟨by simp [hbit], hr, _, if_neg (by simp [hbit]), fun _ => rfl⟩
  | true =>
    -- the auxpow follows the pure header
    rw [if_pos hbit] at hbody
    obtain ⟨⟨a, hashBlock⟩, mid', ha, hpure⟩ := run_bind_eq_some.mp hbody
    rw [run_pure] at hpure
    simp only [Option.some.injEq, Prod.mk.injEq] at hpure
    obtain ⟨rfl, rfl⟩ := hpure
    refine ⟨by simp [hbit], hr, serializePureHeader hdr ++ serializeAuxPow fAllowWitness a hashBlock,
      by simp [serializeBlockHeader, hbit], fun hf => ?_⟩
    rw [(readAuxPow_accepts ha).2 hf, hf, List.append_assoc]

end Trumpow
