import Trumpow.Script.Standard
import Trumpow.Support.ByteBits

/-!
# Net — `CBloomFilter`

`bloom.cpp`, with `MurmurHash3` of `hash.cpp`.  A filter is a byte array `vData` read as bits,
`nHashFuncs` hash functions `Hash(i, key)` (MurmurHash3 seeded with `i * 0xFBA4C795 + nTweak`,
reduced modulo the number of bits), the update flags `nFlags`, and two flags that short-cut the
common cases: `isFull` (every bit set: every key matches, nothing to insert) and `isEmpty` (no bit
set: no key matches).  `insert` sets the key's bits, `contains` tests them, `UpdateEmptyFull`
computes the two flags from the bytes.  `IsRelevantAndUpdate` decides whether a transaction
concerns the filter — its id, a data push of an output script, the outpoint an input spends, a
data push of an input script — and, by the flags, adds the outpoints of the matched outputs.

The transaction id (`GetHash`) is a parameter.

* `contains_eq`, `insert_eq`: `contains` and `insert` are the bit operations of `ByteBits` at the
  key's indices `hashIndices`, behind the two flags.
* `contains_insert_of_contains`, `contains_IsRelevantAndUpdate_of_contains`: inserting and
  updating never drop a key the filter contains.
* `FlagsSound`: `isFull` and `isEmpty` tell the truth about the bytes; `UpdateEmptyFull` makes
  them so and `insert` keeps them so.
-/

namespace Trumpow

open Codec

/-! ### `MurmurHash3` -/

/-- `ROTL32(x, r)`. -/
def ROTL32 (x r : UInt32) : UInt32 := (x <<< r) ||| (x >>> (32 - r))

def MurmurHash3.c1 : UInt32 := 0xcc9e2d51
def MurmurHash3.c2 : UInt32 := 0x1b873593

/-- One turn of the body loop: the block `k1` mixed into `h1`. -/
def MurmurHash3.block (h1 k1 : UInt32) : UInt32 :=
  let k1 := k1 * c1
  let k1 := ROTL32 k1 15
  let k1 := k1 * c2
  let h1 := h1 ^^^ k1
  let h1 := ROTL32 h1 13
  h1 * 5 + 0xe6546b64

/-- The body: the four-byte blocks in order, each read little-endian; `h1` after them, and the
tail of fewer than four bytes. -/
def MurmurHash3.body (h1 : UInt32) : List UInt8 → UInt32 × List UInt8
  | b0 :: b1 :: b2 :: b3 :: rest => body (block h1 (UInt32.ofNat (readLE32 [b0, b1, b2, b3]))) rest
  | tail => (h1, tail)

/-- The `switch` on `size & 3` over the tail, whose cases fall through. -/
def MurmurHash3.tail (h1 : UInt32) (n : Nat) (tail : List UInt8) : UInt32 :=
  let k1 : UInt32 := 0
  let k1 := if n = 3 then k1 ^^^ ((tail.getD 2 0).toUInt32 <<< 16) else k1
  let k1 := if 2 ≤ n ∧ n ≤ 3 then k1 ^^^ ((tail.getD 1 0).toUInt32 <<< 8) else k1
  if 1 ≤ n ∧ n ≤ 3 then
    let k1 := k1 ^^^ (tail.getD 0 0).toUInt32
    let k1 := k1 * c1
    let k1 := ROTL32 k1 15
    let k1 := k1 * c2
    h1 ^^^ k1
  else h1

/-- `MurmurHash3(nHashSeed, vDataToHash)`, the x86 32-bit MurmurHash3. -/
def MurmurHash3 (nHashSeed : UInt32) (vDataToHash : List UInt8) : UInt32 :=
  let h1 :=
    if vDataToHash.length > 0 then
      let (h1, tail) := MurmurHash3.body nHashSeed vDataToHash
      MurmurHash3.tail h1 (vDataToHash.length &&& 3) tail
    else nHashSeed
  -- finalization
  let h1 := h1 ^^^ UInt32.ofNat vDataToHash.length
  let h1 := h1 ^^^ (h1 >>> 16)
  let h1 := h1 * 0x85ebca6b
  let h1 := h1 ^^^ (h1 >>> 13)
  let h1 := h1 * 0xc2b2ae35
  h1 ^^^ (h1 >>> 16)

example : MurmurHash3 0xFBA4C795 [] = 0x6a396f08 := by decide
example : MurmurHash3 0 [0x00, 0x11, 0x22] = 0x8eb51c3d := by decide
example : MurmurHash3 0 [0x00, 0x11, 0x22, 0x33, 0x44, 0x55, 0x66, 0x77, 0x88] = 0xb4698def := by
  decide

/-! ### The filter -/

def MAX_BLOOM_FILTER_SIZE : Nat := 36000
def MAX_HASH_FUNCS : Nat := 50

def BLOOM_UPDATE_NONE : UInt8 := 0
def BLOOM_UPDATE_ALL : UInt8 := 1
def BLOOM_UPDATE_P2PUBKEY_ONLY : UInt8 := 2
def BLOOM_UPDATE_MASK : UInt8 := 3

/-- `CBloomFilter`; the defaults are those of `CBloomFilter()`, a filter that matches
everything. -/
structure CBloomFilter where
  vData : List UInt8 := []
  isFull : Bool := true
  isEmpty : Bool := false
  nHashFuncs : UInt32 := 0
  nTweak : UInt32 := 0
  nFlags : UInt8 := 0
deriving DecidableEq

namespace CBloomFilter

/-- `Hash(nHashNum, vDataToHash)`: a bit index of the filter. -/
def Hash (f : CBloomFilter) (nHashNum : UInt32) (vDataToHash : List UInt8) : Nat :=
  -- 0xFBA4C795 chosen as it guarantees a reasonable bit difference between nHashNum values.
  (MurmurHash3 (nHashNum * 0xFBA4C795 + f.nTweak) vDataToHash).toNat % (f.vData.length * 8)

/-- `insert(vKey)`. -/
def insert (f : CBloomFilter) (vKey : List UInt8) : CBloomFilter :=
  if f.isFull then f
  else
    { f with
      vData := (List.range f.nHashFuncs.toNat).foldl
        (fun vData i =>
          let nIndex := f.Hash (UInt32.ofNat i) vKey
          -- Sets bit nIndex of vData
          vData.set (nIndex >>> 3) (vData.getD (nIndex >>> 3) 0 ||| 1 <<< UInt8.ofNat (7 &&& nIndex)))
        f.vData
      isEmpty := false }

/-- `contains(vKey)`. -/
def contains (f : CBloomFilter) (vKey : List UInt8) : Bool :=
  if f.isFull then true
  else if f.isEmpty then false
  else
    (List.range f.nHashFuncs.toNat).all fun i =>
      let nIndex := f.Hash (UInt32.ofNat i) vKey
      -- Checks bit nIndex of vData
      f.vData.getD (nIndex >>> 3) 0 &&& 1 <<< UInt8.ofNat (7 &&& nIndex) != 0

/-- `clear()`. -/
def clear (f : CBloomFilter) : CBloomFilter :=
  { f with vData := List.replicate f.vData.length 0, isFull := false, isEmpty := true }

/-- `reset(nNewTweak)`. -/
def reset (f : CBloomFilter) (nNewTweak : UInt32) : CBloomFilter :=
  { f.clear with nTweak := nNewTweak }

/-- `IsWithinSizeConstraints()`. -/
def IsWithinSizeConstraints (f : CBloomFilter) : Bool :=
  f.vData.length ≤ MAX_BLOOM_FILTER_SIZE && f.nHashFuncs.toNat ≤ MAX_HASH_FUNCS

/-- `UpdateEmptyFull()`. -/
def UpdateEmptyFull (f : CBloomFilter) : CBloomFilter :=
  { f with isFull := f.vData.all (· == 0xff), isEmpty := f.vData.all (· == 0) }

/-! ### `insert` and `contains` as bit operations -/

/-- The bit indices of `vKey`: `Hash(i, vKey)` for each of the `nHashFuncs` hash functions. -/
def hashIndices (f : CBloomFilter) (vKey : List UInt8) : List Nat :=
  (List.range f.nHashFuncs.toNat).map fun i => f.Hash (UInt32.ofNat i) vKey

variable {f : CBloomFilter} {vKey : List UInt8}

theorem insert_eq (f : CBloomFilter) (vKey : List UInt8) :
    f.insert vKey =
      if f.isFull then f
      else { f with vData := (f.hashIndices vKey).foldl ByteBits.set f.vData, isEmpty := false } := by
  simp only [insert, hashIndices, List.foldl_map, ByteBits.set_eq_shift]

theorem contains_eq (f : CBloomFilter) (vKey : List UInt8) :
    f.contains vKey =
      if f.isFull then true
      else if f.isEmpty then false
      else (f.hashIndices vKey).all (ByteBits.test f.vData) := by
  simp only [contains, hashIndices, List.all_map, Function.comp_def, ByteBits.test_eq_shift]

theorem insert_of_isFull (h : f.isFull = true) : f.insert vKey = f := by
  rw [insert_eq, if_pos h]

theorem vData_insert (h : f.isFull = false) :
    (f.insert vKey).vData = (f.hashIndices vKey).foldl ByteBits.set f.vData := by
  rw [insert_eq, if_neg (by simp [h])]

theorem isEmpty_insert (h : f.isFull = false) : (f.insert vKey).isEmpty = false := by
  rw [insert_eq, if_neg (by simp [h])]

@[simp] theorem isFull_insert : (f.insert vKey).isFull = f.isFull := by
  rw [insert_eq]; split <;> rfl

@[simp] theorem nHashFuncs_insert : (f.insert vKey).nHashFuncs = f.nHashFuncs := by
  rw [insert_eq]; split <;> rfl

@[simp] theorem nTweak_insert : (f.insert vKey).nTweak = f.nTweak := by
  rw [insert_eq]; split <;> rfl

@[simp] theorem nFlags_insert : (f.insert vKey).nFlags = f.nFlags := by
  rw [insert_eq]; split <;> rfl

@[simp] theorem length_vData_insert : (f.insert vKey).vData.length = f.vData.length := by
  rw [insert_eq]; split <;> simp

/-- The indices depend on the filter through its size, its number of hash functions and its
tweak only, which `insert` keeps. -/
@[simp] theorem hashIndices_insert : (f.insert vKey).hashIndices = f.hashIndices := by
  funext k
  simp only [hashIndices, Hash, nHashFuncs_insert, nTweak_insert, length_vData_insert]

/-- A filter that is neither full nor empty tests the key's bits. -/
theorem contains_of_not_isFull (hfull : f.isFull = false) (hempty : f.isEmpty = false) :
    f.contains vKey = (f.hashIndices vKey).all (ByteBits.test f.vData) := by
  rw [contains_eq, if_neg (by simp [hfull]), if_neg (by simp [hempty])]

/-- Every index `Hash` gives is inside the array, whenever the array has bytes: `insert` and
`contains` never read or write past `vData`. -/
theorem div_eight_lt_of_mem_hashIndices (hne : f.vData ≠ []) {n : Nat}
    (hn : n ∈ f.hashIndices vKey) : n / 8 < f.vData.length := by
  obtain ⟨i, -, rfl⟩ := List.mem_map.mp hn
  have hpos : 0 < f.vData.length * 8 := by
    have := List.length_pos_of_ne_nil hne
    omega
  have hlt : f.Hash (UInt32.ofNat i) vKey < f.vData.length * 8 := Nat.mod_lt _ hpos
  omega

/-- Inserting never drops a key. -/
theorem contains_insert_of_contains {k : List UInt8} (h : f.contains k = true) (vKey : List UInt8) :
    (f.insert vKey).contains k = true := by
  cases hfull : f.isFull with
  | true => rwa [insert_of_isFull hfull]
  | false =>
    cases hempty : f.isEmpty with
    | true => rw [contains_eq, hfull, hempty] at h; cases h
    | false =>
      rw [contains_of_not_isFull hfull hempty] at h
      rw [contains_of_not_isFull (by simpa using hfull) (isEmpty_insert hfull), hashIndices_insert,
        vData_insert hfull, List.all_eq_true]
      intro n hn
      exact ByteBits.test_foldl_set_of_test (List.all_eq_true.mp h n hn) _
  
/-- A filter that has bytes unless it is full contains what was inserted into it. -/
theorem contains_insert_self (hne : f.isFull = false → f.vData ≠ []) (vKey : List UInt8) :
    (f.insert vKey).contains vKey = true := by
  cases hfull : f.isFull with
  | true => rw [insert_of_isFull hfull, contains_eq, if_pos hfull]
  | false =>
    rw [contains_of_not_isFull (by simpa using hfull) (isEmpty_insert hfull), hashIndices_insert,
      vData_insert hfull, List.all_eq_true]
    intro n hn
    rw [ByteBits.test_foldl_set]
    simp [hn, div_eight_lt_of_mem_hashIndices (hne hfull) hn]

/-! ### The invariant of a filter in use -/

/-- What a peer's filter keeps: the two flags tell the truth about the bytes, a filter that is
not full has bytes (so `Hash` never reduces modulo zero), and the sizes are within the limits. -/
structure Sound (f : CBloomFilter) : Prop where
  full : f.isFull = true → ∀ b ∈ f.vData, b = 0xff
  empty : f.isEmpty = true → ∀ b ∈ f.vData, b = 0
  nonempty : f.isFull = false → f.vData ≠ []
  size : f.IsWithinSizeConstraints = true

theorem sound_default : ({} : CBloomFilter).Sound where
  full _ := by simp
  empty h := by cases h
  nonempty h := by cases h
  size := by decide

/-- `UpdateEmptyFull` makes the flags tell the truth. -/
theorem sound_UpdateEmptyFull (h : f.IsWithinSizeConstraints = true) : f.UpdateEmptyFull.Sound where
  full hfull := by simpa [UpdateEmptyFull] using hfull
  empty hempty := by simpa [UpdateEmptyFull] using hempty
  nonempty hfull hnil := by
    simp only [UpdateEmptyFull] at hfull hnil
    simp [hnil] at hfull
  size := h

theorem Sound.insert (hs : f.Sound) (vKey : List UInt8) : (f.insert vKey).Sound := by
  cases hfull : f.isFull with
  | true => rwa [insert_of_isFull hfull]
  | false =>
    refine ⟨?_, ?_, ?_, ?_⟩
    · simp [hfull]
    · simp [isEmpty_insert hfull]
    · intro _ hnil
      exact hs.nonempty hfull (List.eq_nil_of_length_eq_zero (by simpa using congrArg List.length hnil))
    · simpa [IsWithinSizeConstraints] using hs.size

theorem hashIndices_ne_nil (hn : 0 < f.nHashFuncs.toNat) (vKey : List UInt8) :
    f.hashIndices vKey ≠ [] := by
  simp only [hashIndices, ne_eq, List.map_eq_nil_iff, List.range_eq_nil]
  omega

/-- With flags that tell the truth, `contains` and `insert` are the plain operations on the key's
bits: the two flags only save the work.  This needs bytes and a hash function: a filter without
bytes matches every key, and one without hash functions and with no bit set matches none. -/
theorem contains_insert_eq_plain (hs : f.Sound) (hne : f.vData ≠ []) (hn : 0 < f.nHashFuncs.toNat)
    (vKey : List UInt8) :
    f.contains vKey = (f.hashIndices vKey).all (ByteBits.test f.vData) ∧
      (f.insert vKey).vData = (f.hashIndices vKey).foldl ByteBits.set f.vData := by
  cases hfull : f.isFull with
  | true =>
    -- every byte is 0xff: every bit is set, and setting one changes nothing
    have hff := hs.full hfull
    refine ⟨?_, ?_⟩
    · rw [contains_eq, if_pos hfull, eq_comm, List.all_eq_true]
      intro n hn'
      exact ByteBits.test_of_forall_eq_ff hff (div_eight_lt_of_mem_hashIndices hne hn')
    · rw [insert_of_isFull hfull, ByteBits.foldl_set_of_forall_eq_ff hff]
  | false =>
    refine ⟨?_, vData_insert hfull⟩
    cases hempty : f.isEmpty with
    | false => exact contains_of_not_isFull hfull hempty
    | true =>
      -- no bit is set, and the key has at least one index
      have hzero := hs.empty hempty
      obtain ⟨n, hn'⟩ := List.exists_mem_of_ne_nil _ (hashIndices_ne_nil hn vKey)
      rw [contains_eq, if_neg (by simp [hfull]), if_pos hempty, eq_comm, List.all_eq_false]
      exact ⟨n, hn', by simp [ByteBits.test_of_forall_eq_zero hzero]⟩

theorem contains_insert_eq_plain_zero :
    let f := ({ vData := [0], nHashFuncs := 1 } : CBloomFilter).UpdateEmptyFull
    f.Sound ∧ f.vData ≠ [] ∧ 0 < f.nHashFuncs.toNat ∧
      (f.contains [] = (f.hashIndices []).all (ByteBits.test f.vData) ∧
        (f.insert []).vData = (f.hashIndices []).foldl ByteBits.set f.vData) :=
  have hs := sound_UpdateEmptyFull (f := { vData := [0], nHashFuncs := 1 }) (by decide)
  ⟨hs, by decide, by decide, contains_insert_eq_plain hs (by decide) (by decide) []⟩

end CBloomFilter

/-- `CBloomFilter::SerializationOp`: `vData`, `nHashFuncs`, `nTweak`, `nFlags`. -/
def serializeBloomFilter (f : CBloomFilter) : List UInt8 :=
  writeBytes f.vData ++ writeLE 4 f.nHashFuncs.toNat ++ writeLE 4 f.nTweak.toNat ++ [f.nFlags]

/-- `vRecv >> filter` into a `CBloomFilter()`: the four fields are read, the two flags keep the
defaults. -/
def readBloomFilter : Reader UInt8 CBloomFilter := do
  let vData ← readBytes
  let nHashFuncs ← readData 4
  let nTweak ← readData 4
  let nFlags ← readData 1
  pure { vData, nHashFuncs := UInt32.ofNat nHashFuncs, nTweak := UInt32.ofNat nTweak,
         nFlags := UInt8.ofNat nFlags }

/-- A filter is read back from its serialization, with the flags of `CBloomFilter()`. -/
theorem reads_readBloomFilter {f : CBloomFilter} (hb : f.vData.length ≤ MAX_SIZE) :
    Reads readBloomFilter (serializeBloomFilter f) { f with isFull := true, isEmpty := false } := by
  have hflags : writeLE 1 f.nFlags.toNat = [f.nFlags] := by simp [writeLE]
  have h32 : ∀ x : UInt32, x.toNat < 256 ^ 4 := fun x => by simpa using x.toNat_lt
  have h8 : f.nFlags.toNat < 256 ^ 1 := by simpa using f.nFlags.toNat_lt
  simp only [serializeBloomFilter, List.append_assoc, ← hflags]
  exact (reads_readBytes hb).bind <| (reads_readData (h32 _)).bind <| (reads_readData (h32 _)).bind <|
    (reads_readData h8).bind_pure (by simp)

/-! ### `IsRelevantAndUpdate` -/

namespace CBloomFilter

/-- The scan of a script in `IsRelevantAndUpdate`: a push of nonempty data that the filter
contains, before the first op `GetOp` cannot read. -/
def matchesPush (f : CBloomFilter) (pc : List UInt8) : Bool :=
  if pc = [] then false
  else
    match h : GetOp pc with
    | (none, _) => false
    | (some (_, data), pc') => if data ≠ [] ∧ f.contains data then true else f.matchesPush pc'
termination_by pc.length
decreasing_by exact GetOp_length_lt h

/-- What a matched output adds to the filter: its outpoint, with `BLOOM_UPDATE_ALL`, or with
`BLOOM_UPDATE_P2PUBKEY_ONLY` when the output pays to a public key or to a multisig script. -/
def updateMatched (f : CBloomFilter) (outpoint : COutPoint) (scriptPubKey : List UInt8) :
    CBloomFilter :=
  if f.nFlags &&& BLOOM_UPDATE_MASK = BLOOM_UPDATE_ALL then f.insert (serializeOutPoint outpoint)
  else if f.nFlags &&& BLOOM_UPDATE_MASK = BLOOM_UPDATE_P2PUBKEY_ONLY then
    match Solver scriptPubKey with
    | some (type, _) =>
      if type = .TX_PUBKEY ∨ type = .TX_MULTISIG then f.insert (serializeOutPoint outpoint) else f
    | none => f
  else f

/-- The loop over the outputs from output `i`: a matched output sets `fFound` and is added by the
flags. -/
def updateOutputs (hash : Uint256) : CBloomFilter → Nat → List CTxOut → Bool → CBloomFilter × Bool
  | f, _, [], fFound => (f, fFound)
  | f, i, txout :: vout, fFound =>
    if f.matchesPush txout.scriptPubKey then
      updateOutputs hash (f.updateMatched ⟨hash, i⟩ txout.scriptPubKey) (i + 1) vout true
    else updateOutputs hash f (i + 1) vout fFound

/-- The loop over the inputs: the outpoint an input spends, or a push of its script. -/
def matchesInputs (f : CBloomFilter) : List CTxIn → Bool
  | [] => false
  | txin :: vin =>
    -- Match if the filter contains an outpoint tx spends
    f.contains (serializeOutPoint txin.prevout) ||
      -- Match if the filter contains any arbitrary script data element in any scriptSig in tx
      f.matchesPush txin.scriptSig || f.matchesInputs vin

variable (GetHash : CTransaction → Uint256)

/-- `IsRelevantAndUpdate(tx)`: whether `tx` concerns the filter, and the filter after it. -/
def IsRelevantAndUpdate (f : CBloomFilter) (tx : CTransaction) : Bool × CBloomFilter :=
  if f.isFull then (true, f)
  else if f.isEmpty then (false, f)
  else
    let hash := GetHash tx
    -- Match if the filter contains the hash of tx
    let fFound := f.contains hash.data
    match updateOutputs hash f 0 tx.vout fFound with
    | (f, fFound) => if fFound then (true, f) else (f.matchesInputs tx.vin, f)

/-! ### What `IsRelevantAndUpdate` reads and what it adds -/

/-- The data pushed by the ops `GetOp` reads from `pc`, up to the first it cannot read: what the
scans of `IsRelevantAndUpdate` look at. -/
def pushedData (pc : List UInt8) : List valtype :=
  if pc = [] then []
  else
    match h : GetOp pc with
    | (none, _) => []
    | (some (_, data), pc') => data :: pushedData pc'
termination_by pc.length
decreasing_by exact GetOp_length_lt h

variable {f : CBloomFilter}

theorem pushedData_of_some {pc pc' : List UInt8} {op : UInt8} {data : valtype}
    (h : GetOp pc = (some (op, data), pc')) : pushedData pc = data :: pushedData pc' := by
  rw [pushedData, if_neg (ne_nil_of_GetOp h)]
  split <;> simp_all

theorem matchesPush_of_some {pc pc' : List UInt8} {op : UInt8} {data : valtype}
    (h : GetOp pc = (some (op, data), pc')) :
    f.matchesPush pc = if data ≠ [] ∧ f.contains data = true then true else f.matchesPush pc' := by
  rw [matchesPush, if_neg (ne_nil_of_GetOp h)]
  split <;> simp_all

/-- The scan finds a nonempty push that the filter contains. -/
theorem matchesPush_eq (f : CBloomFilter) (pc : List UInt8) :
    f.matchesPush pc = (pushedData pc).any fun data => data != [] && f.contains data := by
  by_cases hpc : pc = []
  · subst hpc
    rw [matchesPush, pushedData, if_pos rfl, if_pos rfl, List.any_nil]
  · rcases hop : GetOp pc with ⟨_ | ⟨op, data⟩, pc'⟩
    · -- the read fails: neither scan goes on
      rw [matchesPush, pushedData, if_neg hpc, if_neg hpc]
      split <;> simp_all
    · rw [matchesPush_of_some hop, pushedData_of_some hop, List.any_cons, ← matchesPush_eq f pc']
      by_cases hm : data ≠ [] ∧ f.contains data = true
      · rw [if_pos hm]
        simp [hm.1, hm.2]
      · rw [if_neg hm]
        simp only [ne_eq, not_and, Bool.not_eq_true] at hm
        by_cases hd : data = [] <;> simp [hd, hm]
termination_by pc.length
decreasing_by exact GetOp_length_lt hop

/-- A filter that contains more keys matches more scripts. -/
theorem matchesPush_mono {g : CBloomFilter} (hfg : ∀ k, f.contains k = true → g.contains k = true)
    {pc : List UInt8} (h : f.matchesPush pc = true) : g.matchesPush pc = true := by
  rw [matchesPush_eq, List.any_eq_true] at h ⊢
  obtain ⟨data, hmem, hm⟩ := h
  simp only [Bool.and_eq_true] at hm
  exact ⟨data, hmem, by simp [hm.1, hfg _ hm.2]⟩

/-- A script matches only a filter that contains some key. -/
theorem exists_contains_of_matchesPush {pc : List UInt8} (h : f.matchesPush pc = true) :
    ∃ k, f.contains k = true := by
  rw [matchesPush_eq, List.any_eq_true] at h
  obtain ⟨data, -, hm⟩ := h
  exact ⟨data, (Bool.and_eq_true _ _ |>.mp hm).2⟩

/-- A matched output adds nothing, or its outpoint. -/
theorem updateMatched_cases (f : CBloomFilter) (outpoint : COutPoint) (scriptPubKey : List UInt8) :
    f.updateMatched outpoint scriptPubKey = f ∨
      f.updateMatched outpoint scriptPubKey = f.insert (serializeOutPoint outpoint) := by
  unfold updateMatched
  split_ifs
  · exact .inr rfl
  · split
    · split_ifs
      · exact .inr rfl
      · exact .inl rfl
    · exact .inl rfl
  · exact .inl rfl

theorem updateMatched_of_all (hall : f.nFlags &&& BLOOM_UPDATE_MASK = BLOOM_UPDATE_ALL)
    (outpoint : COutPoint) (scriptPubKey : List UInt8) :
    f.updateMatched outpoint scriptPubKey = f.insert (serializeOutPoint outpoint) := by
  rw [updateMatched, if_pos hall]

/-- `IsRelevantAndUpdate` on a filter that is neither full nor empty: the loop over the outputs
from the transaction's own match, then the inputs if nothing matched. -/
theorem IsRelevantAndUpdate_eq (hfull : f.isFull = false) (hempty : f.isEmpty = false)
    (tx : CTransaction) :
    f.IsRelevantAndUpdate GetHash tx =
      ((updateOutputs (GetHash tx) f 0 tx.vout (f.contains (GetHash tx).data)).2 ||
        (updateOutputs (GetHash tx) f 0 tx.vout (f.contains (GetHash tx).data)).1.matchesInputs
          tx.vin,
       (updateOutputs (GetHash tx) f 0 tx.vout (f.contains (GetHash tx).data)).1) := by
  rw [IsRelevantAndUpdate, if_neg (by simp [hfull]), if_neg (by simp [hempty])]
  dsimp only
  split <;> simp_all

theorem IsRelevantAndUpdate_of_isFull (h : f.isFull = true) (tx : CTransaction) :
    f.IsRelevantAndUpdate GetHash tx = (true, f) := by
  rw [IsRelevantAndUpdate, if_pos h]

theorem IsRelevantAndUpdate_of_isEmpty (hfull : f.isFull = false) (h : f.isEmpty = true)
    (tx : CTransaction) : f.IsRelevantAndUpdate GetHash tx = (false, f) := by
  rw [IsRelevantAndUpdate, if_neg (by simp [hfull]), if_pos h]


section Closed

/-! What `insert` keeps, the updates keep: they only insert. -/

variable {P : CBloomFilter → Prop} (hP : ∀ f vKey, P f → P (f.insert vKey))
include hP

theorem updateMatched_closed (h : P f) (outpoint : COutPoint) (scriptPubKey : List UInt8) :
    P (f.updateMatched outpoint scriptPubKey) := by
  rcases updateMatched_cases f outpoint scriptPubKey with he | he <;> rw [he]
  · exact h
  · exact hP _ _ h

theorem updateOutputs_closed (hash : Uint256) (h : P f) (i : Nat) (vout : List CTxOut)
    (fFound : Bool) : P (updateOutputs hash f i vout fFound).1 := by
  induction vout generalizing f i fFound with
  | nil => exact h
  | cons txout vout ih =>
    rw [updateOutputs]
    split
    · exact ih (updateMatched_closed hP h _ _) _ _
    · exact ih h _ _

theorem IsRelevantAndUpdate_closed (h : P f) (tx : CTransaction) :
    P (f.IsRelevantAndUpdate GetHash tx).2 := by
  cases hfull : f.isFull with
  | true => rwa [IsRelevantAndUpdate_of_isFull GetHash hfull]
  | false =>
    cases hempty : f.isEmpty with
    | true => rwa [IsRelevantAndUpdate_of_isEmpty GetHash hfull hempty]
    | false =>
      rw [IsRelevantAndUpdate_eq GetHash hfull hempty]
      exact updateOutputs_closed hP _ h _ _ _

end Closed

theorem contains_updateOutputs_of_contains (hash : Uint256) {k : List UInt8}
    (h : f.contains k = true) (i : Nat) (vout : List CTxOut) (fFound : Bool) :
    (updateOutputs hash f i vout fFound).1.contains k = true :=
  updateOutputs_closed (P := fun g => g.contains k = true)
    (fun _ vKey hg => contains_insert_of_contains hg vKey) hash h i vout fFound

/-- With `BLOOM_UPDATE_ALL`, the loop over the outputs adds the outpoint of every output that
matched: output `k` of the transaction, counting from `i`. -/
theorem contains_updateOutputs_of_matched (hash : Uint256) (hs : f.Sound)
    (hall : f.nFlags &&& BLOOM_UPDATE_MASK = BLOOM_UPDATE_ALL) (i : Nat) (vout : List CTxOut)
    (fFound : Bool) {k : Nat} (hk : k < vout.length)
    (hm : f.matchesPush vout[k].scriptPubKey = true) :
    (updateOutputs hash f i vout fFound).1.contains (serializeOutPoint ⟨hash, i + k⟩) = true := by
  -- on the outputs; the filter grows along the loop, so a later match stays a match
  induction vout generalizing f i k fFound with
  | nil => cases hk
  | cons txout vout ih =>
    rw [updateOutputs]
    cases k with
    | zero =>
      have hm0 : f.matchesPush txout.scriptPubKey = true := by simpa using hm
      rw [if_pos hm0]
      apply contains_updateOutputs_of_contains
      rw [updateMatched_of_all hall, Nat.add_zero]
      exact contains_insert_self hs.nonempty _
    | succ k =>
      have hk' : k < vout.length := by simpa using hk
      have hm' : f.matchesPush vout[k].scriptPubKey = true := by simpa using hm
      rw [show i + (k + 1) = i + 1 + k by omega]
      split
      · rw [updateMatched_of_all hall]
        exact ih (hs.insert _) (by simpa using hall) _ _ hk'
          (matchesPush_mono (fun _ hc => contains_insert_of_contains hc _) hm')
      · exact ih hs hall _ _ hk' hm'

/-- The loop over the inputs matches an input whose outpoint the filter contains. -/
theorem matchesInputs_of_contains {vin : List CTxIn} {txin : CTxIn} (hin : txin ∈ vin)
    (hc : f.contains (serializeOutPoint txin.prevout) = true) : f.matchesInputs vin = true := by
  induction vin with
  | nil => cases hin
  | cons txin' vin ih =>
    rw [matchesInputs]
    rcases List.mem_cons.mp hin with rfl | hin'
    · simp [hc]
    · simp [ih hin']


/-- Once an output matched, the loop reports a match. -/
theorem updateOutputs_found_of_true (hash : Uint256) (f : CBloomFilter) (i : Nat)
    (vout : List CTxOut) : (updateOutputs hash f i vout true).2 = true := by
  induction vout generalizing f i with
  | nil => rfl
  | cons txout vout ih =>
    rw [updateOutputs]
    split <;> exact ih _ _

theorem updateOutputs_found (hash : Uint256) (i : Nat) (vout : List CTxOut) (fFound : Bool)
    {k : Nat} (hk : k < vout.length) (hm : f.matchesPush vout[k].scriptPubKey = true) :
    (updateOutputs hash f i vout fFound).2 = true := by
  induction vout generalizing f i k fFound with
  | nil => cases hk
  | cons txout vout ih =>
    rw [updateOutputs]
    cases k with
    | zero =>
      have hm0 : f.matchesPush txout.scriptPubKey = true := by simpa using hm
      rw [if_pos hm0]
      exact updateOutputs_found_of_true _ _ _ _
    | succ k =>
      split
      · exact updateOutputs_found_of_true _ _ _ _
      · exact ih _ _ (by simpa using hk) (by simpa using hm)

/-- A filter that is not full and is empty contains nothing. -/
theorem contains_of_isEmpty (hfull : f.isFull = false) (hempty : f.isEmpty = true)
    (vKey : List UInt8) : f.contains vKey = false := by
  rw [contains_eq, if_neg (by simp [hfull]), if_pos hempty]

/-- With `BLOOM_UPDATE_ALL`, a transaction with a matched output is relevant, and the filter
after it contains that output's outpoint. -/
theorem IsRelevantAndUpdate_of_matched (hs : f.Sound)
    (hall : f.nFlags &&& BLOOM_UPDATE_MASK = BLOOM_UPDATE_ALL) (tx : CTransaction) {k : Nat}
    (hk : k < tx.vout.length) (hm : f.matchesPush tx.vout[k].scriptPubKey = true) :
    (f.IsRelevantAndUpdate GetHash tx).1 = true ∧
      (f.IsRelevantAndUpdate GetHash tx).2.contains (serializeOutPoint ⟨GetHash tx, k⟩) = true := by
  cases hfull : f.isFull with
  | true =>
    rw [IsRelevantAndUpdate_of_isFull GetHash hfull, contains_eq, if_pos hfull]
    exact ⟨rfl, rfl⟩
  | false =>
    cases hempty : f.isEmpty with
    | true =>
      -- an empty filter matches no script
      obtain ⟨key, hkey⟩ := exists_contains_of_matchesPush hm
      rw [contains_of_isEmpty hfull hempty] at hkey
      cases hkey
    | false =>
      rw [IsRelevantAndUpdate_eq GetHash hfull hempty]
      refine ⟨?_, ?_⟩
      · simp [updateOutputs_found _ 0 tx.vout _ hk hm]
      · simpa using contains_updateOutputs_of_matched _ hs hall 0 tx.vout _ hk hm

/-- A transaction that spends an outpoint the filter contains is relevant. -/
theorem IsRelevantAndUpdate_of_spends {o : COutPoint} (hc : f.contains (serializeOutPoint o) = true)
    {tx : CTransaction} {txin : CTxIn} (hin : txin ∈ tx.vin) (hspend : txin.prevout = o) :
    (f.IsRelevantAndUpdate GetHash tx).1 = true := by
  cases hfull : f.isFull with
  | true => rw [IsRelevantAndUpdate_of_isFull GetHash hfull]
  | false =>
    cases hempty : f.isEmpty with
    | true =>
      rw [contains_of_isEmpty hfull hempty] at hc
      cases hc
    | false =>
      rw [IsRelevantAndUpdate_eq GetHash hfull hempty, Bool.or_eq_true]
      right
      apply matchesInputs_of_contains hin
      rw [hspend]
      exact contains_updateOutputs_of_contains _ hc _ _ _

/-! ### `CMerkleBlock` -/

/-- The matches of `CMerkleBlock(block, filter)`: `IsRelevantAndUpdate` on the block's
transactions in order, the filter carried from one to the next. -/
def vMatch (f : CBloomFilter) : List CTransaction → List Bool × CBloomFilter
  | [] => ([], f)
  | tx :: vtx =>
    let r := f.IsRelevantAndUpdate GetHash tx
    let rest := vMatch r.2 vtx
    (r.1 :: rest.1, rest.2)

theorem vMatch_closed {P : CBloomFilter → Prop} (hP : ∀ f vKey, P f → P (f.insert vKey))
    (h : P f) (vtx : List CTransaction) : P (f.vMatch GetHash vtx).2 := by
  induction vtx generalizing f with
  | nil => exact h
  | cons tx vtx ih => exact ih (IsRelevantAndUpdate_closed GetHash hP h tx)


/-- A filtered block matches a transaction that spends an outpoint the filter contains, whatever
comes before it in the block. -/
theorem vMatch_of_spends {o : COutPoint} (hc : f.contains (serializeOutPoint o) = true)
    {vtx : List CTransaction} {j : Nat} (hj : j < vtx.length) {txin : CTxIn}
    (hin : txin ∈ vtx[j].vin) (hspend : txin.prevout = o) :
    (f.vMatch GetHash vtx).1[j]? = some true := by
  induction vtx generalizing f j with
  | nil => cases hj
  | cons tx vtx ih =>
    cases j with
    | zero => simpa [vMatch] using IsRelevantAndUpdate_of_spends GetHash hc hin hspend
    | succ j =>
      have hc' := IsRelevantAndUpdate_closed GetHash (P := fun g => g.contains (serializeOutPoint o))
        (fun _ vKey hg => contains_insert_of_contains hg vKey) hc tx
      simpa [vMatch] using ih hc' (by simpa using hj) (by simpa using hin)

end CBloomFilter

end Trumpow
