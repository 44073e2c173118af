import Trumpow.Serialize.Stream
import Trumpow.Serialize.VarInt
import Trumpow.Primitives.Transaction

/-!
# Serialize — transactions

`SerializeTransaction` and `UnserializeTransaction` of `primitives/transaction.h`.  The basic
format is `nVersion`, `vin`, `vout`, `nLockTime`.  The extended format, written when the stream
allows witnesses and some input has one, puts an empty `vin` and a flags byte `1` after
`nVersion` and the inputs' witness stacks before `nLockTime`.  The reader recognises the
extended format by the empty `vin` it reads first.  Whether the stream allows witnesses (the
`SERIALIZE_TRANSACTION_NO_WITNESS` bit of its version) is the parameter `fAllowWitness`.

* Fields read back in the ranges of their C++ types with sizes at most `MAX_SIZE`
  (`reads_readTxIn`, `reads_readTxOut`), and their readers accept only what their writers
  write (`readTxIn_accepts`, `readTxOut_accepts`).
* `reads_unserializeTransaction`: a transaction with an input reads back, without its
  witnesses from a stream that allows none.
* `unserializeTransaction_accepts`: with witnesses allowed, the reader accepts the basic format
  of a transaction without witnesses that has an input or no output, and the extended format
  with the flags `1`, and nothing else.
* `serializeTransaction_eq_iff`: an accepted string is written back exactly unless it is in
  the extended format and every witness stack in it is empty.
* `unserializeTransaction_serializeTransaction` collects the three, and
  `unserializeTransaction_counterexamples` shows a transaction with more than `MAX_SIZE`
  inputs that is not read back and two strings that read the same transaction.
-/

namespace Trumpow

open Codec

/-! ### Fields -/

/-- `uint256::Unserialize`: the next 32 bytes. -/
def readUint256 : Reader UInt8 Uint256 := fun s =>
  if h : 32 ≤ s.length then some (⟨s.take 32, by simp; omega⟩, s.drop 32) else none

/-- `COutPoint::Serialize`: `hash`, then `n` as a `uint32_t`. -/
def serializeOutPoint (o : COutPoint) : List UInt8 := o.hash.data ++ writeLE 4 o.n

def readOutPoint : Reader UInt8 COutPoint := do
  let hash ← readUint256
  let n ← readData 4
  pure { hash, n }

/-- `CTxIn::Serialize`: `prevout`, `scriptSig`, `nSequence`.  The witness is not part of it. -/
def serializeTxIn (txin : CTxIn) : List UInt8 :=
  serializeOutPoint txin.prevout ++ writeBytes txin.scriptSig ++ writeLE 4 txin.nSequence

/-- `CTxIn::Unserialize`, into a `CTxIn()`, whose witness is empty. -/
def readTxIn : Reader UInt8 CTxIn := do
  let prevout ← readOutPoint
  let scriptSig ← readBytes
  let nSequence ← readData 4
  pure { prevout, scriptSig, nSequence }

/-- `CTxOut::Serialize`: `nValue` as an `int64_t`, then `scriptPubKey`. -/
def serializeTxOut (txout : CTxOut) : List UInt8 :=
  writeLE 8 (txout.nValue % 2 ^ 64).toNat ++ writeBytes txout.scriptPubKey

def readTxOut : Reader UInt8 CTxOut := do
  let nValue ← readData 8
  let scriptPubKey ← readBytes
  pure ⟨toInt64 nValue, scriptPubKey⟩

/-- An input without its witness: what `CTxIn::Unserialize` reads of it. -/
def CTxIn.withoutWitness (txin : CTxIn) : CTxIn := { txin with scriptWitness := [] }

@[simp]
theorem serializeTxIn_withoutWitness (txin : CTxIn) :
    serializeTxIn txin.withoutWitness = serializeTxIn txin := rfl

theorem reads_readUint256 (u : Uint256) : Reads readUint256 u.data u := by
  intro rest
  have hlen := u.length_data
  simp only [readUint256, StateT.run, List.length_append, hlen, Nat.le_add_right, dite_true,
    Option.some.injEq, Prod.mk.injEq]
  refine ⟨Uint256.ext ?_, ?_⟩
  · simp [← hlen]
  · simp [← hlen]

theorem readUint256_accepts : Canonical readUint256 Uint256.data := by
  intro s u rest h
  simp only [readUint256, StateT.run] at h
  split_ifs at h with hlen
  cases h
  exact (List.take_append_drop 32 s).symm

theorem reads_readOutPoint {o : COutPoint} (hn : o.n < 2 ^ 32) :
    Reads readOutPoint (serializeOutPoint o) o :=
  (reads_readUint256 o.hash).bind <| Reads.bind_pure (reads_readData (by simpa using hn)) rfl

theorem readOutPoint_accepts {s rest : List UInt8} {o : COutPoint}
    (h : readOutPoint.run s = some (o, rest)) :
    o.n < 2 ^ 32 ∧ s = serializeOutPoint o ++ rest := by
  obtain ⟨hash, mid, hhash, hrest⟩ := run_bind_eq_some.mp h
  obtain ⟨n, mid', hn, hpure⟩ := run_bind_eq_some.mp hrest
  rw [run_pure] at hpure
  cases hpure
  obtain ⟨hn_lt, rfl⟩ := readData_accepts hn
  rw [readUint256_accepts s hash _ hhash, serializeOutPoint, List.append_assoc]
  exact ⟨by simpa using hn_lt, rfl⟩

/-- The ranges of an input's `uint32_t` fields and the size of its script. -/
def CTxIn.InRange (txin : CTxIn) : Prop :=
  txin.prevout.n < 2 ^ 32 ∧ txin.nSequence < 2 ^ 32 ∧ txin.scriptSig.length ≤ MAX_SIZE

/-- The range of an output's `int64_t` amount and the size of its script. -/
def CTxOut.InRange (txout : CTxOut) : Prop :=
  -2 ^ 63 ≤ txout.nValue ∧ txout.nValue < 2 ^ 63 ∧ txout.scriptPubKey.length ≤ MAX_SIZE

instance : DecidablePred CTxIn.InRange := fun _ => inferInstanceAs (Decidable (_ ∧ _ ∧ _))

instance : DecidablePred CTxOut.InRange := fun _ => inferInstanceAs (Decidable (_ ∧ _ ∧ _))

theorem reads_readTxIn {txin : CTxIn} (h : txin.InRange) :
    Reads readTxIn (serializeTxIn txin) txin.withoutWitness := by
  obtain ⟨hn, hseq, hscript⟩ := h
  have hseq' : txin.nSequence < 256 ^ 4 := by simpa using hseq
  rw [serializeTxIn, List.append_assoc]
  exact (reads_readOutPoint hn).bind <| (reads_readBytes hscript).bind <|
    Reads.bind_pure (reads_readData hseq') rfl

theorem readTxIn_accepts {s rest : List UInt8} {txin : CTxIn}
    (h : readTxIn.run s = some (txin, rest)) :
    txin.scriptWitness = [] ∧ s = serializeTxIn txin ++ rest := by
  obtain ⟨prevout, mid, hprevout, hrest⟩ := run_bind_eq_some.mp h
  obtain ⟨scriptSig, mid', hscript, hrest'⟩ := run_bind_eq_some.mp hrest
  obtain ⟨nSequence, mid'', hseq, hpure⟩ := run_bind_eq_some.mp hrest'
  rw [run_pure] at hpure
  cases hpure
  obtain ⟨-, rfl⟩ := readData_accepts hseq
  rw [(readOutPoint_accepts hprevout).2, readBytes_accepts _ _ _ hscript]
  simp [serializeTxIn]

theorem reads_readTxOut {txout : CTxOut} (h : txout.InRange) :
    Reads readTxOut (serializeTxOut txout) txout := by
  obtain ⟨hlo, hhi, hscript⟩ := h
  have hvalue : (txout.nValue % 2 ^ 64).toNat < 256 ^ 8 := by omega
  exact (reads_readData hvalue).bind <|
    Reads.bind_pure (reads_readBytes hscript) (by rw [toInt64_toNat_emod ⟨hlo, hhi⟩])

theorem readTxOut_accepts : Canonical readTxOut serializeTxOut := by
  intro s txout rest h
  obtain ⟨nValue, mid, hvalue, hrest⟩ := run_bind_eq_some.mp h
  obtain ⟨script, mid', hscript, hpure⟩ := run_bind_eq_some.mp hrest
  rw [run_pure] at hpure
  cases hpure
  obtain ⟨hlt, rfl⟩ := readData_accepts hvalue
  rw [readBytes_accepts _ _ _ hscript, serializeTxOut, toNat_emod_toInt64 (by simpa using hlt),
    List.append_assoc]

/-! ### Transactions -/

/-- `SerializeTransaction(tx, s)`. -/
def serializeTransaction (fAllowWitness : Bool) (tx : CTransaction) : List UInt8 :=
  -- Check whether witnesses need to be serialized.
  let flags : Nat := if fAllowWitness && tx.HasWitness then 1 else 0
  writeLE 4 (tx.nVersion % 2 ^ 32).toNat ++
    -- Use extended format in case witnesses are to be serialized.
    (if flags ≠ 0 then writeVector serializeTxIn [] ++ writeLE 1 flags else []) ++
    writeVector serializeTxIn tx.vin ++ writeVector serializeTxOut tx.vout ++
    (if flags &&& 1 ≠ 0 then tx.vin.flatMap fun txin => writeVector writeBytes txin.scriptWitness
      else []) ++
    writeLE 4 tx.nLockTime

/-- Without a witness to write, or a stream that allows one, the basic format. -/
theorem serializeTransaction_basic (fAllowWitness : Bool) {tx : CTransaction}
    (hw : (fAllowWitness && tx.HasWitness) = false) :
    serializeTransaction fAllowWitness tx = writeLE 4 (tx.nVersion % 2 ^ 32).toNat ++
      writeVector serializeTxIn tx.vin ++ writeVector serializeTxOut tx.vout ++
      writeLE 4 tx.nLockTime := by
  simp [serializeTransaction, hw]

/-- With a witness and a stream that allows it, the extended format. -/
theorem serializeTransaction_of_hasWitness {tx : CTransaction} (hw : tx.HasWitness = true) :
    serializeTransaction true tx = writeLE 4 (tx.nVersion % 2 ^ 32).toNat ++
      (writeVector serializeTxIn [] ++ writeLE 1 1) ++ writeVector serializeTxIn tx.vin ++
      writeVector serializeTxOut tx.vout ++
      (tx.vin.flatMap fun txin => writeVector writeBytes txin.scriptWitness) ++
      writeLE 4 tx.nLockTime := by
  simp [serializeTransaction, hw]

/-- The part of `UnserializeTransaction` between `nVersion` and the witnesses: `vin`, then the
flags byte if `vin` is empty and the stream allows witnesses, then `vin` again if the flags are
not zero, and `vout`.  It returns the flags, `vin` and `vout`. -/
def readVinVout (fAllowWitness : Bool) : Reader UInt8 (Nat × List CTxIn × List CTxOut) := do
  -- Try to read the vin. In case the dummy is there, this will be read as an empty vector.
  let vin ← readVector readTxIn
  if vin.length == 0 && fAllowWitness then do
    -- We read a dummy or an empty vin.
    let flags ← readData 1
    if flags ≠ 0 then do
      let vin ← readVector readTxIn
      let vout ← readVector readTxOut
      pure (flags, vin, vout)
    else pure (flags, vin, [])
  else do
    -- We read a non-empty vin. Assume a normal vout follows.
    let vout ← readVector readTxOut
    pure (0, vin, vout)

/-- One input's witness stack, `s >> tx.vin[i].scriptWitness.stack`. -/
def readScriptWitness (txin : CTxIn) : Reader UInt8 CTxIn := do
  let stack ← readVector readBytes
  pure { txin with scriptWitness := stack }

/-- The witness stacks of `UnserializeTransaction`, read when the flag bit `1` is set and the
stream allows witnesses, which clears the bit. -/
def readWitnesses (fAllowWitness : Bool) (flags : Nat) (vin : List CTxIn) :
    Reader UInt8 (Nat × List CTxIn) :=
  if flags &&& 1 ≠ 0 && fAllowWitness then do
    -- The witness flag is present, and we support witnesses.
    let vin ← vin.mapM readScriptWitness
    pure (flags ^^^ 1, vin)
  else pure (flags, vin)

/-- `UnserializeTransaction(tx, s)`.  Any flag left after the witnesses is an error: the source
throws "Unknown transaction optional data". -/
def unserializeTransaction (fAllowWitness : Bool) : Reader UInt8 CTransaction := do
  let nVersion ← readData 4
  let (flags, vin, vout) ← readVinVout fAllowWitness
  let (flags, vin) ← readWitnesses fAllowWitness flags vin
  if flags ≠ 0 then failure
  else do
    let nLockTime ← readData 4
    pure { nVersion := toInt32 nVersion, vin, vout, nLockTime }

/-! ### Reading back -/

/-- A transaction without its witnesses: what a stream without witnesses carries of it. -/
def CTransaction.withoutWitness (tx : CTransaction) : CTransaction :=
  { tx with vin := tx.vin.map CTxIn.withoutWitness }

/-- The ranges of the C++ types of a transaction's fields (`int32_t nVersion`, `uint32_t`
`nLockTime`, and those of each input and output), and sizes `ReadCompactSize` accepts. -/
def CTransaction.InRange (tx : CTransaction) : Prop :=
  (-2 ^ 31 ≤ tx.nVersion ∧ tx.nVersion < 2 ^ 31) ∧ tx.nLockTime < 2 ^ 32 ∧
    tx.vin.length ≤ MAX_SIZE ∧ tx.vout.length ≤ MAX_SIZE ∧
    (∀ txin ∈ tx.vin, txin.InRange) ∧ ∀ txout ∈ tx.vout, txout.InRange

/-- The sizes of an input's witness stack, which `ReadCompactSize` reads. -/
def CTxIn.WitnessInRange (txin : CTxIn) : Prop :=
  txin.scriptWitness.length ≤ MAX_SIZE ∧
    ∀ item ∈ txin.scriptWitness, item.length ≤ MAX_SIZE

instance : DecidablePred CTransaction.InRange := fun _ =>
  inferInstanceAs (Decidable (_ ∧ _ ∧ _ ∧ _ ∧ _ ∧ _))

instance : DecidablePred CTxIn.WitnessInRange := fun _ => inferInstanceAs (Decidable (_ ∧ _))

theorem CTxIn.withoutWitness_of_eq_nil {txin : CTxIn} (h : txin.scriptWitness = []) :
    txin.withoutWitness = txin := by
  cases txin
  simp_all [CTxIn.withoutWitness]

theorem CTransaction.hasWitness_eq_false_iff {tx : CTransaction} :
    tx.HasWitness = false ↔ ∀ txin ∈ tx.vin, txin.scriptWitness = [] := by
  simp [CTransaction.HasWitness]

theorem map_withoutWitness_of_eq_nil {vin : List CTxIn}
    (h : ∀ txin ∈ vin, txin.scriptWitness = []) : vin.map CTxIn.withoutWitness = vin := by
  have hid : ∀ txin ∈ vin, txin.withoutWitness = id txin := fun txin hx =>
    CTxIn.withoutWitness_of_eq_nil (h txin hx)
  rw [List.map_congr_left hid, List.map_id]

theorem reads_readVector_readTxIn {vin : List CTxIn} (hn : vin.length ≤ MAX_SIZE)
    (h : ∀ txin ∈ vin, txin.InRange) :
    Reads (readVector readTxIn) (writeVector serializeTxIn vin) (vin.map CTxIn.withoutWitness) :=
  reads_readVector _ _ hn fun txin hx => reads_readTxIn (h txin hx)

theorem reads_readVector_readTxOut {vout : List CTxOut} (hn : vout.length ≤ MAX_SIZE)
    (h : ∀ txout ∈ vout, txout.InRange) :
    Reads (readVector readTxOut) (writeVector serializeTxOut vout) vout :=
  (reads_readVector serializeTxOut id hn fun txout hx => reads_readTxOut (h txout hx)).congr rfl
    (List.map_id vout)

/-- The basic format's vectors.  With witnesses allowed, an empty `vin` would be read as the
marker of the extended format. -/
theorem reads_readVinVout_basic {fAllowWitness : Bool} {vin : List CTxIn} {vout : List CTxOut}
    (hvin : fAllowWitness = true → vin ≠ []) (hn : vin.length ≤ MAX_SIZE)
    (hm : vout.length ≤ MAX_SIZE) (hin : ∀ txin ∈ vin, txin.InRange)
    (hout : ∀ txout ∈ vout, txout.InRange) :
    Reads (readVinVout fAllowWitness)
      (writeVector serializeTxIn vin ++ writeVector serializeTxOut vout)
      (0, vin.map CTxIn.withoutWitness, vout) := by
  have hcond : ((vin.map CTxIn.withoutWitness).length == 0 && fAllowWitness) = false := by
    cases fAllowWitness with
    | false => exact Bool.and_false _
    | true => simpa using hvin rfl
  refine (reads_readVector_readTxIn hn hin).bind ?_
  simp only [hcond, Bool.false_eq_true, ↓reduceIte]
  exact (reads_readVector_readTxOut hm hout).bind_pure rfl

/-- The extended format's vectors: the empty `vin`, the flags `1`, `vin` and `vout`. -/
theorem reads_readVinVout_extended {vin : List CTxIn} {vout : List CTxOut}
    (hn : vin.length ≤ MAX_SIZE) (hm : vout.length ≤ MAX_SIZE)
    (hin : ∀ txin ∈ vin, txin.InRange) (hout : ∀ txout ∈ vout, txout.InRange) :
    Reads (readVinVout true) (writeVector serializeTxIn [] ++ writeLE 1 1 ++
        (writeVector serializeTxIn vin ++ writeVector serializeTxOut vout))
      (1, vin.map CTxIn.withoutWitness, vout) := by
  rw [List.append_assoc]
  have hdummy : ([] : List CTxIn).length ≤ MAX_SIZE := by simp
  refine (reads_readVector_readTxIn hdummy (by simp)).bind ?_
  simp only [List.map_nil, List.length_nil, beq_self_eq_true, Bool.and_self, ↓reduceIte]
  refine (reads_readData (by norm_num)).bind ?_
  simp only [ne_eq, one_ne_zero, not_false_eq_true, ↓reduceIte]
  exact (reads_readVector_readTxIn hn hin).bind ((reads_readVector_readTxOut hm hout).bind_pure rfl)

theorem reads_readScriptWitness {txin : CTxIn} (h : txin.WitnessInRange) :
    Reads (readScriptWitness txin.withoutWitness) (writeVector writeBytes txin.scriptWitness)
      txin :=
  Reads.bind_pure (reads_readVector writeBytes id h.1 fun item hi => reads_readBytes (h.2 item hi))
    (by cases txin; simp [CTxIn.withoutWitness])

/-- The witness loop reads back the stacks of inputs read without them, and clears the flag. -/
theorem reads_readWitnesses {vin : List CTxIn} (h : ∀ txin ∈ vin, txin.WitnessInRange) :
    Reads (readWitnesses true 1 (vin.map CTxIn.withoutWitness))
      (vin.flatMap fun txin => writeVector writeBytes txin.scriptWitness) (0, vin) := by
  have hloop : Reads ((vin.map CTxIn.withoutWitness).mapM readScriptWitness)
      (vin.flatMap fun txin => writeVector writeBytes txin.scriptWitness) vin := by
    rw [List.mapM_map]
    exact (Reads.mapM (f := readScriptWitness ∘ CTxIn.withoutWitness) _ id vin
      fun txin hx => reads_readScriptWitness (h txin hx)).congr rfl (List.map_id vin)
  unfold readWitnesses
  rw [if_pos (by decide)]
  exact hloop.bind_pure rfl

theorem readWitnesses_of_and_one_eq_zero (fAllowWitness : Bool) {flags : Nat}
    (h : flags &&& 1 = 0) (vin : List CTxIn) :
    readWitnesses fAllowWitness flags vin = pure (flags, vin) := by
  simp [readWitnesses, h]

/-- `UnserializeTransaction` from its parts: `nVersion`, vectors that leave flags which the
witnesses clear, and `nLockTime`. -/
theorem reads_unserializeTransaction_of {fAllowWitness : Bool} {nVersion nLockTime flags : Nat}
    {w₁ w₂ : List UInt8} {vin₀ vin : List CTxIn} {vout : List CTxOut}
    (hVersion : nVersion < 2 ^ 32) (hLockTime : nLockTime < 2 ^ 32)
    (h₁ : Reads (readVinVout fAllowWitness) w₁ (flags, vin₀, vout))
    (h₂ : Reads (readWitnesses fAllowWitness flags vin₀) w₂ (0, vin)) :
    Reads (unserializeTransaction fAllowWitness)
      (writeLE 4 nVersion ++ (w₁ ++ (w₂ ++ writeLE 4 nLockTime)))
      { nVersion := toInt32 nVersion, vin, vout, nLockTime } := by
  refine (reads_readData (by simpa using hVersion)).bind (h₁.bind (h₂.bind ?_))
  dsimp only
  rw [if_neg (by decide)]
  exact (reads_readData (by simpa using hLockTime)).bind_pure rfl

/-- A transaction with an input, in range, reads back from its serialization: itself when the
stream allows witnesses, without its witnesses when it does not. -/
theorem reads_unserializeTransaction (fAllowWitness : Bool) {tx : CTransaction}
    (hvin : tx.vin ≠ []) (h : tx.InRange)
    (hwit : fAllowWitness = true → ∀ txin ∈ tx.vin, txin.WitnessInRange) :
    Reads (unserializeTransaction fAllowWitness) (serializeTransaction fAllowWitness tx)
      (if fAllowWitness then tx else tx.withoutWitness) := by
  obtain ⟨hV, hL, hn, hm, hin, hout⟩ := h
  have hV' : (tx.nVersion % 2 ^ 32).toNat < 2 ^ 32 := by omega
  have hversion : toInt32 (tx.nVersion % 2 ^ 32).toNat = tx.nVersion := toInt32_toNat_emod hV
  have hbasic : Reads (readWitnesses fAllowWitness 0 (tx.vin.map CTxIn.withoutWitness)) []
      (0, tx.vin.map CTxIn.withoutWitness) := by
    rw [readWitnesses_of_and_one_eq_zero _ (by decide)]
    exact Reads.pure _
  cases fAllowWitness with
  | false =>
    -- the basic format, read without witnesses
    rw [serializeTransaction_basic false (by simp)]
    refine (reads_unserializeTransaction_of hV' hL
      (reads_readVinVout_basic (by simp) hn hm hin hout) hbasic).congr (by simp) ?_
    cases tx
    simp_all [CTransaction.withoutWitness]
  | true =>
    cases hw : tx.HasWitness with
    | false =>
      -- the basic format: every witness is empty
      have hempty := map_withoutWitness_of_eq_nil (CTransaction.hasWitness_eq_false_iff.mp hw)
      rw [serializeTransaction_basic true (by simp [hw])]
      refine (reads_unserializeTransaction_of hV' hL
        (reads_readVinVout_basic (fun _ => hvin) hn hm hin hout) hbasic).congr (by simp) ?_
      cases tx
      simp_all
    | true =>
      -- the extended format
      rw [serializeTransaction_of_hasWitness hw]
      refine (reads_unserializeTransaction_of hV' hL (reads_readVinVout_extended hn hm hin hout)
        (reads_readWitnesses (hwit rfl))).congr (by simp) ?_
      cases tx
      simp_all

/-! ### What the reader accepts -/

theorem readTxIn_canonical : Canonical readTxIn serializeTxIn := fun _ _ _ h =>
  (readTxIn_accepts h).2

theorem readVector_readTxIn_witness {s rest : List UInt8} {vin : List CTxIn}
    (h : (readVector readTxIn).run s = some (vin, rest)) :
    ∀ txin ∈ vin, txin.scriptWitness = [] :=
  readVector_forall (fun _ _ _ h => (readTxIn_accepts h).1) h

theorem writeVector_map_withoutWitness (vin : List CTxIn) :
    writeVector serializeTxIn (vin.map CTxIn.withoutWitness) = writeVector serializeTxIn vin := by
  simp [writeVector, List.flatMap_map]

theorem readScriptWitness_accepts {txin txin' : CTxIn} {s rest : List UInt8}
    (h : (readScriptWitness txin).run s = some (txin', rest)) :
    txin'.withoutWitness = txin.withoutWitness ∧
      s = writeVector writeBytes txin'.scriptWitness ++ rest := by
  obtain ⟨stack, mid, hstack, hpure⟩ := run_bind_eq_some.mp h
  rw [run_pure] at hpure
  cases hpure
  exact ⟨rfl, readVector_accepts readBytes_accepts _ _ _ hstack⟩

theorem mapM_readScriptWitness_accepts :
    ∀ {vin vin' : List CTxIn} {s rest : List UInt8},
      (vin.mapM readScriptWitness).run s = some (vin', rest) →
        vin'.map CTxIn.withoutWitness = vin.map CTxIn.withoutWitness ∧
          s = (vin'.flatMap fun txin => writeVector writeBytes txin.scriptWitness) ++ rest
  | [], vin', s, rest, h => by
    rw [List.mapM_nil, run_pure] at h
    cases h
    exact ⟨rfl, rfl⟩
  | txin :: vin, vin', s, rest, h => by
    rw [List.mapM_cons] at h
    obtain ⟨y, mid, hy, hrest⟩ := run_bind_eq_some.mp h
    obtain ⟨ys, mid', hys, hpure⟩ := run_bind_eq_some.mp hrest
    rw [run_pure] at hpure
    cases hpure
    obtain ⟨hy₁, rfl⟩ := readScriptWitness_accepts hy
    obtain ⟨hys₁, rfl⟩ := mapM_readScriptWitness_accepts hys
    simp [hy₁, hys₁]

/-- The witness loop, with witnesses allowed: it runs when the flag bit `1` is set, reads a
stack for each input and clears the bit, and otherwise reads nothing. -/
theorem readWitnesses_accepts {flags flags' : Nat} {vin vin' : List CTxIn} {s rest : List UInt8}
    (h : (readWitnesses true flags vin).run s = some ((flags', vin'), rest)) :
    (flags &&& 1 ≠ 0 ∧ flags' = flags ^^^ 1 ∧
        vin'.map CTxIn.withoutWitness = vin.map CTxIn.withoutWitness ∧
        s = (vin'.flatMap fun txin => writeVector writeBytes txin.scriptWitness) ++ rest) ∨
      (flags &&& 1 = 0 ∧ flags' = flags ∧ vin' = vin ∧ s = rest) := by
  unfold readWitnesses at h
  by_cases hbit : flags &&& 1 = 0
  · rw [if_neg (by simp [hbit]), run_pure] at h
    simp only [Option.some.injEq, Prod.mk.injEq] at h
    obtain ⟨⟨rfl, rfl⟩, rfl⟩ := h
    exact .inr ⟨hbit, rfl, rfl, rfl⟩
  · rw [if_pos (by simpa using hbit)] at h
    obtain ⟨vin'', mid, hloop, hpure⟩ := run_bind_eq_some.mp h
    rw [run_pure] at hpure
    cases hpure
    exact .inl ⟨hbit, rfl, mapM_readScriptWitness_accepts hloop⟩

/-- The vectors, with witnesses allowed: the basic format's, with an input or no output, or the
extended format's marker, flags and vectors.  Every input read has an empty witness. -/
theorem readVinVout_accepts {flags : Nat} {vin : List CTxIn} {vout : List CTxOut}
    {s rest : List UInt8} (h : (readVinVout true).run s = some ((flags, vin, vout), rest)) :
    (∀ txin ∈ vin, txin.scriptWitness = []) ∧
      ((flags = 0 ∧ (vin ≠ [] ∨ vout = []) ∧
          s = writeVector serializeTxIn vin ++ writeVector serializeTxOut vout ++ rest) ∨
        (flags ≠ 0 ∧ flags < 256 ∧ s = writeVector serializeTxIn [] ++ writeLE 1 flags ++
          writeVector serializeTxIn vin ++ writeVector serializeTxOut vout ++ rest)) := by
  obtain ⟨vin₀, mid, hvin₀, hrest⟩ := run_bind_eq_some.mp h
  have hs := readVector_accepts readTxIn_canonical _ _ _ hvin₀
  by_cases hempty : vin₀ = []
  · -- a dummy or an empty `vin`: the flags follow
    subst hempty
    rw [if_pos (by rfl)] at hrest
    obtain ⟨f, mid', hf, hrest'⟩ := run_bind_eq_some.mp hrest
    obtain ⟨hf_lt, rfl⟩ := readData_accepts hf
    by_cases hf0 : f = 0
    · -- no flags: an empty transaction body, with no `vout` either
      subst hf0
      rw [if_neg (by simp), run_pure] at hrest'
      simp only [Option.some.injEq, Prod.mk.injEq] at hrest'
      obtain ⟨⟨rfl, rfl, rfl⟩, rfl⟩ := hrest'
      refine ⟨fun _ h => absurd h List.not_mem_nil, .inl ⟨rfl, .inr rfl, ?_⟩⟩
      rw [hs, List.append_assoc]
      rfl
    · -- flags: `vin` and `vout` follow
      rw [if_pos hf0] at hrest'
      obtain ⟨vin₁, mid₁, hvin₁, hrest₁⟩ := run_bind_eq_some.mp hrest'
      obtain ⟨vout₁, mid₂, hvout₁, hpure⟩ := run_bind_eq_some.mp hrest₁
      rw [run_pure] at hpure
      simp only [Option.some.injEq, Prod.mk.injEq] at hpure
      obtain ⟨⟨rfl, rfl, rfl⟩, rfl⟩ := hpure
      refine ⟨readVector_readTxIn_witness hvin₁, .inr ⟨hf0, by simpa using hf_lt, ?_⟩⟩
      rw [hs, readVector_accepts readTxIn_canonical _ _ _ hvin₁,
        readVector_accepts readTxOut_accepts _ _ _ hvout₁]
      simp only [List.append_assoc]
  · -- a non-empty `vin`: `vout` follows
    rw [if_neg (by simpa using hempty)] at hrest
    obtain ⟨vout₀, mid', hvout₀, hpure⟩ := run_bind_eq_some.mp hrest
    rw [run_pure] at hpure
    simp only [Option.some.injEq, Prod.mk.injEq] at hpure
    obtain ⟨⟨rfl, rfl, rfl⟩, rfl⟩ := hpure
    refine ⟨readVector_readTxIn_witness hvin₀, .inl ⟨rfl, .inl hempty, ?_⟩⟩
    rw [hs, readVector_accepts readTxOut_accepts _ _ _ hvout₀, List.append_assoc]

theorem xor_one_eq_zero {flags : Nat} (h : flags ^^^ 1 = 0) : flags = 1 := by
  rw [← Nat.xor_zero flags, ← Nat.xor_self 1, ← Nat.xor_assoc, h, Nat.zero_xor]

/-- What `UnserializeTransaction` accepts in a stream that allows witnesses: the basic format of
a transaction without witnesses that has an input or no output, or the extended format with
the flags `1`. -/
theorem unserializeTransaction_accepts {s rest : List UInt8} {tx : CTransaction}
    (h : (unserializeTransaction true).run s = some (tx, rest)) :
    ∃ nVersion, nVersion < 2 ^ 32 ∧ tx.nVersion = toInt32 nVersion ∧ tx.nLockTime < 2 ^ 32 ∧
      ((tx.HasWitness = false ∧ (tx.vin ≠ [] ∨ tx.vout = []) ∧
          s = writeLE 4 nVersion ++ writeVector serializeTxIn tx.vin ++
            writeVector serializeTxOut tx.vout ++ writeLE 4 tx.nLockTime ++ rest) ∨
        s = writeLE 4 nVersion ++ (writeVector serializeTxIn [] ++ writeLE 1 1) ++
          writeVector serializeTxIn tx.vin ++ writeVector serializeTxOut tx.vout ++
          (tx.vin.flatMap fun txin => writeVector writeBytes txin.scriptWitness) ++
          writeLE 4 tx.nLockTime ++ rest) := by
  obtain ⟨nVersion, mid, hversion, hbody⟩ := run_bind_eq_some.mp h
  obtain ⟨⟨flags, vin, vout⟩, mid₁, hvectors, hbody₁⟩ := run_bind_eq_some.mp hbody
  obtain ⟨⟨flags', vin'⟩, mid₂, hwitnesses, hbody₂⟩ := run_bind_eq_some.mp hbody₁
  dsimp only at hbody₂
  -- any flag left is "Unknown transaction optional data"
  by_cases hflags' : flags' ≠ 0
  · rw [if_pos hflags', run_failure] at hbody₂
    cases hbody₂
  rw [if_neg hflags'] at hbody₂
  have hleft : flags' = 0 := not_not.mp hflags'
  obtain ⟨nLockTime, mid₃, hlock, hpure⟩ := run_bind_eq_some.mp hbody₂
  rw [run_pure] at hpure
  cases hpure
  obtain ⟨hlock_lt, rfl⟩ := readData_accepts hlock
  obtain ⟨hversion_lt, rfl⟩ := readData_accepts hversion
  refine ⟨nVersion, by simpa using hversion_lt, rfl, by simpa using hlock_lt, ?_⟩
  obtain ⟨hempty, ⟨rfl, hshape, rfl⟩ | ⟨hflags, -, rfl⟩⟩ := readVinVout_accepts hvectors
  · -- the basic format: no flags, so no witnesses are read
    rcases readWitnesses_accepts hwitnesses with ⟨hbit, -⟩ | ⟨-, -, rfl, rfl⟩
    · exact absurd rfl hbit
    refine .inl ⟨CTransaction.hasWitness_eq_false_iff.mpr hempty, hshape, ?_⟩
    simp only [List.append_assoc]
  · -- the extended format: the witnesses clear the flag bit, which must be all of the flags
    rcases readWitnesses_accepts hwitnesses with ⟨-, hxor, hmap, rfl⟩ | ⟨-, rfl, -, -⟩
    · obtain rfl := xor_one_eq_zero (hxor ▸ hleft)
      refine .inr ?_
      rw [← writeVector_map_withoutWitness vin', hmap, map_withoutWitness_of_eq_nil hempty]
      simp only [List.append_assoc]
    · exact absurd hleft hflags

/-! ### Writing back what was read -/

/-- The fifth and sixth bytes, where the extended format has its marker and flags. -/
theorem getD_writeLE_four_append (nVersion : Nat) (body : List UInt8) :
    (writeLE 4 nVersion ++ body).getD 4 0 = body.getD 0 0 ∧
      (writeLE 4 nVersion ++ body).getD 5 0 = body.getD 1 0 := by
  simp only [writeLE, List.cons_append, List.nil_append, List.getD_cons_succ, and_self]

/-- A string that `UnserializeTransaction` accepts, with witnesses allowed, is the serialization
of what it reads exactly when the transaction has a witness or the string does not carry the
extended format's marker (a zero fifth byte and a non-zero sixth). -/
theorem serializeTransaction_eq_iff {s rest : List UInt8} {tx : CTransaction}
    (h : (unserializeTransaction true).run s = some (tx, rest)) :
    serializeTransaction true tx ++ rest = s ↔
      (tx.HasWitness = true ∨ ¬(s.getD 4 0 = 0 ∧ s.getD 5 0 ≠ 0)) := by
  obtain ⟨nVersion, hV, hversion, -, ⟨hw, hshape, rfl⟩ | rfl⟩ :=
    unserializeTransaction_accepts h
  · -- the basic format is written back, and carries no marker
    rw [serializeTransaction_basic true (by simp [hw]), hversion, toNat_emod_toInt32 hV]
    simp only [List.append_assoc, true_iff]
    refine .inr ?_
    rintro ⟨h4, h5⟩
    rw [(getD_writeLE_four_append nVersion _).1] at h4
    rw [(getD_writeLE_four_append nVersion _).2] at h5
    rcases hshape with hvin | hvout
    · -- the first byte of a non-zero size
      rw [writeVector, List.append_assoc, getD_writeCompactSize_append_eq_zero] at h4
      exact hvin (List.length_eq_zero_iff.mp h4)
    · -- an empty body: both sizes are zero
      have hvin : tx.vin = [] := by
        rw [writeVector, List.append_assoc, getD_writeCompactSize_append_eq_zero] at h4
        exact List.length_eq_zero_iff.mp h4
      rw [hvin, hvout] at h5
      exact h5 rfl
  · -- the extended format carries the marker; it is written back only with a witness
    have hmarker : ∀ body : List UInt8,
        let s := writeLE 4 nVersion ++ (writeVector serializeTxIn [] ++ writeLE 1 1 ++ body)
        s.getD 4 0 = 0 ∧ s.getD 5 0 ≠ 0 := by
      intro body
      dsimp only
      rw [(getD_writeLE_four_append nVersion _).1, (getD_writeLE_four_append nVersion _).2]
      simp [writeVector, writeCompactSize, writeLE]
    simp only [List.append_assoc] at hmarker
    cases hw : tx.HasWitness with
    | true =>
      rw [serializeTransaction_of_hasWitness hw, hversion, toNat_emod_toInt32 hV]
      simp
    | false =>
      simp only [List.append_assoc, hmarker, Bool.false_eq_true, false_or, not_true_eq_false,
        iff_false, ne_eq, not_false_eq_true, and_self]
      intro heq
      have hlen := congrArg List.length heq
      rw [serializeTransaction_basic true (by simp [hw])] at hlen
      simp only [List.length_append, length_writeLE] at hlen
      omega

/-- **Round trip and canonicity.**  A transaction with an input, whose fields are in the ranges
of their C++ types and whose sizes are at most `MAX_SIZE`, reads back from its serialization:
itself when the stream allows witnesses, without its witnesses when it does not.  With
witnesses allowed, a string the reader accepts is the serialization of what it reads exactly
when the transaction has a witness or the string does not carry the extended format's marker,
so two such strings that read the same transaction are the same string. -/
theorem unserializeTransaction_serializeTransaction :
    (∀ (fAllowWitness : Bool) (tx : CTransaction) (rest : List UInt8), tx.vin ≠ [] →
      tx.InRange → (fAllowWitness = true → ∀ txin ∈ tx.vin, txin.WitnessInRange) →
      (unserializeTransaction fAllowWitness).run (serializeTransaction fAllowWitness tx ++ rest) =
        some (if fAllowWitness then tx else tx.withoutWitness, rest)) ∧
    (∀ (s rest : List UInt8) (tx : CTransaction),
      (unserializeTransaction true).run s = some (tx, rest) →
      (serializeTransaction true tx ++ rest = s ↔
        (tx.HasWitness = true ∨ ¬(s.getD 4 0 = 0 ∧ s.getD 5 0 ≠ 0)))) ∧
    (∀ (s₁ s₂ rest : List UInt8) (tx : CTransaction),
      (unserializeTransaction true).run s₁ = some (tx, rest) →
      (unserializeTransaction true).run s₂ = some (tx, rest) →
      (tx.HasWitness = true ∨
        ¬(s₁.getD 4 0 = 0 ∧ s₁.getD 5 0 ≠ 0) ∧
          ¬(s₂.getD 4 0 = 0 ∧ s₂.getD 5 0 ≠ 0)) →
      s₁ = s₂) := by
  refine ⟨fun fAllowWitness tx rest hvin hrange hwit =>
    reads_unserializeTransaction fAllowWitness hvin hrange hwit rest,
    fun s rest tx h => serializeTransaction_eq_iff h, ?_⟩
  intro s₁ s₂ rest tx h₁ h₂ hcanon
  have e₁ := (serializeTransaction_eq_iff h₁).mpr (hcanon.imp_right And.left)
  have e₂ := (serializeTransaction_eq_iff h₂).mpr (hcanon.imp_right And.right)
  rw [← e₁, ← e₂]

/-- A spend with a one-item witness: it reads back, and its serialization is the string the
reader accepts. -/
theorem unserializeTransaction_serializeTransaction_spend :
    let tx : CTransaction := { vin := [{ scriptWitness := [[1]] }], vout := [⟨0, []⟩] }
    (tx.vin ≠ [] ∧ tx.InRange ∧ ∀ txin ∈ tx.vin, txin.WitnessInRange) ∧
      (unserializeTransaction true).run (serializeTransaction true tx) = some (tx, []) ∧
      (serializeTransaction true tx ++ [] = serializeTransaction true tx ↔
        (tx.HasWitness = true ∨ ¬((serializeTransaction true tx).getD 4 0 = 0 ∧
          (serializeTransaction true tx).getD 5 0 ≠ 0))) := by
  intro tx
  have hvin : tx.vin ≠ [] := by decide
  have hrange : tx.InRange := by decide
  have hwit : ∀ txin ∈ tx.vin, txin.WitnessInRange := by decide
  have hrun := unserializeTransaction_serializeTransaction.1 true tx [] hvin hrange fun _ => hwit
  rw [List.append_nil] at hrun
  exact ⟨⟨hvin, hrange, hwit⟩, hrun,
    unserializeTransaction_serializeTransaction.2.1 _ [] tx hrun⟩

/-- A transaction with more than `MAX_SIZE` inputs is written, but not read back; and the
extended format with empty witness stacks reads the transaction whose serialization is the
basic format, a second string for it. -/
theorem unserializeTransaction_counterexamples :
    let big : CTransaction := { vin := List.replicate (MAX_SIZE + 1) {} }
    let tx : CTransaction := { vin := [{}] }
    let extended : List UInt8 := writeLE 4 1 ++ (writeVector serializeTxIn [] ++ writeLE 1 1) ++
      writeVector serializeTxIn tx.vin ++ writeVector serializeTxOut tx.vout ++
      writeVector writeBytes ([] : List (List UInt8)) ++ writeLE 4 0
    (unserializeTransaction true).run (serializeTransaction true big) = none ∧
      (unserializeTransaction true).run extended = some (tx, []) ∧
      serializeTransaction true tx ≠ extended := by
  intro big tx extended
  refine ⟨?_, by decide +kernel⟩
  have hw : big.HasWitness = false := by simp [big, CTransaction.HasWitness]
  have hlen : big.vin.length = MAX_SIZE + 1 := List.length_replicate
  rw [serializeTransaction_basic true (by simp [hw]), writeVector, hlen]
  simp only [List.append_assoc]
  rw [unserializeTransaction, run_bind_of_reads (reads_readData (by decide))]
  exact run_bind_of_none (run_bind_of_none (readVector_of_gt _ (by omega) (by decide) _))

end Trumpow
