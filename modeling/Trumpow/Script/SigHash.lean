import Trumpow.Script.Ops
import Trumpow.Serialize.Transaction

/-!
# Script — the legacy signature hash

`SignatureHash` for `SIGVERSION_BASE` hashes the stream `CTransactionSignatureSerializer`
writes: the transaction being signed with the script code in the place of the signed input's
script, the other inputs' scripts empty, the outputs and the other sequences blanked as the hash
type asks, and the hash type after it.  `SignatureHashOld`, the construction `sighash_tests.cpp`
keeps as the reference, builds that transaction (`SignatureHashOld.txTmp`) and serializes it.
Double SHA-256 is the parameter `Hash`.

The serializer writes the script code on the fly: its length from the number of
`OP_CODESEPARATOR`s the `GetOp` loop meets, then the bytes between them, then the bytes up to
where `GetOp` stopped (`SerializeScriptCode_eq`).  `FindAndDelete` keeps the whole tail instead.
Everything else the two write is the same (`serializeTransaction_txTmp`), and the script code is
written once (`SerializeWith_eq_append`).  So `SignatureHash` agrees with `SignatureHashOld` for
every hash exactly when the `GetOp` loop stops at the end of the script
(`signatureHash_eq_signatureHashOld_iff`); a push cut short after some of its bytes is written
short by the serializer (`signatureHash_truncated_push`).
-/

namespace Trumpow

def SIGHASH_NONE : Nat := 2
def SIGHASH_SINGLE : Nat := 3
def SIGHASH_ANYONECANPAY : Nat := 0x80

/-- The bits of the `int` hash type, as `&` and the stream read them. -/
def hashTypeBits (nHashType : Int) : Nat := (nHashType % 2 ^ 32).toNat

/-! ### `SerializeScriptCode` -/

/-- The first loop of `SerializeScriptCode`: the `OP_CODESEPARATOR`s `GetOp` reads from `it`. -/
def countCodeSeparators (it : List UInt8) : Nat :=
  match h : GetOp it with
  | (some (opcode, _), it') =>
    (if opcode = OP_CODESEPARATOR then 1 else 0) + countCodeSeparators it'
  | (none, _) => 0
termination_by it.length
decreasing_by exact GetOp_length_lt h

/-- The second loop of `SerializeScriptCode`, from `itBegin` and `it`: the bytes it writes, and
`itBegin` and `it` when `GetOp` fails. -/
def writeCodeLoop (itBegin it : List UInt8) : List UInt8 × List UInt8 × List UInt8 :=
  match h : GetOp it with
  | (some (opcode, _), it') =>
    if opcode = OP_CODESEPARATOR then
      -- `s.write(itBegin, it - itBegin - 1)`: the bytes before the separator
      let r := writeCodeLoop it' it'
      (itBegin.take (itBegin.length - it'.length - 1) ++ r.1, r.2)
    else writeCodeLoop itBegin it'
  | (none, it') => ([], itBegin, it')
termination_by it.length
decreasing_by all_goals exact GetOp_length_lt h

/-- `CTransactionSignatureSerializer::SerializeScriptCode`: the size without the separators, the
bytes between them, and the bytes from the last one up to where `GetOp` stopped. -/
def SerializeScriptCode (scriptCode : List UInt8) : List UInt8 :=
  let nCodeSeparators := countCodeSeparators scriptCode
  let r := writeCodeLoop scriptCode scriptCode
  writeCompactSize (scriptCode.length - nCodeSeparators) ++ r.1 ++
    (if r.2.1 ≠ [] then r.2.1.take (r.2.1.length - r.2.2.length) else [])

theorem countCodeSeparators_eq (it : List UInt8) :
    countCodeSeparators it = (parseScript it).separators := by
  induction it using parseScript.induct with
  | case1 it opcode d it' h ih =>
    rw [countCodeSeparators, parseScript_separators_of_some h, ← ih]
    split <;> simp_all
  | case2 it it' h =>
    rw [countCodeSeparators, parseScript_of_none h]
    split <;> simp_all [ScriptParse.separators]

/-- Bytes before a suffix of `it` stay before it behind any prefix `u`. -/
theorem take_append_of_suffix {u it it' : List UInt8} (h : it' <:+ it) :
    (u ++ it).take ((u ++ it).length - it'.length) = u ++ it.take (it.length - it'.length) := by
  obtain ⟨t, rfl⟩ := h
  rw [take_length_sub_of_append (t := t) rfl, ← List.append_assoc,
    take_length_sub_of_append rfl]

/-- What the second loop and the write after it put in the stream: the loop's bytes, then the
bytes from `itBegin` up to `it`. -/
def writtenBytes (r : List UInt8 × List UInt8 × List UInt8) : List UInt8 :=
  r.1 ++ r.2.1.take (r.2.1.length - r.2.2.length)

theorem writtenBytes_prepend (w : List UInt8) (r : List UInt8 × List UInt8 × List UInt8) :
    writtenBytes (w ++ r.1, r.2) = w ++ writtenBytes r := by
  simp [writtenBytes]

/-- The second loop, with `u` the bytes since the last separator, writes them and the bytes of
the ops from `it` without separators, and leaves the bytes up to where `GetOp` stopped. -/
theorem writeCodeLoop_spec (it : List UInt8) :
    ∀ u : List UInt8, writtenBytes (writeCodeLoop (u ++ it) it) =
      u ++ (parseScript it).withoutSeparators ++
        (parseScript it).tail.take ((parseScript it).tail.length - (parseScript it).stop.length) := by
  induction it using parseScript.induct with
  | case1 it opcode d it' h ih =>
    intro u
    rw [parseScript_withoutSeparators_of_some h, parseScript_tail_of_some h,
      parseScript_stop_of_some h]
    by_cases hsep : opcode = OP_CODESEPARATOR
    · -- the separator ends the bytes written so far
      subst hsep
      have hit := GetOp_eq_codeSeparator h
      have hloop : writeCodeLoop (u ++ it) it =
          ((u ++ it).take ((u ++ it).length - it'.length - 1) ++ (writeCodeLoop it' it').1,
            (writeCodeLoop it' it').2) := by
        rw [writeCodeLoop]
        split <;> simp_all
      have hu : (u ++ it).take ((u ++ it).length - it'.length - 1) = u := by
        rw [hit, List.length_append, List.length_cons,
          show u.length + (it'.length + 1) - it'.length - 1 = u.length by omega]
        exact List.take_left' rfl
      have ih' := ih []
      rw [List.nil_append] at ih'
      rw [hloop, hu, writtenBytes_prepend, ih', if_pos rfl]
      simp
    · -- another op joins the bytes not yet written
      have hloop : writeCodeLoop (u ++ it) it = writeCodeLoop (u ++ it) it' := by
        rw [writeCodeLoop]
        split <;> simp_all
      have hbytes : u ++ it = (u ++ it.take (it.length - it'.length)) ++ it' := by
        rw [List.append_assoc, take_append_of_GetOp h]
      rw [hloop, hbytes, ih, if_neg hsep]
      simp
  | case2 it it' h =>
    intro u
    have hloop : writeCodeLoop (u ++ it) it = ([], u ++ it, it') := by
      rw [writeCodeLoop]
      split <;> simp_all
    have hsuffix : it' <:+ it := by simpa [h] using GetOp_suffix it
    rw [hloop, writtenBytes, parseScript_of_none h, take_append_of_suffix hsuffix]
    simp [ScriptParse.withoutSeparators]

/-- What `SerializeScriptCode` writes, in terms of the ops `GetOp` reads. -/
theorem SerializeScriptCode_eq (scriptCode : List UInt8) :
    SerializeScriptCode scriptCode =
      writeCompactSize (scriptCode.length - (parseScript scriptCode).separators) ++
        (parseScript scriptCode).withoutSeparators ++
        (parseScript scriptCode).tail.take
          ((parseScript scriptCode).tail.length - (parseScript scriptCode).stop.length) := by
  have hspec := writeCodeLoop_spec scriptCode []
  rw [List.nil_append, writtenBytes] at hspec
  -- the guard `itBegin != end` only skips writing nothing
  have hguard : ∀ b e : List UInt8,
      (if b ≠ [] then b.take (b.length - e.length) else []) = b.take (b.length - e.length) := by
    intro b e
    split_ifs with hb
    · rfl
    · rw [not_not.mp hb, List.take_nil]
  rw [SerializeScriptCode, countCodeSeparators_eq, hguard, List.append_assoc, hspec,
    List.nil_append, List.append_assoc]

/-- The serializer writes the script code as `SignatureHashOld` does exactly when `GetOp` stops
at the end of the script. -/
theorem SerializeScriptCode_eq_writeBytes_iff (scriptCode : List UInt8) :
    SerializeScriptCode scriptCode = writeBytes (FindAndDelete scriptCode [OP_CODESEPARATOR]).1 ↔
      (parseScript scriptCode).stop = [] := by
  have hlen := length_withoutSeparators_append_tail scriptCode
  have hstop := (parseScript_stop_suffix scriptCode).length_le
  rw [SerializeScriptCode_eq, findAndDelete_codeSeparator, writeBytes,
    show scriptCode.length - (parseScript scriptCode).separators =
      ((parseScript scriptCode).withoutSeparators ++ (parseScript scriptCode).tail).length by omega,
    List.append_assoc, List.append_cancel_left_eq, List.append_cancel_left_eq,
    List.take_eq_self_iff, ← List.length_eq_zero_iff]
  omega

/-! ### The serializer -/

/-- `CTransactionSignatureSerializer`: the transaction, the script code, the input signed, and
the flags read from the hash type. -/
structure CTransactionSignatureSerializer where
  txTo : CTransaction
  scriptCode : List UInt8
  nIn : Nat
  fAnyoneCanPay : Bool
  fHashSingle : Bool
  fHashNone : Bool

namespace CTransactionSignatureSerializer

/-- The constructor, from the `int` hash type. -/
def new (txTo : CTransaction) (scriptCode : List UInt8) (nIn : Nat) (nHashType : Int) :
    CTransactionSignatureSerializer :=
  { txTo, scriptCode, nIn
    fAnyoneCanPay := hashTypeBits nHashType &&& SIGHASH_ANYONECANPAY != 0
    fHashSingle := hashTypeBits nHashType &&& 0x1f == SIGHASH_SINGLE
    fHashNone := hashTypeBits nHashType &&& 0x1f == SIGHASH_NONE }

section New

variable (txTo : CTransaction) (scriptCode : List UInt8) (nIn : Nat) (nHashType : Int)

@[simp] theorem new_txTo : (new txTo scriptCode nIn nHashType).txTo = txTo := rfl

@[simp] theorem new_scriptCode : (new txTo scriptCode nIn nHashType).scriptCode = scriptCode := rfl

@[simp] theorem new_nIn : (new txTo scriptCode nIn nHashType).nIn = nIn := rfl

end New

variable (t : CTransactionSignatureSerializer)

/-- `SerializeInput(s, nInput)`. -/
def SerializeInput (nInput : Nat) : List UInt8 :=
  -- In case of SIGHASH_ANYONECANPAY, only the input being signed is serialized
  let nInput := if t.fAnyoneCanPay then t.nIn else nInput
  let txin := t.txTo.vin.getD nInput {}
  serializeOutPoint txin.prevout ++
    -- Blank out other inputs' signatures
    (if nInput ≠ t.nIn then writeBytes [] else SerializeScriptCode t.scriptCode) ++
    -- Let the others update at will
    (if nInput ≠ t.nIn ∧ (t.fHashSingle ∨ t.fHashNone) then writeLE 4 0
      else writeLE 4 txin.nSequence)

/-- `SerializeOutput(s, nOutput)`. -/
def SerializeOutput (nOutput : Nat) : List UInt8 :=
  -- Do not lock-in the txout payee at other indices as txin
  if t.fHashSingle ∧ nOutput ≠ t.nIn then serializeTxOut default
  else serializeTxOut (t.txTo.vout.getD nOutput default)

/-- `Serialize(s)`. -/
def Serialize : List UInt8 :=
  let nInputs := if t.fAnyoneCanPay then 1 else t.txTo.vin.length
  let nOutputs := if t.fHashNone then 0 else if t.fHashSingle then t.nIn + 1 else t.txTo.vout.length
  writeLE 4 (t.txTo.nVersion % 2 ^ 32).toNat ++
    writeCompactSize nInputs ++ (List.range nInputs).flatMap t.SerializeInput ++
    writeCompactSize nOutputs ++ (List.range nOutputs).flatMap t.SerializeOutput ++
    writeLE 4 t.txTo.nLockTime

end CTransactionSignatureSerializer

/-- `SignatureHash` for `SIGVERSION_BASE`: the hash of the serializer's stream and the hash
type, or `one` for an input out of range and for `SIGHASH_SINGLE` without its output. -/
def SignatureHash (Hash : List UInt8 → Uint256) (scriptCode : List UInt8) (txTo : CTransaction)
    (nIn : Nat) (nHashType : Int) : Uint256 :=
  if nIn ≥ txTo.vin.length then SignatureHash.one
  else if hashTypeBits nHashType &&& 0x1f = SIGHASH_SINGLE ∧ nIn ≥ txTo.vout.length then
    SignatureHash.one
  else
    Hash ((CTransactionSignatureSerializer.new txTo scriptCode nIn nHashType).Serialize ++
      writeLE 4 (hashTypeBits nHashType))
where
  /-- `uint256S("00…01")`. -/
  one : Uint256 := ⟨1 :: List.replicate 31 0, rfl⟩

/-! ### The reference construction -/

namespace SignatureHashOld

/-- `txTmp.vin[i].nSequence = 0` for every `i ≠ nIn`. -/
def zeroSequences (nIn : Nat) (vin : List CTxIn) : List CTxIn :=
  vin.mapIdx fun i txin => if i ≠ nIn then { txin with nSequence := 0 } else txin

/-- The copy `txTmp` of `txTo` that `SignatureHashOld` serializes, or `none` where it returns
`one`. -/
def txTmp (scriptCode : List UInt8) (txTo : CTransaction) (nIn : Nat) (nHashType : Int) :
    Option CTransaction :=
  if nIn ≥ txTo.vin.length then none else
  let scriptCode := (FindAndDelete scriptCode [OP_CODESEPARATOR]).1
  -- Blank out other inputs' signatures
  let vin := (txTo.vin.map fun txin => { txin with scriptSig := [] }).modify nIn
    fun txin => { txin with scriptSig := scriptCode }
  -- Blank out some of the outputs
  let blanked : Option (List CTxIn × List CTxOut) :=
    if hashTypeBits nHashType &&& 0x1f = SIGHASH_NONE then some (zeroSequences nIn vin, [])
    else if hashTypeBits nHashType &&& 0x1f = SIGHASH_SINGLE then
      if nIn ≥ txTo.vout.length then none
      else
        some (zeroSequences nIn vin,
          (txTo.vout.take (nIn + 1)).mapIdx fun i txout => if i < nIn then default else txout)
    else some (vin, txTo.vout)
  blanked.map fun (vin, vout) =>
    -- Blank out other inputs completely
    { txTo with
      vin := if hashTypeBits nHashType &&& SIGHASH_ANYONECANPAY ≠ 0 then [vin.getD nIn {}] else vin
      vout }

end SignatureHashOld

/-- `SignatureHashOld` of `sighash_tests.cpp`: the hash of `txTmp`, serialized without
witnesses, and the hash type. -/
def SignatureHashOld (Hash : List UInt8 → Uint256) (scriptCode : List UInt8) (txTo : CTransaction)
    (nIn : Nat) (nHashType : Int) : Uint256 :=
  match SignatureHashOld.txTmp scriptCode txTo nIn nHashType with
  | none => SignatureHash.one
  | some txTmp => Hash (serializeTransaction false txTmp ++ writeLE 4 (hashTypeBits nHashType))

/-! ### The two streams -/

theorem flatMap_range_split {α : Type} (f : Nat → List α) {k n : Nat} (hk : k < n) :
    (List.range n).flatMap f =
      (List.range k).flatMap f ++ f k ++ (List.range' (k + 1) (n - (k + 1))).flatMap f := by
  have hn : n = k + (n - (k + 1) + 1) := by omega
  conv_lhs => rw [hn, List.range_eq_range', ← List.range'_append, List.range'_succ]
  simp [List.range_eq_range']

/-- A vector written element by element, by index. -/
theorem writeVector_eq_range {α : Type} (enc : α → List UInt8) (v : List α) (d : α) :
    writeVector enc v =
      writeCompactSize v.length ++ (List.range v.length).flatMap fun i => enc (v.getD i d) := by
  rw [writeVector]
  congr 1
  induction v with
  | nil => rfl
  | cons x v ih =>
    rw [List.length_cons, List.range_succ_eq_map, List.flatMap_cons, List.flatMap_cons,
      List.flatMap_map, ih]
    simp

namespace CTransactionSignatureSerializer

variable (t : CTransactionSignatureSerializer)

/-- `SerializeInput` with the bytes `w` in the place of the script code. -/
def SerializeInputWith (w : List UInt8) (nInput : Nat) : List UInt8 :=
  let nInput := if t.fAnyoneCanPay then t.nIn else nInput
  let txin := t.txTo.vin.getD nInput {}
  serializeOutPoint txin.prevout ++ (if nInput ≠ t.nIn then writeBytes [] else w) ++
    (if nInput ≠ t.nIn ∧ (t.fHashSingle ∨ t.fHashNone) then writeLE 4 0
      else writeLE 4 txin.nSequence)

/-- `Serialize` with the bytes `w` in the place of the script code. -/
def SerializeWith (w : List UInt8) : List UInt8 :=
  let nInputs := if t.fAnyoneCanPay then 1 else t.txTo.vin.length
  let nOutputs := if t.fHashNone then 0 else if t.fHashSingle then t.nIn + 1 else t.txTo.vout.length
  writeLE 4 (t.txTo.nVersion % 2 ^ 32).toNat ++
    writeCompactSize nInputs ++ (List.range nInputs).flatMap (t.SerializeInputWith w) ++
    writeCompactSize nOutputs ++ (List.range nOutputs).flatMap t.SerializeOutput ++
    writeLE 4 t.txTo.nLockTime

theorem Serialize_eq_SerializeWith : t.Serialize = t.SerializeWith (SerializeScriptCode t.scriptCode) :=
  rfl

/-- The input signed is written around `w`. -/
theorem SerializeInputWith_signed (w : List UInt8) {nInput : Nat}
    (h : (if t.fAnyoneCanPay then t.nIn else nInput) = t.nIn) :
    t.SerializeInputWith w nInput = serializeOutPoint (t.txTo.vin.getD t.nIn {}).prevout ++ w ++
      writeLE 4 (t.txTo.vin.getD t.nIn {}).nSequence := by
  simp only [SerializeInputWith, h, ne_eq, not_true_eq_false, if_false, false_and]

/-- The other inputs do not depend on `w`. -/
theorem SerializeInputWith_other (w : List UInt8) {nInput : Nat}
    (h : (if t.fAnyoneCanPay then t.nIn else nInput) ≠ t.nIn) :
    t.SerializeInputWith w nInput = t.SerializeInputWith [] nInput := by
  simp only [SerializeInputWith, if_pos h]

/-- The script code is written once, between bytes that do not depend on it. -/
theorem SerializeWith_eq_append (hIn : t.nIn < t.txTo.vin.length) :
    ∃ P Q, ∀ w, t.SerializeWith w = P ++ w ++ Q := by
  have hinputs : ∃ P Q, ∀ w,
      (List.range (if t.fAnyoneCanPay then 1 else t.txTo.vin.length)).flatMap
        (t.SerializeInputWith w) = P ++ w ++ Q := by
    cases hacp : t.fAnyoneCanPay
    · -- every input, the signed one among them
      refine ⟨(List.range t.nIn).flatMap (t.SerializeInputWith []) ++
          serializeOutPoint (t.txTo.vin.getD t.nIn {}).prevout,
        writeLE 4 (t.txTo.vin.getD t.nIn {}).nSequence ++
          (List.range' (t.nIn + 1) (t.txTo.vin.length - (t.nIn + 1))).flatMap
            (t.SerializeInputWith []), fun w => ?_⟩
      have hbefore : (List.range t.nIn).flatMap (t.SerializeInputWith w) =
          (List.range t.nIn).flatMap (t.SerializeInputWith []) := by
        refine List.flatMap_congr fun i hi => t.SerializeInputWith_other w ?_
        rw [hacp, if_neg Bool.false_ne_true]
        exact Nat.ne_of_lt (List.mem_range.mp hi)
      have hafter : (List.range' (t.nIn + 1) (t.txTo.vin.length - (t.nIn + 1))).flatMap
            (t.SerializeInputWith w) =
          (List.range' (t.nIn + 1) (t.txTo.vin.length - (t.nIn + 1))).flatMap
            (t.SerializeInputWith []) := by
        refine List.flatMap_congr fun i hi => t.SerializeInputWith_other w ?_
        rw [hacp, if_neg Bool.false_ne_true]
        exact Nat.ne_of_gt (List.mem_range'_1.mp hi).1
      rw [if_neg Bool.false_ne_true, flatMap_range_split _ hIn, hbefore, hafter,
        t.SerializeInputWith_signed w (by rw [hacp, if_neg Bool.false_ne_true])]
      simp only [List.append_assoc]
    · -- only the signed one
      refine ⟨serializeOutPoint (t.txTo.vin.getD t.nIn {}).prevout,
        writeLE 4 (t.txTo.vin.getD t.nIn {}).nSequence, fun w => ?_⟩
      rw [if_pos rfl, List.range_one, List.flatMap_singleton,
        t.SerializeInputWith_signed w (by rw [hacp, if_pos rfl])]
  obtain ⟨P, Q, hPQ⟩ := hinputs
  refine ⟨writeLE 4 (t.txTo.nVersion % 2 ^ 32).toNat ++
      writeCompactSize (if t.fAnyoneCanPay then 1 else t.txTo.vin.length) ++ P,
    Q ++ writeCompactSize
        (if t.fHashNone then 0 else if t.fHashSingle then t.nIn + 1 else t.txTo.vout.length) ++
      (List.range (if t.fHashNone then 0 else if t.fHashSingle then t.nIn + 1
        else t.txTo.vout.length)).flatMap t.SerializeOutput ++ writeLE 4 t.txTo.nLockTime,
    fun w => ?_⟩
  rw [SerializeWith, hPQ]
  simp only [List.append_assoc]

/-- An input written from a blanked copy: its script the bytes of `del` when it is the input
signed and empty otherwise, its sequence zero for the others under `SIGHASH_SINGLE` or
`SIGHASH_NONE`. -/
theorem SerializeInputWith_eq_serializeTxIn (del : List UInt8) (v1 : List CTxIn)
    (hv1 : ∀ i < t.txTo.vin.length, v1.getD i {} =
      { t.txTo.vin.getD i {} with
        scriptSig := if i = t.nIn then del else []
        nSequence := if i ≠ t.nIn ∧ (t.fHashSingle ∨ t.fHashNone) then 0
          else (t.txTo.vin.getD i {}).nSequence })
    {i : Nat} (hi : (if t.fAnyoneCanPay then t.nIn else i) < t.txTo.vin.length) :
    t.SerializeInputWith (writeBytes del) i =
      serializeTxIn (v1.getD (if t.fAnyoneCanPay then t.nIn else i) {}) := by
  rw [hv1 _ hi, SerializeInputWith, serializeTxIn]
  dsimp only
  by_cases hsigned : (if t.fAnyoneCanPay then t.nIn else i) = t.nIn
  · simp only [hsigned, ne_eq, not_true_eq_false, if_false, false_and, if_true]
  · simp only [hsigned, ne_eq, not_false_eq_true, if_true, true_and, if_false]
    split_ifs <;> rfl

end CTransactionSignatureSerializer

open CTransactionSignatureSerializer in
/-- A vector whose elements, by index, are written as `g` writes the indices. -/
theorem writeVector_eq_of_getD {α : Type} (enc : α → List UInt8) (v : List α) (d : α) {n : Nat}
    (g : Nat → List UInt8) (hlen : v.length = n) (hg : ∀ i < n, enc (v.getD i d) = g i) :
    writeVector enc v = writeCompactSize n ++ (List.range n).flatMap g := by
  rw [writeVector_eq_range enc v d, hlen]
  congr 1
  exact List.flatMap_congr fun i hi => hg i (List.mem_range.mp hi)

namespace SignatureHashOld

theorem getD_blankSigs {vin : List CTxIn} {nIn i : Nat} (del : List UInt8) (hi : i < vin.length) :
    ((vin.map fun txin => { txin with scriptSig := [] }).modify nIn
        fun txin => { txin with scriptSig := del }).getD i {} =
      { vin.getD i {} with scriptSig := if i = nIn then del else [] } := by
  simp [List.getD_eq_getElem?_getD, hi]
  split_ifs <;> simp_all [eq_comm]

theorem getD_zeroSequences {vin : List CTxIn} {nIn i : Nat} (hi : i < vin.length) :
    (zeroSequences nIn vin).getD i {} =
      if i ≠ nIn then { vin.getD i {} with nSequence := 0 } else vin.getD i {} := by
  simp [zeroSequences, List.getD_eq_getElem?_getD, hi]

/-- `txTmp`, with its blanking read from the serializer's flags. -/
theorem txTmp_eq {scriptCode : List UInt8} {txTo : CTransaction} {nIn : Nat} {nHashType : Int}
    (hIn : nIn < txTo.vin.length)
    (hSingle : hashTypeBits nHashType &&& 0x1f = SIGHASH_SINGLE → nIn < txTo.vout.length) :
    let t := CTransactionSignatureSerializer.new txTo scriptCode nIn nHashType
    let v0 := (txTo.vin.map fun txin => { txin with scriptSig := [] }).modify nIn
      fun txin => { txin with scriptSig := (FindAndDelete scriptCode [OP_CODESEPARATOR]).1 }
    let v1 := if t.fHashSingle ∨ t.fHashNone then zeroSequences nIn v0 else v0
    txTmp scriptCode txTo nIn nHashType = some
      { txTo with
        vin := if t.fAnyoneCanPay then [v1.getD nIn {}] else v1
        vout := if t.fHashNone then []
          else if t.fHashSingle then
            (txTo.vout.take (nIn + 1)).mapIdx fun i txout => if i < nIn then default else txout
          else txTo.vout } := by
  dsimp only
  rw [txTmp, if_neg (not_le.mpr hIn)]
  dsimp only
  by_cases hn : hashTypeBits nHashType &&& 0x1f = SIGHASH_NONE
  · simp [CTransactionSignatureSerializer.new, hn]
  · by_cases hs : hashTypeBits nHashType &&& 0x1f = SIGHASH_SINGLE
    · simp [CTransactionSignatureSerializer.new, hs, not_le.mpr (hSingle hs), SIGHASH_SINGLE,
        SIGHASH_NONE]
    · simp [CTransactionSignatureSerializer.new, hn, hs]

end SignatureHashOld

/-- `SignatureHashOld`'s copy is written as the serializer writes the transaction, with the
script `FindAndDelete` leaves in the place of the script code. -/
theorem serializeTransaction_txTmp {scriptCode : List UInt8} {txTo : CTransaction} {nIn : Nat}
    {nHashType : Int} (hIn : nIn < txTo.vin.length)
    (hSingle : hashTypeBits nHashType &&& 0x1f = SIGHASH_SINGLE → nIn < txTo.vout.length) :
    ∃ txTmp, SignatureHashOld.txTmp scriptCode txTo nIn nHashType = some txTmp ∧
      serializeTransaction false txTmp =
        (CTransactionSignatureSerializer.new txTo scriptCode nIn nHashType).SerializeWith
          (writeBytes (FindAndDelete scriptCode [OP_CODESEPARATOR]).1) := by
  refine ⟨_, SignatureHashOld.txTmp_eq hIn hSingle, ?_⟩
  set t := CTransactionSignatureSerializer.new txTo scriptCode nIn nHashType with ht
  set del := (FindAndDelete scriptCode [OP_CODESEPARATOR]).1
  set v0 := (txTo.vin.map fun txin => { txin with scriptSig := [] }).modify nIn
    fun txin => { txin with scriptSig := del } with hv0def
  set v1 := if t.fHashSingle ∨ t.fHashNone then SignatureHashOld.zeroSequences nIn v0 else v0
    with hv1def
  have hv0len : v0.length = txTo.vin.length := by simp [v0]
  have hv1len : v1.length = txTo.vin.length := by
    rw [hv1def]
    split_ifs <;> simp [SignatureHashOld.zeroSequences, hv0len]
  -- each input of the copy, by index
  have hv1 : ∀ i < t.txTo.vin.length, v1.getD i {} =
      { t.txTo.vin.getD i {} with
        scriptSig := if i = t.nIn then del else []
        nSequence := if i ≠ t.nIn ∧ (t.fHashSingle ∨ t.fHashNone) then 0
          else (t.txTo.vin.getD i {}).nSequence } := by
    intro i hi
    have hv0i : v0.getD i {} =
        { txTo.vin.getD i {} with scriptSig := if i = nIn then del else [] } := by
      rw [hv0def]
      exact SignatureHashOld.getD_blankSigs del hi
    by_cases hz : t.fHashSingle ∨ t.fHashNone
    · rw [hv1def, if_pos hz, SignatureHashOld.getD_zeroSequences (by rwa [hv0len]), hv0i]
      by_cases hsigned : i = nIn
      · simp [hsigned, t]
      · simp [hsigned, hz, t]
    · rw [hv1def, if_neg hz, hv0i]
      simp [hz, t]
      rfl
  have hin : writeVector serializeTxIn (if t.fAnyoneCanPay then [v1.getD nIn {}] else v1) =
      writeCompactSize (if t.fAnyoneCanPay then 1 else txTo.vin.length) ++
        (List.range (if t.fAnyoneCanPay then 1 else txTo.vin.length)).flatMap
          (t.SerializeInputWith (writeBytes del)) := by
    cases hacp : t.fAnyoneCanPay
    · refine writeVector_eq_of_getD _ _ {} _ hv1len fun i hi => ?_
      rw [t.SerializeInputWith_eq_serializeTxIn del v1 hv1 (by rw [hacp]; exact hi), hacp]
      rfl
    · refine writeVector_eq_of_getD _ _ {} _ rfl fun i hi => ?_
      obtain rfl : i = 0 := by simpa using hi
      rw [t.SerializeInputWith_eq_serializeTxIn del v1 hv1 (by rw [hacp]; exact hIn), hacp]
      rfl
  have hout : writeVector serializeTxOut
        (if t.fHashNone then []
          else if t.fHashSingle then
            (txTo.vout.take (nIn + 1)).mapIdx fun i txout => if i < nIn then default else txout
          else txTo.vout) =
      writeCompactSize
          (if t.fHashNone then 0 else if t.fHashSingle then nIn + 1 else txTo.vout.length) ++
        (List.range (if t.fHashNone then 0 else if t.fHashSingle then nIn + 1
          else txTo.vout.length)).flatMap t.SerializeOutput := by
    cases hnone : t.fHashNone
    · cases hsingle : t.fHashSingle
      · -- every output
        refine writeVector_eq_of_getD _ _ default _ rfl fun i hi => ?_
        simp [CTransactionSignatureSerializer.SerializeOutput, hsingle, t]
      · -- the outputs up to the one signed, the earlier ones blanked
        have hvout : nIn < txTo.vout.length := hSingle (by simpa [t,
          CTransactionSignatureSerializer.new] using hsingle)
        refine writeVector_eq_of_getD _ _ default _ (by simp; omega) fun i hi => ?_
        simp only [CTransactionSignatureSerializer.SerializeOutput, hsingle, true_and]
        have hi' : i < txTo.vout.length := by simp at hi; omega
        by_cases hlt : i < nIn
        · simp [List.getD_eq_getElem?_getD, hlt, Nat.ne_of_lt hlt, hi', t,
            show i < nIn + 1 by omega]
        · have heq : i = nIn := by simp at hi; omega
          subst heq
          simp [List.getD_eq_getElem?_getD, hi', t]
    · -- no output
      simp [writeVector]
  rw [serializeTransaction_basic false (Bool.false_and _), CTransactionSignatureSerializer.SerializeWith]
  dsimp only
  rw [hin, hout]
  simp only [List.append_assoc]
  rfl

/-- The serializer's stream is `SignatureHashOld`'s exactly when `GetOp` stops at the end of the
script code. -/
theorem signatureHash_stream_eq_iff {scriptCode : List UInt8} {txTo : CTransaction} {nIn : Nat}
    {nHashType : Int} (hIn : nIn < txTo.vin.length)
    (hSingle : hashTypeBits nHashType &&& 0x1f = SIGHASH_SINGLE → nIn < txTo.vout.length) :
    ∃ txTmp, SignatureHashOld.txTmp scriptCode txTo nIn nHashType = some txTmp ∧
      ((CTransactionSignatureSerializer.new txTo scriptCode nIn nHashType).Serialize ++
          writeLE 4 (hashTypeBits nHashType) =
        serializeTransaction false txTmp ++ writeLE 4 (hashTypeBits nHashType) ↔
        (parseScript scriptCode).stop = []) := by
  obtain ⟨txTmp, htx, hser⟩ := serializeTransaction_txTmp hIn hSingle
  refine ⟨txTmp, htx, ?_⟩
  obtain ⟨P, Q, hPQ⟩ :=
    (CTransactionSignatureSerializer.new txTo scriptCode nIn nHashType).SerializeWith_eq_append hIn
  rw [CTransactionSignatureSerializer.Serialize_eq_SerializeWith, hser, hPQ, hPQ,
    List.append_cancel_right_eq, List.append_cancel_right_eq, List.append_cancel_left_eq,
    CTransactionSignatureSerializer.new_scriptCode]
  exact SerializeScriptCode_eq_writeBytes_iff scriptCode

/-- In range, `SignatureHash` hashes the serializer's stream. -/
theorem signatureHash_of_lt {scriptCode : List UInt8} {txTo : CTransaction} {nIn : Nat}
    {nHashType : Int} (hIn : nIn < txTo.vin.length)
    (hSingle : hashTypeBits nHashType &&& 0x1f = SIGHASH_SINGLE → nIn < txTo.vout.length)
    (Hash : List UInt8 → Uint256) :
    SignatureHash Hash scriptCode txTo nIn nHashType =
      Hash ((CTransactionSignatureSerializer.new txTo scriptCode nIn nHashType).Serialize ++
        writeLE 4 (hashTypeBits nHashType)) := by
  rw [SignatureHash, if_neg (not_le.mpr hIn),
    if_neg fun h => absurd (hSingle h.1) (not_lt.mpr h.2)]

theorem signatureHashOld_of_txTmp {scriptCode : List UInt8} {txTo : CTransaction} {nIn : Nat}
    {nHashType : Int} {txTmp : CTransaction}
    (h : SignatureHashOld.txTmp scriptCode txTo nIn nHashType = some txTmp)
    (Hash : List UInt8 → Uint256) :
    SignatureHashOld Hash scriptCode txTo nIn nHashType =
      Hash (serializeTransaction false txTmp ++ writeLE 4 (hashTypeBits nHashType)) := by
  rw [SignatureHashOld, h]

/-- Two different streams have a hash function that tells them apart. -/
theorem exists_hash_ne {a b : List UInt8} (h : a ≠ b) :
    ∃ Hash : List UInt8 → Uint256, Hash a ≠ Hash b := by
  refine ⟨fun s => if s = a then default else SignatureHash.one, ?_⟩
  dsimp only
  rw [if_pos rfl, if_neg (Ne.symm h)]
  decide

/-- `SignatureHash` agrees with `SignatureHashOld` for every hash function exactly when the
`GetOp` loop stops at the end of the script code. -/
theorem signatureHash_eq_signatureHashOld_iff (scriptCode : List UInt8) (txTo : CTransaction)
    (nIn : Nat) (nHashType : Int) (hIn : nIn < txTo.vin.length)
    (hSingle : hashTypeBits nHashType &&& 0x1f = SIGHASH_SINGLE → nIn < txTo.vout.length) :
    (∀ Hash : List UInt8 → Uint256, SignatureHash Hash scriptCode txTo nIn nHashType =
        SignatureHashOld Hash scriptCode txTo nIn nHashType) ↔
      (parseScript scriptCode).stop = [] := by
  obtain ⟨txTmp, htx, hiff⟩ := @signatureHash_stream_eq_iff scriptCode _ _ _ hIn hSingle
  rw [← hiff]
  constructor
  · intro h
    by_contra hne
    obtain ⟨Hash, hHash⟩ := exists_hash_ne hne
    apply hHash
    rw [← signatureHash_of_lt hIn hSingle Hash, ← signatureHashOld_of_txTmp htx Hash]
    exact h Hash
  · intro h Hash
    rw [signatureHash_of_lt hIn hSingle, signatureHashOld_of_txTmp htx, h]

/-- Two separated `OP_CHECKSIG`s, signed with `SIGHASH_SINGLE`: every op is read, and the two
hashes agree, here for the hash that keeps the first 32 bytes. -/
theorem signatureHash_eq_signatureHashOld_single :
    SignatureHash (fun b => ⟨(b ++ List.replicate 32 0).take 32, by simp⟩)
        [OP_CHECKSIG, OP_CODESEPARATOR, OP_CHECKSIG] { vin := [{}, {}], vout := [default] } 0 3 =
      SignatureHashOld (fun b => ⟨(b ++ List.replicate 32 0).take 32, by simp⟩)
        [OP_CHECKSIG, OP_CODESEPARATOR, OP_CHECKSIG] { vin := [{}, {}], vout := [default] } 0 3 := by
  have hstop : (parseScript [OP_CHECKSIG, OP_CODESEPARATOR, OP_CHECKSIG]).stop = [] := by
    rw [parseScript_cons_of_gt (by decide), parseScript_codeSeparator,
      parseScript_cons_of_gt (by decide), @parseScript_of_none _ [] rfl]
  exact (signatureHash_eq_signatureHashOld_iff _ _ 0 3 (by decide) (fun _ => by decide)).mpr hstop _

/-- A push of two bytes with one present: `GetOp` stops after its opcode, the serializer writes
the script code one byte short, and the two hashes differ for some hash function. -/
theorem signatureHash_truncated_push :
    (parseScript [0x02, 0xaa]).stop = [0xaa] ∧
      ∃ Hash : List UInt8 → Uint256,
        SignatureHash Hash [0x02, 0xaa] { vin := [{}] } 0 1 ≠
          SignatureHashOld Hash [0x02, 0xaa] { vin := [{}] } 0 1 := by
  have hstop : (parseScript [0x02, 0xaa]).stop = [0xaa] := by
    rw [@parseScript_of_none _ [0xaa] (by decide)]
  have hIn : 0 < ({ vin := [{}] } : CTransaction).vin.length := by decide
  have hSingle : hashTypeBits 1 &&& 0x1f = SIGHASH_SINGLE →
      0 < ({ vin := [{}] } : CTransaction).vout.length := by decide
  refine ⟨hstop, ?_⟩
  obtain ⟨txTmp, htx, hiff⟩ :=
    @signatureHash_stream_eq_iff [0x02, 0xaa] _ _ _ hIn hSingle
  have hne := mt hiff.mp (by rw [hstop]; exact List.cons_ne_nil _ _)
  obtain ⟨Hash, hHash⟩ := exists_hash_ne hne
  refine ⟨Hash, ?_⟩
  rwa [signatureHash_of_lt hIn hSingle Hash, signatureHashOld_of_txTmp htx Hash]

end Trumpow
