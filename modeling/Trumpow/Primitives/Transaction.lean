import Trumpow.Primitives.Uint256

/-!
# Primitives — transactions

`primitives/transaction.h`, with the fields the modelled code reads.  A default value is what
the C++ default constructor builds: `COutPoint()` is null (`hash` zero, `n` all ones),
`CTxOut()` is null (`nValue = -1`, empty script), `CTxIn()` has sequence `SEQUENCE_FINAL` and an
empty witness, `CMutableTransaction()` has version `CURRENT_VERSION`, no inputs or outputs and
lock time `0`.  The transaction hash `GetHash()` is a parameter
of the functions that use it.
-/

namespace Trumpow

/-- `COutPoint`: the hash of a transaction and the index of one of its outputs. -/
structure COutPoint where
  hash : Uint256 := default
  n : Nat := 0xffffffff
deriving DecidableEq

/-- `COutPoint::IsNull()`. -/
def COutPoint.IsNull (o : COutPoint) : Prop := o.hash = default ∧ o.n = 0xffffffff

instance : DecidablePred COutPoint.IsNull := fun o =>
  inferInstanceAs (Decidable (o.hash = default ∧ o.n = 0xffffffff))

/-- `CTxIn::SEQUENCE_FINAL`. -/
def SEQUENCE_FINAL : Nat := 0xffffffff

/-- `CTxIn`: the output it spends, its script, its sequence number and its witness stack
(`scriptWitness.stack`). -/
structure CTxIn where
  prevout : COutPoint := {}
  scriptSig : List UInt8 := []
  nSequence : Nat := SEQUENCE_FINAL
  scriptWitness : List (List UInt8) := []
deriving DecidableEq

/-- `CTxOut`: an amount (`CAmount`, an `int64_t`) and a script. -/
structure CTxOut where
  nValue : Int
  scriptPubKey : List UInt8
deriving DecidableEq

/-- `CTxOut()`, after `SetNull()`. -/
instance : Inhabited CTxOut := ⟨⟨-1, []⟩⟩

/-- `CTxOut::IsNull()`: a spent output. -/
def CTxOut.IsNull (o : CTxOut) : Prop := o.nValue = -1

instance : DecidablePred CTxOut.IsNull := fun o => inferInstanceAs (Decidable (o.nValue = -1))

def CURRENT_VERSION : Int := 1

/-- `CTransaction`. -/
structure CTransaction where
  nVersion : Int := CURRENT_VERSION
  vin : List CTxIn := []
  vout : List CTxOut := []
  nLockTime : Nat := 0
deriving DecidableEq

/-- `CTransaction::IsNull()`: no inputs and no outputs. -/
def CTransaction.IsNull (tx : CTransaction) : Prop := tx.vin = [] ∧ tx.vout = []

instance : DecidablePred CTransaction.IsNull := fun tx =>
  inferInstanceAs (Decidable (tx.vin = [] ∧ tx.vout = []))

/-- `CTransaction::HasWitness()`: some input has a non-empty witness stack. -/
def CTransaction.HasWitness (tx : CTransaction) : Bool := tx.vin.any fun txin => !txin.scriptWitness.isEmpty

/-- `CTransaction::IsCoinBase()`: one input, spending the null outpoint. -/
def CTransaction.IsCoinBase (tx : CTransaction) : Prop :=
  ∃ txin, tx.vin = [txin] ∧ txin.prevout.IsNull

instance : DecidablePred CTransaction.IsCoinBase := fun tx =>
  match h : tx.vin with
  | [txin] => decidable_of_iff (txin.prevout.IsNull) (by simp [CTransaction.IsCoinBase, h])
  | [] => isFalse (by simp [CTransaction.IsCoinBase, h])
  | _ :: _ :: _ => isFalse (by simp [CTransaction.IsCoinBase, h])

end Trumpow
