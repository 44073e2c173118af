import Trumpow.Primitives.Uint256

/-!
# Script — building scripts and recognising templates

A `CScript` is its bytes, a `List UInt8`.  `CScript::operator<<(const std::vector<unsigned char>&)`
appends a push of the data: its length as a one-byte opcode below `OP_PUSHDATA1`, else
`OP_PUSHDATA1`, `OP_PUSHDATA2` or `OP_PUSHDATA4` followed by the length in one, two or four
little-endian bytes; then the data.  The template tests of `script.cpp` check the size and
the bytes at fixed positions.
-/

namespace Trumpow

def OP_0 : UInt8 := 0x00
def OP_PUSHDATA1 : UInt8 := 0x4c
def OP_PUSHDATA2 : UInt8 := 0x4d
def OP_PUSHDATA4 : UInt8 := 0x4e
def OP_RETURN : UInt8 := 0x6a
def OP_DUP : UInt8 := 0x76
def OP_EQUAL : UInt8 := 0x87
def OP_EQUALVERIFY : UInt8 := 0x88
def OP_HASH160 : UInt8 := 0xa9
def OP_CHECKSIG : UInt8 := 0xac

def MAX_SCRIPT_SIZE : Nat := 10000

/-- `CScript::IsUnspendable()`: an `OP_RETURN` script, or one above `MAX_SCRIPT_SIZE`. -/
def IsUnspendable (script : List UInt8) : Prop :=
  script.head? = some OP_RETURN ∨ script.length > MAX_SCRIPT_SIZE

instance (script : List UInt8) : Decidable (IsUnspendable script) :=
  inferInstanceAs (Decidable (_ ∨ _))

/-- `CScript::IsPayToScriptHash()`. -/
def isPayToScriptHash (script : List UInt8) : Bool :=
  script.length == 23 && script.getD 0 0 == OP_HASH160 && script.getD 1 0 == 0x14 &&
    script.getD 22 0 == OP_EQUAL

/-- `CScript::IsPayToWitnessScriptHash()`. -/
def isPayToWitnessScriptHash (script : List UInt8) : Bool :=
  script.length == 34 && script.getD 0 0 == OP_0 && script.getD 1 0 == 0x20

/-- `CScript::IsPayToPublicKeyHash()`. -/
def isPayToPublicKeyHash (script : List UInt8) : Bool :=
  script.length == 25 && script.getD 0 0 == OP_DUP && script.getD 1 0 == OP_HASH160 &&
    script.getD 2 0 == 0x14 && script.getD 23 0 == OP_EQUALVERIFY && script.getD 24 0 == OP_CHECKSIG

/-- `CScript::IsPayToWitnessPubkeyHash()`. -/
def isPayToWitnessPubkeyHash (script : List UInt8) : Bool :=
  script.length == 22 && script.getD 0 0 == OP_0 && script.getD 1 0 == 0x14

/-- `script << b` for a byte vector `b`. -/
def pushBytes (script b : List UInt8) : List UInt8 :=
  script ++
    (if b.length < OP_PUSHDATA1.toNat then [UInt8.ofNat b.length]
    else if b.length ≤ 0xff then [OP_PUSHDATA1, UInt8.ofNat b.length]
    else if b.length ≤ 0xffff then OP_PUSHDATA2 :: writeLE16 b.length
    else OP_PUSHDATA4 :: writeLE32 b.length) ++ b

/-- Data shorter than `OP_PUSHDATA1` is pushed behind a single byte, its length. -/
theorem pushBytes_of_lt {script b : List UInt8} (h : b.length < 0x4c) :
    pushBytes script b = script ++ UInt8.ofNat b.length :: b := by
  rw [pushBytes, if_pos (by simpa [OP_PUSHDATA1] using h)]
  simp

end Trumpow
