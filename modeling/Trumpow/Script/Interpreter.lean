import Trumpow.Script.SigHash
import Trumpow.Script.ScriptNum

/-!
# Script — the interpreter's vocabulary

`interpreter.cpp`, `interpreter.h`, `script_error.h`.  A stack element is a `valtype`, a byte
vector.  The stack is held top first: `stacktop(-i)` is its `i`-th element.  A computation of the
interpreter ends normally, or with `set_error` (`EvalScript` returns `false` and sets `serror`), or
where the program's behaviour is not defined: an `assert` that fails or an `int64_t` that
overflows (`Exit.abort`).  `vector::at` past the stack, `popstack` on an empty stack and the
`scriptnum_error` of `CScriptNum`'s constructor throw; `EvalScript`'s `catch (...)` turns each
into `SCRIPT_ERR_UNKNOWN_ERROR`, and the model ends there with that error.

The checker's three checks and the hash functions of the hashing opcodes are parameters: a
`BaseSignatureChecker` is any three functions, and `ScriptCrypto` holds the digests and
`CPubKey::CheckLowS`.  The encoding checks of signatures and keys are modelled as the source
writes them.
-/

namespace Trumpow

/-- A stack element. -/
abbrev valtype := List UInt8

/-- The codes of `script_error.h` that `EvalScript` sets. -/
inductive ScriptError where
  | SCRIPT_ERR_UNKNOWN_ERROR
  | SCRIPT_ERR_OP_RETURN
  | SCRIPT_ERR_SCRIPT_SIZE
  | SCRIPT_ERR_PUSH_SIZE
  | SCRIPT_ERR_OP_COUNT
  | SCRIPT_ERR_STACK_SIZE
  | SCRIPT_ERR_SIG_COUNT
  | SCRIPT_ERR_PUBKEY_COUNT
  | SCRIPT_ERR_VERIFY
  | SCRIPT_ERR_EQUALVERIFY
  | SCRIPT_ERR_CHECKMULTISIGVERIFY
  | SCRIPT_ERR_CHECKSIGVERIFY
  | SCRIPT_ERR_NUMEQUALVERIFY
  | SCRIPT_ERR_BAD_OPCODE
  | SCRIPT_ERR_DISABLED_OPCODE
  | SCRIPT_ERR_INVALID_STACK_OPERATION
  | SCRIPT_ERR_INVALID_ALTSTACK_OPERATION
  | SCRIPT_ERR_UNBALANCED_CONDITIONAL
  | SCRIPT_ERR_NEGATIVE_LOCKTIME
  | SCRIPT_ERR_UNSATISFIED_LOCKTIME
  | SCRIPT_ERR_SIG_HASHTYPE
  | SCRIPT_ERR_SIG_DER
  | SCRIPT_ERR_MINIMALDATA
  | SCRIPT_ERR_SIG_HIGH_S
  | SCRIPT_ERR_SIG_NULLDUMMY
  | SCRIPT_ERR_PUBKEYTYPE
  | SCRIPT_ERR_MINIMALIF
  | SCRIPT_ERR_SIG_NULLFAIL
  | SCRIPT_ERR_DISCOURAGE_UPGRADABLE_NOPS
  | SCRIPT_ERR_WITNESS_PUBKEYTYPE
  deriving DecidableEq, Repr

open ScriptError

/-- How a computation of the interpreter ends other than normally. -/
inductive Exit where
  /-- `set_error(serror, …)`: the function returns `false`. -/
  | error (serror : ScriptError)
  /-- A failed `assert`, or an `int64_t` overflow. -/
  | abort
  deriving DecidableEq, Repr

inductive SigVersion where
  | SIGVERSION_BASE
  | SIGVERSION_WITNESS_V0
  deriving DecidableEq, Repr

open SigVersion

/-! ### Flags and limits -/

def SCRIPT_VERIFY_STRICTENC : Nat := 1 <<< 1
def SCRIPT_VERIFY_DERSIG : Nat := 1 <<< 2
def SCRIPT_VERIFY_LOW_S : Nat := 1 <<< 3
def SCRIPT_VERIFY_NULLDUMMY : Nat := 1 <<< 4
def SCRIPT_VERIFY_MINIMALDATA : Nat := 1 <<< 6
def SCRIPT_VERIFY_DISCOURAGE_UPGRADABLE_NOPS : Nat := 1 <<< 7
def SCRIPT_VERIFY_CHECKLOCKTIMEVERIFY : Nat := 1 <<< 9
def SCRIPT_VERIFY_CHECKSEQUENCEVERIFY : Nat := 1 <<< 10
def SCRIPT_VERIFY_MINIMALIF : Nat := 1 <<< 13
def SCRIPT_VERIFY_NULLFAIL : Nat := 1 <<< 14
def SCRIPT_VERIFY_WITNESS_PUBKEYTYPE : Nat := 1 <<< 15

def MAX_SCRIPT_ELEMENT_SIZE : Nat := 520
def MAX_OPS_PER_SCRIPT : Int := 201
def MAX_PUBKEYS_PER_MULTISIG : Int := 20

def SIGHASH_ALL : Nat := 1

/-- `CTxIn::SEQUENCE_LOCKTIME_DISABLE_FLAG`. -/
def SEQUENCE_LOCKTIME_DISABLE_FLAG : Nat := 1 <<< 31

/-! ### Opcodes

`OP_0`, the pushes, `OP_RETURN`, `OP_DUP`, `OP_EQUAL`, `OP_EQUALVERIFY`, `OP_HASH160`,
`OP_CHECKSIG` and `OP_CODESEPARATOR` are defined with the scripts that use them. -/

def OP_1NEGATE : UInt8 := 0x4f
def OP_1 : UInt8 := 0x51
def OP_16 : UInt8 := 0x60
def OP_NOP : UInt8 := 0x61
def OP_IF : UInt8 := 0x63
def OP_NOTIF : UInt8 := 0x64
def OP_ELSE : UInt8 := 0x67
def OP_ENDIF : UInt8 := 0x68
def OP_VERIFY : UInt8 := 0x69
def OP_TOALTSTACK : UInt8 := 0x6b
def OP_FROMALTSTACK : UInt8 := 0x6c
def OP_2DROP : UInt8 := 0x6d
def OP_2DUP : UInt8 := 0x6e
def OP_3DUP : UInt8 := 0x6f
def OP_2OVER : UInt8 := 0x70
def OP_2ROT : UInt8 := 0x71
def OP_2SWAP : UInt8 := 0x72
def OP_IFDUP : UInt8 := 0x73
def OP_DEPTH : UInt8 := 0x74
def OP_DROP : UInt8 := 0x75
def OP_NIP : UInt8 := 0x77
def OP_OVER : UInt8 := 0x78
def OP_PICK : UInt8 := 0x79
def OP_ROLL : UInt8 := 0x7a
def OP_ROT : UInt8 := 0x7b
def OP_SWAP : UInt8 := 0x7c
def OP_TUCK : UInt8 := 0x7d
def OP_CAT : UInt8 := 0x7e
def OP_SUBSTR : UInt8 := 0x7f
def OP_LEFT : UInt8 := 0x80
def OP_RIGHT : UInt8 := 0x81
def OP_SIZE : UInt8 := 0x82
def OP_INVERT : UInt8 := 0x83
def OP_AND : UInt8 := 0x84
def OP_OR : UInt8 := 0x85
def OP_XOR : UInt8 := 0x86
def OP_1ADD : UInt8 := 0x8b
def OP_1SUB : UInt8 := 0x8c
def OP_2MUL : UInt8 := 0x8d
def OP_2DIV : UInt8 := 0x8e
def OP_NEGATE : UInt8 := 0x8f
def OP_ABS : UInt8 := 0x90
def OP_NOT : UInt8 := 0x91
def OP_0NOTEQUAL : UInt8 := 0x92
def OP_ADD : UInt8 := 0x93
def OP_SUB : UInt8 := 0x94
def OP_MUL : UInt8 := 0x95
def OP_DIV : UInt8 := 0x96
def OP_MOD : UInt8 := 0x97
def OP_LSHIFT : UInt8 := 0x98
def OP_RSHIFT : UInt8 := 0x99
def OP_BOOLAND : UInt8 := 0x9a
def OP_BOOLOR : UInt8 := 0x9b
def OP_NUMEQUAL : UInt8 := 0x9c
def OP_NUMEQUALVERIFY : UInt8 := 0x9d
def OP_NUMNOTEQUAL : UInt8 := 0x9e
def OP_LESSTHAN : UInt8 := 0x9f
def OP_GREATERTHAN : UInt8 := 0xa0
def OP_LESSTHANOREQUAL : UInt8 := 0xa1
def OP_GREATERTHANOREQUAL : UInt8 := 0xa2
def OP_MIN : UInt8 := 0xa3
def OP_MAX : UInt8 := 0xa4
def OP_WITHIN : UInt8 := 0xa5
def OP_RIPEMD160 : UInt8 := 0xa6
def OP_SHA1 : UInt8 := 0xa7
def OP_SHA256 : UInt8 := 0xa8
def OP_HASH256 : UInt8 := 0xaa
def OP_CHECKSIGVERIFY : UInt8 := 0xad
def OP_CHECKMULTISIG : UInt8 := 0xae
def OP_CHECKMULTISIGVERIFY : UInt8 := 0xaf
def OP_NOP1 : UInt8 := 0xb0
def OP_CHECKLOCKTIMEVERIFY : UInt8 := 0xb1
def OP_CHECKSEQUENCEVERIFY : UInt8 := 0xb2
def OP_NOP4 : UInt8 := 0xb3
def OP_NOP10 : UInt8 := 0xb9

/-! ### The stack -/

def vchFalse : valtype := []
def vchTrue : valtype := [1]

/-- `stacktop(-i)`: `stack.at(stack.size() - i)`.  Past the stack, `at` throws. -/
def stacktop (stack : List valtype) (i : Nat) : Except ScriptError valtype :=
  if 1 ≤ i ∧ i ≤ stack.length then .ok (stack.getD (i - 1) []) else .error SCRIPT_ERR_UNKNOWN_ERROR

/-- `popstack(stack)`; it throws `runtime_error` on an empty stack. -/
def popstack : List valtype → Except ScriptError (List valtype)
  | [] => .error SCRIPT_ERR_UNKNOWN_ERROR
  | _ :: stack => .ok stack

/-- `CScriptNum(vch, fRequireMinimal, nMaxNumSize)`, whose `scriptnum_error` is caught. -/
def scriptNum (vch : valtype) (fRequireMinimal : Bool) (nMaxNumSize : Nat) :
    Except ScriptError Int :=
  match CScriptNum.ofVch vch fRequireMinimal nMaxNumSize with
  | .ok v => .ok v
  | .error _ => .error SCRIPT_ERR_UNKNOWN_ERROR

/-- `CScriptNum::nDefaultMaxNumSize`. -/
def nDefaultMaxNumSize : Nat := 4

/-- `CastToBool(vch)`: some byte is not zero, other than a last byte `0x80` (negative zero). -/
def CastToBool : valtype → Bool
  | [] => false
  | b :: rest => if b ≠ 0 then (if rest = [] ∧ b = 0x80 then false else true) else CastToBool rest

@[simp]
theorem stacktop_of_lt {stack : List valtype} {i : Nat} (hi : 1 ≤ i) (hlen : i ≤ stack.length) :
    stacktop stack i = .ok (stack.getD (i - 1) []) := by
  rw [stacktop, if_pos ⟨hi, hlen⟩]

theorem scriptNum_eq_ok {vch : valtype} {fRequireMinimal : Bool} {nMaxNumSize : Nat} {v : Int}
    (h : scriptNum vch fRequireMinimal nMaxNumSize = .ok v) :
    CScriptNum.ofVch vch fRequireMinimal nMaxNumSize = .ok v := by
  unfold scriptNum at h
  split at h <;> simp_all

/-! ### Encodings of keys and signatures -/

def IsCompressedOrUncompressedPubKey (vchPubKey : valtype) : Bool :=
  if vchPubKey.length < 33 then false
  else if vchPubKey.getD 0 0 = 0x04 then vchPubKey.length = 65
  else if vchPubKey.getD 0 0 = 0x02 ∨ vchPubKey.getD 0 0 = 0x03 then vchPubKey.length = 33
  else false

def IsCompressedPubKey (vchPubKey : valtype) : Bool :=
  if vchPubKey.length ≠ 33 then false
  else if vchPubKey.getD 0 0 ≠ 0x02 ∧ vchPubKey.getD 0 0 ≠ 0x03 then false
  else true

/-- `IsValidSignatureEncoding(sig)`: the strict DER check of BIP66, a byte at a time. -/
def IsValidSignatureEncoding (sig : valtype) : Bool :=
  let lenR := (sig.getD 3 0).toNat
  let lenS := (sig.getD (5 + lenR) 0).toNat
  if sig.length < 9 then false
  else if sig.length > 73 then false
  else if sig.getD 0 0 ≠ 0x30 then false
  else if (sig.getD 1 0).toNat ≠ sig.length - 3 then false
  else if 5 + lenR ≥ sig.length then false
  else if lenR + lenS + 7 ≠ sig.length then false
  else if sig.getD 2 0 ≠ 0x02 then false
  else if lenR = 0 then false
  else if sig.getD 4 0 &&& 0x80 ≠ 0 then false
  else if lenR > 1 ∧ sig.getD 4 0 = 0x00 ∧ sig.getD 5 0 &&& 0x80 = 0 then false
  else if sig.getD (lenR + 4) 0 ≠ 0x02 then false
  else if lenS = 0 then false
  else if sig.getD (lenR + 6) 0 &&& 0x80 ≠ 0 then false
  else if lenS > 1 ∧ sig.getD (lenR + 6) 0 = 0x00 ∧ sig.getD (lenR + 7) 0 &&& 0x80 = 0 then false
  else true

def IsLowDERSignature (crypto_CheckLowS : valtype → Bool) (vchSig : valtype) :
    Except ScriptError Unit :=
  if !IsValidSignatureEncoding vchSig then .error SCRIPT_ERR_SIG_DER
  else if !crypto_CheckLowS (vchSig.take (vchSig.length - 1)) then .error SCRIPT_ERR_SIG_HIGH_S
  else .ok ()

/-- `IsDefinedHashtypeSignature(vchSig)`: the last byte, without `SIGHASH_ANYONECANPAY`, is
`SIGHASH_ALL`, `SIGHASH_NONE` or `SIGHASH_SINGLE`. -/
def IsDefinedHashtypeSignature (vchSig : valtype) : Bool :=
  if vchSig.length = 0 then false
  else
    let nHashType := (vchSig.getLastD 0).toNat &&& (0xff - SIGHASH_ANYONECANPAY)
    !(nHashType < SIGHASH_ALL ∨ nHashType > SIGHASH_SINGLE)

def CheckSignatureEncoding (crypto_CheckLowS : valtype → Bool) (vchSig : valtype) (flags : Nat) :
    Except ScriptError Unit :=
  -- the empty signature is the compact way to give an invalid one
  if vchSig.length = 0 then .ok ()
  else if flags &&& (SCRIPT_VERIFY_DERSIG ||| SCRIPT_VERIFY_LOW_S ||| SCRIPT_VERIFY_STRICTENC) ≠ 0 ∧
      !IsValidSignatureEncoding vchSig then .error SCRIPT_ERR_SIG_DER
  else do
    if flags &&& SCRIPT_VERIFY_LOW_S ≠ 0 then IsLowDERSignature crypto_CheckLowS vchSig
    if flags &&& SCRIPT_VERIFY_STRICTENC ≠ 0 ∧ !IsDefinedHashtypeSignature vchSig then
      .error SCRIPT_ERR_SIG_HASHTYPE
    else .ok ()

def CheckPubKeyEncoding (vchPubKey : valtype) (flags : Nat) (sigversion : SigVersion) :
    Except ScriptError Unit :=
  if flags &&& SCRIPT_VERIFY_STRICTENC ≠ 0 ∧ !IsCompressedOrUncompressedPubKey vchPubKey then
    .error SCRIPT_ERR_PUBKEYTYPE
  -- only compressed keys are accepted in segwit
  else if flags &&& SCRIPT_VERIFY_WITNESS_PUBKEYTYPE ≠ 0 ∧ sigversion = SIGVERSION_WITNESS_V0 ∧
      !IsCompressedPubKey vchPubKey then .error SCRIPT_ERR_WITNESS_PUBKEYTYPE
  else .ok ()

/-- `CheckMinimalPush(data, opcode)`: `opcode` is the shortest push of `data`. -/
def CheckMinimalPush (data : valtype) (opcode : UInt8) : Bool :=
  if data.length = 0 then opcode = OP_0
  else if data.length = 1 ∧ 1 ≤ data.getD 0 0 ∧ data.getD 0 0 ≤ 16 then
    opcode.toNat = OP_1.toNat + ((data.getD 0 0).toNat - 1)
  else if data.length = 1 ∧ data.getD 0 0 = 0x81 then opcode = OP_1NEGATE
  else if data.length ≤ 75 then opcode.toNat = data.length
  else if data.length ≤ 255 then opcode = OP_PUSHDATA1
  else if data.length ≤ 65535 then opcode = OP_PUSHDATA2
  else true

/-! ### What the interpreter is given -/

/-- A `BaseSignatureChecker`: its three checks, any functions. -/
structure BaseSignatureChecker where
  CheckSig : valtype → valtype → List UInt8 → SigVersion → Bool
  CheckLockTime : Int → Bool
  CheckSequence : Int → Bool

/-- The digests of the hashing opcodes, and `CPubKey::CheckLowS`. -/
structure ScriptCrypto where
  CRIPEMD160 : valtype → valtype
  CSHA1 : valtype → valtype
  CSHA256 : valtype → valtype
  CHash160 : valtype → valtype
  CHash256 : valtype → valtype
  CheckLowS : valtype → Bool

end Trumpow
