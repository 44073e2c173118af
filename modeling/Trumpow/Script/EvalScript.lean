import Trumpow.Script.CheckMultisig

/-!
# Script — `EvalScript`

`interpreter.cpp`.  The loop of `EvalScript` reads one op at a time: it fails on a bad op or a push
over 520 bytes, counts the ops above `OP_16` against the limit of 201, refuses the disabled
opcodes even in a branch that is not executed, pushes data or runs the op's case of the `switch`
when the branch is executed (the conditionals always run), and last checks that the stack and
the altstack hold at most 1000 elements together.

`pc` is the rest of the script, and `pbegincodehash` the rest after the last `OP_CODESEPARATOR`,
so `CScript(pbegincodehash, pend)` is `pbegincodehash` itself.  `vfExec` is held innermost first,
as the stacks are.

* `step_errorsIn`: no op aborts.  Every operand of the arithmetic is read with at most four
  bytes, so it lies below `2 ^ 31` in magnitude, and neither `CScriptNum`'s asserts nor an
  `int64_t` overflow can be reached (`unaryNumeric_of_small`, `binaryNumeric_of_small`).
* `step_eq_ok`: an op that ends normally leaves at most 1000 elements.
* `evalLoop_run`: a loop that ends normally is a run of `Step` to the end of the script.
* `evalScript_safe`: `EvalScript` returns `true` or `false` for every input, and when it returns
  `true` its conditional stack is empty and every state of its run had at most 1000 elements.
-/

namespace Trumpow

open ScriptError SigVersion Except

/-! ### Leaving the interpreter -/

/-- A computation that can only `set_error`, as one of the interpreter's. -/
def liftError {α : Type} (x : Except ScriptError α) : Except Exit α := x.mapError Exit.error

/-- An `assert` on the value of a `CScriptNum` operation: `none` is a failed `assert` or an
overflow. -/
def assertSome {α : Type} : Option α → Except Exit α
  | some a => .ok a
  | none => .error .abort

/-- The interpreter's variables between two ops, but for `pc`. -/
structure EvalState where
  stack : List valtype
  altstack : List valtype
  vfExec : List Bool
  pbegincodehash : List UInt8
  nOpCount : Int

/-- What `EvalScript` is given besides the stack and the script. -/
structure EvalContext where
  flags : Nat
  checker : BaseSignatureChecker
  crypto : ScriptCrypto
  sigversion : SigVersion

def EvalContext.fRequireMinimal (ctx : EvalContext) : Bool :=
  ctx.flags &&& SCRIPT_VERIFY_MINIMALDATA != 0

/-- The state with the stack an op computed. -/
def EvalState.setStack (s : EvalState) (x : Except Exit (List valtype)) : Except Exit EvalState :=
  x.map fun stack => { s with stack := stack }

/-- `stack.push_back(CScriptNum(m_value).getvch())`. -/
def pushNum (m_value : Int) (stack : List valtype) : Except Exit (List valtype) := do
  let vch ← assertSome (CScriptNum.getvch m_value)
  pure (vch :: stack)

/-! A computation of the interpreter that cannot abort is `ErrorsIn (· ≠ Exit.abort)`. -/

theorem liftError_errorsIn {α : Type} (x : Except ScriptError α) :
    ErrorsIn (· ≠ Exit.abort) (liftError x) :=
  errorsIn_mapError (fun _ => nofun) x

theorem liftError_eq_ok {α : Type} {x : Except ScriptError α} {a : α} :
    liftError x = .ok a ↔ x = .ok a :=
  mapError_eq_ok

theorem errorsIn_error {α : Type} (e : ScriptError) :
    ErrorsIn (· ≠ Exit.abort) (.error (.error e) : Except Exit α) :=
  ErrorsIn.error nofun

@[simp]
theorem assertSome_some {α : Type} (a : α) : assertSome (some a) = .ok a := rfl

theorem setStack_errorsIn {s : EvalState} {x : Except Exit (List valtype)}
    (hx : ErrorsIn (· ≠ Exit.abort) x) : ErrorsIn (· ≠ Exit.abort) (s.setStack x) :=
  hx.map

/-- `getvch` is defined on every value but `INT64_MIN`. -/
theorem pushNum_of_ne {v : Int} (hv : v ≠ CScriptNum.INT64_MIN) (stack : List valtype) :
    pushNum v stack = .ok (CScriptNum.serialize v :: stack) := by
  rw [pushNum, CScriptNum.getvch, if_neg hv]
  rfl

theorem pushNum_errorsIn {v : Int} (hv : v ≠ CScriptNum.INT64_MIN) (stack : List valtype) :
    ErrorsIn (· ≠ Exit.abort) (pushNum v stack) := by
  rw [pushNum_of_ne hv]
  exact ErrorsIn.ok _

/-! ### Control -/

/-- `case OP_CHECKLOCKTIMEVERIFY:`. -/
def opCheckLockTimeVerify (ctx : EvalContext) (stack : List valtype) :
    Except ScriptError (List valtype) := do
  if ctx.flags &&& SCRIPT_VERIFY_CHECKLOCKTIMEVERIFY = 0 then
    -- not enabled: a NOP2
    if ctx.flags &&& SCRIPT_VERIFY_DISCOURAGE_UPGRADABLE_NOPS ≠ 0 then
      throw SCRIPT_ERR_DISCOURAGE_UPGRADABLE_NOPS
    return stack
  if stack.length < 1 then throw SCRIPT_ERR_INVALID_STACK_OPERATION
  -- five bytes, good until `2 ^ 39 - 1`
  let nLockTime ← scriptNum (← stacktop stack 1) ctx.fRequireMinimal 5
  if nLockTime < 0 then throw SCRIPT_ERR_NEGATIVE_LOCKTIME
  if !ctx.checker.CheckLockTime nLockTime then throw SCRIPT_ERR_UNSATISFIED_LOCKTIME
  return stack

/-- `case OP_CHECKSEQUENCEVERIFY:`. -/
def opCheckSequenceVerify (ctx : EvalContext) (stack : List valtype) :
    Except ScriptError (List valtype) := do
  if ctx.flags &&& SCRIPT_VERIFY_CHECKSEQUENCEVERIFY = 0 then
    -- not enabled: a NOP3
    if ctx.flags &&& SCRIPT_VERIFY_DISCOURAGE_UPGRADABLE_NOPS ≠ 0 then
      throw SCRIPT_ERR_DISCOURAGE_UPGRADABLE_NOPS
    return stack
  if stack.length < 1 then throw SCRIPT_ERR_INVALID_STACK_OPERATION
  let nSequence ← scriptNum (← stacktop stack 1) ctx.fRequireMinimal 5
  if nSequence < 0 then throw SCRIPT_ERR_NEGATIVE_LOCKTIME
  -- the disabled flag makes it a NOP, for future soft forks
  if nSequence.toNat &&& SEQUENCE_LOCKTIME_DISABLE_FLAG ≠ 0 then return stack
  if !ctx.checker.CheckSequence nSequence then throw SCRIPT_ERR_UNSATISFIED_LOCKTIME
  return stack

/-- `case OP_IF: case OP_NOTIF:`; in a branch not executed it pushes `false` unread. -/
def opIf (ctx : EvalContext) (fExec : Bool) (opcode : UInt8) (s : EvalState) :
    Except ScriptError EvalState :=
  if fExec then
    match s.stack with
    | [] => .error SCRIPT_ERR_UNBALANCED_CONDITIONAL
    | vch :: stack =>
      if ctx.sigversion = SIGVERSION_WITNESS_V0 ∧ ctx.flags &&& SCRIPT_VERIFY_MINIMALIF ≠ 0 ∧
          (vch.length > 1 ∨ (vch.length = 1 ∧ vch.getD 0 0 ≠ 1)) then
        .error SCRIPT_ERR_MINIMALIF
      else
        let fValue := CastToBool vch
        let fValue := if opcode = OP_NOTIF then !fValue else fValue
        .ok { s with stack := stack, vfExec := fValue :: s.vfExec }
  else .ok { s with vfExec := false :: s.vfExec }

def opElse (s : EvalState) : Except ScriptError EvalState :=
  match s.vfExec with
  | [] => .error SCRIPT_ERR_UNBALANCED_CONDITIONAL
  | fValue :: vfExec => .ok { s with vfExec := (!fValue) :: vfExec }

def opEndif (s : EvalState) : Except ScriptError EvalState :=
  match s.vfExec with
  | [] => .error SCRIPT_ERR_UNBALANCED_CONDITIONAL
  | _ :: vfExec => .ok { s with vfExec := vfExec }

def opVerify : List valtype → Except ScriptError (List valtype)
  | [] => .error SCRIPT_ERR_INVALID_STACK_OPERATION
  | vch :: stack => if CastToBool vch then .ok stack else .error SCRIPT_ERR_VERIFY

/-! ### Stack ops

Each `( x1 x2 -- … )` of the source, read top first. -/

def opToAltStack (s : EvalState) : Except ScriptError EvalState :=
  match s.stack with
  | vch :: stack => .ok { s with stack := stack, altstack := vch :: s.altstack }
  | [] => .error SCRIPT_ERR_INVALID_STACK_OPERATION

def opFromAltStack (s : EvalState) : Except ScriptError EvalState :=
  match s.altstack with
  | vch :: altstack => .ok { s with stack := vch :: s.stack, altstack := altstack }
  | [] => .error SCRIPT_ERR_INVALID_ALTSTACK_OPERATION

def op2Drop : List valtype → Except ScriptError (List valtype)
  | _ :: _ :: stack => .ok stack
  | _ => .error SCRIPT_ERR_INVALID_STACK_OPERATION

def op2Dup : List valtype → Except ScriptError (List valtype)
  | x2 :: x1 :: stack => .ok (x2 :: x1 :: x2 :: x1 :: stack)
  | _ => .error SCRIPT_ERR_INVALID_STACK_OPERATION

def op3Dup : List valtype → Except ScriptError (List valtype)
  | x3 :: x2 :: x1 :: stack => .ok (x3 :: x2 :: x1 :: x3 :: x2 :: x1 :: stack)
  | _ => .error SCRIPT_ERR_INVALID_STACK_OPERATION

def op2Over : List valtype → Except ScriptError (List valtype)
  | x4 :: x3 :: x2 :: x1 :: stack => .ok (x2 :: x1 :: x4 :: x3 :: x2 :: x1 :: stack)
  | _ => .error SCRIPT_ERR_INVALID_STACK_OPERATION

def op2Rot : List valtype → Except ScriptError (List valtype)
  | x6 :: x5 :: x4 :: x3 :: x2 :: x1 :: stack => .ok (x2 :: x1 :: x6 :: x5 :: x4 :: x3 :: stack)
  | _ => .error SCRIPT_ERR_INVALID_STACK_OPERATION

def op2Swap : List valtype → Except ScriptError (List valtype)
  | x4 :: x3 :: x2 :: x1 :: stack => .ok (x2 :: x1 :: x4 :: x3 :: stack)
  | _ => .error SCRIPT_ERR_INVALID_STACK_OPERATION

def opIfDup : List valtype → Except ScriptError (List valtype)
  | vch :: stack => .ok (if CastToBool vch then vch :: vch :: stack else vch :: stack)
  | [] => .error SCRIPT_ERR_INVALID_STACK_OPERATION

def opDrop : List valtype → Except ScriptError (List valtype)
  | _ :: stack => .ok stack
  | [] => .error SCRIPT_ERR_INVALID_STACK_OPERATION

def opDup : List valtype → Except ScriptError (List valtype)
  | vch :: stack => .ok (vch :: vch :: stack)
  | [] => .error SCRIPT_ERR_INVALID_STACK_OPERATION

def opNip : List valtype → Except ScriptError (List valtype)
  | x2 :: _ :: stack => .ok (x2 :: stack)
  | _ => .error SCRIPT_ERR_INVALID_STACK_OPERATION

def opOver : List valtype → Except ScriptError (List valtype)
  | x2 :: x1 :: stack => .ok (x1 :: x2 :: x1 :: stack)
  | _ => .error SCRIPT_ERR_INVALID_STACK_OPERATION

/-- `case OP_PICK: case OP_ROLL:`. -/
def opPickRoll (fRequireMinimal : Bool) (opcode : UInt8) (stack : List valtype) :
    Except ScriptError (List valtype) := do
  if stack.length < 2 then throw SCRIPT_ERR_INVALID_STACK_OPERATION
  let n := CScriptNum.getint
    (← scriptNum (← stacktop stack 1) fRequireMinimal nDefaultMaxNumSize)
  let stack ← popstack stack
  if n < 0 ∨ n ≥ stack.length then throw SCRIPT_ERR_INVALID_STACK_OPERATION
  let vch ← stacktop stack (n.toNat + 1)
  let stack := if opcode = OP_ROLL then stack.eraseIdx n.toNat else stack
  return vch :: stack

def opRot : List valtype → Except ScriptError (List valtype)
  | x3 :: x2 :: x1 :: stack => .ok (x1 :: x3 :: x2 :: stack)
  | _ => .error SCRIPT_ERR_INVALID_STACK_OPERATION

def opSwap : List valtype → Except ScriptError (List valtype)
  | x2 :: x1 :: stack => .ok (x1 :: x2 :: stack)
  | _ => .error SCRIPT_ERR_INVALID_STACK_OPERATION

def opTuck : List valtype → Except ScriptError (List valtype)
  | x2 :: x1 :: stack => .ok (x2 :: x1 :: x2 :: stack)
  | _ => .error SCRIPT_ERR_INVALID_STACK_OPERATION

/-- `case OP_SIZE:`, which pushes the size of the top element. -/
def opSize : List valtype → Except Exit (List valtype)
  | vch :: stack => pushNum vch.length (vch :: stack)
  | [] => .error (.error SCRIPT_ERR_INVALID_STACK_OPERATION)

theorem opSize_errorsIn (stack : List valtype) : ErrorsIn (· ≠ Exit.abort) (opSize stack) := by
  cases stack with
  | nil => exact errorsIn_error _
  | cons vch stack => exact pushNum_errorsIn (by unfold CScriptNum.INT64_MIN; omega) _

/-- `case OP_EQUAL: case OP_EQUALVERIFY:`. -/
def opEqual (opcode : UInt8) : List valtype → Except ScriptError (List valtype)
  | vch2 :: vch1 :: stack =>
    let fEqual := vch1 == vch2
    let stack := (if fEqual then vchTrue else vchFalse) :: stack
    if opcode = OP_EQUALVERIFY then
      if fEqual then popstack stack else .error SCRIPT_ERR_EQUALVERIFY
    else .ok stack
  | _ => .error SCRIPT_ERR_INVALID_STACK_OPERATION

/-! ### Numeric ops -/

/-- The inner `switch` of `OP_1ADD` to `OP_0NOTEQUAL`: the new value, `none` where an `assert`
fails. -/
def unaryNumeric (opcode : UInt8) (bn : Int) : Option Int :=
  if opcode = OP_1ADD then CScriptNum.addAssign bn 1
  else if opcode = OP_1SUB then CScriptNum.subAssign bn 1
  else if opcode = OP_NEGATE then CScriptNum.negate bn
  else if opcode = OP_ABS then (if bn < 0 then CScriptNum.negate bn else some bn)
  else if opcode = OP_NOT then some (if bn = 0 then 1 else 0)
  else if opcode = OP_0NOTEQUAL then some (if bn ≠ 0 then 1 else 0)
  -- `assert(!"invalid opcode")`
  else none

/-- The inner `switch` of `OP_ADD` to `OP_MAX`: the new value, `none` where an `assert` fails or
the sum overflows. -/
def binaryNumeric (opcode : UInt8) (bn1 bn2 : Int) : Option Int :=
  if opcode = OP_ADD then CScriptNum.add bn1 bn2
  else if opcode = OP_SUB then CScriptNum.sub bn1 bn2
  else if opcode = OP_BOOLAND then some (if bn1 ≠ 0 ∧ bn2 ≠ 0 then 1 else 0)
  else if opcode = OP_BOOLOR then some (if bn1 ≠ 0 ∨ bn2 ≠ 0 then 1 else 0)
  else if opcode = OP_NUMEQUAL then some (if bn1 = bn2 then 1 else 0)
  else if opcode = OP_NUMEQUALVERIFY then some (if bn1 = bn2 then 1 else 0)
  else if opcode = OP_NUMNOTEQUAL then some (if bn1 ≠ bn2 then 1 else 0)
  else if opcode = OP_LESSTHAN then some (if bn1 < bn2 then 1 else 0)
  else if opcode = OP_GREATERTHAN then some (if bn1 > bn2 then 1 else 0)
  else if opcode = OP_LESSTHANOREQUAL then some (if bn1 ≤ bn2 then 1 else 0)
  else if opcode = OP_GREATERTHANOREQUAL then some (if bn1 ≥ bn2 then 1 else 0)
  else if opcode = OP_MIN then some (if bn1 < bn2 then bn1 else bn2)
  else if opcode = OP_MAX then some (if bn1 > bn2 then bn1 else bn2)
  -- `assert(!"invalid opcode")`
  else none

/-- `case OP_1ADD: … case OP_0NOTEQUAL:`. -/
def opUnaryNumeric (fRequireMinimal : Bool) (opcode : UInt8) (stack : List valtype) :
    Except Exit (List valtype) :=
  if stack.length < 1 then .error (.error SCRIPT_ERR_INVALID_STACK_OPERATION)
  else do
    let bn ← liftError (do scriptNum (← stacktop stack 1) fRequireMinimal nDefaultMaxNumSize)
    let bn ← assertSome (unaryNumeric opcode bn)
    let stack ← liftError (popstack stack)
    pushNum bn stack

/-- `case OP_ADD: … case OP_MAX:`. -/
def opBinaryNumeric (fRequireMinimal : Bool) (opcode : UInt8) (stack : List valtype) :
    Except Exit (List valtype) :=
  if stack.length < 2 then .error (.error SCRIPT_ERR_INVALID_STACK_OPERATION)
  else do
    let bn1 ← liftError (do scriptNum (← stacktop stack 2) fRequireMinimal nDefaultMaxNumSize)
    let bn2 ← liftError (do scriptNum (← stacktop stack 1) fRequireMinimal nDefaultMaxNumSize)
    let bn ← assertSome (binaryNumeric opcode bn1 bn2)
    let stack ← liftError (do popstack (← popstack stack))
    let stack ← pushNum bn stack
    if opcode = OP_NUMEQUALVERIFY then
      if CastToBool (← liftError (stacktop stack 1)) then liftError (popstack stack)
      else throw (.error SCRIPT_ERR_NUMEQUALVERIFY)
    else pure stack

/-- `case OP_WITHIN:`. -/
def opWithin (fRequireMinimal : Bool) (stack : List valtype) :
    Except ScriptError (List valtype) := do
  if stack.length < 3 then throw SCRIPT_ERR_INVALID_STACK_OPERATION
  let bn1 ← scriptNum (← stacktop stack 3) fRequireMinimal nDefaultMaxNumSize
  let bn2 ← scriptNum (← stacktop stack 2) fRequireMinimal nDefaultMaxNumSize
  let bn3 ← scriptNum (← stacktop stack 1) fRequireMinimal nDefaultMaxNumSize
  let fValue := bn2 ≤ bn1 ∧ bn1 < bn3
  let stack ← popstack (← popstack (← popstack stack))
  return (if fValue then vchTrue else vchFalse) :: stack

/-- An operand read with at most `nMaxNumSize ≤ 8` bytes lies below `2 ^ (8 * nMaxNumSize - 1)`. -/
theorem scriptNum_natAbs_lt {vch : valtype} {fRequireMinimal : Bool} {nMaxNumSize : Nat} {v : Int}
    (hmax : nMaxNumSize ≤ 8) (h : scriptNum vch fRequireMinimal nMaxNumSize = .ok v) :
    v.natAbs < 2 ^ (8 * nMaxNumSize - 1) :=
  CScriptNum.natAbs_lt_of_ofVch hmax (scriptNum_eq_ok h)

/-- An operand of the arithmetic, read from the stack with the default four bytes. -/
theorem operand_natAbs_lt {stack : List valtype} {i : Nat} {fRequireMinimal : Bool} {v : Int}
    (h : liftError (do scriptNum (← stacktop stack i) fRequireMinimal nDefaultMaxNumSize) =
      .ok v) : v.natAbs < 2 ^ 31 := by
  obtain ⟨_, -, hv⟩ := bind_eq_ok.mp (liftError_eq_ok.mp h)
  exact scriptNum_natAbs_lt (by decide) hv

theorem unaryNumeric_of_small {opcode : UInt8} {bn : Int} (hbn : bn.natAbs < 2 ^ 31)
    (hop : opcode = OP_1ADD ∨ opcode = OP_1SUB ∨ opcode = OP_NEGATE ∨ opcode = OP_ABS ∨
      opcode = OP_NOT ∨ opcode = OP_0NOTEQUAL) :
    ∃ v, unaryNumeric opcode bn = some v ∧ v.natAbs < 2 ^ 63 := by
  have hsmall : bn.natAbs < 2 ^ 62 := by omega
  have hone : (1 : Int).natAbs < 2 ^ 62 := by decide
  rcases hop with rfl | rfl | rfl | rfl | rfl | rfl
  · exact ⟨_, CScriptNum.addAssign_of_small hsmall hone, by omega⟩
  · exact ⟨_, CScriptNum.subAssign_of_small hsmall hone, by omega⟩
  · exact ⟨_, CScriptNum.negate_of_small hsmall, by omega⟩
  · by_cases hneg : bn < 0
    · exact ⟨-bn, by simp +decide [unaryNumeric, hneg, CScriptNum.negate_of_small hsmall],
        by omega⟩
    · exact ⟨bn, by simp +decide [unaryNumeric, hneg], by omega⟩
  · exact ⟨_, rfl, by split_ifs <;> decide⟩
  · exact ⟨_, rfl, by split_ifs <;> decide⟩

theorem binaryNumeric_of_small {opcode : UInt8} {bn1 bn2 : Int} (h1 : bn1.natAbs < 2 ^ 31)
    (h2 : bn2.natAbs < 2 ^ 31)
    (hop : opcode = OP_ADD ∨ opcode = OP_SUB ∨ opcode = OP_BOOLAND ∨ opcode = OP_BOOLOR ∨
      opcode = OP_NUMEQUAL ∨ opcode = OP_NUMEQUALVERIFY ∨ opcode = OP_NUMNOTEQUAL ∨
      opcode = OP_LESSTHAN ∨ opcode = OP_GREATERTHAN ∨ opcode = OP_LESSTHANOREQUAL ∨
      opcode = OP_GREATERTHANOREQUAL ∨ opcode = OP_MIN ∨ opcode = OP_MAX) :
    ∃ v, binaryNumeric opcode bn1 bn2 = some v ∧ v.natAbs < 2 ^ 63 := by
  have hs1 : bn1.natAbs < 2 ^ 62 := by omega
  have hs2 : bn2.natAbs < 2 ^ 62 := by omega
  rcases hop with rfl | rfl | rfl | rfl | rfl | rfl | rfl | rfl | rfl | rfl | rfl | rfl | rfl
  · exact ⟨_, CScriptNum.add_of_small hs1 hs2, by omega⟩
  · exact ⟨_, CScriptNum.sub_of_small hs1 hs2, by omega⟩
  -- the comparisons give `0` or `1`, the extrema one of the operands
  all_goals exact ⟨_, rfl, by split_ifs <;> omega⟩

theorem opUnaryNumeric_errorsIn {fRequireMinimal : Bool} {opcode : UInt8} (stack : List valtype)
    (hop : opcode = OP_1ADD ∨ opcode = OP_1SUB ∨ opcode = OP_NEGATE ∨ opcode = OP_ABS ∨
      opcode = OP_NOT ∨ opcode = OP_0NOTEQUAL) :
    ErrorsIn (· ≠ Exit.abort) (opUnaryNumeric fRequireMinimal opcode stack) := by
  unfold opUnaryNumeric
  refine ErrorsIn.ite (fun _ => errorsIn_error _) fun _ => ?_
  refine (liftError_errorsIn _).bind fun bn hbn => ?_
  obtain ⟨v, hv, hvlt⟩ := unaryNumeric_of_small (operand_natAbs_lt hbn) hop
  rw [hv, assertSome_some]
  refine (ErrorsIn.ok v).bind fun _ hv => (liftError_errorsIn _).bind fun _ _ => ?_
  cases hv
  exact pushNum_errorsIn (by unfold CScriptNum.INT64_MIN; omega) _

theorem opBinaryNumeric_errorsIn {fRequireMinimal : Bool} {opcode : UInt8} (stack : List valtype)
    (hop : opcode = OP_ADD ∨ opcode = OP_SUB ∨ opcode = OP_BOOLAND ∨ opcode = OP_BOOLOR ∨
      opcode = OP_NUMEQUAL ∨ opcode = OP_NUMEQUALVERIFY ∨ opcode = OP_NUMNOTEQUAL ∨
      opcode = OP_LESSTHAN ∨ opcode = OP_GREATERTHAN ∨ opcode = OP_LESSTHANOREQUAL ∨
      opcode = OP_GREATERTHANOREQUAL ∨ opcode = OP_MIN ∨ opcode = OP_MAX) :
    ErrorsIn (· ≠ Exit.abort) (opBinaryNumeric fRequireMinimal opcode stack) := by
  unfold opBinaryNumeric
  refine ErrorsIn.ite (fun _ => errorsIn_error _) fun _ => ?_
  refine (liftError_errorsIn _).bind fun bn1 hbn1 => (liftError_errorsIn _).bind fun bn2 hbn2 => ?_
  obtain ⟨v, hv, hvlt⟩ := binaryNumeric_of_small (operand_natAbs_lt hbn1) (operand_natAbs_lt hbn2) hop
  rw [hv, assertSome_some]
  refine (ErrorsIn.ok v).bind fun _ hv => (liftError_errorsIn _).bind fun _ _ => ?_
  cases hv
  refine (pushNum_errorsIn (by unfold CScriptNum.INT64_MIN; omega) _).bind fun _ _ => ?_
  -- `OP_NUMEQUALVERIFY` pops the result again, or fails
  exact ErrorsIn.ite (fun _ => (liftError_errorsIn _).bind fun _ _ =>
    ErrorsIn.ite (fun _ => liftError_errorsIn _) fun _ => errorsIn_error _) fun _ => ErrorsIn.ok _

/-! ### Crypto -/

/-- `case OP_RIPEMD160: … case OP_HASH256:`. -/
def opHash (crypto : ScriptCrypto) (opcode : UInt8) :
    List valtype → Except ScriptError (List valtype)
  | vch :: stack =>
    let vchHash :=
      if opcode = OP_RIPEMD160 then crypto.CRIPEMD160 vch
      else if opcode = OP_SHA1 then crypto.CSHA1 vch
      else if opcode = OP_SHA256 then crypto.CSHA256 vch
      else if opcode = OP_HASH160 then crypto.CHash160 vch
      else if opcode = OP_HASH256 then crypto.CHash256 vch
      else List.replicate 32 0
    .ok (vchHash :: stack)
  | [] => .error SCRIPT_ERR_INVALID_STACK_OPERATION

/-! ### The `switch` -/

/-- The `switch (opcode)` of `EvalScript`, for the op that ends at `pc`. -/
def execOp (ctx : EvalContext) (fExec : Bool) (opcode : UInt8) (pc : List UInt8)
    (s : EvalState) : Except Exit EvalState :=
  let fRequireMinimal := ctx.fRequireMinimal
  -- Push value; these pushes are minimal, so no `CheckMinimalPush` here
  if opcode = OP_1NEGATE ∨ (OP_1 ≤ opcode ∧ opcode ≤ OP_16) then
    s.setStack (pushNum ((opcode.toNat : Int) - (OP_1.toNat - 1)) s.stack)
  -- Control
  else if opcode = OP_NOP then .ok s
  else if opcode = OP_CHECKLOCKTIMEVERIFY then
    s.setStack (liftError (opCheckLockTimeVerify ctx s.stack))
  else if opcode = OP_CHECKSEQUENCEVERIFY then
    s.setStack (liftError (opCheckSequenceVerify ctx s.stack))
  else if opcode = OP_NOP1 ∨ (OP_NOP4 ≤ opcode ∧ opcode ≤ OP_NOP10) then
    if ctx.flags &&& SCRIPT_VERIFY_DISCOURAGE_UPGRADABLE_NOPS ≠ 0 then
      .error (.error SCRIPT_ERR_DISCOURAGE_UPGRADABLE_NOPS)
    else .ok s
  else if opcode = OP_IF ∨ opcode = OP_NOTIF then liftError (opIf ctx fExec opcode s)
  else if opcode = OP_ELSE then liftError (opElse s)
  else if opcode = OP_ENDIF then liftError (opEndif s)
  else if opcode = OP_VERIFY then s.setStack (liftError (opVerify s.stack))
  else if opcode = OP_RETURN then .error (.error SCRIPT_ERR_OP_RETURN)
  -- Stack ops
  else if opcode = OP_TOALTSTACK then liftError (opToAltStack s)
  else if opcode = OP_FROMALTSTACK then liftError (opFromAltStack s)
  else if opcode = OP_2DROP then s.setStack (liftError (op2Drop s.stack))
  else if opcode = OP_2DUP then s.setStack (liftError (op2Dup s.stack))
  else if opcode = OP_3DUP then s.setStack (liftError (op3Dup s.stack))
  else if opcode = OP_2OVER then s.setStack (liftError (op2Over s.stack))
  else if opcode = OP_2ROT then s.setStack (liftError (op2Rot s.stack))
  else if opcode = OP_2SWAP then s.setStack (liftError (op2Swap s.stack))
  else if opcode = OP_IFDUP then s.setStack (liftError (opIfDup s.stack))
  else if opcode = OP_DEPTH then s.setStack (pushNum s.stack.length s.stack)
  else if opcode = OP_DROP then s.setStack (liftError (opDrop s.stack))
  else if opcode = OP_DUP then s.setStack (liftError (opDup s.stack))
  else if opcode = OP_NIP then s.setStack (liftError (opNip s.stack))
  else if opcode = OP_OVER then s.setStack (liftError (opOver s.stack))
  else if opcode = OP_PICK ∨ opcode = OP_ROLL then
    s.setStack (liftError (opPickRoll fRequireMinimal opcode s.stack))
  else if opcode = OP_ROT then s.setStack (liftError (opRot s.stack))
  else if opcode = OP_SWAP then s.setStack (liftError (opSwap s.stack))
  else if opcode = OP_TUCK then s.setStack (liftError (opTuck s.stack))
  else if opcode = OP_SIZE then s.setStack (opSize s.stack)
  -- Bitwise logic
  else if opcode = OP_EQUAL ∨ opcode = OP_EQUALVERIFY then
    s.setStack (liftError (opEqual opcode s.stack))
  -- Numeric
  else if opcode = OP_1ADD ∨ opcode = OP_1SUB ∨ opcode = OP_NEGATE ∨ opcode = OP_ABS ∨
      opcode = OP_NOT ∨ opcode = OP_0NOTEQUAL then
    s.setStack (opUnaryNumeric fRequireMinimal opcode s.stack)
  else if opcode = OP_ADD ∨ opcode = OP_SUB ∨ opcode = OP_BOOLAND ∨ opcode = OP_BOOLOR ∨
      opcode = OP_NUMEQUAL ∨ opcode = OP_NUMEQUALVERIFY ∨ opcode = OP_NUMNOTEQUAL ∨
      opcode = OP_LESSTHAN ∨ opcode = OP_GREATERTHAN ∨ opcode = OP_LESSTHANOREQUAL ∨
      opcode = OP_GREATERTHANOREQUAL ∨ opcode = OP_MIN ∨ opcode = OP_MAX then
    s.setStack (opBinaryNumeric fRequireMinimal opcode s.stack)
  else if opcode = OP_WITHIN then s.setStack (liftError (opWithin fRequireMinimal s.stack))
  -- Crypto
  else if opcode = OP_RIPEMD160 ∨ opcode = OP_SHA1 ∨ opcode = OP_SHA256 ∨
      opcode = OP_HASH160 ∨ opcode = OP_HASH256 then
    s.setStack (liftError (opHash ctx.crypto opcode s.stack))
  -- the hash starts after the code separator
  else if opcode = OP_CODESEPARATOR then .ok { s with pbegincodehash := pc }
  else if opcode = OP_CHECKSIG ∨ opcode = OP_CHECKSIGVERIFY then
    s.setStack (liftError
      (OpCheckSig ctx.checker ctx.crypto ctx.flags ctx.sigversion s.pbegincodehash opcode s.stack))
  else if opcode = OP_CHECKMULTISIG ∨ opcode = OP_CHECKMULTISIGVERIFY then
    liftError ((OpCheckMultisig ctx.checker ctx.crypto ctx.flags ctx.sigversion fRequireMinimal
      s.pbegincodehash opcode s.stack s.nOpCount).map
        fun r => { s with stack := r.1, nOpCount := r.2 })
  else .error (.error SCRIPT_ERR_BAD_OPCODE)

/-- No case of the `switch` aborts: the pushes of `OP_1NEGATE` to `OP_16`, `OP_DEPTH` and
`OP_SIZE` push values that `getvch` takes, the numeric ops read small operands, and every other
case can only `set_error`. -/
theorem execOp_errorsIn (ctx : EvalContext) (fExec : Bool) (opcode : UInt8) (pc : List UInt8)
    (s : EvalState) : ErrorsIn (· ≠ Exit.abort) (execOp ctx fExec opcode pc s) := by
  have hOP_1 : OP_1.toNat = 81 := rfl
  unfold execOp
  -- one goal for each case of the `switch`
  repeat' refine ErrorsIn.ite (fun _ => ?_) fun _ => ?_
  all_goals first
    | exact ErrorsIn.ok _
    | exact errorsIn_error _
    | exact liftError_errorsIn _
    | exact setStack_errorsIn (liftError_errorsIn _)
    | exact setStack_errorsIn (opSize_errorsIn _)
    | exact setStack_errorsIn (opUnaryNumeric_errorsIn _ ‹_›)
    | exact setStack_errorsIn (opBinaryNumeric_errorsIn _ ‹_›)
    | exact setStack_errorsIn (pushNum_errorsIn (by unfold CScriptNum.INT64_MIN; omega) _)

/-- The opcodes `EvalScript` refuses wherever they stand. -/
def disabledOpcode (opcode : UInt8) : Bool :=
  opcode = OP_CAT || opcode = OP_SUBSTR || opcode = OP_LEFT || opcode = OP_RIGHT ||
    opcode = OP_INVERT || opcode = OP_AND || opcode = OP_OR || opcode = OP_XOR ||
    opcode = OP_2MUL || opcode = OP_2DIV || opcode = OP_MUL || opcode = OP_DIV ||
    opcode = OP_MOD || opcode = OP_LSHIFT || opcode = OP_RSHIFT

/-! ### The loop -/

/-- An op past the checks: its data pushed, its case of the `switch` run, or, in a branch not
executed, nothing but the conditionals. -/
def execute (ctx : EvalContext) (fExec : Bool) (opcode : UInt8) (vchPushValue pc : List UInt8)
    (s : EvalState) : Except Exit EvalState :=
  if fExec ∧ opcode ≤ OP_PUSHDATA4 then
    if ctx.fRequireMinimal ∧ !CheckMinimalPush vchPushValue opcode then
      .error (.error SCRIPT_ERR_MINIMALDATA)
    else .ok { s with stack := vchPushValue :: s.stack }
  else if fExec ∨ (OP_IF ≤ opcode ∧ opcode ≤ OP_ENDIF) then execOp ctx fExec opcode pc s
  else .ok s

/-- One pass of `while (pc < pend)`: the rest of the script and the state after the op. -/
def step (ctx : EvalContext) (pc : List UInt8) (s : EvalState) :
    Except Exit (List UInt8 × EvalState) :=
  let fExec := !s.vfExec.contains false
  match GetOp pc with
  | (none, _) => .error (.error SCRIPT_ERR_BAD_OPCODE)
  | (some (opcode, vchPushValue), pc) =>
    if vchPushValue.length > MAX_SCRIPT_ELEMENT_SIZE then .error (.error SCRIPT_ERR_PUSH_SIZE)
    -- `OP_RESERVED` does not count towards the opcode limit
    else if opcode > OP_16 ∧ s.nOpCount + 1 > MAX_OPS_PER_SCRIPT then
      .error (.error SCRIPT_ERR_OP_COUNT)
    else if disabledOpcode opcode then .error (.error SCRIPT_ERR_DISABLED_OPCODE)
    else
      let s := { s with nOpCount := if opcode > OP_16 then s.nOpCount + 1 else s.nOpCount }
      execute ctx fExec opcode vchPushValue pc s >>= fun s =>
        -- Size limits
        if s.stack.length + s.altstack.length > 1000 then .error (.error SCRIPT_ERR_STACK_SIZE)
        else .ok (pc, s)

theorem execute_errorsIn (ctx : EvalContext) (fExec : Bool) (opcode : UInt8)
    (vchPushValue pc : List UInt8) (s : EvalState) :
    ErrorsIn (· ≠ Exit.abort) (execute ctx fExec opcode vchPushValue pc s) := by
  unfold execute
  refine ErrorsIn.ite (fun _ => ErrorsIn.ite (fun _ => errorsIn_error _) fun _ => ErrorsIn.ok _)
    fun _ => ErrorsIn.ite (fun _ => execOp_errorsIn _ _ _ _ _) fun _ => ErrorsIn.ok _

/-- No op aborts. -/
theorem step_errorsIn (ctx : EvalContext) (pc : List UInt8) (s : EvalState) :
    ErrorsIn (· ≠ Exit.abort) (step ctx pc s) := by
  unfold step
  split
  · exact errorsIn_error _
  · refine ErrorsIn.ite (fun _ => errorsIn_error _) fun _ => ?_
    refine ErrorsIn.ite (fun _ => errorsIn_error _) fun _ => ?_
    refine ErrorsIn.ite (fun _ => errorsIn_error _) fun _ => ?_
    exact (execute_errorsIn _ _ _ _ _ _).bind fun _ _ =>
      ErrorsIn.ite (fun _ => errorsIn_error _) fun _ => ErrorsIn.ok _

/-- An op that ends normally read one op and left at most 1000 elements. -/
theorem step_eq_ok {ctx : EvalContext} {pc pc' : List UInt8} {s s' : EvalState}
    (h : step ctx pc s = .ok (pc', s')) :
    (∃ op, GetOp pc = (some op, pc')) ∧ s'.stack.length + s'.altstack.length ≤ 1000 := by
  unfold step at h
  split at h
  · cases h
  · rename_i opcode vchPushValue rest hop
    -- the three checks before the op passed
    obtain ⟨-, h⟩ := ite_error_eq_ok.mp h
    obtain ⟨-, h⟩ := ite_error_eq_ok.mp h
    obtain ⟨-, h⟩ := ite_error_eq_ok.mp h
    obtain ⟨s'', -, h⟩ := bind_eq_ok.mp h
    obtain ⟨hsize, h⟩ := ite_error_eq_ok.mp h
    cases h
    exact ⟨⟨_, hop⟩, by omega⟩

/-- A step reads at least one byte. -/
theorem step_pc_lt {ctx : EvalContext} {pc pc' : List UInt8} {s s' : EvalState}
    (h : step ctx pc s = .ok (pc', s')) : pc'.length < pc.length :=
  let ⟨⟨_, hop⟩, _⟩ := step_eq_ok h
  GetOp_length_lt hop

/-- The `while (pc < pend)` loop. -/
def evalLoop (ctx : EvalContext) (pc : List UInt8) (s : EvalState) : Except Exit EvalState :=
  if pc = [] then .ok s
  else
    match h : step ctx pc s with
    | .error e => .error e
    | .ok (pc', s') =>
      have : pc'.length < pc.length := step_pc_lt h
      evalLoop ctx pc' s'
termination_by pc.length

/-- One op of the loop, from a script not yet at its end. -/
def Step (ctx : EvalContext) (a b : List UInt8 × EvalState) : Prop :=
  a.1 ≠ [] ∧ step ctx a.1 a.2 = .ok b

theorem evalLoop_nil (ctx : EvalContext) (s : EvalState) : evalLoop ctx [] s = .ok s := by
  rw [evalLoop, if_pos rfl]

/-- The loop aborts in no op, so never. -/
theorem evalLoop_errorsIn (ctx : EvalContext) (pc : List UInt8) (s : EvalState) :
    ErrorsIn (· ≠ Exit.abort) (evalLoop ctx pc s) := by
  fun_induction evalLoop ctx pc s with
  | case1 => exact ErrorsIn.ok _
  | case2 pc s hpc e h => exact ErrorsIn.error (step_errorsIn ctx pc s e h)
  | case3 pc s hpc pc' s' h hlt ih => exact ih

/-- A loop that ends normally is a run of `Step` to the end of the script. -/
theorem evalLoop_run {ctx : EvalContext} {pc : List UInt8} {s s' : EvalState}
    (h : evalLoop ctx pc s = .ok s') : Relation.ReflTransGen (Step ctx) (pc, s) ([], s') := by
  fun_induction evalLoop ctx pc s with
  | case1 s => cases h; exact .refl
  | case2 => cases h
  | case3 pc s hpc pc' s'' hstep hlt ih => exact .head ⟨hpc, hstep⟩ (ih h)

/-- Every state a run reaches after an op holds at most 1000 elements. -/
theorem size_le_of_transGen {ctx : EvalContext} {a c : List UInt8 × EvalState}
    (h : Relation.TransGen (Step ctx) a c) : c.2.stack.length + c.2.altstack.length ≤ 1000 := by
  obtain ⟨b, -, -, hb⟩ := Relation.TransGen.tail'_iff.mp h
  exact (step_eq_ok hb).2

/-- `EvalScript` on the initial `stack`: `false` with `serror`, the final stack, or an abort. -/
def EvalScript (stack : List valtype) (script : List UInt8) (flags : Nat)
    (checker : BaseSignatureChecker) (crypto : ScriptCrypto) (sigversion : SigVersion) :
    Except Exit (List valtype) :=
  if script.length > MAX_SCRIPT_SIZE then .error (.error SCRIPT_ERR_SCRIPT_SIZE)
  else do
    let s ← evalLoop ⟨flags, checker, crypto, sigversion⟩ script
      { stack := stack, altstack := [], vfExec := [], pbegincodehash := script, nOpCount := 0 }
    if s.vfExec ≠ [] then .error (.error SCRIPT_ERR_UNBALANCED_CONDITIONAL) else .ok s.stack

theorem evalScript_errorsIn (stack : List valtype) (script : List UInt8) (flags : Nat)
    (checker : BaseSignatureChecker) (crypto : ScriptCrypto) (sigversion : SigVersion) :
    ErrorsIn (· ≠ Exit.abort) (EvalScript stack script flags checker crypto sigversion) := by
  unfold EvalScript
  refine ErrorsIn.ite (fun _ => errorsIn_error _) fun _ => ?_
  exact (evalLoop_errorsIn _ _ _).bind fun _ _ =>
    ErrorsIn.ite (fun _ => errorsIn_error _) fun _ => ErrorsIn.ok _

/-- `EvalScript` returns `true` or `false` on every input, never reaching a failed `assert` or an
overflow; and when it returns `true`, it ran op by op to the end of the script with an empty
conditional stack, and after every op the stack and the altstack held at most 1000 elements. -/
theorem evalScript_safe (stack : List valtype) (script : List UInt8) (flags : Nat)
    (checker : BaseSignatureChecker) (crypto : ScriptCrypto) (sigversion : SigVersion) :
    EvalScript stack script flags checker crypto sigversion ≠ .error .abort ∧
      ∀ stack', EvalScript stack script flags checker crypto sigversion = .ok stack' →
        ∃ s, Relation.ReflTransGen (Step ⟨flags, checker, crypto, sigversion⟩)
            (script, ⟨stack, [], [], script, 0⟩) ([], s) ∧
          s.vfExec = [] ∧ s.stack = stack' ∧
          ∀ c, Relation.TransGen (Step ⟨flags, checker, crypto, sigversion⟩)
            (script, ⟨stack, [], [], script, 0⟩) c →
            c.2.stack.length + c.2.altstack.length ≤ 1000 := by
  refine ⟨fun h => evalScript_errorsIn stack script flags checker crypto sigversion _ h rfl,
    fun stack' h => ?_⟩
  unfold EvalScript at h
  obtain ⟨-, h⟩ := ite_error_eq_ok.mp h
  obtain ⟨s, hloop, h⟩ := bind_eq_ok.mp h
  obtain ⟨hvfExec, h⟩ := ite_error_eq_ok.mp h
  cases h
  exact ⟨s, evalLoop_run hloop, not_not.mp hvfExec, rfl, fun c hc => size_le_of_transGen hc⟩

/-- `0x01 0x07 OP_DUP OP_EQUAL` leaves `true`, by a run that ends with no open conditional. -/
theorem evalScript_safe_dup_equal :
    ∃ s, Relation.ReflTransGen
        (Step ⟨0, ⟨fun _ _ _ _ => true, fun _ => true, fun _ => true⟩,
          ⟨id, id, id, id, id, fun _ => true⟩, SIGVERSION_BASE⟩)
        ([0x01, 0x07, OP_DUP, OP_EQUAL], ⟨[], [], [], [0x01, 0x07, OP_DUP, OP_EQUAL], 0⟩)
        ([], s) ∧
      s.vfExec = [] ∧ s.stack = [vchTrue] := by
  obtain ⟨-, hok⟩ := evalScript_safe [] [0x01, 0x07, OP_DUP, OP_EQUAL] 0
    ⟨fun _ _ _ _ => true, fun _ => true, fun _ => true⟩ ⟨id, id, id, id, id, fun _ => true⟩
    SIGVERSION_BASE
  obtain ⟨s, hrun, hvfExec, hstack, -⟩ := hok [vchTrue] (by decide +kernel)
  exact ⟨s, hrun, hvfExec, hstack⟩

end Trumpow
