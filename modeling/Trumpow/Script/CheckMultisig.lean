import Trumpow.Script.Interpreter
import Trumpow.Support.Greedy
import Trumpow.Support.Fold

/-!
# Script — `OP_CHECKSIG` and `OP_CHECKMULTISIG`

`interpreter.cpp`.  `OP_CHECKMULTISIG` reads a count of keys, the keys, a count of signatures,
the signatures, and one element more that a bug makes it consume.  Its loop walks down the
signatures and the keys together and moves to the next signature when `CheckSig` accepts the
current one with the current key; it gives up when fewer keys are left than signatures.  A
cleanup loop then pops the arguments, counting down `ikey2` to tell the signatures, which
`SCRIPT_VERIFY_NULLFAIL` requires empty after a failure, from the rest.

* `checkMultisigLoop_eq_ok`: the loop is `Greedy.greedyMatch` of `CheckSig`, and calls it at
  most once per key; so it decides whether the signatures can be given in order to distinct keys
  (`checkMultisigLoop_assigned`).
* `cleanupMultisig_append`, `cleanupMultisig_sigs`: the cleanup checks exactly the signatures.
* `OpCheckMultisig_eq`: the op on `n` keys and `m ≤ n` signatures, guard by guard.
* `opCheckMultisig_assigns`: what the op pushes, what it consumes, when it fails.
-/

namespace Trumpow

open ScriptError SigVersion

section Ops

variable (checker : BaseSignatureChecker) (crypto : ScriptCrypto) (flags : Nat)
  (sigversion : SigVersion)

/-- `CScript scriptCode(pbegincodehash, pend)` with the push of each signature deleted, in
pre-segwit scripts. -/
def deleteSignatures (scriptCode : List UInt8) (sigs : List valtype) : List UInt8 :=
  if sigversion = SIGVERSION_BASE then
    sigs.foldl (fun scriptCode vchSig => (FindAndDelete scriptCode (pushBytes [] vchSig)).1)
      scriptCode
  else scriptCode

/-- `case OP_CHECKSIG: case OP_CHECKSIGVERIFY:`. -/
def OpCheckSig (scriptCode : List UInt8) (opcode : UInt8) (stack : List valtype) :
    Except ScriptError (List valtype) := do
  if stack.length < 2 then throw SCRIPT_ERR_INVALID_STACK_OPERATION
  let vchSig ← stacktop stack 2
  let vchPubKey ← stacktop stack 1
  let scriptCode := deleteSignatures sigversion scriptCode [vchSig]
  CheckSignatureEncoding crypto.CheckLowS vchSig flags
  CheckPubKeyEncoding vchPubKey flags sigversion
  let fSuccess := checker.CheckSig vchSig vchPubKey scriptCode sigversion
  if !fSuccess ∧ flags &&& SCRIPT_VERIFY_NULLFAIL ≠ 0 ∧ vchSig.length ≠ 0 then
    throw SCRIPT_ERR_SIG_NULLFAIL
  let stack ← popstack stack
  let stack ← popstack stack
  let stack := (if fSuccess then vchTrue else vchFalse) :: stack
  if opcode = OP_CHECKSIGVERIFY then
    if fSuccess then popstack stack else throw SCRIPT_ERR_CHECKSIGVERIFY
  else pure stack

/-- The `while (fSuccess && nSigsCount > 0)` loop of `OP_CHECKMULTISIG`, over the signatures from
`isig` and the keys from `ikey`: `fSuccess`, and the signature and key of each `CheckSig` call. -/
def checkMultisigLoop (scriptCode : List UInt8) :
    List valtype → List valtype → Except ScriptError (Bool × List (valtype × valtype))
  | [], _ => .ok (true, [])
  -- not reached: the loop keeps `nSigsCount ≤ nKeysCount`
  | _ :: _, [] => .ok (false, [])
  | vchSig :: sigs, vchPubKey :: keys => do
    CheckSignatureEncoding crypto.CheckLowS vchSig flags
    CheckPubKeyEncoding vchPubKey flags sigversion
    let fOk := checker.CheckSig vchSig vchPubKey scriptCode sigversion
    let sigs := if fOk then sigs else vchSig :: sigs
    -- more signatures left than keys: too many signatures have failed
    if sigs.length > keys.length then .ok (false, [(vchSig, vchPubKey)])
    else do
      let r ← checkMultisigLoop scriptCode sigs keys
      .ok (r.1, (vchSig, vchPubKey) :: r.2)

/-- The cleanup `while (i-- > 1)`, for `count` more rounds: with `fSuccess` false and
`SCRIPT_VERIFY_NULLFAIL`, an element popped once `ikey2` is down to zero (a signature) must be
empty. -/
def cleanupMultisig (fSuccess : Bool) :
    Nat → Nat → List valtype → Except ScriptError (List valtype)
  | 0, _, stack => .ok stack
  | count + 1, ikey2, stack => do
    if !fSuccess ∧ flags &&& SCRIPT_VERIFY_NULLFAIL ≠ 0 ∧ ikey2 = 0 then
      if (← stacktop stack 1).length ≠ 0 then throw SCRIPT_ERR_SIG_NULLFAIL
    let ikey2 := if ikey2 > 0 then ikey2 - 1 else ikey2
    let stack ← popstack stack
    cleanupMultisig fSuccess count ikey2 stack

/-- `case OP_CHECKMULTISIG: case OP_CHECKMULTISIGVERIFY:`, with `nOpCount`. -/
def OpCheckMultisig (fRequireMinimal : Bool) (scriptCode : List UInt8) (opcode : UInt8)
    (stack : List valtype) (nOpCount : Int) : Except ScriptError (List valtype × Int) := do
  let i := 1
  if stack.length < i then throw SCRIPT_ERR_INVALID_STACK_OPERATION
  let nKeysCount := CScriptNum.getint
    (← scriptNum (← stacktop stack i) fRequireMinimal nDefaultMaxNumSize)
  if nKeysCount < 0 ∨ nKeysCount > MAX_PUBKEYS_PER_MULTISIG then throw SCRIPT_ERR_PUBKEY_COUNT
  let nOpCount := nOpCount + nKeysCount
  if nOpCount > MAX_OPS_PER_SCRIPT then throw SCRIPT_ERR_OP_COUNT
  let ikey := i + 1
  -- the position of the last element that is not a signature
  let ikey2 := nKeysCount.toNat + 2
  let i := ikey + nKeysCount.toNat
  if stack.length < i then throw SCRIPT_ERR_INVALID_STACK_OPERATION
  let nSigsCount := CScriptNum.getint
    (← scriptNum (← stacktop stack i) fRequireMinimal nDefaultMaxNumSize)
  if nSigsCount < 0 ∨ nSigsCount > nKeysCount then throw SCRIPT_ERR_SIG_COUNT
  let isig := i + 1
  let i := isig + nSigsCount.toNat
  if stack.length < i then throw SCRIPT_ERR_INVALID_STACK_OPERATION
  let sigs := (stack.drop (isig - 1)).take nSigsCount.toNat
  let keys := (stack.drop (ikey - 1)).take nKeysCount.toNat
  let scriptCode := deleteSignatures sigversion scriptCode sigs
  let (fSuccess, _) ← checkMultisigLoop checker crypto flags sigversion scriptCode sigs keys
  let stack ← cleanupMultisig flags fSuccess (i - 1) ikey2 stack
  -- the extra element a bug makes `OP_CHECKMULTISIG` consume
  if stack.length < 1 then throw SCRIPT_ERR_INVALID_STACK_OPERATION
  if flags &&& SCRIPT_VERIFY_NULLDUMMY ≠ 0 then
    if (← stacktop stack 1).length ≠ 0 then throw SCRIPT_ERR_SIG_NULLDUMMY
  let stack ← popstack stack
  let stack := (if fSuccess then vchTrue else vchFalse) :: stack
  if opcode = OP_CHECKMULTISIGVERIFY then
    if fSuccess then return (← popstack stack, nOpCount) else throw SCRIPT_ERR_CHECKMULTISIGVERIFY
  return (stack, nOpCount)

/-! ### The loop decides the assignment -/

variable {checker crypto flags sigversion} {scriptCode : List UInt8}

/-- The loop gives `fSuccess = greedyMatch` of `CheckSig` over the signatures and keys, and calls
`CheckSig` at most once per key. -/
theorem checkMultisigLoop_eq_ok {sigs keys : List valtype} {fSuccess : Bool}
    {calls : List (valtype × valtype)}
    (h : checkMultisigLoop checker crypto flags sigversion scriptCode sigs keys =
      .ok (fSuccess, calls))
    (hlen : sigs.length ≤ keys.length) :
    fSuccess = Greedy.greedyMatch (fun vchSig vchPubKey =>
      checker.CheckSig vchSig vchPubKey scriptCode sigversion) sigs keys ∧
      calls.length ≤ keys.length := by
  induction keys generalizing sigs fSuccess calls with
  | nil =>
    obtain rfl : sigs = [] := List.eq_nil_of_length_eq_zero (by simpa using hlen)
    cases h
    exact ⟨rfl, le_rfl⟩
  | cons vchPubKey keys ih =>
    cases sigs with
    | nil =>
      cases h
      exact ⟨rfl, by simp⟩
    | cons vchSig sigs =>
      simp only [checkMultisigLoop] at h
      -- the encodings passed; `fOk` decides which signatures are left
      obtain ⟨-, -, h⟩ := Except.bind_eq_ok.mp h
      obtain ⟨-, -, h⟩ := Except.bind_eq_ok.mp h
      have hscan : Greedy.greedyMatch (fun vchSig vchPubKey =>
            checker.CheckSig vchSig vchPubKey scriptCode sigversion)
            (vchSig :: sigs) (vchPubKey :: keys) =
          Greedy.greedyMatch (fun vchSig vchPubKey =>
            checker.CheckSig vchSig vchPubKey scriptCode sigversion)
            (if checker.CheckSig vchSig vchPubKey scriptCode sigversion then sigs
              else vchSig :: sigs)
            keys := by
        rw [Greedy.greedyMatch]
        split_ifs <;> rfl
      rw [hscan]
      generalize (if checker.CheckSig vchSig vchPubKey scriptCode sigversion then sigs
        else vchSig :: sigs) = sigs' at h ⊢
      split_ifs at h with hgt
      · cases h
        exact ⟨(Greedy.greedyMatch_of_length_lt _ hgt).symm, by simp⟩
      · obtain ⟨r, hr, h⟩ := Except.bind_eq_ok.mp h
        cases h
        obtain ⟨hfs, hcalls⟩ := ih hr (by omega)
        exact ⟨hfs, by simp only [List.length_cons]; omega⟩

/-- With every signature and key well encoded, the loop runs to its end. -/
theorem checkMultisigLoop_of_encodings {sigs keys : List valtype}
    (hsigs : ∀ vchSig ∈ sigs, CheckSignatureEncoding crypto.CheckLowS vchSig flags = .ok ())
    (hkeys : ∀ vchPubKey ∈ keys, CheckPubKeyEncoding vchPubKey flags sigversion = .ok ()) :
    ∃ r, checkMultisigLoop checker crypto flags sigversion scriptCode sigs keys = .ok r := by
  induction keys generalizing sigs with
  | nil =>
    cases sigs with
    | nil => exact ⟨_, rfl⟩
    | cons _ _ => exact ⟨_, rfl⟩
  | cons vchPubKey keys ih =>
    cases sigs with
    | nil => exact ⟨_, rfl⟩
    | cons vchSig sigs =>
      -- the signatures left are a sublist of those before
      have hleft : ∀ vchSig' ∈ (if checker.CheckSig vchSig vchPubKey scriptCode sigversion
          then sigs else vchSig :: sigs),
          CheckSignatureEncoding crypto.CheckLowS vchSig' flags = .ok () := by
        intro vchSig' hmem
        split_ifs at hmem
        · exact hsigs vchSig' (List.mem_cons_of_mem _ hmem)
        · exact hsigs vchSig' hmem
      simp only [checkMultisigLoop, hsigs vchSig List.mem_cons_self,
        hkeys vchPubKey List.mem_cons_self]
      generalize (if checker.CheckSig vchSig vchPubKey scriptCode sigversion then sigs
        else vchSig :: sigs) = sigs' at hleft ⊢
      obtain ⟨r, hr⟩ := ih hleft (fun k hk => hkeys k (List.mem_cons_of_mem _ hk))
      split_ifs
      · exact ⟨_, rfl⟩
      · rw [hr]
        exact ⟨_, rfl⟩

/-! ### The cleanup pops the arguments -/

/-- While `ikey2` counts down, the cleanup pops without a check. -/
theorem cleanupMultisig_append (fSuccess : Bool) (top : List valtype) (count : Nat)
    (stack : List valtype) :
    cleanupMultisig flags fSuccess (top.length + count) top.length (top ++ stack) =
      cleanupMultisig flags fSuccess count 0 stack := by
  induction top with
  | nil => rw [List.length_nil, Nat.zero_add, List.nil_append]
  | cons x top ih =>
    rw [List.length_cons, show top.length + 1 + count = (top.length + count) + 1 by omega,
      cleanupMultisig]
    simp only [List.cons_append, Nat.add_one_ne_zero, and_false, if_false, Nat.add_one_sub_one,
      if_pos (Nat.succ_pos _)]
    exact ih

/-- Once `ikey2` is zero, the cleanup pops the signatures, and with `fSuccess` false and
`SCRIPT_VERIFY_NULLFAIL` fails when one of them is not empty. -/
theorem cleanupMultisig_sigs (fSuccess : Bool) (sigs rest : List valtype) :
    cleanupMultisig flags fSuccess sigs.length 0 (sigs ++ rest) =
      if !fSuccess ∧ flags &&& SCRIPT_VERIFY_NULLFAIL ≠ 0 ∧ ∃ vchSig ∈ sigs, vchSig ≠ []
      then .error SCRIPT_ERR_SIG_NULLFAIL
      else .ok rest := by
  induction sigs with
  | nil => simp [cleanupMultisig]
  | cons vchSig sigs ih =>
    rw [List.length_cons, cleanupMultisig]
    cases fSuccess with
    | true => simpa [popstack, bind, Except.bind] using ih
    | false =>
      by_cases hflag : flags &&& SCRIPT_VERIFY_NULLFAIL = 0
      · simpa [hflag, popstack, bind, Except.bind] using ih
      -- with `SCRIPT_VERIFY_NULLFAIL`, the signature on top is checked first
      · by_cases hsig : vchSig = []
        · subst hsig
          simpa [hflag, popstack, bind, Except.bind] using ih
        · simp [hflag, hsig, bind, Except.bind, throw, throwThe, MonadExceptOf.throw]

/-! ### The op on `n` keys and `m` signatures -/

section Shape

variable {fRequireMinimal : Bool} {nOpCount : Int} {keys sigs rest : List valtype}
  {vchN vchM dummy : valtype}

/-- `OP_CHECKMULTISIG` on a count of keys, the keys, a count of signatures, the signatures and
the extra element: within the op count it runs the loop on the signatures and keys, cleans up,
and pushes `fSuccess`. -/
theorem OpCheckMultisig_eq
    (hN : scriptNum vchN fRequireMinimal nDefaultMaxNumSize = .ok keys.length)
    (hM : scriptNum vchM fRequireMinimal nDefaultMaxNumSize = .ok sigs.length)
    (hmn : sigs.length ≤ keys.length) (hn : keys.length ≤ 20) :
    OpCheckMultisig checker crypto flags sigversion fRequireMinimal scriptCode OP_CHECKMULTISIG
        (vchN :: (keys ++ vchM :: (sigs ++ dummy :: rest))) nOpCount =
      if nOpCount + keys.length > MAX_OPS_PER_SCRIPT then .error SCRIPT_ERR_OP_COUNT
      else (checkMultisigLoop checker crypto flags sigversion
          (deleteSignatures sigversion scriptCode sigs) sigs keys).bind fun r =>
        if !r.1 ∧ flags &&& SCRIPT_VERIFY_NULLFAIL ≠ 0 ∧ ∃ vchSig ∈ sigs, vchSig ≠ []
        then .error SCRIPT_ERR_SIG_NULLFAIL
        else if flags &&& SCRIPT_VERIFY_NULLDUMMY ≠ 0 ∧ dummy ≠ [] then
          .error SCRIPT_ERR_SIG_NULLDUMMY
        else .ok ((if r.1 then vchTrue else vchFalse) :: rest, nOpCount + keys.length) := by
  -- every guard before the loop passes on this stack
  set stack := vchN :: (keys ++ vchM :: (sigs ++ dummy :: rest)) with hstack
  have hlength : stack.length = keys.length + sigs.length + 3 + rest.length := by
    simp [hstack]
    omega
  have hkeysN : CScriptNum.getint keys.length = keys.length :=
    CScriptNum.getint_of_natAbs_le (by omega)
  have hsigsM : CScriptNum.getint sigs.length = sigs.length :=
    CScriptNum.getint_of_natAbs_le (by omega)
  have htopN : stacktop stack 1 = .ok vchN := by simp [hstack]
  have htopM : stacktop stack (1 + 1 + keys.length) = .ok vchM := by
    rw [stacktop_of_lt (by omega) (by omega), List.getD_eq_getElem?_getD,
      show 1 + 1 + keys.length - 1 = keys.length + 1 by omega, List.getElem?_cons_succ,
      List.getElem?_append_right le_rfl, Nat.sub_self]
    rfl
  have hkeys : (stack.drop (1 + 1 - 1)).take keys.length = keys := by simp [hstack]
  have hsigs : (stack.drop (1 + 1 + keys.length + 1 - 1)).take sigs.length = sigs := by
    rw [show 1 + 1 + keys.length + 1 - 1 = (keys.length + 1) + 1 by omega]
    simp [hstack, List.drop_append, List.drop_eq_nil_of_le]
  have hcount :
      ¬ ((keys.length : Int) < 0 ∨ (keys.length : Int) > MAX_PUBKEYS_PER_MULTISIG) := by
    unfold MAX_PUBKEYS_PER_MULTISIG
    omega
  have hsigcount : ¬ ((sigs.length : Int) < 0 ∨ (sigs.length : Int) > keys.length) := by omega
  have hl1 : ¬ keys.length + sigs.length + 3 + rest.length < 1 := by omega
  have hl2 : ¬ keys.length + sigs.length + 3 + rest.length < 1 + 1 + keys.length := by omega
  have hl3 : ¬ keys.length + sigs.length + 3 + rest.length <
      1 + 1 + keys.length + 1 + sigs.length := by omega
  -- the cleanup pops the keys, the counts and the signatures
  have hclean : ∀ fSuccess,
      cleanupMultisig flags fSuccess (1 + 1 + keys.length + 1 + sigs.length - 1)
        (keys.length + 2) stack =
        if !fSuccess ∧ flags &&& SCRIPT_VERIFY_NULLFAIL ≠ 0 ∧
            ∃ vchSig ∈ sigs, vchSig ≠ []
        then .error SCRIPT_ERR_SIG_NULLFAIL
        else .ok (dummy :: rest) := by
    intro fSuccess
    have h := @cleanupMultisig_append flags fSuccess (vchN :: (keys ++ [vchM]))
      sigs.length (sigs ++ dummy :: rest)
    simp only [List.length_cons, List.length_append, List.cons_append, List.append_assoc,
      List.length_nil, Nat.zero_add, List.nil_append] at h
    rw [show 1 + 1 + keys.length + 1 + sigs.length - 1 = keys.length + 1 + 1 + sigs.length by omega,
      show keys.length + 2 = keys.length + 1 + 1 by omega, hstack, h, cleanupMultisig_sigs]
  have hop : OP_CHECKMULTISIG ≠ OP_CHECKMULTISIGVERIFY := by decide
  simp only [OpCheckMultisig, htopN, hN, hkeysN, Int.toNat_natCast, htopM, hM, hsigsM, hcount,
    hsigcount, hkeys, hsigs, hlength, hl1, hl2, hl3, hclean, hop, if_false, bind, Except.bind,
    pure, Except.pure, throw, throwThe, MonadExceptOf.throw]
  by_cases hcountOp : nOpCount + keys.length > MAX_OPS_PER_SCRIPT
  · rw [if_pos hcountOp, if_pos hcountOp]
  · rw [if_neg hcountOp, if_neg hcountOp]
    rcases checkMultisigLoop checker crypto flags sigversion
      (deleteSignatures sigversion scriptCode sigs) sigs keys with e | ⟨fSuccess, calls⟩
    · rfl
    · dsimp only
      by_cases hnullfail :
          !fSuccess ∧ flags &&& SCRIPT_VERIFY_NULLFAIL ≠ 0 ∧
            ∃ vchSig ∈ sigs, vchSig ≠ []
      · rw [if_pos hnullfail, if_pos hnullfail]
      · rw [if_neg hnullfail, if_neg hnullfail]
        by_cases hnulldummy : flags &&& SCRIPT_VERIFY_NULLDUMMY = 0
        · simp [hnulldummy, popstack]
        · by_cases hdummy : dummy = []
          · simp [hnulldummy, hdummy, popstack]
          · simp [hnulldummy, hdummy]

end Shape

/-- What the loop returns is whether the signatures have an assignment. -/
theorem checkMultisigLoop_assigned {sigs keys : List valtype} {fSuccess : Bool}
    {calls : List (valtype × valtype)}
    (h : checkMultisigLoop checker crypto flags sigversion scriptCode sigs keys =
      .ok (fSuccess, calls))
    (hlen : sigs.length ≤ keys.length) :
    (fSuccess = true ↔ List.SublistForall₂ (fun vchSig vchPubKey =>
      checker.CheckSig vchSig vchPubKey scriptCode sigversion = true) sigs keys) := by
  rw [(checkMultisigLoop_eq_ok h hlen).1, Greedy.greedyMatch_iff]

end Ops

/-- `OP_CHECKMULTISIG` on `n ≤ 20` keys and `m ≤ n` signatures, below them the extra element:
when it succeeds it has consumed the `n + m + 3` elements and pushed whether the signatures can be
given in order to distinct keys that `CheckSig` accepts them with; when every signature and key
is well encoded it fails only on the op count, on `SCRIPT_VERIFY_NULLFAIL` with no such assignment
and a signature that is not empty, and on `SCRIPT_VERIFY_NULLDUMMY` with an extra element that is
not empty; and it calls `CheckSig` at most `n` times. -/
theorem opCheckMultisig_assigns
    (checker : BaseSignatureChecker) (crypto : ScriptCrypto) (flags : Nat)
    (sigversion : SigVersion) (fRequireMinimal : Bool) (scriptCode : List UInt8) (nOpCount : Int)
    (keys sigs rest : List valtype) (vchN vchM dummy : valtype)
    (hN : scriptNum vchN fRequireMinimal nDefaultMaxNumSize = .ok keys.length)
    (hM : scriptNum vchM fRequireMinimal nDefaultMaxNumSize = .ok sigs.length)
    (hmn : sigs.length ≤ keys.length) (hn : keys.length ≤ 20) :
    let assigned := List.SublistForall₂ (fun vchSig vchPubKey => checker.CheckSig vchSig vchPubKey
      (deleteSignatures sigversion scriptCode sigs) sigversion = true) sigs keys
    let stack := vchN :: (keys ++ vchM :: (sigs ++ dummy :: rest))
    (∀ r, OpCheckMultisig checker crypto flags sigversion fRequireMinimal scriptCode
        OP_CHECKMULTISIG stack nOpCount = .ok r →
        r = ((if assigned then vchTrue else vchFalse) :: rest, nOpCount + keys.length)) ∧
    ((∀ vchSig ∈ sigs, CheckSignatureEncoding crypto.CheckLowS vchSig flags = .ok ()) →
      (∀ vchPubKey ∈ keys, CheckPubKeyEncoding vchPubKey flags sigversion = .ok ()) →
      nOpCount + keys.length ≤ MAX_OPS_PER_SCRIPT →
      OpCheckMultisig checker crypto flags sigversion fRequireMinimal scriptCode
          OP_CHECKMULTISIG stack nOpCount =
        if flags &&& SCRIPT_VERIFY_NULLFAIL ≠ 0 ∧ ¬ assigned ∧
            ∃ vchSig ∈ sigs, vchSig ≠ []
        then .error SCRIPT_ERR_SIG_NULLFAIL
        else if flags &&& SCRIPT_VERIFY_NULLDUMMY ≠ 0 ∧ dummy ≠ [] then
          .error SCRIPT_ERR_SIG_NULLDUMMY
        else .ok ((if assigned then vchTrue else vchFalse) :: rest, nOpCount + keys.length)) ∧
    ∀ fSuccess calls, checkMultisigLoop checker crypto flags sigversion
        (deleteSignatures sigversion scriptCode sigs) sigs keys = .ok (fSuccess, calls) →
      calls.length ≤ keys.length := by
  intro assigned stack
  refine ⟨fun r h => ?_, fun hsigs hkeys hcount => ?_,
    fun fSuccess calls h => (checkMultisigLoop_eq_ok h hmn).2⟩
  · rw [OpCheckMultisig_eq hN hM hmn hn] at h
    by_cases hcount : nOpCount + keys.length > MAX_OPS_PER_SCRIPT
    · rw [if_pos hcount] at h
      cases h
    rw [if_neg hcount] at h
    obtain ⟨⟨fSuccess, calls⟩, hloop, h⟩ := Except.bind_eq_ok.mp h
    have hfs := checkMultisigLoop_assigned hloop hmn
    -- neither `NULLFAIL` nor `NULLDUMMY` stopped the op
    have hpush :
        ((if fSuccess then vchTrue else vchFalse) :: rest, nOpCount + keys.length) = r := by
      dsimp only at h
      by_cases hnullfail :
          !fSuccess ∧ flags &&& SCRIPT_VERIFY_NULLFAIL ≠ 0 ∧
            ∃ vchSig ∈ sigs, vchSig ≠ []
      · rw [if_pos hnullfail] at h
        cases h
      rw [if_neg hnullfail] at h
      by_cases hnulldummy : flags &&& SCRIPT_VERIFY_NULLDUMMY ≠ 0 ∧ dummy ≠ []
      · rw [if_pos hnulldummy] at h
        cases h
      rw [if_neg hnulldummy] at h
      exact Except.ok.inj h
    subst hpush
    by_cases hassigned : assigned
    · rw [if_pos (hfs.mpr hassigned), if_pos hassigned]
    · rw [if_neg (mt hfs.mp hassigned), if_neg hassigned]
  · obtain ⟨⟨fSuccess, calls⟩, hloop⟩ : ∃ r, checkMultisigLoop checker crypto flags sigversion
        (deleteSignatures sigversion scriptCode sigs) sigs keys = .ok r :=
      checkMultisigLoop_of_encodings hsigs hkeys
    have hfs := checkMultisigLoop_assigned hloop hmn
    rw [OpCheckMultisig_eq hN hM hmn hn, if_neg (by omega), hloop]
    dsimp only [Except.bind]
    by_cases hassigned : assigned
    · obtain rfl : fSuccess = true := hfs.mpr hassigned
      simp [hassigned]
    · obtain rfl : fSuccess = false := Bool.eq_false_iff.mpr (mt hfs.mp hassigned)
      simp [hassigned]

/-- A 1-of-2 multisig whose signature is for the second key pushes true. -/
theorem opCheckMultisig_assigns_second_key :
    OpCheckMultisig ⟨fun vchSig vchPubKey _ _ => vchSig == [1] && vchPubKey == [2],
        fun _ => true, fun _ => true⟩ ⟨id, id, id, id, id, fun _ => true⟩ 0
        SIGVERSION_WITNESS_V0 false [] OP_CHECKMULTISIG [[2], [3], [2], [1], [1], []] 0 =
      .ok ([vchTrue], 2) :=
  ((opCheckMultisig_assigns ⟨fun vchSig vchPubKey _ _ => vchSig == [1] && vchPubKey == [2],
    fun _ => true, fun _ => true⟩ ⟨id, id, id, id, id, fun _ => true⟩ 0
    SIGVERSION_WITNESS_V0 false [] 0 [[3], [2]] [[1]] [] [2] [1] [] rfl rfl (by decide)
    (by decide)).2.1 (by decide) (by decide) (by decide)).trans (by decide)

end Trumpow
