import Trumpow.Script.Interpreter

/-!
# Script — standard templates: `Solver` and destinations

`script/standard.cpp`.  `Solver` recognises a pay-to-script-hash script by its bytes, then a
witness program, then a data carrier (`OP_RETURN` and pushes); otherwise it matches the script
against three templates in the order of their `txnouttype` (pay to public key, to public key
hash, multisig).  A template is a script with pseudo-opcodes: `OP_PUBKEY` matches a push of 33 to
65 bytes, `OP_PUBKEYHASH` a push of 20 bytes, `OP_SMALLINTEGER` one of `OP_0`, `OP_1` … `OP_16`,
and `OP_PUBKEYS` every push of 33 to 65 bytes that follows; other ops must be equal.  The
matching walks two iterators with `GetOp` (`matchTemplate`, with the inner loop `pubkeysLoop`),
and a multisig match is checked for `1 <= m <= n` and `n` keys.  A `false` return is `none`; the
values `Solver` leaves in its output arguments then are not modelled.

`GetScriptForDestination`, `GetScriptForRawPubKey` and `GetScriptForMultisig` build the
templates; `ExtractDestination` and `ExtractDestinations` read destinations back, through
`CPubKey`'s validity (the size its first byte announces) and `Hash160`, a parameter.

The walk is specified on the ops of the script (`readOps`, what `GetOp` reads to the end): each
template is a pattern over the ops (`templateSpec`), the keys of a multisig script being the run
of key-sized pushes after `OP_m`.

* `scanTemplates_templates`: the iterator walk over the templates is `templateSpec` on the ops,
  and `Solver_eq_solverSpec` states all of `Solver` that way.
* `ExtractDestination_GetScriptForDestination`, `ExtractDestination_GetScriptForRawPubKey`,
  `ExtractDestinations_GetScriptForMultisig`: the scripts the builders write are solved back into
  what they were given, and the destinations are read back from them.
-/

namespace Trumpow

/-! ### Opcodes and types -/

def OP_SMALLINTEGER : UInt8 := 0xfa
def OP_PUBKEYS : UInt8 := 0xfb
def OP_PUBKEYHASH : UInt8 := 0xfd
def OP_PUBKEY : UInt8 := 0xfe
def OP_INVALIDOPCODE : UInt8 := 0xff

/-- `txnouttype`. -/
inductive txnouttype where
  | TX_NONSTANDARD
  | TX_PUBKEY
  | TX_PUBKEYHASH
  | TX_SCRIPTHASH
  | TX_MULTISIG
  | TX_NULL_DATA
  | TX_WITNESS_V0_SCRIPTHASH
  | TX_WITNESS_V0_KEYHASH
deriving DecidableEq, Repr

/-- `CScript::DecodeOP_N`, for `OP_0` and `OP_1` … `OP_16`. -/
def DecodeOP_N (opcode : UInt8) : Nat :=
  if opcode = OP_0 then 0 else opcode.toNat - (OP_1.toNat - 1)

/-- `CScript::EncodeOP_N`, whose `assert(n >= 0 && n <= 16)` fails (`none`) outside `0 … 16`. -/
def EncodeOP_N (n : Int) : Option UInt8 :=
  if 0 ≤ n ∧ n ≤ 16 then some (if n = 0 then OP_0 else UInt8.ofNat (OP_1.toNat + n.toNat - 1))
  else none

/-- `CScript::IsWitnessProgram`: the version and the program. -/
def IsWitnessProgram (script : List UInt8) : Option (Nat × List UInt8) :=
  if script.length < 4 ∨ script.length > 42 then none
  else if script.getD 0 0 ≠ OP_0 ∧ (script.getD 0 0 < OP_1 ∨ script.getD 0 0 > OP_16) then none
  else if (script.getD 1 0).toNat + 2 = script.length then
    some (DecodeOP_N (script.getD 0 0), script.drop 2)
  else none

/-- `CScript::IsPushOnly(pc)`: every op to the end is read and is at most `OP_16`. -/
def IsPushOnly (pc : List UInt8) : Bool :=
  if pc = [] then true
  else
    match h : GetOp pc with
    | (none, _) => false
    | (some (opcode, _), pc') => if opcode > OP_16 then false else IsPushOnly pc'
termination_by pc.length
decreasing_by exact GetOp_length_lt h

/-! ### `Solver` -/

/-- The rest of one turn of the template loop, from `if (opcode2 == OP_PUBKEY)` on: the script's
op `opcode1`/`vch1` against the template's `opcode2`/`vch2`, with the solutions after it, or
`none` where the loop breaks. -/
def matchOp (opcode1 : UInt8) (vch1 : valtype) (opcode2 : UInt8) (vch2 : valtype)
    (sols : List valtype) : Option (List valtype) :=
  if opcode2 = OP_PUBKEY then
    if vch1.length < 33 ∨ vch1.length > 65 then none else some (sols ++ [vch1])
  else if opcode2 = OP_PUBKEYHASH then
    if vch1.length ≠ 20 then none else some (sols ++ [vch1])
  else if opcode2 = OP_SMALLINTEGER then
    -- Single-byte small integer pushed onto vSolutions
    if opcode1 = OP_0 ∨ (OP_1 ≤ opcode1 ∧ opcode1 ≤ OP_16) then
      some (sols ++ [[UInt8.ofNat (DecodeOP_N opcode1)]])
    else none
  -- Others must match exactly
  else if opcode1 ≠ opcode2 ∨ vch1 ≠ vch2 then none
  else some sols

/-- The `while` loop of `OP_PUBKEYS`: the pushes of 33 to 65 bytes from `vch1` on go to the
solutions.  It stops at the first other op, which it returns with the iterator after it, or
where `GetOp` fails, which leaves `OP_INVALIDOPCODE` and no data. -/
def pubkeysLoop (opcode1 : UInt8) (vch1 pc1 : List UInt8) (sols : List valtype) :
    UInt8 × valtype × List UInt8 × List valtype :=
  if 33 ≤ vch1.length ∧ vch1.length ≤ 65 then
    match h : GetOp pc1 with
    | (some (opcode1', vch1'), pc1') => pubkeysLoop opcode1' vch1' pc1' (sols ++ [vch1])
    | (none, pc1') => (OP_INVALIDOPCODE, [], pc1', sols ++ [vch1])
  else (opcode1, vch1, pc1, sols)
termination_by pc1.length
decreasing_by exact GetOp_length_lt h

/-- The `while (true)` loop comparing the script from `pc1` with a template from `pc2`: the
solutions when both end together, `none` at a `break`. -/
def matchTemplate (pc1 pc2 : List UInt8) (sols : List valtype) : Option (List valtype) :=
  if pc1 = [] ∧ pc2 = [] then some sols
  else
    match GetOp pc1 with
    | (none, _) => none
    | (some (opcode1, vch1), pc1) =>
      match h : GetOp pc2 with
      | (none, _) => none
      | (some (opcode2, vch2), pc2') =>
        if opcode2 = OP_PUBKEYS then
          match pubkeysLoop opcode1 vch1 pc1 sols with
          | (opcode1, vch1, pc1, sols) =>
            match h' : GetOp pc2' with
            | (none, _) => none
            | (some (opcode2, vch2), pc2'') =>
              match matchOp opcode1 vch1 opcode2 vch2 sols with
              | none => none
              | some sols => matchTemplate pc1 pc2'' sols
        else
          match matchOp opcode1 vch1 opcode2 vch2 sols with
          | none => none
          | some sols => matchTemplate pc1 pc2' sols
termination_by pc2.length
decreasing_by
  · exact (GetOp_length_lt h').trans (GetOp_length_lt h)
  · exact GetOp_length_lt h

/-- `mTemplates`, in the order of the multimap's keys. -/
def templates : List (txnouttype × List UInt8) :=
  [(.TX_PUBKEY, [OP_PUBKEY, OP_CHECKSIG]),
   (.TX_PUBKEYHASH, [OP_DUP, OP_HASH160, OP_PUBKEYHASH, OP_EQUALVERIFY, OP_CHECKSIG]),
   (.TX_MULTISIG, [OP_SMALLINTEGER, OP_PUBKEYS, OP_SMALLINTEGER, OP_CHECKMULTISIG])]

/-- The scan over the templates: the first that matches decides; a multisig match must have
`1 <= m <= n` and `n` keys. -/
def scanTemplates (script : List UInt8) :
    List (txnouttype × List UInt8) → Option (txnouttype × List valtype)
  | [] => none
  | (typ, tplate) :: rest =>
    match matchTemplate script tplate [] with
    | none => scanTemplates script rest
    | some sols =>
      if typ = .TX_MULTISIG then
        -- Additional checks for TX_MULTISIG
        let m := (sols.headD []).headD 0
        let n := (sols.getLastD []).headD 0
        if m < 1 ∨ n < 1 ∨ m > n ∨ sols.length - 2 ≠ n.toNat then none else some (typ, sols)
      else some (typ, sols)

/-- `Solver(scriptPubKey, typeRet, vSolutionsRet)`: the type and the solutions when it returns
`true`. -/
def Solver (scriptPubKey : List UInt8) : Option (txnouttype × List valtype) :=
  -- Shortcut for pay-to-script-hash
  if isPayToScriptHash scriptPubKey then
    some (.TX_SCRIPTHASH, [(scriptPubKey.drop 2).take 20])
  else
    match IsWitnessProgram scriptPubKey with
    | some (witnessversion, witnessprogram) =>
      if witnessversion = 0 ∧ witnessprogram.length = 20 then
        some (.TX_WITNESS_V0_KEYHASH, [witnessprogram])
      else if witnessversion = 0 ∧ witnessprogram.length = 32 then
        some (.TX_WITNESS_V0_SCRIPTHASH, [witnessprogram])
      else none
    | none =>
      -- Provably prunable, data-carrying output
      if 1 ≤ scriptPubKey.length ∧ scriptPubKey.getD 0 0 = OP_RETURN ∧
          IsPushOnly (scriptPubKey.drop 1) = true then
        some (.TX_NULL_DATA, [])
      else scanTemplates scriptPubKey templates

/-! ### Destinations -/

/-- `CTxDestination`. -/
inductive CTxDestination where
  | CNoDestination
  | CKeyID (id : Uint160)
  | CScriptID (id : Uint160)
deriving DecidableEq

/-- `CPubKey::GetLen(chHeader)`. -/
def CPubKey.GetLen (chHeader : UInt8) : Nat :=
  if chHeader = 2 ∨ chHeader = 3 then 33
  else if chHeader = 4 ∨ chHeader = 6 ∨ chHeader = 7 then 65
  else 0

/-- `CPubKey(vch).IsValid()`: the constructor keeps `vch` when it is as long as its first byte
announces. -/
def CPubKey.IsValid (vch : valtype) : Bool :=
  match vch with
  | [] => false
  | c :: _ => GetLen c != 0 && GetLen c == vch.length

variable (Hash160 : List UInt8 → Uint160)

/-- `ExtractDestination(scriptPubKey, addressRet)`: the destination when it returns `true`.  The
`uint160` constructor asserts its 20 bytes (`Except.error`). -/
def ExtractDestination (scriptPubKey : List UInt8) : Except String (Option CTxDestination) :=
  match Solver scriptPubKey with
  | none => pure none
  | some (whichType, vSolutions) =>
    if whichType = .TX_PUBKEY then
      let pubKey := vSolutions.headD []
      if CPubKey.IsValid pubKey then pure (some (.CKeyID (Hash160 pubKey))) else pure none
    else if whichType = .TX_PUBKEYHASH then do
      let id ← uint160 (vSolutions.headD [])
      pure (some (.CKeyID id))
    else if whichType = .TX_SCRIPTHASH then do
      let id ← uint160 (vSolutions.headD [])
      pure (some (.CScriptID id))
    -- Multisig txns have more than one address...
    else pure none

/-- `ExtractDestinations(scriptPubKey, typeRet, addressRet, nRequiredRet)`: the type, the
destinations and the number of signatures required when it returns `true`. -/
def ExtractDestinations (scriptPubKey : List UInt8) :
    Except String (Option (txnouttype × List CTxDestination × Nat)) :=
  match Solver scriptPubKey with
  | none => pure none
  | some (typeRet, vSolutions) =>
    -- This is data, not addresses
    if typeRet = .TX_NULL_DATA then pure none
    else if typeRet = .TX_MULTISIG then
      let nRequired := ((vSolutions.headD []).headD 0).toNat
      let addresses := ((vSolutions.drop 1).dropLast).filterMap fun key =>
        if CPubKey.IsValid key then some (CTxDestination.CKeyID (Hash160 key)) else none
      if addresses = [] then pure none else pure (some (typeRet, addresses, nRequired))
    else do
      let address ← ExtractDestination Hash160 scriptPubKey
      match address with
      | none => pure none
      | some address => pure (some (typeRet, [address], 1))

/-- `GetScriptForDestination(dest)`. -/
def GetScriptForDestination : CTxDestination → List UInt8
  | .CNoDestination => []
  | .CKeyID keyID => pushBytes [OP_DUP, OP_HASH160] keyID.data ++ [OP_EQUALVERIFY, OP_CHECKSIG]
  | .CScriptID scriptID => pushBytes [OP_HASH160] scriptID.data ++ [OP_EQUAL]

/-- `GetScriptForRawPubKey(pubKey)`, of the key's bytes `begin()` … `end()`. -/
def GetScriptForRawPubKey (pubKey : valtype) : List UInt8 := pushBytes [] pubKey ++ [OP_CHECKSIG]

/-- `GetScriptForMultisig(nRequired, keys)`, of the keys' bytes; `EncodeOP_N` asserts that
`nRequired` and the number of keys are at most 16. -/
def GetScriptForMultisig (nRequired : Int) (keys : List valtype) : Option (List UInt8) := do
  let m ← EncodeOP_N nRequired
  let n ← EncodeOP_N keys.length
  pure (keys.foldl pushBytes [m] ++ [n, OP_CHECKMULTISIG])

/-! ### The ops of a script, and each branch of the walk -/

/-- The ops `GetOp` reads from `pc` to its end, each with the data it pushes, or `none` when a
read fails first. -/
def readOps (pc : List UInt8) : Option (List (UInt8 × valtype)) :=
  if pc = [] then some []
  else
    match h : GetOp pc with
    | (none, _) => none
    | (some op, pc') => (readOps pc').map (op :: ·)
termination_by pc.length
decreasing_by exact GetOp_length_lt h

@[simp] theorem readOps_nil : readOps [] = some [] := by
  rw [readOps, if_pos rfl]

theorem ne_nil_of_GetOp {pc pc' : List UInt8} {op : UInt8 × valtype}
    (h : GetOp pc = (some op, pc')) : pc ≠ [] := by
  rintro rfl
  simp [GetOp] at h

theorem readOps_of_some {pc pc' : List UInt8} {op : UInt8 × valtype}
    (h : GetOp pc = (some op, pc')) : readOps pc = (readOps pc').map (op :: ·) := by
  rw [readOps, if_neg (ne_nil_of_GetOp h)]
  split <;> simp_all

theorem readOps_of_none {pc pc' : List UInt8} (hpc : pc ≠ []) (h : GetOp pc = (none, pc')) :
    readOps pc = none := by
  rw [readOps, if_neg hpc]
  split <;> simp_all

theorem matchTemplate_nil (pc1 : List UInt8) (sols : List valtype) :
    matchTemplate pc1 [] sols = if pc1 = [] then some sols else none := by
  rw [matchTemplate]
  by_cases hpc : pc1 = []
  · simp [hpc]
  · simp only [hpc, false_and, if_false]
    split <;> simp [GetOp]

theorem matchTemplate_of_none {pc1 pc1' pc2 : List UInt8} (hpc2 : pc2 ≠ [])
    (h : GetOp pc1 = (none, pc1')) (sols : List valtype) : matchTemplate pc1 pc2 sols = none := by
  rw [matchTemplate, if_neg (fun hc => hpc2 hc.2), h]

/-- A template op other than `OP_PUBKEYS` takes one op of the script. -/
theorem matchTemplate_cons {pc1 pc1' : List UInt8} {opcode1 opcode2 : UInt8} {vch1 : valtype}
    (h2 : OP_PUSHDATA4 < opcode2) (hpk : opcode2 ≠ OP_PUBKEYS)
    (h : GetOp pc1 = (some (opcode1, vch1), pc1')) (tpl : List UInt8) (sols : List valtype) :
    matchTemplate pc1 (opcode2 :: tpl) sols =
      (matchOp opcode1 vch1 opcode2 [] sols).bind (matchTemplate pc1' tpl) := by
  rw [matchTemplate, if_neg (fun hc => List.cons_ne_nil _ _ hc.2), h]
  simp only
  split
  · rename_i heq
    rw [GetOp_cons_of_gt h2] at heq
    cases heq
  · rename_i opcode2' vch2 pc2' heq
    rw [GetOp_cons_of_gt h2] at heq
    cases heq
    rw [if_neg hpk]
    cases matchOp opcode1 vch1 opcode2 [] sols <;> rfl

/-- A push of 33 to 65 bytes: what `OP_PUBKEY` and `OP_PUBKEYS` accept. -/
def IsPubKeySize (vch : valtype) : Bool := 33 ≤ vch.length && vch.length ≤ 65

/-- `OP_0` or `OP_1` … `OP_16`: what `OP_SMALLINTEGER` accepts. -/
def IsSmallInteger (opcode : UInt8) : Bool := opcode == OP_0 || (OP_1 ≤ opcode && opcode ≤ OP_16)

theorem matchOp_pubKey (opcode1 : UInt8) (vch1 vch2 : valtype) (sols : List valtype) :
    matchOp opcode1 vch1 OP_PUBKEY vch2 sols =
      if IsPubKeySize vch1 then some (sols ++ [vch1]) else none := by
  simp only [matchOp, if_true, IsPubKeySize]
  split_ifs <;> simp_all
  omega

theorem matchOp_pubKeyHash (opcode1 : UInt8) (vch1 vch2 : valtype) (sols : List valtype) :
    matchOp opcode1 vch1 OP_PUBKEYHASH vch2 sols =
      if vch1.length = 20 then some (sols ++ [vch1]) else none := by
  simp only [matchOp, if_true, show OP_PUBKEYHASH ≠ OP_PUBKEY by decide, if_false]
  split_ifs <;> simp_all

theorem matchOp_smallInteger (opcode1 : UInt8) (vch1 vch2 : valtype) (sols : List valtype) :
    matchOp opcode1 vch1 OP_SMALLINTEGER vch2 sols =
      if IsSmallInteger opcode1 then some (sols ++ [[UInt8.ofNat (DecodeOP_N opcode1)]])
      else none := by
  have hs : IsSmallInteger opcode1 = true ↔ opcode1 = OP_0 ∨ (OP_1 ≤ opcode1 ∧ opcode1 ≤ OP_16) := by
    simp [IsSmallInteger]
  simp only [matchOp, show OP_SMALLINTEGER ≠ OP_PUBKEY by decide,
    show OP_SMALLINTEGER ≠ OP_PUBKEYHASH by decide, if_true, if_false]
  by_cases hc : opcode1 = OP_0 ∨ (OP_1 ≤ opcode1 ∧ opcode1 ≤ OP_16)
  · rw [if_pos hc, if_pos (hs.mpr hc)]
  · rw [if_neg hc, if_neg (mt hs.mp hc)]

/-- Any other template op must be the script's op, with no data. -/
theorem matchOp_exact {opcode2 : UInt8} (h1 : opcode2 ≠ OP_PUBKEY) (h2 : opcode2 ≠ OP_PUBKEYHASH)
    (h3 : opcode2 ≠ OP_SMALLINTEGER) (opcode1 : UInt8) (vch1 : valtype) (sols : List valtype) :
    matchOp opcode1 vch1 opcode2 [] sols =
      if opcode1 = opcode2 ∧ vch1 = [] then some sols else none := by
  simp only [matchOp, h1, h2, h3, if_false]
  split_ifs <;> simp_all

/-- The ops against a template without `OP_PUBKEYS`, one for one. -/
def matchOps : List (UInt8 × valtype) → List UInt8 → List valtype → Option (List valtype)
  | [], [], sols => some sols
  | (opcode1, vch1) :: ops, opcode2 :: tpl, sols =>
    (matchOp opcode1 vch1 opcode2 [] sols).bind (matchOps ops tpl)
  | _ :: _, [], _ => none
  | [], _ :: _, _ => none

/-- A template of plain ops walked with the script is the ops of the script matched one for one,
and fails when a read of the script does. -/
theorem matchTemplate_eq_matchOps (tpl : List UInt8)
    (htpl : ∀ o ∈ tpl, OP_PUSHDATA4 < o ∧ o ≠ OP_PUBKEYS) (pc1 : List UInt8) (sols : List valtype) :
    matchTemplate pc1 tpl sols = (readOps pc1).bind (fun ops => matchOps ops tpl sols) := by
  induction tpl generalizing pc1 sols with
  | nil =>
    rw [matchTemplate_nil]
    by_cases hpc : pc1 = []
    · simp [hpc, matchOps]
    · rw [if_neg hpc]
      match h : GetOp pc1 with
      | (some op, pc1') =>
        rw [readOps_of_some h]
        cases readOps pc1' <;> simp [matchOps]
      | (none, pc1') => rw [readOps_of_none hpc h]; rfl
  | cons opcode2 tpl ih =>
    obtain ⟨h2, hpk⟩ := htpl opcode2 List.mem_cons_self
    have ih' := ih (fun o ho => htpl o (List.mem_cons_of_mem _ ho))
    match h : GetOp pc1 with
    | (some (opcode1, vch1), pc1') =>
      rw [matchTemplate_cons h2 hpk h, readOps_of_some h]
      simp only [ih', Option.bind_map, Function.comp_def, matchOps]
      cases matchOp opcode1 vch1 opcode2 [] sols <;> cases readOps pc1' <;> rfl
    | (none, pc1') =>
      rw [matchTemplate_of_none (List.cons_ne_nil _ _) h]
      by_cases hpc : pc1 = []
      · simp [hpc, matchOps]
      · rw [readOps_of_none hpc h]; rfl

/-- Against the last op of the multisig template the ops must be `OP_CHECKMULTISIG` alone. -/
theorem matchOps_checkMultisig (ops : List (UInt8 × valtype)) (sols : List valtype) :
    matchOps ops [OP_CHECKMULTISIG] sols =
      if ops = [(OP_CHECKMULTISIG, [])] then some sols else none := by
  rcases ops with _ | ⟨⟨opcode1, vch1⟩, _ | ⟨op, ops⟩⟩
  · rfl
  · rw [matchOps, matchOp_exact (by decide) (by decide) (by decide)]
    by_cases h : opcode1 = OP_CHECKMULTISIG ∧ vch1 = [] <;> simp_all [matchOps]
  · rw [matchOps, matchOp_exact (by decide) (by decide) (by decide)]
    split_ifs <;> simp_all [matchOps]

theorem matchTemplate_checkMultisig (pc1 : List UInt8) (sols : List valtype) :
    matchTemplate pc1 [OP_CHECKMULTISIG] sols =
      (readOps pc1).bind fun ops => if ops = [(OP_CHECKMULTISIG, [])] then some sols else none := by
  have htpl : ∀ o ∈ [OP_CHECKMULTISIG], OP_PUSHDATA4 < o ∧ o ≠ OP_PUBKEYS := by
    intro o ho
    rw [List.mem_singleton.mp ho]
    decide
  simp only [matchTemplate_eq_matchOps _ htpl, matchOps_checkMultisig]

theorem pubkeysLoop_of_not {vch1 : valtype} (hv : IsPubKeySize vch1 = false) (opcode1 : UInt8)
    (pc1 : List UInt8) (sols : List valtype) :
    pubkeysLoop opcode1 vch1 pc1 sols = (opcode1, vch1, pc1, sols) := by
  have hv' : ¬(33 ≤ vch1.length ∧ vch1.length ≤ 65) := by
    simp only [IsPubKeySize, Bool.and_eq_false_iff, decide_eq_false_iff_not] at hv
    omega
  rw [pubkeysLoop, if_neg hv']

theorem pubkeysLoop_of_some {vch1 pc1 pc1' : List UInt8} {opcode1' : UInt8} {vch1' : valtype}
    (hv : IsPubKeySize vch1 = true) (h : GetOp pc1 = (some (opcode1', vch1'), pc1'))
    (opcode1 : UInt8) (sols : List valtype) :
    pubkeysLoop opcode1 vch1 pc1 sols = pubkeysLoop opcode1' vch1' pc1' (sols ++ [vch1]) := by
  have hv' : 33 ≤ vch1.length ∧ vch1.length ≤ 65 := by simpa [IsPubKeySize] using hv
  rw [pubkeysLoop, if_pos hv']
  split <;> simp_all

theorem pubkeysLoop_of_none {vch1 pc1 pc1' : List UInt8} (hv : IsPubKeySize vch1 = true)
    (h : GetOp pc1 = (none, pc1')) (opcode1 : UInt8) (sols : List valtype) :
    pubkeysLoop opcode1 vch1 pc1 sols = (OP_INVALIDOPCODE, [], pc1', sols ++ [vch1]) := by
  have hv' : 33 ≤ vch1.length ∧ vch1.length ≤ 65 := by simpa [IsPubKeySize] using hv
  rw [pubkeysLoop, if_pos hv']
  split <;> simp_all

/-- `OP_PUBKEYS` runs the loop from the script's next op, then matches the op it stopped at
against the template op after it. -/
theorem matchTemplate_pubkeys {pc1 pc1' pc1'' : List UInt8} {opcode1 opcode1' opcode2 : UInt8}
    {vch1 vch1' : valtype} {sols sols' : List valtype} (h2 : OP_PUSHDATA4 < opcode2)
    (h : GetOp pc1 = (some (opcode1, vch1), pc1'))
    (hloop : pubkeysLoop opcode1 vch1 pc1' sols = (opcode1', vch1', pc1'', sols'))
    (tpl : List UInt8) :
    matchTemplate pc1 (OP_PUBKEYS :: opcode2 :: tpl) sols =
      (matchOp opcode1' vch1' opcode2 [] sols').bind (matchTemplate pc1'' tpl) := by
  rw [matchTemplate, if_neg (fun hc => List.cons_ne_nil _ _ hc.2), h]
  simp only
  split
  · rename_i heq
    rw [GetOp_cons_of_gt (by decide)] at heq
    cases heq
  · rename_i heq
    rw [GetOp_cons_of_gt (by decide)] at heq
    cases heq
    rw [if_pos rfl, hloop]
    simp only
    split
    · rename_i heq'
      rw [GetOp_cons_of_gt h2] at heq'
      cases heq'
    · rename_i heq'
      rw [GetOp_cons_of_gt h2] at heq'
      cases heq'
      cases matchOp opcode1' vch1' opcode2 [] sols' <;> rfl

/-! ### The templates as patterns over the ops -/

/-- `⟨pubkey⟩ OP_CHECKSIG`. -/
def pubKeyPattern : List (UInt8 × valtype) → Option (List valtype)
  | [(_, pubKey), op] =>
    if IsPubKeySize pubKey ∧ op = (OP_CHECKSIG, []) then some [pubKey] else none
  | _ => none

/-- `OP_DUP OP_HASH160 ⟨pubkeyhash⟩ OP_EQUALVERIFY OP_CHECKSIG`. -/
def pubKeyHashPattern : List (UInt8 × valtype) → Option (List valtype)
  | [op1, op2, (_, hash), op4, op5] =>
    if op1 = (OP_DUP, []) ∧ op2 = (OP_HASH160, []) ∧ hash.length = 20 ∧
        op4 = (OP_EQUALVERIFY, []) ∧ op5 = (OP_CHECKSIG, []) then some [hash]
    else none
  | _ => none

/-- What follows `OP_m` in `OP_m ⟨pubkey⟩… OP_n OP_CHECKMULTISIG`: the keys, every push of 33 to
65 bytes up to the first other op, and `n`. -/
def keysThenN (ops : List (UInt8 × valtype)) : Option (List valtype × Nat) :=
  match ops.dropWhile (fun op => IsPubKeySize op.2) with
  | [(n, _), op] =>
    if IsSmallInteger n ∧ op = (OP_CHECKMULTISIG, []) then
      some ((ops.takeWhile (fun op => IsPubKeySize op.2)).map Prod.snd, DecodeOP_N n)
    else none
  | _ => none

/-- `OP_m ⟨pubkey⟩… OP_n OP_CHECKMULTISIG`: `m`, the keys and `n`. -/
def multisigPattern : List (UInt8 × valtype) → Option (Nat × List valtype × Nat)
  | (m, _) :: ops =>
    if IsSmallInteger m then (keysThenN ops).map fun kn => (DecodeOP_N m, kn) else none
  | [] => none

/-- The templates on the ops of a script: the first pattern that matches decides, and a
multisig script needs `1 ≤ m ≤ n` and `n` keys. -/
def templateSpec (ops : List (UInt8 × valtype)) : Option (txnouttype × List valtype) :=
  match pubKeyPattern ops with
  | some sols => some (.TX_PUBKEY, sols)
  | none =>
    match pubKeyHashPattern ops with
    | some sols => some (.TX_PUBKEYHASH, sols)
    | none =>
      match multisigPattern ops with
      | some (m, keys, n) =>
        if 1 ≤ m ∧ m ≤ n ∧ keys.length = n then
          some (.TX_MULTISIG, [UInt8.ofNat m] :: keys ++ [[UInt8.ofNat n]])
        else none
      | none => none

theorem keysThenN_cons_of_pubKey {vch : valtype} (hv : IsPubKeySize vch = true) (opcode : UInt8)
    (ops : List (UInt8 × valtype)) :
    keysThenN ((opcode, vch) :: ops) = (keysThenN ops).map fun kn => (vch :: kn.1, kn.2) := by
  unfold keysThenN
  rw [List.dropWhile_cons_of_pos (by simpa using hv), List.takeWhile_cons_of_pos (by simpa using hv)]
  split <;> simp_all

theorem keysThenN_cons_of_not {vch : valtype} (hv : IsPubKeySize vch = false) (opcode : UInt8)
    (ops : List (UInt8 × valtype)) :
    keysThenN ((opcode, vch) :: ops) =
      if IsSmallInteger opcode ∧ ops = [(OP_CHECKMULTISIG, [])] then some ([], DecodeOP_N opcode)
      else none := by
  unfold keysThenN
  rw [List.dropWhile_cons_of_neg (by simpa using hv), List.takeWhile_cons_of_neg (by simpa using hv)]
  rcases ops with _ | ⟨op, _ | ⟨op', ops⟩⟩ <;> simp

/-- The loop of `OP_PUBKEYS` and the rest of the multisig template, `OP_SMALLINTEGER
OP_CHECKMULTISIG`: the loop collects the run of key pushes from the op it starts at, and the ops
after the run must be `OP_n OP_CHECKMULTISIG`.  By the loop's recursion: the run ends at once, it
ends where `GetOp` fails (no small integer follows), or the loop goes on from the next op. -/
theorem pubkeysLoop_then_n (opcode1 : UInt8) (vch1 pc1 : List UInt8) (sols : List valtype)
    {opcode1' : UInt8} {vch1' pc1' : List UInt8} {sols' : List valtype}
    (hloop : pubkeysLoop opcode1 vch1 pc1 sols = (opcode1', vch1', pc1', sols')) :
    (matchOp opcode1' vch1' OP_SMALLINTEGER [] sols').bind (matchTemplate pc1' [OP_CHECKMULTISIG]) =
      (readOps pc1).bind fun ops => (keysThenN ((opcode1, vch1) :: ops)).map
        fun kn => sols ++ kn.1 ++ [[UInt8.ofNat kn.2]] := by
  cases hv : IsPubKeySize vch1
  · -- the run is empty: the loop stops at `vch1`
    rw [pubkeysLoop_of_not hv] at hloop
    cases hloop
    rw [matchOp_smallInteger]
    simp only [keysThenN_cons_of_not hv, matchTemplate_checkMultisig]
    cases hs : IsSmallInteger opcode1 <;> cases readOps pc1 <;> simp
  · match h : GetOp pc1 with
    | (some (opcode2, vch2), pc2) =>
      rw [pubkeysLoop_of_some hv h] at hloop
      rw [pubkeysLoop_then_n opcode2 vch2 pc2 (sols ++ [vch1]) hloop, readOps_of_some h,
        Option.bind_map]
      simp only [Function.comp_def, keysThenN_cons_of_pubKey hv, Option.map_map]
      cases readOps pc2 <;> simp
    | (none, pc2) =>
      -- `GetOp` failed: the loop returns `OP_INVALIDOPCODE`, no small integer
      rw [pubkeysLoop_of_none hv h] at hloop
      cases hloop
      rw [matchOp_smallInteger, if_neg (by decide)]
      by_cases hpc : pc1 = []
      · simp only [hpc, readOps_nil, Option.bind_some, keysThenN_cons_of_pubKey hv]
        rfl
      · rw [readOps_of_none hpc h]
        rfl
termination_by pc1.length
decreasing_by exact GetOp_length_lt h

theorem matchOps_pubKey (ops : List (UInt8 × valtype)) :
    matchOps ops [OP_PUBKEY, OP_CHECKSIG] [] = pubKeyPattern ops := by
  rcases ops with _ | ⟨⟨opcode1, vch1⟩, _ | ⟨⟨opcode2, vch2⟩, _ | ⟨op, ops⟩⟩⟩ <;>
    simp [matchOps, matchOp_pubKey, matchOp_exact (show OP_CHECKSIG ≠ OP_PUBKEY by decide)
      (by decide) (by decide), pubKeyPattern]
  split_ifs <;> simp_all

theorem matchOps_pubKeyHash (ops : List (UInt8 × valtype)) :
    matchOps ops [OP_DUP, OP_HASH160, OP_PUBKEYHASH, OP_EQUALVERIFY, OP_CHECKSIG] [] =
      pubKeyHashPattern ops := by
  rcases ops with _ | ⟨⟨o1, v1⟩, _ | ⟨⟨o2, v2⟩, _ | ⟨⟨o3, v3⟩, _ | ⟨⟨o4, v4⟩, _ |
    ⟨⟨o5, v5⟩, _ | ⟨op, ops⟩⟩⟩⟩⟩⟩ <;>
    simp [matchOps, matchOp_pubKeyHash, pubKeyHashPattern,
      matchOp_exact (show OP_DUP ≠ OP_PUBKEY by decide) (by decide) (by decide),
      matchOp_exact (show OP_HASH160 ≠ OP_PUBKEY by decide) (by decide) (by decide),
      matchOp_exact (show OP_EQUALVERIFY ≠ OP_PUBKEY by decide) (by decide) (by decide),
      matchOp_exact (show OP_CHECKSIG ≠ OP_PUBKEY by decide) (by decide) (by decide)]
  split_ifs <;> simp_all

theorem matchTemplate_pubKey (pc : List UInt8) :
    matchTemplate pc [OP_PUBKEY, OP_CHECKSIG] [] = (readOps pc).bind pubKeyPattern := by
  have htpl : ∀ o ∈ [OP_PUBKEY, OP_CHECKSIG], OP_PUSHDATA4 < o ∧ o ≠ OP_PUBKEYS := by
    simp [OP_PUSHDATA4, OP_PUBKEY, OP_CHECKSIG, OP_PUBKEYS]
  simp only [matchTemplate_eq_matchOps _ htpl, matchOps_pubKey]

theorem matchTemplate_pubKeyHash (pc : List UInt8) :
    matchTemplate pc [OP_DUP, OP_HASH160, OP_PUBKEYHASH, OP_EQUALVERIFY, OP_CHECKSIG] [] =
      (readOps pc).bind pubKeyHashPattern := by
  have htpl : ∀ o ∈ [OP_DUP, OP_HASH160, OP_PUBKEYHASH, OP_EQUALVERIFY, OP_CHECKSIG],
      OP_PUSHDATA4 < o ∧ o ≠ OP_PUBKEYS := by
    simp [OP_PUSHDATA4, OP_DUP, OP_HASH160, OP_PUBKEYHASH, OP_EQUALVERIFY, OP_CHECKSIG, OP_PUBKEYS]
  simp only [matchTemplate_eq_matchOps _ htpl, matchOps_pubKeyHash]

/-- The multisig template: `OP_SMALLINTEGER`, then the loop of `OP_PUBKEYS` from the next op. -/
theorem matchTemplate_multisig (pc : List UInt8) :
    matchTemplate pc [OP_SMALLINTEGER, OP_PUBKEYS, OP_SMALLINTEGER, OP_CHECKMULTISIG] [] =
      (readOps pc).bind fun ops => (multisigPattern ops).map
        fun mkn => [UInt8.ofNat mkn.1] :: mkn.2.1 ++ [[UInt8.ofNat mkn.2.2]] := by
  match h : GetOp pc with
  | (none, pc') =>
    rw [matchTemplate_of_none (List.cons_ne_nil _ _) h]
    by_cases hpc : pc = []
    · simp [hpc, multisigPattern]
    · rw [readOps_of_none hpc h]
      rfl
  | (some (m, vm), pc1) =>
    rw [matchTemplate_cons (by decide) (by decide) h, matchOp_smallInteger, readOps_of_some h,
      Option.bind_map]
    simp only [Function.comp_def, multisigPattern]
    cases hs : IsSmallInteger m
    · cases readOps pc1 <;> simp
    · simp only [if_true, Option.bind_some, List.nil_append]
      match h1 : GetOp pc1 with
      | (none, pc2) =>
        rw [matchTemplate_of_none (List.cons_ne_nil _ _) h1]
        by_cases hpc : pc1 = []
        · simp [hpc, keysThenN]
        · rw [readOps_of_none hpc h1]
          rfl
      | (some (opcode1, vch1), pc2) =>
        obtain ⟨⟨opcode1', vch1', pc1', sols'⟩, hloop⟩ :
            ∃ r, pubkeysLoop opcode1 vch1 pc2 [[UInt8.ofNat (DecodeOP_N m)]] = r := ⟨_, rfl⟩
        rw [matchTemplate_pubkeys (show OP_PUSHDATA4 < OP_SMALLINTEGER by decide) h1 hloop, pubkeysLoop_then_n _ _ _ _ hloop,
          readOps_of_some h1, Option.bind_map]
        simp only [Function.comp_def, Option.map_map]
        cases readOps pc2 <;> simp

theorem DecodeOP_N_le {opcode : UInt8} (h : IsSmallInteger opcode = true) :
    DecodeOP_N opcode ≤ 16 := by
  have h16 : opcode = OP_0 ∨ opcode.toNat ≤ 0x60 := by
    simp only [IsSmallInteger, Bool.or_eq_true, beq_iff_eq, Bool.and_eq_true,
      decide_eq_true_eq] at h
    rcases h with h | ⟨-, h⟩
    · exact .inl h
    · exact .inr (UInt8.le_iff_toNat_le.mp h)
  unfold DecodeOP_N
  split_ifs with h0
  · omega
  · rcases h16 with h16 | h16
    · exact absurd h16 h0
    · simp only [OP_1, UInt8.reduceToNat]
      omega

theorem keysThenN_le {ops : List (UInt8 × valtype)} {keys : List valtype} {n : Nat}
    (h : keysThenN ops = some (keys, n)) : n ≤ 16 := by
  unfold keysThenN at h
  split at h
  · split_ifs at h with hn
    cases h
    exact DecodeOP_N_le hn.1
  · cases h

theorem multisigPattern_le {ops : List (UInt8 × valtype)} {m n : Nat} {keys : List valtype}
    (h : multisigPattern ops = some (m, keys, n)) : m ≤ 16 ∧ n ≤ 16 := by
  rcases ops with _ | ⟨⟨opcode, vch⟩, ops⟩
  · cases h
  · simp only [multisigPattern] at h
    split_ifs at h with hm
    obtain ⟨⟨keys', n'⟩, hkn, heq⟩ := Option.map_eq_some_iff.mp h
    cases heq
    exact ⟨DecodeOP_N_le hm, keysThenN_le hkn⟩

/-- On `m` and `n` of at most 16 the byte comparisons of the multisig check are those of the
numbers. -/
theorem multisig_check_iff {m n : Nat} (hm : m ≤ 16) (hn : n ≤ 16) (keys : List valtype) :
    (UInt8.ofNat m < 1 ∨ UInt8.ofNat n < 1 ∨ UInt8.ofNat m > UInt8.ofNat n ∨
      ([UInt8.ofNat m] :: (keys ++ [[UInt8.ofNat n]])).length - 2 ≠ (UInt8.ofNat n).toNat) ↔
      ¬(1 ≤ m ∧ m ≤ n ∧ keys.length = n) := by
  have hm' : (UInt8.ofNat m).toNat = m := UInt8.toNat_ofNat_of_lt' (by simp only [UInt8.size]; omega)
  have hn' : (UInt8.ofNat n).toNat = n := UInt8.toNat_ofNat_of_lt' (by simp only [UInt8.size]; omega)
  simp only [UInt8.lt_iff_toNat_lt, gt_iff_lt, hm', hn', UInt8.reduceToNat, List.length_cons,
    List.length_append, List.length_nil]
  omega

/-- The scan over the templates is the pattern reading of the script's ops. -/
theorem scanTemplates_templates (script : List UInt8) :
    scanTemplates script templates = (readOps script).bind templateSpec := by
  simp only [templates, scanTemplates, matchTemplate_pubKey, matchTemplate_pubKeyHash,
    matchTemplate_multisig]
  cases readOps script with
  | none => rfl
  | some ops =>
    simp only [Option.bind_some, templateSpec]
    cases pubKeyPattern ops with
    | some sols => rfl
    | none =>
      cases pubKeyHashPattern ops with
      | some sols => rfl
      | none =>
        cases hm : multisigPattern ops with
        | none => rfl
        | some mkn =>
          obtain ⟨m, keys, n⟩ := mkn
          obtain ⟨hm16, hn16⟩ := multisigPattern_le hm
          have hlast : ([UInt8.ofNat m] :: (keys ++ [[UInt8.ofNat n]])).getLastD [] =
              [UInt8.ofNat n] := by
            rw [List.getLastD_eq_getLast?, ← List.cons_append, List.getLast?_concat]
            rfl
          simp only [Option.map_some, List.cons_append, if_true, List.headD_cons, hlast]
          by_cases hc : 1 ≤ m ∧ m ≤ n ∧ keys.length = n
          · rw [if_pos hc, if_neg ((multisig_check_iff hm16 hn16 keys).not.mpr (not_not.mpr hc))]
          · rw [if_neg hc, if_pos ((multisig_check_iff hm16 hn16 keys).mpr hc)]

/-! ### `Solver` on the ops of the script -/

theorem IsPushOnly_of_some {pc pc' : List UInt8} {opcode : UInt8} {vch : valtype}
    (h : GetOp pc = (some (opcode, vch), pc')) :
    IsPushOnly pc = if opcode > OP_16 then false else IsPushOnly pc' := by
  rw [IsPushOnly, if_neg (ne_nil_of_GetOp h)]
  split <;> simp_all

theorem IsPushOnly_of_none {pc pc' : List UInt8} (hpc : pc ≠ []) (h : GetOp pc = (none, pc')) :
    IsPushOnly pc = false := by
  rw [IsPushOnly, if_neg hpc]
  split <;> simp_all

/-- `IsPushOnly` holds when the ops read to the end and none is above `OP_16`. -/
theorem IsPushOnly_eq (pc : List UInt8) :
    IsPushOnly pc = ((readOps pc).map fun ops => ops.all fun op => op.1 ≤ OP_16).getD false := by
  by_cases hpc : pc = []
  · subst hpc
    rw [IsPushOnly, if_pos rfl, readOps_nil]
    rfl
  · match h : GetOp pc with
    | (none, pc') =>
      rw [IsPushOnly_of_none hpc h, readOps_of_none hpc h]
      rfl
    | (some (opcode, vch), pc') =>
      rw [IsPushOnly_of_some h, readOps_of_some h, IsPushOnly_eq pc']
      by_cases h16 : opcode > OP_16
      · rw [if_pos h16]
        cases readOps pc' <;> simp [UInt8.not_le.mpr h16]
      · rw [if_neg h16]
        cases readOps pc' <;> simp [UInt8.not_lt.mp h16]
termination_by pc.length
decreasing_by exact GetOp_length_lt h

/-- What `Solver` recognises, read on the ops of the script: pay-to-script-hash scripts and
witness programs by their bytes, then a data carrier (`OP_RETURN`, then pushes only), then the
templates as patterns over the ops (`templateSpec`). -/
def solverSpec (scriptPubKey : List UInt8) : Option (txnouttype × List valtype) :=
  if isPayToScriptHash scriptPubKey then some (.TX_SCRIPTHASH, [(scriptPubKey.drop 2).take 20])
  else
    match IsWitnessProgram scriptPubKey with
    | some (0, program) =>
      if program.length = 20 then some (.TX_WITNESS_V0_KEYHASH, [program])
      else if program.length = 32 then some (.TX_WITNESS_V0_SCRIPTHASH, [program])
      else none
    | some _ => none
    | none =>
      (readOps scriptPubKey).bind fun ops =>
        if ops.head?.map Prod.fst = some OP_RETURN ∧ ∀ op ∈ ops.tail, op.1 ≤ OP_16 then
          some (.TX_NULL_DATA, [])
        else templateSpec ops

theorem readOps_cons_of_gt {opcode : UInt8} (h : OP_PUSHDATA4 < opcode) (pc : List UInt8) :
    readOps (opcode :: pc) = (readOps pc).map ((opcode, []) :: ·) :=
  readOps_of_some (GetOp_cons_of_gt h pc)

/-- The first op read is the script's first byte. -/
theorem readOps_head {opcode : UInt8} {pc : List UInt8} {ops : List (UInt8 × valtype)}
    (h : readOps (opcode :: pc) = some ops) : ops.head?.map Prod.fst = some opcode := by
  match hop : GetOp (opcode :: pc) with
  | (none, pc') => rw [readOps_of_none (List.cons_ne_nil _ _) hop] at h; cases h
  | (some (opcode', vch), pc') =>
    obtain ⟨rest, heq, -⟩ := GetOp_eq_some hop
    cases heq
    rw [readOps_of_some hop] at h
    obtain ⟨ops', -, rfl⟩ := Option.map_eq_some_iff.mp h
    rfl

/-- The data-carrier test of `Solver` on the bytes is the test on the ops. -/
theorem nullData_or_templates (script : List UInt8) :
    (if 1 ≤ script.length ∧ script.getD 0 0 = OP_RETURN ∧ IsPushOnly (script.drop 1) = true then
        some (.TX_NULL_DATA, [])
      else (readOps script).bind templateSpec) =
      (readOps script).bind fun ops =>
        if ops.head?.map Prod.fst = some OP_RETURN ∧ ∀ op ∈ ops.tail, op.1 ≤ OP_16 then
          some (.TX_NULL_DATA, [])
        else templateSpec ops := by
  rcases script with _ | ⟨b, rest⟩
  · simp
  · by_cases hb : b = OP_RETURN
    · subst hb
      rw [readOps_cons_of_gt (by decide), List.drop_one, List.tail_cons, IsPushOnly_eq]
      cases readOps rest with
      | none => simp
      | some ops =>
        simp only [List.length_cons, List.getD_cons_zero, Option.map_some, Option.getD_some,
          List.all_eq_true, decide_eq_true_eq, Option.bind_some, List.head?_cons, List.tail_cons,
          Nat.le_add_left, true_and]
    · rw [if_neg (by simp [hb])]
      cases hr : readOps (b :: rest) with
      | none => rfl
      | some ops =>
        have hne : ¬(ops.head?.map Prod.fst = some OP_RETURN) := by
          rw [readOps_head hr]
          simpa using hb
        simp only [Option.bind_some, hne, false_and, if_false]

/-- `Solver` is the pattern reading of the script's ops. -/
theorem Solver_eq_solverSpec (scriptPubKey : List UInt8) :
    Solver scriptPubKey = solverSpec scriptPubKey := by
  unfold Solver solverSpec
  by_cases hp2sh : isPayToScriptHash scriptPubKey = true
  · simp only [hp2sh, if_true]
  · simp only [hp2sh, Bool.false_eq_true, if_false]
    cases IsWitnessProgram scriptPubKey with
    | some vp =>
      obtain ⟨version, program⟩ := vp
      rcases version with _ | version <;> simp
    | none =>
      simp only
      rw [scanTemplates_templates, nullData_or_templates]

/-! ### The scripts the builders write, read back -/

theorem pushBytes_eq_append (script b : List UInt8) :
    pushBytes script b = script ++ pushBytes [] b := by
  simp [pushBytes]

theorem foldl_pushBytes (keys : List valtype) (script : List UInt8) :
    keys.foldl pushBytes script = script ++ keys.flatMap (pushBytes []) := by
  induction keys generalizing script with
  | nil => simp
  | cons key keys ih =>
    rw [List.foldl_cons, ih, pushBytes_eq_append, List.flatMap_cons, List.append_assoc]

/-- A run of pushes is read back as their data, each behind the opcode its push starts with. -/
theorem readOps_pushes (keys : List valtype) (hkeys : ∀ key ∈ keys, key.length < 2 ^ 32)
    (rest : List UInt8) :
    readOps (keys.flatMap (pushBytes []) ++ rest) =
      (readOps rest).map (keys.map (fun key => ((pushBytes [] key).headD 0, key)) ++ ·) := by
  induction keys with
  | nil => simp
  | cons key keys ih =>
    rw [List.flatMap_cons, List.append_assoc,
      readOps_of_some (GetOp_pushBytes (hkeys key List.mem_cons_self) _),
      ih (fun k hk => hkeys k (List.mem_cons_of_mem _ hk)), Option.map_map]
    rfl

/-- A push starts with a byte below `OP_1`, which is `OP_0` only for empty data. -/
theorem pushBytes_headD (b : List UInt8) :
    ∃ rest, pushBytes [] b = (pushBytes [] b).headD 0 :: rest ∧
      (pushBytes [] b).headD 0 ≤ OP_PUSHDATA4 ∧ ((pushBytes [] b).headD 0 = OP_0 → b = []) := by
  unfold pushBytes
  split_ifs with h1 h2 h3
  · have hn : (UInt8.ofNat b.length).toNat = b.length :=
      UInt8.toNat_ofNat_of_lt' (by simp only [OP_PUSHDATA1, UInt8.reduceToNat, UInt8.size] at h1 ⊢; omega)
    refine ⟨b, rfl, ?_, ?_⟩
    · rw [List.nil_append, List.singleton_append, List.headD_cons, UInt8.le_iff_toNat_le, hn]
      simp only [OP_PUSHDATA1, OP_PUSHDATA4, UInt8.reduceToNat] at h1 ⊢
      omega
    · rw [List.nil_append, List.singleton_append, List.headD_cons]
      intro h0
      rw [← UInt8.toNat_inj, hn] at h0
      exact List.eq_nil_of_length_eq_zero h0
  all_goals
    refine ⟨_, rfl, ?_, ?_⟩ <;> simp only [List.nil_append, List.cons_append, List.headD_cons]
    · decide
    · intro h0
      exact absurd h0 (by decide)

theorem IsWitnessProgram_of_version {script : List UInt8}
    (h : script.getD 0 0 ≠ OP_0 ∧ (script.getD 0 0 < OP_1 ∨ script.getD 0 0 > OP_16)) :
    IsWitnessProgram script = none := by
  unfold IsWitnessProgram
  split_ifs <;> rfl

theorem IsWitnessProgram_of_length {script : List UInt8} (h : script.length < 4) :
    IsWitnessProgram script = none := by
  rw [IsWitnessProgram, if_pos (.inl h)]

theorem IsWitnessProgram_of_size {script : List UInt8}
    (h : (script.getD 1 0).toNat + 2 ≠ script.length) : IsWitnessProgram script = none := by
  unfold IsWitnessProgram
  split_ifs <;> rfl

/-- A script that is neither pay-to-script-hash, nor a witness program, nor a data carrier is
solved by its template, if any. -/
theorem Solver_of_template {script : List UInt8} {ops : List (UInt8 × valtype)}
    (hp2sh : isPayToScriptHash script = false) (hw : IsWitnessProgram script = none)
    (hret : script.getD 0 0 ≠ OP_RETURN) (hops : readOps script = some ops) :
    Solver script = templateSpec ops := by
  rw [Solver, hp2sh, if_neg Bool.false_ne_true, hw]
  simp only
  rw [if_neg (fun hc => hret hc.2.1), scanTemplates_templates, hops]
  rfl

theorem pubKeyPattern_of_head {vch : valtype} (h : IsPubKeySize vch = false) (opcode : UInt8)
    (ops : List (UInt8 × valtype)) : pubKeyPattern ((opcode, vch) :: ops) = none := by
  rcases ops with _ | ⟨op, _ | ⟨op', ops⟩⟩ <;> simp [pubKeyPattern, h]

theorem pubKeyHashPattern_of_head {opcode : UInt8} (h : opcode ≠ OP_DUP) (vch : valtype)
    (ops : List (UInt8 × valtype)) : pubKeyHashPattern ((opcode, vch) :: ops) = none := by
  rcases ops with _ | ⟨op2, _ | ⟨op3, _ | ⟨op4, _ | ⟨op5, _ | ⟨op6, ops⟩⟩⟩⟩⟩ <;>
    simp [pubKeyHashPattern, h]

theorem uint160_data (id : Uint160) : uint160 id.data = .ok id := by
  rw [uint160, dif_pos id.length_data]

theorem Solver_nil : Solver [] = none :=
  Solver_of_template rfl (IsWitnessProgram_of_length (by decide)) (by decide) readOps_nil

theorem Solver_GetScriptForDestination_keyID (keyID : Uint160) :
    Solver (GetScriptForDestination (.CKeyID keyID)) = some (.TX_PUBKEYHASH, [keyID.data]) := by
  have hlen := keyID.length_data
  have hscript : GetScriptForDestination (.CKeyID keyID) =
      OP_DUP :: OP_HASH160 :: (pushBytes [] keyID.data ++ [OP_EQUALVERIFY, OP_CHECKSIG]) := by
    rw [GetScriptForDestination, pushBytes_eq_append]
    rfl
  have hops : readOps (GetScriptForDestination (.CKeyID keyID)) =
      some [(OP_DUP, []), (OP_HASH160, []), ((pushBytes [] keyID.data).headD 0, keyID.data),
        (OP_EQUALVERIFY, []), (OP_CHECKSIG, [])] := by
    rw [hscript, readOps_cons_of_gt (by decide), readOps_cons_of_gt (by decide),
      readOps_of_some (GetOp_pushBytes (by omega) _), readOps_cons_of_gt (by decide),
      readOps_cons_of_gt (by decide), readOps_nil]
    rfl
  have hp2sh : isPayToScriptHash (GetScriptForDestination (.CKeyID keyID)) = false := by
    rw [hscript]
    simp [isPayToScriptHash, show OP_DUP ≠ OP_HASH160 by decide]
  have hw : IsWitnessProgram (GetScriptForDestination (.CKeyID keyID)) = none := by
    rw [hscript]
    exact IsWitnessProgram_of_version (by simp only [List.getD_cons_zero]; decide)
  have hret : (GetScriptForDestination (.CKeyID keyID)).getD 0 0 ≠ OP_RETURN := by
    rw [hscript, List.getD_cons_zero]
    decide
  rw [Solver_of_template hp2sh hw hret hops, templateSpec,
    pubKeyPattern_of_head (show IsPubKeySize ([] : valtype) = false by decide)]
  simp [pubKeyHashPattern, hlen]

theorem Solver_GetScriptForDestination_scriptID (scriptID : Uint160) :
    Solver (GetScriptForDestination (.CScriptID scriptID)) =
      some (.TX_SCRIPTHASH, [scriptID.data]) := by
  have hlen := scriptID.length_data
  have hscript : GetScriptForDestination (.CScriptID scriptID) =
      OP_HASH160 :: 0x14 :: (scriptID.data ++ [OP_EQUAL]) := by
    rw [GetScriptForDestination, pushBytes_of_lt (by omega), hlen]
    rfl
  have hp2sh : isPayToScriptHash (GetScriptForDestination (.CScriptID scriptID)) = true := by
    rw [hscript]
    simp [isPayToScriptHash, hlen]
  rw [Solver, if_pos hp2sh, hscript]
  simp [hlen]

/-- The script of a destination is read back as that destination; no destination writes the
empty script, which has none. -/
theorem ExtractDestination_GetScriptForDestination (dest : CTxDestination) :
    ExtractDestination Hash160 (GetScriptForDestination dest) =
      .ok (if dest = .CNoDestination then none else some dest) := by
  cases dest with
  | CNoDestination =>
    simp only [ExtractDestination, GetScriptForDestination, Solver_nil]
    rfl
  | CKeyID keyID =>
    simp [ExtractDestination, Solver_GetScriptForDestination_keyID, uint160_data]
  | CScriptID scriptID =>
    simp [ExtractDestination, Solver_GetScriptForDestination_scriptID, uint160_data]

theorem IsPubKeySize_of_IsValid {pubKey : valtype} (h : CPubKey.IsValid pubKey = true) :
    IsPubKeySize pubKey = true := by
  rcases pubKey with _ | ⟨c, rest⟩
  · cases h
  · simp only [CPubKey.IsValid, Bool.and_eq_true, bne_iff_ne, ne_eq, beq_iff_eq] at h
    simp only [IsPubKeySize, Bool.and_eq_true, decide_eq_true_eq]
    unfold CPubKey.GetLen at h
    split_ifs at h <;> omega

theorem Solver_GetScriptForRawPubKey (pubKey : valtype) (hsize : pubKey.length < 2 ^ 32) :
    Solver (GetScriptForRawPubKey pubKey) =
      if IsPubKeySize pubKey then some (.TX_PUBKEY, [pubKey]) else none := by
  obtain ⟨tail, hpush, hle, h0⟩ := pushBytes_headD pubKey
  have hle' : ((pushBytes [] pubKey).headD 0).toNat ≤ 0x4e := UInt8.le_iff_toNat_le.mp hle
  have hne : ∀ o : UInt8, 0x4e < o.toNat → (pushBytes [] pubKey).headD 0 ≠ o := by
    intro o ho h
    rw [h] at hle'
    omega
  have hfirst : (GetScriptForRawPubKey pubKey).getD 0 0 = (pushBytes [] pubKey).headD 0 := by
    rw [GetScriptForRawPubKey, hpush]
    rfl
  have hops : readOps (GetScriptForRawPubKey pubKey) =
      some [((pushBytes [] pubKey).headD 0, pubKey), (OP_CHECKSIG, [])] := by
    rw [GetScriptForRawPubKey, readOps_of_some (GetOp_pushBytes hsize _),
      readOps_cons_of_gt (by decide), readOps_nil]
    rfl
  have hp2sh : isPayToScriptHash (GetScriptForRawPubKey pubKey) = false := by
    rw [isPayToScriptHash, hfirst]
    simp only [beq_eq_false_iff_ne.mpr (hne OP_HASH160 (by decide)), Bool.and_false,
      Bool.false_and]
  have hw : IsWitnessProgram (GetScriptForRawPubKey pubKey) = none := by
    by_cases hempty : pubKey = []
    · subst hempty
      exact IsWitnessProgram_of_length (by decide)
    · refine IsWitnessProgram_of_version ⟨?_, .inl ?_⟩ <;> rw [hfirst]
      · exact fun h => hempty (h0 h)
      · rw [UInt8.lt_iff_toNat_lt]
        simp only [OP_1, UInt8.reduceToNat]
        omega
  rw [Solver_of_template hp2sh hw (by rw [hfirst]; exact hne OP_RETURN (by decide)) hops]
  cases hk : IsPubKeySize pubKey
  · rw [templateSpec, pubKeyPattern_of_head hk]
    simp [pubKeyHashPattern, multisigPattern,
      keysThenN_cons_of_not (show IsPubKeySize ([] : valtype) = false by decide)]
  · simp [templateSpec, pubKeyPattern, hk]

/-- A raw public key script is standard exactly when the key has 33 to 65 bytes, and its
destination is the key's id when the key is valid. -/
theorem ExtractDestination_GetScriptForRawPubKey (pubKey : valtype)
    (hsize : pubKey.length < 2 ^ 32) :
    Solver (GetScriptForRawPubKey pubKey) =
        (if IsPubKeySize pubKey then some (.TX_PUBKEY, [pubKey]) else none) ∧
      ExtractDestination Hash160 (GetScriptForRawPubKey pubKey) =
        .ok (if CPubKey.IsValid pubKey then some (.CKeyID (Hash160 pubKey)) else none) := by
  have hsolver := Solver_GetScriptForRawPubKey pubKey hsize
  refine ⟨hsolver, ?_⟩
  unfold ExtractDestination
  rw [hsolver]
  cases hk : IsPubKeySize pubKey
  · -- no template: a valid key would have a key's size
    have hv : CPubKey.IsValid pubKey = false := by
      cases hv : CPubKey.IsValid pubKey
      · rfl
      · rw [IsPubKeySize_of_IsValid hv] at hk
        cases hk
    simp only [hv, Bool.false_eq_true, if_false]
    rfl
  · by_cases hv : CPubKey.IsValid pubKey = true
    · simp only [if_true, List.headD_cons, hv]
      rfl
    · simp only [if_true, List.headD_cons, hv, Bool.false_eq_true, if_false]
      rfl

theorem ExtractDestination_GetScriptForRawPubKey_compressed :
    (List.replicate 33 (2 : UInt8)).length < 2 ^ 32 ∧
      Solver (GetScriptForRawPubKey (List.replicate 33 2)) =
        some (.TX_PUBKEY, [List.replicate 33 2]) ∧
      ExtractDestination (fun _ => ⟨List.replicate 20 0, List.length_replicate⟩)
          (GetScriptForRawPubKey (List.replicate 33 2)) =
        .ok (some (.CKeyID ⟨List.replicate 20 0, List.length_replicate⟩)) := by
  have h := ExtractDestination_GetScriptForRawPubKey
    (fun _ => ⟨List.replicate 20 0, List.length_replicate⟩) (List.replicate 33 2) (by decide)
  rw [if_pos (by decide), if_pos (by decide)] at h
  exact ⟨by decide, h⟩

theorem IsSmallInteger_iff (opcode : UInt8) :
    IsSmallInteger opcode = true ↔ opcode.toNat = 0 ∨ (0x51 ≤ opcode.toNat ∧ opcode.toNat ≤ 0x60) := by
  simp [IsSmallInteger, UInt8.le_iff_toNat_le, ← UInt8.toNat_inj, OP_0, OP_1, OP_16]

theorem EncodeOP_N_eq_none {n : Int} : EncodeOP_N n = none ↔ ¬(0 ≤ n ∧ n ≤ 16) := by
  unfold EncodeOP_N
  split_ifs with h <;> simp [h]

/-- `EncodeOP_N` writes a small integer that `GetOp` reads alone and `DecodeOP_N` takes back. -/
theorem EncodeOP_N_spec {n : Int} {opcode : UInt8} (h : EncodeOP_N n = some opcode) :
    IsSmallInteger opcode = true ∧ DecodeOP_N opcode = n.toNat ∧
      ∀ rest, GetOp (opcode :: rest) = (some (opcode, []), rest) := by
  unfold EncodeOP_N at h
  split_ifs at h with hn hz
  · cases h
    subst hz
    refine ⟨by decide, by decide, fun rest => ?_⟩
    simp only [GetOp, pushSize, show OP_0 ≤ OP_PUSHDATA4 by decide,
      show OP_0 < OP_PUSHDATA1 by decide, if_true]
    simp [OP_0]
  · cases h
    have ho : (UInt8.ofNat (OP_1.toNat + n.toNat - 1)).toNat = 80 + n.toNat := by
      rw [UInt8.toNat_ofNat_of_lt' (by simp only [OP_1, UInt8.reduceToNat, UInt8.size]; omega)]
      simp only [OP_1, UInt8.reduceToNat]
      omega
    refine ⟨(IsSmallInteger_iff _).mpr (.inr (by omega)), ?_, fun rest => GetOp_cons_of_gt ?_ rest⟩
    · have hne : UInt8.ofNat (OP_1.toNat + n.toNat - 1) ≠ OP_0 := by
        intro h0
        have h0' := congrArg UInt8.toNat h0
        rw [ho] at h0'
        simp only [OP_0, UInt8.reduceToNat] at h0'
        omega
      rw [DecodeOP_N, if_neg hne, ho]
      simp only [OP_1, UInt8.reduceToNat]
      omega
    · rw [UInt8.lt_iff_toNat_lt, ho]
      simp only [OP_PUSHDATA4, UInt8.reduceToNat]
      omega

theorem GetScriptForMultisig_eq_some {nRequired : Int} {keys : List valtype} {script : List UInt8}
    (h : GetScriptForMultisig nRequired keys = some script) :
    ∃ m n, EncodeOP_N nRequired = some m ∧ EncodeOP_N keys.length = some n ∧
      script = m :: (keys.flatMap (pushBytes []) ++ [n, OP_CHECKMULTISIG]) := by
  unfold GetScriptForMultisig at h
  cases hm : EncodeOP_N nRequired with
  | none => simp [hm] at h
  | some m =>
    cases hn : EncodeOP_N keys.length with
    | none => simp [hm, hn] at h
    | some n =>
      simp only [hm, hn, Option.bind_eq_bind, Option.bind_some, Option.pure_def,
        Option.some.injEq] at h
      refine ⟨m, n, rfl, rfl, ?_⟩
      rw [← h, foldl_pushBytes]
      rfl

/-- After `OP_m`: a run of key pushes, then `OP_n OP_CHECKMULTISIG`. -/
theorem keysThenN_pushes {pushes : List (UInt8 × valtype)}
    (hpushes : ∀ op ∈ pushes, IsPubKeySize op.2 = true) (n : UInt8) :
    keysThenN (pushes ++ [(n, []), (OP_CHECKMULTISIG, [])]) =
      if IsSmallInteger n then some (pushes.map Prod.snd, DecodeOP_N n) else none := by
  unfold keysThenN
  rw [List.dropWhile_append_of_pos hpushes, List.takeWhile_append_of_pos hpushes]
  have hn : IsPubKeySize ([] : valtype) = false := by decide
  simp [hn]

theorem Solver_GetScriptForMultisig {nRequired : Int} {keys : List valtype} {script : List UInt8}
    (hkeys : ∀ key ∈ keys, IsPubKeySize key = true)
    (h : GetScriptForMultisig nRequired keys = some script) :
    Solver script =
      if 1 ≤ nRequired ∧ nRequired ≤ keys.length then
        some (.TX_MULTISIG, [UInt8.ofNat nRequired.toNat] :: keys ++ [[UInt8.ofNat keys.length]])
      else none := by
  obtain ⟨m, n, hm, hn, rfl⟩ := GetScriptForMultisig_eq_some h
  obtain ⟨hms, hmd, hmop⟩ := EncodeOP_N_spec hm
  obtain ⟨hns, hnd, hnop⟩ := EncodeOP_N_spec hn
  have hsize : ∀ key ∈ keys, 33 ≤ key.length ∧ key.length ≤ 65 := by
    intro key hkey
    simpa [IsPubKeySize] using hkeys key hkey
  -- `OP_m` is `OP_0` or one of `OP_1` … `OP_16`: no other opcode the tests look for
  have hm' := (IsSmallInteger_iff m).mp hms
  have hmne : ∀ o : UInt8, o.toNat ≠ 0 → (o.toNat < 0x51 ∨ 0x60 < o.toNat) → m ≠ o := by
    intro o ho0 ho h
    subst h
    omega
  have hops : readOps (m :: (keys.flatMap (pushBytes []) ++ [n, OP_CHECKMULTISIG])) =
      some ((m, []) :: (keys.map (fun key => ((pushBytes [] key).headD 0, key)) ++
        [(n, []), (OP_CHECKMULTISIG, [])])) := by
    rw [readOps_of_some (hmop _),
      readOps_pushes keys (fun key hkey => by have := hsize key hkey; omega),
      readOps_of_some (hnop _), readOps_cons_of_gt (by decide), readOps_nil]
    rfl
  have hp2sh : isPayToScriptHash (m :: (keys.flatMap (pushBytes []) ++ [n, OP_CHECKMULTISIG])) =
      false := by
    rw [isPayToScriptHash, List.getD_cons_zero]
    simp only [beq_eq_false_iff_ne.mpr (hmne OP_HASH160 (by decide) (by decide)), Bool.and_false,
      Bool.false_and]
  have hw : IsWitnessProgram (m :: (keys.flatMap (pushBytes []) ++ [n, OP_CHECKMULTISIG])) =
      none := by
    rcases keys with _ | ⟨key, keys⟩
    · exact IsWitnessProgram_of_length (by simp)
    · -- the second byte is the first key's size, which leaves the script too long for it
      have hkey := hsize key List.mem_cons_self
      apply IsWitnessProgram_of_size
      rw [List.flatMap_cons, pushBytes_of_lt (by omega)]
      simp only [List.nil_append, List.getD_cons_succ, List.getD_cons_zero, List.cons_append,
        List.length_cons, List.length_append]
      rw [UInt8.toNat_ofNat_of_lt' (by simp only [UInt8.size]; omega)]
      omega
  rw [Solver_of_template hp2sh hw (hmne OP_RETURN (by decide) (by decide)) hops, templateSpec,
    pubKeyPattern_of_head (by decide), pubKeyHashPattern_of_head (hmne OP_DUP (by decide) (by decide))]
  have hpushes : ∀ op ∈ keys.map (fun key => ((pushBytes [] key).headD 0, key)),
      IsPubKeySize op.2 = true := by
    simp only [List.mem_map]
    rintro op ⟨key, hkey, rfl⟩
    exact hkeys key hkey
  have hdata : (keys.map (fun key => ((pushBytes [] key).headD 0, key))).map Prod.snd = keys := by
    rw [List.map_map]
    exact List.map_id keys
  simp only [multisigPattern, hms, if_true, keysThenN_pushes hpushes, hns, Option.map_some,
    hdata, hmd, hnd, Int.toNat_natCast]
  by_cases hc : 1 ≤ nRequired ∧ nRequired ≤ keys.length
  · rw [if_pos hc, if_pos]
    exact ⟨by omega, by omega, trivial⟩
  · rw [if_neg hc, if_neg]
    rintro ⟨h1, h2, -⟩
    exact hc ⟨by omega, by omega⟩

/-- `GetScriptForMultisig` writes a script exactly when `nRequired` and the number of keys are at
most 16; the script is standard exactly when `1 ≤ nRequired ≤ n`, and then its destinations are
the ids of the valid keys. -/
theorem ExtractDestinations_GetScriptForMultisig (nRequired : Int) (keys : List valtype)
    (hkeys : ∀ key ∈ keys, IsPubKeySize key = true) :
    (GetScriptForMultisig nRequired keys = none ↔
        ¬(0 ≤ nRequired ∧ nRequired ≤ 16 ∧ keys.length ≤ 16)) ∧
      ∀ script, GetScriptForMultisig nRequired keys = some script →
        Solver script = (if 1 ≤ nRequired ∧ nRequired ≤ keys.length then
            some (.TX_MULTISIG, [UInt8.ofNat nRequired.toNat] :: keys ++ [[UInt8.ofNat keys.length]])
          else none) ∧
        ExtractDestinations Hash160 script =
          .ok (let addresses := keys.filterMap fun key =>
                if CPubKey.IsValid key then some (CTxDestination.CKeyID (Hash160 key)) else none
            if 1 ≤ nRequired ∧ nRequired ≤ keys.length ∧ addresses ≠ [] then
              some (.TX_MULTISIG, addresses, nRequired.toNat)
            else none) := by
  refine ⟨?_, fun script h => ?_⟩
  · -- the assertions of `EncodeOP_N`
    have hnone : GetScriptForMultisig nRequired keys = none ↔
        EncodeOP_N nRequired = none ∨ EncodeOP_N keys.length = none := by
      unfold GetScriptForMultisig
      cases EncodeOP_N nRequired <;> cases EncodeOP_N keys.length <;> simp
    rw [hnone, EncodeOP_N_eq_none, EncodeOP_N_eq_none]
    omega
  · have hsolver := Solver_GetScriptForMultisig hkeys h
    refine ⟨hsolver, ?_⟩
    obtain ⟨m, n, hm, -, -⟩ := GetScriptForMultisig_eq_some h
    have hbound : nRequired ≤ 16 := by
      by_contra hb
      rw [(EncodeOP_N_eq_none.mpr (by omega))] at hm
      cases hm
    unfold ExtractDestinations
    rw [hsolver]
    by_cases hc : 1 ≤ nRequired ∧ nRequired ≤ keys.length
    · have hm' : (UInt8.ofNat nRequired.toNat).toNat = nRequired.toNat :=
        UInt8.toNat_ofNat_of_lt' (by simp only [UInt8.size]; omega)
      simp only [if_pos hc, List.cons_append, List.headD_cons, hm', List.drop_one, List.tail_cons,
        List.dropLast_concat]
      by_cases hempty : (keys.filterMap fun key =>
          if CPubKey.IsValid key then some (CTxDestination.CKeyID (Hash160 key)) else none) = []
      · simp only [hempty, if_true, ne_eq, not_true_eq_false, and_false, if_false]
        rfl
      · simp only [hempty, if_false, ne_eq, not_false_eq_true, and_true, hc, if_true]
        rfl
    · rw [if_neg hc, if_neg (fun hc' => hc ⟨hc'.1, hc'.2.1⟩)]
      rfl

theorem ExtractDestinations_GetScriptForMultisig_oneOfTwo :
    ∃ script, GetScriptForMultisig 1 [List.replicate 33 2, List.replicate 33 3] = some script ∧
      ExtractDestinations (fun _ => ⟨List.replicate 20 0, List.length_replicate⟩) script =
        .ok (some (.TX_MULTISIG, [.CKeyID ⟨List.replicate 20 0, List.length_replicate⟩,
          .CKeyID ⟨List.replicate 20 0, List.length_replicate⟩], 1)) := by
  obtain ⟨hnone, hsome⟩ := ExtractDestinations_GetScriptForMultisig
    (fun _ => ⟨List.replicate 20 0, List.length_replicate⟩) 1
    [List.replicate 33 2, List.replicate 33 3] (by decide)
  cases hs : GetScriptForMultisig 1 [List.replicate 33 2, List.replicate 33 3] with
  | none => exact absurd (hnone.mp hs) (by decide)
  | some script =>
    refine ⟨script, rfl, ?_⟩
    rw [(hsome script hs).2]
    rfl

end Trumpow
