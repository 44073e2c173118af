import Trumpow.Script.Script

/-!
# Script — reading ops, and `FindAndDelete`

`CScript::GetOp` reads one op from an iterator: the opcode, and for a push its size (in the
opcode, or in one, two or four bytes after `OP_PUSHDATA1`, `OP_PUSHDATA2`, `OP_PUSHDATA4`) and
that many bytes of data.  It fails at the end of the script and where the script ends inside a
push.  A failed read still moves the iterator: past the opcode, and past the size when that
could be read.  An iterator is the list of bytes from it to the end of the script.

A loop that calls `GetOp` until it fails sees the script as `parseScript` gives it: the ops it
reads, each with its bytes, then the bytes from the first op it cannot read (`tail`), and where
the failed read left the iterator (`stop`, a suffix of `tail`).  The ops and the tail make up the
script (`parseScript_bytes`).

`FindAndDelete(CScript(OP_CODESEPARATOR))`, as `SignatureHash` calls it, deletes the
`OP_CODESEPARATOR`s among the ops and keeps the tail (`findAndDelete_codeSeparator`).
-/

namespace Trumpow

def OP_CODESEPARATOR : UInt8 := 0xab

/-- The size of the data a push `opcode` reads, and the iterator after the size, or `none` when
the script ends inside the size. -/
def pushSize (opcode : UInt8) (pc : List UInt8) : Option (Nat × List UInt8) :=
  if opcode < OP_PUSHDATA1 then some (opcode.toNat, pc)
  else if opcode = OP_PUSHDATA1 then
    if pc.length < 1 then none else some ((pc.getD 0 0).toNat, pc.drop 1)
  else if opcode = OP_PUSHDATA2 then
    if pc.length < 2 then none else some (readLE16 pc, pc.drop 2)
  else
    if pc.length < 4 then none else some (readLE32 pc, pc.drop 4)

/-- `CScript::GetOp2` from the iterator `pc`: the opcode and the data it pushes when an op could
be read (`none` where the source returns `false`), and the iterator after the call. -/
def GetOp : List UInt8 → Option (UInt8 × List UInt8) × List UInt8
  | [] => (none, [])
  | opcode :: pc =>
    if opcode ≤ OP_PUSHDATA4 then
      -- Immediate operand
      match pushSize opcode pc with
      | none => (none, pc)
      | some (nSize, pc) =>
        if pc.length < nSize then (none, pc) else (some (opcode, pc.take nSize), pc.drop nSize)
    else (some (opcode, []), pc)

theorem pushSize_suffix {opcode : UInt8} {pc pc' : List UInt8} {nSize : Nat}
    (h : pushSize opcode pc = some (nSize, pc')) : pc' <:+ pc := by
  unfold pushSize at h
  split_ifs at h <;> cases h
  · exact List.suffix_refl pc
  all_goals exact List.drop_suffix _ pc

/-- `GetOp` only moves the iterator forward, also when it fails. -/
theorem GetOp_suffix : ∀ pc : List UInt8, (GetOp pc).2 <:+ pc
  | [] => List.suffix_refl []
  | opcode :: pc => by
    have hpc : pc <:+ opcode :: pc := List.suffix_cons opcode pc
    simp only [GetOp]
    split_ifs
    · split
      · exact hpc
      · rename_i nSize pc' hsize
        have hpc' := (pushSize_suffix hsize).trans hpc
        split_ifs
        · exact hpc'
        · exact (List.drop_suffix _ pc').trans hpc'
    · exact hpc

/-- A read op starts with its opcode. -/
theorem GetOp_eq_some {pc pc' d : List UInt8} {opcode : UInt8}
    (h : GetOp pc = (some (opcode, d), pc')) : ∃ rest, pc = opcode :: rest ∧ pc' <:+ rest := by
  match pc, h with
  | o :: rest, h =>
    simp only [GetOp] at h
    split_ifs at h
    · split at h
      · cases h
      · rename_i nSize pc'' hsize
        split_ifs at h
        · simp at h
        · simp only [Prod.mk.injEq, Option.some.injEq] at h
          obtain ⟨⟨rfl, -⟩, rfl⟩ := h
          exact ⟨rest, rfl, (List.drop_suffix _ _).trans (pushSize_suffix hsize)⟩
    · simp only [Prod.mk.injEq, Option.some.injEq] at h
      obtain ⟨⟨rfl, -⟩, rfl⟩ := h
      exact ⟨_, rfl, List.suffix_refl _⟩

/-- A read op takes at least its opcode. -/
theorem GetOp_length_lt {pc pc' : List UInt8} {op : UInt8 × List UInt8}
    (h : GetOp pc = (some op, pc')) : pc'.length < pc.length := by
  obtain ⟨rest, rfl, hsuffix⟩ := @GetOp_eq_some _ _ op.2 op.1 h
  have := hsuffix.length_le
  simp only [List.length_cons]
  omega

/-- An opcode above the pushes is read alone. -/
theorem GetOp_cons_of_gt {opcode : UInt8} (h : OP_PUSHDATA4 < opcode) (pc : List UInt8) :
    GetOp (opcode :: pc) = (some (opcode, []), pc) := by
  simp only [GetOp, if_neg (UInt8.not_le.mpr h)]

theorem GetOp_codeSeparator (pc : List UInt8) :
    GetOp (OP_CODESEPARATOR :: pc) = (some (OP_CODESEPARATOR, []), pc) :=
  GetOp_cons_of_gt (by decide) pc

/-- An `OP_CODESEPARATOR` read is the one byte before the iterator it leaves. -/
theorem GetOp_eq_codeSeparator {pc pc' d : List UInt8}
    (h : GetOp pc = (some (OP_CODESEPARATOR, d), pc')) : pc = OP_CODESEPARATOR :: pc' := by
  obtain ⟨rest, rfl, -⟩ := GetOp_eq_some h
  rw [GetOp_codeSeparator] at h
  cases h
  rfl

theorem readLE16_writeLE16 {x : Nat} (hx : x < 2 ^ 16) (rest : List UInt8) :
    readLE16 (writeLE16 x ++ rest) = x := by
  simp only [readLE16, writeLE16, List.cons_append, List.getD_cons_zero, List.getD_cons_succ,
    UInt8.toNat_ofNat']
  omega

theorem GetOp_of_pushSize {opcode : UInt8} {pc : List UInt8} (b rest : List UInt8)
    (h4 : opcode ≤ OP_PUSHDATA4) (h : pushSize opcode pc = some (b.length, b ++ rest)) :
    GetOp (opcode :: pc) = (some (opcode, b), rest) := by
  simp [GetOp, h4, h]

/-- `GetOp` reads back the push `script << b` writes, for data of any size a `uint32_t` holds. -/
theorem GetOp_pushBytes {b : List UInt8} (hb : b.length < 2 ^ 32) (rest : List UInt8) :
    GetOp (pushBytes [] b ++ rest) = (some ((pushBytes [] b).headD 0, b), rest) := by
  unfold pushBytes
  split_ifs with h1 h2 h3
  · -- the size is the opcode
    have hn : (UInt8.ofNat b.length).toNat = b.length :=
      UInt8.toNat_ofNat_of_lt' (by simp only [OP_PUSHDATA1, UInt8.reduceToNat, UInt8.size] at h1 ⊢; omega)
    have h4 : UInt8.ofNat b.length ≤ OP_PUSHDATA4 := by
      rw [UInt8.le_iff_toNat_le, hn]
      simp only [OP_PUSHDATA1, OP_PUSHDATA4, UInt8.reduceToNat] at h1 ⊢
      omega
    have hsize : pushSize (UInt8.ofNat b.length) (b ++ rest) = some (b.length, b ++ rest) := by
      rw [pushSize, if_pos (UInt8.lt_iff_toNat_lt.mpr (by rwa [hn])), hn]
    simpa using GetOp_of_pushSize b rest h4 hsize
  · have hsize : pushSize OP_PUSHDATA1 (UInt8.ofNat b.length :: (b ++ rest)) =
        some (b.length, b ++ rest) := by
      rw [pushSize, if_neg (by decide), if_pos rfl, if_neg (by simp), List.getD_cons_zero,
        List.drop_one, List.tail_cons, UInt8.toNat_ofNat_of_lt' (by simp only [UInt8.size]; omega)]
    simpa using GetOp_of_pushSize b rest (by decide) hsize
  · have hsize : pushSize OP_PUSHDATA2 (writeLE16 b.length ++ (b ++ rest)) =
        some (b.length, b ++ rest) := by
      rw [pushSize, if_neg (by decide), if_neg (by decide), if_pos rfl,
        if_neg (by simp [writeLE16]), readLE16_writeLE16 (by omega)]
      rfl
    simpa using GetOp_of_pushSize b rest (by decide) hsize
  · have hsize : pushSize OP_PUSHDATA4 (writeLE32 b.length ++ (b ++ rest)) =
        some (b.length, b ++ rest) := by
      rw [pushSize, if_neg (by decide), if_neg (by decide), if_neg (by decide),
        if_neg (by simp), readLE32_writeLE32 hb]
      rfl
    simpa using GetOp_of_pushSize b rest (by decide) hsize

/-! ### A script as the `GetOp` loops read it -/

/-- The ops `GetOp` reads in turn from `pc`, each as its opcode and its bytes; the bytes from the
op it cannot read; and where that failed read leaves the iterator. -/
structure ScriptParse where
  ops : List (UInt8 × List UInt8)
  tail : List UInt8
  stop : List UInt8

def parseScript (pc : List UInt8) : ScriptParse :=
  match h : GetOp pc with
  | (some (opcode, _), pc') =>
    let p := parseScript pc'
    ⟨(opcode, pc.take (pc.length - pc'.length)) :: p.ops, p.tail, p.stop⟩
  | (none, pc') => ⟨[], pc, pc'⟩
termination_by pc.length
decreasing_by exact GetOp_length_lt h

/-- The bytes of the ops read, without the `OP_CODESEPARATOR`s. -/
def ScriptParse.withoutSeparators (p : ScriptParse) : List UInt8 :=
  (p.ops.filter fun op => op.1 != OP_CODESEPARATOR).flatMap Prod.snd

/-- The number of `OP_CODESEPARATOR`s read. -/
def ScriptParse.separators (p : ScriptParse) : Nat :=
  p.ops.countP fun op => op.1 == OP_CODESEPARATOR

theorem parseScript_of_some {pc pc' d : List UInt8} {opcode : UInt8}
    (h : GetOp pc = (some (opcode, d), pc')) :
    parseScript pc = ⟨(opcode, pc.take (pc.length - pc'.length)) :: (parseScript pc').ops,
      (parseScript pc').tail, (parseScript pc').stop⟩ := by
  rw [parseScript]
  split <;> simp_all

theorem parseScript_of_none {pc pc' : List UInt8} (h : GetOp pc = (none, pc')) :
    parseScript pc = ⟨[], pc, pc'⟩ := by
  rw [parseScript]
  split <;> simp_all

theorem take_length_sub_of_append {l t s : List UInt8} (h : l = t ++ s) :
    l.take (l.length - s.length) = t := by
  subst h
  simp

/-- The bytes of an op `GetOp` read from `pc`, followed by where it left the iterator, are `pc`. -/
theorem take_append_of_GetOp {pc pc' : List UInt8} {op : UInt8 × List UInt8}
    (h : GetOp pc = (some op, pc')) : pc.take (pc.length - pc'.length) ++ pc' = pc := by
  obtain ⟨rest, rfl, t, rfl⟩ := @GetOp_eq_some _ _ op.2 op.1 h
  rw [← List.cons_append, take_length_sub_of_append rfl]

/-- The ops and the tail make up the script. -/
theorem parseScript_bytes (pc : List UInt8) :
    (parseScript pc).ops.flatMap Prod.snd ++ (parseScript pc).tail = pc := by
  induction pc using parseScript.induct with
  | case1 pc opcode d pc' h ih =>
    rw [parseScript_of_some h, List.flatMap_cons, List.append_assoc, ih,
      take_append_of_GetOp h]
  | case2 pc pc' h => simp [parseScript_of_none h]

theorem parseScript_stop_suffix (pc : List UInt8) :
    (parseScript pc).stop <:+ (parseScript pc).tail := by
  induction pc using parseScript.induct with
  | case1 pc opcode d pc' h ih => rwa [parseScript_of_some h]
  | case2 pc pc' h =>
    rw [parseScript_of_none h]
    simpa [h] using GetOp_suffix pc

/-- An `OP_CODESEPARATOR` among the ops is one byte. -/
theorem parseScript_separator_bytes (pc : List UInt8) :
    ∀ op ∈ (parseScript pc).ops, op.1 = OP_CODESEPARATOR → op.2 = [OP_CODESEPARATOR] := by
  induction pc using parseScript.induct with
  | case1 pc opcode d pc' h ih =>
    rw [parseScript_of_some h]
    rintro op (_ | ⟨_, hop⟩) hsep
    · -- the op just read
      subst hsep
      rw [GetOp_eq_codeSeparator h]
      simp
    · exact ih op hop hsep
  | case2 pc pc' h => simp [parseScript_of_none h]

/-- An opcode above the pushes is an op of its own byte. -/
theorem parseScript_cons_of_gt {opcode : UInt8} (h : OP_PUSHDATA4 < opcode) (pc : List UInt8) :
    parseScript (opcode :: pc) =
      ⟨(opcode, [opcode]) :: (parseScript pc).ops, (parseScript pc).tail, (parseScript pc).stop⟩ := by
  rw [parseScript_of_some (GetOp_cons_of_gt h pc)]
  simp

theorem parseScript_codeSeparator (pc : List UInt8) :
    parseScript (OP_CODESEPARATOR :: pc) =
      ⟨(OP_CODESEPARATOR, [OP_CODESEPARATOR]) :: (parseScript pc).ops, (parseScript pc).tail,
        (parseScript pc).stop⟩ :=
  parseScript_cons_of_gt (by decide) pc

theorem parseScript_withoutSeparators_of_some {pc pc' d : List UInt8} {opcode : UInt8}
    (h : GetOp pc = (some (opcode, d), pc')) :
    (parseScript pc).withoutSeparators =
      (if opcode = OP_CODESEPARATOR then [] else pc.take (pc.length - pc'.length)) ++
        (parseScript pc').withoutSeparators := by
  rw [parseScript_of_some h, ScriptParse.withoutSeparators, ScriptParse.withoutSeparators]
  by_cases hop : opcode = OP_CODESEPARATOR <;> simp [hop]

theorem parseScript_separators_of_some {pc pc' d : List UInt8} {opcode : UInt8}
    (h : GetOp pc = (some (opcode, d), pc')) :
    (parseScript pc).separators =
      (if opcode = OP_CODESEPARATOR then 1 else 0) + (parseScript pc').separators := by
  rw [parseScript_of_some h, ScriptParse.separators, ScriptParse.separators, List.countP_cons]
  by_cases hop : opcode = OP_CODESEPARATOR <;> simp [hop, Nat.add_comm]

theorem parseScript_tail_of_some {pc pc' d : List UInt8} {opcode : UInt8}
    (h : GetOp pc = (some (opcode, d), pc')) :
    (parseScript pc).tail = (parseScript pc').tail := by
  rw [parseScript_of_some h]

theorem parseScript_stop_of_some {pc pc' d : List UInt8} {opcode : UInt8}
    (h : GetOp pc = (some (opcode, d), pc')) :
    (parseScript pc).stop = (parseScript pc').stop := by
  rw [parseScript_of_some h]

/-- Without separators, the ops and the tail are shorter by the number of separators. -/
theorem length_withoutSeparators_append_tail (pc : List UInt8) :
    ((parseScript pc).withoutSeparators ++ (parseScript pc).tail).length + (parseScript pc).separators =
      pc.length := by
  have hbytes := congrArg List.length (parseScript_bytes pc)
  have hsep := parseScript_separator_bytes pc
  rw [List.length_append] at hbytes ⊢
  rw [← hbytes, ScriptParse.withoutSeparators, ScriptParse.separators]
  generalize (parseScript pc).ops = ops at hsep
  induction ops with
  | nil => simp
  | cons op ops ih =>
    have ih := ih fun o ho => hsep o (List.mem_cons_of_mem op ho)
    by_cases hop : op.1 = OP_CODESEPARATOR
    · have hbytes := hsep op List.mem_cons_self hop
      simp only [List.filter_cons, hop, bne_self_eq_false, Bool.false_eq_true, if_false,
        List.countP_cons, beq_self_eq_true, if_true, List.flatMap_cons, List.length_append,
        hbytes, List.length_singleton] at ih ⊢
      omega
    · simp only [List.filter_cons, bne_iff_ne, ne_eq, hop, not_false_eq_true, if_true,
        List.countP_cons, beq_iff_eq, if_false, List.flatMap_cons, List.length_append] at ih ⊢
      omega

/-- Without separators among the ops, the ops and the tail are the script. -/
theorem withoutSeparators_append_tail_of_separators_eq_zero {pc : List UInt8}
    (h : (parseScript pc).separators = 0) :
    (parseScript pc).withoutSeparators ++ (parseScript pc).tail = pc := by
  have hfilter : (parseScript pc).ops.filter (fun op => op.1 != OP_CODESEPARATOR) =
      (parseScript pc).ops := by
    rw [List.filter_eq_self]
    intro op hop
    have := List.countP_eq_zero.mp h op hop
    simpa using this
  rw [ScriptParse.withoutSeparators, hfilter, parseScript_bytes]

/-! ### `FindAndDelete` -/

/-- The inner `while` of `FindAndDelete`: skips the copies of `b` at `pc`, counting them. -/
def skipCopies (b : List UInt8) (hb : b ≠ []) (pc : List UInt8) : List UInt8 × Nat :=
  if b.length ≤ pc.length ∧ b.isPrefixOf pc then
    let r := skipCopies b hb (pc.drop b.length)
    (r.1, r.2 + 1)
  else (pc, 0)
termination_by pc.length
decreasing_by
  have : 0 < b.length := List.length_pos_iff.mpr hb
  simp only [List.length_drop]
  omega

theorem skipCopies_length_le (b : List UInt8) (hb : b ≠ []) (pc : List UInt8) :
    (skipCopies b hb pc).1.length ≤ pc.length := by
  induction pc using skipCopies.induct b hb with
  | case1 pc hcopy ih =>
    rw [skipCopies, if_pos hcopy]
    exact ih.trans (by simp)
  | case2 pc hcopy => rw [skipCopies, if_neg hcopy]

/-- The `do … while (GetOp(pc, opcode))` loop of `FindAndDelete`, from `result`, the copies
found so far, `pc2` and `pc`: the result, the copies found and `pc2` when `GetOp` fails. -/
def findAndDeleteLoop (b : List UInt8) (hb : b ≠ []) (result : List UInt8) (nFound : Nat)
    (pc2 pc : List UInt8) : List UInt8 × Nat × List UInt8 :=
  let result := result ++ pc2.take (pc2.length - pc.length)
  let skipped := skipCopies b hb pc
  match h : GetOp skipped.1 with
  | (some _, pc') => findAndDeleteLoop b hb result (nFound + skipped.2) skipped.1 pc'
  | (none, _) => (result, nFound + skipped.2, skipped.1)
termination_by pc.length
decreasing_by exact lt_of_lt_of_le (GetOp_length_lt h) (skipCopies_length_le b hb pc)

/-- `CScript::FindAndDelete(b)`: the script with the copies of `b` at op boundaries deleted,
and their number.  The script is left as it is when there are none. -/
def FindAndDelete (script b : List UInt8) : List UInt8 × Nat :=
  if hb : b = [] then (script, 0)
  else
    let r := findAndDeleteLoop b hb [] 0 script script
    if r.2.1 > 0 then (r.1 ++ r.2.2, r.2.1) else (script, r.2.1)

/-- The copies of `OP_CODESEPARATOR` the inner `while` skips are separator ops. -/
theorem skipCopies_codeSeparator (hb : [OP_CODESEPARATOR] ≠ []) (pc : List UInt8) :
    pc = List.replicate (skipCopies _ hb pc).2 OP_CODESEPARATOR ++ (skipCopies _ hb pc).1 ∧
      (skipCopies _ hb pc).1.head? ≠ some OP_CODESEPARATOR := by
  induction pc using skipCopies.induct _ hb with
  | case1 pc hcopy ih =>
    rw [skipCopies, if_pos hcopy]
    obtain ⟨hlen, hprefix⟩ := hcopy
    obtain ⟨c, pc, rfl⟩ :=
      List.exists_cons_of_length_pos (l := pc) (by simp only [List.length_singleton] at hlen; omega)
    have hc : OP_CODESEPARATOR = c := by simpa [List.isPrefixOf] using hprefix
    subst hc
    refine ⟨?_, ih.2⟩
    rw [List.replicate_succ, List.cons_append, ← ih.1]
    rfl
  | case2 pc hcopy =>
    rw [skipCopies, if_neg hcopy]
    refine ⟨rfl, ?_⟩
    intro hhead
    obtain ⟨pc, rfl⟩ := List.head?_eq_some_iff.mp hhead
    exact hcopy ⟨by simp, by simp [List.isPrefixOf]⟩

/-- Separators in front of a script are read as separator ops. -/
theorem parseScript_replicate_codeSeparator (n : Nat) (pc : List UInt8) :
    parseScript (List.replicate n OP_CODESEPARATOR ++ pc) =
      ⟨List.replicate n (OP_CODESEPARATOR, [OP_CODESEPARATOR]) ++ (parseScript pc).ops,
        (parseScript pc).tail, (parseScript pc).stop⟩ := by
  induction n with
  | zero => rfl
  | succ n ih =>
    rw [List.replicate_succ, List.cons_append, parseScript_codeSeparator, ih]
    rfl

theorem parseScript_withoutSeparators_replicate (n : Nat) (pc : List UInt8) :
    (parseScript (List.replicate n OP_CODESEPARATOR ++ pc)).withoutSeparators =
      (parseScript pc).withoutSeparators := by
  rw [parseScript_replicate_codeSeparator, ScriptParse.withoutSeparators,
    ScriptParse.withoutSeparators, List.filter_append, List.filter_replicate]
  simp

theorem parseScript_separators_replicate (n : Nat) (pc : List UInt8) :
    (parseScript (List.replicate n OP_CODESEPARATOR ++ pc)).separators =
      n + (parseScript pc).separators := by
  rw [parseScript_replicate_codeSeparator, ScriptParse.separators, ScriptParse.separators,
    List.countP_append, List.countP_replicate]
  simp

theorem parseScript_tail_replicate (n : Nat) (pc : List UInt8) :
    (parseScript (List.replicate n OP_CODESEPARATOR ++ pc)).tail = (parseScript pc).tail := by
  rw [parseScript_replicate_codeSeparator]

/-- What the inner `while` skips leaves the separator-free bytes and the tail as they are. -/
theorem parseScript_skipCopies (hb : [OP_CODESEPARATOR] ≠ []) (pc : List UInt8) :
    (parseScript pc).withoutSeparators = (parseScript (skipCopies _ hb pc).1).withoutSeparators ∧
      (parseScript pc).separators =
        (skipCopies _ hb pc).2 + (parseScript (skipCopies _ hb pc).1).separators ∧
      (parseScript pc).tail = (parseScript (skipCopies _ hb pc).1).tail := by
  obtain ⟨hskip, -⟩ := skipCopies_codeSeparator hb pc
  generalize skipCopies _ hb pc = s at hskip ⊢
  subst hskip
  exact ⟨parseScript_withoutSeparators_replicate _ _, parseScript_separators_replicate _ _,
    parseScript_tail_replicate _ _⟩

theorem findAndDeleteLoop_of_some {b : List UInt8} {hb : b ≠ []} {result pc2 pc pc' : List UInt8}
    {nFound : Nat} {op : UInt8 × List UInt8} (h : GetOp (skipCopies b hb pc).1 = (some op, pc')) :
    findAndDeleteLoop b hb result nFound pc2 pc =
      findAndDeleteLoop b hb (result ++ pc2.take (pc2.length - pc.length))
        (nFound + (skipCopies b hb pc).2) (skipCopies b hb pc).1 pc' := by
  rw [findAndDeleteLoop]
  split <;> simp_all

theorem findAndDeleteLoop_of_none {b : List UInt8} {hb : b ≠ []} {result pc2 pc pc' : List UInt8}
    {nFound : Nat} (h : GetOp (skipCopies b hb pc).1 = (none, pc')) :
    findAndDeleteLoop b hb result nFound pc2 pc =
      (result ++ pc2.take (pc2.length - pc.length), nFound + (skipCopies b hb pc).2,
        (skipCopies b hb pc).1) := by
  rw [findAndDeleteLoop]
  split <;> simp_all

/-- The loop of `FindAndDelete(CScript(OP_CODESEPARATOR))`, from `pc2` = `v ++ pc`, appends `v`
and the script from `pc` without its separators to `result`, and stops at the tail. -/
theorem findAndDeleteLoop_codeSeparator (hb : [OP_CODESEPARATOR] ≠ []) (result : List UInt8)
    (nFound : Nat) (pc2 pc : List UInt8) :
    ∀ v, pc2 = v ++ pc →
      let r := findAndDeleteLoop _ hb result nFound pc2 pc
      r.1 ++ r.2.2 = result ++ v ++ (parseScript pc).withoutSeparators ++ (parseScript pc).tail ∧
        r.2.1 = nFound + (parseScript pc).separators := by
  induction result, nFound, pc2, pc using findAndDeleteLoop.induct _ hb with
  | case1 result nFound pc2 pc result' skipped op pc' h ih =>
    intro v hv
    simp only [result', skipped] at h ih
    obtain ⟨hws, hsep, htail⟩ := parseScript_skipCopies hb pc
    obtain ⟨rest, hrest, -⟩ := @GetOp_eq_some _ _ op.2 op.1 h
    -- the op after the separators is not one
    have hop : op.1 ≠ OP_CODESEPARATOR := fun hop =>
      (skipCopies_codeSeparator hb pc).2 (by simp [hrest, hop])
    obtain ⟨ih₁, ih₂⟩ := ih _ (take_append_of_GetOp h).symm
    rw [findAndDeleteLoop_of_some h, hws, hsep, htail, parseScript_withoutSeparators_of_some h,
      parseScript_separators_of_some h, parseScript_tail_of_some h, if_neg hop, if_neg hop]
    refine ⟨?_, ?_⟩
    · rw [ih₁, take_length_sub_of_append hv]
      simp only [List.append_assoc]
    · rw [ih₂]
      omega
  | case2 result nFound pc2 pc skipped pc' h =>
    intro v hv
    simp only [skipped] at h
    obtain ⟨hws, hsep, htail⟩ := parseScript_skipCopies hb pc
    rw [findAndDeleteLoop_of_none h, take_length_sub_of_append hv, hws, hsep, htail,
      parseScript_of_none h]
    simp [ScriptParse.withoutSeparators, ScriptParse.separators]

/-- `FindAndDelete(CScript(OP_CODESEPARATOR))` deletes the separators among the ops and keeps
the tail. -/
theorem findAndDelete_codeSeparator (script : List UInt8) :
    FindAndDelete script [OP_CODESEPARATOR] =
      ((parseScript script).withoutSeparators ++ (parseScript script).tail,
        (parseScript script).separators) := by
  have hb : [OP_CODESEPARATOR] ≠ [] := List.cons_ne_nil _ _
  obtain ⟨hbytes, hcount⟩ :=
    findAndDeleteLoop_codeSeparator hb [] 0 script script [] (List.nil_append _).symm
  rw [FindAndDelete, dif_neg hb]
  dsimp only
  rw [hbytes, hcount, List.nil_append, List.nil_append, Nat.zero_add]
  split_ifs with hfound
  · rfl
  · rw [withoutSeparators_append_tail_of_separators_eq_zero (by omega)]

end Trumpow
