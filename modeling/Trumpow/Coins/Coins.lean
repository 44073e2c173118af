import Trumpow.Coins.Compressor

/-!
# Coins — `CCoins` and `CTxInUndo` on disk

`coins.h` and `undo.h`.  A `CCoins` is written as the `VARINT`s of its version and of a header
code, a mask of the outputs from `vout[2]` on that are unspent, the unspent outputs through
`CTxOutCompressor`, and the `VARINT` of its height.  The header code holds the coinbase flag in
bit 0, whether `vout[0]` and `vout[1]` are unspent in bits 1 and 2, and above them the number
`N` of non-zero mask bytes (`N - 1` when neither of the first two outputs is unspent, as one
output at least is).  The reader takes mask bytes until it has seen `N` non-zero ones, so the
mask is written up to its last non-zero byte (`calcMaskSize`).

A `CTxInUndo` is written as the `VARINT` of `nHeight * 2 + fCoinBase` in `unsigned int`, the
version only when the height is not zero, and the output.

Results: a `CCoins` that is `Serializable` reads back exactly (`reads_unserialize`), through the
mask lemmas `calcMaskSize_spec`, `readMask_go_append`, `flatMap_bitsOfByte` and the header code
`decode_nCode`; a `CTxInUndo` reads back with its version when its height is not zero
(`reads_undoUnserialize`).
-/

namespace Trumpow

open Codec

/-- `CCoins`: the outputs of a transaction, a spent one null; whether it is a coinbase; its
height and version (`int`s). -/
structure CCoins where
  fCoinBase : Bool
  vout : List CTxOut
  nHeight : Int
  nVersion : Int
deriving DecidableEq

namespace CCoins

/-- `CCoins()`. -/
instance : Inhabited CCoins := ⟨⟨false, [], 0, 0⟩⟩

/-- `Cleanup()`: drop the spent outputs at the end of `vout`. -/
def cleanup (c : CCoins) : CCoins := { c with vout := c.vout.rdropWhile fun o => decide o.IsNull }

/-- `IsPruned()`: every output is spent. -/
def IsPruned (c : CCoins) : Prop := ∀ o ∈ c.vout, o.IsNull

instance : DecidablePred IsPruned := fun c => inferInstanceAs (Decidable (∀ o ∈ c.vout, o.IsNull))

/-- `IsAvailable(nPos)`: output `nPos` exists and is unspent. -/
def IsAvailable (c : CCoins) (nPos : Nat) : Prop :=
  nPos < c.vout.length ∧ ¬ (c.vout.getD nPos default).IsNull

instance (c : CCoins) (nPos : Nat) : Decidable (c.IsAvailable nPos) :=
  inferInstanceAs (Decidable (_ ∧ _))

/-- Mask byte `b`: bit `i` for output `2 + b * 8 + i`, the inner loops of `CalcMaskSize` and
`Serialize` (which stop at the end of `vout`). -/
def maskByte (c : CCoins) (b : Nat) : Nat :=
  (List.range 8).foldl
    (fun chAvail i => if c.IsAvailable (2 + b * 8 + i) then chAvail ||| 1 <<< i else chAvail) 0

/-- `CalcMaskSize(nBytes, nNonzeroBytes)`, called with both zero: one past the last non-zero
mask byte, and the number of non-zero mask bytes. -/
def calcMaskSize (c : CCoins) : Nat × Nat := go c 0 0 0
where
  go (c : CCoins) (b nLastUsedByte nNonzeroBytes : Nat) : Nat × Nat :=
    if 2 + b * 8 < c.vout.length then
      let fZero := (List.range 8).all fun i => !decide (c.IsAvailable (2 + b * 8 + i))
      if fZero then go c (b + 1) nLastUsedByte nNonzeroBytes
      else go c (b + 1) (b + 1) (nNonzeroBytes + 1)
    else (nLastUsedByte, nNonzeroBytes)
  termination_by c.vout.length - (2 + b * 8)

/-- `Serialize`; `none` where the source's `assert(fFirst || fSecond || nMaskCode)` fails, on a
pruned `CCoins`.  `nCode` is an `unsigned int`. -/
def serialize (k : Secp256k1) (c : CCoins) : Option (List UInt8) :=
  let (nMaskSize, nMaskCode) := calcMaskSize c
  let fFirst := decide (c.vout.length > 0 ∧ ¬ (c.vout.getD 0 default).IsNull)
  let fSecond := decide (c.vout.length > 1 ∧ ¬ (c.vout.getD 1 default).IsNull)
  if !(fFirst || fSecond || nMaskCode ≠ 0) then none else
  let nCode : Nat :=
    (8 * (nMaskCode - if fFirst || fSecond then 0 else 1) + (if c.fCoinBase then 1 else 0) +
      (if fFirst then 2 else 0) + (if fSecond then 4 else 0)) % 2 ^ 32
  some (writeVarInt c.nVersion ++ writeVarInt nCode ++
    (List.range nMaskSize).map (fun b => UInt8.ofNat (c.maskByte b)) ++
    c.vout.flatMap (fun txout => if txout.IsNull then [] else CTxOutCompressor.serialize k txout) ++
    writeVarInt c.nHeight)

/-- The eight availability bits of a mask byte, bit `p` first. -/
def bitsOfByte (chAvail : UInt8) : List Bool :=
  (List.range 8).map fun p => decide (chAvail.toNat &&& 1 <<< p ≠ 0)

/-- The `while (nMaskCode > 0)` loop of `Unserialize`: each byte's bits, until `nMaskCode`
non-zero bytes have been read. -/
def readMask (nMaskCode : Nat) : Reader UInt8 (List Bool) := fun s => go nMaskCode s
where
  go : Nat → List UInt8 → Option (List Bool × List UInt8)
    | 0, s => some ([], s)
    | _ + 1, [] => none
    | nMaskCode + 1, chAvail :: s =>
      (go (if chAvail ≠ 0 then nMaskCode else nMaskCode + 1) s).map fun r =>
        (bitsOfByte chAvail ++ r.1, r.2)

/-- `Unserialize`: the outputs of the positions marked available, `CTxOut()` at the others,
then `Cleanup()`. -/
def unserialize (k : Secp256k1) : Reader UInt8 CCoins := do
  let nVersion ← readVarInt 32
  let nCode ← readVarInt 32
  let fCoinBase := decide (nCode &&& 1 ≠ 0)
  let vAvail := [decide (nCode &&& 2 ≠ 0), decide (nCode &&& 4 ≠ 0)]
  let nMaskCode := nCode / 8 + if nCode &&& 6 ≠ 0 then 0 else 1
  let bits ← readMask nMaskCode
  let vout ← (vAvail ++ bits).mapM fun f =>
    if f then CTxOutCompressor.unserialize k else pure default
  let nHeight ← readVarInt 32
  pure (cleanup ⟨fCoinBase, vout, toInt32 nHeight, toInt32 nVersion⟩)

/-! ### The mask bytes -/

section Mask

variable (c : CCoins)

theorem testBit_fold (b j : Nat) :
    ∀ (l : List Nat) (acc : Nat),
      (l.foldl (fun chAvail i => if c.IsAvailable (2 + b * 8 + i) then chAvail ||| 1 <<< i
        else chAvail) acc).testBit j =
        (acc.testBit j || decide (j ∈ l ∧ c.IsAvailable (2 + b * 8 + j)))
  | [], acc => by simp
  | i :: l, acc => by
      rw [List.foldl_cons, testBit_fold b j l]
      by_cases hi : c.IsAvailable (2 + b * 8 + i)
      · rw [if_pos hi, Nat.testBit_or, Nat.one_shiftLeft, Nat.testBit_two_pow]
        by_cases hji : j = i
        · subst hji
          simp [hi]
        · simp [hji, Ne.symm hji]
      · rw [if_neg hi]
        by_cases hji : j = i
        · subst hji
          simp [hi]
        · simp [hji]

theorem testBit_maskByte (b j : Nat) :
    (c.maskByte b).testBit j = decide (j < 8 ∧ c.IsAvailable (2 + b * 8 + j)) := by
  rw [maskByte, testBit_fold]
  simp

theorem maskByte_lt (b : Nat) : c.maskByte b < 2 ^ 8 :=
  Nat.lt_pow_two_of_testBit _ fun i hi => by
    rw [testBit_maskByte]
    simp only [decide_eq_false_iff_not, not_and]
    intro h
    omega

theorem maskByte_eq_zero_iff (b : Nat) :
    c.maskByte b = 0 ↔ ∀ i < 8, ¬ c.IsAvailable (2 + b * 8 + i) := by
  constructor
  · intro h i hi hav
    have := c.testBit_maskByte b i
    rw [h, Nat.zero_testBit] at this
    simp [hi, hav] at this
  · intro h
    apply Nat.eq_of_testBit_eq
    intro i
    rw [testBit_maskByte, Nat.zero_testBit]
    simp only [decide_eq_false_iff_not, not_and]
    exact h i

theorem maskByte_of_le {b : Nat} (h : c.vout.length ≤ 2 + b * 8) : c.maskByte b = 0 :=
  (c.maskByte_eq_zero_iff b).mpr fun i _ hav => by
    have := hav.1
    omega

/-- The available output `j ≥ 2` makes its mask byte non-zero. -/
theorem maskByte_ne_zero {j : Nat} (h2 : 2 ≤ j) (hj : c.IsAvailable j) :
    c.maskByte ((j - 2) / 8) ≠ 0 := fun h0 =>
  (c.maskByte_eq_zero_iff _).mp h0 ((j - 2) % 8) (Nat.mod_lt _ (by omega))
    (by rwa [show 2 + (j - 2) / 8 * 8 + (j - 2) % 8 = j by omega])

/-- The loop of `CalcMaskSize` counts the non-zero bytes below the last one it saw. -/
theorem countP_range_of_zero (p : Nat → Bool) {a : Nat} :
    ∀ b, a ≤ b → (∀ i, a ≤ i → i < b → p i = false) →
      (List.range b).countP p = (List.range a).countP p
  | 0, hab, _ => by rw [Nat.le_zero.mp hab]
  | b + 1, hab, hzero => by
      rcases Nat.lt_or_ge a (b + 1) with hlt | hge
      · rw [List.range_succ, List.countP_append, countP_range_of_zero p b (by omega)
          fun i h₁ h₂ => hzero i h₁ (by omega)]
        simp [hzero b (by omega) (by omega)]
      · rw [show a = b + 1 by omega]

theorem calcMaskSize_go_spec (b last nz : Nat) (hlast : last ≤ b)
    (hnz : last = 0 ∨ c.maskByte (last - 1) ≠ 0)
    (hzero : ∀ b', last ≤ b' → b' < b → c.maskByte b' = 0)
    (hcount : nz = (List.range last).countP fun b' => c.maskByte b' ≠ 0) :
    (∀ b', (calcMaskSize.go c b last nz).1 ≤ b' → c.maskByte b' = 0) ∧
      ((calcMaskSize.go c b last nz).1 = 0 ∨ c.maskByte ((calcMaskSize.go c b last nz).1 - 1) ≠ 0) ∧
      (calcMaskSize.go c b last nz).2 =
        (List.range (calcMaskSize.go c b last nz).1).countP fun b' => c.maskByte b' ≠ 0 := by
  fun_induction calcMaskSize.go c b last nz with
  | case1 b last nz hb fZero hZero ih =>
      -- a zero byte: nothing changes
      have hb0 : c.maskByte b = 0 := (c.maskByte_eq_zero_iff b).mpr fun i hi => by
        have := List.all_eq_true.mp hZero i (List.mem_range.mpr hi)
        simpa using this
      exact ih (by omega) hnz
        (fun b' h₁ h₂ => if h : b' = b then h ▸ hb0 else hzero b' h₁ (by omega)) hcount
  | case2 b last nz hb fZero hZero ih =>
      -- a non-zero byte: the last one seen so far
      have hb0 : c.maskByte b ≠ 0 := fun h => hZero (List.all_eq_true.mpr fun i hi => by
        have := (c.maskByte_eq_zero_iff b).mp h i (List.mem_range.mp hi)
        simpa using this)
      refine ih le_rfl (Or.inr hb0) (fun b' h₁ h₂ => absurd h₂ (by omega)) ?_
      rw [List.range_succ, List.countP_append, hcount,
        countP_range_of_zero _ b hlast fun i h₁ h₂ => by simpa using hzero i h₁ h₂]
      simp [hb0]
  | case3 b last nz hb =>
      -- past the outputs every byte is zero
      refine ⟨fun b' hb' => ?_, hnz, hcount⟩
      rcases Nat.lt_or_ge b' b with h | h
      · exact hzero b' hb' h
      · exact c.maskByte_of_le (by omega)

/-- `CalcMaskSize` returns one past the last non-zero mask byte and the number of non-zero
bytes below it. -/
theorem calcMaskSize_spec :
    (∀ b, (calcMaskSize c).1 ≤ b → c.maskByte b = 0) ∧
      ((calcMaskSize c).1 = 0 ∨ c.maskByte ((calcMaskSize c).1 - 1) ≠ 0) ∧
      (calcMaskSize c).2 = (List.range (calcMaskSize c).1).countP fun b => c.maskByte b ≠ 0 :=
  c.calcMaskSize_go_spec 0 0 0 le_rfl (Or.inl rfl) (fun _ _ h => absurd h (by omega)) rfl

theorem bitsOfByte_maskByte (b : Nat) :
    bitsOfByte (UInt8.ofNat (c.maskByte b)) =
      (List.range 8).map fun p => decide (c.IsAvailable (2 + b * 8 + p)) := by
  rw [bitsOfByte, UInt8.toNat_ofNat', Nat.mod_eq_of_lt (c.maskByte_lt b)]
  apply List.map_congr_left
  intro p hp
  rw [Nat.one_shiftLeft, Nat.and_two_pow, testBit_maskByte]
  have hp8 : p < 8 := List.mem_range.mp hp
  by_cases hav : c.IsAvailable (2 + b * 8 + p) <;> simp [hav, hp8]

/-- The mask bytes below `S` hold the availability of the outputs from `2` to `2 + 8 * S`. -/
theorem flatMap_bitsOfByte :
    ∀ S, ((List.range S).map fun b => UInt8.ofNat (c.maskByte b)).flatMap bitsOfByte =
      (List.range (8 * S)).map fun j => decide (c.IsAvailable (2 + j))
  | 0 => rfl
  | S + 1 => by
      rw [List.range_succ, List.map_append, List.flatMap_append, flatMap_bitsOfByte S,
        show 8 * (S + 1) = 8 * S + 8 by omega, List.range_add, List.map_append, List.map_map]
      simp only [List.map_cons, List.map_nil, List.flatMap_cons, List.flatMap_nil,
        List.append_nil, bitsOfByte_maskByte]
      congr 1
      apply List.map_congr_left
      intro p _
      simp only [Function.comp_apply]
      rw [show 2 + S * 8 + p = 2 + (8 * S + p) by omega]

end Mask

/-! ### Reading the mask -/

theorem ofNat_ne_zero_iff {m : Nat} (h : m < 2 ^ 8) : UInt8.ofNat m ≠ 0 ↔ m ≠ 0 := by
  constructor
  · rintro h₁ rfl
    exact h₁ rfl
  · intro h₁ h₂
    have := congrArg UInt8.toNat h₂
    rw [UInt8.toNat_ofNat', Nat.mod_eq_of_lt h] at this
    exact h₁ this

/-- Mask bytes whose last one is not zero read back, the count of non-zero bytes telling the
loop where to stop. -/
theorem readMask_go_append :
    ∀ (bs rest : List UInt8), (∀ x, bs.getLast? = some x → x ≠ 0) →
      readMask.go (bs.countP fun x => x ≠ 0) (bs ++ rest) = some (bs.flatMap bitsOfByte, rest)
  | [], rest, _ => by simp [readMask.go]
  | ch :: bs, rest, hlast => by
      have hlast' : ∀ x, bs.getLast? = some x → x ≠ 0 := by
        intro x hx
        cases bs with
        | nil => simp at hx
        | cons y ys => exact hlast x (by rw [List.getLast?_cons_cons]; exact hx)
      by_cases hch : ch = 0
      · -- a zero byte: the last byte, not zero, is still ahead
        have hc : (ch :: bs).countP (fun x => x ≠ 0) = bs.countP fun x => x ≠ 0 :=
          List.countP_cons_of_neg (by simp [hch])
        obtain ⟨x, hx⟩ : ∃ x, bs.getLast? = some x := by
          cases bs with
          | nil => exact absurd (hlast ch rfl) (by simp [hch])
          | cons y ys => exact ⟨_, List.getLast?_eq_some_getLast (List.cons_ne_nil y ys)⟩
        have hpos : 0 < bs.countP fun x => x ≠ 0 :=
          List.countP_pos_iff.mpr ⟨x, List.mem_of_getLast? hx, decide_eq_true (hlast' x hx)⟩
        obtain ⟨n, hn⟩ := Nat.exists_eq_add_one_of_ne_zero hpos.ne'
        rw [hc, hn, List.cons_append, readMask.go, if_neg (by simp [hch]), ← hn,
          readMask_go_append bs rest hlast']
        rfl
      · -- a non-zero byte: one fewer to go
        have hc : (ch :: bs).countP (fun x => x ≠ 0) = (bs.countP fun x => x ≠ 0) + 1 :=
          List.countP_cons_of_pos (by simp [hch])
        rw [hc, List.cons_append, readMask.go, if_pos hch, readMask_go_append bs rest hlast']
        rfl

/-! ### The header code -/

theorem and_low_bits (x m : Nat) (hm : m < 8) : x &&& m = (x % 8) &&& m := by
  apply Nat.eq_of_testBit_eq
  intro i
  rw [Nat.testBit_and, Nat.testBit_and, show (8 : Nat) = 2 ^ 3 from rfl, Nat.testBit_mod_two_pow]
  by_cases h : i < 3
  · simp [h]
  · have hle : (2 : Nat) ^ 3 ≤ 2 ^ i := Nat.pow_le_pow_right (by norm_num) (by omega)
    have : m.testBit i = false := Nat.testBit_eq_false_of_lt (by omega)
    simp [this]

/-- The reader recovers the coinbase flag, the first two availabilities and the number of
non-zero mask bytes from the header code. -/
theorem decode_nCode (K : Nat) (cb f s : Bool) (h : (f || s || K ≠ 0) = true) :
    decide ((8 * (K - if f || s then 0 else 1) + (if cb then 1 else 0) + (if f then 2 else 0) +
        (if s then 4 else 0)) &&& 1 ≠ 0) = cb ∧
      decide ((8 * (K - if f || s then 0 else 1) + (if cb then 1 else 0) + (if f then 2 else 0) +
        (if s then 4 else 0)) &&& 2 ≠ 0) = f ∧
      decide ((8 * (K - if f || s then 0 else 1) + (if cb then 1 else 0) + (if f then 2 else 0) +
        (if s then 4 else 0)) &&& 4 ≠ 0) = s ∧
      (8 * (K - if f || s then 0 else 1) + (if cb then 1 else 0) + (if f then 2 else 0) +
        (if s then 4 else 0)) / 8 +
        (if (8 * (K - if f || s then 0 else 1) + (if cb then 1 else 0) + (if f then 2 else 0) +
          (if s then 4 else 0)) &&& 6 ≠ 0 then 0 else 1) = K := by
  generalize hx : 8 * (K - if f || s then 0 else 1) + (if cb then 1 else 0) + (if f then 2 else 0) +
    (if s then 4 else 0) = x
  have hlow : ∀ m < 8, x &&& m = ((if cb then 1 else 0) + (if f then 2 else 0) +
      (if s then 4 else 0)) &&& m := by
    intro m hm
    rw [and_low_bits x m hm]
    congr 1
    cases cb <;> cases f <;> cases s <;> simp at hx ⊢ <;> omega
  rw [hlow 1 (by norm_num), hlow 2 (by norm_num), hlow 4 (by norm_num), hlow 6 (by norm_num)]
  cases cb <;> cases f <;> cases s <;> simp at hx h ⊢ <;> omega

/-! ### Reading `CCoins` back -/

/-- The `CCoins` that `Serialize` writes and `Unserialize` reads back: not pruned, with
`Cleanup` applied (its last output unspent), spent outputs as `SetNull` leaves them, unspent
outputs that compress, `int` height and version that are not negative, and fewer than `2^31`
outputs (so that the header code fits its `unsigned int`). -/
structure Serializable (c : CCoins) : Prop where
  last_unspent : ∃ o, c.vout.getLast? = some o ∧ ¬ o.IsNull
  null_eq : ∀ o ∈ c.vout, o.IsNull → o = default
  compressible : ∀ o ∈ c.vout, ¬ o.IsNull → o.Compressible
  nVersion_range : 0 ≤ c.nVersion ∧ c.nVersion < 2 ^ 31
  nHeight_range : 0 ≤ c.nHeight ∧ c.nHeight < 2 ^ 31
  length_vout : c.vout.length < 2 ^ 31

section Reads

variable {k : Secp256k1} {c : CCoins}

theorem map_getD_range (l : List CTxOut) :
    (List.range l.length).map (fun j => l.getD j default) = l := by
  apply List.ext_getElem (by simp)
  intro i h₁ h₂
  simp [List.getElem?_eq_getElem h₂]

theorem Serializable.isAvailable_last (hc : c.Serializable) : c.IsAvailable (c.vout.length - 1) := by
  obtain ⟨o, ho, hnull⟩ := hc.last_unspent
  have hne : c.vout ≠ [] := fun h => by simp [h] at ho
  have hlen : 0 < c.vout.length := List.length_pos_iff.mpr hne
  rw [List.getLast?_eq_some_getLast hne, Option.some_inj] at ho
  refine ⟨by omega, ?_⟩
  rw [List.getD_eq_getElem _ _ (by omega), ← List.getLast_eq_getElem hne, ho]
  exact hnull

theorem getD_mem_vout {j : Nat} (hj : j < c.vout.length) : c.vout.getD j default ∈ c.vout := by
  rw [List.getD_eq_getElem _ _ hj]
  exact List.getElem_mem hj

/-- The outputs of the positions marked available, `CTxOut()` at the others, are the outputs
followed by `CTxOut()`s. -/
theorem reads_vout (hk : k.DecompressInverts) (hc : c.Serializable) {L : Nat}
    (hL : c.vout.length ≤ L) :
    Reads (((List.range L).map fun j => decide (c.IsAvailable j)).mapM fun f =>
        if f then CTxOutCompressor.unserialize k else pure default)
      (c.vout.flatMap fun txout => if txout.IsNull then [] else CTxOutCompressor.serialize k txout)
      (c.vout ++ List.replicate (L - c.vout.length) default) := by
  rw [List.mapM_map]
  have hsplit : List.range L = List.range c.vout.length ++
      (List.range (L - c.vout.length)).map (c.vout.length + ·) := by
    rw [← List.range_add, Nat.add_sub_cancel' hL]
  have hout : ∀ j ≥ c.vout.length, ¬ c.IsAvailable j := fun j hj hav => by
    have := hav.1
    omega
  refine (Reads.mapM
    (fun j => if c.IsAvailable j then CTxOutCompressor.serialize k (c.vout.getD j default) else [])
    (fun j => if c.IsAvailable j then c.vout.getD j default else default)
    (List.range L) fun j _ => ?_).congr ?_ ?_
  · -- one position
    by_cases hav : c.IsAvailable j
    · simp only [Function.comp_apply, hav, decide_true, if_true]
      exact CTxOutCompressor.reads_txOutUnserialize hk
        (hc.compressible _ (getD_mem_vout hav.1) hav.2)
    · simp only [Function.comp_apply, hav, decide_false, Bool.false_eq_true, if_false]
      exact Reads.pure _
  · -- the words: nothing at the unavailable positions
    have hpast : ((List.range (L - c.vout.length)).map (c.vout.length + ·)).flatMap
        (fun j => if c.IsAvailable j then CTxOutCompressor.serialize k (c.vout.getD j default)
          else []) = [] := by
      rw [List.flatMap_map, List.flatMap_eq_nil_iff]
      intro j _
      rw [if_neg (hout _ (Nat.le_add_right _ _))]
    rw [hsplit, List.flatMap_append, hpast, List.append_nil]
    conv_rhs => rw [← map_getD_range c.vout, List.flatMap_map]
    apply List.flatMap_congr
    intro j hj
    by_cases hnull : (c.vout.getD j default).IsNull
    · have : ¬ c.IsAvailable j := fun h => h.2 hnull
      rw [if_neg this, if_pos hnull]
    · have : c.IsAvailable j := ⟨List.mem_range.mp hj, hnull⟩
      rw [if_pos this, if_neg hnull]
  · -- the values: a spent output is `CTxOut()`
    rw [hsplit, List.map_append, List.map_map]
    congr 1
    · conv_rhs => rw [← map_getD_range c.vout]
      apply List.map_congr_left
      intro j hj
      by_cases hav : c.IsAvailable j
      · rw [if_pos hav]
      · have hnull : (c.vout.getD j default).IsNull := by
          by_contra hn
          exact hav ⟨List.mem_range.mp hj, hn⟩
        rw [if_neg hav]
        exact (hc.null_eq _ (getD_mem_vout (List.mem_range.mp hj)) hnull).symm
    · refine List.eq_replicate_iff.mpr ⟨by simp, fun x hx => ?_⟩
      obtain ⟨j, -, rfl⟩ := List.mem_map.mp hx
      exact if_neg (hout _ (Nat.le_add_right _ j))

theorem cleanup_append_replicate (hc : c.Serializable) (m : Nat) :
    (c.vout ++ List.replicate m default).rdropWhile (fun o => decide o.IsNull) = c.vout := by
  induction m with
  | zero =>
      rw [List.replicate_zero, List.append_nil, List.rdropWhile_eq_self_iff]
      intro hne
      obtain ⟨o, ho, hnull⟩ := hc.last_unspent
      rw [List.getLast?_eq_some_getLast hne, Option.some_inj] at ho
      simpa [ho] using hnull
  | succ m ih =>
      rw [List.replicate_succ', ← List.append_assoc, List.rdropWhile_concat_pos _ _ _ (by decide), ih]

/-- The mask bytes up to the last non-zero one read back as the availability of the outputs
from `2` on. -/
theorem reads_mask {S : Nat} (hlastByte : S = 0 ∨ c.maskByte (S - 1) ≠ 0) :
    Reads (readMask ((List.range S).countP fun b => c.maskByte b ≠ 0))
      ((List.range S).map fun b => UInt8.ofNat (c.maskByte b))
      ((List.range (8 * S)).map fun j => decide (c.IsAvailable (2 + j))) := by
  have hcount : (((List.range S).map fun b => UInt8.ofNat (c.maskByte b)).countP fun x => x ≠ 0) =
      (List.range S).countP fun b => c.maskByte b ≠ 0 := by
    rw [List.countP_map]
    apply List.countP_congr
    intro b _
    simp only [Function.comp_apply, decide_eq_true_eq]
    exact ofNat_ne_zero_iff (c.maskByte_lt b)
  have hlast : ∀ x, ((List.range S).map fun b => UInt8.ofNat (c.maskByte b)).getLast? = some x →
      x ≠ 0 := by
    intro x hx
    cases S with
    | zero => simp at hx
    | succ S =>
        rw [List.range_succ, List.map_append, List.map_singleton, List.getLast?_concat,
          Option.some_inj] at hx
        rw [← hx]
        exact (ofNat_ne_zero_iff (c.maskByte_lt S)).mpr (by simpa using hlastByte)
  intro rest
  show readMask.go _ _ = _
  rw [← hcount, readMask_go_append _ rest hlast, flatMap_bitsOfByte]

theorem vAvail_eq (S : Nat) :
    [decide (c.IsAvailable 0), decide (c.IsAvailable 1)] ++
        (List.range (8 * S)).map (fun j => decide (c.IsAvailable (2 + j))) =
      (List.range (2 + 8 * S)).map fun j => decide (c.IsAvailable j) := by
  rw [List.range_add, List.map_append, List.map_map]
  rfl

/-- A `Serializable` `CCoins` is written, and read back exactly. -/
theorem reads_unserialize (hk : k.DecompressInverts) (hc : c.Serializable) :
    ∃ w, c.serialize k = some w ∧ Reads (unserialize k) w c := by
  obtain ⟨hzero, hlastByte, hcount⟩ := c.calcMaskSize_spec
  generalize hm : calcMaskSize c = m at hzero hlastByte hcount
  obtain ⟨S, K⟩ := m
  simp only at hzero hlastByte hcount
  have hn := hc.length_vout
  have havn := hc.isAvailable_last
  -- the mask covers every output
  have hcover : c.vout.length ≤ 2 + 8 * S := by
    by_contra hlt
    have := hzero ((c.vout.length - 1 - 2) / 8) (by omega)
    exact c.maskByte_ne_zero (by omega) havn this
  -- the assertion of `Serialize` holds
  have hK : S ≤ c.vout.length / 8 + 1 := by
    rcases hlastByte with h | h
    · omega
    · by_contra hlt
      exact h (c.maskByte_of_le (by omega))
  have hKS : K ≤ S := hcount ▸ (List.countP_le_length).trans (by simp)
  set f := decide (c.vout.length > 0 ∧ ¬ (c.vout.getD 0 default).IsNull) with hf
  set s := decide (c.vout.length > 1 ∧ ¬ (c.vout.getD 1 default).IsNull) with hs
  have hf0 : c.IsAvailable 0 → f = true := fun h => by rw [hf]; exact decide_eq_true ⟨h.1, h.2⟩
  have hs1 : c.IsAvailable 1 → s = true := fun h => by rw [hs]; exact decide_eq_true ⟨h.1, h.2⟩
  have hassert : (f || s || decide (K ≠ 0)) = true := by
    by_cases h1 : c.vout.length ≤ 2
    · have : c.vout.length - 1 = 0 ∨ c.vout.length - 1 = 1 := by omega
      rcases this with h0 | h0 <;> rw [h0] at havn
      · simp [hf0 havn]
      · simp [hs1 havn]
    · have hb := c.maskByte_ne_zero (by omega) havn
      have hlt : (c.vout.length - 1 - 2) / 8 < S := by
        by_contra hge
        exact hb (hzero _ (by omega))
      have : K ≠ 0 := by
        rw [hcount]
        exact (List.countP_pos_iff.mpr ⟨_, List.mem_range.mpr hlt, by simpa using hb⟩).ne'
      simp [this]
  -- the header code fits its `unsigned int`
  have hcode : 8 * (K - if f || s then 0 else 1) + (if c.fCoinBase then 1 else 0) +
      (if f then 2 else 0) + (if s then 4 else 0) < 2 ^ 32 := by
    have h₁ : (if c.fCoinBase then 1 else 0) ≤ 1 := by split <;> omega
    have h₂ : (if f then 2 else 0) ≤ 2 := by split <;> omega
    have h₃ : (if s then 4 else 0) ≤ 4 := by split <;> omega
    have h₄ : K - (if f || s then 0 else 1) ≤ K := Nat.sub_le _ _
    omega
  obtain ⟨hcb, hf', hs', hK'⟩ := decode_nCode K c.fCoinBase f s hassert
  refine ⟨writeVarInt c.nVersion ++ writeVarInt ((8 * (K - if f || s then 0 else 1) +
      (if c.fCoinBase then 1 else 0) + (if f then 2 else 0) + (if s then 4 else 0) : Nat)) ++
    (List.range S).map (fun b => UInt8.ofNat (c.maskByte b)) ++
    c.vout.flatMap (fun txout => if txout.IsNull then [] else CTxOutCompressor.serialize k txout) ++
    writeVarInt c.nHeight, ?_, ?_⟩
  · rw [serialize, hm, ← hf, ← hs]
    simp only [hassert, Bool.not_true, Bool.false_eq_true, if_false, Nat.mod_eq_of_lt hcode]
  · generalize 8 * (K - if f || s then 0 else 1) + (if c.fCoinBase then 1 else 0) +
      (if f then 2 else 0) + (if s then 4 else 0) = nCode at hcode hcb hf' hs' hK' ⊢
    have hV : c.nVersion = ((c.nVersion.toNat : Nat) : Int) :=
      (Int.toNat_of_nonneg hc.nVersion_range.1).symm
    have hH : c.nHeight = ((c.nHeight.toNat : Nat) : Int) :=
      (Int.toNat_of_nonneg hc.nHeight_range.1).symm
    have hV32 : c.nVersion.toNat < 2 ^ 31 := by have := hc.nVersion_range; omega
    have hH32 : c.nHeight.toNat < 2 ^ 31 := by have := hc.nHeight_range; omega
    rw [hV, hH]
    simp only [List.append_assoc]
    refine (reads_readVarInt (by omega : c.nVersion.toNat < 2 ^ 32)).bind ?_
    refine (reads_readVarInt hcode).bind ?_
    dsimp only
    rw [hcb, hf', hs', hK', hcount]
    refine (reads_mask hlastByte).bind ?_
    rw [show f = decide (c.IsAvailable 0) from rfl, show s = decide (c.IsAvailable 1) from rfl,
      vAvail_eq]
    refine (reads_vout hk hc hcover).bind ?_
    refine (reads_readVarInt (by omega : c.nHeight.toNat < 2 ^ 32)).bind_pure ?_
    rw [toInt32_of_lt hH32, toInt32_of_lt hV32, ← hV, ← hH]
    simp only [cleanup, cleanup_append_replicate hc]

end Reads

end CCoins

/-! ### Undo records -/

/-- `CTxInUndo`: the output an input spent and, when it was its transaction's last unspent
output, the transaction's coinbase flag, height (an `unsigned int`) and version. -/
structure CTxInUndo where
  txout : CTxOut := default
  fCoinBase : Bool := false
  nHeight : Nat := 0
  nVersion : Int := 0
deriving DecidableEq

namespace CTxInUndo

/-- `Serialize`: `nHeight*2+(fCoinBase ? 1 : 0)` is computed in `unsigned int`. -/
def serialize (k : Secp256k1) (u : CTxInUndo) : List UInt8 :=
  writeVarInt ((u.nHeight * 2 + if u.fCoinBase then 1 else 0) % 2 ^ 32 : Nat) ++
    (if u.nHeight > 0 then writeVarInt u.nVersion else []) ++
    CTxOutCompressor.serialize k u.txout

/-- `Unserialize`, into a fresh `CTxInUndo()`: the version keeps its `0` when no version is
stored. -/
def unserialize (k : Secp256k1) : Reader UInt8 CTxInUndo := do
  let nCode ← readVarInt 32
  let nHeight := nCode / 2
  let fCoinBase := decide (nCode &&& 1 ≠ 0)
  let nVersion ← if nHeight > 0 then toInt32 <$> readVarInt 32 else pure 0
  let txout ← CTxOutCompressor.unserialize k
  pure ⟨txout, fCoinBase, nHeight, nVersion⟩

theorem decode_nCode (nHeight : Nat) (fCoinBase : Bool) :
    (nHeight * 2 + if fCoinBase then 1 else 0) / 2 = nHeight ∧
      decide ((nHeight * 2 + if fCoinBase then 1 else 0) &&& 1 ≠ 0) = fCoinBase := by
  cases fCoinBase with
  | false => simp [Nat.and_one_is_mod]
  | true => simp [Nat.and_one_is_mod]; omega

/-- An undo record whose height fits in `31` bits, with a non-negative `int` version and an
output the compressor keeps, reads back; its version as `0` when its height is zero. -/
theorem reads_undoUnserialize {k : Secp256k1} (hk : k.DecompressInverts) {u : CTxInUndo}
    (hh : u.nHeight < 2 ^ 31) (hv : 0 ≤ u.nVersion ∧ u.nVersion < 2 ^ 31)
    (ho : u.txout.Compressible) :
    Reads (unserialize k) (u.serialize k) (if u.nHeight > 0 then u else { u with nVersion := 0 }) := by
  have hcode : (u.nHeight * 2 + if u.fCoinBase then 1 else 0) < 2 ^ 32 := by
    have : (if u.fCoinBase then 1 else 0) ≤ 1 := by split <;> omega
    omega
  obtain ⟨hheight, hcb⟩ := decode_nCode u.nHeight u.fCoinBase
  rw [serialize, Nat.mod_eq_of_lt hcode, List.append_assoc]
  refine (reads_readVarInt hcode).bind ?_
  dsimp only
  rw [hheight, hcb]
  have htxout := CTxOutCompressor.reads_txOutUnserialize hk ho
  by_cases h0 : u.nHeight > 0
  · -- the version is stored
    have hV : u.nVersion = ((u.nVersion.toNat : Nat) : Int) := (Int.toNat_of_nonneg hv.1).symm
    rw [if_pos h0, if_pos h0, if_pos h0, hV]
    refine ((reads_readVarInt (by omega : u.nVersion.toNat < 2 ^ 32)).map toInt32).bind ?_
    refine htxout.bind_pure ?_
    rw [toInt32_of_lt (by omega), ← hV]
  · rw [if_neg h0, if_neg h0, if_neg h0]
    refine (Reads.pure _).bind ?_
    exact htxout.bind_pure rfl

end CTxInUndo

/-! ### Both records -/

/-- A `Serializable` `CCoins`, and an undo record whose height fits in `31` bits, whose version
is a non-negative `int` and whose output the compressor keeps, read back from what they write,
and exactly that. -/
theorem reads_coins_and_undo (k : Secp256k1) (hk : k.DecompressInverts) :
    (∀ c : CCoins, c.Serializable →
      ∃ w, c.serialize k = some w ∧ Reads (CCoins.unserialize k) w c) ∧
    (∀ u : CTxInUndo, u.nHeight < 2 ^ 31 → 0 ≤ u.nVersion ∧ u.nVersion < 2 ^ 31 →
      u.txout.Compressible →
      Reads (CTxInUndo.unserialize k) (u.serialize k)
        (if u.nHeight > 0 then u else { u with nVersion := 0 })) :=
  ⟨fun _ hc => CCoins.reads_unserialize hk hc,
    fun _ hh hv ho => CTxInUndo.reads_undoUnserialize hk hh hv ho⟩

theorem reads_coins_and_undo_noValidKey :
    let k : Secp256k1 := ⟨fun _ => false, fun _ => none⟩
    k.DecompressInverts ∧
      Reads (CTxInUndo.unserialize k) (CTxInUndo.serialize k ⟨⟨1, []⟩, false, 1, 1⟩)
        ⟨⟨1, []⟩, false, 1, 1⟩ := by
  intro k
  have hk : k.DecompressInverts := fun _ _ _ h => by simp [k] at h
  exact ⟨hk, (reads_coins_and_undo k hk).2 _ (by decide) (by decide) (by decide)⟩

/-- A spent output other than `CTxOut()` reads back as `CTxOut()`, and an undo record of height
`2^31` has its code wrap to the coinbase bit alone, so that its version is read as the output. -/
theorem coins_and_undo_misread :
    let k : Secp256k1 := ⟨fun _ => false, fun _ => none⟩
    ((CCoins.serialize k ⟨false, [⟨-1, [0x51]⟩, ⟨1, []⟩], 1, 1⟩).bind fun w =>
        (CCoins.unserialize k).run w) = some (⟨false, [default, ⟨1, []⟩], 1, 1⟩, []) ∧
      (CTxInUndo.unserialize k).run (CTxInUndo.serialize k ⟨⟨1, []⟩, true, 2 ^ 31, 1⟩) = none := by
  decide +kernel

end Trumpow
