import Trumpow.Primitives.Transaction
import Trumpow.Script.Script
import Trumpow.Serialize.VarInt

/-!
# Coins — compressed outputs

`compressor.h` and `compressor.cpp`: `CTxOutCompressor` writes an output as the `VARINT` of
`CompressAmount` of its amount, then its script through `CScriptCompressor`.  Six special
scripts are written as one byte below `6` and the 20 or 32 bytes that determine them: pay to a
key hash (`0`), to a script hash (`1`), to a compressed public key (`2`, `3`: its first byte)
and to a fully valid uncompressed public key (`4`, `5`: the parity of `y`, then `x`).  Any
other script is written as the `VARINT` of its size plus six, then its bytes; reading back a
size above `MAX_SCRIPT_SIZE` skips the bytes and yields the script `OP_RETURN`.

The two calls into secp256k1, `CPubKey::IsFullyValid` and `CPubKey::Decompress`, are the
parameter `Secp256k1`; `Secp256k1.DecompressInverts` is what the compressor assumes of them.

Results: `decompressAmount_compressAmount` for every amount up to `MAX_MONEY`;
`reads_scriptUnserialize` for every script that is not unspendable, each special case through
`decompress_of_compress`; and `reads_txOutUnserialize` for the outputs with both.
-/

namespace Trumpow

open Codec

def COIN : Int := 100000000

/-- `MAX_MONEY`: 10,000,000,000 coins. -/
def MAX_MONEY : Int := 10000000000 * COIN

/-- The secp256k1 operations the script compressor calls: `CPubKey::IsFullyValid()` of a
65-byte key, and `CPubKey::Decompress()` of a 33-byte key, `none` when it fails. -/
structure Secp256k1 where
  isFullyValid : List UInt8 → Bool
  decompress : List UInt8 → Option (List UInt8)

/-- Decompression inverts compression: a fully valid key `04 x y` is what `02 x` or `03 x`,
by the parity of `y`, decompresses to. -/
def Secp256k1.DecompressInverts (k : Secp256k1) : Prop :=
  ∀ K : List UInt8, K.length = 65 → K.head? = some 0x04 → k.isFullyValid K = true →
    k.decompress ((0x02 ||| (K.getD 64 0 &&& 0x01)) :: (K.drop 1).take 32) = some K

/-! ### Amounts -/

namespace CTxOutCompressor

/-- `CompressAmount(n)`: with `n = m * 10^e`, `e ≤ 9` as large as possible, the last digit `d`
of `m` when `e < 9`, `1 + 10 * (9 * (m / 10) + d - 1) + e`, else `1 + 10 * (m - 1) + 9`; in
`uint64_t`. -/
def compressAmount (n : Nat) : Nat :=
  if n = 0 then 0 else
  let (n, e) := strip n 0
  if e < 9 then
    let d := n % 10
    let n := n / 10
    (1 + (n * 9 + d - 1) * 10 + e) % 2 ^ 64
  else
    (1 + (n - 1) * 10 + 9) % 2 ^ 64
where
  /-- The loop `while (n % 10 == 0 && e < 9) { n /= 10; e++; }`. -/
  strip (n e : Nat) : Nat × Nat :=
    if n % 10 = 0 ∧ e < 9 then strip (n / 10) (e + 1) else (n, e)
  termination_by 9 - e

/-- `DecompressAmount(x)`, inverting `CompressAmount`; the loop `while (e) { n *= 10; e--; }`
multiplies by `10^e`, in `uint64_t`. -/
def decompressAmount (x : Nat) : Nat :=
  if x = 0 then 0 else
  let x := x - 1
  let e := x % 10
  let x := x / 10
  let n :=
    if e < 9 then
      let d := x % 9 + 1
      let x := x / 9
      x * 10 + d
    else x + 1
  n * 10 ^ e % 2 ^ 64

/-- `CompressAmount(n)` in unbounded arithmetic: the `uint64_t` result when nothing overflows. -/
def compressAmountExact (n : Nat) : Nat :=
  if n = 0 then 0 else
  let (n, e) := compressAmount.strip n 0
  if e < 9 then 1 + (n / 10 * 9 + n % 10 - 1) * 10 + e else 1 + (n - 1) * 10 + 9

/-- What the loop of `CompressAmount` leaves: `n = m * 10^(e - e₀)`, and a last digit of `m`
that is not zero unless `e` reached `9`. -/
theorem strip_spec (n e₀ : Nat) (he₀ : e₀ ≤ 9) :
    e₀ ≤ (compressAmount.strip n e₀).2 ∧ (compressAmount.strip n e₀).2 ≤ 9 ∧
      n = (compressAmount.strip n e₀).1 * 10 ^ ((compressAmount.strip n e₀).2 - e₀) ∧
      ((compressAmount.strip n e₀).2 < 9 → (compressAmount.strip n e₀).1 % 10 ≠ 0) := by
  induction n, e₀ using compressAmount.strip.induct with
  | case1 n e h ih =>
      rw [compressAmount.strip, if_pos h]
      obtain ⟨h₁, h₂, h₃, h₄⟩ := ih (by omega)
      refine ⟨by omega, h₂, ?_, h₄⟩
      have hsub : (compressAmount.strip (n / 10) (e + 1)).2 - e =
          (compressAmount.strip (n / 10) (e + 1)).2 - (e + 1) + 1 := by omega
      rw [hsub, pow_succ, ← Nat.mul_assoc, ← h₃]
      omega
  | case2 n e h =>
      rw [compressAmount.strip, if_neg h]
      refine ⟨le_rfl, by omega, by simp, fun he => ?_⟩
      simp only at he ⊢
      omega

/-- Up to `MAX_MONEY`, `CompressAmount` does not overflow. -/
theorem compressAmount_eq_exact {n : Nat} (hn : n ≤ 10 ^ 18) :
    compressAmount n = compressAmountExact n ∧ compressAmountExact n < 2 ^ 64 := by
  by_cases h0 : n = 0
  · subst h0
    exact ⟨rfl, by decide⟩
  obtain ⟨-, he9, hn', hd⟩ := strip_spec n 0 (by omega)
  generalize hs : compressAmount.strip n 0 = s at hn' hd he9
  obtain ⟨m, e⟩ := s
  simp only [Nat.sub_zero] at hn' hd he9
  have hpow : 1 ≤ 10 ^ e := Nat.one_le_pow _ _ (by omega)
  have hmn : m ≤ n := by rw [hn']; exact Nat.le_mul_of_pos_right m hpow
  rw [compressAmount, compressAmountExact, if_neg h0, if_neg h0, hs]
  dsimp only
  split_ifs with he
  · have hcode : 1 + (m / 10 * 9 + m % 10 - 1) * 10 + e < 2 ^ 64 := by omega
    exact ⟨Nat.mod_eq_of_lt hcode, hcode⟩
  · have hcode : 1 + (m - 1) * 10 + 9 < 2 ^ 64 := by omega
    exact ⟨Nat.mod_eq_of_lt hcode, hcode⟩

theorem compressAmount_lt (n : Nat) : compressAmount n < 2 ^ 64 := by
  rw [compressAmount]
  split
  · positivity
  · split
    split <;> exact Nat.mod_lt _ (by positivity)

/-- Every amount up to `MAX_MONEY` decompresses back. -/
theorem decompressAmount_compressAmount {n : Nat} (hn : n ≤ 10 ^ 18) :
    decompressAmount (compressAmount n) = n := by
  by_cases h0 : n = 0
  · subst h0
    rfl
  obtain ⟨-, he9, hn', hd⟩ := strip_spec n 0 (by omega)
  generalize hs : compressAmount.strip n 0 = s at hn' hd he9
  obtain ⟨m, e⟩ := s
  simp only [Nat.sub_zero] at hn' hd he9
  have hm : 0 < m := Nat.pos_of_ne_zero fun hm => h0 (by rw [hn', hm, Nat.zero_mul])
  have hpow : 1 ≤ 10 ^ e := Nat.one_le_pow _ _ (by omega)
  have hmn : m ≤ n := by rw [hn']; exact Nat.le_mul_of_pos_right m hpow
  have hbound : n < 2 ^ 64 := by omega
  rw [compressAmount, if_neg h0, hs]
  by_cases he : e < 9
  · -- `m` ends in a digit `d` from `1` to `9`
    simp only [if_pos he]
    have hd' := hd he
    have hcode : 1 + (m / 10 * 9 + m % 10 - 1) * 10 + e < 2 ^ 64 := by omega
    rw [Nat.mod_eq_of_lt hcode, decompressAmount, if_neg (by omega)]
    have hx : (1 + (m / 10 * 9 + m % 10 - 1) * 10 + e - 1) % 10 = e := by omega
    have hq : (1 + (m / 10 * 9 + m % 10 - 1) * 10 + e - 1) / 10 = m / 10 * 9 + m % 10 - 1 := by
      omega
    simp only [hx, hq, if_pos he]
    have hdig : (m / 10 * 9 + m % 10 - 1) % 9 + 1 = m % 10 := by omega
    have hquo : (m / 10 * 9 + m % 10 - 1) / 9 = m / 10 := by omega
    rw [hdig, hquo, show m / 10 * 10 + m % 10 = m by omega, ← hn', Nat.mod_eq_of_lt hbound]
  · -- nine zeros stripped
    have he' : e = 9 := by omega
    subst he'
    simp only [if_neg he]
    have hcode : 1 + (m - 1) * 10 + 9 < 2 ^ 64 := by omega
    rw [Nat.mod_eq_of_lt hcode, decompressAmount, if_neg (by omega)]
    have hx : (1 + (m - 1) * 10 + 9 - 1) % 10 = 9 := by omega
    have hq : (1 + (m - 1) * 10 + 9 - 1) / 10 = m - 1 := by omega
    simp only [hx, hq, lt_irrefl, if_false]
    rw [show m - 1 + 1 = m by omega, ← hn', Nat.mod_eq_of_lt hbound]

end CTxOutCompressor

/-! ### Scripts -/

namespace CScriptCompressor

def nSpecialScripts : Nat := 6

/-- `IsToKeyID`: `OP_DUP OP_HASH160 20 <hash> OP_EQUALVERIFY OP_CHECKSIG`, and its hash. -/
def isToKeyID (script : List UInt8) : Option (List UInt8) :=
  if script.length = 25 ∧ script.getD 0 0 = OP_DUP ∧ script.getD 1 0 = OP_HASH160 ∧
      script.getD 2 0 = 20 ∧ script.getD 23 0 = OP_EQUALVERIFY ∧
      script.getD 24 0 = OP_CHECKSIG then
    some ((script.drop 3).take 20)
  else none

/-- `IsToScriptID`: `OP_HASH160 20 <hash> OP_EQUAL`, and its hash. -/
def isToScriptID (script : List UInt8) : Option (List UInt8) :=
  if script.length = 23 ∧ script.getD 0 0 = OP_HASH160 ∧ script.getD 1 0 = 20 ∧
      script.getD 22 0 = OP_EQUAL then
    some ((script.drop 2).take 20)
  else none

/-- `IsToPubKey`: `33 <02 or 03, x> OP_CHECKSIG`, or `65 <04, x, y> OP_CHECKSIG` with a fully
valid key, and the key. -/
def isToPubKey (k : Secp256k1) (script : List UInt8) : Option (List UInt8) :=
  if script.length = 35 ∧ script.getD 0 0 = 33 ∧ script.getD 34 0 = OP_CHECKSIG ∧
      (script.getD 1 0 = 0x02 ∨ script.getD 1 0 = 0x03) then
    some ((script.drop 1).take 33)
  else if script.length = 67 ∧ script.getD 0 0 = 65 ∧ script.getD 66 0 = OP_CHECKSIG ∧
      script.getD 1 0 = 0x04 then
    -- if not fully valid, a case that would not be compressible
    if k.isFullyValid ((script.drop 1).take 65) then some ((script.drop 1).take 65) else none
  else none

/-- `Compress(out)`: the special byte and the 20 or 32 bytes, for a special script. -/
def compress (k : Secp256k1) (script : List UInt8) : Option (List UInt8) :=
  match isToKeyID script with
  | some hash => some (0x00 :: hash)
  | none =>
    match isToScriptID script with
    | some hash => some (0x01 :: hash)
    | none =>
      match isToPubKey k script with
      | some pubkey =>
        if pubkey.getD 0 0 = 0x02 ∨ pubkey.getD 0 0 = 0x03 then
          some (pubkey.getD 0 0 :: (pubkey.drop 1).take 32)
        else if pubkey.getD 0 0 = 0x04 then
          some ((0x04 ||| (pubkey.getD 64 0 &&& 0x01)) :: (pubkey.drop 1).take 32)
        else none
      | none => none

/-- `GetSpecialSize(nSize)`: how many bytes follow a special byte. -/
def getSpecialSize (nSize : Nat) : Nat :=
  if nSize = 0 ∨ nSize = 1 then 20
  else if nSize = 2 ∨ nSize = 3 ∨ nSize = 4 ∨ nSize = 5 then 32
  else 0

/-- `Decompress(nSize, in)`: the special script of `nSize` and its bytes `input`; `none` where
the source returns `false`. -/
def decompress (k : Secp256k1) (nSize : Nat) (input : List UInt8) : Option (List UInt8) :=
  match nSize with
  | 0x00 => some ([OP_DUP, OP_HASH160, 20] ++ input.take 20 ++ [OP_EQUALVERIFY, OP_CHECKSIG])
  | 0x01 => some ([OP_HASH160, 20] ++ input.take 20 ++ [OP_EQUAL])
  | 0x02 | 0x03 => some ([33, UInt8.ofNat nSize] ++ input.take 32 ++ [OP_CHECKSIG])
  | 0x04 | 0x05 =>
    -- the decompressed key has 65 bytes (the source asserts it)
    (k.decompress (UInt8.ofNat (nSize - 2) :: input.take 32)).map fun pubkey =>
      65 :: pubkey ++ [OP_CHECKSIG]
  | _ => none

/-- `CScriptCompressor::Serialize`. -/
def serialize (k : Secp256k1) (script : List UInt8) : List UInt8 :=
  match compress k script with
  | some compr => compr
  | none =>
    let nSize : Nat := (script.length + nSpecialScripts) % 2 ^ 32
    writeVarInt nSize ++ script

/-- `CScriptCompressor::Unserialize`, into a fresh (empty) script: a failed decompression
leaves it empty, and `script << OP_RETURN` makes it `OP_RETURN`. -/
def unserialize (k : Secp256k1) : Reader UInt8 (List UInt8) := do
  let nSize ← readVarInt 32
  if nSize < nSpecialScripts then
    let vch ← readTokens (getSpecialSize nSize)
    pure ((decompress k nSize vch).getD [])
  else
    let nSize := nSize - nSpecialScripts
    if nSize > MAX_SCRIPT_SIZE then
      -- overly long script, replace with a short invalid one
      let _ ← readTokens nSize
      pure [OP_RETURN]
    else
      readTokens nSize

/-! ### The special scripts read back -/

theorem isToKeyID_spec {script hash : List UInt8} (h : isToKeyID script = some hash) :
    hash.length = 20 ∧ script = [OP_DUP, OP_HASH160, 20] ++ hash ++ [OP_EQUALVERIFY, OP_CHECKSIG] := by
  rw [isToKeyID] at h
  split_ifs at h with hs
  obtain ⟨hlen, h0, h1, h2, h23, h24⟩ := hs
  cases h
  refine ⟨by simp [hlen], eq_frame 0 (by simp [hlen]) ?_ ?_⟩
  · intro i hi
    simp only [List.length_cons, List.length_nil] at hi
    interval_cases i
    · simpa using h0
    · simpa using h1
    · simpa using h2
  · intro i hi
    simp only [List.length_cons, List.length_nil] at hi
    interval_cases i
    · simpa using h23
    · simpa using h24

theorem isToScriptID_spec {script hash : List UInt8} (h : isToScriptID script = some hash) :
    hash.length = 20 ∧ script = [OP_HASH160, 20] ++ hash ++ [OP_EQUAL] := by
  rw [isToScriptID] at h
  split_ifs at h with hs
  obtain ⟨hlen, h0, h1, h22⟩ := hs
  cases h
  refine ⟨by simp [hlen], eq_frame 0 (by simp [hlen]) ?_ ?_⟩
  · intro i hi
    simp only [List.length_cons, List.length_nil] at hi
    interval_cases i
    · simpa using h0
    · simpa using h1
  · intro i hi
    simp only [List.length_cons, List.length_nil] at hi
    interval_cases i
    simpa using h22

/-- The two kinds of keys `IsToPubKey` finds, with the scripts they come from. -/
theorem isToPubKey_spec {k : Secp256k1} {script pubkey : List UInt8}
    (h : isToPubKey k script = some pubkey) :
    script = [33] ++ pubkey ++ [OP_CHECKSIG] ∧ pubkey.length = 33 ∧
        (pubkey.getD 0 0 = 0x02 ∨ pubkey.getD 0 0 = 0x03) ∨
      script = [65] ++ pubkey ++ [OP_CHECKSIG] ∧ pubkey.length = 65 ∧ pubkey.getD 0 0 = 0x04 ∧
        k.isFullyValid pubkey = true := by
  rw [isToPubKey] at h
  split_ifs at h with hs hl hv
  · obtain ⟨hlen, h0, h34, h1⟩ := hs
    cases h
    refine Or.inl ⟨eq_frame 0 (by simp [hlen]) ?_ ?_, by simp [hlen], ?_⟩
    · intro i hi
      simp only [List.length_cons, List.length_nil] at hi
      interval_cases i
      simpa using h0
    · intro i hi
      simp only [List.length_cons, List.length_nil] at hi
      interval_cases i
      simpa using h34
    · simpa using h1
  · obtain ⟨hlen, h0, h66, h1⟩ := hl
    cases h
    refine Or.inr ⟨eq_frame 0 (by simp [hlen]) ?_ ?_, by simp [hlen], by simpa using h1, hv⟩
    · intro i hi
      simp only [List.length_cons, List.length_nil] at hi
      interval_cases i
      simpa using h0
    · intro i hi
      simp only [List.length_cons, List.length_nil] at hi
      interval_cases i
      simpa using h66

/-- The parity byte of an uncompressed key, read back as a special size, gives the first byte of
the compressed key. -/
theorem parity_byte (y : UInt8) :
    (0x04 ||| (y &&& 0x01)).toNat < 6 ∧ 3 < (0x04 ||| (y &&& 0x01)).toNat ∧
      UInt8.ofNat ((0x04 ||| (y &&& 0x01)).toNat - 2) = 0x02 ||| (y &&& 0x01) := by
  have hbit : y &&& 0x01 = 0 ∨ y &&& 0x01 = 1 := by
    have h : (y &&& 0x01).toNat = y.toNat % 2 := by
      rw [UInt8.toNat_and, show (0x01 : UInt8).toNat = 1 from rfl, Nat.and_one_is_mod]
    rcases Nat.mod_two_eq_zero_or_one y.toNat with h' | h'
    · exact Or.inl (UInt8.toNat_inj.mp (by rw [h, h']; rfl))
    · exact Or.inr (UInt8.toNat_inj.mp (by rw [h, h']; rfl))
  rcases hbit with h | h <;> rw [h] <;> decide

/-- A compressed script is a special byte, its bytes, and what they decompress to. -/
theorem decompress_of_compress {k : Secp256k1} (hk : k.DecompressInverts) {script compr : List UInt8}
    (h : compress k script = some compr) :
    ∃ b rest, compr = b :: rest ∧ b.toNat < nSpecialScripts ∧
      rest.length = getSpecialSize b.toNat ∧ decompress k b.toNat rest = some script := by
  rw [compress] at h
  split at h
  · -- pay to a key hash
    rename_i hash hkey
    cases h
    obtain ⟨hlen, rfl⟩ := isToKeyID_spec hkey
    exact ⟨0x00, hash, rfl, by decide, by simp [hlen, getSpecialSize], by simp [decompress, hlen]⟩
  split at h
  · -- pay to a script hash
    rename_i hash hscript
    cases h
    obtain ⟨hlen, rfl⟩ := isToScriptID_spec hscript
    exact ⟨0x01, hash, rfl, by decide, by simp [hlen, getSpecialSize], by simp [decompress, hlen]⟩
  split at h
  · rename_i pubkey hpub
    have hrest : ∀ n, n = 33 ∨ n = 65 → pubkey.length = n →
        ((pubkey.drop 1).take 32).length = 32 := by
      rintro n (rfl | rfl) hn <;> simp [hn]
    split_ifs at h with h23 h4
    · -- a compressed key: its first byte is the special byte
      cases h
      rcases isToPubKey_spec hpub with ⟨rfl, hlen, -⟩ | ⟨-, -, h0, -⟩
      · refine ⟨pubkey.getD 0 0, (pubkey.drop 1).take 32, rfl, ?_, ?_, ?_⟩
        · rcases h23 with h | h <;> rw [h] <;> decide
        · rw [hrest 33 (Or.inl rfl) hlen]
          rcases h23 with h | h <;> rw [h] <;> decide
        · have hkey : pubkey = pubkey.getD 0 0 :: (pubkey.drop 1).take 32 := by
            obtain ⟨x, xs, rfl⟩ := List.exists_cons_of_length_eq_add_one hlen
            simp_all
          have hsize : ∀ b : UInt8, b = 0x02 ∨ b = 0x03 →
              decompress k b.toNat ((pubkey.drop 1).take 32) =
                some ([33, b] ++ (pubkey.drop 1).take 32 ++ [OP_CHECKSIG]) := by
            rintro b (rfl | rfl) <;> simp [decompress]
          rw [hsize _ h23]
          conv_rhs => rw [hkey]
          simp
      · rcases h23 with h | h <;> rw [h] at h0 <;> exact absurd h0 (by decide)
    · -- an uncompressed key: the parity of `y`, and `x`
      cases h
      rcases isToPubKey_spec hpub with ⟨-, -, h23'⟩ | ⟨rfl, hlen, h0, hvalid⟩
      · exact absurd h23' h23
      · obtain ⟨hlt, hgt, hbyte⟩ := parity_byte (pubkey.getD 64 0)
        refine ⟨_, (pubkey.drop 1).take 32, rfl, hlt, ?_, ?_⟩
        · rw [hrest 65 (Or.inr rfl) hlen, getSpecialSize, if_neg (by omega), if_pos (by omega)]
        · have hcase : ∀ n (input : List UInt8), 3 < n → n < 6 → decompress k n input =
              (k.decompress (UInt8.ofNat (n - 2) :: input.take 32)).map fun pubkey =>
                65 :: pubkey ++ [OP_CHECKSIG] := by
            intro n input h3 h6
            obtain rfl | rfl : n = 4 ∨ n = 5 := by omega
            · simp [decompress]
            · simp [decompress]
          have hhead : pubkey.head? = some 0x04 := by
            obtain ⟨x, xs, rfl⟩ := List.exists_cons_of_length_eq_add_one hlen
            simpa using h0
          rw [hcase _ _ hgt hlt, List.take_take, min_self, hbyte, hk pubkey hlen hhead hvalid]
          simp
  · cases h

/-- The four kinds of special scripts: pay to a key hash, to a script hash, to a compressed key,
and to a fully valid uncompressed key. -/
def IsSpecial (k : Secp256k1) (script : List UInt8) : Prop :=
  (∃ hash : List UInt8, hash.length = 20 ∧
    script = [OP_DUP, OP_HASH160, 20] ++ hash ++ [OP_EQUALVERIFY, OP_CHECKSIG]) ∨
  (∃ hash : List UInt8, hash.length = 20 ∧ script = [OP_HASH160, 20] ++ hash ++ [OP_EQUAL]) ∨
  (∃ x : List UInt8, x.length = 32 ∧ ∃ b : UInt8, (b = 0x02 ∨ b = 0x03) ∧
    script = [33, b] ++ x ++ [OP_CHECKSIG]) ∨
  (∃ pubkey : List UInt8, pubkey.length = 65 ∧ pubkey.head? = some 0x04 ∧
    k.isFullyValid pubkey = true ∧ script = [65] ++ pubkey ++ [OP_CHECKSIG])

theorem isToKeyID_frame {hash : List UInt8} (hlen : hash.length = 20) :
    isToKeyID ([OP_DUP, OP_HASH160, 20] ++ hash ++ [OP_EQUALVERIFY, OP_CHECKSIG]) = some hash := by
  have h23 := getD_append_frame [OP_DUP, OP_HASH160, 20] hash [OP_EQUALVERIFY, OP_CHECKSIG] 0 0
  have h24 := getD_append_frame [OP_DUP, OP_HASH160, 20] hash [OP_EQUALVERIFY, OP_CHECKSIG] 1 0
  simp only [List.length_cons, List.length_nil, hlen] at h23 h24
  rw [isToKeyID, if_pos ⟨by simp [hlen], rfl, rfl, rfl, h23, h24⟩]
  simp [List.take_left' hlen]

theorem isToScriptID_frame {hash : List UInt8} (hlen : hash.length = 20) :
    isToScriptID ([OP_HASH160, 20] ++ hash ++ [OP_EQUAL]) = some hash := by
  have h22 := getD_append_frame [OP_HASH160, 20] hash [OP_EQUAL] 0 0
  simp only [List.length_cons, List.length_nil, hlen] at h22
  rw [isToScriptID, if_pos ⟨by simp [hlen], rfl, rfl, h22⟩]
  simp [List.take_left' hlen]

theorem isToPubKey_compressed (k : Secp256k1) {x : List UInt8} (hx : x.length = 32) {b : UInt8}
    (hb : b = 0x02 ∨ b = 0x03) : isToPubKey k ([33, b] ++ x ++ [OP_CHECKSIG]) = some (b :: x) := by
  have h34 := getD_append_frame [33, b] x [OP_CHECKSIG] 0 0
  simp only [List.length_cons, List.length_nil, hx] at h34
  rw [isToPubKey, if_pos ⟨by simp [hx], rfl, h34, hb⟩]
  simp [List.take_left' hx]

theorem isToPubKey_uncompressed (k : Secp256k1) {pubkey : List UInt8} (hlen : pubkey.length = 65)
    (h0 : pubkey.head? = some 0x04) (hvalid : k.isFullyValid pubkey = true) :
    isToPubKey k ([65] ++ pubkey ++ [OP_CHECKSIG]) = some pubkey := by
  have h66 := getD_append_frame [65] pubkey [OP_CHECKSIG] 0 0
  simp only [List.length_cons, List.length_nil, hlen] at h66
  obtain ⟨y, ys, rfl⟩ := List.exists_cons_of_length_eq_add_one hlen
  simp only [List.head?_cons, Option.some.injEq] at h0
  subst h0
  rw [isToPubKey, if_neg (by simp_all), if_pos ⟨by simp_all, rfl, h66, rfl⟩]
  simp_all [List.take_left']

/-- `Compress` writes a special script exactly for the four kinds. -/
theorem compress_isSome_iff (k : Secp256k1) (script : List UInt8) :
    (compress k script).isSome ↔ IsSpecial k script := by
  constructor
  · intro h
    rw [compress] at h
    split at h
    · exact Or.inl ⟨_, isToKeyID_spec ‹_›⟩
    split at h
    · exact Or.inr (Or.inl ⟨_, isToScriptID_spec ‹_›⟩)
    split at h
    · rename_i pubkey hpub
      rcases isToPubKey_spec hpub with ⟨rfl, hlen, h23⟩ | ⟨rfl, hlen, h0, hvalid⟩
      · -- a compressed key: its first byte, then `x`
        obtain ⟨b, x, rfl⟩ := List.exists_cons_of_length_eq_add_one hlen
        exact Or.inr (Or.inr (Or.inl ⟨x, by simpa using hlen, b, by simpa using h23, rfl⟩))
      · have hhead : pubkey.head? = some 0x04 := by
          obtain ⟨y, ys, rfl⟩ := List.exists_cons_of_length_eq_add_one hlen
          simpa using h0
        exact Or.inr (Or.inr (Or.inr ⟨pubkey, hlen, hhead, hvalid, rfl⟩))
    · simp at h
  · rintro (⟨hash, hlen, rfl⟩ | ⟨hash, hlen, rfl⟩ | ⟨x, hx, b, hb, rfl⟩ |
      ⟨pubkey, hlen, h0, hvalid, rfl⟩)
    · rw [compress, isToKeyID_frame hlen]
      rfl
    · -- not a key hash script: it has 23 bytes
      have hkey : isToKeyID ([OP_HASH160, 20] ++ hash ++ [OP_EQUAL]) = none := by
        rw [isToKeyID, if_neg (by simp [hlen])]
      rw [compress, hkey, isToScriptID_frame hlen]
      rfl
    · have hkey : isToKeyID ([33, b] ++ x ++ [OP_CHECKSIG]) = none := by
        rw [isToKeyID, if_neg (by simp [hx])]
      have hscript : isToScriptID ([33, b] ++ x ++ [OP_CHECKSIG]) = none := by
        rw [isToScriptID, if_neg (by simp [hx])]
      rw [compress, hkey, hscript, isToPubKey_compressed k hx hb]
      simp [hb]
    · have hkey : isToKeyID ([65] ++ pubkey ++ [OP_CHECKSIG]) = none := by
        rw [isToKeyID, if_neg (by simp [hlen])]
      have hscript : isToScriptID ([65] ++ pubkey ++ [OP_CHECKSIG]) = none := by
        rw [isToScriptID, if_neg (by simp [hlen])]
      rw [compress, hkey, hscript, isToPubKey_uncompressed k hlen h0 hvalid]
      obtain ⟨y, ys, rfl⟩ := List.exists_cons_of_length_eq_add_one hlen
      simp only [List.head?_cons, Option.some.injEq] at h0
      subst h0
      rfl

instance (k : Secp256k1) (script : List UInt8) : Decidable (IsSpecial k script) :=
  decidable_of_iff _ (compress_isSome_iff k script)

/-- The byte of a special size reads back as a `VARINT`. -/
theorem reads_readVarInt_special {b : UInt8} (hb : b.toNat < nSpecialScripts) :
    Reads (readVarInt 32) [b] b.toNat := by
  have hw : writeVarInt b.toNat = [b] := by
    have h : ∀ i : Fin 6, writeVarInt (i.val : Nat) = [UInt8.ofNat i.val] := by decide +kernel
    have := h ⟨b.toNat, by simpa [nSpecialScripts] using hb⟩
    simpa using this
  exact hw ▸ reads_readVarInt (by simp [nSpecialScripts] at hb; omega)

/-- A script of at most `MAX_SCRIPT_SIZE` bytes reads back. -/
theorem reads_scriptUnserialize_of_length_le {k : Secp256k1} (hk : k.DecompressInverts)
    {script : List UInt8} (hsize : script.length ≤ MAX_SCRIPT_SIZE) :
    Reads (unserialize k) (serialize k script) script := by
  rw [serialize]
  split
  · -- a special script
    rename_i compr hcompr
    obtain ⟨b, rest, rfl, hb, hlen, hdec⟩ := decompress_of_compress hk hcompr
    refine (reads_readVarInt_special hb).bind ?_
    rw [if_pos hb]
    have hread : Reads (readTokens (getSpecialSize b.toNat) : Reader UInt8 (List UInt8)) rest rest :=
      hlen ▸ reads_readTokens rest
    refine (Reads.bind (f := fun vch => pure ((decompress k b.toNat vch).getD [])) hread
      (Reads.pure _)).congr (List.append_nil _) ?_
    rw [hdec]
    rfl
  · -- the size plus six, then the bytes
    have hlt : script.length + nSpecialScripts < 2 ^ 32 := by
      simp only [MAX_SCRIPT_SIZE, nSpecialScripts] at hsize ⊢
      omega
    rw [Nat.mod_eq_of_lt hlt]
    refine (reads_readVarInt hlt).bind ?_
    rw [if_neg (by omega), Nat.add_sub_cancel, if_neg (by omega)]
    exact reads_readTokens script

/-- A script that is not unspendable reads back. -/
theorem reads_scriptUnserialize {k : Secp256k1} (hk : k.DecompressInverts) {script : List UInt8}
    (hs : ¬ IsUnspendable script) : Reads (unserialize k) (serialize k script) script := by
  simp only [IsUnspendable, not_or, not_lt] at hs
  exact reads_scriptUnserialize_of_length_le hk hs.2

end CScriptCompressor

/-! ### Outputs -/

/-- An output `CTxOutCompressor` writes and reads back: an amount from `0` to `MAX_MONEY`, and
a script that is not unspendable. -/
def CTxOut.Compressible (txout : CTxOut) : Prop :=
  0 ≤ txout.nValue ∧ txout.nValue ≤ MAX_MONEY ∧ ¬ IsUnspendable txout.scriptPubKey

instance : DecidablePred CTxOut.Compressible := fun txout =>
  inferInstanceAs (Decidable (0 ≤ txout.nValue ∧ txout.nValue ≤ MAX_MONEY ∧
    ¬ IsUnspendable txout.scriptPubKey))

namespace CTxOutCompressor

/-- `CTxOutCompressor` writing `txout`: the amount as a `uint64_t`. -/
def serialize (k : Secp256k1) (txout : CTxOut) : List UInt8 :=
  writeVarInt (compressAmount (txout.nValue % 2 ^ 64).toNat) ++
    CScriptCompressor.serialize k txout.scriptPubKey

/-- `CTxOutCompressor` reading into a fresh `CTxOut`: the amount back as a `CAmount`. -/
def unserialize (k : Secp256k1) : Reader UInt8 CTxOut := do
  let nVal ← readVarInt 64
  let scriptPubKey ← CScriptCompressor.unserialize k
  pure ⟨toInt64 (decompressAmount nVal), scriptPubKey⟩

/-- A compressible output reads back. -/
theorem reads_txOutUnserialize {k : Secp256k1} (hk : k.DecompressInverts) {txout : CTxOut}
    (htxout : txout.Compressible) : Reads (unserialize k) (serialize k txout) txout := by
  obtain ⟨nValue, scriptPubKey⟩ := txout
  obtain ⟨hv₀, hv₁, hs⟩ := htxout
  have hv : 0 ≤ nValue ∧ nValue ≤ 10000000000 * 100000000 := ⟨hv₀, hv₁⟩
  have hmod : (nValue % 2 ^ 64).toNat = nValue.toNat := by
    rw [Int.emod_eq_of_lt hv.1 (by omega)]
  have hscript : Reads (CScriptCompressor.unserialize k >>= fun scriptPubKey =>
        pure (⟨toInt64 (decompressAmount (compressAmount nValue.toNat)), scriptPubKey⟩ : CTxOut))
      (CScriptCompressor.serialize k scriptPubKey) ⟨nValue, scriptPubKey⟩ := by
    refine (Reads.bind (f := fun scriptPubKey =>
      pure (⟨toInt64 (decompressAmount (compressAmount nValue.toNat)), scriptPubKey⟩ : CTxOut))
      (CScriptCompressor.reads_scriptUnserialize hk hs) (Reads.pure _)).congr (List.append_nil _) ?_
    rw [decompressAmount_compressAmount (by omega), toInt64_of_lt (by omega),
      Int.toNat_of_nonneg hv.1]
  rw [serialize, hmod]
  exact (reads_readVarInt (compressAmount_lt _)).bind hscript

end CTxOutCompressor

/-- The compressors are exact: every amount up to `MAX_MONEY` is compressed without overflow and
decompresses back; every script of at most `MAX_SCRIPT_SIZE` bytes reads back; and the special
encodings are used exactly for the four kinds of special scripts.  Decompression of keys is
assumed to invert compression. -/
theorem compressor_roundtrip (k : Secp256k1) (hk : k.DecompressInverts) :
    (∀ n : Nat, (n : Int) ≤ MAX_MONEY →
      CTxOutCompressor.compressAmount n = CTxOutCompressor.compressAmountExact n ∧
        CTxOutCompressor.compressAmountExact n < 2 ^ 64 ∧
        CTxOutCompressor.decompressAmount (CTxOutCompressor.compressAmount n) = n) ∧
    (∀ script : List UInt8, script.length ≤ MAX_SCRIPT_SIZE →
      Reads (CScriptCompressor.unserialize k) (CScriptCompressor.serialize k script) script) ∧
    (∀ script : List UInt8,
      (CScriptCompressor.compress k script).isSome ↔ CScriptCompressor.IsSpecial k script) := by
  refine ⟨fun n hn => ?_, fun script hsize =>
    CScriptCompressor.reads_scriptUnserialize_of_length_le hk hsize,
    CScriptCompressor.compress_isSome_iff k⟩
  have hn' : n ≤ 10 ^ 18 := by
    simp only [MAX_MONEY, COIN] at hn
    omega
  obtain ⟨hexact, hlt⟩ := CTxOutCompressor.compressAmount_eq_exact hn'
  exact ⟨hexact, hlt, CTxOutCompressor.decompressAmount_compressAmount hn'⟩

/-- With no key fully valid, decompression trivially inverts compression. -/
theorem compressor_roundtrip_no_valid_keys :
    let k : Secp256k1 := ⟨fun _ => false, fun _ => none⟩
    k.DecompressInverts ∧
      CTxOutCompressor.decompressAmount (CTxOutCompressor.compressAmount (10 ^ 18)) = 10 ^ 18 := by
  intro k
  have hk : k.DecompressInverts := by
    intro K _ _ hvalid
    cases hvalid
  exact ⟨hk, ((compressor_roundtrip k hk).1 (10 ^ 18) (by decide)).2.2⟩

end Trumpow
