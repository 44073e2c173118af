import Trumpow.Serialize.Stream

/-!
# Serialize — `VARINT`

`serialize.h` writes a `VARINT` as the base-128 digits of the number, most significant first,
every byte but the last with the bit `0x80` set and every digit but the last one less than its
value (so that each number has one encoding).  `WriteVarInt` computes the digits least
significant first into `tmp` and writes `tmp` backwards; `ReadVarInt<I>` shifts them into an
`I`, whose arithmetic wraps modulo `2^w` for a `w`-bit `I`.

A non-negative number below `2^w` reads back (`reads_readVarInt`).  An `int32_t` or `int64_t`
written as its bits reads back through `toInt32` or `toInt64` (`toInt32_toNat_emod`), and
bits read so are written back as themselves (`toNat_emod_toInt32`).  The digits of a
continuation prefix read back as one more than the number they encode (`readVarInt_go_tmp`),
and the last digit completes it.
-/

namespace Trumpow

open Codec

/-- `WriteVarInt(os, n)`: `tmp` holds the digits least significant first, `tmp[0]` without the
bit `0x80`; they are written from `tmp[len]` down.  `n & 0x7F` is `n % 128` and `n >> 7` is
`n / 128` (the two's complement reading for a negative `n`, which stops at once). -/
def writeVarInt (n : Int) : List UInt8 := (tmp n 0).reverse
where
  /-- `tmp[len]`, `tmp[len + 1]`, …: the loop from its iteration `len` on. -/
  tmp (n : Int) (len : Nat) : List UInt8 :=
    let digit : UInt8 := UInt8.ofNat ((n % 128).toNat ||| if len = 0 then 0 else 0x80)
    if n ≤ 0x7F then [digit] else digit :: tmp (n / 128 - 1) (len + 1)
  termination_by n.toNat
  decreasing_by omega

example : writeVarInt (2 ^ 32) = [0x8E, 0xFE, 0xFE, 0xFF, 0x00] := by decide +kernel

/-- `ReadVarInt<I>(is)` for an `I` of `w` bits: each byte's low seven bits are shifted in, and
one is added after a byte with the bit `0x80`, which announces another byte. -/
def readVarInt (w : Nat) : Reader UInt8 Nat := fun s => go w 0 s
where
  go (w n : Nat) : List UInt8 → Option (Nat × List UInt8)
    | [] => none
    | chData :: s =>
      let n := ((n <<< 7) ||| (chData.toNat &&& 0x7F)) % 2 ^ w
      if chData.toNat &&& 0x80 ≠ 0 then go w ((n + 1) % 2 ^ w) s else some (n, s)

/-- `GetSizeOfVarInt(n)`: the loop counts the digits of `WriteVarInt`. -/
def GetSizeOfVarInt (n : Int) : Nat :=
  if n ≤ 0x7F then 1 else 1 + GetSizeOfVarInt (n / 128 - 1)
termination_by n.toNat
decreasing_by omega

/-- An `int` read from its 32 bits, in two's complement. -/
def toInt32 (n : Nat) : Int := if n < 2 ^ 31 then n else n - 2 ^ 32

/-- An `int64_t` from its 64 bits, in two's complement. -/
def toInt64 (n : Nat) : Int := if n < 2 ^ 63 then n else n - 2 ^ 64

theorem toInt32_of_lt {n : Nat} (h : n < 2 ^ 31) : toInt32 n = n := if_pos h

theorem toInt64_of_lt {n : Nat} (h : n < 2 ^ 63) : toInt64 n = n := if_pos h

/-- An `int32_t` written as its 32 bits reads back as itself. -/
theorem toInt32_toNat_emod {v : Int} (h : -2 ^ 31 ≤ v ∧ v < 2 ^ 31) :
    toInt32 (v % 2 ^ 32).toNat = v := by
  unfold toInt32
  split_ifs <;> omega

theorem toInt64_toNat_emod {v : Int} (h : -2 ^ 63 ≤ v ∧ v < 2 ^ 63) :
    toInt64 (v % 2 ^ 64).toNat = v := by
  unfold toInt64
  split_ifs <;> omega

/-- 32 bits read as an `int32_t` are written back as themselves. -/
theorem toNat_emod_toInt32 {n : Nat} (h : n < 2 ^ 32) : (toInt32 n % 2 ^ 32).toNat = n := by
  unfold toInt32
  split_ifs <;> omega

theorem toNat_emod_toInt64 {n : Nat} (h : n < 2 ^ 64) : (toInt64 n % 2 ^ 64).toNat = n := by
  unfold toInt64
  split_ifs <;> omega

/-! ### The digits -/

section Digits

theorem tmp_of_le {n : Int} (len : Nat) (h : n ≤ 0x7F) :
    writeVarInt.tmp n len =
      [UInt8.ofNat ((n % 128).toNat ||| if len = 0 then 0 else 0x80)] := by
  rw [writeVarInt.tmp, if_pos h]

theorem tmp_of_lt {n : Int} (len : Nat) (h : 0x7F < n) :
    writeVarInt.tmp n len =
      UInt8.ofNat ((n % 128).toNat ||| if len = 0 then 0 else 0x80) ::
        writeVarInt.tmp (n / 128 - 1) (len + 1) := by
  rw [writeVarInt.tmp, if_neg (by omega)]

/-- A digit below `128`, with the bit `0x80` or without it. -/
theorem toNat_digit {d : Nat} (hd : d < 128) (c : Bool) :
    (UInt8.ofNat (d ||| if c then 0x80 else 0)).toNat = d + if c then 128 else 0 := by
  have h : ∀ i : Fin 128, ∀ c : Bool,
      (i.val ||| if c then 0x80 else 0) = i.val + if c then 128 else 0 := by
    decide
  rw [UInt8.toNat_ofNat', h ⟨d, hd⟩ c]
  cases c <;> simp <;> omega

theorem low_bits_digit {d : Nat} (hd : d < 128) (c : Bool) :
    (d + if c then 128 else 0) &&& 0x7F = d ∧ ((d + if c then 128 else 0) &&& 0x80 ≠ 0 ↔ c) := by
  have h : ∀ i : Fin 128, ∀ c : Bool,
      (i.val + if c then 128 else 0) &&& 0x7F = i.val ∧
        ((i.val + if c then 128 else 0) &&& 0x80 ≠ 0 ↔ c) := by
    decide
  exact h ⟨d, hd⟩ c

theorem shiftLeft_or_digit (a : Nat) {d : Nat} (hd : d < 128) : (a <<< 7) ||| d = a * 128 + d := by
  rw [Nat.shiftLeft_eq, Nat.mul_comm, ← Nat.two_pow_add_eq_or_of_lt (show d < 2 ^ 7 by simpa using hd)]

/-- One byte of a `VARINT`, with the low seven bits `d` and the continuation bit `c`. -/
theorem readVarInt_go_digit (w n : Nat) {d : Nat} (hd : d < 128) (c : Bool) (s : List UInt8)
    (hlt : n * 128 + d < 2 ^ w) :
    readVarInt.go w n (UInt8.ofNat (d ||| if c then 0x80 else 0) :: s) =
      if c then readVarInt.go w ((n * 128 + d + 1) % 2 ^ w) s else some (n * 128 + d, s) := by
  obtain ⟨hlow, hcont⟩ := low_bits_digit hd c
  rw [readVarInt.go, toNat_digit hd c, hlow, shiftLeft_or_digit n hd, Nat.mod_eq_of_lt hlt]
  by_cases hc : c
  · rw [if_pos (hcont.mpr hc), if_pos hc]
  · rw [if_neg (fun h => hc (hcont.mp h)), if_neg hc]

/-- The digits of `tmp m (len + 1)`, all with the bit `0x80`, read back as `m + 1`. -/
theorem readVarInt_go_tmp (w : Nat) :
    ∀ (m : Nat) (len : Nat) (s : List UInt8), m + 1 < 2 ^ w →
      readVarInt.go w 0 ((writeVarInt.tmp m (len + 1)).reverse ++ s) = readVarInt.go w (m + 1) s := by
  intro m
  induction m using Nat.strongRecOn with
  | ind m ih =>
    intro len s hm
    have hlen : (if len + 1 = 0 then 0 else 0x80) = if true then 0x80 else 0 := by simp
    by_cases hsmall : m ≤ 0x7F
    · -- one digit
      rw [tmp_of_le _ (by exact_mod_cast hsmall), hlen, List.reverse_singleton,
        List.singleton_append, show ((m : Int) % 128).toNat = m by omega,
        readVarInt_go_digit w 0 (by omega) true s (by omega)]
      simp [Nat.mod_eq_of_lt hm]
    · -- the digits of `m / 128 - 1`, then the last one of `m`
      have hq : ((m : Int) / 128 - 1) = ((m / 128 - 1 : Nat) : Int) := by omega
      have hdm : m / 128 * 128 + m % 128 = m := Nat.div_add_mod' m 128
      rw [tmp_of_lt _ (by exact_mod_cast (not_le.mp hsmall)), hq, List.reverse_cons,
        List.append_assoc, ih (m / 128 - 1) (by omega) (len + 1) _ (by omega), hlen,
        show ((m : Int) % 128).toNat = m % 128 by omega, List.singleton_append,
        show m / 128 - 1 + 1 = m / 128 by omega,
        readVarInt_go_digit w (m / 128) (Nat.mod_lt m (by omega)) true s (by omega)]
      simp [hdm, Nat.mod_eq_of_lt hm]

end Digits

/-- A non-negative number below `2^w` reads back from its `VARINT`. -/
theorem reads_readVarInt {w n : Nat} (hn : n < 2 ^ w) : Reads (readVarInt w) (writeVarInt n) n := by
  intro rest
  show readVarInt.go w 0 ((writeVarInt.tmp n 0).reverse ++ rest) = some (n, rest)
  have hlen : (if (0 : Nat) = 0 then 0 else 0x80) = if false then 0x80 else 0 := by simp
  by_cases hsmall : n ≤ 0x7F
  · rw [tmp_of_le _ (by exact_mod_cast hsmall), hlen, List.reverse_singleton,
      List.singleton_append, show ((n : Int) % 128).toNat = n by omega,
      readVarInt_go_digit w 0 (by omega) false rest (by omega)]
    simp
  · have hq : ((n : Int) / 128 - 1) = ((n / 128 - 1 : Nat) : Int) := by omega
    have hdm : n / 128 * 128 + n % 128 = n := Nat.div_add_mod' n 128
    rw [tmp_of_lt _ (by exact_mod_cast (not_le.mp hsmall)), hq, List.reverse_cons,
      List.append_assoc, readVarInt_go_tmp w (n / 128 - 1) 0 _ (by omega), hlen,
      show ((n : Int) % 128).toNat = n % 128 by omega, List.singleton_append,
      show n / 128 - 1 + 1 = n / 128 by omega,
      readVarInt_go_digit w (n / 128) (Nat.mod_lt n (by omega)) false rest (by omega)]
    simp [hdm]

/-- `GetSizeOfVarInt` counts the bytes `WriteVarInt` writes. -/
theorem GetSizeOfVarInt_eq (n : Int) : GetSizeOfVarInt n = (writeVarInt n).length := by
  rw [writeVarInt, List.length_reverse]
  -- the two loops run on the same `n`s, whatever `len` the write starts from
  suffices h : ∀ len, (writeVarInt.tmp n len).length = GetSizeOfVarInt n from (h 0).symm
  induction n using GetSizeOfVarInt.induct with
  | case1 n hn =>
    intro len
    rw [tmp_of_le len hn, GetSizeOfVarInt, if_pos hn, List.length_singleton]
  | case2 n hn ih =>
    intro len
    rw [tmp_of_lt len (by omega), GetSizeOfVarInt, if_neg hn, List.length_cons, ih, Nat.add_comm]

/-- Different numbers have different `VARINT`s. -/
theorem writeVarInt_injective {m n : Nat} (h : writeVarInt m = writeVarInt n) : m = n := by
  have hw : ∀ k, k ≤ m + n → k < 2 ^ (m + n) := fun k hk =>
    lt_of_le_of_lt hk (Nat.lt_two_pow_self)
  have hm := reads_readVarInt (hw m (Nat.le_add_right m n)) []
  have hn := reads_readVarInt (hw n (Nat.le_add_left n m)) []
  rw [h, hn] at hm
  simpa using hm.symm

/-- `VARINT` and `CompactSize` are exact codecs: a `VARINT` of a non-negative number of a `w`-bit
type (an `int` or `int64_t` read back through its bits) reads back and takes
`GetSizeOfVarInt` bytes, different numbers have different `VARINT`s; a size up to `MAX_SIZE`
reads back from `WriteCompactSize` and takes `GetSizeOfCompactSize` bytes, and
`ReadCompactSize` accepts nothing but what `WriteCompactSize` writes. -/
theorem varInt_compactSize_exact :
    (∀ w n : Nat, n < 2 ^ w →
      Reads (readVarInt w) (writeVarInt n) n ∧ GetSizeOfVarInt n = (writeVarInt n).length) ∧
    (∀ n : Nat, n < 2 ^ 31 → Reads (toInt32 <$> readVarInt 32) (writeVarInt n) (n : Int)) ∧
    (∀ n : Nat, n < 2 ^ 63 → Reads (toInt64 <$> readVarInt 64) (writeVarInt n) (n : Int)) ∧
    (∀ m n : Nat, writeVarInt m = writeVarInt n → m = n) ∧
    (∀ n : Nat, n ≤ MAX_SIZE →
      Reads readCompactSize (writeCompactSize n) n ∧
        GetSizeOfCompactSize n = (writeCompactSize n).length) ∧
    Canonical readCompactSize writeCompactSize := by
  refine ⟨fun w n hn => ⟨reads_readVarInt hn, GetSizeOfVarInt_eq n⟩, fun n hn => ?_,
    fun n hn => ?_, fun m n h => writeVarInt_injective h,
    fun n hn => ⟨reads_readCompactSize hn, GetSizeOfCompactSize_eq n⟩,
    fun s n rest h => (readCompactSize_accepts h).2⟩
  · exact ((reads_readVarInt (w := 32) (by omega)).map toInt32).congr rfl (toInt32_of_lt hn)
  · exact ((reads_readVarInt (w := 64) (by omega)).map toInt64).congr rfl (toInt64_of_lt hn)

/-- `2^32` as a `uint64_t` takes five bytes, and the size `300` three. -/
theorem varInt_compactSize_exact_two_pow_32 :
    Reads (readVarInt 64) (writeVarInt ((2 ^ 32 : Nat) : Int)) (2 ^ 32) ∧
      GetSizeOfVarInt ((2 ^ 32 : Nat) : Int) = 5 ∧
      Reads readCompactSize (writeCompactSize 300) 300 ∧ GetSizeOfCompactSize 300 = 3 := by
  obtain ⟨hvar, -, -, -, hcompact, -⟩ := varInt_compactSize_exact
  obtain ⟨hread, hsize⟩ := hvar 64 (2 ^ 32) (by norm_num)
  obtain ⟨hread', hsize'⟩ := hcompact 300 (by decide)
  refine ⟨hread, ?_, hread', ?_⟩
  · rw [hsize]
    decide +kernel
  · rw [hsize']
    decide

end Trumpow
