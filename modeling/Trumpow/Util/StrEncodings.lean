import Mathlib
import Trumpow.Support.Bits

/-!
# Util — base64 and base32

`EncodeBase64`, `DecodeBase64`, `EncodeBase32` and `DecodeBase32` of `utilstrencodings.cpp`. Each
loop keeps its `switch (mode)` and its `left` bits; a C string is a byte list whose NUL is past its
end, and the decoders' tables are the source's. The round trips go group by group: three bytes and
four characters for base64, five bytes and eight characters for base32, each group one arithmetic
fact in each direction (`base64_values_bytes`, `base64_bytes_values` and their base32 twins), and
the last, short group with its padding one case of each induction. The decoders accept more
padding than the encoders write, so re-encoding an accepted string gives it back only up to its
`'='`; base32 also reads both cases of each letter (`base64_base32_roundtrip`).
-/

namespace Trumpow

/-! ### Base64 -/

/-- `pbase64`. -/
def pbase64 : List UInt8 :=
  "ABCDEFGHIJKLMNOPQRSTUVWXYZabcdefghijklmnopqrstuvwxyz0123456789+/".toList.map Char.toUInt8

/-- The padding character `'='`. -/
def chPad : UInt8 := '='.toUInt8

/-- The `while (pch < pchEnd)` loop of `EncodeBase64`, from `mode` and `left`: the characters it
appends, and `mode` and `left` after the last byte. -/
def encodeBase64Loop : Nat → Nat → List UInt8 → List UInt8 × Nat × Nat
  | mode, left, [] => ([], mode, left)
  | mode, left, enc :: pch =>
    let enc := enc.toNat
    match mode with
    | 0 =>
      -- we have no bits
      let r := encodeBase64Loop 1 ((enc &&& 3) <<< 4) pch
      (pbase64.getD (enc >>> 2) 0 :: r.1, r.2)
    | 1 =>
      -- we have two bits
      let r := encodeBase64Loop 2 ((enc &&& 15) <<< 2) pch
      (pbase64.getD (left ||| (enc >>> 4)) 0 :: r.1, r.2)
    | 2 =>
      -- we have four bits
      let r := encodeBase64Loop 0 left pch
      (pbase64.getD (left ||| (enc >>> 6)) 0 :: pbase64.getD (enc &&& 63) 0 :: r.1, r.2)
    | _ => encodeBase64Loop mode left pch

/-- The `if (mode)` block after the loop: the last character and the padding. -/
def encodeBase64Pad (mode left : Nat) : List UInt8 :=
  if mode ≠ 0 then pbase64.getD left 0 :: chPad :: (if mode = 1 then [chPad] else []) else []

/-- `EncodeBase64(pch, len)`. -/
def EncodeBase64 (pch : List UInt8) : List UInt8 :=
  let r := encodeBase64Loop 0 0 pch
  r.1 ++ encodeBase64Pad r.2.1 r.2.2

/-- `decode64_table`, in the source's rows of twenty. -/
def decode64_table : List Int := List.flatten [
  [-1, -1, -1, -1, -1, -1, -1, -1, -1, -1, -1, -1, -1, -1, -1, -1, -1, -1, -1, -1],
  [-1, -1, -1, -1, -1, -1, -1, -1, -1, -1, -1, -1, -1, -1, -1, -1, -1, -1, -1, -1],
  [-1, -1, -1, 62, -1, -1, -1, 63, 52, 53, 54, 55, 56, 57, 58, 59, 60, 61, -1, -1],
  [-1, -1, -1, -1, -1,  0,  1,  2,  3,  4,  5,  6,  7,  8,  9, 10, 11, 12, 13, 14],
  [15, 16, 17, 18, 19, 20, 21, 22, 23, 24, 25, -1, -1, -1, -1, -1, -1, 26, 27, 28],
  [29, 30, 31, 32, 33, 34, 35, 36, 37, 38, 39, 40, 41, 42, 43, 44, 45, 46, 47, 48],
  [49, 50, 51, -1, -1, -1, -1, -1, -1, -1, -1, -1, -1, -1, -1, -1, -1, -1, -1, -1],
  [-1, -1, -1, -1, -1, -1, -1, -1, -1, -1, -1, -1, -1, -1, -1, -1, -1, -1, -1, -1],
  [-1, -1, -1, -1, -1, -1, -1, -1, -1, -1, -1, -1, -1, -1, -1, -1, -1, -1, -1, -1],
  [-1, -1, -1, -1, -1, -1, -1, -1, -1, -1, -1, -1, -1, -1, -1, -1, -1, -1, -1, -1],
  [-1, -1, -1, -1, -1, -1, -1, -1, -1, -1, -1, -1, -1, -1, -1, -1, -1, -1, -1, -1],
  [-1, -1, -1, -1, -1, -1, -1, -1, -1, -1, -1, -1, -1, -1, -1, -1, -1, -1, -1, -1],
  [-1, -1, -1, -1, -1, -1, -1, -1, -1, -1, -1, -1, -1, -1, -1, -1]]

/-- `decode64_table[(unsigned char)c]`. -/
def decode64 (c : UInt8) : Int := decode64_table.getD c.toNat (-1)

/-- The `while (1)` loop of `DecodeBase64`, from `mode` and `left`: the bytes it pushes, and
`mode`, `left` and `p` where it stops. -/
def decodeBase64Loop : Nat → Nat → List UInt8 → List UInt8 × Nat × Nat × List UInt8
  -- `*p` is the terminating NUL, which the table maps to `-1`
  | mode, left, [] => ([], mode, left, [])
  | mode, left, c :: p =>
    if decode64 c = -1 then ([], mode, left, c :: p)
    else
      let dec := (decode64 c).toNat
      match mode with
      | 0 =>
        -- we have no bits and get 6
        decodeBase64Loop 1 dec p
      | 1 =>
        -- we have 6 bits and keep 4
        let r := decodeBase64Loop 2 (dec &&& 15) p
        (UInt8.ofNat ((left <<< 2) ||| (dec >>> 4)) :: r.1, r.2)
      | 2 =>
        -- we have 4 bits and get 6, we keep 2
        let r := decodeBase64Loop 3 (dec &&& 3) p
        (UInt8.ofNat ((left <<< 4) ||| (dec >>> 2)) :: r.1, r.2)
      | 3 =>
        -- we have 2 bits and get 6
        let r := decodeBase64Loop 0 left p
        (UInt8.ofNat ((left <<< 6) ||| dec) :: r.1, r.2)
      | _ => decodeBase64Loop mode left p

/-- The check of `*pfInvalid` after the loop, on `mode`, `left` and the rest `p` of the string;
past its end `p` reads the NUL. -/
def base64Invalid (mode left : Nat) (p : List UInt8) : Bool :=
  match mode with
  -- 4n base64 characters processed: ok
  | 0 => false
  -- 4n+1 base64 character processed: impossible
  | 1 => true
  -- 4n+2 base64 characters processed: require '=='
  | 2 => decide (left ≠ 0 ∨ p.getD 0 0 ≠ chPad ∨ p.getD 1 0 ≠ chPad ∨
      decode64 (p.getD 2 0) ≠ -1)
  -- 4n+3 base64 characters processed: require '='
  | 3 => decide (left ≠ 0 ∨ p.getD 0 0 ≠ chPad ∨ decode64 (p.getD 1 0) ≠ -1)
  | _ => false

/-- `DecodeBase64(p, pfInvalid)`: the bytes and `*pfInvalid`. -/
def DecodeBase64 (p : List UInt8) : List UInt8 × Bool :=
  let r := decodeBase64Loop 0 0 p
  (r.1, base64Invalid r.2.1 r.2.2.1 r.2.2.2)

/-! ### Base64 round trips -/

set_option maxRecDepth 4000 in
theorem decode64_pbase64 : ∀ i < 64, decode64 (pbase64.getD i 0) = i := by decide

theorem decode64_chPad : decode64 chPad = -1 := by decide

/-- The characters of the six-bit values `vs`. -/
def b64Chars (vs : List Nat) : List UInt8 := vs.map fun v => pbase64.getD v 0

/-- One character of the alphabet moves the decoder by its value. -/
theorem decodeBase64Loop_char {v : Nat} (hv : v < 64) (mode left : Nat) (p : List UInt8) :
    decodeBase64Loop mode left (pbase64.getD v 0 :: p) =
      match mode with
      | 0 => decodeBase64Loop 1 v p
      | 1 =>
        let r := decodeBase64Loop 2 (v &&& 15) p
        (UInt8.ofNat ((left <<< 2) ||| (v >>> 4)) :: r.1, r.2)
      | 2 =>
        let r := decodeBase64Loop 3 (v &&& 3) p
        (UInt8.ofNat ((left <<< 4) ||| (v >>> 2)) :: r.1, r.2)
      | 3 =>
        let r := decodeBase64Loop 0 left p
        (UInt8.ofNat ((left <<< 6) ||| v) :: r.1, r.2)
      | _ => decodeBase64Loop mode left p := by
  have hdec := decode64_pbase64 v hv
  rw [decodeBase64Loop, if_neg (by rw [hdec]; omega), hdec, Int.toNat_natCast]

/-- The decoder reads the four values of a group back as its three bytes. -/
theorem decodeBase64Loop_group {v₁ v₂ v₃ v₄ : Nat} (h₁ : v₁ < 64) (h₂ : v₂ < 64) (h₃ : v₃ < 64)
    (h₄ : v₄ < 64) (left : Nat) (p : List UInt8) :
    decodeBase64Loop 0 left (b64Chars [v₁, v₂, v₃, v₄] ++ p) =
      let r := decodeBase64Loop 0 (v₃ &&& 3) p
      (UInt8.ofNat ((v₁ <<< 2) ||| (v₂ >>> 4)) :: UInt8.ofNat (((v₂ &&& 15) <<< 4) ||| (v₃ >>> 2)) ::
        UInt8.ofNat (((v₃ &&& 3) <<< 6) ||| v₄) :: r.1, r.2) := by
  simp only [b64Chars, List.map_cons, List.map_nil, List.cons_append, List.nil_append,
    decodeBase64Loop_char h₁, decodeBase64Loop_char h₂, decodeBase64Loop_char h₃,
    decodeBase64Loop_char h₄]

/-- The encoder writes three bytes as the four values of a group, and goes on in mode `0`. -/
theorem encodeBase64Loop_group (a b c : UInt8) (left : Nat) (rest : List UInt8) :
    encodeBase64Loop 0 left (a :: b :: c :: rest) =
      let r := encodeBase64Loop 0 ((b.toNat &&& 15) <<< 2) rest
      (b64Chars [a.toNat >>> 2, ((a.toNat &&& 3) <<< 4) ||| (b.toNat >>> 4),
        ((b.toNat &&& 15) <<< 2) ||| (c.toNat >>> 6), c.toNat &&& 63] ++ r.1, r.2) := rfl

/-- Three bytes, cut into four six-bit values and put back together. -/
theorem base64_values_bytes {a b c : Nat} (ha : a < 256) (hb : b < 256) (hc : c < 256) :
    let v₁ := a >>> 2
    let v₂ := ((a &&& 3) <<< 4) ||| (b >>> 4)
    let v₃ := ((b &&& 15) <<< 2) ||| (c >>> 6)
    let v₄ := c &&& 63
    (v₁ < 64 ∧ v₂ < 64 ∧ v₃ < 64 ∧ v₄ < 64) ∧ ((v₁ <<< 2) ||| (v₂ >>> 4)) = a ∧
      (((v₂ &&& 15) <<< 4) ||| (v₃ >>> 2)) = b ∧ (((v₃ &&& 3) <<< 6) ||| v₄) = c := by
  intro v₁ v₂ v₃ v₄
  simp (disch := omega) only [v₁, v₂, v₃, v₄, Bits.and_three, Bits.and_fifteen, Bits.and_sixtyThree,
    Nat.shiftRight_eq_div_pow, Bits.or_shiftLeft_eq_add]
  omega

/-- The decoder stops at the padding. -/
theorem decodeBase64Loop_pad (mode left : Nat) (p : List UInt8) :
    decodeBase64Loop mode left (chPad :: p) = ([], mode, left, chPad :: p) := by
  rw [decodeBase64Loop, if_pos decode64_chPad]

/-- Decoding what the loop and the padding write from any state in mode `0` gives the bytes back,
with no complaint: three bytes at a time, then one or two bytes and their padding. -/
theorem decode_encodeBase64 : ∀ (bytes : List UInt8) (l l' : Nat),
    let e := encodeBase64Loop 0 l' bytes
    let d := decodeBase64Loop 0 l (e.1 ++ encodeBase64Pad e.2.1 e.2.2)
    d.1 = bytes ∧ base64Invalid d.2.1 d.2.2.1 d.2.2.2 = false
  | [], _, _ => ⟨rfl, rfl⟩
  | [a], l, l' => by
    obtain ⟨⟨h₁, h₂, -⟩, ha, -⟩ :=
      base64_values_bytes a.toNat_lt (by decide : 0 < 256) (by decide : 0 < 256)
    simp only [Nat.zero_shiftRight, Nat.or_zero] at h₂ ha
    have he : encodeBase64Loop 0 l' [a] = (b64Chars [a.toNat >>> 2], 1, (a.toNat &&& 3) <<< 4) :=
      rfl
    have hpad : encodeBase64Pad 1 ((a.toNat &&& 3) <<< 4) =
        b64Chars [(a.toNat &&& 3) <<< 4] ++ [chPad, chPad] := rfl
    simp only [he, hpad, b64Chars, List.map_cons, List.map_nil, List.cons_append,
      List.nil_append, decodeBase64Loop_char h₁, decodeBase64Loop_char h₂, decodeBase64Loop_pad, ha,
      UInt8.ofNat_toNat]
    refine ⟨trivial, ?_⟩
    rw [Bits.shiftLeft_and_eq_zero _ (by decide : 15 < 2 ^ 4)]
    rfl
  | [a, b], l, l' => by
    obtain ⟨⟨h₁, h₂, h₃, -⟩, ha, hb, -⟩ :=
      base64_values_bytes a.toNat_lt b.toNat_lt (by decide : 0 < 256)
    simp only [Nat.zero_shiftRight, Nat.or_zero] at h₃ hb
    have he : encodeBase64Loop 0 l' [a, b] = (b64Chars [a.toNat >>> 2,
        ((a.toNat &&& 3) <<< 4) ||| (b.toNat >>> 4)], 2, (b.toNat &&& 15) <<< 2) := rfl
    have hpad : encodeBase64Pad 2 ((b.toNat &&& 15) <<< 2) =
        b64Chars [(b.toNat &&& 15) <<< 2] ++ [chPad] := rfl
    simp only [he, hpad, b64Chars, List.map_cons, List.map_nil, List.cons_append,
      List.nil_append, decodeBase64Loop_char h₁, decodeBase64Loop_char h₂,
      decodeBase64Loop_char h₃, decodeBase64Loop_pad, ha, hb, UInt8.ofNat_toNat]
    refine ⟨trivial, ?_⟩
    rw [Bits.shiftLeft_and_eq_zero _ (by decide : 3 < 2 ^ 2)]
    rfl
  | a :: b :: c :: rest, l, l' => by
    obtain ⟨⟨h₁, h₂, h₃, h₄⟩, ha, hb, hc⟩ := base64_values_bytes a.toNat_lt b.toNat_lt c.toNat_lt
    obtain ⟨ih₁, ih₂⟩ := decode_encodeBase64 rest
      ((((b.toNat &&& 15) <<< 2) ||| (c.toNat >>> 6)) &&& 3) ((b.toNat &&& 15) <<< 2)
    simp only [encodeBase64Loop_group, List.append_assoc, decodeBase64Loop_group h₁ h₂ h₃ h₄, ha,
      hb, hc, UInt8.ofNat_toNat]
    exact ⟨by rw [ih₁], ih₂⟩

/-- `DecodeBase64` reads back what `EncodeBase64` writes, and finds it valid. -/
theorem decodeBase64_encodeBase64 (b : List UInt8) : DecodeBase64 (EncodeBase64 b) = (b, false) := by
  obtain ⟨h₁, h₂⟩ := decode_encodeBase64 b 0 0
  exact Prod.ext h₁ h₂

/-- Four six-bit values, packed into three bytes and cut apart again. -/
theorem base64_bytes_values {v₁ v₂ v₃ v₄ : Nat} (h₁ : v₁ < 64) (h₂ : v₂ < 64) (h₃ : v₃ < 64)
    (h₄ : v₄ < 64) :
    let a := (v₁ <<< 2) ||| (v₂ >>> 4)
    let b := ((v₂ &&& 15) <<< 4) ||| (v₃ >>> 2)
    let c := ((v₃ &&& 3) <<< 6) ||| v₄
    (a < 256 ∧ b < 256 ∧ c < 256) ∧ a >>> 2 = v₁ ∧ ((a &&& 3) <<< 4) ||| (b >>> 4) = v₂ ∧
      ((b &&& 15) <<< 2) ||| (c >>> 6) = v₃ ∧ c &&& 63 = v₄ := by
  intro a b c
  simp (disch := omega) only [a, b, c, Bits.and_three, Bits.and_fifteen, Bits.and_sixtyThree,
    Nat.shiftRight_eq_div_pow, Bits.or_shiftLeft_eq_add]
  omega

/-- Past the string the padding reads the NUL, which is not `'='`. -/
theorem lt_of_getD_replicate_chPad {i k : Nat} (h : (List.replicate k chPad).getD i 0 = chPad) :
    i < k := by
  by_contra hik
  rw [List.getD_eq_getElem?_getD, List.getElem?_replicate, if_neg hik] at h
  exact absurd h (by decide)

/-- The padding stops the decoder at once. -/
theorem decodeBase64Loop_replicate_chPad (mode left k : Nat) :
    decodeBase64Loop mode left (List.replicate k chPad) =
      ([], mode, left, List.replicate k chPad) := by
  cases k with
  | zero => rfl
  | succ k => exact decodeBase64Loop_pad mode left _

/-- Re-encoding what the decoder reads from alphabet characters and padding, when it finds them
valid, gives the characters back with the padding `EncodeBase64` writes, which is no longer than
the padding read. -/
theorem encode_decodeBase64 : ∀ (vs : List Nat), (∀ v ∈ vs, v < 64) → ∀ (k l l' : Nat),
    let d := decodeBase64Loop 0 l (b64Chars vs ++ List.replicate k chPad)
    base64Invalid d.2.1 d.2.2.1 d.2.2.2 = false →
    let e := encodeBase64Loop 0 l' d.1
    (4 - vs.length % 4) % 4 ≤ k ∧
      e.1 ++ encodeBase64Pad e.2.1 e.2.2 = b64Chars vs ++ List.replicate ((4 - vs.length % 4) % 4) chPad
  | [], _, k, l, l', _ => by
    simp only [b64Chars, List.map_nil, List.nil_append, decodeBase64Loop_replicate_chPad]
    exact ⟨Nat.zero_le k, rfl⟩
  | [v₁], hvs, k, l, l', hv => by
    simp only [b64Chars, List.map_cons, List.map_nil, List.cons_append, List.nil_append,
      decodeBase64Loop_char (hvs v₁ (by simp)), decodeBase64Loop_replicate_chPad] at hv
    -- one character of a group is never valid
    simp [base64Invalid] at hv
  | [v₁, v₂], hvs, k, l, l', hv => by
    have h₁ := hvs v₁ (by simp)
    have h₂ := hvs v₂ (by simp)
    obtain ⟨⟨ha, -⟩, e₁, e₂, -⟩ := base64_bytes_values h₁ h₂ (by decide : 0 < 64)
      (by decide : 0 < 64)
    simp only [b64Chars, List.map_cons, List.map_nil, List.cons_append, List.nil_append,
      decodeBase64Loop_char h₁, decodeBase64Loop_char h₂, decodeBase64Loop_replicate_chPad] at hv ⊢
    -- two characters need `'=='` and no bits left over
    simp only [base64Invalid, decide_eq_false_iff_not, not_or, not_not] at hv
    obtain ⟨hleft, -, hp₁, -⟩ := hv
    simp only [hleft, Nat.zero_shiftLeft, Nat.zero_shiftRight, Nat.or_zero] at e₂
    have he : encodeBase64Loop 0 l' [UInt8.ofNat ((v₁ <<< 2) ||| (v₂ >>> 4))] =
        ([pbase64.getD (((v₁ <<< 2) ||| (v₂ >>> 4)) >>> 2) 0], 1,
          (((v₁ <<< 2) ||| (v₂ >>> 4)) &&& 3) <<< 4) := by
      simp only [encodeBase64Loop, UInt8.toNat_ofNat_of_lt' ha]
    refine ⟨lt_of_getD_replicate_chPad hp₁, ?_⟩
    simp only [he, encodeBase64Pad, e₁, e₂]
    rfl
  | [v₁, v₂, v₃], hvs, k, l, l', hv => by
    have h₁ := hvs v₁ (by simp)
    have h₂ := hvs v₂ (by simp)
    have h₃ := hvs v₃ (by simp)
    obtain ⟨⟨ha, hb, -⟩, e₁, e₂, e₃, -⟩ := base64_bytes_values h₁ h₂ h₃ (by decide : 0 < 64)
    simp only [b64Chars, List.map_cons, List.map_nil, List.cons_append, List.nil_append,
      decodeBase64Loop_char h₁, decodeBase64Loop_char h₂, decodeBase64Loop_char h₃,
      decodeBase64Loop_replicate_chPad] at hv ⊢
    -- three characters need `'='` and no bits left over
    simp only [base64Invalid, decide_eq_false_iff_not, not_or, not_not] at hv
    obtain ⟨hleft, hp₀, -⟩ := hv
    simp only [hleft, Nat.zero_shiftLeft, Nat.zero_shiftRight, Nat.or_zero] at e₃
    have he : encodeBase64Loop 0 l' [UInt8.ofNat ((v₁ <<< 2) ||| (v₂ >>> 4)),
        UInt8.ofNat (((v₂ &&& 15) <<< 4) ||| (v₃ >>> 2))] =
        ([pbase64.getD (((v₁ <<< 2) ||| (v₂ >>> 4)) >>> 2) 0,
          pbase64.getD (((((v₁ <<< 2) ||| (v₂ >>> 4)) &&& 3) <<< 4) |||
            ((((v₂ &&& 15) <<< 4) ||| (v₃ >>> 2)) >>> 4)) 0], 2,
          ((((v₂ &&& 15) <<< 4) ||| (v₃ >>> 2)) &&& 15) <<< 2) := by
      simp only [encodeBase64Loop, UInt8.toNat_ofNat_of_lt' ha, UInt8.toNat_ofNat_of_lt' hb]
    refine ⟨lt_of_getD_replicate_chPad hp₀, ?_⟩
    simp only [he, encodeBase64Pad, e₁, e₂, e₃]
    rfl
  | v₁ :: v₂ :: v₃ :: v₄ :: rest, hvs, k, l, l', hv => by
    have h₁ := hvs v₁ (by simp)
    have h₂ := hvs v₂ (by simp)
    have h₃ := hvs v₃ (by simp)
    have h₄ := hvs v₄ (by simp)
    obtain ⟨⟨ha, hb, hc⟩, e₁, e₂, e₃, e₄⟩ := base64_bytes_values h₁ h₂ h₃ h₄
    have hsplit : b64Chars (v₁ :: v₂ :: v₃ :: v₄ :: rest) = b64Chars [v₁, v₂, v₃, v₄] ++ b64Chars rest :=
      rfl
    rw [hsplit, List.append_assoc, decodeBase64Loop_group h₁ h₂ h₃ h₄] at hv ⊢
    obtain ⟨hk, ih⟩ := encode_decodeBase64 rest (fun v hv => hvs v (by simp [hv])) k (v₃ &&& 3)
      (((((v₂ &&& 15) <<< 4) ||| (v₃ >>> 2)) &&& 15) <<< 2) hv
    have hlen : (rest.length + 1 + 1 + 1 + 1) % 4 = rest.length % 4 := by omega
    simp only [encodeBase64Loop_group, UInt8.toNat_ofNat_of_lt' ha, UInt8.toNat_ofNat_of_lt' hb,
      UInt8.toNat_ofNat_of_lt' hc, e₁, e₂, e₃, e₄, List.length_cons, hlen, List.append_assoc, ih]
    exact ⟨hk, trivial⟩

/-! ### Base32 -/

/-- `pbase32`. -/
def pbase32 : List UInt8 := "abcdefghijklmnopqrstuvwxyz234567".toList.map Char.toUInt8

/-- The `while (pch < pchEnd)` loop of `EncodeBase32`, from `mode` and `left`. -/
def encodeBase32Loop : Nat → Nat → List UInt8 → List UInt8 × Nat × Nat
  | mode, left, [] => ([], mode, left)
  | mode, left, enc :: pch =>
    let enc := enc.toNat
    match mode with
    | 0 =>
      -- we have no bits
      let r := encodeBase32Loop 1 ((enc &&& 7) <<< 2) pch
      (pbase32.getD (enc >>> 3) 0 :: r.1, r.2)
    | 1 =>
      -- we have three bits
      let r := encodeBase32Loop 2 ((enc &&& 1) <<< 4) pch
      (pbase32.getD (left ||| (enc >>> 6)) 0 :: pbase32.getD ((enc >>> 1) &&& 31) 0 :: r.1, r.2)
    | 2 =>
      -- we have one bit
      let r := encodeBase32Loop 3 ((enc &&& 15) <<< 1) pch
      (pbase32.getD (left ||| (enc >>> 4)) 0 :: r.1, r.2)
    | 3 =>
      -- we have four bits
      let r := encodeBase32Loop 4 ((enc &&& 3) <<< 3) pch
      (pbase32.getD (left ||| (enc >>> 7)) 0 :: pbase32.getD ((enc >>> 2) &&& 31) 0 :: r.1, r.2)
    | 4 =>
      -- we have two bits
      let r := encodeBase32Loop 0 left pch
      (pbase32.getD (left ||| (enc >>> 5)) 0 :: pbase32.getD (enc &&& 31) 0 :: r.1, r.2)
    | _ => encodeBase32Loop mode left pch

/-- `nPadding`. -/
def nPadding : List Nat := [0, 6, 4, 3, 1]

/-- The `if (mode)` block after the loop: the last character and `nPadding[mode]` times `'='`. -/
def encodeBase32Pad (mode left : Nat) : List UInt8 :=
  if mode ≠ 0 then pbase32.getD left 0 :: List.replicate (nPadding.getD mode 0) chPad else []

/-- `EncodeBase32(pch, len)`. -/
def EncodeBase32 (pch : List UInt8) : List UInt8 :=
  let r := encodeBase32Loop 0 0 pch
  r.1 ++ encodeBase32Pad r.2.1 r.2.2

/-- `decode32_table`, in the source's rows of twenty: both cases of each letter, and `2`
to `7`. -/
def decode32_table : List Int := List.flatten [
  [-1, -1, -1, -1, -1, -1, -1, -1, -1, -1, -1, -1, -1, -1, -1, -1, -1, -1, -1, -1],
  [-1, -1, -1, -1, -1, -1, -1, -1, -1, -1, -1, -1, -1, -1, -1, -1, -1, -1, -1, -1],
  [-1, -1, -1, -1, -1, -1, -1, -1, -1, -1, 26, 27, 28, 29, 30, 31, -1, -1, -1, -1],
  [-1, -1, -1, -1, -1,  0,  1,  2,  3,  4,  5,  6,  7,  8,  9, 10, 11, 12, 13, 14],
  [15, 16, 17, 18, 19, 20, 21, 22, 23, 24, 25, -1, -1, -1, -1, -1, -1,  0,  1,  2],
  [3,  4,  5,  6,  7,  8,  9, 10, 11, 12, 13, 14, 15, 16, 17, 18, 19, 20, 21, 22],
  [23, 24, 25, -1, -1, -1, -1, -1, -1, -1, -1, -1, -1, -1, -1, -1, -1, -1, -1, -1],
  [-1, -1, -1, -1, -1, -1, -1, -1, -1, -1, -1, -1, -1, -1, -1, -1, -1, -1, -1, -1],
  [-1, -1, -1, -1, -1, -1, -1, -1, -1, -1, -1, -1, -1, -1, -1, -1, -1, -1, -1, -1],
  [-1, -1, -1, -1, -1, -1, -1, -1, -1, -1, -1, -1, -1, -1, -1, -1, -1, -1, -1, -1],
  [-1, -1, -1, -1, -1, -1, -1, -1, -1, -1, -1, -1, -1, -1, -1, -1, -1, -1, -1, -1],
  [-1, -1, -1, -1, -1, -1, -1, -1, -1, -1, -1, -1, -1, -1, -1, -1, -1, -1, -1, -1],
  [-1, -1, -1, -1, -1, -1, -1, -1, -1, -1, -1, -1, -1, -1, -1, -1]]

/-- `decode32_table[(unsigned char)c]`. -/
def decode32 (c : UInt8) : Int := decode32_table.getD c.toNat (-1)

/-- The `while (1)` loop of `DecodeBase32`, from `mode` and `left`. -/
def decodeBase32Loop : Nat → Nat → List UInt8 → List UInt8 × Nat × Nat × List UInt8
  | mode, left, [] => ([], mode, left, [])
  | mode, left, c :: p =>
    if decode32 c = -1 then ([], mode, left, c :: p)
    else
      let dec := (decode32 c).toNat
      match mode with
      | 0 =>
        -- we have no bits and get 5
        decodeBase32Loop 1 dec p
      | 1 =>
        -- we have 5 bits and keep 2
        let r := decodeBase32Loop 2 (dec &&& 3) p
        (UInt8.ofNat ((left <<< 3) ||| (dec >>> 2)) :: r.1, r.2)
      | 2 =>
        -- we have 2 bits and keep 7
        decodeBase32Loop 3 ((left <<< 5) ||| dec) p
      | 3 =>
        -- we have 7 bits and keep 4
        let r := decodeBase32Loop 4 (dec &&& 15) p
        (UInt8.ofNat ((left <<< 1) ||| (dec >>> 4)) :: r.1, r.2)
      | 4 =>
        -- we have 4 bits, and keep 1
        let r := decodeBase32Loop 5 (dec &&& 1) p
        (UInt8.ofNat ((left <<< 4) ||| (dec >>> 1)) :: r.1, r.2)
      | 5 =>
        -- we have 1 bit, and keep 6
        decodeBase32Loop 6 ((left <<< 5) ||| dec) p
      | 6 =>
        -- we have 6 bits, and keep 3
        let r := decodeBase32Loop 7 (dec &&& 7) p
        (UInt8.ofNat ((left <<< 2) ||| (dec >>> 3)) :: r.1, r.2)
      | 7 =>
        -- we have 3 bits, and keep 0
        let r := decodeBase32Loop 0 left p
        (UInt8.ofNat ((left <<< 5) ||| dec) :: r.1, r.2)
      | _ => decodeBase32Loop mode left p

/-- The check of `*pfInvalid` after the loop of `DecodeBase32`. -/
def base32Invalid (mode left : Nat) (p : List UInt8) : Bool :=
  match mode with
  -- 8n base32 characters processed: ok
  | 0 => false
  -- 8n+1, 8n+3, 8n+6 base32 characters processed: impossible
  | 1 | 3 | 6 => true
  -- 8n+2 base32 characters processed: require '======'
  | 2 => decide (left ≠ 0 ∨ p.getD 0 0 ≠ chPad ∨ p.getD 1 0 ≠ chPad ∨
      p.getD 2 0 ≠ chPad ∨ p.getD 3 0 ≠ chPad ∨ p.getD 4 0 ≠ chPad ∨
      p.getD 5 0 ≠ chPad ∨ decode32 (p.getD 6 0) ≠ -1)
  -- 8n+4 base32 characters processed: require '===='
  | 4 => decide (left ≠ 0 ∨ p.getD 0 0 ≠ chPad ∨ p.getD 1 0 ≠ chPad ∨
      p.getD 2 0 ≠ chPad ∨ p.getD 3 0 ≠ chPad ∨ decode32 (p.getD 4 0) ≠ -1)
  -- 8n+5 base32 characters processed: require '==='
  | 5 => decide (left ≠ 0 ∨ p.getD 0 0 ≠ chPad ∨ p.getD 1 0 ≠ chPad ∨
      p.getD 2 0 ≠ chPad ∨ decode32 (p.getD 3 0) ≠ -1)
  -- 8n+7 base32 characters processed: require '='
  | 7 => decide (left ≠ 0 ∨ p.getD 0 0 ≠ chPad ∨ decode32 (p.getD 1 0) ≠ -1)
  | _ => false

/-- `DecodeBase32(p, pfInvalid)`: the bytes and `*pfInvalid`. -/
def DecodeBase32 (p : List UInt8) : List UInt8 × Bool :=
  let r := decodeBase32Loop 0 0 p
  (r.1, base32Invalid r.2.1 r.2.2.1 r.2.2.2)

/-! ### Base32 round trips -/

theorem decode32_pbase32 : ∀ i < 32, decode32 (pbase32.getD i 0) = i := by decide

theorem decode32_chPad : decode32 chPad = -1 := by decide

/-- The characters of the five-bit values `vs`. -/
def b32Chars (vs : List Nat) : List UInt8 := vs.map fun v => pbase32.getD v 0

theorem decodeBase32Loop_char {v : Nat} (hv : v < 32) (mode left : Nat) (p : List UInt8) :
    decodeBase32Loop mode left (pbase32.getD v 0 :: p) =
      match mode with
      | 0 => decodeBase32Loop 1 v p
      | 1 =>
        let r := decodeBase32Loop 2 (v &&& 3) p
        (UInt8.ofNat ((left <<< 3) ||| (v >>> 2)) :: r.1, r.2)
      | 2 => decodeBase32Loop 3 ((left <<< 5) ||| v) p
      | 3 =>
        let r := decodeBase32Loop 4 (v &&& 15) p
        (UInt8.ofNat ((left <<< 1) ||| (v >>> 4)) :: r.1, r.2)
      | 4 =>
        let r := decodeBase32Loop 5 (v &&& 1) p
        (UInt8.ofNat ((left <<< 4) ||| (v >>> 1)) :: r.1, r.2)
      | 5 => decodeBase32Loop 6 ((left <<< 5) ||| v) p
      | 6 =>
        let r := decodeBase32Loop 7 (v &&& 7) p
        (UInt8.ofNat ((left <<< 2) ||| (v >>> 3)) :: r.1, r.2)
      | 7 =>
        let r := decodeBase32Loop 0 left p
        (UInt8.ofNat ((left <<< 5) ||| v) :: r.1, r.2)
      | _ => decodeBase32Loop mode left p := by
  have hdec := decode32_pbase32 v hv
  rw [decodeBase32Loop, if_neg (by rw [hdec]; omega), hdec, Int.toNat_natCast]

/-- Past the last character the encoder writes `nPadding[mode]` times `'='`. -/
theorem encodeBase32Pad_pos {mode : Nat} (h : mode ≠ 0) (left : Nat) :
    encodeBase32Pad mode left =
      pbase32.getD left 0 :: List.replicate (nPadding.getD mode 0) chPad :=
  if_pos h

theorem decodeBase32Loop_pad (mode left : Nat) (p : List UInt8) :
    decodeBase32Loop mode left (chPad :: p) = ([], mode, left, chPad :: p) := by
  rw [decodeBase32Loop, if_pos decode32_chPad]

theorem decodeBase32Loop_replicate_chPad (mode left k : Nat) :
    decodeBase32Loop mode left (List.replicate k chPad) =
      ([], mode, left, List.replicate k chPad) := by
  cases k with
  | zero => rfl
  | succ k => exact decodeBase32Loop_pad mode left _

/-- Five bytes, cut into eight five-bit values and put back together. -/
theorem base32_values_bytes {a b c d e : Nat} (ha : a < 256) (hb : b < 256) (hc : c < 256)
    (hd : d < 256) (he : e < 256) :
    let v₁ := a >>> 3
    let v₂ := ((a &&& 7) <<< 2) ||| (b >>> 6)
    let v₃ := (b >>> 1) &&& 31
    let v₄ := ((b &&& 1) <<< 4) ||| (c >>> 4)
    let v₅ := ((c &&& 15) <<< 1) ||| (d >>> 7)
    let v₆ := (d >>> 2) &&& 31
    let v₇ := ((d &&& 3) <<< 3) ||| (e >>> 5)
    let v₈ := e &&& 31
    (v₁ < 32 ∧ v₂ < 32 ∧ v₃ < 32 ∧ v₄ < 32 ∧ v₅ < 32 ∧ v₆ < 32 ∧ v₇ < 32 ∧ v₈ < 32) ∧
      ((v₁ <<< 3) ||| (v₂ >>> 2)) = a ∧
      (((((v₂ &&& 3) <<< 5) ||| v₃) <<< 1) ||| (v₄ >>> 4)) = b ∧
      (((v₄ &&& 15) <<< 4) ||| (v₅ >>> 1)) = c ∧
      (((((v₅ &&& 1) <<< 5) ||| v₆) <<< 2) ||| (v₇ >>> 3)) = d ∧
      (((v₇ &&& 7) <<< 5) ||| v₈) = e := by
  intro v₁ v₂ v₃ v₄ v₅ v₆ v₇ v₈
  simp (disch := omega) only [v₁, v₂, v₃, v₄, v₅, v₆, v₇, v₈, Nat.and_one_is_mod, Bits.and_three,
    Bits.and_seven, Bits.and_fifteen, Bits.and_thirtyOne, Nat.shiftRight_eq_div_pow,
    Bits.or_shiftLeft_eq_add]
  omega

/-- Eight five-bit values, packed into five bytes and cut apart again. -/
theorem base32_bytes_values {v₁ v₂ v₃ v₄ v₅ v₆ v₇ v₈ : Nat} (h₁ : v₁ < 32) (h₂ : v₂ < 32)
    (h₃ : v₃ < 32) (h₄ : v₄ < 32) (h₅ : v₅ < 32) (h₆ : v₆ < 32) (h₇ : v₇ < 32) (h₈ : v₈ < 32) :
    let a := (v₁ <<< 3) ||| (v₂ >>> 2)
    let b := ((((v₂ &&& 3) <<< 5) ||| v₃) <<< 1) ||| (v₄ >>> 4)
    let c := ((v₄ &&& 15) <<< 4) ||| (v₅ >>> 1)
    let d := ((((v₅ &&& 1) <<< 5) ||| v₆) <<< 2) ||| (v₇ >>> 3)
    let e := ((v₇ &&& 7) <<< 5) ||| v₈
    (a < 256 ∧ b < 256 ∧ c < 256 ∧ d < 256 ∧ e < 256) ∧
      a >>> 3 = v₁ ∧ ((a &&& 7) <<< 2) ||| (b >>> 6) = v₂ ∧ (b >>> 1) &&& 31 = v₃ ∧
      ((b &&& 1) <<< 4) ||| (c >>> 4) = v₄ ∧ ((c &&& 15) <<< 1) ||| (d >>> 7) = v₅ ∧
      (d >>> 2) &&& 31 = v₆ ∧ ((d &&& 3) <<< 3) ||| (e >>> 5) = v₇ ∧ e &&& 31 = v₈ := by
  intro a b c d e
  simp (disch := omega) only [a, b, c, d, e, Nat.and_one_is_mod, Bits.and_three, Bits.and_seven,
    Bits.and_fifteen, Bits.and_thirtyOne, Nat.shiftRight_eq_div_pow, Bits.or_shiftLeft_eq_add]
  omega

/-- The decoder reads the eight values of a group back as its five bytes. -/
theorem decodeBase32Loop_group {v₁ v₂ v₃ v₄ v₅ v₆ v₇ v₈ : Nat} (h₁ : v₁ < 32) (h₂ : v₂ < 32)
    (h₃ : v₃ < 32) (h₄ : v₄ < 32) (h₅ : v₅ < 32) (h₆ : v₆ < 32) (h₇ : v₇ < 32) (h₈ : v₈ < 32)
    (left : Nat) (p : List UInt8) :
    decodeBase32Loop 0 left (b32Chars [v₁, v₂, v₃, v₄, v₅, v₆, v₇, v₈] ++ p) =
      let r := decodeBase32Loop 0 (v₇ &&& 7) p
      (UInt8.ofNat ((v₁ <<< 3) ||| (v₂ >>> 2)) ::
        UInt8.ofNat (((((v₂ &&& 3) <<< 5) ||| v₃) <<< 1) ||| (v₄ >>> 4)) ::
        UInt8.ofNat (((v₄ &&& 15) <<< 4) ||| (v₅ >>> 1)) ::
        UInt8.ofNat (((((v₅ &&& 1) <<< 5) ||| v₆) <<< 2) ||| (v₇ >>> 3)) ::
        UInt8.ofNat (((v₇ &&& 7) <<< 5) ||| v₈) :: r.1, r.2) := by
  simp only [b32Chars, List.map_cons, List.map_nil, List.cons_append, List.nil_append,
    decodeBase32Loop_char h₁, decodeBase32Loop_char h₂, decodeBase32Loop_char h₃,
    decodeBase32Loop_char h₄, decodeBase32Loop_char h₅, decodeBase32Loop_char h₆,
    decodeBase32Loop_char h₇, decodeBase32Loop_char h₈]

/-- The encoder writes five bytes as the eight values of a group, and goes on in mode `0`. -/
theorem encodeBase32Loop_group (a b c d e : UInt8) (left : Nat) (rest : List UInt8) :
    encodeBase32Loop 0 left (a :: b :: c :: d :: e :: rest) =
      let r := encodeBase32Loop 0 ((d.toNat &&& 3) <<< 3) rest
      (b32Chars [a.toNat >>> 3, ((a.toNat &&& 7) <<< 2) ||| (b.toNat >>> 6),
        (b.toNat >>> 1) &&& 31, ((b.toNat &&& 1) <<< 4) ||| (c.toNat >>> 4),
        ((c.toNat &&& 15) <<< 1) ||| (d.toNat >>> 7), (d.toNat >>> 2) &&& 31,
        ((d.toNat &&& 3) <<< 3) ||| (e.toNat >>> 5), e.toNat &&& 31] ++ r.1, r.2) := rfl

theorem decode_encodeBase32 : ∀ (bytes : List UInt8) (l l' : Nat),
    let e := encodeBase32Loop 0 l' bytes
    let d := decodeBase32Loop 0 l (e.1 ++ encodeBase32Pad e.2.1 e.2.2)
    d.1 = bytes ∧ base32Invalid d.2.1 d.2.2.1 d.2.2.2 = false
  | [], _, _ => ⟨rfl, rfl⟩
  | [a], l, l' => by
    obtain ⟨⟨h₁, h₂, -⟩, ha, -⟩ := base32_values_bytes a.toNat_lt
      (by decide : 0 < 256) (by decide : 0 < 256) (by decide : 0 < 256) (by decide : 0 < 256)
    simp only [Nat.zero_shiftRight, Nat.or_zero] at h₂ ha
    simp (disch := decide) only [encodeBase32Loop, encodeBase32Pad_pos, nPadding,
      List.getD_cons_succ, List.getD_cons_zero, List.cons_append, List.nil_append,
      decodeBase32Loop_char h₁, decodeBase32Loop_char h₂, decodeBase32Loop_replicate_chPad, ha,
      UInt8.ofNat_toNat]
    refine ⟨trivial, ?_⟩
    rw [Bits.shiftLeft_and_eq_zero _ (by decide : 3 < 2 ^ 2)]
    rfl
  | [a, b], l, l' => by
    obtain ⟨⟨h₁, h₂, h₃, h₄, -⟩, ha, hb, -⟩ := base32_values_bytes a.toNat_lt b.toNat_lt
      (by decide : 0 < 256) (by decide : 0 < 256) (by decide : 0 < 256)
    simp only [Nat.zero_shiftRight, Nat.or_zero] at h₄ hb
    simp (disch := decide) only [encodeBase32Loop, encodeBase32Pad_pos, nPadding,
      List.getD_cons_succ, List.getD_cons_zero, List.cons_append, List.nil_append,
      decodeBase32Loop_char h₁, decodeBase32Loop_char h₂, decodeBase32Loop_char h₃,
      decodeBase32Loop_char h₄, decodeBase32Loop_replicate_chPad, ha, hb, UInt8.ofNat_toNat]
    refine ⟨trivial, ?_⟩
    rw [Bits.shiftLeft_and_eq_zero _ (by decide : 15 < 2 ^ 4)]
    rfl
  | [a, b, c], l, l' => by
    obtain ⟨⟨h₁, h₂, h₃, h₄, h₅, -⟩, ha, hb, hc, -⟩ := base32_values_bytes a.toNat_lt b.toNat_lt
      c.toNat_lt (by decide : 0 < 256) (by decide : 0 < 256)
    simp only [Nat.zero_shiftRight, Nat.or_zero] at h₅ hc
    simp (disch := decide) only [encodeBase32Loop, encodeBase32Pad_pos, nPadding,
      List.getD_cons_succ, List.getD_cons_zero, List.cons_append, List.nil_append,
      decodeBase32Loop_char h₁, decodeBase32Loop_char h₂, decodeBase32Loop_char h₃,
      decodeBase32Loop_char h₄, decodeBase32Loop_char h₅, decodeBase32Loop_replicate_chPad, ha, hb,
      hc, UInt8.ofNat_toNat]
    refine ⟨trivial, ?_⟩
    rw [Bits.shiftLeft_and_eq_zero _ (by decide : 1 < 2 ^ 1)]
    rfl
  | [a, b, c, d], l, l' => by
    obtain ⟨⟨h₁, h₂, h₃, h₄, h₅, h₆, h₇, -⟩, ha, hb, hc, hd, -⟩ := base32_values_bytes a.toNat_lt
      b.toNat_lt c.toNat_lt d.toNat_lt (by decide : 0 < 256)
    simp only [Nat.zero_shiftRight, Nat.or_zero] at h₇ hd
    simp (disch := decide) only [encodeBase32Loop, encodeBase32Pad_pos, nPadding,
      List.getD_cons_succ, List.getD_cons_zero, List.cons_append, List.nil_append,
      decodeBase32Loop_char h₁, decodeBase32Loop_char h₂, decodeBase32Loop_char h₃,
      decodeBase32Loop_char h₄, decodeBase32Loop_char h₅, decodeBase32Loop_char h₆,
      decodeBase32Loop_char h₇, decodeBase32Loop_replicate_chPad, ha, hb, hc, hd, UInt8.ofNat_toNat]
    refine ⟨trivial, ?_⟩
    rw [Bits.shiftLeft_and_eq_zero _ (by decide : 7 < 2 ^ 3)]
    rfl
  | a :: b :: c :: d :: e :: rest, l, l' => by
    obtain ⟨⟨h₁, h₂, h₃, h₄, h₅, h₆, h₇, h₈⟩, ha, hb, hc, hd, he⟩ :=
      base32_values_bytes a.toNat_lt b.toNat_lt c.toNat_lt d.toNat_lt e.toNat_lt
    obtain ⟨ih₁, ih₂⟩ := decode_encodeBase32 rest
      ((((d.toNat &&& 3) <<< 3) ||| (e.toNat >>> 5)) &&& 7) ((d.toNat &&& 3) <<< 3)
    simp only [encodeBase32Loop_group, List.append_assoc, decodeBase32Loop_group h₁ h₂ h₃ h₄ h₅ h₆
      h₇ h₈, ha, hb, hc, hd, he, UInt8.ofNat_toNat]
    exact ⟨by rw [ih₁], ih₂⟩

/-- Re-encoding what the decoder reads from alphabet characters and padding, when it finds them
valid, gives the characters back with the padding `EncodeBase32` writes. -/
theorem encode_decodeBase32 : ∀ (vs : List Nat), (∀ v ∈ vs, v < 32) → ∀ (k l l' : Nat),
    let d := decodeBase32Loop 0 l (b32Chars vs ++ List.replicate k chPad)
    base32Invalid d.2.1 d.2.2.1 d.2.2.2 = false →
    let e := encodeBase32Loop 0 l' d.1
    (8 - vs.length % 8) % 8 ≤ k ∧
      e.1 ++ encodeBase32Pad e.2.1 e.2.2 =
        b32Chars vs ++ List.replicate ((8 - vs.length % 8) % 8) chPad
  | [], _, k, l, l', _ => by
    simp only [b32Chars, List.map_nil, List.nil_append, decodeBase32Loop_replicate_chPad]
    exact ⟨Nat.zero_le k, rfl⟩
  | [v₁], hvs, k, l, l', hv => by
    simp only [b32Chars, List.map_cons, List.map_nil, List.cons_append, List.nil_append,
      decodeBase32Loop_char (hvs v₁ (by simp)), decodeBase32Loop_replicate_chPad] at hv
    simp [base32Invalid] at hv
  | [v₁, v₂], hvs, k, l, l', hv => by
    have h₁ := hvs v₁ (by simp)
    have h₂ := hvs v₂ (by simp)
    obtain ⟨⟨ha, -⟩, e₁, e₂, -⟩ := base32_bytes_values h₁ h₂ (by decide : 0 < 32)
      (by decide : 0 < 32) (by decide : 0 < 32) (by decide : 0 < 32) (by decide : 0 < 32)
      (by decide : 0 < 32)
    simp only [b32Chars, List.map_cons, List.map_nil, List.cons_append, List.nil_append,
      decodeBase32Loop_char h₁, decodeBase32Loop_char h₂,
      decodeBase32Loop_replicate_chPad] at hv ⊢
    -- two characters need `'======'` and no bits left over
    simp only [base32Invalid, decide_eq_false_iff_not, not_or, not_not] at hv
    obtain ⟨hleft, -, -, -, -, -, hp₅, -⟩ := hv
    simp only [hleft, Nat.zero_shiftLeft, Nat.zero_shiftRight, Nat.or_zero] at e₂
    refine ⟨lt_of_getD_replicate_chPad hp₅, ?_⟩
    simp (disch := decide) only [encodeBase32Loop, encodeBase32Pad_pos, nPadding,
      List.getD_cons_succ, List.getD_cons_zero, UInt8.toNat_ofNat_of_lt' ha, e₁, e₂]
    rfl
  | [v₁, v₂, v₃], hvs, k, l, l', hv => by
    simp only [b32Chars, List.map_cons, List.map_nil, List.cons_append, List.nil_append,
      decodeBase32Loop_char (hvs v₁ (by simp)), decodeBase32Loop_char (hvs v₂ (by simp)),
      decodeBase32Loop_char (hvs v₃ (by simp)), decodeBase32Loop_replicate_chPad] at hv
    simp [base32Invalid] at hv
  | [v₁, v₂, v₃, v₄], hvs, k, l, l', hv => by
    have h₁ := hvs v₁ (by simp)
    have h₂ := hvs v₂ (by simp)
    have h₃ := hvs v₃ (by simp)
    have h₄ := hvs v₄ (by simp)
    obtain ⟨⟨ha, hb, -⟩, e₁, e₂, e₃, e₄, -⟩ := base32_bytes_values h₁ h₂ h₃ h₄
      (by decide : 0 < 32) (by decide : 0 < 32) (by decide : 0 < 32) (by decide : 0 < 32)
    simp only [b32Chars, List.map_cons, List.map_nil, List.cons_append, List.nil_append,
      decodeBase32Loop_char h₁, decodeBase32Loop_char h₂, decodeBase32Loop_char h₃,
      decodeBase32Loop_char h₄, decodeBase32Loop_replicate_chPad] at hv ⊢
    -- four characters need `'===='` and no bits left over
    simp only [base32Invalid, decide_eq_false_iff_not, not_or, not_not] at hv
    obtain ⟨hleft, -, -, -, hp₃, -⟩ := hv
    simp only [hleft, Nat.zero_shiftLeft, Nat.zero_shiftRight, Nat.or_zero] at e₄
    refine ⟨lt_of_getD_replicate_chPad hp₃, ?_⟩
    simp (disch := decide) only [encodeBase32Loop, encodeBase32Pad_pos, nPadding,
      List.getD_cons_succ, List.getD_cons_zero, UInt8.toNat_ofNat_of_lt' ha,
      UInt8.toNat_ofNat_of_lt' hb, e₁, e₂, e₃, e₄]
    rfl
  | [v₁, v₂, v₃, v₄, v₅], hvs, k, l, l', hv => by
    have h₁ := hvs v₁ (by simp)
    have h₂ := hvs v₂ (by simp)
    have h₃ := hvs v₃ (by simp)
    have h₄ := hvs v₄ (by simp)
    have h₅ := hvs v₅ (by simp)
    obtain ⟨⟨ha, hb, hc, -⟩, e₁, e₂, e₃, e₄, e₅, -⟩ := base32_bytes_values h₁ h₂ h₃ h₄ h₅
      (by decide : 0 < 32) (by decide : 0 < 32) (by decide : 0 < 32)
    simp only [b32Chars, List.map_cons, List.map_nil, List.cons_append, List.nil_append,
      decodeBase32Loop_char h₁, decodeBase32Loop_char h₂, decodeBase32Loop_char h₃,
      decodeBase32Loop_char h₄, decodeBase32Loop_char h₅, decodeBase32Loop_replicate_chPad] at hv ⊢
    -- five characters need `'==='` and no bits left over
    simp only [base32Invalid, decide_eq_false_iff_not, not_or, not_not] at hv
    obtain ⟨hleft, -, -, hp₂, -⟩ := hv
    simp only [hleft, Nat.zero_shiftLeft, Nat.zero_shiftRight, Nat.or_zero] at e₅
    refine ⟨lt_of_getD_replicate_chPad hp₂, ?_⟩
    simp (disch := decide) only [encodeBase32Loop, encodeBase32Pad_pos, nPadding,
      List.getD_cons_succ, List.getD_cons_zero, UInt8.toNat_ofNat_of_lt' ha,
      UInt8.toNat_ofNat_of_lt' hb,
      UInt8.toNat_ofNat_of_lt' hc, e₁, e₂, e₃, e₄, e₅]
    rfl
  | [v₁, v₂, v₃, v₄, v₅, v₆], hvs, k, l, l', hv => by
    simp only [b32Chars, List.map_cons, List.map_nil, List.cons_append, List.nil_append,
      decodeBase32Loop_char (hvs v₁ (by simp)), decodeBase32Loop_char (hvs v₂ (by simp)),
      decodeBase32Loop_char (hvs v₃ (by simp)), decodeBase32Loop_char (hvs v₄ (by simp)),
      decodeBase32Loop_char (hvs v₅ (by simp)), decodeBase32Loop_char (hvs v₆ (by simp)),
      decodeBase32Loop_replicate_chPad] at hv
    simp [base32Invalid] at hv
  | [v₁, v₂, v₃, v₄, v₅, v₆, v₇], hvs, k, l, l', hv => by
    have h₁ := hvs v₁ (by simp)
    have h₂ := hvs v₂ (by simp)
    have h₃ := hvs v₃ (by simp)
    have h₄ := hvs v₄ (by simp)
    have h₅ := hvs v₅ (by simp)
    have h₆ := hvs v₆ (by simp)
    have h₇ := hvs v₇ (by simp)
    obtain ⟨⟨ha, hb, hc, hd, -⟩, e₁, e₂, e₃, e₄, e₅, e₆, e₇, -⟩ :=
      base32_bytes_values h₁ h₂ h₃ h₄ h₅ h₆ h₇ (by decide : 0 < 32)
    simp only [b32Chars, List.map_cons, List.map_nil, List.cons_append, List.nil_append,
      decodeBase32Loop_char h₁, decodeBase32Loop_char h₂, decodeBase32Loop_char h₃,
      decodeBase32Loop_char h₄, decodeBase32Loop_char h₅, decodeBase32Loop_char h₆,
      decodeBase32Loop_char h₇, decodeBase32Loop_replicate_chPad] at hv ⊢
    -- seven characters need `'='` and no bits left over
    simp only [base32Invalid, decide_eq_false_iff_not, not_or, not_not] at hv
    obtain ⟨hleft, hp₀, -⟩ := hv
    simp only [hleft, Nat.zero_shiftLeft, Nat.zero_shiftRight, Nat.or_zero] at e₇
    refine ⟨lt_of_getD_replicate_chPad hp₀, ?_⟩
    simp (disch := decide) only [encodeBase32Loop, encodeBase32Pad_pos, nPadding,
      List.getD_cons_succ, List.getD_cons_zero, UInt8.toNat_ofNat_of_lt' ha,
      UInt8.toNat_ofNat_of_lt' hb,
      UInt8.toNat_ofNat_of_lt' hc, UInt8.toNat_ofNat_of_lt' hd, e₁, e₂, e₃, e₄, e₅, e₆, e₇]
    rfl
  | v₁ :: v₂ :: v₃ :: v₄ :: v₅ :: v₆ :: v₇ :: v₈ :: rest, hvs, k, l, l', hv => by
    have h₁ := hvs v₁ (by simp)
    have h₂ := hvs v₂ (by simp)
    have h₃ := hvs v₃ (by simp)
    have h₄ := hvs v₄ (by simp)
    have h₅ := hvs v₅ (by simp)
    have h₆ := hvs v₆ (by simp)
    have h₇ := hvs v₇ (by simp)
    have h₈ := hvs v₈ (by simp)
    obtain ⟨⟨ha, hb, hc, hd, he⟩, e₁, e₂, e₃, e₄, e₅, e₆, e₇, e₈⟩ :=
      base32_bytes_values h₁ h₂ h₃ h₄ h₅ h₆ h₇ h₈
    have hsplit : b32Chars (v₁ :: v₂ :: v₃ :: v₄ :: v₅ :: v₆ :: v₇ :: v₈ :: rest) =
        b32Chars [v₁, v₂, v₃, v₄, v₅, v₆, v₇, v₈] ++ b32Chars rest := rfl
    rw [hsplit, List.append_assoc, decodeBase32Loop_group h₁ h₂ h₃ h₄ h₅ h₆ h₇ h₈] at hv ⊢
    obtain ⟨hk, ih⟩ := encode_decodeBase32 rest (fun v hv => hvs v (by simp [hv])) k (v₇ &&& 7)
      (((((((v₅ &&& 1) <<< 5) ||| v₆) <<< 2) ||| (v₇ >>> 3)) &&& 3) <<< 3) hv
    have hlen : (rest.length + 1 + 1 + 1 + 1 + 1 + 1 + 1 + 1) % 8 = rest.length % 8 := by omega
    simp only [encodeBase32Loop_group, UInt8.toNat_ofNat_of_lt' ha, UInt8.toNat_ofNat_of_lt' hb,
      UInt8.toNat_ofNat_of_lt' hc, UInt8.toNat_ofNat_of_lt' hd, UInt8.toNat_ofNat_of_lt' he, e₁, e₂,
      e₃, e₄, e₅, e₆, e₇, e₈, List.length_cons, hlen, List.append_assoc, ih]
    exact ⟨hk, trivial⟩

/-- `DecodeBase32` reads back what `EncodeBase32` writes, and finds it valid. -/
theorem decodeBase32_encodeBase32 (b : List UInt8) : DecodeBase32 (EncodeBase32 b) = (b, false) := by
  obtain ⟨h₁, h₂⟩ := decode_encodeBase32 b 0 0
  exact Prod.ext h₁ h₂

/-! ### Strings the decoders accept -/

/-- Upper-case ASCII letters to lower case, every other byte unchanged: how the strings the claim
compares are taken up to letter case (no function of the source). -/
def asciiToLower (c : UInt8) : UInt8 :=
  if 'A'.toUInt8 ≤ c ∧ c ≤ 'Z'.toUInt8 then c + 32 else c

set_option maxRecDepth 4000 in
theorem pbase64_decode64 :
    ∀ c : UInt8, decode64 c ≠ -1 → (decode64 c).toNat < 64 ∧ pbase64.getD (decode64 c).toNat 0 = c := by
  decide

set_option maxRecDepth 4000 in
theorem pbase32_decode32 :
    ∀ c : UInt8, decode32 c ≠ -1 →
      (decode32 c).toNat < 32 ∧ pbase32.getD (decode32 c).toNat 0 = asciiToLower c := by
  decide

/-- A string of base64 characters followed by `k` times `'='` that `DecodeBase64` finds valid
re-encodes to the same characters followed by the padding `EncodeBase64` writes, of at most `k`. -/
theorem encodeBase64_decodeBase64 {s : List UInt8} (hs : ∀ c ∈ s, decode64 c ≠ -1) (k : Nat)
    (hvalid : (DecodeBase64 (s ++ List.replicate k chPad)).2 = false) :
    (4 - s.length % 4) % 4 ≤ k ∧
      EncodeBase64 (DecodeBase64 (s ++ List.replicate k chPad)).1 =
        s ++ List.replicate ((4 - s.length % 4) % 4) chPad := by
  -- each character is the alphabet's character of its value
  have hchars : b64Chars (s.map fun c => (decode64 c).toNat) = s := by
    rw [b64Chars, List.map_map]
    conv_rhs => rw [← List.map_id s]
    exact List.map_congr_left fun c hc => (pbase64_decode64 c (hs c hc)).2
  have hvs : ∀ v ∈ s.map (fun c => (decode64 c).toNat), v < 64 := by
    simp only [List.mem_map]
    rintro v ⟨c, hc, rfl⟩
    exact (pbase64_decode64 c (hs c hc)).1
  have := encode_decodeBase64 _ hvs k 0 0
  rw [hchars, List.length_map] at this
  exact this hvalid

set_option maxRecDepth 4000 in
/-- The decoder reads a letter of either case the same. -/
theorem decode32_asciiToLower : ∀ c : UInt8, decode32 (asciiToLower c) = decode32 c := by
  decide

/-- Over alphabet characters, the decoder does not see their case. -/
theorem decodeBase32Loop_map_asciiToLower {p : List UInt8} :
    ∀ (s : List UInt8), (∀ c ∈ s, decode32 c ≠ -1) → ∀ (mode left : Nat),
      decodeBase32Loop mode left (s.map asciiToLower ++ p) = decodeBase32Loop mode left (s ++ p)
  | [], _, _, _ => rfl
  | c :: s, hs, mode, left => by
    have ih := decodeBase32Loop_map_asciiToLower (p := p) s (fun c' hc' => hs c' (by simp [hc']))
    have hc := hs c (by simp)
    rw [List.map_cons, List.cons_append, List.cons_append, decodeBase32Loop, decodeBase32Loop,
      decode32_asciiToLower, if_neg hc, if_neg hc]
    simp only [ih]

/-- A string of base32 characters of either case followed by `k` times `'='` that `DecodeBase32`
finds valid re-encodes to the same characters in lower case followed by the padding
`EncodeBase32` writes, of at most `k`. -/
theorem encodeBase32_decodeBase32 {s : List UInt8} (hs : ∀ c ∈ s, decode32 c ≠ -1) (k : Nat)
    (hvalid : (DecodeBase32 (s ++ List.replicate k chPad)).2 = false) :
    (8 - s.length % 8) % 8 ≤ k ∧
      EncodeBase32 (DecodeBase32 (s ++ List.replicate k chPad)).1 =
        s.map asciiToLower ++ List.replicate ((8 - s.length % 8) % 8) chPad := by
  -- each character is, in lower case, the alphabet's character of its value
  have hchars : b32Chars (s.map fun c => (decode32 c).toNat) = s.map asciiToLower := by
    rw [b32Chars, List.map_map]
    exact List.map_congr_left fun c hc => (pbase32_decode32 c (hs c hc)).2
  have hvs : ∀ v ∈ s.map (fun c => (decode32 c).toNat), v < 32 := by
    simp only [List.mem_map]
    rintro v ⟨c, hc, rfl⟩
    exact (pbase32_decode32 c (hs c hc)).1
  have hcase := decodeBase32Loop_map_asciiToLower (p := List.replicate k chPad) s hs 0 0
  have := encode_decodeBase32 _ hvs k 0 0
  rw [hchars, List.length_map, hcase] at this
  exact this hvalid

/-- Both encodings read back what they write, and re-encoding what a decoder accepts from alphabet
characters and `'='` gives the characters back (in lower case for base32) with the encoder's
padding, which is at most the padding read: a string with more `'='` than the encoder writes is
accepted but does not come back. -/
theorem base64_base32_roundtrip :
    (∀ b, DecodeBase64 (EncodeBase64 b) = (b, false)) ∧
    (∀ b, DecodeBase32 (EncodeBase32 b) = (b, false)) ∧
    (∀ (s : List UInt8) (k : Nat), (∀ c ∈ s, decode64 c ≠ -1) →
      (DecodeBase64 (s ++ List.replicate k chPad)).2 = false →
      (4 - s.length % 4) % 4 ≤ k ∧
        EncodeBase64 (DecodeBase64 (s ++ List.replicate k chPad)).1 =
          s ++ List.replicate ((4 - s.length % 4) % 4) chPad) ∧
    (∀ (s : List UInt8) (k : Nat), (∀ c ∈ s, decode32 c ≠ -1) →
      (DecodeBase32 (s ++ List.replicate k chPad)).2 = false →
      (8 - s.length % 8) % 8 ≤ k ∧
        EncodeBase32 (DecodeBase32 (s ++ List.replicate k chPad)).1 =
          s.map asciiToLower ++ List.replicate ((8 - s.length % 8) % 8) chPad) :=
  ⟨decodeBase64_encodeBase64, decodeBase32_encodeBase32,
    fun _ k hs hvalid => encodeBase64_decodeBase64 hs k hvalid,
    fun _ k hs hvalid => encodeBase32_decodeBase32 hs k hvalid⟩

set_option maxRecDepth 4000 in
/-- `"ME======"`, the base32 of `"a"` in upper case, re-encodes to `"me======"`. -/
theorem base64_base32_roundtrip_upper :
    EncodeBase32 (DecodeBase32 ("ME".toList.map Char.toUInt8 ++ List.replicate 6 chPad)).1 =
      "me".toList.map Char.toUInt8 ++ List.replicate 6 chPad := by
  have h := (base64_base32_roundtrip.2.2.2 ("ME".toList.map Char.toUInt8) 6 (by decide)
    (by decide)).2
  have hlower : ("ME".toList.map Char.toUInt8).map asciiToLower = "me".toList.map Char.toUInt8 := by
    decide
  rwa [hlower] at h

/-- `"AAAA="` is accepted as the three bytes `0`, whose encoding is `"AAAA"`. -/
theorem base64_reencode_extra_padding :
    DecodeBase64 ("AAAA=".toList.map Char.toUInt8) = ([0, 0, 0], false) ∧
      EncodeBase64 [0, 0, 0] ≠ "AAAA=".toList.map Char.toUInt8 := by
  decide

end Trumpow
