import Trumpow.Primitives.Uint256
import Trumpow.Support.Digits

/-!
# Util — base58

`DecodeBase58`, `EncodeBase58` and their checked forms, of `base58.cpp`.  Both convert between
radices through a buffer of fixed size with the same `for` loop, "apply `b = b * base + carry`",
modelled once as `mulAddLoop` over the buffer read from its end; a C string is a byte list whose
NUL is past its end, and `Hash` (double SHA-256) is a parameter.  A call ends with its result,
with `return false`, or with `assert(carry == 0)` failing (`Base58Exit`).

One pass of the loop adds `base` times the buffer's value and the carry, and keeps the buffer
zero from `length` on (`mulAddLoop_spec`, `BufferInv`); the buffers are sized so that the carry
always fits (`decodeBase58_room`, `encodeBase58_room`, from `Digits.pow_lt_pow_div_add_one`), so
neither `assert` can fail.  What the functions copy out of a buffer is then the Mathlib digits of
its value (`bufferInv_digits`), and the round trips are `Nat.digits` and `Nat.ofDigits` inverting
each other, with the leading `'1'`s and zero bytes counted apart (`base58_roundtrip`).
-/

namespace Trumpow

/-- `pszBase58`: all alphanumeric characters except `0`, `I`, `O` and `l`. -/
def pszBase58 : List UInt8 :=
  "123456789ABCDEFGHJKLMNPQRSTUVWXYZabcdefghijkmnopqrstuvwxyz".toList.map Char.toUInt8

/-- `isspace` in the C locale: space, `\t`, `\n`, `\v`, `\f` and `\r`. -/
def isspace (c : UInt8) : Bool := c == 32 || (9 ≤ c && c ≤ 13)

/-- `strlen(psz)`: the bytes before the first NUL. -/
def strlen (psz : List UInt8) : Nat := (psz.takeWhile (· ≠ 0)).length

/-- How `DecodeBase58` and `EncodeBase58` end other than with their result. -/
inductive Base58Exit
  /-- the function returns `false` -/
  | returnFalse
  /-- `assert(carry == 0)` fails -/
  | assertFail
deriving DecidableEq, Repr

/-- The `for` loop over a buffer from `rbegin()` that applies `b = b * base + carry` in radix
`radix`: `ds` is the buffer read from its end, and the loop runs while `carry` is not spent or
`i < length`, up to `rend()`.  The buffer, `carry` and `i` after it. -/
def mulAddLoop (base radix : Nat) : Nat → Nat → Nat → List Nat → List Nat × Nat × Nat
  | carry, i, _, [] => ([], carry, i)
  | carry, i, length, d :: ds =>
    if carry ≠ 0 ∨ i < length then
      let carry := carry + base * d
      let r := mulAddLoop base radix (carry / radix) (i + 1) length ds
      (carry % radix :: r.1, r.2)
    else (d :: ds, carry, i)

/-- The `while (*psz && !isspace(*psz))` loop of `DecodeBase58`, on the buffer `b256` read from its
end: the buffer, `length` and `psz` where it stops. -/
def decodeBase58Loop (rb256 : List Nat) (length : Nat) :
    List UInt8 → Except Base58Exit (List Nat × Nat × List UInt8)
  | [] => .ok (rb256, length, [])
  | c :: psz =>
    if c = 0 ∨ isspace c then .ok (rb256, length, c :: psz)
    else
      -- Decode base58 character
      match pszBase58.idxOf? c with
      | none => .error .returnFalse
      | some ch =>
        -- Apply "b256 = b256 * 58 + ch".
        let r := mulAddLoop 58 256 ch 0 length rb256
        if r.2.1 ≠ 0 then .error .assertFail
        else decodeBase58Loop r.1 r.2.2 psz

/-- `DecodeBase58(psz, vch)`: `vch` when it returns `true`. -/
def DecodeBase58 (psz : List UInt8) : Except Base58Exit (List UInt8) := do
  -- Skip leading spaces.
  let psz := psz.dropWhile isspace
  -- Skip and count leading '1's.
  let zeroes := (psz.takeWhile (· = '1'.toUInt8)).length
  let psz := psz.drop zeroes
  -- Allocate enough space in big-endian base256 representation.
  let size := strlen psz * 733 / 1000 + 1
  let (rb256, length, psz) ← decodeBase58Loop (List.replicate size 0) 0 psz
  -- Skip trailing spaces.
  let psz := psz.dropWhile isspace
  if psz.headD 0 ≠ 0 then throw .returnFalse
  -- Skip leading zeroes in b256.
  let it := (rb256.reverse.drop (size - length)).dropWhile (· = 0)
  -- Copy result into output vector.
  return List.replicate zeroes 0 ++ it.map UInt8.ofNat

/-- The `while (pbegin != pend)` loop of `EncodeBase58`, on the buffer `b58` read from its end. -/
def encodeBase58Loop (rb58 : List Nat) (length : Nat) :
    List UInt8 → Except Base58Exit (List Nat × Nat)
  | [] => .ok (rb58, length)
  | c :: pbegin =>
    -- Apply "b58 = b58 * 256 + ch".
    let r := mulAddLoop 256 58 c.toNat 0 length rb58
    if r.2.1 ≠ 0 then .error .assertFail
    else encodeBase58Loop r.1 r.2.2 pbegin

/-- `EncodeBase58(pbegin, pend)`. -/
def EncodeBase58 (pch : List UInt8) : Except Base58Exit (List UInt8) := do
  -- Skip & count leading zeroes.
  let zeroes := (pch.takeWhile (· = 0)).length
  let pbegin := pch.drop zeroes
  -- Allocate enough space in big-endian base58 representation.
  let size := pbegin.length * 138 / 100 + 1
  let (rb58, length) ← encodeBase58Loop (List.replicate size 0) 0 pbegin
  -- Skip leading zeroes in base58 result.
  let it := (rb58.reverse.drop (size - length)).dropWhile (· = 0)
  -- Translate the result into a string.
  return List.replicate zeroes '1'.toUInt8 ++ it.map fun d => pszBase58.getD d 0

/-- `EncodeBase58Check(vchIn)`: the first four bytes of `Hash(vchIn)` appended. -/
def EncodeBase58Check (Hash : List UInt8 → Uint256) (vchIn : List UInt8) :
    Except Base58Exit (List UInt8) :=
  EncodeBase58 (vchIn ++ (Hash vchIn).data.take 4)

/-- `DecodeBase58Check(psz, vchRet)`: `vchRet` when it returns `true`; when it returns `false` it
has cleared `vchRet`. -/
def DecodeBase58Check (Hash : List UInt8 → Uint256) (psz : List UInt8) :
    Except Base58Exit (List UInt8) := do
  let vchRet ← DecodeBase58 psz
  if vchRet.length < 4 then throw .returnFalse
  -- re-calculate the checksum, insure it matches the included 4-byte checksum
  let hash := Hash (vchRet.take (vchRet.length - 4))
  if hash.data.take 4 ≠ vchRet.drop (vchRet.length - 4) then throw .returnFalse
  return vchRet.take (vchRet.length - 4)

/-! ### The buffer loop -/
/-- What the digits from `n` on of a buffer with one more digit in front keep. -/
theorem mem_drop_of_mem_drop_pred {d x : Nat} {ds : List Nat} {n : Nat} (hx : x ∈ ds.drop (n - 1)) :
    x ∈ (d :: ds).drop n := by
  cases n with
  | zero => exact List.mem_cons_of_mem d (by simpa using hx)
  | succ n => simpa using hx

/-- One pass of the `for` loop: the buffer with the carry left above it is `base` times the
buffer plus `carry`, its length is kept, its digits stay below `radix`, and it is zero from the
`i` where the loop stopped on. -/
theorem mulAddLoop_spec (base radix : Nat) (hr : 0 < radix) :
    ∀ (ds : List Nat) (carry i length : Nat), (∀ d ∈ ds, d < radix) →
      (∀ d ∈ ds.drop (length - i), d = 0) →
      let r := mulAddLoop base radix carry i length ds
      Nat.ofDigits radix r.1 + r.2.1 * radix ^ ds.length = base * Nat.ofDigits radix ds + carry ∧
        r.1.length = ds.length ∧ (∀ d ∈ r.1, d < radix) ∧ (∀ d ∈ r.1.drop (r.2.2 - i), d = 0) ∧
        i ≤ r.2.2 ∧ r.2.2 ≤ i + ds.length
  | [], carry, i, length, _, _ => by simp [mulAddLoop]
  | d :: ds, carry, i, length, hlt, hzero => by
    by_cases hc : carry ≠ 0 ∨ i < length
    · -- the digit takes the carry in, and the rest of the buffer what is left of it
      obtain ⟨ih₁, ih₂, ih₃, ih₄, ih₅, ih₆⟩ := mulAddLoop_spec base radix hr ds
        ((carry + base * d) / radix) (i + 1) length (fun x hx => hlt x (by simp [hx]))
        (fun x hx => hzero x (mem_drop_of_mem_drop_pred (by rwa [Nat.sub_sub])))
      simp only [mulAddLoop, if_pos hc]
      generalize mulAddLoop base radix ((carry + base * d) / radix) (i + 1) length ds = r
        at ih₁ ih₂ ih₃ ih₄ ih₅ ih₆ ⊢
      obtain ⟨ds', carry', i'⟩ := r
      dsimp only at ih₁ ih₂ ih₃ ih₄ ih₅ ih₆ ⊢
      refine ⟨?_, by simp [ih₂], ?_, ?_, by omega, by simp only [List.length_cons]; omega⟩
      · rw [Nat.ofDigits_cons, Nat.ofDigits_cons, List.length_cons, pow_succ]
        calc (carry + base * d) % radix + radix * Nat.ofDigits radix ds' +
              carry' * (radix ^ ds.length * radix)
            = (carry + base * d) % radix +
                radix * (Nat.ofDigits radix ds' + carry' * radix ^ ds.length) := by ring
          _ = (carry + base * d) % radix +
                radix * (base * Nat.ofDigits radix ds + (carry + base * d) / radix) := by rw [ih₁]
          _ = ((carry + base * d) % radix + radix * ((carry + base * d) / radix)) +
                radix * base * Nat.ofDigits radix ds := by ring
          _ = base * (d + radix * Nat.ofDigits radix ds) + carry := by rw [Nat.mod_add_div]; ring
      · simpa using ⟨Nat.mod_lt _ hr, ih₃⟩
      · -- the new digit sits below `i'`, where the zeros of the rest start
        obtain ⟨k, hk⟩ : ∃ k, i' - i = k + 1 := ⟨i' - (i + 1), by omega⟩
        rw [hk, List.drop_succ_cons]
        rwa [show k = i' - (i + 1) by omega]
    · -- the carry is spent past `length`: the rest of the buffer is zero and stays
      simp only [mulAddLoop, if_neg hc]
      have hi : length - i = 0 := by omega
      rw [hi, List.drop_zero] at hzero
      have h0 := Digits.ofDigits_eq_zero (b := radix) hzero
      refine ⟨?_, trivial, hlt, ?_, le_refl i, by simp⟩
      · simp only [not_or, not_not] at hc
        rw [h0, hc.1]
        simp
      · simpa using hzero

/-- The buffer of a conversion: `size` digits of radix `radix`, least significant first, with
`length ≤ size` and every digit from `length` on zero. -/
def BufferInv (radix size : Nat) (rb : List Nat) (length : Nat) : Prop :=
  rb.length = size ∧ length ≤ size ∧ (∀ d ∈ rb, d < radix) ∧ ∀ d ∈ rb.drop length, d = 0

/-- The zero buffer `std::vector<unsigned char>(size)`. -/
theorem bufferInv_replicate (radix size : Nat) (hr : 0 < radix) :
    BufferInv radix size (List.replicate size 0) 0 :=
  ⟨List.length_replicate, Nat.zero_le size, fun _ hd => (List.eq_of_mem_replicate hd) ▸ hr,
    by simp⟩

/-- A pass of the loop over a buffer with room for `base` times its value plus `carry` leaves no
carry, keeps the buffer invariant, and leaves that value in the buffer. -/
theorem mulAddLoop_buffer {base radix size : Nat} (hr : 0 < radix) {rb : List Nat}
    {length carry : Nat} (hinv : BufferInv radix size rb length)
    (hfit : base * Nat.ofDigits radix rb + carry < radix ^ size) :
    ∃ rb' length', mulAddLoop base radix carry 0 length rb = (rb', 0, length') ∧
      BufferInv radix size rb' length' ∧
      Nat.ofDigits radix rb' = base * Nat.ofDigits radix rb + carry := by
  obtain ⟨hlen, -, hlt, hzero⟩ := hinv
  obtain ⟨h₁, h₂, h₃, h₄, -, h₆⟩ :=
    mulAddLoop_spec base radix hr rb carry 0 length hlt (by simpa using hzero)
  generalize mulAddLoop base radix carry 0 length rb = r at h₁ h₂ h₃ h₄ h₆ ⊢
  obtain ⟨rb', carry', length'⟩ := r
  dsimp only at h₁ h₂ h₃ h₄ h₆
  -- a carry left over would be worth at least `radix ^ size`
  have hc : carry' = 0 := by
    by_contra hne
    have : radix ^ size ≤ carry' * radix ^ rb.length :=
      hlen ▸ Nat.le_mul_of_pos_left _ (Nat.pos_of_ne_zero hne)
    omega
  subst hc
  rw [Nat.zero_mul, Nat.add_zero] at h₁
  exact ⟨rb', length', rfl, ⟨h₂.trans hlen, by omega, h₃, by simpa using h₄⟩, h₁⟩

/-- The digits `DecodeBase58` and `EncodeBase58` copy out of a buffer, from `size - length` on
with the leading zeros skipped, are the digits of its value. -/
theorem bufferInv_digits {radix size : Nat} (hr : 1 < radix) {rb : List Nat} {length : Nat}
    (hinv : BufferInv radix size rb length) :
    (rb.reverse.drop (size - length)).dropWhile (· = 0) =
      (Nat.digits radix (Nat.ofDigits radix rb)).reverse := by
  obtain ⟨hlen, hle, hlt, hzero⟩ := hinv
  -- what is skipped is the digits from `length` on, zeros
  rw [Digits.dropWhile_drop, Digits.dropWhile_zero_eq_digits hr _ (by simpa using hlt),
    List.reverse_reverse]
  rw [List.take_reverse, hlen, show size - (size - length) = length by omega]
  simpa using hzero

/-- The zero buffer of `DecodeBase58` has room for every character before the NUL: `733 / 1000`
is above `63 / 86`, and `58 ^ 86 ≤ 256 ^ 63`. -/
theorem decodeBase58_room (n : Nat) :
    (Nat.ofDigits 256 (List.replicate (n * 733 / 1000 + 1) 0) + 1) * 58 ^ n ≤
      256 ^ (n * 733 / 1000 + 1) := by
  rw [Nat.ofDigits_replicate_zero, Nat.zero_add, Nat.one_mul]
  calc 58 ^ n ≤ 256 ^ (n * 63 / 86 + 1) :=
        (Digits.pow_lt_pow_div_add_one (by norm_num) (by norm_num) (by norm_num) n).le
    _ ≤ 256 ^ (n * 733 / 1000 + 1) := Nat.pow_le_pow_right (by norm_num) (by omega)

/-- The zero buffer of `EncodeBase58` has room for every byte: `138 / 100` is above `41 / 30`,
and `256 ^ 30 ≤ 58 ^ 41`. -/
theorem encodeBase58_room (n : Nat) :
    (Nat.ofDigits 58 (List.replicate (n * 138 / 100 + 1) 0) + 1) * 256 ^ n ≤
      58 ^ (n * 138 / 100 + 1) := by
  rw [Nat.ofDigits_replicate_zero, Nat.zero_add, Nat.one_mul]
  calc 256 ^ n ≤ 58 ^ (n * 41 / 30 + 1) :=
        (Digits.pow_lt_pow_div_add_one (by norm_num) (by norm_num) (by norm_num) n).le
    _ ≤ 58 ^ (n * 138 / 100 + 1) := Nat.pow_le_pow_right (by norm_num) (by omega)

/-! ### The alphabet -/
theorem pszBase58_length : pszBase58.length = 58 := rfl

/-- The alphabet starts at `'1'`. -/
theorem pszBase58_ge : pszBase58.all (fun c => 49 ≤ c) = true := by decide

/-- The spaces are the bytes up to `32`. -/
theorem isspace_of_gt {c : UInt8} (h : 32 < c.toNat) : isspace c = false := by
  simp only [isspace, Bool.or_eq_false_iff, beq_eq_false_iff_ne, Bool.and_eq_false_iff,
    decide_eq_false_iff_not]
  refine ⟨fun h32 => by simp [h32] at h, Or.inr fun h13 => ?_⟩
  have := UInt8.le_iff_toNat_le.mp h13
  simp only [UInt8.reduceToNat] at this
  omega

/-- The characters of the alphabet are neither NUL nor space. -/
theorem pszBase58_chars {c : UInt8} (hc : c ∈ pszBase58) : c ≠ 0 ∧ isspace c = false := by
  have hge : (49 : UInt8) ≤ c := by simpa using List.all_eq_true.mp pszBase58_ge c hc
  have h : 49 ≤ c.toNat := UInt8.le_iff_toNat_le.mp hge
  exact ⟨fun h0 => by simp [h0] at h, isspace_of_gt (by omega)⟩

/-- `'1'`, the character of the digit `0`, is not space. -/
theorem isspace_one : isspace '1'.toUInt8 = false := rfl

theorem strlen_cons {c : UInt8} (hc : c ≠ 0) (psz : List UInt8) :
    strlen (c :: psz) = strlen psz + 1 := by
  simp [strlen, hc]

/-- `strchr` finds a character of the alphabet at its index. -/
theorem idxOf?_pszBase58 {c : UInt8} (hc : c ∈ pszBase58) :
    pszBase58.idxOf? c = some (pszBase58.idxOf c) :=
  List.findIdx?_eq_some_of_exists ⟨c, hc, beq_self_eq_true c⟩

set_option maxRecDepth 4000 in
/-- The alphabet has no character twice. -/
theorem idxOf_pszBase58 : ∀ v < 58, pszBase58.idxOf (pszBase58.getD v 0) = v := by
  decide

/-- The character of a base-58 digit is in the alphabet. -/
theorem getD_pszBase58_mem {d : Nat} (hd : d < 58) : pszBase58.getD d 0 ∈ pszBase58 := by
  rw [List.getD_eq_getElem _ _ (by rw [pszBase58_length]; exact hd)]
  exact List.getElem_mem _

/-- A character of the alphabet is the character of its index. -/
theorem getD_idxOf_pszBase58 {c : UInt8} (hc : c ∈ pszBase58) :
    pszBase58.getD (pszBase58.idxOf c) 0 = c := by
  rw [List.getD_eq_getElem _ _ (List.idxOf_lt_length_of_mem hc)]
  exact List.getElem_idxOf _

/-- Only the digit `0` is written `'1'`. -/
theorem idxOf_pszBase58_eq_zero {c : UInt8} (hc : c ∈ pszBase58) :
    pszBase58.idxOf c = 0 ↔ c = '1'.toUInt8 := by
  constructor
  · intro h
    rw [← getD_idxOf_pszBase58 hc, h]
    rfl
  · rintro rfl
    rfl

/-! ### The loops of `DecodeBase58` and `EncodeBase58` -/
/-- An alphabet character, with room in the buffer for it, is one pass of the loop. -/
theorem decodeBase58Loop_char {size : Nat} {rb : List Nat} {length : Nat} {c : UInt8}
    (hc : c ∈ pszBase58) (psz : List UInt8) (hinv : BufferInv 256 size rb length)
    (hfit : 58 * Nat.ofDigits 256 rb + pszBase58.idxOf c < 256 ^ size) :
    ∃ rb' length', BufferInv 256 size rb' length' ∧
      Nat.ofDigits 256 rb' = 58 * Nat.ofDigits 256 rb + pszBase58.idxOf c ∧
      decodeBase58Loop rb length (c :: psz) = decodeBase58Loop rb' length' psz := by
  obtain ⟨h0, hspace⟩ := pszBase58_chars hc
  obtain ⟨rb', length', hrun, hinv', hval⟩ := mulAddLoop_buffer (by norm_num) hinv hfit
  refine ⟨rb', length', hinv', hval, ?_⟩
  rw [decodeBase58Loop, if_neg (by simp [h0, hspace]), idxOf?_pszBase58 hc]
  simp [hrun]

/-- `DecodeBase58`'s loop never fails its `assert` while the buffer has room for every character
left before the NUL. -/
theorem decodeBase58Loop_ne_assertFail {size : Nat} :
    ∀ (psz : List UInt8) (rb : List Nat) (length : Nat), BufferInv 256 size rb length →
      (Nat.ofDigits 256 rb + 1) * 58 ^ strlen psz ≤ 256 ^ size →
      decodeBase58Loop rb length psz ≠ .error .assertFail
  | [], _, _, _, _ => by simp [decodeBase58Loop]
  | c :: psz, rb, length, hinv, hroom => by
    by_cases hstop : c = 0 ∨ isspace c
    · simp [decodeBase58Loop, hstop]
    by_cases hc : c ∈ pszBase58
    · -- an alphabet character takes one digit of the room
      have hc0 : c ≠ 0 := (pszBase58_chars hc).1
      rw [strlen_cons hc0] at hroom
      obtain ⟨hfit, hroom'⟩ :=
        Digits.mulAdd_fits (List.idxOf_lt_length_of_mem hc) hroom
      obtain ⟨rb', length', hinv', hval, hstep⟩ := decodeBase58Loop_char hc psz hinv hfit
      rw [hstep]
      exact decodeBase58Loop_ne_assertFail psz rb' length' hinv' (hval ▸ hroom')
    · -- `strchr` finds nothing: `return false`
      rw [decodeBase58Loop, if_neg hstop, List.idxOf?_eq_none_iff.mpr hc]
      simp

/-- On alphabet characters up to a NUL or a space, the loop reads the characters as base-58
digits into the buffer. -/
theorem decodeBase58Loop_alphabet {size : Nat} {p : List UInt8}
    (hp : p.headD 0 = 0 ∨ isspace (p.headD 0)) :
    ∀ (cs : List UInt8) (rb : List Nat) (length : Nat), (∀ c ∈ cs, c ∈ pszBase58) →
      BufferInv 256 size rb length → (Nat.ofDigits 256 rb + 1) * 58 ^ cs.length ≤ 256 ^ size →
      ∃ rb' length', decodeBase58Loop rb length (cs ++ p) = .ok (rb', length', p) ∧
        BufferInv 256 size rb' length' ∧
        Nat.ofDigits 256 rb' = Nat.ofDigits 256 rb * 58 ^ cs.length +
          Nat.ofDigits 58 (cs.map pszBase58.idxOf).reverse
  | [], rb, length, _, hinv, _ => by
    refine ⟨rb, length, ?_, hinv, by simp⟩
    cases p with
    | nil => rfl
    | cons c p => simp [decodeBase58Loop, show c = 0 ∨ isspace c by simpa using hp]
  | c :: cs, rb, length, hcs, hinv, hroom => by
    have hc := hcs c (by simp)
    obtain ⟨hfit, hroom'⟩ := Digits.mulAdd_fits (List.idxOf_lt_length_of_mem hc) hroom
    obtain ⟨rb', length', hinv', hval, hstep⟩ := decodeBase58Loop_char hc (cs ++ p) hinv hfit
    obtain ⟨rb'', length'', hrun, hinv'', hval'⟩ := decodeBase58Loop_alphabet hp cs rb' length'
      (fun c' hc' => hcs c' (by simp [hc'])) hinv' (hval ▸ hroom')
    refine ⟨rb'', length'', by rw [List.cons_append, hstep, hrun], hinv'', ?_⟩
    rw [hval', hval, List.map_cons, List.reverse_cons, Nat.ofDigits_append, List.length_reverse,
      List.length_map, Nat.ofDigits_singleton, List.length_cons, pow_succ]
    ring

/-- `EncodeBase58`'s loop reads the bytes as base-256 digits into the buffer, and never fails its
`assert` while the buffer has room for them. -/
theorem encodeBase58Loop_spec {size : Nat} :
    ∀ (bs : List UInt8) (rb : List Nat) (length : Nat), BufferInv 58 size rb length →
      (Nat.ofDigits 58 rb + 1) * 256 ^ bs.length ≤ 58 ^ size →
      ∃ rb' length', encodeBase58Loop rb length bs = .ok (rb', length') ∧
        BufferInv 58 size rb' length' ∧
        Nat.ofDigits 58 rb' = Nat.ofDigits 58 rb * 256 ^ bs.length +
          Nat.ofDigits 256 (bs.map UInt8.toNat).reverse
  | [], rb, length, hinv, _ => ⟨rb, length, rfl, hinv, by simp⟩
  | c :: bs, rb, length, hinv, hroom => by
    obtain ⟨hfit, hroom'⟩ := Digits.mulAdd_fits c.toNat_lt hroom
    obtain ⟨rb', length', hrun, hinv', hval⟩ := mulAddLoop_buffer (by norm_num) hinv hfit
    obtain ⟨rb'', length'', hloop, hinv'', hval'⟩ :=
      encodeBase58Loop_spec bs rb' length' hinv' (hval ▸ hroom')
    refine ⟨rb'', length'', ?_, hinv'', ?_⟩
    · simp [encodeBase58Loop, hrun, hloop]
    · rw [hval', hval, List.map_cons, List.reverse_cons, Nat.ofDigits_append, List.length_reverse,
        List.length_map, Nat.ofDigits_singleton, List.length_cons, pow_succ]
      ring

/-! ### Round trips -/
/-- On alphabet characters after a run of `'1'`, `DecodeBase58` returns a zero byte for each
`'1'`, then the base-256 digits of the base-58 number the rest spells. -/
theorem decodeBase58_alphabet (z : Nat) {cs : List UInt8} (hcs : ∀ c ∈ cs, c ∈ pszBase58)
    (hhead : cs.head? ≠ some '1'.toUInt8) :
    DecodeBase58 (List.replicate z '1'.toUInt8 ++ cs) =
      .ok (List.replicate z 0 ++ (Nat.digits 256
        (Nat.ofDigits 58 (cs.map pszBase58.idxOf).reverse)).reverse.map UInt8.ofNat) := by
  -- no leading space
  have hspace : (List.replicate z '1'.toUInt8 ++ cs).dropWhile isspace =
      List.replicate z '1'.toUInt8 ++ cs := by
    cases z with
    | zero =>
      cases cs with
      | nil => rfl
      | cons c cs => exact List.dropWhile_cons_of_neg (by simp [(pszBase58_chars (hcs c (by simp))).2])
    | succ z => exact List.dropWhile_cons_of_neg (by simp [isspace_one])
  -- the leading `'1'`s are exactly the run
  have hones : ((List.replicate z '1'.toUInt8 ++ cs).takeWhile (· = '1'.toUInt8)).length = z := by
    rw [List.takeWhile_append_of_pos (by simp)]
    cases cs with
    | nil => simp
    | cons c cs =>
      rw [List.takeWhile_cons_of_neg (by simpa using hhead)]
      simp
  have hstrlen : strlen cs = cs.length := by
    rw [strlen, List.takeWhile_eq_self_iff.mpr fun c hc => by simpa using (pszBase58_chars (hcs c hc)).1]
  obtain ⟨rb, length, hrun, hinv, hval⟩ := decodeBase58Loop_alphabet (p := []) (by simp) cs _ 0 hcs
    (bufferInv_replicate 256 (cs.length * 733 / 1000 + 1) (by norm_num))
    (decodeBase58_room cs.length)
  rw [Nat.ofDigits_replicate_zero, Nat.zero_mul, Nat.zero_add] at hval
  rw [List.append_nil] at hrun
  simp only [DecodeBase58, hspace, hones, List.drop_left' List.length_replicate, hstrlen, hrun]
  -- the loop stopped at the NUL: no trailing space, and `*psz == 0`
  simp only [bind, Except.bind, List.dropWhile_nil, List.headD_nil, ne_eq, not_true_eq_false,
    if_false, pure, Except.pure, bufferInv_digits (by norm_num) hinv, hval]

/-- After a run of zero bytes, `EncodeBase58` writes a `'1'` for each, then the base-58 digits of
the base-256 number the rest spells. -/
theorem encodeBase58_eq (z : Nat) {bs : List UInt8} (hhead : bs.head? ≠ some 0) :
    EncodeBase58 (List.replicate z 0 ++ bs) =
      .ok (List.replicate z '1'.toUInt8 ++ (Nat.digits 58
        (Nat.ofDigits 256 (bs.map UInt8.toNat).reverse)).reverse.map fun d => pszBase58.getD d 0) := by
  -- the leading zero bytes are exactly the run
  have hzeros : ((List.replicate z (0 : UInt8) ++ bs).takeWhile (· = 0)).length = z := by
    rw [List.takeWhile_append_of_pos (by simp)]
    cases bs with
    | nil => simp
    | cons b bs =>
      rw [List.takeWhile_cons_of_neg (by simpa using hhead)]
      simp
  obtain ⟨rb, length, hrun, hinv, hval⟩ := encodeBase58Loop_spec bs _ 0
    (bufferInv_replicate 58 (bs.length * 138 / 100 + 1) (by norm_num))
    (encodeBase58_room bs.length)
  rw [Nat.ofDigits_replicate_zero, Nat.zero_mul, Nat.zero_add] at hval
  simp only [EncodeBase58, hzeros, List.drop_left' List.length_replicate, hrun, bind, Except.bind,
    pure, Except.pure, bufferInv_digits (by norm_num) hinv, hval]

/-- `DecodeBase58` never fails its `assert`: the buffer has room for every character before the
NUL, and the loop reads no more. -/
theorem decodeBase58_ne_assertFail (psz : List UInt8) : DecodeBase58 psz ≠ .error .assertFail := by
  have hloop := decodeBase58Loop_ne_assertFail _ _ 0
    (bufferInv_replicate 256 _ (by norm_num))
    (decodeBase58_room (strlen ((psz.dropWhile isspace).drop
      ((psz.dropWhile isspace).takeWhile (· = '1'.toUInt8)).length)))
  simp only [DecodeBase58, bind, Except.bind]
  split
  · -- the loop stopped early: only by `return false`
    rename_i e he
    intro h
    cases h
    exact hloop he
  · split <;> simp [throw, throwThe, MonadExceptOf.throw, pure, Except.pure]

/-- `EncodeBase58` never fails its `assert`, and `DecodeBase58` reads back what it writes. -/
theorem decodeBase58_encodeBase58 (b : List UInt8) :
    ∃ s, EncodeBase58 b = .ok s ∧ DecodeBase58 s = .ok b := by
  obtain ⟨hsplit, hhead⟩ := Digits.eq_replicate_append_dropWhile (0 : UInt8) b
  rw [hsplit, encodeBase58_eq _ hhead]
  refine ⟨_, rfl, ?_⟩
  generalize b.dropWhile (· = 0) = bs at hhead
  generalize hM : Nat.ofDigits 256 (bs.map UInt8.toNat).reverse = M
  -- the base-58 digits are written with alphabet characters, the first one not `'1'`
  have hdig : ∀ d ∈ (Nat.digits 58 M).reverse, d < 58 :=
    fun d hd => Nat.digits_lt_base (by norm_num) (List.mem_reverse.mp hd)
  have hcs : ∀ c ∈ (Nat.digits 58 M).reverse.map (fun d => pszBase58.getD d 0), c ∈ pszBase58 := by
    simp only [List.mem_map]
    rintro c ⟨d, hd, rfl⟩
    exact getD_pszBase58_mem (hdig d hd)
  have hfirst : ((Nat.digits 58 M).reverse.map (fun d => pszBase58.getD d 0)).head? ≠
      some '1'.toUInt8 := by
    rw [List.head?_map]
    cases hd : (Nat.digits 58 M).reverse.head? with
    | none => simp
    | some d =>
      have hd0 : d ≠ 0 := fun h => Digits.head?_reverse_digits_ne_zero 58 M (h ▸ hd)
      have hmem := getD_pszBase58_mem (hdig d (List.mem_of_head? hd))
      simp only [Option.map_some, ne_eq, Option.some.injEq]
      rw [← idxOf_pszBase58_eq_zero hmem, idxOf_pszBase58 d (hdig d (List.mem_of_head? hd))]
      exact hd0
  rw [decodeBase58_alphabet _ hcs hfirst, List.map_map]
  -- the decoder reads the digits back, and the bytes are the base-256 digits of their number
  have hvals : (Nat.digits 58 M).reverse.map
      ((fun c => pszBase58.idxOf c) ∘ fun d => pszBase58.getD d 0) = (Nat.digits 58 M).reverse :=
    (List.map_congr_left fun d hd => idxOf_pszBase58 d (hdig d hd)).trans (List.map_id _)
  have hbytes : (bs.map UInt8.toNat).head? ≠ some 0 := by
    rw [List.head?_map]
    cases hb : bs.head? with
    | none => simp
    | some b₀ =>
      simp only [Option.map_some, ne_eq, Option.some.injEq]
      intro h0
      exact hhead (hb ▸ congrArg some (UInt8.toNat_inj.mp (h0.trans UInt8.toNat_zero.symm)))
  rw [hvals, List.reverse_reverse, Nat.ofDigits_digits, ← hM,
    Digits.digits_ofDigits_reverse (by norm_num) (by simpa using fun a _ => a.toNat_lt) hbytes,
    List.reverse_reverse, List.map_map, show UInt8.ofNat ∘ UInt8.toNat = id from
      funext fun _ => UInt8.ofNat_toNat, List.map_id]

/-- A string of alphabet characters is accepted by `DecodeBase58`, and `EncodeBase58` writes it
back. -/
theorem encodeBase58_decodeBase58 {s : List UInt8} (hs : ∀ c ∈ s, c ∈ pszBase58) :
    ∃ b, DecodeBase58 s = .ok b ∧ EncodeBase58 b = .ok s := by
  obtain ⟨hsplit, hhead⟩ := Digits.eq_replicate_append_dropWhile '1'.toUInt8 s
  have hcs : ∀ c ∈ s.dropWhile (· = '1'.toUInt8), c ∈ pszBase58 :=
    fun c hc => hs c ((List.dropWhile_sublist _).subset hc)
  rw [hsplit, decodeBase58_alphabet _ hcs hhead]
  refine ⟨_, rfl, ?_⟩
  generalize s.dropWhile (· = '1'.toUInt8) = cs at hcs hhead
  generalize hN : Nat.ofDigits 58 (cs.map pszBase58.idxOf).reverse = N
  -- the bytes are the base-256 digits of the number, the first one not zero
  have hdig : ∀ d ∈ (Nat.digits 256 N).reverse, d < 256 :=
    fun d hd => Nat.digits_lt_base (by norm_num) (List.mem_reverse.mp hd)
  have hfirst : ((Nat.digits 256 N).reverse.map UInt8.ofNat).head? ≠ some 0 := by
    rw [List.head?_map]
    cases hd : (Nat.digits 256 N).reverse.head? with
    | none => simp
    | some d =>
      have hd0 : d ≠ 0 := fun h => Digits.head?_reverse_digits_ne_zero 256 N (h ▸ hd)
      have hlt := hdig d (List.mem_of_head? hd)
      simp only [Option.map_some, ne_eq, Option.some.injEq]
      intro h0
      exact hd0 (by simpa [UInt8.toNat_ofNat_of_lt' hlt] using congrArg UInt8.toNat h0)
  -- and the characters are the base-58 digits of the number, the first one not zero
  have hvals : ∀ d ∈ cs.map pszBase58.idxOf, d < 58 := by
    simp only [List.mem_map]
    rintro d ⟨c, hc, rfl⟩
    exact List.idxOf_lt_length_of_mem (hcs c hc)
  have hvfirst : (cs.map pszBase58.idxOf).head? ≠ some 0 := by
    rw [List.head?_map]
    cases hc : cs.head? with
    | none => simp
    | some c =>
      simp only [Option.map_some, ne_eq, Option.some.injEq]
      rw [idxOf_pszBase58_eq_zero (hcs c (List.mem_of_head? hc))]
      exact fun h => hhead (h ▸ hc)
  have hbytes : ((Nat.digits 256 N).reverse.map UInt8.ofNat).map UInt8.toNat =
      (Nat.digits 256 N).reverse := by
    rw [List.map_map]
    exact (List.map_congr_left fun d hd => UInt8.toNat_ofNat_of_lt' (hdig d hd)).trans
      (List.map_id _)
  have hchars : cs.map ((fun d => pszBase58.getD d 0) ∘ fun c => pszBase58.idxOf c) = cs :=
    (List.map_congr_left fun c hc => getD_idxOf_pszBase58 (hcs c hc)).trans (List.map_id _)
  rw [encodeBase58_eq _ hfirst, hbytes, List.reverse_reverse, Nat.ofDigits_digits, ← hN,
    Digits.digits_ofDigits_reverse (by norm_num) hvals hvfirst, List.reverse_reverse, List.map_map,
    hchars]

/-- `DecodeBase58Check` reads back what `EncodeBase58Check` writes. -/
theorem decodeBase58Check_encodeBase58Check (Hash : List UInt8 → Uint256) (b : List UInt8) :
    ∃ s, EncodeBase58Check Hash b = .ok s ∧ DecodeBase58Check Hash s = .ok b := by
  obtain ⟨s, henc, hdec⟩ := decodeBase58_encodeBase58 (b ++ (Hash b).data.take 4)
  refine ⟨s, henc, ?_⟩
  have h4 : ((Hash b).data.take 4).length = 4 := by simp [(Hash b).length_data]
  simp [DecodeBase58Check, hdec, bind, Except.bind, h4, pure, Except.pure]

/-- Both base58 functions never fail their `assert`, each reads back what the other writes, and
the checked encoding round-trips. -/
theorem base58_roundtrip (Hash : List UInt8 → Uint256) :
    (∀ b, ∃ s, EncodeBase58 b = .ok s ∧ DecodeBase58 s = .ok b) ∧
    (∀ psz, DecodeBase58 psz ≠ .error .assertFail) ∧
    (∀ s, (∀ c ∈ s, c ∈ pszBase58) → ∃ b, DecodeBase58 s = .ok b ∧ EncodeBase58 b = .ok s) ∧
    (∀ b, ∃ s, EncodeBase58Check Hash b = .ok s ∧ DecodeBase58Check Hash s = .ok b) :=
  ⟨decodeBase58_encodeBase58, decodeBase58_ne_assertFail, fun _ hs => encodeBase58_decodeBase58 hs,
    decodeBase58Check_encodeBase58Check Hash⟩

set_option maxRecDepth 4000 in
/-- `"a3gV"` decodes, and encodes back. -/
theorem base58_roundtrip_a3gV :
    ∃ b, DecodeBase58 ("a3gV".toList.map Char.toUInt8) = .ok b ∧
      EncodeBase58 b = .ok ("a3gV".toList.map Char.toUInt8) :=
  (base58_roundtrip fun _ => default).2.2.1 _ (by decide)

end Trumpow
