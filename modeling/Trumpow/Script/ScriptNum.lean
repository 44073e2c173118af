import Mathlib

/-!
# Script — `CScriptNum`'s byte encoding

`script.h`.  A script number is written as its magnitude's bytes, least significant first, with
the sign in the top bit of the last byte; when the magnitude's top byte already uses that bit,
the sign gets a byte of its own (`0x00` or `0x80`).  The constructor from bytes throws on more
than `nMaxNumSize` bytes and, with `fRequireMinimal`, on a top byte that holds nothing but the
sign unless the byte below it needs the sign kept apart.

* `serializeLoop_eq`, `setVchLoop_eq`: the two loops are Mathlib's `Nat.digits 256` and
  `Nat.ofDigits 256`.
* `set_vch_append`: for at most eight bytes the `uint64_t` mask clears exactly the sign bit
  (`add_two_pow_and_mask`), so `set_vch` reads a sign and a magnitude.
* `ofVch_eq_ok`: the three shapes the minimal-encoding check accepts.
* `cScriptNum_minimal_roundtrip`: encoding is a bijection between the `int64` values other than
  `INT64_MIN` and the accepted vectors of at most eight bytes.

`set_vch` shifts a byte into bit 63 of an `int64_t` for an eight-byte vector whose top byte uses
its top bit; the model takes the bit pattern compilers produce.
-/

namespace Trumpow
namespace CScriptNum

/-- The `while (absvalue)` loop of `serialize`: the bytes of `absvalue`, least significant
first. -/
def serializeLoop (absvalue : Nat) : List UInt8 :=
  if absvalue = 0 then [] else UInt8.ofNat (absvalue &&& 0xff) :: serializeLoop (absvalue >>> 8)
termination_by absvalue
decreasing_by
  rw [Nat.shiftRight_eq_div_pow]
  omega

/-- `CScriptNum::serialize(value)`: the magnitude's bytes, least significant first, with the
sign in the top bit of the last byte, on a byte of its own when the top byte has that bit. -/
def serialize (value : Int) : List UInt8 :=
  if value = 0 then []
  else
    let neg := value < 0
    let absvalue := value.natAbs
    let result := serializeLoop absvalue
    if result.getLastD 0 &&& 0x80 ≠ 0 then result ++ [if neg then 0x80 else 0]
    else if neg then result.dropLast ++ [result.getLastD 0 ||| 0x80]
    else result

/-- The `for` loop of `set_vch`: each byte shifted to its place and or-ed in. -/
def setVchLoop (vch : List UInt8) : Nat :=
  (List.range vch.length).foldl (fun result i => result ||| (vch.getD i 0).toNat <<< (8 * i)) 0

/-- `CScriptNum::set_vch(vch)`: a last byte with the sign bit makes the value negative, with
that bit cleared by the `uint64_t` mask `~(0x80ULL << (8 * (vch.size() - 1)))`. -/
def set_vch (vch : List UInt8) : Int :=
  if vch = [] then 0
  else
    let result := setVchLoop vch
    if vch.getLastD 0 &&& 0x80 ≠ 0 then
      -((result &&& (2 ^ 64 - 1 - (0x80 <<< (8 * (vch.length - 1))))) : Int)
    else result

/-- `CScriptNum(vch, fRequireMinimal, nMaxNumSize)`: its `m_value`, or the `scriptnum_error` it
throws. -/
def ofVch (vch : List UInt8) (fRequireMinimal : Bool) (nMaxNumSize : Nat) : Except String Int :=
  if vch.length > nMaxNumSize then .error "script number overflow"
  else if fRequireMinimal = true ∧ vch.length > 0 ∧ (vch.getLastD 0 &&& 0x7f) = 0 ∧
      (vch.length ≤ 1 ∨ (vch.getD (vch.length - 2) 0 &&& 0x80) = 0) then
    .error "non-minimally encoded script number"
  else .ok (set_vch vch)

theorem serializeLoop_eq (absvalue : Nat) :
    serializeLoop absvalue = (Nat.digits 256 absvalue).map UInt8.ofNat := by
  induction absvalue using Nat.strong_induction_on with
  | _ n ih =>
    rw [serializeLoop]
    split_ifs with h
    · simp [h]
    · rw [Nat.digits_def' (by norm_num) (by omega), List.map_cons,
        ih _ (by rw [Nat.shiftRight_eq_div_pow]; omega),
        show (0xff : Nat) = 2 ^ 8 - 1 from rfl, Nat.and_two_pow_sub_one_eq_mod,
        Nat.shiftRight_eq_div_pow]

/-- The value of bytes, least significant first, is below `256` to their number. -/
theorem ofDigits_lt (init : List UInt8) :
    Nat.ofDigits 256 (init.map UInt8.toNat) < 256 ^ init.length := by
  simpa using Nat.ofDigits_lt_base_pow_length (by norm_num) (l := init.map UInt8.toNat)
    (by intro x hx; obtain ⟨y, _, rfl⟩ := List.mem_map.mp hx; exact y.toNat_lt)

/-- The first `n` rounds of `set_vch`'s loop read the first `n` bytes: the next byte is or-ed in
above all the bits read so far. -/
theorem setVchLoop_take (vch : List UInt8) :
    ∀ n ≤ vch.length, (List.range n).foldl
      (fun result i => result ||| (vch.getD i 0).toNat <<< (8 * i)) 0 =
        Nat.ofDigits 256 ((vch.take n).map UInt8.toNat) := by
  intro n
  induction n with
  | zero => simp
  | succ n ih =>
    intro hn
    rw [List.range_succ, List.foldl_append, ih (by omega), List.foldl_cons, List.foldl_nil,
      List.take_add_one, List.getElem?_eq_getElem (by omega)]
    have hn' : min n vch.length = n := min_eq_left (by omega)
    simp only [Option.toList_some, List.map_append, List.map_cons, List.map_nil,
      Nat.ofDigits_append, Nat.ofDigits_singleton, List.length_map, List.length_take, hn']
    have hlt : Nat.ofDigits 256 ((vch.take n).map UInt8.toNat) < 2 ^ (8 * n) := by
      simpa [pow_mul, hn'] using ofDigits_lt (vch.take n)
    rw [List.getD_eq_getElem _ _ (by omega), Nat.or_comm, ← Nat.shiftLeft_add_eq_or_of_lt hlt,
      Nat.shiftLeft_eq, pow_mul]
    ring

theorem setVchLoop_eq (vch : List UInt8) :
    setVchLoop vch = Nat.ofDigits 256 (vch.map UInt8.toNat) := by
  rw [setVchLoop, setVchLoop_take vch _ le_rfl, List.take_length]

/-! ### The bits of a byte the encoding reads -/

theorem and_0x80_ne_zero_iff (b : UInt8) : b &&& 0x80 ≠ 0 ↔ 128 ≤ b.toNat := by
  rw [ne_eq, ← UInt8.toNat_inj, UInt8.toNat_and, show (0x80 : UInt8).toNat = 2 ^ 7 from rfl,
    Nat.and_two_pow, Nat.toNat_testBit]
  have := b.toNat_lt
  simp only [UInt8.toNat_zero]
  omega

theorem and_0x7f_eq_zero_iff (b : UInt8) : b &&& 0x7f = 0 ↔ b.toNat % 128 = 0 := by
  rw [← UInt8.toNat_inj, UInt8.toNat_and, show (0x7f : UInt8).toNat = 2 ^ 7 - 1 from rfl,
    Nat.and_two_pow_sub_one_eq_mod]
  rfl

theorem toNat_or_0x80 (b : UInt8) (hb : b.toNat < 128) : (b ||| 0x80).toNat = b.toNat + 128 := by
  rw [UInt8.toNat_or, show (0x80 : UInt8).toNat = 1 <<< 7 from rfl, Nat.or_comm,
    ← Nat.shiftLeft_add_eq_or_of_lt hb, Nat.shiftLeft_eq, Nat.add_comm]

/-- Clearing bit `j` of a 64-bit word: the mask `~(1 << j)` keeps every bit below `j`. -/
theorem add_two_pow_and_mask {j y : Nat} (hj : j < 64) (hy : y < 2 ^ j) :
    (2 ^ j + y) &&& (2 ^ 64 - 1 - 2 ^ j) = y := by
  -- below bit `j + 1` the mask is `2 ^ j - 1`
  have hmask : (2 ^ 64 - 1 - 2 ^ j) % 2 ^ (j + 1) = 2 ^ j - 1 := by
    obtain ⟨q, hq⟩ : 2 ^ (j + 1) ∣ 2 ^ 64 := Nat.pow_dvd_pow 2 (by omega)
    have hpos : 0 < 2 ^ j := Nat.two_pow_pos j
    have hq1 : 1 ≤ q := by
      rcases Nat.eq_zero_or_pos q with rfl | h
      · simp at hq
      · exact h
    have hsplit : 2 ^ 64 - 1 - 2 ^ j = 2 ^ (j + 1) * (q - 1) + (2 ^ j - 1) := by
      have hmul : 2 ^ (j + 1) * (q - 1) = 2 ^ 64 - 2 ^ (j + 1) := by
        rw [Nat.mul_sub, mul_one, ← hq]
      have hle : 2 ^ (j + 1) ≤ 2 ^ 64 := Nat.pow_le_pow_right (by omega) (by omega)
      rw [show 2 ^ (j + 1) = 2 ^ j * 2 from pow_succ 2 j] at hmul hle ⊢
      omega
    rw [hsplit, Nat.mul_add_mod, Nat.mod_eq_of_lt (by rw [pow_succ]; omega)]
  apply Nat.eq_of_testBit_eq
  intro i
  rw [Nat.testBit_and]
  rcases lt_or_ge i (j + 1) with hi | hi
  · have hbit : (2 ^ 64 - 1 - 2 ^ j).testBit i = decide (i < j) := by
      have hmod := Nat.testBit_mod_two_pow (2 ^ 64 - 1 - 2 ^ j) (j + 1) i
      rw [hmask, decide_eq_true hi, Bool.true_and] at hmod
      rw [← hmod, Nat.testBit_two_pow_sub_one]
    rcases lt_or_ge i j with hij | hij
    · rw [Nat.testBit_two_pow_add_gt hij, hbit, decide_eq_true hij, Bool.and_true]
    · rw [hbit, decide_eq_false (by omega), Bool.and_false,
        Nat.testBit_eq_false_of_lt (lt_of_lt_of_le hy (Nat.pow_le_pow_right (by omega) hij))]
  · have hlt : 2 ^ j + y < 2 ^ i :=
      lt_of_lt_of_le (by rw [pow_succ]; omega) (Nat.pow_le_pow_right (by omega) hi)
    rw [Nat.testBit_eq_false_of_lt hlt, Bool.false_and,
      Nat.testBit_eq_false_of_lt (hy.trans (Nat.pow_lt_pow_right (by omega) (by omega)))]


/-! ### Decoding -/

/-- `set_vch` of at most eight bytes: the little-endian value of the bytes with the last byte's
top bit read as the sign. -/
theorem set_vch_append (init : List UInt8) (last : UInt8) (hlen : init.length < 8) :
    set_vch (init ++ [last]) =
      if 128 ≤ last.toNat then
        -((Nat.ofDigits 256 (init.map UInt8.toNat ++ [last.toNat % 128]) : Nat) : Int)
      else ((Nat.ofDigits 256 (init.map UInt8.toNat ++ [last.toNat % 128]) : Nat) : Int) := by
  have hlast := last.toNat_lt
  simp only [set_vch, List.append_ne_nil_of_right_ne_nil _ (List.cons_ne_nil last []),
    if_false, List.getLastD_eq_getLast?, List.getLast?_append, List.getLast?_singleton,
    Option.some_or, Option.getD_some, and_0x80_ne_zero_iff, List.length_append,
    List.length_singleton, Nat.add_sub_cancel, setVchLoop_eq, List.map_append, List.map_singleton]
  split_ifs with hneg
  · rw [show last.toNat % 128 = last.toNat - 128 by omega]
    have hlow := ofDigits_lt init
    have hpow : 256 ^ init.length = 2 ^ (8 * init.length) := by rw [pow_mul]; rfl
    set low := Nat.ofDigits 256 (init.map UInt8.toNat)
    simp only [Nat.ofDigits_append, List.length_map, Nat.ofDigits_singleton, hpow] at hlow ⊢
    -- the sign bit is bit `8 * init.length + 7`, the top bit of the last byte
    have hsplit : low + 2 ^ (8 * init.length) * last.toNat =
        2 ^ (8 * init.length + 7) + (low + 2 ^ (8 * init.length) * (last.toNat - 128)) := by
      rw [pow_add, Nat.mul_sub]
      have : 2 ^ (8 * init.length) * 128 ≤ 2 ^ (8 * init.length) * last.toNat :=
        Nat.mul_le_mul_left _ hneg
      omega
    have hbound : low + 2 ^ (8 * init.length) * (last.toNat - 128) < 2 ^ (8 * init.length + 7) := by
      have : 2 ^ (8 * init.length) * (last.toNat - 128) ≤ 2 ^ (8 * init.length) * 127 :=
        Nat.mul_le_mul_left _ (by omega)
      rw [pow_add]
      omega
    rw [hsplit, show (0x80 : Nat) <<< (8 * init.length) = 2 ^ (8 * init.length + 7) by
      rw [Nat.shiftLeft_eq, pow_add, mul_comm]; rfl, add_two_pow_and_mask (by omega) hbound]
  · rw [Nat.mod_eq_of_lt (by omega : last.toNat < 128)]


/-! ### Encoding -/

/-- `serialize` of a value whose magnitude has the digits `ds ++ [L]`: the digits as bytes, the
sign set in the top byte, or on a byte of its own when the top byte uses its top bit. -/
theorem serialize_eq {v : Int} (hv : v ≠ 0) {ds : List Nat} {L : Nat}
    (hd : Nat.digits 256 v.natAbs = ds ++ [L]) :
    serialize v = ds.map UInt8.ofNat ++
      if 128 ≤ L then [UInt8.ofNat L, if v < 0 then 0x80 else 0]
      else [if v < 0 then UInt8.ofNat (L + 128) else UInt8.ofNat L] := by
  have hL : L < 256 := Nat.digits_lt_base (by norm_num) (by rw [hd]; simp)
  have hLnat : (UInt8.ofNat L).toNat = L := UInt8.toNat_ofNat_of_lt' hL
  simp only [serialize, hv, if_false, serializeLoop_eq, hd, List.map_append, List.map_singleton,
    List.getLastD_eq_getLast?, List.getLast?_append, List.getLast?_singleton, Option.some_or,
    Option.getD_some, and_0x80_ne_zero_iff, hLnat, List.dropLast_concat]
  split_ifs with htop hneg hneg
  · rw [List.append_assoc]; rfl
  · rw [List.append_assoc]; rfl
  -- a negative value whose top byte leaves its top bit free: the sign is or-ed into that byte
  · rw [List.append_cancel_left_eq, List.singleton_inj, ← UInt8.toNat_inj,
      toNat_or_0x80 _ (by omega), hLnat,
      UInt8.toNat_ofNat_of_lt' (n := L + 128) (by unfold UInt8.size; omega)]
  · rfl


/-- `serialize` of a value given by its sign and the digits of its magnitude. -/
theorem serialize_signed (neg : Bool) {a : Nat} {ds : List Nat} {L : Nat}
    (hd : Nat.digits 256 a = ds ++ [L]) :
    serialize (if neg then -(a : Int) else a) = ds.map UInt8.ofNat ++
      if 128 ≤ L then [UInt8.ofNat L, if neg then 0x80 else 0]
      else [if neg then UInt8.ofNat (L + 128) else UInt8.ofNat L] := by
  have ha : a ≠ 0 := by
    rintro rfl
    simp at hd
  cases neg
  · have hpos : ¬ (a : Int) < 0 := by omega
    rw [if_neg Bool.false_ne_true, serialize_eq (by simpa using ha) (by simpa using hd)]
    simp only [hpos, if_false, Bool.false_eq_true]
  · have hneg : -(a : Int) < 0 := by omega
    rw [if_pos rfl, serialize_eq (by simpa using ha) (by simpa using hd)]
    simp only [hneg, if_true]


/-! ### The constructor's checks -/

section Checks

variable {init : List UInt8} {p last : UInt8} {n : Nat}

/-- A top byte with a bit of the magnitude set is minimal. -/
theorem ofVch_of_top (hlen : init.length < n) (htop : last.toNat % 128 ≠ 0) :
    ofVch (init ++ [last]) true n = .ok (set_vch (init ++ [last])) := by
  have h7f : ¬ last &&& 0x7f = 0 := by rwa [and_0x7f_eq_zero_iff]
  simp only [ofVch, List.length_append, List.length_singleton, List.getLastD_eq_getLast?,
    List.getLast?_append, List.getLast?_singleton, Option.some_or, Option.getD_some, h7f]
  rw [if_neg (by omega), if_neg (by simp)]

/-- A top byte holding only the sign is minimal after a byte whose top bit is set. -/
theorem ofVch_of_pair (hlen : init.length + 2 ≤ n) (hp : 128 ≤ p.toNat) :
    ofVch (init ++ [p, last]) true n = .ok (set_vch (init ++ [p, last])) := by
  have h80 : ¬ p &&& 0x80 = 0 := (and_0x80_ne_zero_iff p).mpr hp
  have hget : (init ++ [p, last]).getD ((init ++ [p, last]).length - 2) 0 = p := by
    simp [List.getD_eq_getElem?_getD]
  rw [ofVch, if_neg (by simp; omega), if_neg]
  rintro ⟨-, -, -, hshort | hsign⟩
  · simp at hshort
  · exact h80 (hget ▸ hsign)

/-- What the constructor with `fRequireMinimal` accepts: at most `n` bytes, and none, or a top
byte with a magnitude bit set, or a top byte holding only the sign after a byte whose top bit
is set. -/
theorem ofVch_eq_ok {vch : List UInt8} {v : Int} (h : ofVch vch true n = .ok v) :
    vch.length ≤ n ∧ v = set_vch vch ∧
      (vch = [] ∨ (∃ init last, vch = init ++ [last] ∧ last.toNat % 128 ≠ 0) ∨
        ∃ init p last, vch = init ++ [p, last] ∧ 128 ≤ p.toNat ∧ last.toNat % 128 = 0) := by
  unfold ofVch at h
  split_ifs at h with hlen hmin
  cases h
  refine ⟨by omega, rfl, ?_⟩
  rcases List.eq_nil_or_concat vch with rfl | ⟨init, last, rfl⟩
  · exact .inl rfl
  rw [List.concat_eq_append] at hmin ⊢
  by_cases htop : last.toNat % 128 = 0
  -- a top byte holding only the sign passed the check through the byte below it
  · have h7f : last &&& 0x7f = 0 := (and_0x7f_eq_zero_iff last).mpr htop
    rcases List.eq_nil_or_concat init with rfl | ⟨init, p, rfl⟩
    · exact absurd ⟨rfl, by simp, by simpa using h7f, .inl (by simp)⟩ hmin
    · refine .inr (.inr ⟨init, p, last, by simp, ?_, htop⟩)
      rw [← and_0x80_ne_zero_iff]
      intro hp
      exact hmin ⟨rfl, by simp, by simpa using h7f,
        .inr (by simpa [List.getD_eq_getElem?_getD] using hp)⟩
  · exact .inr (.inl ⟨init, last, rfl, htop⟩)

end Checks

/-! ### The round trip -/

theorem map_toNat_map_ofNat {ds : List Nat} (hds : ∀ d ∈ ds, d < 256) :
    (ds.map UInt8.ofNat).map UInt8.toNat = ds := by
  rw [List.map_map]
  conv_rhs => rw [← List.map_id ds]
  exact List.map_congr_left (fun d hd => UInt8.toNat_ofNat_of_lt' (hds d hd))

/-- `set_vch` reads a value back from its magnitude's bytes and a sign in the top byte. -/
theorem set_vch_signed {init : List UInt8} {last : UInt8} (hlen : init.length < 8) {a : Nat}
    (hmag : Nat.ofDigits 256 (init.map UInt8.toNat ++ [last.toNat % 128]) = a) {neg : Bool}
    (hsign : decide (128 ≤ last.toNat) = neg) :
    set_vch (init ++ [last]) = if neg then -(a : Int) else a := by
  rw [set_vch_append init last hlen, hmag, ← hsign]
  by_cases h : 128 ≤ last.toNat <;> simp [h]


/-- The digits of a magnitude below `2 ^ 63`: at most eight, and at most seven when the top one
uses its top bit. -/
theorem digits_of_lt {a : Nat} (ha : a < 2 ^ 63) {ds : List Nat} {L : Nat}
    (hd : Nat.digits 256 a = ds ++ [L]) :
    (∀ d ∈ ds, d < 256) ∧ L < 256 ∧ L ≠ 0 ∧ Nat.ofDigits 256 (ds ++ [L]) = a ∧
      ds.length < 8 ∧ (128 ≤ L → ds.length < 7) := by
  have hdig : ∀ d ∈ ds ++ [L], d < 256 := fun d h => Nat.digits_lt_base (by norm_num) (hd ▸ h)
  have hL : L ≠ 0 := by
    have := Nat.getLast_digit_ne_zero 256 (m := a) (by rintro rfl; simp at hd)
    simpa [hd] using this
  have hval : Nat.ofDigits 256 (ds ++ [L]) = a := by rw [← hd, Nat.ofDigits_digits]
  -- the top digit alone weighs `256 ^ ds.length * L`
  have htop : 256 ^ ds.length * L ≤ a := by
    rw [← hval, Nat.ofDigits_append, Nat.ofDigits_singleton]
    omega
  refine ⟨fun d h => hdig d (by simp [h]), hdig L (by simp), hL, hval, ?_, fun hL' => ?_⟩
  · apply (Nat.pow_lt_pow_iff_right (by norm_num : 1 < 256)).mp
    have : 256 ^ ds.length ≤ 256 ^ ds.length * L := Nat.le_mul_of_pos_right _ (by omega)
    omega
  · apply (Nat.pow_lt_pow_iff_right (by norm_num : 1 < 256)).mp
    have : 256 ^ ds.length * 128 ≤ 256 ^ ds.length * L := Nat.mul_le_mul_left _ hL'
    omega

/-- `CScriptNum(serialize(v), true, 8)` reads `v` back for every `int64` but `INT64_MIN`. -/
theorem ofVch_serialize (v : Int) (hlo : -2 ^ 63 < v) (hhi : v < 2 ^ 63) :
    ofVch (serialize v) true 8 = .ok v := by
  rcases eq_or_ne v 0 with rfl | hv
  · rfl
  -- `v` is its sign and its magnitude `a`, whose digits end in `L`
  have hsigned : v = if decide (v < 0) then -(v.natAbs : Int) else v.natAbs := by
    by_cases h : v < 0
    · rw [if_pos (decide_eq_true h), Int.ofNat_natAbs_of_nonpos h.le, neg_neg]
    · rw [if_neg (by simpa using h), Int.natAbs_of_nonneg (by omega)]
  have ha : v.natAbs < 2 ^ 63 := by omega
  have ha0 : v.natAbs ≠ 0 := by omega
  generalize decide (v < 0) = neg at hsigned
  generalize v.natAbs = a at hsigned ha ha0
  subst hsigned
  obtain ⟨ds, L, hd⟩ : ∃ ds L, Nat.digits 256 a = ds ++ [L] := by
    rcases List.eq_nil_or_concat (Nat.digits 256 a) with h | ⟨ds, L, h⟩
    · exact absurd (Nat.digits_eq_nil_iff_eq_zero.mp h) ha0
    · exact ⟨ds, L, by simpa using h⟩
  obtain ⟨hds, hL, hL0, hval, hlen, hlen'⟩ := digits_of_lt ha hd
  have hLnat : (UInt8.ofNat L).toNat = L := UInt8.toNat_ofNat_of_lt' hL
  rw [serialize_signed neg hd]
  by_cases htop : 128 ≤ L
  -- the sign on a byte of its own
  · have hsign : ∀ neg : Bool,
        (if neg then (0x80 : UInt8) else 0).toNat = if neg then 128 else 0 := by
      intro neg
      cases neg <;> rfl
    rw [if_pos htop, ofVch_of_pair (by simp; omega) (by rw [hLnat]; exact htop),
      ← List.singleton_append, ← List.append_assoc]
    congr 1
    apply set_vch_signed (by simp; omega)
    · rw [List.map_append, map_toNat_map_ofNat hds, List.map_singleton, hLnat, hsign,
        show (if neg then 128 else 0) % 128 = 0 by split <;> rfl, Nat.ofDigits_append,
        Nat.ofDigits_singleton, mul_zero, add_zero, hval]
    · rw [hsign]
      cases neg <;> rfl
  -- the sign in the top byte
  · have hsign : ∀ neg : Bool,
        (if neg then UInt8.ofNat (L + 128) else UInt8.ofNat L).toNat =
          if neg then L + 128 else L := by
      intro neg
      cases neg
      · exact hLnat
      · exact UInt8.toNat_ofNat_of_lt' (by unfold UInt8.size; omega)
    have hmod : (if neg then L + 128 else L) % 128 = L := by
      cases neg <;> simp <;> omega
    rw [if_neg htop, ofVch_of_top (by simp; omega) (by rw [hsign, hmod]; exact hL0)]
    congr 1
    apply set_vch_signed (by simp; omega)
    · rw [map_toNat_map_ofNat hds, hsign, hmod, hval]
    · rw [hsign]
      cases neg <;> simp [htop]


/-- Bytes whose top one is not zero are the digits of their value. -/
theorem digits_ofDigits_bytes (init : List UInt8) {m : Nat} (hm : m < 256) (hm0 : m ≠ 0) :
    Nat.digits 256 (Nat.ofDigits 256 (init.map UInt8.toNat ++ [m])) =
      init.map UInt8.toNat ++ [m] := by
  apply Nat.digits_ofDigits _ (by norm_num)
  · intro d hd
    rcases List.mem_append.mp hd with hd | hd
    · obtain ⟨b, _, rfl⟩ := List.mem_map.mp hd
      exact b.toNat_lt
    · rw [List.mem_singleton.mp hd]
      exact hm
  · intro _
    rwa [List.getLast_append_singleton]

/-- A minimal encoding of at most eight bytes is what `serialize` writes for its value. -/
theorem serialize_ofVch {vch : List UInt8} {nMaxNumSize : Nat} {v : Int} (hmax : nMaxNumSize ≤ 8)
    (h : ofVch vch true nMaxNumSize = .ok v) : serialize v = vch := by
  obtain ⟨hlen, rfl, hform⟩ := ofVch_eq_ok h
  have hbytes : ∀ l : List UInt8, (l.map UInt8.toNat).map UInt8.ofNat = l := by
    intro l
    simp [Function.comp_def]
  rcases hform with rfl | ⟨init, last, rfl, htop⟩ | ⟨init, p, last, rfl, hp, hlast⟩
  · rfl
  -- a top byte with a magnitude bit set: it holds the top digit and the sign
  · have hm : last.toNat % 128 < 128 := Nat.mod_lt _ (by norm_num)
    have := last.toNat_lt
    rw [set_vch_signed (by simp at hlen; omega) rfl rfl,
      serialize_signed _ (digits_ofDigits_bytes init (by omega) htop), if_neg (by omega), hbytes]
    congr 1
    rw [List.singleton_inj, ← UInt8.toNat_inj]
    by_cases hneg : 128 ≤ last.toNat
    · rw [decide_eq_true hneg, if_pos rfl, UInt8.toNat_ofNat_of_lt' (by unfold UInt8.size; omega)]
      omega
    · rw [decide_eq_false hneg, if_neg Bool.false_ne_true,
        UInt8.toNat_ofNat_of_lt' (by unfold UInt8.size; omega)]
      omega
  -- a top byte holding only the sign, above a byte whose top bit is set
  · have hpv : (init ++ [p]).map UInt8.toNat ++ [last.toNat % 128] =
        (init.map UInt8.toNat ++ [p.toNat]) ++ [0] := by
      simp [hlast]
    have hsign : (if decide (128 ≤ last.toNat) then (0x80 : UInt8) else 0) = last := by
      have := last.toNat_lt
      rw [← UInt8.toNat_inj]
      by_cases hneg : 128 ≤ last.toNat
      · rw [decide_eq_true hneg, if_pos rfl]
        change 128 = last.toNat
        omega
      · rw [decide_eq_false hneg, if_neg Bool.false_ne_true]
        change 0 = last.toNat
        omega
    rw [show init ++ [p, last] = (init ++ [p]) ++ [last] by simp,
      set_vch_signed (by simp at hlen ⊢; omega) rfl rfl, hpv, Nat.ofDigits_append,
      Nat.ofDigits_singleton, mul_zero, add_zero,
      serialize_signed _ (digits_ofDigits_bytes init p.toNat_lt (by omega)), if_pos hp, hbytes,
      UInt8.ofNat_toNat, hsign, List.append_assoc]
    rfl


/-- `set_vch` of `n ≤ 8` bytes has a magnitude below `2 ^ (8 * n - 1)`: the top byte's top bit
is the sign. -/
theorem natAbs_set_vch_lt {vch : List UInt8} (hlen : vch.length ≤ 8) :
    (set_vch vch).natAbs < 2 ^ (8 * vch.length - 1) := by
  rcases List.eq_nil_or_concat vch with rfl | ⟨init, last, rfl⟩
  · decide
  rw [List.concat_eq_append] at hlen ⊢
  simp only [List.length_append, List.length_singleton] at hlen ⊢
  have hmag : Nat.ofDigits 256 (init.map UInt8.toNat ++ [last.toNat % 128]) <
      2 ^ (8 * (init.length + 1) - 1) := by
    have hlow := ofDigits_lt init
    have htop : 256 ^ init.length * (last.toNat % 128) ≤ 256 ^ init.length * 127 :=
      Nat.mul_le_mul_left _ (by omega)
    have hpow : 256 ^ init.length * 128 = 2 ^ (8 * (init.length + 1) - 1) := by
      rw [show 8 * (init.length + 1) - 1 = 8 * init.length + 7 by omega, pow_add, pow_mul]
      rfl
    rw [Nat.ofDigits_append, List.length_map, Nat.ofDigits_singleton]
    omega
  rw [set_vch_append init last (by omega)]
  split_ifs <;> simpa using hmag

/-- `set_vch` of at most eight bytes is an `int64` other than `INT64_MIN`. -/
theorem set_vch_bounds {vch : List UInt8} (hlen : vch.length ≤ 8) :
    -2 ^ 63 < set_vch vch ∧ set_vch vch < 2 ^ 63 := by
  have hlt := natAbs_set_vch_lt hlen
  have hpow : 2 ^ (8 * vch.length - 1) ≤ 2 ^ 63 := Nat.pow_le_pow_right (by norm_num) (by omega)
  omega

/-- `CScriptNum`'s encoding is a bijection between the `int64` values other than `INT64_MIN`
and the byte vectors of at most eight bytes that the minimal-encoding check accepts. -/
theorem cScriptNum_minimal_roundtrip :
    (∀ v : Int, -2 ^ 63 < v → v < 2 ^ 63 → ofVch (serialize v) true 8 = .ok v) ∧
    ∀ (vch : List UInt8) (nMaxNumSize : Nat) (v : Int), nMaxNumSize ≤ 8 →
      ofVch vch true nMaxNumSize = .ok v → -2 ^ 63 < v ∧ v < 2 ^ 63 ∧ serialize v = vch := by
  refine ⟨ofVch_serialize, fun vch nMaxNumSize v hmax h => ?_⟩
  obtain ⟨hlen, rfl, -⟩ := ofVch_eq_ok h
  exact ⟨(set_vch_bounds (by omega)).1, (set_vch_bounds (by omega)).2, serialize_ofVch hmax h⟩

/-- `-255` is written `0xff80`, the sign on a byte of its own (`script.h`'s example). -/
theorem cScriptNum_minimal_roundtrip_255 :
    ofVch (serialize (-255)) true 8 = .ok (-255) ∧ serialize (-255) = [0xff, 0x80] :=
  ⟨cScriptNum_minimal_roundtrip.1 (-255) (by norm_num) (by norm_num),
    (cScriptNum_minimal_roundtrip.2 [0xff, 0x80] 4 (-255) (by norm_num) rfl).2.2⟩

/-! ### Reading a number from the stack -/

/-- What the constructor accepts is at most `nMaxNumSize` bytes, read by `set_vch`. -/
theorem ofVch_eq_ok_set_vch {vch : List UInt8} {fRequireMinimal : Bool} {nMaxNumSize : Nat}
    {v : Int} (h : ofVch vch fRequireMinimal nMaxNumSize = .ok v) :
    vch.length ≤ nMaxNumSize ∧ v = set_vch vch := by
  unfold ofVch at h
  split_ifs at h with hlen
  cases h
  exact ⟨by omega, rfl⟩

/-- A number read with `nMaxNumSize ≤ 8` has a magnitude below `2 ^ (8 * nMaxNumSize - 1)`:
below `2 ^ 31` for the default four bytes, below `2 ^ 39` for five. -/
theorem natAbs_lt_of_ofVch {vch : List UInt8} {fRequireMinimal : Bool} {nMaxNumSize : Nat}
    {v : Int} (hmax : nMaxNumSize ≤ 8) (h : ofVch vch fRequireMinimal nMaxNumSize = .ok v) :
    v.natAbs < 2 ^ (8 * nMaxNumSize - 1) := by
  obtain ⟨hlen, rfl⟩ := ofVch_eq_ok_set_vch h
  exact (natAbs_set_vch_lt (by omega)).trans_le (Nat.pow_le_pow_right (by norm_num) (by omega))

/-! ### Arithmetic

`CScriptNum`'s operators on its `int64_t` value.  `operator+=`, `operator-=` and unary
`operator-` assert that the result fits; `operator+` and `operator-` compute an `int64_t` sum or
difference, which is undefined when it overflows.  Each is `none` where the source's behaviour is
not defined: a failed `assert` or an overflow. -/

def INT64_MAX : Int := 2 ^ 63 - 1
def INT64_MIN : Int := -2 ^ 63
def INT_MAX : Int := 2 ^ 31 - 1
def INT_MIN : Int := -2 ^ 31

/-- `operator+=(rhs)`. -/
def addAssign (m_value rhs : Int) : Option Int :=
  if rhs = 0 ∨ (rhs > 0 ∧ m_value ≤ INT64_MAX - rhs) ∨ (rhs < 0 ∧ m_value ≥ INT64_MIN - rhs) then
    some (m_value + rhs)
  else none

/-- `operator-=(rhs)`. -/
def subAssign (m_value rhs : Int) : Option Int :=
  if rhs = 0 ∨ (rhs > 0 ∧ m_value ≥ INT64_MIN + rhs) ∨ (rhs < 0 ∧ m_value ≤ INT64_MAX + rhs) then
    some (m_value - rhs)
  else none

/-- Unary `operator-()`. -/
def negate (m_value : Int) : Option Int :=
  if m_value ≠ INT64_MIN then some (-m_value) else none

/-- An `int64_t` result: `none` where it overflows. -/
def int64 (r : Int) : Option Int :=
  if INT64_MIN ≤ r ∧ r ≤ INT64_MAX then some r else none

/-- `operator+(rhs)`. -/
def add (m_value rhs : Int) : Option Int := int64 (m_value + rhs)

/-- `operator-(rhs)`. -/
def sub (m_value rhs : Int) : Option Int := int64 (m_value - rhs)

/-- `getint()`: the value clamped to `int`. -/
def getint (m_value : Int) : Int :=
  if m_value > INT_MAX then INT_MAX else if m_value < INT_MIN then INT_MIN else m_value

/-- `getvch()`: `serialize(m_value)`, which negates a negative value; that overflows for
`INT64_MIN`. -/
def getvch (m_value : Int) : Option (List UInt8) :=
  if m_value = INT64_MIN then none else some (serialize m_value)

theorem getvch_of_natAbs_lt {v : Int} (hv : v.natAbs < 2 ^ 63) : getvch v = some (serialize v) := by
  rw [getvch, if_neg]
  unfold INT64_MIN
  omega

/-- `getint()` keeps a value that fits an `int`. -/
theorem getint_of_natAbs_le {v : Int} (hv : v.natAbs ≤ 2 ^ 31 - 1) : getint v = v := by
  unfold getint INT_MAX INT_MIN
  split_ifs <;> omega

section Small

/-! Operands below `2 ^ 62` in magnitude, as every operand read from the stack is, keep every
operator defined. -/

variable {a b : Int} (ha : a.natAbs < 2 ^ 62) (hb : b.natAbs < 2 ^ 62)
include ha hb

theorem addAssign_of_small : addAssign a b = some (a + b) := by
  rw [addAssign, if_pos]
  unfold INT64_MAX INT64_MIN
  omega

theorem subAssign_of_small : subAssign a b = some (a - b) := by
  rw [subAssign, if_pos]
  unfold INT64_MAX INT64_MIN
  omega

theorem add_of_small : add a b = some (a + b) := by
  rw [add, int64, if_pos]
  unfold INT64_MAX INT64_MIN
  omega

theorem sub_of_small : sub a b = some (a - b) := by
  rw [sub, int64, if_pos]
  unfold INT64_MAX INT64_MIN
  omega

omit hb in
theorem negate_of_small : negate a = some (-a) := by
  rw [negate, if_pos]
  unfold INT64_MIN
  omega

end Small

end CScriptNum
end Trumpow
