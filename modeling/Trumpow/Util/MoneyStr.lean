import Trumpow.Coins.Compressor
import Trumpow.Util.Base58

/-!
# Util — amounts as strings

`FormatMoney` and `ParseMoney` of `utilmoneystr.cpp`.  `FormatMoney` prints `%d.%08d` of the
quotient and the remainder by `COIN`, then trims the zeros at the end of the fraction down to two
digits.  `ParseMoney` skips spaces, reads a whole part, optionally a point and at most eight
digits of fraction, then only spaces, and gives `atoi64(strWhole) * COIN + nUnits`.  Strings are
byte lists whose NUL is past their end, with `isspace` in the C locale as in `Util/Base58`.

`parseMoney_eq_some_iff` says which strings `ParseMoney` accepts and what it returns: at most ten
digits, a point and at most eight digits; every value is below `MAX_MONEY`
(`moneyString_value_lt`).  `FormatMoney` prints the digits of the quotient, a point and at least
two digits of fraction, of which only zeros were cut (`formatMoney_eq`), so `ParseMoney` reads an
amount back whenever its quotient has at most ten digits.  With `MAX_MONEY` at `10 ^ 10` coins
that is every amount below `MAX_MONEY`, but not `MAX_MONEY` itself, whose whole part has eleven
digits (`parseMoney_formatMoney`).
-/

namespace Trumpow

/-- `CENT`: a hundredth of a coin. -/
def CENT : Int := 1000000

/-- `isdigit` in the C locale. -/
def isdigit (c : UInt8) : Bool := '0'.toUInt8 ≤ c && c ≤ '9'.toUInt8

/-- `strprintf("%d", n)` of a value `n ≥ 0`. -/
def formatDecimal (n : Nat) : List UInt8 := (Nat.toDigits 10 n).map Char.toUInt8

/-- `strprintf("%08d", n)` of a value `n ≥ 0`: its digits, with `'0'`s in front up to eight. -/
def formatDecimal08 (n : Nat) : List UInt8 :=
  List.replicate (8 - (Nat.toDigits 10 n).length) '0'.toUInt8 ++ formatDecimal n

/-- The loop `for (int i = str.size()-1; (str[i] == '0' && isdigit(str[i-2])); --i) ++nTrim;` of
`FormatMoney`, from `i`: the `nTrim` it counts.  On a string printed by `%d.%08d` it stops at the
latest two places after the point; the model also stops at `i < 2`, where the source would read
before the string. -/
def trimLoop (str : List UInt8) : Nat → Nat
  | i + 2 =>
    if str.getD (i + 2) 0 = '0'.toUInt8 ∧ isdigit (str.getD i 0) then trimLoop str (i + 1) + 1
    else 0
  | _ => 0

/-- `FormatMoney(n)`.  `n_abs` is `|n|`: the overflow of `-n` at the least `int64_t` is not
modelled. -/
def FormatMoney (n : Int) : List UInt8 :=
  -- Note: not using straight sprintf here because we do NOT want
  -- localized number formatting.
  let n_abs := if n > 0 then n else -n
  let quotient := n_abs / COIN
  let remainder := n_abs % COIN
  let str := formatDecimal quotient.toNat ++ '.'.toUInt8 :: formatDecimal08 remainder.toNat
  -- Right-trim excess zeros before the decimal point:
  let nTrim := trimLoop str (str.length - 1)
  let str := if nTrim ≠ 0 then str.take (str.length - nTrim) else str
  if n < 0 then '-'.toUInt8 :: str else str

/-- The loop `while (isdigit(*p) && (nMult > 0)) { nUnits += nMult * (*p++ - '0'); nMult /= 10; }`
of `ParseMoney`: `nUnits` and what follows it. -/
def parseFraction (nUnits nMult : Int) : List UInt8 → Int × List UInt8
  | c :: p =>
    if isdigit c ∧ nMult > 0 then
      parseFraction (nUnits + nMult * ((c.toNat : Int) - 48)) (nMult / 10) p
    else (nUnits, c :: p)
  | [] => (nUnits, [])

/-- The `for (; *p; p++)` loop of `ParseMoney`: `strWhole`, `nUnits` and what follows the loop, or
`none` where it returns `false`. -/
def parseWhole (strWhole : List UInt8) : List UInt8 → Option (List UInt8 × Int × List UInt8)
  | [] => some (strWhole, 0, [])
  | c :: p =>
    if c = 0 then some (strWhole, 0, c :: p)
    else if c = '.'.toUInt8 then
      let (nUnits, p) := parseFraction 0 (CENT * 10) p
      some (strWhole, nUnits, p)
    else if isspace c then some (strWhole, 0, c :: p)
    else if ¬ isdigit c then none
    else parseWhole (strWhole ++ [c]) p

/-- `atoi64(str)`, `strtoll(str, NULL, 10)`: the value of the digits `str` starts with.  Leading
spaces, a sign and saturation are left out: `ParseMoney` passes at most ten digits. -/
def atoi64 (str : List UInt8) : Int :=
  (str.takeWhile isdigit).foldl (fun n c => 10 * n + ((c.toNat : Int) - 48)) 0

/-- `ParseMoney(pszIn, nRet)`: `nRet` when it returns `true`; otherwise `nRet` is not written. -/
def ParseMoney (pszIn : List UInt8) : Option Int := do
  let p := pszIn.dropWhile isspace
  let (strWhole, nUnits, p) ← parseWhole [] p
  if (p.takeWhile (· ≠ 0)).any (! isspace ·) then none
  -- guard against 63 bit overflow
  if strWhole.length > 10 then none
  if nUnits < 0 ∨ nUnits > COIN then none
  let nWhole := atoi64 strWhole
  return nWhole * COIN + nUnits

/-! ### Digits and `atoi64` -/

theorem isdigit_iff {c : UInt8} : isdigit c = true ↔ 48 ≤ c.toNat ∧ c.toNat ≤ 57 := by
  simp only [isdigit, Bool.and_eq_true, decide_eq_true_eq, UInt8.le_iff_toNat_le]
  rfl

/-- A digit is neither the NUL, a space nor the point. -/
theorem isdigit_not_stop {c : UInt8} (hc : isdigit c) :
    c ≠ 0 ∧ isspace c = false ∧ c ≠ '.'.toUInt8 := by
  rw [isdigit_iff] at hc
  refine ⟨fun h => ?_, isspace_of_gt (by omega), fun h => ?_⟩
  all_goals subst h; revert hc; decide

/-- The bytes `%d` prints for the digits `0` to `9`. -/
theorem digitChar_toUInt8 : ∀ d : Fin 10,
    (Nat.digitChar d).toUInt8.toNat = 48 + d ∧ isdigit (Nat.digitChar d).toUInt8 := by
  decide

@[simp] theorem atoi64_nil : atoi64 [] = 0 := rfl

/-- Reading one more digit. -/
theorem atoi64_append_digit {s : List UInt8} {c : UInt8} (hs : ∀ c ∈ s, isdigit c)
    (hc : isdigit c) : atoi64 (s ++ [c]) = 10 * atoi64 s + ((c.toNat : Int) - 48) := by
  have hsc : ∀ c' ∈ s ++ [c], isdigit c' := by
    simpa [or_imp, forall_and] using ⟨hs, hc⟩
  rw [atoi64, atoi64, List.takeWhile_eq_self_iff.mpr hsc, List.takeWhile_eq_self_iff.mpr hs,
    List.foldl_append]
  rfl

theorem atoi64_append {s : List UInt8} (hs : ∀ c ∈ s, isdigit c) :
    ∀ {t : List UInt8}, (∀ c ∈ t, isdigit c) →
      atoi64 (s ++ t) = atoi64 s * 10 ^ t.length + atoi64 t := by
  intro t
  induction t using List.reverseRecOn with
  | nil => simp
  | append_singleton t c ih =>
    intro ht
    have ht' : ∀ c ∈ t, isdigit c := fun c' h => ht c' (by simp [h])
    have hc : isdigit c := ht c (by simp)
    have hst : ∀ c ∈ s ++ t, isdigit c := by
      simpa [or_imp, forall_and] using ⟨hs, ht'⟩
    rw [← List.append_assoc, atoi64_append_digit hst hc, atoi64_append_digit ht' hc, ih ht',
      List.length_append, List.length_singleton, pow_succ]
    ring

/-- The value of `k` digits is below `10 ^ k`. -/
theorem atoi64_bounds {s : List UInt8} (hs : ∀ c ∈ s, isdigit c) :
    0 ≤ atoi64 s ∧ atoi64 s < 10 ^ s.length := by
  induction s using List.reverseRecOn with
  | nil => simp
  | append_singleton s c ih =>
    have hs' : ∀ c ∈ s, isdigit c := fun c' h => hs c' (by simp [h])
    have hc := isdigit_iff.mp (hs c (by simp))
    obtain ⟨h0, hlt⟩ := ih hs'
    rw [atoi64_append_digit hs' (isdigit_iff.mpr hc), List.length_append, List.length_singleton,
      pow_succ]
    omega

theorem atoi64_replicate_zero (k : Nat) : atoi64 (List.replicate k '0'.toUInt8) = 0 := by
  induction k with
  | zero => rfl
  | succ k ih =>
    have hz : ∀ c ∈ List.replicate k '0'.toUInt8, isdigit c := fun c hc => by
      rw [List.eq_of_mem_replicate hc]; rfl
    rw [List.replicate_succ', atoi64_append_digit hz rfl, ih]
    rfl

/-- `%d` one digit at a time. -/
theorem formatDecimal_eq (n : Nat) : formatDecimal n =
    if n < 10 then [(Nat.digitChar n).toUInt8]
    else formatDecimal (n / 10) ++ [(Nat.digitChar (n % 10)).toUInt8] := by
  rw [formatDecimal, Nat.toDigits_eq_if (by decide)]
  split <;> simp [formatDecimal]

theorem isdigit_formatDecimal (n : Nat) : ∀ c ∈ formatDecimal n, isdigit c := by
  induction n using Nat.strong_induction_on with
  | _ n ih =>
    rw [formatDecimal_eq]
    split
    · rename_i hn
      simpa using (digitChar_toUInt8 ⟨n, hn⟩).2
    · rename_i hn
      have hd := (digitChar_toUInt8 ⟨n % 10, Nat.mod_lt _ (by decide)⟩).2
      simpa [or_imp, forall_and] using ⟨ih (n / 10) (by omega), hd⟩

/-- `atoi64` reads back what `%d` prints. -/
theorem atoi64_formatDecimal (n : Nat) : atoi64 (formatDecimal n) = n := by
  induction n using Nat.strong_induction_on with
  | _ n ih =>
    rw [formatDecimal_eq]
    split
    · rename_i hn
      obtain ⟨hv, hd⟩ := digitChar_toUInt8 ⟨n, hn⟩
      rw [← List.nil_append [_], atoi64_append_digit (by simp) hd, atoi64_nil]
      simp only [hv]
      omega
    · rename_i hn
      obtain ⟨hv, hd⟩ := digitChar_toUInt8 ⟨n % 10, Nat.mod_lt _ (by decide)⟩
      rw [atoi64_append_digit (isdigit_formatDecimal _) hd, ih (n / 10) (by omega)]
      simp only [hv]
      omega

theorem formatDecimal_length_le {n k : Nat} (hk : 0 < k) (hn : n < 10 ^ k) :
    (formatDecimal n).length ≤ k := by
  rw [formatDecimal, List.length_map]
  exact (Nat.length_toDigits_le_iff (by decide) hk).mpr hn

theorem formatDecimal08_length {n : Nat} (hn : n < 10 ^ 8) : (formatDecimal08 n).length = 8 := by
  have h := formatDecimal_length_le (by decide) hn
  rw [formatDecimal, List.length_map] at h
  simp [formatDecimal08, formatDecimal]
  omega

theorem isdigit_formatDecimal08 (n : Nat) : ∀ c ∈ formatDecimal08 n, isdigit c := by
  intro c hc
  rcases List.mem_append.mp hc with hc | hc
  · rw [List.eq_of_mem_replicate hc]; rfl
  · exact isdigit_formatDecimal n c hc

theorem atoi64_formatDecimal08 (n : Nat) : atoi64 (formatDecimal08 n) = n := by
  rw [formatDecimal08, atoi64_append (fun c hc => by rw [List.eq_of_mem_replicate hc]; rfl)
    (isdigit_formatDecimal n), atoi64_replicate_zero, atoi64_formatDecimal]
  simp

/-! ### `FormatMoney` -/

/-- Every zero the trim loop counts is a `'0'` with a digit two places before it. -/
theorem trimLoop_spec (str : List UInt8) : ∀ i k, k < trimLoop str i →
    str.getD (i - k) 0 = '0'.toUInt8 ∧ isdigit (str.getD (i - k - 2) 0)
  | 0, k, h | 1, k, h => by simp [trimLoop] at h
  | i + 2, k, h => by
    rw [trimLoop] at h
    split at h
    · rename_i hc
      cases k with
      | zero => simpa using hc
      | succ k =>
        have hk := trimLoop_spec str (i + 1) k (by omega)
        rwa [show i + 2 - (k + 1) = i + 1 - k by omega]
    · simp at h

/-- On digits, a point and eight digits `E`, the trim loop from the end counts at most six: the
seventh would need a digit in the place of the point.  What it cuts of `E` is zeros. -/
theorem trimLoop_point {D E : List UInt8} (hE : E.length = 8) :
    trimLoop (D ++ '.'.toUInt8 :: E) (D.length + 8) ≤ 6 ∧
      E.drop (8 - trimLoop (D ++ '.'.toUInt8 :: E) (D.length + 8)) =
        List.replicate (trimLoop (D ++ '.'.toUInt8 :: E) (D.length + 8)) '0'.toUInt8 := by
  generalize ht : trimLoop (D ++ '.'.toUInt8 :: E) (D.length + 8) = t
  have hspec := trimLoop_spec (D ++ '.'.toUInt8 :: E) (D.length + 8)
  rw [ht] at hspec
  -- the place `k` from the end of `E`
  have hE_at : ∀ k < 8, (D ++ '.'.toUInt8 :: E).getD (D.length + 8 - k) 0 = E.getD (7 - k) 0 := by
    intro k hk
    rw [List.getD_append_right _ _ _ _ (by omega), show D.length + 8 - k - D.length = (7 - k) + 1 by
      omega]
    rfl
  have h6 : t ≤ 6 := by
    by_contra h7
    have hdot := (hspec 6 (by omega)).2
    rw [show D.length + 8 - 6 - 2 = D.length + 0 by omega, List.getD_append_right _ _ _ _ (by omega),
      Nat.add_sub_cancel_left, List.getD_cons_zero] at hdot
    exact absurd hdot (by decide)
  refine ⟨h6, List.ext_getElem (by simp [hE]; omega) fun j _ h2 => ?_⟩
  have hj : j < t := by simpa using h2
  have hz := (hspec (t - 1 - j) (by omega)).1
  rw [hE_at _ (by omega), List.getD_eq_getElem _ _ (by omega)] at hz
  simp only [List.getElem_drop, List.getElem_replicate]
  rw [← hz]
  simp only [show 8 - t + j = 7 - (t - 1 - j) by omega]

/-- `FormatMoney` of an amount `n ≥ 0`: the digits of `n / COIN`, a point, and the eight digits
of `n % COIN` with `t ≤ 6` cut from their end, all of them zeros. -/
theorem formatMoney_eq {n : Int} (hn : 0 ≤ n) : ∃ t ≤ 6,
    FormatMoney n = formatDecimal (n / COIN).toNat ++
      '.'.toUInt8 :: (formatDecimal08 (n % COIN).toNat).take (8 - t) ∧
    (formatDecimal08 (n % COIN).toNat).drop (8 - t) = List.replicate t '0'.toUInt8 := by
  have hE : (formatDecimal08 (n % COIN).toNat).length = 8 :=
    formatDecimal08_length (by
      have hr : n % COIN < 100000000 := Int.emod_lt_of_pos n (by decide)
      rw [show (10 : Nat) ^ 8 = 100000000 from rfl]
      omega)
  obtain ⟨h6, hdrop⟩ := trimLoop_point (D := formatDecimal (n / COIN).toNat) hE
  refine ⟨_, h6, ?_, hdrop⟩
  have habs : (if n > 0 then n else -n) = n := by split <;> omega
  simp only [FormatMoney, habs, if_neg (show ¬ n < 0 by omega), List.length_append,
    List.length_cons, hE]
  rw [show (formatDecimal (n / COIN).toNat).length + (8 + 1) - 1 =
    (formatDecimal (n / COIN).toNat).length + 8 by omega]
  split
  · rw [List.take_append, List.take_of_length_le (by omega), List.take_cons (by omega)]
    congr 3
    omega
  · rename_i h0
    simp only [Decidable.not_not] at h0
    rw [h0, Nat.sub_zero, List.take_of_length_le (by omega)]

/-! ### `ParseMoney` -/

theorem atoi64_singleton {c : UInt8} (hc : isdigit c) : atoi64 [c] = (c.toNat : Int) - 48 := by
  rw [← List.nil_append [c], atoi64_append_digit (by simp) hc, atoi64_nil]
  ring

/-- `k ≤ 8` digits of fraction, scaled to eight places, are less than a coin. -/
theorem fraction_lt_COIN {fs : List UInt8} (hfs : ∀ c ∈ fs, isdigit c) (hlen : fs.length ≤ 8) :
    0 ≤ atoi64 fs * 10 ^ (8 - fs.length) ∧ atoi64 fs * 10 ^ (8 - fs.length) < COIN := by
  obtain ⟨h0, hlt⟩ := atoi64_bounds hfs
  have hp : (10 : Int) ^ fs.length * 10 ^ (8 - fs.length) = COIN := by
    rw [← pow_add, show fs.length + (8 - fs.length) = 8 by omega]
    rfl
  have hpos : (0 : Int) < 10 ^ (8 - fs.length) := by positivity
  constructor
  · positivity
  · rw [← hp]
    exact mul_lt_mul_of_pos_right hlt hpos

theorem parseFraction_zero (u : Int) (p : List UInt8) : parseFraction u 0 p = (u, p) := by
  cases p <;> simp [parseFraction]

/-- The fraction loop reads the digits `fs`, at most one for each place of `nMult = 10 ^ j`, up
to a byte that is not a digit or the end. -/
theorem parseFraction_digits (u : Int) {fs : List UInt8} (hfs : ∀ c ∈ fs, isdigit c) :
    ∀ {j : Nat} {rest : List UInt8}, fs.length ≤ j + 1 →
      (fs.length ≤ j → ∀ c ∈ rest.head?, isdigit c = false) →
      parseFraction u (10 ^ j) (fs ++ rest) = (u + atoi64 fs * 10 ^ (j + 1 - fs.length), rest) := by
  induction fs generalizing u with
  | nil =>
    intro j rest _ hrest
    cases rest with
    | nil => simp [parseFraction]
    | cons c rest =>
      have hc : isdigit c = false := hrest (by simp) c rfl
      simp [parseFraction, hc]
  | cons c fs ih =>
    intro j rest hlen hrest
    have hc : isdigit c := hfs c (by simp)
    have hfs' : ∀ c ∈ fs, isdigit c := fun c' h => hfs c' (by simp [h])
    have hcfs : atoi64 (c :: fs) = ((c.toNat : Int) - 48) * 10 ^ fs.length + atoi64 fs := by
      rw [← List.singleton_append, atoi64_append (by simpa using hc) hfs', atoi64_singleton hc]
    rw [List.cons_append, parseFraction, if_pos ⟨hc, by positivity⟩, hcfs]
    cases j with
    | zero =>
      -- one place left: this digit is the last the loop reads
      obtain rfl : fs = [] := List.eq_nil_of_length_eq_zero (by simpa using hlen)
      simp [parseFraction_zero]
    | succ j =>
      have hdiv : (10 : Int) ^ (j + 1) / 10 = 10 ^ j := by
        rw [pow_succ, Int.mul_ediv_cancel _ (by decide)]
      have hp : (10 : Int) ^ (j + 1) = 10 ^ fs.length * 10 ^ (j + 1 - fs.length) := by
        rw [← pow_add]
        congr 1
        simp at hlen
        omega
      rw [hdiv, ih _ hfs' (by simp at hlen; omega) fun h => hrest (by simp; omega),
        List.length_cons, show j + 1 + 1 - (fs.length + 1) = j + 1 - fs.length by omega, hp]
      congr 1
      ring

/-- Every input splits into the digits the fraction loop reads and what follows them. -/
theorem parseFraction_split (u : Int) (j : Nat) (p : List UInt8) : ∃ fs rest, p = fs ++ rest ∧
    (∀ c ∈ fs, isdigit c) ∧ fs.length ≤ j + 1 ∧
    (fs.length ≤ j → ∀ c ∈ rest.head?, isdigit c = false) ∧
    parseFraction u (10 ^ j) p = (u + atoi64 fs * 10 ^ (j + 1 - fs.length), rest) := by
  set ds := p.takeWhile isdigit
  have hfs : ∀ c ∈ ds.take (j + 1), isdigit c := fun c hc =>
    List.mem_takeWhile_imp (List.mem_of_mem_take hc)
  have hlen : (ds.take (j + 1)).length ≤ j + 1 := List.length_take_le _ _
  have hrest : (ds.take (j + 1)).length ≤ j →
      ∀ c ∈ (ds.drop (j + 1) ++ p.dropWhile isdigit).head?, isdigit c = false := by
    intro h c hc
    rw [List.drop_eq_nil_of_le (by simp at h; omega), List.nil_append] at hc
    have := List.head?_dropWhile_not isdigit p
    rw [hc] at this
    exact this
  have hp : p = ds.take (j + 1) ++ (ds.drop (j + 1) ++ p.dropWhile isdigit) := by
    rw [← List.append_assoc, List.take_append_drop, List.takeWhile_append_dropWhile]
  refine ⟨_, _, hp, hfs, hlen, hrest, ?_⟩
  rw [hp, parseFraction_digits u hfs hlen hrest, ← hp]

/-- The whole part's loop takes digits into `strWhole`. -/
theorem parseWhole_digits (sw : List UInt8) {ws : List UInt8} (hws : ∀ c ∈ ws, isdigit c)
    (rest : List UInt8) : parseWhole sw (ws ++ rest) = parseWhole (sw ++ ws) rest := by
  induction ws generalizing sw with
  | nil => simp
  | cons c ws ih =>
    obtain ⟨h0, hsp, hdot⟩ := isdigit_not_stop (hws c (by simp))
    rw [List.cons_append, parseWhole, if_neg h0, if_neg hdot, hsp, if_neg Bool.false_ne_true,
      if_neg (by simpa using hws c (by simp)), ih _ fun c' h => hws c' (by simp [h]),
      List.append_assoc, List.singleton_append]

/-- What follows the number: spaces up to the end or a NUL. -/
def Trailing (tail : List UInt8) : Prop := ∀ c ∈ tail.takeWhile (· ≠ 0), isspace c

instance (tail : List UInt8) : Decidable (Trailing tail) :=
  inferInstanceAs (Decidable (∀ c ∈ _, _))

theorem trailing_iff {tail : List UInt8} :
    Trailing tail ↔ (tail.takeWhile (· ≠ 0)).any (! isspace ·) = false := by
  simp [Trailing]

/-- Spaces end the whole part's loop, and so do the end and a NUL. -/
theorem parseWhole_trailing (sw : List UInt8) {tail : List UInt8} (ht : Trailing tail) :
    parseWhole sw tail = some (sw, 0, tail) := by
  cases tail with
  | nil => rfl
  | cons c tail =>
    by_cases h0 : c = 0
    · simp [parseWhole, h0]
    · have hsp : isspace c := ht c (by simp [h0])
      have hdot : c ≠ '.'.toUInt8 := fun h => absurd hsp (by rw [h]; decide)
      simp [parseWhole, h0, hdot, hsp]

theorem trailing_head {tail : List UInt8} (ht : Trailing tail) :
    ∀ c ∈ tail.head?, isdigit c = false := by
  intro c hc
  cases tail with
  | nil => simp at hc
  | cons d tail =>
    obtain rfl : d = c := by simpa using hc
    by_cases h0 : d = 0
    · rw [h0]; rfl
    · have hsp : isspace d := ht d (by simp [h0])
      cases hd : isdigit d
      · rfl
      · exact absurd hsp (by rw [(isdigit_not_stop hd).2.1]; decide)

/-- What `ParseMoney` checks once its loop is done. -/
theorem parseMoney_of_parseWhole {s strWhole p : List UInt8} {nUnits : Int}
    (h : parseWhole [] (s.dropWhile isspace) = some (strWhole, nUnits, p)) :
    ParseMoney s = if Trailing p ∧ strWhole.length ≤ 10 ∧ 0 ≤ nUnits ∧ nUnits ≤ COIN then
      some (atoi64 strWhole * COIN + nUnits) else none := by
  simp only [ParseMoney, h, Option.pure_def, Option.bind_eq_bind, Option.bind_some,
    Option.bind_none]
  -- the three guards, in the order the source checks them
  by_cases ht : Trailing p
  · rw [if_neg (by rw [trailing_iff.mp ht]; decide)]
    by_cases hl : strWhole.length ≤ 10
    · rw [if_neg (by omega)]
      by_cases hu : 0 ≤ nUnits ∧ nUnits ≤ COIN
      · rw [if_neg (by omega), if_pos ⟨ht, hl, hu⟩]
      · rw [if_pos (by omega), if_neg fun h => hu h.2.2]
    · rw [if_pos (by omega), if_neg fun h => hl h.2.1]
  · rw [if_pos (by simpa [trailing_iff] using ht), if_neg fun h => ht h.1]

/-- The strings `ParseMoney` accepts, after its leading spaces: at most ten digits `ws`, then
either nothing more (`fs = []`) or a point and at most eight digits `fs`, then spaces up to the
end or a NUL. -/
def MoneyString (p ws fs : List UInt8) : Prop :=
  (∀ c ∈ ws, isdigit c) ∧ ws.length ≤ 10 ∧ (∀ c ∈ fs, isdigit c) ∧ fs.length ≤ 8 ∧
    ∃ tail, Trailing tail ∧ (p = ws ++ tail ∧ fs = [] ∨ p = ws ++ '.'.toUInt8 :: (fs ++ tail))

/-- Every value of a money string is an amount below `MAX_MONEY`. -/
theorem moneyString_value_lt {p ws fs : List UInt8} (h : MoneyString p ws fs) :
    0 ≤ atoi64 ws * COIN + atoi64 fs * 10 ^ (8 - fs.length) ∧
      atoi64 ws * COIN + atoi64 fs * 10 ^ (8 - fs.length) < MAX_MONEY := by
  obtain ⟨hws, hwl, hfs, hfl, -⟩ := h
  obtain ⟨hw0, hwlt⟩ := atoi64_bounds hws
  obtain ⟨hf0, hflt⟩ := fraction_lt_COIN hfs hfl
  have hw : atoi64 ws ≤ 10 ^ 10 - 1 := by
    have := pow_le_pow_right₀ (by norm_num : (1 : Int) ≤ 10) hwl
    omega
  have hcoin : (0 : Int) ≤ COIN := by decide
  have hmul : atoi64 ws * COIN ≤ (10 ^ 10 - 1) * COIN := mul_le_mul_of_nonneg_right hw hcoin
  refine ⟨by positivity, ?_⟩
  rw [MAX_MONEY]
  linarith

/-- `ParseMoney` accepts every money string, with its value. -/
theorem parseMoney_of_moneyString {s ws fs : List UInt8}
    (h : MoneyString (s.dropWhile isspace) ws fs) :
    ParseMoney s = some (atoi64 ws * COIN + atoi64 fs * 10 ^ (8 - fs.length)) := by
  obtain ⟨hws, hwl, hfs, hfl, tail, ht, hp⟩ := h
  obtain ⟨hu0, hu⟩ := fraction_lt_COIN hfs hfl
  have hloop : parseWhole [] (s.dropWhile isspace) =
      some (ws, atoi64 fs * 10 ^ (8 - fs.length), tail) := by
    rcases hp with ⟨hp, rfl⟩ | hp
    · rw [hp, parseWhole_digits [] hws, List.nil_append, parseWhole_trailing _ ht]
      simp
    · rw [hp, parseWhole_digits [] hws, List.nil_append, parseWhole, if_neg (by decide),
        if_pos rfl, show CENT * 10 = 10 ^ 7 from rfl,
        parseFraction_digits 0 hfs (by omega) fun _ => trailing_head ht]
      simp
  rw [parseMoney_of_parseWhole hloop, if_pos ⟨ht, hwl, hu0, hu.le⟩]

/-- Whatever `ParseMoney` accepts is a money string, read with its value. -/
theorem moneyString_of_parseMoney {s : List UInt8} {v : Int} (h : ParseMoney s = some v) :
    ∃ ws fs, MoneyString (s.dropWhile isspace) ws fs ∧
      v = atoi64 ws * COIN + atoi64 fs * 10 ^ (8 - fs.length) := by
  set ws := (s.dropWhile isspace).takeWhile isdigit
  have hws : ∀ c ∈ ws, isdigit c := fun c hc => List.mem_takeWhile_imp hc
  have hp : s.dropWhile isspace = ws ++ (s.dropWhile isspace).dropWhile isdigit :=
    List.takeWhile_append_dropWhile.symm
  have hhead := List.head?_dropWhile_not isdigit (s.dropWhile isspace)
  -- the checks after the loop, once it has stopped with `ws`, `nUnits` and `tail`
  have finish : ∀ {nUnits tail}, parseWhole [] (s.dropWhile isspace) = some (ws, nUnits, tail) →
      Trailing tail ∧ ws.length ≤ 10 ∧ v = atoi64 ws * COIN + nUnits := by
    intro nUnits tail hloop
    rw [parseMoney_of_parseWhole hloop] at h
    split at h
    · rename_i hc
      exact ⟨hc.1, hc.2.1, (Option.some.inj h).symm⟩
    · simp at h
  generalize hr : (s.dropWhile isspace).dropWhile isdigit = r at hp hhead
  have hloop : parseWhole [] (s.dropWhile isspace) = parseWhole ws r := by
    rw [hp, parseWhole_digits [] hws]
    rfl
  cases r with
  | nil =>
    obtain ⟨ht, hl, hv⟩ := finish (by rw [hloop]; rfl)
    exact ⟨ws, [], ⟨hws, hl, by simp, by simp, [], ht, .inl ⟨hp, rfl⟩⟩, by simpa using hv⟩
  | cons c q =>
    have hc : isdigit c = false := hhead
    by_cases hdot : c = '.'.toUInt8
    · -- a point: the fraction loop reads the digits `fs`
      subst hdot
      obtain ⟨fs, rest, hq, hfs, hfl, -, hfrac⟩ := parseFraction_split 0 7 q
      have hstop : parseWhole [] (s.dropWhile isspace) =
          some (ws, atoi64 fs * 10 ^ (8 - fs.length), rest) := by
        rw [hloop, parseWhole, if_neg (by decide), if_pos rfl, show CENT * 10 = 10 ^ 7 from rfl,
          hfrac]
        simp
      obtain ⟨ht, hl, hv⟩ := finish hstop
      exact ⟨ws, fs, ⟨hws, hl, hfs, by omega, rest, ht, .inr (by rw [hp, hq])⟩, hv⟩
    · by_cases hend : c = 0 ∨ isspace c
      · -- a NUL or a space ends the number
        have hstop : parseWhole [] (s.dropWhile isspace) = some (ws, 0, c :: q) := by
          rw [hloop]
          rcases hend with h0 | hsp
          · simp [parseWhole, h0]
          · simp [parseWhole, hdot, hsp]
        obtain ⟨ht, hl, hv⟩ := finish hstop
        exact ⟨ws, [], ⟨hws, hl, by simp, by simp, c :: q, ht, .inl ⟨hp, rfl⟩⟩, by simpa using hv⟩
      · -- any other byte: `return false`
        have hnone : parseWhole [] (s.dropWhile isspace) = none := by
          rw [hloop]
          simp only [not_or, Bool.not_eq_true] at hend
          simp [parseWhole, hend.1, hdot, hend.2, hc]
        simp [ParseMoney, hnone] at h

/-- The strings `ParseMoney` accepts, and what it returns for them. -/
theorem parseMoney_eq_some_iff {s : List UInt8} {v : Int} :
    ParseMoney s = some v ↔ ∃ ws fs, MoneyString (s.dropWhile isspace) ws fs ∧
      v = atoi64 ws * COIN + atoi64 fs * 10 ^ (8 - fs.length) := by
  constructor
  · exact moneyString_of_parseMoney
  · rintro ⟨ws, fs, h, rfl⟩
    exact parseMoney_of_moneyString h

/-! ### Round trip -/

/-- `ParseMoney` reads back `FormatMoney n` for every amount `0 ≤ n < MAX_MONEY`: the whole part
then has at most ten digits, and the fraction's cut digits were zeros. -/
theorem parseMoney_formatMoney_of_lt {n : Int} (h0 : 0 ≤ n) (hn : n < MAX_MONEY) :
    ParseMoney (FormatMoney n) = some n := by
  obtain ⟨t, ht, hfmt, hdrop⟩ := formatMoney_eq h0
  set D := formatDecimal (n / COIN).toNat
  set E := formatDecimal08 (n % COIN).toNat
  have hcoin : (0 : Int) < COIN := by decide
  have hq : (n / COIN).toNat < 10 ^ 10 := by
    have : n / COIN < 10000000000 := Int.ediv_lt_of_lt_mul hcoin (by rw [MAX_MONEY] at hn; linarith)
    rw [show (10 : Nat) ^ 10 = 10000000000 from rfl]
    omega
  have hE : ∀ c ∈ E.take (8 - t), isdigit c := fun c hc =>
    isdigit_formatDecimal08 _ c (List.mem_of_mem_take hc)
  -- `FormatMoney n` starts with a digit, so no space is skipped
  have hspace : (FormatMoney n).dropWhile isspace = FormatMoney n := by
    obtain ⟨d, D', hD⟩ := List.exists_cons_of_ne_nil (by simp [D, formatDecimal] : D ≠ [])
    have hd := isdigit_not_stop (isdigit_formatDecimal (n / COIN).toNat d
      (show d ∈ D by rw [hD]; simp))
    rw [hfmt, hD, List.cons_append, List.dropWhile_cons_of_neg (by simp [hd.2.1])]
  have hms : MoneyString ((FormatMoney n).dropWhile isspace) D (E.take (8 - t)) :=
    ⟨isdigit_formatDecimal _, formatDecimal_length_le (by decide) hq, hE, by simp, [],
      by simp [Trailing], .inr (by rw [hspace, hfmt, List.append_nil])⟩
  -- the cut digits are zeros, so the fraction keeps its value
  have hfrac : atoi64 (E.take (8 - t)) * 10 ^ t = n % COIN := by
    have hz : ∀ c ∈ E.drop (8 - t), isdigit c := fun c hc => by
      rw [hdrop] at hc
      rw [List.eq_of_mem_replicate hc]
      rfl
    have hsplit := atoi64_append hE hz
    rw [List.take_append_drop, atoi64_formatDecimal08, hdrop, atoi64_replicate_zero,
      List.length_replicate, add_zero, Int.toNat_of_nonneg (Int.emod_nonneg _ hcoin.ne')] at hsplit
    exact hsplit.symm
  have hlen : 8 - (E.take (8 - t)).length = t := by
    rw [List.length_take, formatDecimal08_length (by
      have hr : n % COIN < 100000000 := Int.emod_lt_of_pos n hcoin
      rw [show (10 : Nat) ^ 8 = 100000000 from rfl]
      omega)]
    omega
  rw [parseMoney_of_moneyString hms, hlen, hfrac, atoi64_formatDecimal,
    Int.toNat_of_nonneg (Int.ediv_nonneg h0 hcoin.le), mul_comm, Int.mul_ediv_add_emod]

theorem parseMoney_formatMoney :
    (∀ n, 0 ≤ n → n < MAX_MONEY → ParseMoney (FormatMoney n) = some n) ∧
    FormatMoney MAX_MONEY = "10000000000.00".toList.map Char.toUInt8 ∧
    ParseMoney (FormatMoney MAX_MONEY) = none ∧
    ∀ s v, ParseMoney s = some v → ∃ ws fs, MoneyString (s.dropWhile isspace) ws fs ∧
      v = atoi64 ws * COIN + atoi64 fs * 10 ^ (8 - fs.length) ∧ 0 ≤ v ∧ v < MAX_MONEY ∧
      v < 2 ^ 63 := by
  refine ⟨fun n h0 hn => parseMoney_formatMoney_of_lt h0 hn, by decide, by decide, ?_⟩
  intro s v h
  obtain ⟨ws, fs, hms, rfl⟩ := moneyString_of_parseMoney h
  obtain ⟨hv0, hvlt⟩ := moneyString_value_lt hms
  have hmax : MAX_MONEY < 2 ^ 63 := by decide
  exact ⟨ws, fs, hms, rfl, hv0, hvlt, hvlt.trans hmax⟩

theorem parseMoney_formatMoney_coin :
    0 ≤ COIN ∧ COIN < MAX_MONEY ∧ ParseMoney (FormatMoney COIN) = some COIN :=
  ⟨by decide, by decide, parseMoney_formatMoney.1 COIN (by decide) (by decide)⟩

end Trumpow
