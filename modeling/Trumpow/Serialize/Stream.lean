import Trumpow.Support.Codec

/-!
# Serialize — integers, sizes and vectors

`serialize.h`.  An integer of `n` bytes is written least significant byte first
(`ser_writedata8` to `ser_writedata64`).  A size is written as a `CompactSize`: one byte below
`253`, else a marker byte `253`, `254` or `255` and two, four or eight bytes.  `ReadCompactSize`
rejects a size written in more bytes than it needs, and one above `MAX_SIZE`.  A vector is its
size, then its elements; a byte vector (`CScript`, `std::vector<unsigned char>`) its size, then
its bytes.

Each reader reads back what its writer wrote, within the bounds the reader checks
(`reads_readCompactSize`, `reads_readBytes`, `reads_readVector`), and each accepts only what
its writer writes (`readCompactSize_accepts`, `readBytes_accepts`, `readVector_accepts`).  A size
above `MAX_SIZE` is written but not read (`readCompactSize_of_gt`).
-/

namespace Trumpow

open Codec

variable {α β : Type}

/-! ### Integers -/

/-- `ser_writedata8` to `ser_writedata64`: the `n` bytes of `x`, least significant first. -/
def writeLE : Nat → Nat → List UInt8
  | 0, _ => []
  | n + 1, x => UInt8.ofNat x :: writeLE n (x / 256)

/-- The number whose bytes, least significant first, are `b`. -/
def readLE : List UInt8 → Nat
  | [] => 0
  | b :: bs => b.toNat + 256 * readLE bs

/-- `ser_readdata8` to `ser_readdata64`. -/
def readData (n : Nat) : Reader UInt8 Nat := readLE <$> readTokens n

@[simp]
theorem length_writeLE : ∀ n x, (writeLE n x).length = n
  | 0, _ => rfl
  | n + 1, x => by simp [writeLE, length_writeLE n]

theorem readLE_writeLE : ∀ n x, readLE (writeLE n x) = x % 256 ^ n
  | 0, x => by simp [writeLE, readLE, Nat.mod_one]
  | n + 1, x => by
    have hmod : x % 256 ^ (n + 1) = x % 256 + 256 * (x / 256 % 256 ^ n) := by
      rw [pow_succ', Nat.mod_mul]
    rw [writeLE, readLE, readLE_writeLE n, UInt8.toNat_ofNat', hmod]

theorem writeLE_readLE : ∀ b : List UInt8, writeLE b.length (readLE b) = b
  | [] => rfl
  | b :: bs => by
    have hb := b.toNat_lt
    rw [List.length_cons, writeLE, readLE, show (b.toNat + 256 * readLE bs) / 256 = readLE bs by
      omega, writeLE_readLE bs]
    congr 1
    apply UInt8.toNat.inj
    rw [UInt8.toNat_ofNat']
    omega

theorem readLE_lt : ∀ b : List UInt8, readLE b < 256 ^ b.length
  | [] => by simp [readLE]
  | b :: bs => by
    have hb := b.toNat_lt
    have := readLE_lt bs
    rw [readLE, List.length_cons, pow_succ]
    omega

theorem reads_readData {n x : Nat} (hx : x < 256 ^ n) : Reads (readData n) (writeLE n x) x := by
  have h := (reads_readTokens (writeLE n x)).map readLE
  rw [length_writeLE, readLE_writeLE, Nat.mod_eq_of_lt hx] at h
  exact h

/-- `ser_readdata` accepts exactly the `n` bytes of a number below `256 ^ n`. -/
theorem readData_accepts {n x : Nat} {s rest : List UInt8}
    (h : (readData n).run s = some (x, rest)) : x < 256 ^ n ∧ s = writeLE n x ++ rest := by
  rw [readData, StateT.run_map] at h
  cases ht : (readTokens n).run s with
  | none => rw [ht] at h; cases h
  | some p =>
    obtain ⟨t, rest'⟩ := p
    rw [ht] at h
    cases h
    obtain ⟨hlen, rfl⟩ := run_readTokens_eq_some.mp ht
    exact ⟨hlen ▸ readLE_lt t, by rw [← hlen, writeLE_readLE]⟩

/-! ### `CompactSize` -/

/-- `MAX_SIZE`. -/
def MAX_SIZE : Nat := 0x02000000

/-- `WriteCompactSize(os, nSize)`. -/
def writeCompactSize (nSize : Nat) : List UInt8 :=
  if nSize < 253 then writeLE 1 nSize
  else if nSize ≤ 0xffff then writeLE 1 253 ++ writeLE 2 nSize
  else if nSize ≤ 0xffffffff then writeLE 1 254 ++ writeLE 4 nSize
  else writeLE 1 255 ++ writeLE 8 nSize

/-- `GetSizeOfCompactSize(nSize)`. -/
def GetSizeOfCompactSize (nSize : Nat) : Nat :=
  if nSize < 253 then 1
  else if nSize ≤ 0xffff then 1 + 2
  else if nSize ≤ 0xffffffff then 1 + 4
  else 1 + 8

/-- `GetSizeOfCompactSize` counts the bytes `WriteCompactSize` writes. -/
theorem GetSizeOfCompactSize_eq (nSize : Nat) :
    GetSizeOfCompactSize nSize = (writeCompactSize nSize).length := by
  unfold GetSizeOfCompactSize writeCompactSize
  split_ifs <;> simp

/-- `ReadCompactSize(is)`: a failure is the source's `ios_base::failure`. -/
def readCompactSize : Reader UInt8 Nat := do
  let chSize ← readData 1
  let nSizeRet ← (
    if chSize < 253 then pure chSize
    else if chSize = 253 then do
      let nSizeRet ← readData 2
      -- non-canonical ReadCompactSize()
      if nSizeRet < 253 then failure else pure nSizeRet
    else if chSize = 254 then do
      let nSizeRet ← readData 4
      if nSizeRet < 0x10000 then failure else pure nSizeRet
    else do
      let nSizeRet ← readData 8
      if nSizeRet < 0x100000000 then failure else pure nSizeRet : Reader UInt8 Nat)
  -- ReadCompactSize(): size too large
  if nSizeRet > MAX_SIZE then failure else pure nSizeRet

/-- A size up to `MAX_SIZE` reads back.  Such a size takes one, three or five bytes. -/
theorem reads_readCompactSize {n : Nat} (hn : n ≤ MAX_SIZE) :
    Reads readCompactSize (writeCompactSize n) n := by
  have hmax : ¬n > MAX_SIZE := by omega
  have hlast : Reads (if n > MAX_SIZE then failure else pure n : Reader UInt8 Nat) [] n := by
    rw [if_neg hmax]
    exact Reads.pure n
  unfold MAX_SIZE at hn
  unfold writeCompactSize readCompactSize
  split_ifs with h₁ h₂ h₃
  · -- one byte
    refine Reads.bind_nil (reads_readData (n := 1) (x := n) (by omega)) ?_
    rw [if_pos h₁]
    exact (Reads.pure n).bind_nil hlast
  · -- `253` and two bytes
    refine Reads.bind (reads_readData (n := 1) (x := 253) (by norm_num)) ?_
    rw [if_neg (by norm_num), if_pos rfl]
    refine (Reads.bind_nil (reads_readData (n := 2) (x := n) (by omega)) ?_).bind_nil hlast
    rw [if_neg h₁]
    exact Reads.pure n
  · -- `254` and four bytes
    refine Reads.bind (reads_readData (n := 1) (x := 254) (by norm_num)) ?_
    rw [if_neg (by norm_num), if_neg (by norm_num), if_pos rfl]
    refine (Reads.bind_nil (reads_readData (n := 4) (x := n) (by omega)) ?_).bind_nil hlast
    rw [if_neg (by omega)]
    exact Reads.pure n
  · omega

/-- `ReadCompactSize` accepts only the `CompactSize` of a size up to `MAX_SIZE`. -/
theorem readCompactSize_accepts {s rest : List UInt8} {n : Nat}
    (hrun : readCompactSize.run s = some (n, rest)) :
    n ≤ MAX_SIZE ∧ s = writeCompactSize n ++ rest := by
  obtain ⟨ch, mid, hch, hsize⟩ := run_bind_eq_some.mp hrun
  obtain ⟨v, mid', hv, hlast⟩ := run_bind_eq_some.mp hsize
  obtain ⟨hmax, rfl, rfl⟩ := run_guard_eq_some.mp hlast
  obtain ⟨hch_lt, rfl⟩ := readData_accepts hch
  unfold MAX_SIZE at hmax ⊢
  refine ⟨by omega, ?_⟩
  split_ifs at hv with h₁ h₂ h₃
  · -- one byte
    rw [run_pure] at hv
    cases hv
    rw [writeCompactSize, if_pos h₁]
  · -- `253` and two bytes, at least `253`
    subst h₂
    obtain ⟨x, mid₂, hx, hguard⟩ := run_bind_eq_some.mp hv
    obtain ⟨hge, rfl, rfl⟩ := run_guard_eq_some.mp hguard
    obtain ⟨hx_lt, rfl⟩ := readData_accepts hx
    rw [writeCompactSize, if_neg (by omega), if_pos (by omega), List.append_assoc]
  · -- `254` and four bytes, at least `0x10000`
    subst h₃
    obtain ⟨x, mid₂, hx, hguard⟩ := run_bind_eq_some.mp hv
    obtain ⟨hge, rfl, rfl⟩ := run_guard_eq_some.mp hguard
    obtain ⟨hx_lt, rfl⟩ := readData_accepts hx
    rw [writeCompactSize, if_neg (by omega), if_neg (by omega), if_pos (by omega),
      List.append_assoc]
  · -- `255` and eight bytes, at least `0x100000000`, which is above `MAX_SIZE`
    obtain ⟨x, mid₂, hx, hguard⟩ := run_bind_eq_some.mp hv
    obtain ⟨hge, rfl, rfl⟩ := run_guard_eq_some.mp hguard
    omega

/-- A size above `MAX_SIZE` is written, but `ReadCompactSize` rejects it. -/
theorem readCompactSize_of_gt {n : Nat} (hn : MAX_SIZE < n) (hn64 : n < 2 ^ 64)
    (rest : List UInt8) : readCompactSize.run (writeCompactSize n ++ rest) = none := by
  have hlast : (if n > MAX_SIZE then failure else pure n : Reader UInt8 Nat).run rest = none := by
    rw [if_pos hn, run_failure]
  unfold MAX_SIZE at hn
  rw [readCompactSize, writeCompactSize, if_neg (by omega), if_neg (by omega)]
  split_ifs with h₃
  · -- `254` and four bytes
    rw [List.append_assoc, run_bind_of_reads (reads_readData (by norm_num)), if_neg (by norm_num),
      if_neg (by norm_num), if_pos rfl, bind_assoc, run_bind_of_reads (reads_readData (by omega)),
      if_neg (by omega), pure_bind, hlast]
  · -- `255` and eight bytes
    rw [List.append_assoc, run_bind_of_reads (reads_readData (by norm_num)), if_neg (by norm_num),
      if_neg (by norm_num), if_neg (by norm_num), bind_assoc,
      run_bind_of_reads (reads_readData hn64), if_neg (by omega), pure_bind, hlast]

/-- The first byte of a `CompactSize` is zero only for the size zero. -/
theorem getD_writeCompactSize_append_eq_zero (n : Nat) (rest : List UInt8) :
    (writeCompactSize n ++ rest).getD 0 0 = 0 ↔ n = 0 := by
  unfold writeCompactSize
  split_ifs with h₁ h₂ h₃
  · simp only [writeLE, List.cons_append, List.nil_append, List.getD_cons_zero]
    constructor
    · intro h
      have h' := congrArg UInt8.toNat h
      rw [UInt8.toNat_ofNat'] at h'
      simp at h'
      omega
    · rintro rfl
      rfl
  all_goals
    simp only [writeLE, List.cons_append, List.nil_append, List.getD_cons_zero]
    constructor
    · intro h
      exact absurd h (by decide)
    · intro h
      omega

/-! ### Byte vectors and vectors -/

/-- `Serialize` of a byte vector (`CScript`, `std::vector<unsigned char>`): its size, then its
bytes. -/
def writeBytes (b : List UInt8) : List UInt8 := writeCompactSize b.length ++ b

/-- `Unserialize` of a byte vector.  The source reads the bytes in blocks of at most `5000000`,
which reads the same bytes, or fails, as one read of all of them. -/
def readBytes : Reader UInt8 (List UInt8) := do
  let nSize ← readCompactSize
  readTokens nSize

/-- `Serialize` of a `std::vector<T>` of another `T`: its size, then each element. -/
def writeVector (enc : α → List UInt8) (v : List α) : List UInt8 :=
  writeCompactSize v.length ++ v.flatMap enc

/-- `Unserialize` of a `std::vector<T>`: the size, then that many elements in turn.  The source
grows the vector in blocks of `5000000 / sizeof(T)` elements, which reads the same elements. -/
def readVector (r : Reader UInt8 α) : Reader UInt8 (List α) := do
  let nSize ← readCompactSize
  readN r nSize

theorem reads_readBytes {b : List UInt8} (hb : b.length ≤ MAX_SIZE) :
    Reads readBytes (writeBytes b) b :=
  Reads.bind (reads_readCompactSize hb) (reads_readTokens b)

theorem readBytes_accepts : Canonical readBytes writeBytes := by
  intro s b rest hrun
  obtain ⟨n, mid, hn, hbytes⟩ := run_bind_eq_some.mp hrun
  obtain ⟨rfl, rfl⟩ := run_readTokens_eq_some.mp hbytes
  obtain ⟨-, rfl⟩ := readCompactSize_accepts hn
  rw [writeBytes, List.append_assoc]

theorem reads_readVector {r : Reader UInt8 α} (enc : β → List UInt8) (dec : β → α)
    {xs : List β}
    (hn : xs.length ≤ MAX_SIZE) (h : ∀ x ∈ xs, Reads r (enc x) (dec x)) :
    Reads (readVector r) (writeVector enc xs) (xs.map dec) :=
  Reads.bind (reads_readCompactSize hn) (Reads.readN enc dec xs h)

theorem readVector_accepts {r : Reader UInt8 α} {enc : α → List UInt8} (hr : Canonical r enc) :
    Canonical (readVector r) (writeVector enc) := by
  intro s v rest hrun
  obtain ⟨n, mid, hn, helems⟩ := run_bind_eq_some.mp hrun
  obtain ⟨rfl, rfl⟩ := readN_accepts hr helems
  obtain ⟨-, rfl⟩ := readCompactSize_accepts hn
  rw [writeVector, List.append_assoc]

/-- A vector of more than `MAX_SIZE` elements is written, but not read back. -/
theorem readVector_of_gt (r : Reader UInt8 α) {n : Nat} (hn : MAX_SIZE < n) (hn64 : n < 2 ^ 64)
    (rest : List UInt8) : (readVector r).run (writeCompactSize n ++ rest) = none :=
  run_bind_of_none (readCompactSize_of_gt hn hn64 rest)

theorem readVector_forall {r : Reader UInt8 α} {P : α → Prop}
    (hr : ∀ s a rest, r.run s = some (a, rest) → P a) {s rest : List UInt8} {v : List α}
    (h : (readVector r).run s = some (v, rest)) : ∀ a ∈ v, P a := by
  obtain ⟨n, mid, -, helems⟩ := run_bind_eq_some.mp h
  exact readN_forall hr helems

end Trumpow
