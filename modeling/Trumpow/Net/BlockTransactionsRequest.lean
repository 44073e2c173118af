import Trumpow.Serialize.Transaction

/-!
# Net — `BlockTransactionsRequest`

`blockencodings.h` (BIP 152).  A request for the transactions of a block names them by their
positions, each written as the distance from the one before it less one, in `CompactSize`.  The
reader takes the distances in chunks of at most 1000 (`readIndexChunks`, the same as reading them
all in turn: `readIndexChunks_eq`), refuses one above `0xffff`, and then adds them up with a
`uint16_t` offset, refusing a sum above `0xffff`.

* `blockTransactionsRequest_roundtrip`: every strictly increasing list of positions reads back.
* `unserializeBlockTransactionsRequest_offset_wraps`: the offset after the position `0xffff` is
  `0xffff + 1` in a `uint16_t`, that is `0`, so the distances `0xffff, 0` are read as the
  positions `0xffff, 0`, which are not increasing and which the writer writes otherwise.
-/

namespace Trumpow

open Codec

/-- `BlockTransactionsRequest`: the block and the positions of the transactions asked for. -/
structure BlockTransactionsRequest where
  blockhash : Uint256
  indexes : List UInt16
deriving DecidableEq

/-- The writer's `indexes[i] - (i == 0 ? 0 : (indexes[i - 1] + 1))`, in `int` and then as a
`uint64_t`, from the value `base` it subtracts at the head. -/
def differentials (base : Int) : List UInt16 → List Nat
  | [] => []
  | index :: indexes =>
    ((index.toNat - base) % 2 ^ 64).toNat :: differentials (index.toNat + 1) indexes

/-- `SerializationOp` writing. -/
def serializeBlockTransactionsRequest (req : BlockTransactionsRequest) : List UInt8 :=
  req.blockhash.data ++ writeCompactSize req.indexes.length ++
    (differentials 0 req.indexes).flatMap writeCompactSize

/-- One differential index; above `0xffff` it throws `index overflowed 16 bits`. -/
def readIndex : Reader UInt8 UInt16 := do
  let index ← readCompactSize
  if index > 0xffff then failure else pure (UInt16.ofNat index)

/-- The `while (indexes.size() < indexes_size)` loop, from `n` entries read: the vector grows to
`min(1000 + n, indexes_size)` and the new entries are read. -/
def readIndexChunks (indexes_size n : Nat) : Reader UInt8 (List UInt16) :=
  if n < indexes_size then do
    let chunk ← readN readIndex (min (1000 + n) indexes_size - n)
    let rest ← readIndexChunks indexes_size (min (1000 + n) indexes_size)
    pure (chunk ++ rest)
  else pure []
termination_by indexes_size - n

/-- The `offset` loop: each index plus `offset`, then `offset = indexes[j] + 1` as a `uint16_t`;
`none` is the exception `indexes overflowed 16 bits`. -/
def addOffsets (offset : UInt16) : List UInt16 → Option (List UInt16)
  | [] => some []
  | index :: indexes =>
    if index.toNat + offset.toNat > 0xffff then none
    else
      let index := index + offset
      (index :: ·) <$> addOffsets (index + 1) indexes

/-- `SerializationOp` reading. -/
def unserializeBlockTransactionsRequest : Reader UInt8 BlockTransactionsRequest := do
  let blockhash ← readUint256
  let indexes_size ← readCompactSize
  let indexes ← readIndexChunks indexes_size 0
  match addOffsets 0 indexes with
  | some indexes => pure ⟨blockhash, indexes⟩
  | none => failure

/-! ### Reading in chunks -/

/-- The chunks read the remaining entries one after another. -/
theorem readIndexChunks_eq (indexes_size n : Nat) :
    readIndexChunks indexes_size n = readN readIndex (indexes_size - n) := by
  rw [readIndexChunks]
  split_ifs with h
  · rw [readIndexChunks_eq indexes_size (min (1000 + n) indexes_size), ← readN_add]
    congr 1
    omega
  · rw [Nat.sub_eq_zero_of_le (by omega)]
    rfl
termination_by indexes_size - n

theorem reads_readIndex {d : Nat} (hd : d ≤ 0xffff) :
    Reads readIndex (writeCompactSize d) (UInt16.ofNat d) := by
  refine Reads.bind_nil (reads_readCompactSize (by unfold MAX_SIZE; omega)) ?_
  rw [if_neg (by omega)]
  exact Reads.pure _

/-! ### Strictly increasing positions -/

/-- At most `2 ^ 16` positions increase strictly. -/
theorem length_le_of_pairwise_lt {l : List UInt16} (h : l.Pairwise (· < ·)) :
    l.length ≤ 2 ^ 16 := by
  have hnodup : (l.map UInt16.toNat).Nodup :=
    (List.pairwise_map.mpr (h.imp fun hab => UInt16.lt_iff_toNat_lt.mp hab)).nodup
  have hsub : (l.map UInt16.toNat).toFinset ⊆ Finset.range (2 ^ 16) := by
    intro x hx
    simp only [List.mem_toFinset, List.mem_map] at hx
    obtain ⟨a, -, rfl⟩ := hx
    exact Finset.mem_range.mpr a.toNat_lt
  have := Finset.card_le_card hsub
  rwa [List.toFinset_card_of_nodup hnodup, Finset.card_range, List.length_map] at this

theorem length_differentials (base : Int) :
    ∀ l : List UInt16, (differentials base l).length = l.length
  | [] => rfl
  | _ :: l => by rw [differentials, List.length_cons, List.length_cons, length_differentials _ l]

/-- From an offset below every position, the distances of strictly increasing positions are
each at most `0xffff`, and adding them up gives the positions back. -/
theorem addOffsets_differentials :
    ∀ (offset : UInt16) (l : List UInt16), l.Pairwise (· < ·) → (∀ x ∈ l, offset ≤ x) →
      (∀ d ∈ differentials offset.toNat l, d ≤ 0xffff) ∧
        addOffsets offset ((differentials offset.toNat l).map UInt16.ofNat) = some l
  | _, [], _, _ => ⟨fun _ h => absurd h List.not_mem_nil, rfl⟩
  | offset, x :: l, hsorted, hge => by
    obtain ⟨hlt, hsorted⟩ := List.pairwise_cons.mp hsorted
    have hx : offset.toNat ≤ x.toNat := UInt16.le_iff_toNat_le.mp (hge x List.mem_cons_self)
    have hd : (((x.toNat : Int) - (offset.toNat : Int)) % 2 ^ 64).toNat = x.toNat - offset.toNat := by
      have := x.toNat_lt
      omega
    -- the next offset is `x + 1`, which wraps only when `x` is the last position
    have hnext : ∀ y ∈ l, x + 1 ≤ y ∧ ((x + 1 : UInt16).toNat : Int) = x.toNat + 1 := by
      intro y hy
      have hxy := UInt16.lt_iff_toNat_lt.mp (hlt y hy)
      have hy16 := y.toNat_lt
      have hsucc : (x + 1 : UInt16).toNat = x.toNat + 1 := by
        rw [UInt16.toNat_add, UInt16.toNat_one, Nat.mod_eq_of_lt (by omega)]
      exact ⟨UInt16.le_iff_toNat_le.mpr (by omega), by rw [hsucc]; push_cast; rfl⟩
    have hlt16 : x.toNat - offset.toNat < 2 ^ 16 := by
      have := x.toNat_lt
      omega
    have hofNat : (UInt16.ofNat (x.toNat - offset.toNat)).toNat = x.toNat - offset.toNat := by
      rw [UInt16.toNat_ofNat', Nat.mod_eq_of_lt hlt16]
    have hindex : UInt16.ofNat (x.toNat - offset.toNat) + offset = x := by
      apply UInt16.toNat_inj.mp
      rw [UInt16.toNat_add, hofNat, Nat.sub_add_cancel hx, Nat.mod_eq_of_lt x.toNat_lt]
    have hguard : ¬ (UInt16.ofNat (x.toNat - offset.toNat)).toNat + offset.toNat > 0xffff := by
      have := x.toNat_lt
      omega
    obtain ⟨hbound, hrest⟩ := addOffsets_differentials (x + 1) l hsorted fun y hy => (hnext y hy).1
    have hdiff : differentials (x + 1 : UInt16).toNat l = differentials (x.toNat + 1) l := by
      cases l with
      | nil => rfl
      | cons y l => rw [(hnext y List.mem_cons_self).2]
    rw [hdiff] at hbound hrest
    rw [differentials, hd]
    refine ⟨fun d hmem => ?_, ?_⟩
    · rcases List.mem_cons.mp hmem with rfl | hmem
      · omega
      · exact hbound d hmem
    · rw [List.map_cons, addOffsets, if_neg hguard, hindex]
      simp only [hrest]
      rfl

/-! ### The round trip -/

/-- Every request whose positions increase strictly reads back from what the writer writes,
whatever follows it. -/
theorem blockTransactionsRequest_roundtrip (req : BlockTransactionsRequest)
    (hsorted : req.indexes.Pairwise (· < ·)) :
    Reads unserializeBlockTransactionsRequest (serializeBlockTransactionsRequest req) req := by
  obtain ⟨blockhash, indexes⟩ := req
  dsimp only at hsorted
  obtain ⟨hbound, hoffsets⟩ :=
    addOffsets_differentials 0 indexes hsorted fun x _ => UInt16.le_iff_toNat_le.mpr (by simp)
  simp only [UInt16.toNat_zero, Nat.cast_zero] at hbound hoffsets
  have hsize : indexes.length ≤ MAX_SIZE := by
    have := length_le_of_pairwise_lt hsorted
    unfold MAX_SIZE
    omega
  have hdiffs : Reads (readN readIndex indexes.length)
      ((differentials 0 indexes).flatMap writeCompactSize)
      ((differentials 0 indexes).map UInt16.ofNat) := by
    rw [← length_differentials 0 indexes]
    exact Reads.readN writeCompactSize UInt16.ofNat _ fun d hd => reads_readIndex (hbound d hd)
  have hlast : Reads (match addOffsets 0 ((differentials 0 indexes).map UInt16.ofNat) with
      | some indexes => pure ⟨blockhash, indexes⟩
      | none => failure : Reader UInt8 BlockTransactionsRequest) [] ⟨blockhash, indexes⟩ := by
    rw [hoffsets]
    exact Reads.pure _
  unfold serializeBlockTransactionsRequest unserializeBlockTransactionsRequest
  rw [List.append_assoc]
  refine (reads_readUint256 blockhash).bind ((reads_readCompactSize hsize).bind ?_)
  rw [readIndexChunks_eq, Nat.sub_zero]
  exact hdiffs.bind_nil hlast

/-! ### What the reader accepts -/

/-- `readIndex` accepts only the `CompactSize` of the index it returns. -/
theorem readIndex_accepts : Canonical readIndex fun index => writeCompactSize index.toNat := by
  intro s index rest h
  obtain ⟨n, mid, hn, hguard⟩ := run_bind_eq_some.mp h
  obtain ⟨hle, rfl, rfl⟩ := run_guard_eq_some.mp hguard
  rw [(readCompactSize_accepts hn).2]
  show _ = writeCompactSize (UInt16.ofNat n).toNat ++ mid
  rw [UInt16.toNat_ofNat', Nat.mod_eq_of_lt (by omega)]

/-- Positions the offset loop produces increase strictly, from the offset on, and give back the
distances it was given, as long as the offset has not wrapped: no position but the last is
`0xffff`. -/
theorem addOffsets_eq_some :
    ∀ (offset : UInt16) (ds l : List UInt16), addOffsets offset ds = some l →
      (∀ x ∈ l.dropLast, x ≠ 0xffff) →
      l.Pairwise (· < ·) ∧ (∀ x ∈ l, offset ≤ x) ∧ differentials offset.toNat l = ds.map UInt16.toNat
  | _, [], l, h, _ => by
    cases h
    exact ⟨List.Pairwise.nil, fun _ h => absurd h List.not_mem_nil, rfl⟩
  | offset, d :: ds, l, h, hwrap => by
    rw [addOffsets] at h
    split_ifs at h with hover
    obtain ⟨l', hl', rfl⟩ := Option.map_eq_some_iff.mp h
    have hsum : (d + offset).toNat = d.toNat + offset.toNat := by
      rw [UInt16.toNat_add, Nat.mod_eq_of_lt (by omega)]
    have hhead : ((((d + offset).toNat : Int) - offset.toNat) % 2 ^ 64).toNat = d.toNat := by
      rw [hsum]
      have := d.toNat_lt
      omega
    cases l' with
    | nil =>
      cases ds with
      | nil => exact ⟨List.pairwise_singleton _ _, by simp [UInt16.le_iff_toNat_le, hsum],
          by rw [differentials, differentials, hhead]; rfl⟩
      | cons d' ds => simp [addOffsets] at hl'
    | cons y l' =>
      -- `d + offset` is not the last position, so it is below `0xffff` and `+ 1` does not wrap
      have hne : d + offset ≠ 0xffff := hwrap _ (by simp)
      have hsucc : (d + offset + 1).toNat = (d + offset).toNat + 1 := by
        have : (d + offset).toNat ≠ 0xffff := fun h => hne (UInt16.toNat_inj.mp h)
        rw [UInt16.toNat_add, UInt16.toNat_one, Nat.mod_eq_of_lt (by have := (d + offset).toNat_lt; omega)]
      obtain ⟨hsorted, hge, hdiff⟩ := addOffsets_eq_some (d + offset + 1) ds (y :: l') hl'
        fun x hx => hwrap x (by simp [List.dropLast_cons_of_ne_nil] at hx ⊢; exact Or.inr hx)
      refine ⟨List.pairwise_cons.mpr ⟨fun z hz => ?_, hsorted⟩, fun z hz => ?_, ?_⟩
      · have := UInt16.le_iff_toNat_le.mp (hge z hz)
        exact UInt16.lt_iff_toNat_lt.mpr (by omega)
      · rcases List.mem_cons.mp hz with rfl | hz
        · exact UInt16.le_iff_toNat_le.mpr (by omega)
        · have := UInt16.le_iff_toNat_le.mp (hge z hz)
          exact UInt16.le_iff_toNat_le.mpr (by omega)
      · rw [differentials, hhead, List.map_cons, ← hdiff, hsucc]
        push_cast
        rfl

/-- A request the reader accepts, in which no position but the last is `0xffff`, has strictly
increasing positions, and its bytes are what the writer writes for it. -/
theorem unserializeBlockTransactionsRequest_accepts {s rest : List UInt8}
    {req : BlockTransactionsRequest}
    (h : unserializeBlockTransactionsRequest.run s = some (req, rest))
    (hwrap : ∀ x ∈ req.indexes.dropLast, x ≠ 0xffff) :
    req.indexes.Pairwise (· < ·) ∧ s = serializeBlockTransactionsRequest req ++ rest := by
  obtain ⟨blockhash, mid, hhash, h₁⟩ := run_bind_eq_some.mp h
  obtain ⟨n, mid', hn, h₂⟩ := run_bind_eq_some.mp h₁
  obtain ⟨ds, mid'', hds, h₃⟩ := run_bind_eq_some.mp h₂
  rw [readIndexChunks_eq, Nat.sub_zero] at hds
  obtain ⟨hlen, rfl⟩ := readN_accepts readIndex_accepts hds
  split at h₃
  · rename_i indexes hoffsets
    rw [run_pure] at h₃
    cases h₃
    obtain ⟨hsorted, -, hdiff⟩ := addOffsets_eq_some 0 ds indexes hoffsets hwrap
    simp only [UInt16.toNat_zero, Nat.cast_zero] at hdiff
    have hcount : indexes.length = n := by
      rw [← length_differentials 0 indexes, hdiff, List.length_map, hlen]
    refine ⟨hsorted, ?_⟩
    rw [readUint256_accepts _ _ _ hhash, (readCompactSize_accepts hn).2,
      serializeBlockTransactionsRequest, hdiff, List.flatMap_map, hcount]
    simp only [List.append_assoc]
  · rw [run_failure] at h₃
    cases h₃

/-! ### The offset wraps -/

/-- The distances `0xffff, 0` after a null block hash: the first position is `0xffff`, the
`uint16_t` offset `0xffff + 1` wraps to `0`, and the second position is `0`.  The reader accepts
positions that do not increase, and the writer writes them back differently. -/
theorem unserializeBlockTransactionsRequest_offset_wraps :
    unserializeBlockTransactionsRequest.run (List.replicate 32 0 ++ [0x02, 0xfd, 0xff, 0xff, 0x00]) =
        some (⟨default, [0xffff, 0]⟩, []) ∧
      ¬ ([0xffff, 0] : List UInt16).Pairwise (· < ·) ∧
      serializeBlockTransactionsRequest ⟨default, [0xffff, 0]⟩ ≠
        List.replicate 32 0 ++ [0x02, 0xfd, 0xff, 0xff, 0x00] := by
  refine ⟨by decide +kernel, by decide, by decide +kernel⟩

end Trumpow
