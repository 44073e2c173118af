import Trumpow.AuxPow.AuxPow

/-!
# AuxPow — what `check` accepts

`check_eq_ok_iff` is `CAuxPow::check` read as its list of conditions: the guards on the
auxpow itself, then what the coinbase script must hold (`ScriptCommits`).  From it:

* a well-formed merge-mining proof passes (`check_of_commitment`): the coinbase is the first
  transaction of a parent block with its true merkle root and branch, and its script has one
  merged-mining header, right before the reversed chain merkle root, the tree size and the
  nonce;
* the auxpow `initAuxPow` builds passes (`check_initAuxPow`), except when the reversed block
  hash also starts the script, one byte early: with the hash `28 28 … 28`, the byte of the
  push opcode `0x28` before it;
* two auxpows with one coinbase script that both pass for one chain commit to the same chain
  merkle root at the same slot (`check_unique`).
-/

namespace Trumpow

open ListSearch

/-- What `check` asks of the coinbase script, for the reversed chain merkle root `root`. -/
structure ScriptCommits (script root : List UInt8) (merkleHeight : Nat) (nChainIndex nChainId : Int) :
    Prop where
  found : search script root ≠ script.length
  once : search script pchMergedMiningHeader ≠ script.length →
    search (script.drop (search script pchMergedMiningHeader + 1)) pchMergedMiningHeader =
      (script.drop (search script pchMergedMiningHeader + 1)).length
  before : search script pchMergedMiningHeader ≠ script.length →
    search script pchMergedMiningHeader + pchMergedMiningHeader.length = search script root
  legacy : search script pchMergedMiningHeader = script.length → search script root ≤ 20
  room : 8 ≤ script.length - (search script root + root.length)
  size : readLE32 (script.drop (search script root + root.length)) = 2 ^ merkleHeight
  index : nChainIndex =
    getExpectedIndex (readLE32 (script.drop (search script root + root.length + 4))) nChainId
      merkleHeight

theorem if_throw_eq_ok {c : Prop} [Decidable c] {e : String} {r : Except String Unit} :
    (if c then throw e else r) = .ok () ↔ ¬ c ∧ r = .ok () := by
  split_ifs with h
  · simp [h]
  · simp [h]

section Check

variable (hash : Uint256 → Uint256 → Uint256) (txHash : CTransaction → Uint256)

/-- `check` passes exactly when each of its guards does. -/
theorem check_eq_ok_iff (a : CAuxPow) (H : Uint256) (c : Int) (params : ConsensusParams) :
    a.check hash txHash H c params = .ok () ↔
      a.nIndex = 0 ∧ ¬ (params.fStrictChainId = true ∧ a.parentBlock.getChainId = c) ∧
      a.vChainMerkleBranch.length ≤ 30 ∧
      checkMerkleBranch hash (txHash a.tx) a.vMerkleBranch a.nIndex = a.parentBlock.hashMerkleRoot ∧
      ∃ txin rest, a.tx.vin = txin :: rest ∧
        ScriptCommits txin.scriptSig
          (checkMerkleBranch hash H a.vChainMerkleBranch a.nChainIndex).data.reverse
          a.vChainMerkleBranch.length a.nChainIndex c := by
  simp only [CAuxPow.check, if_throw_eq_ok, ne_eq, not_not, not_lt, gt_iff_lt]
  refine and_congr_right fun _ => and_congr_right fun _ => and_congr_right fun _ =>
    and_congr_right fun _ => ?_
  rcases a.tx.vin with _ | ⟨txin, rest⟩
  · simp [throw, throwThe, MonadExceptOf.throw]
  · simp only [if_throw_eq_ok, not_not, not_lt, List.cons.injEq]
    rw [show (∃ txin' rest', (txin = txin' ∧ rest = rest') ∧ ScriptCommits txin'.scriptSig _ _ _ _) ↔
      ScriptCommits txin.scriptSig _ _ _ _ by
        constructor
        · rintro ⟨_, _, ⟨rfl, -⟩, h⟩
          exact h
        · intro h
          exact ⟨txin, rest, ⟨rfl, rfl⟩, h⟩]
    -- the two branches on the header are guards on its position
    constructor
    · rintro ⟨h1, h2, h3, h4, h5, h6, h7, -⟩
      exact ⟨h1, fun h => not_not.mp fun h' => h2 ⟨h, h'⟩, fun h => not_not.mp fun h' => h3 ⟨h, h'⟩,
        fun h => not_lt.mp fun h' => h4 ⟨h, h'⟩, h5, h6, h7⟩
    · rintro ⟨h1, h2, h3, h4, h5, h6, h7⟩
      exact ⟨h1, fun h => h.2 (h2 h.1), fun h => h.2 (h3 h.1),
        fun h => absurd (h4 h.1) (not_le.mpr h.2), h5, h6, h7, rfl⟩

/-! ### The merkle branches -/

/-- For a non-negative index, `CheckMerkleBranch` is `ComputeMerkleRootFromBranch`. -/
theorem checkMerkleBranch_natCast (h : Uint256) (b : List Uint256) (n : Nat) :
    checkMerkleBranch hash h b n = Merkle.computeMerkleRootFromBranch hash h b n := by
  rw [checkMerkleBranch, if_neg (by omega)]
  induction b generalizing h n with
  | nil => rfl
  | cons x b ih =>
      have hbit : ((n : Int) % 2 = 1) ↔ n % 2 = 1 := by omega
      have hshift : (n : Int) >>> 1 = ((n / 2 : Nat) : Int) := by
        rw [show (1 : Int) = ((1 : Nat) : Int) from rfl, Int.shiftRight_natCast,
          Nat.shiftRight_eq_div_pow]
      rw [checkMerkleBranch.go, Merkle.computeMerkleRootFromBranch, hshift, ih, if_congr hbit rfl rfl]

/-- The coinbase's branch in its block climbs to the block's merkle root. -/
theorem checkMerkleBranch_blockMerkleBranch {parent : CBlock} {coinbase : CTransaction}
    {rest : List CTransaction} (hvtx : parent.vtx = coinbase :: rest) {root : Uint256}
    {vMerkleBranch : List Uint256} (hroot : blockMerkleRoot hash txHash parent = some root)
    (hbranch : blockMerkleBranch hash txHash parent 0 = some vMerkleBranch) :
    checkMerkleBranch hash (txHash coinbase) vMerkleBranch 0 = root := by
  rw [blockMerkleRoot, Option.map_eq_some_iff] at hroot
  obtain ⟨r, hr, rfl⟩ := hroot
  have hn := Merkle.length_le_of_merkleComputation hash (Option.map_eq_some_iff.mp hr).choose_spec.1
  have hspec := Merkle.computeMerkleBranch_spec hash (parent.vtx.map txHash) (by simp [hvtx]) hn
    (p := 0) (by simp [hvtx])
  rw [blockMerkleBranch, hspec.1, Option.some_inj] at hbranch
  rw [hr, Option.map_some, Option.some_inj] at hspec
  rw [show (0 : Int) = ((0 : Nat) : Int) from rfl, checkMerkleBranch_natCast, hspec.2, ← hbranch]
  simp [hvtx]

/-! ### A well-formed commitment -/

section Layout

variable {pre post root : List UInt8} {h n : Nat} {c : Int}

/-- The script of a well-formed proof: the header, the reversed root, the size `2^h` and the
nonce, after anything and before anything. -/
def commitment (pre root post : List UInt8) (h n : Nat) : List UInt8 :=
  pre ++ pchMergedMiningHeader ++ root ++ writeLE32 (2 ^ h) ++ writeLE32 n ++ post

theorem drop_commitment_root :
    (commitment pre root post h n).drop (pre.length + pchMergedMiningHeader.length) =
      root ++ writeLE32 (2 ^ h) ++ writeLE32 n ++ post := by
  simp [commitment, List.drop_append]

theorem occursAt_commitment_header :
    OccursAt pchMergedMiningHeader (commitment pre root post h n) pre.length :=
  ⟨root ++ writeLE32 (2 ^ h) ++ writeLE32 n ++ post, by simp [commitment]⟩

theorem occursAt_commitment_root :
    OccursAt root (commitment pre root post h n) (pre.length + pchMergedMiningHeader.length) := by
  rw [OccursAt, drop_commitment_root]
  exact ⟨writeLE32 (2 ^ h) ++ writeLE32 n ++ post, by simp⟩

/-- A script with one header, right before the first occurrence of the reversed root, then
the size and the nonce, commits. -/
theorem scriptCommits_commitment (hroot : root.length = 32) (hh : h ≤ 30) (hn : n < 2 ^ 32)
    (honce : ∀ i, OccursAt pchMergedMiningHeader (commitment pre root post h n) i → i = pre.length)
    (hfirst : ∀ i < pre.length + pchMergedMiningHeader.length,
      ¬ OccursAt root (commitment pre root post h n) i) :
    ScriptCommits (commitment pre root post h n) root h (getExpectedIndex n c h) c := by
  have hhead : search (commitment pre root post h n) pchMergedMiningHeader = pre.length :=
    search_eq_of_occursAt occursAt_commitment_header
      (fun j hj hocc => absurd (honce j hocc) (by omega))
  have hpc : search (commitment pre root post h n) root =
      pre.length + pchMergedMiningHeader.length :=
    search_eq_of_occursAt occursAt_commitment_root hfirst
  have hlen : (commitment pre root post h n).length =
      pre.length + pchMergedMiningHeader.length + 32 + 8 + post.length := by
    simp [commitment, hroot, pchMergedMiningHeader]
    omega
  have hsize : 2 ^ h < 2 ^ 32 := Nat.pow_lt_pow_right (by omega) (by omega)
  have hrest : (commitment pre root post h n).drop (pre.length + pchMergedMiningHeader.length + 32) =
      writeLE32 (2 ^ h) ++ writeLE32 n ++ post := by
    rw [← List.drop_drop, drop_commitment_root, ← hroot]
    simp
  refine ⟨by omega, fun _ => ?_, fun _ => by rw [hhead, hpc], fun hl => by omega, ?_, ?_, ?_⟩
  · -- no second header after the first
    rw [hhead, search_eq_length_iff (by simp [pchMergedMiningHeader])]
    intro j hj
    have := honce _ (occursAt_drop.mp hj)
    omega
  · rw [hpc, hroot, hlen]
    omega
  · rw [hpc, hroot, hrest, List.append_assoc, readLE32_writeLE32 hsize]
  · rw [hpc, hroot, show pre.length + pchMergedMiningHeader.length + 32 + 4 =
        pre.length + pchMergedMiningHeader.length + 32 + (writeLE32 (2 ^ h)).length from rfl,
      ← List.drop_drop, hrest, List.append_assoc, List.drop_left, readLE32_writeLE32 hn]

end Layout

/-- A well-formed merge-mining proof passes: its coinbase is the first transaction of a parent
block whose header holds the block's merkle root, with that transaction's branch at index `0`;
the chain branch `b` has length `h ≤ 30` and the index the nonce `n` gives; and the coinbase
script has one merged-mining header, right before the first occurrence of the reversed chain
merkle root, the size `2^h` and the nonce. -/
theorem check_of_commitment (params : ConsensusParams) (H : Uint256) (c : Int) (parent : CBlock)
    (coinbase : CTransaction) (rest : List CTransaction) (hvtx : parent.vtx = coinbase :: rest)
    (hchain : params.fStrictChainId = true → parent.header.getChainId ≠ c)
    (vMerkleBranch : List Uint256)
    (hroot : blockMerkleRoot hash txHash parent = some parent.header.hashMerkleRoot)
    (hbranch : blockMerkleBranch hash txHash parent 0 = some vMerkleBranch)
    (h n : Nat) (hh : h ≤ 30) (hn : n < 2 ^ 32) (b : List Uint256) (hb : b.length = h)
    (txin : CTxIn) (ins : List CTxIn) (hvin : coinbase.vin = txin :: ins) (pre post : List UInt8)
    (hscript : txin.scriptSig =
      commitment pre (checkMerkleBranch hash H b (getExpectedIndex n c h)).data.reverse post h n)
    (honce : ∀ i, OccursAt pchMergedMiningHeader txin.scriptSig i → i = pre.length)
    (hfirst : ∀ i < pre.length + pchMergedMiningHeader.length,
      ¬ OccursAt (checkMerkleBranch hash H b (getExpectedIndex n c h)).data.reverse txin.scriptSig i) :
    CAuxPow.check hash txHash
      { tx := coinbase, vMerkleBranch := vMerkleBranch, nIndex := 0, vChainMerkleBranch := b,
        nChainIndex := getExpectedIndex n c h, parentBlock := parent.header } H c params = .ok () := by
  rw [check_eq_ok_iff]
  refine ⟨rfl, fun ⟨hs, hc⟩ => hchain hs hc, show b.length ≤ 30 by omega,
    checkMerkleBranch_blockMerkleBranch hash txHash hvtx hroot hbranch, txin, ins, hvin, ?_⟩
  rw [hscript] at honce hfirst ⊢
  rw [hb]
  exact scriptCommits_commitment (by simp [Uint256.length_data]) hh hn honce hfirst

/-! ### `initAuxPow` -/

theorem setAuxpowFlag_setAuxpowFlag (hd : CPureBlockHeader) :
    (hd.setAuxpowFlag true).setAuxpowFlag true = hd.setAuxpowFlag true := by
  simp only [CPureBlockHeader.setAuxpowFlag, if_true, VERSION_AUXPOW, CPureBlockHeader.mk.injEq,
    and_true]
  rcases hd.nVersion with m | m
  · show Int.ofNat ((m ||| 256) ||| 256) = Int.ofNat (m ||| 256)
    rw [Nat.or_assoc, Nat.or_self]
  · show Int.negSucc (Nat.ldiff (Nat.ldiff m 256) 256) = Int.negSucc (Nat.ldiff m 256)
    congr 1
    apply Nat.eq_of_testBit_eq
    intro i
    simp [Nat.testBit_ldiff]

variable (headerHash : CPureBlockHeader → Uint256)

/-- The coinbase script `initAuxPow` writes for a block hash. -/
theorem pushBytes_initAuxPow (H : Uint256) :
    pushBytes [] (H.data.reverse ++ [1] ++ List.replicate 7 0) =
      0x28 :: (H.data.reverse ++ [1, 0, 0, 0, 0, 0, 0, 0]) := by
  rw [pushBytes_of_lt (by simp [H.length_data])]
  simp [H.length_data]

/-- What `initAuxPow` returns. -/
theorem initAuxPow_eq (header : CPureBlockHeader) :
    initAuxPow hash txHash headerHash header =
      some (header.setAuxpowFlag true,
        { tx := { vin := [{ scriptSig := 0x28 ::
            ((headerHash (header.setAuxpowFlag true)).data.reverse ++ [1, 0, 0, 0, 0, 0, 0, 0]) }] },
          vMerkleBranch := [], nIndex := 0, vChainMerkleBranch := [], nChainIndex := 0,
          parentBlock :=
            { (default : CPureBlockHeader) with
              nVersion := 1
              hashMerkleRoot := txHash { vin := [{ scriptSig := 0x28 ::
                ((headerHash (header.setAuxpowFlag true)).data.reverse ++ [1, 0, 0, 0, 0, 0, 0, 0]) }] } } }) := by
  simp only [initAuxPow, blockMerkleRoot, Merkle.computeMerkleRoot, List.map_cons, List.map_nil,
    Merkle.merkleComputation_singleton, pushBytes_initAuxPow, setAuxpowFlag_setAuxpowFlag]
  rfl

/-- The script of `initAuxPow` has no merged-mining header when the reversed hash `R` has none:
the push byte `0x28` before `R` and the bytes `1, 0, …` after it are not header bytes. -/
theorem not_occursAt_header_init {R : List UInt8} (hR : R.length = 32)
    (hhead : ∀ i, ¬ OccursAt pchMergedMiningHeader R i) (j : Nat) :
    ¬ OccursAt pchMergedMiningHeader (0x28 :: (R ++ [1, 0, 0, 0, 0, 0, 0, 0])) j := by
  intro hj
  have hfit := hj.add_length_le (by simp [pchMergedMiningHeader])
  simp only [List.length_cons, List.length_append, hR, pchMergedMiningHeader] at hfit
  have htail : ∀ i (hi : i < 8), ([1, 0, 0, 0, 0, 0, 0, 0] : List UInt8)[i] ∉ pchMergedMiningHeader := by
    decide
  rcases Nat.lt_or_ge j 30 with hlt | hge
  · cases j with
    | zero =>
        -- the push byte
        exact absurd (hj.getElem_mem le_rfl (by simp [pchMergedMiningHeader]) (by simp))
          (by simp [pchMergedMiningHeader])
    | succ j =>
        -- a window inside `R`
        exact hhead j (occursAt_append_left (occursAt_cons_succ.mp hj)
          (by simp [hR, pchMergedMiningHeader]; omega))
  · -- a window that reaches the bytes after `R`
    rw [← List.cons_append] at hj
    have hk := hj.getElem_mem (k := max j 33) (by omega) (by simp [pchMergedMiningHeader]; omega)
      (by simp [hR]; omega)
    rw [List.getElem_append_right (by simp only [List.length_cons, hR]; omega)] at hk
    exact htail _ _ hk

/-- The script of `initAuxPow`, without the header: the root is found at `1`, unless the
reversed hash is `0x28` repeated, which already starts at `0`. -/
theorem scriptCommits_init {R : List UInt8} (hR : R.length = 32)
    (hhead : ∀ i, ¬ OccursAt pchMergedMiningHeader R i) (h28 : R ≠ List.replicate 32 0x28)
    (c : Int) : ScriptCommits (0x28 :: (R ++ [1, 0, 0, 0, 0, 0, 0, 0])) R 0 0 c := by
  have hlen : (0x28 :: (R ++ [1, 0, 0, 0, 0, 0, 0, 0]) : List UInt8).length = 41 := by simp [hR]
  have hhd : search (0x28 :: (R ++ [1, 0, 0, 0, 0, 0, 0, 0])) pchMergedMiningHeader = 41 := by
    rw [← hlen, search_eq_length_iff (by simp [pchMergedMiningHeader])]
    exact not_occursAt_header_init hR hhead
  have hpc : search (0x28 :: (R ++ [1, 0, 0, 0, 0, 0, 0, 0])) R = 1 := by
    refine search_eq_of_occursAt ⟨[1, 0, 0, 0, 0, 0, 0, 0], by simp⟩ fun j hj h0 => h28 ?_
    obtain rfl : j = 0 := by omega
    rw [eq_replicate_of_occursAt_cons h0, hR]
  have hrest : (0x28 :: (R ++ [1, 0, 0, 0, 0, 0, 0, 0]) : List UInt8).drop (1 + R.length) =
      [1, 0, 0, 0, 0, 0, 0, 0] := by
    rw [Nat.add_comm, List.drop_succ_cons, List.drop_left]
  refine ⟨by omega, fun h => absurd hhd (by omega), fun h => absurd hhd (by omega),
    fun _ => by omega, by omega, ?_, ?_⟩
  · rw [hpc, hrest]
    rfl
  · rw [hpc, ← List.drop_drop, hrest]
    simp only [getExpectedIndex, pow_zero, Nat.mod_one, Nat.cast_zero]

/-- The auxpow `initAuxPow` builds passes `check` for the header it returns, when the chain ID
is not `0` (the parent block's), the reversed hash holds no merged-mining header, and the hash
is not `0x28` repeated. -/
theorem check_initAuxPow (params : ConsensusParams) (header : CPureBlockHeader) :
    ∃ header' a, initAuxPow hash txHash headerHash header = some (header', a) ∧
      (header'.getChainId ≠ 0 →
        (∀ i, ¬ OccursAt pchMergedMiningHeader (headerHash header').data.reverse i) →
        (headerHash header').data ≠ List.replicate 32 0x28 →
        a.check hash txHash (headerHash header') header'.getChainId params = .ok ()) := by
  refine ⟨_, _, initAuxPow_eq hash txHash headerHash header, fun hc hhead h28 => ?_⟩
  have hR : (headerHash (header.setAuxpowFlag true)).data.reverse.length = 32 := by
    simp [Uint256.length_data]
  have h28' : (headerHash (header.setAuxpowFlag true)).data.reverse ≠ List.replicate 32 0x28 :=
    fun e => h28 (by rw [← List.reverse_reverse (headerHash _).data, e, List.reverse_replicate])
  -- the parent block has version `1`, chain ID `0`
  have hparent : ∀ hd : CPureBlockHeader, hd.nVersion = 1 → hd.getChainId = 0 := fun hd h => by
    rw [CPureBlockHeader.getChainId, h]
    decide
  rw [check_eq_ok_iff]
  refine ⟨rfl, fun he => hc (he.2.symm.trans (hparent _ rfl)), by simp, ?_, _, [], rfl, ?_⟩
  · simp [checkMerkleBranch, checkMerkleBranch.go]
  · have hroot : checkMerkleBranch hash (headerHash (header.setAuxpowFlag true)) [] 0 =
        headerHash (header.setAuxpowFlag true) := by
      simp [checkMerkleBranch, checkMerkleBranch.go]
    rw [hroot]
    exact scriptCommits_init hR hhead h28' _

/-! ### One script, one slot -/

/-- Two roots a script commits to behind its header are one root, with one tree size and one
slot: the header fixes where the root starts, and the size and nonce are read right after it. -/
theorem ScriptCommits.unique {script root₁ root₂ : List UInt8} {h₁ h₂ : Nat} {k₁ k₂ c : Int}
    (hhead : search script pchMergedMiningHeader ≠ script.length)
    (hlen₁ : root₁.length = 32) (hlen₂ : root₂.length = 32)
    (s₁ : ScriptCommits script root₁ h₁ k₁ c) (s₂ : ScriptCommits script root₂ h₂ k₂ c) :
    root₁ = root₂ ∧ h₁ = h₂ ∧ k₁ = k₂ := by
  have hpc : search script root₁ = search script root₂ :=
    (s₁.before hhead).symm.trans (s₂.before hhead)
  have o₁ := occursAt_search (lt_of_le_of_ne (search_le _ _) s₁.found)
  have o₂ := occursAt_search (lt_of_le_of_ne (search_le _ _) s₂.found)
  rw [hpc] at o₁
  have hroot : root₁ = root₂ := by
    rw [OccursAt, List.prefix_iff_eq_take] at o₁ o₂
    rw [hlen₁] at o₁
    rw [hlen₂] at o₂
    exact o₁.trans o₂.symm
  subst hroot
  have size₁ := s₁.size
  have index₁ := s₁.index
  rw [hpc] at size₁ index₁
  have hh : h₁ = h₂ := Nat.pow_right_injective le_rfl (size₁.symm.trans s₂.size)
  subst hh
  exact ⟨rfl, rfl, index₁.trans s₂.index.symm⟩

/-- Two auxpows whose coinbases have one first-input script with a merged-mining header, and
that both pass for one chain ID, have chain branches of one length, one chain index, and one
chain merkle root. -/
theorem check_unique (a₁ a₂ : CAuxPow) (H₁ H₂ : Uint256) (c : Int) (params : ConsensusParams)
    (script : List UInt8) (hs₁ : a₁.tx.vin.head?.map CTxIn.scriptSig = some script)
    (hs₂ : a₂.tx.vin.head?.map CTxIn.scriptSig = some script)
    (hhead : ∃ i, OccursAt pchMergedMiningHeader script i)
    (ok₁ : a₁.check hash txHash H₁ c params = .ok ())
    (ok₂ : a₂.check hash txHash H₂ c params = .ok ()) :
    a₁.vChainMerkleBranch.length = a₂.vChainMerkleBranch.length ∧ a₁.nChainIndex = a₂.nChainIndex ∧
      checkMerkleBranch hash H₁ a₁.vChainMerkleBranch a₁.nChainIndex =
        checkMerkleBranch hash H₂ a₂.vChainMerkleBranch a₂.nChainIndex := by
  obtain ⟨-, -, -, -, t₁, r₁, hv₁, s₁⟩ := (check_eq_ok_iff hash txHash a₁ H₁ c params).mp ok₁
  obtain ⟨-, -, -, -, t₂, r₂, hv₂, s₂⟩ := (check_eq_ok_iff hash txHash a₂ H₂ c params).mp ok₂
  have e₁ : t₁.scriptSig = script := by simpa [hv₁] using hs₁
  have e₂ : t₂.scriptSig = script := by simpa [hv₂] using hs₂
  rw [e₁] at s₁
  rw [e₂] at s₂
  have hh : search script pchMergedMiningHeader ≠ script.length := fun he =>
    let ⟨i, hi⟩ := hhead
    (search_eq_length_iff (by simp [pchMergedMiningHeader])).mp he i hi
  obtain ⟨hroot, hlen, hidx⟩ :=
    s₁.unique hh (by simp [Uint256.length_data]) (by simp [Uint256.length_data]) s₂
  exact ⟨hlen, hidx, Uint256.eq_of_reverse_data hroot⟩

/-- Two block hashes, one script: under a hash that ignores its right side at an odd index, the
one chain branch `[2 2 … 2]` climbs from both to one root. -/
theorem check_unique_collision :
    CAuxPow.check (fun a _ => a) (fun _ => default)
        { tx := { vin := [{ scriptSig := commitment [] (List.replicate 32 2) [] 1 0 }] },
          vMerkleBranch := [], nIndex := 0,
          vChainMerkleBranch := [⟨List.replicate 32 2, List.length_replicate⟩],
          nChainIndex := getExpectedIndex 0 1 1, parentBlock := default }
        default 1 ⟨true⟩ = .ok () ∧
    CAuxPow.check (fun a _ => a) (fun _ => default)
        { tx := { vin := [{ scriptSig := commitment [] (List.replicate 32 2) [] 1 0 }] },
          vMerkleBranch := [], nIndex := 0,
          vChainMerkleBranch := [⟨List.replicate 32 2, List.length_replicate⟩],
          nChainIndex := getExpectedIndex 0 1 1,
          parentBlock := { (default : CPureBlockHeader) with nTime := 1 } }
        ⟨List.replicate 32 1, List.length_replicate⟩ 1 ⟨true⟩ = .ok () ∧
    checkMerkleBranch (fun a _ => a) default [⟨List.replicate 32 2, List.length_replicate⟩]
        (getExpectedIndex 0 1 1) =
      checkMerkleBranch (fun a _ => a) ⟨List.replicate 32 1, List.length_replicate⟩
        [⟨List.replicate 32 2, List.length_replicate⟩] (getExpectedIndex 0 1 1) := by
  have ok₁ : CAuxPow.check (fun a _ => a) (fun _ => default)
      { tx := { vin := [{ scriptSig := commitment [] (List.replicate 32 2) [] 1 0 }] },
        vMerkleBranch := [], nIndex := 0,
        vChainMerkleBranch := [⟨List.replicate 32 2, List.length_replicate⟩],
        nChainIndex := getExpectedIndex 0 1 1, parentBlock := default }
      default 1 ⟨true⟩ = .ok () := by
    decide +kernel
  have ok₂ : CAuxPow.check (fun a _ => a) (fun _ => default)
      { tx := { vin := [{ scriptSig := commitment [] (List.replicate 32 2) [] 1 0 }] },
        vMerkleBranch := [], nIndex := 0,
        vChainMerkleBranch := [⟨List.replicate 32 2, List.length_replicate⟩],
        nChainIndex := getExpectedIndex 0 1 1,
        parentBlock := { (default : CPureBlockHeader) with nTime := 1 } }
      ⟨List.replicate 32 1, List.length_replicate⟩ 1 ⟨true⟩ = .ok () := by
    decide +kernel
  exact ⟨ok₁, ok₂, (check_unique _ _ _ _ _ _ _ _ (commitment [] (List.replicate 32 2) [] 1 0)
    rfl rfl ⟨0, by decide⟩ ok₁ ok₂).2.2⟩

end Check

end Trumpow
