import Trumpow.Consensus.MerkleRoot
import Trumpow.Net.BlockEncodings

/-!
# Net — `CPartialMerkleTree`

`merkleblock.cpp`.  A partial merkle tree proves that some transactions are in a block: the tree
over the block's `nTransactions` txids is walked depth first; each node visited leaves a bit,
set when a leaf below it is matched, and a node that is a leaf or has no match below leaves its
hash and is not descended into (`TraverseAndBuild`).  `ExtractMatches` walks the same way,
consuming bits and hashes, and recomputes the root (`TraverseAndExtract`), after checks on the
sizes; two equal sibling hashes, or bits or hashes left over or missing, make it fail with
`uint256()`.  The combiner `Hash` is a parameter, and so is the type of digests.

* `new_eq`: the tree the constructor builds is the depth-first `encode`ing of the padded tree of
  `PadTree`, whose nodes `CalcHash` computes (`CalcHash_eq`).
* `TraverseAndExtract_encode`: reading an encoding back gives its node and its matches.
* `ExtractMatches_new`: the round trip — from the built tree, `ExtractMatches` gives the root of
  `ComputeMerkleRoot` and the matched txids with their positions.
* `ExtractMatches_sound`: from any tree, a root comes with matches whose positions increase
  within `nTransactions`, each txid with a branch up to that root (`Authenticated`).
-/

set_option linter.unusedSectionVars false

namespace Trumpow

/-- `CPartialMerkleTree`, over any type of digests. -/
structure CPartialMerkleTree (α : Type) where
  nTransactions : Nat
  vBits : List Bool
  vHash : List α
  fBad : Bool
  deriving DecidableEq, Repr

/-- What `TraverseAndExtract` changes: the tree's `fBad`, and the caller's counters `nBitsUsed`
and `nHashUsed` and vectors `vMatch` and `vnIndex`. -/
structure Extraction (α : Type) where
  fBad : Bool
  nBitsUsed : Nat
  nHashUsed : Nat
  vMatch : List α
  vnIndex : List Nat
  deriving DecidableEq, Repr

namespace CPartialMerkleTree

open PadTree

variable {α : Type} [DecidableEq α] [Inhabited α] (Hash : α → α → α)

/-- `CalcTreeWidth(height)`: the number of nodes at `height`. -/
def CalcTreeWidth (t : CPartialMerkleTree α) (height : Nat) : Nat :=
  (t.nTransactions + (1 <<< height) - 1) >>> height

/-- `CalcHash(height, pos, vTxid)`: a node past the end of its level is its left sibling. -/
def CalcHash (t : CPartialMerkleTree α) : Nat → Nat → List α → α
  | 0, pos, vTxid => vTxid.getD pos default
  | height + 1, pos, vTxid =>
    let left := t.CalcHash height (pos * 2) vTxid
    let right := if pos * 2 + 1 < t.CalcTreeWidth height then t.CalcHash height (pos * 2 + 1) vTxid
      else left
    Hash left right

/-- The loop of `TraverseAndBuild`, `fParentOfMatch |= vMatch[p]` from `p = pos << height` while
`p < (pos+1) << height && p < nTransactions`. -/
def parentOfMatch (t : CPartialMerkleTree α) (height pos : Nat) (vMatch : List Bool) : Bool :=
  (List.range' (pos <<< height) (min ((pos + 1) <<< height) t.nTransactions - pos <<< height)).foldl
    (fun fParentOfMatch p => fParentOfMatch || vMatch.getD p false) false

/-- `TraverseAndBuild(height, pos, vTxid, vMatch)`: the node's bit, then its hash, or, for a
parent of a match above height 0, its two subtrees (the left one alone at the end of a level). -/
def TraverseAndBuild (t : CPartialMerkleTree α) : Nat → Nat → List α → List Bool →
    CPartialMerkleTree α
  | 0, pos, vTxid, vMatch =>
    -- at height 0 the hash is stored whatever the bit
    { t with vBits := t.vBits ++ [t.parentOfMatch 0 pos vMatch],
             vHash := t.vHash ++ [t.CalcHash Hash 0 pos vTxid] }
  | height + 1, pos, vTxid, vMatch =>
    let fParentOfMatch := t.parentOfMatch (height + 1) pos vMatch
    let t := { t with vBits := t.vBits ++ [fParentOfMatch] }
    if !fParentOfMatch then { t with vHash := t.vHash ++ [t.CalcHash Hash (height + 1) pos vTxid] }
    else
      let t := t.TraverseAndBuild height (pos * 2) vTxid vMatch
      if pos * 2 + 1 < t.CalcTreeWidth height then t.TraverseAndBuild height (pos * 2 + 1) vTxid vMatch
      else t

/-- `while (CalcTreeWidth(nHeight) > 1) nHeight++;` from `nHeight`, for at most `fuel` rounds.  It
runs only while `2^nHeight < nTransactions`, so `nTransactions` rounds are enough. -/
def heightLoop (t : CPartialMerkleTree α) : Nat → Nat → Nat
  | 0, nHeight => nHeight
  | fuel + 1, nHeight =>
    if t.CalcTreeWidth nHeight > 1 then t.heightLoop fuel (nHeight + 1) else nHeight

/-- `CPartialMerkleTree(vTxid, vMatch)`. -/
def new (vTxid : List α) (vMatch : List Bool) : CPartialMerkleTree α :=
  let t : CPartialMerkleTree α :=
    { nTransactions := vTxid.length, vBits := [], vHash := [], fBad := false }
  t.TraverseAndBuild Hash (t.heightLoop t.nTransactions 0) 0 vTxid vMatch

/-- The stored-hash case of `TraverseAndExtract`: the next hash, a match when the node is a leaf
whose bit is set. -/
def useHash (t : CPartialMerkleTree α) (height pos : Nat) (fParentOfMatch : Bool)
    (s : Extraction α) : α × Extraction α :=
  -- overflowed the hash array
  if t.vHash.length ≤ s.nHashUsed then (default, { s with fBad := true })
  else
    let hash := t.vHash.getD s.nHashUsed default
    let s := { s with nHashUsed := s.nHashUsed + 1 }
    if height = 0 ∧ fParentOfMatch = true then
      (hash, { s with vMatch := s.vMatch ++ [hash], vnIndex := s.vnIndex ++ [pos] })
    else (hash, s)

/-- `TraverseAndExtract(height, pos, nBitsUsed, nHashUsed, vMatch, vnIndex)`.  A failure sets
`fBad` and returns `uint256()`, and the traversal of the rest goes on. -/
def TraverseAndExtract (t : CPartialMerkleTree α) (height pos : Nat) (s : Extraction α) :
    α × Extraction α :=
  -- overflowed the bits array
  if t.vBits.length ≤ s.nBitsUsed then (default, { s with fBad := true })
  else
    let fParentOfMatch := t.vBits.getD s.nBitsUsed false
    let s := { s with nBitsUsed := s.nBitsUsed + 1 }
    match height, fParentOfMatch with
    | height + 1, true =>
      let left := t.TraverseAndExtract height (pos * 2) s
      if pos * 2 + 1 < t.CalcTreeWidth height then
        let right := t.TraverseAndExtract height (pos * 2 + 1) left.2
        -- the two branches cover different transactions, so equal hashes mark the tree bad
        (Hash left.1 right.1, if right.1 = left.1 then { right.2 with fBad := true } else right.2)
      else (Hash left.1 left.1, left.2)
    | _, _ => t.useHash height pos fParentOfMatch s
termination_by structural height

/-- `ExtractMatches(vMatch, vnIndex)`: the root, or `uint256()` on a failure, with the matches;
`vMatch` is cleared first and `vnIndex` is not. -/
def ExtractMatches (t : CPartialMerkleTree α) (vnIndex : List Nat) : α × Extraction α :=
  let s : Extraction α := { fBad := t.fBad, nBitsUsed := 0, nHashUsed := 0, vMatch := [], vnIndex }
  if t.nTransactions = 0 then (default, s)
  -- 60 is the lower bound for the size of a serialized CTransaction
  else if t.nTransactions > MAX_BLOCK_BASE_SIZE / 60 then (default, s)
  else if t.vHash.length > t.nTransactions then (default, s)
  else if t.vBits.length < t.vHash.length then (default, s)
  else
    let r := t.TraverseAndExtract Hash (t.heightLoop t.nTransactions 0) 0 s
    if r.2.fBad then (default, r.2)
    -- all bits consumed, but for the padding of the byte sequence
    else if (r.2.nBitsUsed + 7) / 8 ≠ (t.vBits.length + 7) / 8 then (default, r.2)
    else if r.2.nHashUsed ≠ t.vHash.length then (default, r.2)
    else r

example : (new Nat.add [1, 2, 3] [false, true, false]).ExtractMatches Nat.add [] =
    (Nat.add (Nat.add 1 2) (Nat.add 3 3), ⟨false, 5, 3, [2], [1]⟩) := by decide +kernel

/-! ### The tree as `PadTree` sees it -/

theorem CalcTreeWidth_eq (t : CPartialMerkleTree α) (height : Nat) :
    t.CalcTreeWidth height = width t.nTransactions height := by
  rw [CalcTreeWidth, Nat.shiftLeft_eq, one_mul, Nat.shiftRight_eq_div_pow, width_eq]

/-- Over the `nTransactions` txids, `CalcHash` is the node of the padded tree. -/
theorem CalcHash_eq {t : CPartialMerkleTree α} {vTxid : List α} (hn : t.nTransactions = vTxid.length) :
    ∀ height pos, t.CalcHash Hash height pos vTxid = node Hash vTxid height pos
  | 0, pos => rfl
  | height + 1, pos => by
      simp only [CalcHash, node, CalcTreeWidth_eq, hn, CalcHash_eq hn height, Nat.mul_comm pos 2]
      split_ifs <;> rfl

private theorem foldl_or_eq_any {β : Type} (f : β → Bool) :
    ∀ (l : List β) (b : Bool), l.foldl (fun acc p => acc || f p) b = (b || l.any f)
  | [], b => by simp
  | x :: l, b => by rw [List.foldl_cons, foldl_or_eq_any f l, List.any_cons, Bool.or_assoc]

/-- Whether a leaf below the node at `height`, `pos` of a tree over `n` leaves is matched. -/
def matchedBelow (n : Nat) (vMatch : List Bool) (height pos : Nat) : Bool :=
  (leavesBelow n height pos).any (vMatch.getD · false)

/-- The matched leaves below the node, left to right. -/
def matchesBelow (n : Nat) (vMatch : List Bool) (height pos : Nat) : List Nat :=
  (leavesBelow n height pos).filter (vMatch.getD · false)

theorem parentOfMatch_eq (t : CPartialMerkleTree α) (height pos : Nat) (vMatch : List Bool) :
    t.parentOfMatch height pos vMatch = matchedBelow t.nTransactions vMatch height pos := by
  rw [parentOfMatch, foldl_or_eq_any, Bool.false_or, Nat.shiftLeft_eq, Nat.shiftLeft_eq]
  rfl

theorem matchedBelow_zero {n pos : Nat} (vMatch : List Bool) (h : pos < n) :
    matchedBelow n vMatch 0 pos = vMatch.getD pos false := by
  simp [matchedBelow, leavesBelow_zero, h]

theorem matchesBelow_zero {n pos : Nat} (vMatch : List Bool) (h : pos < n) :
    matchesBelow n vMatch 0 pos = if vMatch.getD pos false then [pos] else [] := by
  rw [matchesBelow, leavesBelow_zero, if_pos h, List.filter_singleton]
  cases vMatch.getD pos false <;> rfl

theorem matchesBelow_succ (n : Nat) (vMatch : List Bool) (height pos : Nat) :
    matchesBelow n vMatch (height + 1) pos =
      matchesBelow n vMatch height (2 * pos) ++ matchesBelow n vMatch height (2 * pos + 1) := by
  rw [matchesBelow, leavesBelow_succ, List.filter_append]
  rfl

theorem matchesBelow_of_not_matched {n : Nat} {vMatch : List Bool} {height pos : Nat}
    (h : matchedBelow n vMatch height pos = false) : matchesBelow n vMatch height pos = [] := by
  rw [matchesBelow, List.filter_eq_nil_iff]
  exact List.any_eq_false.mp h

theorem matchesBelow_of_width_le {n : Nat} (vMatch : List Bool) {height pos : Nat}
    (h : width n height ≤ pos) : matchesBelow n vMatch height pos = [] := by
  rw [matchesBelow, leavesBelow_eq_nil h, List.filter_nil]

/-- The depth-first encoding `TraverseAndBuild` writes for the node at `height`, `pos` of the
tree over `vTxid`: a bit for each node visited, set on a parent of a match, and the hash of
each node it does not descend into. -/
def encode (vTxid : List α) (vMatch : List Bool) : Nat → Nat → List Bool × List α
  | 0, pos => ([matchedBelow vTxid.length vMatch 0 pos], [vTxid.getD pos default])
  | height + 1, pos =>
    if matchedBelow vTxid.length vMatch (height + 1) pos then
      let l := encode vTxid vMatch height (2 * pos)
      let r := if 2 * pos + 1 < width vTxid.length height then encode vTxid vMatch height (2 * pos + 1)
        else ([], [])
      (true :: (l.1 ++ r.1), l.2 ++ r.2)
    else ([false], [node Hash vTxid (height + 1) pos])

/-- `TraverseAndBuild` appends the encoding of its node. -/
theorem TraverseAndBuild_eq (vTxid : List α) (vMatch : List Bool) :
    ∀ (height pos : Nat) (vBits : List Bool) (vHash : List α) (fBad : Bool),
      (⟨vTxid.length, vBits, vHash, fBad⟩ : CPartialMerkleTree α).TraverseAndBuild Hash height pos
          vTxid vMatch =
        ⟨vTxid.length, vBits ++ (encode Hash vTxid vMatch height pos).1,
          vHash ++ (encode Hash vTxid vMatch height pos).2, fBad⟩
  | 0, pos, vBits, vHash, fBad => by
      simp only [TraverseAndBuild, encode, parentOfMatch_eq, CalcHash]
  | height + 1, pos, vBits, vHash, fBad => by
      simp only [TraverseAndBuild, parentOfMatch_eq]
      cases hm : matchedBelow vTxid.length vMatch (height + 1) pos with
      | false =>
        simp only [encode, hm, Bool.not_false, if_true, Bool.false_eq_true, if_false]
        rw [CalcHash_eq Hash rfl]
      | true =>
        simp only [Bool.not_true, Bool.false_eq_true, if_false, Nat.mul_comm pos 2]
        rw [TraverseAndBuild_eq vTxid vMatch height (2 * pos), CalcTreeWidth_eq]
        split_ifs with hr
        · rw [TraverseAndBuild_eq vTxid vMatch height (2 * pos + 1)]
          simp [encode, hm, hr]
        · simp [encode, hm, hr]

/-- The height loop stops at the `height` of the tree. -/
theorem heightLoop_eq (t : CPartialMerkleTree α) :
    ∀ fuel nHeight, nHeight ≤ height t.nTransactions → height t.nTransactions ≤ nHeight + fuel →
      t.heightLoop fuel nHeight = height t.nTransactions
  | 0, nHeight, h1, h2 => by rw [heightLoop]; omega
  | fuel + 1, nHeight, h1, h2 => by
      rw [heightLoop, CalcTreeWidth_eq]
      split_ifs with hw
      · exact heightLoop_eq t fuel (nHeight + 1) ((lt_height_iff _ _).mpr hw) (by omega)
      · exact le_antisymm h1 ((height_le_iff _ _).mpr (by omega))

theorem heightLoop_nTransactions (t : CPartialMerkleTree α) :
    t.heightLoop t.nTransactions 0 = height t.nTransactions :=
  heightLoop_eq t _ 0 (Nat.zero_le _)
    (by rw [Nat.zero_add, height_le_iff_le_two_pow]; exact Nat.lt_two_pow_self.le)

/-- The tree `CPartialMerkleTree(vTxid, vMatch)` builds: the encoding of its top node. -/
theorem new_eq (vTxid : List α) (vMatch : List Bool) :
    new Hash vTxid vMatch =
      { nTransactions := vTxid.length,
        vBits := (encode Hash vTxid vMatch (height vTxid.length) 0).1,
        vHash := (encode Hash vTxid vMatch (height vTxid.length) 0).2, fBad := false } := by
  rw [new, heightLoop_nTransactions, TraverseAndBuild_eq]
  rfl

/-! ### One step of the traversal -/

section Steps

variable (t : CPartialMerkleTree α) {height pos : Nat} {s : Extraction α}

theorem useHash_of_le (h : t.vHash.length ≤ s.nHashUsed) (fParentOfMatch : Bool) :
    t.useHash height pos fParentOfMatch s = (default, { s with fBad := true }) := by
  rw [useHash, if_pos h]

/-- A stored hash is returned; it is a match when the node is a leaf whose bit is set. -/
theorem useHash_of_lt (h : s.nHashUsed < t.vHash.length) (fParentOfMatch : Bool) :
    t.useHash height pos fParentOfMatch s =
      (t.vHash.getD s.nHashUsed default,
        if height = 0 ∧ fParentOfMatch = true then
          { s with nHashUsed := s.nHashUsed + 1, vMatch := s.vMatch ++ [t.vHash.getD s.nHashUsed default],
                   vnIndex := s.vnIndex ++ [pos] }
        else { s with nHashUsed := s.nHashUsed + 1 }) := by
  rw [useHash, if_neg (by omega)]
  split_ifs <;> rfl

theorem TraverseAndExtract_of_le (h : t.vBits.length ≤ s.nBitsUsed) :
    t.TraverseAndExtract Hash height pos s = (default, { s with fBad := true }) := by
  rw [TraverseAndExtract, if_pos h]

/-- A leaf, or a node whose bit is clear: its stored hash. -/
theorem TraverseAndExtract_of_useHash (h : s.nBitsUsed < t.vBits.length)
    (hleaf : height = 0 ∨ t.vBits.getD s.nBitsUsed false = false) :
    t.TraverseAndExtract Hash height pos s =
      t.useHash height pos (t.vBits.getD s.nBitsUsed false) { s with nBitsUsed := s.nBitsUsed + 1 } := by
  rw [TraverseAndExtract, if_neg (by omega)]
  rcases hleaf with rfl | hbit
  · rfl
  · rw [hbit]
    cases height <;> rfl

/-- A parent of a match above height 0: its left subtree, then its right one if it has one. -/
theorem TraverseAndExtract_of_descend (h : s.nBitsUsed < t.vBits.length)
    (hbit : t.vBits.getD s.nBitsUsed false = true) :
    t.TraverseAndExtract Hash (height + 1) pos s =
      let left := t.TraverseAndExtract Hash height (2 * pos) { s with nBitsUsed := s.nBitsUsed + 1 }
      if 2 * pos + 1 < width t.nTransactions height then
        let right := t.TraverseAndExtract Hash height (2 * pos + 1) left.2
        (Hash left.1 right.1, if right.1 = left.1 then { right.2 with fBad := true } else right.2)
      else (Hash left.1 left.1, left.2) := by
  rw [TraverseAndExtract, if_neg (by omega)]
  simp only [hbit, Nat.mul_comm pos 2, CalcTreeWidth_eq]

end Steps

/-! ### Reading back an encoding -/

section Cursor

variable {β : Type} {L l a : List β} {i : Nat} {x : β}

private theorem lt_of_drop_eq_cons (h : L.drop i = x :: l) : i < L.length := by
  by_contra hc
  rw [List.drop_eq_nil_of_le (by omega)] at h
  cases h

private theorem getD_of_drop_eq_cons (h : L.drop i = x :: l) (d : β) : L.getD i d = x := by
  have hi := lt_of_drop_eq_cons h
  rw [List.drop_eq_getElem_cons hi] at h
  rw [List.getD_eq_getElem _ _ hi]
  exact (List.cons.inj h).1

private theorem drop_succ_of_drop_eq_cons (h : L.drop i = x :: l) : L.drop (i + 1) = l := by
  rw [← List.tail_drop, h]
  rfl

private theorem drop_add_of_drop_eq_append (h : L.drop i = a ++ l) : L.drop (i + a.length) = l := by
  rw [← List.drop_drop, h, List.drop_left]

end Cursor

section Encoded

variable {Hash} {t : CPartialMerkleTree α} {vTxid : List α} (vMatch : List Bool)

/-- Reading back the encoding of a node of a tree with no two equal siblings: the node, its
matches, and its bits and hashes consumed, whatever follows them. -/
theorem TraverseAndExtract_encode (hn : t.nTransactions = vTxid.length)
    (hsib : ¬ EqualSiblingPair Hash vTxid) :
    ∀ (height pos : Nat) (s : Extraction α) (rb : List Bool) (rh : List α),
      pos < width vTxid.length height →
      t.vBits.drop s.nBitsUsed = (encode Hash vTxid vMatch height pos).1 ++ rb →
      t.vHash.drop s.nHashUsed = (encode Hash vTxid vMatch height pos).2 ++ rh →
      t.TraverseAndExtract Hash height pos s =
        (node Hash vTxid height pos,
          { s with nBitsUsed := s.nBitsUsed + (encode Hash vTxid vMatch height pos).1.length,
                   nHashUsed := s.nHashUsed + (encode Hash vTxid vMatch height pos).2.length,
                   vMatch := s.vMatch ++
                     (matchesBelow vTxid.length vMatch height pos).map (vTxid.getD · default),
                   vnIndex := s.vnIndex ++ matchesBelow vTxid.length vMatch height pos })
  | 0, pos, s, rb, rh, hpos, hb, hh => by
      -- a leaf: its bit says whether it is a match, and its hash is its txid
      simp only [encode, List.singleton_append] at hb hh
      have hpos' : pos < vTxid.length := hpos
      rw [TraverseAndExtract_of_useHash Hash t (lt_of_drop_eq_cons hb) (.inl rfl),
        getD_of_drop_eq_cons hb,
        useHash_of_lt t (s := { s with nBitsUsed := s.nBitsUsed + 1 }) (lt_of_drop_eq_cons hh),
        getD_of_drop_eq_cons hh,
        matchedBelow_zero vMatch hpos', matchesBelow_zero vMatch hpos']
      cases vMatch.getD pos false <;> simp [encode, node]
  | height + 1, pos, s, rb, rh, hpos, hb, hh => by
      have hl : 2 * pos < width vTxid.length height := by
        have hw : width vTxid.length (height + 1) = (width vTxid.length height + 1) / 2 := rfl
        omega
      cases hm : matchedBelow vTxid.length vMatch (height + 1) pos with
      | false =>
        -- nothing matched below: the node's own hash, and no match
        simp only [encode, hm, Bool.false_eq_true, if_false, List.singleton_append] at hb hh ⊢
        rw [TraverseAndExtract_of_useHash Hash t (lt_of_drop_eq_cons hb)
            (.inr (getD_of_drop_eq_cons hb _)),
          getD_of_drop_eq_cons hb,
          useHash_of_lt t (s := { s with nBitsUsed := s.nBitsUsed + 1 }) (lt_of_drop_eq_cons hh),
          getD_of_drop_eq_cons hh, matchesBelow_of_not_matched hm]
        simp
      | true =>
        -- a parent of a match: the left subtree's encoding follows the bit, then the right one's
        have hlen : s.nBitsUsed < t.vBits.length := by
          simp only [encode, hm, if_true] at hb
          exact lt_of_drop_eq_cons hb
        have hbit : t.vBits.getD s.nBitsUsed false = true := by
          simp only [encode, hm, if_true] at hb
          exact getD_of_drop_eq_cons hb _
        rw [TraverseAndExtract_of_descend Hash t hlen hbit, hn]
        by_cases hr : 2 * pos + 1 < width vTxid.length height
        · simp only [encode, hm, hr, if_true, List.cons_append, List.append_assoc] at hb hh ⊢
          have hbl := drop_succ_of_drop_eq_cons hb
          rw [TraverseAndExtract_encode hn hsib height (2 * pos) { s with nBitsUsed := s.nBitsUsed + 1 }
            _ _ hl hbl hh]
          rw [TraverseAndExtract_encode hn hsib height (2 * pos + 1) _ _ _ hr
            (drop_add_of_drop_eq_append hbl) (drop_add_of_drop_eq_append hh)]
          rw [if_neg (fun he => hsib ⟨height, pos, hr, he.symm⟩), node_succ_of_lt Hash vTxid hr,
            matchesBelow_succ]
          simp only [List.map_append, List.append_assoc, List.length_cons, List.length_append,
            Extraction.mk.injEq, Prod.mk.injEq, true_and, and_true]
          omega
        · have hr' : width vTxid.length height ≤ 2 * pos + 1 := by omega
          simp only [encode, hm, hr, if_true, if_false, List.append_nil, List.cons_append] at hb hh ⊢
          rw [TraverseAndExtract_encode hn hsib height (2 * pos) { s with nBitsUsed := s.nBitsUsed + 1 }
            _ _ hl (drop_succ_of_drop_eq_cons hb) hh]
          rw [node_succ_of_ge Hash vTxid hr', matchesBelow_succ, matchesBelow_of_width_le vMatch hr']
          simp only [List.append_nil, List.length_cons, Extraction.mk.injEq, Prod.mk.injEq, true_and,
            and_true]
          omega

end Encoded

/-! ### The built tree passes `ExtractMatches`' checks -/

section Counts

variable (vTxid : List α) (vMatch : List Bool)

/-- Each stored hash comes with its node's bit. -/
theorem length_hashes_le_bits :
    ∀ height pos, (encode Hash vTxid vMatch height pos).2.length ≤
      (encode Hash vTxid vMatch height pos).1.length
  | 0, pos => by simp [encode]
  | height + 1, pos => by
      have hl := length_hashes_le_bits height (2 * pos)
      have hr := length_hashes_le_bits height (2 * pos + 1)
      simp only [encode]
      split_ifs <;> simp <;> omega

/-- Each stored hash covers at least one leaf. -/
theorem length_hashes_le_leaves :
    ∀ height pos, pos < width vTxid.length height →
      (encode Hash vTxid vMatch height pos).2.length ≤ (leavesBelow vTxid.length height pos).length
  | 0, pos, h => by
      have h' : pos < vTxid.length := h
      simp [encode, leavesBelow_zero, h']
  | height + 1, pos, h => by
      have hw : width vTxid.length (height + 1) = (width vTxid.length height + 1) / 2 := rfl
      have hl := length_hashes_le_leaves height (2 * pos) (by omega)
      have hne := List.length_pos_iff.mpr (leavesBelow_ne_nil h)
      rw [leavesBelow_succ, List.length_append] at hne ⊢
      simp only [encode]
      split_ifs with hm hr
      · have := length_hashes_le_leaves height (2 * pos + 1) hr
        simp only [List.length_append]
        omega
      · simp only [List.append_nil]
        omega
      · simp only [List.length_singleton]
        omega

/-- A subtree of height `height` has fewer than `2^(height+1)` nodes, so leaves fewer bits. -/
theorem length_bits_lt :
    ∀ height pos, (encode Hash vTxid vMatch height pos).1.length < 2 ^ (height + 1)
  | 0, pos => by simp [encode]
  | height + 1, pos => by
      have hl := length_bits_lt height (2 * pos)
      have hr := length_bits_lt height (2 * pos + 1)
      have hp : 2 ^ (height + 1 + 1) = 2 * 2 ^ (height + 1) := by ring
      have hpos : 0 < 2 ^ (height + 1) := Nat.two_pow_pos _
      simp only [encode]
      split_ifs <;> simp <;> omega

end Counts

/-- `ComputeMerkleRoot` of at most `2^31` leaves: the top node of the padded tree, and the
`mutated` flag of two equal complete siblings. -/
theorem computeMerkleRoot_of_ne_nil {vTxid : List α} (hne : vTxid ≠ []) (hn : vTxid.length ≤ 2 ^ 31) :
    Merkle.computeMerkleRoot Hash vTxid =
      some (node Hash vTxid (height vTxid.length) 0, decide (EqualCompletePair Hash vTxid)) := by
  rw [Merkle.computeMerkleRoot, Merkle.merkleComputation_of_le Hash vTxid hne hn]
  rfl

section Encoded

variable {Hash} {vTxid : List α} (vMatch : List Bool)

/-- `ExtractMatches` of a tree that holds the encoding of the tree over `vTxid`, its bits padded
within their last byte: the top node, and the matches in order. -/
theorem ExtractMatches_encode {t : CPartialMerkleTree α} (pad : List Bool)
    (hn : t.nTransactions = vTxid.length) (h1 : 1 ≤ vTxid.length)
    (hmax : vTxid.length ≤ MAX_BLOCK_BASE_SIZE / 60) (hsib : ¬ EqualSiblingPair Hash vTxid)
    (hbad : t.fBad = false)
    (hbits : t.vBits = (encode Hash vTxid vMatch (height vTxid.length) 0).1 ++ pad)
    (hpad : ((encode Hash vTxid vMatch (height vTxid.length) 0).1.length + 7) / 8 =
      (t.vBits.length + 7) / 8)
    (hhash : t.vHash = (encode Hash vTxid vMatch (height vTxid.length) 0).2) :
    t.ExtractMatches Hash [] =
      (node Hash vTxid (height vTxid.length) 0,
        { fBad := false, nBitsUsed := (encode Hash vTxid vMatch (height vTxid.length) 0).1.length,
          nHashUsed := (encode Hash vTxid vMatch (height vTxid.length) 0).2.length,
          vMatch := ((List.range vTxid.length).filter (vMatch.getD · false)).map (vTxid.getD · default),
          vnIndex := (List.range vTxid.length).filter (vMatch.getD · false) }) := by
  have hroot : 0 < width vTxid.length (height vTxid.length) := one_le_width h1 _
  have hleaves := length_hashes_le_leaves Hash vTxid vMatch _ 0 hroot
  have hbh := length_hashes_le_bits Hash vTxid vMatch (height vTxid.length) 0
  rw [leavesBelow_height, List.length_range] at hleaves
  -- the checks before the traversal pass
  rw [ExtractMatches, if_neg (by omega), if_neg (by omega), if_neg (by rw [hhash, hn]; omega),
    if_neg (by rw [hbits, hhash, List.length_append]; omega), heightLoop_nTransactions, hn]
  rw [TraverseAndExtract_encode vMatch hn hsib _ 0 _ pad [] hroot (by simpa using hbits)
    (by simpa using hhash)]
  -- and so do those after it
  simp only [hbad, Bool.false_eq_true, if_false, Nat.zero_add, hpad, ne_eq, not_true_eq_false,
    hhash, List.nil_append, matchesBelow, leavesBelow_height]

/-- Round trip: the tree `CPartialMerkleTree(vTxid, vMatch)` builds, over at most
`MAX_BLOCK_BASE_SIZE / 60` txids with no two equal siblings, gives back in `ExtractMatches` the
root `ComputeMerkleRoot` computes (with `mutated` clear), the matched txids in order, and their
positions. -/
theorem ExtractMatches_new (hn : 1 ≤ vTxid.length) (hmax : vTxid.length ≤ MAX_BLOCK_BASE_SIZE / 60)
    (hsib : ¬ EqualSiblingPair Hash vTxid) :
    let matched := (List.range vTxid.length).filter (vMatch.getD · false)
    let r := (new Hash vTxid vMatch).ExtractMatches Hash []
    Merkle.computeMerkleRoot Hash vTxid = some (r.1, false) ∧ r.2.fBad = false ∧
      r.2.vMatch = matched.map (vTxid.getD · default) ∧ r.2.vnIndex = matched := by
  intro matched r
  have hmax' : vTxid.length ≤ 2 ^ 31 := le_trans hmax (by decide)
  have hr : r = _ := ExtractMatches_encode vMatch [] (by rw [new_eq]) hn hmax hsib (by rw [new_eq])
    (by rw [new_eq, List.append_nil]) (by rw [new_eq]) (by rw [new_eq])
  have hcomplete : decide (EqualCompletePair Hash vTxid) = false :=
    decide_eq_false fun h => hsib h.equalSiblingPair
  rw [hr, computeMerkleRoot_of_ne_nil Hash (List.ne_nil_of_length_pos hn) hmax', hcomplete]
  exact ⟨rfl, rfl, rfl, rfl⟩

theorem ExtractMatches_new_three :
    let vTxid := [1, 2, 3]
    let vMatch := [false, true, true]
    1 ≤ vTxid.length ∧ vTxid.length ≤ MAX_BLOCK_BASE_SIZE / 60 ∧ ¬ EqualSiblingPair Nat.add vTxid ∧
      (let matched := (List.range vTxid.length).filter (vMatch.getD · false)
       let r := (new Nat.add vTxid vMatch).ExtractMatches Nat.add []
       Merkle.computeMerkleRoot Nat.add vTxid = some (r.1, false) ∧ r.2.fBad = false ∧
         r.2.vMatch = matched.map (vTxid.getD · default) ∧ r.2.vnIndex = matched) :=
  ⟨by decide, by decide, by decide,
    ExtractMatches_new [false, true, true] (by decide) (by decide) (by decide)⟩

end Encoded

/-! ### What any tree gives -/

section Sound

/-- What the traversal of the node at `height`, `pos` of a tree over `n` leaves adds to the
matches: as many txids as positions, the positions increasing and below the node (leaves of the
tree when the node is on its level), and each txid climbing to the node's returned hash along
a branch of `height` siblings. -/
structure Authenticated (n height pos : Nat) (root : α) (ms : List α) (is : List Nat) : Prop where
  length_eq : ms.length = is.length
  sorted : is.Pairwise (· < ·)
  below : ∀ i ∈ is, i / 2 ^ height = pos
  lt : pos < width n height → ∀ i ∈ is, i < n
  branch : ∀ p ∈ ms.zip is, ∃ br : List α, br.length = height ∧
    Merkle.computeMerkleRootFromBranch Hash p.1 br p.2 = root

namespace Authenticated

variable {Hash} {n height pos : Nat}

theorem nil (root : α) : Authenticated Hash n height pos root [] [] :=
  ⟨rfl, .nil, by simp, by simp, by simp⟩

/-- A matched leaf is its own root. -/
theorem leaf (x : α) : Authenticated Hash n 0 pos x [x] [pos] := by
  refine ⟨rfl, List.pairwise_singleton _ _, by simp, fun h i hi => ?_, fun p hp => ?_⟩
  · rw [List.mem_singleton.mp hi]
    exact h
  · rw [List.zip_cons_cons, List.zip_nil_left, List.mem_singleton] at hp
    rw [hp]
    exact ⟨[], rfl, rfl⟩

private theorem div_two_pow_succ {i : Nat} (j : Nat) (h : i / 2 ^ height = 2 * pos + j) (hj : j < 2) :
    i / 2 ^ (height + 1) = pos := by
  rw [pow_succ, ← Nat.div_div_eq_div_mul, h]
  omega

/-- A match of the left child climbs one more level, with the right child's hash as sibling. -/
private theorem branch_left {ms : List α} {is : List Nat} {l : α} (hl : Authenticated Hash n height (2 * pos) l ms is)
    (r : α) : ∀ p ∈ ms.zip is, ∃ br : List α, br.length = height + 1 ∧
      Merkle.computeMerkleRootFromBranch Hash p.1 br p.2 = Hash l r := by
  intro p hp
  obtain ⟨br, hlen, hroot⟩ := hl.branch p hp
  have hbit : p.2 / 2 ^ br.length % 2 = 0 := by
    rw [hlen, hl.below _ (List.of_mem_zip hp).2]
    omega
  refine ⟨br ++ [r], by simp [hlen], ?_⟩
  rw [Merkle.computeMerkleRootFromBranch_append, if_neg (by omega), hroot]

/-- A match of the right child climbs one more level, with the left child's hash as sibling. -/
private theorem branch_right {ms : List α} {is : List Nat} {r : α}
    (hr : Authenticated Hash n height (2 * pos + 1) r ms is) (l : α) :
    ∀ p ∈ ms.zip is, ∃ br : List α, br.length = height + 1 ∧
      Merkle.computeMerkleRootFromBranch Hash p.1 br p.2 = Hash l r := by
  intro p hp
  obtain ⟨br, hlen, hroot⟩ := hr.branch p hp
  have hbit : p.2 / 2 ^ br.length % 2 = 1 := by
    rw [hlen, hr.below _ (List.of_mem_zip hp).2]
    omega
  refine ⟨br ++ [l], by simp [hlen], ?_⟩
  rw [Merkle.computeMerkleRootFromBranch_append, if_pos hbit, hroot]

/-- The matches of two siblings make those of their parent, whose hash combines theirs. -/
theorem parent {l r : α} {ms ms' : List α} {is is' : List Nat}
    (hl : Authenticated Hash n height (2 * pos) l ms is)
    (hr : Authenticated Hash n height (2 * pos + 1) r ms' is') (hw : 2 * pos + 1 < width n height) :
    Authenticated Hash n (height + 1) pos (Hash l r) (ms ++ ms') (is ++ is') := by
  refine ⟨by simp [hl.length_eq, hr.length_eq], ?_, ?_, fun _ => ?_, ?_⟩
  · -- the left child's leaves come before the right child's
    refine List.pairwise_append.mpr ⟨hl.sorted, hr.sorted, fun i hi j hj => ?_⟩
    have hi' := hl.below i hi
    have hj' := hr.below j hj
    by_contra hle
    have := Nat.div_le_div_right (c := 2 ^ height) (not_lt.mp hle)
    omega
  · intro i hi
    rcases List.mem_append.mp hi with hi | hi
    · exact div_two_pow_succ 0 (hl.below i hi) (by omega)
    · exact div_two_pow_succ 1 (hr.below i hi) (by omega)
  · intro i hi
    rcases List.mem_append.mp hi with hi | hi
    · exact hl.lt (by omega) i hi
    · exact hr.lt hw i hi
  · intro p hp
    rw [List.zip_append hl.length_eq] at hp
    rcases List.mem_append.mp hp with hp | hp
    · exact branch_left hl r p hp
    · exact branch_right hr l p hp

/-- The matches of a node with no right sibling make those of their parent, whose hash combines
the node with itself. -/
theorem parent_self {l : α} {ms : List α} {is : List Nat}
    (hl : Authenticated Hash n height (2 * pos) l ms is) :
    Authenticated Hash n (height + 1) pos (Hash l l) ms is := by
  refine ⟨hl.length_eq, hl.sorted, fun i hi => div_two_pow_succ 0 (hl.below i hi) (by omega),
    fun hw i hi => hl.lt ?_ i hi, branch_left hl l⟩
  have : width n (height + 1) = (width n height + 1) / 2 := rfl
  omega

end Authenticated

theorem useHash_authenticated (t : CPartialMerkleTree α) (height pos : Nat) (b : Bool)
    (s : Extraction α) :
    ∃ ms is, (t.useHash height pos b s).2.vMatch = s.vMatch ++ ms ∧
      (t.useHash height pos b s).2.vnIndex = s.vnIndex ++ is ∧
      Authenticated Hash t.nTransactions height pos (t.useHash height pos b s).1 ms is := by
  by_cases hh : t.vHash.length ≤ s.nHashUsed
  · rw [useHash_of_le t hh]
    exact ⟨[], [], by simp, by simp, .nil _⟩
  · rw [useHash_of_lt t (by omega)]
    split_ifs with hleaf
    · -- a matched leaf
      obtain ⟨rfl, -⟩ := hleaf
      exact ⟨_, [pos], rfl, rfl, .leaf _⟩
    · exact ⟨[], [], by simp, by simp, .nil _⟩

/-- The traversal of any tree only appends to the matches, and what it appends is authenticated
by the hash it returns. -/
theorem TraverseAndExtract_authenticated (t : CPartialMerkleTree α) :
    ∀ height pos (s : Extraction α), ∃ ms is,
      (t.TraverseAndExtract Hash height pos s).2.vMatch = s.vMatch ++ ms ∧
      (t.TraverseAndExtract Hash height pos s).2.vnIndex = s.vnIndex ++ is ∧
      Authenticated Hash t.nTransactions height pos (t.TraverseAndExtract Hash height pos s).1 ms is
  | height, pos, s => by
      by_cases hlen : t.vBits.length ≤ s.nBitsUsed
      · rw [TraverseAndExtract_of_le Hash t hlen]
        exact ⟨[], [], by simp, by simp, .nil _⟩
      cases height with
      | zero =>
        rw [TraverseAndExtract_of_useHash Hash t (by omega) (.inl rfl)]
        exact useHash_authenticated Hash t 0 pos _ _
      | succ height =>
        cases hbit : t.vBits.getD s.nBitsUsed false with
        | false =>
          rw [TraverseAndExtract_of_useHash Hash t (by omega) (.inr hbit)]
          exact useHash_authenticated Hash t _ pos _ _
        | true =>
          -- a parent of a match: what each child appends, combined
          rw [TraverseAndExtract_of_descend Hash t (by omega) hbit]
          obtain ⟨ms, is, hvm, hvi, ha⟩ :=
            TraverseAndExtract_authenticated t height (2 * pos) { s with nBitsUsed := s.nBitsUsed + 1 }
          by_cases hr : 2 * pos + 1 < width t.nTransactions height
          · obtain ⟨ms', is', hvm', hvi', ha'⟩ := TraverseAndExtract_authenticated t height (2 * pos + 1)
              (t.TraverseAndExtract Hash height (2 * pos) { s with nBitsUsed := s.nBitsUsed + 1 }).2
            simp only [hr, if_true]
            refine ⟨ms ++ ms', is ++ is', ?_, ?_, ha.parent ha' hr⟩ <;>
              split_ifs <;> simp [hvm, hvi, hvm', hvi']
          · simp only [hr, if_false]
            exact ⟨ms, is, hvm, hvi, ha.parent_self⟩

/-- Past its checks, `ExtractMatches` returns what the traversal from the top returns. -/
theorem ExtractMatches_of_ne_default {t : CPartialMerkleTree α} {vnIndex : List Nat}
    (h : (t.ExtractMatches Hash vnIndex).1 ≠ default) :
    0 < t.nTransactions ∧ t.ExtractMatches Hash vnIndex =
      t.TraverseAndExtract Hash (height t.nTransactions) 0 ⟨t.fBad, 0, 0, [], vnIndex⟩ := by
  rw [ExtractMatches, heightLoop_nTransactions] at h ⊢
  dsimp only at h ⊢
  split_ifs at h ⊢ <;> first | exact absurd rfl h | exact ⟨by omega, rfl⟩

/-- Soundness of `ExtractMatches` on any tree, such as one received in a `merkleblock`: when it
returns a root, it returns as many txids as positions, the positions increasing and below
`nTransactions`, and a branch of the tree's height from each txid at its position to the root. -/
theorem ExtractMatches_sound (t : CPartialMerkleTree α) (h : (t.ExtractMatches Hash []).1 ≠ default) :
    let r := t.ExtractMatches Hash []
    r.2.vMatch.length = r.2.vnIndex.length ∧ r.2.vnIndex.Pairwise (· < ·) ∧
      (∀ i ∈ r.2.vnIndex, i < t.nTransactions) ∧
      ∀ p ∈ r.2.vMatch.zip r.2.vnIndex, ∃ branch : List α, branch.length = height t.nTransactions ∧
        Merkle.computeMerkleRootFromBranch Hash p.1 branch p.2 = r.1 := by
  intro r
  obtain ⟨hpos, hr⟩ := ExtractMatches_of_ne_default Hash h
  obtain ⟨ms, is, hvm, hvi, ha⟩ :=
    TraverseAndExtract_authenticated Hash t (height t.nTransactions) 0 ⟨t.fBad, 0, 0, [], []⟩
  have hvm' : r.2.vMatch = ms := by rw [show r = _ from hr, hvm, List.nil_append]
  have hvi' : r.2.vnIndex = is := by rw [show r = _ from hr, hvi, List.nil_append]
  rw [hvm', hvi', show r.1 = _ from congrArg Prod.fst hr]
  exact ⟨ha.length_eq, ha.sorted, ha.lt (one_le_width hpos _), ha.branch⟩

theorem ExtractMatches_sound_three :
    let t := new Nat.add [1, 2, 3] [false, true, true]
    (t.ExtractMatches Nat.add []).1 ≠ default ∧
      (let r := t.ExtractMatches Nat.add []
       r.2.vMatch.length = r.2.vnIndex.length ∧ r.2.vnIndex.Pairwise (· < ·) ∧
         (∀ i ∈ r.2.vnIndex, i < t.nTransactions) ∧
         ∀ p ∈ r.2.vMatch.zip r.2.vnIndex, ∃ branch : List Nat,
           branch.length = height t.nTransactions ∧
           Merkle.computeMerkleRootFromBranch Nat.add p.1 branch p.2 = r.1) :=
  ⟨by decide +kernel, ExtractMatches_sound Nat.add _ (by decide +kernel)⟩

end Sound

end CPartialMerkleTree

end Trumpow
