import Trumpow.TxRequest.Index

/-!
# TxRequest — the invariants of `SanityCheck`

`Sel` states, for every txhash, the assertions `SanityCheck` makes of it: not only `COMPLETED`
announcements, at most one selected (`CANDIDATE_BEST` or `REQUESTED`), exactly one when there is
a `CANDIDATE_READY`, and no `CANDIDATE_READY` of a higher priority than the `CANDIDATE_BEST`.
`Inv` is `Sel` with `Wf`.

The operations break `Sel` between their `Modify` calls and restore it at their end.  Each
composite step has one lemma: `PromoteCandidateReady` and `ChangeAndReselect` are split by the
neighbour in `ByTxHash` that decides their branch, into outcomes stated without it
(`promote_best`, `promote_takeover`, `promote_ready`; `reselect`, `change`).  Counts of a txhash
move by what the changed announcement counted before and after (`Wf.countOf_Modify`); counts of
other txhashes do not move.
-/

set_option linter.unusedSectionVars false

namespace Trumpow.TxRequest

open Announcement Replace

variable {τ π ι : Type} [LinearOrder τ] [LinearOrder π] [LinearOrder ι]

/-- The announcements of `txhash` that `p` counts. -/
def countOf (index : List (Announcement τ π ι)) (txhash : τ) (p : Announcement τ π ι → Bool) :
    Nat :=
  index.countP fun ann => decide (ann.m_txhash = txhash) && p ann

section Counts

variable {index : List (Announcement τ π ι)} {t : Impl τ π ι} {it : Announcement τ π ι}

theorem countOf_pos {a : Announcement τ π ι} {p : Announcement τ π ι → Bool} (ha : a ∈ index)
    (hp : p a = true) : 0 < countOf index a.m_txhash p :=
  List.countP_pos_iff.mpr ⟨a, ha, by simp [hp]⟩

theorem countOf_eq_zero {txhash : τ} {p : Announcement τ π ι → Bool}
    (h : ∀ a ∈ index, a.m_txhash = txhash → p a = false) : countOf index txhash p = 0 :=
  List.countP_eq_zero.mpr fun a ha hp => by
    simp only [Bool.and_eq_true, decide_eq_true_eq] at hp
    simp [h a ha hp.1] at hp

theorem exists_of_countOf_pos {txhash : τ} {p : Announcement τ π ι → Bool}
    (h : 0 < countOf index txhash p) : ∃ a ∈ index, a.m_txhash = txhash ∧ p a = true := by
  obtain ⟨a, ha, hp⟩ := List.countP_pos_iff.mp h
  simp only [Bool.and_eq_true, decide_eq_true_eq] at hp
  exact ⟨a, ha, hp⟩

theorem countOf_append (l : List (Announcement τ π ι)) (a : Announcement τ π ι) (txhash : τ)
    (p : Announcement τ π ι → Bool) :
    countOf (l ++ [a]) txhash p = countOf l txhash p + if a.m_txhash = txhash ∧ p a = true then 1 else 0 := by
  simp [countOf, List.countP_append]

theorem mem_Modify {f : Announcement τ π ι → Announcement τ π ι} {x : Announcement τ π ι} :
    x ∈ (t.Modify it f).m_index ↔ (it ∈ t.m_index ∧ x = f it) ∨ (x ∈ t.m_index ∧ x ≠ it) := by
  rw [Impl.Modify_m_index]
  exact mem_map_replace

/-- A modification moves a count of its txhash by what the announcement counted before and
after. -/
theorem Wf.countOf_Modify (hw : Wf t) (hit : it ∈ t.m_index) {f : Announcement τ π ι → Announcement τ π ι}
    (hk : Keeps it (f it)) (txhash : τ) (p : Announcement τ π ι → Bool) :
    countOf (t.Modify it f).m_index txhash p + (if it.m_txhash = txhash ∧ p it = true then 1 else 0) =
      countOf t.m_index txhash p + (if it.m_txhash = txhash ∧ p (f it) = true then 1 else 0) := by
  have := countP_map_replace (fun ann => decide (ann.m_txhash = txhash) && p ann) hw.nodup hit (f it)
  simpa [countOf, hk.txhash] using this

theorem Wf.countOf_Modify_of_ne (hw : Wf t) (hit : it ∈ t.m_index)
    {f : Announcement τ π ι → Announcement τ π ι} (hk : Keeps it (f it)) {txhash : τ}
    (hne : it.m_txhash ≠ txhash) (p : Announcement τ π ι → Bool) :
    countOf (t.Modify it f).m_index txhash p = countOf t.m_index txhash p := by
  have := hw.countOf_Modify hit hk txhash p
  simpa [hne] using this

end Counts

/-! ### Tallies of states -/

/-- How many announcements of `txhash` are in each state. -/
def tally (index : List (Announcement τ π ι)) (txhash : τ) (s : State) : Nat :=
  countOf index txhash (·.m_state == s)

/-- A tally after one announcement moves from state `s` to state `s'`. -/
def move (T : State → Nat) (s s' : State) (x : State) : Nat :=
  T x - (if x = s then 1 else 0) + (if x = s' then 1 else 0)

/-- The counting assertions of `SanityCheck` on one txhash: not only `COMPLETED`, at most one
selected, and one selected if there is a `CANDIDATE_READY`. -/
def TallyOk (T : State → Nat) : Prop :=
  (0 < T .COMPLETED → 0 < T .CANDIDATE_DELAYED + T .CANDIDATE_READY + T .CANDIDATE_BEST + T .REQUESTED) ∧
  T .CANDIDATE_BEST + T .REQUESTED ≤ 1 ∧
  (0 < T .CANDIDATE_READY → T .CANDIDATE_BEST + T .REQUESTED = 1)

section Tally

variable {index : List (Announcement τ π ι)} {t : Impl τ π ι} {it : Announcement τ π ι}

theorem tally_pos {a : Announcement τ π ι} (ha : a ∈ index) : 0 < tally index a.m_txhash a.m_state :=
  countOf_pos ha (by simp)

theorem tally_eq_zero {txhash : τ} {s : State}
    (h : ∀ a ∈ index, a.m_txhash = txhash → a.m_state ≠ s) : tally index txhash s = 0 :=
  countOf_eq_zero fun a ha hat => by simp [h a ha hat]

theorem exists_of_tally_pos {txhash : τ} {s : State} (h : 0 < tally index txhash s) :
    ∃ a ∈ index, a.m_txhash = txhash ∧ a.m_state = s := by
  obtain ⟨a, ha, hat, hs⟩ := exists_of_countOf_pos h
  exact ⟨a, ha, hat, by simpa using hs⟩

/-- A modification moves the tally of its txhash and leaves the others. -/
theorem Wf.tally_Modify (hw : Wf t) (hit : it ∈ t.m_index)
    {f : Announcement τ π ι → Announcement τ π ι} (hk : Keeps it (f it)) (txhash : τ) :
    tally (t.Modify it f).m_index txhash =
      if it.m_txhash = txhash then move (tally t.m_index txhash) it.m_state (f it).m_state
      else tally t.m_index txhash := by
  funext s
  have e := hw.countOf_Modify hit hk txhash (·.m_state == s)
  split_ifs with hh
  · subst hh
    have hpos : (if it.m_state = s then 1 else 0) ≤ tally t.m_index it.m_txhash s := by
      split_ifs with hs
      · exact hs ▸ tally_pos hit
      · exact Nat.zero_le _
    simp only [true_and, beq_iff_eq] at e
    simp only [move, tally] at hpos ⊢
    by_cases h1 : it.m_state = s <;> by_cases h2 : (f it).m_state = s <;>
      simp only [h1, h2, eq_comm (a := s), if_true, if_false] at e hpos ⊢ <;> omega
  · simp only [hh, false_and, if_false, Nat.add_zero] at e
    exact e

theorem tally_append (l : List (Announcement τ π ι)) (a : Announcement τ π ι) (txhash : τ) (s : State) :
    tally (l ++ [a]) txhash s = tally l txhash s + if a.m_txhash = txhash ∧ a.m_state = s then 1 else 0 := by
  simp [tally, countOf_append]

/-- The selected announcements of a txhash are its `CANDIDATE_BEST` and its `REQUESTED`. -/
theorem countOf_IsSelected (txhash : τ) :
    countOf index txhash IsSelected = tally index txhash .CANDIDATE_BEST + tally index txhash .REQUESTED := by
  induction index with
  | nil => rfl
  | cons a l ih =>
    simp only [countOf, tally, List.countP_cons] at ih ⊢
    rw [ih]
    cases hs : a.m_state <;> simp [hs, IsSelected] <;> omega

end Tally

variable (siphash : τ → π → UInt64)

/-- The assertions of `SanityCheck` on every txhash of an index. -/
structure Sel (index : List (Announcement τ π ι)) : Prop where
  counts : ∀ txhash, TallyOk (tally index txhash)
  best_priority : ∀ a ∈ index, ∀ b ∈ index, a.m_txhash = b.m_txhash →
    a.m_state = .CANDIDATE_BEST → b.m_state = .CANDIDATE_READY →
      Priority siphash b ≤ Priority siphash a

/-- The invariant of the tracker. -/
structure Inv (t : Impl τ π ι) : Prop where
  wf : Wf t
  sel : Sel siphash t.m_index

variable {siphash}

section Selected

variable {t : Impl τ π ι} {a b : Announcement τ π ι}

@[simp] theorem IsSelected_iff : a.IsSelected = true ↔
    a.m_state = .CANDIDATE_BEST ∨ a.m_state = .REQUESTED := by
  simp [IsSelected]

/-- Two selected announcements of a txhash are one. -/
theorem Sel.eq_of_selected (hs : Sel siphash t.m_index) (hw : Wf t) (ha : a ∈ t.m_index)
    (hb : b ∈ t.m_index) (ht : b.m_txhash = a.m_txhash) (hsa : a.IsSelected = true)
    (hsb : b.IsSelected = true) : b = a := by
  have hle : countOf t.m_index a.m_txhash IsSelected ≤ 1 := by
    rw [countOf_IsSelected]
    exact (hs.counts a.m_txhash).2.1
  exact eq_of_countP_le_one _ hw.nodup hle ha hb (by simp [hsa]) (by simp [ht, hsb])

/-- A `CANDIDATE_READY` has a selected announcement of its txhash. -/
theorem Sel.exists_selected (hs : Sel siphash t.m_index) (ha : a ∈ t.m_index)
    (hr : a.m_state = .CANDIDATE_READY) :
    ∃ b ∈ t.m_index, b.m_txhash = a.m_txhash ∧ b.IsSelected = true := by
  have h1 := (hs.counts a.m_txhash).2.2 (hr ▸ tally_pos ha)
  rw [← countOf_IsSelected] at h1
  exact exists_of_countOf_pos (by omega)

end Selected

@[simp] theorem Priority_setState (siphash : τ → π → UInt64) (s : State) (a : Announcement τ π ι) :
    Priority siphash (setState s a) = Priority siphash a := rfl

theorem State.toNat_le_four (s : State) : s.toNat ≤ 4 := by
  cases s <;> simp

/-- At or above `CANDIDATE_BEST` an announcement is selected or `COMPLETED`. -/
theorem completed_or_selected {a : Announcement τ π ι} (h : 2 ≤ a.m_state.toNat) :
    a.m_state = .COMPLETED ∨ a.IsSelected = true := by
  cases hs : a.m_state <;> simp [hs] at h ⊢

theorem mem_of_mem_Modify {t : Impl τ π ι} {it x : Announcement τ π ι}
    {f : Announcement τ π ι → Announcement τ π ι} (h : x ∈ (t.Modify it f).m_index) :
    x = f it ∨ (x ∈ t.m_index ∧ x ≠ it) := by
  rcases mem_Modify.mp h with ⟨-, hx⟩ | hx
  · exact .inl hx
  · exact .inr hx

/-! ### `PromoteCandidateReady` -/

section Promote

variable {t : Impl τ π ι} {it : Announcement τ π ι}

/-- The promoted announcement with nothing selected above it becomes `CANDIDATE_BEST`. -/
theorem Sel.promote_best (hs : Sel siphash t.m_index) (hw : Wf t) (hit : it ∈ t.m_index)
    (hd : it.m_state = .CANDIDATE_DELAYED)
    (habove : ∀ b ∈ t.m_index, b.m_txhash = it.m_txhash → b ≠ it → b.m_state = .COMPLETED ∨
      ByTxHashView siphash b ≤ ByTxHashView siphash (setState .CANDIDATE_READY it)) :
    Sel siphash ((t.Modify it (setState .CANDIDATE_READY)).Modify
      (setState .CANDIDATE_READY it) (setState .CANDIDATE_BEST)).m_index := by
  have hw1 := hw.Modify hit (keeps_setState .CANDIDATE_READY it)
  have hr1 : setState .CANDIDATE_READY it ∈ (t.Modify it (setState .CANDIDATE_READY)).m_index :=
    mem_Modify.mpr (.inl ⟨hit, rfl⟩)
  -- nothing of the txhash is selected: what is not `COMPLETED` is below a `CANDIDATE_READY`
  have hlow : ∀ b ∈ t.m_index, b.m_txhash = it.m_txhash →
      b.m_state ≠ .CANDIDATE_BEST ∧ b.m_state ≠ .REQUESTED := by
    intro b hb hbt
    by_cases hbi : b = it
    · subst hbi
      simp [hd]
    · rcases habove b hb hbt hbi with hc | hv
      · simp [hc]
      · have hle := toNat_le_of_ByTxHashView_le siphash hv
        simp only [setState_m_state, toNat_CANDIDATE_READY] at hle
        constructor <;> intro h' <;> simp [h'] at hle
  have hB := tally_eq_zero fun b hb hbt => (hlow b hb hbt).1
  have hQ := tally_eq_zero fun b hb hbt => (hlow b hb hbt).2
  have hD := hd ▸ tally_pos hit
  constructor
  · intro h
    rw [hw1.tally_Modify hr1 (keeps_setState _ _), hw.tally_Modify hit (keeps_setState _ _)]
    simp only [setState_m_txhash, setState_m_state]
    split_ifs with hh
    · subst hh
      simp only [TallyOk, move]
      simp
      omega
    · exact hs.counts h
  · intro a ha b hb hab haB hbR
    rcases mem_of_mem_Modify ha with rfl | ⟨ha1, -⟩
    · -- the new `CANDIDATE_BEST` is above every `CANDIDATE_READY` of its txhash
      rcases mem_of_mem_Modify hb with rfl | ⟨hb1, hbr⟩
      · simp at hbR
      · rcases mem_of_mem_Modify hb1 with rfl | ⟨hb0, hbi⟩
        · exact absurd rfl hbr
        · have hbt : b.m_txhash = it.m_txhash := by simpa using hab.symm
          rcases habove b hb0 hbt hbi with hc | hv
          · simp [hc] at hbR
          · simpa using priority_le_of_ByTxHashView_le siphash hbR rfl hv
    · rcases mem_of_mem_Modify ha1 with rfl | ⟨ha0, -⟩
      · simp at haB
      · rcases mem_of_mem_Modify hb with rfl | ⟨hb1, -⟩
        · simp at hbR
        · rcases mem_of_mem_Modify hb1 with rfl | ⟨hb0, -⟩
          · exact absurd haB (hlow a ha0 (by simpa using hab)).1
          · exact hs.best_priority a ha0 b hb0 hab haB hbR

/-- The promoted announcement takes the selection from the `CANDIDATE_BEST` just above it. -/
theorem Sel.promote_takeover (hs : Sel siphash t.m_index) (hw : Wf t) (hit : it ∈ t.m_index)
    (hd : it.m_state = .CANDIDATE_DELAYED) {n : Announcement τ π ι} (hn : n ∈ t.m_index)
    (hnt : n.m_txhash = it.m_txhash) (hnB : n.m_state = .CANDIDATE_BEST)
    (hprio : Priority siphash n < Priority siphash it)
    (habove : ∀ b ∈ t.m_index, b.m_txhash = it.m_txhash → b ≠ it → b ≠ n → b.m_state = .COMPLETED ∨
      ByTxHashView siphash b ≤ ByTxHashView siphash (setState .CANDIDATE_READY it)) :
    Sel siphash (((t.Modify it (setState .CANDIDATE_READY)).Modify n (setState .CANDIDATE_READY)).Modify
      (setState .CANDIDATE_READY it) (setState .CANDIDATE_BEST)).m_index := by
  have hni : n ≠ it := fun h => by simp [h, hd] at hnB
  have hw1 := hw.Modify hit (keeps_setState .CANDIDATE_READY it)
  have hn1 : n ∈ (t.Modify it (setState .CANDIDATE_READY)).m_index := mem_Modify.mpr (.inr ⟨hn, hni⟩)
  have hw2 := hw1.Modify hn1 (keeps_setState .CANDIDATE_READY n)
  have hrn : setState .CANDIDATE_READY it ≠ n := fun h => hni (hw.eq_of_key hn hit (by rw [← h]; rfl)
    (by rw [← h]; rfl))
  have hr2 : setState .CANDIDATE_READY it ∈
      ((t.Modify it (setState .CANDIDATE_READY)).Modify n (setState .CANDIDATE_READY)).m_index :=
    mem_Modify.mpr (.inr ⟨mem_Modify.mpr (.inl ⟨hit, rfl⟩), hrn⟩)
  have hD := hd ▸ tally_pos hit
  have hB := hnB ▸ hnt ▸ tally_pos hn
  have hok := hs.counts it.m_txhash
  constructor
  · intro h
    rw [hw2.tally_Modify hr2 (keeps_setState _ _), hw1.tally_Modify hn1 (keeps_setState _ _),
      hw.tally_Modify hit (keeps_setState _ _)]
    simp only [setState_m_txhash, setState_m_state, hnt]
    split_ifs with hh
    · subst hh
      simp only [TallyOk, move] at hok ⊢
      simp [hnB] at hok ⊢
      omega
    · exact hs.counts h
  · intro a ha b hb hab haB hbR
    -- the only `CANDIDATE_BEST` of the txhash is the promoted one
    have hsel : ∀ c ∈ t.m_index, c.m_txhash = it.m_txhash → c.IsSelected = true → c = n :=
      fun c hc hct hcs => hs.eq_of_selected hw hn hc (hct.trans hnt.symm) (by simp [hnB]) hcs
    rcases mem_of_mem_Modify ha with rfl | ⟨ha2, -⟩
    · rcases mem_of_mem_Modify hb with rfl | ⟨hb2, hbr⟩
      · simp at hbR
      · rcases mem_of_mem_Modify hb2 with rfl | ⟨hb1, hbn⟩
        · simpa using UInt64.le_of_lt hprio
        · rcases mem_of_mem_Modify hb1 with rfl | ⟨hb0, hbi⟩
          · exact absurd rfl hbr
          · have hbt : b.m_txhash = it.m_txhash := by simpa using hab.symm
            rcases habove b hb0 hbt hbi hbn with hc | hv
            · simp [hc] at hbR
            · simpa using priority_le_of_ByTxHashView_le siphash hbR rfl hv
    · rcases mem_of_mem_Modify ha2 with rfl | ⟨ha1, han⟩
      · simp at haB
      · rcases mem_of_mem_Modify ha1 with rfl | ⟨ha0, -⟩
        · simp at haB
        · -- an older `CANDIDATE_BEST` is of another txhash, as is every `CANDIDATE_READY` with it
          have hat : a.m_txhash ≠ it.m_txhash := fun h => han (hsel a ha0 h (by simp [haB]))
          rcases mem_of_mem_Modify hb with rfl | ⟨hb2, -⟩
          · exact absurd (by simpa using hab) hat
          · rcases mem_of_mem_Modify hb2 with rfl | ⟨hb1, -⟩
            · exact absurd (hab.trans hnt) hat
            · rcases mem_of_mem_Modify hb1 with rfl | ⟨hb0, -⟩
              · exact absurd (by simpa using hab) hat
              · exact hs.best_priority a ha0 b hb0 hab haB hbR

/-- The promoted announcement stays `CANDIDATE_READY` below a selected one. -/
theorem Sel.promote_ready (hs : Sel siphash t.m_index) (hw : Wf t) (hit : it ∈ t.m_index)
    (hd : it.m_state = .CANDIDATE_DELAYED)
    (hsel : ∃ c ∈ t.m_index, c.m_txhash = it.m_txhash ∧ c.IsSelected = true)
    (hprio : ∀ a ∈ t.m_index, a.m_txhash = it.m_txhash → a.m_state = .CANDIDATE_BEST →
      Priority siphash it ≤ Priority siphash a) :
    Sel siphash (t.Modify it (setState .CANDIDATE_READY)).m_index := by
  have hD := hd ▸ tally_pos hit
  obtain ⟨c, hc, hct, hcs⟩ := hsel
  have hS : 0 < countOf t.m_index it.m_txhash IsSelected := hct ▸ countOf_pos hc hcs
  rw [countOf_IsSelected] at hS
  have hok := hs.counts it.m_txhash
  constructor
  · intro h
    rw [hw.tally_Modify hit (keeps_setState _ _)]
    simp only [setState_m_state]
    split_ifs with hh
    · subst hh
      simp only [TallyOk, move] at hok ⊢
      simp [hd] at hok ⊢
      omega
    · exact hs.counts h
  · intro a ha b hb hab haB hbR
    rcases mem_of_mem_Modify ha with rfl | ⟨ha0, -⟩
    · simp at haB
    · rcases mem_of_mem_Modify hb with rfl | ⟨hb0, -⟩
      · simpa using hprio a ha0 (by simpa using hab) haB
      · exact hs.best_priority a ha0 b hb0 hab haB hbR

/-- `PromoteCandidateReady` of a `CANDIDATE_DELAYED` keeps the invariant. -/
theorem Sel.PromoteCandidateReady (hs : Sel siphash t.m_index) (hw : Wf t) (hit : it ∈ t.m_index)
    (hd : it.m_state = .CANDIDATE_DELAYED) :
    Sel siphash (t.PromoteCandidateReady siphash it).m_index := by
  have hmem : ∀ b ∈ t.m_index, b ≠ it → b ∈ (t.Modify it (setState .CANDIDATE_READY)).m_index :=
    fun b hb hbi => mem_Modify.mpr (.inr ⟨hb, hbi⟩)
  simp only [Impl.PromoteCandidateReady]
  rcases hnext : nextByTxHash siphash (t.Modify it (setState .CANDIDATE_READY)).m_index
    (setState .CANDIDATE_READY it) with _ | n
  · -- nothing of the txhash above it
    apply hs.promote_best hw hit hd
    intro b hb hbt hbi
    exact .inr (not_lt.mp (nextByTxHash_eq_none siphash hnext b (hmem b hb hbi) hbt))
  · obtain ⟨hn1, hnt, hlt, hmin⟩ := nextByTxHash_eq_some siphash hnext
    have hnr : n ≠ setState .CANDIDATE_READY it := fun h => lt_irrefl _ (h ▸ hlt)
    obtain ⟨hn, hni⟩ := (mem_of_mem_Modify hn1).resolve_left hnr
    simp only [setState_m_txhash] at hnt
    -- the branch is decided by `n`, and everything above `it` is at or above `n`
    have habove : ∀ b ∈ t.m_index, b.m_txhash = it.m_txhash → b ≠ it →
        ByTxHashView siphash (setState .CANDIDATE_READY it) < ByTxHashView siphash b →
        ByTxHashView siphash n ≤ ByTxHashView siphash b :=
      fun b hb hbt hbi => hmin b (hmem b hb hbi) hbt
    dsimp only
    split_ifs with hC hB hP
    · -- a `COMPLETED` just above: nothing is selected
      apply hs.promote_best hw hit hd
      intro b hb hbt hbi
      by_cases hv : ByTxHashView siphash (setState .CANDIDATE_READY it) < ByTxHashView siphash b
      · have hle := toNat_le_of_ByTxHashView_le siphash (habove b hb hbt hbi hv)
        rw [hC] at hle
        exact .inl (State.toNat_injective (le_antisymm (State.toNat_le_four _) hle))
      · exact .inr (not_lt.mp hv)
    · -- a `CANDIDATE_BEST` of a lower priority: it takes over
      apply hs.promote_takeover hw hit hd hn hnt hB (by simpa using hP)
      intro b hb hbt hbi hbn
      by_cases hv : ByTxHashView siphash (setState .CANDIDATE_READY it) < ByTxHashView siphash b
      · have hle := toNat_le_of_ByTxHashView_le siphash (habove b hb hbt hbi hv)
        rw [hB, toNat_CANDIDATE_BEST] at hle
        refine (completed_or_selected hle).imp_right fun hbs => absurd ?_ hbn
        exact hs.eq_of_selected hw hn hb (hbt.trans hnt.symm) (by simp [hB]) hbs
      · exact .inr (not_lt.mp hv)
    · -- a `CANDIDATE_BEST` of no lower priority: it stays `CANDIDATE_READY`
      apply hs.promote_ready hw hit hd ⟨n, hn, hnt, by simp [hB]⟩
      intro a ha hat haB
      have hna := hs.eq_of_selected hw hn ha (hat.trans hnt.symm) (by simp [hB]) (by simp [haB])
      subst hna
      simpa using UInt64.not_lt.mp hP
    · -- a `CANDIDATE_READY` or a `REQUESTED` just above: it stays `CANDIDATE_READY`
      have hnRQ : n.m_state = .CANDIDATE_READY ∨ n.m_state = .REQUESTED := by
        have h1 := toNat_le_of_ByTxHashView_le siphash hlt.le
        simp only [setState_m_state, toNat_CANDIDATE_READY] at h1
        cases hns : n.m_state <;> simp [hns] at h1 hC hB ⊢
      rcases hnRQ with hnR | hnQ
      · obtain ⟨c, hc, hct, hcs⟩ := hs.exists_selected hn hnR
        apply hs.promote_ready hw hit hd ⟨c, hc, hct.trans hnt, hcs⟩
        intro a ha hat haB
        have h1 : Priority siphash it ≤ Priority siphash n := by
          simpa using priority_le_of_ByTxHashView_le siphash rfl hnR hlt.le
        exact UInt64.le_trans h1 (hs.best_priority a ha n hn (hat.trans hnt.symm) haB hnR)
      · apply hs.promote_ready hw hit hd ⟨n, hn, hnt, by simp [hnQ]⟩
        intro a ha hat haB
        have hna := hs.eq_of_selected hw hn ha (hat.trans hnt.symm) (by simp [hnQ]) (by simp [haB])
        subst hna
        simp [hnQ] at haB

end Promote

/-! ### `ChangeAndReselect` -/

section Reselect

variable {t : Impl τ π ι} {it : Announcement τ π ι} {new_state : State}

/-- The `CANDIDATE_READY` of highest priority takes the selection from `it`. -/
theorem Sel.reselect (hs : Sel siphash t.m_index) (hw : Wf t) (hit : it ∈ t.m_index)
    (hsel : it.IsSelected = true) {p : Announcement τ π ι} (hp : p ∈ t.m_index)
    (hpt : p.m_txhash = it.m_txhash) (hpR : p.m_state = .CANDIDATE_READY)
    (hmax : ∀ b ∈ t.m_index, b.m_txhash = it.m_txhash → b.m_state = .CANDIDATE_READY →
      Priority siphash b ≤ Priority siphash p)
    (hnew : new_state = .COMPLETED ∨ new_state = .CANDIDATE_DELAYED) :
    Sel siphash ((t.Modify p (setState .CANDIDATE_BEST)).Modify it (setState new_state)).m_index := by
  have hpi : p ≠ it := fun h => by subst h; simp [hpR] at hsel
  have hw1 := hw.Modify hp (keeps_setState .CANDIDATE_BEST p)
  have hit1 : it ∈ (t.Modify p (setState .CANDIDATE_BEST)).m_index :=
    mem_Modify.mpr (.inr ⟨hit, fun h => hpi h.symm⟩)
  have hR := hpR ▸ hpt ▸ tally_pos hp
  have hS := hsel
  rw [IsSelected_iff] at hS
  have hI := tally_pos hit
  have hok := hs.counts it.m_txhash
  constructor
  · intro h
    rw [hw1.tally_Modify hit1 (keeps_setState _ _), hw.tally_Modify hp (keeps_setState _ _)]
    simp only [setState_m_state, hpt]
    split_ifs with hh
    · subst hh
      simp only [TallyOk, move] at hok ⊢
      rcases hS with hS | hS <;> rcases hnew with rfl | rfl <;> simp [hS, hpR] at hok hI ⊢ <;> omega
    · exact hs.counts h
  · intro a ha b hb hab haB hbR
    rcases mem_of_mem_Modify ha with rfl | ⟨ha1, hai⟩
    · rcases hnew with rfl | rfl <;> simp at haB
    · rcases mem_of_mem_Modify ha1 with rfl | ⟨ha0, hap⟩
      · -- the new `CANDIDATE_BEST` is the best `CANDIDATE_READY` there was
        rcases mem_of_mem_Modify hb with rfl | ⟨hb1, -⟩
        · rcases hnew with rfl | rfl <;> simp at hbR
        · rcases mem_of_mem_Modify hb1 with rfl | ⟨hb0, -⟩
          · simp at hbR
          · simpa using hmax b hb0 (by simpa [hpt] using hab.symm) hbR
      · -- an older `CANDIDATE_BEST` is of another txhash than `it`, which was selected
        have hat : a.m_txhash ≠ it.m_txhash := fun h =>
          hai (hs.eq_of_selected hw hit ha0 h hsel (by simp [haB]))
        rcases mem_of_mem_Modify hb with rfl | ⟨hb1, -⟩
        · exact absurd (by simpa using hab) hat
        · rcases mem_of_mem_Modify hb1 with rfl | ⟨hb0, -⟩
          · exact absurd (by simpa [hpt] using hab) hat
          · exact hs.best_priority a ha0 b hb0 hab haB hbR

/-- `it` changes to a state that is not selected, with no `CANDIDATE_READY` to take the
selection from it. -/
theorem Sel.change (hs : Sel siphash t.m_index) (hw : Wf t) (hit : it ∈ t.m_index)
    (hready : it.IsSelected = true →
      ∀ b ∈ t.m_index, b.m_txhash = it.m_txhash → b.m_state ≠ .CANDIDATE_READY)
    (hnew : (new_state = .COMPLETED ∧
        ∃ b ∈ t.m_index, b.m_txhash = it.m_txhash ∧ b ≠ it ∧ b.m_state ≠ .COMPLETED) ∨
      new_state = .CANDIDATE_DELAYED) :
    Sel siphash (t.Modify it (setState new_state)).m_index := by
  have hI := tally_pos hit
  have hok := hs.counts it.m_txhash
  constructor
  · intro h
    rw [hw.tally_Modify hit (keeps_setState _ _)]
    simp only [setState_m_state]
    split_ifs with hh
    · subst hh
      simp only [TallyOk, move] at hok ⊢
      rcases hnew with ⟨rfl, b, hb, hbt, hbi, hbc⟩ | rfl
      · -- another announcement of the txhash stays not `COMPLETED`
        have hbpos : 0 < tally (t.Modify it (setState .COMPLETED)).m_index it.m_txhash b.m_state :=
          hbt ▸ tally_pos (mem_Modify.mpr (.inr ⟨hb, hbi⟩))
        rw [hw.tally_Modify hit (keeps_setState _ _)] at hbpos
        simp only [if_true, setState_m_state, move] at hbpos
        by_cases hsel : it.IsSelected = true
        · have hR := tally_eq_zero (hready hsel)
          rw [IsSelected_iff] at hsel
          rcases hsel with hS | hS <;> cases hbs : b.m_state <;>
            simp [hS, hbs] at hok hI hbpos hbc hR ⊢ <;> omega
        · rw [IsSelected_iff] at hsel
          cases his : it.m_state <;> cases hbs : b.m_state <;>
            simp [his, hbs] at hok hI hbpos hbc hsel ⊢ <;> omega
      · by_cases hsel : it.IsSelected = true
        · have hR := tally_eq_zero (hready hsel)
          rw [IsSelected_iff] at hsel
          rcases hsel with hS | hS <;> simp [hS] at hok hI hR ⊢ <;> omega
        · rw [IsSelected_iff] at hsel
          cases his : it.m_state <;> simp [his] at hok hI hsel ⊢ <;> omega
    · exact hs.counts h
  · intro a ha b hb hab haB hbR
    rcases mem_of_mem_Modify ha with rfl | ⟨ha0, -⟩
    · rcases hnew with ⟨rfl, -⟩ | rfl <;> simp at haB
    · rcases mem_of_mem_Modify hb with rfl | ⟨hb0, -⟩
      · rcases hnew with ⟨rfl, -⟩ | rfl <;> simp at hbR
      · exact hs.best_priority a ha0 b hb0 hab haB hbR

/-- A `CANDIDATE_READY` is below a selected announcement in `ByTxHash`. -/
theorem ready_lt_selected {a b : Announcement τ π ι} (hbR : b.m_state = .CANDIDATE_READY)
    (hsel : a.IsSelected = true) : ByTxHashView siphash b < ByTxHashView siphash a := by
  apply ByTxHashView_lt_of_toNat_lt
  rw [IsSelected_iff] at hsel
  rcases hsel with h | h <;> simp [h, hbR]

/-- `ChangeAndReselect` to `CANDIDATE_DELAYED`, or to `COMPLETED` when another announcement of
the txhash is not, keeps the invariant. -/
theorem Sel.ChangeAndReselect (hs : Sel siphash t.m_index) (hw : Wf t) (hit : it ∈ t.m_index)
    (hnew : (new_state = .COMPLETED ∧
        ∃ b ∈ t.m_index, b.m_txhash = it.m_txhash ∧ b ≠ it ∧ b.m_state ≠ .COMPLETED) ∨
      new_state = .CANDIDATE_DELAYED) :
    Sel siphash (t.ChangeAndReselect siphash it new_state).m_index := by
  simp only [Impl.ChangeAndReselect]
  by_cases hsel : it.IsSelected = true
  · rw [if_pos hsel]
    rcases hprev : prevByTxHash siphash t.m_index it with _ | p
    · -- nothing of the txhash below it, so no `CANDIDATE_READY`
      apply hs.change hw hit (fun _ b hb hbt hbR => ?_) hnew
      exact prevByTxHash_eq_none siphash hprev b hb hbt (ready_lt_selected hbR hsel)
    · obtain ⟨hp, hpt, hlt, hmax⟩ := prevByTxHash_eq_some siphash hprev
      dsimp only
      split_ifs with hpR
      · apply hs.reselect hw hit hsel hp hpt hpR (fun b hb hbt hbR => ?_) (hnew.imp_left And.left)
        exact priority_le_of_ByTxHashView_le siphash hbR hpR
          (hmax b hb hbt (ready_lt_selected hbR hsel))
      · -- the announcement just below it is not `CANDIDATE_READY`, so none is
        apply hs.change hw hit (fun _ b hb hbt hbR => ?_) hnew
        have hle := toNat_le_of_ByTxHashView_le siphash (hmax b hb hbt (ready_lt_selected hbR hsel))
        have hlt' := toNat_le_of_ByTxHashView_le siphash hlt.le
        have hpi : p ≠ it := fun h => lt_irrefl _ (h ▸ hlt)
        rw [hbR, toNat_CANDIDATE_READY] at hle
        have h2 : 2 ≤ p.m_state.toNat := by
          cases hps : p.m_state <;> simp [hps] at hle hpR ⊢
        rcases completed_or_selected h2 with hpc | hps
        · rw [IsSelected_iff] at hsel
          rcases hsel with h | h <;> simp [hpc, h] at hlt'
        · exact hpi (hs.eq_of_selected hw hit hp hpt hsel hps)
  · rw [if_neg hsel]
    exact hs.change hw hit (fun h => absurd h hsel) hnew

end Reselect

/-! ### `MakeCompleted` and the erasing loops -/

section Complete

variable {t : Impl τ π ι} {it : Announcement τ π ι}

/-- `IsOnlyNonCompleted` is false when another announcement of the txhash is not `COMPLETED`. -/
theorem exists_of_IsOnlyNonCompleted_eq_false (hc : it.m_state ≠ .COMPLETED)
    (h : t.IsOnlyNonCompleted siphash it = false) :
    ∃ b ∈ t.m_index, b.m_txhash = it.m_txhash ∧ b ≠ it ∧ b.m_state ≠ .COMPLETED := by
  unfold Impl.IsOnlyNonCompleted at h
  rcases hprev : prevByTxHash siphash t.m_index it with _ | p
  · rw [hprev] at h
    rcases hnext : nextByTxHash siphash t.m_index it with _ | n
    · rw [hnext] at h
      cases h
    · rw [hnext] at h
      obtain ⟨hn, hnt, hlt, -⟩ := nextByTxHash_eq_some siphash hnext
      exact ⟨n, hn, hnt, fun h' => lt_irrefl _ (h' ▸ hlt), by simpa using h⟩
  · obtain ⟨hp, hpt, hlt, -⟩ := prevByTxHash_eq_some siphash hprev
    refine ⟨p, hp, hpt, fun h' => lt_irrefl _ (h' ▸ hlt), fun hpc => hc ?_⟩
    have hle := toNat_le_of_ByTxHashView_le siphash hlt.le
    rw [hpc, toNat_COMPLETED] at hle
    exact State.toNat_injective (le_antisymm (State.toNat_le_four _) hle)

theorem mem_rangeByTxHash {txhash : τ} {b : Announcement τ π ι} :
    b ∈ t.rangeByTxHash siphash txhash ↔ b ∈ t.m_index ∧ b.m_txhash = txhash := by
  simp [Impl.rangeByTxHash, ofTxHash]

theorem Wf.nodup_rangeByTxHash (hw : Wf t) (txhash : τ) :
    (t.rangeByTxHash siphash txhash).Nodup :=
  (hw.nodup.filter _).perm (List.mergeSort_perm _ _).symm

theorem Wf.mem_EraseAll_range (hw : Wf t) (txhash : τ) {b : Announcement τ π ι} :
    b ∈ (t.EraseAll (t.rangeByTxHash siphash txhash)).m_index ↔
      b ∈ t.m_index ∧ b.m_txhash ≠ txhash := by
  rw [Impl.EraseAll_m_index, mem_foldl_erase _ hw.nodup, mem_rangeByTxHash]
  tauto

theorem Wf.EraseAll_range (hw : Wf t) (txhash : τ) :
    Wf (t.EraseAll (t.rangeByTxHash siphash txhash)) :=
  hw.EraseAll (hw.nodup_rangeByTxHash txhash) fun _ hb => (mem_rangeByTxHash.mp hb).1

/-- Erasing the range of a txhash leaves the others' announcements, in some order. -/
theorem Wf.perm_EraseAll_range (hw : Wf t) (txhash : τ) :
    (t.EraseAll (t.rangeByTxHash siphash txhash)).m_index.Perm
      (t.m_index.filter (·.m_txhash ≠ txhash)) := by
  rw [List.perm_ext_iff_of_nodup (hw.EraseAll_range txhash).nodup (hw.nodup.filter _)]
  intro b
  rw [hw.mem_EraseAll_range, List.mem_filter, decide_eq_true_iff]

/-- Erasing the range of a txhash empties its tally and leaves the others. -/
theorem Wf.tally_EraseAll_range (hw : Wf t) (txhash txhash' : τ) :
    tally (t.EraseAll (t.rangeByTxHash siphash txhash)).m_index txhash' =
      if txhash' = txhash then fun _ => 0 else tally t.m_index txhash' := by
  funext s
  simp only [tally, countOf, (hw.perm_EraseAll_range txhash).countP_eq, List.countP_filter]
  split_ifs with hh
  · subst hh
    refine List.countP_eq_zero.mpr fun b _ hb => ?_
    simp only [Bool.and_eq_true, decide_eq_true_eq, beq_iff_eq] at hb
    exact hb.2 hb.1.1
  · exact List.countP_congr fun b _ => by
      constructor
      · intro hb
        simp_all
      · intro hb
        simp only [Bool.and_eq_true, decide_eq_true_eq] at hb ⊢
        exact ⟨hb, hb.1 ▸ hh⟩

theorem Sel.EraseAll_range (hs : Sel siphash t.m_index) (hw : Wf t) (txhash : τ) :
    Sel siphash (t.EraseAll (t.rangeByTxHash siphash txhash)).m_index where
  counts txhash' := by
    rw [hw.tally_EraseAll_range]
    split_ifs
    · simp [TallyOk]
    · exact hs.counts txhash'
  best_priority a ha b hb hab haB hbR :=
    hs.best_priority a ((hw.mem_EraseAll_range txhash).mp ha).1 b
      ((hw.mem_EraseAll_range txhash).mp hb).1 hab haB hbR

/-- `MakeCompleted` keeps the invariant. -/
theorem Sel.MakeCompleted (hs : Sel siphash t.m_index) (hw : Wf t) (hit : it ∈ t.m_index) :
    Sel siphash (t.MakeCompleted siphash it).1.m_index := by
  unfold Impl.MakeCompleted
  split_ifs with hc hon
  · exact hs
  · exact hs.EraseAll_range hw it.m_txhash
  · exact hs.ChangeAndReselect hw hit
      (.inl ⟨rfl, exists_of_IsOnlyNonCompleted_eq_false hc (by simpa using hon)⟩)

end Complete

end Trumpow.TxRequest
