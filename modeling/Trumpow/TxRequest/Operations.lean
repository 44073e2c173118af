import Trumpow.TxRequest.Invariant
import Trumpow.Support.Transition

/-!
# TxRequest — the operations keep the invariant

`Inv` holds of the empty tracker and every public operation keeps it, so it holds of every
tracker a sequence of calls reaches (`Inv.reachable`).  The composite steps keep `Wf` by keeping
their iterators in the index; `DisconnectedPeer` visits announcements of one peer, which are of
distinct txhashes, so completing one leaves the others where they were.
-/

set_option linter.unusedSectionVars false

namespace Trumpow.TxRequest

open Announcement Replace

variable {τ π ι : Type} [LinearOrder τ] [LinearOrder π] [LinearOrder ι]
  {siphash : τ → π → UInt64} {t : Impl τ π ι} {it : Announcement τ π ι}

/-! ### What the composite steps can do -/

/-- `PromoteCandidateReady` makes `it` `CANDIDATE_BEST`, alone or over the `CANDIDATE_BEST` `n` of
its txhash, which becomes `CANDIDATE_READY`; or it makes `it` `CANDIDATE_READY`. -/
theorem PromoteCandidateReady_cases (siphash : τ → π → UInt64) (t : Impl τ π ι)
    (it : Announcement τ π ι) :
    t.PromoteCandidateReady siphash it = (t.Modify it (setState .CANDIDATE_READY)).Modify
        (setState .CANDIDATE_READY it) (setState .CANDIDATE_BEST) ∨
    (∃ n ∈ (t.Modify it (setState .CANDIDATE_READY)).m_index, n ≠ setState .CANDIDATE_READY it ∧
      n.m_txhash = it.m_txhash ∧ n.m_state = .CANDIDATE_BEST ∧
      t.PromoteCandidateReady siphash it = ((t.Modify it (setState .CANDIDATE_READY)).Modify n
        (setState .CANDIDATE_READY)).Modify (setState .CANDIDATE_READY it) (setState .CANDIDATE_BEST)) ∨
    t.PromoteCandidateReady siphash it = t.Modify it (setState .CANDIDATE_READY) := by
  simp only [Impl.PromoteCandidateReady]
  rcases hnext : nextByTxHash siphash (t.Modify it (setState .CANDIDATE_READY)).m_index
    (setState .CANDIDATE_READY it) with _ | n
  · exact .inl rfl
  · obtain ⟨hn1, hnt, hlt, -⟩ := nextByTxHash_eq_some siphash hnext
    dsimp only
    split_ifs with hC hB
    · exact .inl rfl
    · exact .inr (.inl ⟨n, hn1, fun h => lt_irrefl _ (h ▸ hlt), hnt, hB, rfl⟩)
    · exact .inr (.inr rfl)
    · exact .inr (.inr rfl)

/-- `ChangeAndReselect` changes `it`, after making the `CANDIDATE_READY` `p` of its txhash
`CANDIDATE_BEST`, or alone. -/
theorem ChangeAndReselect_cases (siphash : τ → π → UInt64) (t : Impl τ π ι)
    (it : Announcement τ π ι) (new_state : State) :
    (∃ p ∈ t.m_index, p ≠ it ∧ p.m_txhash = it.m_txhash ∧ p.m_state = .CANDIDATE_READY ∧
      t.ChangeAndReselect siphash it new_state =
        (t.Modify p (setState .CANDIDATE_BEST)).Modify it (setState new_state)) ∨
    t.ChangeAndReselect siphash it new_state = t.Modify it (setState new_state) := by
  simp only [Impl.ChangeAndReselect]
  split_ifs
  · rcases hprev : prevByTxHash siphash t.m_index it with _ | p
    · exact .inr rfl
    · obtain ⟨hp, hpt, hlt, -⟩ := prevByTxHash_eq_some siphash hprev
      dsimp only
      split_ifs with hpR
      · exact .inl ⟨p, hp, fun h => lt_irrefl _ (h ▸ hlt), hpt, hpR, rfl⟩
      · exact .inr rfl
  · exact .inr rfl

/-- `MakeCompleted` leaves a `COMPLETED`, erases the range of the last non-`COMPLETED` of a
txhash, or completes `it` with `ChangeAndReselect`. -/
theorem MakeCompleted_cases (siphash : τ → π → UInt64) (t : Impl τ π ι)
    (it : Announcement τ π ι) :
    (it.m_state = .COMPLETED ∧ t.MakeCompleted siphash it = (t, true)) ∨
    (it.m_state ≠ .COMPLETED ∧ t.IsOnlyNonCompleted siphash it = true ∧
      t.MakeCompleted siphash it = (t.EraseAll (t.rangeByTxHash siphash it.m_txhash), false)) ∨
    (it.m_state ≠ .COMPLETED ∧ t.IsOnlyNonCompleted siphash it = false ∧
      t.MakeCompleted siphash it = (t.ChangeAndReselect siphash it .COMPLETED, true)) := by
  unfold Impl.MakeCompleted
  split_ifs with hc hon
  · exact .inl ⟨hc, rfl⟩
  · exact .inr (.inl ⟨hc, hon, rfl⟩)
  · exact .inr (.inr ⟨hc, by simpa using hon, rfl⟩)

/-! ### The composite steps keep the invariant -/

theorem Wf.PromoteCandidateReady (hw : Wf t) (hit : it ∈ t.m_index) :
    Wf (t.PromoteCandidateReady siphash it) := by
  have hw1 := hw.Modify hit (keeps_setState .CANDIDATE_READY it)
  have hr1 : setState .CANDIDATE_READY it ∈ (t.Modify it (setState .CANDIDATE_READY)).m_index :=
    mem_Modify.mpr (.inl ⟨hit, rfl⟩)
  rcases PromoteCandidateReady_cases siphash t it
    with h | ⟨n, hn1, hnr, -, -, h⟩ | h <;> rw [h]
  · exact hw1.Modify hr1 (keeps_setState _ _)
  · exact (hw1.Modify hn1 (keeps_setState _ _)).Modify (mem_Modify.mpr (.inr ⟨hr1, Ne.symm hnr⟩))
      (keeps_setState _ _)
  · exact hw1

theorem Wf.ChangeAndReselect (hw : Wf t) (hit : it ∈ t.m_index) (new_state : State) :
    Wf (t.ChangeAndReselect siphash it new_state) := by
  rcases ChangeAndReselect_cases siphash t it new_state
    with ⟨p, hp, hpi, -, -, h⟩ | h <;> rw [h]
  · exact (hw.Modify hp (keeps_setState _ _)).Modify (mem_Modify.mpr (.inr ⟨hit, Ne.symm hpi⟩))
      (keeps_setState _ _)
  · exact hw.Modify hit (keeps_setState _ _)

theorem Wf.MakeCompleted (hw : Wf t) (hit : it ∈ t.m_index) :
    Wf (t.MakeCompleted siphash it).1 := by
  rcases MakeCompleted_cases siphash t it
    with ⟨-, h⟩ | ⟨-, -, h⟩ | ⟨-, -, h⟩ <;> rw [h]
  · exact hw
  · exact hw.EraseAll_range _
  · exact hw.ChangeAndReselect hit _

theorem Inv.PromoteCandidateReady (h : Inv siphash t) (hit : it ∈ t.m_index)
    (hd : it.m_state = .CANDIDATE_DELAYED) : Inv siphash (t.PromoteCandidateReady siphash it) :=
  ⟨h.wf.PromoteCandidateReady hit, h.sel.PromoteCandidateReady h.wf hit hd⟩

theorem Inv.ChangeAndReselect_DELAYED (h : Inv siphash t) (hit : it ∈ t.m_index) :
    Inv siphash (t.ChangeAndReselect siphash it .CANDIDATE_DELAYED) :=
  ⟨h.wf.ChangeAndReselect hit _, h.sel.ChangeAndReselect h.wf hit (.inr rfl)⟩

theorem Inv.MakeCompleted (h : Inv siphash t) (hit : it ∈ t.m_index) :
    Inv siphash (t.MakeCompleted siphash it).1 :=
  ⟨h.wf.MakeCompleted hit, h.sel.MakeCompleted h.wf hit⟩

/-! ### What the composite steps leave in place -/

theorem mem_Modify_of_ne {f : Announcement τ π ι → Announcement τ π ι} {b : Announcement τ π ι}
    (hb : b ∈ t.m_index) (hbi : b ≠ it) : b ∈ (t.Modify it f).m_index :=
  mem_Modify.mpr (.inr ⟨hb, hbi⟩)

/-- `ChangeAndReselect` changes nothing of another txhash. -/
theorem mem_ChangeAndReselect_of_ne {new_state : State} {b : Announcement τ π ι}
    (hb : b ∈ t.m_index) (hbt : b.m_txhash ≠ it.m_txhash) :
    b ∈ (t.ChangeAndReselect siphash it new_state).m_index := by
  have hbi : b ≠ it := fun h => hbt (h ▸ rfl)
  rcases ChangeAndReselect_cases siphash t it new_state
    with ⟨p, -, -, hpt, -, h⟩ | h <;> rw [h]
  · exact mem_Modify_of_ne (mem_Modify_of_ne hb fun h' => hbt (h' ▸ hpt)) hbi
  · exact mem_Modify_of_ne hb hbi

/-- `MakeCompleted` changes nothing of another txhash. -/
theorem Wf.mem_MakeCompleted_of_ne (hw : Wf t) {b : Announcement τ π ι} (hb : b ∈ t.m_index)
    (hbt : b.m_txhash ≠ it.m_txhash) : b ∈ (t.MakeCompleted siphash it).1.m_index := by
  rcases MakeCompleted_cases siphash t it
    with ⟨-, h⟩ | ⟨-, -, h⟩ | ⟨-, -, h⟩ <;> rw [h]
  · exact hb
  · exact (hw.mem_EraseAll_range _).mpr ⟨hb, hbt⟩
  · exact mem_ChangeAndReselect_of_ne hb hbt

/-- `ChangeAndReselect` leaves `it` in its new state. -/
theorem mem_ChangeAndReselect (hit : it ∈ t.m_index) (new_state : State) :
    setState new_state it ∈ (t.ChangeAndReselect siphash it new_state).m_index := by
  rcases ChangeAndReselect_cases siphash t it new_state
    with ⟨p, -, hpi, -, -, h⟩ | h <;> rw [h]
  · exact mem_Modify.mpr (.inl ⟨mem_Modify_of_ne hit (Ne.symm hpi), rfl⟩)
  · exact mem_Modify.mpr (.inl ⟨hit, rfl⟩)

/-- `MakeCompleted` that reports the announcement still there leaves it `COMPLETED`. -/
theorem mem_MakeCompleted_of_snd (hit : it ∈ t.m_index) (h : (t.MakeCompleted siphash it).2 = true) :
    setState .COMPLETED it ∈ (t.MakeCompleted siphash it).1.m_index := by
  rcases MakeCompleted_cases siphash t it
    with ⟨hc, he⟩ | ⟨-, -, he⟩ | ⟨-, -, he⟩ <;> rw [he] at h ⊢
  · have hself : setState .COMPLETED it = it := by
      cases it
      simp only [setState] at hc ⊢
      rw [hc]
    rw [hself]
    exact hit
  · cases h
  · exact mem_ChangeAndReselect hit _

/-! ### Erasing a `COMPLETED` announcement -/

theorem tally_erase {index : List (Announcement τ π ι)} {c : Announcement τ π ι} (hc : c ∈ index)
    (txhash : τ) (s : State) :
    tally (index.erase c) txhash s + (if c.m_txhash = txhash ∧ c.m_state = s then 1 else 0) =
      tally index txhash s := by
  have := countP_erase_add (fun ann => decide (ann.m_txhash = txhash) && (ann.m_state == s)) hc
  simpa [tally, countOf] using this

/-- Erasing a `COMPLETED` announcement keeps the invariant. -/
theorem Sel.Erase_completed (hs : Sel siphash t.m_index) {c : Announcement τ π ι}
    (hc : c ∈ t.m_index) (hcC : c.m_state = .COMPLETED) : Sel siphash (t.Erase c).m_index where
  counts txhash := by
    have hok := hs.counts txhash
    have e := fun s => tally_erase hc txhash s
    simp only [Impl.Erase_m_index]
    simp only [TallyOk] at hok ⊢
    have eD := e .CANDIDATE_DELAYED
    have eR := e .CANDIDATE_READY
    have eB := e .CANDIDATE_BEST
    have eQ := e .REQUESTED
    have eC := e .COMPLETED
    simp only [hcC, reduceCtorEq, and_false, if_false, Nat.add_zero, and_true] at eD eR eB eQ eC
    rw [eD, eR, eB, eQ]
    split_ifs at eC <;> omega
  best_priority a ha b hb :=
    hs.best_priority a (List.mem_of_mem_erase ha) b (List.mem_of_mem_erase hb)

theorem Inv.Erase_completed (h : Inv siphash t) {c : Announcement τ π ι} (hc : c ∈ t.m_index)
    (hcC : c.m_state = .COMPLETED) : Inv siphash (t.Erase c) :=
  ⟨h.wf.Erase hc, h.sel.Erase_completed hc hcC⟩

/-! ### `RequestedTx` -/

section Request

variable (expiry : ι)

theorem keeps_requested (a : Announcement τ π ι) :
    Keeps a { a with m_state := .REQUESTED, m_time := expiry } :=
  ⟨rfl, rfl, rfl, rfl⟩

/-- The selected announcements of a txhash other than `it`: none, when only `it` may be. -/
theorem tally_selected_of_others (hw : Wf t) (hit : it ∈ t.m_index)
    (hothers : ∀ b ∈ t.m_index, b.m_txhash = it.m_txhash → b ≠ it → b.IsSelected = false) :
    tally t.m_index it.m_txhash .CANDIDATE_BEST + tally t.m_index it.m_txhash .REQUESTED =
      if it.IsSelected then 1 else 0 := by
  rw [← countOf_IsSelected]
  have e := countP_erase_add (fun ann => decide (ann.m_txhash = it.m_txhash) && ann.IsSelected) hit
  have hz : (t.m_index.erase it).countP
      (fun ann => decide (ann.m_txhash = it.m_txhash) && ann.IsSelected) = 0 := by
    refine List.countP_eq_zero.mpr fun b hb hbs => ?_
    rw [hw.nodup.mem_erase_iff] at hb
    simp only [Bool.and_eq_true, decide_eq_true_eq] at hbs
    simp [hothers b hb.2 hbs.1 hb.1] at hbs
  simp only [hz, decide_true, Bool.true_and, Nat.zero_add] at e
  rw [countOf, ← e]

/-- A request for `it` when nothing else of its txhash is selected. -/
theorem Sel.request (hs : Sel siphash t.m_index) (hw : Wf t) (hit : it ∈ t.m_index)
    (hnc : it.m_state ≠ .COMPLETED)
    (hothers : ∀ b ∈ t.m_index, b.m_txhash = it.m_txhash → b ≠ it → b.IsSelected = false) :
    Sel siphash (t.Modify it fun ann => { ann with m_state := .REQUESTED, m_time := expiry }).m_index := by
  have hI := tally_pos hit
  have hsel := tally_selected_of_others hw hit hothers
  have hok := hs.counts it.m_txhash
  constructor
  · intro h
    rw [hw.tally_Modify hit (keeps_requested expiry it)]
    split_ifs with hh
    · subst hh
      simp only [TallyOk, move] at hok ⊢
      cases his : it.m_state <;> simp [his, IsSelected] at hok hI hsel hnc ⊢ <;> omega
    · exact hs.counts h
  · intro a ha b hb hab haB hbR
    rcases mem_of_mem_Modify ha with rfl | ⟨ha0, hai⟩
    · simp at haB
    · -- a `CANDIDATE_BEST` left is of another txhash
      have hat : a.m_txhash ≠ it.m_txhash := fun h' => by
        have := hothers a ha0 h' hai
        simp [IsSelected, haB] at this
      rcases mem_of_mem_Modify hb with rfl | ⟨hb0, -⟩
      · exact absurd hab hat
      · exact hs.best_priority a ha0 b hb0 hab haB hbR

/-- A request for a candidate `it` over the selected `o` of its txhash, which gives way. -/
theorem Sel.request_over (hs : Sel siphash t.m_index) (hw : Wf t) (hit : it ∈ t.m_index)
    (hdr : it.m_state = .CANDIDATE_DELAYED ∨ it.m_state = .CANDIDATE_READY)
    {o : Announcement τ π ι} (ho : o ∈ t.m_index) (hot : o.m_txhash = it.m_txhash) {s' : State}
    (hs' : (o.m_state = .CANDIDATE_BEST ∧ s' = .CANDIDATE_READY) ∨
      (o.m_state = .REQUESTED ∧ s' = .COMPLETED)) :
    Sel siphash ((t.Modify o (setState s')).Modify it
      fun ann => { ann with m_state := .REQUESTED, m_time := expiry }).m_index := by
  have hos : o.IsSelected = true := by rcases hs' with ⟨h', -⟩ | ⟨h', -⟩ <;> simp [h']
  have hio : it ≠ o := fun h' => by rw [h'] at hdr; rcases hs' with ⟨h', -⟩ | ⟨h', -⟩ <;> simp_all
  have hw1 := hw.Modify ho (keeps_setState s' o)
  have hit1 : it ∈ (t.Modify o (setState s')).m_index := mem_Modify_of_ne hit hio
  have hI := tally_pos hit
  have hO := hot ▸ tally_pos ho
  have hok := hs.counts it.m_txhash
  constructor
  · intro h
    rw [hw1.tally_Modify hit1 (keeps_requested expiry it), hw.tally_Modify ho (keeps_setState _ _)]
    simp only [setState_m_state, hot]
    split_ifs with hh
    · subst hh
      simp only [TallyOk, move] at hok ⊢
      rcases hdr with hd | hd <;> rcases hs' with ⟨h1, rfl⟩ | ⟨h1, rfl⟩ <;>
        simp [hd, h1] at hok hI hO ⊢ <;> omega
    · exact hs.counts h
  · intro a ha b hb hab haB hbR
    rcases mem_of_mem_Modify ha with rfl | ⟨ha1, -⟩
    · simp at haB
    · rcases mem_of_mem_Modify ha1 with rfl | ⟨ha0, hao⟩
      · rcases hs' with ⟨-, rfl⟩ | ⟨-, rfl⟩ <;> simp at haB
      · -- a `CANDIDATE_BEST` left is of another txhash, as `o` was selected
        have hat : a.m_txhash ≠ it.m_txhash := fun h' =>
          hao (hs.eq_of_selected hw ho ha0 (h'.trans hot.symm) hos (by simp [haB]))
        rcases mem_of_mem_Modify hb with rfl | ⟨hb1, -⟩
        · exact absurd hab hat
        · rcases mem_of_mem_Modify hb1 with rfl | ⟨hb0, -⟩
          · exact absurd (hab.trans hot) hat
          · exact hs.best_priority a ha0 b hb0 hab haB hbR

theorem Inv.RequestedTx (h : Inv siphash t) (peer : π) (txhash : τ) :
    Inv siphash (t.RequestedTx siphash peer txhash expiry) := by
  unfold Impl.RequestedTx
  rcases h1 : findByPeer t.m_index peer true txhash with _ | it
  · rcases h2 : findByPeer t.m_index peer false txhash with _ | it
    · exact h
    · obtain ⟨hit, -, -, hitt⟩ := findByPeer_eq_some h2
      dsimp only
      split_ifs with hst
      · exact h
      · have hdr : it.m_state = .CANDIDATE_DELAYED ∨ it.m_state = .CANDIDATE_READY := by
          rw [not_and_or, not_not, not_not] at hst
          exact hst
        have hnc : it.m_state ≠ .COMPLETED := by rcases hdr with h' | h' <;> simp [h']
        have hcand : it.IsSelected = false := by rcases hdr with h' | h' <;> simp [IsSelected, h']
        rcases ho : lowerBoundBest siphash t.m_index txhash with _ | o
        · -- nothing of the txhash at or above `CANDIDATE_BEST`
          have hlow := lowerBoundBest_eq_none siphash ho
          refine ⟨h.wf.Modify hit (keeps_requested expiry it), h.sel.request expiry h.wf hit hnc ?_⟩
          intro b hb hbt _
          have := hlow b hb (hbt.trans hitt)
          cases hbs : b.m_state <;> simp [hbs, IsSelected] at this ⊢
        · obtain ⟨ho, hot, ho2, homin⟩ := lowerBoundBest_eq_some siphash ho
          have hio : it ≠ o := fun h' => by
            rw [← h'] at ho2
            rcases hdr with h'' | h'' <;> simp [h''] at ho2
          dsimp only
          split_ifs with hoB hoQ
          · exact ⟨(h.wf.Modify ho (keeps_setState _ _)).Modify (mem_Modify_of_ne hit hio)
              (keeps_requested expiry it),
              h.sel.request_over expiry h.wf hit hdr ho (hot.trans hitt.symm) (.inl ⟨hoB, rfl⟩)⟩
          · exact ⟨(h.wf.Modify ho (keeps_setState _ _)).Modify (mem_Modify_of_ne hit hio)
              (keeps_requested expiry it),
              h.sel.request_over expiry h.wf hit hdr ho (hot.trans hitt.symm) (.inr ⟨hoQ, rfl⟩)⟩
          · -- the least of the txhash at or above `CANDIDATE_BEST` is `COMPLETED`: nothing selected
            refine ⟨h.wf.Modify hit (keeps_requested expiry it),
              h.sel.request expiry h.wf hit hnc ?_⟩
            intro b hb hbt _
            by_contra hbs
            rw [Bool.not_eq_false, IsSelected_iff] at hbs
            have hle := toNat_le_of_ByTxHashView_le siphash (homin b hb (hbt.trans hitt)
              (by rcases hbs with h' | h' <;> simp [h']))
            have ho4 : o.m_state = .COMPLETED := by
              rcases completed_or_selected ho2 with h' | h'
              · exact h'
              · rw [IsSelected_iff] at h'
                tauto
            rw [ho4] at hle
            rcases hbs with h' | h' <;> simp [h'] at hle
  · obtain ⟨hit, -, hb, hitt⟩ := findByPeer_eq_some h1
    have hB : it.m_state = .CANDIDATE_BEST := by simpa using hb
    dsimp only
    refine ⟨h.wf.Modify hit (keeps_requested expiry it),
      h.sel.request expiry h.wf hit (by simp [hB]) ?_⟩
    intro b hb hbt hbi
    by_contra hbs
    exact hbi (h.sel.eq_of_selected h.wf hit hb hbt (by simp [hB]) (by simpa using hbs))

end Request

/-! ### The other public operations -/

theorem Inv.ReceivedInv (h : Inv siphash t) (peer : π) (txhash : τ) (preferred : Bool)
    (reqtime : ι) : Inv siphash (t.ReceivedInv peer txhash preferred reqtime) := by
  unfold Impl.ReceivedInv
  split_ifs with h1 h2
  · exact h
  · exact h
  · have hnone := not_mem_of_findByPeer (Option.not_isSome_iff_eq_none.mp h1)
      (Option.not_isSome_iff_eq_none.mp h2)
    have hw := h.wf
    constructor
    · constructor
      · intro q
        dsimp only
        rw [Function.update_apply]
        split_ifs with hq
        · subst hq
          rw [hw.peerinfo]
          apply PeerInfo.ext' <;> simp [List.countP_append]
        · rw [hw.peerinfo]
          apply PeerInfo.ext' <;> simp [List.countP_append, Ne.symm hq]
      · simp only [List.map_append, List.map_cons, List.map_nil, List.nodup_append, List.nodup_cons,
          List.not_mem_nil, not_false_eq_true, List.nodup_nil, and_self, true_and, List.mem_cons,
          or_false, List.mem_map]
        refine ⟨hw.unique, ?_⟩
        rintro _ ⟨a, ha, rfl⟩ _ rfl heq
        simp only [key, Prod.mk.injEq] at heq
        exact hnone a ha heq.1 heq.2
      · intro ann hann
        rcases List.mem_append.mp hann with ha | ha
        · exact Nat.lt_succ_of_lt (hw.sequence_lt ann ha)
        · rw [List.mem_singleton.mp ha]
          exact Nat.lt_succ_self _
      · simp only [List.map_append, List.map_cons, List.map_nil, List.nodup_append, List.nodup_cons,
          List.not_mem_nil, not_false_eq_true, List.nodup_nil, and_self, true_and, List.mem_cons,
          or_false, List.mem_map]
        refine ⟨hw.sequence_unique, ?_⟩
        rintro _ ⟨a, ha, rfl⟩ _ rfl heq
        exact absurd heq (Nat.ne_of_lt (hw.sequence_lt a ha))
    · constructor
      · intro h'
        have hok := h.sel.counts h'
        simp only [TallyOk, tally_append] at hok ⊢
        split_ifs <;> simp_all
      · intro a ha b hb hab haB hbR
        rcases List.mem_append.mp ha with ha | ha
        · rcases List.mem_append.mp hb with hb | hb
          · exact h.sel.best_priority a ha b hb hab haB hbR
          · rw [List.mem_singleton.mp hb] at hbR
            cases hbR
        · rw [List.mem_singleton.mp ha] at haB
          cases haB

theorem Inv.ForgetTxHash (h : Inv siphash t) (txhash : τ) :
    Inv siphash (t.ForgetTxHash siphash txhash) :=
  ⟨h.wf.EraseAll_range txhash, h.sel.EraseAll_range h.wf txhash⟩

theorem Inv.ReceivedResponse (h : Inv siphash t) (peer : π) (txhash : τ) :
    Inv siphash (t.ReceivedResponse siphash peer txhash) := by
  unfold Impl.ReceivedResponse
  rcases hf : (findByPeer t.m_index peer false txhash).or (findByPeer t.m_index peer true txhash)
    with _ | it
  · exact h
  · have hit : it ∈ t.m_index := by
      rcases Option.or_eq_some_iff.mp hf with hf | ⟨-, hf⟩
      · exact (findByPeer_eq_some hf).1
      · exact (findByPeer_eq_some hf).1
    exact h.MakeCompleted hit

/-- The loop of `DisconnectedPeer` over announcements of the index of distinct txhashes. -/
theorem Inv.foldl_disconnect (anns : List (Announcement τ π ι)) :
    ∀ t : Impl τ π ι, Inv siphash t → (∀ a ∈ anns, a ∈ t.m_index) →
      (anns.map (·.m_txhash)).Nodup →
      Inv siphash (anns.foldl (fun t it =>
        let r := t.MakeCompleted siphash it
        if r.2 then r.1.Erase (setState .COMPLETED it) else r.1) t) := by
  induction anns with
  | nil => exact fun t h _ _ => h
  | cons a anns ih =>
    intro t h hmem hnd
    rw [List.map_cons, List.nodup_cons, List.mem_map] at hnd
    have ha := hmem a List.mem_cons_self
    -- the others are of other txhashes, so `a` being completed leaves them
    have hrest : ∀ b ∈ anns, b ∈ (t.MakeCompleted siphash a).1.m_index ∧
        b.m_txhash ≠ a.m_txhash := fun b hb =>
      have hbt : b.m_txhash ≠ a.m_txhash := fun h' => hnd.1 ⟨b, hb, h'⟩
      ⟨h.wf.mem_MakeCompleted_of_ne (hmem b (List.mem_cons_of_mem a hb)) hbt, hbt⟩
    rw [List.foldl_cons]
    apply ih _ _ _ hnd.2
    · dsimp only
      split_ifs with hr
      · exact (h.MakeCompleted ha).Erase_completed (mem_MakeCompleted_of_snd ha hr) rfl
      · exact h.MakeCompleted ha
    · intro b hb
      dsimp only
      split_ifs
      · rw [Impl.Erase_m_index]
        exact (List.mem_erase_of_ne fun h' : b = setState .COMPLETED a =>
          (hrest b hb).2 (by rw [h']; rfl)).mpr (hrest b hb).1
      · exact (hrest b hb).1

theorem Inv.DisconnectedPeer (h : Inv siphash t) (peer : π) :
    Inv siphash (t.DisconnectedPeer siphash peer) := by
  unfold Impl.DisconnectedPeer
  have hperm := List.mergeSort_perm (t.m_index.filter (·.m_peer = peer))
    (fun a b => decide (ByPeerView a ≤ ByPeerView b))
  apply h.foldl_disconnect _ t
  · intro a ha
    exact (List.mem_filter.mp (hperm.subset ha)).1
  · rw [(hperm.map _).nodup_iff]
    refine h.wf.nodup_txhash peer (h.wf.nodup.filter _) fun a ha => ?_
    simpa using ha

/-! ### `SetTimePoint` -/

theorem Inv.SetTimePointForward (now : ι) (fuel : Nat) :
    ∀ (t : Impl τ π ι) (expired : List (π × τ)), Inv siphash t →
      Inv siphash (Impl.SetTimePointForward siphash now fuel t expired).1 := by
  induction fuel with
  | zero => exact fun t _ h => h
  | succ fuel ih =>
    intro t expired h
    simp only [Impl.SetTimePointForward]
    rcases hf : firstByTime t.m_index with _ | it
    · exact h
    · have hit : it ∈ t.m_index := List.argmin_mem hf
      dsimp only
      split_ifs with hd hq
      · exact ih _ _ (h.PromoteCandidateReady hit hd.1)
      · exact ih _ _ (h.MakeCompleted hit)
      · exact h

theorem Inv.SetTimePointBackward (now : ι) (fuel : Nat) :
    ∀ t : Impl τ π ι, Inv siphash t → Inv siphash (Impl.SetTimePointBackward siphash now fuel t) := by
  induction fuel with
  | zero => exact fun t h => h
  | succ fuel ih =>
    intro t h
    simp only [Impl.SetTimePointBackward]
    rcases hl : lastByTime t.m_index with _ | it
    · exact h
    · have hit : it ∈ t.m_index := List.argmax_mem hl
      dsimp only
      split_ifs
      · exact ih _ (h.ChangeAndReselect_DELAYED hit)
      · exact h

theorem Inv.SetTimePoint (h : Inv siphash t) (now : ι) : Inv siphash (t.SetTimePoint siphash now).1 :=
  Inv.SetTimePointBackward now _ _ (Inv.SetTimePointForward now _ _ _ h)

theorem Inv.GetRequestable (h : Inv siphash t) (peer : π) (now : ι) :
    Inv siphash (t.GetRequestable siphash peer now).2.2 :=
  h.SetTimePoint now

/-! ### Every reachable tracker -/

theorem Inv.init : Inv siphash (Impl.init : Impl τ π ι) where
  wf := Wf.init
  sel := ⟨fun _ => by simp [TallyOk, tally, countOf, Impl.init], fun _ h => absurd h List.not_mem_nil⟩

theorem Inv.step (h : Inv siphash t) {t' : Impl τ π ι} (hs : Step siphash t t') : Inv siphash t' := by
  cases hs with
  | ReceivedInv peer txhash preferred reqtime => exact h.ReceivedInv peer txhash preferred reqtime
  | DisconnectedPeer peer => exact h.DisconnectedPeer peer
  | ForgetTxHash txhash => exact h.ForgetTxHash txhash
  | GetRequestable peer now => exact h.GetRequestable peer now
  | RequestedTx peer txhash expiry => exact h.RequestedTx expiry peer txhash
  | ReceivedResponse peer txhash => exact h.ReceivedResponse peer txhash

/-- Every tracker a sequence of calls reaches keeps the invariant. -/
theorem Inv.reachable (h : Transition.Reachable (Step siphash) Impl.init t) : Inv siphash t :=
  Transition.Reachable.invariant Inv.init (fun _ _ _ hs hstep => hs.step hstep) h

end Trumpow.TxRequest
