import Trumpow.TxRequest.Operations

/-!
# TxRequest — `SanityCheck` never fails

`ComputeTxHashInfo` folds the announcements of a txhash into counts by state, the priority of
the `CANDIDATE_BEST` and the highest priority of a `CANDIDATE_READY`, and the list of peers.  Its
counts are the tally of the txhash (`ComputeTxHashInfo_count`); under `Inv` every assertion of
`SanityCheck` holds, so it holds of every tracker the public operations reach.  The per-peer
statistics behind `CountInFlight`, `CountCandidates` and `Count` are then the counts of the index.
-/

set_option linter.unusedSectionVars false

namespace Trumpow.TxRequest

open Announcement

variable {τ π ι : Type} [LinearOrder τ] [LinearOrder π] [LinearOrder ι]
  {siphash : τ → π → UInt64}

/-! ### The fold of `ComputeTxHashInfo` -/

section Fold

variable (siphash)

theorem foldl_add_count (s : State) (f : TxHashInfo π → Nat)
    (hf : ∀ info (ann : Announcement τ π ι), f (info.add siphash ann) = f info + (ann.m_state == s).toNat)
    (l : List (Announcement τ π ι)) (init : TxHashInfo π) :
    f (l.foldl (TxHashInfo.add siphash) init) = f init + l.countP (·.m_state == s) := by
  induction l generalizing init with
  | nil => rfl
  | cons a l ih =>
    rw [List.foldl_cons, ih, hf, List.countP_cons]
    cases a.m_state == s
    · simp
    · simp only [Bool.toNat_true, if_true]
      omega

theorem foldl_add_peers (l : List (Announcement τ π ι)) (init : TxHashInfo π) :
    (l.foldl (TxHashInfo.add siphash) init).m_peers = init.m_peers ++ l.map (·.m_peer) := by
  induction l generalizing init with
  | nil => simp
  | cons a l ih =>
    rw [List.foldl_cons, ih]
    simp [TxHashInfo.add]

theorem foldl_add_best_of_none (l : List (Announcement τ π ι)) (init : TxHashInfo π)
    (hl : ∀ b ∈ l, b.m_state ≠ .CANDIDATE_BEST) :
    (l.foldl (TxHashInfo.add siphash) init).m_priority_candidate_best =
      init.m_priority_candidate_best := by
  induction l generalizing init with
  | nil => rfl
  | cons a l ih =>
    rw [List.foldl_cons, ih _ fun b hb => hl b (List.mem_cons_of_mem a hb)]
    simp [TxHashInfo.add, hl a List.mem_cons_self]

/-- After a `CANDIDATE_BEST`, the recorded priority is that of one. -/
theorem foldl_add_best (l : List (Announcement τ π ι)) (init : TxHashInfo π)
    (hl : ∃ b ∈ l, b.m_state = .CANDIDATE_BEST) :
    ∃ b ∈ l, b.m_state = .CANDIDATE_BEST ∧
      (l.foldl (TxHashInfo.add siphash) init).m_priority_candidate_best = Priority siphash b := by
  induction l generalizing init with
  | nil => simp at hl
  | cons a l ih =>
    rw [List.foldl_cons]
    by_cases hrest : ∃ b ∈ l, b.m_state = .CANDIDATE_BEST
    · obtain ⟨b, hb, hbB, he⟩ := ih (init.add siphash a) hrest
      exact ⟨b, List.mem_cons_of_mem a hb, hbB, he⟩
    · simp only [not_exists, not_and] at hrest
      obtain ⟨b, hb, hbB⟩ := hl
      have ha : a.m_state = .CANDIDATE_BEST := by
        rcases List.mem_cons.mp hb with rfl | hb
        · exact hbB
        · exact absurd hbB (hrest b hb)
      refine ⟨a, List.mem_cons_self, ha, ?_⟩
      rw [foldl_add_best_of_none siphash l _ hrest]
      simp [TxHashInfo.add, ha]

/-- The highest priority of a `CANDIDATE_READY` is below a bound of all of them. -/
theorem foldl_add_ready_le (l : List (Announcement τ π ι)) (init : TxHashInfo π) (x : UInt64)
    (hinit : init.m_priority_best_candidate_ready ≤ x)
    (hl : ∀ b ∈ l, b.m_state = .CANDIDATE_READY → Priority siphash b ≤ x) :
    (l.foldl (TxHashInfo.add siphash) init).m_priority_best_candidate_ready ≤ x := by
  induction l generalizing init with
  | nil => exact hinit
  | cons a l ih =>
    rw [List.foldl_cons]
    apply ih _ _ fun b hb => hl b (List.mem_cons_of_mem a hb)
    by_cases ha : a.m_state = .CANDIDATE_READY
    · have hax := hl a List.mem_cons_self ha
      simp only [TxHashInfo.add, ha, if_true]
      rw [UInt64.le_iff_toNat_le] at hinit hax ⊢
      rw [UInt64.toNat_max]
      omega
    · simpa [TxHashInfo.add, ha] using hinit

end Fold

theorem countP_ofTxHash (index : List (Announcement τ π ι)) (txhash : τ) (s : State) :
    (ofTxHash index txhash).countP (·.m_state == s) = tally index txhash s := by
  simp only [ofTxHash, List.countP_filter, tally, countOf, Bool.and_comm]

/-- The counts of `ComputeTxHashInfo` are the tally. -/
theorem ComputeTxHashInfo_count (siphash : τ → π → UInt64) (index : List (Announcement τ π ι))
    (txhash : τ) :
    (ComputeTxHashInfo siphash index txhash).m_candidate_delayed = tally index txhash .CANDIDATE_DELAYED ∧
    (ComputeTxHashInfo siphash index txhash).m_candidate_ready = tally index txhash .CANDIDATE_READY ∧
    (ComputeTxHashInfo siphash index txhash).m_candidate_best = tally index txhash .CANDIDATE_BEST ∧
    (ComputeTxHashInfo siphash index txhash).m_requested = tally index txhash .REQUESTED := by
  simp only [ComputeTxHashInfo, ← countP_ofTxHash]
  refine ⟨?_, ?_, ?_, ?_⟩ <;>
    refine (foldl_add_count siphash _ _ (fun info ann => ?_) _ _).trans (Nat.zero_add _) <;> rfl

/-- Under the invariant every assertion of `SanityCheck` holds. -/
theorem Inv.SanityCheck {t : Impl τ π ι} (h : Inv siphash t) : SanityCheck siphash t := by
  refine ⟨h.wf.peerinfo, fun ann hann => ?_⟩
  obtain ⟨hD, hR, hB, hQ⟩ := ComputeTxHashInfo_count siphash t.m_index ann.m_txhash
  have hok := h.sel.counts ann.m_txhash
  have hpos := tally_pos hann
  have hmem : ∀ b, b ∈ ofTxHash t.m_index ann.m_txhash ↔ b ∈ t.m_index ∧ b.m_txhash = ann.m_txhash :=
    fun b => by simp [ofTxHash]
  simp only [TallyOk] at hok
  refine ⟨?_, ?_, ?_, ?_, ?_⟩
  · -- not only `COMPLETED`
    rw [hD, hR, hB, hQ]
    cases hs : ann.m_state <;> rw [hs] at hpos <;> omega
  · rw [hB, hQ]
    exact hok.2.1
  · rw [hR, hB, hQ]
    exact hok.2.2
  · -- the `CANDIDATE_BEST` is above every `CANDIDATE_READY`
    intro _ hBpos
    rw [hB] at hBpos
    obtain ⟨a, ha, hat, haB⟩ := exists_of_tally_pos hBpos
    obtain ⟨b, hb, hbB, he⟩ := foldl_add_best siphash (ofTxHash t.m_index ann.m_txhash) {}
      ⟨a, (hmem a).mpr ⟨ha, hat⟩, haB⟩
    rw [ComputeTxHashInfo, he]
    obtain ⟨hb, hbt⟩ := (hmem b).mp hb
    apply foldl_add_ready_le siphash _ _ _ (UInt64.le_iff_toNat_le.mpr (Nat.zero_le _))
    intro c hc hcR
    obtain ⟨hc, hct⟩ := (hmem c).mp hc
    exact h.sel.best_priority b hb c hc (hbt.trans hct.symm) hbB hcR
  · -- no peer twice
    rw [ComputeTxHashInfo, foldl_add_peers]
    refine List.Nodup.map_on (fun a ha b hb hab => ?_) (h.wf.nodup.filter _)
    obtain ⟨ha, hat⟩ := (hmem a).mp ha
    obtain ⟨hb, hbt⟩ := (hmem b).mp hb
    exact h.wf.eq_of_key ha hb hab (hat.trans hbt.symm)

/-- In every tracker the public operations reach, `SanityCheck` passes. -/
theorem SanityCheck_reachable {t : Impl τ π ι} (h : Transition.Reachable (Step siphash) Impl.init t) :
    SanityCheck siphash t :=
  (Inv.reachable h).SanityCheck

/-- Two announcements of one transaction, the second from a preferred peer, and a request of it. -/
theorem SanityCheck_reachable_requested :
    let siphash := fun (txhash peer : Nat) => UInt64.ofNat (txhash + 3 * peer)
    let t := ((((Impl.init : Impl Nat Nat Nat).ReceivedInv 1 5 false 10).ReceivedInv 2 5 true 20
      ).GetRequestable siphash 2 25).2.2.RequestedTx siphash 2 5 100
    Transition.Reachable (Step siphash) Impl.init t ∧ SanityCheck siphash t := by
  intro siphash t
  have hr : Transition.Reachable (Step siphash) Impl.init t :=
    (((Transition.Reachable.refl.tail (.ReceivedInv _ _ _ _ _)).tail (.ReceivedInv _ _ _ _ _)).tail
      (.GetRequestable _ _ _)).tail (.RequestedTx _ _ _ _)
  exact ⟨hr, SanityCheck_reachable hr⟩

/-- A peer's announcements are its candidates, its requests and its completed ones. -/
theorem countP_peer_eq (index : List (Announcement τ π ι)) (peer : π) :
    index.countP (·.m_peer = peer) =
      index.countP (fun ann => ann.m_peer = peer ∧ (ann.m_state = .CANDIDATE_DELAYED ∨
        ann.m_state = .CANDIDATE_READY ∨ ann.m_state = .CANDIDATE_BEST)) +
      index.countP (fun ann => ann.m_peer = peer ∧ ann.m_state = .REQUESTED) +
      index.countP (fun ann => ann.m_peer = peer ∧ ann.m_state = .COMPLETED) := by
  induction index with
  | nil => rfl
  | cons a l ih =>
    simp only [List.countP_cons, ih]
    -- one announcement lands in exactly one of the three counts, if it is the peer's
    by_cases hp : a.m_peer = peer <;> cases a.m_state <;> simp [hp] <;> omega

/-- In every tracker the public operations reach, `Count`, `CountInFlight` and `CountCandidates`
count the peer's announcements, those of them `REQUESTED`, and its candidates. -/
theorem Count_reachable {t : Impl τ π ι} (h : Transition.Reachable (Step siphash) Impl.init t)
    (peer : π) :
    t.Count peer = t.m_index.countP (·.m_peer = peer) ∧
    t.CountInFlight peer = t.m_index.countP (fun ann => ann.m_peer = peer ∧ ann.m_state = .REQUESTED) ∧
    t.CountCandidates peer = t.m_index.countP (fun ann => ann.m_peer = peer ∧
      (ann.m_state = .CANDIDATE_DELAYED ∨ ann.m_state = .CANDIDATE_READY ∨
        ann.m_state = .CANDIDATE_BEST)) := by
  have hp := (Inv.reachable h).wf.peerinfo peer
  refine ⟨by rw [Impl.Count, hp]; rfl, by rw [Impl.CountInFlight, hp]; rfl, ?_⟩
  -- the candidates are what `RecomputePeerInfo` leaves out of the total
  have hsplit := countP_peer_eq t.m_index peer
  rw [Impl.CountCandidates, hp]
  simp only [RecomputePeerInfo]
  omega

/-- After a request, the requesting peer has one announcement in flight and one candidate left. -/
theorem Count_reachable_requested :
    let siphash := fun (txhash peer : Nat) => UInt64.ofNat (txhash + 3 * peer)
    let t := ((((Impl.init : Impl Nat Nat Nat).ReceivedInv 1 5 false 10).ReceivedInv 1 6 false 20
      ).GetRequestable siphash 1 25).2.2.RequestedTx siphash 1 5 100
    Transition.Reachable (Step siphash) Impl.init t ∧
      t.Count 1 = t.m_index.countP (·.m_peer = 1) ∧
      t.CountInFlight 1 = t.m_index.countP (fun ann => ann.m_peer = 1 ∧ ann.m_state = .REQUESTED) ∧
      t.CountCandidates 1 = t.m_index.countP (fun ann => ann.m_peer = 1 ∧
        (ann.m_state = .CANDIDATE_DELAYED ∨ ann.m_state = .CANDIDATE_READY ∨
          ann.m_state = .CANDIDATE_BEST)) := by
  intro siphash t
  have hr : Transition.Reachable (Step siphash) Impl.init t :=
    (((Transition.Reachable.refl.tail (.ReceivedInv _ _ _ _ _)).tail (.ReceivedInv _ _ _ _ _)).tail
      (.GetRequestable _ _ _)).tail (.RequestedTx _ _ _ _)
  exact ⟨hr, Count_reachable hr 1⟩

end Trumpow.TxRequest
