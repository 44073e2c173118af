import Trumpow.TxRequest.Tracker
import Trumpow.Support.Replace

/-!
# TxRequest — the index and its wrappers

What `Modify`, `Erase` and `EraseAll` do to the index, and `Wf`, what each of them keeps on its
own: distinct (peer, txhash), the per-peer counts of `RecomputePeerInfo`, and sequence numbers
that are distinct and below the next one.  `Modify` keeps them for a modifier that changes only
the state and the time (`Keeps`), `Erase` for an announcement of the index.

The second half is the order of `ByTxHash` within one txhash: what `nextByTxHash`,
`prevByTxHash` and `lowerBoundBest` return, and how views compare by state and priority.
-/

set_option linter.unusedSectionVars false

namespace Trumpow.TxRequest

open Announcement Replace

variable {τ π ι : Type} [LinearOrder τ] [LinearOrder π] [LinearOrder ι]

/-- A modification that changes only the state and the time. -/
structure Keeps (a a' : Announcement τ π ι) : Prop where
  txhash : a'.m_txhash = a.m_txhash
  peer : a'.m_peer = a.m_peer
  sequence : a'.m_sequence = a.m_sequence
  preferred : a'.m_preferred = a.m_preferred

theorem keeps_setState (s : State) (a : Announcement τ π ι) : Keeps a (setState s a) :=
  ⟨rfl, rfl, rfl, rfl⟩

theorem Keeps.priority {a a' : Announcement τ π ι} (h : Keeps a a') (siphash : τ → π → UInt64) :
    Priority siphash a' = Priority siphash a := by
  simp only [Priority, h.txhash, h.peer, h.preferred]

@[simp] theorem setState_m_state (s : State) (a : Announcement τ π ι) : (setState s a).m_state = s :=
  rfl

@[simp] theorem setState_m_txhash (s : State) (a : Announcement τ π ι) :
    (setState s a).m_txhash = a.m_txhash := rfl

@[simp] theorem setState_m_peer (s : State) (a : Announcement τ π ι) :
    (setState s a).m_peer = a.m_peer := rfl

@[simp] theorem setState_m_time (s : State) (a : Announcement τ π ι) :
    (setState s a).m_time = a.m_time := rfl

@[simp] theorem setState_m_sequence (s : State) (a : Announcement τ π ι) :
    (setState s a).m_sequence = a.m_sequence := rfl

theorem setState_ne {s : State} {a : Announcement τ π ι} (h : a.m_state ≠ s) : setState s a ≠ a :=
  fun h' => h (h' ▸ rfl)

@[simp] theorem setState_setState (s s' : State) (a : Announcement τ π ι) :
    setState s' (setState s a) = setState s' a := rfl

theorem toNat_beq (s s' : State) : (s == s').toNat = if s = s' then 1 else 0 := by
  by_cases h : s = s' <;> simp [h]

/-! ### The wrappers -/

namespace Impl

variable (t : Impl τ π ι) (it : Announcement τ π ι)

@[simp] theorem Modify_m_index (f : Announcement τ π ι → Announcement τ π ι) :
    (t.Modify it f).m_index = t.m_index.map (replace it (f it)) := rfl

@[simp] theorem Modify_m_current_sequence (f : Announcement τ π ι → Announcement τ π ι) :
    (t.Modify it f).m_current_sequence = t.m_current_sequence := rfl

theorem Modify_m_peerinfo (f : Announcement τ π ι → Announcement τ π ι) :
    (t.Modify it f).m_peerinfo = Function.update t.m_peerinfo it.m_peer
      { t.m_peerinfo it.m_peer with
        m_completed := (t.m_peerinfo it.m_peer).m_completed - (it.m_state == .COMPLETED).toNat +
          ((f it).m_state == .COMPLETED).toNat
        m_requested := (t.m_peerinfo it.m_peer).m_requested - (it.m_state == .REQUESTED).toNat +
          ((f it).m_state == .REQUESTED).toNat } := rfl

@[simp] theorem Erase_m_index : (t.Erase it).m_index = t.m_index.erase it := rfl

theorem Erase_m_peerinfo :
    (t.Erase it).m_peerinfo = Function.update t.m_peerinfo it.m_peer
      (if (t.m_peerinfo it.m_peer).m_total - 1 = 0 then {} else
        { m_total := (t.m_peerinfo it.m_peer).m_total - 1
          m_completed := (t.m_peerinfo it.m_peer).m_completed - (it.m_state == .COMPLETED).toNat
          m_requested := (t.m_peerinfo it.m_peer).m_requested - (it.m_state == .REQUESTED).toNat }) :=
  rfl

@[simp] theorem Erase_m_current_sequence :
    (t.Erase it).m_current_sequence = t.m_current_sequence := rfl

@[simp] theorem EraseAll_m_index (anns : List (Announcement τ π ι)) :
    (t.EraseAll anns).m_index = anns.foldl List.erase t.m_index := by
  induction anns generalizing t with
  | nil => rfl
  | cons a anns ih => rw [EraseAll, ih, Erase_m_index, List.foldl_cons]

@[simp] theorem EraseAll_m_current_sequence (anns : List (Announcement τ π ι)) :
    (t.EraseAll anns).m_current_sequence = t.m_current_sequence := by
  induction anns generalizing t with
  | nil => rfl
  | cons a anns ih => rw [EraseAll, ih, Erase_m_current_sequence]

end Impl

@[simp] theorem RecomputePeerInfo_m_total (index : List (Announcement τ π ι)) (peer : π) :
    (RecomputePeerInfo index peer).m_total = index.countP (·.m_peer = peer) := rfl

@[simp] theorem RecomputePeerInfo_m_completed (index : List (Announcement τ π ι)) (peer : π) :
    (RecomputePeerInfo index peer).m_completed =
      index.countP fun ann => ann.m_peer = peer ∧ ann.m_state = .COMPLETED := rfl

@[simp] theorem RecomputePeerInfo_m_requested (index : List (Announcement τ π ι)) (peer : π) :
    (RecomputePeerInfo index peer).m_requested =
      index.countP fun ann => ann.m_peer = peer ∧ ann.m_state = .REQUESTED := rfl

theorem PeerInfo.ext' {i j : PeerInfo} (h1 : i.m_total = j.m_total)
    (h2 : i.m_completed = j.m_completed) (h3 : i.m_requested = j.m_requested) : i = j := by
  cases i
  cases j
  simp only at h1 h2 h3
  rw [h1, h2, h3]

/-- A peer has at least as many announcements as completed ones. -/
theorem completed_le_total (index : List (Announcement τ π ι)) (peer : π) :
    (RecomputePeerInfo index peer).m_completed ≤ (RecomputePeerInfo index peer).m_total := by
  simp only [RecomputePeerInfo_m_completed, RecomputePeerInfo_m_total]
  exact List.countP_mono_left fun x _ hx => by simp_all

theorem requested_le_total (index : List (Announcement τ π ι)) (peer : π) :
    (RecomputePeerInfo index peer).m_requested ≤ (RecomputePeerInfo index peer).m_total := by
  simp only [RecomputePeerInfo_m_requested, RecomputePeerInfo_m_total]
  exact List.countP_mono_left fun x _ hx => by simp_all

/-! ### What every wrapper keeps -/

/-- The key of `ByPeer` without the state: at most one announcement of a txhash by a peer. -/
def key (ann : Announcement τ π ι) : π × τ := (ann.m_peer, ann.m_txhash)

/-- What the wrappers keep on their own. -/
structure Wf (t : Impl τ π ι) : Prop where
  peerinfo : ∀ peer, t.m_peerinfo peer = RecomputePeerInfo t.m_index peer
  unique : (t.m_index.map key).Nodup
  sequence_lt : ∀ ann ∈ t.m_index, ann.m_sequence < t.m_current_sequence
  sequence_unique : (t.m_index.map (·.m_sequence)).Nodup

namespace Wf

variable {t : Impl τ π ι} {it : Announcement τ π ι}

theorem nodup (h : Wf t) : t.m_index.Nodup := h.unique.of_map _

theorem eq_of_key (h : Wf t) {a b : Announcement τ π ι} (ha : a ∈ t.m_index) (hb : b ∈ t.m_index)
    (hp : a.m_peer = b.m_peer) (ht : a.m_txhash = b.m_txhash) : a = b :=
  List.inj_on_of_nodup_map h.unique ha hb (by rw [key, key, hp, ht])

/-- Announcements of one peer are of distinct txhashes. -/
theorem nodup_txhash (h : Wf t) (peer : π) {l : List (Announcement τ π ι)} (hl : l.Nodup)
    (hsub : ∀ a ∈ l, a ∈ t.m_index ∧ a.m_peer = peer) : (l.map (·.m_txhash)).Nodup :=
  hl.map_on fun a ha b hb hab =>
    h.eq_of_key (hsub a ha).1 (hsub b hb).1 ((hsub a ha).2.trans (hsub b hb).2.symm) hab

/-- The modified announcement is new to the index. -/
theorem not_mem_of_keeps (h : Wf t) (hit : it ∈ t.m_index) {it' : Announcement τ π ι}
    (hk : Keeps it it') (hne : it' ≠ it) : it' ∉ t.m_index :=
  fun hin => hne (h.eq_of_key hin hit hk.peer hk.txhash)

theorem peerinfo_Modify (h : Wf t) (hit : it ∈ t.m_index) {f : Announcement τ π ι → Announcement τ π ι}
    (hk : Keeps it (f it)) (peer : π) :
    (t.Modify it f).m_peerinfo peer = RecomputePeerInfo (t.Modify it f).m_index peer := by
  have hnd := h.nodup
  have htot := countP_map_replace (fun ann => decide (ann.m_peer = peer)) hnd hit (f it)
  have hcomp := countP_map_replace (fun ann => decide (ann.m_peer = peer ∧ ann.m_state = .COMPLETED))
    hnd hit (f it)
  have hreq := countP_map_replace (fun ann => decide (ann.m_peer = peer ∧ ann.m_state = .REQUESTED))
    hnd hit (f it)
  rw [Impl.Modify_m_index, Impl.Modify_m_peerinfo, Function.update_apply, h.peerinfo]
  split_ifs with hp
  · -- the peer of the announcement: its counts move with the state
    subst hp
    have hc0 := countP_erase_add
      (fun ann => decide (ann.m_peer = it.m_peer ∧ ann.m_state = .COMPLETED)) hit
    have hr0 := countP_erase_add
      (fun ann => decide (ann.m_peer = it.m_peer ∧ ann.m_state = .REQUESTED)) hit
    simp only [hk.peer, decide_eq_true_eq, true_and, if_true] at htot hcomp hreq hc0 hr0
    apply PeerInfo.ext'
    · simp only [RecomputePeerInfo_m_total]
      omega
    · simp only [RecomputePeerInfo_m_completed, toNat_beq]
      omega
    · simp only [RecomputePeerInfo_m_requested, toNat_beq]
      omega
  · -- another peer: nothing it counts changes
    have hp' : (f it).m_peer ≠ peer := by rw [hk.peer]; exact Ne.symm hp
    simp only [Ne.symm hp, hp', decide_eq_true_eq, false_and, if_false, Nat.add_zero]
      at htot hcomp hreq
    rw [h.peerinfo]
    exact PeerInfo.ext' htot.symm hcomp.symm hreq.symm

theorem Modify (h : Wf t) (hit : it ∈ t.m_index) {f : Announcement τ π ι → Announcement τ π ι}
    (hk : Keeps it (f it)) : Wf (t.Modify it f) where
  peerinfo := h.peerinfo_Modify hit hk
  unique := by
    rw [Impl.Modify_m_index, map_map_replace key (by rw [key, key, hk.peer, hk.txhash])]
    exact h.unique
  sequence_lt := by
    intro ann hann
    rcases mem_map_replace.mp hann with ⟨-, rfl⟩ | ⟨hann, -⟩
    · rw [hk.sequence]
      exact h.sequence_lt it hit
    · exact h.sequence_lt ann hann
  sequence_unique := by
    rw [Impl.Modify_m_index,
      map_map_replace (fun ann : Announcement τ π ι => ann.m_sequence) hk.sequence]
    exact h.sequence_unique

theorem peerinfo_Erase (h : Wf t) (hit : it ∈ t.m_index) (peer : π) :
    (t.Erase it).m_peerinfo peer = RecomputePeerInfo (t.Erase it).m_index peer := by
  have htot := countP_erase_add (fun ann => decide (ann.m_peer = peer)) hit
  have hcomp := countP_erase_add (fun ann => decide (ann.m_peer = peer ∧ ann.m_state = .COMPLETED)) hit
  have hreq := countP_erase_add (fun ann => decide (ann.m_peer = peer ∧ ann.m_state = .REQUESTED)) hit
  have hc := completed_le_total (t.m_index.erase it) peer
  have hr := requested_le_total (t.m_index.erase it) peer
  simp only [RecomputePeerInfo_m_completed, RecomputePeerInfo_m_requested,
    RecomputePeerInfo_m_total] at hc hr
  rw [Impl.Erase_m_index, Impl.Erase_m_peerinfo, Function.update_apply, h.peerinfo]
  split_ifs with hp hz
  · -- the peer's last announcement: the entry goes, and the recount is zero
    subst hp
    simp only [RecomputePeerInfo_m_total, decide_eq_true_eq, true_and, if_true] at htot hcomp hreq hz
    apply PeerInfo.ext'
    · simp only [RecomputePeerInfo_m_total]
      omega
    · simp only [RecomputePeerInfo_m_completed]
      omega
    · simp only [RecomputePeerInfo_m_requested]
      omega
  · subst hp
    simp only [decide_eq_true_eq, true_and, if_true] at htot hcomp hreq
    apply PeerInfo.ext'
    · simp only [RecomputePeerInfo_m_total]
      omega
    · simp only [RecomputePeerInfo_m_completed, toNat_beq]
      omega
    · simp only [RecomputePeerInfo_m_requested, toNat_beq]
      omega
  · simp only [Ne.symm hp, decide_eq_true_eq, false_and, if_false, Nat.add_zero] at htot hcomp hreq
    rw [h.peerinfo]
    exact PeerInfo.ext' htot.symm hcomp.symm hreq.symm

theorem Erase (h : Wf t) (hit : it ∈ t.m_index) : Wf (t.Erase it) where
  peerinfo := h.peerinfo_Erase hit
  unique := by
    rw [Impl.Erase_m_index]
    exact h.unique.sublist (List.erase_sublist.map key)
  sequence_lt := fun ann hann => h.sequence_lt ann (List.mem_of_mem_erase hann)
  sequence_unique := by
    rw [Impl.Erase_m_index]
    exact h.sequence_unique.sublist (List.erase_sublist.map _)

/-- Erasing distinct announcements of the index one by one. -/
theorem EraseAll (h : Wf t) {anns : List (Announcement τ π ι)} (hnd : anns.Nodup)
    (hsub : ∀ a ∈ anns, a ∈ t.m_index) : Wf (t.EraseAll anns) := by
  induction anns generalizing t with
  | nil => exact h
  | cons a anns ih =>
    rw [List.nodup_cons] at hnd
    have ha := hsub a List.mem_cons_self
    apply ih (h.Erase ha) hnd.2
    intro b hb
    rw [Impl.Erase_m_index, h.nodup.mem_erase_iff]
    exact ⟨fun hba => hnd.1 (hba ▸ hb), hsub b (List.mem_cons_of_mem a hb)⟩

end Wf

theorem Wf.init : Wf (Impl.init : Impl τ π ι) where
  peerinfo := fun _ => rfl
  unique := List.nodup_nil
  sequence_lt := fun _ h => absurd h List.not_mem_nil
  sequence_unique := List.nodup_nil

/-! ### The order of `ByTxHash` within one txhash -/

section Order

variable (siphash : τ → π → UInt64) {index : List (Announcement τ π ι)} {it n : Announcement τ π ι}

@[simp] theorem toNat_CANDIDATE_DELAYED : State.CANDIDATE_DELAYED.toNat = 0 := rfl
@[simp] theorem toNat_CANDIDATE_READY : State.CANDIDATE_READY.toNat = 1 := rfl
@[simp] theorem toNat_CANDIDATE_BEST : State.CANDIDATE_BEST.toNat = 2 := rfl
@[simp] theorem toNat_REQUESTED : State.REQUESTED.toNat = 3 := rfl
@[simp] theorem toNat_COMPLETED : State.COMPLETED.toNat = 4 := rfl

theorem State.toNat_injective {s s' : State} (h : s.toNat = s'.toNat) : s = s' := by
  cases s <;> cases s' <;> first | rfl | simp at h

theorem ByTxHashView_lt_of_toNat_lt {a b : Announcement τ π ι}
    (h : a.m_state.toNat < b.m_state.toNat) : ByTxHashView siphash a < ByTxHashView siphash b :=
  Prod.Lex.toLex_lt_toLex.mpr (.inl h)

theorem toNat_le_of_ByTxHashView_le {a b : Announcement τ π ι}
    (h : ByTxHashView siphash a ≤ ByTxHashView siphash b) : a.m_state.toNat ≤ b.m_state.toNat := by
  by_contra hlt
  exact absurd h (not_le.mpr (ByTxHashView_lt_of_toNat_lt siphash (not_le.mp hlt)))

/-- Among `CANDIDATE_READY` announcements the view follows the priority. -/
theorem priority_le_of_ByTxHashView_le {a b : Announcement τ π ι}
    (ha : a.m_state = .CANDIDATE_READY) (hb : b.m_state = .CANDIDATE_READY)
    (h : ByTxHashView siphash a ≤ ByTxHashView siphash b) : Priority siphash a ≤ Priority siphash b := by
  rw [UInt64.le_iff_toNat_le]
  simp only [ByTxHashView, ha, hb, if_true, Prod.Lex.toLex_le_toLex, lt_self_iff_false,
    true_and, false_or] at h
  rcases h with h | ⟨h, -⟩ <;> omega

theorem peer_eq_of_ByTxHashView_eq {a b : Announcement τ π ι}
    (h : ByTxHashView siphash a = ByTxHashView siphash b) : a.m_peer = b.m_peer :=
  congrArg (fun v => (ofLex (ofLex v).2).2) h

theorem nextByTxHash_eq_some (h : nextByTxHash siphash index it = some n) :
    n ∈ index ∧ n.m_txhash = it.m_txhash ∧ ByTxHashView siphash it < ByTxHashView siphash n ∧
      ∀ b ∈ index, b.m_txhash = it.m_txhash → ByTxHashView siphash it < ByTxHashView siphash b →
        ByTxHashView siphash n ≤ ByTxHashView siphash b := by
  rw [nextByTxHash, List.argmin_eq_some_iff] at h
  obtain ⟨hmem, hmin, -⟩ := h
  simp only [ofTxHash, List.mem_filter, decide_eq_true_eq] at hmem
  refine ⟨hmem.1.1, hmem.1.2, hmem.2, fun b hb hbt hlt => hmin b ?_⟩
  simp only [ofTxHash, List.mem_filter, decide_eq_true_eq]
  exact ⟨⟨hb, hbt⟩, hlt⟩

theorem nextByTxHash_eq_none (h : nextByTxHash siphash index it = none) :
    ∀ b ∈ index, b.m_txhash = it.m_txhash → ¬ ByTxHashView siphash it < ByTxHashView siphash b := by
  rw [nextByTxHash, List.argmin_eq_none, List.filter_eq_nil_iff] at h
  intro b hb hbt hlt
  apply h b
  · simp only [ofTxHash, List.mem_filter, decide_eq_true_eq]
    exact ⟨hb, hbt⟩
  · exact decide_eq_true hlt

theorem prevByTxHash_eq_some (h : prevByTxHash siphash index it = some n) :
    n ∈ index ∧ n.m_txhash = it.m_txhash ∧ ByTxHashView siphash n < ByTxHashView siphash it ∧
      ∀ b ∈ index, b.m_txhash = it.m_txhash → ByTxHashView siphash b < ByTxHashView siphash it →
        ByTxHashView siphash b ≤ ByTxHashView siphash n := by
  rw [prevByTxHash, List.argmax_eq_some_iff] at h
  obtain ⟨hmem, hmax, -⟩ := h
  simp only [ofTxHash, List.mem_filter, decide_eq_true_eq] at hmem
  refine ⟨hmem.1.1, hmem.1.2, hmem.2, fun b hb hbt hlt => hmax b ?_⟩
  simp only [ofTxHash, List.mem_filter, decide_eq_true_eq]
  exact ⟨⟨hb, hbt⟩, hlt⟩

theorem prevByTxHash_eq_none (h : prevByTxHash siphash index it = none) :
    ∀ b ∈ index, b.m_txhash = it.m_txhash → ¬ ByTxHashView siphash b < ByTxHashView siphash it := by
  rw [prevByTxHash, List.argmax_eq_none, List.filter_eq_nil_iff] at h
  intro b hb hbt hlt
  apply h b
  · simp only [ofTxHash, List.mem_filter, decide_eq_true_eq]
    exact ⟨hb, hbt⟩
  · exact decide_eq_true hlt

theorem lowerBoundBest_eq_some {txhash : τ} (h : lowerBoundBest siphash index txhash = some n) :
    n ∈ index ∧ n.m_txhash = txhash ∧ 2 ≤ n.m_state.toNat ∧
      ∀ b ∈ index, b.m_txhash = txhash → 2 ≤ b.m_state.toNat →
        ByTxHashView siphash n ≤ ByTxHashView siphash b := by
  rw [lowerBoundBest, List.argmin_eq_some_iff] at h
  obtain ⟨hmem, hmin, -⟩ := h
  simp only [ofTxHash, List.mem_filter, decide_eq_true_eq] at hmem
  refine ⟨hmem.1.1, hmem.1.2, hmem.2, fun b hb hbt hlt => hmin b ?_⟩
  simp only [ofTxHash, List.mem_filter, decide_eq_true_eq]
  exact ⟨⟨hb, hbt⟩, hlt⟩

theorem lowerBoundBest_eq_none {txhash : τ} (h : lowerBoundBest siphash index txhash = none) :
    ∀ b ∈ index, b.m_txhash = txhash → b.m_state.toNat < 2 := by
  rw [lowerBoundBest, List.argmin_eq_none, List.filter_eq_nil_iff] at h
  intro b hb hbt
  by_contra hlt
  apply h b
  · simp only [ofTxHash, List.mem_filter, decide_eq_true_eq]
    exact ⟨hb, hbt⟩
  · exact decide_eq_true (not_lt.mp hlt)

end Order

/-! ### Lookups in `ByPeer` -/

section Find

variable {index : List (Announcement τ π ι)} {peer : π} {best : Bool} {txhash : τ}

theorem findByPeer_eq_some {a : Announcement τ π ι} (h : findByPeer index peer best txhash = some a) :
    a ∈ index ∧ a.m_peer = peer ∧ (a.m_state == .CANDIDATE_BEST) = best ∧ a.m_txhash = txhash := by
  have hp := List.find?_some h
  simp only [Bool.and_eq_true, decide_eq_true_eq, beq_iff_eq] at hp
  exact ⟨List.mem_of_find?_eq_some h, hp.1.1, by simpa using hp.1.2, hp.2⟩

theorem findByPeer_eq_none (h : findByPeer index peer best txhash = none) :
    ∀ a ∈ index, a.m_peer = peer → a.m_txhash = txhash → (a.m_state == .CANDIDATE_BEST) ≠ best := by
  intro a ha hap hat hb
  have := List.find?_eq_none.mp h a ha
  simp [hap, hat, hb] at this

/-- No announcement of `txhash` by `peer`, when neither lookup finds one. -/
theorem not_mem_of_findByPeer (h1 : findByPeer index peer true txhash = none)
    (h2 : findByPeer index peer false txhash = none) :
    ∀ a ∈ index, a.m_peer = peer → a.m_txhash ≠ txhash := by
  intro a ha hap hat
  have e1 := findByPeer_eq_none h1 a ha hap hat
  have e2 := findByPeer_eq_none h2 a ha hap hat
  cases hb : a.m_state == .CANDIDATE_BEST <;> simp [hb] at e1 e2

end Find

end Trumpow.TxRequest
