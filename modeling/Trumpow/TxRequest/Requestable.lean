import Trumpow.TxRequest.Sanity

/-!
# TxRequest — `SetTimePoint` and `GetRequestable`

`SetTimePoint` runs two loops over `ByTime`.  The forward loop takes the earliest announcement
while it is `CANDIDATE_DELAYED` or `REQUESTED` and due; each of its steps leaves one waiting
announcement less (`Wf.countP_waiting_PromoteCandidateReady`, `Wf.countP_waiting_MakeCompleted`).
The backward loop takes the latest while it is selectable and in the future; each of its steps
leaves one of those less (`Wf.countP_late_ChangeAndReselect`).  So the fuel of the model, the
size of the index, never runs out before a loop stops by itself, and where a loop stops the
`ByTime` order says that nothing waiting is due (`NoneDue`) and nothing selectable lies in the
future (`NoneEarly`): the assertions of `PostGetRequestableSanityCheck`.

Under the invariant this says which txhashes `GetRequestable` returns: those whose selectable
announcement from the peer is the best of its txhash with nothing of it in flight, each once,
in announcement order; and a peer that is not preferred is given a txhash only while no
preferred peer's announcement of it is selectable.
-/

set_option linter.unusedSectionVars false

namespace Trumpow.TxRequest

open Announcement Replace

variable {τ π ι : Type} [LinearOrder τ] [LinearOrder π] [LinearOrder ι]
  {siphash : τ → π → UInt64}

/-! ### Counts through `Modify` -/

section Counts

variable {t : Impl τ π ι} {it : Announcement τ π ι} {f : Announcement τ π ι → Announcement τ π ι}
  (p : Announcement τ π ι → Bool)

theorem Wf.countP_Modify_of_eq (hw : Wf t) (hit : it ∈ t.m_index) (h : p (f it) = p it) :
    (t.Modify it f).m_index.countP p = t.m_index.countP p := by
  have := countP_map_replace p hw.nodup hit (f it)
  rw [h] at this
  rw [Impl.Modify_m_index]
  omega

theorem Wf.countP_Modify_add_one (hw : Wf t) (hit : it ∈ t.m_index) (h : p it = true)
    (h' : p (f it) = false) : (t.Modify it f).m_index.countP p + 1 = t.m_index.countP p := by
  have := countP_map_replace p hw.nodup hit (f it)
  rw [h, h'] at this
  rw [Impl.Modify_m_index]
  simpa using this

end Counts

/-! ### Each step of a loop removes what the loop looks for -/

section Measure

variable (siphash) {t : Impl τ π ι} {it : Announcement τ π ι}

/-- Promoting a `CANDIDATE_DELAYED` leaves one waiting announcement less: the announcement it
may demote is `CANDIDATE_BEST`, not waiting before or after. -/
theorem Wf.countP_waiting_PromoteCandidateReady (hw : Wf t) (hit : it ∈ t.m_index)
    (hd : it.m_state = .CANDIDATE_DELAYED) :
    (t.PromoteCandidateReady siphash it).m_index.countP IsWaiting + 1 =
      t.m_index.countP IsWaiting := by
  have hw1 := hw.Modify hit (keeps_setState .CANDIDATE_READY it)
  have hr1 : setState .CANDIDATE_READY it ∈ (t.Modify it (setState .CANDIDATE_READY)).m_index :=
    mem_Modify.mpr (.inl ⟨hit, rfl⟩)
  have e1 := hw.countP_Modify_add_one IsWaiting hit (f := setState .CANDIDATE_READY)
    (by simp [IsWaiting, hd]) (by simp +decide [IsWaiting])
  rcases PromoteCandidateReady_cases siphash t it
    with h | ⟨n, hn1, hnr, -, hnB, h⟩ | h <;> rw [h]
  · rw [hw1.countP_Modify_of_eq IsWaiting hr1 (by simp +decide [IsWaiting])]
    exact e1
  · have hw2 := hw1.Modify hn1 (keeps_setState .CANDIDATE_READY n)
    have hr2 := mem_Modify_of_ne hr1 (Ne.symm hnr) (f := setState .CANDIDATE_READY)
    rw [hw2.countP_Modify_of_eq IsWaiting hr2 (by simp +decide [IsWaiting]),
      hw1.countP_Modify_of_eq IsWaiting hn1 (by simp +decide [IsWaiting, hnB])]
    exact e1
  · exact e1

/-- Completing a `REQUESTED` leaves at least one waiting announcement less. -/
theorem Wf.countP_waiting_MakeCompleted (hw : Wf t) (hit : it ∈ t.m_index)
    (hq : it.m_state = .REQUESTED) :
    (t.MakeCompleted siphash it).1.m_index.countP IsWaiting + 1 ≤ t.m_index.countP IsWaiting := by
  have hwi : it.IsWaiting = true := by simp [IsWaiting, hq]
  rcases MakeCompleted_cases siphash t it
    with ⟨hc, -⟩ | ⟨-, -, h⟩ | ⟨-, -, h⟩
  · simp [hq] at hc
  · -- the range of the txhash goes, and `it` with it
    rw [h, (hw.perm_EraseAll_range _).countP_eq]
    exact countP_filter_add_one_le _ _ hit hwi (by simp)
  · rw [h]
    rcases ChangeAndReselect_cases siphash t it .COMPLETED
      with ⟨p, hp, hpi, -, hpR, h'⟩ | h' <;> rw [h']
    · -- the `CANDIDATE_READY` that takes over is not waiting before or after
      have hw1 := hw.Modify hp (keeps_setState .CANDIDATE_BEST p)
      rw [← hw.countP_Modify_of_eq IsWaiting hp (f := setState .CANDIDATE_BEST)
        (by simp +decide [IsWaiting, hpR])]
      exact (hw1.countP_Modify_add_one IsWaiting (mem_Modify_of_ne hit (Ne.symm hpi)) hwi
        (by simp +decide [IsWaiting])).le
    · exact (hw.countP_Modify_add_one IsWaiting hit hwi (by simp +decide [IsWaiting])).le

/-- Selectable with a time after `now`: what the backward loop of `SetTimePoint` demotes. -/
def IsLate (now : ι) (ann : Announcement τ π ι) : Bool := ann.IsSelectable && decide (now < ann.m_time)

/-- Demoting a late announcement leaves one late announcement less: the one that takes over is
selectable before and after, at the same time. -/
theorem Wf.countP_late_ChangeAndReselect (hw : Wf t) (hit : it ∈ t.m_index) (now : ι)
    (hl : IsLate now it = true) :
    (t.ChangeAndReselect siphash it .CANDIDATE_DELAYED).m_index.countP (IsLate now) + 1 =
      t.m_index.countP (IsLate now) := by
  have hd : IsLate now (setState .CANDIDATE_DELAYED it) = false := by simp +decide [IsLate, IsSelectable]
  rcases ChangeAndReselect_cases siphash t it .CANDIDATE_DELAYED
    with ⟨p, hp, hpi, -, hpR, h⟩ | h <;> rw [h]
  · have hw1 := hw.Modify hp (keeps_setState .CANDIDATE_BEST p)
    rw [hw1.countP_Modify_add_one (IsLate now) (mem_Modify_of_ne hit (Ne.symm hpi)) hl hd]
    exact hw.countP_Modify_of_eq (IsLate now) hp (by simp +decide [IsLate, IsSelectable, hpR]; rfl)
  · exact hw.countP_Modify_add_one (IsLate now) hit hl hd

end Measure

/-! ### Where the loops stop -/

/-- No waiting announcement is due. -/
def NoneDue (now : ι) (index : List (Announcement τ π ι)) : Prop :=
  ∀ ann ∈ index, ann.IsWaiting = true → now < ann.m_time

/-- No selectable announcement lies in the future. -/
def NoneEarly (now : ι) (index : List (Announcement τ π ι)) : Prop :=
  ∀ ann ∈ index, ann.IsSelectable = true → ann.m_time ≤ now

section Stop

variable {index : List (Announcement τ π ι)} {a it b : Announcement τ π ι} {now : ι}

theorem GetWaitState_toNat_eq_zero : (GetWaitState a).toNat = 0 ↔ a.IsWaiting = true := by
  unfold GetWaitState IsWaiting IsSelectable
  cases a.m_state <;> simp [WaitState.toNat]

theorem GetWaitState_toNat_eq_two : (GetWaitState a).toNat = 2 ↔ a.IsSelectable = true := by
  unfold GetWaitState IsWaiting IsSelectable
  cases a.m_state <;> simp [WaitState.toNat]

theorem GetWaitState_toNat_le_two : (GetWaitState a).toNat ≤ 2 := by
  unfold GetWaitState
  split_ifs <;> simp [WaitState.toNat]

/-- When any waiting announcement is due, the first by time is one. -/
theorem firstByTime_due (hf : firstByTime index = some it) (hb : b ∈ index)
    (hbw : b.IsWaiting = true) (hbt : b.m_time ≤ now) : it.IsWaiting = true ∧ it.m_time ≤ now := by
  have hle : ByTimeView it ≤ ByTimeView b := List.le_of_mem_argmin hb hf
  rw [ByTimeView, ByTimeView, Prod.Lex.toLex_le_toLex, GetWaitState_toNat_eq_zero.mpr hbw] at hle
  rcases hle with hlt | ⟨h0, hle⟩
  · exact absurd hlt (Nat.not_lt_zero _)
  · exact ⟨GetWaitState_toNat_eq_zero.mp h0, hle.trans hbt⟩

/-- Where the forward loop stops, nothing waiting is due. -/
theorem firstByTime_stop (hf : firstByTime index = some it)
    (hd : ¬(it.m_state = .CANDIDATE_DELAYED ∧ it.m_time ≤ now))
    (hq : ¬(it.m_state = .REQUESTED ∧ it.m_time ≤ now)) : NoneDue now index := by
  intro x hx hxw
  by_contra hle
  obtain ⟨hiw, hin⟩ := firstByTime_due hf hx hxw (not_lt.mp hle)
  simp only [IsWaiting, Bool.or_eq_true, beq_iff_eq] at hiw
  rcases hiw with hiq | hid
  · exact hq ⟨hiq, hin⟩
  · exact hd ⟨hid, hin⟩

/-- When any selectable announcement lies in the future, the last by time is one. -/
theorem lastByTime_late (hl : lastByTime index = some it) (hb : b ∈ index)
    (hbs : b.IsSelectable = true) (hbt : now < b.m_time) :
    it.IsSelectable = true ∧ now < it.m_time := by
  have hle : ByTimeView b ≤ ByTimeView it := List.le_of_mem_argmax hb hl
  rw [ByTimeView, ByTimeView, Prod.Lex.toLex_le_toLex, GetWaitState_toNat_eq_two.mpr hbs] at hle
  rcases hle with hlt | ⟨h2, hle⟩
  · exact absurd hlt (not_lt.mpr GetWaitState_toNat_le_two)
  · exact ⟨GetWaitState_toNat_eq_two.mp h2.symm, hbt.trans_le hle⟩

end Stop

section Loops

variable {t : Impl τ π ι} {it : Announcement τ π ι}

/-- What `ChangeAndReselect` leaves: `it` changed, a new `CANDIDATE_BEST`, or what was there. -/
theorem mem_of_mem_ChangeAndReselect {new_state : State} {x : Announcement τ π ι}
    (hx : x ∈ (t.ChangeAndReselect siphash it new_state).m_index) :
    x = setState new_state it ∨ x.m_state = .CANDIDATE_BEST ∨ (x ∈ t.m_index ∧ x ≠ it) := by
  rcases ChangeAndReselect_cases siphash t it new_state
    with ⟨p, -, -, -, -, h⟩ | h <;> rw [h] at hx
  · rcases mem_of_mem_Modify hx with rfl | ⟨hx, hxi⟩
    · exact .inl rfl
    · rcases mem_of_mem_Modify hx with rfl | ⟨hx, -⟩
      · exact .inr (.inl rfl)
      · exact .inr (.inr ⟨hx, hxi⟩)
  · rcases mem_of_mem_Modify hx with rfl | hx
    · exact .inl rfl
    · exact .inr (.inr hx)

/-- What `PromoteCandidateReady` leaves: selectable announcements, or what was there. -/
theorem mem_of_mem_PromoteCandidateReady {x : Announcement τ π ι}
    (hx : x ∈ (t.PromoteCandidateReady siphash it).m_index) :
    x.IsSelectable = true ∨ (x ∈ t.m_index ∧ x ≠ it) := by
  have hsel : ∀ s a, (s = .CANDIDATE_READY ∨ s = .CANDIDATE_BEST) →
      (setState s a : Announcement τ π ι).IsSelectable = true := by
    rintro s a (rfl | rfl) <;> simp [IsSelectable]
  -- every announcement a step changes becomes selectable
  have h1 : ∀ y ∈ (t.Modify it (setState .CANDIDATE_READY)).m_index,
      y.IsSelectable = true ∨ (y ∈ t.m_index ∧ y ≠ it) := by
    intro y hy
    rcases mem_of_mem_Modify hy with rfl | hy
    · exact .inl (hsel _ _ (.inl rfl))
    · exact .inr hy
  rcases PromoteCandidateReady_cases siphash t it with h | ⟨n, -, -, -, -, h⟩ | h <;> rw [h] at hx
  · rcases mem_of_mem_Modify hx with rfl | ⟨hx, -⟩
    · exact .inl (hsel _ _ (.inr rfl))
    · exact h1 x hx
  · rcases mem_of_mem_Modify hx with rfl | ⟨hx, -⟩
    · exact .inl (hsel _ _ (.inr rfl))
    · rcases mem_of_mem_Modify hx with rfl | ⟨hx, -⟩
      · exact .inl (hsel _ _ (.inl rfl))
      · exact h1 x hx
  · exact h1 x hx

/-- `PromoteCandidateReady` keeps every other announcement that is not selectable. -/
theorem mem_PromoteCandidateReady_of {x : Announcement τ π ι} (hx : x ∈ t.m_index) (hxi : x ≠ it)
    (hxs : x.IsSelectable = false) : x ∈ (t.PromoteCandidateReady siphash it).m_index := by
  -- the announcements a step changes are selectable, so not `x`
  have hne : ∀ s a, (s = .CANDIDATE_READY ∨ s = .CANDIDATE_BEST) →
      x ≠ (setState s a : Announcement τ π ι) := by
    rintro s a (rfl | rfl) rfl <;> simp [IsSelectable] at hxs
  have h1 := mem_Modify_of_ne hx hxi (f := setState .CANDIDATE_READY)
  rcases PromoteCandidateReady_cases siphash t it with h | ⟨n, -, -, -, hnB, h⟩ | h <;> rw [h]
  · exact mem_Modify_of_ne h1 (hne _ _ (.inl rfl))
  · have hxn : x ≠ n := fun hxn => by simp [IsSelectable, hxn ▸ hnB] at hxs
    exact mem_Modify_of_ne (mem_Modify_of_ne h1 hxn) (hne _ _ (.inl rfl))
  · exact h1

/-- What `MakeCompleted` leaves: `COMPLETED` or `CANDIDATE_BEST` announcements, or what was
there. -/
theorem Wf.mem_of_mem_MakeCompleted (hw : Wf t) {x : Announcement τ π ι}
    (hx : x ∈ (t.MakeCompleted siphash it).1.m_index) :
    x.m_state = .COMPLETED ∨ x.m_state = .CANDIDATE_BEST ∨ (x ∈ t.m_index ∧ x ≠ it) := by
  rcases MakeCompleted_cases siphash t it with ⟨hc, h⟩ | ⟨-, -, h⟩ | ⟨-, -, h⟩ <;> rw [h] at hx
  · by_cases hxi : x = it
    · exact .inl (hxi ▸ hc)
    · exact .inr (.inr ⟨hx, hxi⟩)
  · obtain ⟨hx, hxt⟩ := (hw.mem_EraseAll_range _).mp hx
    exact .inr (.inr ⟨hx, fun hxi => hxt (hxi ▸ rfl)⟩)
  · rcases mem_of_mem_ChangeAndReselect hx with rfl | hB | hx
    · exact .inl rfl
    · exact .inr (.inl hB)
    · exact .inr (.inr hx)

/-- Demoting an announcement whose time is after `now` keeps everything waiting in the future. -/
theorem NoneDue.ChangeAndReselect_DELAYED {now : ι} (hd : NoneDue now t.m_index)
    (hlt : now < it.m_time) :
    NoneDue now (t.ChangeAndReselect siphash it .CANDIDATE_DELAYED).m_index := by
  intro x hx hxw
  rcases mem_of_mem_ChangeAndReselect hx with rfl | hB | ⟨hx, -⟩
  · exact hlt
  · simp [IsWaiting, hB] at hxw
  · exact hd x hx hxw

/-- The forward loop, given as much fuel as there are waiting announcements, leaves none due. -/
theorem SetTimePointForward_noneDue (now : ι) (fuel : Nat) :
    ∀ (t : Impl τ π ι) (expired : List (π × τ)), Inv siphash t →
      t.m_index.countP IsWaiting ≤ fuel →
      NoneDue now (Impl.SetTimePointForward siphash now fuel t expired).1.m_index := by
  induction fuel with
  | zero =>
    -- no fuel: nothing is waiting at all
    intro t expired _ hc x hx hxw
    have := List.countP_eq_zero.mp (Nat.le_zero.mp hc) x hx
    simp [hxw] at this
  | succ fuel ih =>
    intro t expired h hc
    simp only [Impl.SetTimePointForward]
    rcases hf : firstByTime t.m_index with _ | it
    · intro x hx
      rw [firstByTime, List.argmin_eq_none] at hf
      simp [hf] at hx
    · have hit : it ∈ t.m_index := List.argmin_mem hf
      dsimp only
      split_ifs with hd hq
      · have := h.wf.countP_waiting_PromoteCandidateReady siphash hit hd.1
        exact ih _ _ (h.PromoteCandidateReady hit hd.1) (by omega)
      · have := h.wf.countP_waiting_MakeCompleted siphash hit hq.1
        exact ih _ _ (h.MakeCompleted hit) (by omega)
      · exact firstByTime_stop hf hd hq

/-- The backward loop, given as much fuel as there are late announcements, leaves nothing waiting
due and nothing selectable in the future. -/
theorem SetTimePointBackward_noneEarly (now : ι) (fuel : Nat) :
    ∀ t : Impl τ π ι, Inv siphash t → NoneDue now t.m_index →
      t.m_index.countP (IsLate now) ≤ fuel →
      NoneDue now (Impl.SetTimePointBackward siphash now fuel t).m_index ∧
        NoneEarly now (Impl.SetTimePointBackward siphash now fuel t).m_index := by
  induction fuel with
  | zero =>
    intro t _ hd hc
    refine ⟨hd, fun x hx hxs => ?_⟩
    have hx' := List.countP_eq_zero.mp (Nat.le_zero.mp hc) x hx
    simp only [IsLate, hxs, Bool.true_and, decide_eq_true_eq] at hx'
    exact not_lt.mp hx'
  | succ fuel ih =>
    intro t h hd hc
    simp only [Impl.SetTimePointBackward]
    rcases hl : lastByTime t.m_index with _ | it
    · rw [lastByTime, List.argmax_eq_none] at hl
      simp [NoneDue, NoneEarly, hl]
    · have hit : it ∈ t.m_index := List.argmax_mem hl
      dsimp only
      split_ifs with hs
      · have hlate : IsLate now it = true := by simp [IsLate, hs.1, hs.2]
        have := h.wf.countP_late_ChangeAndReselect siphash hit now hlate
        exact ih _ (h.ChangeAndReselect_DELAYED hit) (hd.ChangeAndReselect_DELAYED hs.2) (by omega)
      · -- the loop stops: the last by time is not late, so nothing selectable is
        exact ⟨hd, fun x hx hxs => not_lt.mp fun hxt => hs (lastByTime_late hl hx hxs hxt)⟩

/-- The forward loop reports, after what it was given, the key of every `REQUESTED`
announcement that is due, once each. -/
theorem SetTimePointForward_expired (now : ι) (fuel : Nat) :
    ∀ (t : Impl τ π ι) (expired : List (π × τ)), Inv siphash t →
      t.m_index.countP IsWaiting ≤ fuel →
      ∃ more, (Impl.SetTimePointForward siphash now fuel t expired).2 = expired ++ more ∧
        more.Nodup ∧ ∀ e, e ∈ more ↔
          ∃ a ∈ t.m_index, a.m_state = .REQUESTED ∧ a.m_time ≤ now ∧ key a = e := by
  induction fuel with
  | zero =>
    -- no fuel: nothing is waiting, so nothing is `REQUESTED`
    intro t expired _ hc
    refine ⟨[], (List.append_nil _).symm, List.nodup_nil, fun e => ?_⟩
    simp only [List.not_mem_nil, false_iff, not_exists, not_and]
    intro a ha haQ
    have := List.countP_eq_zero.mp (Nat.le_zero.mp hc) a ha
    simp [IsWaiting, haQ] at this
  | succ fuel ih =>
    intro t expired h hc
    simp only [Impl.SetTimePointForward]
    rcases hf : firstByTime t.m_index with _ | it
    · rw [firstByTime, List.argmin_eq_none] at hf
      refine ⟨[], (List.append_nil _).symm, List.nodup_nil, fun e => ?_⟩
      simp [hf]
    · have hit : it ∈ t.m_index := List.argmin_mem hf
      dsimp only
      split_ifs with hd hq
      · -- a promotion changes no `REQUESTED` announcement
        have := h.wf.countP_waiting_PromoteCandidateReady siphash hit hd.1
        obtain ⟨more, he, hnd, hmore⟩ := ih _ expired (h.PromoteCandidateReady hit hd.1) (by omega)
        refine ⟨more, he, hnd, fun e => (hmore e).trans ⟨?_, ?_⟩⟩
        · rintro ⟨a, ha, haQ, hat, hk⟩
          rcases mem_of_mem_PromoteCandidateReady ha with has | ⟨ha, -⟩
          · simp [IsSelectable, haQ] at has
          · exact ⟨a, ha, haQ, hat, hk⟩
        · rintro ⟨a, ha, haQ, hat, hk⟩
          have hai : a ≠ it := fun hai => by rw [hai, hd.1] at haQ; cases haQ
          exact ⟨a, mem_PromoteCandidateReady_of ha hai (by simp [IsSelectable, haQ]), haQ, hat, hk⟩
      · -- `it` is reported; the other `REQUESTED` announcements are of other txhashes
        have := h.wf.countP_waiting_MakeCompleted siphash hit hq.1
        obtain ⟨more, he, hnd, hmore⟩ :=
          ih _ (expired ++ [(it.m_peer, it.m_txhash)]) (h.MakeCompleted hit) (by omega)
        have hback : ∀ a ∈ (t.MakeCompleted siphash it).1.m_index, a.m_state = .REQUESTED →
            a ∈ t.m_index ∧ a ≠ it := by
          intro a ha haQ
          rcases h.wf.mem_of_mem_MakeCompleted ha with hC | hB | ha
          · rw [hC] at haQ; cases haQ
          · rw [hB] at haQ; cases haQ
          · exact ha
        refine ⟨(it.m_peer, it.m_txhash) :: more, by rw [he, List.append_assoc, List.singleton_append],
          ?_, fun e => ?_⟩
        · refine List.nodup_cons.mpr ⟨fun hin => ?_, hnd⟩
          obtain ⟨a, ha, haQ, -, hk⟩ := (hmore _).mp hin
          obtain ⟨ha, hai⟩ := hback a ha haQ
          exact hai (h.wf.eq_of_key ha hit (congrArg Prod.fst hk) (congrArg Prod.snd hk))
        · rw [List.mem_cons, hmore]
          constructor
          · rintro (rfl | ⟨a, ha, haQ, hat, hk⟩)
            · exact ⟨it, hit, hq.1, hq.2, rfl⟩
            · exact ⟨a, (hback a ha haQ).1, haQ, hat, hk⟩
          · rintro ⟨a, ha, haQ, hat, rfl⟩
            by_cases hai : a = it
            · exact .inl (hai ▸ rfl)
            · have hat' : a.m_txhash ≠ it.m_txhash := fun ht =>
                hai (h.sel.eq_of_selected h.wf hit ha ht (by simp [hq.1]) (by simp [haQ]))
              exact .inr ⟨a, h.wf.mem_MakeCompleted_of_ne ha hat', haQ, hat, rfl⟩
      · -- the loop stops: nothing waiting is due
        refine ⟨[], (List.append_nil _).symm, List.nodup_nil, fun e => ?_⟩
        simp only [List.not_mem_nil, false_iff, not_exists, not_and]
        intro a ha haQ hat
        exact absurd hat (not_le.mpr (firstByTime_stop hf hd hq a ha (by simp [IsWaiting, haQ])))

/-- After `SetTimePoint(now)` nothing waiting is due and nothing selectable lies in the future. -/
theorem Inv.SetTimePoint_settled (h : Inv siphash t) (now : ι) :
    NoneDue now (t.SetTimePoint siphash now).1.m_index ∧
      NoneEarly now (t.SetTimePoint siphash now).1.m_index :=
  SetTimePointBackward_noneEarly now _ _ (Inv.SetTimePointForward now _ _ _ h)
    (SetTimePointForward_noneDue now _ _ _ h List.countP_le_length) List.countP_le_length

/-- `SetTimePoint(now)` reports the key of every `REQUESTED` announcement that is due, once
each. -/
theorem Inv.SetTimePoint_expired (h : Inv siphash t) (now : ι) :
    (t.SetTimePoint siphash now).2.Nodup ∧ ∀ e, e ∈ (t.SetTimePoint siphash now).2 ↔
      ∃ a ∈ t.m_index, a.m_state = .REQUESTED ∧ a.m_time ≤ now ∧ key a = e := by
  obtain ⟨more, he, hnd, hmore⟩ := SetTimePointForward_expired now _ t [] h List.countP_le_length
  have hr : (t.SetTimePoint siphash now).2 = more := he.trans (List.nil_append _)
  rw [hr]
  exact ⟨hnd, hmore⟩

end Loops

/-- In every tracker the public operations reach, `GetRequestable(peer, now)` leaves a tracker
that passes `PostGetRequestableSanityCheck(now)`. -/
theorem PostGetRequestableSanityCheck_reachable {t : Impl τ π ι}
    (h : Transition.Reachable (Step siphash) Impl.init t) (peer : π) (now : ι) :
    PostGetRequestableSanityCheck (t.GetRequestable siphash peer now).2.2 now := by
  obtain ⟨hd, he⟩ := (Inv.reachable h).SetTimePoint_settled now
  exact fun ann hann => ⟨hd ann hann, fun _ hs => he ann hann hs⟩

/-- A request that expires and a later announcement whose time has not come. -/
theorem PostGetRequestableSanityCheck_reachable_expired :
    let siphash := fun (txhash peer : Nat) => UInt64.ofNat (txhash + 3 * peer)
    let t := ((((Impl.init : Impl Nat Nat Nat).ReceivedInv 1 5 false 10).GetRequestable siphash 1 10
      ).2.2.RequestedTx siphash 1 5 15).ReceivedInv 2 5 true 40
    Transition.Reachable (Step siphash) Impl.init t ∧
      PostGetRequestableSanityCheck (t.GetRequestable siphash 2 20).2.2 20 := by
  intro siphash t
  have hr : Transition.Reachable (Step siphash) Impl.init t :=
    (((Transition.Reachable.refl.tail (.ReceivedInv _ _ _ _ _)).tail (.GetRequestable _ _ _)).tail
      (.RequestedTx _ _ _ _)).tail (.ReceivedInv _ _ _ _ _)
  exact ⟨hr, PostGetRequestableSanityCheck_reachable hr 2 20⟩

/-- In every tracker the public operations reach, `GetRequestable(peer, now)` reports as expired
exactly the `REQUESTED` announcements whose expiry has come, as (peer, txhash), once each. -/
theorem GetRequestable_expired {t : Impl τ π ι}
    (h : Transition.Reachable (Step siphash) Impl.init t) (peer : π) (now : ι) :
    let r := t.GetRequestable siphash peer now
    r.2.1.Nodup ∧ ∀ e : π × τ, e ∈ r.2.1 ↔
      ∃ a ∈ t.m_index, a.m_state = .REQUESTED ∧ a.m_time ≤ now ∧ (a.m_peer, a.m_txhash) = e :=
  (Inv.reachable h).SetTimePoint_expired now

/-- A request with expiry 15 is reported at 20. -/
theorem GetRequestable_expired_request :
    let siphash := fun (txhash peer : Nat) => UInt64.ofNat (txhash + 3 * peer)
    let t := ((((Impl.init : Impl Nat Nat Nat).ReceivedInv 1 5 false 10).GetRequestable siphash 1 10
      ).2.2.RequestedTx siphash 1 5 15).ReceivedInv 2 5 true 40
    Transition.Reachable (Step siphash) Impl.init t ∧
      let r := t.GetRequestable siphash 2 20
      r.2.1.Nodup ∧ ∀ e : Nat × Nat, e ∈ r.2.1 ↔
        ∃ a ∈ t.m_index, a.m_state = .REQUESTED ∧ a.m_time ≤ 20 ∧ (a.m_peer, a.m_txhash) = e := by
  intro siphash t
  have hr : Transition.Reachable (Step siphash) Impl.init t :=
    (((Transition.Reachable.refl.tail (.ReceivedInv _ _ _ _ _)).tail (.GetRequestable _ _ _)).tail
      (.RequestedTx _ _ _ _)).tail (.ReceivedInv _ _ _ _ _)
  exact ⟨hr, GetRequestable_expired hr 2 20⟩

/-! ### What `GetRequestable` returns -/

section Select

variable {t : Impl τ π ι} {a : Announcement τ π ι}

theorem mem_GetRequestable {peer : π} {now : ι} {txhash : τ} :
    txhash ∈ (t.GetRequestable siphash peer now).1 ↔
      ∃ a ∈ (t.GetRequestable siphash peer now).2.2.m_index,
        a.m_peer = peer ∧ a.m_txhash = txhash ∧ a.m_state = .CANDIDATE_BEST := by
  simp only [Impl.GetRequestable, List.mem_map, List.mem_mergeSort, List.mem_filter,
    decide_eq_true_eq]
  constructor
  · rintro ⟨a, ⟨ha, hap, haB⟩, hat⟩
    exact ⟨a, ha, hap, hat, haB⟩
  · rintro ⟨a, ha, hap, hat, haB⟩
    exact ⟨a, ⟨ha, hap, haB⟩, hat⟩

/-- A `CANDIDATE_BEST` is the choice of its txhash: nothing of it is `REQUESTED`, and it is at
least as good as every selectable announcement of it. -/
theorem Inv.best_selected (h : Inv siphash t) (ha : a ∈ t.m_index)
    (haB : a.m_state = .CANDIDATE_BEST) :
    ∀ b ∈ t.m_index, b.m_txhash = a.m_txhash → b.m_state ≠ .REQUESTED ∧
      (b.IsSelectable = true → Priority siphash b ≤ Priority siphash a) := by
  intro b hb hbt
  have hsa : a.IsSelected = true := by simp [haB]
  constructor
  · intro hbQ
    have hba := h.sel.eq_of_selected h.wf ha hb hbt hsa (by simp [hbQ])
    rw [hba, haB] at hbQ
    cases hbQ
  · intro hbs
    simp only [IsSelectable, Bool.or_eq_true, beq_iff_eq] at hbs
    rcases hbs with hbR | hbB
    · exact h.sel.best_priority a ha b hb hbt.symm haB hbR
    · rw [h.sel.eq_of_selected h.wf ha hb hbt hsa (by simp [hbB])]
      exact UInt64.le_refl _

/-- A selectable announcement better than every other selectable one of its txhash, with nothing
of it `REQUESTED`, is the `CANDIDATE_BEST`. -/
theorem Inv.best_of_strict (h : Inv siphash t) (ha : a ∈ t.m_index) (has : a.IsSelectable = true)
    (hb : ∀ b ∈ t.m_index, b.m_txhash = a.m_txhash → b.m_state ≠ .REQUESTED ∧
      (b.IsSelectable = true → b ≠ a → Priority siphash b < Priority siphash a)) :
    a.m_state = .CANDIDATE_BEST := by
  simp only [IsSelectable, Bool.or_eq_true, beq_iff_eq] at has
  rcases has with haR | haB
  · -- a `CANDIDATE_READY` has a selected announcement beside it: not `REQUESTED`, so the
    -- `CANDIDATE_BEST`, which is at least as good as `a`
    obtain ⟨c, hc, hct, hcs⟩ := h.sel.exists_selected ha haR
    have hcB : c.m_state = .CANDIDATE_BEST := by
      rcases (IsSelected_iff.mp hcs) with hcB | hcQ
      · exact hcB
      · exact absurd hcQ (hb c hc hct).1
    have hca : c ≠ a := fun hca => by rw [hca, haR] at hcB; cases hcB
    have hlt := (hb c hc hct).2 (by simp [IsSelectable, hcB]) hca
    have hle := h.sel.best_priority c hc a ha hct hcB haR
    exact absurd hle (UInt64.not_le.mpr hlt)
  · exact haB

end Select

/-- In every tracker the public operations reach, `GetRequestable(peer, now)` returns a txhash
exactly when the peer's announcement of it is the one to request: it is selectable (so, by
`PostGetRequestableSanityCheck`, its time has come), no announcement of the txhash is
`REQUESTED`, and it is at least as good as every selectable one; one strictly better than every
other is returned. -/
theorem GetRequestable_selected {t : Impl τ π ι}
    (h : Transition.Reachable (Step siphash) Impl.init t) (peer : π) (now : ι) (txhash : τ) :
    let r := t.GetRequestable siphash peer now
    (txhash ∈ r.1 → ∃ a ∈ r.2.2.m_index, a.m_peer = peer ∧ a.m_txhash = txhash ∧
      a.IsSelectable = true ∧ a.m_time ≤ now ∧
      ∀ b ∈ r.2.2.m_index, b.m_txhash = txhash → b.m_state ≠ .REQUESTED ∧
        (b.IsSelectable = true → Priority siphash b ≤ Priority siphash a)) ∧
    (∀ a ∈ r.2.2.m_index, a.m_peer = peer → a.m_txhash = txhash → a.IsSelectable = true →
      (∀ b ∈ r.2.2.m_index, b.m_txhash = txhash → b.m_state ≠ .REQUESTED ∧
        (b.IsSelectable = true → b ≠ a → Priority siphash b < Priority siphash a)) →
      txhash ∈ r.1) := by
  intro r
  have hi : Inv siphash r.2.2 := (Inv.reachable h).GetRequestable peer now
  have he := ((Inv.reachable h).SetTimePoint_settled now).2
  constructor
  · intro hin
    obtain ⟨a, ha, hap, hat, haB⟩ := mem_GetRequestable.mp hin
    have has : a.IsSelectable = true := by simp [IsSelectable, haB]
    exact ⟨a, ha, hap, hat, has, he a ha has, fun b hb hbt => hi.best_selected ha haB b hb (hbt.trans hat.symm)⟩
  · intro a ha hap hat has hb
    have haB := hi.best_of_strict ha has fun b hb' hbt => hb b hb' (hbt.trans hat)
    exact mem_GetRequestable.mpr ⟨a, ha, hap, hat, haB⟩

/-- A peer that is not preferred, while the preferred peer's announcement waits until 30. -/
theorem GetRequestable_selected_delayed :
    let siphash := fun (txhash peer : Nat) => UInt64.ofNat (txhash + 3 * peer)
    let t := ((Impl.init : Impl Nat Nat Nat).ReceivedInv 1 5 false 10).ReceivedInv 2 5 true 30
    Transition.Reachable (Step siphash) Impl.init t ∧
      let r := t.GetRequestable siphash 1 20
      (5 ∈ r.1 → ∃ a ∈ r.2.2.m_index, a.m_peer = 1 ∧ a.m_txhash = 5 ∧
        a.IsSelectable = true ∧ a.m_time ≤ 20 ∧
        ∀ b ∈ r.2.2.m_index, b.m_txhash = 5 → b.m_state ≠ .REQUESTED ∧
          (b.IsSelectable = true → Priority siphash b ≤ Priority siphash a)) ∧
      (∀ a ∈ r.2.2.m_index, a.m_peer = 1 → a.m_txhash = 5 → a.IsSelectable = true →
        (∀ b ∈ r.2.2.m_index, b.m_txhash = 5 → b.m_state ≠ .REQUESTED ∧
          (b.IsSelectable = true → b ≠ a → Priority siphash b < Priority siphash a)) →
        5 ∈ r.1) := by
  intro siphash t
  have hr : Transition.Reachable (Step siphash) Impl.init t :=
    (Transition.Reachable.refl.tail (.ReceivedInv _ _ _ _ _)).tail (.ReceivedInv _ _ _ _ _)
  exact ⟨hr, GetRequestable_selected hr 1 20 5⟩

/-! ### Announcement order -/

/-- The `CANDIDATE_BEST` announcements of a peer, sorted by sequence as `GetRequestable` sorts
them, are of distinct txhashes and in strictly increasing sequence. -/
theorem Wf.sorted_best {t : Impl τ π ι} (hw : Wf t) (peer : π) :
    let anns := (t.m_index.filter fun ann => ann.m_peer = peer ∧ ann.m_state = .CANDIDATE_BEST
      ).mergeSort fun a b => a.m_sequence ≤ b.m_sequence
    (anns.map (·.m_txhash)).Nodup ∧ anns.Pairwise fun a b => a.m_sequence < b.m_sequence := by
  intro anns
  have hperm : anns.Perm _ := List.mergeSort_perm _ _
  have hseq : (anns.map (·.m_sequence)).Nodup :=
    (hperm.map _).nodup_iff.mpr (hw.sequence_unique.sublist (List.filter_sublist.map _))
  constructor
  · refine hw.nodup_txhash peer (hseq.of_map _) fun a ha => ?_
    have := List.mem_filter.mp (hperm.subset ha)
    simp only [decide_eq_true_eq] at this
    exact ⟨this.1, this.2.1⟩
  · -- sorted by `≤`, with distinct sequence numbers
    have hle : anns.Pairwise fun a b => decide (a.m_sequence ≤ b.m_sequence) :=
      List.pairwise_mergeSort (fun _ _ _ h1 h2 => by simp only [decide_eq_true_eq] at *; omega)
        (fun a b => by simp only [Bool.or_eq_true, decide_eq_true_eq]; omega) _
    refine (hle.and (List.pairwise_map.mp hseq)).imp fun hab => ?_
    have := of_decide_eq_true hab.1
    exact lt_of_le_of_ne this hab.2

/-- In every tracker the public operations reach, `GetRequestable` returns each txhash once, in
the order the peer announced them: by the sequence numbers of the `CANDIDATE_BEST`
announcements it returns. -/
theorem GetRequestable_order {t : Impl τ π ι}
    (h : Transition.Reachable (Step siphash) Impl.init t) (peer : π) (now : ι) :
    let r := t.GetRequestable siphash peer now
    r.1.Nodup ∧ ∃ anns : List (Announcement τ π ι), r.1 = anns.map (·.m_txhash) ∧
      anns.Pairwise (fun a b => a.m_sequence < b.m_sequence) ∧
      ∀ a ∈ anns, a ∈ r.2.2.m_index ∧ a.m_peer = peer ∧ a.m_state = .CANDIDATE_BEST := by
  intro r
  have hw : Wf r.2.2 := ((Inv.reachable h).GetRequestable peer now).wf
  obtain ⟨hnd, hsorted⟩ := hw.sorted_best peer
  refine ⟨hnd, _, rfl, hsorted, fun a ha => ?_⟩
  have := List.mem_filter.mp ((List.mergeSort_perm _ _).subset ha)
  simp only [decide_eq_true_eq] at this
  exact ⟨this.1, this.2⟩

/-- Two announcements by one peer, requestable at once. -/
theorem GetRequestable_order_two :
    let siphash := fun (txhash peer : Nat) => UInt64.ofNat (txhash + 3 * peer)
    let t := ((Impl.init : Impl Nat Nat Nat).ReceivedInv 1 7 false 10).ReceivedInv 1 5 false 10
    Transition.Reachable (Step siphash) Impl.init t ∧
      let r := t.GetRequestable siphash 1 20
      r.1.Nodup ∧ ∃ anns : List (Announcement Nat Nat Nat), r.1 = anns.map (·.m_txhash) ∧
        anns.Pairwise (fun a b => a.m_sequence < b.m_sequence) ∧
        ∀ a ∈ anns, a ∈ r.2.2.m_index ∧ a.m_peer = 1 ∧ a.m_state = .CANDIDATE_BEST := by
  intro siphash t
  have hr : Transition.Reachable (Step siphash) Impl.init t :=
    (Transition.Reachable.refl.tail (.ReceivedInv _ _ _ _ _)).tail (.ReceivedInv _ _ _ _ _)
  exact ⟨hr, GetRequestable_order hr 1 20⟩

/-! ### Preferred peers first -/

section Preferred

variable (siphash)

theorem ComputePriority_lt_two_pow (txhash : τ) (peer : π) :
    (ComputePriority siphash txhash peer false).toNat < 2 ^ 63 := by
  have h0 : ((0 : UInt64) <<< 63).toNat = 0 := by decide
  have h1 : (siphash txhash peer >>> 1).toNat = (siphash txhash peer).toNat / 2 := by
    simp [UInt64.toNat_shiftRight, Nat.shiftRight_eq_div_pow]
  have := (siphash txhash peer).toNat_lt
  simp only [ComputePriority, Bool.false_eq_true, if_false, UInt64.toNat_or, h0, h1, Nat.or_zero]
  omega

theorem two_pow_le_ComputePriority (txhash : τ) (peer : π) :
    2 ^ 63 ≤ (ComputePriority siphash txhash peer true).toNat := by
  have h63 : ((1 : UInt64) <<< 63).toNat = 2 ^ 63 := by decide
  simp only [ComputePriority, if_true, UInt64.toNat_or, h63]
  exact Nat.right_le_or

/-- A preferred announcement has a higher priority than one that is not, whatever the hashes. -/
theorem Priority_lt_of_preferred {a b : Announcement τ π ι} (ha : a.m_preferred = false)
    (hb : b.m_preferred = true) : Priority siphash a < Priority siphash b := by
  have hlo := ComputePriority_lt_two_pow siphash a.m_txhash a.m_peer
  have hhi := two_pow_le_ComputePriority siphash b.m_txhash b.m_peer
  rw [Priority, Priority, ha, hb, UInt64.lt_iff_toNat_lt]
  omega

end Preferred

/-- In every tracker the public operations reach, `GetRequestable(peer, now)` gives a peer that is
not preferred a txhash only when no preferred peer's announcement of it can be requested: each
is `COMPLETED`, or `CANDIDATE_DELAYED` until after `now`. -/
theorem GetRequestable_preferred {t : Impl τ π ι}
    (h : Transition.Reachable (Step siphash) Impl.init t) (peer : π) (now : ι) (txhash : τ) :
    let r := t.GetRequestable siphash peer now
    txhash ∈ r.1 → ∀ a ∈ r.2.2.m_index, a.m_peer = peer → a.m_txhash = txhash →
      a.m_preferred = false → ∀ b ∈ r.2.2.m_index, b.m_txhash = txhash → b.m_preferred = true →
        b.m_state = .COMPLETED ∨ (b.m_state = .CANDIDATE_DELAYED ∧ now < b.m_time) := by
  intro r hin a ha hap hat hanp b hb hbt hbp
  have hi : Inv siphash r.2.2 := (Inv.reachable h).GetRequestable peer now
  have hd := ((Inv.reachable h).SetTimePoint_settled now).1
  -- the returned announcement of the peer is `a`
  obtain ⟨c, hc, hcp, hct, hcB⟩ := mem_GetRequestable.mp hin
  have hca : c = a := hi.wf.eq_of_key hc ha (hcp.trans hap.symm) (hct.trans hat.symm)
  subst hca
  obtain ⟨hbQ, hbs⟩ := hi.best_selected hc hcB b hb (hbt.trans hct.symm)
  cases hs : b.m_state
  · exact .inr ⟨rfl, hd b hb (by simp [IsWaiting, hs])⟩
  · exact absurd (hbs (by simp [IsSelectable, hs])) (UInt64.not_le.mpr (Priority_lt_of_preferred siphash hanp hbp))
  · exact absurd (hbs (by simp [IsSelectable, hs])) (UInt64.not_le.mpr (Priority_lt_of_preferred siphash hanp hbp))
  · exact absurd hs hbQ
  · exact .inl rfl

/-- The peer that is not preferred is given the txhash while the preferred one waits until 30. -/
theorem GetRequestable_preferred_delayed :
    let siphash := fun (txhash peer : Nat) => UInt64.ofNat (txhash + 3 * peer)
    let t := ((Impl.init : Impl Nat Nat Nat).ReceivedInv 1 5 false 10).ReceivedInv 2 5 true 30
    Transition.Reachable (Step siphash) Impl.init t ∧
      let r := t.GetRequestable siphash 1 20
      5 ∈ r.1 → ∀ a ∈ r.2.2.m_index, a.m_peer = 1 → a.m_txhash = 5 →
        a.m_preferred = false → ∀ b ∈ r.2.2.m_index, b.m_txhash = 5 → b.m_preferred = true →
          b.m_state = .COMPLETED ∨ (b.m_state = .CANDIDATE_DELAYED ∧ 20 < b.m_time) := by
  intro siphash t
  have hr : Transition.Reachable (Step siphash) Impl.init t :=
    (Transition.Reachable.refl.tail (.ReceivedInv _ _ _ _ _)).tail (.ReceivedInv _ _ _ _ _)
  exact ⟨hr, GetRequestable_preferred hr 1 20 5⟩

end Trumpow.TxRequest
