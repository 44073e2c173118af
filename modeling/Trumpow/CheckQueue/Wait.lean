import Trumpow.CheckQueue.Invariant

/-!
# CheckQueue — what `Wait` returns, and that it returns

The master's `Wait` returns in a critical section of its own, on an empty queue with `nTodo`
at zero (`master_returns`, `whileEmpty_master_idle`).  By the invariant, every check of the
round has then been executed or skipped once, every batch is folded back, and `fAllOk` is false
exactly when a check that was executed failed; `Wait` returns it and resets it for the next
round.

Liveness: some step is always enabled (`exists_step`); a master blocked in `condMaster.wait`
has a worker still in a batch (`master_blocked`), the one whose clean-up will bring `nTodo` to
zero and notify it; and while the master is in `Wait`, every step of any thread lowers
`workLeft`, the steps at most that remain (`workLeft_step_lt`), so on every schedule `Wait`
returns within `workLeft` steps, spurious wakeups aside.
-/

namespace Trumpow.CheckQueue

open Transition

variable {T : Type*} {n : Nat} {call : T → Bool}

/-! ### Critical sections are atomic -/

/-- No state of an interleaving has a thread inside a critical section. -/
theorem Reachable.not_locked {nBatchSize : Nat} {s : System T n}
    (hs : Reachable call nBatchSize s) (u : Fin (n + 1)) : s.pc u ≠ .locked := by
  revert u
  refine Reachable.invariant (I := fun s : System T n => ∀ u, s.pc u ≠ .locked) ?_ ?_ hs
  · intro u hu
    simp only [System.init] at hu
    split at hu <;> cases hu
  · rintro s s' - hI ⟨a, hst⟩ u
    rcases step_cases hst with ⟨vChecks, pick, -, hadd⟩ | ⟨-, rfl⟩ |
        ⟨t, check, vChecks, nNow, fOk, -, rfl⟩ | ⟨t, nNow, fOk, -, rfl⟩ | ⟨t, -, rfl⟩ |
        ⟨t, -, -, rfl⟩
    · obtain ⟨P, _, rfl⟩ := add_eq_some hadd
      exact fun hu => hI u (notifyWhere_eq_locked.mp hu)
    · by_cases hu : u = 0
      · subst hu
        simp
      · simpa [Function.update_of_ne hu] using hI u
    · by_cases hu : u = t
      · subst hu
        simp [CheckQueue.execute]
      · simpa [CheckQueue.execute, Function.update_of_ne hu] using hI u
    · by_cases hu : u = t
      · subst hu
        rcases whileEmpty_pc_self (cleanup s u nNow fOk) u with h | h | ⟨_, _, _, h⟩ <;> simp [h]
      · rw [whileEmpty_pc_of_ne _ hu]
        rcases cleanup_pc_of_ne s nNow fOk hu with h | h <;> rw [h]
        · exact hI u
        · cases hsu : s.pc u <;> simp_all
    · by_cases hu : u = t
      · subst hu
        rcases whileEmpty_pc_self (wakeUp s u) u with h | h | ⟨_, _, _, h⟩ <;> simp [h]
      · rw [whileEmpty_pc_of_ne _ hu]
        simpa [CheckQueue.wakeUp, Function.update_of_ne hu] using hI u
    · intro hu
      dsimp only at hu
      exact hI u (notifyWhere_eq_locked.mp hu)

/-! ### The return of `Wait` -/

/-- The master's `Wait` returns in a step of the master from a critical section, the state of
the invariant that `cleanup` or `wakeUp` leaves. -/
theorem master_returns {nBatchSize : Nat} {s s' : System T n} {a : Action T n}
    (hr : Reachable call nBatchSize s) (hs : step call s a = some s') (h0 : s.pc 0 ≠ .idle)
    (h0' : s'.pc 0 = .idle) :
    ∃ s₁ : System T n, Inv call s₁ ∧ s₁.pc 0 = .locked ∧ s₁.round = s.round ∧
      s₁.results = s.results ∧ s' = whileEmpty s₁ 0 := by
  have hinv := hr.inv
  rcases step_cases hs with ⟨vChecks, pick, h0i, -⟩ | ⟨h0i, rfl⟩ |
      ⟨t, check, vChecks, nNow, fOk, ht, rfl⟩ | ⟨t, nNow, fOk, ht, rfl⟩ | ⟨t, ht, rfl⟩ |
      ⟨t, -, -, rfl⟩
  · exact absurd h0i h0
  · exact absurd h0i h0
  · -- running a check leaves the master where it is, or in its batch
    by_cases ht0 : t = 0
    · subst ht0
      simp [CheckQueue.execute] at h0'
    · simp only [CheckQueue.execute, Function.update_of_ne (Ne.symm ht0)] at h0'
      exact absurd h0' h0
  · by_cases ht0 : t = 0
    · subst ht0
      have hc : Inv call (cleanup s 0 nNow fOk) := by
        by_cases hn : nNow = 0
        · subst hn
          exact hinv.cleanup_first ht
        · exact hinv.cleanup_fold ht hn
      exact ⟨_, hc, cleanup_pc_self s 0 nNow fOk, (cleanup_round s 0 nNow fOk).1,
        (cleanup_round s 0 nNow fOk).2, rfl⟩
    · -- another thread's critical section notifies the master at most
      rw [whileEmpty_pc_of_ne _ (Ne.symm ht0)] at h0'
      rcases cleanup_pc_of_ne s nNow fOk (Ne.symm ht0) with h | h <;> rw [h] at h0'
      · exact absurd h0' h0
      · cases hs0 : s.pc 0 <;> simp_all
  · by_cases ht0 : t = 0
    · subst ht0
      exact ⟨_, hinv.wakeUp ht, wakeUp_pc_self s 0, rfl, rfl, rfl⟩
    · rw [whileEmpty_pc_of_ne _ (Ne.symm ht0)] at h0'
      simp only [CheckQueue.wakeUp, Function.update_of_ne (Ne.symm ht0)] at h0'
      exact absurd h0' h0
  · dsimp only at h0'
    exact absurd (notifyWhere_eq_idle.mp h0') h0

/-- The `while (queue.empty())` loop lets the master out only through `return fRet`. -/
theorem whileEmpty_master_idle {s : System T n} (h : (whileEmpty s 0).pc 0 = .idle) :
    s.q.queue = [] ∧ s.q.nTodo = 0 ∧
      whileEmpty s 0 = { q := { s.q with nTotal := s.q.nTotal - 1, fAllOk := true }
                         pc := Function.update s.pc 0 .idle
                         round := {}
                         results := s.q.fAllOk :: s.results } := by
  unfold whileEmpty at h ⊢
  by_cases hq : s.q.queue.isEmpty = true
  · rw [if_pos hq] at h ⊢
    by_cases hr : ((fMaster (0 : Fin (n + 1)) || s.q.fQuit) && s.q.nTodo == 0) = true
    · rw [if_pos hr]
      simp only [fMaster, decide_true, Bool.true_or, Bool.true_and, beq_iff_eq] at hr
      exact ⟨List.isEmpty_iff.mp hq, hr, by simp [fMaster]⟩
    · rw [if_neg hr] at h
      simp at h
  · rw [if_neg hq] at h
    simp at h

/-- A failure recorded in the round is a check that ran and returned false. -/
theorem Inv.failed_iff {s : System T n} (h : Inv call s) :
    s.round.Failed ↔ ∃ c ∈ s.round.executed.map Prod.fst, call c = false := by
  constructor
  · rintro ⟨c, hc⟩
    exact ⟨c, List.mem_map.mpr ⟨_, hc, rfl⟩, (h.results _ hc).symm⟩
  · rintro ⟨c, hc, hfalse⟩
    obtain ⟨p, hp, rfl⟩ := List.mem_map.mp hc
    have hres := h.results p hp
    exact ⟨p.1, by rw [← hfalse, ← hres]; exact hp⟩

/-- What the master's `Wait` leaves and returns, from the state its last critical section
starts in. -/
theorem Inv.wait_result {s s' : System T n} (h : Inv call s)
    (hs' : CheckQueue.whileEmpty s 0 = s') (hidle : s'.pc 0 = .idle) :
    s'.q.queue = [] ∧ s'.q.nTodo = 0 ∧ (∀ t, (s'.pc t).held = 0) ∧
      (s.round.added : Multiset T) = (s.round.executed.map Prod.fst : Multiset T) + s.round.skipped ∧
      (∃ fRet, s'.results = fRet :: s.results ∧
        (fRet = false ↔ ∃ c ∈ s.round.executed.map Prod.fst, call c = false) ∧
        ((∀ c ∈ s.round.added, call c = true) → fRet = true)) ∧
      s'.q.fAllOk = true := by
  subst hs'
  obtain ⟨hq, hn, heq⟩ := whileEmpty_master_idle hidle
  -- the result is `fAllOk`, false exactly after a failed check
  have hret : s.q.fAllOk = false ↔ ∃ c ∈ s.round.executed.map Prod.fst, call c = false := by
    rw [← h.failed_iff]
    refine ⟨h.allOk_false, fun hf => (h.failure_kept hf).resolve_right ?_⟩
    rintro ⟨u, vs, k, hu⟩
    exact absurd (h.quiet hn hu).2.2 (by decide)
  have hchecks : (s.round.added : Multiset T) =
      (s.round.executed.map Prod.fst : Multiset T) + s.round.skipped := by
    rw [h.checks, h.sum_batch_of_quiet hn, hq, Multiset.coe_nil, add_zero, add_zero]
  refine ⟨by rw [heq]; exact hq, by rw [heq]; exact hn, fun t => ?_, hchecks,
    ⟨s.q.fAllOk, by rw [heq], hret, fun hall => ?_⟩, by rw [heq]⟩
  · rw [heq]
    by_cases ht : t = 0
    · subst ht
      simp
    · have hle := le_sum s.pc Pc.held t
      have htodo := h.todo
      rw [hq, hn, List.length_nil] at htodo
      simp only [Function.update_of_ne ht]
      omega
  · -- a failed check would be one the round added
    by_contra hf
    obtain ⟨c, hc, hfalse⟩ := hret.mp (Bool.eq_false_iff.mpr hf)
    have hmem : c ∈ (s.round.added : Multiset T) := by
      rw [hchecks]
      exact Multiset.mem_add.mpr (.inl (Multiset.mem_coe.mpr hc))
    rw [hall c (Multiset.mem_coe.mp hmem)] at hfalse
    cases hfalse

/-! ### Liveness -/

/-- The steps a thread may still take before the master can return: to the end of its batch
and through the critical section after it. -/
@[simp] def Pc.cost : Pc T → Nat
  | idle | wait false => 0
  | locked | wait true => 1
  | loop vChecks _ _ => vChecks.length + 2

theorem Pc.cost_notify_le (p : Pc T) : p.notify.cost ≤ p.cost + 1 := by
  cases p with
  | wait b => cases b <;> simp
  | _ => simp

/-- What is left to do while the master is in `Wait`: a batch for each queued check, and each
thread's way to its next wait. -/
def workLeft (s : System T n) : Nat := 3 * s.q.queue.length + ∑ t, (s.pc t).cost

/-- Notifying the master adds one step at most. -/
theorem sum_cost_notify_master (pc : Fin (n + 1) → Pc T) (c : Prop) [Decidable c] :
    ∑ u, (notifyWhere (fun u => u = 0 ∧ c) pc u).cost ≤ ∑ u, (pc u).cost + 1 := by
  have heq : notifyWhere (fun u => u = 0 ∧ c) pc =
      Function.update pc 0 (if c then (pc 0).notify else pc 0) := by
    funext u
    by_cases hu : u = 0
    · subst hu
      by_cases hc : c <;> simp [notifyWhere, hc]
    · simp [notifyWhere, hu]
  have hsum := sum_update pc Pc.cost 0 (if c then (pc 0).notify else pc 0)
  have hle : (if c then (pc 0).notify else pc 0).cost ≤ (pc 0).cost + 1 := by
    split
    · exact Pc.cost_notify_le _
    · omega
  rw [heq]
  omega

theorem workLeft_execute (s : System T n) {t : Fin (n + 1)} {check : T} {vChecks : List T}
    {nNow : Nat} {fOk : Bool} (ht : s.pc t = .loop (check :: vChecks) nNow fOk) :
    workLeft (execute call s t check vChecks nNow fOk) + 1 = workLeft s := by
  have := sum_update s.pc Pc.cost t (.loop vChecks nNow (if fOk then call check else fOk))
  rw [ht] at this
  change _ + (vChecks.length + 1 + 2) = _ + (vChecks.length + 2) at this
  unfold workLeft execute
  dsimp only
  omega

theorem workLeft_cleanup_le (s : System T n) {t : Fin (n + 1)} {nNow : Nat} {fOk : Bool}
    (ht : s.pc t = .loop [] nNow fOk) : workLeft (cleanup s t nNow fOk) ≤ workLeft s := by
  have hsum := sum_update s.pc Pc.cost t .locked
  rw [ht] at hsum
  change _ + 2 = _ + 1 at hsum
  unfold workLeft cleanup
  split
  · dsimp only
    rw [ite_notifyWhere_master]
    have := sum_cost_notify_master (Function.update s.pc t .locked)
      (s.q.nTodo - nNow = 0 ∧ fMaster t = false)
    omega
  · dsimp only
    omega

theorem workLeft_wakeUp (s : System T n) {t : Fin (n + 1)} (ht : s.pc t = .wait true) :
    workLeft (wakeUp s t) = workLeft s := by
  have := sum_update_of_eq s.pc Pc.cost (b := .locked) (by rw [ht]; rfl)
  unfold workLeft wakeUp
  dsimp only
  rw [this]

/-- Unless it lets the master out of `Wait`, the `while (queue.empty())` loop lowers the work
left: a thread that waits has none, and a batch of `nNow` checks costs less than their three
steps each in the queue. -/
theorem workLeft_whileEmpty_lt (s : System T n) {t : Fin (n + 1)} (ht : s.pc t = .locked)
    (h0 : (whileEmpty s t).pc 0 ≠ .idle) : workLeft (whileEmpty s t) < workLeft s := by
  unfold whileEmpty at h0 ⊢
  by_cases hq : s.q.queue.isEmpty = true
  · rw [if_pos hq] at h0 ⊢
    by_cases hr : ((fMaster t || s.q.fQuit) && s.q.nTodo == 0) = true
    · -- a return: only a worker's, once `fQuit` is set
      rw [if_pos hr] at h0 ⊢
      have ht0 : t ≠ 0 := by
        rintro rfl
        exact h0 (by dsimp only; exact Function.update_self _ _ _)
      have := sum_update s.pc Pc.cost t .idle
      rw [ht] at this
      change _ + 1 = _ + 0 at this
      unfold workLeft
      dsimp only
      omega
    · rw [if_neg hr]
      have := sum_update s.pc Pc.cost t (.wait false)
      rw [ht] at this
      change _ + 1 = _ + 0 at this
      unfold workLeft
      dsimp only
      omega
  · rw [if_neg hq]
    obtain ⟨hk1, hkL⟩ := nNow_bounds s.q.nBatchSize s.q.queue.length
      (s.q.nTotal + s.q.nIdle + 1) (by rwa [Ne, List.length_eq_zero_iff, ← List.isEmpty_iff])
    generalize max 1 (min s.q.nBatchSize (s.q.queue.length / (s.q.nTotal + s.q.nIdle + 1))) = k
      at hk1 hkL ⊢
    have := sum_update s.pc Pc.cost t (.loop (s.q.queue.take k) k s.q.fAllOk)
    rw [ht] at this
    change _ + 1 = _ + ((s.q.queue.take k).length + 2) at this
    rw [List.length_take] at this
    unfold workLeft
    dsimp only
    rw [List.length_drop]
    omega

/-- While the master is in `Wait`, every step but a spurious wakeup lowers the work left. -/
theorem workLeft_step_lt {s s' : System T n} {a : Action T n} (hs : step call s a = some s')
    (ha : a.isSpurious = false) (h0 : s.pc 0 ≠ .idle) (h0' : s'.pc 0 ≠ .idle) :
    workLeft s' < workLeft s := by
  rcases step_cases hs with ⟨vChecks, pick, h0i, -⟩ | ⟨h0i, rfl⟩ |
      ⟨t, check, vChecks, nNow, fOk, ht, rfl⟩ | ⟨t, nNow, fOk, ht, rfl⟩ | ⟨t, ht, rfl⟩ |
      ⟨t, rfl, -, -⟩
  · exact absurd h0i h0
  · exact absurd h0i h0
  · have : workLeft (execute call s t check vChecks nNow fOk) + 1 = workLeft s :=
      workLeft_execute s ht
    omega
  · have hle := workLeft_cleanup_le s ht
    have hlt := workLeft_whileEmpty_lt _ (cleanup_pc_self s t nNow fOk) h0'
    omega
  · rw [← workLeft_wakeUp s ht]
    exact workLeft_whileEmpty_lt _ (wakeUp_pc_self s t) h0'
  · cases ha

/-- A master blocked in `condMaster.wait` has a worker in a batch, which will notify it. -/
theorem master_blocked {nBatchSize : Nat} {s : System T n} (hr : Reachable call nBatchSize s)
    (h0 : s.pc 0 = .wait false) : ∃ t, t ≠ 0 ∧ 0 < (s.pc t).held := by
  have h := hr.inv
  obtain ⟨hq, hpos⟩ := h.master_wait false h0
  have hsum : 0 < ∑ t, (s.pc t).held := by
    have htodo := h.todo
    rw [hq, List.length_nil] at htodo
    have := hpos rfl
    omega
  obtain ⟨t, ht⟩ := exists_pos_of_sum_pos hsum
  refine ⟨t, fun he => ?_, ht⟩
  rw [he, h0] at ht
  cases ht

/-- A thread in a batch or notified can step. -/
theorem step_run_of_loop {s : System T n} {t : Fin (n + 1)} {vChecks : List T} {nNow : Nat}
    {fOk : Bool} (ht : s.pc t = .loop vChecks nNow fOk) : ∃ s', step call s (.run t) = some s' := by
  cases vChecks with
  | nil => exact ⟨_, by simp only [step, ht]; rfl⟩
  | cons check vChecks => exact ⟨_, by simp only [step, ht]; rfl⟩

/-- Some step is always enabled. -/
theorem exists_step {nBatchSize : Nat} {s : System T n} (hr : Reachable call nBatchSize s) :
    ∃ a s', step call s a = some s' := by
  cases h0 : s.pc 0 with
  | idle => exact ⟨.wait, _, by simp only [step, h0]; rfl⟩
  | loop vChecks nNow fOk => exact ⟨.run 0, step_run_of_loop h0⟩
  | locked => exact absurd h0 (hr.not_locked 0)
  | wait b =>
    cases b with
    | true => exact ⟨.run 0, _, by simp only [step, h0]; rfl⟩
    | false =>
      -- the worker still in a batch can step
      obtain ⟨t, -, ht⟩ := master_blocked hr h0
      cases hst : s.pc t with
      | loop vChecks nNow fOk => exact ⟨.run t, step_run_of_loop hst⟩
      | _ => rw [hst] at ht; cases ht

/-- On every schedule without spurious wakeups, the master's `Wait` returns within `workLeft`
steps. -/
theorem wait_returns_within {s : System T n} {f : ℕ → System T n} {k : ℕ} (hf : f 0 = s)
    (h0 : s.pc 0 ≠ .idle) (hrun : RunWithin (NotifiedStep call) (fun s => s.pc 0 ≠ .idle) f k) :
    k ≤ workLeft s := by
  subst hf
  exact RunWithin.length_le (I := fun _ => True) (fun _ _ _ _ => trivial)
    (fun _ _ _ hP hst hP' => hst.elim fun _ ha => workLeft_step_lt ha.2 ha.1 hP hP')
    trivial h0 hrun

/-! ### The queue computes the conjunction of the checks -/

theorem checkQueue_wait (call : T → Bool) (nBatchSize : Nat) (s : System T n)
    (hs : Reachable call nBatchSize s) :
    (∀ a s', step call s a = some s' → s.pc 0 ≠ .idle → s'.pc 0 = .idle →
      s'.q.queue = [] ∧ s'.q.nTodo = 0 ∧ (∀ t, (s'.pc t).held = 0) ∧
      (s.round.added : Multiset T) = (s.round.executed.map Prod.fst : Multiset T) + s.round.skipped ∧
      (∃ fRet, s'.results = fRet :: s.results ∧
        (fRet = false ↔ ∃ c ∈ s.round.executed.map Prod.fst, call c = false) ∧
        ((∀ c ∈ s.round.added, call c = true) → fRet = true)) ∧
      s'.q.fAllOk = true) ∧
    (s.round.skipped ≠ [] → ∃ c ∈ s.round.executed.map Prod.fst, call c = false) ∧
    (∀ t, (s.pc t).held ≤ s.q.nTodo) ∧
    (∃ a s', step call s a = some s') ∧
    (s.pc 0 = .wait false → ∃ t, t ≠ 0 ∧ 0 < (s.pc t).held) ∧
    (∀ (f : ℕ → System T n) (k : ℕ), f 0 = s → s.pc 0 ≠ .idle →
      RunWithin (NotifiedStep call) (fun s => s.pc 0 ≠ .idle) f k → k ≤ workLeft s) := by
  have h := hs.inv
  refine ⟨fun a s' hst h0 h0' => ?_, fun hne => h.failed_iff.mp (h.skipped hne), fun t => ?_,
    exists_step hs, master_blocked hs, fun f k hf h0 hrun => wait_returns_within hf h0 hrun⟩
  · obtain ⟨s₁, h₁, hl, hround, hresults, rfl⟩ := master_returns hs hst h0 h0'
    rw [← hround, ← hresults]
    exact h₁.wait_result rfl h0'
  · have := le_sum s.pc Pc.held t
    rw [h.todo]
    omega

/-- `Add({true, false})` and `Wait()` with one worker that never runs: the master takes
`false`, which fails, skips `true`, and `Wait` returns false. -/
theorem checkQueue_wait_skips_after_failure :
    ∃ s s' : System Bool 1, Reachable id 1 s ∧ step id s (.run 0) = some s' ∧
      s.round.skipped = [true] ∧ s'.results = [false] ∧ s'.q.fAllOk = true := by
  have h1 : Reachable (n := 1) id 1 _ := Reachable.refl.tail ⟨.add [true, false] 0, rfl⟩
  have h2 := h1.tail ⟨.wait, rfl⟩
  -- the master's first critical section takes `false`, which it runs and which fails
  have h3 := h2.tail ⟨.run 0, rfl⟩
  have h4 := h3.tail ⟨.run 0, rfl⟩
  -- its second takes `true` with `fOk = fAllOk = false`, and skips it
  have h5 := h4.tail ⟨.run 0, rfl⟩
  have hr := h5.tail ⟨.run 0, rfl⟩
  obtain ⟨hret, -⟩ := checkQueue_wait id 1 _ hr
  -- the master's last critical section returns
  obtain ⟨-, -, -, -, ⟨fRet, hres, hiff, -⟩, hok⟩ := hret (.run 0) _ rfl (by intro h; cases h) rfl
  refine ⟨_, _, hr, rfl, rfl, ?_, hok⟩
  rw [hres, hiff.mpr ⟨false, by decide, rfl⟩]
  rfl

end Trumpow.CheckQueue
