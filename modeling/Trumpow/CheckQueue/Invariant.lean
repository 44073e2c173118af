import Trumpow.CheckQueue.Queue

/-!
# CheckQueue — the invariant of the queue and its threads

`Inv` holds of every state an interleaving reaches, one lemma for each kind of step:

* `nTodo` is the length of the queue plus the sizes of the batches not yet folded back
  (`todo`), so `nTodo -= nNow` never goes below zero;
* each check the round added is executed, skipped, queued or in a batch, once (`checks`);
* a failure stays in `fAllOk` or in the `fOk` of a batch until the master's `Wait` returns, and
  only a failed check makes either false (`allOk_false`, `fOk_false`, `failure_kept`), so a check
  is skipped only after one failed (`skipped`);
* a master blocked in `condMaster.wait` has an empty queue and work outstanding in some batch,
  whose thread will notify it (`master_wait`);
* `nIdle` and `nTotal` count the waiting threads and the threads in `Loop`.

Critical sections are composed of `cleanup` or `wakeUp`, which leave the thread `locked`, and
`whileEmpty`; the invariant holds in between.
-/

namespace Trumpow.CheckQueue

open Transition

variable {T : Type*} {n : Nat}

/-- Some check of the round ran and failed. -/
def Round.Failed (r : Round T) : Prop := ∃ c, (c, false) ∈ r.executed

variable (call : T → Bool)

/-- The invariant. -/
structure Inv (s : System T n) : Prop where
  todo : s.q.nTodo = s.q.queue.length + ∑ t, (s.pc t).held
  checks : (s.round.added : Multiset T) = (s.round.executed.map Prod.fst : Multiset T) +
    s.round.skipped + s.q.queue + ∑ t, ((s.pc t).batch : Multiset T)
  results : ∀ p ∈ s.round.executed, p.2 = call p.1
  batch_le : ∀ t vChecks nNow fOk, s.pc t = .loop vChecks nNow fOk →
    vChecks.length ≤ nNow ∧ (nNow = 0 → fOk = true)
  allOk_false : s.q.fAllOk = false → s.round.Failed
  fOk_false : ∀ t vChecks nNow, s.pc t = .loop vChecks nNow false → s.round.Failed
  failure_kept : s.round.Failed →
    s.q.fAllOk = false ∨ ∃ t vChecks nNow, s.pc t = .loop vChecks nNow false
  skipped : s.round.skipped ≠ [] → s.round.Failed
  master_wait : ∀ b, s.pc 0 = .wait b → s.q.queue = [] ∧ (b = false → 0 < s.q.nTodo)
  nIdle : s.q.nIdle = ∑ t, (s.pc t).idleCount
  nTotal : s.q.nTotal = ∑ t, (s.pc t).totalCount

variable {call}

/-! ### Threads and their positions -/

theorem update_eq_loop {pc : Fin (n + 1) → Pc T} {t u : Fin (n + 1)} {p : Pc T}
    {vChecks : List T} {nNow : Nat} {fOk : Bool}
    (h : Function.update pc t p u = .loop vChecks nNow fOk) :
    (u = t ∧ p = .loop vChecks nNow fOk) ∨ (u ≠ t ∧ pc u = .loop vChecks nNow fOk) := by
  by_cases hu : u = t
  · subst hu
    rw [Function.update_self] at h
    exact .inl ⟨rfl, h⟩
  · rw [Function.update_of_ne hu] at h
    exact .inr ⟨hu, h⟩

theorem update_ne_eq {pc : Fin (n + 1) → Pc T} {t u : Fin (n + 1)} {p : Pc T} (hu : u ≠ t) :
    Function.update pc t p u = pc u :=
  Function.update_of_ne hu p pc

theorem sum_batch_notifyWhere (P : Fin (n + 1) → Prop) [DecidablePred P]
    (pc : Fin (n + 1) → Pc T) :
    ∑ u, ((notifyWhere P pc u).batch : Multiset T) = ∑ u, ((pc u).batch : Multiset T) :=
  sum_notifyWhere (fun p : Pc T => (p.batch : Multiset T)) fun p => by rw [Pc.batch_notify]

theorem sum_batch_update (pc : Fin (n + 1) → Pc T) (t : Fin (n + 1)) (p : Pc T) :
    ∑ u, ((Function.update pc t p u).batch : Multiset T) + (pc t).batch =
      ∑ u, ((pc u).batch : Multiset T) + p.batch :=
  sum_update pc (fun p : Pc T => (p.batch : Multiset T)) t p

theorem sum_batch_update_of_eq {pc : Fin (n + 1) → Pc T} {t : Fin (n + 1)} {p : Pc T}
    (h : (pc t).batch = p.batch) :
    ∑ u, ((Function.update pc t p u).batch : Multiset T) = ∑ u, ((pc u).batch : Multiset T) :=
  sum_update_of_eq pc (fun p : Pc T => (p.batch : Multiset T)) (congrArg _ h)

/-- The thread that took the lock has left its loop. -/
theorem update_locked_eq_loop {pc : Fin (n + 1) → Pc T} {t u : Fin (n + 1)} {vChecks : List T}
    {nNow : Nat} {fOk : Bool} (h : Function.update pc t .locked u = .loop vChecks nNow fOk) :
    u ≠ t ∧ pc u = .loop vChecks nNow fOk := by
  rcases update_eq_loop h with ⟨-, he⟩ | h'
  · cases he
  · exact h'

/-- A thread that does not go to wait leaves the master where it was. -/
theorem update_eq_wait_of_ne {pc : Fin (n + 1) → Pc T} {t : Fin (n + 1)} {p : Pc T} {b : Bool}
    (hp : ∀ b, p ≠ .wait b) (h : Function.update pc t p 0 = .wait b) : t ≠ 0 ∧ pc 0 = .wait b := by
  by_cases ht : t = 0
  · subst ht
    rw [Function.update_self] at h
    exact absurd h (hp b)
  · rw [update_ne_eq (Ne.symm ht)] at h
    exact ⟨ht, h⟩

/-- A thread that leaves a batch that has not failed keeps every failed batch where it was. -/
theorem exists_failed_update {pc : Fin (n + 1) → Pc T} {t : Fin (n + 1)} (p : Pc T)
    (ht : ∀ vs k, pc t ≠ .loop vs k false) (h : ∃ u vs k, pc u = .loop vs k false) :
    ∃ u vs k, Function.update pc t p u = .loop vs k false := by
  obtain ⟨u, vs, k, hu⟩ := h
  have hne : u ≠ t := by
    rintro rfl
    exact ht vs k hu
  exact ⟨u, vs, k, by rw [update_ne_eq hne]; exact hu⟩

theorem exists_failed_notifyWhere {pc : Fin (n + 1) → Pc T} (P : Fin (n + 1) → Prop)
    [DecidablePred P] (h : ∃ u vs k, pc u = .loop vs k false) :
    ∃ u vs k, notifyWhere P pc u = .loop vs k false := by
  obtain ⟨u, vs, k, hu⟩ := h
  exact ⟨u, vs, k, notifyWhere_eq_loop.mpr hu⟩

/-- With no work outstanding, every batch is empty and folded back. -/
theorem Inv.quiet {s : System T n} (h : Inv call s) (h0 : s.q.nTodo = 0) {u : Fin (n + 1)}
    {vChecks : List T} {nNow : Nat} {fOk : Bool} (hu : s.pc u = .loop vChecks nNow fOk) :
    vChecks = [] ∧ nNow = 0 ∧ fOk = true := by
  have hle := le_sum s.pc Pc.held u
  have hn : nNow = 0 := by
    rw [hu, Pc.held] at hle
    have := h.todo
    omega
  obtain ⟨hlen, hok⟩ := h.batch_le u vChecks nNow fOk hu
  exact ⟨List.eq_nil_of_length_eq_zero (by omega), hn, hok hn⟩

theorem Inv.sum_batch_of_quiet {s : System T n} (h : Inv call s) (h0 : s.q.nTodo = 0) :
    ∑ t, ((s.pc t).batch : Multiset T) = 0 :=
  Finset.sum_eq_zero fun u _ => by
    cases hu : s.pc u with
    | loop vChecks nNow fOk => rw [Pc.batch, (h.quiet h0 hu).1]; rfl
    | _ => rfl

theorem Round.Failed.mono {r r' : Round T} (h : r.Failed) (hsub : r.executed ⊆ r'.executed) :
    r'.Failed := by
  obtain ⟨c, hc⟩ := h
  exact ⟨c, hsub hc⟩

/-! ### The steps outside `Loop` -/

theorem Inv.init (nBatchSize : Nat) : Inv call (System.init n nBatchSize : System T n) := by
  have hpc : ∀ t, (System.init n nBatchSize : System T n).pc t = .idle ∨
      (System.init n nBatchSize : System T n).pc t = .loop [] 0 true := fun t => by
    simp only [System.init]
    split
    · exact .inl rfl
    · exact .inr rfl
  -- every counter over the threads starts at zero
  have hsum : ∀ g : Pc T → Nat, g .idle = 0 → g (.loop [] 0 true) = 0 →
      ∑ t, g ((System.init n nBatchSize : System T n).pc t) = 0 :=
    fun g h1 h2 => Finset.sum_eq_zero fun t _ => by rcases hpc t with h | h <;> rw [h] <;> assumption
  have hbatch : ∑ t, (((System.init n nBatchSize : System T n).pc t).batch : Multiset T) = 0 :=
    Finset.sum_eq_zero fun t _ => by rcases hpc t with h | h <;> rw [h] <;> rfl
  exact {
    todo := by rw [hsum Pc.held rfl rfl]; rfl
    checks := by rw [hbatch]; rfl
    results := fun p hp => by cases hp
    batch_le := fun t vChecks nNow fOk h => by
      rcases hpc t with h' | h' <;> rw [h'] at h <;> cases h
      exact ⟨le_refl 0, fun _ => rfl⟩
    allOk_false := fun h => by cases h
    fOk_false := fun t vChecks nNow h => by rcases hpc t with h' | h' <;> rw [h'] at h <;> cases h
    failure_kept := by rintro ⟨_, hc⟩; cases hc
    skipped := fun h => absurd rfl h
    master_wait := fun b h => by cases h
    nIdle := by rw [hsum Pc.idleCount rfl rfl]; rfl
    nTotal := by rw [hsum Pc.totalCount rfl rfl]; rfl }

/-- `Add(vChecks)` with the master outside `Wait`. -/
theorem Inv.add {s s' : System T n} {vChecks : List T} {pick : Fin (n + 1)} (h : Inv call s)
    (h0 : s.pc 0 = .idle) (hs : add s vChecks pick = some s') : Inv call s' := by
  obtain ⟨P, _, rfl⟩ := add_eq_some hs
  exact {
    todo := by
      rw [sum_notifyWhere Pc.held Pc.held_notify, List.length_append, List.length_reverse]
      dsimp only
      rw [h.todo]
      omega
    checks := by
      dsimp only
      rw [sum_batch_notifyWhere]
      rw [← Multiset.coe_add, ← Multiset.coe_add, Multiset.coe_reverse, h.checks]
      ac_rfl
    results := h.results
    batch_le := fun t vChecks nNow fOk ht => h.batch_le t vChecks nNow fOk (notifyWhere_eq_loop.mp ht)
    allOk_false := h.allOk_false
    fOk_false := fun t vChecks nNow ht => h.fOk_false t vChecks nNow (notifyWhere_eq_loop.mp ht)
    failure_kept := fun hf => (h.failure_kept hf).imp_right (exists_failed_notifyWhere P)
    skipped := h.skipped
    master_wait := fun b hb => by
      obtain ⟨b', hb'⟩ := notifyWhere_eq_wait hb
      rw [h0] at hb'
      cases hb'
    nIdle := by rw [sum_notifyWhere Pc.idleCount Pc.idleCount_notify]; exact h.nIdle
    nTotal := by rw [sum_notifyWhere Pc.totalCount Pc.totalCount_notify]; exact h.nTotal }

/-- The master calls `Wait()`. -/
theorem Inv.enter {s : System T n} (h : Inv call s) (h0 : s.pc 0 = .idle) :
    Inv call { s with pc := Function.update s.pc 0 (.loop [] 0 true) } := by
  -- neither position of the master counts in any counter
  have hsum : ∀ g : Pc T → Nat, g .idle = g (.loop [] 0 true) →
      ∑ t, g (Function.update s.pc 0 (.loop [] 0 true) t) = ∑ t, g (s.pc t) :=
    fun g hg => sum_update_of_eq s.pc g (by rw [h0]; exact hg)
  exact {
    todo := by
      dsimp only
      rw [hsum Pc.held rfl]
      exact h.todo
    checks := by
      dsimp only
      have := sum_batch_update s.pc 0 (.loop [] 0 true)
      rw [h0, Pc.batch, Pc.batch, Multiset.coe_nil, add_zero, add_zero] at this
      rw [this]
      exact h.checks
    results := h.results
    batch_le := fun t vChecks nNow fOk ht => by
      rcases update_eq_loop ht with ⟨-, he⟩ | ⟨-, ht⟩
      · cases he
        exact ⟨le_refl 0, fun _ => rfl⟩
      · exact h.batch_le t vChecks nNow fOk ht
    allOk_false := h.allOk_false
    fOk_false := fun t vChecks nNow ht => by
      rcases update_eq_loop ht with ⟨-, he⟩ | ⟨-, ht⟩
      · cases he
      · exact h.fOk_false t vChecks nNow ht
    failure_kept := fun hf => (h.failure_kept hf).imp_right
      (exists_failed_update _ (by rw [h0]; intro _ _ he; cases he))
    skipped := h.skipped
    master_wait := fun b hb => by
      dsimp only at hb
      rw [Function.update_self] at hb
      cases hb
    nIdle := by
      dsimp only
      rw [hsum Pc.idleCount rfl]
      exact h.nIdle
    nTotal := by
      dsimp only
      rw [hsum Pc.totalCount rfl]
      exact h.nTotal }

/-- A notification, or a spurious wakeup. -/
theorem Inv.notify {s : System T n} (h : Inv call s) (P : Fin (n + 1) → Prop) [DecidablePred P] :
    Inv call { s with pc := notifyWhere P s.pc } :=
  { todo := by dsimp only; rw [sum_notifyWhere Pc.held Pc.held_notify]; exact h.todo
    checks := by dsimp only; rw [sum_batch_notifyWhere]; exact h.checks
    results := h.results
    batch_le := fun u vs k f hu => h.batch_le u vs k f (notifyWhere_eq_loop.mp hu)
    allOk_false := h.allOk_false
    fOk_false := fun u vs k hu => h.fOk_false u vs k (notifyWhere_eq_loop.mp hu)
    failure_kept := fun hf => (h.failure_kept hf).imp_right (exists_failed_notifyWhere P)
    skipped := h.skipped
    master_wait := fun b hb => by
      dsimp only at hb
      obtain ⟨b', hb'⟩ := notifyWhere_eq_wait hb
      refine ⟨(h.master_wait b' hb').1, fun hb0 => ?_⟩
      subst hb0
      -- a master still blocked was blocked before
      exact (h.master_wait false (notifyWhere_eq_wait_false hb).2).2 rfl
    nIdle := by dsimp only; rw [sum_notifyWhere Pc.idleCount Pc.idleCount_notify]; exact h.nIdle
    nTotal := by
      dsimp only
      rw [sum_notifyWhere Pc.totalCount Pc.totalCount_notify]
      exact h.nTotal }

/-! ### The steps of `Loop` -/

/-- `if (fOk) fOk = check();` -/
theorem Inv.execute {s : System T n} {t : Fin (n + 1)} {check : T} {vChecks : List T}
    {nNow : Nat} {fOk : Bool} (h : Inv call s) (ht : s.pc t = .loop (check :: vChecks) nNow fOk) :
    Inv call (CheckQueue.execute call s t check vChecks nNow fOk) := by
  obtain ⟨hlen, -⟩ := h.batch_le t _ nNow fOk ht
  rw [List.length_cons] at hlen
  -- the thread keeps its batch of `nNow`, one check shorter, whatever the check returns
  have hsum : ∀ (b : Bool) (g : Pc T → Nat),
      g (.loop (check :: vChecks) nNow fOk) = g (.loop vChecks nNow b) →
      ∑ u, g (Function.update s.pc t (.loop vChecks nNow b) u) = ∑ u, g (s.pc u) :=
    fun b g hg => sum_update_of_eq s.pc g (by rw [ht]; exact hg)
  have hbatch : ∀ b : Bool, ∑ u, ((s.pc u).batch : Multiset T) =
      ∑ u, ((Function.update s.pc t (.loop vChecks nNow b) u).batch : Multiset T) + {check} :=
    fun b => by
      have := sum_batch_update s.pc t (.loop vChecks nNow b)
      rw [ht, Pc.batch, Pc.batch, ← Multiset.cons_coe, ← Multiset.singleton_add, ← add_assoc] at this
      exact (add_right_cancel this).symm
  have hle : ∀ b u vs k f, Function.update s.pc t (.loop vChecks nNow b) u = .loop vs k f →
      vs.length ≤ k ∧ (k = 0 → f = true) := fun b u vs k f hu => by
    rcases update_eq_loop hu with ⟨-, he⟩ | ⟨-, hu⟩
    · cases he
      exact ⟨by omega, fun hk => absurd hk (by omega)⟩
    · exact h.batch_le u vs k f hu
  have hmaster : ∀ b b', Function.update s.pc t (.loop vChecks nNow b) 0 = .wait b' →
      s.pc 0 = .wait b' :=
    fun b b' hw => (update_eq_wait_of_ne (by intro _ h; cases h) hw).2
  unfold CheckQueue.execute
  cases fOk with
  | true =>
    -- the check runs, and its result is the batch's
    simp only [↓reduceIte]
    exact {
      todo := by dsimp only; rw [hsum _ Pc.held rfl]; exact h.todo
      checks := by
        dsimp only
        rw [h.checks, hbatch (call check), List.map_cons, ← Multiset.cons_coe,
          ← Multiset.singleton_add]
        ac_rfl
      results := fun p hp => by
        rcases List.mem_cons.mp hp with rfl | hp
        · rfl
        · exact h.results p hp
      batch_le := hle _
      allOk_false := fun hf => (h.allOk_false hf).mono (List.subset_cons_self _ _)
      fOk_false := fun u vs k hu => by
        rcases update_eq_loop hu with ⟨-, he⟩ | ⟨-, hu⟩
        · injection he with _ _ hc
          exact ⟨check, by rw [← hc]; exact List.mem_cons_self⟩
        · exact (h.fOk_false u vs k hu).mono (List.subset_cons_self _ _)
      failure_kept := by
        rintro ⟨c, hc⟩
        rcases List.mem_cons.mp hc with he | hc
        · -- this check failed: the batch's `fOk` keeps it
          injection he with _ hc
          exact .inr ⟨t, vChecks, nNow, by dsimp only; rw [Function.update_self, ← hc]⟩
        · exact (h.failure_kept ⟨c, hc⟩).imp_right
            (exists_failed_update _ (by rw [ht]; intro _ _ he; cases he))
      skipped := fun hs => (h.skipped hs).mono (List.subset_cons_self _ _)
      master_wait := fun b hb => h.master_wait b (hmaster _ b hb)
      nIdle := by dsimp only; rw [hsum _ Pc.idleCount rfl]; exact h.nIdle
      nTotal := by dsimp only; rw [hsum _ Pc.totalCount rfl]; exact h.nTotal }
  | false =>
    -- the check is skipped, after a failure
    simp only [Bool.false_eq_true, ↓reduceIte]
    exact {
      todo := by dsimp only; rw [hsum _ Pc.held rfl]; exact h.todo
      checks := by
        dsimp only
        rw [h.checks, hbatch false, ← Multiset.cons_coe, ← Multiset.singleton_add]
        ac_rfl
      results := h.results
      batch_le := hle _
      allOk_false := h.allOk_false
      fOk_false := fun u vs k hu => by
        rcases update_eq_loop hu with ⟨-, -⟩ | ⟨-, hu⟩
        · exact h.fOk_false t _ nNow ht
        · exact h.fOk_false u vs k hu
      -- the batch itself now carries the failure
      failure_kept := fun _ => .inr ⟨t, vChecks, nNow, by dsimp only; rw [Function.update_self]⟩
      skipped := fun _ => h.fOk_false t _ nNow ht
      master_wait := fun b hb => h.master_wait b (hmaster _ b hb)
      nIdle := by dsimp only; rw [hsum _ Pc.idleCount rfl]; exact h.nIdle
      nTotal := by dsimp only; rw [hsum _ Pc.totalCount rfl]; exact h.nTotal }

/-- The first critical section of a thread: `nTotal++`. -/
theorem Inv.cleanup_first {s : System T n} {t : Fin (n + 1)} {fOk : Bool} (h : Inv call s)
    (ht : s.pc t = .loop [] 0 fOk) : Inv call (CheckQueue.cleanup s t 0 fOk) := by
  have hok : fOk = true := (h.batch_le t [] 0 fOk ht).2 rfl
  have hsum : ∀ g : Pc T → Nat, g (.loop [] 0 fOk) = g .locked →
      ∑ u, g (Function.update s.pc t .locked u) = ∑ u, g (s.pc u) :=
    fun g hg => sum_update_of_eq s.pc g (by rw [ht]; exact hg)
  simp only [CheckQueue.cleanup, ne_eq, not_true_eq_false, ↓reduceIte]
  exact {
    todo := by dsimp only; rw [hsum Pc.held rfl]; exact h.todo
    checks := by dsimp only; rw [sum_batch_update_of_eq (by rw [ht]; rfl)]; exact h.checks
    results := h.results
    batch_le := fun u vs k f hu => h.batch_le u vs k f (update_locked_eq_loop hu).2
    allOk_false := h.allOk_false
    fOk_false := fun u vs k hu => h.fOk_false u vs k (update_locked_eq_loop hu).2
    failure_kept := fun hf => (h.failure_kept hf).imp_right
      (exists_failed_update _ (by rw [ht, hok]; intro _ _ he; cases he))
    skipped := h.skipped
    master_wait := fun b hb => h.master_wait b (update_eq_wait_of_ne (by intro _ h; cases h) hb).2
    nIdle := by dsimp only; rw [hsum Pc.idleCount rfl]; exact h.nIdle
    nTotal := by
      dsimp only
      have := sum_update s.pc Pc.totalCount t .locked
      rw [ht] at this
      change _ + 0 = _ + 1 at this
      rw [h.nTotal]
      omega }

/-- The clean-up of the previous loop run: the batch's result and size folded back, and the
master notified by the worker that finishes the last check. -/
theorem Inv.cleanup_fold {s : System T n} {t : Fin (n + 1)} {nNow : Nat} {fOk : Bool}
    (h : Inv call s) (ht : s.pc t = .loop [] nNow fOk) (hn : nNow ≠ 0) :
    Inv call (CheckQueue.cleanup s t nNow fOk) := by
  have hheld := sum_update s.pc Pc.held t .locked
  rw [ht] at hheld
  change _ + nNow = _ + 0 at hheld
  have hsum : ∀ g : Pc T → Nat, g (.loop [] nNow fOk) = g .locked →
      ∑ u, g (Function.update s.pc t .locked u) = ∑ u, g (s.pc u) :=
    fun g hg => sum_update_of_eq s.pc g (by rw [ht]; exact hg)
  simp only [CheckQueue.cleanup, ne_eq, hn, not_false_eq_true, ↓reduceIte, ite_notifyWhere_master]
  exact {
    todo := by
      dsimp only
      rw [sum_notifyWhere Pc.held Pc.held_notify, h.todo]
      omega
    checks := by
      dsimp only
      rw [sum_batch_notifyWhere, sum_batch_update_of_eq (by rw [ht]; rfl)]
      exact h.checks
    results := h.results
    batch_le := fun u vs k f hu => by
      dsimp only at hu
      exact h.batch_le u vs k f (update_locked_eq_loop (notifyWhere_eq_loop.mp hu)).2
    allOk_false := fun hf => by
      rcases Bool.and_eq_false_iff.mp hf with hf | hf
      · exact h.allOk_false hf
      · exact h.fOk_false t [] nNow (by rw [← hf]; exact ht)
    fOk_false := fun u vs k hu => by
      dsimp only at hu
      exact h.fOk_false u vs k (update_locked_eq_loop (notifyWhere_eq_loop.mp hu)).2
    failure_kept := fun hf => by
      rcases h.failure_kept hf with ha | ⟨u, vs, k, hu⟩
      · exact .inl (by dsimp only; rw [ha, Bool.false_and])
      · by_cases hne : u = t
        · -- the failed batch is the one folded back
          rw [hne, ht] at hu
          injection hu with _ _ hf
          exact .inl (by dsimp only; rw [hf, Bool.and_false])
        · refine .inr ⟨u, vs, k, ?_⟩
          dsimp only
          exact notifyWhere_eq_loop.mpr (by rw [update_ne_eq hne]; exact hu)
    skipped := h.skipped
    master_wait := fun b hb => by
      dsimp only at hb
      obtain ⟨b', hb'⟩ := notifyWhere_eq_wait hb
      obtain ⟨ht0, hw⟩ := update_eq_wait_of_ne (by intro _ h; cases h) hb'
      refine ⟨(h.master_wait b' hw).1, fun hb0 => ?_⟩
      subst hb0
      -- a master left blocked was not notified, so some check is still outstanding
      obtain ⟨hP, -⟩ := notifyWhere_eq_wait_false hb
      have hleft : s.q.nTodo - nNow ≠ 0 := fun h0 => hP ⟨rfl, h0, fMaster_eq_false.mpr ht0⟩
      dsimp only
      omega
    nIdle := by
      dsimp only
      rw [sum_notifyWhere Pc.idleCount Pc.idleCount_notify, hsum Pc.idleCount rfl]
      exact h.nIdle
    nTotal := by
      dsimp only
      rw [sum_notifyWhere Pc.totalCount Pc.totalCount_notify, hsum Pc.totalCount (by simp [hn])]
      exact h.nTotal }

/-- Back from `cond.wait(lock)`: `nIdle--`. -/
theorem Inv.wakeUp {s : System T n} {t : Fin (n + 1)} (h : Inv call s) (ht : s.pc t = .wait true) :
    Inv call (CheckQueue.wakeUp s t) := by
  have hsum : ∀ g : Pc T → Nat, g (.wait true) = g .locked →
      ∑ u, g (Function.update s.pc t .locked u) = ∑ u, g (s.pc u) :=
    fun g hg => sum_update_of_eq s.pc g (by rw [ht]; exact hg)
  unfold CheckQueue.wakeUp
  exact {
    todo := by dsimp only; rw [hsum Pc.held rfl]; exact h.todo
    checks := by dsimp only; rw [sum_batch_update_of_eq (by rw [ht]; rfl)]; exact h.checks
    results := h.results
    batch_le := fun u vs k f hu => h.batch_le u vs k f (update_locked_eq_loop hu).2
    allOk_false := h.allOk_false
    fOk_false := fun u vs k hu => h.fOk_false u vs k (update_locked_eq_loop hu).2
    failure_kept := fun hf => (h.failure_kept hf).imp_right
      (exists_failed_update _ (by rw [ht]; intro _ _ he; cases he))
    skipped := h.skipped
    master_wait := fun b hb => h.master_wait b (update_eq_wait_of_ne (by intro _ h; cases h) hb).2
    nIdle := by
      dsimp only
      have := sum_update s.pc Pc.idleCount t .locked
      rw [ht] at this
      change _ + 1 = _ + 0 at this
      rw [h.nIdle]
      omega
    nTotal := by dsimp only; rw [hsum Pc.totalCount rfl]; exact h.nTotal }

/-- `return fRet` with no work left: the master's `Wait` ends the round. -/
theorem Inv.whileEmpty_return {s : System T n} {t : Fin (n + 1)} (h : Inv call s)
    (ht : s.pc t = .locked) (hq : s.q.queue = [])
    (hr : ((fMaster t || s.q.fQuit) && s.q.nTodo == 0) = true) :
    Inv call (CheckQueue.whileEmpty s t) := by
  have h0 : s.q.nTodo = 0 := by
    rw [Bool.and_eq_true, beq_iff_eq] at hr
    exact hr.2
  have hsum : ∀ g : Pc T → Nat, g .locked = g .idle →
      ∑ u, g (Function.update s.pc t .idle u) = ∑ u, g (s.pc u) :=
    fun g hg => sum_update_of_eq s.pc g (by rw [ht]; exact hg)
  have htotal := sum_update s.pc Pc.totalCount t .idle
  rw [ht] at htotal
  change _ + 1 = _ + 0 at htotal
  have hidle : ∀ u vs k f, Function.update s.pc t .idle u = .loop vs k f → s.pc u = .loop vs k f :=
    fun u vs k f hu => by
      rcases update_eq_loop hu with ⟨-, he⟩ | ⟨-, hu⟩
      · cases he
      · exact hu
  unfold CheckQueue.whileEmpty
  rw [if_pos (List.isEmpty_iff.mpr hq), if_pos hr]
  by_cases ht0 : t = 0
  · -- the master returns, and the next round starts with nothing done
    subst ht0
    simp only [fMaster, decide_true, ↓reduceIte]
    exact {
      todo := by dsimp only; rw [hsum Pc.held rfl]; exact h.todo
      checks := by
        dsimp only
        rw [sum_batch_update_of_eq (by rw [ht]; rfl), h.sum_batch_of_quiet h0, hq]
        rfl
      results := fun p hp => by cases hp
      batch_le := fun u vs k f hu => h.batch_le u vs k f (hidle u vs k f hu)
      allOk_false := fun hf => by cases hf
      fOk_false := fun u vs k hu => absurd (h.quiet h0 (hidle u vs k false hu)).2.2 (by decide)
      failure_kept := by rintro ⟨_, hc⟩; cases hc
      skipped := fun hs => absurd rfl hs
      master_wait := fun b hb => by
        dsimp only at hb
        rw [Function.update_self] at hb
        cases hb
      nIdle := by dsimp only; rw [hsum Pc.idleCount rfl]; exact h.nIdle
      nTotal := by dsimp only; rw [h.nTotal]; omega }
  · -- a worker returns, once `fQuit` is set
    have hf : fMaster t = false := fMaster_eq_false.mpr ht0
    simp only [hf, Bool.false_eq_true, ↓reduceIte]
    exact {
      todo := by dsimp only; rw [hsum Pc.held rfl]; exact h.todo
      checks := by dsimp only; rw [sum_batch_update_of_eq (by rw [ht]; rfl)]; exact h.checks
      results := h.results
      batch_le := fun u vs k f hu => h.batch_le u vs k f (hidle u vs k f hu)
      allOk_false := h.allOk_false
      fOk_false := fun u vs k hu => h.fOk_false u vs k (hidle u vs k false hu)
      failure_kept := fun hf => (h.failure_kept hf).imp_right
        (exists_failed_update _ (by rw [ht]; intro _ _ he; cases he))
      skipped := h.skipped
      master_wait := fun b hb =>
        h.master_wait b (update_eq_wait_of_ne (by intro _ h; cases h) hb).2
      nIdle := by dsimp only; rw [hsum Pc.idleCount rfl]; exact h.nIdle
      nTotal := by dsimp only; rw [h.nTotal]; omega }

/-- `nIdle++; cond.wait(lock);` on an empty queue, with work outstanding or as a worker. -/
theorem Inv.whileEmpty_wait {s : System T n} {t : Fin (n + 1)} (h : Inv call s)
    (ht : s.pc t = .locked) (hq : s.q.queue = [])
    (hr : ¬ ((fMaster t || s.q.fQuit) && s.q.nTodo == 0) = true) :
    Inv call (CheckQueue.whileEmpty s t) := by
  have hsum : ∀ g : Pc T → Nat, g .locked = g (.wait false) →
      ∑ u, g (Function.update s.pc t (.wait false) u) = ∑ u, g (s.pc u) :=
    fun g hg => sum_update_of_eq s.pc g (by rw [ht]; exact hg)
  have hwait : ∀ u vs k f, Function.update s.pc t (.wait false) u = .loop vs k f →
      s.pc u = .loop vs k f := fun u vs k f hu => by
    rcases update_eq_loop hu with ⟨-, he⟩ | ⟨-, hu⟩
    · cases he
    · exact hu
  unfold CheckQueue.whileEmpty
  rw [if_pos (List.isEmpty_iff.mpr hq), if_neg hr]
  exact {
    todo := by dsimp only; rw [hsum Pc.held rfl]; exact h.todo
    checks := by dsimp only; rw [sum_batch_update_of_eq (by rw [ht]; rfl)]; exact h.checks
    results := h.results
    batch_le := fun u vs k f hu => h.batch_le u vs k f (hwait u vs k f hu)
    allOk_false := h.allOk_false
    fOk_false := fun u vs k hu => h.fOk_false u vs k (hwait u vs k false hu)
    failure_kept := fun hf => (h.failure_kept hf).imp_right
      (exists_failed_update _ (by rw [ht]; intro _ _ he; cases he))
    skipped := h.skipped
    master_wait := fun b hb => by
      dsimp only at hb ⊢
      by_cases ht0 : t = 0
      · -- the master waits only with checks outstanding
        subst ht0
        refine ⟨hq, fun _ => ?_⟩
        simp only [fMaster, decide_true, Bool.true_or, Bool.true_and, beq_iff_eq] at hr
        omega
      · rw [update_ne_eq (Ne.symm ht0)] at hb
        exact h.master_wait b hb
    nIdle := by
      dsimp only
      have := sum_update s.pc Pc.idleCount t (.wait false)
      rw [ht] at this
      change _ + 0 = _ + 1 at this
      rw [h.nIdle]
      omega
    nTotal := by dsimp only; rw [hsum Pc.totalCount rfl]; exact h.nTotal }

/-- A batch of `nNow` checks from the back of a queue that is not empty, with `fOk = fAllOk`. -/
theorem Inv.whileEmpty_batch {s : System T n} {t : Fin (n + 1)} (h : Inv call s)
    (ht : s.pc t = .locked) (hq : s.q.queue ≠ []) : Inv call (CheckQueue.whileEmpty s t) := by
  unfold CheckQueue.whileEmpty
  rw [if_neg (by rw [List.isEmpty_iff]; exact hq)]
  obtain ⟨hk1, hkL⟩ := nNow_bounds s.q.nBatchSize s.q.queue.length (s.q.nTotal + s.q.nIdle + 1)
    (by rwa [Ne, List.length_eq_zero_iff])
  generalize max 1 (min s.q.nBatchSize (s.q.queue.length / (s.q.nTotal + s.q.nIdle + 1))) = k
    at hk1 hkL ⊢
  have hheld := sum_update s.pc Pc.held t (.loop (s.q.queue.take k) k s.q.fAllOk)
  rw [ht] at hheld
  change _ + 0 = _ + k at hheld
  have hbatch := sum_batch_update s.pc t (.loop (s.q.queue.take k) k s.q.fAllOk)
  rw [ht, Pc.batch, Pc.batch, Multiset.coe_nil, add_zero] at hbatch
  have hsum : ∀ g : Pc T → Nat, g .locked = g (.loop (s.q.queue.take k) k s.q.fAllOk) →
      ∑ u, g (Function.update s.pc t (.loop (s.q.queue.take k) k s.q.fAllOk) u) = ∑ u, g (s.pc u) :=
    fun g hg => sum_update_of_eq s.pc g (by rw [ht]; exact hg)
  exact {
    todo := by
      dsimp only
      rw [List.length_drop, h.todo]
      omega
    checks := by
      dsimp only
      rw [hbatch, h.checks, ← List.take_append_drop k s.q.queue, ← Multiset.coe_add,
        List.take_append_drop]
      ac_rfl
    results := h.results
    batch_le := fun u vs k' f hu => by
      rcases update_eq_loop hu with ⟨-, he⟩ | ⟨-, hu⟩
      · injection he with hvs hk hf
        subst hvs hk
        exact ⟨List.length_take_le _ _, fun h0 => absurd h0 (by omega)⟩
      · exact h.batch_le u vs k' f hu
    allOk_false := h.allOk_false
    fOk_false := fun u vs k' hu => by
      rcases update_eq_loop hu with ⟨-, he⟩ | ⟨-, hu⟩
      · -- the batch starts failed only if `fAllOk` is
        injection he with _ _ hf
        exact h.allOk_false hf
      · exact h.fOk_false u vs k' hu
    failure_kept := fun hf => (h.failure_kept hf).imp_right
      (exists_failed_update _ (by rw [ht]; intro _ _ he; cases he))
    skipped := h.skipped
    master_wait := fun b hb => by
      -- a blocked master would have an empty queue
      obtain ⟨-, hw⟩ := update_eq_wait_of_ne (by intro _ h; cases h) hb
      exact absurd (h.master_wait b hw).1 hq
    nIdle := by dsimp only; rw [hsum Pc.idleCount rfl]; exact h.nIdle
    nTotal := by
      dsimp only
      rw [hsum Pc.totalCount (by simp only [Pc.totalCount]; rw [if_neg (by omega)])]
      exact h.nTotal }

/-- The `while (queue.empty())` loop keeps the invariant, whichever way it ends. -/
theorem Inv.whileEmpty {s : System T n} {t : Fin (n + 1)} (h : Inv call s)
    (ht : s.pc t = .locked) : Inv call (CheckQueue.whileEmpty s t) := by
  by_cases hq : s.q.queue = []
  · by_cases hr : ((fMaster t || s.q.fQuit) && s.q.nTodo == 0) = true
    · exact h.whileEmpty_return ht hq hr
    · exact h.whileEmpty_wait ht hq hr
  · exact h.whileEmpty_batch ht hq

/-- Every step keeps the invariant. -/
theorem Inv.step {s s' : System T n} {a : Action T n} (h : Inv call s)
    (hs : CheckQueue.step call s a = some s') : Inv call s' := by
  rcases step_cases hs with ⟨vChecks, pick, h0, hadd⟩ | ⟨h0, rfl⟩ |
      ⟨t, check, vChecks, nNow, fOk, ht, rfl⟩ | ⟨t, nNow, fOk, ht, rfl⟩ | ⟨t, ht, rfl⟩ |
      ⟨t, -, -, rfl⟩
  · exact h.add h0 hadd
  · exact h.enter h0
  · exact h.execute ht
  · -- the critical section after a batch, or the first one
    have hc : Inv call (CheckQueue.cleanup s t nNow fOk) := by
      by_cases hn : nNow = 0
      · subst hn
        exact h.cleanup_first ht
      · exact h.cleanup_fold ht hn
    exact hc.whileEmpty (cleanup_pc_self s t nNow fOk)
  · exact (h.wakeUp ht).whileEmpty (wakeUp_pc_self s t)
  · exact h.notify _

/-- The invariant holds of every state of every interleaving. -/
theorem Reachable.inv {nBatchSize : Nat} {s : System T n} (hs : Reachable call nBatchSize s) :
    Inv call s :=
  Reachable.invariant (Inv.init nBatchSize) (fun _ _ _ h hst => hst.elim fun _ => h.step) hs

end Trumpow.CheckQueue
