import Trumpow.Support.Transition

/-!
# CheckQueue — `CCheckQueue` and its threads

`checkqueue.h`.  A `CCheckQueue<T>` holds, under one `mutex`, a stack `queue` of checks, the
counters `nIdle`, `nTotal` and `nTodo`, the running result `fAllOk` and the flag `fQuit`.  The
master (thread `0`) pushes checks with `Add` and then joins the workers with `Wait`, that is
`Loop(true)`; the `n` workers run `Thread()`, that is `Loop(false)`, from the start.  A check is
a `T` and `call` its `operator()`.

The system is the queue's state with where each thread is (`Pc`), and moves by one thread's step
(`step`): a critical section of `Loop`, `Add` or the call of `Wait` as one step, since the mutex
makes each of them atomic, and each check run outside the lock as one step of its own.  Waiting
on a condition variable is a state of the thread, which a notification ends (`notify_one` gives
it to one blocked thread of the scheduler's choice, `notify_all` to all) or a spurious wakeup,
which boost allows (`Action.spurious`).

Ghost state, read by no code, records what the current round did with its checks (`Round`) and
what each `Wait` returned.  `step_cases` says everything one step can do.
-/

namespace Trumpow.CheckQueue

open Transition

variable {T : Type*} {n : Nat}

/-- The state `mutex` protects. -/
structure CCheckQueue (T : Type*) where
  /-- The checks to run: a vector used as a stack, its back first. -/
  queue : List T
  nIdle : Nat
  nTotal : Nat
  fAllOk : Bool
  nTodo : Nat
  fQuit : Bool
  nBatchSize : Nat

/-- `CCheckQueue(nBatchSizeIn)`. -/
def CCheckQueue.init (nBatchSizeIn : Nat) : CCheckQueue T :=
  ⟨[], 0, 0, true, 0, false, nBatchSizeIn⟩

/-- Where a thread is.  `loop vChecks nNow fOk` is in the body of `Loop` outside the lock, with
its locals: the checks of its batch still to run, the size of the batch, and whether its checks
passed so far; `Loop` starts as `loop [] 0 true`.  `locked` is inside a critical section at the
`while (queue.empty())` test, which no step ends in.  `wait notified` is in `cond.wait(lock)`. -/
inductive Pc (T : Type*) where
  | idle
  | loop (vChecks : List T) (nNow : Nat) (fOk : Bool)
  | locked
  | wait (notified : Bool)

namespace Pc

/-- A notification reaching the thread. -/
@[simp] def notify : Pc T → Pc T
  | idle => idle
  | loop vChecks nNow fOk => loop vChecks nNow fOk
  | locked => locked
  | wait _ => wait true

/-- Blocked in `cond.wait` with no notification yet. -/
@[simp] def isBlocked : Pc T → Bool
  | idle | loop _ _ _ | locked => false
  | wait notified => !notified

/-- The checks of the thread's batch that `nTodo` still counts. -/
@[simp] def held : Pc T → Nat
  | idle | locked | wait _ => 0
  | loop _ nNow _ => nNow

/-- The checks of the thread's batch it has not run yet. -/
@[simp] def batch : Pc T → List T
  | idle | locked | wait _ => []
  | loop vChecks _ _ => vChecks

/-- The thread as `nIdle` counts it. -/
@[simp] def idleCount : Pc T → Nat
  | idle | loop _ _ _ | locked => 0
  | wait _ => 1

/-- The thread as `nTotal` counts it: in `Loop` and past its first critical section. -/
@[simp] def totalCount : Pc T → Nat
  | loop _ nNow _ => if nNow = 0 then 0 else 1
  | locked | wait _ => 1
  | idle => 0

@[simp] theorem held_notify (p : Pc T) : p.notify.held = p.held := by cases p <;> rfl

@[simp] theorem batch_notify (p : Pc T) : p.notify.batch = p.batch := by cases p <;> rfl

@[simp] theorem idleCount_notify (p : Pc T) : p.notify.idleCount = p.idleCount := by
  cases p <;> rfl

@[simp] theorem totalCount_notify (p : Pc T) : p.notify.totalCount = p.totalCount := by
  cases p <;> rfl

end Pc

/-- What the current round did with its checks (ghost). -/
structure Round (T : Type*) where
  added : List T := []
  executed : List (T × Bool) := []
  skipped : List T := []

/-- The queue, the master (thread `0`) and `n` workers. -/
structure System (T : Type*) (n : Nat) where
  q : CCheckQueue T
  pc : Fin (n + 1) → Pc T
  round : Round T
  /-- What each `Wait` returned, the latest first (ghost). -/
  results : List Bool

/-- A new queue, the master outside `Wait` and every worker at the start of `Thread()`. -/
def System.init (n nBatchSize : Nat) : System T n :=
  ⟨CCheckQueue.init nBatchSize, fun t => if t = 0 then .idle else .loop [] 0 true, {}, []⟩

/-- Thread `t` runs `Loop(true)`. -/
def fMaster (t : Fin (n + 1)) : Bool := decide (t = 0)

/-- The threads `P` picks get a notification. -/
def notifyWhere (P : Fin (n + 1) → Prop) [DecidablePred P] (pc : Fin (n + 1) → Pc T) :
    Fin (n + 1) → Pc T :=
  fun u => if P u then (pc u).notify else pc u

@[simp] theorem fMaster_eq_true {t : Fin (n + 1)} : fMaster t = true ↔ t = 0 := decide_eq_true_iff

@[simp] theorem fMaster_eq_false {t : Fin (n + 1)} : fMaster t = false ↔ t ≠ 0 := by
  simp [fMaster]

section Notify

variable {P : Fin (n + 1) → Prop} [DecidablePred P] {pc : Fin (n + 1) → Pc T}

theorem notifyWhere_of_not {u : Fin (n + 1)} (h : ¬ P u) : notifyWhere P pc u = pc u := if_neg h

/-- A counter that does not tell a notified thread from a waiting one is the same after
notifications. -/
theorem sum_notifyWhere {M : Type*} [AddCommMonoid M] (g : Pc T → M)
    (hg : ∀ p, g p.notify = g p) : ∑ u, g (notifyWhere P pc u) = ∑ u, g (pc u) :=
  Finset.sum_congr rfl fun u _ => by
    unfold notifyWhere
    split
    · exact hg _
    · rfl

theorem notifyWhere_eq_loop {u : Fin (n + 1)} {vChecks : List T} {nNow : Nat} {fOk : Bool} :
    notifyWhere P pc u = .loop vChecks nNow fOk ↔ pc u = .loop vChecks nNow fOk := by
  unfold notifyWhere
  split
  · cases pc u <;> simp
  · rfl

theorem notifyWhere_eq_wait {u : Fin (n + 1)} {b : Bool} (h : notifyWhere P pc u = .wait b) :
    ∃ b', pc u = .wait b' := by
  unfold notifyWhere at h
  split at h
  · cases hu : pc u <;> simp_all
  · exact ⟨b, h⟩

/-- A thread still blocked was not notified. -/
theorem notifyWhere_eq_wait_false {u : Fin (n + 1)} (h : notifyWhere P pc u = .wait false) :
    ¬ P u ∧ pc u = .wait false := by
  unfold notifyWhere at h
  split at h
  · cases hu : pc u <;> simp_all
  · exact ⟨‹_›, h⟩

theorem notifyWhere_eq_idle {u : Fin (n + 1)} : notifyWhere P pc u = .idle ↔ pc u = .idle := by
  unfold notifyWhere
  split
  · cases pc u <;> simp
  · rfl

theorem notifyWhere_eq_locked {u : Fin (n + 1)} :
    notifyWhere P pc u = .locked ↔ pc u = .locked := by
  unfold notifyWhere
  split
  · cases pc u <;> simp
  · rfl

theorem notifyWhere_false : notifyWhere (fun _ => False) pc = pc := rfl

/-- `if (c) condMaster.notify_one();` -/
theorem ite_notifyWhere_master (c : Prop) [Decidable c] :
    (if c then notifyWhere (· = 0) pc else pc) = notifyWhere (fun u => u = 0 ∧ c) pc := by
  funext u
  by_cases hc : c <;> simp [hc, notifyWhere]

end Notify

section Code

variable (call : T → Bool)

/-- The `while (queue.empty())` loop of thread `t`, holding the lock, up to where the thread
returns, waits, or takes a batch and leaves the lock. -/
def whileEmpty (s : System T n) (t : Fin (n + 1)) : System T n :=
  if s.q.queue.isEmpty then
    if (fMaster t || s.q.fQuit) && s.q.nTodo == 0 then
      -- `return fRet`; the master resets `fAllOk` for new work later
      { q := { s.q with nTotal := s.q.nTotal - 1
                        fAllOk := if fMaster t then true else s.q.fAllOk }
        pc := Function.update s.pc t .idle
        round := if fMaster t then {} else s.round
        results := if fMaster t then s.q.fAllOk :: s.results else s.results }
    else
      -- `nIdle++; cond.wait(lock);`
      { s with q := { s.q with nIdle := s.q.nIdle + 1 }, pc := Function.update s.pc t (.wait false) }
  else
    -- aim for smaller batches as the queue empties, counting the idle threads
    let nNow := max 1 (min s.q.nBatchSize (s.q.queue.length / (s.q.nTotal + s.q.nIdle + 1)))
    { s with q := { s.q with queue := s.q.queue.drop nNow }
             pc := Function.update s.pc t (.loop (s.q.queue.take nNow) nNow s.q.fAllOk) }

/-- The start of thread `t`'s critical section, after a batch of `nNow` checks whose result is
`fOk`: the clean-up of the previous loop run, or `nTotal++` on the first iteration. -/
def cleanup (s : System T n) (t : Fin (n + 1)) (nNow : Nat) (fOk : Bool) : System T n :=
  let pc := Function.update s.pc t .locked
  if nNow ≠ 0 then
    let nTodo := s.q.nTodo - nNow
    -- the last check done: `condMaster.notify_one()`
    { s with q := { s.q with fAllOk := s.q.fAllOk && fOk, nTodo := nTodo }
             pc := if nTodo = 0 ∧ fMaster t = false then notifyWhere (· = 0) pc else pc }
  else { s with q := { s.q with nTotal := s.q.nTotal + 1 }, pc := pc }

/-- Back from `cond.wait(lock)` with the lock: `nIdle--`. -/
def wakeUp (s : System T n) (t : Fin (n + 1)) : System T n :=
  { s with q := { s.q with nIdle := s.q.nIdle - 1 }, pc := Function.update s.pc t .locked }

/-- `if (fOk) fOk = check();` for the next check of thread `t`'s batch. -/
def execute (s : System T n) (t : Fin (n + 1)) (check : T) (vChecks : List T) (nNow : Nat)
    (fOk : Bool) : System T n :=
  { s with pc := Function.update s.pc t (.loop vChecks nNow (if fOk then call check else fOk))
           round := if fOk then { s.round with executed := (check, call check) :: s.round.executed }
             else { s.round with skipped := check :: s.round.skipped } }

/-- `Add(vChecks)`: each check pushed on the back of the queue, `nTodo` counting them, one
worker notified for one check and all for more.  `notify_one` wakes the worker `pick`, which is
blocked if some worker is. -/
def add (s : System T n) (vChecks : List T) (pick : Fin (n + 1)) : Option (System T n) :=
  let q := { s.q with queue := vChecks.reverse ++ s.q.queue, nTodo := s.q.nTodo + vChecks.length }
  let round := { s.round with added := s.round.added ++ vChecks }
  if vChecks.length = 1 then
    if (∃ u, u ≠ 0 ∧ (s.pc u).isBlocked) → pick ≠ 0 ∧ (s.pc pick).isBlocked then
      some { s with q := q, pc := notifyWhere (· = pick) s.pc, round := round }
    else none
  else if vChecks.length > 1 then
    some { s with q := q, pc := notifyWhere (· ≠ 0) s.pc, round := round }
  else some { s with q := q, round := round }

theorem cleanup_pc_self (s : System T n) (t : Fin (n + 1)) (nNow : Nat) (fOk : Bool) :
    (cleanup s t nNow fOk).pc t = .locked := by
  unfold cleanup
  split
  · dsimp only
    rw [ite_notifyWhere_master]
    exact notifyWhere_eq_locked.mpr (Function.update_self _ _ _)
  · exact Function.update_self _ _ _

theorem cleanup_round (s : System T n) (t : Fin (n + 1)) (nNow : Nat) (fOk : Bool) :
    (cleanup s t nNow fOk).round = s.round ∧ (cleanup s t nNow fOk).results = s.results := by
  unfold cleanup
  split <;> exact ⟨rfl, rfl⟩

theorem wakeUp_pc_self (s : System T n) (t : Fin (n + 1)) : (wakeUp s t).pc t = .locked :=
  Function.update_self _ _ _

/-- The other threads keep their positions up to a notification of the master. -/
theorem cleanup_pc_of_ne (s : System T n) {t u : Fin (n + 1)} (nNow : Nat) (fOk : Bool)
    (hu : u ≠ t) : (cleanup s t nNow fOk).pc u = s.pc u ∨ (cleanup s t nNow fOk).pc u = (s.pc u).notify := by
  unfold cleanup
  split
  · dsimp only
    rw [ite_notifyWhere_master]
    unfold notifyWhere
    split
    · exact .inr (by rw [Function.update_of_ne hu])
    · exact .inl (Function.update_of_ne hu _ _)
  · exact .inl (Function.update_of_ne hu _ _)

/-- The thread leaves the critical section: it returns, waits or runs a batch. -/
theorem whileEmpty_pc_self (s : System T n) (t : Fin (n + 1)) :
    (whileEmpty s t).pc t = .idle ∨ (whileEmpty s t).pc t = .wait false ∨
      ∃ vChecks nNow fOk, (whileEmpty s t).pc t = .loop vChecks nNow fOk := by
  unfold whileEmpty
  split
  · split
    · exact .inl (Function.update_self _ _ _)
    · exact .inr (.inl (Function.update_self _ _ _))
  · exact .inr (.inr ⟨_, _, _, Function.update_self _ _ _⟩)

theorem whileEmpty_pc_of_ne (s : System T n) {t u : Fin (n + 1)} (hu : u ≠ t) :
    (whileEmpty s t).pc u = s.pc u := by
  unfold whileEmpty
  split
  · split
    · exact Function.update_of_ne hu _ _
    · exact Function.update_of_ne hu _ _
  · exact Function.update_of_ne hu _ _

/-- A batch takes one check at least and no more than the queue holds. -/
theorem nNow_bounds (nBatchSize L d : Nat) (hL : L ≠ 0) :
    1 ≤ max 1 (min nBatchSize (L / d)) ∧ max 1 (min nBatchSize (L / d)) ≤ L :=
  ⟨le_max_left _ _, max_le (by omega) (le_trans (min_le_right _ _) (Nat.div_le_self _ _))⟩

/-- `Add` pushes the checks, counts them and notifies some threads. -/
theorem add_eq_some {s s' : System T n} {vChecks : List T} {pick : Fin (n + 1)}
    (h : add s vChecks pick = some s') :
    ∃ (P : Fin (n + 1) → Prop) (_ : DecidablePred P),
      s' = { s with q := { s.q with queue := vChecks.reverse ++ s.q.queue
                                    nTodo := s.q.nTodo + vChecks.length }
                    pc := notifyWhere P s.pc
                    round := { s.round with added := s.round.added ++ vChecks } } := by
  unfold add at h
  split at h
  · split at h
    · exact ⟨_, inferInstance, (Option.some.inj h).symm⟩
    · cases h
  · split at h
    · exact ⟨_, inferInstance, (Option.some.inj h).symm⟩
    · exact ⟨fun _ => False, inferInstance, (Option.some.inj h).symm⟩

end Code

/-- A step of one thread. -/
inductive Action (T : Type*) (n : Nat) where
  /-- The master calls `Add(vChecks)`; `pick` is the worker `notify_one` wakes. -/
  | add (vChecks : List T) (pick : Fin (n + 1))
  /-- The master calls `Wait()`, that is `Loop(true)`. -/
  | wait
  /-- Thread `t` takes its next step in `Loop`. -/
  | run (t : Fin (n + 1))
  /-- Thread `t`'s `cond.wait` returns with no notification. -/
  | spurious (t : Fin (n + 1))

/-- A spurious wakeup. -/
def Action.isSpurious : Action T n → Bool
  | .spurious _ => true
  | .add _ _ | .wait | .run _ => false

/-- One step of the system; `none` where the thread cannot take it. -/
def step (call : T → Bool) (s : System T n) : Action T n → Option (System T n)
  | .add vChecks pick =>
    match s.pc 0 with
    | .idle => add s vChecks pick
    | _ => none
  | .wait =>
    match s.pc 0 with
    | .idle => some { s with pc := Function.update s.pc 0 (.loop [] 0 true) }
    | _ => none
  | .run t =>
    match s.pc t with
    | .loop (check :: vChecks) nNow fOk => some (execute call s t check vChecks nNow fOk)
    | .loop [] nNow fOk => some (whileEmpty (cleanup s t nNow fOk) t)
    | .wait true => some (whileEmpty (wakeUp s t) t)
    | _ => none
  | .spurious t =>
    match s.pc t with
    | .wait false => some { s with pc := notifyWhere (· = t) s.pc }
    | _ => none

/-- Some thread can take `s` to `s'`. -/
def Step (call : T → Bool) (s s' : System T n) : Prop := ∃ a, step call s a = some s'

/-- A step that is not a spurious wakeup. -/
def NotifiedStep (call : T → Bool) (s s' : System T n) : Prop :=
  ∃ a, a.isSpurious = false ∧ step call s a = some s'

/-- The states of every interleaving from a new queue. -/
def Reachable (call : T → Bool) (nBatchSize : Nat) (s : System T n) : Prop :=
  Transition.Reachable (Step call) (System.init n nBatchSize) s

/-- Everything one step can do. -/
theorem step_cases {call : T → Bool} {s s' : System T n} {a : Action T n}
    (h : step call s a = some s') :
    (∃ vChecks pick, s.pc 0 = .idle ∧ add s vChecks pick = some s') ∨
    (s.pc 0 = .idle ∧ s' = { s with pc := Function.update s.pc 0 (.loop [] 0 true) }) ∨
    (∃ t check vChecks nNow fOk, s.pc t = .loop (check :: vChecks) nNow fOk ∧
      s' = execute call s t check vChecks nNow fOk) ∨
    (∃ t nNow fOk, s.pc t = .loop [] nNow fOk ∧ s' = whileEmpty (cleanup s t nNow fOk) t) ∨
    (∃ t, s.pc t = .wait true ∧ s' = whileEmpty (wakeUp s t) t) ∨
    (∃ t, a = .spurious t ∧ s.pc t = .wait false ∧ s' = { s with pc := notifyWhere (· = t) s.pc }) := by
  cases a with
  | add vChecks pick =>
    simp only [step] at h
    split at h
    · exact .inl ⟨vChecks, pick, ‹_›, h⟩
    · cases h
  | wait =>
    simp only [step] at h
    split at h
    · exact .inr (.inl ⟨‹_›, (Option.some.inj h).symm⟩)
    · cases h
  | run t =>
    simp only [step] at h
    split at h
    · exact .inr (.inr (.inl ⟨t, _, _, _, _, ‹_›, (Option.some.inj h).symm⟩))
    · exact .inr (.inr (.inr (.inl ⟨t, _, _, ‹_›, (Option.some.inj h).symm⟩)))
    · exact .inr (.inr (.inr (.inr (.inl ⟨t, ‹_›, (Option.some.inj h).symm⟩))))
    · cases h
  | spurious t =>
    simp only [step] at h
    split at h
    · exact .inr (.inr (.inr (.inr (.inr ⟨t, rfl, ‹_›, (Option.some.inj h).symm⟩))))
    · cases h

end Trumpow.CheckQueue
