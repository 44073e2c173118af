import Mathlib.Algebra.Order.BigOperators.Group.Finset
import Mathlib.Logic.Relation

/-!
# Support — transition systems and their threads

A system moves by a relation `step : σ → σ → Prop`; `Reachable step init` are the states it
reaches from `init`.  What holds of `init` and is kept by every step from a reachable state holds
of every reachable state (`Reachable.invariant`).  A run that stays in a region `P` is at most as
long as a measure that every step inside `P` lowers (`RunWithin.length_le`), so no run stays in
`P` for ever (`RunWithin.not_forever`).

The threads of such a system are a function from their indices to their local states, and a
counter they share is a sum over them: one thread's move changes the sum by what it changes in
that thread (`sum_update`), and leaves a sum over the others alone.  Nothing here names a
program.
-/

namespace Transition

variable {σ : Type*}

/-- `s` is reached from `init` in some number of steps. -/
def Reachable (step : σ → σ → Prop) (init s : σ) : Prop := Relation.ReflTransGen step init s

section Reachable

variable {step : σ → σ → Prop} {init : σ}

theorem Reachable.refl : Reachable step init init := Relation.ReflTransGen.refl

theorem Reachable.tail {s s' : σ} (h : Reachable step init s) (hs : step s s') :
    Reachable step init s' :=
  Relation.ReflTransGen.tail h hs

/-- The invariant rule. -/
theorem Reachable.invariant {I : σ → Prop} (h0 : I init)
    (hstep : ∀ s s', Reachable step init s → I s → step s s' → I s') {s : σ}
    (h : Reachable step init s) : I s := by
  induction h with
  | refl => exact h0
  | tail hr hs ih => exact hstep _ _ hr ih hs

end Reachable

/-- `f 0, f 1, …, f k` is a run of `step` whose states after the first are in `P`. -/
def RunWithin (step : σ → σ → Prop) (P : σ → Prop) (f : ℕ → σ) (k : ℕ) : Prop :=
  ∀ i < k, step (f i) (f (i + 1)) ∧ P (f (i + 1))

section Runs

variable {step : σ → σ → Prop} {I P : σ → Prop} {μ : σ → ℕ}

theorem RunWithin.prefix {f : ℕ → σ} {k : ℕ} (h : RunWithin step P f (k + 1)) :
    RunWithin step P f k :=
  fun i hi => h i (by omega)

/-- Along a run inside `P` from a state of the invariant `I`, the measure falls by one at least
at every step. -/
theorem RunWithin.measure_add_le (hI : ∀ s s', I s → step s s' → I s')
    (hμ : ∀ s s', I s → P s → step s s' → P s' → μ s' < μ s) {f : ℕ → σ} (h0 : I (f 0))
    (hP0 : P (f 0)) : ∀ {k}, RunWithin step P f k → I (f k) ∧ P (f k) ∧ k + μ (f k) ≤ μ (f 0)
  | 0, _ => ⟨h0, hP0, by omega⟩
  | k + 1, h => by
    obtain ⟨hIk, hPk, hk⟩ := RunWithin.measure_add_le hI hμ h0 hP0 h.prefix
    obtain ⟨hs, hP⟩ := h k (by omega)
    have hlt := hμ _ _ hIk hPk hs hP
    exact ⟨hI _ _ hIk hs, hP, by omega⟩

/-- A run inside `P` is at most as long as the measure at its start. -/
theorem RunWithin.length_le (hI : ∀ s s', I s → step s s' → I s')
    (hμ : ∀ s s', I s → P s → step s s' → P s' → μ s' < μ s) {f : ℕ → σ} {k : ℕ}
    (h0 : I (f 0)) (hP0 : P (f 0)) (h : RunWithin step P f k) : k ≤ μ (f 0) := by
  have := (RunWithin.measure_add_le hI hμ h0 hP0 h).2.2
  omega

/-- No run stays inside `P` for ever. -/
theorem RunWithin.not_forever (hI : ∀ s s', I s → step s s' → I s')
    (hμ : ∀ s s', I s → P s → step s s' → P s' → μ s' < μ s) {f : ℕ → σ}
    (h0 : I (f 0)) (hP0 : P (f 0)) : ¬ ∀ k, RunWithin step P f k := by
  intro h
  have := RunWithin.length_le hI hμ h0 hP0 (h (μ (f 0) + 1))
  omega

end Runs

/-! ### Counters as sums over the threads -/

section Threads

variable {ι α M : Type*} [Fintype ι] [AddCommMonoid M]

/-- One thread's move changes a sum over the threads by what it changes in that thread. -/
theorem sum_update [DecidableEq ι] (f : ι → α) (g : α → M) (i : ι) (b : α) :
    ∑ x, g (Function.update f i b x) + g (f i) = ∑ x, g (f x) + g b := by
  have hrest : ∑ x ∈ Finset.univ.erase i, g (Function.update f i b x) =
      ∑ x ∈ Finset.univ.erase i, g (f x) :=
    Finset.sum_congr rfl fun x hx => by rw [Function.update_of_ne (Finset.ne_of_mem_erase hx)]
  rw [← Finset.add_sum_erase _ _ (Finset.mem_univ i),
    ← Finset.add_sum_erase _ (fun x => g (f x)) (Finset.mem_univ i), hrest, Function.update_self]
  ac_rfl

/-- A move that keeps a thread's part of a counter keeps the counter. -/
theorem sum_update_of_eq [IsRightCancelAdd M] [DecidableEq ι]
    (f : ι → α) (g : α → M) {i : ι} {b : α} (h : g (f i) = g b) :
    ∑ x, g (Function.update f i b x) = ∑ x, g (f x) := by
  have := sum_update f g i b
  rw [h] at this
  exact add_right_cancel this

/-- A thread's part of a counter of naturals is at most the counter. -/
theorem le_sum (f : ι → α) (g : α → ℕ) (i : ι) : g (f i) ≤ ∑ x, g (f x) :=
  Finset.single_le_sum (fun x _ => Nat.zero_le (g (f x))) (Finset.mem_univ i)

/-- A counter of naturals that is not zero has a thread that contributes to it. -/
theorem exists_pos_of_sum_pos {f : ι → α} {g : α → ℕ} (h : 0 < ∑ x, g (f x)) :
    ∃ i, 0 < g (f i) := by
  by_contra hall
  simp only [not_exists, not_lt] at hall
  have hzero : ∑ x, g (f x) = 0 :=
    Finset.sum_eq_zero fun x _ => Nat.le_zero.mp (hall x)
  omega

end Threads

end Transition
