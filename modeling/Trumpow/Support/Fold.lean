import Mathlib.Data.List.Basic

/-!
# Support — invariants of folds in `Except`

A loop that stops at the first error is a `List.foldlM` in `Except`.  When it runs to the end,
every property its step keeps holds of its result (`foldlM_except_inv`); when every step keeps
a property and cannot fail from a state that has it, the loop runs to the end
(`foldlM_except_ok`).  A computation that succeeds is taken apart one bind or map at a time
(`Except.bind_eq_ok`, `Except.map_eq_ok`, `Except.mapError_eq_ok`).  Which errors a computation
can end with is `Except.ErrorsIn`, kept by `pure`, by a bind whose parts keep it, by a map, and by
a `mapError` into errors that have it.  Nothing here names a program.
-/

namespace Except

/-- A bind succeeds exactly when its first computation does and the rest does from its value. -/
theorem bind_eq_ok {ε α β : Type _} {x : Except ε α} {f : α → Except ε β} {b : β} :
    x >>= f = .ok b ↔ ∃ a, x = .ok a ∧ f a = .ok b := by
  cases x with
  | error e => simp [bind, Except.bind]
  | ok a => simp [bind, Except.bind]

/-- A map succeeds exactly when the computation does. -/
theorem map_eq_ok {ε α β : Type _} {f : α → β} {x : Except ε α} {b : β} :
    f <$> x = .ok b ↔ ∃ a, x = .ok a ∧ f a = b := by
  cases x with
  | error e => simp [Functor.map, Except.map]
  | ok a => simp [Functor.map, Except.map]

/-- A `mapError` succeeds exactly when the computation does. -/
theorem mapError_eq_ok {ε ε' α : Type _} {g : ε → ε'} {x : Except ε α} {a : α} :
    x.mapError g = .ok a ↔ x = .ok a := by
  cases x with
  | error e => simp [Except.mapError]
  | ok a => simp [Except.mapError]

/-- A guard that fails with an error passes exactly when the computation after it succeeds. -/
theorem ite_error_eq_ok {ε α : Type _} {c : Prop} [Decidable c] {e : ε} {x : Except ε α} {a : α} :
    (if c then .error e else x) = .ok a ↔ ¬ c ∧ x = .ok a := by
  by_cases hc : c
  · simp [hc]
  · simp [hc]

theorem isOk_iff {ε α : Type _} {x : Except ε α} : x.isOk = true ↔ ∃ a, x = .ok a := by
  cases x with
  | error e => simp [Except.isOk, Except.toBool]
  | ok a => simp [Except.isOk, Except.toBool]

/-- Every error `x` can end with satisfies `P`. -/
def ErrorsIn {ε α : Type _} (P : ε → Prop) (x : Except ε α) : Prop :=
  ∀ e, x = .error e → P e

section ErrorsIn

variable {ε ε' α β : Type _} {P : ε → Prop}

theorem ErrorsIn.ok (a : α) : ErrorsIn P (.ok a : Except ε α) := by
  intro e h
  cases h

theorem ErrorsIn.error {e : ε} (h : P e) : ErrorsIn P (.error e : Except ε α) := by
  intro e' h'
  cases h'
  exact h

theorem ErrorsIn.bind {x : Except ε α} {f : α → Except ε β} (hx : ErrorsIn P x)
    (hf : ∀ a, x = .ok a → ErrorsIn P (f a)) : ErrorsIn P (x >>= f) := by
  cases x with
  | error e =>
    intro e' h
    cases h
    exact hx e rfl
  | ok a => exact hf a rfl

theorem ErrorsIn.map {f : α → β} {x : Except ε α} (hx : ErrorsIn P x) :
    ErrorsIn P (x.map f) := by
  cases x with
  | error e =>
    intro e' h
    cases h
    exact hx e rfl
  | ok a => exact ErrorsIn.ok (f a)

theorem ErrorsIn.ite {c : Prop} [Decidable c] {x y : Except ε α} (hx : c → ErrorsIn P x)
    (hy : ¬ c → ErrorsIn P y) : ErrorsIn P (if c then x else y) := by
  split_ifs with h
  · exact hx h
  · exact hy h

theorem errorsIn_mapError {g : ε' → ε} (hg : ∀ e, P (g e)) (x : Except ε' α) :
    ErrorsIn P (x.mapError g) := by
  cases x with
  | error e =>
    intro e' h
    cases h
    exact hg e
  | ok a => exact ErrorsIn.ok a

end ErrorsIn

end Except

namespace List

variable {σ ι ε : Type*} {f : σ → ι → Except ε σ}

theorem foldlM_except_inv (P : σ → Prop) (hf : ∀ s x s', f s x = .ok s' → P s → P s') :
    ∀ (l : List ι) {s s' : σ}, l.foldlM f s = .ok s' → P s → P s'
  | [], _, _, h, hs => by cases h; exact hs
  | x :: l, s, s', h, hs => by
      rw [List.foldlM_cons] at h
      cases hx : f s x with
      | error e => rw [hx] at h; cases h
      | ok t =>
        rw [hx] at h
        exact foldlM_except_inv P hf l h (hf s x t hx hs)

theorem foldlM_except_ok (P : σ → Prop)
    (hf : ∀ s x, P s → ∃ s', f s x = .ok s' ∧ P s') :
    ∀ (l : List ι) {s : σ}, P s → ∃ s', l.foldlM f s = .ok s' ∧ P s'
  | [], s, hs => ⟨s, rfl, hs⟩
  | x :: l, s, hs => by
      obtain ⟨t, hx, ht⟩ := hf s x hs
      rw [List.foldlM_cons, hx]
      exact foldlM_except_ok P hf l ht

end List
