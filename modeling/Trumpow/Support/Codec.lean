import Mathlib

/-!
# Support — reading back what was written

A reader (`Reader σ α`, the state monad over `Option` on a list of tokens) takes a value from
the front of its input and leaves the rest, or fails (`none`) at the end of the data.
`Reads r w a` says that `r` reads the value `a` back from the tokens `w`, whatever follows them,
and leaves what follows.

The rules compose as the readers do: `pure` reads nothing (`Reads.pure`), a `bind` reads the
concatenation of its parts (`Reads.bind`), `mapM` the concatenation of its elements
(`Reads.mapM`), and a fixed number of tokens reads back itself (`reads_readTokens`).
`readN r n` reads `n` values of `r` in turn (`Reads.readN`), and `m` values then `n` more are
`m + n` (`readN_add`).

Conversely, what a reader accepted is taken apart one bind at a time (`run_bind_eq_some`).
`Canonical r enc` says that `r` accepts only encodings by `enc` of the values it returns;
`readN` of such a reader accepts only their concatenations (`readN_accepts`).
A recogniser that checks a fixed frame around a field is inverted by `eq_frame`: a list of the
frame's length that agrees with it at its fixed positions is the frame around its middle part;
conversely a framed list shows its end frame at its fixed positions (`getD_append_frame`).
Nothing here names a program.
-/

namespace Codec

variable {σ α β : Type}

/-- A reader of a list of tokens. -/
abbrev Reader (σ α : Type) := StateT (List σ) Option α

/-- `r` reads `a` back from `w`, leaving whatever follows `w`. -/
def Reads (r : Reader σ α) (w : List σ) (a : α) : Prop :=
  ∀ rest, r.run (w ++ rest) = some (a, rest)

/-- Everything `r` accepts is the encoding, by `enc`, of the value it returns. -/
def Canonical (r : Reader σ α) (enc : α → List σ) : Prop :=
  ∀ s a rest, r.run s = some (a, rest) → s = enc a ++ rest

/-- The next `n` tokens, or failure when fewer are left. -/
def readTokens (n : Nat) : Reader σ (List σ) := fun s =>
  if n ≤ s.length then some (s.take n, s.drop n) else none

theorem Reads.pure (a : α) : Reads (Pure.pure a : Reader σ α) [] a := fun _ => rfl

theorem Reads.bind {r : Reader σ α} {f : α → Reader σ β} {w₁ w₂ : List σ} {a : α} {b : β}
    (h₁ : Reads r w₁ a) (h₂ : Reads (f a) w₂ b) : Reads (r >>= f) (w₁ ++ w₂) b := by
  intro rest
  rw [StateT.run_bind, List.append_assoc, h₁ (w₂ ++ rest)]
  exact h₂ rest

theorem Reads.map {r : Reader σ α} {w : List σ} {a : α} (h : Reads r w a) (f : α → β) :
    Reads (f <$> r) w (f a) := by
  intro rest
  rw [StateT.run_map, h rest]
  rfl

theorem Reads.congr {r : Reader σ α} {w w' : List σ} {a a' : α} (h : Reads r w a) (hw : w = w')
    (ha : a = a') : Reads r w' a' := hw ▸ ha ▸ h

/-- A reader followed by one that reads nothing. -/
theorem Reads.bind_nil {r : Reader σ α} {f : α → Reader σ β} {w : List σ} {a : α} {b : β}
    (h₁ : Reads r w a) (h₂ : Reads (f a) [] b) : Reads (r >>= f) w b :=
  (h₁.bind h₂).congr (List.append_nil w) rfl

/-- A reader that ends by returning a function of what it read. -/
theorem Reads.bind_pure {r : Reader σ α} {g : α → β} {w : List σ} {a : α} {b : β}
    (h : Reads r w a) (hb : g a = b) : Reads (r >>= fun x => Pure.pure (g x)) w b :=
  (Reads.bind (f := fun x => Pure.pure (g x)) h (Reads.pure _)).congr (List.append_nil _) hb

theorem reads_readTokens (w : List σ) : Reads (readTokens w.length) w w := by
  intro rest
  simp [readTokens, StateT.run]

/-- Reading each element in turn reads the concatenation of their encodings. -/
theorem Reads.mapM {f : β → Reader σ α} (enc : β → List σ) (dec : β → α) :
    ∀ xs : List β, (∀ x ∈ xs, Reads (f x) (enc x) (dec x)) →
      Reads (xs.mapM f) (xs.flatMap enc) (xs.map dec)
  | [], _ => Reads.pure []
  | x :: xs, h => by
      have hx := h x List.mem_cons_self
      have hxs := Reads.mapM enc dec xs fun y hy => h y (List.mem_cons_of_mem x hy)
      have hrest : Reads (xs.mapM f >>= fun as => Pure.pure (dec x :: as)) (xs.flatMap enc)
          (dec x :: xs.map dec) := hxs.bind_pure rfl
      rw [List.mapM_cons, List.flatMap_cons, List.map_cons]
      exact hx.bind hrest

/-! ### What a reader accepted -/

theorem run_failure (s : List σ) : (failure : Reader σ α).run s = none := rfl

theorem run_pure (a : α) (s : List σ) : (Pure.pure a : Reader σ α).run s = some (a, s) := rfl

/-- A bind succeeds exactly when its first reader does and the rest does on what is left. -/
theorem run_bind_eq_some {r : Reader σ α} {f : α → Reader σ β} {s rest : List σ} {b : β} :
    (r >>= f).run s = some (b, rest) ↔
      ∃ a mid, r.run s = some (a, mid) ∧ (f a).run mid = some (b, rest) := by
  rw [StateT.run_bind]
  cases r.run s with
  | none => simp
  | some p =>
    obtain ⟨a, mid⟩ := p
    simp

/-- After a part it reads back, a bind goes on with what that part read. -/
theorem run_bind_of_reads {r : Reader σ α} {f : α → Reader σ β} {w : List σ} {a : α}
    (h : Reads r w a) (rest : List σ) : (r >>= f).run (w ++ rest) = (f a).run rest := by
  rw [StateT.run_bind, h rest]
  rfl

theorem run_bind_of_none {r : Reader σ α} {f : α → Reader σ β} {s : List σ}
    (h : r.run s = none) : (r >>= f).run s = none := by
  rw [StateT.run_bind, h]
  rfl

/-- A guard that fails on `c` passes on its value and the input when `c` does not hold. -/
theorem run_guard_eq_some {c : Prop} [Decidable c] {a b : α} {s rest : List σ} :
    (if c then failure else Pure.pure a : Reader σ α).run s = some (b, rest) ↔
      ¬c ∧ a = b ∧ s = rest := by
  split_ifs with hc
  · simp [hc]
  · simp [hc]

theorem run_readTokens_eq_some {n : Nat} {s t rest : List σ} :
    (readTokens n).run s = some (t, rest) ↔ t.length = n ∧ s = t ++ rest := by
  simp only [readTokens, StateT.run]
  split_ifs with h
  · simp only [Option.some.injEq, Prod.mk.injEq]
    constructor
    · rintro ⟨rfl, rfl⟩
      exact ⟨by simp; omega, (List.take_append_drop n s).symm⟩
    · rintro ⟨hl, rfl⟩
      simp [← hl]
  · simp only [false_iff, not_and]
    rintro hl rfl
    simp at h
    omega

/-! ### Reading `n` values -/

/-- `n` values of `r`, one after another. -/
def readN (r : Reader σ α) : Nat → Reader σ (List α)
  | 0 => Pure.pure []
  | n + 1 => do
    let a ← r
    let as ← readN r n
    Pure.pure (a :: as)

theorem Reads.readN {r : Reader σ α} (enc : β → List σ) (dec : β → α) :
    ∀ xs : List β, (∀ x ∈ xs, Reads r (enc x) (dec x)) →
      Reads (readN r xs.length) (xs.flatMap enc) (xs.map dec)
  | [], _ => Reads.pure []
  | x :: xs, h => by
    have hx := h x List.mem_cons_self
    have hxs := Reads.readN enc dec xs fun y hy => h y (List.mem_cons_of_mem x hy)
    have hrest : Reads (Codec.readN r xs.length >>= fun as => Pure.pure (dec x :: as))
        (xs.flatMap enc) (dec x :: xs.map dec) := hxs.bind_pure rfl
    rw [List.length_cons, List.flatMap_cons, List.map_cons]
    exact hx.bind hrest

/-- `readN r n` accepts `n` encodings, when `r` accepts one. -/
theorem readN_accepts {r : Reader σ α} {enc : α → List σ} (hr : Canonical r enc) :
    ∀ {n : Nat} {s rest : List σ} {v : List α},
      (readN r n).run s = some (v, rest) → v.length = n ∧ s = v.flatMap enc ++ rest
  | 0, s, rest, v, h => by
    rw [readN, run_pure] at h
    cases h
    exact ⟨rfl, rfl⟩
  | n + 1, s, rest, v, h => by
    obtain ⟨a, mid, ha, h⟩ := run_bind_eq_some.mp h
    obtain ⟨as, mid', has, h⟩ := run_bind_eq_some.mp h
    rw [run_pure] at h
    cases h
    obtain ⟨hlen, rfl⟩ := readN_accepts hr has
    exact ⟨by simp [hlen], by rw [hr s a _ ha, List.flatMap_cons, List.append_assoc]⟩

/-- Every value `readN r n` returns is one that `r` returns. -/
theorem readN_forall {r : Reader σ α} {P : α → Prop}
    (hr : ∀ s a rest, r.run s = some (a, rest) → P a) :
    ∀ {n : Nat} {s rest : List σ} {v : List α},
      (readN r n).run s = some (v, rest) → ∀ a ∈ v, P a
  | 0, s, rest, v, h => by
    rw [readN, run_pure] at h
    cases h
    exact fun _ ha => absurd ha List.not_mem_nil
  | n + 1, s, rest, v, h => by
    obtain ⟨a, mid, ha, h⟩ := run_bind_eq_some.mp h
    obtain ⟨as, mid', has, h⟩ := run_bind_eq_some.mp h
    rw [run_pure] at h
    cases h
    intro b hb
    rcases List.mem_cons.mp hb with rfl | hb
    · exact hr s b mid ha
    · exact readN_forall hr has b hb

/-- Reading `m` values and then `n` more is reading `m + n` values. -/
theorem readN_add (r : Reader σ α) :
    ∀ m n : Nat, readN r (m + n) = (do
      let as ← readN r m
      let bs ← readN r n
      Pure.pure (as ++ bs))
  | 0, n => by simp [readN]
  | m + 1, n => by
    rw [Nat.add_right_comm, readN, readN, readN_add r m n]
    simp only [bind_assoc, pure_bind, List.cons_append]
/-! ### Fixed frames -/

theorem getElem?_eq_some_getD {l : List σ} {i : Nat} (d : σ) (h : i < l.length) :
    l[i]? = some (l.getD i d) := by
  rw [List.getD_eq_getElem _ _ h, List.getElem?_eq_getElem h]

/-- Read by `getD`, a list framed by `p` and `s` ends with `s`. -/
theorem getD_append_frame (p m s : List σ) (i : Nat) (d : σ) :
    (p ++ m ++ s).getD (p.length + m.length + i) d = s.getD i d := by
  rw [List.getD_append_right _ _ _ _ (by simp), List.length_append, Nat.add_sub_cancel_left]

/-- A list of length `p.length + m + s.length` that starts with `p` and ends with `s`, read by
`getD`, is `p`, its middle `m` tokens and `s`. -/
theorem eq_frame {l p s : List σ} {m : Nat} (d : σ)
    (hlen : l.length = p.length + m + s.length) (hp : ∀ i < p.length, l.getD i d = p.getD i d)
    (hs : ∀ i < s.length, l.getD (p.length + m + i) d = s.getD i d) :
    l = p ++ (l.drop p.length).take m ++ s := by
  have hmid : ((l.drop p.length).take m).length = m := by simp; omega
  apply List.ext_getElem?
  intro i
  rcases Nat.lt_or_ge i p.length with hi | hi
  · rw [List.append_assoc, List.getElem?_append_left hi, getElem?_eq_some_getD d (by omega),
      getElem?_eq_some_getD d hi, hp i hi]
  rcases Nat.lt_or_ge i (p.length + m) with hi' | hi'
  · -- the middle
    rw [List.getElem?_append_left (by simp; omega), List.getElem?_append_right hi,
      List.getElem?_take_of_lt (by omega), List.getElem?_drop]
    congr 1
    omega
  · -- the end frame, and past the end
    rw [List.getElem?_append_right (by simp; omega)]
    simp only [List.length_append, hmid]
    rcases Nat.lt_or_ge i l.length with hl | hl
    · rw [getElem?_eq_some_getD d hl, getElem?_eq_some_getD d (by omega)]
      have := hs (i - (p.length + m)) (by omega)
      rw [show p.length + m + (i - (p.length + m)) = i by omega] at this
      rw [this]
    · rw [List.getElem?_eq_none hl, List.getElem?_eq_none (by omega)]

end Codec
