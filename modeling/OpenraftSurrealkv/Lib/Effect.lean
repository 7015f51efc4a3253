import Mathlib.Order.Defs.Unbundled

/-!
# Computations with a state and a failure

`Eff σ ε α` is a computation over a state `σ` that ends in a value of `α` or in
an error of `ε`.  The state is returned in both cases: what a computation wrote
before it failed stays written.  This is the meaning of a method that mutates
what it borrows and leaves through `?`, and it is why `Eff` is not `StateT` over
`Except`, which forgets the state on failure.

`bind_eq_ok_iff` takes a successful sequence apart.  `Total P x Q` is total
correctness: from `P` the computation succeeds with `Q`.  `Raises E` bounds the
errors of a computation by those of its parts.  `Within R` is the frame
rule: when every part of a computation moves the state along a preorder `R`, so
does the whole, on success and on failure.  `Keeps g` is the case where `R`
fixes a quantity `g`.
-/

/-- A computation over the state `σ` with a value in `α` or an error in `ε`. -/
def Eff (σ ε α : Type) : Type := σ → Except ε α × σ

namespace Eff

variable {σ τ ε α β γ : Type}

instance : Monad (Eff σ ε) where
  pure a := fun s => (.ok a, s)
  bind x f := fun s =>
    match x s with
    | (.ok a, s') => f a s'
    | (.error e, s') => (.error e, s')

/-- Fail with an error and leave the state as it is. -/
def fail (e : ε) : Eff σ ε α := fun s => (.error e, s)

/-- Read off the state. -/
def gets (f : σ → α) : Eff σ ε α := fun s => (.ok (f s), s)

/-- Rewrite the state. -/
def modify (f : σ → σ) : Eff σ ε Unit := fun s => (.ok (), f s)

/-- A result that does not depend on the state. -/
def ofExcept (r : Except ε α) : Eff σ ε α := fun s => (r, s)

/-- Rewrite the error. -/
def mapErr (f : ε → ε) (x : Eff σ ε α) : Eff σ ε α := fun s =>
  match x s with
  | (.ok a, s') => (.ok a, s')
  | (.error e, s') => (.error (f e), s')

/-- Run a computation for its outcome, which the caller then inspects. -/
def attempt (x : Eff σ ε α) : Eff σ ε (Except ε α) := fun s => (.ok (x s).1, (x s).2)

/-- Run a computation on a part of the state. -/
def zoom (get : σ → τ) (put : τ → σ → σ) (x : Eff τ ε α) : Eff σ ε α := fun s =>
  ((x (get s)).1, put (x (get s)).2 s)

/-! ## Running -/

@[simp] theorem pure_run (a : α) (s : σ) : (pure a : Eff σ ε α) s = (.ok a, s) := rfl

@[simp] theorem fail_run (e : ε) (s : σ) : (fail e : Eff σ ε α) s = (.error e, s) := rfl

@[simp] theorem gets_run (f : σ → α) (s : σ) : (gets f : Eff σ ε α) s = (.ok (f s), s) := rfl

@[simp] theorem modify_run (f : σ → σ) (s : σ) :
    (modify f : Eff σ ε Unit) s = (.ok (), f s) := rfl

@[simp] theorem ofExcept_run (r : Except ε α) (s : σ) :
    (ofExcept r : Eff σ ε α) s = (r, s) := rfl

@[simp] theorem zoom_run (get : σ → τ) (put : τ → σ → σ) (x : Eff τ ε α) (s : σ) :
    zoom get put x s = ((x (get s)).1, put (x (get s)).2 s) := rfl

theorem bind_run (x : Eff σ ε α) (f : α → Eff σ ε β) (s : σ) :
    (x >>= f) s =
      match x s with
      | (.ok a, s') => f a s'
      | (.error e, s') => (.error e, s') := rfl

/-- Whether a computation succeeds with a value and a state that pass a test. -/
def succeeds (x : Eff σ ε α) (s : σ) (p : α → σ → Bool) : Bool :=
  match x s with
  | (.ok a, t) => p a t
  | (.error _, _) => false

theorem exists_of_succeeds {x : Eff σ ε α} {s : σ} {p : α → σ → Bool}
    (h : x.succeeds s p = true) : ∃ a t, x s = (.ok a, t) ∧ p a t = true := by
  rcases hx : x s with ⟨r, t⟩
  rw [succeeds, hx] at h
  cases r with
  | ok a => exact ⟨a, t, rfl, h⟩
  | error e => cases h

/-- Equal outcomes of runs that succeed have equal values and states. -/
theorem ok_inj {a b : α} {s t : σ} (h : ((.ok a, s) : Except ε α × σ) = (.ok b, t)) :
    a = b ∧ s = t :=
  ⟨Except.ok.inj (Prod.mk.inj h).1, (Prod.mk.inj h).2⟩

theorem bind_of_ok {x : Eff σ ε α} {f : α → Eff σ ε β} {s s' : σ} {a : α}
    (h : x s = (.ok a, s')) : (x >>= f) s = f a s' := by
  rw [bind_run, h]

theorem bind_of_error {x : Eff σ ε α} {f : α → Eff σ ε β} {s s' : σ} {e : ε}
    (h : x s = (.error e, s')) : (x >>= f) s = (.error e, s') := by
  rw [bind_run, h]

theorem bind_assoc {γ : Type} (x : Eff σ ε α) (f : α → Eff σ ε β) (g : β → Eff σ ε γ) :
    x >>= f >>= g = x >>= fun a => f a >>= g := by
  funext s
  rw [bind_run, bind_run, bind_run]
  rcases x s with ⟨_ | a, t⟩ <;> rfl

/-- A sequence succeeds exactly when both parts do. -/
theorem bind_eq_ok_iff {x : Eff σ ε α} {f : α → Eff σ ε β} {s u : σ} {b : β} :
    (x >>= f) s = (.ok b, u) ↔ ∃ a t, x s = (.ok a, t) ∧ f a t = (.ok b, u) := by
  rw [bind_run]
  constructor
  · intro h
    rcases hx : x s with ⟨r, t⟩
    rw [hx] at h
    cases r with
    | ok a => exact ⟨a, t, rfl, h⟩
    | error e => cases h
  · rintro ⟨a, t, hx, hf⟩
    rw [hx]
    exact hf

/-- A sequence fails in its first part or, after it, in its second. -/
theorem bind_eq_error_iff {x : Eff σ ε α} {f : α → Eff σ ε β} {s u : σ} {e : ε} :
    (x >>= f) s = (.error e, u) ↔
      x s = (.error e, u) ∨ ∃ a t, x s = (.ok a, t) ∧ f a t = (.error e, u) := by
  rw [bind_run]
  rcases hx : x s with ⟨r, t⟩
  cases r with
  | ok a =>
      constructor
      · exact fun h => Or.inr ⟨a, t, rfl, h⟩
      · rintro (h | ⟨_, _, ⟨⟩, h⟩)
        · cases h
        · exact h
  | error e' => simp

/-- What holds where the first part stops, or after the second part, holds after a sequence. -/
theorem bind_state {x : Eff σ ε α} {f : α → Eff σ ε β} {s : σ} {P : σ → Prop}
    (herr : ∀ e t, x s = (.error e, t) → P t) (hok : ∀ a t, x s = (.ok a, t) → P (f a t).2) :
    P ((x >>= f) s).2 := by
  rw [bind_run]
  rcases hx : x s with ⟨r, t⟩
  cases r with
  | ok a => exact hok a t hx
  | error e => exact herr e t hx

theorem mapErr_eq_ok_iff {f : ε → ε} {x : Eff σ ε α} {s t : σ} {a : α} :
    mapErr f x s = (.ok a, t) ↔ x s = (.ok a, t) := by
  rcases hx : x s with ⟨r, u⟩
  cases r with
  | ok b => simp [mapErr, hx]
  | error e => simp [mapErr, hx]

theorem mapErr_eq_error {f : ε → ε} {x : Eff σ ε α} {s t : σ} {e : ε}
    (h : mapErr f x s = (.error e, t)) : ∃ e', x s = (.error e', t) := by
  rcases hx : x s with ⟨r, u⟩
  cases r with
  | ok b => simp [mapErr, hx] at h
  | error e' =>
      obtain ⟨-, rfl⟩ := by simpa [mapErr, hx] using h
      exact ⟨e', rfl⟩

theorem mapErr_of_ok {f : ε → ε} {x : Eff σ ε α} {s t : σ} {a : α}
    (h : x s = (.ok a, t)) : mapErr f x s = (.ok a, t) :=
  mapErr_eq_ok_iff.mpr h

theorem mapErr_of_error {f : ε → ε} {x : Eff σ ε α} {s t : σ} {e : ε}
    (h : x s = (.error e, t)) : mapErr f x s = (.error (f e), t) := by
  simp [mapErr, h]

theorem mapErr_state (f : ε → ε) (x : Eff σ ε α) (s : σ) : (mapErr f x s).2 = (x s).2 := by
  rcases hx : x s with ⟨r, u⟩
  cases r with
  | ok b => simp [mapErr, hx]
  | error e => simp [mapErr, hx]

section

variable {get : σ → τ} {put : τ → σ → σ}

/-- A sequence on a part of the state is a sequence of computations on the part. -/
theorem zoom_bind (hget : ∀ t s, get (put t s) = t) (hput : ∀ t t' s, put t (put t' s) = put t s)
    (x : Eff τ ε α) (f : α → Eff τ ε β) :
    zoom get put (x >>= f) = zoom get put x >>= fun a => zoom get put (f a) := by
  funext s
  rw [bind_run, zoom_run, zoom_run, bind_run]
  rcases x (get s) with ⟨r, t⟩
  cases r with
  | ok a => simp [hget, hput]
  | error e => rfl

end

@[simp] theorem attempt_run (x : Eff σ ε α) (s : σ) :
    attempt x s = (.ok (x s).1, (x s).2) := rfl

theorem attempt_eq_ok_iff {x : Eff σ ε α} {s s' : σ} {r : Except ε α} :
    attempt x s = (.ok r, s') ↔ x s = (r, s') := by
  rw [attempt_run, Prod.mk.injEq, Except.ok.injEq]
  exact (Prod.ext_iff (x := x s) (y := (r, s'))).symm

/-! ## Total correctness -/

/-- From every state with `P` the computation succeeds, with `Q` of the value and the state. -/
def Total (P : σ → Prop) (x : Eff σ ε α) (Q : α → σ → Prop) : Prop :=
  ∀ s, P s → ∃ a t, x s = (.ok a, t) ∧ Q a t

namespace Total

variable {P P' : σ → Prop}

theorem pure {Q : α → σ → Prop} {a : α} (h : ∀ s, P s → Q a s) :
    Total P (Pure.pure a : Eff σ ε α) Q :=
  fun s hs => ⟨a, s, rfl, h s hs⟩

theorem bind {Q : α → σ → Prop} {S : β → σ → Prop} {x : Eff σ ε α} {f : α → Eff σ ε β}
    (hx : Total P x Q) (hf : ∀ a, Total (Q a) (f a) S) : Total P (x >>= f) S := by
  intro s hs
  obtain ⟨a, t, hrun, hq⟩ := hx s hs
  obtain ⟨b, u, hrun', hr⟩ := hf a t hq
  exact ⟨b, u, (bind_of_ok hrun).trans hrun', hr⟩

theorem modify {Q : Unit → σ → Prop} {f : σ → σ} (h : ∀ s, P s → Q () (f s)) :
    Total P (Eff.modify f : Eff σ ε Unit) Q :=
  fun s hs => ⟨(), f s, rfl, h s hs⟩

theorem gets {Q : α → σ → Prop} {f : σ → α} (h : ∀ s, P s → Q (f s) s) :
    Total P (Eff.gets f : Eff σ ε α) Q :=
  fun s hs => ⟨f s, s, rfl, h s hs⟩

theorem mapErr {Q : α → σ → Prop} {x : Eff σ ε α} (f : ε → ε) (hx : Total P x Q) :
    Total P (Eff.mapErr f x) Q := by
  intro s hs
  obtain ⟨a, t, hrun, hq⟩ := hx s hs
  exact ⟨a, t, mapErr_of_ok hrun, hq⟩

theorem ite {Q : α → σ → Prop} {p : Prop} [Decidable p] {x y : Eff σ ε α} (hx : Total P x Q)
    (hy : Total P y Q) : Total P (if p then x else y) Q := by
  split
  · exact hx
  · exact hy

/-- An attempt succeeds whatever comes of it. -/
theorem attempt {x : Eff σ ε α} (h : ∀ s, P s → P (x s).2) :
    Total P (Eff.attempt x) fun _ => P :=
  fun s hs => ⟨_, _, rfl, h s hs⟩

theorem zoom {get : σ → τ} {put : τ → σ → σ} {P : τ → Prop} {Q : α → τ → Prop}
    {Q' : α → σ → Prop} {x : Eff τ ε α} (hx : Total P x Q) (hp : ∀ s, P' s → P (get s))
    (hq : ∀ a s t, P' s → Q a t → Q' a (put t s)) : Total P' (Eff.zoom get put x) Q' := by
  intro s hs
  obtain ⟨a, t, hrun, h⟩ := hx (get s) (hp s hs)
  refine ⟨a, put t s, ?_, hq a s t hs h⟩
  rw [zoom_run, hrun]

end Total

/-! ## Errors -/

/-- Whatever the state, an error of the computation is one of `E`. -/
def Raises (E : ε → Prop) (x : Eff σ ε α) : Prop := ∀ s e t, x s = (.error e, t) → E e

namespace Raises

variable {E : ε → Prop}

theorem pure (a : α) : Raises E (Pure.pure a : Eff σ ε α) := by
  intro s e t h
  cases h

theorem fail {e : ε} (h : E e) : Raises E (Eff.fail e : Eff σ ε α) := by
  intro s e' t hrun
  cases hrun
  exact h

theorem gets (f : σ → α) : Raises E (Eff.gets f : Eff σ ε α) := by
  intro s e t h
  cases h

theorem modify (f : σ → σ) : Raises E (Eff.modify f : Eff σ ε Unit) := by
  intro s e t h
  cases h

theorem ofExcept {r : Except ε α} (h : ∀ e, r = .error e → E e) :
    Raises E (Eff.ofExcept r : Eff σ ε α) := by
  intro s e t hrun
  exact h e (Prod.mk.inj hrun).1

theorem attempt (x : Eff σ ε α) : Raises E (Eff.attempt x) := by
  intro s e t h
  cases h

/-- An error that is looked at is one of the computation. -/
theorem bind_attempt {x : Eff σ ε α} {f : Except ε α → Eff σ ε β} (hx : Raises E x)
    (hok : ∀ a, Raises E (f (.ok a))) (herr : ∀ e, E e → Raises E (f (.error e))) :
    Raises E (Eff.attempt x >>= f) := by
  intro s e t h
  rw [bind_of_ok (attempt_run x s)] at h
  rcases hrun : x s with ⟨r, u⟩
  rw [hrun] at h
  cases r with
  | ok a => exact hok a u e t h
  | error e' => exact herr e' (hx s e' u hrun) u e t h

theorem bind {x : Eff σ ε α} {f : α → Eff σ ε β} (hx : Raises E x) (hf : ∀ a, Raises E (f a)) :
    Raises E (x >>= f) := by
  intro s e t h
  rcases bind_eq_error_iff.mp h with hfirst | ⟨a, u, _, hsecond⟩
  · exact hx s e t hfirst
  · exact hf a u e t hsecond

end Raises

/-! ## Frame rules -/

/-- Whatever the outcome, the state moves along `R`. -/
def Within (R : σ → σ → Prop) (x : Eff σ ε α) : Prop := ∀ s, R s (x s).2

/-- The quantity `g` is the same in both states. -/
def Same (g : σ → γ) (s t : σ) : Prop := g t = g s

instance (g : σ → γ) : IsPreorder σ (Same g) where
  refl _ := rfl
  trans _ _ _ h₁ h₂ := Eq.trans h₂ h₁

/-- What holds of the first state holds of the second. -/
def Preserved (P : σ → Prop) (s t : σ) : Prop := P s → P t

instance (P : σ → Prop) : IsPreorder σ (Preserved P) where
  refl _ h := h
  trans _ _ _ h₁ h₂ h := h₂ (h₁ h)

/-- The computation leaves the quantity `g` of the state alone. -/
abbrev Keeps (g : σ → γ) (x : Eff σ ε α) : Prop := Within (Same g) x

namespace Within

variable {R : σ → σ → Prop}

theorem of_run {x : Eff σ ε α} (h : Within R x) {s t : σ} {r : Except ε α}
    (hrun : x s = (r, t)) : R s t := by
  have hmoves := h s
  rw [hrun] at hmoves
  exact hmoves

theorem modify {f : σ → σ} (h : ∀ s, R s (f s)) : Within R (Eff.modify f : Eff σ ε Unit) := h

theorem mapErr {x : Eff σ ε α} (f : ε → ε) (h : Within R x) : Within R (Eff.mapErr f x) := by
  intro s
  rw [mapErr_state]
  exact h s

theorem attempt {x : Eff σ ε α} (h : Within R x) : Within R (Eff.attempt x) := h

theorem ite {p : Prop} [Decidable p] {x y : Eff σ ε α} (hx : Within R x) (hy : Within R y) :
    Within R (if p then x else y) := by
  split
  · exact hx
  · exact hy

/-- A computation on a part of the state moves the whole as it moves the part. -/
theorem zoom {get : σ → τ} {put : τ → σ → σ} {Q : τ → τ → Prop} {x : Eff τ ε α}
    (hx : Within Q x) (h : ∀ s t, Q (get s) t → R s (put t s)) :
    Within R (Eff.zoom get put x) :=
  fun s => h s _ (hx (get s))

theorem imp {Q : σ → σ → Prop} {x : Eff σ ε α} (hx : Within R x) (h : ∀ s t, R s t → Q s t) :
    Within Q x :=
  fun s => h s _ (hx s)

variable [IsPreorder σ R]

theorem pure (a : α) : Within R (Pure.pure a : Eff σ ε α) := fun s => refl_of R s

theorem fail (e : ε) : Within R (Eff.fail e : Eff σ ε α) := fun s => refl_of R s

theorem gets (f : σ → α) : Within R (Eff.gets f : Eff σ ε α) := fun s => refl_of R s

theorem ofExcept (r : Except ε α) : Within R (Eff.ofExcept r : Eff σ ε α) :=
  fun s => refl_of R s

theorem bind {x : Eff σ ε α} {f : α → Eff σ ε β} (hx : Within R x) (hf : ∀ a, Within R (f a)) :
    Within R (x >>= f) := by
  intro s
  have h := hx s
  rw [bind_run]
  rcases hr : x s with ⟨r, t⟩
  rw [hr] at h
  cases r with
  | ok a => exact trans_of R h (hf a t)
  | error e => exact h

/-- After a pure computation the rest may use its value. -/
theorem bind_ofExcept {r : Except ε α} {f : α → Eff σ ε β}
    (hf : ∀ a, r = .ok a → Within R (f a)) : Within R (Eff.ofExcept r >>= f) := by
  cases r with
  | ok a => exact hf a rfl
  | error e => exact fun s => refl_of R s

end Within

/-- A computation on a part of the state leaves alone what does not read that part. -/
theorem Keeps.zoom {g : σ → γ} {get : σ → τ} {put : τ → σ → σ} (x : Eff τ ε α)
    (h : ∀ t s, g (put t s) = g s) : Keeps g (Eff.zoom get put x) :=
  fun s => h _ s

end Eff
