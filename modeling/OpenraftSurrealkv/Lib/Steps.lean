import OpenraftSurrealkv.Lib.Effect

/-!
# Computations that can be interrupted

`Eff` describes a call from its start to its end.  When a process can crash in
the middle of a call, or when other calls run in between, the single steps of
the call matter.  `Steps L σ ε α` is a call as a sequence of atomic steps over
the state `σ`, each with a label in `L`.

* `run` performs all steps in a row.  A call modelled in both ways has an
  equation between its `run` and its `Eff`.
* `Stops p s ls t` says that the call, interrupted after the steps `ls`, leaves
  the state `t`.  `Stops.of_andThen` takes the interruption of a sequence apart.
* `Step p s label ok p' t` is a single step, for calls that run beside others.
  `All Q p` says that every step the call can come to meets `Q`, and `Leaves I Q p`
  that what each step leaves of the call does.
* `Safe` is the rule for an invariant between a state that the calls share and a
  ghost.  One call may change both, while the others are `Idle`.
-/

/-- A call as a sequence of atomic steps. -/
inductive Steps (L σ ε α : Type) : Type 1 where
  | done (r : Except ε α)
  | step {β : Type} (label : L) (x : Eff σ ε β) (next : β → Steps L σ ε α)

namespace Steps

variable {L σ τ ε α β : Type}

/-- One step. -/
def act (label : L) (x : Eff σ ε α) : Steps L σ ε α := .step label x fun a => .done (.ok a)

/-- One call after another, unless the first one fails. -/
def andThen : Steps L σ ε α → (α → Steps L σ ε β) → Steps L σ ε β
  | .done (.ok a), f => f a
  | .done (.error e), _ => .done (.error e)
  | .step label x next, f => .step label x fun b => (next b).andThen f

/-- Rewrite the error. -/
def mapErr (f : ε → ε) : Steps L σ ε α → Steps L σ ε α
  | .done (.ok a) => .done (.ok a)
  | .done (.error e) => .done (.error (f e))
  | .step label x next => .step label (Eff.mapErr f x) fun b => (next b).mapErr f

/-- The same steps on a part of the state. -/
def zoom (get : σ → τ) (put : τ → σ → σ) : Steps L τ ε α → Steps L σ ε α
  | .done r => .done r
  | .step label x next => .step label (Eff.zoom get put x) fun b => (next b).zoom get put

/-! ## All steps in a row -/

/-- The steps in a row. -/
def run : Steps L σ ε α → Eff σ ε α
  | .done r => Eff.ofExcept r
  | .step _ x next => x >>= fun b => (next b).run

@[simp] theorem run_done (r : Except ε α) : (done r : Steps L σ ε α).run = Eff.ofExcept r := rfl

@[simp] theorem run_act (label : L) (x : Eff σ ε α) : (act label x).run = x := by
  funext s
  show (x >>= fun a => Eff.ofExcept (.ok a)) s = x s
  rw [Eff.bind_run]
  rcases x s with ⟨r, t⟩
  cases r <;> rfl

theorem run_andThen (f : α → Steps L σ ε β) : ∀ p : Steps L σ ε α,
    (p.andThen f).run = p.run >>= fun a => (f a).run
  | .done (.ok a) => rfl
  | .done (.error e) => rfl
  | .step label x next => by
      funext s
      show (x >>= fun b => ((next b).andThen f).run) s =
        ((x >>= fun b => (next b).run) >>= fun a => (f a).run) s
      rcases hx : x s with ⟨r, t⟩
      cases r with
      | error e => rw [Eff.bind_of_error hx, Eff.bind_of_error (Eff.bind_of_error hx)]
      | ok b =>
          rw [Eff.bind_of_ok hx, run_andThen f (next b), Eff.bind_run, Eff.bind_run,
            Eff.bind_of_ok hx]

theorem done_andThen (a : α) (f : α → Steps L σ ε β) :
    (done (.ok a) : Steps L σ ε α).andThen f = f a := rfl

theorem andThen_assoc {γ : Type} (f : α → Steps L σ ε β) (g : β → Steps L σ ε γ) :
    ∀ p : Steps L σ ε α, (p.andThen f).andThen g = p.andThen fun a => (f a).andThen g
  | .done (.ok _) => rfl
  | .done (.error _) => rfl
  | .step label x next => congrArg (Steps.step label x) (funext fun b => andThen_assoc f g (next b))

theorem run_mapErr (f : ε → ε) : ∀ p : Steps L σ ε α, (p.mapErr f).run = Eff.mapErr f p.run
  | .done (.ok a) => rfl
  | .done (.error e) => rfl
  | .step label x next => by
      funext s
      show (Eff.mapErr f x >>= fun b => ((next b).mapErr f).run) s =
        Eff.mapErr f (x >>= fun b => (next b).run) s
      rcases hx : x s with ⟨r, t⟩
      cases r with
      | error e =>
          have hmap : Eff.mapErr f x s = (.error (f e), t) := by rw [Eff.mapErr, hx]
          rw [Eff.bind_of_error hmap, Eff.mapErr, Eff.bind_of_error hx]
      | ok b =>
          rw [Eff.bind_of_ok (Eff.mapErr_of_ok hx), run_mapErr f (next b), Eff.mapErr, Eff.mapErr,
            Eff.bind_of_ok hx]

theorem run_zoom {get : σ → τ} {put : τ → σ → σ} (hget : ∀ t s, get (put t s) = t)
    (hput : ∀ t t' s, put t' (put t s) = put t' s) (hsame : ∀ s, put (get s) s = s) :
    ∀ p : Steps L τ ε α, (p.zoom get put).run = Eff.zoom get put p.run
  | .done r => by
      funext s
      show (r, s) = (r, put (get s) s)
      rw [hsame]
  | .step label x next => by
      funext s
      show (Eff.zoom get put x >>= fun b => ((next b).zoom get put).run) s =
        Eff.zoom get put (x >>= fun b => (next b).run) s
      rcases hx : x (get s) with ⟨r, t⟩
      have hzoom : Eff.zoom get put x s = (r, put t s) := by rw [Eff.zoom_run, hx]
      cases r with
      | error e => rw [Eff.bind_of_error hzoom, Eff.zoom_run, Eff.bind_of_error hx]
      | ok b =>
          rw [Eff.bind_of_ok hzoom, run_zoom hget hput hsame (next b), Eff.zoom_run, Eff.zoom_run,
            Eff.bind_of_ok hx, hget, hput]

/-! ## Interruption -/

/-- The call was interrupted after some steps, the last of which may have failed. -/
inductive Stops : Steps L σ ε α → σ → List L → σ → Prop
  | here (p : Steps L σ ε α) (s : σ) : Stops p s [] s
  | more {δ : Type} {label : L} {x : Eff σ ε δ} {next : δ → Steps L σ ε α} {s t u : σ} {b : δ}
      {ls : List L} :
      x s = (.ok b, t) → Stops (next b) t ls u → Stops (.step label x next) s (label :: ls) u
  | failed {δ : Type} {label : L} {x : Eff σ ε δ} {next : δ → Steps L σ ε α} {s t : σ} {e : ε} :
      x s = (.error e, t) → Stops (.step label x next) s [label] t

/-- A call that has ended has stopped at its end. -/
theorem Stops.of_run : ∀ {p : Steps L σ ε α} {s t : σ} {r : Except ε α}, p.run s = (r, t) →
    ∃ ls, Stops p s ls t
  | .done r', s, t, r, h => by
      cases h
      exact ⟨[], .here _ _⟩
  | .step label x next, s, t, r, h => by
      rcases hx : x s with ⟨r₁, s₁⟩
      cases r₁ with
      | error e =>
          obtain rfl := (Prod.mk.inj ((Eff.bind_of_error hx).symm.trans h)).2
          exact ⟨[label], .failed hx⟩
      | ok b =>
          obtain ⟨ls, hstop⟩ := Stops.of_run ((Eff.bind_of_ok hx).symm.trans h)
          exact ⟨label :: ls, .more hx hstop⟩

theorem Stops.of_done {r : Except ε α} {s t : σ} {ls : List L}
    (h : Stops (.done r : Steps L σ ε α) s ls t) : ls = [] ∧ t = s := by
  cases h
  exact ⟨rfl, rfl⟩

theorem Stops.of_act {label : L} {x : Eff σ ε α} {s t : σ} {ls : List L}
    (h : Stops (act label x) s ls t) : t = s ∧ ls = [] ∨ t = (x s).2 ∧ ls = [label] := by
  cases h with
  | here => exact Or.inl ⟨rfl, rfl⟩
  | failed hx =>
      rw [hx]
      exact Or.inr ⟨rfl, rfl⟩
  | more hx hrest =>
      obtain ⟨rfl, rfl⟩ := hrest.of_done
      rw [hx]
      exact Or.inr ⟨rfl, rfl⟩

/-- A sequence is interrupted in its first part or, after the first part succeeded, in its
second. -/
theorem Stops.of_andThen {f : α → Steps L σ ε β} : ∀ {p : Steps L σ ε α} {s u : σ} {ls : List L},
    Stops (p.andThen f) s ls u →
      Stops p s ls u ∨
        ∃ a t ls₁ ls₂, p.run s = (.ok a, t) ∧ Stops p s ls₁ t ∧ ls = ls₁ ++ ls₂ ∧
          Stops (f a) t ls₂ u
  | .done (.ok a), s, u, ls, h => Or.inr ⟨a, s, [], ls, rfl, .here _ _, rfl, h⟩
  | .done (.error e), s, u, ls, h => by
      obtain ⟨rfl, rfl⟩ := h.of_done
      exact Or.inl (.here _ _)
  | .step label x next, s, u, ls, h => by
      cases h with
      | here => exact Or.inl (.here _ _)
      | failed hx => exact Or.inl (.failed hx)
      | @more _ _ _ _ _ t _ b ls hx hrest =>
          rcases hrest.of_andThen with hfirst | ⟨a, t', ls₁, ls₂, hrun, hstop, rfl, hsecond⟩
          · exact Or.inl (.more hx hfirst)
          · refine Or.inr ⟨a, t', label :: ls₁, ls₂, ?_, .more hx hstop, rfl, hsecond⟩
            exact (Eff.bind_of_ok hx).trans hrun

theorem Stops.of_mapErr {f : ε → ε} : ∀ {p : Steps L σ ε α} {s u : σ} {ls : List L},
    Stops (p.mapErr f) s ls u → Stops p s ls u
  | .done (.ok a), s, u, ls, h => by
      obtain ⟨rfl, rfl⟩ := h.of_done
      exact .here _ _
  | .done (.error e), s, u, ls, h => by
      obtain ⟨rfl, rfl⟩ := h.of_done
      exact .here _ _
  | .step label x next, s, u, ls, h => by
      cases h with
      | here => exact .here _ _
      | failed hx =>
          obtain ⟨e', he'⟩ := Eff.mapErr_eq_error hx
          exact .failed he'
      | more hx hrest => exact .more (Eff.mapErr_eq_ok_iff.mp hx) hrest.of_mapErr

theorem Stops.of_zoom {get : σ → τ} {put : τ → σ → σ} (hget : ∀ t s, get (put t s) = t)
    (hput : ∀ t t' s, put t' (put t s) = put t' s) (hsame : ∀ s, put (get s) s = s) :
    ∀ {p : Steps L τ ε α} {s u : σ} {ls : List L}, Stops (p.zoom get put) s ls u →
      ∃ t, Stops p (get s) ls t ∧ u = put t s
  | .done r, s, u, ls, h => by
      obtain ⟨rfl, rfl⟩ := h.of_done
      exact ⟨get u, .here _ _, (hsame u).symm⟩
  | .step label x next, s, u, ls, h => by
      cases h with
      | here => exact ⟨get s, .here _ _, (hsame s).symm⟩
      | failed hx =>
          obtain ⟨hr, rfl⟩ := Prod.mk.inj hx
          exact ⟨_, .failed (Prod.ext hr rfl), rfl⟩
      | @more _ _ _ _ _ t _ b ls hx hrest =>
          obtain ⟨hr, rfl⟩ := Prod.mk.inj hx
          obtain ⟨t', hstop, rfl⟩ := hrest.of_zoom hget hput hsame
          rw [hget] at hstop
          exact ⟨t', .more (Prod.ext hr rfl) hstop, hput _ _ _⟩

/-! ## Single steps -/

/-- One step of a call, with its label and whether it succeeded. -/
inductive Step : Steps L σ ε α → σ → L → Bool → Steps L σ ε α → σ → Prop
  | ok {δ : Type} {label : L} {x : Eff σ ε δ} {next : δ → Steps L σ ε α} {s t : σ} {b : δ} :
      x s = (.ok b, t) → Step (.step label x next) s label true (next b) t
  | error {δ : Type} {label : L} {x : Eff σ ε δ} {next : δ → Steps L σ ε α} {s t : σ} {e : ε} :
      x s = (.error e, t) → Step (.step label x next) s label false (.done (.error e)) t

/-- The label of the next step. -/
def head? : Steps L σ ε α → Option L
  | .done _ => none
  | .step label _ _ => some label

theorem head?_eq_none_iff {p : Steps L σ ε α} : p.head? = none ↔ ∃ r, p = .done r := by
  cases p with
  | done r => exact ⟨fun _ => ⟨r, rfl⟩, fun _ => rfl⟩
  | step label x next =>
      constructor
      · intro h
        cases h
      · rintro ⟨r, h⟩
        cases h

theorem Step.head? {p p' : Steps L σ ε α} {s t : σ} {label : L} {ok : Bool}
    (h : Step p s label ok p' t) : p.head? = some label := by
  cases h with
  | ok _ => rfl
  | error _ => rfl

/-- Every step that the call can come to changes the state as `Q` allows. -/
def All (Q : L → (σ → σ) → Prop) : Steps L σ ε α → Prop
  | .done _ => True
  | .step label x next => Q label (fun s => (x s).2) ∧ ∀ b, (next b).All Q

theorem All.act {Q : L → (σ → σ) → Prop} {label : L} {x : Eff σ ε α}
    (h : Q label fun s => (x s).2) : (Steps.act label x).All Q :=
  ⟨h, fun _ => trivial⟩

theorem All.imp {Q R : L → (σ → σ) → Prop} (h : ∀ label f, Q label f → R label f) :
    ∀ {p : Steps L σ ε α}, p.All Q → p.All R
  | .done _, _ => trivial
  | .step _ _ _, hp => ⟨h _ _ hp.1, fun b => All.imp h (hp.2 b)⟩

theorem All.andThen {Q : L → (σ → σ) → Prop} {f : α → Steps L σ ε β} :
    ∀ {p : Steps L σ ε α}, p.All Q → (∀ a, (f a).All Q) → (p.andThen f).All Q
  | .done (.ok a), _, hf => hf a
  | .done (.error _), _, _ => trivial
  | .step _ _ _, hp, hf => ⟨hp.1, fun b => (hp.2 b).andThen hf⟩

theorem All.zoom {Q : L → (τ → τ) → Prop} {R : L → (σ → σ) → Prop} {get : σ → τ}
    {put : τ → σ → σ} (h : ∀ label f, Q label f → R label fun s => put (f (get s)) s) :
    ∀ {p : Steps L τ ε α}, p.All Q → (p.zoom get put).All R
  | .done _, _ => trivial
  | .step _ _ _, hp => ⟨h _ _ hp.1, fun b => All.zoom h (hp.2 b)⟩

/-- A step of such a call changes the state as allowed, and the rest is such a call. -/
theorem Step.all {Q : L → (σ → σ) → Prop} {p p' : Steps L σ ε α} {s t : σ} {label : L}
    {ok : Bool} (h : Step p s label ok p' t) (hp : p.All Q) :
    (∃ f, Q label f ∧ t = f s) ∧ p'.All Q := by
  cases h with
  | ok hx => exact ⟨⟨_, hp.1, by rw [hx]⟩, hp.2 _⟩
  | error hx => exact ⟨⟨_, hp.1, by rw [hx]⟩, trivial⟩

theorem All.of_forall {Q : L → (σ → σ) → Prop} (h : ∀ label f, Q label f) :
    ∀ p : Steps L σ ε α, p.All Q
  | .done _ => trivial
  | .step _ _ next => ⟨h _ _, fun b => All.of_forall h (next b)⟩

/-- Every step that the call makes where `I` holds keeps `I`, and what it leaves of the call meets
`Q`, unless the step fails. -/
def Leaves (I : σ → Prop) (Q : L → σ → Steps L σ ε α → Prop) : Steps L σ ε α → Prop
  | .done _ => True
  | .step label x next => ∀ s, I s →
      I (x s).2 ∧ ∀ b, (x s).1 = .ok b → Q label s (next b) ∧ (next b).Leaves I Q

theorem Step.leaves {I : σ → Prop} {Q : L → σ → Steps L σ ε α → Prop} {p p' : Steps L σ ε α}
    {s t : σ} {label : L} {ok : Bool} (h : Step p s label ok p' t) (hp : p.Leaves I Q)
    (hs : I s) : I t ∧ p'.Leaves I Q ∧ (p'.head? = none ∨ Q label s p') := by
  cases h with
  | ok hx =>
      obtain ⟨hkeep, hnext⟩ := hp s hs
      rw [hx] at hkeep hnext
      obtain ⟨hQ, hrest⟩ := hnext _ rfl
      exact ⟨hkeep, hrest, Or.inr hQ⟩
  | error hx =>
      obtain ⟨hkeep, -⟩ := hp s hs
      rw [hx] at hkeep
      exact ⟨hkeep, trivial, Or.inl rfl⟩

/-! ## Calls beside others -/

section Safe

variable {κ ν : Type} (view : σ → ν) (ghost : L → Bool → κ → κ) (final : L → Prop)
  (I : κ → ν → Prop)

/-- No step of the call changes what `view` shows or the ghost. -/
def Idle (p : Steps L σ ε α) : Prop :=
  p.All fun label f => (∀ s, view (f s) = view s) ∧ ∀ ok k, ghost label ok k = k

/-- While the others leave the view alone, every step of the call keeps `I`.  After a final step
the call is idle. -/
def Safe : Steps L σ ε α → κ → ν → Prop
  | .done _, _, _ => True
  | .step label x next, k, v => ∀ s, view s = v →
      I (ghost label (x s).1.isOk k) (view (x s).2) ∧
        ∀ b, (x s).1 = .ok b →
          (next b).Safe (ghost label true k) (view (x s).2) ∧
            (final label → (next b).Idle view ghost)

variable {view ghost final I}

theorem Idle.act {label : L} {x : Eff σ ε α} (hview : Eff.Keeps view x)
    (hghost : ∀ ok k, ghost label ok k = k) : (Steps.act label x).Idle view ghost :=
  All.act ⟨hview, hghost⟩

theorem Idle.andThen {f : α → Steps L σ ε β} {p : Steps L σ ε α} (hp : p.Idle view ghost)
    (hf : ∀ a, (f a).Idle view ghost) : (p.andThen f).Idle view ghost :=
  All.andThen hp hf

/-- A step of an idle call changes nothing, and the rest is idle. -/
theorem Step.idle {p p' : Steps L σ ε α} {s t : σ} {label : L} {ok : Bool}
    (h : Step p s label ok p' t) (hp : p.Idle view ghost) :
    view t = view s ∧ (∀ k, ghost label ok k = k) ∧ p'.Idle view ghost := by
  obtain ⟨⟨f, ⟨hview, hghost⟩, rfl⟩, hrest⟩ := h.all hp
  exact ⟨hview s, hghost ok, hrest⟩

/-- A step of a safe call keeps the invariant, and the rest is safe. -/
theorem Step.safe {p p' : Steps L σ ε α} {s t : σ} {label : L} {ok : Bool} {k : κ}
    (h : Step p s label ok p' t) (hp : p.Safe view ghost final I k (view s)) :
    I (ghost label ok k) (view t) ∧
      p'.Safe view ghost final I (ghost label ok k) (view t) ∧
        (final label → p'.Idle view ghost) := by
  cases h with
  | ok hx =>
      obtain ⟨hI, hnext⟩ := hp s rfl
      rw [hx] at hI hnext
      obtain ⟨hsafe, hidle⟩ := hnext _ rfl
      exact ⟨hI, hsafe, hidle⟩
  | error hx =>
      obtain ⟨hI, -⟩ := hp s rfl
      rw [hx] at hI
      exact ⟨hI, trivial, fun _ => trivial⟩

/-- A call whose first step is safe, and whose rest is safe from there. -/
theorem Safe.act_andThen {label : L} {x : Eff σ ε α} {f : α → Steps L σ ε β} {k : κ} {v : ν}
    (h : ∀ s, view s = v →
      I (ghost label (x s).1.isOk k) (view (x s).2) ∧
        ∀ a, (x s).1 = .ok a →
          (f a).Safe view ghost final I (ghost label true k) (view (x s).2) ∧
            (final label → (f a).Idle view ghost)) :
    ((Steps.act label x).andThen f).Safe view ghost final I k v :=
  h

/-- A first step that changes the view as a whole, or fails and leaves it alone. -/
theorem Safe.lands_andThen {label : L} {x : Eff σ ε α} {f : α → Steps L σ ε β} {k : κ} {v v' : ν}
    (hx : ∀ s, view s = v → (x s).1.isOk = true ∧ view (x s).2 = v' ∨
      (x s).1.isOk = false ∧ view (x s).2 = v)
    (hok : I (ghost label true k) v') (herr : I (ghost label false k) v)
    (hf : ∀ a, (f a).Safe view ghost final I (ghost label true k) v')
    (hidle : final label → ∀ a, (f a).Idle view ghost) :
    ((Steps.act label x).andThen f).Safe view ghost final I k v := by
  refine Safe.act_andThen fun s hs => ?_
  rcases hx s hs with ⟨hr, hv⟩ | ⟨hr, hv⟩
  · rw [hr, hv]
    exact ⟨hok, fun a _ => ⟨hf a, fun h => hidle h a⟩⟩
  · rw [hr, hv]
    refine ⟨herr, fun a ha => ?_⟩
    rw [ha] at hr
    cases hr

/-- A first step that leaves view and ghost alone is safe. -/
theorem Safe.quiet_andThen {label : L} {x : Eff σ ε α} {f : α → Steps L σ ε β} {k : κ} {v : ν}
    (hI : I k v) (hview : Eff.Keeps view x) (hghost : ∀ ok k, ghost label ok k = k)
    (hf : ∀ a, (f a).Safe view ghost final I k v)
    (hidle : final label → ∀ a, (f a).Idle view ghost) :
    ((Steps.act label x).andThen f).Safe view ghost final I k v := by
  refine Safe.act_andThen fun s hs => ?_
  have hsame : view (x s).2 = v := (hview s).trans hs
  rw [hsame, hghost, hghost]
  exact ⟨hI, fun a _ => ⟨hf a, fun h => hidle h a⟩⟩

theorem Safe.zoom {get : σ → τ} {put : τ → σ → σ} {view : τ → ν}
    (hget : ∀ t s, get (put t s) = t) :
    ∀ {p : Steps L τ ε α} {k : κ} {v : ν}, p.Safe view ghost final I k v →
      (p.zoom get put).Safe (fun s => view (get s)) ghost final I k v
  | .done _, _, _, _ => trivial
  | .step label x next, k, v, hp => by
      intro s hs
      obtain ⟨hI, hnext⟩ := hp (get s) hs
      have hview : view (get (put (x (get s)).2 s)) = view (x (get s)).2 := by rw [hget]
      refine ⟨?_, fun b hb => ?_⟩
      · show I _ (view (get (put (x (get s)).2 s)))
        rw [hview]
        exact hI
      obtain ⟨hsafe, hidle⟩ := hnext b hb
      refine ⟨?_, fun h => (hidle h).zoom ?_⟩
      · show ((next b).zoom get put).Safe _ _ _ _ _ (view (get (put (x (get s)).2 s)))
        rw [hview]
        exact Safe.zoom hget hsafe
      · rintro label f ⟨hkeeps, hghost⟩
        refine ⟨fun s => ?_, hghost⟩
        show view (get (put (f (get s)) s)) = view (get s)
        rw [hget]
        exact hkeeps _

end Safe

end Steps
