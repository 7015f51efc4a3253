import Mathlib.Data.List.Nodup
import Mathlib.Data.List.Perm.Basic
import Mathlib.Data.List.Range
import Mathlib.Logic.Relation
import OpenraftSurrealkv.Lib.Steps

/-!
# Calls that read, compute and save

Calls run beside each other on a state and share a component of it.  Each call
reads the component, computes, and saves it once.  A save overwrites what other
calls saved since the read, unless nothing has changed.

`Alone` is a call that has the component to itself: the component changes by its
own steps only, while the rest of the state is, at each step, what it was at some
moment of the run.  `Serially` is one such call after another.  `serial_of_fresh`
says that a run whose saves all find what the call had read ends as some
sequence of its calls does.
-/

/-- A component of a state. -/
structure Lens (σ κ : Type) where
  get : σ → κ
  put : κ → σ → σ
  get_put : ∀ k s, get (put k s) = k
  put_put : ∀ k k' s, put k (put k' s) = put k s
  put_get : ∀ s, put (get s) s = s

/-- What a step does with the shared component. -/
inductive Access where
  | none
  | read
  | save
deriving DecidableEq, Repr

namespace Lens

variable {L σ τ ε κ α β : Type} (l : Lens σ κ)

/-- A component of a component. -/
def comp (outer : Lens σ τ) (inner : Lens τ κ) : Lens σ κ where
  get s := inner.get (outer.get s)
  put k s := outer.put (inner.put k (outer.get s)) s
  get_put k s := by rw [outer.get_put, inner.get_put]
  put_put k k' s := by rw [outer.get_put, outer.put_put, inner.put_put]
  put_get s := by rw [inner.put_get, outer.put_get]

/-- The operation neither reads nor changes the component. -/
def Neutral (x : Eff σ ε α) : Prop := ∀ k s, x (l.put k s) = ((x s).1, l.put k (x s).2)

variable {l}

theorem Neutral.at {x : Eff σ ε α} (h : l.Neutral x) {s t : σ} {r : Except ε α}
    (hx : x s = (r, t)) (k : κ) : x (l.put k s) = (r, l.put k t) := by
  rw [h k s, hx]

theorem Neutral.get_eq {x : Eff σ ε α} (h : l.Neutral x) {s t : σ} {r : Except ε α}
    (hx : x s = (r, t)) : l.get t = l.get s := by
  have hsame := h.at hx (l.get s)
  rw [l.put_get, hx] at hsame
  rw [(Prod.mk.inj hsame).2, l.get_put]

theorem Neutral.pure (a : α) : l.Neutral (Pure.pure a : Eff σ ε α) := fun _ _ => rfl

theorem Neutral.ofExcept (r : Except ε α) : l.Neutral (Eff.ofExcept r) := fun _ _ => rfl

theorem Neutral.gets {f : σ → α} (h : ∀ k s, f (l.put k s) = f s) :
    l.Neutral (Eff.gets f : Eff σ ε α) := by
  intro k s
  rw [Eff.gets_run, Eff.gets_run, h]

theorem Neutral.modify {f : σ → σ} (h : ∀ k s, f (l.put k s) = l.put k (f s)) :
    l.Neutral (Eff.modify f : Eff σ ε Unit) := by
  intro k s
  rw [Eff.modify_run, Eff.modify_run, h]

theorem Neutral.attempt {x : Eff σ ε α} (h : l.Neutral x) : l.Neutral (Eff.attempt x) := by
  intro k s
  rw [Eff.attempt_run, Eff.attempt_run, h]

theorem Neutral.ite {p : Prop} [Decidable p] {x y : Eff σ ε α} (hx : l.Neutral x)
    (hy : l.Neutral y) : l.Neutral (if p then x else y) := by
  split
  · exact hx
  · exact hy

theorem Neutral.bind {x : Eff σ ε α} {f : α → Eff σ ε β} (hx : l.Neutral x)
    (hf : ∀ a, l.Neutral (f a)) : l.Neutral (x >>= f) := by
  intro k s
  rcases hr : x s with ⟨r, t⟩
  cases r with
  | error e => rw [Eff.bind_of_error (hx.at hr k), Eff.bind_of_error hr]
  | ok a => rw [Eff.bind_of_ok (hx.at hr k), Eff.bind_of_ok hr, hf a k t]

theorem Neutral.zoom {outer : Lens σ τ} {inner : Lens τ κ} {x : Eff τ ε α}
    (h : inner.Neutral x) : (outer.comp inner).Neutral (Eff.zoom outer.get outer.put x) := by
  intro k s
  simp only [Eff.zoom_run, comp, outer.get_put, outer.put_put, h k (outer.get s)]

end Lens

namespace Serial

variable {L σ τ ε κ α β : Type} (l : Lens σ κ) (access : L → Access)

/-! ## Sequential runs -/

/-- The state is one of the visited ones but for the component. -/
def Among (visited : List σ) (s : σ) : Prop := ∃ s₀ ∈ visited, s = l.put (l.get s) s₀

/-- The call runs alone to its successful end and takes the component from the one value to the
other. -/
inductive Alone (E : σ → Prop) : Steps L σ ε α → κ → κ → Prop
  | done (a : α) (k : κ) : Alone E (.done (.ok a)) k k
  | step {p p' : Steps L σ ε α} {s t : σ} {label : L} {k' : κ} :
      E s → Steps.Step p s label true p' t → Alone E p' (l.get t) k' → Alone E p (l.get s) k'

/-- The calls with the given numbers, one after another. -/
inductive Serially (call : Nat → κ → κ → Prop) : List Nat → κ → κ → Prop
  | nil (k : κ) : Serially call [] k k
  | snoc {is : List Nat} {k k₁ k₂ : κ} {i : Nat} :
      Serially call is k k₁ → call i k₁ k₂ → Serially call (is ++ [i]) k k₂

variable {l}

theorem Alone.mono {E E' : σ → Prop} (hE : ∀ s, E s → E' s) {p : Steps L σ ε α} {k k' : κ}
    (h : Alone l E p k k') : Alone l E' p k k' := by
  induction h with
  | done a k => exact .done a k
  | step hs hstep _ ih => exact .step (hE _ hs) hstep ih

theorem Alone.of_act_andThen {E : σ → Prop} {label : L} {x : Eff σ ε α} {f : α → Steps L σ ε β}
    {k k' : κ} (h : Alone l E ((Steps.act label x).andThen f) k k') :
    ∃ s a t, E s ∧ l.get s = k ∧ x s = (.ok a, t) ∧ Alone l E (f a) (l.get t) k' := by
  cases h with
  | step hs hstep hrest =>
      cases hstep with
      | ok hx => exact ⟨_, _, _, hs, rfl, hx, hrest⟩

theorem Alone.of_done {E : σ → Prop} {r : Except ε α} {k k' : κ}
    (h : Alone l E (.done r : Steps L σ ε α) k k') : k' = k ∧ ∃ a, r = .ok a := by
  cases h with
  | done a k => exact ⟨rfl, a, rfl⟩
  | step _ hstep _ => cases hstep

theorem Alone.of_andThen_done {E : σ → Prop} {f : α → β} : ∀ {p : Steps L σ ε α} {k k' : κ},
    Alone l E (p.andThen fun a => .done (.ok (f a))) k k' → Alone l E p k k'
  | .done (.ok a), k, k', h => by
      obtain ⟨rfl, _⟩ := h.of_done
      exact .done a k'
  | .done (.error _), k, k', h => by
      obtain ⟨_, _, hr⟩ := h.of_done
      cases hr
  | .step label x next, k, k', h => by
      cases h with
      | step hs hstep hrest =>
          cases hstep with
          | ok hx => exact .step hs (.ok hx) hrest.of_andThen_done

theorem Serially.mono {call call' : Nat → κ → κ → Prop}
    (hcall : ∀ i k k', call i k k' → call' i k k') {is : List Nat} {k k' : κ}
    (h : Serially call is k k') : Serially call' is k k' := by
  induction h with
  | nil k => exact .nil k
  | snoc _ hlast ih => exact ih.snoc (hcall _ _ _ hlast)

/-- What holds at the start and is kept by every call holds at the end. -/
theorem Serially.invariant {call : Nat → κ → κ → Prop} {P : κ → Prop}
    (hcall : ∀ i k k', call i k k' → P k → P k') {is : List Nat} {k k' : κ}
    (h : Serially call is k k') (hk : P k) : P k' := by
  induction h with
  | nil k => exact hk
  | snoc _ hlast ih => exact hcall _ _ _ hlast (ih hk)

/-- A call of the sequence, and the sequences before and after it. -/
theorem Serially.of_mem {call : Nat → κ → κ → Prop} {is : List Nat} {k k' : κ} {i : Nat}
    (h : Serially call is k k') (hi : i ∈ is) :
    ∃ earlier k₁ k₂ later,
      Serially call earlier k k₁ ∧ call i k₁ k₂ ∧ Serially call later k₂ k' := by
  induction h with
  | nil k => cases hi
  | @snoc is k k₁ k₂ j hfirst hlast ih =>
      rcases List.mem_append.mp hi with hi | hi
      · obtain ⟨earlier, k₃, k₄, later, hearlier, hcall, hlater⟩ := ih hi
        exact ⟨earlier, k₃, k₄, later ++ [j], hearlier, hcall, hlater.snoc hlast⟩
      · obtain rfl := List.mem_singleton.mp hi
        exact ⟨is, k₁, k₂, [], hfirst, hlast, .nil k₂⟩

variable (l)

/-! ## The discipline of a call -/

/-- No step of the rest reads, changes or saves the component. -/
def Blind : Steps L σ ε α → Prop
  | .done _ => True
  | .step label x next => access label ≠ .save ∧ l.Neutral x ∧ ∀ b, Blind (next b)

/-- Every step of the rest succeeds on every state and leaves the component alone. -/
def Settles : Steps L σ ε α → Prop
  | .done r => r.isOk = true
  | .step label x next => access label ≠ .save ∧
      ∀ s, ∃ b t, x s = (.ok b, t) ∧ l.get t = l.get s ∧ Settles (next b)

/-- The call uses the component only in steps that say so, and does not succeed before it has
saved it.  After the save its outcome does not depend on the component. -/
def SavesOnce : Steps L σ ε α → Prop
  | .done (.ok _) => False
  | .done (.error _) => True
  | .step label x next =>
      match access label with
      | .none => l.Neutral x ∧ ∀ s b t, x s = (.ok b, t) → SavesOnce (next b)
      | .read => Eff.Keeps l.get x ∧ ∀ s b t, x s = (.ok b, t) → SavesOnce (next b)
      | .save => ∀ b, Blind l access (next b) ∨ Settles l access (next b)

variable {l access}

/-- The step can be made with any value of the component, and leaves it alone. -/
def NeutralStep (l : Lens σ κ) (p : Steps L σ ε α) (s : σ) (label : L) (p' : Steps L σ ε α)
    (t : σ) : Prop :=
  l.get t = l.get s ∧ ∀ k, Steps.Step p (l.put k s) label true p' (l.put k t)

theorem Blind.step {p p' : Steps L σ ε α} {s t : σ} {label : L}
    (hstep : Steps.Step p s label true p' t) (h : Blind l access p) :
    access label ≠ .save ∧ NeutralStep l p s label p' t ∧ Blind l access p' := by
  cases hstep with
  | ok hx => exact ⟨h.1, ⟨h.2.1.get_eq hx, fun k => .ok (h.2.1.at hx k)⟩, h.2.2 _⟩

theorem Settles.step {p p' : Steps L σ ε α} {s t : σ} {label : L}
    (hstep : Steps.Step p s label true p' t) (h : Settles l access p) :
    access label ≠ .save ∧ l.get t = l.get s ∧ Settles l access p' := by
  cases hstep with
  | ok hx =>
      obtain ⟨b, t, hx', hget, hrest⟩ := h.2 s
      rw [hx] at hx'
      cases hx'
      exact ⟨h.1, hget, hrest⟩

theorem SavesOnce.step {p p' : Steps L σ ε α} {s t : σ} {label : L}
    (hstep : Steps.Step p s label true p' t) (h : SavesOnce l access p) :
    access label = .none ∧ NeutralStep l p s label p' t ∧ SavesOnce l access p' ∨
      access label = .read ∧ l.get t = l.get s ∧ SavesOnce l access p' ∨
      access label = .save ∧ (Blind l access p' ∨ Settles l access p') := by
  cases hstep with
  | ok hx =>
      cases ha : access label with
      | none =>
          simp only [SavesOnce, ha] at h
          exact Or.inl ⟨rfl, ⟨h.1.get_eq hx, fun k => .ok (h.1.at hx k)⟩, h.2 _ _ _ hx⟩
      | read =>
          simp only [SavesOnce, ha] at h
          have hget := h.1 s
          rw [hx] at hget
          exact Or.inr (Or.inl ⟨rfl, hget, h.2 _ _ _ hx⟩)
      | save =>
          simp only [SavesOnce, ha] at h
          exact Or.inr (Or.inr ⟨rfl, h _⟩)

variable (l access)

/-! ## Composition rules -/

section

variable {l access}

theorem SavesOnce.none_andThen {label : L} {x : Eff σ ε α} {f : α → Steps L σ ε β}
    (ha : access label = .none) (hx : l.Neutral x)
    (hf : ∀ s a t, x s = (.ok a, t) → SavesOnce l access (f a)) :
    SavesOnce l access ((Steps.act label x).andThen f) := by
  show SavesOnce l access (.step label x f)
  simp only [SavesOnce, ha]
  exact ⟨hx, hf⟩

theorem SavesOnce.read_andThen {label : L} {x : Eff σ ε α} {f : α → Steps L σ ε β}
    (ha : access label = .read) (hx : Eff.Keeps l.get x)
    (hf : ∀ s a t, x s = (.ok a, t) → SavesOnce l access (f a)) :
    SavesOnce l access ((Steps.act label x).andThen f) := by
  show SavesOnce l access (.step label x f)
  simp only [SavesOnce, ha]
  exact ⟨hx, hf⟩

theorem SavesOnce.save_andThen {label : L} {x : Eff σ ε α} {f : α → Steps L σ ε β}
    (ha : access label = .save)
    (hf : ∀ a, Blind l access (f a) ∨ Settles l access (f a)) :
    SavesOnce l access ((Steps.act label x).andThen f) := by
  show SavesOnce l access (.step label x f)
  simp only [SavesOnce, ha]
  exact hf

theorem Settles.act_andThen {label : L} {x : Eff σ ε α} {f : α → Steps L σ ε β}
    (ha : access label ≠ .save)
    (hx : ∀ s, ∃ a t, x s = (.ok a, t) ∧ l.get t = l.get s ∧ Settles l access (f a)) :
    Settles l access ((Steps.act label x).andThen f) :=
  ⟨ha, hx⟩

theorem Settles.andThen {f : α → Steps L σ ε β} (hf : ∀ a, Settles l access (f a)) :
    ∀ {p : Steps L σ ε α}, Settles l access p → Settles l access (p.andThen f)
  | .done (.ok a), _ => hf a
  | .done (.error _), h => nomatch h
  | .step _ _ _, h => by
      refine ⟨h.1, fun s => ?_⟩
      obtain ⟨b, t, hx, hget, hrest⟩ := h.2 s
      exact ⟨b, t, hx, hget, Settles.andThen hf hrest⟩

theorem Blind.andThen {f : α → Steps L σ ε β} (hf : ∀ a, Blind l access (f a)) :
    ∀ {p : Steps L σ ε α}, Blind l access p → Blind l access (p.andThen f)
  | .done (.ok a), _ => hf a
  | .done (.error _), _ => trivial
  | .step _ _ _, h => ⟨h.1, h.2.1, fun b => Blind.andThen hf (h.2.2 b)⟩

/-- A call stays one when what follows it does nothing. -/
theorem SavesOnce.andThen_done {f : α → β} :
    ∀ {p : Steps L σ ε α}, SavesOnce l access p →
      SavesOnce l access (p.andThen fun a => .done (.ok (f a)))
  | .done (.ok _), h => h
  | .done (.error _), _ => trivial
  | .step label x next, h => by
      show SavesOnce l access (.step label x fun b => (next b).andThen _)
      cases ha : access label with
      | none =>
          simp only [SavesOnce, ha] at h ⊢
          exact ⟨h.1, fun s b t hx => (h.2 s b t hx).andThen_done⟩
      | read =>
          simp only [SavesOnce, ha] at h ⊢
          exact ⟨h.1, fun s b t hx => (h.2 s b t hx).andThen_done⟩
      | save =>
          simp only [SavesOnce, ha] at h ⊢
          intro b
          rcases h b with hblind | hsettles
          · refine Or.inl (hblind.andThen ?_)
            exact fun _ => trivial
          · refine Or.inr (hsettles.andThen ?_)
            exact fun _ => rfl

/-- A call on a part of the state. -/
theorem Blind.zoom {outer : Lens σ τ} {inner : Lens τ κ} :
    ∀ {p : Steps L τ ε α}, Blind inner access p →
      Blind (outer.comp inner) access (p.zoom outer.get outer.put)
  | .done _, _ => trivial
  | .step _ _ _, h => ⟨h.1, h.2.1.zoom, fun b => (h.2.2 b).zoom⟩

theorem Settles.zoom {outer : Lens σ τ} {inner : Lens τ κ} :
    ∀ {p : Steps L τ ε α}, Settles inner access p →
      Settles (outer.comp inner) access (p.zoom outer.get outer.put)
  | .done _, h => h
  | .step label x next, h => by
      refine ⟨h.1, fun s => ?_⟩
      obtain ⟨b, t, hx, hget, hrest⟩ := h.2 (outer.get s)
      refine ⟨b, outer.put t s, ?_, ?_, hrest.zoom⟩
      · rw [Eff.zoom_run, hx]
      · show inner.get (outer.get (outer.put t s)) = inner.get (outer.get s)
        rw [outer.get_put, hget]

theorem SavesOnce.zoom {outer : Lens σ τ} {inner : Lens τ κ} :
    ∀ {p : Steps L τ ε α}, SavesOnce inner access p →
      SavesOnce (outer.comp inner) access (p.zoom outer.get outer.put)
  | .done (.ok _), h => h
  | .done (.error _), _ => trivial
  | .step label x next, h => by
      have hinner : ∀ {s : σ} {b t}, Eff.zoom outer.get outer.put x s = (.ok b, t) →
          x (outer.get s) = (.ok b, (x (outer.get s)).2) :=
        fun hx => Prod.ext (Prod.mk.inj hx).1 rfl
      show SavesOnce (outer.comp inner) access (.step label (Eff.zoom outer.get outer.put x) _)
      cases ha : access label with
      | none =>
          simp only [SavesOnce, ha] at h ⊢
          exact ⟨h.1.zoom, fun s b t hx => (h.2 _ b _ (hinner hx)).zoom⟩
      | read =>
          simp only [SavesOnce, ha] at h ⊢
          refine ⟨fun s => ?_, fun s b t hx => (h.2 _ b _ (hinner hx)).zoom⟩
          show inner.get (outer.get (outer.put (x (outer.get s)).2 s)) = inner.get (outer.get s)
          rw [outer.get_put]
          exact h.1 (outer.get s)
      | save =>
          simp only [SavesOnce, ha] at h ⊢
          exact fun b => (h b).imp (fun hb => hb.zoom) fun hs => hs.zoom

theorem Alone.of_zoom {outer : Lens σ τ} {inner : Lens τ κ} {E : σ → Prop} :
    ∀ {p : Steps L τ ε α} {k k' : κ},
      Alone (outer.comp inner) E (p.zoom outer.get outer.put) k k' →
        Alone inner (fun m => ∃ s, E s ∧ m = outer.get s) p k k'
  | .done r, k, k', h => by
      obtain ⟨rfl, a, rfl⟩ := h.of_done
      exact .done a k'
  | .step label x next, k, k', h => by
      cases h with
      | @step _ _ s t _ _ hs hstep hrest =>
          cases hstep with
          | @ok _ _ _ _ _ _ b hx =>
              have hinner := Alone.of_zoom hrest
              obtain ⟨hr, rfl⟩ := Prod.mk.inj hx
              have hget : (outer.comp inner).get (outer.put (x (outer.get s)).2 s) =
                  inner.get (x (outer.get s)).2 := by
                show inner.get (outer.get (outer.put _ s)) = _
                rw [outer.get_put]
              rw [hget] at hinner
              exact .step ⟨s, hs, rfl⟩ (.ok (Prod.ext hr rfl)) hinner

end

/-! ## Runs -/

/-- A call, what is left of it, and the values of the component that it has read. -/
structure Call (L σ ε κ : Type) where
  prog : Steps L σ ε Unit
  rest : Steps L σ ε Unit
  reads : List κ

/-- The calls on a state.  `visited` has the states before each step so far, and `saves` the
saves so far: who saved, and the component before and after. -/
structure Pool (L σ ε κ : Type) where
  state : σ
  calls : List (Call L σ ε κ)
  visited : List σ
  saves : List (Nat × κ × κ)

/-- The pool before the first step. -/
def Pool.start (s : σ) (progs : List (Steps L σ ε Unit)) : Pool L σ ε κ :=
  ⟨s, progs.map fun p => ⟨p, p, []⟩, [], []⟩

/-- The values read after a step. -/
def readsAfter (a : Access) (k : κ) (reads : List κ) : List κ :=
  if a = .read then reads ++ [k] else reads

/-- The saves after a step. -/
def savesAfter (a : Access) (i : Nat) (k k' : κ) (saves : List (Nat × κ × κ)) :
    List (Nat × κ × κ) :=
  if a = .save then saves ++ [(i, k, k')] else saves

/-- One call makes one step.  A save is made only where `cond` holds of the values that the call
has read and of the current one. -/
inductive Pool.Step (cond : List κ → κ → Prop) : Pool L σ ε κ → Pool L σ ε κ → Prop
  | mk {P : Pool L σ ε κ} (i : Nat) {c : Call L σ ε κ} {label : L} {rest : Steps L σ ε Unit}
      {t : σ} :
      P.calls[i]? = some c → Steps.Step c.rest P.state label true rest t →
      (access label = .save → cond c.reads (l.get P.state)) →
      Pool.Step cond P
        { state := t
          calls := P.calls.set i
            ⟨c.prog, rest, readsAfter (access label) (l.get P.state) c.reads⟩
          visited := P.visited ++ [P.state]
          saves := savesAfter (access label) i (l.get P.state) (l.get t) P.saves }

/-- Every value read is the current one. -/
def Fresh (reads : List κ) (k : κ) : Prop := ∀ r ∈ reads, r = k

/-! ## The invariant -/

/-- However the rest of the call runs alone from `v`, the whole call runs alone from `k`. -/
def Replays (E : σ → Prop) (c : Call L σ ε κ) (k v : κ) : Prop :=
  ∀ (E' : σ → Prop) k', (∀ s, E s → E' s) → Alone l E' c.rest v k' → Alone l E' c.prog k k'

/-- Before its save a call can be run alone from any value that agrees with what it has read.
After its save it can be run alone from the value that it found. -/
inductive CallOk (E : σ → Prop) (saves : List (Nat × κ × κ)) (i : Nat) (c : Call L σ ε κ) : Prop
  | unsaved : (∀ save ∈ saves, save.1 ≠ i) → SavesOnce l access c.rest →
      (∀ k, Fresh c.reads k → Replays l E c k k) → CallOk E saves i c
  | blind {k v : κ} : (i, k, v) ∈ saves → Blind l access c.rest → Replays l E c k v →
      CallOk E saves i c
  | settled {k v : κ} : (i, k, v) ∈ saves → Settles l access c.rest → Alone l E c.prog k v →
      CallOk E saves i c

/-- The invariant of a run from the value `k₀`. -/
structure Inv (k₀ : κ) (P : Pool L σ ε κ) : Prop where
  linked : Serially (fun i k k' => (i, k, k') ∈ P.saves) (P.saves.map Prod.fst) k₀ (l.get P.state)
  nodup : (P.saves.map Prod.fst).Nodup
  bound : ∀ save ∈ P.saves, save.1 < P.calls.length
  calls : ∀ (i : Nat) c, P.calls[i]? = some c → CallOk l access (Among l P.visited) P.saves i c

variable {l access}

theorem Among.append {visited : List σ} (s' : σ) :
    ∀ s, Among l visited s → Among l (visited ++ [s']) s := by
  rintro s ⟨s₀, hmem, hs⟩
  exact ⟨s₀, List.mem_append_left _ hmem, hs⟩

theorem Among.put (visited : List σ) (s : σ) (k : κ) : Among l (visited ++ [s]) (l.put k s) :=
  ⟨s, by simp, by rw [l.get_put]⟩

theorem Among.last (visited : List σ) (s : σ) : Among l (visited ++ [s]) s :=
  ⟨s, by simp, (l.put_get s).symm⟩

theorem Replays.mono {E E' : σ → Prop} (hE : ∀ s, E s → E' s) {c : Call L σ ε κ} {k v : κ}
    (h : Replays l E c k v) : Replays l E' c k v :=
  fun E'' k' hE' halone => h E'' k' (fun s hs => hE' s (hE s hs)) halone

/-- A step of the rest, made in a state where the component has the right value. -/
theorem Replays.step {E E' : σ → Prop} (hE : ∀ s, E s → E' s) {c : Call L σ ε κ} {k : κ} {s t : σ}
    {label : L} {rest : Steps L σ ε Unit} (reads : List κ) (hs : E' s)
    (hstep : Steps.Step c.rest s label true rest t) (h : Replays l E c k (l.get s)) :
    Replays l E' ⟨c.prog, rest, reads⟩ k (l.get t) :=
  fun E'' k' hE' halone =>
    h E'' k' (fun s hs => hE' s (hE s hs)) (.step (hE' s hs) hstep halone)

/-- A rest that settles can be run alone from every value. -/
theorem Settles.alone {E : σ → Prop} {s₀ : σ} (hE : ∀ k, E (l.put k s₀)) :
    ∀ {p : Steps L σ ε α}, Settles l access p → ∀ v, Alone l E p v v
  | .done (.ok a), _, v => .done a v
  | .done (.error _), h, _ => nomatch h
  | .step label x next, h, v => by
      obtain ⟨b, t, hx, hget, hrest⟩ := h.2 (l.put v s₀)
      rw [l.get_put] at hget
      have hstep : Steps.Step (.step label x next) (l.put v s₀) label true (next b) t := .ok hx
      have halone : Alone l E (next b) (l.get t) v := hget ▸ hrest.alone hE v
      have hfirst := Alone.step (hE v) hstep halone
      rwa [l.get_put] at hfirst

/-- A rest that settles leaves the component alone. -/
theorem Settles.eq_of_alone {E : σ → Prop} {p : Steps L σ ε α} {k k' : κ}
    (h : Settles l access p) (halone : Alone l E p k k') : k' = k := by
  induction halone with
  | done => rfl
  | step _ hstep _ ih =>
      obtain ⟨_, hget, hrest⟩ := h.step hstep
      rw [ih hrest, hget]

/-- The other calls keep their part of the invariant. -/
theorem CallOk.other {E E' : σ → Prop} (hE : ∀ s, E s → E' s)
    {saves saves' : List (Nat × κ × κ)} {i : Nat} {c : Call L σ ε κ}
    (h : CallOk l access E saves i c) (hold : ∀ save ∈ saves, save ∈ saves')
    (hnew : ∀ save ∈ saves', save ∈ saves ∨ save.1 ≠ i) : CallOk l access E' saves' i c := by
  cases h with
  | unsaved hnot hsaves hreplays =>
      refine .unsaved (fun save hmem => ?_) hsaves fun k hk => (hreplays k hk).mono hE
      exact (hnew save hmem).elim (hnot save) id
  | blind hmem hblind hreplays => exact .blind (hold _ hmem) hblind (hreplays.mono hE)
  | settled hmem hsettles halone => exact .settled (hold _ hmem) hsettles (halone.mono hE)

/-- A step that leaves the component alone can be replayed with any value of it. -/
theorem Replays.neutral {visited : List σ} {c : Call L σ ε κ} {k v : κ} {s t : σ} {label : L}
    {rest : Steps L σ ε Unit} (reads : List κ) (hstep : NeutralStep l c.rest s label rest t)
    (h : Replays l (Among l visited) c k v) :
    Replays l (Among l (visited ++ [s])) ⟨c.prog, rest, reads⟩ k v := by
  have hget := l.get_put v s
  have hnext := Replays.step (Among.append s) reads (Among.put visited s v)
    (hstep.2 v) (hget.symm ▸ h)
  rwa [l.get_put] at hnext

/-- The step of a call keeps its part of the invariant.  It changes the component only in a save,
which is its first. -/
theorem CallOk.step {visited : List σ} {saves : List (Nat × κ × κ)} {i : Nat}
    {c : Call L σ ε κ} {s t : σ} {label : L} {rest : Steps L σ ε Unit}
    (hstep : Steps.Step c.rest s label true rest t)
    (hcond : access label = .save → Fresh c.reads (l.get s))
    (h : CallOk l access (Among l visited) saves i c) :
    CallOk l access (Among l (visited ++ [s]))
        (savesAfter (access label) i (l.get s) (l.get t) saves) i
        ⟨c.prog, rest, readsAfter (access label) (l.get s) c.reads⟩ ∧
      (access label ≠ .save → l.get t = l.get s) ∧
      (access label = .save → ∀ save ∈ saves, save.1 ≠ i) := by
  cases h with
  | unsaved hnot hsaves hreplays =>
      rcases hsaves.step hstep with ⟨ha, hneutral, hrest⟩ | ⟨ha, hget, hrest⟩ | ⟨ha, hrest⟩
      · simp only [ha, savesAfter, readsAfter, reduceCtorEq, if_false]
        refine ⟨.unsaved hnot hrest fun k hk => ?_, fun _ => hneutral.1, fun h => nomatch h⟩
        exact (hreplays k hk).neutral _ hneutral
      · simp only [ha, savesAfter, readsAfter, reduceCtorEq, if_false, if_true]
        refine ⟨.unsaved hnot hrest fun k hk => ?_, fun _ => hget, fun h => nomatch h⟩
        -- The value just read is the only one that the reads can agree on.
        obtain rfl : l.get s = k := hk _ (by simp)
        have hold : Fresh c.reads (l.get s) := fun r hr => hk r (List.mem_append_left _ hr)
        have hnext := Replays.step (Among.append s) (c.reads ++ [l.get s])
          (Among.last visited s) hstep (hreplays _ hold)
        rwa [hget] at hnext
      · simp only [ha, savesAfter, readsAfter, reduceCtorEq, if_false, if_true]
        have hnext := Replays.step (Among.append s) c.reads (Among.last visited s)
          hstep (hreplays _ (hcond ha))
        have hmem : (i, l.get s, l.get t) ∈ saves ++ [(i, l.get s, l.get t)] := by simp
        refine ⟨?_, fun h => absurd rfl h, fun _ => hnot⟩
        rcases hrest with hblind | hsettles
        · exact .blind hmem hblind hnext
        · exact .settled hmem hsettles (hnext _ _ (fun _ h => h)
            (hsettles.alone (Among.put visited s) _))
  | blind hmem hblind hreplays =>
      obtain ⟨ha, hneutral, hrest⟩ := hblind.step hstep
      simp only [savesAfter, if_neg ha]
      exact ⟨.blind hmem hrest (hreplays.neutral _ hneutral), fun _ => hneutral.1,
        fun h => absurd h ha⟩
  | settled hmem hsettles halone =>
      obtain ⟨ha, hget, hrest⟩ := hsettles.step hstep
      simp only [savesAfter, if_neg ha]
      exact ⟨.settled hmem hrest (halone.mono (Among.append s)), fun _ => hget,
        fun h => absurd h ha⟩

theorem mem_savesAfter {a : Access} {i : Nat} {k k' : κ} {saves : List (Nat × κ × κ)}
    {save : Nat × κ × κ} (h : save ∈ savesAfter a i k k' saves) :
    save ∈ saves ∨ save = (i, k, k') := by
  unfold savesAfter at h
  split at h
  · exact (List.mem_append.mp h).imp_right List.mem_singleton.mp
  · exact Or.inl h

theorem mem_savesAfter_of_mem (a : Access) (i : Nat) (k k' : κ) {saves : List (Nat × κ × κ)}
    {save : Nat × κ × κ} (h : save ∈ saves) : save ∈ savesAfter a i k k' saves := by
  unfold savesAfter
  split
  · exact List.mem_append_left _ h
  · exact h

theorem Inv.step {k₀ : κ} {P Q : Pool L σ ε κ} (hstep : Pool.Step l access Fresh P Q)
    (h : Inv l access k₀ P) : Inv l access k₀ Q := by
  cases hstep with
  | @mk i c label rest t hi hone hcond =>
      have hlt : i < P.calls.length := (List.getElem?_eq_some_iff.mp hi).1
      obtain ⟨hown, hsame, hfirst⟩ := (h.calls i c hi).step hone hcond
      refine ⟨?_, ?_, fun save hmem => ?_, fun j d hj => ?_⟩
      · by_cases ha : access label = .save
        · simp only [savesAfter, if_pos ha, List.map_append, List.map_cons, List.map_nil]
          refine .snoc (h.linked.mono fun j k k' hmem => List.mem_append_left _ hmem) ?_
          exact List.mem_append_right _ (List.mem_singleton.mpr rfl)
        · simp only [savesAfter, if_neg ha, hsame ha]
          exact h.linked
      · by_cases ha : access label = .save
        · simp only [savesAfter, if_pos ha, List.map_append, List.map_cons, List.map_nil]
          refine List.Nodup.append h.nodup (List.nodup_singleton i) fun j hj hi => ?_
          obtain ⟨save, hsave, rfl⟩ := List.mem_map.mp hj
          exact hfirst ha save hsave (List.mem_singleton.mp hi)
        · simp only [savesAfter, if_neg ha]
          exact h.nodup
      · rw [List.length_set]
        rcases mem_savesAfter hmem with hmem | rfl
        · exact h.bound save hmem
        · exact hlt
      · by_cases hij : i = j
        · subst hij
          rw [List.getElem?_set_self hlt, Option.some.injEq] at hj
          obtain rfl := hj
          exact hown
        · rw [List.getElem?_set_ne hij] at hj
          refine (h.calls j d hj).other (Among.append _)
            (fun save hmem => mem_savesAfter_of_mem _ _ _ _ hmem) fun save hmem => ?_
          rcases mem_savesAfter hmem with hmem | rfl
          · exact Or.inl hmem
          · exact Or.inr hij

theorem Inv.run {k₀ : κ} {P Q : Pool L σ ε κ}
    (hrun : Relation.ReflTransGen (Pool.Step l access Fresh) P Q) (h : Inv l access k₀ P) :
    Inv l access k₀ Q := by
  induction hrun with
  | refl => exact h
  | tail _ hstep ih => exact ih.step hstep

theorem Inv.start (s : σ) {progs : List (Steps L σ ε Unit)}
    (hprogs : ∀ p ∈ progs, SavesOnce l access p) :
    Inv l access (l.get s) (Pool.start s progs) := by
  refine ⟨.nil _, List.nodup_nil, fun _ h => (nomatch h), fun i c hi => ?_⟩
  rw [Pool.start, List.getElem?_map, Option.map_eq_some_iff] at hi
  obtain ⟨p, hp, rfl⟩ := hi
  exact .unsaved (fun _ h => (nomatch h)) (hprogs p (List.mem_of_getElem? hp))
    fun k _ E' k' _ halone => halone

/-- The calls of a pool stay the same. -/
theorem progs_run {cond : List κ → κ → Prop} {P Q : Pool L σ ε κ}
    (hrun : Relation.ReflTransGen (Pool.Step l access cond) P Q) :
    Q.calls.map Call.prog = P.calls.map Call.prog := by
  induction hrun with
  | refl => rfl
  | tail _ hstep ih =>
      rw [← ih]
      cases hstep with
      | @mk i c label rest t hi hone hcond =>
          refine List.ext_getElem? fun j => ?_
          rw [List.getElem?_map, List.getElem?_map]
          by_cases hij : i = j
          · subst hij
            rw [List.getElem?_set_self (List.getElem?_eq_some_iff.mp hi).1, hi]
            rfl
          · rw [List.getElem?_set_ne hij]

/-- What no step of the calls changes is the same in every state of a run. -/
theorem keeps_run {γ : Type} {g : σ → γ} {cond : List κ → κ → Prop} {s : σ}
    {progs : List (Steps L σ ε Unit)} {P : Pool L σ ε κ}
    (hprogs : ∀ p ∈ progs, p.All fun _ f => ∀ s, g (f s) = g s)
    (hrun : Relation.ReflTransGen (Pool.Step l access cond) (Pool.start s progs) P) :
    g P.state = g s ∧ (∀ v ∈ P.visited, g v = g s) ∧
      ∀ c ∈ P.calls, c.rest.All fun _ f => ∀ s, g (f s) = g s := by
  induction hrun with
  | refl =>
      refine ⟨rfl, fun _ hv => (nomatch hv), fun c hc => ?_⟩
      obtain ⟨p, hp, rfl⟩ := List.mem_map.mp hc
      exact hprogs p hp
  | tail _ hstep ih =>
      obtain ⟨hstate, hvisited, hcalls⟩ := ih
      cases hstep with
      | @mk i c label rest t hi hone hcond =>
          obtain ⟨⟨f, hf, rfl⟩, hrest⟩ := hone.all (hcalls c (List.mem_of_getElem? hi))
          refine ⟨(hf _).trans hstate, fun v hv => ?_, fun d hd => ?_⟩
          · rcases List.mem_append.mp hv with hv | hv
            · exact hvisited v hv
            · rw [List.mem_singleton.mp hv]
              exact hstate
          · rcases List.mem_or_eq_of_mem_set hd with hd | rfl
            · exact hcalls d hd
            · exact hrest

/-- All calls have ended successfully. -/
def Pool.Done (P : Pool L σ ε κ) : Prop := ∀ c ∈ P.calls, c.rest = .done (.ok ())

/-- A call that has ended has saved, and can be run alone from the value that it found. -/
theorem CallOk.saved {E : σ → Prop} {saves : List (Nat × κ × κ)} {i : Nat} {c : Call L σ ε κ}
    (h : CallOk l access E saves i c) (hdone : c.rest = .done (.ok ())) :
    ∃ k v, (i, k, v) ∈ saves ∧ Alone l E c.prog k v := by
  cases h with
  | unsaved _ hsaves _ =>
      rw [hdone] at hsaves
      exact hsaves.elim
  | @blind k v hmem _ hreplays =>
      refine ⟨k, v, hmem, hreplays E v (fun _ hs => hs) ?_⟩
      rw [hdone]
      exact .done () v
  | @settled k v hmem _ halone => exact ⟨k, v, hmem, halone⟩

/-! ## Serialization -/

section

variable {s : σ} {progs : List (Steps L σ ε Unit)} {P : Pool L σ ε κ}
  (hprogs : ∀ p ∈ progs, SavesOnce l access p)
  (hrun : Relation.ReflTransGen (Pool.Step l access Fresh) (Pool.start s progs) P)
  (hdone : P.Done)

include hprogs hrun hdone

/-- Every call has saved, and can be run alone from the value that it found. -/
theorem saved_of_done {i : Nat} (hi : i < P.calls.length) :
    ∃ p k k', progs[i]? = some p ∧ (i, k, k') ∈ P.saves ∧ Alone l (Among l P.visited) p k k' := by
  have hinv := (Inv.start s hprogs).run hrun
  have hprog : P.calls.map Call.prog = progs := by
    rw [progs_run hrun, Pool.start, List.map_map]
    exact List.map_id progs
  obtain ⟨c, hc⟩ : ∃ c, P.calls[i]? = some c := ⟨_, List.getElem?_eq_getElem hi⟩
  obtain ⟨k, k', hmem, halone⟩ := (hinv.calls i c hc).saved (hdone c (List.mem_of_getElem? hc))
  refine ⟨c.prog, k, k', ?_, hmem, halone⟩
  rw [← hprog, List.getElem?_map, hc]
  rfl

/-- What a call saved is what it saves alone. -/
theorem alone_of_save {i : Nat} {k k' : κ} (hmem : (i, k, k') ∈ P.saves) :
    ∃ p, progs[i]? = some p ∧ Alone l (Among l P.visited) p k k' := by
  have hinv := (Inv.start s hprogs).run hrun
  obtain ⟨p, k₁, k₁', hp, hmem₁, halone⟩ :=
    saved_of_done hprogs hrun hdone (hinv.bound _ hmem)
  have hunique : (i, k, k') = (i, k₁, k₁') := List.inj_on_of_nodup_map hinv.nodup hmem hmem₁ rfl
  cases hunique
  exact ⟨p, hp, halone⟩

/-- When every save found what its call had read, and all calls have ended, the component is as
after some sequence of the calls, each alone. -/
theorem serial_of_fresh :
    ∃ order : List Nat, order.Perm (List.range progs.length) ∧
      Serially (fun i k k' => ∃ p, progs[i]? = some p ∧ Alone l (Among l P.visited) p k k') order
        (l.get s) (l.get P.state) := by
  have hinv := (Inv.start s hprogs).run hrun
  have hlength : P.calls.length = progs.length := by
    have h := congrArg List.length (progs_run hrun)
    rwa [List.length_map, List.length_map, Pool.start, List.length_map] at h
  refine ⟨P.saves.map Prod.fst, ?_, hinv.linked.mono fun i k k' hmem =>
    alone_of_save hprogs hrun hdone hmem⟩
  refine (List.perm_ext_iff_of_nodup hinv.nodup List.nodup_range).mpr fun i => ?_
  rw [List.mem_range, ← hlength]
  constructor
  · intro hi
    obtain ⟨save, hsave, rfl⟩ := List.mem_map.mp hi
    exact hinv.bound save hsave
  · intro hi
    obtain ⟨_, k, k', _, hmem, _⟩ := saved_of_done hprogs hrun hdone hi
    exact List.mem_map.mpr ⟨_, hmem, rfl⟩

/-- The calls that saved before a given one and those that saved after it. -/
theorem serial_around_save {i : Nat} {k k' : κ} (hmem : (i, k, k') ∈ P.saves) :
    ∃ earlier later : List Nat,
      Serially (fun i k k' => ∃ p, progs[i]? = some p ∧ Alone l (Among l P.visited) p k k')
        earlier (l.get s) k ∧
      Serially (fun i k k' => ∃ p, progs[i]? = some p ∧ Alone l (Among l P.visited) p k k')
        later k' (l.get P.state) := by
  have hinv := (Inv.start s hprogs).run hrun
  obtain ⟨earlier, k₁, k₂, later, hearlier, hsave, hlater⟩ :=
    hinv.linked.of_mem (List.mem_map.mpr ⟨_, hmem, rfl⟩)
  have hunique : (i, k, k') = (i, k₁, k₂) := List.inj_on_of_nodup_map hinv.nodup hmem hsave rfl
  cases hunique
  exact ⟨earlier, later, hearlier.mono fun _ _ _ h => alone_of_save hprogs hrun hdone h,
    hlater.mono fun _ _ _ h => alone_of_save hprogs hrun hdone h⟩

end

/-! ## Executable runs -/

variable (l access)

/-- The step of the call with number `i`, if it succeeds and may be made. -/
def Pool.advance (cond : List κ → κ → Prop) [∀ reads k, Decidable (cond reads k)]
    (P : Pool L σ ε κ) (i : Nat) : Option (Pool L σ ε κ) :=
  match P.calls[i]? with
  | some ⟨prog, .step label x next, reads⟩ =>
      match x P.state with
      | (.ok b, t) =>
          if access label = .save → cond reads (l.get P.state) then
            some {
              state := t
              calls := P.calls.set i
                ⟨prog, next b, readsAfter (access label) (l.get P.state) reads⟩
              visited := P.visited ++ [P.state]
              saves := savesAfter (access label) i (l.get P.state) (l.get t) P.saves }
          else none
      | (.error _, _) => none
  | _ => none

/-- The steps of the calls with the given numbers. -/
def Pool.follow (cond : List κ → κ → Prop) [∀ reads k, Decidable (cond reads k)] :
    List Nat → Pool L σ ε κ → Option (Pool L σ ε κ)
  | [], P => some P
  | i :: is, P => (P.advance l access cond i).bind (Pool.follow cond is)

variable {l access}

theorem Pool.step_of_advance {cond : List κ → κ → Prop} [∀ reads k, Decidable (cond reads k)]
    {P Q : Pool L σ ε κ} {i : Nat} (h : P.advance l access cond i = some Q) :
    Pool.Step l access cond P Q := by
  unfold Pool.advance at h
  split at h
  · next prog β label x next reads hi =>
      split at h
      · next b t hx =>
          split at h
          · next hcond =>
              cases h
              exact .mk i hi (.ok hx) hcond
          · cases h
      · cases h
  · cases h

theorem Pool.run_of_follow {cond : List κ → κ → Prop} [∀ reads k, Decidable (cond reads k)] :
    ∀ {is : List Nat} {P Q : Pool L σ ε κ}, P.follow l access cond is = some Q →
      Relation.ReflTransGen (Pool.Step l access cond) P Q
  | [], P, Q, h => by
      cases h
      exact .refl
  | i :: is, P, Q, h => by
      obtain ⟨P', hfirst, hrest⟩ := Option.bind_eq_some_iff.mp h
      exact .head (Pool.step_of_advance hfirst) (Pool.run_of_follow hrest)

/-- Whether all calls have ended successfully. -/
def Pool.isDone (P : Pool L σ ε κ) : Bool :=
  P.calls.all fun c => match c.rest with
    | .done (.ok ()) => true
    | _ => false

theorem Pool.done_of_isDone {P : Pool L σ ε κ} (h : P.isDone = true) : P.Done := by
  intro c hc
  have hend := List.all_eq_true.mp h c hc
  split at hend
  · next heq => exact heq
  · cases hend

instance [DecidableEq κ] (reads : List κ) (k : κ) : Decidable (Fresh reads k) :=
  inferInstanceAs (Decidable (∀ r ∈ reads, r = k))

end Serial
