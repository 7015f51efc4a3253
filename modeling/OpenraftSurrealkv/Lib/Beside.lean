import Mathlib.Logic.Relation
import OpenraftSurrealkv.Lib.Steps

/-!
# A call beside its environment

One call makes its steps on a state that an environment moves in between.  What
the environment has done is its history.  How far the call has come is a moment:
what the environment may do can depend on it.

`Holds` is what has to hold of a call for all its results to meet a
postcondition, given an invariant between history and state and what the
environment is relied on to do.  It is proved along the code of the call, with
one rule for each kind of step, and `Holds.run` carries it over to runs.
-/

namespace Beside

variable {L σ ε α β η μ : Type}

/-- The rules of a run. -/
structure Rules (L σ η μ : Type) where
  /-- The moment after a step of the call. -/
  after : μ → L → μ
  /-- The moves of the environment. -/
  move : μ → η → σ → η → σ → Prop
  /-- The steps that the call may make. -/
  may : μ → L → η → σ → Prop

/-- A call beside its environment. -/
structure Config (L σ ε α η μ : Type) where
  rest : Steps L σ ε α
  moment : μ
  history : η
  state : σ

/-- One move of the environment or one step of the call. -/
inductive Config.Step (R : Rules L σ η μ) :
    Config L σ ε α η μ → Config L σ ε α η μ → Prop
  | move {c : Config L σ ε α η μ} {h : η} {s : σ} :
      R.move c.moment c.history c.state h s →
      Config.Step R c { c with history := h, state := s }
  | call {c : Config L σ ε α η μ} {label : L} {rest : Steps L σ ε α} {s : σ} :
      Steps.Step c.rest c.state label true rest s →
      R.may c.moment label c.history c.state →
      Config.Step R c ⟨rest, R.after c.moment label, c.history, s⟩

/-! ## What has to hold of a call -/

section

variable (R : Rules L σ η μ) (I : η → σ → Prop) (rely : μ → η → η → Prop)

/-- Every step of the call keeps the invariant, and every result meets the postcondition. -/
def Holds (Q : α → η → Prop) : Steps L σ ε α → μ → η → Prop
  | .done (.ok a), m, h => ∀ h', Relation.ReflTransGen (rely m) h h' → Q a h'
  | .done (.error _), _, _ => True
  | .step label x next, m, h => ∀ h' s b t, Relation.ReflTransGen (rely m) h h' → I h' s →
      R.may m label h' s → x s = (.ok b, t) → I h' t ∧ Holds Q (next b) (R.after m label) h'

variable {R I rely} {Q : α → η → Prop}

/-- The environment can go on before the call does. -/
theorem Holds.later {m : μ} {h h' : η} (hrely : Relation.ReflTransGen (rely m) h h') :
    ∀ {p : Steps L σ ε α}, Holds R I rely Q p m h → Holds R I rely Q p m h'
  | .done (.ok _), hp => fun h'' hmore => hp h'' (hrely.trans hmore)
  | .done (.error _), _ => trivial
  | .step _ _ _, hp => fun h'' s b t hmore => hp h'' s b t (hrely.trans hmore)

/-- A run keeps the invariant and what has to hold of the call. -/
theorem Holds.run
    (henv : ∀ m h s h' s', R.move m h s h' s' → I h s → I h' s' ∧ rely m h h')
    {c d : Config L σ ε α η μ} (hrun : Relation.ReflTransGen (Config.Step R) c d)
    (hI : I c.history c.state) (hp : Holds R I rely Q c.rest c.moment c.history) :
    I d.history d.state ∧ Holds R I rely Q d.rest d.moment d.history := by
  induction hrun with
  | refl => exact ⟨hI, hp⟩
  | @tail c d _ hstep ih =>
      obtain ⟨p, m, h, s⟩ := c
      obtain ⟨hI, hp⟩ := ih
      cases hstep with
      | move hmove =>
          obtain ⟨hI', hrely⟩ := henv _ _ _ _ _ hmove hI
          exact ⟨hI', hp.later (.single hrely)⟩
      | call hone hmay =>
          cases hone with
          | ok hx => exact hp h s _ _ .refl hI hmay hx

/-- A step, and the rest of the call. -/
theorem Holds.act_andThen {Q : β → η → Prop} {label : L} {x : Eff σ ε α}
    {f : α → Steps L σ ε β} {m : μ} {h : η}
    (hx : ∀ h' s a t, Relation.ReflTransGen (rely m) h h' → I h' s → R.may m label h' s →
      x s = (.ok a, t) → I h' t ∧ Holds R I rely Q (f a) (R.after m label) h') :
    Holds R I rely Q ((Steps.act label x).andThen f) m h :=
  hx

/-- A read, and the rest of the call with what was read. -/
theorem Holds.read_andThen {Q : β → η → Prop} {label : L} {x : Eff σ ε α} {get : σ → α}
    {f : α → Steps L σ ε β} {m : μ} {h : η} (hx : ∀ s, x s = (.ok (get s), s))
    (hf : ∀ h' s, Relation.ReflTransGen (rely m) h h' → I h' s → R.may m label h' s →
      Holds R I rely Q (f (get s)) (R.after m label) h') :
    Holds R I rely Q ((Steps.act label x).andThen f) m h := by
  refine Holds.act_andThen fun h' s a t hrely hI hmay hrun => ?_
  rw [hx s] at hrun
  cases hrun
  exact ⟨hI, hf h' s hrely hI hmay⟩

/-- Steps that keep the invariant and leave the moment alone, and the rest of the call. -/
theorem Holds.quiet_andThen {Q : β → η → Prop} {f : α → Steps L σ ε β} {m : μ} :
    ∀ {p : Steps L σ ε α} {h : η},
      p.All (fun label g => R.after m label = m ∧ ∀ h s, I h s → I h (g s)) →
      (∀ a h', Relation.ReflTransGen (rely m) h h' → Holds R I rely Q (f a) m h') →
      Holds R I rely Q (p.andThen f) m h
  | .done (.ok a), h, _, hf => hf a h .refl
  | .done (.error _), _, _, _ => trivial
  | .step label x next, h, hp, hf => by
      intro h' s b t hrely hI _ hx
      obtain ⟨⟨hmoment, hkeeps⟩, hnext⟩ := hp
      have hI' : I h' (x s).2 := hkeeps h' s hI
      rw [hx] at hI'
      rw [hmoment]
      exact ⟨hI', Holds.quiet_andThen (hnext b) fun a h'' hmore => hf a h'' (hrely.trans hmore)⟩

/-- How the errors of a call are reported does not matter. -/
theorem Holds.mapErr_andThen {Q : β → η → Prop} {e : ε → ε} {f : α → Steps L σ ε β} :
    ∀ {p : Steps L σ ε α} {m : μ} {h : η}, Holds R I rely Q (p.andThen f) m h →
      Holds R I rely Q ((p.mapErr e).andThen f) m h
  | .done (.ok _), _, _, hp => hp
  | .done (.error _), _, _, _ => trivial
  | .step label x next, m, h, hp => by
      intro h' s b t hrely hI hmay hx
      obtain ⟨hI', hnext⟩ := hp h' s b t hrely hI hmay (Eff.mapErr_eq_ok_iff.mp hx)
      exact ⟨hI', hnext.mapErr_andThen⟩

end

end Beside
