import Mathlib.Logic.Relation
import OpenraftSurrealkv.Lib.Steps

/-!
# Calls that rely on each other

Calls run beside each other on one state, a step of one after a step of another.
An invariant `I` and a preorder `G` on states are what they owe each other: every
step keeps `I` and moves within `G`, and each call may rely on the others for that.

`Assured I G p s` says so of the call `p` from the state `s` on, whatever the
others do in between.  What a call has seen of the state it can use later as far
as moves within `G` leave it true.  A set of assured calls keeps the invariant in
every interleaving (`Interleaving.Sound.run`), and so does an assured call that
runs in a row (`Assured.run`).
-/

namespace Steps

variable {L σ τ ε α β : Type}

section

variable (I : σ → Prop) (G : σ → σ → Prop)

/-- A move as the calls owe it to each other. -/
def Owed (s t : σ) : Prop := I s → I t ∧ G s t

instance [IsPreorder σ G] : IsPreorder σ (Owed I G) where
  refl s hs := ⟨hs, refl_of G s⟩
  trans _ _ _ h₁ h₂ hs := ⟨(h₂ (h₁ hs).1).1, trans_of G (h₁ hs).2 (h₂ (h₁ hs).1).2⟩

/-- Every step of the call is as owed, as long as the moves of the others are. -/
def Assured : Steps L σ ε α → σ → Prop
  | .done _, _ => True
  | .step _ x next, s => ∀ s', G s s' → I s' →
      (I (x s').2 ∧ G s' (x s').2) ∧ ∀ b, (x s').1 = .ok b → (next b).Assured (x s').2

end

variable {I : σ → Prop} {G : σ → σ → Prop}

/-! ## Rules -/

/-- A call that is as owed in each step, wherever it makes it. -/
theorem All.assured : ∀ {p : Steps L σ ε α} {s : σ},
    p.All (fun _ f => ∀ s, Owed I G s (f s)) → p.Assured I G s
  | .done _, _, _ => trivial
  | .step _ _ _, _, hp => fun s' _ hs' => ⟨hp.1 s' hs', fun b _ => (hp.2 b).assured⟩

/-- A step, and the rest of the call with what the step returned. -/
theorem Assured.act_andThen {label : L} {x : Eff σ ε α} {f : α → Steps L σ ε β} {s : σ}
    (hx : Eff.Within (Owed I G) x)
    (hf : ∀ s' a t, G s s' → I s' → x s' = (.ok a, t) → (f a).Assured I G t) :
    ((act label x).andThen f).Assured I G s := by
  intro s' hmove hs'
  refine ⟨hx s' hs', fun a ha => hf s' a _ hmove hs' ?_⟩
  rw [← ha]

/-- How the errors of a call are reported does not matter. -/
theorem Assured.mapErr {e : ε → ε} : ∀ {p : Steps L σ ε α} {s : σ}, p.Assured I G s →
    (p.mapErr e).Assured I G s
  | .done (.ok _), _, _ => trivial
  | .done (.error _), _, _ => trivial
  | .step label x next, s, hp => by
      intro s' hmove hs'
      obtain ⟨howed, hnext⟩ := hp s' hmove hs'
      rw [Eff.mapErr_state]
      refine ⟨howed, fun b hb => (hnext b ?_).mapErr⟩
      exact congrArg Prod.fst (Eff.mapErr_eq_ok_iff.mp (Prod.ext hb rfl))

variable [IsPreorder σ G]

/-- A read, and the rest of the call with what was read. -/
theorem Assured.read_andThen {label : L} {x : Eff σ ε α} {get : σ → α} {f : α → Steps L σ ε β}
    {s : σ} (hx : ∀ s, x s = (.ok (get s), s))
    (hf : ∀ s', G s s' → I s' → (f (get s')).Assured I G s') :
    ((act label x).andThen f).Assured I G s := by
  have hkeeps : Eff.Within (Owed I G) x := by
    intro s'
    rw [hx]
    exact refl_of (Owed I G) s'
  refine .act_andThen hkeeps fun s' a t hmove hs' hrun => ?_
  rw [hx] at hrun
  cases hrun
  exact hf s' hmove hs'

/-- A call after another, when it is assured wherever the other one ends. -/
theorem Assured.andThen {f : α → Steps L σ ε β} : ∀ {p : Steps L σ ε α} {s : σ},
    p.Assured I G s → (∀ a t, G s t → (f a).Assured I G t) → (p.andThen f).Assured I G s
  | .done (.ok a), s, _, hf => hf a s (refl_of G s)
  | .done (.error _), _, _, _ => trivial
  | .step label x next, s, hp, hf => by
      intro s' hmove hs'
      obtain ⟨howed, hnext⟩ := hp s' hmove hs'
      refine ⟨howed, fun b hb => (hnext b hb).andThen fun a t hlater => hf a t ?_⟩
      exact trans_of G hmove (trans_of G howed.2 hlater)

/-! ## Steps -/

/-- In a row, steps within a preorder are within it. -/
theorem All.within_run {R : σ → σ → Prop} [IsPreorder σ R] : ∀ {p : Steps L σ ε α},
    p.All (fun _ f => ∀ s, R s (f s)) → Eff.Within R p.run
  | .done _, _ => .ofExcept _
  | .step _ _ _, hp => .bind hp.1 fun b => (hp.2 b).within_run

/-- A call stays assured while the others move. -/
theorem Assured.later {s s' : σ} (h : G s s') :
    ∀ {p : Steps L σ ε α}, p.Assured I G s → p.Assured I G s'
  | .done _, _ => trivial
  | .step _ _ _, hp => fun s'' h' => hp s'' (trans_of G h h')

/-- A step of an assured call is as owed, and the rest is assured. -/
theorem Step.assured {p p' : Steps L σ ε α} {s t : σ} {label : L} {ok : Bool}
    (h : Step p s label ok p' t) (hp : p.Assured I G s) (hs : I s) :
    (I t ∧ G s t) ∧ p'.Assured I G t := by
  cases h with
  | ok hx =>
      obtain ⟨howed, hnext⟩ := hp s (refl_of G s) hs
      rw [hx] at howed hnext
      exact ⟨howed, hnext _ rfl⟩
  | error hx =>
      obtain ⟨howed, -⟩ := hp s (refl_of G s) hs
      rw [hx] at howed
      exact ⟨howed, trivial⟩

/-- In a row, the steps of an assured call are as owed. -/
theorem Assured.run : ∀ {p : Steps L σ ε α} {s : σ}, p.Assured I G s → Owed I G s (p.run s).2
  | .done r, s, _ => refl_of (Owed I G) s
  | .step label x next, s, hp => by
      intro hs
      obtain ⟨howed, hnext⟩ := hp s (refl_of G s) hs
      show I ((x >>= fun b => (next b).run) s).2 ∧ G s ((x >>= fun b => (next b).run) s).2
      rcases hx : x s with ⟨r, t⟩
      rw [hx] at howed hnext
      cases r with
      | error e =>
          rw [Eff.bind_of_error hx]
          exact howed
      | ok b =>
          rw [Eff.bind_of_ok hx]
          obtain ⟨hI, hG⟩ := (hnext b rfl).run howed.1
          exact ⟨hI, trans_of G howed.2 hG⟩

end Steps

/-! ## Interleavings -/

/-- A state and what is left of the calls that run on it. -/
structure Interleaving (L σ ε α : Type) where
  state : σ
  calls : List (Steps L σ ε α)

namespace Interleaving

variable {L σ ε α : Type}

/-- A call begins or makes a step, the surroundings move, or everything starts over and the calls
are gone. -/
inductive Step (begins : Steps L σ ε α → Prop) (move restart : σ → σ → Prop) :
    Interleaving L σ ε α → Interleaving L σ ε α → Prop
  | begin {S : Interleaving L σ ε α} {p : Steps L σ ε α} : begins p →
      Step begins move restart S { S with calls := S.calls ++ [p] }
  | call {S : Interleaving L σ ε α} {i : Nat} {p p' : Steps L σ ε α} {label : L} {ok : Bool}
      {t : σ} : S.calls[i]? = some p → Steps.Step p S.state label ok p' t →
      Step begins move restart S ⟨t, S.calls.set i p'⟩
  | move {S : Interleaving L σ ε α} {t : σ} : move S.state t →
      Step begins move restart S { S with state := t }
  | restart {S : Interleaving L σ ε α} {t : σ} : restart S.state t →
      Step begins move restart S ⟨t, []⟩

/-- The invariant holds and every call is assured. -/
structure Sound (I : σ → Prop) (G : σ → σ → Prop) (S : Interleaving L σ ε α) : Prop where
  inv : I S.state
  calls : ∀ p ∈ S.calls, p.Assured I G S.state

variable {I : σ → Prop} {G : σ → σ → Prop} {begins : Steps L σ ε α → Prop}
  {move restart : σ → σ → Prop} {S S' : Interleaving L σ ε α}

theorem Sound.nil {s : σ} (h : I s) : Sound I G (⟨s, []⟩ : Interleaving L σ ε α) :=
  ⟨h, List.forall_mem_nil _⟩

variable [IsPreorder σ G]

theorem Sound.step (hbegins : ∀ p, begins p → ∀ s, p.Assured I G s)
    (hmove : ∀ s t, move s t → Steps.Owed I G s t) (hrestart : ∀ s t, restart s t → I s → I t)
    (h : Sound I G S) (hstep : Step begins move restart S S') : Sound I G S' := by
  cases hstep with
  | @begin p hp =>
      refine ⟨h.inv, fun q hq => ?_⟩
      rcases List.mem_append.mp hq with hq | hq
      · exact h.calls q hq
      · rw [List.mem_singleton.mp hq]
        exact hbegins p hp S.state
  | @call i p p' _ _ t hi hone =>
      obtain ⟨⟨hI, hG⟩, hrest⟩ := hone.assured (h.calls p (List.mem_of_getElem? hi)) h.inv
      refine ⟨hI, fun q hq => ?_⟩
      rcases List.mem_or_eq_of_mem_set hq with hq | rfl
      · exact (h.calls q hq).later hG
      · exact hrest
  | @move t hone =>
      obtain ⟨hI, hG⟩ := hmove _ _ hone h.inv
      exact ⟨hI, fun q hq => (h.calls q hq).later hG⟩
  | restart hone => exact .nil (hrestart _ _ hone h.inv)

/-- Every interleaving of assured calls keeps the invariant. -/
theorem Sound.run (hbegins : ∀ p, begins p → ∀ s, p.Assured I G s)
    (hmove : ∀ s t, move s t → Steps.Owed I G s t) (hrestart : ∀ s t, restart s t → I s → I t)
    (h : Sound I G S) (hrun : Relation.ReflTransGen (Step begins move restart) S S') :
    Sound I G S' := by
  induction hrun with
  | refl => exact h
  | tail _ hstep ih => exact ih.step hbegins hmove hrestart hstep

/-! ## Calls in a row -/

/-- A call can make all its steps before anything else happens. -/
theorem reaches_call : ∀ {p : Steps L σ ε α} {s : σ} {calls : List (Steps L σ ε α)} {i : Nat},
    calls[i]? = some p → ∃ calls', Relation.ReflTransGen (Step begins move restart)
      ⟨s, calls⟩ ⟨(p.run s).2, calls'⟩
  | .done r, s, calls, i, _ => ⟨calls, .refl⟩
  | .step label x next, s, calls, i, hi => by
      have hlt : i < calls.length := (List.getElem?_eq_some_iff.mp hi).1
      show ∃ calls', Relation.ReflTransGen (Step begins move restart) ⟨s, calls⟩
        ⟨((x >>= fun b => (next b).run) s).2, calls'⟩
      rcases hx : x s with ⟨r, t⟩
      cases r with
      | error e =>
          rw [Eff.bind_of_error hx]
          exact ⟨_, .single (.call hi (.error hx))⟩
      | ok b =>
          rw [Eff.bind_of_ok hx]
          have hset : (calls.set i (next b))[i]? = some (next b) := List.getElem?_set_self hlt
          obtain ⟨calls', hrest⟩ := reaches_call hset
          exact ⟨calls', hrest.head (.call hi (.ok hx))⟩

/-- A call that can begin, with its result dropped, can be made in a row. -/
theorem reaches_run {β : Type} {p : Steps L σ ε β} {r : Except ε α}
    (hp : begins (p.andThen fun _ => .done r)) (s : σ) (calls : List (Steps L σ ε α)) :
    ∃ calls', Relation.ReflTransGen (Step begins move restart)
      ⟨s, calls⟩ ⟨(p.run s).2, calls'⟩ := by
  have hstate : ((p.andThen fun _ => .done r).run s).2 = (p.run s).2 := by
    rw [Steps.run_andThen, Eff.bind_run]
    rcases p.run s with ⟨_ | _, _⟩ <;> rfl
  rw [← hstate]
  obtain ⟨calls', hrun⟩ := reaches_call (s := s)
    (List.getElem?_concat_length (l := calls) (a := p.andThen fun _ => .done r))
  exact ⟨calls', hrun.head (.begin hp)⟩

end Interleaving
