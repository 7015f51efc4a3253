import Mathlib.Data.List.Forall2

/-!
# Lists related element by element

Facts about `List.Forall₂` for developments in which a list of records
describes a list of other things, one for one: every element has its partner,
the last elements are partners, and an order on one side carries over.
-/

namespace List

variable {α β : Type} {R : α → β → Prop} {as : List α} {bs : List β}

/-- Partners can be chosen for a whole list. -/
theorem exists_forall₂ : ∀ {bs : List β}, (∀ b ∈ bs, ∃ a, R a b) → ∃ as, Forall₂ R as bs
  | [], _ => ⟨[], .nil⟩
  | b :: bs, h => by
      obtain ⟨a, ha⟩ := h b mem_cons_self
      obtain ⟨as, has⟩ := exists_forall₂ fun b' hb' => h b' (mem_cons_of_mem b hb')
      exact ⟨a :: as, .cons ha has⟩

theorem Forall₂.exists_of_mem_right (h : Forall₂ R as bs) {b : β} (hb : b ∈ bs) :
    ∃ a ∈ as, R a b := by
  induction h with
  | nil => cases hb
  | cons hab _ ih =>
      rcases mem_cons.mp hb with rfl | hb
      · exact ⟨_, mem_cons_self, hab⟩
      · obtain ⟨a, ha, hr⟩ := ih hb
        exact ⟨a, mem_cons_of_mem _ ha, hr⟩

theorem Forall₂.exists_of_mem_left (h : Forall₂ R as bs) {a : α} (ha : a ∈ as) :
    ∃ b ∈ bs, R a b :=
  Forall₂.exists_of_mem_right (h.flip : Forall₂ (fun b a => R a b) bs as) ha

/-- The last elements are partners. -/
theorem Forall₂.exists_getLast_left (h : Forall₂ R as bs) {b : β} (hb : bs.getLast? = some b) :
    ∃ a, as.getLast? = some a ∧ R a b := by
  have hrev := forall₂_reverse_iff.mpr h
  rw [← head?_reverse] at hb ⊢
  generalize bs.reverse = bs' at hrev hb
  generalize as.reverse = as' at hrev ⊢
  cases hrev with
  | nil => cases hb
  | cons hab _ =>
      cases hb
      exact ⟨_, rfl, hab⟩

theorem Forall₂.exists_getLast_right (h : Forall₂ R as bs) {a : α} (ha : as.getLast? = some a) :
    ∃ b, bs.getLast? = some b ∧ R a b :=
  Forall₂.exists_getLast_left (h.flip : Forall₂ (fun b a => R a b) bs as) ha

/-- An order on one side carries over. -/
theorem Forall₂.pairwise {S : α → α → Prop} {T : β → β → Prop}
    (hST : ∀ a a' b b', S a a' → R a b → R a' b' → T b b') (h : Forall₂ R as bs)
    (hS : as.Pairwise S) : bs.Pairwise T := by
  induction h with
  | nil => exact .nil
  | cons hab hrest ih =>
      obtain ⟨hhead, htail⟩ := pairwise_cons.mp hS
      refine .cons (fun b' hb' => ?_) (ih htail)
      obtain ⟨a', ha', hr⟩ := hrest.exists_of_mem_right hb'
      exact hST _ _ _ _ (hhead a' ha') hab hr

end List
