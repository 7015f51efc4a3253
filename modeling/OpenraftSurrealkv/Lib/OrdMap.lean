import Mathlib.Tactic

/-!
# Ordered finite maps

`OrdMap K V` is the extensional ordered map of the standard library: two maps
with the same lookups are equal, and `toList` is in the order of the keys.  The
facts here are the ones an ordered log needs.  The entries of a map are the only
list that is in key order and holds exactly its lookups
(`toList_eq_of_ordered`), so writing beyond the last key appends
(`toList_insert_of_last`), and a range of keys is the ordered list of the lookups
inside it (`range_eq_of_ordered`).
-/

/-- A finite map with its entries in the order of the keys. -/
abbrev OrdMap (K V : Type) [Ord K] := Std.ExtTreeMap K V

namespace OrdMap

/-! ## Lookups -/

section

variable {K V : Type} [Ord K] [Std.TransOrd K] [Std.LawfulEqOrd K]

theorem get_insert [DecidableEq K] (m : OrdMap K V) (k a : K) (v : V) :
    (m.insert k v)[a]? = if k = a then some v else m[a]? := by
  rw [Std.ExtTreeMap.getElem?_insert]
  simp only [Std.compare_eq_iff_eq]

theorem get_insert_of_ne (m : OrdMap K V) {k a : K} (v : V) (h : k ≠ a) :
    (m.insert k v)[a]? = m[a]? := by
  rw [Std.ExtTreeMap.getElem?_insert, if_neg]
  rwa [Std.compare_eq_iff_eq]

theorem get_erase [DecidableEq K] (m : OrdMap K V) (k a : K) :
    (m.erase k)[a]? = if k = a then none else m[a]? := by
  rw [Std.ExtTreeMap.getElem?_erase]
  simp only [Std.compare_eq_iff_eq]

theorem mem_toList {m : OrdMap K V} {k : K} {v : V} : (k, v) ∈ m.toList ↔ m[k]? = some v :=
  Std.ExtTreeMap.mem_toList_iff_getElem?_eq_some

/-- A map is no larger than another that has all its keys. -/
theorem size_le_of_keys {W : Type} {m : OrdMap K V} {m' : OrdMap K W}
    (h : ∀ (k : K) (v : V), m[k]? = some v → ∃ w, m'[k]? = some w) : m.size ≤ m'.size := by
  rw [← Std.ExtTreeMap.length_keys, ← Std.ExtTreeMap.length_keys]
  refine (List.Nodup.subperm ?_ ?_).length_le
  · exact Std.ExtTreeMap.nodup_keys
  · intro k hk
    rw [Std.ExtTreeMap.mem_keys] at hk ⊢
    obtain ⟨w, hw⟩ := h k m[k] (Std.ExtTreeMap.getElem?_eq_some_getElem hk)
    exact Std.ExtTreeMap.mem_iff_isSome_getElem?.mpr (by rw [hw]; rfl)

end

/-! ## Insertions in a row -/

section

variable {K V A : Type} [Ord K] [Std.TransOrd K] [Std.LawfulEqOrd K]
variable {key : A → K} {val : A → V}

/-- Insertions under different keys do not replace each other. -/
theorem get_foldl_insert {l : List A} (h : l.Pairwise fun a b => key a ≠ key b) {k : K} {v : V} :
    ∀ {m : OrdMap K V}, (l.foldl (fun m a => m.insert (key a) (val a)) m)[k]? = some v ↔
      (∃ a ∈ l, key a = k ∧ val a = v) ∨ (∀ a ∈ l, key a ≠ k) ∧ m[k]? = some v := by
  induction l with
  | nil => simp
  | cons a l ih =>
      intro m
      obtain ⟨hne, hl⟩ := List.pairwise_cons.mp h
      rw [List.foldl_cons, ih hl]
      by_cases hk : key a = k
      · subst hk
        have hother : ∀ b ∈ l, key b ≠ key a := fun b hb => (hne b hb).symm
        simp only [Std.ExtTreeMap.getElem?_insert_self, List.mem_cons]
        grind
      · rw [get_insert_of_ne _ _ hk]
        simp only [List.mem_cons]
        grind

theorem size_foldl_insert {l : List A} (h : l.Pairwise fun a b => key a ≠ key b) :
    ∀ {m : OrdMap K V}, (∀ a ∈ l, m[key a]? = none) →
      (l.foldl (fun m a => m.insert (key a) (val a)) m).size = m.size + l.length := by
  induction l with
  | nil => simp
  | cons a l ih =>
      intro m hm
      obtain ⟨hne, hl⟩ := List.pairwise_cons.mp h
      have hnone : m.contains (key a) = false := by
        rw [← Std.ExtTreeMap.isSome_getElem?_eq_contains, hm a (List.mem_cons_self ..)]
        rfl
      have hrest : ∀ b ∈ l, (m.insert (key a) (val a))[key b]? = none := by
        intro b hb
        rw [get_insert_of_ne _ _ (hne b hb)]
        exact hm b (List.mem_cons_of_mem _ hb)
      rw [List.foldl_cons, ih hl hrest, Std.ExtTreeMap.size_insert, hnone, List.length_cons]
      simp only [Bool.false_eq_true, if_false]
      omega

end

/-! ## Lists in key order -/

section

variable {K V : Type} [LT K]

/-- A list of entries in strictly increasing order of the keys. -/
def Ordered (l : List (K × V)) : Prop := l.Pairwise fun p q => p.1 < q.1

theorem Ordered.filter {l : List (K × V)} (h : Ordered l) (p : K × V → Bool) :
    Ordered (l.filter p) :=
  List.Pairwise.filter p h

/-- The last entry has the greatest key. -/
theorem Ordered.lt_or_eq_of_getLast {l : List (K × V)} {last p : K × V} (h : Ordered l)
    (hlast : l.getLast? = some last) (hp : p ∈ l) : p.1 < last.1 ∨ p = last := by
  obtain ⟨init, rfl⟩ := List.getLast?_eq_some_iff.mp hlast
  rcases List.mem_append.mp hp with hp | hp
  · exact Or.inl ((List.pairwise_append.mp h).2.2 p hp last (List.mem_singleton.mpr rfl))
  · exact Or.inr (List.mem_singleton.mp hp)

theorem Ordered.append_single {l : List (K × V)} {p : K × V} (h : Ordered l)
    (hlt : ∀ q ∈ l, q.1 < p.1) : Ordered (l ++ [p]) := by
  refine List.pairwise_append.mpr ⟨h, List.pairwise_singleton _ _, ?_⟩
  intro q hq r hr
  rw [List.mem_singleton] at hr
  subst hr
  exact hlt q hq

variable [LE K] [Std.LawfulOrderLT K]

theorem Ordered.nodup {l : List (K × V)} (h : Ordered l) : l.Nodup := by
  refine List.Pairwise.imp ?_ h
  intro p q hlt heq
  rw [heq] at hlt
  exact Std.lt_irrefl hlt

/-- Two ordered lists with the same entries are equal. -/
theorem Ordered.eq_of_mem_iff [Std.IsLinearOrder K] {l l' : List (K × V)} (h : Ordered l)
    (h' : Ordered l') (hmem : ∀ p, p ∈ l ↔ p ∈ l') : l = l' := by
  refine List.Perm.eq_of_pairwise ?_ h h' ((List.perm_ext_iff_of_nodup h.nodup h'.nodup).mpr hmem)
  intro p q _ _ hpq hqp
  exact absurd (Std.lt_trans hpq hqp) Std.lt_irrefl

end

/-! ## The entries of a map -/

section

variable {K V : Type} [Ord K] [Std.TransOrd K] [LT K] [LE K] [Std.LawfulOrderOrd K]
  [Std.LawfulOrderLT K]

theorem ordered_toList (m : OrdMap K V) : Ordered m.toList :=
  Std.ExtTreeMap.ordered_keys_toList.imp fun h => Std.compare_eq_lt.mp h

variable [Std.LawfulEqOrd K] [Std.IsLinearOrder K]

/-- The entries of a map are the ordered list of its lookups. -/
theorem toList_eq_of_ordered {m : OrdMap K V} {l : List (K × V)} (h : Ordered l)
    (hmem : ∀ k v, (k, v) ∈ l ↔ m[k]? = some v) : m.toList = l :=
  (ordered_toList m).eq_of_mem_iff h fun p => mem_toList.trans (hmem p.1 p.2).symm

/-- Writing beyond the last key appends an entry. -/
theorem toList_insert_of_last {m : OrdMap K V} {k : K} {v : V}
    (h : ∀ p ∈ m.toList, p.1 < k) : (m.insert k v).toList = m.toList ++ [(k, v)] := by
  refine toList_eq_of_ordered ((ordered_toList m).append_single h) ?_
  intro a b
  have hne : ∀ c, (k, c) ∉ m.toList := fun c hc => Std.lt_irrefl (h _ hc)
  rw [Std.ExtTreeMap.getElem?_insert, List.mem_append, List.mem_singleton, mem_toList]
  by_cases hka : compare k a = .eq
  · have heq : k = a := Std.compare_eq_iff_eq.mp hka
    subst heq
    rw [if_pos hka, Prod.mk.injEq, Option.some.injEq]
    constructor
    · rintro (hm | ⟨-, rfl⟩)
      · exact absurd (mem_toList.mpr hm) (hne b)
      · rfl
    · intro hb
      exact Or.inr ⟨rfl, hb.symm⟩
  · rw [if_neg hka]
    constructor
    · rintro (hm | heq)
      · exact hm
      · rw [Prod.mk.injEq] at heq
        exact absurd (Std.compare_eq_iff_eq.mpr heq.1.symm) hka
    · intro hm
      exact Or.inl hm

end

/-! ## Ranges -/

section

variable {K V : Type} [Ord K] [Std.TransOrd K] [LE K] [DecidableLE K]

/-- The entries with a key between `lo` and `hi`, both included. -/
def range (m : OrdMap K V) (lo hi : K) : List (K × V) :=
  m.toList.filter fun p => decide (lo ≤ p.1) && decide (p.1 ≤ hi)

theorem mem_range [Std.LawfulEqOrd K] {m : OrdMap K V} {lo hi k : K} {v : V} :
    (k, v) ∈ range m lo hi ↔ m[k]? = some v ∧ lo ≤ k ∧ k ≤ hi := by
  simp only [range, List.mem_filter, mem_toList, Bool.and_eq_true, decide_eq_true_eq]

variable [LT K] [Std.LawfulOrderOrd K] [Std.LawfulOrderLT K]

theorem ordered_range (m : OrdMap K V) (lo hi : K) : Ordered (range m lo hi) :=
  (ordered_toList m).filter _

/-- A range is the ordered list of the lookups inside it. -/
theorem range_eq_of_ordered [Std.LawfulEqOrd K] [Std.IsLinearOrder K] {m : OrdMap K V}
    {lo hi : K} {l : List (K × V)} (h : Ordered l)
    (hmem : ∀ k v, (k, v) ∈ l ↔ m[k]? = some v ∧ lo ≤ k ∧ k ≤ hi) : range m lo hi = l :=
  (ordered_range m lo hi).eq_of_mem_iff h fun p => mem_range.trans (hmem p.1 p.2).symm

/-- Where a range ends does not depend on where it starts. -/
theorem getLast_range_eq [Std.LawfulEqOrd K] [Std.IsLinearOrder K] {m : OrdMap K V}
    {lo lo' hi : K} {p p' : K × V} (h : (range m lo hi).getLast? = some p)
    (h' : (range m lo' hi).getLast? = some p') : p = p' := by
  obtain ⟨hp, hlo, hhi⟩ := mem_range.mp (List.mem_of_getLast? h)
  obtain ⟨hp', hlo', hhi'⟩ := mem_range.mp (List.mem_of_getLast? h')
  rcases Std.le_total (a := p.1) (b := p'.1) with hle | hle
  · have hmem : p' ∈ range m lo hi := mem_range.mpr ⟨hp', Std.le_trans hlo hle, hhi'⟩
    rcases (ordered_range m lo hi).lt_or_eq_of_getLast h hmem with hlt | heq
    · exact absurd hle (Std.not_le.mpr hlt)
    · exact heq.symm
  · have hmem : p ∈ range m lo' hi := mem_range.mpr ⟨hp, Std.le_trans hlo' hle, hhi⟩
    rcases (ordered_range m lo' hi).lt_or_eq_of_getLast h' hmem with hlt | heq
    · exact absurd hle (Std.not_le.mpr hlt)
    · exact heq

end

end OrdMap
