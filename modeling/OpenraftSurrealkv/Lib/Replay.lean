import OpenraftSurrealkv.Lib.OrdMap

/-!
# Replaying updates on a map

An `Update` puts a value under a key or deletes the key.  `replay` runs a list
of them in order.  What a replay leaves under a key is decided by the last
update of that key, and by the map it started from only when no update names the
key (`get_replay`).  So a replay absorbs an earlier one whose keys it all writes
again (`replay_absorb`), and replaying a chain of growing prefixes is replaying
the last one (`foldl_replay_of_chain`).  Updates leave a key alone in every map
exactly when none of them names it (`replay_frame_iff`).

Two maps whose keys are related by an injection go through the same updates in
step (`Mirrors.run`).
-/

/-- One write to a map. -/
inductive Update (K V : Type) where
  | put (key : K) (value : V)
  | del (key : K)
deriving DecidableEq, Repr

namespace Update

variable {K L V : Type}

/-- The key an update writes. -/
def key : Update K V → K
  | .put k _ => k
  | .del k => k

/-- What an update leaves under its key. -/
def result : Update K V → Option V
  | .put _ v => some v
  | .del _ => none

/-- Rename the key. -/
def mapKey (f : K → L) : Update K V → Update L V
  | .put k v => .put (f k) v
  | .del k => .del (f k)

variable [Ord K] [Std.TransOrd K]

/-- Run one update. -/
def run (m : OrdMap K V) : Update K V → OrdMap K V
  | .put k v => m.insert k v
  | .del k => m.erase k

variable [Std.LawfulEqOrd K] [DecidableEq K]

theorem get_run (m : OrdMap K V) (u : Update K V) (k : K) :
    (u.run m)[k]? = if u.key = k then u.result else m[k]? := by
  cases u with
  | put a v => exact OrdMap.get_insert m a k v
  | del a => exact OrdMap.get_erase m a k

/-- Running an update twice is running it once. -/
theorem run_run (m : OrdMap K V) (u : Update K V) : u.run (u.run m) = u.run m := by
  refine Std.ExtTreeMap.ext_getElem? fun k => ?_
  rw [get_run, get_run]
  split
  · rfl
  · rfl

end Update

section

variable {K L V : Type}

/-- What the last update of a key leaves there, if any update names the key. -/
def lastWrite [DecidableEq K] (k : K) : List (Update K V) → Option (Option V)
  | [] => none
  | u :: us =>
      match lastWrite k us with
      | some r => some r
      | none => if u.key = k then some u.result else none

theorem lastWrite_isSome [DecidableEq K] {k : K} {us : List (Update K V)} :
    (lastWrite k us).isSome = true ↔ ∃ u ∈ us, u.key = k := by
  induction us with
  | nil => simp [lastWrite]
  | cons u us ih =>
      rw [lastWrite]
      cases hl : lastWrite k us with
      | some r =>
          rw [hl, Option.isSome_some] at ih
          obtain ⟨w, hw, hk⟩ := ih.mp rfl
          simp only [Option.isSome_some, true_iff]
          exact ⟨w, List.mem_cons_of_mem u hw, hk⟩
      | none =>
          rw [hl] at ih
          have hno : ∀ w ∈ us, w.key ≠ k := by
            intro w hw hk
            exact absurd (ih.mpr ⟨w, hw, hk⟩) (by simp)
          by_cases hk : u.key = k
          · simp [hk]
          · simp only [if_neg hk, Option.isSome_none, Bool.false_eq_true, false_iff]
            rintro ⟨w, hw, hwk⟩
            rcases List.mem_cons.mp hw with rfl | hw'
            · exact hk hwk
            · exact hno w hw' hwk

variable [Ord K] [Std.TransOrd K]

/-- Run updates in order. -/
def replay (m : OrdMap K V) (us : List (Update K V)) : OrdMap K V := us.foldl Update.run m

@[simp] theorem replay_nil (m : OrdMap K V) : replay m [] = m := rfl

@[simp] theorem replay_cons (m : OrdMap K V) (u : Update K V) (us : List (Update K V)) :
    replay m (u :: us) = replay (u.run m) us := rfl

theorem replay_append (m : OrdMap K V) (us vs : List (Update K V)) :
    replay m (us ++ vs) = replay (replay m us) vs :=
  List.foldl_append

variable [Std.LawfulEqOrd K] [DecidableEq K]

/-- The last update of a key decides what a replay leaves there. -/
theorem get_replay (m : OrdMap K V) (us : List (Update K V)) (k : K) :
    (replay m us)[k]? = (lastWrite k us).getD m[k]? := by
  induction us generalizing m with
  | nil => rfl
  | cons u us ih =>
      rw [replay_cons, ih, lastWrite, Update.get_run]
      cases lastWrite k us with
      | some r => rfl
      | none =>
          by_cases hk : u.key = k
          · simp [hk]
          · simp [hk]

/-- A replay absorbs an earlier one whose keys it all writes again. -/
theorem replay_absorb {m : OrdMap K V} {us vs : List (Update K V)}
    (h : ∀ u ∈ us, ∃ v ∈ vs, v.key = u.key) : replay (replay m us) vs = replay m vs := by
  refine Std.ExtTreeMap.ext_getElem? fun k => ?_
  rw [get_replay, get_replay, get_replay]
  cases hv : lastWrite k vs with
  | some r => rfl
  | none =>
      have hus : lastWrite k us = none := by
        cases hu : lastWrite k us with
        | none => rfl
        | some r =>
            obtain ⟨u, hmem, hk⟩ := lastWrite_isSome.mp (by rw [hu]; rfl)
            obtain ⟨v, hvm, hvk⟩ := h u hmem
            have := lastWrite_isSome.mpr ⟨v, hvm, hvk.trans hk⟩
            rw [hv] at this
            cases this
      rw [hus, Option.getD_none]

/-- Replaying a chain of lists, each inside the next, is replaying the last one. -/
theorem foldl_replay_of_chain (m : OrdMap K V) :
    ∀ (chain : List (List (Update K V))) (last : List (Update K V)),
      (∀ us ∈ chain, us <+: last) →
      (chain ++ [last]).foldl replay m = replay m last
  | [], last, _ => rfl
  | us :: chain, last, h => by
      have ih := foldl_replay_of_chain (replay m us) chain last fun ws hws =>
        h ws (List.mem_cons_of_mem _ hws)
      rw [List.cons_append, List.foldl_cons, ih]
      refine replay_absorb fun u hu => ⟨u, ?_, rfl⟩
      exact (h us (List.mem_cons_self ..)).subset hu

/-- Updates change some map. -/
theorem exists_replay_ne [Inhabited V] {us : List (Update K V)} (h : us ≠ []) :
    ∃ m : OrdMap K V, replay m us ≠ m := by
  obtain ⟨front, u, rfl⟩ := (List.eq_nil_or_concat us).resolve_left h
  rw [List.concat_eq_append]
  have hget : ∀ m : OrdMap K V, (replay m (front ++ [u]))[u.key]? = u.result := by
    intro m
    rw [replay_append, replay_cons, replay_nil, Update.get_run, if_pos rfl]
  cases u with
  | put k v =>
      refine ⟨∅, fun heq => ?_⟩
      have hput := hget ∅
      rw [heq] at hput
      cases hput.symm.trans Std.ExtTreeMap.getElem?_empty
  | del k =>
      refine ⟨(∅ : OrdMap K V).insert k default, fun heq => ?_⟩
      have hdel : (replay ((∅ : OrdMap K V).insert k default) (front ++ [.del k]))[k]? = none :=
        hget _
      rw [heq, OrdMap.get_insert, if_pos rfl] at hdel
      cases hdel

/-- Updates leave a key alone in every map exactly when none of them names it. -/
theorem replay_frame_iff [Inhabited V] {us : List (Update K V)} {k : K} :
    (∀ m : OrdMap K V, (replay m us)[k]? = m[k]?) ↔ ∀ u ∈ us, u.key ≠ k := by
  constructor
  · intro hframe u hu hk
    obtain ⟨r, hr⟩ := Option.isSome_iff_exists.mp (lastWrite_isSome.mpr ⟨u, hu, hk⟩)
    have hmap : ∀ m : OrdMap K V, r = m[k]? := by
      intro m
      rw [← hframe m, get_replay, hr, Option.getD_some]
    have hempty : r = none := (hmap ∅).trans Std.ExtTreeMap.getElem?_empty
    have hfull : r = some default := by
      rw [hmap ((∅ : OrdMap K V).insert k default), OrdMap.get_insert, if_pos rfl]
    cases hempty.symm.trans hfull
  · intro hno m
    have hnone : lastWrite k us = none := by
      rw [← Option.not_isSome_iff_eq_none, lastWrite_isSome]
      rintro ⟨u, hu, hk⟩
      exact hno u hu hk
    rw [get_replay, hnone, Option.getD_none]

/-- Every put is followed by a delete of its key. -/
def PutsDeleted : List (Update K V) → Prop
  | [] => True
  | .put k _ :: us => .del k ∈ us ∧ PutsDeleted us
  | .del _ :: us => PutsDeleted us

/-- A replay leaves nothing exactly when every put is followed by a delete of its key and the map
before holds only keys that are deleted. -/
theorem replay_eq_empty_iff : ∀ (us : List (Update K V)) (m : OrdMap K V),
    (∀ k : K, (replay m us)[k]? = none) ↔
      PutsDeleted us ∧ ∀ k : K, m[k]? = none ∨ .del k ∈ us
  | [], m => by simp [PutsDeleted]
  | .put a v :: us, m => by
      rw [replay_cons, replay_eq_empty_iff us, PutsDeleted, and_comm (a := .del a ∈ us), and_assoc]
      refine and_congr_right fun _ => ?_
      simp only [Update.get_run, Update.key, Update.result, List.mem_cons, reduceCtorEq, false_or]
      constructor
      · intro h
        refine ⟨?_, fun k => ?_⟩
        · rcases h a with h | h
          · simp at h
          · exact h
        · by_cases hk : a = k
          · subst hk
            rcases h a with h | h
            · simp at h
            · exact Or.inr h
          · simpa [hk] using h k
      · rintro ⟨ha, h⟩ k
        by_cases hk : a = k
        · subst hk
          exact Or.inr ha
        · simpa [hk] using h k
  | .del a :: us, m => by
      rw [replay_cons, replay_eq_empty_iff us, PutsDeleted]
      refine and_congr_right fun _ => forall_congr' fun k => ?_
      simp only [Update.get_run, Update.key, Update.result, List.mem_cons, Update.del.injEq]
      by_cases hk : a = k
      · subst hk
        simp
      · have hk' : ¬ k = a := fun h => hk h.symm
        simp [hk, hk']

theorem replay_empty_eq_empty_iff {us : List (Update K V)} :
    (∀ k : K, (replay ∅ us)[k]? = none) ↔ PutsDeleted us := by
  rw [replay_eq_empty_iff]
  exact and_iff_left fun k => Or.inl Std.ExtTreeMap.getElem?_empty

end

/-! ## Two maps in step -/

section

variable {K L V : Type} [Ord K] [Std.TransOrd K] [Ord L] [Std.TransOrd L]

/-- The second map holds under `f k` what the first holds under `k`. -/
def Mirrors (f : K → L) (m : OrdMap K V) (t : OrdMap L V) : Prop := ∀ k, m[k]? = t[f k]?

variable [Std.LawfulEqOrd K] [Std.LawfulEqOrd L] [DecidableEq K] [DecidableEq L]

theorem Mirrors.run {f : K → L} (hf : Function.Injective f) {m : OrdMap K V} {t : OrdMap L V}
    (h : Mirrors f m t) (u : Update K V) : Mirrors f (u.run m) ((u.mapKey f).run t) := by
  intro k
  have hkey : (u.mapKey f).key = f k ↔ u.key = k := by
    cases u <;> exact hf.eq_iff
  have hresult : (u.mapKey f).result = u.result := by
    cases u <;> rfl
  rw [Update.get_run, Update.get_run, h k, hresult]
  by_cases hk : u.key = k
  · rw [if_pos hk, if_pos (hkey.mpr hk)]
  · rw [if_neg hk, if_neg (mt hkey.mp hk)]

end
