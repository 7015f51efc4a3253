import OpenraftSurrealkv.Effects.Open

/-!
# Who moves the applied position

The applied position is meant to say how far `apply` has come.  `append` moves
it too, because it records requests with the helper that `apply` uses
(`position_append_ok_iff`).  So appending a batch leaves the position alone only when
the last request in it already has the recorded log id.  In runs in which
`append` gets no other requests, the position stays at or below the greatest
index passed to `apply` and never goes back.
-/

namespace OpenraftSurrealkv

open Relation

namespace SurrealStorage

/-- The applied position in memory, and as a reopened store would read it. -/
def position (n : SurrealStorage) :
    AppliedState × Except Postcard.Error (Option AppliedState) :=
  (n.metadata.appliedState, MetadataManager.appliedRecord.persisted n.world.tree)

/-- The position recorded for a log id. -/
def positionOf (id : LogId) : AppliedState × Except Postcard.Error (Option AppliedState) :=
  (⟨id.index, id.term⟩, .ok (some ⟨id.index, id.term⟩))

/-- The last entry of a batch that carries a request. -/
def lastNormal (es : List Entry) : Option Entry := (es.filter Entry.isNormal).getLast?

/-! ## One call -/

@[simp] theorem position_withFaults (n : SurrealStorage) (fs : List (Option String)) :
    (n.withFaults fs).position = n.position := rfl

@[simp] theorem position_withRecord (n : SurrealStorage) (l : LogEntry) :
    (n.withRecord l).position = n.position := rfl

@[simp] theorem position_atPosition (n : SurrealStorage) (id : LogId) :
    (n.atPosition ⟨id.index, id.term⟩).position = positionOf id := by
  have hp := Record.persisted_insert (r := MetadataManager.appliedRecord) n.world.tree
    (AppliedState.toStdvec_eq ⟨id.index, id.term⟩)
  exact Prod.ext rfl hp

theorem position_afterAppend (n : SurrealStorage) (e : Entry) :
    (n.afterAppend e).position = if e.isNormal then positionOf e.logId else n.position := by
  rcases e with ⟨id, p⟩
  cases p with
  | normal req => exact position_atPosition (n.withRecord (recordOf ⟨id, .normal req⟩ req)) id
  | blank => rfl
  | membership m => rfl

theorem lastNormal_cons (e : Entry) (es : List Entry) :
    lastNormal (e :: es) = (lastNormal es).or (if e.isNormal then some e else none) := by
  unfold lastNormal
  rw [List.filter_cons]
  cases e.isNormal with
  | true =>
      simp only [if_true, List.getLast?_cons]
      cases (es.filter Entry.isNormal).getLast? <;> rfl
  | false =>
      simp only [Bool.false_eq_true, if_false, Option.or_none]

/-- The last request of a batch decides the position that appending it leaves. -/
theorem position_foldl_afterAppend : ∀ (es : List Entry) (n : SurrealStorage),
    (es.foldl afterAppend n).position =
      ((lastNormal es).map fun e => positionOf e.logId).getD n.position
  | [], _ => rfl
  | e :: es, n => by
      rw [List.foldl_cons, position_foldl_afterAppend es, position_afterAppend, lastNormal_cons]
      cases lastNormal es with
      | some e' => rfl
      | none =>
          cases e.isNormal with
          | true => rfl
          | false => rfl

/-- Recording a request that fails leaves the position alone. -/
theorem position_recordRequest_error {e : Entry} {n n' : SurrealStorage} {err : RaftError}
    (h : recordRequest e n = (.error err, n')) : n'.position = n.position := by
  rcases e with ⟨id, p⟩
  cases p with
  | blank => cases h
  | membership m => cases h
  | normal req =>
      obtain ⟨fs, ⟨_, hok⟩ | ⟨e, herr⟩ | ⟨e, herr⟩⟩ := appendLogEntry_cases id.term id.index req n
      · have hio : recordRequest ⟨id, .normal req⟩ n = _ := Eff.mapErr_of_ok hok
        rw [hio] at h
        cases h
      · have hio : recordRequest ⟨id, .normal req⟩ n = _ := Eff.mapErr_of_error herr
        cases hio.symm.trans h
        rfl
      · have hio : recordRequest ⟨id, .normal req⟩ n = _ := Eff.mapErr_of_error herr
        cases hio.symm.trans h
        rfl

theorem position_appendEntry_error {e : Entry} {n n' : SurrealStorage} {err : RaftError}
    (h : appendEntry e n = (.error err, n')) : n'.position = n.position := by
  rw [appendEntry, Eff.bind_run] at h
  rcases hrec : recordRequest e n with ⟨r, n₁⟩
  rw [hrec] at h
  cases r with
  | ok u => cases h
  | error err' =>
      cases h
      exact position_recordRequest_error hrec

/-- Every request of the batch already has the recorded log id. -/
def AlreadyRecorded (n : SurrealStorage) (es : List Entry) : Prop :=
  ∀ e ∈ es, e.isNormal = true → n.position = positionOf e.logId

/-- Such a batch leaves the position alone, whether `append` succeeds or fails. -/
theorem position_append_of_alreadyRecorded : ∀ (es : List Entry) (n : SurrealStorage),
    AlreadyRecorded n es → (append es n).2.position = n.position
  | [], _, _ => rfl
  | e :: es, n, h => by
      rw [append, Eff.bind_run]
      rcases hone : appendEntry e n with ⟨r, n₁⟩
      cases r with
      | error err => exact position_appendEntry_error hone
      | ok u =>
          obtain ⟨-, fs, rfl⟩ := appendEntry_ok hone
          have hpos : ((n.afterAppend e).withFaults fs).position = n.position := by
            rw [position_withFaults, position_afterAppend]
            split
            next hn => exact (h e (List.mem_cons_self ..) hn).symm
            next => rfl
          have hrest : AlreadyRecorded ((n.afterAppend e).withFaults fs) es := by
            intro e' he' hn
            rw [hpos]
            exact h e' (List.mem_cons_of_mem e he') hn
          exact (position_append_of_alreadyRecorded es _ hrest).trans hpos

/-- A batch that was appended leaves the position alone exactly when its last request already has
the recorded log id. -/
theorem position_append_ok_iff {es : List Entry} {n n' : SurrealStorage} {u : Unit}
    (h : append es n = (.ok u, n')) :
    n'.position = n.position ↔ ∀ e, lastNormal es = some e → n.position = positionOf e.logId := by
  obtain ⟨-, fs, rfl⟩ := append_ok h
  rw [position_withFaults, position_foldl_afterAppend]
  cases lastNormal es with
  | none => simp
  | some e =>
      constructor
      · intro hpos e' he'
        cases he'
        exact hpos.symm
      · intro hpos
        exact (hpos e rfl).symm

theorem position_truncateAfter (l : Option LogId) (n : SurrealStorage) :
    (truncateAfter l n).2.position = n.position := rfl

theorem position_purge (id : LogId) (n : SurrealStorage) :
    (purge id n).2.position = n.position := rfl

/-! ## Runs -/

/-- A store with every entry that was passed to `apply`. -/
structure LogRun where
  node : SurrealStorage
  applied : List Entry

/-- The applied index in memory. -/
def LogRun.appliedIndex (t : LogRun) : UInt64 := t.node.metadata.appliedState.lastAppliedIndex

/-- A call of the log storage or of `apply`, which can fail.  Batches meet `Cond` where they are
appended and come in index order where they are applied. -/
inductive LogStep (Cond : SurrealStorage → List Entry → Prop) : LogRun → LogRun → Prop where
  | append (t : LogRun) (es : List Entry) :
      Cond t.node es → LogStep Cond t { t with node := (append es t.node).2 }
  | truncateAfter (t : LogRun) (l : Option LogId) :
      LogStep Cond t { t with node := (truncateAfter l t.node).2 }
  | purge (t : LogRun) (id : LogId) : LogStep Cond t { t with node := (purge id t.node).2 }
  | apply (t : LogRun) (es : List Entry) :
      Increasing (t.applied ++ es) →
      LogStep Cond t ⟨(apply es t.node).2, t.applied ++ es⟩

/-- The applied position in memory stays or moves to the entry. -/
def MovesTo (e : Entry) (n n' : SurrealStorage) : Prop :=
  n'.metadata.appliedState = n.metadata.appliedState ∨
    n'.metadata.appliedState = ⟨e.index, e.term⟩

instance (e : Entry) : IsPreorder SurrealStorage (MovesTo e) where
  refl _ := Or.inl rfl
  trans a b c h₁ h₂ := by
    rcases h₂ with h₂ | h₂
    · rcases h₁ with h₁ | h₁
      · exact Or.inl (h₂.trans h₁)
      · exact Or.inr (h₂.trans h₁)
    · exact Or.inr h₂

theorem movesTo_saveAppliedState (e : Entry) :
    Eff.Within (MovesTo e) (onMetadata (MetadataManager.saveAppliedState ⟨e.index, e.term⟩)) := by
  intro n
  obtain ⟨fs, hok | ⟨err, herr⟩⟩ := saveAppliedState_cases ⟨e.index, e.term⟩ n
  · rw [hok]
    exact Or.inr rfl
  · rw [herr]
    exact Or.inl rfl

theorem movesTo_appendLogEntry (e : Entry) (req : KVRequest) :
    Eff.Within (MovesTo e) (appendLogEntry e.term e.index req) := by
  intro n
  obtain ⟨fs, ⟨-, hok⟩ | ⟨err, herr⟩ | ⟨err, herr⟩⟩ := appendLogEntry_cases e.term e.index req n
  · rw [hok]
    exact Or.inr rfl
  · rw [herr]
    exact Or.inl rfl
  · rw [herr]
    exact Or.inl rfl

theorem movesTo_applyPayload (e : Entry) : Eff.Within (MovesTo e) (applyPayload e) := by
  unfold applyPayload
  split
  next => exact .pure _
  next m => exact .bind (.modify fun _ => Or.inl rfl) fun _ => .pure _
  next req _ =>
    refine .bind (.mapErr _ ?_) fun _ => ?_
    · exact .bind (.modify fun _ => Or.inl rfl) fun _ => .pure _
    · exact .bind (.mapErr _ (movesTo_appendLogEntry e req)) fun _ => .pure _

/-- Applying an entry moves the position to it or not at all. -/
theorem movesTo_applyEntry (e : Entry) : Eff.Within (MovesTo e) (applyEntry e) := by
  refine .bind ?_ fun _ => .bind (movesTo_applyPayload e) fun _ => ?_
  · intro n
    rcases hcall : sys (Sys.external RaftError.io) n with ⟨r, n'⟩
    obtain ⟨fs, rfl⟩ := sys_external_state hcall
    exact Or.inl rfl
  · exact .bind (.mapErr _ (movesTo_saveAppliedState e)) fun _ => .pure _

/-- Applying a batch moves the position to one of its entries or not at all. -/
theorem appliedState_apply : ∀ (es : List Entry) (n : SurrealStorage),
    (apply es n).2.metadata.appliedState = n.metadata.appliedState ∨
      ∃ e ∈ es, (apply es n).2.metadata.appliedState = ⟨e.index, e.term⟩
  | [], _ => Or.inl rfl
  | e :: es, n => by
      have hone := movesTo_applyEntry e n
      rw [apply, Eff.bind_run]
      rcases hrun : applyEntry e n with ⟨r, n₁⟩
      rw [hrun] at hone
      have hfirst : n₁.metadata.appliedState = n.metadata.appliedState ∨
          ∃ e' ∈ e :: es, n₁.metadata.appliedState = ⟨e'.index, e'.term⟩ :=
        hone.imp_right fun h => ⟨e, List.mem_cons_self .., h⟩
      cases r with
      | error err => exact hfirst
      | ok resp =>
          rcases appliedState_apply es n₁ with hrest | ⟨e', he', hrest⟩
          · simp only [hrest]
            exact hfirst
          · exact Or.inr ⟨e', List.mem_cons_of_mem e he', hrest⟩

/-- The applied index is the one of an entry passed to `apply`, or nothing was applied. -/
def LogRun.Inv (t : LogRun) : Prop :=
  t.appliedIndex = 0 ∨ ∃ e ∈ t.applied, t.appliedIndex = e.index

/-- A step keeps the invariant and does not move the applied index back. -/
theorem LogRun.Inv.step {t u : LogRun} (hi : t.Inv) (h : LogStep AlreadyRecorded t u) :
    u.Inv ∧ t.appliedIndex ≤ u.appliedIndex := by
  cases h with
  | append es hc =>
      have hpos := congrArg Prod.fst (position_append_of_alreadyRecorded es t.node hc)
      have hidx : (⟨(SurrealStorage.append es t.node).2, t.applied⟩ : LogRun).appliedIndex =
          t.appliedIndex := congrArg AppliedState.lastAppliedIndex hpos
      rw [LogRun.Inv, hidx]
      exact ⟨hi, UInt64.le_refl _⟩
  | truncateAfter l => exact ⟨hi, UInt64.le_refl _⟩
  | purge id => exact ⟨hi, UInt64.le_refl _⟩
  | apply es hinc =>
      rcases appliedState_apply es t.node with hsame | ⟨e, he, hmove⟩
      · have hidx : (⟨(SurrealStorage.apply es t.node).2, t.applied ++ es⟩ : LogRun).appliedIndex =
            t.appliedIndex := congrArg AppliedState.lastAppliedIndex hsame
        rw [LogRun.Inv, hidx]
        refine ⟨hi.imp_right ?_, UInt64.le_refl _⟩
        rintro ⟨e, he, heq⟩
        exact ⟨e, List.mem_append_left es he, heq⟩
      · have hidx : (⟨(SurrealStorage.apply es t.node).2, t.applied ++ es⟩ : LogRun).appliedIndex =
            e.index := congrArg AppliedState.lastAppliedIndex hmove
        rw [LogRun.Inv, hidx]
        refine ⟨Or.inr ⟨e, List.mem_append_right t.applied he, rfl⟩, ?_⟩
        rcases hi with h0 | ⟨e₀, he₀, heq⟩
        · rw [h0]
          exact UInt64.zero_le
        · rw [heq]
          exact UInt64.le_of_lt ((List.pairwise_append.mp hinc).2.2 e₀ he₀ e he)

theorem LogRun.Inv.run {t u : LogRun} (hi : t.Inv)
    (h : ReflTransGen (LogStep AlreadyRecorded) t u) :
    u.Inv ∧ t.appliedIndex ≤ u.appliedIndex := by
  induction h with
  | refl => exact ⟨hi, UInt64.le_refl _⟩
  | tail _ hs ih =>
      obtain ⟨hu, hle⟩ := ih.1.step hs
      exact ⟨hu, UInt64.le_trans ih.2 hle⟩

theorem LogRun.Inv.init {n : SurrealStorage} (h : Fresh n) : LogRun.Inv ⟨n, []⟩ := by
  obtain ⟨w, ex, -, rfl⟩ := h.eq
  exact Or.inl rfl

/-- When `append` leaves the applied position alone, that `truncateAfter` and `purge` always do,
and that in runs in which it does the position follows `apply` and never goes back. -/
theorem applied_position_follows_apply (n : SurrealStorage) :
    (∀ (n' : SurrealStorage) (es : List Entry), append es n = (.ok (), n') →
      (n'.position = n.position ↔
        ∀ e, lastNormal es = some e → n.position = positionOf e.logId)) ∧
    (∀ es : List Entry, AlreadyRecorded n es → (append es n).2.position = n.position) ∧
    (∀ l : Option LogId, (truncateAfter l n).2.position = n.position) ∧
    (∀ id : LogId, (purge id n).2.position = n.position) ∧
    ∀ t u : LogRun, Fresh n →
      ReflTransGen (LogStep AlreadyRecorded) ⟨n, []⟩ t →
      ReflTransGen (LogStep AlreadyRecorded) t u →
      t.appliedIndex ≤ u.appliedIndex ∧
        (u.appliedIndex = 0 ∨ ∃ e ∈ u.applied, u.appliedIndex ≤ e.index) := by
  refine ⟨fun n' es h => position_append_ok_iff h,
    fun es => position_append_of_alreadyRecorded es n,
    fun l => position_truncateAfter l n, fun id => position_purge id n, ?_⟩
  intro t u hfresh ht hu
  obtain ⟨hit, -⟩ := (LogRun.Inv.init hfresh).run ht
  obtain ⟨hiu, hle⟩ := hit.run hu
  refine ⟨hle, hiu.imp_right ?_⟩
  rintro ⟨e, he, heq⟩
  exact ⟨e, he, heq ▸ UInt64.le_refl _⟩

/-- Applying an entry and appending it again is such a run, and its position is that of the
entry. -/
theorem applied_position_follows_apply_entry_one :
    LogRun.appliedIndex ⟨(append [.put 1 1 "k" [7]]
        (apply [.put 1 1 "k" [7]] (fresh [])).2).2, [.put 1 1 "k" [7]]⟩ = 1 := by
  have hinc : Increasing ([] ++ [Entry.put 1 1 "k" [7]]) := List.pairwise_singleton _ _
  have hrec : AlreadyRecorded (apply [.put 1 1 "k" [7]] (fresh [])).2 [.put 1 1 "k" [7]] := by
    intro e he _
    rw [List.mem_singleton] at he
    subst he
    rfl
  obtain ⟨-, -, -, -, hruns⟩ := applied_position_follows_apply (fresh [])
  have happlied : ReflTransGen (LogStep AlreadyRecorded) ⟨fresh [], []⟩
      ⟨(apply [.put 1 1 "k" [7]] (fresh [])).2, [.put 1 1 "k" [7]]⟩ :=
    .single (.apply ⟨fresh [], []⟩ _ hinc)
  obtain ⟨hle, hzero | ⟨e, he, hge⟩⟩ := hruns _ _ (fresh_fresh []) happlied
    (.single (.append _ _ hrec))
  · rw [hzero] at hle
    exact absurd hle (by decide)
  · rw [List.mem_singleton] at he
    subst he
    exact UInt64.le_antisymm hge hle

/-- Appending a request to a fresh store makes it the applied position, with nothing applied. -/
theorem append_moves_applied_position :
    Fresh (fresh []) ∧
    (append [.put 1 1 "k" [7]] (fresh [])).1 = .ok () ∧
    (append [.put 1 1 "k" [7]] (fresh [])).2.position ≠ (fresh []).position ∧
    ∃ u, ReflTransGen (LogStep fun _ _ => True) ⟨fresh [], []⟩ u ∧ u.applied = [] ∧
      u.appliedIndex = 1 := by
  refine ⟨fresh_fresh [], rfl, ?_, _, .single (.append ⟨fresh [], []⟩ [.put 1 1 "k" [7]] trivial),
    rfl, rfl⟩
  intro h
  have hidx := congrArg (fun p => p.1.lastAppliedIndex) h
  cases hidx

end SurrealStorage

end OpenraftSurrealkv
