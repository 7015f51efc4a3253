import OpenraftSurrealkv.Properties.OnePoint

/-!
# The applied log id

The applied position is a pair of integers, and the position of a store that
applied nothing is the one of an entry at index `0` and term `0`.  `appliedState`
takes every position at index `0` for "nothing applied", `buildSnapshot` takes
none for it.  So both are right, and agree, exactly when something was applied
and the last entry is not at index `0`.  The order of the log ids is not needed.
-/

namespace OpenraftSurrealkv

namespace SurrealStorage

/-! ## Runs -/

/-- A store and the entries it applied. -/
structure AppliedRun where
  store : SurrealStorage
  applied : List Entry

/-- A successful `apply`, or a build or a merge task with any outcome. -/
inductive AppliedStep (ar : Archiver) : AppliedRun → AppliedRun → Prop
  | apply {s : AppliedRun} (es : List Entry) {n' : SurrealStorage} :
      SurrealStorage.apply es s.store = (.ok (), n') → AppliedStep ar s ⟨n', s.applied ++ es⟩
  | build {s : AppliedRun} {r : Except RaftError Snapshot} {n' : SurrealStorage} :
      buildSnapshot ar s.store = (r, n') → AppliedStep ar s ⟨n', s.applied⟩
  | merge {s : AppliedRun} (ex : MergeExecutor) (trigger : MergeTrigger)
      {r : Except RaftError MergeTaskResult} {m' : MetadataManager} :
      ex.runMergeLoop ar trigger s.store.metadata = (r, m') →
      AppliedStep ar s ⟨{ s.store with metadata := m' }, s.applied⟩

/-- The store has the position and the membership that the entries leave. -/
structure AppliedRun.Keeps (s : AppliedRun) : Prop where
  position : s.store.metadata.appliedState = positionAfter s.applied
  membership : s.store.lastMembership = membershipAfter s.applied

theorem AppliedRun.Keeps.foldl {n : SurrealStorage} {applied es : List Entry}
    (h : AppliedRun.Keeps ⟨n, applied⟩) :
    AppliedRun.Keeps ⟨es.foldl afterEntry n, applied ++ es⟩ := by
  induction es generalizing n applied with
  | nil =>
      rw [List.append_nil]
      exact h
  | cons e es ih =>
      rw [List.append_cons]
      refine ih ⟨(positionAfter_concat applied e).symm, ?_⟩
      show (n.afterEntry e).lastMembership = membershipAfter (applied ++ [e])
      rw [lastMembership_afterEntry, h.membership, membershipAfter_append]
      rfl

theorem AppliedRun.Keeps.step {ar : Archiver} {s s' : AppliedRun} (h : s.Keeps)
    (hstep : AppliedStep ar s s') : s'.Keeps := by
  cases hstep with
  | apply es happly =>
      obtain ⟨_, fs, rfl⟩ := apply_ok happly
      exact ⟨h.foldl.position, h.foldl.membership⟩
  | build hbuild =>
      obtain ⟨current, hdata⟩ := data_buildSnapshot hbuild
      exact ⟨(congrArg Data.appliedState hdata).trans h.position,
        (congrArg Data.lastMembership hdata).trans h.membership⟩
  | merge ex trigger hmerge =>
      have hsame := (MergeExecutor.runMergeLoop_outcome hmerge).1
      exact ⟨hsame.trans h.position, h.membership⟩

theorem AppliedRun.Keeps.run {ar : Archiver} {n₀ : SurrealStorage} {s : AppliedRun}
    (h₀ : Fresh n₀) (hrun : Relation.ReflTransGen (AppliedStep ar) ⟨n₀, []⟩ s) : s.Keeps := by
  induction hrun with
  | refl =>
      obtain ⟨w, ex, _, rfl⟩ := h₀.eq
      exact ⟨rfl, rfl⟩
  | tail _ hstep ih => exact ih.step hstep

/-! ## Reports -/

/-- `appliedState` returns the log id of the last entry applied and the last membership. -/
def ReportsLast (s : AppliedRun) : Prop :=
  appliedState s.store =
    (.ok (s.applied.getLast?.map Entry.logId, membershipAfter s.applied), s.store)

/-- `appliedState` returns the log id that a snapshot has. -/
def Agrees (n : SurrealStorage) (snap : Snapshot) : Prop :=
  ∃ membership, appliedState n = (.ok (snap.snapshotMeta.lastLogId, membership), n)

theorem reportsLast_iff {s : AppliedRun} (h : s.Keeps) :
    ReportsLast s ↔ ∀ e, s.applied.getLast? = some e → e.index ≠ 0 := by
  rw [ReportsLast, appliedState_run, appliedLogId, h.membership, h.position, positionAfter]
  cases hlast : s.applied.getLast? with
  | none => simp [AppliedState.new]
  | some e =>
      by_cases hzero : e.index = 0
      · simp [hzero]
      · have hid : (⟨e.term, e.index⟩ : LogId) = e.logId := rfl
        simp [hzero, hid]

theorem agrees_iff {ar : Archiver} {n n' : SurrealStorage} {snap : Snapshot}
    (h : buildSnapshot ar n = (.ok snap, n')) :
    Agrees n snap ↔ n.metadata.appliedState.lastAppliedIndex ≠ 0 := by
  rw [Agrees, appliedState_run, appliedLogId, (buildSnapshot_published h).2.1]
  by_cases hzero : n.metadata.appliedState.lastAppliedIndex = 0
  · simp [hzero]
  · simp [hzero]

/-- In every run the applied state is reported faithfully exactly when the last entry applied, if
there is one, is not at index `0`.  It is also the log id of every snapshot built there exactly when
there is one. -/
theorem applied_id_faithful_iff {ar : Archiver} {n₀ : SurrealStorage} {s : AppliedRun}
    (h₀ : Fresh n₀) (hrun : Relation.ReflTransGen (AppliedStep ar) ⟨n₀, []⟩ s) :
    (ReportsLast s ↔ ∀ e, s.applied.getLast? = some e → e.index ≠ 0) ∧
      ∀ ar' snap n', buildSnapshot ar' s.store = (.ok snap, n') →
        (ReportsLast s ∧ Agrees s.store snap ↔
          ∃ e, s.applied.getLast? = some e ∧ e.index ≠ 0) := by
  have hkeeps := AppliedRun.Keeps.run h₀ hrun
  refine ⟨reportsLast_iff hkeeps, fun ar' snap n' hbuild => ?_⟩
  rw [reportsLast_iff hkeeps, agrees_iff hbuild, hkeeps.position, positionAfter]
  cases hlast : s.applied.getLast? with
  | none => simp [AppliedState.new]
  | some e => simp

/-- Apply entries to a fresh store, build a snapshot, and check what was returned. -/
def appliedThenBuilt (es : List Entry) (good : SurrealStorage → Snapshot → Bool) : Bool :=
  (apply es).succeeds (fresh []) fun _ n =>
  (buildSnapshot .stored).succeeds n fun snap _ => good n snap

theorem exists_of_appliedThenBuilt {es : List Entry} {good : SurrealStorage → Snapshot → Bool}
    (h : appliedThenBuilt es good = true) :
    ∃ n snap n', Relation.ReflTransGen (AppliedStep .stored) ⟨fresh [], []⟩ ⟨n, es⟩ ∧
      buildSnapshot .stored n = (.ok snap, n') ∧ good n snap = true := by
  obtain ⟨_, n, happly, h⟩ := Eff.exists_of_succeeds h
  obtain ⟨snap, n', hbuild, hgood⟩ := Eff.exists_of_succeeds h
  have hstep : AppliedStep .stored ⟨fresh [], []⟩ ⟨n, [] ++ es⟩ := .apply es happly
  exact ⟨n, snap, n', .single hstep, hbuild, hgood⟩

/-- An entry at index `0`, one with a request and a membership. -/
theorem applied_id_faithful_iff_joined : ∃ n snap n',
    Relation.ReflTransGen (AppliedStep .stored) ⟨fresh [], []⟩
      ⟨n, [⟨⟨1, 0⟩, .blank⟩, .put 1 1 "a" [1], joined 2 2]⟩ ∧
    buildSnapshot .stored n = (.ok snap, n') ∧
    ReportsLast ⟨n, [⟨⟨1, 0⟩, .blank⟩, .put 1 1 "a" [1], joined 2 2]⟩ ∧ Agrees n snap := by
  have htest : appliedThenBuilt [⟨⟨1, 0⟩, .blank⟩, .put 1 1 "a" [1], joined 2 2]
      (fun _ _ => true) = true := by
    decide +kernel
  obtain ⟨n, snap, n', hrun, hbuild, _⟩ := exists_of_appliedThenBuilt htest
  exact ⟨n, snap, n', hrun, hbuild,
    ((applied_id_faithful_iff (fresh_fresh []) hrun).2 .stored snap n' hbuild).mpr
      ⟨joined 2 2, rfl, by decide⟩⟩

/-- After an entry at index `0` nothing is reported as applied, and the snapshot has the log id of
the entry.  Before the first entry the snapshot has a log id. -/
theorem applied_entry_zero_unreported :
    (∃ n snap n', Relation.ReflTransGen (AppliedStep .stored) ⟨fresh [], []⟩
        ⟨n, [⟨⟨1, 0⟩, .blank⟩]⟩ ∧
      buildSnapshot .stored n = (.ok snap, n') ∧
      appliedState n = (.ok (none, defaultStoredMembership), n) ∧
      snap.snapshotMeta.lastLogId = some ⟨1, 0⟩) ∧
    (∃ snap n', buildSnapshot .stored (fresh []) = (.ok snap, n') ∧
      appliedState (fresh []) = (.ok (none, defaultStoredMembership), fresh []) ∧
      snap.snapshotMeta.lastLogId = some ⟨0, 0⟩) := by
  constructor
  · have htest : appliedThenBuilt [⟨⟨1, 0⟩, .blank⟩] (fun n _ =>
        decide (n.metadata.appliedState = ⟨0, 1⟩) &&
          decide (n.lastMembership = defaultStoredMembership)) = true := by
      decide +kernel
    obtain ⟨n, snap, n', hrun, hbuild, hgood⟩ := exists_of_appliedThenBuilt htest
    obtain ⟨hposition, hmembership⟩ := (Bool.and_eq_true _ _).mp hgood
    have hposition : n.metadata.appliedState = ⟨0, 1⟩ := of_decide_eq_true hposition
    have hmembership := of_decide_eq_true hmembership
    refine ⟨n, snap, n', hrun, hbuild, ?_, ?_⟩
    · rw [appliedState_run, appliedLogId, hposition, hmembership]
      rfl
    · rw [(buildSnapshot_published hbuild).2.1, hposition]
  · have htest : (buildSnapshot .stored).succeeds (fresh []) (fun _ _ => true) = true := by
      decide +kernel
    obtain ⟨snap, n', hbuild, _⟩ := Eff.exists_of_succeeds htest
    exact ⟨snap, n', hbuild, rfl, (buildSnapshot_published hbuild).2.1⟩

end SurrealStorage

end OpenraftSurrealkv
