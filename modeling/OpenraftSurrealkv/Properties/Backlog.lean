import OpenraftSurrealkv.Properties.Durable

/-!
# The merge policy bounds the delta chain

A build that leaves the chain as long or as large as the policy allows starts a
merge task.  So the chain and its bytes exceed the limits of the policy by no
more than one delta for each task that waits, or that failed or was cut off by a
restart since the last one that succeeded (`backlog_bounded`).  A limit of zero
counts as one.

Operations and tasks do not overlap here: each is one step, with any failures, and
a task that was started waits until its turn comes.  Where a build and a task
overlap the bound fails: a build that read the chain before a task folded it saves
that chain again, with its own delta at the end.

The policy looks at a counter that saturates.  Below the limit of the policy it is
the sum of the sizes in the chain (`Accounted`), so the bound is one of the sum.
-/

namespace OpenraftSurrealkv

open Relation Postcard

/-! ## What a build adds -/

theorem sizeBytes_le_of_shouldBuildDelta {st : SnapshotMetaState} {entries : Nat}
    {size now : UInt64} (h : shouldBuildDelta st entries size now = true) :
    size ≤ deltaMaxBytes := by
  unfold shouldBuildDelta at h
  split at h
  next => cases h
  next =>
    split at h
    next => cases h
    next hnot => exact UInt64.not_lt.mp fun hlt => hnot (.inr hlt)

/-- A delta is limited in size. -/
theorem sizeBytes_of_buildSnapshotWithDelta {ar : Archiver} {cfg : SnapshotBuildConfig}
    {appliedIndex : UInt64} {st : SnapshotMetaState} {es entries : List DeltaEntry} {w w' : World}
    {snap : Snapshot} {metadata : DeltaMetadata}
    (h : RaftSnapshotBuilder.buildSnapshotWithDelta ar cfg appliedIndex st es w = (.ok snap, w'))
    (hd : decodeSnapshotPayload ar snap.snapshot = .ok (some (.delta metadata entries))) :
    metadata.sizeBytes ≤ deltaMaxBytes := by
  obtain ⟨now, w₁, _, h₁⟩ := Eff.bind_eq_ok_iff.mp h
  obtain ⟨data, w₂, hencode, h₂⟩ := Eff.bind_eq_ok_iff.mp h₁
  have hdata := (Prod.mk.inj hencode).1
  split at h₂
  next hdelta =>
    obtain ⟨path, w₃, hpersist, h₃⟩ := Eff.bind_eq_ok_iff.mp h₂
    obtain ⟨bytes, w₄, henvelope, h₄⟩ := Eff.bind_eq_ok_iff.mp h₃
    have henv := liftPostcard_eq_ok_iff.mp (Prod.mk.inj henvelope).1
    cases h₄
    rw [decodeSnapshotPayload_delta rfl hdata henv] at hd
    cases hd
    exact sizeBytes_le_of_shouldBuildDelta hdelta
  next =>
    obtain ⟨_, _, hdecode, _⟩ := buildSnapshot_ok h₂
    rw [hdecode] at hd
    cases hd

theorem toNat_saturatingAdd (a b : UInt64) :
    (saturatingAdd a b).toNat = min (a.toNat + b.toNat) (2 ^ 64 - 1) := by
  unfold saturatingAdd
  split
  next h =>
    rw [UInt64.toNat_add, Nat.mod_eq_of_lt h]
    omega
  next h =>
    have hmax : u64Max.toNat = 2 ^ 64 - 1 := by decide
    omega

/-- A policy that is not due leaves the chain below its limits. -/
theorem DeltaMergePolicy.lt_of_evaluate {policy : DeltaMergePolicy} {st : SnapshotMetaState}
    {now : UInt64} (h : policy.evaluate st now = none) :
    st.deltaChain.length < policy.maxChainLength ∧ st.totalDeltaBytes < policy.maxDeltaBytes := by
  simp only [evaluate, MergeDecision.fromState] at h
  split at h
  next => cases h
  next hchain =>
    split at h
    next => cases h
    next hbytes => exact ⟨Nat.not_le.mp hchain, UInt64.not_le.mp hbytes⟩

namespace MergeExecutor

/-- A merge task that succeeds folds the chain. -/
theorem mergeLoop_ok_folds {ar : Archiver} {ex : MergeExecutor} {trigger : MergeTrigger}
    {started : UInt64} {fuel : Nat} {previous : UInt8} {m m' : MetadataManager}
    {result : MergeTaskResult}
    (h : mergeLoop ar ex trigger started fuel previous m = (.ok result, m')) :
    m'.snapshotState.deltaChain = [] := by
  induction fuel generalizing previous m with
  | zero => cases h
  | succ fuel ih =>
      unfold mergeLoop at h
      obtain ⟨_, m₁, _, h⟩ := Eff.bind_eq_ok_iff.mp h
      obtain ⟨st, _, _, h⟩ := Eff.bind_eq_ok_iff.mp h
      obtain ⟨attempt, m₂, _, h⟩ := Eff.bind_eq_ok_iff.mp h
      cases attempt with
      | error err =>
          simp only at h
          split at h
          next =>
              obtain ⟨_, _, _, h⟩ := Eff.bind_eq_ok_iff.mp h
              cases h
          next => exact ih h
      | ok exec =>
          obtain ⟨_, m₃, hmerged, h⟩ := Eff.bind_eq_ok_iff.mp h
          obtain ⟨report, m₄, hcleanup, h⟩ := Eff.bind_eq_ok_iff.mp h
          obtain ⟨w', _, rfl⟩ := MetadataManager.sys_ok hcleanup
          cases h
          rcases saveSnapshotAndMergeState_outcome _ _ m₂ with
            ⟨e, _, herr, _⟩ | ⟨saved, hok, _, hstate, _⟩
          · rw [hmerged] at herr
            cases herr
          · obtain rfl : m₃ = saved := (Prod.mk.inj (hmerged.symm.trans hok)).2
            exact congrArg SnapshotMetaState.deltaChain hstate

theorem runMergeLoop_ok_folds {ar : Archiver} {ex : MergeExecutor} {trigger : MergeTrigger}
    {m m' : MetadataManager} {result : MergeTaskResult}
    (h : ex.runMergeLoop ar trigger m = (.ok result, m')) :
    m'.snapshotState.deltaChain = [] := by
  obtain ⟨_, _, _, hloop⟩ := Eff.bind_eq_ok_iff.mp h
  exact mergeLoop_ok_folds hloop

end MergeExecutor

namespace SurrealStorage

/-- The bytes of the deltas in the chain. -/
def chainBytes (st : SnapshotMetaState) : Nat := (st.deltaChain.map fun d => d.sizeBytes.toNat).sum

/-- What a build does to the snapshot state: it starts anew from a checkpoint, or it adds a delta to
the chain. -/
inductive Grown (st : SnapshotMetaState) : SnapshotMetaState → Prop
  | full (c : PersistedCheckpointMetadata) : Grown st ⟨some c, [], 0⟩
  | delta (d : DeltaInfo) : d.sizeBytes ≤ deltaMaxBytes →
      Grown st { st with
        deltaChain := st.deltaChain ++ [d]
        totalDeltaBytes := saturatingAdd st.totalDeltaBytes d.sizeBytes }

theorem Grown.length_le {st st' : SnapshotMetaState} (h : Grown st st') :
    st'.deltaChain.length ≤ st.deltaChain.length + 1 := by
  cases h with
  | full c => exact Nat.zero_le _
  | delta d _ => exact Nat.le_of_eq List.length_append

theorem chainBytes_append {st st' : SnapshotMetaState} {d : DeltaInfo}
    (h : st'.deltaChain = st.deltaChain ++ [d]) :
    chainBytes st' = chainBytes st + d.sizeBytes.toNat := by
  unfold chainBytes
  rw [h, List.map_append, List.sum_append, List.map_singleton, List.sum_singleton]

theorem Grown.bytes_le {st st' : SnapshotMetaState} (h : Grown st st') :
    chainBytes st' ≤ chainBytes st + deltaMaxBytes.toNat := by
  cases h with
  | full c => exact Nat.zero_le _
  | delta d hsize =>
      rw [chainBytes_append rfl]
      exact Nat.add_le_add_left (UInt64.le_iff_toNat_le.mp hsize) _

theorem grown_of_buildSnapshotAuto {ar : Archiver} {term : UInt64} {n n' : SurrealStorage}
    {snap : Snapshot} (h : buildSnapshotAuto ar term n = (.ok snap, n')) :
    Grown n.snapshotState n'.snapshotState := by
  obtain ⟨_, d, hdecode, _, hstate⟩ := buildSnapshotAuto_ok h
  rw [hstate]
  cases d with
  | full metadata => exact .full _
  | delta metadata entries =>
      have hsize : metadata.sizeBytes ≤ deltaMaxBytes := by
        rw [buildSnapshotAuto_run] at h
        obtain ⟨snapshot, n₁, hbuild, hpublish⟩ := Eff.bind_eq_ok_iff.mp h
        obtain ⟨hrun, _⟩ := sys_eq hbuild
        obtain ⟨_, d', hdecode', _⟩ := buildSnapshotWithDelta_ok hrun
        obtain ⟨rfl, _⟩ := publish_ok hdecode' hpublish
        exact sizeBytes_of_buildSnapshotWithDelta hrun hdecode
      cases hpath : metadata.filePath with
      | none =>
          simp only [recordSnapshot, hpath]
          exact .delta _ hsize
      | some path =>
          simp only [recordSnapshot, hpath]
          exact .delta _ hsize

/-! ## What an operation does to the chain -/

/-- The chain stays as it is, and no task is forgotten. -/
structure Waits (n n' : SurrealStorage) : Prop where
  state : n'.snapshotState = n.snapshotState
  executor : n'.mergeExecutor = n.mergeExecutor
  spawned : n.spawned.length ≤ n'.spawned.length

instance : IsPreorder SurrealStorage Waits where
  refl _ := ⟨rfl, rfl, Nat.le_refl _⟩
  trans _ _ _ h₁ h₂ := ⟨h₂.state.trans h₁.state, h₂.executor.trans h₁.executor,
    Nat.le_trans h₁.spawned h₂.spawned⟩

/-- A build, which starts a task when the policy is due. -/
structure Builds (n n' : SurrealStorage) : Prop where
  grown : Grown n.snapshotState n'.snapshotState
  executor : n'.mergeExecutor = n.mergeExecutor
  spawned : ∀ ex, n.mergeExecutor = some ex → ∃ now, n'.spawned.length =
    n.spawned.length + (ex.policy.evaluate n'.snapshotState now).toList.length

/-- A merge, which leaves no delta. -/
structure Folds (n n' : SurrealStorage) : Prop where
  chain : n'.snapshotState.deltaChain = []
  bytes : n'.snapshotState.totalDeltaBytes = 0
  executor : n'.mergeExecutor = n.mergeExecutor
  spawned : n'.spawned = n.spawned

theorem waits_call {n : SurrealStorage} (op : MetaSave)
    (h : (op.effect n.metadata.records).snapshot = n.snapshotState) :
    Waits n (onMetadata op.call n).2 := by
  refine ⟨?_, rfl, Nat.le_refl _⟩
  rcases op.snapshotState_call n.metadata with hsame | heffect
  · exact hsame
  · exact heffect.trans h

theorem Access.waits {n n' : SurrealStorage} (h : Access n n') : Waits n n' := by
  cases h with
  | saveVoting st => exact waits_call (.voting st) rfl
  | saveApplied st => exact waits_call (.applied st) rfl
  | saveProgress st => exact waits_call (.mergeProgress st) rfl
  | record i l hl => exact ⟨rfl, rfl, Nat.le_refl _⟩
  | memory hmetadata _ hexecutor hspawned =>
      refine ⟨congrArg MetadataManager.snapshotState hmetadata, hexecutor, ?_⟩
      rw [hspawned]
  | outside hstored => exact ⟨rfl, rfl, Nat.le_refl _⟩
  | spawn trigger =>
      refine ⟨rfl, rfl, ?_⟩
      show n.spawned.length ≤ (n.spawned ++ [trigger]).length
      rw [List.length_append]
      exact Nat.le_add_right _ _

/-- A build starts a task exactly when the policy is due on what it recorded. -/
theorem triggerMerge_spawns {ex : MergeExecutor} {n n' : SurrealStorage} {r : Except RaftError Unit}
    (hex : n.mergeExecutor = some ex) (h : triggerMerge n = (r, n')) :
    n'.snapshotState = n.snapshotState ∧ ∃ now, n'.spawned.length =
      n.spawned.length + (ex.policy.evaluate n.snapshotState now).toList.length := by
  obtain rfl := congrArg Prod.snd h
  have hrun : (triggerMerge n).2 = (spawnIfNeeded ex n).2 := by
    rw [triggerMerge, Eff.bind_of_ok (Eff.gets_run _ n), hex]
    rfl
  have hspawn : onMetadata ex.shouldSpawn n =
      (.ok (ex.policy.evaluate n.snapshotState (n.world.clock.headD 0)), _) := rfl
  rw [hrun, spawnIfNeeded, Eff.bind_of_ok hspawn]
  cases hdue : ex.policy.evaluate n.snapshotState (n.world.clock.headD 0) with
  | none =>
      refine ⟨rfl, n.world.clock.headD 0, ?_⟩
      rw [hdue]
      rfl
  | some trigger =>
      refine ⟨rfl, n.world.clock.headD 0, ?_⟩
      rw [hdue]
      exact List.length_append

/-- The merge task and its executor. -/
def merging (n : SurrealStorage) : Option MergeExecutor × List MergeTrigger :=
  (n.mergeExecutor, n.spawned)

theorem keeps_merging_onMetadata {α : Type} (x : MetaM α) : Eff.Keeps merging (onMetadata x) :=
  Eff.Keeps.zoom _ fun _ _ => rfl

theorem keeps_merging_saveBuilt (snapshot : Snapshot) (st : SnapshotMetaState) :
    ∀ d, Eff.Keeps merging (saveBuilt snapshot st d)
  | none => .pure _
  | some _ => keeps_merging_onMetadata _

theorem builds_of_buildSnapshotAuto {ar : Archiver} {term : UInt64} {n n' : SurrealStorage}
    {snap : Snapshot} (h : buildSnapshotAuto ar term n = (.ok snap, n')) : Builds n n' := by
  have hgrown := grown_of_buildSnapshotAuto h
  rw [buildSnapshotAuto_run] at h
  obtain ⟨snapshot, n₁, hbuild, hpublish⟩ := Eff.bind_eq_ok_iff.mp h
  obtain ⟨decoded, _, hdecode, h₁⟩ := Eff.bind_eq_ok_iff.mp hpublish
  obtain rfl := (Prod.mk.inj hdecode).2
  obtain ⟨_, n₂, hsave, h₂⟩ := Eff.bind_eq_ok_iff.mp h₁
  obtain ⟨_, n₃, hmerge, h₃⟩ := Eff.bind_eq_ok_iff.mp h₂
  cases h₃
  have hmerging : n₂.merging = n.merging :=
    ((keeps_merging_saveBuilt _ _ _).of_run hsave).trans
      ((keeps_merging_onMetadata _).of_run hbuild)
  obtain ⟨hexecutor, hspawned⟩ := Prod.mk.inj hmerging
  have hkeeps : Eff.Keeps mergeExecutor triggerMerge :=
    keeps_triggerMerge (fun _ _ => rfl) fun _ _ => rfl
  refine ⟨hgrown, (hkeeps.of_run hmerge).trans hexecutor, ?_⟩
  intro ex hex
  obtain ⟨hstate, now, hlength⟩ := triggerMerge_spawns (hexecutor.trans hex) hmerge
  refine ⟨now, ?_⟩
  rw [hstate, hlength, hspawned]

theorem waits_of_buildSnapshotAuto {ar : Archiver} {term : UInt64} {n n' : SurrealStorage}
    {e : RaftError} (h : buildSnapshotAuto ar term n = (.error e, n')) : Waits n n' := by
  have hstate := buildSnapshotAuto_error h
  rw [buildSnapshotAuto_run] at h
  have hmerging : n'.merging = n.merging := by
    rcases Eff.bind_eq_error_iff.mp h with hbuild | ⟨snapshot, n₁, hbuild, hpublish⟩
    · exact (keeps_merging_onMetadata _).of_run hbuild
    · refine Eq.trans ?_ ((keeps_merging_onMetadata _).of_run hbuild)
      rcases Eff.bind_eq_error_iff.mp hpublish with hdecode | ⟨decoded, _, hdecode, h₁⟩
      · rw [← (Prod.mk.inj hdecode).2]
      · obtain rfl := (Prod.mk.inj hdecode).2
        rcases Eff.bind_eq_error_iff.mp h₁ with hsave | ⟨_, n₂, _, h₂⟩
        · exact (keeps_merging_saveBuilt _ _ _).of_run hsave
        · have hok := triggerMerge_ok n₂
          rcases Eff.bind_eq_error_iff.mp h₂ with hmerge | ⟨_, n₃, _, h₃⟩
          · rw [hmerge] at hok
            cases hok
          · cases h₃
  obtain ⟨hexecutor, hspawned⟩ := Prod.mk.inj hmerging
  exact ⟨hstate, hexecutor, by rw [hspawned]⟩

/-- A merge task folds the chain or leaves it. -/
theorem folds_or_waits_of_merge {ar : Archiver} {ex : MergeExecutor} {trigger : MergeTrigger}
    {n : SurrealStorage} {r : Except RaftError MergeTaskResult} {m' : MetadataManager}
    (h : ex.runMergeLoop ar trigger n.metadata = (r, m')) :
    Waits n { n with metadata := m' } ∨ Folds n { n with metadata := m' } := by
  obtain ⟨_, ⟨hstate, _⟩ | ⟨now, path, hstate⟩⟩ := MergeExecutor.runMergeLoop_outcome h
  · exact .inl ⟨hstate, rfl, Nat.le_refl _⟩
  · refine .inr ⟨?_, ?_, rfl, rfl⟩
    · exact congrArg SnapshotMetaState.deltaChain hstate
    · exact congrArg SnapshotMetaState.totalDeltaBytes hstate

/-- Of the operations, only builds lengthen the chain. -/
theorem StoreOperation.cases_chain (ar : Archiver) (n : SurrealStorage) (c : StoreOperation) :
    Waits n (c.after ar n) ∨ Builds n (c.after ar n) ∨ Folds n (c.after ar n) := by
  rcases c.after_cases ar n with haccesses | rfl | ⟨term, rfl⟩ | ⟨ex, trigger, rfl⟩
  · exact .inl (Access.reaches (fun _ _ => Access.waits) haccesses)
  · rcases hrun : SurrealStorage.buildSnapshot ar n with ⟨e | snap, n'⟩
    · obtain ⟨e', hauto⟩ := buildSnapshot_eq_error hrun
      have hwaits := waits_of_buildSnapshotAuto hauto
      rw [StoreOperation.after, hrun]
      exact .inl hwaits
    · obtain ⟨snap₀, n₁, hauto, _, _, rfl⟩ := buildSnapshot_eq_ok hrun
      have hbuilds := builds_of_buildSnapshotAuto hauto
      rw [StoreOperation.after, hrun]
      exact .inr (.inl ⟨hbuilds.grown, hbuilds.executor, hbuilds.spawned⟩)
  · rcases hrun : SurrealStorage.buildSnapshotAuto ar term n with ⟨e | snap, n'⟩
    · rw [StoreOperation.after, hrun]
      exact .inl (waits_of_buildSnapshotAuto hrun)
    · rw [StoreOperation.after, hrun]
      exact .inr (.inl (builds_of_buildSnapshotAuto hrun))
  · exact (folds_or_waits_of_merge (Prod.eta (ex.runMergeLoop ar trigger n.metadata)).symm).imp id
      .inr

/-! ## The bytes of the chain -/

/-- The counter is the sum of the sizes, as far as it can be represented. -/
def Accounted (st : SnapshotMetaState) : Prop :=
  st.totalDeltaBytes.toNat = min (chainBytes st) (2 ^ 64 - 1)

theorem Accounted.of_nil {st : SnapshotMetaState} (hchain : st.deltaChain = [])
    (hbytes : st.totalDeltaBytes = 0) : Accounted st := by
  rw [Accounted, chainBytes, hchain, hbytes]
  rfl

theorem Accounted.grown {st st' : SnapshotMetaState} (h : Accounted st) (hgrown : Grown st st') :
    Accounted st' := by
  cases hgrown with
  | full c => exact .of_nil rfl rfl
  | delta d _ =>
      rw [Accounted, chainBytes_append rfl, toNat_saturatingAdd, h]
      omega

/-- A counter below a limit that can be represented is exact. -/
theorem Accounted.lt {st : SnapshotMetaState} {limit : UInt64} (h : Accounted st)
    (hlt : st.totalDeltaBytes < limit) : chainBytes st < limit.toNat := by
  have hlt := UInt64.lt_iff_toNat_lt.mp hlt
  have hlimit := limit.toNat_lt
  rw [h] at hlt
  omega

theorem Accounted.call {n : SurrealStorage} (h : Accounted n.snapshotState) (ar : Archiver)
    (c : StoreOperation) : Accounted (c.after ar n).snapshotState := by
  rcases c.cases_chain ar n with hwaits | hbuilds | hfolds
  · rw [hwaits.state]
    exact h
  · exact h.grown hbuilds.grown
  · exact .of_nil hfolds.chain hfolds.bytes

/-! ## Tasks -/

/-- A store with its merge tasks: how many were started and have not had their turn, and how many
failed or were cut off by a restart since the last one that succeeded. -/
structure MergeRun where
  store : SurrealStorage
  running : Nat
  lost : Nat

/-- The tasks that the chain waits for, or waited for in vain. -/
def MergeRun.behind (r : MergeRun) : Nat := r.running + r.lost

/-- An operation of the store, which may start tasks. -/
def MergeRun.operate (ar : Archiver) (r : MergeRun) (c : StoreOperation) : MergeRun :=
  ⟨c.after ar r.store, r.running + ((c.after ar r.store).spawned.length - r.store.spawned.length),
    r.lost⟩

/-- An operation, a task from its start to its end, a restart under the same policy that finds the
tree, or a change outside. -/
inductive MergeStep (ar : Archiver) (policy : DeltaMergePolicy) : MergeRun → MergeRun → Prop
  | operate (r : MergeRun) (c : StoreOperation) : MergeStep ar policy r (r.operate ar c)
  | succeeds {r : MergeRun} {k : Nat} {ex : MergeExecutor} {trigger : MergeTrigger}
      {result : MergeTaskResult} {m' : MetadataManager} : r.running = k + 1 →
      ex.runMergeLoop ar trigger r.store.metadata = (.ok result, m') →
      MergeStep ar policy r ⟨{ r.store with metadata := m' }, k, 0⟩
  | fails {r : MergeRun} {k : Nat} {ex : MergeExecutor} {trigger : MergeTrigger} {e : RaftError}
      {m' : MetadataManager} : r.running = k + 1 →
      ex.runMergeLoop ar trigger r.store.metadata = (.error e, m') →
      MergeStep ar policy r ⟨{ r.store with metadata := m' }, k, r.lost + 1⟩
  | restart {r : MergeRun} {n' : SurrealStorage} {w : World} {ex : MergeExecutor} :
      r.store.world.reused = false → SameDisk r.store w → new w = .ok n' → ex.policy = policy →
      MergeStep ar policy r ⟨{ n' with mergeExecutor := some ex }, 0, r.lost + r.running⟩
  | outside {r : MergeRun} {w : World} : SameStored r.store.world w →
      MergeStep ar policy r
        ⟨{ r.store with metadata := r.store.metadata.withWorld w }, r.running, r.lost⟩

/-- The step of the store behind a step with tasks. -/
theorem MergeStep.store {ar : Archiver} {policy : DeltaMergePolicy} {r r' : MergeRun}
    (h : MergeStep ar policy r r') : StoreStep ar r.store r'.store := by
  cases h with
  | operate c => exact .call r.store c
  | @succeeds _ ex trigger _ m' _ hrun =>
      have hcall : StoreStep ar r.store _ := .call r.store (.runMergeLoop ex trigger)
      rw [StoreOperation.after, hrun] at hcall
      exact hcall
  | @fails _ ex trigger _ m' _ hrun =>
      have hcall : StoreStep ar r.store _ := .call r.store (.runMergeLoop ex trigger)
      rw [StoreOperation.after, hrun] at hcall
      exact hcall
  | restart _ hdisk hnew _ => exact .restart _ hdisk hnew
  | outside hstored => exact .outside hstored

/-- A restart finds the snapshot state. -/
theorem snapshotState_of_restart {ar : Archiver} {n n' : SurrealStorage} {w : World}
    (h : Durable ar n) (hreused : n.world.reused = false) (hdisk : SameDisk n w)
    (hnew : new w = .ok n') : n'.snapshotState = n.snapshotState :=
  congrArg Records.snapshot (h.records_of_new hdisk hreused hnew)

theorem Accounted.step {ar : Archiver} {policy : DeltaMergePolicy} {r r' : MergeRun}
    (h : Accounted r.store.snapshotState) (hdurable : Durable ar r.store)
    (hstep : MergeStep ar policy r r') : Accounted r'.store.snapshotState := by
  cases hstep with
  | operate c => exact h.call ar c
  | @succeeds _ ex trigger _ m' _ hrun =>
      have hcall := h.call ar (.runMergeLoop ex trigger)
      rw [StoreOperation.after, hrun] at hcall
      exact hcall
  | @fails _ ex trigger _ m' _ hrun =>
      have hcall := h.call ar (.runMergeLoop ex trigger)
      rw [StoreOperation.after, hrun] at hcall
      exact hcall
  | @restart n₁ w ex hreused hdisk hnew _ =>
      show Accounted n₁.snapshotState
      rw [snapshotState_of_restart hdurable hreused hdisk hnew]
      exact h
  | outside hstored => exact h

/-- The chain exceeds the policy by no more than the tasks that are behind. -/
structure Backlog (policy : DeltaMergePolicy) (r : MergeRun) : Prop where
  executor : ∃ ex, r.store.mergeExecutor = some ex ∧ ex.policy = policy
  chain : r.store.snapshotState.deltaChain.length < max policy.maxChainLength 1 + r.behind
  bytes : chainBytes r.store.snapshotState <
    max policy.maxDeltaBytes.toNat 1 + r.behind * deltaMaxBytes.toNat

section

variable {ar : Archiver} {policy : DeltaMergePolicy} {r r' : MergeRun}

theorem Backlog.of_nil (hexecutor : ∃ ex, r.store.mergeExecutor = some ex ∧ ex.policy = policy)
    (hchain : r.store.snapshotState.deltaChain = []) : Backlog policy r where
  executor := hexecutor
  chain := by
    rw [hchain, List.length_nil]
    omega
  bytes := by
    rw [chainBytes, hchain, List.map_nil, List.sum_nil]
    omega

/-- A chain that stays the same is bounded by as many tasks or more. -/
theorem Backlog.mono (h : Backlog policy r)
    (hexecutor : ∃ ex, r'.store.mergeExecutor = some ex ∧ ex.policy = policy)
    (hstate : r'.store.snapshotState = r.store.snapshotState) (hbehind : r.behind ≤ r'.behind) :
    Backlog policy r' where
  executor := hexecutor
  chain := by
    rw [hstate]
    exact Nat.lt_of_lt_of_le h.chain (Nat.add_le_add_left hbehind _)
  bytes := by
    rw [hstate]
    exact Nat.lt_of_lt_of_le h.bytes (Nat.add_le_add_left (Nat.mul_le_mul_right _ hbehind) _)

theorem Backlog.builds {n' : SurrealStorage} (h : Backlog policy r)
    (haccounted : Accounted r.store.snapshotState) (hbuilds : Builds r.store n') :
    Backlog policy
      ⟨n', r.running + (n'.spawned.length - r.store.spawned.length), r.lost⟩ := by
  obtain ⟨ex, hex, rfl⟩ := h.executor
  have hexecutor : ∃ ex', n'.mergeExecutor = some ex' ∧ ex'.policy = ex.policy :=
    ⟨ex, hbuilds.executor.trans hex, rfl⟩
  obtain ⟨now, hspawned⟩ := hbuilds.spawned ex hex
  cases hdue : ex.policy.evaluate n'.snapshotState now with
  | none =>
      -- nothing is due, so the chain is below the limits
      obtain ⟨hchain, hbytes⟩ := DeltaMergePolicy.lt_of_evaluate hdue
      have hbytes := (haccounted.grown hbuilds.grown).lt hbytes
      refine ⟨hexecutor, ?_, ?_⟩
      · show n'.snapshotState.deltaChain.length < _
        omega
      · show chainBytes n'.snapshotState < _
        omega
  | some trigger =>
      -- one delta more, and one task more
      rw [hdue, Option.toList_some, List.length_singleton] at hspawned
      have hbehind : MergeRun.behind
          ⟨n', r.running + (n'.spawned.length - r.store.spawned.length), r.lost⟩ =
          r.behind + 1 := by
        simp only [MergeRun.behind]
        omega
      have hchain := h.chain
      have hbytes := h.bytes
      refine ⟨hexecutor, ?_, ?_⟩
      · have hlength := hbuilds.grown.length_le
        rw [hbehind]
        exact Nat.lt_of_le_of_lt hlength (by omega)
      · have htotal := hbuilds.grown.bytes_le
        rw [hbehind, Nat.succ_mul]
        exact Nat.lt_of_le_of_lt htotal (by omega)

theorem Backlog.operate (h : Backlog policy r) (haccounted : Accounted r.store.snapshotState)
    (c : StoreOperation) : Backlog policy (r.operate ar c) := by
  obtain ⟨ex, hex, hpolicy⟩ := h.executor
  rcases c.cases_chain ar r.store with hwaits | hbuilds | hfolds
  · refine h.mono ⟨ex, hwaits.executor.trans hex, hpolicy⟩ hwaits.state ?_
    exact Nat.add_le_add_right (Nat.le_add_right _ _) _
  · exact h.builds haccounted hbuilds
  · exact .of_nil ⟨ex, hfolds.executor.trans hex, hpolicy⟩ hfolds.chain

theorem Backlog.step (h : Backlog policy r) (hdurable : Durable ar r.store)
    (haccounted : Accounted r.store.snapshotState) (hstep : MergeStep ar policy r r') :
    Backlog policy r' := by
  cases hstep with
  | operate c => exact h.operate haccounted c
  | succeeds hrunning hrun => exact .of_nil h.executor (MergeExecutor.runMergeLoop_ok_folds hrun)
  | fails hrunning hrun =>
      rcases folds_or_waits_of_merge hrun with hwaits | hfolds
      · refine h.mono h.executor hwaits.state ?_
        simp only [MergeRun.behind, hrunning]
        omega
      · exact .of_nil h.executor hfolds.chain
  | @restart n₁ w ex hreused hdisk hnew hpolicy =>
      have hstate := snapshotState_of_restart hdurable hreused hdisk hnew
      refine h.mono ⟨ex, rfl, hpolicy⟩ hstate ?_
      simp only [MergeRun.behind]
      omega
  | outside hstored => exact h.mono h.executor rfl (Nat.le_refl _)

theorem reaches_store (hrun : ReflTransGen (MergeStep ar policy) r r') :
    ReflTransGen (StoreStep ar) r.store r'.store := by
  induction hrun with
  | refl => exact .refl
  | tail _ hstep ih => exact ih.tail hstep.store

/-- In every run in which operations and tasks do not overlap, the chain is shorter than the policy
allows, but for one delta for each task that waits or was lost since the last one that succeeded,
and its bytes are fewer, but for the size limit of a delta for each such task. -/
theorem backlog_bounded {n₀ : SurrealStorage} {ex : MergeExecutor} (h₀ : Fresh n₀)
    (hex : n₀.mergeExecutor = some ex)
    (hrun : ReflTransGen (MergeStep ar ex.policy) ⟨n₀, 0, 0⟩ r) :
    r.store.snapshotState.deltaChain.length < max ex.policy.maxChainLength 1 + r.behind ∧
      (r.store.snapshotState.deltaChain.map fun d => d.sizeBytes.toNat).sum <
        max ex.policy.maxDeltaBytes.toNat 1 + r.behind * deltaMaxBytes.toNat := by
  have hboth : Backlog ex.policy r ∧ Accounted r.store.snapshotState := by
    induction hrun with
    | refl =>
        obtain ⟨w, _, _, rfl⟩ := h₀.eq
        exact ⟨.of_nil ⟨ex, hex, rfl⟩ rfl, .of_nil rfl rfl⟩
    | tail hrun hstep ih =>
        have hdurable := Durable.run h₀ (reaches_store hrun)
        exact ⟨ih.1.step hdurable ih.2 hstep, ih.2.step hdurable hstep⟩
  exact ⟨hboth.1.chain, hboth.1.bytes⟩

theorem reaches_operate (r : MergeRun) (cs : List StoreOperation) :
    ReflTransGen (MergeStep ar policy) r (cs.foldl (MergeRun.operate ar) r) := by
  induction cs generalizing r with
  | nil => exact .refl
  | cons c cs ih => exact (ih (r.operate ar c)).head (.operate r c)

end

/-- Merge after every delta. -/
def eagerExecutor : MergeExecutor := .new ⟨1, 1024, 3600⟩ .default

/-- A store that merges after every delta. -/
def eagerRun : MergeRun := ⟨{ fresh [] with mergeExecutor := some eagerExecutor }, 0, 0⟩

theorem deltaChain_eagerRun :
    (twoSnapshots.foldl (MergeRun.operate .stored) eagerRun).store.snapshotState.deltaChain.length =
      1 := by
  decide +kernel

/-- The second snapshot is a delta, and a task is behind. -/
theorem backlog_bounded_eager :
    ∃ r, ReflTransGen (MergeStep .stored eagerExecutor.policy) eagerRun r ∧
      r.store.snapshotState.deltaChain.length = 1 ∧
      r.store.snapshotState.deltaChain.length < 1 + r.behind := by
  have hfresh : Fresh eagerRun.store :=
    ⟨emptyWorld [], fresh [], some eagerExecutor, rfl, new_emptyWorld [], rfl⟩
  have hrun : ReflTransGen (MergeStep .stored eagerExecutor.policy) eagerRun _ :=
    reaches_operate eagerRun twoSnapshots
  have hlength := (backlog_bounded hfresh rfl hrun).1
  have hmax : max eagerExecutor.policy.maxChainLength 1 = 1 := rfl
  rw [hmax] at hlength
  exact ⟨_, hrun, deltaChain_eagerRun, hlength⟩

end SurrealStorage

end OpenraftSurrealkv
