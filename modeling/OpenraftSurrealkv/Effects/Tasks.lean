import OpenraftSurrealkv.Effects.Build
import OpenraftSurrealkv.Effects.Saving

/-!
# Builds and merges step by step

The calls that run beside each other on a store, as sequences of atomic steps:
every read of a shared field, every save and every call of the backend is one
step.  Run in a row the steps are the call (`run_buildSnapshotAutoSteps`,
`run_buildSnapshotSteps`, `run_recoverMergeStateSteps`, `run_mergeSteps`).
-/

namespace OpenraftSurrealkv

/-- The steps of builds, recoveries and merge tasks. -/
inductive Phase where
  | readApplied
  | readSnapshot
  | readLogs
  | buildPayload
  | saveBuilt
  | readMembership
  | publish
  | readProgress
  | clear
  | readExecutor
  | evaluate
  | spawn
  | clock
  | started
  | readChain
  | execute
  | succeeded
  | cleanup
  | failed
deriving DecidableEq, Repr

/-! ## Merge tasks -/

namespace MergeExecutor

/-- The steps of the retry loop. -/
def mergeLoopSteps (ar : Archiver) (ex : MergeExecutor) (trigger : MergeTrigger)
    (started : UInt64) : Nat → UInt8 → Steps Phase MetadataManager RaftError MergeTaskResult
  | 0, _ => .done (.error (.other "retry loop out of fuel"))
  | fuel + 1, previous =>
      let retries := nextRetry previous
      (Steps.act .started (MetadataManager.saveMergeProgressState
        (.started trigger.asStr retries ex.maxRetries started))).andThen fun _ =>
      (Steps.act .readChain MetadataManager.getSnapshotState).andThen fun snapshotState =>
      (Steps.act .execute (Eff.attempt
        (MetadataManager.sys (ex.backend.executeMerge ar snapshotState)))).andThen fun
      | .ok exec =>
          let mergedState := buildMergedSnapshotState snapshotState started exec.checkpointPath
          (Steps.act .succeeded (MetadataManager.saveSnapshotAndMergeState mergedState
            (.succeeded trigger.asStr retries ex.maxRetries started))).andThen fun _ =>
          (Steps.act .cleanup (MetadataManager.sys
            (MergeCleanup.run ex.cleanup mergedState (some started)))).andThen fun cleanupReport =>
          .done (.ok ⟨true, some trigger, retries, exec.checkpointSizeBytes, cleanupReport⟩)
      | .error err =>
          if ex.maxRetries ≤ retries then
            (Steps.act .failed (MetadataManager.saveMergeProgressState
              (.failed trigger.asStr retries ex.maxRetries started err.display))).andThen fun _ =>
            .done (.error (.snapshot (mergeErrorCode err ++ ": merge failed after " ++
              toString retries ++ " retries: " ++ err.display)))
          else mergeLoopSteps ar ex trigger started fuel retries

/-- The steps of a merge task. -/
def runMergeLoopSteps (ar : Archiver) (ex : MergeExecutor) (trigger : MergeTrigger) :
    Steps Phase MetadataManager RaftError MergeTaskResult :=
  (Steps.act .clock (MetadataManager.sys Sys.nowSecs)).andThen fun started =>
    mergeLoopSteps ar ex trigger started 255 0

theorem run_mergeLoopSteps (ar : Archiver) (ex : MergeExecutor) (trigger : MergeTrigger)
    (started : UInt64) : ∀ (fuel : Nat) (previous : UInt8),
      (mergeLoopSteps ar ex trigger started fuel previous).run =
        mergeLoop ar ex trigger started fuel previous
  | 0, _ => rfl
  | fuel + 1, previous => by
      simp only [mergeLoopSteps, mergeLoop, Steps.run_andThen, Steps.run_act]
      congr 1
      funext _
      congr 1
      funext snapshotState
      congr 1
      funext result
      cases result with
      | ok exec =>
          simp only [Steps.run_andThen, Steps.run_act, Steps.run_done]
          rfl
      | error err =>
          by_cases hmax : ex.maxRetries ≤ nextRetry previous
          · simp only [if_pos hmax, Steps.run_andThen, Steps.run_act, Steps.run_done]
            rfl
          · simp only [if_neg hmax]
            exact run_mergeLoopSteps ar ex trigger started fuel (nextRetry previous)

/-- Run in a row, the steps are the merge task. -/
theorem run_runMergeLoopSteps (ar : Archiver) (ex : MergeExecutor) (trigger : MergeTrigger) :
    (runMergeLoopSteps ar ex trigger).run = runMergeLoop ar ex trigger := by
  simp only [runMergeLoopSteps, runMergeLoop, Steps.run_andThen, Steps.run_act,
    run_mergeLoopSteps]

end MergeExecutor

namespace SurrealStorage

/-! ## Calls of the store -/

/-- The steps of an operation of the metadata manager. -/
def onMetadataSteps {L α : Type} (p : Steps L MetadataManager RaftError α) :
    Steps L SurrealStorage RaftError α :=
  p.zoom metadata fun m n => { n with metadata := m }

theorem run_onMetadataSteps {L α : Type} (p : Steps L MetadataManager RaftError α) :
    (onMetadataSteps p).run = onMetadata p.run := by
  have hget : ∀ (m : MetadataManager) (n : SurrealStorage),
      ({ n with metadata := m } : SurrealStorage).metadata = m := fun _ _ => rfl
  exact Steps.run_zoom hget (fun _ _ _ => rfl) (fun _ => rfl) p

theorem stops_onMetadataSteps {L α : Type} {p : Steps L MetadataManager RaftError α}
    {n n' : SurrealStorage} {ls : List L} (h : Steps.Stops (onMetadataSteps p) n ls n') :
    ∃ m, Steps.Stops p n.metadata ls m ∧ n' = { n with metadata := m } := by
  have hget : ∀ (m : MetadataManager) (n : SurrealStorage),
      ({ n with metadata := m } : SurrealStorage).metadata = m := fun _ _ => rfl
  exact h.of_zoom hget (fun _ _ _ => rfl) fun _ => rfl

/-- The steps of a merge task of the store. -/
def mergeSteps (ar : Archiver) (ex : MergeExecutor) (trigger : MergeTrigger) :
    Steps Phase SurrealStorage RaftError MergeTaskResult :=
  onMetadataSteps (ex.runMergeLoopSteps ar trigger)

/-- The steps of `spawnIfNeeded`. -/
def spawnIfNeededSteps (ex : MergeExecutor) :
    Steps Phase SurrealStorage RaftError (Option MergeTrigger) :=
  (Steps.act .evaluate (onMetadata ex.shouldSpawn)).andThen fun
    | none => .done (.ok none)
    | some trigger =>
        (Steps.act .spawn (Eff.modify fun n =>
          { n with spawned := n.spawned ++ [trigger] })).andThen
            fun _ => .done (.ok (some trigger))

/-- The steps of `triggerMerge`. -/
def triggerMergeSteps : Steps Phase SurrealStorage RaftError Unit :=
  (Steps.act .readExecutor (Eff.gets mergeExecutor)).andThen fun
    | some ex => (spawnIfNeededSteps ex).andThen fun _ => .done (.ok ())
    | none => .done (.ok ())

/-- The save of a snapshot whose payload was understood. -/
def saveBuiltSteps (snapshot : Snapshot) (st : SnapshotMetaState) :
    Option DecodedSnapshotPayload → Steps Phase SurrealStorage RaftError Unit
  | some d => Steps.act .saveBuilt (onMetadata
      (MetadataManager.saveSnapshotState (recordSnapshot snapshot st d)))
  | none => .done (.ok ())

/-- The steps of `buildSnapshotAuto`. -/
def buildSnapshotAutoSteps (ar : Archiver) (currentTerm : UInt64) :
    Steps Phase SurrealStorage RaftError Snapshot :=
  (Steps.act .readApplied (onMetadata MetadataManager.getAppliedState)).andThen fun applied =>
  (Steps.act .readSnapshot (onMetadata MetadataManager.getSnapshotState)).andThen fun st =>
  (Steps.act .readLogs (logsSince (deltaStart st) applied.lastAppliedIndex)).andThen fun logs =>
  (Steps.act .buildPayload (sys (RaftSnapshotBuilder.buildSnapshotWithDelta ar
    (buildConfig currentTerm) applied.lastAppliedIndex st (logs.map toDelta)))).andThen
      fun snapshot =>
  (Steps.done (decodeSnapshotPayload ar snapshot.snapshot)).andThen fun decoded =>
  (saveBuiltSteps snapshot st decoded).andThen fun _ =>
  triggerMergeSteps.andThen fun _ =>
  .done (.ok snapshot)

/-- The steps of `buildSnapshot`. -/
def buildSnapshotSteps (ar : Archiver) : Steps Phase SurrealStorage RaftError Snapshot :=
  (Steps.act .readApplied (onMetadata MetadataManager.getAppliedState)).andThen fun applied =>
  ((buildSnapshotAutoSteps ar applied.lastAppliedTerm).mapErr RaftError.ioOther).andThen fun snap =>
  (Steps.act .readMembership (Eff.gets lastMembership)).andThen fun membership =>
  let snap : Snapshot :=
    { snap with snapshotMeta := { snap.snapshotMeta with lastMembership := membership } }
  (Steps.act .publish (Eff.modify fun n => { n with currentSnapshot := some snap })).andThen
    fun _ => .done (.ok snap)

/-- The steps of `recoverMergeState`. -/
def recoverMergeStateSteps : Steps Phase SurrealStorage RaftError Unit :=
  (Steps.act .readProgress (onMetadata MetadataManager.getMergeProgressState)).andThen
    fun progress =>
  if progress.inProgress = false then .done (.ok ())
  else if progress.maxRetries ≤ progress.attempt then
    Steps.act .clear (onMetadata (MetadataManager.saveMergeProgressState .new))
  else (Steps.act .readExecutor (Eff.gets mergeExecutor)).andThen fun
    | none => .done (.ok ())
    | some ex => (spawnIfNeededSteps ex).andThen fun
        | some _ => .done (.ok ())
        | none => Steps.act .clear (onMetadata (MetadataManager.saveMergeProgressState .new))

/-- Run in a row, the steps are the merge task. -/
theorem run_mergeSteps (ar : Archiver) (ex : MergeExecutor) (trigger : MergeTrigger) :
    (mergeSteps ar ex trigger).run = onMetadata (ex.runMergeLoop ar trigger) := by
  rw [mergeSteps, run_onMetadataSteps, MergeExecutor.run_runMergeLoopSteps]

theorem run_spawnIfNeededSteps (ex : MergeExecutor) :
    (spawnIfNeededSteps ex).run = spawnIfNeeded ex := by
  rw [spawnIfNeededSteps, Steps.run_andThen, Steps.run_act]
  unfold spawnIfNeeded
  congr 1
  funext trigger
  cases trigger with
  | none => rfl
  | some t =>
      simp only [Steps.run_andThen, Steps.run_act, Steps.run_done]
      rfl

theorem shouldSpawn_run (ex : MergeExecutor) (n : SurrealStorage) :
    onMetadata ex.shouldSpawn n =
      (.ok (ex.policy.evaluate n.snapshotState (n.world.clock.headD 0)),
        { n with metadata :=
          n.metadata.withWorld { n.world with clock := n.world.clock.tail } }) := rfl

/-- Neither the evaluation of the policy nor the start of a task can fail. -/
theorem spawnIfNeeded_total (ex : MergeExecutor) (n : SurrealStorage) :
    ∃ trigger n', spawnIfNeeded ex n = (.ok trigger, n') := by
  rw [spawnIfNeeded, Eff.bind_of_ok (shouldSpawn_run ex n)]
  cases ex.policy.evaluate n.snapshotState (n.world.clock.headD 0) with
  | none => exact ⟨none, _, rfl⟩
  | some t => exact ⟨some t, _, rfl⟩

theorem run_triggerMergeSteps : triggerMergeSteps.run = triggerMerge := by
  rw [triggerMergeSteps, Steps.run_andThen, Steps.run_act]
  unfold triggerMerge
  congr 1
  funext executor
  cases executor with
  | none => rfl
  | some ex =>
      funext n
      obtain ⟨trigger, n', h⟩ := spawnIfNeeded_total ex n
      simp only [Steps.run_andThen, run_spawnIfNeededSteps, Steps.run_done]
      have hattempt : Eff.attempt (spawnIfNeeded ex) n = (.ok (.ok trigger), n') := by
        rw [Eff.attempt_run, h]
      rw [Eff.bind_of_ok h, Eff.bind_of_ok hattempt]
      rfl

theorem run_saveBuiltSteps (snapshot : Snapshot) (st : SnapshotMetaState) :
    ∀ d, (saveBuiltSteps snapshot st d).run = saveBuilt snapshot st d
  | some _ => Steps.run_act _ _
  | none => rfl

/-- Run in a row, the steps are the build. -/
theorem run_buildSnapshotAutoSteps (ar : Archiver) (currentTerm : UInt64) :
    (buildSnapshotAutoSteps ar currentTerm).run = buildSnapshotAuto ar currentTerm := by
  simp only [buildSnapshotAutoSteps, Steps.run_andThen, Steps.run_act, Steps.run_done,
    run_saveBuiltSteps, run_triggerMergeSteps]
  rfl

theorem run_buildSnapshotSteps (ar : Archiver) :
    (buildSnapshotSteps ar).run = buildSnapshot ar := by
  simp only [buildSnapshotSteps, Steps.run_andThen, Steps.run_act, Steps.run_done,
    Steps.run_mapErr, run_buildSnapshotAutoSteps]
  rfl

/-- Run in a row, the steps are the recovery. -/
theorem run_recoverMergeStateSteps : recoverMergeStateSteps.run = recoverMergeState := by
  rw [recoverMergeStateSteps, Steps.run_andThen, Steps.run_act]
  unfold recoverMergeState
  congr 1
  funext progress
  by_cases hidle : progress.inProgress = false
  · simp only [if_pos hidle]
    rfl
  by_cases hspent : progress.maxRetries ≤ progress.attempt
  · simp only [if_neg hidle, if_pos hspent, Steps.run_act]
  · simp only [if_neg hidle, if_neg hspent, Steps.run_andThen, Steps.run_act]
    congr 1
    funext executor
    cases executor with
    | none => rfl
    | some ex =>
        simp only [Steps.run_andThen, run_spawnIfNeededSteps]
        congr 1
        funext trigger
        cases trigger with
        | none => exact Steps.run_act _ _
        | some t => rfl

end SurrealStorage

end OpenraftSurrealkv
