import OpenraftSurrealkv.Effects.Chain
import OpenraftSurrealkv.Effects.Tasks
import OpenraftSurrealkv.Lib.Serial

/-!
# Who reads and saves the snapshot state

Builds and merge tasks share the snapshot state.  Both read it, compute and save
it once (`savesOnce_steps`).  What a call saves when nobody else saves in between
is said by `effect_of_alone`: a build pushes a delta or moves the checkpoint to the
applied index, and a merge folds the chain.
-/

namespace OpenraftSurrealkv

open MetadataManager

/-! ## The snapshot state -/

/-- What a step does with the snapshot state. -/
def Phase.access : Phase → Access
  | .readSnapshot | .readChain | .evaluate => .read
  | .saveBuilt | .succeeded => .save
  | _ => .none

def metadataLens : Lens SurrealStorage MetadataManager where
  get := SurrealStorage.metadata
  put m n := { n with metadata := m }
  get_put _ _ := rfl
  put_put _ _ _ := rfl
  put_get _ := rfl

def snapshotLens : Lens MetadataManager SnapshotMetaState where
  get := MetadataManager.snapshotState
  put st m := { m with snapshotState := st }
  get_put := snapshotRecord.get_set
  put_put _ _ _ := rfl
  put_get _ := rfl

/-- The snapshot state of a store. -/
def stateLens : Lens SurrealStorage SnapshotMetaState := metadataLens.comp snapshotLens

/-- A call that saves the snapshot state. -/
inductive SnapshotCall where
  | build (currentTerm : UInt64)
  | merge (ex : MergeExecutor) (trigger : MergeTrigger)

/-- The steps of a call. -/
def SnapshotCall.steps (ar : Archiver) :
    SnapshotCall → Steps Phase SurrealStorage RaftError Unit
  | .build currentTerm =>
      (SurrealStorage.buildSnapshotAutoSteps ar currentTerm).andThen fun _ => .done (.ok ())
  | .merge ex trigger =>
      (SurrealStorage.mergeSteps ar ex trigger).andThen fun _ => .done (.ok ())

/-! ## Reads and saves -/

theorem neutral_sys {α : Type} (x : Sys α) : snapshotLens.Neutral (sys x) := fun _ _ => rfl

theorem neutral_saveMergeProgressState (st : MergeProgressState) :
    snapshotLens.Neutral (saveMergeProgressState st) :=
  .bind (.ofExcept _) fun _ => .bind (neutral_sys _) fun _ => .modify fun _ _ => rfl

theorem neutral_onMetadata {α : Type} {x : MetaM α} (h : snapshotLens.Neutral x) :
    stateLens.Neutral (SurrealStorage.onMetadata x) :=
  h.zoom

namespace MergeExecutor

variable (ar : Archiver) (ex : MergeExecutor) (trigger : MergeTrigger)

theorem savesOnce_mergeLoopSteps (started : UInt64) : ∀ (fuel : Nat) (previous : UInt8),
    Serial.SavesOnce snapshotLens Phase.access
      (mergeLoopSteps ar ex trigger started fuel previous)
  | 0, _ => trivial
  | fuel + 1, previous => by
      unfold mergeLoopSteps
      refine .none_andThen rfl (neutral_saveMergeProgressState _) fun _ _ _ _ => ?_
      refine .read_andThen rfl (.gets _) fun _ st _ _ => ?_
      refine .none_andThen rfl (.attempt (neutral_sys _)) fun _ result _ _ => ?_
      cases result with
      | ok exec =>
          -- After the save the task only removes files.
          refine .save_andThen rfl fun _ => Or.inl ?_
          exact ⟨by decide, neutral_sys _, fun _ => trivial⟩
      | error err =>
          by_cases hmax : ex.maxRetries ≤ nextRetry previous
          · simp only [if_pos hmax]
            exact .none_andThen rfl (neutral_saveMergeProgressState _) fun _ _ _ _ => trivial
          · simp only [if_neg hmax]
            exact savesOnce_mergeLoopSteps started fuel (nextRetry previous)

theorem savesOnce_runMergeLoopSteps :
    Serial.SavesOnce snapshotLens Phase.access (ex.runMergeLoopSteps ar trigger) :=
  .none_andThen rfl (neutral_sys _) fun _ started _ _ =>
    savesOnce_mergeLoopSteps ar ex trigger started 255 0

end MergeExecutor

namespace SurrealStorage

theorem settles_spawnIfNeededSteps (ex : MergeExecutor) :
    Serial.Settles stateLens Phase.access (spawnIfNeededSteps ex) := by
  refine .act_andThen (by decide) fun n => ⟨_, _, shouldSpawn_run ex n, rfl, ?_⟩
  cases ex.policy.evaluate n.snapshotState (n.world.clock.headD 0) with
  | none => exact rfl
  | some t => exact ⟨by decide, fun _ => ⟨_, _, rfl, rfl, rfl⟩⟩

theorem settles_triggerMergeSteps :
    Serial.Settles stateLens Phase.access triggerMergeSteps := by
  refine .act_andThen (by decide) fun n => ⟨_, n, rfl, rfl, ?_⟩
  cases n.mergeExecutor with
  | none => exact rfl
  | some ex =>
      refine (settles_spawnIfNeededSteps ex).andThen ?_
      exact fun _ => rfl

/-- After its save a build only evaluates the policy, which succeeds with every state. -/
theorem settles_afterSave (snapshot : Snapshot) :
    Serial.Settles stateLens Phase.access
      (triggerMergeSteps.andThen fun _ => .done (.ok snapshot)) := by
  refine settles_triggerMergeSteps.andThen ?_
  exact fun _ => rfl

theorem savesOnce_buildSnapshotAutoSteps (ar : Archiver) (currentTerm : UInt64) :
    Serial.SavesOnce stateLens Phase.access (buildSnapshotAutoSteps ar currentTerm) := by
  refine .none_andThen rfl (neutral_onMetadata (.gets fun _ _ => rfl)) fun _ applied _ _ => ?_
  refine .read_andThen rfl (fun _ => rfl) fun _ st _ _ => ?_
  refine .none_andThen rfl (.ite (.gets fun _ _ => rfl) (.pure _)) fun _ logs _ _ => ?_
  refine .none_andThen rfl (neutral_onMetadata (neutral_sys _)) fun n snapshot _ hbuild => ?_
  obtain ⟨_, d, hdecode, _⟩ := buildSnapshotWithDelta_ok (Prod.ext (Prod.mk.inj hbuild).1 rfl)
  rw [hdecode]
  exact .save_andThen rfl fun _ => Or.inr (settles_afterSave snapshot)

end SurrealStorage

theorem SnapshotCall.savesOnce_steps (ar : Archiver) :
    ∀ c : SnapshotCall, Serial.SavesOnce stateLens Phase.access (c.steps ar)
  | .build currentTerm =>
      (SurrealStorage.savesOnce_buildSnapshotAutoSteps ar currentTerm).andThen_done
  | .merge ex trigger => (ex.savesOnce_runMergeLoopSteps ar trigger).zoom.andThen_done

/-! ## What the calls leave alone -/

section

variable (ar : Archiver)

theorem keeps_appliedState_sys {α : Type} (x : Sys α) :
    Eff.Keeps MetadataManager.appliedState (sys x) :=
  keeps_sys (fun _ _ => rfl) x

theorem keeps_appliedState_saveMergeProgressState (st : MergeProgressState) :
    Eff.Keeps MetadataManager.appliedState (saveMergeProgressState st) :=
  Record.keeps_save _ (fun _ => keeps_appliedState_sys _) fun _ => rfl

theorem keeps_appliedState_saveSnapshotAndMergeState (s : SnapshotMetaState)
    (st : MergeProgressState) :
    Eff.Keeps MetadataManager.appliedState (saveSnapshotAndMergeState s st) :=
  .bind (.ofExcept _) fun _ => .bind (.ofExcept _) fun _ =>
    .bind (keeps_appliedState_sys _) fun _ => .modify fun _ => rfl

theorem all_appliedState_mergeLoopSteps (ex : MergeExecutor) (trigger : MergeTrigger)
    (started : UInt64) : ∀ (fuel : Nat) (previous : UInt8),
      (ex.mergeLoopSteps ar trigger started fuel previous).All
        fun _ f => ∀ m, (f m).appliedState = m.appliedState
  | 0, _ => trivial
  | fuel + 1, previous => by
      unfold MergeExecutor.mergeLoopSteps
      refine .andThen (.act (keeps_appliedState_saveMergeProgressState _)) fun _ =>
        .andThen (.act fun _ => rfl) fun st =>
          .andThen (.act (Eff.Within.attempt (keeps_appliedState_sys _))) fun result => ?_
      cases result with
      | ok exec =>
          exact .andThen (.act (keeps_appliedState_saveSnapshotAndMergeState _ _)) fun _ =>
            .andThen (.act (keeps_appliedState_sys _)) fun _ => trivial
      | error err =>
          show Steps.All _ (if ex.maxRetries ≤ nextRetry previous then _ else _)
          by_cases hmax : ex.maxRetries ≤ nextRetry previous
          · rw [if_pos hmax]
            exact .andThen (.act (keeps_appliedState_saveMergeProgressState _)) fun _ => trivial
          · rw [if_neg hmax]
            exact all_appliedState_mergeLoopSteps ex trigger started fuel _

theorem all_data_mergeSteps (ex : MergeExecutor) (trigger : MergeTrigger) :
    (SurrealStorage.mergeSteps ar ex trigger).All
      fun _ f => ∀ n, (f n).data = n.data := by
  refine Steps.All.zoom (Q := fun _ f => ∀ m, (f m).appliedState = m.appliedState)
    (fun _ f hf n => ?_) ?_
  · show ({ n with metadata := f n.metadata } : SurrealStorage).data = n.data
    rw [SurrealStorage.data, show (f n.metadata).appliedState = _ from hf n.metadata]
    rfl
  · exact .andThen (.act (keeps_appliedState_sys _)) fun started =>
      all_appliedState_mergeLoopSteps ar ex trigger started 255 0

namespace SurrealStorage

/-- The step reads neither the applied position nor the membership for the caller, and leaves both
and the logs alone. -/
structure Quiet (label : Phase) (f : SurrealStorage → SurrealStorage) : Prop where
  applied : label ≠ .readApplied
  membership : label ≠ .readMembership
  data : ∀ n, (f n).data = n.data

theorem quiet_spawnIfNeededSteps (ex : MergeExecutor) : (spawnIfNeededSteps ex).All Quiet := by
  refine .andThen (.act ⟨by decide, by decide, fun _ => rfl⟩) fun trigger => ?_
  cases trigger with
  | none => trivial
  | some t => exact .andThen (.act ⟨by decide, by decide, fun _ => rfl⟩) fun _ => trivial

theorem quiet_triggerMergeSteps : triggerMergeSteps.All Quiet := by
  refine .andThen (.act ⟨by decide, by decide, fun _ => rfl⟩) fun executor => ?_
  cases executor with
  | none => trivial
  | some ex => exact .andThen (quiet_spawnIfNeededSteps ex) fun _ => trivial

theorem quiet_saveBuiltSteps (snapshot : Snapshot) (st : SnapshotMetaState) :
    ∀ d, (saveBuiltSteps snapshot st d).All Quiet
  | none => trivial
  | some d => .act ⟨by decide, by decide, keeps_data_saveBuilt snapshot st (some d)⟩

theorem all_data_buildSnapshotAutoSteps (currentTerm : UInt64) :
    (buildSnapshotAutoSteps ar currentTerm).All fun _ f => ∀ n, (f n).data = n.data := by
  refine .andThen (.act fun _ => rfl) fun applied => .andThen (.act fun _ => rfl) fun st =>
    .andThen (.act fun n => ?_) fun logs => .andThen (.act ?_) fun snapshot =>
      .andThen trivial fun decoded =>
        .andThen ((quiet_saveBuiltSteps _ _ _).imp fun _ _ h => h.data) fun _ =>
          .andThen (quiet_triggerMergeSteps.imp fun _ _ h => h.data) fun _ => trivial
  · show (logsSince _ _ n).2.data = n.data
    rw [logsSince_run]
  · exact keeps_data_onMetadata (keeps_appliedState_sys _)

end SurrealStorage

/-- Builds and merges leave the applied position and the logs alone. -/
theorem SnapshotCall.all_data_steps :
    ∀ c : SnapshotCall, (c.steps ar).All fun _ f => ∀ n, (f n).data = n.data
  | .build currentTerm =>
      .andThen (SurrealStorage.all_data_buildSnapshotAutoSteps ar currentTerm) fun _ => trivial
  | .merge ex trigger => .andThen (all_data_mergeSteps ar ex trigger) fun _ => trivial

end

/-! ## What a call alone saves -/

namespace SurrealStorage

/-- The records of the request log that a build on the state would read. -/
def Data.logsSince (D : Data) (st : SnapshotMetaState) : List (UInt64 × LogEntry) :=
  if deltaStart st ≤ D.appliedState.lastAppliedIndex then
    OrdMap.range D.raftLogs (deltaStart st) D.appliedState.lastAppliedIndex
  else []

/-- What a build does to the snapshot state: it pushes a delta that ends at the last record, or it
moves the checkpoint to the applied index. -/
inductive BuildEffect (D : Data) (st : SnapshotMetaState) : SnapshotMetaState → Prop
  | delta {c : PersistedCheckpointMetadata} {record : UInt64 × LogEntry} {d : DeltaInfo}
      {bytes : UInt64} :
      st.lastCheckpoint = some c → (D.logsSince st).getLast? = some record →
      d.endIndex = record.2.index →
      BuildEffect D st
        { st with deltaChain := st.deltaChain ++ [d], totalDeltaBytes := bytes }
  | full {c : PersistedCheckpointMetadata} :
      c.checkpointIndex = D.appliedState.lastAppliedIndex → BuildEffect D st ⟨some c, [], 0⟩

/-- What the record of a build is. -/
theorem buildEffect_recordSnapshot {ar : Archiver} {D : Data} {st : SnapshotMetaState}
    {snapshot : Snapshot} {files : OrdMap String Bytes} {d : DecodedSnapshotPayload}
    {cfg : SnapshotBuildConfig}
    (hid : ∃ id, snapshot.snapshotMeta =
      cfg.buildSnapshotMeta D.appliedState.lastAppliedIndex id)
    (hd : IsPayload ar D.appliedState.lastAppliedIndex st
      (((D.logsSince st).map Prod.snd).map toDelta) files snapshot.snapshot d) :
    BuildEffect D st (recordSnapshot snapshot st d) := by
  obtain ⟨id, hid⟩ := hid
  cases d with
  | full metadata =>
      refine .full ?_
      show (snapshot.snapshotMeta.lastLogId.map LogId.index).getD 0 = _
      rw [hid]
      rfl
  | delta metadata entries =>
      obtain ⟨rfl, hdelta⟩ := hd
      obtain ⟨c, _, hc, _⟩ := hdelta.base
      obtain ⟨_, _, hpath, _, _⟩ := hdelta.file
      have hne : D.logsSince st ≠ [] := fun hnil => hdelta.ne_nil (by rw [hnil]; rfl)
      have hlast := List.getLast?_eq_some_getLast hne
      refine .delta hc hlast ?_
      simp only [hpath, List.getLast?_map, hlast, Option.map_some, Option.getD_some]
      rfl

/-- Alone, a build does what it should to the state that it found. -/
theorem buildEffect_of_alone {ar : Archiver} {currentTerm : UInt64} {D : Data}
    {E : SurrealStorage → Prop} (hE : ∀ n, E n → n.data = D) {st st' : SnapshotMetaState}
    (halone : Serial.Alone stateLens E (buildSnapshotAutoSteps ar currentTerm) st st') :
    BuildEffect D st st' := by
  obtain ⟨n₁, applied, _, hn₁, hst, happlied, h⟩ := halone.of_act_andThen
  cases happlied
  obtain ⟨n₂, st₂, _, _, hst₂, hread, h⟩ := h.of_act_andThen
  cases hread
  obtain ⟨n₃, logs, _, hn₃, _, hlogs, h⟩ := h.of_act_andThen
  obtain ⟨n₄, snapshot, n₅, _, _, hbuild, h⟩ := h.of_act_andThen
  obtain rfl : n₂.snapshotState = st := hst₂.trans hst
  have hdata : n₁.metadata.appliedState = D.appliedState := by rw [← hE n₁ hn₁]; rfl
  have hentries : logs = (D.logsSince n₂.snapshotState).map Prod.snd := by
    rw [logsSince_run, hdata] at hlogs
    cases hlogs
    rw [← hE n₃ hn₃, Data.logsSince]
    split
    next => rfl
    next => rfl
  rw [hdata, hentries] at hbuild
  obtain ⟨hid, d, hdecode, hpayload⟩ :=
    buildSnapshotWithDelta_ok (Prod.ext (Prod.mk.inj hbuild).1 rfl)
  rw [hdecode] at h
  obtain ⟨n₆, _, n₇, _, _, hsave, h⟩ := h.of_act_andThen
  rw [(settles_afterSave snapshot).eq_of_alone h]
  show BuildEffect D _ n₇.snapshotState
  rw [saveBuilt_ok hsave]
  exact buildEffect_recordSnapshot hid hpayload

end SurrealStorage

namespace MergeExecutor

/-- Alone, a merge folds the chain that it found. -/
theorem merged_of_alone {ar : Archiver} {ex : MergeExecutor} {trigger : MergeTrigger}
    {started : UInt64} {E : MetadataManager → Prop} : ∀ {fuel : Nat} {previous : UInt8}
    {st st' : SnapshotMetaState},
      Serial.Alone snapshotLens E (ex.mergeLoopSteps ar trigger started fuel previous) st st' →
        ∃ path, st' = buildMergedSnapshotState st started path
  | 0, _, _, _, h => by
      obtain ⟨_, _, hr⟩ := h.of_done
      cases hr
  | fuel + 1, previous, st, st', h => by
      unfold mergeLoopSteps at h
      obtain ⟨m₁, _, m₂, _, hst, hstarted, h⟩ := h.of_act_andThen
      obtain ⟨m₃, _, _, _, hst₃, hread, h⟩ := h.of_act_andThen
      cases hread
      obtain ⟨m₄, result, m₅, _, hst₄, hexecute, h⟩ := h.of_act_andThen
      have hfound : m₃.snapshotState = st :=
        (hst₃.trans ((neutral_saveMergeProgressState _).get_eq hstarted)).trans hst
      have hsame : snapshotLens.get m₅ = st :=
        (((neutral_sys _).attempt.get_eq hexecute).trans hst₄).trans hfound
      cases result with
      | ok exec =>
          obtain ⟨m₆, _, m₇, _, _, hsave, h⟩ := h.of_act_andThen
          obtain ⟨m₈, _, m₉, _, hst₈, hcleanup, h⟩ := h.of_act_andThen
          obtain ⟨rfl, _⟩ := h.of_done
          replace hsave : (MetaSave.snapshotAndMerge _ _).call m₆ = _ := hsave
          have hmerged : m₇.records.snapshot = _ :=
            congrArg Records.snapshot (MetaSave.call_ok hsave).1
          refine ⟨exec.checkpointPath, ?_⟩
          rw [(neutral_sys _).get_eq hcleanup, hst₈, ← hfound]
          exact hmerged
      | error err =>
          replace h : Serial.Alone snapshotLens E
            (if ex.maxRetries ≤ nextRetry previous then _ else _) (snapshotLens.get m₅) st' := h
          by_cases hmax : ex.maxRetries ≤ nextRetry previous
          · rw [if_pos hmax] at h
            obtain ⟨_, _, _, _, _, _, h⟩ := h.of_act_andThen
            obtain ⟨_, _, hr⟩ := h.of_done
            cases hr
          · rw [if_neg hmax, hsame] at h
            exact merged_of_alone h

end MergeExecutor

/-- Alone, a call does what it should to the state that it found. -/
theorem SnapshotCall.effect_of_alone {ar : Archiver} {D : SurrealStorage.Data}
    {E : SurrealStorage → Prop} (hE : ∀ n, E n → n.data = D) {st st' : SnapshotMetaState} :
    ∀ {c : SnapshotCall}, Serial.Alone stateLens E (c.steps ar) st st' →
      SurrealStorage.BuildEffect D st st' ∨
        ∃ now path, st' = MergeExecutor.buildMergedSnapshotState st now path
  | .build _, h => Or.inl (SurrealStorage.buildEffect_of_alone hE h.of_andThen_done)
  | .merge _ _, h => by
      have hmerge := h.of_andThen_done.of_zoom
      obtain ⟨m, started, m', _, hst, hclock, hloop⟩ := hmerge.of_act_andThen
      rw [(neutral_sys _).get_eq hclock, hst] at hloop
      exact Or.inr ⟨started, MergeExecutor.merged_of_alone hloop⟩

end OpenraftSurrealkv
