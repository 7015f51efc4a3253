import OpenraftSurrealkv.Merge.Executor

/-!
# The store

`SurrealStorage` is the node's store: the metadata manager over the tree, the
key-value map, and the two logs.  `raftEntries` is the log of the consensus
library.  `raftLogs` is the store's own list of requests, from which delta
snapshots are cut.  Both logs, the key-value map, the membership and the current
snapshot live in memory only.

Reopening a store is `SurrealStorage.new` on the world that the old one left.
-/

namespace OpenraftSurrealkv

open Postcard

/-- The store of a node. -/
structure SurrealStorage where
  metadata : MetadataManager
  stateMachine : OrdMap String Bytes
  raftLogs : OrdMap UInt64 LogEntry
  raftEntries : OrdMap UInt64 Entry
  lastPurgedLogId : Option LogId
  lastMembership : StoredMembership
  currentSnapshot : Option Snapshot
  mergeExecutor : Option MergeExecutor
  /-- The merge tasks started in the background. -/
  spawned : List MergeTrigger

/-- An operation of the store. -/
abbrev Op (α : Type) := Eff SurrealStorage RaftError α

/-- A membership of node `1` alone, at the default address and with no log id. -/
def defaultStoredMembership : StoredMembership := ⟨none, [[1]], [(1, ⟨"localhost"⟩)]⟩

namespace SurrealStorage

/-- The world the store works on. -/
abbrev world (n : SurrealStorage) : World := n.metadata.world

/-- An operation of the metadata manager. -/
def onMetadata {α : Type} (x : MetaM α) : Op α :=
  Eff.zoom metadata (fun m n => { n with metadata := m }) x

/-- An operation on the world. -/
def sys {α : Type} (x : Sys α) : Op α := onMetadata (MetadataManager.sys x)

/-- Open the store on a tree: the metadata is loaded, the rest starts empty. -/
def new (w : World) : Except RaftError SurrealStorage :=
  match MetadataManager.load (MetadataManager.new w) with
  | (.ok _, m) => .ok {
      metadata := m
      stateMachine := ∅
      raftLogs := ∅
      raftEntries := ∅
      lastPurgedLogId := none
      lastMembership := defaultStoredMembership
      currentSnapshot := none
      mergeExecutor := none
      spawned := [] }
  | (.error e, _) => .error e

/-- Merge in the background under the given policy. -/
def withMergePolicy (n : SurrealStorage) (policy : DeltaMergePolicy) : SurrealStorage :=
  let executor := (MergeExecutor.new policy MergeCleanupConfig.default).withBackend .checkpointNew
  { n with mergeExecutor := some executor }

/-! ## Requests and the request log -/

def read (key : String) : Op (Option Bytes) := Eff.gets fun n => n.stateMachine[key]?

/-- Run a request on the key-value map. -/
def applyRequest (req : KVRequest) : Op KVResponse := do
  Eff.modify fun n => { n with stateMachine := req.update.run n.stateMachine }
  pure .ok

/-- Record a request in the request log and move the applied position to it. -/
def appendLogEntry (term index : UInt64) (req : KVRequest) : Op Unit := do
  let payload ← Eff.ofExcept (liftPostcard RaftError.ofPostcard (KVRequest.codec.toStdvec req))
  Eff.modify fun n => { n with raftLogs := n.raftLogs.insert index ⟨term, index, payload⟩ }
  onMetadata (MetadataManager.saveAppliedState ⟨index, term⟩)

/-- The requests recorded with an index in the closed range. -/
def tryGetLogEntries (startIndex endIndex : UInt64) : Op (List LogEntry) :=
  Eff.gets fun n => (OrdMap.range n.raftLogs startIndex endIndex).map Prod.snd

/-! ## Snapshots -/

/-- `spawn_if_needed`: start a merge task if the policy calls for one. -/
def spawnIfNeeded (ex : MergeExecutor) : Op (Option MergeTrigger) := do
  match ← onMetadata ex.shouldSpawn with
  | none => pure none
  | some trigger => do
      Eff.modify fun n => { n with spawned := n.spawned ++ [trigger] }
      pure (some trigger)

/-- The first index a delta starts from. -/
def deltaStart (st : SnapshotMetaState) : UInt64 :=
  match st.lastCheckpoint with
  | some c => saturatingAdd c.checkpointIndex 1
  | none => 1

/-- The snapshot state after a snapshot was built. -/
def recordSnapshot (snapshot : Snapshot) (st : SnapshotMetaState) :
    DecodedSnapshotPayload → SnapshotMetaState
  | .full metadata =>
      let index := (snapshot.snapshotMeta.lastLogId.map LogId.index).getD 0
      let term := (snapshot.snapshotMeta.lastLogId.map LogId.term).getD 0
      let createdAt := match metadata.format with
        | .full checkpointMeta => checkpointMeta.timestamp
        | .delta _ _ => metadata.createdAt
      let checkpointPath := match metadata.format with
        | .full checkpointMeta => checkpointMeta.path
        | .delta _ _ => "target/checkpoints/checkpoint_" ++ toString createdAt
      { lastCheckpoint := some ((PersistedCheckpointMetadata.new index term 0
          createdAt).withCheckpointPath checkpointPath)
        deltaChain := []
        totalDeltaBytes := 0 }
  | .delta metadata entries =>
      let startIndex := (entries.head?.map DeltaEntry.index).getD 0
      let endIndex := (entries.getLast?.map DeltaEntry.index).getD startIndex
      let info := DeltaInfo.new startIndex endIndex metadata.sizeBytes metadata.createdAt
      { st with
        deltaChain := st.deltaChain ++ [match metadata.filePath with
          | some path => info.withFilePath path
          | none => info]
        totalDeltaBytes := saturatingAdd st.totalDeltaBytes metadata.sizeBytes }

/-- The recorded requests from `start` to the applied index. -/
def logsSince (start lastAppliedIndex : UInt64) : Op (List LogEntry) :=
  if start ≤ lastAppliedIndex then tryGetLogEntries start lastAppliedIndex else pure []

/-- A recorded request as an entry of a delta. -/
def toDelta (l : LogEntry) : DeltaEntry := ⟨l.term, l.index, l.payload⟩

/-- Persist the snapshot state after a snapshot whose payload was understood. -/
def saveBuilt (snapshot : Snapshot) (st : SnapshotMetaState) :
    Option DecodedSnapshotPayload → Op Unit
  | some d => onMetadata (MetadataManager.saveSnapshotState (recordSnapshot snapshot st d))
  | none => pure ()

/-- Start a merge after a snapshot, where a failure to do so is ignored. -/
def triggerMerge : Op Unit := do
  match ← Eff.gets mergeExecutor with
  | some ex => do
      let _ ← Eff.attempt (spawnIfNeeded ex)
      pure ()
  | none => pure ()

/-- Build a full or a delta snapshot, record it, and start a merge if one is due. -/
def buildSnapshotAuto (ar : Archiver) (currentTerm : UInt64) : Op Snapshot := do
  let applied ← onMetadata MetadataManager.getAppliedState
  let snapshotState ← onMetadata MetadataManager.getSnapshotState
  let logs ← logsSince (deltaStart snapshotState) applied.lastAppliedIndex
  let snapshot ← sys <| RaftSnapshotBuilder.buildSnapshotWithDelta ar
    ⟨1, "127.0.0.1:50051", currentTerm⟩ applied.lastAppliedIndex snapshotState
    (logs.map toDelta)
  let decoded ← Eff.ofExcept (decodeSnapshotPayload ar snapshot.snapshot)
  saveBuilt snapshot snapshotState decoded
  triggerMerge
  pure snapshot

def errSnapshotInstallBaseMismatch : String := "SNAPSHOT_INSTALL_BASE_MISMATCH"
def errSnapshotInstallInvalidPayload : String := "SNAPSHOT_INSTALL_INVALID_PAYLOAD"
def errSnapshotInstallDeltaDecode : String := "SNAPSHOT_INSTALL_DELTA_DECODE"
def errSnapshotInstallDeltaApplyDecode : String := "SNAPSHOT_INSTALL_DELTA_APPLY_DECODE"

/-- An error of the snapshot pipeline, under its kind. -/
def snapshotError (kind detail : String) : RaftError := .snapshot (kind ++ ": " ++ detail)

/-- Run the requests of a delta on the map and record them. -/
def applyDeltaEntries : List DeltaEntry → Op Unit
  | [] => pure ()
  | e :: rest => do
      let req ← Eff.ofExcept <|
        liftPostcard (fun err => snapshotError errSnapshotInstallDeltaApplyDecode
          ("index=" ++ toString e.index ++ ", cause=" ++ err.message))
          (KVRequest.codec.fromBytes e.payload)
      let _ ← applyRequest req
      appendLogEntry e.term e.index req
      applyDeltaEntries rest

/-- Install a snapshot: a delta is replayed on its base, a full one is unpacked. -/
def installSnapshotAuto (ar : Archiver) (snapshot : Snapshot) : Op Unit := do
  let decoded ← Eff.mapErr (fun e => snapshotError errSnapshotInstallDeltaDecode e.display)
    (Eff.ofExcept (decodeSnapshotPayload ar snapshot.snapshot))
  match decoded with
  | some (.delta metadata entries) => do
      let baseIndex := match metadata.format with
        | .delta baseIndex _ => baseIndex
        | .full _ => 0
      let applied ← onMetadata MetadataManager.getAppliedState
      if applied.lastAppliedIndex ≠ baseIndex then
        Eff.fail (snapshotError errSnapshotInstallBaseMismatch
          ("expected=" ++ toString baseIndex ++ ", got=" ++ toString applied.lastAppliedIndex))
      else applyDeltaEntries entries
  | some (.full _) => sys (RaftSnapshotBuilder.installSnapshot ar snapshot)
  | none =>
      Eff.fail (snapshotError errSnapshotInstallInvalidPayload
        "unknown or invalid snapshot payload")

/-- After a restart: retry an interrupted merge, or clear its record. -/
def recoverMergeState : Op Unit := do
  let progress ← onMetadata MetadataManager.getMergeProgressState
  if progress.inProgress = false then pure ()
  else if progress.maxRetries ≤ progress.attempt then
    onMetadata (MetadataManager.saveMergeProgressState .new)
  else do
    match ← Eff.gets mergeExecutor with
    | none => pure ()
    | some ex => do
        match ← spawnIfNeeded ex with
        | some _ => pure ()
        | none => onMetadata (MetadataManager.saveMergeProgressState .new)

end SurrealStorage

end OpenraftSurrealkv
