import OpenraftSurrealkv.Merge.Cleanup
import OpenraftSurrealkv.Snapshot.Builder

/-!
# Merging the delta chain

A merge folds the deltas into a new checkpoint.  The backend copies the baseline
checkpoint into a temporary tree, replays the delta files onto it and makes a
checkpoint of the result.  The executor tries this up to a number of times.  On
success it records the new checkpoint with an empty chain, in one transaction
with the progress record, and cleans up.
-/

namespace OpenraftSurrealkv

open Postcard

/-! ## Backends -/

/-- What a merge made. -/
structure MergeExecution where
  checkpointSizeBytes : UInt64
  checkpointPath : Option String
deriving DecidableEq, Repr

/-- The merge that only rewrites the metadata, or the one that makes a checkpoint. -/
inductive MergeBackend where
  | metadataOnly
  | checkpoint (tempBase : String)
deriving DecidableEq, Repr

/-- `CheckpointMergeBackend::new`. -/
def MergeBackend.checkpointNew : MergeBackend := .checkpoint "target/tmp/merge"

def mergeErrBaselineMissing : String := "MERGE_BASELINE_MISSING"
def mergeErrBaselinePathRequired : String := "MERGE_BASELINE_PATH_REQUIRED"
def mergeErrBaselinePathMissing : String := "MERGE_BASELINE_PATH_MISSING"
def mergeErrInjectedFailure : String := "MERGE_INJECTED_FAILURE"
def mergeErrUnknown : String := "MERGE_UNKNOWN"

/-- The codes that logs, metrics and alerts know. -/
def mergeErrorCodes : List String :=
  [mergeErrBaselineMissing, mergeErrBaselinePathRequired, mergeErrBaselinePathMissing,
    mergeErrInjectedFailure, mergeErrUnknown]

def mergeSnapshotError (code detail : String) : RaftError := .snapshot (code ++ ": " ++ detail)

namespace CheckpointMergeBackend

/-- The directory of the last full checkpoint, which must be recorded and exist. -/
def resolveBaselineCheckpoint (snapshotState : SnapshotMetaState) : Sys String := do
  match snapshotState.lastCheckpoint with
  | none =>
      Eff.fail (mergeSnapshotError mergeErrBaselineMissing
        "missing baseline checkpoint metadata; merge aborted")
  | some cp =>
      match cp.checkpointPath with
      | none =>
          Eff.fail (mergeSnapshotError mergeErrBaselinePathRequired
            "checkpoint_path is required in strict mode")
      | some path => do
          let reachable ← Eff.attempt (Sys.external .io)
          let dir ← Eff.gets fun w => w.dirs[path]?
          match reachable, dir with
          | .ok _, some _ => pure path
          | _, _ =>
              Eff.fail (mergeSnapshotError mergeErrBaselinePathMissing
                ("baseline checkpoint path missing: " ++ path))

/-- Copy the baseline into a temporary directory and open it as a tree. -/
def loadBaselineCheckpointToTree (checkpointPath tempPath : String) : Sys Tree := do
  Sys.external fun e => .storage ("baseline copy task panicked: " ++ e)
  Sys.external .io
  let baseline ← Eff.gets fun w => w.dirs[checkpointPath]?
  match baseline with
  | none => Eff.fail (.io "No such file or directory (os error 2)")
  | some d => do
      Sys.updateDir tempPath fun t => { t with tree := d.tree, manifest := d.manifest }
      Sys.external fun e => .storage ("failed to open temp tree from checkpoint: " ++ e)
      pure (d.tree.getD ∅)

/-- The tree to merge into. -/
def createTempTree (tempBase : String) (snapshotState : SnapshotMetaState) : Sys Tree := do
  let tempId ← Sys.newUuid
  let tempPath := Sys.joinPath tempBase ("merge_" ++ tempId)
  Sys.createDirAll .io tempPath
  let baseline ← resolveBaselineCheckpoint snapshotState
  loadBaselineCheckpointToTree baseline tempPath

/-- Run the request of one entry on the tree, in a transaction of its own. -/
def applyEntryToTree (entry : DeltaEntry) : Sys Unit := do
  let req ← Eff.ofExcept <|
    liftPostcard (fun e => .serialization ("failed to decode entry: " ++ e.message))
      (KVRequest.codec.fromBytes entry.payload)
  Sys.commitWrites [req.update.mapKey Codec.utf8]

/-- Run the entries of one delta on the tree. -/
def applyEntriesToTree : List DeltaEntry → Sys Unit
  | [] => pure ()
  | entry :: rest => do
      applyEntryToTree entry
      applyEntriesToTree rest

/-- Read and run the delta files of the chain in order.  A delta without a file is skipped. -/
def replayChain (ar : Archiver) : List DeltaInfo → Sys Unit
  | [] => pure ()
  | deltaInfo :: rest => do
      match deltaInfo.filePath with
      | none => replayChain ar rest
      | some filePath => do
          let bytes ← Sys.readFile filePath
          let entries ← Eff.ofExcept (DeltaSnapshotCodec.decodeEntries ar bytes)
          applyEntriesToTree entries
          replayChain ar rest

/-- Replay the deltas of a snapshot state onto the tree. -/
def replayDeltas (ar : Archiver) (snapshotState : SnapshotMetaState) : Sys Unit :=
  replayChain ar snapshotState.deltaChain

/-- Make a checkpoint of the merged tree. -/
def createCheckpointFromTree (ar : Archiver) (snapshotState : SnapshotMetaState) :
    Sys MergeExecution := do
  let appliedIndex := match snapshotState.deltaChain.getLast? with
    | some lastDelta => lastDelta.endIndex
    | none => (snapshotState.lastCheckpoint.map (·.checkpointIndex)).getD 0
  let term := (snapshotState.lastCheckpoint.map (·.checkpointTerm)).getD 0
  let metadata ← CheckpointBuilder.create "target/checkpoints" appliedIndex term
  let size ← CheckpointBuilder.getCheckpointSize ar metadata
  pure ⟨max size snapshotState.totalDeltaBytes, some metadata.path⟩

end CheckpointMergeBackend

open CheckpointMergeBackend in
/-- One attempt at a merge. -/
def MergeBackend.executeMerge (ar : Archiver) (snapshotState : SnapshotMetaState) :
    MergeBackend → Sys MergeExecution
  | .metadataOnly =>
      pure ⟨snapshotState.totalDeltaBytes, snapshotState.lastCheckpoint.bind (·.checkpointPath)⟩
  | .checkpoint tempBase => do
      let tempTree ← createTempTree tempBase snapshotState
      Sys.withTree tempTree do
        replayDeltas ar snapshotState
        createCheckpointFromTree ar snapshotState

/-! ## The executor -/

/-- `char::is_whitespace`. -/
def isRustWhitespace (c : Char) : Bool :=
  let n := c.toNat
  (9 ≤ n && n ≤ 13) || n == 0x20 || n == 0x85 || n == 0xA0 || n == 0x1680 ||
    (0x2000 ≤ n && n ≤ 0x200A) || n == 0x2028 || n == 0x2029 || n == 0x202F || n == 0x205F ||
    n == 0x3000

/-- The code in front of the first colon of an error's text. -/
def mergeErrorCode : RaftError → String
  | .snapshot msg =>
      let code := ((msg.toList.takeWhile (· ≠ ':')).dropWhile isRustWhitespace).rdropWhile
        isRustWhitespace
      if code = [] then mergeErrUnknown else String.ofList code
  | _ => mergeErrUnknown

structure MergeTaskResult where
  merged : Bool
  trigger : Option MergeTrigger
  retries : UInt8
  checkpointSizeBytes : UInt64
  cleanupReport : CleanupReport
deriving DecidableEq, Repr

/-- What the merge task is configured with. -/
structure MergeExecutor where
  backend : MergeBackend
  cleanup : MergeCleanupConfig
  policy : DeltaMergePolicy
  maxRetries : UInt8
deriving DecidableEq, Repr

/-- `u8::saturating_add(1)`. -/
def nextRetry (retries : UInt8) : UInt8 := if retries.toNat < 255 then retries + 1 else 255

namespace MergeExecutor

def new (policy : DeltaMergePolicy) (cleanup : MergeCleanupConfig) : MergeExecutor :=
  ⟨.metadataOnly, cleanup, policy, 3⟩

def withBackend (ex : MergeExecutor) (backend : MergeBackend) : MergeExecutor :=
  { ex with backend := backend }

def withMaxRetries (ex : MergeExecutor) (maxRetries : UInt8) : MergeExecutor :=
  { ex with maxRetries := max maxRetries 1 }

/-- The trigger that the current state calls for. -/
def shouldSpawn (ex : MergeExecutor) : MetaM (Option MergeTrigger) := do
  let state ← MetadataManager.getSnapshotState
  let now ← MetadataManager.sys Sys.nowSecs
  pure (ex.policy.evaluate state now)

/-- The chain folded into its checkpoint, which moves to the end of the last delta. -/
def buildMergedSnapshotState (state : SnapshotMetaState) (now : UInt64)
    (checkpointPath : Option String) : SnapshotMetaState where
  lastCheckpoint := state.lastCheckpoint.map fun cp =>
    { cp with
      sequenceNumber := saturatingAdd cp.sequenceNumber 1
      createdAt := now
      checkpointPath := checkpointPath.or
        (some ("target/checkpoints/checkpoint_" ++ toString now))
      checkpointIndex := (state.deltaChain.getLast?.map (·.endIndex)).getD cp.checkpointIndex }
  deltaChain := []
  totalDeltaBytes := 0

/-- The retry loop.  An attempt is numbered from one, and the one with the last number allowed
gives up, so a fuel of `255` is never used up. -/
def mergeLoop (ar : Archiver) (ex : MergeExecutor) (trigger : MergeTrigger) (started : UInt64) :
    Nat → UInt8 → MetaM MergeTaskResult
  | 0, _ => Eff.fail (.other "retry loop out of fuel")
  | fuel + 1, previous => do
      let retries := nextRetry previous
      MetadataManager.saveMergeProgressState
        (.started trigger.asStr retries ex.maxRetries started)
      let snapshotState ← MetadataManager.getSnapshotState
      match ← Eff.attempt (MetadataManager.sys (ex.backend.executeMerge ar snapshotState)) with
      | .ok exec => do
          let mergedState := buildMergedSnapshotState snapshotState started exec.checkpointPath
          MetadataManager.saveSnapshotAndMergeState mergedState
            (.succeeded trigger.asStr retries ex.maxRetries started)
          let cleanupReport ← MetadataManager.sys
            (MergeCleanup.run ex.cleanup mergedState (some started))
          pure ⟨true, some trigger, retries, exec.checkpointSizeBytes, cleanupReport⟩
      | .error err =>
          if ex.maxRetries ≤ retries then do
            MetadataManager.saveMergeProgressState
              (.failed trigger.asStr retries ex.maxRetries started err.display)
            Eff.fail (.snapshot (mergeErrorCode err ++ ": merge failed after " ++
              toString retries ++ " retries: " ++ err.display))
          else mergeLoop ar ex trigger started fuel retries

/-- A merge task from its start to its end. -/
def runMergeLoop (ar : Archiver) (ex : MergeExecutor) (trigger : MergeTrigger) :
    MetaM MergeTaskResult := do
  let started ← MetadataManager.sys Sys.nowSecs
  mergeLoop ar ex trigger started 255 0

end MergeExecutor

end OpenraftSurrealkv
