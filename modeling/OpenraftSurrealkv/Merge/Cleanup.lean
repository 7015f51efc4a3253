import OpenraftSurrealkv.State

/-!
# When to merge and what to clean up after

A merge is due when the delta chain is long, when it is large, or when the
checkpoint is old, in this order of priority.  After a merge the cleanup removes
old delta files, old temporary directories and all but the newest checkpoints.
-/

namespace OpenraftSurrealkv

/-! ## Policy -/

/-- The three thresholds that call for a merge. -/
structure DeltaMergePolicy where
  maxChainLength : Nat
  maxDeltaBytes : UInt64
  checkpointIntervalSecs : UInt64
deriving DecidableEq, Repr

def DeltaMergePolicy.new : DeltaMergePolicy := ⟨5, 300 * 1024 * 1024, 24 * 60 * 60⟩

/-- Why a merge is due. -/
inductive MergeTrigger where
  | chainTooLong
  | sizeTooLarge
  | timeWindowExpired
deriving DecidableEq, Repr

def MergeTrigger.asStr : MergeTrigger → String
  | .chainTooLong => "chain_too_long"
  | .sizeTooLarge => "size_too_large"
  | .timeWindowExpired => "time_window_expired"

/-- The decision and the figures it was made on. -/
structure MergeDecision where
  trigger : Option MergeTrigger
  chainLength : Nat
  cumulativeBytes : UInt64
deriving DecidableEq, Repr

def MergeDecision.fromState (policy : DeltaMergePolicy) (snapshotState : SnapshotMetaState)
    (nowSecs : UInt64) : MergeDecision where
  trigger :=
    if policy.maxChainLength ≤ snapshotState.deltaChain.length then some .chainTooLong
    else if policy.maxDeltaBytes ≤ snapshotState.totalDeltaBytes then some .sizeTooLarge
    else
      snapshotState.lastCheckpoint.bind fun cp =>
        if policy.checkpointIntervalSecs ≤ saturatingSub nowSecs cp.createdAt then
          some .timeWindowExpired
        else none
  chainLength := snapshotState.deltaChain.length
  cumulativeBytes := snapshotState.totalDeltaBytes

/-- The trigger that the state calls for, if any. -/
def DeltaMergePolicy.evaluate (policy : DeltaMergePolicy) (snapshotState : SnapshotMetaState)
    (nowSecs : UInt64) : Option MergeTrigger :=
  (MergeDecision.fromState policy snapshotState nowSecs).trigger

/-! ## Cleanup -/

structure MergeCleanupConfig where
  retainLastCheckpoints : Nat
  maxDeltaAgeSecs : UInt64
  maxTempAgeSecs : UInt64
  checkpointsDir : String
  tempMergeDir : String
deriving DecidableEq, Repr

def MergeCleanupConfig.default : MergeCleanupConfig :=
  ⟨3, 24 * 60 * 60, 60 * 60, "target/checkpoints", "target/tmp/merge"⟩

structure CleanupReport where
  removedDeltaFiles : Nat
  removedTempDirs : Nat
  removedCheckpointDirs : Nat
deriving DecidableEq, Repr

/-- Whether a path lies below a directory. -/
def isBelow (base path : String) : Bool := (base ++ "/").toList.isPrefixOf path.toList

/-- Whether a path is an entry of a directory. -/
def isEntryOf (base path : String) : Bool :=
  isBelow base path && !(path.toList.drop (base ++ "/").length).contains '/'

/-- The directories inside a directory, with their modification times, in path order. -/
def entriesOf (base : String) (w : World) : List (String × UInt64) :=
  (w.dirs.toList.filter fun p => isEntryOf base p.1).map fun p => (p.1, p.2.modified)

/-- `fs::remove_file`. -/
def removeFile (path : String) : Sys Unit := do
  Sys.external .io
  match ← Eff.gets fun w => w.files[path]? with
  | some _ => Eff.modify fun w => { w with files := w.files.erase path }
  | none => Eff.fail (.io "No such file or directory (os error 2)")

/-- `fs::remove_dir_all`. -/
def removeDirAll (path : String) : Sys Unit := do
  Sys.external .io
  Eff.modify fun w =>
    { w with
      dirs := w.dirs.filter fun p _ => !(p == path || isBelow path p)
      files := w.files.filter fun p _ => !isBelow path p }

namespace MergeCleanup

/-- Remove the files of the chain's deltas that are old enough, and count them. -/
def cleanupDeltaFiles (config : MergeCleanupConfig) (now : UInt64) : List DeltaInfo → Sys Nat
  | [] => pure 0
  | delta :: rest => do
      match delta.filePath with
      | none => cleanupDeltaFiles config now rest
      | some path =>
          if saturatingSub now delta.createdAt < config.maxDeltaAgeSecs then
            cleanupDeltaFiles config now rest
          else do
            match ← Eff.attempt (removeFile path) with
            | .ok _ => do
                let removed ← cleanupDeltaFiles config now rest
                pure (removed + 1)
            | .error _ => cleanupDeltaFiles config now rest

/-- Remove the listed temporary directories that are old enough, and count them. -/
def removeOldTempDirs (config : MergeCleanupConfig) (now : UInt64) :
    List (String × UInt64) → Sys Nat
  | [] => pure 0
  | (path, modified) :: rest => do
      Sys.external .io
      if config.maxTempAgeSecs ≤ saturatingSub now modified then do
        removeDirAll path
        let removed ← removeOldTempDirs config now rest
        pure (removed + 1)
      else removeOldTempDirs config now rest

def cleanupTempDirs (config : MergeCleanupConfig) (now : UInt64) : Sys Nat := do
  match ← Eff.gets fun w => w.dirs[config.tempMergeDir]? with
  | none => pure 0
  | some _ => do
      Sys.external .io
      let dirs ← Eff.gets (entriesOf config.tempMergeDir)
      removeOldTempDirs config now dirs

/-- `remove_dir_if_exists` on each listed directory. -/
def removeDirs : List (String × UInt64) → Sys Unit
  | [] => pure ()
  | (path, _) :: rest => do
      match ← Eff.gets fun w => w.dirs[path]? with
      | none => removeDirs rest
      | some _ => do
          removeDirAll path
          removeDirs rest

/-- Remove the oldest checkpoint directories beyond the number to keep. -/
def cleanupOldCheckpoints (config : MergeCleanupConfig) : Sys Nat := do
  match ← Eff.gets fun w => w.dirs[config.checkpointsDir]? with
  | none => pure 0
  | some _ => do
      Sys.external .io
      let dirs ← Eff.gets (entriesOf config.checkpointsDir)
      if dirs.length ≤ config.retainLastCheckpoints then pure 0
      else do
        let removeCount := dirs.length - config.retainLastCheckpoints
        removeDirs ((dirs.insertionSort fun a b => a.2 ≤ b.2).take removeCount)
        pure removeCount

/-- The time that the cleanup measures ages from. -/
def cleanupTime : Option UInt64 → Sys UInt64
  | some t => pure t
  | none => Sys.nowSecs

def run (config : MergeCleanupConfig) (snapshotState : SnapshotMetaState) (now : Option UInt64) :
    Sys CleanupReport := do
  let now ← cleanupTime now
  let removedDeltaFiles ← cleanupDeltaFiles config now snapshotState.deltaChain
  let removedTempDirs ← cleanupTempDirs config now
  let removedCheckpointDirs ← cleanupOldCheckpoints config
  pure ⟨removedDeltaFiles, removedTempDirs, removedCheckpointDirs⟩

end MergeCleanup

end OpenraftSurrealkv
