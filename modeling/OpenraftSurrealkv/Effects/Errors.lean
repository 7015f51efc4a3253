import OpenraftSurrealkv.Merge.Executor

/-!
# Which errors an operation raises

A failed external call reports its text through the wrapper that the source gives
it.  `Eff.Raises` collects the wrappers along an operation: a set of errors that
holds every wrapped text holds every error of the operation.
-/

namespace OpenraftSurrealkv

open Postcard

variable {E : RaftError → Prop}

namespace Sys

theorem raises_external {wrap : String → RaftError} (h : ∀ text, E (wrap text)) :
    Eff.Raises E (external wrap) := by
  intro w e w' hrun
  rcases hfaults : w.faults with _ | ⟨_ | text, fs⟩
  · simp [external, hfaults] at hrun
  · simp [external, hfaults] at hrun
  · rw [external, hfaults] at hrun
    obtain rfl := Except.error.inj (Prod.mk.inj hrun).1
    exact h text

theorem raises_nowSecs : Eff.Raises E nowSecs := by
  intro w e w' hrun
  cases hrun

theorem raises_newUuid : Eff.Raises E newUuid := by
  intro w e w' hrun
  cases hrun

theorem raises_setAll {wrap : String → RaftError} (h : ∀ text, E (wrap text)) :
    ∀ writes : List (Update Bytes Bytes), Eff.Raises E (setAll wrap writes)
  | [] => .pure ()
  | write :: writes => by
      refine .bind (.bind (raises_external h) fun _ => ?_) fun _ => raises_setAll h writes
      split
      · exact .fail (h _)
      · exact .pure ()

theorem raises_transaction {onBegin onSet onCommit : String → RaftError}
    (hbegin : ∀ text, E (onBegin text)) (hset : ∀ text, E (onSet text))
    (hcommit : ∀ text, E (onCommit text)) (writes : List (Update Bytes Bytes)) :
    Eff.Raises E (transaction onBegin onSet onCommit writes) :=
  .bind (raises_external hbegin) fun _ =>
    .bind (raises_setAll hset writes) fun _ =>
      .bind (raises_external hcommit) fun _ => .modify _

theorem raises_createDirAll {wrap : String → RaftError} (h : ∀ text, E (wrap text))
    (path : String) : Eff.Raises E (createDirAll wrap path) :=
  .bind (raises_external h) fun _ => .modify _

theorem raises_readFile (h : ∀ text, E (.io text)) (path : String) :
    Eff.Raises E (readFile path) := by
  refine .bind (raises_external h) fun _ => .bind (.gets _) fun file => ?_
  cases file with
  | none => exact .fail (h _)
  | some bytes => exact .pure bytes

theorem raises_createCheckpoint
    (h : ∀ text, E (.snapshot ("Failed to create checkpoint: " ++ text)))
    (hpanic : ∀ text, E (.snapshot ("Checkpoint creation task panicked: " ++ text)))
    (path : String) : Eff.Raises E (createCheckpoint path) := by
  refine .bind (.modify _) fun _ => .bind (.modify _) fun _ => .bind (raises_external h) fun _ =>
    .bind (raises_external hpanic) fun _ =>
      .bind (.gets _) fun tree => .bind (.modify _) fun _ => ?_
  intro w e w' hrun
  cases hrun

theorem raises_cutManifest (path : String) (bytes : Bytes) :
    Eff.Raises E (cutManifest path bytes) := by
  refine .bind (.gets _) fun cuts => ?_
  match cuts with
  | [] => exact .pure ()
  | none :: _ => exact .modify _
  | some _ :: _ => exact .bind (.modify _) fun _ => .modify _

theorem raises_withTree {α : Type} {x : Sys α} (h : Eff.Raises E x) (t : Tree) :
    Eff.Raises E (withTree t x) := by
  intro w e w' hrun
  exact h _ e _ (Prod.ext (Prod.mk.inj hrun).1 rfl)

end Sys

/-! ## Restoring an archive -/

/-- With no checksum to compare, `restore` fails on the directory or on the archive. -/
theorem raises_restore (ar : Archiver) (data : Bytes) (target : String)
    {expected : CheckpointMetadata} (hcrc : expected.crc32 = 0) (hio : ∀ text, E (.io text))
    (hrestore : ∀ text, E (.snapshot ("tar+zstd restore failed: " ++ text))) :
    Eff.Raises E (restore ar data target expected) := by
  unfold restore
  rw [if_neg fun h => h.1 hcrc]
  refine .bind (Sys.raises_createDirAll hio target) fun _ =>
    .bind (Sys.raises_external hrestore) fun _ => ?_
  cases ar.zstdDecode data with
  | error e => exact .fail (hrestore _)
  | ok tar =>
      simp only
      cases ar.tarUnpack tar with
      | error e => exact .fail (hrestore _)
      | ok d => exact .bind (.modify _) fun _ => .pure _

/-- An installation compares no checksum: the metadata that it expects are new ones. -/
theorem raises_installSnapshot (ar : Archiver) (snapshot : Snapshot) (hio : ∀ text, E (.io text))
    (hrestore : ∀ text, E (.snapshot ("tar+zstd restore failed: " ++ text)))
    (hdelta : E (.snapshot "delta snapshot requires storage-level apply via decoded entries")) :
    Eff.Raises E (RaftSnapshotBuilder.installSnapshot ar snapshot) := by
  have hnew : ∀ appliedIndex term dir data target, Eff.Raises E
      (CheckpointMetadata.new appliedIndex term 0 dir >>= fun expected =>
        restore ar data target expected >>= fun _ => pure ()) := by
    intro appliedIndex term dir data target w e w' hrun
    exact Eff.Raises.bind (raises_restore ar data target rfl hio hrestore) (fun _ => .pure ())
      _ e w' hrun
  unfold RaftSnapshotBuilder.installSnapshot
  refine .bind Sys.raises_nowSecs fun ts => ?_
  simp only
  split
  next envelope _ =>
    split
    next => exact hnew _ _ _ _ _
    next => exact .fail hdelta
  next => exact hnew _ _ _ _ _

/-! ## Making a checkpoint -/

/-- The texts in front of the errors of `CheckpointBuilder.create`. -/
def checkpointStages : List String :=
  ["Failed to create checkpoint", "Checkpoint creation task panicked", "begin transaction failed",
    "set consistency key failed", "build consistency write runtime failed",
    "commit consistency key failed", "create checkpoint dir failed",
    "write checkpoint manifest failed"]

/-- The text of the error when the thread that writes the sequence number panics. -/
def writerPanicked : String := "consistency writer thread panicked"

/-- The error of a stage, with the text of the failure behind a colon. -/
theorem of_stage {stages : List String}
    (h : ∀ stage ∈ stages, ∀ text, E (.snapshot (stage ++ ": " ++ text))) (stage label : String)
    (hmem : stage ∈ stages) (hlabel : stage ++ ": " = label) (text : String) :
    E (.snapshot (label ++ text)) := by
  rw [← hlabel]
  exact h stage hmem text

theorem raises_writeSequenceNumber
    (hstage : ∀ stage ∈ checkpointStages, ∀ text, E (.snapshot (stage ++ ": " ++ text)))
    (hpanic : E (.snapshot writerPanicked)) (seq : UInt64) :
    Eff.Raises E (writeSequenceNumber seq) := by
  have hthread : Eff.Raises E (Sys.external fun _ => .snapshot writerPanicked) :=
    Sys.raises_external fun _ => hpanic
  refine .bind hthread fun _ => .bind (Sys.raises_external ?_) fun _ =>
    .bind (Sys.raises_setAll ?_ _) fun _ => .bind (Sys.raises_external ?_) fun _ =>
      .bind (Sys.raises_external ?_) fun _ => .bind (.modify _) fun _ => hthread
  · exact of_stage hstage "begin transaction failed" _ (by decide) (by decide)
  · exact of_stage hstage "set consistency key failed" _ (by decide) (by decide)
  · exact of_stage hstage "build consistency write runtime failed" _ (by decide) (by decide)
  · exact of_stage hstage "commit consistency key failed" _ (by decide) (by decide)

theorem raises_create (hio : ∀ text, E (.io text))
    (hstage : ∀ stage ∈ checkpointStages, ∀ text, E (.snapshot (stage ++ ": " ++ text)))
    (hpanic : E (.snapshot writerPanicked))
    (base : String) (appliedIndex term : UInt64) :
    Eff.Raises E (CheckpointBuilder.create base appliedIndex term) := by
  have hnew : ∀ seq, Eff.Raises E (CheckpointMetadata.new appliedIndex term seq base) :=
    fun seq => .bind Sys.raises_nowSecs fun _ => .pure _
  have hwrite : ∀ dir seq, Eff.Raises E (writeSequenceNumberDual dir seq) := by
    intro dir seq
    refine .bind (raises_writeSequenceNumber hstage hpanic seq) fun _ =>
      .bind (Sys.raises_createDirAll ?_ dir) fun _ => .bind Sys.raises_nowSecs fun _ =>
        .bind_attempt (Sys.raises_external ?_) (fun _ => .modify _) fun e he => ?_
    · exact of_stage hstage "create checkpoint dir failed" _ (by decide) (by decide)
    · exact of_stage hstage "write checkpoint manifest failed" _ (by decide) (by decide)
    · exact .bind (Sys.raises_cutManifest dir _) fun _ => .fail he
  have hcheckpoint := of_stage hstage "Failed to create checkpoint" _ (by decide) rfl
  have htask := of_stage hstage "Checkpoint creation task panicked" _ (by decide) rfl
  exact .bind (Sys.raises_createDirAll hio base) fun _ =>
    .bind (hnew 0) fun first =>
      .bind (Sys.raises_createDirAll hio first.path) fun _ =>
        .bind (Sys.raises_createCheckpoint hcheckpoint htask first.path) fun _ =>
          .bind (.pure _) fun seq =>
            .bind (hwrite first.path seq) fun _ => .bind (hnew seq) fun _ => .pure _

/-! ## Merging -/

namespace MergeBackend

/-- The errors that one attempt at a merge can end with. -/
inductive Failure (ar : Archiver) : RaftError → Prop
  | plain {err : RaftError} (h : ∀ msg, err ≠ .snapshot msg) : Failure ar err
  | baseline {code : String}
      (h : code ∈ [mergeErrBaselineMissing, mergeErrBaselinePathRequired,
        mergeErrBaselinePathMissing]) (detail : String) :
      Failure ar (mergeSnapshotError code detail)
  | decoder {data : Bytes} {text : String} (h : ar.zstdDecode data = .error (.create text)) :
      Failure ar (.snapshot text)
  | stage {stage : String}
      (h : stage ∈ "read delta payload failed" :: "decode delta entries failed" :: checkpointStages)
      (text : String) : Failure ar (.snapshot (stage ++ ": " ++ text))
  | panicked : Failure ar (.snapshot writerPanicked)

namespace Failure

variable {ar : Archiver}

theorem io (text : String) : Failure ar (.io text) := .plain fun _ h => by cases h

theorem storage (text : String) : Failure ar (.storage text) := .plain fun _ h => by cases h

theorem serialization (text : String) : Failure ar (.serialization text) :=
  .plain fun _ h => by cases h

theorem of_decodeEntries {data : Bytes} {err : RaftError}
    (h : DeltaSnapshotCodec.decodeEntries ar data = .error err) : Failure ar err := by
  unfold DeltaSnapshotCodec.decodeEntries at h
  split at h
  next text hdecode =>
    cases h
    exact .decoder hdecode
  next text hdecode =>
    cases h
    exact of_stage (fun _ hmem => .stage hmem) "read delta payload failed" _ (by decide)
      (by decide) _
  next decompressed hdecode =>
    cases hcodec : DeltaSnapshotCodec.entriesCodec.fromBytes decompressed with
    | ok entries =>
        rw [hcodec] at h
        cases h
    | error e =>
        rw [hcodec] at h
        cases h
        exact of_stage (fun _ hmem => .stage hmem) "decode delta entries failed" _ (by decide)
          (by decide) _

end Failure

open CheckpointMergeBackend

variable (ar : Archiver)

theorem raises_resolveBaselineCheckpoint (st : SnapshotMetaState) :
    Eff.Raises (Failure ar) (resolveBaselineCheckpoint st) := by
  unfold resolveBaselineCheckpoint
  cases st.lastCheckpoint with
  | none => exact .fail (.baseline (by decide) _)
  | some cp =>
      simp only
      cases cp.checkpointPath with
      | none => exact .fail (.baseline (by decide) _)
      | some path =>
          refine .bind (.attempt _) fun reachable => .bind (.gets _) fun dir => ?_
          split
          · exact .pure path
          · exact .fail (.baseline (by decide) _)

theorem raises_loadBaselineCheckpointToTree (checkpointPath tempPath : String) :
    Eff.Raises (Failure ar) (loadBaselineCheckpointToTree checkpointPath tempPath) := by
  refine .bind (Sys.raises_external fun _ => .storage _) fun _ =>
    .bind (Sys.raises_external Failure.io) fun _ => .bind (.gets _) fun baseline => ?_
  cases baseline with
  | none => exact .fail (.io _)
  | some d =>
      exact .bind (.modify _) fun _ =>
        .bind (Sys.raises_external fun _ => .storage _) fun _ => .pure _

theorem raises_createTempTree (tempBase : String) (st : SnapshotMetaState) :
    Eff.Raises (Failure ar) (createTempTree tempBase st) :=
  .bind Sys.raises_newUuid fun _ =>
    .bind (Sys.raises_createDirAll Failure.io _) fun _ =>
      .bind (raises_resolveBaselineCheckpoint ar st) fun _ =>
        raises_loadBaselineCheckpointToTree ar _ _

theorem raises_applyEntriesToTree :
    ∀ entries : List DeltaEntry, Eff.Raises (Failure ar) (applyEntriesToTree entries)
  | [] => .pure ()
  | entry :: rest => by
      refine .bind ?_ fun _ => raises_applyEntriesToTree rest
      refine .bind (.ofExcept fun err herr => ?_) fun req =>
        Sys.raises_transaction (fun _ => .storage _) (fun _ => .storage _) (fun _ => .storage _) _
      cases hcodec : KVRequest.codec.fromBytes entry.payload with
      | ok req =>
          rw [hcodec] at herr
          cases herr
      | error e =>
          rw [hcodec] at herr
          cases herr
          exact .serialization _

theorem raises_replayChain :
    ∀ chain : List DeltaInfo, Eff.Raises (Failure ar) (replayChain ar chain)
  | [] => .pure ()
  | deltaInfo :: rest => by
      unfold replayChain
      cases deltaInfo.filePath with
      | none => exact raises_replayChain rest
      | some filePath =>
          exact .bind (Sys.raises_readFile Failure.io filePath) fun _ =>
            .bind (.ofExcept fun _ => .of_decodeEntries) fun entries =>
              .bind (raises_applyEntriesToTree ar entries) fun _ => raises_replayChain rest

theorem raises_createCheckpointFromTree (st : SnapshotMetaState) :
    Eff.Raises (Failure ar) (createCheckpointFromTree ar st) := by
  have hstage : ∀ stage ∈ checkpointStages, ∀ text,
      Failure ar (.snapshot (stage ++ ": " ++ text)) := fun stage hmem text =>
    .stage (List.mem_cons_of_mem _ (List.mem_cons_of_mem _ hmem)) text
  refine .bind (raises_create Failure.io hstage .panicked _ _ _) fun metadata =>
    .bind ?_ fun _ => .pure _
  refine .bind (Sys.raises_external Failure.io) fun _ => .bind (.gets _) fun dir => ?_
  cases dir with
  | none => exact .fail (.io _)
  | some d => exact .pure _

/-- Every error of an attempt is one of these. -/
theorem raises_executeMerge (st : SnapshotMetaState) (backend : MergeBackend) :
    Eff.Raises (Failure ar) (backend.executeMerge ar st) := by
  cases backend with
  | metadataOnly => exact .pure _
  | checkpoint tempBase =>
      refine .bind (raises_createTempTree ar tempBase st) fun tempTree =>
        Sys.raises_withTree (.bind (raises_replayChain ar _) fun _ => ?_) tempTree
      exact raises_createCheckpointFromTree ar st

end MergeBackend

end OpenraftSurrealkv
