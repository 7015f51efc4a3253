import Mathlib
import OpenraftSurrealkv.Snapshot.Checkpoint
import OpenraftSurrealkv.State

/-!
# Building and reading snapshots

A snapshot is an envelope in postcard form: metadata and a payload.  A delta
payload is the compressed list of the log entries after the last checkpoint, a
full payload is a checkpoint archive.  The builder makes a delta when there is a
checkpoint to build on, at least one entry, a payload of at most five megabytes,
and a thousand entries or a checkpoint that is at most a day old.  Otherwise it
makes a checkpoint of the tree and archives it.

A payload that does not read as an envelope is tried in the layout of version 1,
which carried the entries in the metadata.
-/

namespace OpenraftSurrealkv

open Postcard

/-! ## Delta payloads -/

namespace DeltaSnapshotCodec

def entriesCodec : Codec (List DeltaEntry) := Codec.seq DeltaEntry.codec

/-- Postcard, then zstd at level 3. -/
def encodeEntries (ar : Archiver) (entries : List DeltaEntry) : Except RaftError Bytes :=
  match liftPostcard RaftError.ofPostcard (entriesCodec.toStdvec entries) with
  | .ok encoded => .ok (ar.zstdEncode 3 encoded)
  | .error e => .error e

def decodeEntries (ar : Archiver) (data : Bytes) : Except RaftError (List DeltaEntry) :=
  match ar.zstdDecode data with
  | .error (.create text) => .error (.snapshot text)
  | .error (.read text) => .error (.snapshot ("read delta payload failed: " ++ text))
  | .ok decompressed =>
      liftPostcard (fun e => .snapshot ("decode delta entries failed: " ++ e.message))
        (entriesCodec.fromBytes decompressed)

/-- The file of a delta, from the second it is written in and a suffix. -/
def deltaPath (baseDir : String) (timestamp : UInt64) (suffix : String) : String :=
  Sys.joinPath baseDir ("delta-" ++ toString timestamp ++ "-" ++ suffix ++ ".bin.zst")

/-- Write a compressed delta to a file and return the path. -/
def persistToTempFile (baseDir : String) (data : Bytes) (suffix : String) : Sys String := do
  Sys.createDirAll .io baseDir
  let timestamp ← Sys.nowSecs
  let path := deltaPath baseDir timestamp suffix
  Sys.writeFile .io path data
  pure path

/-- What was encoded decodes to the same entries. -/
theorem decodeEntries_of_encodeEntries {ar : Archiver} {entries : List DeltaEntry} {data : Bytes}
    (h : encodeEntries ar entries = .ok data) : decodeEntries ar data = .ok entries := by
  unfold encodeEntries at h
  cases he : liftPostcard RaftError.ofPostcard (entriesCodec.toStdvec entries) with
  | error e =>
      rw [he] at h
      cases h
  | ok encoded =>
      rw [he] at h
      cases h
      have hback := Codec.fromBytes_of_toStdvec (liftPostcard_eq_ok_iff.mp he)
      rw [decodeEntries, ar.zstdDecode_zstdEncode]
      exact liftPostcard_eq_ok_iff.mpr hback

end DeltaSnapshotCodec

/-! ## Envelopes -/

structure SnapshotEnvelope where
  metadata : DeltaMetadata
  payload : Bytes
deriving DecidableEq, Repr

def SnapshotEnvelope.codec : Codec SnapshotEnvelope :=
  (DeltaMetadata.codec.pair Codec.bytes).iso
    (fun x => ⟨x.1, x.2⟩) (fun e => (e.metadata, e.payload)) (fun _ => rfl)

/-- The snapshot format of version 1, with the entries of a delta inside. -/
inductive LegacySnapshotFormatV1 where
  | full (checkpointMeta : CheckpointMetadata)
  | delta (baseIndex : UInt64) (entries : List DeltaEntry)
deriving DecidableEq, Repr

def LegacySnapshotFormatV1.codec : Codec LegacySnapshotFormatV1 :=
  (CheckpointMetadata.codec.either (Codec.u64.pair DeltaSnapshotCodec.entriesCodec)).iso
    (fun x => match x with | .inl m => .full m | .inr (base, entries) => .delta base entries)
    (fun f => match f with | .full m => .inl m | .delta base entries => .inr (base, entries))
    (fun f => by cases f <;> rfl)

structure LegacyDeltaMetadataV1 where
  format : LegacySnapshotFormatV1
  sizeBytes : UInt64
  createdAt : UInt64
  filePath : Option String
  version : UInt16
deriving DecidableEq, Repr

def LegacyDeltaMetadataV1.codec : Codec LegacyDeltaMetadataV1 :=
  (LegacySnapshotFormatV1.codec.pair <| Codec.u64.pair <| Codec.u64.pair <|
    (Codec.option Codec.string).pair Codec.u16).iso
    (fun x => ⟨x.1, x.2.1, x.2.2.1, x.2.2.2.1, x.2.2.2.2⟩)
    (fun m => (m.format, m.sizeBytes, m.createdAt, m.filePath, m.version))
    (fun _ => rfl)

structure LegacySnapshotEnvelopeV1 where
  metadata : LegacyDeltaMetadataV1
  payload : Bytes
deriving DecidableEq, Repr

def LegacySnapshotEnvelopeV1.codec : Codec LegacySnapshotEnvelopeV1 :=
  (LegacyDeltaMetadataV1.codec.pair Codec.bytes).iso
    (fun x => ⟨x.1, x.2⟩) (fun e => (e.metadata, e.payload)) (fun _ => rfl)

/-- A payload that was understood. -/
inductive DecodedSnapshotPayload where
  | full (metadata : DeltaMetadata)
  | delta (metadata : DeltaMetadata) (entries : List DeltaEntry)
deriving DecidableEq, Repr

/-- Read a payload as an envelope, else as an envelope of version 1. -/
def decodeSnapshotPayload (ar : Archiver) (payload : Bytes) :
    Except RaftError (Option DecodedSnapshotPayload) :=
  match SnapshotEnvelope.codec.fromBytes payload with
  | .ok envelope =>
      match envelope.metadata.format with
      | .delta _ _ =>
          match DeltaSnapshotCodec.decodeEntries ar envelope.payload with
          | .ok entries => .ok (some (.delta envelope.metadata entries))
          | .error e => .error e
      | .full _ => .ok (some (.full envelope.metadata))
  | .error _ =>
      match LegacySnapshotEnvelopeV1.codec.fromBytes payload with
      | .error _ => .ok none
      | .ok legacy =>
          match legacy.metadata.format with
          | .full checkpointMeta =>
              .ok (some (.full ⟨.full checkpointMeta, legacy.metadata.sizeBytes,
                legacy.metadata.createdAt, legacy.metadata.filePath, 2⟩))
          | .delta baseIndex entries =>
              .ok (some (.delta ⟨.delta baseIndex (UInt64.ofNat entries.length),
                legacy.metadata.sizeBytes, legacy.metadata.createdAt, legacy.metadata.filePath,
                2⟩ entries))

/-- The entries of a payload that is a delta. -/
def decodeDeltaEntriesFromPayload (ar : Archiver) (payload : Bytes) :
    Except RaftError (Option (List DeltaEntry)) :=
  match decodeSnapshotPayload ar payload with
  | .error e => .error e
  | .ok (some (.delta _ entries)) => .ok (some entries)
  | .ok (some (.full _)) => .ok none
  | .ok none => .ok none

theorem decodeSnapshotPayload_full {ar : Archiver} {metadata : DeltaMetadata}
    {payload bytes : Bytes} {m : CheckpointMetadata} (hf : metadata.format = .full m)
    (h : SnapshotEnvelope.codec.toStdvec ⟨metadata, payload⟩ = .ok bytes) :
    decodeSnapshotPayload ar bytes = .ok (some (.full metadata)) := by
  simp only [decodeSnapshotPayload, Codec.fromBytes_of_toStdvec h, hf]

theorem decodeSnapshotPayload_delta {ar : Archiver} {metadata : DeltaMetadata}
    {payload bytes : Bytes} {base count : UInt64} {entries : List DeltaEntry}
    (hf : metadata.format = .delta base count)
    (he : DeltaSnapshotCodec.encodeEntries ar entries = .ok payload)
    (h : SnapshotEnvelope.codec.toStdvec ⟨metadata, payload⟩ = .ok bytes) :
    decodeSnapshotPayload ar bytes = .ok (some (.delta metadata entries)) := by
  simp only [decodeSnapshotPayload, Codec.fromBytes_of_toStdvec h, hf,
    DeltaSnapshotCodec.decodeEntries_of_encodeEntries he]

/-- Whether a payload is a delta. -/
def isDeltaPayload (ar : Archiver) (payload : Bytes) : Bool :=
  match decodeSnapshotPayload ar payload with
  | .ok (some (.delta _ _)) => true
  | _ => false

theorem exists_of_isDeltaPayload {ar : Archiver} {payload : Bytes}
    (h : isDeltaPayload ar payload = true) :
    ∃ metadata entries,
      decodeSnapshotPayload ar payload = .ok (some (.delta metadata entries)) := by
  unfold isDeltaPayload at h
  split at h
  next metadata entries hd => exact ⟨metadata, entries, hd⟩
  next => cases h

/-! ## Full or delta -/

def deltaEntryThreshold : Nat := 1000

def deltaMaxBytes : UInt64 := 5 * 1024 * 1024

def deltaMaxAgeSecs : UInt64 := 24 * 60 * 60

/-- Whether to build a delta. -/
def shouldBuildDelta (snapshotState : SnapshotMetaState) (entries : Nat) (sizeBytes now : UInt64) :
    Bool :=
  match snapshotState.lastCheckpoint with
  | none => false
  | some c =>
      if entries = 0 ∨ deltaMaxBytes < sizeBytes then false
      else
        decide (deltaEntryThreshold ≤ entries) ||
          decide (saturatingSub now c.createdAt ≤ deltaMaxAgeSecs)

/-- A delta needs a checkpoint and an entry. -/
theorem shouldBuildDelta_true {st : SnapshotMetaState} {entries : Nat} {size now : UInt64}
    (h : shouldBuildDelta st entries size now = true) :
    (∃ c, st.lastCheckpoint = some c) ∧ entries ≠ 0 := by
  unfold shouldBuildDelta at h
  split at h
  next => cases h
  next c hc =>
    split at h
    next => cases h
    next hne =>
      exact ⟨⟨c, hc⟩, fun h0 => hne (Or.inl h0)⟩

/-! ## The builder -/

/-- The identity that the builder stamps on a snapshot. -/
structure SnapshotBuildConfig where
  nodeId : UInt64
  nodeAddr : String
  currentTerm : UInt64
deriving DecidableEq, Repr

/-- A membership of the local node alone.  Its one voter is a node, so it is valid. -/
def SnapshotBuildConfig.buildLocalMembership (cfg : SnapshotBuildConfig) : Membership :=
  ⟨[[cfg.nodeId]], [(cfg.nodeId, ⟨cfg.nodeAddr⟩)]⟩

def SnapshotBuildConfig.buildSnapshotMeta (cfg : SnapshotBuildConfig) (appliedIndex : UInt64)
    (snapshotId : String) : SnapshotMeta where
  lastLogId := some ⟨cfg.currentTerm, appliedIndex⟩
  lastMembership := ⟨none, cfg.buildLocalMembership⟩
  snapshotId := snapshotId

/-- The file of a full snapshot, from the second it is written in. -/
def archivePath (timestamp : UInt64) : String :=
  Sys.joinPath "target/snapshots" ("snapshot-" ++ toString timestamp ++ ".tar.zst")

namespace RaftSnapshotBuilder

def deltaDir : String := "target/tmp/deltas"

end RaftSnapshotBuilder

/-! ## Names of files -/

theorem toString_inj {v v' : UInt64} (h : (toString v).toList = (toString v').toList) : v = v' :=
  UInt64.toNat.inj (Nat.repr_injective (String.toList_inj.mp h))

theorem dash_not_mem_toString (v : UInt64) : '-' ∉ (toString v).toList := by
  rw [show toString v = Nat.repr v.toNat from rfl, Nat.toList_repr]
  intro h
  have hdigit := Nat.isDigit_of_mem_toDigits (by decide) (by decide) h
  cases hdigit

/-- The name of a delta file shows the applied index. -/
theorem deltaPath_inj {baseDir : String} {ts ts' a a' : UInt64}
    (h : DeltaSnapshotCodec.deltaPath baseDir ts (toString a) =
      DeltaSnapshotCodec.deltaPath baseDir ts' (toString a')) : a = a' := by
  have hchars := congrArg String.toList h
  simp only [DeltaSnapshotCodec.deltaPath, Sys.joinPath, String.toList_append, List.append_assoc,
    List.append_cancel_left_eq] at hchars
  have hdash : '-' ∉ (toString a).toList ++ ".bin.zst".toList := by
    rw [List.mem_append]
    rintro (hmem | hmem)
    · exact dash_not_mem_toString a hmem
    · revert hmem
      decide
  have hsplit := (List.append_cons_inj_of_notMem (dash_not_mem_toString ts) hdash).mp hchars
  exact toString_inj (List.append_cancel_right hsplit.2.2)

/-- No archive has the name of a delta file. -/
theorem deltaPath_ne_archivePath (ts ts' : UInt64) (suffix : String) :
    DeltaSnapshotCodec.deltaPath RaftSnapshotBuilder.deltaDir ts suffix ≠ archivePath ts' := by
  intro h
  have hchars := congrArg (fun s : String => s.toList.take 8) h
  simp only [DeltaSnapshotCodec.deltaPath, archivePath, RaftSnapshotBuilder.deltaDir,
    Sys.joinPath, String.toList_append, List.append_assoc] at hchars
  rw [List.take_append_of_le_length (by decide),
    List.take_append_of_le_length (by decide)] at hchars
  revert hchars
  decide

namespace RaftSnapshotBuilder

/-- A full snapshot: checkpoint, archive, envelope. -/
def buildSnapshot (ar : Archiver) (cfg : SnapshotBuildConfig) (appliedIndex : UInt64) :
    Sys Snapshot := do
  let metadata ← CheckpointBuilder.create "target/checkpoints" appliedIndex cfg.currentTerm
  let timestamp ← Sys.nowSecs
  let out := archivePath timestamp
  let compressedSize ← compress ar metadata out
  let bytes ← Sys.readFile out
  let fullMeta := metadata.withCompressedSize compressedSize
  let envelope : SnapshotEnvelope :=
    ⟨DeltaMetadata.new (.full fullMeta) (UInt64.ofNat bytes.length) timestamp, bytes⟩
  let envelopeBytes ← Eff.ofExcept <|
    liftPostcard (fun e => .snapshot ("encode full envelope failed: " ++ e.message))
      (SnapshotEnvelope.codec.toStdvec envelope)
  pure ⟨cfg.buildSnapshotMeta appliedIndex
    ("full-" ++ toString appliedIndex ++ "-" ++ toString timestamp), envelopeBytes⟩

/-- A delta of the given entries when the policy allows it, else a full snapshot. -/
def buildSnapshotWithDelta (ar : Archiver) (cfg : SnapshotBuildConfig) (appliedIndex : UInt64)
    (snapshotState : SnapshotMetaState) (deltaEntries : List DeltaEntry) : Sys Snapshot := do
  let now ← Sys.nowSecs
  let compressedDelta ← Eff.ofExcept (DeltaSnapshotCodec.encodeEntries ar deltaEntries)
  let sizeBytes := UInt64.ofNat compressedDelta.length
  if shouldBuildDelta snapshotState deltaEntries.length sizeBytes now then do
    let path ← DeltaSnapshotCodec.persistToTempFile deltaDir compressedDelta (toString appliedIndex)
    let baseIndex := (snapshotState.lastCheckpoint.map (·.checkpointIndex)).getD 0
    let metadata := (DeltaMetadata.new
      (.delta baseIndex (UInt64.ofNat deltaEntries.length)) sizeBytes now).withFilePath path
    let bytes ← Eff.ofExcept <|
      liftPostcard (fun e => .snapshot ("encode delta envelope failed: " ++ e.message))
        (SnapshotEnvelope.codec.toStdvec ⟨metadata, compressedDelta⟩)
    pure ⟨cfg.buildSnapshotMeta appliedIndex
      ("delta-" ++ toString appliedIndex ++ "-" ++ toString now), bytes⟩
  else buildSnapshot ar cfg appliedIndex

/-- Install a full snapshot by unpacking its archive. -/
def installSnapshot (ar : Archiver) (snapshot : Snapshot) : Sys Unit := do
  let ts ← Sys.nowSecs
  let restoreDir := Sys.joinPath "target/restored" ("snapshot-" ++ toString ts)
  let appliedIndex := (snapshot.snapshotMeta.lastLogId.map LogId.index).getD 0
  let term := (snapshot.snapshotMeta.lastLogId.map LogId.term).getD 0
  match SnapshotEnvelope.codec.fromBytes snapshot.snapshot with
  | .ok envelope =>
      match envelope.metadata.format with
      | .full _ => do
          let expected ← CheckpointMetadata.new appliedIndex term 0 restoreDir
          let _ ← restore ar envelope.payload restoreDir expected
          pure ()
      | .delta _ _ =>
          Eff.fail (.snapshot "delta snapshot requires storage-level apply via decoded entries")
  | .error _ => do
      let expected ← CheckpointMetadata.new appliedIndex term 0 restoreDir
      let _ ← restore ar snapshot.snapshot restoreDir expected
      pure ()

end RaftSnapshotBuilder

end OpenraftSurrealkv
