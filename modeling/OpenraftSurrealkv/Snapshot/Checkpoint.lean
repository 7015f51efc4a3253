import OpenraftSurrealkv.World

/-!
# Checkpoints and their archives

A checkpoint is a directory with the content of a tree.  Its name carries the
second in which it was made.  The sequence number that SurrealKV gives it is
written twice, under a key of the tree and into a manifest in the directory.  A
full snapshot is the directory as a tar archive under zstd, and installing one
unpacks the archive into a fresh directory.
-/

namespace OpenraftSurrealkv

open Postcard

/-! ## Integers as bytes and as text -/

/-- `u64::to_be_bytes`. -/
def toBeBytes (v : UInt64) : Bytes :=
  (List.range 8).map fun i => UInt8.ofNat (v.toNat / 256 ^ (7 - i))

/-- `u32::to_be_bytes`. -/
def toBeBytes32 (v : UInt32) : Bytes :=
  (List.range 4).map fun i => UInt8.ofNat (v.toNat / 256 ^ (3 - i))

/-- `u64::from_be_bytes`. -/
def fromBeBytes (bytes : Bytes) : UInt64 :=
  UInt64.ofNat (bytes.foldl (fun acc b => acc * 256 + b.toNat) 0)

/-- The value of a text of decimal digits. -/
def digitsValue (digits : List Char) : Option Nat :=
  if digits ≠ [] ∧ digits.all Char.isDigit then
    some (digits.foldl (fun acc c => acc * 10 + (c.toNat - '0'.toNat)) 0)
  else none

/-- `str::parse::<u64>`: decimal digits after at most one plus sign, in range. -/
def parseU64 (text : String) : Option UInt64 :=
  let digits := match text.toList with
    | '+' :: rest => rest
    | cs => cs
  match digitsValue digits with
  | some n => if n < 2 ^ 64 then some (UInt64.ofNat n) else none
  | none => none

/-! ## The sequence number -/

def consistencySeqKey : Bytes := Codec.utf8 "raft_consistency:sequence_number"

/-- `PersistedKeySequenceNumberReader::read_sequence_number`. -/
def readSequenceNumber : Sys UInt64 := do
  let value ← Sys.getKey (fun e => .snapshot ("read consistency key failed: " ++ e))
    consistencySeqKey
  match value with
  | none => Eff.fail (.snapshot "persisted consistency key is missing")
  | some raw =>
      if raw.length = 8 then pure (fromBeBytes raw)
      else
        match (Codec.fromUtf8 raw).bind parseU64 with
        | some v => pure v
        | none => Eff.fail (.snapshot "persisted consistency key has unsupported format")

/-- `PersistedKeySequenceNumberWriter::write_sequence_number`, on a thread of its own.  The thread
can panic before its commit and after it. -/
def writeSequenceNumber (sequenceNumber : UInt64) : Sys Unit := do
  let writes := [.put consistencySeqKey (toBeBytes sequenceNumber)]
  Sys.external fun _ => .snapshot "consistency writer thread panicked"
  Sys.external fun e => .snapshot ("begin transaction failed: " ++ e)
  Sys.setAll (fun e => .snapshot ("set consistency key failed: " ++ e)) writes
  Sys.external fun e => .snapshot ("build consistency write runtime failed: " ++ e)
  Sys.external fun e => .snapshot ("commit consistency key failed: " ++ e)
  Eff.modify fun w => w.withTree (replay w.tree writes)
  Sys.external fun _ => .snapshot "consistency writer thread panicked"

/-- The sequence number in a manifest: eight bytes after the version and the timestamp. -/
def parseSequenceFromCheckpointManifest (checkpointDir : String) : Sys (Option UInt64) := do
  let manifest ← Eff.gets fun w => w.dirs[checkpointDir]?.bind Dir.manifest
  match manifest with
  | none => pure none
  | some data => do
      Sys.external fun e => .snapshot ("read checkpoint manifest failed: " ++ e)
      if data.length < 20 then pure none
      else pure (some (fromBeBytes ((data.drop 12).take 8)))

/-- Write the sequence number under its key and into the manifest. -/
def writeSequenceNumberDual (checkpointDir : String) (sequenceNumber : UInt64) : Sys Unit := do
  writeSequenceNumber sequenceNumber
  Sys.createDirAll (fun e => .snapshot ("create checkpoint dir failed: " ++ e)) checkpointDir
  let timestamp ← Sys.nowSecs
  let manifest := toBeBytes32 1 ++ toBeBytes timestamp ++ toBeBytes sequenceNumber
  match ← Eff.attempt (Sys.external fun e =>
    .snapshot ("write checkpoint manifest failed: " ++ e)) with
  | .ok _ => Sys.updateDir checkpointDir fun d => { d with manifest := some manifest }
  | .error e => do
      Sys.cutManifest checkpointDir manifest
      Eff.fail e

/-- The number from the checkpoint, else from the key, else from the manifest. -/
def resolveSequenceNumber (fromCheckpoint : Option UInt64) (checkpointDir : String) :
    Sys UInt64 := do
  match fromCheckpoint with
  | some seq => pure seq
  | none => do
      match ← Eff.attempt readSequenceNumber with
      | .ok seq => pure seq
      | .error _ => do
          match ← parseSequenceFromCheckpointManifest checkpointDir with
          | some seq => pure seq
          | none => Eff.fail (.snapshot "sequence number unavailable from all sources")

/-! ## Checkpoint directories -/

namespace CheckpointMetadata

/-- Metadata stamped with the current second. -/
def new (appliedIndex term sequenceNumber : UInt64) (checkpointDir : String) :
    Sys CheckpointMetadata := do
  let timestamp ← Sys.nowSecs
  pure ⟨appliedIndex, term, sequenceNumber, timestamp, 0, checkpointDir, 0⟩

def withCompressedSize (m : CheckpointMetadata) (size : UInt64) : CheckpointMetadata :=
  { m with compressedSize := size }

def dirName (m : CheckpointMetadata) : String := "checkpoint_" ++ toString m.timestamp

/-- The directory that the metadata names. -/
def path (m : CheckpointMetadata) : String := Sys.joinPath m.checkpointDir m.dirName

end CheckpointMetadata

namespace CheckpointBuilder

/-- Make a checkpoint of the tree under the base directory. -/
def create (checkpointBaseDir : String) (appliedIndex term : UInt64) :
    Sys CheckpointMetadata := do
  Sys.createDirAll .io checkpointBaseDir
  let first ← CheckpointMetadata.new appliedIndex term 0 checkpointBaseDir
  let checkpointPath := first.path
  Sys.createDirAll .io checkpointPath
  let sequenceNumber ← Sys.createCheckpoint checkpointPath
  let seq ← resolveSequenceNumber (some sequenceNumber) checkpointPath
  writeSequenceNumberDual checkpointPath seq
  let metadata ← CheckpointMetadata.new appliedIndex term seq checkpointBaseDir
  pure (metadata.withCompressedSize 0)

/-- The size of a checkpoint directory. -/
def getCheckpointSize (ar : Archiver) (metadata : CheckpointMetadata) : Sys UInt64 := do
  Sys.external .io
  match ← Eff.gets fun w => w.dirs[metadata.path]? with
  | some d => pure (ar.dirSize d)
  | none => Eff.fail (.io "No such file or directory (os error 2)")

end CheckpointBuilder

/-! ## Archives -/

/-- `SnapshotCompressor::compress` at the default level, to a file.  Returns its size. -/
def compress (ar : Archiver) (metadata : CheckpointMetadata) (outputPath : String) :
    Sys UInt64 := do
  match ← Eff.gets fun w => w.dirs[metadata.path]? with
  | none => Eff.fail (.snapshot ("checkpoint directory does not exist: " ++ metadata.path))
  | some d => do
      Sys.external .io
      let bytes := ar.zstdEncode 10 (ar.tarPack d)
      Sys.writeFile (fun e => .snapshot ("tar+zstd compression failed: " ++ e)) outputPath bytes
      pure (UInt64.ofNat bytes.length)

/-- One bit of CRC-32/ISO-HDLC. -/
def crc32Bit (c : UInt32) : UInt32 :=
  if c &&& 1 = 1 then (c >>> 1) ^^^ 0xEDB88320 else c >>> 1

/-- CRC-32/ISO-HDLC. -/
def crc32 (data : Bytes) : UInt32 :=
  data.foldl (fun c b => crc32Bit^[8] (c ^^^ b.toUInt32)) 0xFFFFFFFF ^^^ 0xFFFFFFFF

example : crc32 (Codec.utf8 "123456789") = 0xCBF43926 := by decide +kernel

/-- `SnapshotRestorer::verify_crc32`. -/
def verifyCrc32 (data : Bytes) (expectedCrc32 : UInt32) : Bool := crc32 data = expectedCrc32

/-- `SnapshotRestorer::restore`: unpack an archive into a directory. -/
def restore (ar : Archiver) (compressedData : Bytes) (targetDir : String)
    (expectedMeta : CheckpointMetadata) : Sys CheckpointMetadata := do
  if expectedMeta.crc32 ≠ 0 ∧ verifyCrc32 compressedData expectedMeta.crc32 = false then
    Eff.fail (.snapshot "CRC32 mismatch while restoring snapshot")
  else do
    Sys.createDirAll .io targetDir
    Sys.external fun e => .snapshot ("tar+zstd restore failed: " ++ e)
    match ar.zstdDecode compressedData with
    | .error e => Eff.fail (.snapshot ("tar+zstd restore failed: " ++ e.text))
    | .ok tar =>
        match ar.tarUnpack tar with
        | .error e => Eff.fail (.snapshot ("tar+zstd restore failed: " ++ e))
        | .ok d => do
            Sys.updateDir (Sys.joinPath targetDir "checkpoint") fun _ => d
            pure { expectedMeta with checkpointDir := targetDir }

end OpenraftSurrealkv
