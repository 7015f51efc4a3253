import OpenraftSurrealkv.Effects.Log

/-!
# What building a snapshot does

A build reads the applied position, the snapshot state and the request log.  It
writes one file, the archive of a checkpoint or the file of a delta, and on
success it replaces the snapshot state.  Everything else in memory stays.

* `filesWithin_buildSnapshotWithDelta` says which files a build can touch.
* `buildSnapshotWithDelta_ok` says what a successful build made.
* `buildSnapshotAuto_ok` and `buildSnapshotAuto_error` do so for the store.
-/

namespace OpenraftSurrealkv

open Postcard

/-! ## What checkpoints and builds do to the world -/

section

variable {R : World → World → Prop} [IsPreorder World R]

theorem within_new (h : Sys.Stored R) (appliedIndex term seq : UInt64) (dir : String) :
    Eff.Within R (CheckpointMetadata.new appliedIndex term seq dir) :=
  .bind (Sys.within_nowSecs h) fun _ => .pure _

/-- The sequence number goes under its key, and nowhere else. -/
theorem within_writeSequenceNumber (h : Sys.Stored R)
    (hkey : ∀ w bytes, R w (w.withTree (w.tree.insert consistencySeqKey bytes)))
    (seq : UInt64) : Eff.Within R (writeSequenceNumber seq) :=
  .bind (Sys.within_external h _) fun _ => .bind (Sys.within_external h _) fun _ =>
    .bind (Sys.within_setAll h _ _) fun _ => .bind (Sys.within_external h _) fun _ =>
      .bind (Sys.within_external h _) fun _ => .bind (.modify fun w => hkey w _) fun _ =>
        Sys.within_external h _

theorem within_writeSequenceNumberDual (h : Sys.Frame R)
    (hseq : ∀ seq, Eff.Within R (writeSequenceNumber seq)) (dir : String) (seq : UInt64) :
    Eff.Within R (writeSequenceNumberDual dir seq) :=
  .bind (hseq seq) fun _ =>
    .bind (Sys.within_createDirAll h _ dir) fun _ =>
      .bind (Sys.within_nowSecs h.stored) fun _ =>
        .bind (.attempt (Sys.within_external h.stored _)) fun outcome => by
          cases outcome with
          | ok _ => exact Sys.within_updateDir h dir _
          | error e => exact .bind (Sys.within_cutManifest h dir _) fun _ => .fail _

/-- A checkpoint writes a directory and the sequence number. -/
theorem within_create (h : Sys.Frame R) (hseq : ∀ seq, Eff.Within R (writeSequenceNumber seq))
    (base : String) (appliedIndex term : UInt64) :
    Eff.Within R (CheckpointBuilder.create base appliedIndex term) :=
  .bind (Sys.within_createDirAll h _ base) fun _ =>
    .bind (within_new h.stored _ _ _ base) fun first =>
      .bind (Sys.within_createDirAll h _ first.path) fun _ =>
        .bind (Sys.within_createCheckpoint h first.path) fun _ =>
          .bind (.pure _) fun seq =>
            .bind (within_writeSequenceNumberDual h hseq first.path seq) fun _ =>
              .bind (within_new h.stored _ _ _ base) fun _ => .pure _

theorem Sys.OfFiles.writeSequenceNumber (h : Sys.OfFiles R) (seq : UInt64) :
    Eff.Within R (writeSequenceNumber seq) :=
  within_writeSequenceNumber h.stored (fun w _ => h.tree w _) seq

theorem within_compress (h : Sys.Stored R) (ar : Archiver) (metadata : CheckpointMetadata)
    {out : String} (hout : ∀ wrap bytes, Eff.Within R (Sys.writeFile wrap out bytes)) :
    Eff.Within R (compress ar metadata out) := by
  refine .bind (.gets _) fun dir => ?_
  cases dir with
  | none => exact .fail _
  | some d =>
      exact .bind (Sys.within_external h _) fun _ => .bind (hout _ _) fun _ => .pure _

/-- A build writes the sequence number, a checkpoint, and an archive or the file of a delta. -/
theorem within_buildSnapshotWithDelta (h : Sys.Frame R)
    (hseq : ∀ seq, Eff.Within R (writeSequenceNumber seq))
    (harchive : ∀ ts wrap bytes, Eff.Within R (Sys.writeFile wrap (archivePath ts) bytes))
    {ar : Archiver} {appliedIndex : UInt64} {es : List DeltaEntry}
    (hdelta : ∀ ts wrap data, DeltaSnapshotCodec.encodeEntries ar es = .ok data →
      Eff.Within R (Sys.writeFile wrap
        (DeltaSnapshotCodec.deltaPath RaftSnapshotBuilder.deltaDir ts (toString appliedIndex))
        data))
    (cfg : SnapshotBuildConfig) (st : SnapshotMetaState) :
    Eff.Within R (RaftSnapshotBuilder.buildSnapshotWithDelta ar cfg appliedIndex st es) := by
  refine .bind (Sys.within_nowSecs h.stored) fun now =>
    .bind_ofExcept fun data hdata => .ite ?_ ?_
  · refine .bind ?_ fun path => .bind (.ofExcept _) fun _ => .pure _
    exact .bind (Sys.within_createDirAll h _ _) fun _ =>
      .bind (Sys.within_nowSecs h.stored) fun ts =>
        .bind (hdelta ts _ data hdata) fun _ => .pure _
  · exact .bind (within_create h hseq _ _ _) fun metadata =>
      .bind (Sys.within_nowSecs h.stored) fun ts =>
        .bind (within_compress h.stored ar metadata (harchive ts)) fun _ =>
          .bind (Sys.within_readFile h.stored _) fun _ => .bind (.ofExcept _) fun _ => .pure _

end

/-- The files of a build: an archive, or the file of a delta of the entries `es`. -/
def BuildWrites (ar : Archiver) (appliedIndex : UInt64) (es : List DeltaEntry) (path : String)
    (content : Bytes) : Prop :=
  (∃ ts, path = archivePath ts) ∨
    ∃ ts,
      path = DeltaSnapshotCodec.deltaPath RaftSnapshotBuilder.deltaDir ts (toString appliedIndex) ∧
        DeltaSnapshotCodec.encodeEntries ar es = .ok content

theorem filesWithin_buildSnapshotWithDelta (ar : Archiver) (cfg : SnapshotBuildConfig)
    (appliedIndex : UInt64) (st : SnapshotMetaState) (es : List DeltaEntry) :
    Eff.Within (Sys.FilesWithin (BuildWrites ar appliedIndex es))
      (RaftSnapshotBuilder.buildSnapshotWithDelta ar cfg appliedIndex st es) :=
  have h := Sys.ofFiles_filesWithin (BuildWrites ar appliedIndex es)
  within_buildSnapshotWithDelta h.toFrame h.writeSequenceNumber
    (fun ts wrap _ => Sys.filesWithin_writeFile wrap (.inl ⟨ts, rfl⟩))
    (fun ts wrap _ hdata => Sys.filesWithin_writeFile wrap (.inr ⟨ts, rfl, hdata⟩)) cfg st

/-! ## What a build made -/

/-- The bytes are an envelope around the archive of a directory. -/
def HoldsArchive (ar : Archiver) (bytes : Bytes) (metadata : DeltaMetadata) : Prop :=
  ∃ m dir, metadata.format = .full m ∧
    SnapshotEnvelope.codec.fromBytes bytes = .ok ⟨metadata, ar.zstdEncode 10 (ar.tarPack dir)⟩

/-- The entries `es`, built on the checkpoint of `st`, and the file that holds them too. -/
structure IsDelta (ar : Archiver) (appliedIndex : UInt64) (st : SnapshotMetaState)
    (es : List DeltaEntry) (files : OrdMap String Bytes) (metadata : DeltaMetadata) : Prop where
  ne_nil : es ≠ []
  base : ∃ c count, st.lastCheckpoint = some c ∧ metadata.format = .delta c.checkpointIndex count
  file : ∃ ts data,
    metadata.filePath = some
      (DeltaSnapshotCodec.deltaPath RaftSnapshotBuilder.deltaDir ts (toString appliedIndex)) ∧
    DeltaSnapshotCodec.encodeEntries ar es = .ok data ∧
    files[DeltaSnapshotCodec.deltaPath RaftSnapshotBuilder.deltaDir ts (toString appliedIndex)]? =
      some data

/-- A payload that a build with the entries `es` made. -/
def IsPayload (ar : Archiver) (appliedIndex : UInt64) (st : SnapshotMetaState)
    (es : List DeltaEntry) (files : OrdMap String Bytes) (bytes : Bytes) :
    DecodedSnapshotPayload → Prop
  | .full metadata => HoldsArchive ar bytes metadata
  | .delta metadata entries => entries = es ∧ IsDelta ar appliedIndex st es files metadata

theorem compress_ok {ar : Archiver} {metadata : CheckpointMetadata} {out : String}
    {w w' : World} {size : UInt64} (h : compress ar metadata out w = (.ok size, w')) :
    ∃ dir, w'.files[out]? = some (ar.zstdEncode 10 (ar.tarPack dir)) := by
  obtain ⟨dir, w₁, hget, h₁⟩ := Eff.bind_eq_ok_iff.mp h
  cases dir with
  | none => cases h₁
  | some d =>
      obtain ⟨_, w₂, _, h₂⟩ := Eff.bind_eq_ok_iff.mp h₁
      obtain ⟨_, w₃, hwrite, h₃⟩ := Eff.bind_eq_ok_iff.mp h₂
      cases h₃
      refine ⟨d, ?_⟩
      rw [Sys.writeFile_ok hwrite, OrdMap.get_insert, if_pos rfl]

/-- A full snapshot decodes to its archive. -/
theorem buildSnapshot_ok {ar : Archiver} {cfg : SnapshotBuildConfig} {appliedIndex : UInt64}
    {w w' : World} {snap : Snapshot}
    (h : RaftSnapshotBuilder.buildSnapshot ar cfg appliedIndex w = (.ok snap, w')) :
    (∃ id, snap.snapshotMeta = cfg.buildSnapshotMeta appliedIndex id) ∧
      ∃ metadata, decodeSnapshotPayload ar snap.snapshot = .ok (some (.full metadata)) ∧
        HoldsArchive ar snap.snapshot metadata := by
  obtain ⟨metadata, w₁, _, h₁⟩ := Eff.bind_eq_ok_iff.mp h
  obtain ⟨ts, w₂, _, h₂⟩ := Eff.bind_eq_ok_iff.mp h₁
  obtain ⟨size, w₃, hcompress, h₃⟩ := Eff.bind_eq_ok_iff.mp h₂
  obtain ⟨bytes, w₄, hread, h₄⟩ := Eff.bind_eq_ok_iff.mp h₃
  obtain ⟨data, w₅, hencode, h₅⟩ := Eff.bind_eq_ok_iff.mp h₄
  obtain ⟨dir, hdir⟩ := compress_ok hcompress
  obtain ⟨hfile, _⟩ := Sys.readFile_ok hread
  obtain rfl : bytes = ar.zstdEncode 10 (ar.tarPack dir) :=
    Option.some.inj (hfile.symm.trans hdir)
  have henv := liftPostcard_eq_ok_iff.mp (Prod.mk.inj hencode).1
  cases h₅
  refine ⟨⟨_, rfl⟩, _, decodeSnapshotPayload_full rfl henv, _, dir, rfl, ?_⟩
  exact Codec.fromBytes_of_toStdvec henv

theorem persistToTempFile_ok {baseDir suffix path : String} {data : Bytes} {w w' : World}
    (h : DeltaSnapshotCodec.persistToTempFile baseDir data suffix w = (.ok path, w')) :
    ∃ ts, path = DeltaSnapshotCodec.deltaPath baseDir ts suffix ∧
      w'.files[path]? = some data := by
  obtain ⟨_, w₁, _, h₁⟩ := Eff.bind_eq_ok_iff.mp h
  obtain ⟨ts, w₂, _, h₂⟩ := Eff.bind_eq_ok_iff.mp h₁
  obtain ⟨_, w₃, hwrite, h₃⟩ := Eff.bind_eq_ok_iff.mp h₂
  cases h₃
  refine ⟨ts, rfl, ?_⟩
  rw [Sys.writeFile_ok hwrite, OrdMap.get_insert, if_pos rfl]

/-- A successful build decodes to a full snapshot or to a delta of its entries. -/
theorem buildSnapshotWithDelta_ok {ar : Archiver} {cfg : SnapshotBuildConfig}
    {appliedIndex : UInt64} {st : SnapshotMetaState} {es : List DeltaEntry} {w w' : World}
    {snap : Snapshot}
    (h : RaftSnapshotBuilder.buildSnapshotWithDelta ar cfg appliedIndex st es w =
      (.ok snap, w')) :
    (∃ id, snap.snapshotMeta = cfg.buildSnapshotMeta appliedIndex id) ∧
      ∃ d, decodeSnapshotPayload ar snap.snapshot = .ok (some d) ∧
        IsPayload ar appliedIndex st es w'.files snap.snapshot d := by
  obtain ⟨now, w₁, _, h₁⟩ := Eff.bind_eq_ok_iff.mp h
  obtain ⟨data, w₂, hencode, h₂⟩ := Eff.bind_eq_ok_iff.mp h₁
  have hdata := (Prod.mk.inj hencode).1
  split at h₂
  next hdelta =>
    obtain ⟨path, w₃, hpersist, h₃⟩ := Eff.bind_eq_ok_iff.mp h₂
    obtain ⟨bytes, w₄, henvelope, h₄⟩ := Eff.bind_eq_ok_iff.mp h₃
    obtain ⟨ts, rfl, hfile⟩ := persistToTempFile_ok hpersist
    have henv := liftPostcard_eq_ok_iff.mp (Prod.mk.inj henvelope).1
    obtain rfl := (Prod.mk.inj henvelope).2
    cases h₄
    obtain ⟨⟨c, hc⟩, hne⟩ := shouldBuildDelta_true hdelta
    refine ⟨⟨_, rfl⟩, _, decodeSnapshotPayload_delta rfl hdata henv, rfl, ?_, ?_, ?_⟩
    · exact fun hnil => hne (List.length_eq_zero_iff.mpr hnil)
    · refine ⟨c, UInt64.ofNat es.length, hc, ?_⟩
      simp only [DeltaMetadata.withFilePath, DeltaMetadata.new, hc, Option.map_some,
        Option.getD_some]
    · exact ⟨ts, data, rfl, hdata, hfile⟩
  next =>
    obtain ⟨hid, metadata, hdecode, harchive⟩ := buildSnapshot_ok h₂
    exact ⟨hid, _, hdecode, harchive⟩

/-! ## Builds of the store -/

namespace SurrealStorage

/-- What a build leaves alone in memory. -/
structure Data where
  appliedState : AppliedState
  stateMachine : OrdMap String Bytes
  raftLogs : OrdMap UInt64 LogEntry
  raftEntries : OrdMap UInt64 Entry
  lastPurgedLogId : Option LogId
  lastMembership : StoredMembership
  currentSnapshot : Option Snapshot

def data (n : SurrealStorage) : Data :=
  ⟨n.metadata.appliedState, n.stateMachine, n.raftLogs, n.raftEntries, n.lastPurgedLogId,
    n.lastMembership, n.currentSnapshot⟩

abbrev snapshotState (n : SurrealStorage) : SnapshotMetaState := n.metadata.snapshotState

abbrev files (n : SurrealStorage) : OrdMap String Bytes := n.metadata.files

/-- The entries that the next delta would have. -/
def deltaEntries (n : SurrealStorage) : List DeltaEntry :=
  if deltaStart n.snapshotState ≤ n.metadata.appliedState.lastAppliedIndex then
    ((OrdMap.range n.raftLogs (deltaStart n.snapshotState)
      n.metadata.appliedState.lastAppliedIndex).map Prod.snd).map toDelta
  else []

theorem keeps_data_onMetadata {α : Type} {x : MetaM α}
    (h : Eff.Keeps MetadataManager.appliedState x) : Eff.Keeps data (onMetadata x) := by
  refine Eff.Within.zoom h fun n m hm => ?_
  show data { n with metadata := m } = data n
  rw [data, show m.appliedState = n.metadata.appliedState from hm]
  rfl

theorem keeps_metadata_onMetadata {α γ : Type} {g : MetadataManager → γ} {x : MetaM α}
    (h : Eff.Keeps g x) : Eff.Keeps (fun n : SurrealStorage => g n.metadata) (onMetadata x) :=
  Eff.Within.zoom h fun _ _ hm => hm

section

variable {γ : Type} {g : SurrealStorage → γ}

theorem keeps_spawnIfNeeded (ex : MergeExecutor)
    (hworld : ∀ n clock, g { n with metadata := n.metadata.withWorld { n.world with clock } } = g n)
    (hspawned : ∀ n ts, g { n with spawned := ts } = g n) :
    Eff.Keeps g (spawnIfNeeded ex) := by
  refine .bind (fun n => hworld n n.world.clock.tail) fun trigger => ?_
  cases trigger with
  | none => exact .pure _
  | some t => exact .bind (.modify fun n => hspawned n _) fun _ => .pure _

theorem keeps_triggerMerge
    (hworld : ∀ n clock, g { n with metadata := n.metadata.withWorld { n.world with clock } } = g n)
    (hspawned : ∀ n ts, g { n with spawned := ts } = g n) : Eff.Keeps g triggerMerge := by
  refine .bind (.gets _) fun executor => ?_
  cases executor with
  | none => exact .pure _
  | some ex =>
      exact .bind (Eff.Within.attempt (keeps_spawnIfNeeded ex hworld hspawned)) fun _ => .pure _

end

theorem triggerMerge_ok (n : SurrealStorage) : (triggerMerge n).1 = .ok () := by
  cases h : n.mergeExecutor with
  | none =>
      rw [triggerMerge, Eff.bind_of_ok (Eff.gets_run _ n), h]
      rfl
  | some ex =>
      rw [triggerMerge, Eff.bind_of_ok (Eff.gets_run _ n), h]
      rfl

theorem saveBuilt_ok {snapshot : Snapshot} {st : SnapshotMetaState} {d : DecodedSnapshotPayload}
    {n n' : SurrealStorage} {u : Unit} (h : saveBuilt snapshot st (some d) n = (.ok u, n')) :
    n'.snapshotState = recordSnapshot snapshot st d := by
  have hsave : MetadataManager.snapshotRecord.save (recordSnapshot snapshot st d) n.metadata =
      (.ok u, n'.metadata) := by
    rw [← (Prod.mk.inj h).1, ← (Prod.mk.inj h).2]
    rfl
  exact Record.save_ok hsave

theorem saveBuilt_error {snapshot : Snapshot} {st : SnapshotMetaState}
    {d : Option DecodedSnapshotPayload} {n n' : SurrealStorage} {e : RaftError}
    (h : saveBuilt snapshot st d n = (.error e, n')) : n'.snapshotState = n.snapshotState := by
  cases d with
  | none => cases h
  | some d =>
      have hsave : MetadataManager.snapshotRecord.save (recordSnapshot snapshot st d) n.metadata =
          (.error e, n'.metadata) := by
        rw [← (Prod.mk.inj h).1, ← (Prod.mk.inj h).2]
        rfl
      obtain ⟨w, hw⟩ := Record.save_error hsave
      rw [snapshotState, hw]
      rfl

theorem keeps_data_saveBuilt (snapshot : Snapshot) (st : SnapshotMetaState) :
    ∀ d, Eff.Keeps data (saveBuilt snapshot st d)
  | none => .pure _
  | some _ => keeps_data_onMetadata
      (Record.keeps_save _ (fun _ => MetadataManager.keeps_sys (fun _ _ => rfl) _) fun _ => rfl)

theorem keeps_ofFiles_saveBuilt {γ : Type} {g : World → γ} (h : Sys.OfFiles (Eff.Same g))
    (snapshot : Snapshot) (st : SnapshotMetaState) :
    ∀ d, Eff.Keeps (fun n : SurrealStorage => g n.world) (saveBuilt snapshot st d)
  | none => .pure _
  | some _ => keeps_metadata_onMetadata
      (Record.keeps_save _
        (fun _ => MetadataManager.keeps_world_sys (h.transaction _ _ _ _)) fun _ => rfl)

/-- The configuration that the store builds with. -/
def buildConfig (currentTerm : UInt64) : SnapshotBuildConfig := ⟨1, "127.0.0.1:50051", currentTerm⟩

/-- The part of a build after the snapshot was made. -/
def publish (ar : Archiver) (st : SnapshotMetaState) (snapshot : Snapshot) : Op Snapshot := do
  let decoded ← Eff.ofExcept (decodeSnapshotPayload ar snapshot.snapshot)
  saveBuilt snapshot st decoded
  triggerMerge
  pure snapshot

theorem getAppliedState_run (n : SurrealStorage) :
    onMetadata MetadataManager.getAppliedState n = (.ok n.metadata.appliedState, n) := rfl

theorem getSnapshotState_run (n : SurrealStorage) :
    onMetadata MetadataManager.getSnapshotState n = (.ok n.snapshotState, n) := rfl

theorem logsSince_run (start stop : UInt64) (n : SurrealStorage) :
    logsSince start stop n =
      (.ok (if start ≤ stop then (OrdMap.range n.raftLogs start stop).map Prod.snd else []),
        n) := by
  unfold logsSince
  split
  next => rfl
  next => rfl

theorem buildSnapshotAuto_run (ar : Archiver) (term : UInt64) (n : SurrealStorage) :
    buildSnapshotAuto ar term n =
      (sys (RaftSnapshotBuilder.buildSnapshotWithDelta ar (buildConfig term)
        n.metadata.appliedState.lastAppliedIndex n.snapshotState n.deltaEntries) >>=
          publish ar n.snapshotState) n := by
  have hentries : n.deltaEntries =
      (if deltaStart n.snapshotState ≤ n.metadata.appliedState.lastAppliedIndex then
        (OrdMap.range n.raftLogs (deltaStart n.snapshotState)
          n.metadata.appliedState.lastAppliedIndex).map Prod.snd else []).map toDelta := by
    unfold deltaEntries
    split
    next => rfl
    next => rfl
  rw [hentries, buildSnapshotAuto,
    Eff.bind_of_ok (getAppliedState_run n), Eff.bind_of_ok (getSnapshotState_run n),
    Eff.bind_of_ok (logsSince_run _ _ n)]
  rfl

theorem keeps_data_publish (ar : Archiver) (st : SnapshotMetaState) (snapshot : Snapshot) :
    Eff.Keeps data (publish ar st snapshot) :=
  .bind (.ofExcept _) fun _ => .bind (keeps_data_saveBuilt _ _ _) fun _ =>
    .bind (keeps_triggerMerge (fun _ _ => rfl) fun _ _ => rfl) fun _ => .pure _

theorem keeps_ofFiles_publish {γ : Type} {g : World → γ} (h : Sys.OfFiles (Eff.Same g))
    (ar : Archiver) (st : SnapshotMetaState) (snapshot : Snapshot) :
    Eff.Keeps (fun n : SurrealStorage => g n.world) (publish ar st snapshot) := by
  refine .bind (.ofExcept _) fun _ => .bind (keeps_ofFiles_saveBuilt h _ _ _) fun _ =>
    .bind (keeps_triggerMerge (fun n clock => ?_) fun _ _ => rfl) fun _ => .pure _
  exact h.stored n.world clock n.world.sequence n.world.uuids n.world.faults n.world.cuts

theorem keeps_data_buildSnapshotAuto (ar : Archiver) (term : UInt64) :
    Eff.Keeps data (buildSnapshotAuto ar term) := by
  intro n
  rw [buildSnapshotAuto_run]
  exact Eff.Within.bind (keeps_data_onMetadata (MetadataManager.keeps_sys (fun _ _ => rfl) _))
    (keeps_data_publish ar _) n

/-- Files that are there change only as `P` allows, unless one was cut off. -/
def FilesWithin (P : String → Bytes → Prop) (n n' : SurrealStorage) : Prop :=
  Sys.FilesWithin P n.world n'.world

instance (P : String → Bytes → Prop) : IsPreorder SurrealStorage (FilesWithin P) where
  refl n := refl_of (Sys.FilesWithin P) n.world
  trans _ _ _ h₁ h₂ := trans_of (Sys.FilesWithin P) h₁ h₂

theorem filesWithin_sys {α : Type} {P : String → Bytes → Prop} {x : Sys α}
    (h : Eff.Within (Sys.FilesWithin P) x) : Eff.Within (FilesWithin P) (sys x) :=
  fun n => h n.world

/-- The files that a build changes. -/
theorem filesWithin_buildSnapshotAuto (ar : Archiver) (term : UInt64) (n : SurrealStorage) :
    FilesWithin (BuildWrites ar n.metadata.appliedState.lastAppliedIndex n.deltaEntries) n
      (buildSnapshotAuto ar term n).2 := by
  rw [buildSnapshotAuto_run]
  refine Eff.Within.bind (filesWithin_sys (filesWithin_buildSnapshotWithDelta ar _ _ _ _))
    (fun snapshot => ?_) n
  exact (keeps_ofFiles_publish Sys.ofFiles_fileState ar _ snapshot).imp
    fun n n' hsame => Sys.filesWithin_of_fileState _ hsame

theorem publish_ok {ar : Archiver} {st : SnapshotMetaState} {snapshot snap : Snapshot}
    {d : DecodedSnapshotPayload} {n n' : SurrealStorage}
    (hd : decodeSnapshotPayload ar snapshot.snapshot = .ok (some d))
    (h : publish ar st snapshot n = (.ok snap, n')) :
    snap = snapshot ∧ n'.snapshotState = recordSnapshot snapshot st d := by
  obtain ⟨decoded, n₁, hdecode, h₁⟩ := Eff.bind_eq_ok_iff.mp h
  rw [Eff.ofExcept_run, hd] at hdecode
  cases hdecode
  obtain ⟨_, n₂, hsave, h₂⟩ := Eff.bind_eq_ok_iff.mp h₁
  obtain ⟨_, n₃, hmerge, h₃⟩ := Eff.bind_eq_ok_iff.mp h₂
  cases h₃
  have hkeep : Eff.Keeps snapshotState triggerMerge :=
    keeps_triggerMerge (fun _ _ => rfl) fun _ _ => rfl
  have hsame := hkeep n₂
  rw [hmerge] at hsame
  exact ⟨rfl, hsame.trans (saveBuilt_ok hsave)⟩

theorem publish_error {ar : Archiver} {st : SnapshotMetaState} {snapshot : Snapshot}
    {n n' : SurrealStorage} {e : RaftError} (h : publish ar st snapshot n = (.error e, n')) :
    n'.snapshotState = n.snapshotState := by
  rcases Eff.bind_eq_error_iff.mp h with hdecode | ⟨decoded, n₁, hdecode, h₁⟩
  · rw [← (Prod.mk.inj hdecode).2]
  · obtain rfl := (Prod.mk.inj hdecode).2
    rcases Eff.bind_eq_error_iff.mp h₁ with hsave | ⟨_, n₂, _, h₂⟩
    · exact saveBuilt_error hsave
    · have hok := triggerMerge_ok n₂
      rcases Eff.bind_eq_error_iff.mp h₂ with hmerge | ⟨_, n₃, _, h₃⟩
      · rw [hmerge] at hok
        cases hok
      · cases h₃

theorem sys_eq {α : Type} {x : Sys α} {n n' : SurrealStorage} {r : Except RaftError α}
    (h : sys x n = (r, n')) :
    x n.world = (r, n'.world) ∧ n' = { n with metadata := n.metadata.withWorld n'.world } := by
  obtain ⟨hr, rfl⟩ := Prod.mk.inj h
  exact ⟨Prod.ext hr rfl, rfl⟩

/-- A successful build of the store made a full snapshot or a delta, and recorded it. -/
theorem buildSnapshotAuto_ok {ar : Archiver} {term : UInt64} {n n' : SurrealStorage}
    {snap : Snapshot} (h : buildSnapshotAuto ar term n = (.ok snap, n')) :
    snap.snapshotMeta.lastLogId = some ⟨term, n.metadata.appliedState.lastAppliedIndex⟩ ∧
      ∃ d, decodeSnapshotPayload ar snap.snapshot = .ok (some d) ∧
        IsPayload ar n.metadata.appliedState.lastAppliedIndex n.snapshotState n.deltaEntries
          n'.files snap.snapshot d ∧
        n'.snapshotState = recordSnapshot snap n.snapshotState d := by
  rw [buildSnapshotAuto_run] at h
  obtain ⟨snapshot, n₁, hbuild, hpublish⟩ := Eff.bind_eq_ok_iff.mp h
  obtain ⟨hrun, _⟩ := sys_eq hbuild
  obtain ⟨⟨id, hmeta⟩, d, hdecode, hpayload⟩ := buildSnapshotWithDelta_ok hrun
  obtain ⟨rfl, hstate⟩ := publish_ok hdecode hpublish
  have hfiles := (keeps_ofFiles_publish Sys.ofFiles_files ar n.snapshotState snap).of_run hpublish
  refine ⟨?_, d, hdecode, ?_, hstate⟩
  · rw [hmeta]
    rfl
  · rw [show n'.files = n₁.world.files from hfiles]
    exact hpayload

/-- A failed build of the store keeps the snapshot state. -/
theorem buildSnapshotAuto_error {ar : Archiver} {term : UInt64} {n n' : SurrealStorage}
    {e : RaftError} (h : buildSnapshotAuto ar term n = (.error e, n')) :
    n'.snapshotState = n.snapshotState := by
  rw [buildSnapshotAuto_run] at h
  rcases Eff.bind_eq_error_iff.mp h with hbuild | ⟨snapshot, n₁, hbuild, hpublish⟩
  · rw [(sys_eq hbuild).2]
    rfl
  · have hsame := publish_error hpublish
    rw [hsame, (sys_eq hbuild).2]
    rfl

/-- A snapshot of the state machine is one of the store under the current membership, and it
becomes the current snapshot. -/
theorem buildSnapshot_eq_ok {ar : Archiver} {n n' : SurrealStorage} {snap : Snapshot}
    (h : buildSnapshot ar n = (.ok snap, n')) :
    ∃ snap₀ n₁,
      buildSnapshotAuto ar n.metadata.appliedState.lastAppliedTerm n = (.ok snap₀, n₁) ∧
        snap.snapshotMeta.lastLogId = snap₀.snapshotMeta.lastLogId ∧
        snap.snapshot = snap₀.snapshot ∧ n' = { n₁ with currentSnapshot := some snap } := by
  obtain ⟨applied, n₀, happlied, h₁⟩ := Eff.bind_eq_ok_iff.mp h
  cases happlied
  obtain ⟨snap₀, n₁, hbuild, h₂⟩ := Eff.bind_eq_ok_iff.mp h₁
  obtain ⟨membership, n₂, hmembership, h₃⟩ := Eff.bind_eq_ok_iff.mp h₂
  cases hmembership
  obtain ⟨_, n₃, hmodify, h₄⟩ := Eff.bind_eq_ok_iff.mp h₃
  cases hmodify
  cases h₄
  exact ⟨snap₀, n₁, asIo_ok hbuild, rfl, rfl, rfl⟩

theorem buildSnapshot_eq_error {ar : Archiver} {n n' : SurrealStorage} {e : RaftError}
    (h : buildSnapshot ar n = (.error e, n')) :
    ∃ e', buildSnapshotAuto ar n.metadata.appliedState.lastAppliedTerm n = (.error e', n') := by
  rcases Eff.bind_eq_error_iff.mp h with happlied | ⟨applied, n₀, happlied, h₁⟩
  · cases happlied
  · cases happlied
    rcases Eff.bind_eq_error_iff.mp h₁ with hbuild | ⟨snap₀, n₁, _, h₂⟩
    · exact Eff.mapErr_eq_error hbuild
    · cases h₂

/-- Of the snapshot itself only the log id is recorded. -/
theorem recordSnapshot_congr {snap snap' : Snapshot}
    (h : snap.snapshotMeta.lastLogId = snap'.snapshotMeta.lastLogId) (st : SnapshotMetaState)
    (d : DecodedSnapshotPayload) : recordSnapshot snap st d = recordSnapshot snap' st d := by
  cases d with
  | full metadata => simp only [recordSnapshot, h]
  | delta metadata entries => rfl

/-- A published snapshot is full or a delta, at the applied position, and is recorded. -/
theorem buildSnapshot_published {ar : Archiver} {n n' : SurrealStorage} {snap : Snapshot}
    (h : buildSnapshot ar n = (.ok snap, n')) :
    n'.data = { n.data with currentSnapshot := some snap } ∧
      snap.snapshotMeta.lastLogId = some ⟨n.metadata.appliedState.lastAppliedTerm,
        n.metadata.appliedState.lastAppliedIndex⟩ ∧
      ∃ d, decodeSnapshotPayload ar snap.snapshot = .ok (some d) ∧
        IsPayload ar n.metadata.appliedState.lastAppliedIndex n.snapshotState n.deltaEntries
          n'.files snap.snapshot d ∧
        n'.snapshotState = recordSnapshot snap n.snapshotState d := by
  obtain ⟨snap₀, n₁, hauto, hid, hbytes, rfl⟩ := buildSnapshot_eq_ok h
  have hsame := (keeps_data_buildSnapshotAuto ar _).of_run hauto
  obtain ⟨hid₀, d, hdecode, hpayload, hstate⟩ := buildSnapshotAuto_ok hauto
  refine ⟨?_, hid.trans hid₀, d, ?_, ?_, ?_⟩
  · rw [← show n₁.data = n.data from hsame]
    rfl
  · rw [hbytes]
    exact hdecode
  · rw [hbytes]
    exact hpayload
  · rw [recordSnapshot_congr hid]
    exact hstate

/-- A build of the state machine that fails publishes and records nothing. -/
theorem buildSnapshot_failed {ar : Archiver} {n n' : SurrealStorage} {e : RaftError}
    (h : buildSnapshot ar n = (.error e, n')) :
    n'.data = n.data ∧ n'.snapshotState = n.snapshotState := by
  obtain ⟨e', hauto⟩ := buildSnapshot_eq_error h
  have hsame := (keeps_data_buildSnapshotAuto ar _).of_run hauto
  exact ⟨hsame, buildSnapshotAuto_error hauto⟩

/-- Outside the current snapshot a build keeps the data. -/
theorem data_buildSnapshot {ar : Archiver} {n n' : SurrealStorage}
    {r : Except RaftError Snapshot} (h : buildSnapshot ar n = (r, n')) :
    ∃ current, n'.data = { n.data with currentSnapshot := current } := by
  cases r with
  | ok snap => exact ⟨_, (buildSnapshot_published h).1⟩
  | error e => exact ⟨n.currentSnapshot, (buildSnapshot_failed h).1⟩

/-- A full snapshot moves the checkpoint to the applied index and clears the chain. -/
theorem recordSnapshot_full {snap : Snapshot} {id : LogId}
    (h : snap.snapshotMeta.lastLogId = some id) (st : SnapshotMetaState)
    (metadata : DeltaMetadata) :
    (∃ ck, (recordSnapshot snap st (.full metadata)).lastCheckpoint = some ck ∧
      ck.checkpointIndex = id.index) ∧
      (recordSnapshot snap st (.full metadata)).deltaChain = [] ∧
      (recordSnapshot snap st (.full metadata)).totalDeltaBytes = 0 := by
  refine ⟨⟨_, rfl, ?_⟩, rfl, rfl⟩
  show (snap.snapshotMeta.lastLogId.map LogId.index).getD 0 = id.index
  rw [h]
  rfl

/-- The checkpoint of a full snapshot is the log id of the snapshot. -/
theorem recordSnapshot_full_logId {snap : Snapshot} {id : LogId}
    (h : snap.snapshotMeta.lastLogId = some id) (st : SnapshotMetaState)
    (metadata : DeltaMetadata) {c : PersistedCheckpointMetadata}
    (hc : (recordSnapshot snap st (.full metadata)).lastCheckpoint = some c) :
    c.checkpointIndex = id.index ∧ c.checkpointTerm = id.term := by
  simp only [recordSnapshot, h, Option.map_some, Option.getD_some, Option.some.injEq] at hc
  rw [← hc]
  exact ⟨rfl, rfl⟩

/-- Without a checkpoint a build is full. -/
theorem buildSnapshot_full_of_no_checkpoint {ar : Archiver} {n n' : SurrealStorage}
    {snap : Snapshot} (hnone : n.snapshotState.lastCheckpoint = none)
    (h : buildSnapshot ar n = (.ok snap, n')) :
    ∃ metadata, decodeSnapshotPayload ar snap.snapshot = .ok (some (.full metadata)) ∧
      HoldsArchive ar snap.snapshot metadata := by
  obtain ⟨_, _, d, hdecode, hpayload, _⟩ := buildSnapshot_published h
  cases d with
  | full metadata => exact ⟨metadata, hdecode, hpayload⟩
  | delta metadata entries =>
      obtain ⟨c, _, hc, _⟩ := hpayload.2.base
      rw [hnone] at hc
      cases hc

end SurrealStorage

end OpenraftSurrealkv
