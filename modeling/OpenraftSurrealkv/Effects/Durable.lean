import OpenraftSurrealkv.Effects.Access
import OpenraftSurrealkv.Effects.Cleanup
import OpenraftSurrealkv.Effects.Tasks
import OpenraftSurrealkv.Lib.Guarantee
import OpenraftSurrealkv.Properties.Metadata

/-!
# What survives a restart

A restart keeps the tree and the files and loses the memory.  So what holds after
it is what holds of both copies of the metadata, and of the files that the
persisted delta chain names.

`Durable` says that memory and tree hold the same four records, that every delta
of the chain has a file which reads back as requests, and that every recorded
request does so too.  Every access keeps it.  A build and a merge keep it with each
of their steps, although a build saves a chain that it read a while ago: the files
of that chain still read back, since nothing that runs beside it takes a readable
delta file away (`KeepsReadable`).

Two things can damage what was written: a failing write that cuts off a file which
the chain names, and a checkpoint in a directory that had been used for one.  What
is said of files and of restarts is said as long as neither has happened.
-/

namespace OpenraftSurrealkv

open MetadataManager Postcard

/-! ## Memory and tree -/

/-- Memory and tree hold the same records, and all of them can be loaded. -/
def Recorded (m : MetadataManager) : Prop := Holds m m.records

theorem Recorded.of_persisted {m : MetadataManager} {w : World} (h : Recorded m)
    (hsame : persistedRecords w = persistedRecords m.world) : Recorded (m.withWorld w) := by
  simp only [persistedRecords, Prod.mk.injEq] at hsame
  obtain ⟨hvoting, happlied, hsnapshot, hmerge⟩ := hsame
  refine ⟨rfl, ?_, ?_, ?_, ?_, ?_⟩
  · show Records.ofTree w.tree = m.records
    rw [← h.tree]
    simp only [Records.ofTree, Record.recovered, hvoting, happlied, hsnapshot, hmerge]
  · show votingRecord.Readable w.tree
    rw [Record.Readable, hvoting]
    exact h.readable.voting
  · show appliedRecord.Readable w.tree
    rw [Record.Readable, happlied]
    exact h.readable.applied
  · show snapshotRecord.Readable w.tree
    rw [Record.Readable, hsnapshot]
    exact h.readable.snapshot
  · show mergeProgressRecord.Readable w.tree
    rw [Record.Readable, hmerge]
    exact h.readable.mergeProgress

/-- The operation keeps memory and tree in step. -/
abbrev StaysRecorded {α : Type} (x : MetaM α) : Prop := Eff.Within (Eff.Preserved Recorded) x

theorem staysRecorded_sys {α : Type} {x : Sys α} (h : Eff.Keeps persistedRecords x) :
    StaysRecorded (MetadataManager.sys x) :=
  fun m hm => hm.of_persisted (h m.world)

theorem staysRecorded_sys_of_tree {α : Type} {x : Sys α} (h : Eff.Keeps World.tree x) :
    StaysRecorded (MetadataManager.sys x) :=
  staysRecorded_sys (readsTree_persistedRecords.keeps h)

/-- A save reaches memory and tree, or neither. -/
theorem staysRecorded_call (op : MetaSave) : StaysRecorded op.call := by
  intro m hm
  rcases hrun : op.call m with ⟨r, m'⟩
  cases r with
  | ok u =>
      obtain ⟨k, _, hk⟩ := Holds.step hm (.saved hrun)
      rw [← hk.memory] at hk
      exact hk
  | error e =>
      obtain ⟨k, _, hk⟩ := Holds.step hm (.refused hrun)
      rw [← hk.memory] at hk
      exact hk

/-- A save leaves the files alone. -/
theorem MetaSave.files_call (op : MetaSave) (m : MetadataManager) :
    (op.call m).2.files = m.files := by
  obtain ⟨fs, ⟨ws, -, hok⟩ | ⟨e, herr⟩⟩ := op.call_cases m
  · rw [hok]
    cases op <;> rfl
  · rw [herr]
    rfl

theorem MetaSave.later_call (op : MetaSave) (m : MetadataManager) :
    Sys.Later m.world (op.call m).2.world := by
  obtain ⟨fs, ⟨ws, -, hok⟩ | ⟨e, herr⟩⟩ := op.call_cases m
  · rw [hok]
    cases op <;> exact id
  · rw [herr]
    exact id

/-- A save takes effect on the snapshot state or leaves it alone. -/
theorem MetaSave.snapshotState_call (op : MetaSave) (m : MetadataManager) :
    (op.call m).2.snapshotState = m.snapshotState ∨
      (op.call m).2.snapshotState = (op.effect m.records).snapshot := by
  obtain ⟨fs, ⟨ws, -, hok⟩ | ⟨e, herr⟩⟩ := op.call_cases m
  · rw [hok]
    cases op <;> exact .inr rfl
  · rw [herr]
    exact .inl rfl

/-! ## Stores -/

namespace SurrealStorage

/-- The file of a delta is there and reads back as requests. -/
def ReadsBack (ar : Archiver) (files : OrdMap String Bytes) (d : DeltaInfo) : Prop :=
  ∃ ts suffix data ds, d.filePath = some (deltaFile ts suffix) ∧
    files[deltaFile ts suffix]? = some data ∧
    DeltaSnapshotCodec.decodeEntries ar data = .ok ds ∧ ∀ e ∈ ds, HoldsRequest e.payload

/-- Every recorded request reads back. -/
def RecordsRequests (n : SurrealStorage) : Prop :=
  ∀ (i : UInt64) l, n.raftLogs[i]? = some l → HoldsRequest l.payload

/-- What a restart relies on. -/
structure Durable (ar : Archiver) (n : SurrealStorage) : Prop where
  recorded : Recorded n.metadata
  chain : Sys.Intact n.world → ∀ d ∈ n.snapshotState.deltaChain, ReadsBack ar n.files d
  records : RecordsRequests n

/-- Files of deltas that read back go on doing so. -/
structure KeepsReadable (ar : Archiver) (n n' : SurrealStorage) : Prop where
  later : Sys.Later n.world n'.world
  reads : Sys.Intact n'.world → ∀ d, ReadsBack ar n.files d → ReadsBack ar n'.files d

instance (ar : Archiver) : IsPreorder SurrealStorage (KeepsReadable ar) where
  refl _ := ⟨id, fun _ _ h => h⟩
  trans _ _ _ h₁ h₂ := ⟨trans_of Sys.Later h₁.later h₂.later,
    fun hintact d h => h₂.reads hintact d (h₁.reads (h₂.later hintact) d h)⟩

/-- A durable store stays durable, and files of deltas that read back go on doing so. -/
abbrev Lasts (ar : Archiver) : SurrealStorage → SurrealStorage → Prop :=
  Steps.Owed (Durable ar) (KeepsReadable ar)

/-- Every step of the call lasts, whatever lasting steps others make in between. -/
abbrev AlwaysLasts {α : Type} (ar : Archiver) (p : Steps Phase SurrealStorage RaftError α)
    (n : SurrealStorage) : Prop :=
  p.Assured (Durable ar) (KeepsReadable ar) n

variable {ar : Archiver}

theorem ReadsBack.of_deltas {files files' : OrdMap String Bytes} {d : DeltaInfo}
    (h : ReadsBack ar files d)
    (hsame : ∀ ts suffix, files'[deltaFile ts suffix]? = files[deltaFile ts suffix]?) :
    ReadsBack ar files' d := by
  obtain ⟨ts, suffix, data, ds, hpath, hfile, hback⟩ := h
  exact ⟨ts, suffix, data, ds, hpath, (hsame ts suffix).trans hfile, hback⟩

/-- The metadata change, and a chain that they have got reads back. -/
theorem lasts_metadata {n : SurrealStorage} {m : MetadataManager}
    (hrecorded : Recorded n.metadata → Recorded m) (hlater : Sys.Later n.world m.world)
    (hdeltas : ∀ ts suffix, m.files[deltaFile ts suffix]? = n.files[deltaFile ts suffix]?)
    (hchain : m.snapshotState = n.snapshotState ∨
      (Sys.Intact n.world → ∀ d ∈ m.snapshotState.deltaChain, ReadsBack ar n.files d)) :
    Lasts ar n { n with metadata := m } := by
  refine fun h => ⟨⟨hrecorded h.recorded, fun hintact => ?_, h.records⟩,
    ⟨hlater, fun _ d hd => hd.of_deltas hdeltas⟩⟩
  show ∀ d ∈ m.snapshotState.deltaChain, ReadsBack ar m.files d
  rcases hchain with hstate | hchain
  · rw [hstate]
    exact fun d hd => (h.chain (hlater hintact) d hd).of_deltas hdeltas
  · exact fun d hd => (hchain (hlater hintact) d hd).of_deltas hdeltas

theorem lasts_call {n : SurrealStorage} (op : MetaSave)
    (hchain : (op.effect n.metadata.records).snapshot = n.snapshotState ∨
      (Sys.Intact n.world →
        ∀ d ∈ (op.effect n.metadata.records).snapshot.deltaChain, ReadsBack ar n.files d)) :
    Lasts ar n (onMetadata op.call n).2 := by
  refine lasts_metadata (staysRecorded_call op n.metadata) (op.later_call n.metadata)
    (fun ts suffix => ?_) ?_
  · rw [op.files_call]
  · rcases op.snapshotState_call n.metadata with hsame | heffect
    · exact .inl hsame
    · rw [heffect]
      exact hchain

theorem Access.lasts {n n' : SurrealStorage} (h : Access n n') : Lasts ar n n' := by
  cases h with
  | saveVoting st => exact lasts_call (.voting st) (.inl rfl)
  | saveApplied st => exact lasts_call (.applied st) (.inl rfl)
  | saveProgress st => exact lasts_call (.mergeProgress st) (.inl rfl)
  | record i l hl =>
      refine fun h => ⟨⟨h.recorded, h.chain, fun j l' hl' => ?_⟩, ⟨id, fun _ _ hd => hd⟩⟩
      rw [OrdMap.get_insert] at hl'
      split at hl'
      next =>
        cases hl'
        exact hl
      next => exact h.records j l' hl'
  | memory hmetadata hlogs hexecutor hspawned =>
      have hworld : n'.world = n.world := congrArg MetadataManager.world hmetadata
      have hfiles : n'.files = n.files := congrArg MetadataManager.files hmetadata
      refine fun h => ⟨⟨?_, ?_, ?_⟩, ⟨?_, fun _ d hd => ?_⟩⟩
      · rw [hmetadata]
        exact h.recorded
      · rw [hworld, hfiles, snapshotState, hmetadata]
        exact h.chain
      · rw [RecordsRequests, hlogs]
        exact h.records
      · rw [hworld]
        exact id
      · rw [hfiles]
        exact hd
  | outside hstored =>
      exact lasts_metadata (fun h => h.of_persisted hstored.records) hstored.later hstored.deltas
        (.inl rfl)
  | spawn trigger =>
      exact fun h => ⟨⟨h.recorded, h.chain, h.records⟩, ⟨id, fun _ _ hd => hd⟩⟩

theorem Accesses.lasts {α : Type} {x : Op α} (h : Accesses x) : Eff.Within (Lasts ar) x :=
  h.imp fun _ _ => Access.reaches fun _ _ => Access.lasts

/-! ## Builds -/

/-- A file that a build writes reads back. -/
theorem ReadsBack.of_filesWithin {n n' : SurrealStorage} {d : DeltaInfo} {index : UInt64}
    {es : List DeltaEntry} (h : ReadsBack ar n.files d)
    (hes : ∀ e ∈ es, HoldsRequest e.payload)
    (hfiles : FilesWithin (BuildWrites ar index es) n n') (hkept : n'.world.cutOff = false) :
    ReadsBack ar n'.files d := by
  obtain ⟨ts, suffix, data, ds, hpath, hfile, hdecode, hds⟩ := h
  obtain ⟨content, hcontent, rfl | ⟨ts', harchive⟩ | ⟨ts', hdelta, hdata⟩⟩ :=
    hfiles.files hkept _ data hfile
  · exact ⟨ts, suffix, content, ds, hpath, hcontent, hdecode, hds⟩
  · exact absurd harchive (deltaPath_ne_archivePath ts ts' _)
  · exact ⟨ts, suffix, content, es, hpath, hcontent,
      DeltaSnapshotCodec.decodeEntries_of_encodeEntries hdata, hes⟩

/-- The chain that a build records reads back. -/
theorem ReadsBack.recordSnapshot {st : SnapshotMetaState} {files : OrdMap String Bytes}
    {snap : Snapshot} {payload : DecodedSnapshotPayload} {index : UInt64} {es : List DeltaEntry}
    (hes : ∀ e ∈ es, HoldsRequest e.payload) (hchain : ∀ d ∈ st.deltaChain, ReadsBack ar files d)
    (hpayload : IsPayload ar index st es files snap.snapshot payload) :
    ∀ d ∈ (recordSnapshot snap st payload).deltaChain, ReadsBack ar files d := by
  cases payload with
  | full metadata => exact List.forall_mem_nil _
  | delta metadata entries =>
      obtain ⟨rfl, hdelta⟩ := hpayload
      obtain ⟨ts, data, hpath, hdata, hfile⟩ := hdelta.file
      intro d hd
      rcases List.mem_append.mp hd with hold | hnew
      · exact hchain d hold
      · rw [hpath, List.mem_singleton] at hnew
        subst hnew
        exact ⟨ts, _, data, entries, rfl, hfile,
          DeltaSnapshotCodec.decodeEntries_of_encodeEntries hdata, hes⟩

/-- The requests that a build reads are requests. -/
theorem Durable.logsSince {n : SurrealStorage} (h : Durable ar n) (start stop : UInt64) :
    ∀ e ∈ (if start ≤ stop then (OrdMap.range n.raftLogs start stop).map Prod.snd else []).map
      toDelta, HoldsRequest e.payload := by
  intro e he
  obtain ⟨l, hl, rfl⟩ := List.mem_map.mp he
  split at hl
  next =>
    obtain ⟨⟨i, _⟩, hi, rfl⟩ := List.mem_map.mp hl
    exact h.records i _ (OrdMap.mem_range.mp hi).1
  next => cases hl

theorem lasts_buildSnapshotWithDelta {es : List DeltaEntry}
    (hes : ∀ e ∈ es, HoldsRequest e.payload) (cfg : SnapshotBuildConfig) (index : UInt64)
    (st : SnapshotMetaState) : Eff.Within (Lasts ar)
      (sys (RaftSnapshotBuilder.buildSnapshotWithDelta ar cfg index st es)) := by
  intro n h
  have hreadable : KeepsReadable ar n _ :=
    ⟨Sys.ofTree_later.buildSnapshotWithDelta (fun _ _ => id) ar cfg index st es n.world,
      fun hintact d hd => hd.of_filesWithin hes
        (filesWithin_sys (filesWithin_buildSnapshotWithDelta ar cfg index st es) n) hintact.1⟩
  refine ⟨⟨?_, fun hintact d hd => ?_, h.records⟩, hreadable⟩
  · refine staysRecorded_sys ?_ n.metadata h.recorded
    exact readsTree_persistedRecords.ofTree.buildSnapshotWithDelta
      (fun w bytes => persistedRecords_insert otherKey_consistencySeqKey w bytes) ar cfg index st es
  · exact hreadable.reads hintact d (h.chain (hreadable.later hintact) d hd)

theorem alwaysLasts_triggerMergeSteps (n : SurrealStorage) :
    AlwaysLasts ar triggerMergeSteps n := by
  refine .read_andThen (fun _ => rfl) fun n' _ _ => ?_
  cases n'.mergeExecutor with
  | none => exact trivial
  | some ex =>
      refine .andThen (.act_andThen (accesses_shouldSpawn ex).lasts
        fun _ trigger t _ _ _ => ?_) fun _ _ _ => trivial
      cases trigger with
      | none => exact trivial
      | some trigger =>
          exact .act_andThen (accesses_modify fun n => .spawn n trigger).lasts
            fun _ _ _ _ _ _ => trivial

/-- The save at the end of a build, when the chain to save reads back. -/
theorem alwaysLasts_saveBuiltSteps {snapshot : Snapshot} {st : SnapshotMetaState}
    {payload : DecodedSnapshotPayload} {n : SurrealStorage}
    (h : Sys.Intact n.world →
      ∀ d ∈ (recordSnapshot snapshot st payload).deltaChain, ReadsBack ar n.files d) :
    AlwaysLasts ar (saveBuiltSteps snapshot st (some payload)) n := by
  intro n' hlater hn'
  refine ⟨lasts_call (.snapshot _) (.inr fun hintact d hd => ?_) hn', fun _ _ => trivial⟩
  exact hlater.reads hintact d (h (hlater.later hintact) d hd)

/-- A build that begins at any time. -/
theorem alwaysLasts_buildSnapshotAutoSteps (ar : Archiver) (term : UInt64) (n : SurrealStorage) :
    AlwaysLasts ar (buildSnapshotAutoSteps ar term) n := by
  refine .read_andThen (fun n => getAppliedState_run n) fun n₁ _ _ => ?_
  -- the chain that the build starts from reads back now, and does so later
  refine .read_andThen (fun n => getSnapshotState_run n) fun n₂ _ h₂ => ?_
  refine .read_andThen (fun n => logsSince_run _ _ n) fun n₃ hlater₃ h₃ => ?_
  have hes := h₃.logsSince (deltaStart n₂.snapshotState) n₁.metadata.appliedState.lastAppliedIndex
  refine .act_andThen (lasts_buildSnapshotWithDelta hes _ _ _)
    fun n₄ snapshot n₅ hlater₄ h₄ hrun => ?_
  have hlater₅ : KeepsReadable ar n₄ n₅ :=
    ((lasts_buildSnapshotWithDelta hes _ _ _).of_run hrun h₄).2
  have hlater : KeepsReadable ar n₂ n₅ :=
    trans_of (KeepsReadable ar) hlater₃ (trans_of (KeepsReadable ar) hlater₄ hlater₅)
  obtain ⟨_, payload, hdecode, hpayload⟩ := buildSnapshotWithDelta_ok (sys_eq hrun).1
  rw [hdecode, Steps.done_andThen]
  refine .andThen (alwaysLasts_saveBuiltSteps fun hintact => ?_) fun _ n₆ _ =>
    .andThen (alwaysLasts_triggerMergeSteps n₆) fun _ _ _ => trivial
  refine ReadsBack.recordSnapshot hes (fun d hd => ?_) hpayload
  exact hlater.reads hintact d (h₂.chain (hlater.later hintact) d hd)

theorem alwaysLasts_buildSnapshotSteps (ar : Archiver) (n : SurrealStorage) :
    AlwaysLasts ar (buildSnapshotSteps ar) n := by
  refine .read_andThen (fun n => getAppliedState_run n) fun n₁ _ _ => ?_
  refine .andThen (.mapErr (alwaysLasts_buildSnapshotAutoSteps ar _ n₁)) fun snap n₂ _ => ?_
  refine .read_andThen (fun _ => rfl) fun n₃ _ _ => ?_
  refine .act_andThen (Accesses.lasts (accesses_modify ?_)) fun _ _ _ _ _ _ => trivial
  exact fun _ => .memory rfl rfl rfl rfl

end SurrealStorage

/-! ## Merges -/

namespace MergeCleanup

theorem isBelow_trans {a b c : String} (hab : isBelow a b = true) (hbc : isBelow b c = true) :
    isBelow a c = true := by
  rw [isBelow_iff] at *
  have hb : b.toList <+: (b ++ "/").toList := by
    rw [String.toList_append]
    exact List.prefix_append _ _
  exact hab.trans (hb.trans hbc)

/-- Removing a directory leaves the files alone that are not below it. -/
theorem keeps_file_removeDirAll {path p : String} (h : isBelow path p = false) :
    Eff.Keeps (fun w : World => w.files[p]?) (removeDirAll path) := by
  refine .bind (Sys.within_external (fun _ _ _ _ _ _ => rfl) _) fun _ => .modify fun w => ?_
  show (w.files.filter fun p _ => !isBelow path p)[p]? = w.files[p]?
  rw [Std.ExtTreeMap.getElem?_filter', h]
  cases w.files[p]? <;> rfl

/-- So does the removal of entries of a directory. -/
theorem keeps_file_of_entry {base p : String} (h : isBelow base p = false) {w : World}
    {d : String × UInt64} (hd : d ∈ entriesOf base w) :
    Eff.Keeps (fun w : World => w.files[p]?) (removeDirAll d.1) := by
  obtain ⟨⟨path, dir⟩, hmem, rfl⟩ := List.mem_map.mp hd
  have hentry := (List.mem_filter.mp hmem).2
  simp only [isEntryOf, Bool.and_eq_true] at hentry
  refine keeps_file_removeDirAll (Bool.eq_false_iff.mpr fun hbelow => ?_)
  rw [isBelow_trans hentry.1 hbelow] at h
  cases h

/-- With no delta in the chain, the cleanup removes files in its two directories only. -/
theorem keeps_file_run {config : MergeCleanupConfig} {p : String}
    (htemp : isBelow config.tempMergeDir p = false)
    (hcheckpoints : isBelow config.checkpointsDir p = false) {st : SnapshotMetaState}
    (hst : st.deltaChain = []) (now : UInt64) :
    Eff.Keeps (fun w : World => w.files[p]?) (run config st (some now)) := by
  have hcall : ∀ wrap, Eff.Keeps (fun w : World => w.files[p]?) (Sys.external wrap) :=
    Sys.within_external fun _ _ _ _ _ _ => rfl
  unfold run
  rw [hst]
  refine .bind (.pure _) fun now => .bind (.pure _) fun _ => .bind ?_ fun _ => .bind ?_ fun _ =>
    .pure _
  · refine .bind (.gets _) fun dir => ?_
    cases dir with
    | none => exact .pure _
    | some d =>
        refine .bind (hcall _) fun _ w => ?_
        exact within_removeOldTempDirs hcall (fun d hd _ => keeps_file_of_entry htemp hd) w
  · refine .bind (.gets _) fun dir => ?_
    cases dir with
    | none => exact .pure _
    | some d =>
        refine .bind (hcall _) fun _ w => ?_
        refine Eff.Within.ite (.pure _) (.bind (within_removeDirs fun d hd => ?_) fun _ =>
          .pure _) w
        have hmem := List.mem_of_mem_take hd
        rw [List.mem_insertionSort] at hmem
        exact keeps_file_of_entry hcheckpoints hmem

end MergeCleanup

/-- No delta file is in a directory that the cleanup looks through. -/
def MergeCleanupConfig.Spares (config : MergeCleanupConfig) : Prop :=
  ∀ ts suffix, isBelow config.tempMergeDir (SurrealStorage.deltaFile ts suffix) = false ∧
    isBelow config.checkpointsDir (SurrealStorage.deltaFile ts suffix) = false

namespace SurrealStorage

variable {ar : Archiver}

/-- A directory that differs from the one of the deltas within the first characters of both. -/
theorem not_isBelow_deltaFile {q : String} (k : Nat) (hq : k ≤ (q ++ "/").toList.length)
    (hdir : k ≤ (RaftSnapshotBuilder.deltaDir ++ "/").toList.length)
    (hne : (q ++ "/").toList.take k ≠ (RaftSnapshotBuilder.deltaDir ++ "/").toList.take k)
    (ts : UInt64) (suffix : String) : isBelow q (deltaFile ts suffix) = false := by
  refine Bool.eq_false_iff.mpr fun hbelow => hne ?_
  obtain ⟨rest, hrest⟩ := MergeCleanup.isBelow_iff.mp hbelow
  have hfile : (deltaFile ts suffix).toList = (RaftSnapshotBuilder.deltaDir ++ "/").toList ++ _ :=
    String.toList_append
  rw [hfile] at hrest
  have htake := congrArg (List.take k) hrest
  rw [List.take_append_of_le_length hq, List.take_append_of_le_length hdir] at htake
  exact htake

/-- The directories of the default configuration are apart from the deltas. -/
theorem spares_default : MergeCleanupConfig.default.Spares := by
  intro ts suffix
  constructor
  · exact not_isBelow_deltaFile 12 (by decide) (by decide) (by decide) ts suffix
  · exact not_isBelow_deltaFile 8 (by decide) (by decide) (by decide) ts suffix

/-- What a step of a merge does to the metadata. -/
structure MergeMove (config : MergeCleanupConfig) (m m' : MetadataManager) : Prop where
  recorded : Recorded m → Recorded m'
  later : Sys.Later m.world m'.world
  chain : m'.snapshotState = m.snapshotState ∨ m'.snapshotState.deltaChain = []
  deltas : config.Spares → ∀ ts suffix,
    m'.files[deltaFile ts suffix]? = m.files[deltaFile ts suffix]?

section

variable {config : MergeCleanupConfig} {m : MetadataManager}

theorem MergeMove.refl : MergeMove config m m := ⟨id, id, .inl rfl, fun _ _ _ => rfl⟩

theorem MergeMove.call (op : MetaSave)
    (h : (op.effect m.records).snapshot = m.snapshotState ∨
      (op.effect m.records).snapshot.deltaChain = []) : MergeMove config m (op.call m).2 where
  recorded := staysRecorded_call op m
  later := op.later_call m
  chain := by
    rcases op.snapshotState_call m with hsame | heffect
    · exact .inl hsame
    · rw [heffect]
      exact h
  deltas := by
    intro _ ts suffix
    rw [op.files_call]

theorem MergeMove.sys {α : Type} {x : Sys α} (htree : Eff.Keeps World.tree x)
    (hlater : Eff.Within Sys.Later x)
    (hdeltas : config.Spares → ∀ ts suffix,
      Eff.Keeps (fun w : World => w.files[deltaFile ts suffix]?) x) :
    MergeMove config m (MetadataManager.sys x m).2 :=
  ⟨staysRecorded_sys_of_tree htree m, hlater m.world, .inl rfl,
    fun h ts suffix => hdeltas h ts suffix m.world⟩

end

/-- A step of a merge lasts when the cleanup spares the delta files. -/
theorem MergeMove.lasts {config : MergeCleanupConfig} {n : SurrealStorage} {m : MetadataManager}
    (h : MergeMove config n.metadata m) (hspares : config.Spares) :
    Lasts ar n { n with metadata := m } := by
  refine lasts_metadata h.recorded h.later (h.deltas hspares) (h.chain.imp id fun hnil _ => ?_)
  rw [hnil]
  exact List.forall_mem_nil _

theorem all_mergeLoopSteps (ar : Archiver) (ex : MergeExecutor) (trigger : MergeTrigger)
    (started : UInt64) : ∀ (fuel : Nat) (previous : UInt8),
      (ex.mergeLoopSteps ar trigger started fuel previous).All
        fun _ f => ∀ m, MergeMove ex.cleanup m (f m)
  | 0, _ => trivial
  | fuel + 1, previous => by
      refine .andThen (.act fun m => .call (.mergeProgress _) (.inl rfl)) fun _ =>
        .andThen (.act fun m => .refl) fun st => .andThen (.act fun m => ?_) fun result => ?_
      · refine .sys (x := ex.backend.executeMerge ar st) (keeps_tree_executeMerge ar st ex.backend)
          (within_executeMerge Sys.ofFiles_later ar st ex.backend) fun _ ts suffix =>
            (within_executeMerge Sys.ofFiles_files ar st ex.backend).imp fun w w' hfiles => ?_
        exact congrArg (fun files : OrdMap String Bytes => files[deltaFile ts suffix]?) hfiles
      cases result with
      | ok exec =>
          -- the chain is folded before the cleanup, which then finds no delta
          refine .andThen (.act fun m => .call (.snapshotAndMerge _ _) (.inr rfl)) fun _ =>
            .andThen (.act fun m => .sys
              (MergeCleanup.within_run_ofTree readsTree_tree.ofTree _ _ _)
              (MergeCleanup.within_run_ofTree Sys.ofTree_later _ _ _)
              fun hspares ts suffix => ?_) fun _ => trivial
          obtain ⟨htemp, hcheckpoints⟩ := hspares ts suffix
          exact MergeCleanup.keeps_file_run htemp hcheckpoints rfl started
      | error err =>
          by_cases hmax : ex.maxRetries ≤ nextRetry previous
          · simp only [if_pos hmax]
            exact .andThen (.act fun m => .call (.mergeProgress _) (.inl rfl))
              fun _ => trivial
          · simp only [if_neg hmax]
            exact all_mergeLoopSteps ar ex trigger started fuel _

theorem all_runMergeLoopSteps (ar : Archiver) (ex : MergeExecutor) (trigger : MergeTrigger) :
    (ex.runMergeLoopSteps ar trigger).All fun _ f => ∀ m, MergeMove ex.cleanup m (f m) :=
  .andThen (.act fun _ => .sys (Sys.within_nowSecs readsTree_tree.ofTree.stored)
    (Sys.within_nowSecs Sys.ofTree_later.stored)
    fun _ _ _ => Sys.within_nowSecs fun _ _ _ _ _ _ => rfl) fun started =>
      all_mergeLoopSteps ar ex trigger started 255 0

/-- A merge task that begins at any time. -/
theorem alwaysLasts_mergeSteps (ar : Archiver) {ex : MergeExecutor} (hspares : ex.cleanup.Spares)
    (trigger : MergeTrigger) (n : SurrealStorage) :
    AlwaysLasts ar (mergeSteps ar ex trigger) n := by
  refine Steps.All.assured ((all_runMergeLoopSteps ar ex trigger).zoom fun _ f h n => ?_)
  exact (h n.metadata).lasts hspares

/-- With nothing beside it, a merge task leaves a chain that reads back, whatever the cleanup
removes: the chain is folded by then. -/
theorem Durable.merge {n : SurrealStorage} {ex : MergeExecutor} {trigger : MergeTrigger}
    {r : Except RaftError MergeTaskResult} {m' : MetadataManager} (h : Durable ar n)
    (hrun : ex.runMergeLoop ar trigger n.metadata = (r, m')) :
    Durable ar { n with metadata := m' } := by
  have hrecorded : StaysRecorded (ex.runMergeLoop ar trigger) := by
    rw [← MergeExecutor.run_runMergeLoopSteps]
    exact Steps.All.within_run ((all_runMergeLoopSteps ar ex trigger).imp
      fun _ f hf m => (hf m).recorded)
  have hlater : Eff.Within (Eff.Preserved fun m : MetadataManager => ¬ Sys.Intact m.world)
      (ex.runMergeLoop ar trigger) := by
    rw [← MergeExecutor.run_runMergeLoopSteps]
    exact Steps.All.within_run ((all_runMergeLoopSteps ar ex trigger).imp
      fun _ f hf m => mt (hf m).later)
  refine ⟨hrecorded.of_run hrun h.recorded, fun hintact => ?_, h.records⟩
  show ∀ d ∈ m'.snapshotState.deltaChain, ReadsBack ar m'.files d
  obtain ⟨_, ⟨hstate, hfiles⟩ | ⟨now, path, hstate⟩⟩ := MergeExecutor.runMergeLoop_outcome hrun
  · rw [hstate, show m'.files = n.files from congrArg Prod.fst hfiles]
    exact h.chain (not_imp_not.mp (hlater.of_run hrun) hintact)
  · rw [hstate]
    exact List.forall_mem_nil _

/-! ## Restarts -/

theorem recorded_of_new {w : World} {n : SurrealStorage} (h : new w = .ok n) :
    Recorded n.metadata ∧ n.metadata.records = Records.ofTree w.tree := by
  rw [new] at h
  rcases hload : MetadataManager.load (MetadataManager.new w) with ⟨r, m⟩
  rw [hload] at h
  cases r with
  | error e => cases h
  | ok u =>
      cases h
      have hholds := Holds.of_load hload
      refine ⟨?_, hholds.memory⟩
      rw [← hholds.memory] at hholds
      exact hholds

/-- What a reopening finds: the tree, unless a checkpoint was made in a directory that had been used
for one, and the files of the chain.  Other files may differ. -/
structure SameDisk (n : SurrealStorage) (w : World) : Prop where
  tree : n.world.reused = false → w.tree = n.world.tree
  files : ∀ d ∈ n.snapshotState.deltaChain, ∀ path, d.filePath = some path →
    w.files[path]? = n.files[path]?
  later : Sys.Later n.world w

theorem SameDisk.refl (n : SurrealStorage) : SameDisk n n.world :=
  ⟨fun _ => rfl, fun _ _ _ _ => rfl, id⟩

theorem Durable.chain_on {n : SurrealStorage} {w : World} (h : Durable ar n)
    (hdisk : SameDisk n w) (hintact : Sys.Intact n.world) :
    ∀ d ∈ n.snapshotState.deltaChain, ReadsBack ar w.files d := by
  intro d hd
  obtain ⟨ts, suffix, data, ds, hpath, hfile, hback⟩ := h.chain hintact d hd
  exact ⟨ts, suffix, data, ds, hpath, (hdisk.files d hd _ hpath).trans hfile, hback⟩

/-- A store that opens on the tree of another one has its records. -/
theorem Durable.records_of_new {n n' : SurrealStorage} {w : World} (h : Durable ar n)
    (hdisk : SameDisk n w) (hreused : n.world.reused = false) (hnew : new w = .ok n') :
    n'.metadata.records = n.metadata.records := by
  have hrecords := (recorded_of_new hnew).2
  rw [hdisk.tree hreused, h.recorded.tree] at hrecords
  exact hrecords

/-- A store that opens on the disk of a durable one is durable. -/
theorem Durable.restart {n n' : SurrealStorage} {w : World} (h : Durable ar n)
    (hdisk : SameDisk n w) (hnew : new w = .ok n') : Durable ar n' := by
  have hrecorded := (recorded_of_new hnew).1
  have hrecords := fun hreused => h.records_of_new hdisk hreused hnew
  obtain ⟨fs, rfl⟩ := new_ok hnew
  refine ⟨hrecorded, fun hintact => ?_, fun i l hl => by simp [opened] at hl⟩
  have hbefore : Sys.Intact n.world := hdisk.later hintact
  have hstate : (opened w fs).snapshotState = n.snapshotState :=
    congrArg Records.snapshot (hrecords hbefore.2)
  show ∀ d ∈ (opened w fs).snapshotState.deltaChain, ReadsBack ar w.files d
  rw [hstate]
  exact h.chain_on hdisk hbefore

theorem Durable.fresh {n : SurrealStorage} (h : Fresh n) : Durable ar n := by
  obtain ⟨w, n₀, ex, htree, hnew, rfl⟩ := h
  obtain ⟨hstep, hrecords⟩ := recorded_of_new hnew
  have hempty : n₀.snapshotState = .new := by
    refine (congrArg Records.snapshot hrecords).trans ?_
    rw [htree]
    exact recovered_empty snapshotRecord _
  obtain ⟨fs, rfl⟩ := new_ok hnew
  refine ⟨hstep, fun _ => ?_, fun i l hl => by simp [opened] at hl⟩
  show ∀ d ∈ (opened w fs).snapshotState.deltaChain, _
  rw [hempty]
  exact List.forall_mem_nil _

end SurrealStorage

end OpenraftSurrealkv
