import Mathlib.Logic.Relation
import OpenraftSurrealkv.Effects.Progress

/-!
# Operations as accesses

Applies, appends, votes, installs and recoveries, all but builds and merges, work
on the store in small accesses, each under a lock of its own: a save of one record,
a request that enters the request log, a change in memory, a change of the disk
that spares records and delta files, the start of a merge task.  Every such
operation is a sequence of accesses, whatever comes of it.  So what accesses keep
is kept by these operations, and by every interleaving of them.
-/

namespace OpenraftSurrealkv

open MetadataManager Postcard Relation

/-! ## The records in the tree -/

/-- What the tree holds of the four records. -/
def persistedRecords (w : World) :
    Except Postcard.Error (Option VotingState) × Except Postcard.Error (Option AppliedState) ×
      Except Postcard.Error (Option SnapshotMetaState) ×
      Except Postcard.Error (Option MergeProgressState) :=
  (votingRecord.persisted w.tree, appliedRecord.persisted w.tree, snapshotRecord.persisted w.tree,
    mergeProgressRecord.persisted w.tree)

theorem readsTree_persistedRecords : Sys.ReadsTree persistedRecords := by
  intro w w' h
  rw [persistedRecords, persistedRecords, h]

/-- The key of none of the records. -/
def OtherKey (key : Bytes) : Prop :=
  key ≠ votingRecord.key ∧ key ≠ appliedRecord.key ∧ key ≠ snapshotRecord.key ∧
    key ≠ mergeProgressRecord.key

theorem otherKey_consistencySeqKey : OtherKey consistencySeqKey := by
  unfold OtherKey
  decide +kernel

theorem otherKey_raftVoteV2Key : OtherKey SurrealStorage.raftVoteV2Key := by
  unfold OtherKey
  decide +kernel

/-- A write under another key leaves the records alone. -/
theorem persistedRecords_insert {key : Bytes} (h : OtherKey key) (w : World) (bytes : Bytes) :
    persistedRecords (w.withTree (w.tree.insert key bytes)) = persistedRecords w := by
  obtain ⟨hvoting, happlied, hsnapshot, hmerge⟩ := h
  show (votingRecord.persisted (w.tree.insert key bytes),
    appliedRecord.persisted (w.tree.insert key bytes),
    snapshotRecord.persisted (w.tree.insert key bytes),
    mergeProgressRecord.persisted (w.tree.insert key bytes)) = persistedRecords w
  rw [Record.persisted_insert_of_ne hvoting, Record.persisted_insert_of_ne happlied,
    Record.persisted_insert_of_ne hsnapshot, Record.persisted_insert_of_ne hmerge]
  rfl

/-! ## Unpacking -/

section

variable {R : World → World → Prop} [IsPreorder World R]

theorem within_restore (h : Sys.Frame R) (ar : Archiver) (data : Bytes) (dir : String)
    (expected : CheckpointMetadata) :
    Eff.Within R (restore ar data dir expected) := by
  refine .ite (.fail _) (.bind (Sys.within_createDirAll h _ _) fun _ =>
    .bind (Sys.within_external h.stored _) fun _ => ?_)
  cases ar.zstdDecode data with
  | error e => exact .fail _
  | ok tar =>
      simp only []
      cases ar.tarUnpack tar with
      | error e => exact .fail _
      | ok d => exact .bind (Sys.within_updateDir h _ _) fun _ => .pure _

/-- Unpacking a full snapshot writes a directory. -/
theorem within_installSnapshot (h : Sys.Frame R) (ar : Archiver) (snapshot : Snapshot) :
    Eff.Within R (RaftSnapshotBuilder.installSnapshot ar snapshot) := by
  have hunpack : ∀ data dir index term, Eff.Within R (do
      let expected ← CheckpointMetadata.new index term 0 dir
      let _ ← restore ar data dir expected
      pure ()) := fun data dir index term =>
    .bind (within_new h.stored _ _ _ _) fun expected =>
      .bind (within_restore h ar data dir expected) fun _ => .pure _
  refine .bind (Sys.within_nowSecs h.stored) fun ts => ?_
  simp only []
  cases SnapshotEnvelope.codec.fromBytes snapshot.snapshot with
  | error e => exact hunpack _ _ _ _
  | ok envelope =>
      simp only []
      cases envelope.metadata.format with
      | full m => exact hunpack _ _ _ _
      | delta base count => exact .fail _

end

namespace SurrealStorage

/-! ## Accesses -/

/-- The payload of an entry is a request. -/
def HoldsRequest (payload : Bytes) : Prop := ∃ req, KVRequest.codec.fromBytes payload = .ok req

/-- The file of a delta. -/
abbrev deltaFile (timestamp : UInt64) (suffix : String) : String :=
  DeltaSnapshotCodec.deltaPath RaftSnapshotBuilder.deltaDir timestamp suffix

/-- The second world has the records and the delta files of the first.  The rest of the disk may
differ, and so may the clock and the failures to come. -/
structure SameStored (w w' : World) : Prop where
  records : persistedRecords w' = persistedRecords w
  deltas : ∀ ts suffix, w'.files[deltaFile ts suffix]? = w.files[deltaFile ts suffix]?
  later : Sys.Later w w'

instance : IsPreorder World SameStored where
  refl _ := ⟨rfl, fun _ _ => rfl, id⟩
  trans _ _ _ h₁ h₂ := ⟨h₂.records.trans h₁.records,
    fun ts suffix => (h₂.deltas ts suffix).trans (h₁.deltas ts suffix),
    trans_of Sys.Later h₁.later h₂.later⟩

theorem frame_sameStored : Sys.Frame SameStored where
  stored _ _ _ _ _ _ := ⟨rfl, fun _ _ => rfl, id⟩
  dirs _ _ := ⟨rfl, fun _ _ => rfl, id⟩
  reused w again := ⟨rfl, fun _ _ => rfl, Sys.ofFiles_later.reused w again⟩

/-- A commit under another key. -/
theorem sameStored_transaction (onBegin onSet onCommit : String → RaftError) {key bytes : Bytes}
    (h : OtherKey key) :
    Eff.Within SameStored (Sys.transaction onBegin onSet onCommit [.put key bytes]) :=
  Sys.within_transaction frame_sameStored.stored _ _ _ fun w =>
    ⟨persistedRecords_insert h w bytes, fun _ _ => rfl, id⟩

/-- One access to the store. -/
inductive Access : SurrealStorage → SurrealStorage → Prop
  | saveVoting (n : SurrealStorage) (st : VotingState) :
      Access n (onMetadata (saveVotingState st) n).2
  | saveApplied (n : SurrealStorage) (st : AppliedState) :
      Access n (onMetadata (saveAppliedState st) n).2
  | saveProgress (n : SurrealStorage) (st : MergeProgressState) :
      Access n (onMetadata (saveMergeProgressState st) n).2
  | record (n : SurrealStorage) (i : UInt64) (l : LogEntry) : HoldsRequest l.payload →
      Access n { n with raftLogs := n.raftLogs.insert i l }
  | memory {n n' : SurrealStorage} : n'.metadata = n.metadata → n'.raftLogs = n.raftLogs →
      n'.mergeExecutor = n.mergeExecutor → n'.spawned = n.spawned → Access n n'
  | outside {n : SurrealStorage} {w : World} : SameStored n.world w →
      Access n { n with metadata := n.metadata.withWorld w }
  | spawn (n : SurrealStorage) (trigger : MergeTrigger) :
      Access n { n with spawned := n.spawned ++ [trigger] }

/-- The operation is a sequence of accesses. -/
abbrev Accesses {α : Type} (x : Op α) : Prop := Eff.Within (ReflTransGen Access) x

/-- What every access keeps is kept by a sequence of them. -/
theorem Access.reaches {R : SurrealStorage → SurrealStorage → Prop} [IsPreorder SurrealStorage R]
    (h : ∀ n n', Access n n' → R n n') {n n' : SurrealStorage} (hrun : ReflTransGen Access n n') :
    R n n' := by
  induction hrun with
  | refl => exact refl_of R n
  | tail _ hlast ih => exact trans_of R ih (h _ _ hlast)

theorem accesses_modify {f : SurrealStorage → SurrealStorage} (h : ∀ n, Access n (f n)) :
    Accesses (Eff.modify f) :=
  .modify fun n => .single (h n)

theorem accesses_sys {α : Type} {x : Sys α} (h : Eff.Within SameStored x) : Accesses (sys x) :=
  fun n => .single (.outside (h n.world))

theorem accesses_saveVotingState (st : VotingState) :
    Accesses (onMetadata (saveVotingState st)) :=
  fun n => .single (.saveVoting n st)

theorem accesses_saveAppliedState (st : AppliedState) :
    Accesses (onMetadata (saveAppliedState st)) :=
  fun n => .single (.saveApplied n st)

theorem accesses_saveMergeProgressState (st : MergeProgressState) :
    Accesses (onMetadata (saveMergeProgressState st)) :=
  fun n => .single (.saveProgress n st)

/-! ## The log and the state machine -/

theorem accesses_applyRequest (req : KVRequest) : Accesses (applyRequest req) :=
  .bind (accesses_modify fun _ => .memory rfl rfl rfl rfl) fun _ => .pure _

/-- A request is recorded as it was encoded. -/
theorem accesses_appendLogEntry (term index : UInt64) (req : KVRequest) :
    Accesses (appendLogEntry term index req) := by
  refine .bind_ofExcept fun payload hpayload => ?_
  have hback := Codec.fromBytes_of_toStdvec (liftPostcard_eq_ok_iff.mp hpayload)
  exact .bind (accesses_modify fun n => .record n index _ ⟨req, hback⟩) fun _ =>
    accesses_saveAppliedState _

theorem accesses_appendEntry (entry : Entry) : Accesses (appendEntry entry) := by
  refine .bind ?_ fun _ => accesses_modify fun _ => .memory rfl rfl rfl rfl
  rcases entry with ⟨id, payload⟩
  cases payload with
  | normal req => exact .mapErr _ (accesses_appendLogEntry _ _ req)
  | blank => exact .pure _
  | membership m => exact .pure _

theorem accesses_append : ∀ es : List Entry, Accesses (append es)
  | [] => .pure _
  | e :: es => .bind (accesses_appendEntry e) fun _ => accesses_append es

theorem accesses_applyPayload (entry : Entry) : Accesses (applyPayload entry) := by
  rcases entry with ⟨id, payload⟩
  cases payload with
  | normal req =>
      exact .bind (.mapErr _ (accesses_applyRequest req)) fun _ =>
        .bind (.mapErr _ (accesses_appendLogEntry _ _ req)) fun _ => .pure _
  | blank => exact .pure _
  | membership m =>
      exact .bind (accesses_modify fun _ => .memory rfl rfl rfl rfl) fun _ => .pure _

theorem accesses_external (wrap : String → RaftError) : Accesses (sys (Sys.external wrap)) :=
  accesses_sys (Sys.within_external frame_sameStored.stored wrap)

theorem accesses_apply : ∀ es : List Entry, Accesses (apply es)
  | [] => .pure _
  | e :: es =>
      .bind (.bind (accesses_external _) fun _ => .bind (accesses_applyPayload e) fun _ =>
        .bind (.mapErr _ (accesses_saveAppliedState _)) fun _ => .pure _) fun _ =>
          accesses_apply es

theorem accesses_saveVote (vote : Vote) : Accesses (saveVote vote) :=
  .bind (.mapErr _ (accesses_saveVotingState _)) fun _ => .bind (.ofExcept _) fun _ =>
    accesses_sys (sameStored_transaction _ _ _ otherKey_raftVoteV2Key)

/-! ## Installs and recoveries -/

theorem accesses_applyDeltaEntries : ∀ es : List DeltaEntry, Accesses (applyDeltaEntries es)
  | [] => .pure _
  | _ :: es =>
      .bind (.ofExcept _) fun req => .bind (accesses_applyRequest req) fun _ =>
        .bind (accesses_appendLogEntry _ _ req) fun _ => accesses_applyDeltaEntries es

theorem accesses_installSnapshotAuto (ar : Archiver) (snapshot : Snapshot) :
    Accesses (installSnapshotAuto ar snapshot) := by
  refine .bind (.mapErr _ (.ofExcept _)) fun decoded => ?_
  cases decoded with
  | none => exact .fail _
  | some payload =>
      cases payload with
      | full metadata =>
          exact accesses_sys (within_installSnapshot frame_sameStored ar snapshot)
      | delta metadata entries =>
          exact .bind (.gets _) fun _ => .ite (.fail _) (accesses_applyDeltaEntries entries)

/-- Installing any bytes at all is a sequence of accesses. -/
theorem accesses_installSnapshot (ar : Archiver) (snapshotMeta : SnapshotMeta) (snapshot : Bytes) :
    Accesses (installSnapshot ar snapshotMeta snapshot) := by
  refine .bind (.mapErr _ (accesses_installSnapshotAuto ar _)) fun _ => .bind ?_ fun _ =>
    accesses_modify fun _ => .memory rfl rfl rfl rfl
  cases snapshotMeta.lastLogId with
  | none => exact .pure _
  | some last => exact .mapErr _ (accesses_saveAppliedState _)

theorem accesses_shouldSpawn (ex : MergeExecutor) : Accesses (onMetadata ex.shouldSpawn) :=
  fun _ => .single (.outside ⟨rfl, fun _ _ => rfl, id⟩)

theorem accesses_spawnIfNeeded (ex : MergeExecutor) : Accesses (spawnIfNeeded ex) := by
  refine .bind (accesses_shouldSpawn ex) fun trigger => ?_
  cases trigger with
  | none => exact .pure _
  | some t => exact .bind (accesses_modify fun n => .spawn n t) fun _ => .pure _

theorem accesses_recoverMergeState : Accesses recoverMergeState := by
  refine .bind (.gets _) fun progress => .ite (.pure _)
    (.ite (accesses_saveMergeProgressState _) (.bind (.gets _) fun executor => ?_))
  cases executor with
  | none => exact .pure _
  | some ex =>
      refine .bind (accesses_spawnIfNeeded ex) fun spawned => ?_
      cases spawned with
      | none => exact accesses_saveMergeProgressState _
      | some t => exact .pure _

end SurrealStorage

end OpenraftSurrealkv
