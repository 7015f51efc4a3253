import OpenraftSurrealkv.World

/-!
# Persistent metadata

Four records describe the node: the vote, the applied position, the snapshot
chain and the progress of a merge.  The metadata manager keeps each one in
memory and under its own key of the tree, in postcard form.  A save writes the
tree first and the memory after the commit, so a save that fails changes
neither (`Record.save_cases`).  Loading reads every record that the tree has.

The four saves differ only in the key, the codec and the field, so they are one
definition over a `Record`.
-/

namespace OpenraftSurrealkv

open Postcard

/-! ## The records -/

/-- The term and the vote of this node. -/
structure VotingState where
  currentTerm : UInt64
  votedFor : Option NodeId
deriving DecidableEq, Repr

/-- The log position up to which entries were applied. -/
structure AppliedState where
  lastAppliedIndex : UInt64
  lastAppliedTerm : UInt64
deriving DecidableEq, Repr

/-- The last full checkpoint. -/
structure PersistedCheckpointMetadata where
  checkpointIndex : UInt64
  checkpointTerm : UInt64
  sequenceNumber : UInt64
  createdAt : UInt64
  checkpointPath : Option String
deriving DecidableEq, Repr

/-- A delta snapshot of the chain. -/
structure DeltaInfo where
  startIndex : UInt64
  endIndex : UInt64
  sizeBytes : UInt64
  createdAt : UInt64
  filePath : Option String
deriving DecidableEq, Repr

/-- The progress of the merge task. -/
structure MergeProgressState where
  inProgress : Bool
  triggerReason : Option String
  attempt : UInt8
  maxRetries : UInt8
  startedAt : UInt64
  updatedAt : UInt64
  lastError : Option String
deriving DecidableEq, Repr

/-- The last full checkpoint and the deltas on top of it. -/
structure SnapshotMetaState where
  lastCheckpoint : Option PersistedCheckpointMetadata
  deltaChain : List DeltaInfo
  totalDeltaBytes : UInt64
deriving DecidableEq, Repr

def VotingState.new : VotingState := ⟨0, none⟩

def AppliedState.new : AppliedState := ⟨0, 0⟩

def PersistedCheckpointMetadata.new (index term seq timestamp : UInt64) :
    PersistedCheckpointMetadata :=
  ⟨index, term, seq, timestamp, none⟩

def PersistedCheckpointMetadata.withCheckpointPath (m : PersistedCheckpointMetadata)
    (path : String) : PersistedCheckpointMetadata :=
  { m with checkpointPath := some path }

def DeltaInfo.new (start endIndex size timestamp : UInt64) : DeltaInfo :=
  ⟨start, endIndex, size, timestamp, none⟩

def DeltaInfo.withFilePath (d : DeltaInfo) (path : String) : DeltaInfo :=
  { d with filePath := some path }

namespace MergeProgressState

def new : MergeProgressState := ⟨false, none, 0, 0, 0, 0, none⟩

def started (triggerReason : String) (attempt maxRetries : UInt8) (now : UInt64) :
    MergeProgressState :=
  ⟨true, some triggerReason, attempt, maxRetries, now, now, none⟩

def succeeded (triggerReason : String) (attempt maxRetries : UInt8) (startedAt : UInt64) :
    MergeProgressState :=
  ⟨false, some triggerReason, attempt, maxRetries, startedAt, startedAt, none⟩

def failed (triggerReason : String) (attempt maxRetries : UInt8) (startedAt : UInt64)
    (lastError : String) : MergeProgressState :=
  ⟨false, some triggerReason, attempt, maxRetries, startedAt, startedAt, some lastError⟩

end MergeProgressState

def SnapshotMetaState.new : SnapshotMetaState := ⟨none, [], 0⟩

/-! ## Their wire format -/

def VotingState.codec : Codec VotingState :=
  (Codec.u64.pair (Codec.option Codec.u64)).iso
    (fun x => ⟨x.1, x.2⟩) (fun s => (s.currentTerm, s.votedFor)) (fun _ => rfl)

def AppliedState.codec : Codec AppliedState :=
  (Codec.u64.pair Codec.u64).iso
    (fun x => ⟨x.1, x.2⟩) (fun s => (s.lastAppliedIndex, s.lastAppliedTerm)) (fun _ => rfl)

def PersistedCheckpointMetadata.codec : Codec PersistedCheckpointMetadata :=
  (Codec.u64.pair <| Codec.u64.pair <| Codec.u64.pair <| Codec.u64.pair <|
    Codec.option Codec.string).iso
    (fun x => ⟨x.1, x.2.1, x.2.2.1, x.2.2.2.1, x.2.2.2.2⟩)
    (fun m => (m.checkpointIndex, m.checkpointTerm, m.sequenceNumber, m.createdAt,
      m.checkpointPath))
    (fun _ => rfl)

def DeltaInfo.codec : Codec DeltaInfo :=
  (Codec.u64.pair <| Codec.u64.pair <| Codec.u64.pair <| Codec.u64.pair <|
    Codec.option Codec.string).iso
    (fun x => ⟨x.1, x.2.1, x.2.2.1, x.2.2.2.1, x.2.2.2.2⟩)
    (fun d => (d.startIndex, d.endIndex, d.sizeBytes, d.createdAt, d.filePath))
    (fun _ => rfl)

def MergeProgressState.codec : Codec MergeProgressState :=
  (Codec.bool.pair <| (Codec.option Codec.string).pair <| Codec.u8.pair <| Codec.u8.pair <|
    Codec.u64.pair <| Codec.u64.pair <| Codec.option Codec.string).iso
    (fun x => ⟨x.1, x.2.1, x.2.2.1, x.2.2.2.1, x.2.2.2.2.1, x.2.2.2.2.2.1, x.2.2.2.2.2.2⟩)
    (fun s => (s.inProgress, s.triggerReason, s.attempt, s.maxRetries, s.startedAt, s.updatedAt,
      s.lastError))
    (fun _ => rfl)

def SnapshotMetaState.codec : Codec SnapshotMetaState :=
  ((Codec.option PersistedCheckpointMetadata.codec).pair <|
    (Codec.seq DeltaInfo.codec).pair Codec.u64).iso
    (fun x => ⟨x.1, x.2.1, x.2.2⟩)
    (fun s => (s.lastCheckpoint, s.deltaChain, s.totalDeltaBytes))
    (fun _ => rfl)

/-- The applied position always fits a buffer. -/
theorem AppliedState.toStdvec_eq (s : AppliedState) :
    AppliedState.codec.toStdvec s = .ok (AppliedState.codec.encode s) :=
  (Codec.short_u64.pair Codec.short_u64).iso.toStdvec_eq (by omega) s

/-- The voting record always fits a buffer. -/
theorem VotingState.toStdvec_eq (s : VotingState) :
    VotingState.codec.toStdvec s = .ok (VotingState.codec.encode s) :=
  (Codec.short_u64.pair Codec.short_u64.option).iso.toStdvec_eq (by omega) s

/-! ## The manager -/

/-- The records in memory, over the world whose tree they are persisted in. -/
structure MetadataManager where
  world : World
  votingState : VotingState
  appliedState : AppliedState
  snapshotState : SnapshotMetaState
  mergeProgressState : MergeProgressState

/-- An operation of the metadata manager. -/
abbrev MetaM (α : Type) := Eff MetadataManager RaftError α

namespace MetadataManager

/-- The same records over another world. -/
def withWorld (m : MetadataManager) (w : World) : MetadataManager := { m with world := w }

@[simp] theorem withWorld_world (m : MetadataManager) (w) : (m.withWorld w).world = w := rfl
@[simp] theorem withWorld_votingState (m : MetadataManager) (w) :
    (m.withWorld w).votingState = m.votingState := rfl
@[simp] theorem withWorld_appliedState (m : MetadataManager) (w) :
    (m.withWorld w).appliedState = m.appliedState := rfl
@[simp] theorem withWorld_snapshotState (m : MetadataManager) (w) :
    (m.withWorld w).snapshotState = m.snapshotState := rfl
@[simp] theorem withWorld_mergeProgressState (m : MetadataManager) (w) :
    (m.withWorld w).mergeProgressState = m.mergeProgressState := rfl
@[simp] theorem withWorld_withWorld (m : MetadataManager) (w w') :
    (m.withWorld w).withWorld w' = m.withWorld w' := rfl

/-- An operation on the world. -/
def sys {α : Type} (x : Sys α) : MetaM α := Eff.zoom world (fun w m => m.withWorld w) x

theorem sys_run {α : Type} (x : Sys α) (m : MetadataManager) :
    sys x m = ((x m.world).1, m.withWorld (x m.world).2) := rfl

theorem sys_of_eq {α : Type} {x : Sys α} {m : MetadataManager} {r : Except RaftError α}
    {w : World} (h : x m.world = (r, w)) : sys x m = (r, m.withWorld w) := by
  rw [sys_run, h]

theorem sys_ok {α : Type} {x : Sys α} {m m' : MetadataManager} {a : α}
    (h : sys x m = (.ok a, m')) : ∃ w, x m.world = (.ok a, w) ∧ m' = m.withWorld w := by
  rw [sys_run, Prod.mk.injEq] at h
  exact ⟨(x m.world).2, Prod.ext h.1 rfl, h.2.symm⟩

/-- The files of the world below. -/
def files (m : MetadataManager) : OrdMap String Bytes := m.world.files

theorem keeps_world_sys {α γ : Type} {g : World → γ} {x : Sys α} (h : Eff.Keeps g x) :
    Eff.Keeps (fun m : MetadataManager => g m.world) (sys x) :=
  Eff.Within.zoom h fun _ _ hw => hw

theorem keeps_sys {α γ : Type} {g : MetadataManager → γ} (h : ∀ w m, g (m.withWorld w) = g m)
    (x : Sys α) : Eff.Keeps g (sys x) :=
  Eff.Keeps.zoom x h

/-- A manager with nothing loaded. -/
def new (w : World) : MetadataManager :=
  ⟨w, VotingState.new, AppliedState.new, SnapshotMetaState.new, MergeProgressState.new⟩

end MetadataManager

/-! ## Saving and loading one record -/

/-- Where a record is kept: its key and codec in the tree, and its field in memory. -/
structure Record (α : Type) where
  key : Bytes
  codec : Codec α
  get : MetadataManager → α
  set : α → MetadataManager → MetadataManager
  key_ne_nil : key ≠ []
  get_set : ∀ a m, get (set a m) = a
  set_get : ∀ m w, set (get m) (m.withWorld w) = m.withWorld w

namespace Record

variable {α : Type}

/-- Serialize, commit, then update the memory. -/
def save (r : Record α) (state : α) : MetaM Unit := do
  let bytes ← Eff.ofExcept (liftPostcard RaftError.ofPostcard (r.codec.toStdvec state))
  MetadataManager.sys (Sys.commitWrites [.put r.key bytes])
  Eff.modify (r.set state)

/-- Read the record if the tree has it. -/
def load (r : Record α) : MetaM Unit := do
  let bytes? ← MetadataManager.sys (Sys.getKey RaftError.ofSurrealkv r.key)
  match bytes? with
  | none => pure ()
  | some bytes => do
      let state ← Eff.ofExcept (liftPostcard RaftError.ofPostcard (r.codec.fromBytes bytes))
      Eff.modify (r.set state)

/-- What the tree holds of a record. -/
def persisted (r : Record α) (t : Tree) : Except Postcard.Error (Option α) :=
  match t[r.key]? with
  | none => .ok none
  | some bytes =>
      match r.codec.fromBytes bytes with
      | .ok state => .ok (some state)
      | .error e => .error e

theorem persisted_insert {r : Record α} {state : α} {bytes : Bytes} (t : Tree)
    (h : r.codec.toStdvec state = .ok bytes) :
    r.persisted (t.insert r.key bytes) = .ok (some state) := by
  have hget : (t.insert r.key bytes)[r.key]? = some bytes := by
    rw [OrdMap.get_insert, if_pos rfl]
  rw [persisted, hget]
  simp only [Codec.fromBytes_of_toStdvec h]

theorem persisted_insert_of_ne {r : Record α} {key : Bytes} (h : key ≠ r.key) (t : Tree)
    (bytes : Bytes) : r.persisted (t.insert key bytes) = r.persisted t := by
  rw [persisted, persisted, OrdMap.get_insert, if_neg h]

/-- A save lands in the tree and in memory, or changes neither. -/
theorem save_cases (r : Record α) (state : α) (m : MetadataManager) :
    ∃ fs, (∃ bytes, r.codec.toStdvec state = .ok bytes ∧ r.save state m =
        (.ok (), r.set state (m.withWorld
          ((m.world.withTree (m.world.tree.insert r.key bytes)).withFaults fs)))) ∨
      ∃ e, r.save state m = (.error e, m.withWorld (m.world.withFaults fs)) := by
  cases hb : r.codec.toStdvec state with
  | error e =>
      refine ⟨m.world.faults, Or.inr ⟨.ofPostcard e, ?_⟩⟩
      rw [save, hb, liftPostcard, Eff.bind_of_error (Eff.ofExcept_run _ m)]
      rfl
  | ok bytes =>
      have hrun : r.save state m = (do
          MetadataManager.sys (Sys.commitWrites [.put r.key bytes])
          Eff.modify (r.set state) : MetaM Unit) m := by
        rw [save, hb, liftPostcard, Eff.bind_of_ok (Eff.ofExcept_run _ m)]
      obtain ⟨fs, hok | ⟨e, herr⟩⟩ := Sys.commitWrites_cases [.put r.key bytes] m.world
      · refine ⟨fs, Or.inl ⟨bytes, rfl, ?_⟩⟩
        rw [hrun, Eff.bind_of_ok (MetadataManager.sys_of_eq hok)]
        rfl
      · refine ⟨fs, Or.inr ⟨e, ?_⟩⟩
        rw [hrun, Eff.bind_of_error (MetadataManager.sys_of_eq herr)]

theorem save_ok {r : Record α} {state : α} {m m' : MetadataManager} {u : Unit}
    (h : r.save state m = (.ok u, m')) : r.get m' = state := by
  obtain ⟨fs, ⟨bytes, _, hok⟩ | ⟨e, herr⟩⟩ := r.save_cases state m
  · rw [hok] at h
    cases h
    exact r.get_set state _
  · rw [herr] at h
    cases h

theorem save_error {r : Record α} {state : α} {m m' : MetadataManager} {e : RaftError}
    (h : r.save state m = (.error e, m')) : ∃ w, m' = m.withWorld w := by
  obtain ⟨fs, ⟨bytes, _, hok⟩ | ⟨e, herr⟩⟩ := r.save_cases state m
  · rw [hok] at h
    cases h
  · rw [herr] at h
    cases h
    exact ⟨_, rfl⟩

/-- A save leaves alone what neither the commit nor the memory update reads. -/
theorem keeps_save {γ : Type} {g : MetadataManager → γ} {r : Record α} (state : α)
    (hcommit : ∀ writes, Eff.Keeps g (MetadataManager.sys (Sys.commitWrites writes)))
    (hset : ∀ m, g (r.set state m) = g m) : Eff.Keeps g (r.save state) :=
  .bind (.ofExcept _) fun _ => .bind (hcommit _) fun _ => .modify hset

/-- With no failure to come, a record that fits a buffer is saved. -/
theorem save_quiet {r : Record α} {state : α} {bytes : Bytes} {m : MetadataManager}
    (h : r.codec.toStdvec state = .ok bytes) (hf : m.world.faults = []) :
    r.save state m =
      (.ok (), r.set state (m.withWorld (m.world.withTree (m.world.tree.insert r.key bytes)))) := by
  rw [save, h, liftPostcard, Eff.bind_of_ok (Eff.ofExcept_run _ m),
    Eff.bind_of_ok (MetadataManager.sys_of_eq
      (Sys.commitWrites_quiet hf (Sys.keyed_put r.key_ne_nil bytes)))]
  rfl

/-- The value of a record after loading: what the tree holds, else the one before. -/
def recovered (r : Record α) (t : Tree) (before : α) : α :=
  match r.persisted t with
  | .ok (some state) => state
  | .ok none => before
  | .error _ => before

/-- Loading reads the record from the tree and, if it is there, puts it into memory. -/
theorem load_persisted {r : Record α} {m m' : MetadataManager} {u : Unit}
    (h : r.load m = (.ok u, m')) :
    ∃ fs state?, r.persisted m.world.tree = .ok state? ∧
      m' = r.set (state?.getD (r.get m)) (m.withWorld (m.world.withFaults fs)) := by
  obtain ⟨bytes?, m₁, hget, hrest⟩ := Eff.bind_eq_ok_iff.mp h
  obtain ⟨w₁, hsys, rfl⟩ := MetadataManager.sys_ok hget
  obtain ⟨_, w₂, hext, hread⟩ := Eff.bind_eq_ok_iff.mp hsys
  obtain ⟨fs, rfl⟩ := Sys.external_ok hext
  rw [Eff.gets_run, Prod.mk.injEq, Except.ok.injEq] at hread
  obtain ⟨rfl, rfl⟩ := hread
  rw [World.withFaults_tree] at hrest
  cases hkey : m.world.tree[r.key]? with
  | none =>
      rw [hkey] at hrest
      refine ⟨fs, none, by simp only [persisted, hkey], ?_⟩
      rw [Option.getD_none, r.set_get]
      exact (Prod.mk.inj hrest).2.symm
  | some bytes =>
      rw [hkey] at hrest
      obtain ⟨state, m₂, hdec, hset⟩ := Eff.bind_eq_ok_iff.mp hrest
      rw [Eff.ofExcept_run, Prod.mk.injEq] at hdec
      obtain ⟨hdec, rfl⟩ := hdec
      rw [liftPostcard_eq_ok_iff] at hdec
      exact ⟨fs, some state, by simp only [persisted, hkey, hdec], (Prod.mk.inj hset).2.symm⟩

/-- Loading puts into memory what the tree holds. -/
theorem load_ok {r : Record α} {m m' : MetadataManager} {u : Unit}
    (h : r.load m = (.ok u, m')) :
    ∃ fs, m' = r.set (r.recovered m.world.tree (r.get m))
      (m.withWorld (m.world.withFaults fs)) := by
  obtain ⟨fs, state?, hpersisted, rfl⟩ := load_persisted h
  refine ⟨fs, ?_⟩
  rw [recovered, hpersisted]
  cases state? <;> rfl

end Record

/-! ## The four records and their operations -/

namespace MetadataManager

def votingRecord : Record VotingState where
  key := Codec.utf8 "raft_vote"
  codec := VotingState.codec
  get := votingState
  set s m := { m with votingState := s }
  key_ne_nil := by decide
  get_set _ _ := rfl
  set_get _ _ := rfl

def appliedRecord : Record AppliedState where
  key := Codec.utf8 "raft_applied"
  codec := AppliedState.codec
  get := appliedState
  set s m := { m with appliedState := s }
  key_ne_nil := by decide
  get_set _ _ := rfl
  set_get _ _ := rfl

def snapshotRecord : Record SnapshotMetaState where
  key := Codec.utf8 "raft_snapshot_meta"
  codec := SnapshotMetaState.codec
  get := snapshotState
  set s m := { m with snapshotState := s }
  key_ne_nil := by decide
  get_set _ _ := rfl
  set_get _ _ := rfl

def mergeProgressRecord : Record MergeProgressState where
  key := Codec.utf8 "raft_merge_progress"
  codec := MergeProgressState.codec
  get := mergeProgressState
  set s m := { m with mergeProgressState := s }
  key_ne_nil := by decide
  get_set _ _ := rfl
  set_get _ _ := rfl

/-- Load all metadata from the tree. -/
def load : MetaM Unit := do
  sys (Sys.external RaftError.ofSurrealkv)
  votingRecord.load
  appliedRecord.load
  snapshotRecord.load
  mergeProgressRecord.load

/-- Loading recovers every record from the tree, which it leaves alone. -/
theorem load_ok {m m' : MetadataManager} {u : Unit} (h : load m = (.ok u, m')) :
    ∃ fs, m' = {
      world := m.world.withFaults fs
      votingState := votingRecord.recovered m.world.tree m.votingState
      appliedState := appliedRecord.recovered m.world.tree m.appliedState
      snapshotState := snapshotRecord.recovered m.world.tree m.snapshotState
      mergeProgressState := mergeProgressRecord.recovered m.world.tree m.mergeProgressState } := by
  obtain ⟨_, m₁, hext, h₁⟩ := Eff.bind_eq_ok_iff.mp h
  obtain ⟨w₁, hsys, rfl⟩ := sys_ok hext
  obtain ⟨fs₁, rfl⟩ := Sys.external_ok hsys
  obtain ⟨_, m₂, hvote, h₂⟩ := Eff.bind_eq_ok_iff.mp h₁
  obtain ⟨fs₂, rfl⟩ := Record.load_ok hvote
  obtain ⟨_, m₃, happ, h₃⟩ := Eff.bind_eq_ok_iff.mp h₂
  obtain ⟨fs₃, rfl⟩ := Record.load_ok happ
  obtain ⟨_, m₄, hsnap, hmerge⟩ := Eff.bind_eq_ok_iff.mp h₃
  obtain ⟨fs₄, rfl⟩ := Record.load_ok hsnap
  obtain ⟨fs₅, rfl⟩ := Record.load_ok hmerge
  exact ⟨fs₅, rfl⟩

def saveVotingState (state : VotingState) : MetaM Unit := votingRecord.save state

def saveAppliedState (state : AppliedState) : MetaM Unit := appliedRecord.save state

def saveSnapshotState (state : SnapshotMetaState) : MetaM Unit := snapshotRecord.save state

def saveMergeProgressState (state : MergeProgressState) : MetaM Unit :=
  mergeProgressRecord.save state

def getVotingState : MetaM VotingState := Eff.gets votingState

def getAppliedState : MetaM AppliedState := Eff.gets appliedState

def getSnapshotState : MetaM SnapshotMetaState := Eff.gets snapshotState

def getMergeProgressState : MetaM MergeProgressState := Eff.gets mergeProgressState

/-- Save the snapshot chain and the merge progress in one transaction. -/
def saveSnapshotAndMergeState (snapshotState : SnapshotMetaState)
    (mergeState : MergeProgressState) : MetaM Unit := do
  let snapshotBytes ← Eff.ofExcept
    (liftPostcard RaftError.ofPostcard (SnapshotMetaState.codec.toStdvec snapshotState))
  let mergeBytes ← Eff.ofExcept
    (liftPostcard RaftError.ofPostcard (MergeProgressState.codec.toStdvec mergeState))
  sys (Sys.commitWrites [.put snapshotRecord.key snapshotBytes,
    .put mergeProgressRecord.key mergeBytes])
  Eff.modify (snapshotRecord.set snapshotState)
  Eff.modify (mergeProgressRecord.set mergeState)

end MetadataManager

end OpenraftSurrealkv
