import OpenraftSurrealkv.Storage

/-!
# The interface of the consensus library

The store is the log storage, the state machine and the snapshot builder of the
consensus library.  Every error leaves as an I/O error with the text of the
original one.
-/

namespace OpenraftSurrealkv

open Postcard

namespace SurrealStorage

/-- An error as the traits report it. -/
def asIo {α : Type} (x : Op α) : Op α := Eff.mapErr RaftError.ioOther x

/-! ## Reading the log -/

/-- One end of a range of indices. -/
inductive Bound where
  | included (v : UInt64)
  | excluded (v : UInt64)
  | unbounded
deriving DecidableEq, Repr

def rangeStart : Bound → UInt64
  | .included v => v
  | .excluded v => saturatingAdd v 1
  | .unbounded => 0

def rangeEndInclusive : Bound → UInt64
  | .included v => v
  | .excluded v => saturatingSub v 1
  | .unbounded => u64Max

/-- `RaftLogReader::try_get_log_entries`. -/
def readLogEntries (lo hi : Bound) : Op (List Entry) := do
  let start := rangeStart lo
  let stop := rangeEndInclusive hi
  if stop < start then pure []
  else Eff.gets fun n => (OrdMap.range n.raftEntries start stop).map Prod.snd

structure LogState where
  lastPurgedLogId : Option LogId
  lastLogId : Option LogId
deriving DecidableEq, Repr

/-- The last log id: of the last entry, else the purged one. -/
def lastLogId (n : SurrealStorage) : Option LogId :=
  (n.raftEntries.toList.getLast?.map fun p => p.2.logId).or n.lastPurgedLogId

def getLogState : Op LogState := Eff.gets fun n => ⟨n.lastPurgedLogId, n.lastLogId⟩

def raftVoteV2Key : Bytes := Codec.utf8 "raft_vote_v2"

def readVote : Op (Option Vote) := do
  sys (Sys.external .io)
  let bytes? ← sys (Sys.getKey .io raftVoteV2Key)
  match bytes? with
  | some bytes => do
      let vote ← Eff.ofExcept (liftPostcard (fun e => .io e.message) (Vote.codec.fromBytes bytes))
      pure (some vote)
  | none => do
      let v ← onMetadata MetadataManager.getVotingState
      pure (v.votedFor.map fun id => ⟨v.currentTerm, some id, false⟩)

/-! ## Writing the log -/

def saveVote (vote : Vote) : Op Unit := do
  asIo (onMetadata (MetadataManager.saveVotingState ⟨vote.term, vote.votedFor⟩))
  let data ← Eff.ofExcept (liftPostcard (fun e => .io e.message) (Vote.codec.toStdvec vote))
  sys (Sys.transaction .io .io .io [.put raftVoteV2Key data])

/-- Record the request of a normal entry. -/
def recordRequest (entry : Entry) : Op Unit :=
  match entry.payload with
  | .normal req => asIo (appendLogEntry entry.term entry.index req)
  | .blank => pure ()
  | .membership _ => pure ()

/-- One entry of `append`: a request is recorded first, then the entry enters the log. -/
def appendEntry (entry : Entry) : Op Unit := do
  recordRequest entry
  Eff.modify fun n => { n with raftEntries := n.raftEntries.insert entry.index entry }

def append : List Entry → Op Unit
  | [] => pure ()
  | entry :: rest => do
      appendEntry entry
      append rest

def truncateAfter (lastLogId : Option LogId) : Op Unit :=
  Eff.modify fun n =>
    { n with raftEntries := match lastLogId with
        | some last => n.raftEntries.filter fun idx _ => idx ≤ last.index
        | none => ∅ }

def purge (logId : LogId) : Op Unit :=
  Eff.modify fun n =>
    { n with
      raftEntries := n.raftEntries.filter fun idx _ => logId.index < idx
      lastPurgedLogId := some logId }

/-! ## The state machine -/

/-- The applied log id, which is not reported at index `0`, and the membership. -/
def appliedState : Op (Option LogId × StoredMembership) := do
  let st ← onMetadata MetadataManager.getAppliedState
  let last := if st.lastAppliedIndex = 0 then none
    else some ⟨st.lastAppliedTerm, st.lastAppliedIndex⟩
  let membership ← Eff.gets lastMembership
  pure (last, membership)

/-- What an entry does to the state machine. -/
def applyPayload (entry : Entry) : Op KVResponse :=
  match entry.payload with
  | .blank => pure .ok
  | .membership membership => do
      Eff.modify fun n => { n with lastMembership := ⟨some entry.logId, membership⟩ }
      pure .ok
  | .normal req => do
      let resp ← asIo (applyRequest req)
      asIo (appendLogEntry entry.term entry.index req)
      pure resp

/-- One entry of `apply`, from the stream it is read from to the response. -/
def applyEntry (entry : Entry) : Op KVResponse := do
  sys (Sys.external .io)
  let response ← applyPayload entry
  asIo (onMetadata (MetadataManager.saveAppliedState ⟨entry.index, entry.term⟩))
  pure response

def apply : List Entry → Op Unit
  | [] => pure ()
  | entry :: rest => do
      let _ ← applyEntry entry
      apply rest

/-! ## Snapshots -/

/-- `RaftSnapshotBuilder::build_snapshot`. -/
def buildSnapshot (ar : Archiver) : Op Snapshot := do
  let applied ← onMetadata MetadataManager.getAppliedState
  let snap ← asIo (buildSnapshotAuto ar applied.lastAppliedTerm)
  let membership ← Eff.gets lastMembership
  let snap : Snapshot :=
    { snap with snapshotMeta := { snap.snapshotMeta with lastMembership := membership } }
  Eff.modify fun n => { n with currentSnapshot := some snap }
  pure snap

/-- Move the applied position to the log id of a snapshot. -/
def saveLastLogId : Option LogId → Op Unit
  | some last => asIo (onMetadata (MetadataManager.saveAppliedState ⟨last.index, last.term⟩))
  | none => pure ()

/-- `RaftStateMachine::install_snapshot`. -/
def installSnapshot (ar : Archiver) (snapshotMeta : SnapshotMeta) (snapshot : Bytes) :
    Op Unit := do
  asIo (installSnapshotAuto ar ⟨snapshotMeta, snapshot⟩)
  saveLastLogId snapshotMeta.lastLogId
  Eff.modify fun n =>
    { n with
      lastMembership := snapshotMeta.lastMembership
      currentSnapshot := some ⟨snapshotMeta, snapshot⟩ }

def getCurrentSnapshot : Op (Option Snapshot) := Eff.gets currentSnapshot

end SurrealStorage

end OpenraftSurrealkv
