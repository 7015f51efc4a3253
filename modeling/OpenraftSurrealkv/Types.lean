import OpenraftSurrealkv.Lib.Postcard
import OpenraftSurrealkv.Lib.Replay

/-!
# Requests, log entries, snapshots and errors

The data that moves through the store.  A client request sets or deletes a
key.  A Raft log entry is blank, a membership or a request, under a log id of a
term and an index.  A delta snapshot carries `DeltaEntry`s, which are requests
in postcard form under their log id, and an envelope in front of them or of a
checkpoint archive says which of the two it is.

The types of the consensus library that the store only carries around (log ids,
votes, memberships, snapshot metadata) have the fields that the store reads and
writes.  A set of voters and the map of nodes are lists in key order.
-/

namespace OpenraftSurrealkv

open Postcard

/-! ## Errors -/

/-- The error of every fallible operation.  An I/O error is its text. -/
inductive RaftError where
  | io (text : String)
  | serialization (text : String)
  | storage (text : String)
  | network (text : String)
  | raftProto (text : String)
  | snapshot (text : String)
  | stateMachine (text : String)
  | other (text : String)
deriving DecidableEq, Repr

/-- The text an error is displayed with. -/
def RaftError.display : RaftError → String
  | .io e => "IO error: " ++ e
  | .serialization msg => "Serialization error: " ++ msg
  | .storage msg => "Storage error: " ++ msg
  | .network msg => "Network error: " ++ msg
  | .raftProto msg => "Raft protocol error: " ++ msg
  | .snapshot msg => "Snapshot error: " ++ msg
  | .stateMachine msg => "State machine error: " ++ msg
  | .other msg => "Error: " ++ msg

/-- `From<postcard::Error>`. -/
def RaftError.ofPostcard (e : Postcard.Error) : RaftError := .serialization e.message

/-- `From<surrealkv::Error>`. -/
def RaftError.ofSurrealkv (text : String) : RaftError := .storage ("SurrealKV error: " ++ text)

/-- `io::Error::other`, under which the trait methods report every error. -/
def RaftError.ioOther (e : RaftError) : RaftError := .io e.display

/-- A postcard result under another error. -/
def liftPostcard {α : Type} (f : Postcard.Error → RaftError) : Except Postcard.Error α →
    Except RaftError α
  | .ok a => .ok a
  | .error e => .error (f e)

theorem liftPostcard_eq_ok_iff {α : Type} {f : Postcard.Error → RaftError}
    {r : Except Postcard.Error α} {a : α} : liftPostcard f r = .ok a ↔ r = .ok a := by
  cases r with
  | ok b => simp [liftPostcard]
  | error e => simp [liftPostcard]

/-! ## Saturating arithmetic -/

/-- `u64::MAX`. -/
def u64Max : UInt64 := 18446744073709551615

/-- `u64::saturating_add`. -/
def saturatingAdd (a b : UInt64) : UInt64 := if a.toNat + b.toNat < 2 ^ 64 then a + b else u64Max

theorem le_u64Max (i : UInt64) : i ≤ u64Max := by
  unfold u64Max
  grind

theorem le_saturatingAdd_one (c : UInt64) : c ≤ saturatingAdd c 1 := by
  unfold saturatingAdd
  split
  next h =>
    rw [UInt64.le_iff_toNat_le, UInt64.toNat_add, Nat.mod_eq_of_lt h]
    exact Nat.le_add_right _ _
  next => exact le_u64Max c

theorem saturatingAdd_u64Max : saturatingAdd u64Max 1 = u64Max := by decide

/-- Below the greatest index the next index is the start of the greater ones. -/
theorem saturatingAdd_one_le_iff {c i : UInt64} (h : c < u64Max) :
    saturatingAdd c 1 ≤ i ↔ c < i := by
  have hlt : c.toNat + (1 : UInt64).toNat < 2 ^ 64 := by
    have hc := UInt64.lt_iff_toNat_lt.mp h
    have hmax : u64Max.toNat = 2 ^ 64 - 1 := by decide
    have hone : (1 : UInt64).toNat = 1 := by decide
    omega
  rw [saturatingAdd, if_pos hlt]
  unfold u64Max at h
  grind

/-- `u64::saturating_sub`. -/
def saturatingSub (a b : UInt64) : UInt64 := if b ≤ a then a - b else 0

/-! ## Requests -/

abbrev NodeId := UInt64

/-- A client request. -/
inductive KVRequest where
  | set (key : String) (value : Bytes)
  | delete (key : String)
deriving DecidableEq, Repr

/-- The answer to a request. -/
inductive KVResponse where
  | ok
  | value (bytes : Bytes)
  | err (text : String)
deriving DecidableEq, Repr

namespace KVRequest

/-- A request as an update of a map. -/
def update : KVRequest → Update String Bytes
  | .set key value => .put key value
  | .delete key => .del key

/-- The key a request writes. -/
def key : KVRequest → String
  | .set key _ => key
  | .delete key => key

@[simp] theorem key_update (req : KVRequest) : req.update.key = req.key := by
  cases req <;> rfl

def codec : Codec KVRequest :=
  ((Codec.string.pair Codec.bytes).either Codec.string).iso
    (fun x => match x with | .inl (key, value) => .set key value | .inr key => .delete key)
    (fun req => match req with | .set key value => .inl (key, value) | .delete key => .inr key)
    (fun req => by cases req <;> rfl)

end KVRequest

/-! ## The log -/

/-- A log id: the term of the leader that made the entry, and its index. -/
structure LogId where
  term : UInt64
  index : UInt64
deriving DecidableEq, Repr

/-- A vote: the leader it is for, and whether a quorum granted it. -/
structure Vote where
  term : UInt64
  votedFor : Option NodeId
  committed : Bool
deriving DecidableEq, Repr

def Vote.codec : Codec Vote :=
  (Codec.u64.pair ((Codec.option Codec.u64).pair Codec.bool)).iso
    (fun x => ⟨x.1, x.2.1, x.2.2⟩) (fun v => (v.term, v.votedFor, v.committed)) (fun _ => rfl)

/-- A vote always fits a buffer. -/
theorem Vote.toStdvec_eq (vote : Vote) :
    Vote.codec.toStdvec vote = .ok (Vote.codec.encode vote) :=
  (Codec.short_u64.pair (Codec.short_u64.option.pair Codec.short_bool)).iso.toStdvec_eq (by omega)
    vote

/-- The address of a cluster member. -/
structure BasicNode where
  addr : String
deriving DecidableEq, Repr

/-- The voters of a cluster, in one or more configurations, and its nodes. -/
structure Membership where
  configs : List (List NodeId)
  nodes : List (NodeId × BasicNode)
deriving DecidableEq, Repr

/-- A membership and the log id of the entry it came with. -/
structure StoredMembership where
  logId : Option LogId
  membership : Membership
deriving DecidableEq, Repr

/-- What a log entry says. -/
inductive EntryPayload where
  | blank
  | normal (req : KVRequest)
  | membership (m : Membership)
deriving DecidableEq, Repr

/-- A Raft log entry. -/
structure Entry where
  logId : LogId
  payload : EntryPayload
deriving DecidableEq, Repr

namespace Entry

def term (e : Entry) : UInt64 := e.logId.term

def index (e : Entry) : UInt64 := e.logId.index

/-- An entry that sets a key. -/
def put (term index : UInt64) (key : String) (value : Bytes) : Entry :=
  ⟨⟨term, index⟩, .normal (.set key value)⟩

/-- The request of a normal entry. -/
def request? (e : Entry) : Option KVRequest :=
  match e.payload with
  | .normal req => some req
  | .blank => none
  | .membership _ => none

/-- Whether the entry carries a request. -/
def isNormal (e : Entry) : Bool := e.request?.isSome

theorem isNormal_iff {e : Entry} : e.isNormal = true ↔ ∃ req, e.payload = .normal req := by
  rcases e with ⟨id, p⟩
  cases p with
  | blank => simp [isNormal, request?]
  | normal req => simp [isNormal, request?]
  | membership m => simp [isNormal, request?]

end Entry

/-- The store's own record of a request in the log, with the request in postcard form. -/
structure LogEntry where
  term : UInt64
  index : UInt64
  payload : Bytes
deriving DecidableEq, Repr

/-! ## Snapshots -/

/-- An entry of a delta snapshot, with its request in postcard form. -/
structure DeltaEntry where
  term : UInt64
  index : UInt64
  payload : Bytes
deriving DecidableEq, Repr

def DeltaEntry.codec : Codec DeltaEntry :=
  (Codec.u64.pair (Codec.u64.pair Codec.bytes)).iso
    (fun x => ⟨x.1, x.2.1, x.2.2⟩) (fun e => (e.term, e.index, e.payload)) (fun _ => rfl)

/-- The metadata of a checkpoint that a full snapshot carries. -/
structure CheckpointMetadata where
  appliedIndex : UInt64
  term : UInt64
  sequenceNumber : UInt64
  timestamp : UInt64
  crc32 : UInt32
  checkpointDir : String
  compressedSize : UInt64
deriving DecidableEq, Repr

def CheckpointMetadata.codec : Codec CheckpointMetadata :=
  (Codec.u64.pair <| Codec.u64.pair <| Codec.u64.pair <| Codec.u64.pair <| Codec.u32.pair <|
    Codec.string.pair Codec.u64).iso
    (fun x => ⟨x.1, x.2.1, x.2.2.1, x.2.2.2.1, x.2.2.2.2.1, x.2.2.2.2.2.1, x.2.2.2.2.2.2⟩)
    (fun m => (m.appliedIndex, m.term, m.sequenceNumber, m.timestamp, m.crc32, m.checkpointDir,
      m.compressedSize))
    (fun _ => rfl)

/-- What a snapshot payload is: a checkpoint archive, or the entries after a base index. -/
inductive SnapshotFormat where
  | full (checkpointMeta : CheckpointMetadata)
  | delta (baseIndex entryCount : UInt64)
deriving DecidableEq, Repr

def SnapshotFormat.codec : Codec SnapshotFormat :=
  (CheckpointMetadata.codec.either (Codec.u64.pair Codec.u64)).iso
    (fun x => match x with | .inl m => .full m | .inr (base, count) => .delta base count)
    (fun f => match f with | .full m => .inl m | .delta base count => .inr (base, count))
    (fun f => by cases f <;> rfl)

/-- The metadata in front of a snapshot payload. -/
structure DeltaMetadata where
  format : SnapshotFormat
  sizeBytes : UInt64
  createdAt : UInt64
  filePath : Option String
  version : UInt16
deriving DecidableEq, Repr

namespace DeltaMetadata

def new (format : SnapshotFormat) (sizeBytes createdAt : UInt64) : DeltaMetadata :=
  { format, sizeBytes, createdAt, filePath := none, version := 2 }

def withFilePath (m : DeltaMetadata) (path : String) : DeltaMetadata :=
  { m with filePath := some path }

def codec : Codec DeltaMetadata :=
  (SnapshotFormat.codec.pair <| Codec.u64.pair <| Codec.u64.pair <|
    (Codec.option Codec.string).pair Codec.u16).iso
    (fun x => ⟨x.1, x.2.1, x.2.2.1, x.2.2.2.1, x.2.2.2.2⟩)
    (fun m => (m.format, m.sizeBytes, m.createdAt, m.filePath, m.version))
    (fun _ => rfl)

end DeltaMetadata

/-- The consensus library's metadata of a snapshot. -/
structure SnapshotMeta where
  lastLogId : Option LogId
  lastMembership : StoredMembership
  snapshotId : String
deriving DecidableEq, Repr

/-- A snapshot: its metadata and its bytes. -/
structure Snapshot where
  snapshotMeta : SnapshotMeta
  snapshot : Bytes
deriving DecidableEq, Repr

end OpenraftSurrealkv
