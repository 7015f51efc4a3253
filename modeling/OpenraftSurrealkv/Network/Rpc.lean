import OpenraftSurrealkv.Lib.Rpc
import OpenraftSurrealkv.Network

/-!
# Remote procedure calls between nodes

A client serializes a request of the consensus library, sends it, and tries again
after a failure or a timeout.  The server deserializes it, hands it to its
handler and serializes the answer.  Between the two is a network that may lose,
delay and reorder (`Rpc.Network`), with other clients on it.

The three calls differ in their name and in the types of the request and the
response, which are the consensus library's own.  Of these types only their
codecs matter here.
-/

namespace OpenraftSurrealkv

open Postcard Rpc

/-! ## The service -/

/-- The calls of the service. -/
inductive RaftMethod where
  | appendEntries
  | requestVote
  | installSnapshot
deriving DecidableEq, Repr

/-- A call as the client's errors name it. -/
def RaftMethod.name : RaftMethod → String
  | .appendEntries => "AppendEntries"
  | .requestVote => "RequestVote"
  | .installSnapshot => "InstallSnapshot"

/-- The messages of the consensus library and how they are serialized.  A response to
`installSnapshot` is a vote. -/
structure RaftMessages where
  AppendEntriesRequest : Type
  AppendEntriesResponse : Type
  VoteRequest : Type
  VoteResponse : Type
  appendEntriesRequest : Codec AppendEntriesRequest
  appendEntriesResponse : Codec AppendEntriesResponse
  voteRequest : Codec VoteRequest
  voteResponse : Codec VoteResponse
  installSnapshotRequest : Codec InstallSnapshotRequest
  installSnapshotResponse : Codec Vote

namespace RaftMessages

variable (msgs : RaftMessages)

def Request : RaftMethod → Type
  | .appendEntries => msgs.AppendEntriesRequest
  | .requestVote => msgs.VoteRequest
  | .installSnapshot => InstallSnapshotRequest

def Response : RaftMethod → Type
  | .appendEntries => msgs.AppendEntriesResponse
  | .requestVote => msgs.VoteResponse
  | .installSnapshot => Vote

def requestCodec : (m : RaftMethod) → Codec (msgs.Request m)
  | .appendEntries => msgs.appendEntriesRequest
  | .requestVote => msgs.voteRequest
  | .installSnapshot => msgs.installSnapshotRequest

def responseCodec : (m : RaftMethod) → Codec (msgs.Response m)
  | .appendEntries => msgs.appendEntriesResponse
  | .requestVote => msgs.voteResponse
  | .installSnapshot => msgs.installSnapshotResponse

end RaftMessages

/-! One choice of the codecs: the fields of a record one after the other. -/

def LogId.codec : Codec LogId :=
  (Codec.u64.pair Codec.u64).iso (fun x => ⟨x.1, x.2⟩) (fun l => (l.term, l.index)) fun _ => rfl

def Membership.codec : Codec Membership :=
  ((Codec.seq (Codec.seq Codec.u64)).pair (Codec.seq (Codec.u64.pair Codec.string))).iso
    (fun x => ⟨x.1, x.2.map fun p => (p.1, ⟨p.2⟩)⟩)
    (fun m => (m.configs, m.nodes.map fun p => (p.1, p.2.addr)))
    fun m => by
      rcases m with ⟨configs, nodes⟩
      simp only [List.map_map]
      exact congrArg (Membership.mk configs) (List.map_id nodes)

def StoredMembership.codec : Codec StoredMembership :=
  ((Codec.option LogId.codec).pair Membership.codec).iso (fun x => ⟨x.1, x.2⟩)
    (fun m => (m.logId, m.membership)) fun _ => rfl

def InstallSnapshotRequest.codec : Codec InstallSnapshotRequest :=
  (Vote.codec.pair <| ((Codec.option LogId.codec).pair <|
    StoredMembership.codec.pair Codec.string).pair <|
      Codec.u64.pair <| Codec.bytes.pair Codec.bool).iso
    (fun x => ⟨x.1, ⟨x.2.1.1, x.2.1.2.1, x.2.1.2.2⟩, x.2.2.1, x.2.2.2.1, x.2.2.2.2⟩)
    (fun r => (r.vote, (r.snapshotMeta.lastLogId, r.snapshotMeta.lastMembership,
      r.snapshotMeta.snapshotId), r.offset, r.data, r.done))
    fun _ => rfl

def EntryPayload.codec : Codec EntryPayload :=
  (Codec.option (KVRequest.codec.either Membership.codec)).iso
    (fun
      | none => .blank
      | some (.inl req) => .normal req
      | some (.inr m) => .membership m)
    (fun
      | .blank => none
      | .normal req => some (.inl req)
      | .membership m => some (.inr m))
    fun p => by cases p <;> rfl

def Entry.codec : Codec Entry :=
  (LogId.codec.pair EntryPayload.codec).iso (fun x => ⟨x.1, x.2⟩) (fun e => (e.logId, e.payload))
    fun _ => rfl

/-- The entries of a leader after the one with the previous log id. -/
structure AppendEntriesRequest where
  vote : Vote
  prevLogId : Option LogId
  entries : List Entry
  leaderCommit : Option LogId
deriving DecidableEq, Repr

def AppendEntriesRequest.codec : Codec AppendEntriesRequest :=
  (Vote.codec.pair <| (Codec.option LogId.codec).pair <|
    (Codec.seq Entry.codec).pair (Codec.option LogId.codec)).iso
    (fun x => ⟨x.1, x.2.1, x.2.2.1, x.2.2.2⟩)
    (fun r => (r.vote, r.prevLogId, r.entries, r.leaderCommit)) fun _ => rfl

inductive AppendEntriesResponse where
  | success
  | partialSuccess (matching : Option LogId)
  | conflict
  | higherVote (vote : Vote)
deriving DecidableEq, Repr

def AppendEntriesResponse.codec : Codec AppendEntriesResponse :=
  (Codec.bool.either ((Codec.option LogId.codec).either Vote.codec)).iso
    (fun
      | .inl true => .success
      | .inl false => .conflict
      | .inr (.inl matching) => .partialSuccess matching
      | .inr (.inr vote) => .higherVote vote)
    (fun
      | .success => .inl true
      | .conflict => .inl false
      | .partialSuccess matching => .inr (.inl matching)
      | .higherVote vote => .inr (.inr vote))
    fun r => by cases r <;> rfl

structure VoteRequest where
  vote : Vote
  lastLogId : Option LogId
deriving DecidableEq, Repr

def VoteRequest.codec : Codec VoteRequest :=
  (Vote.codec.pair (Codec.option LogId.codec)).iso (fun x => ⟨x.1, x.2⟩)
    (fun r => (r.vote, r.lastLogId)) fun _ => rfl

structure VoteResponse where
  vote : Vote
  voteGranted : Bool
  lastLogId : Option LogId
deriving DecidableEq, Repr

def VoteResponse.codec : Codec VoteResponse :=
  (Vote.codec.pair <| Codec.bool.pair (Codec.option LogId.codec)).iso
    (fun x => ⟨x.1, x.2.1, x.2.2⟩) (fun r => (r.vote, r.voteGranted, r.lastLogId)) fun _ => rfl

/-- The messages with the fields of the library's own. -/
def RaftMessages.fields : RaftMessages where
  AppendEntriesRequest := OpenraftSurrealkv.AppendEntriesRequest
  AppendEntriesResponse := OpenraftSurrealkv.AppendEntriesResponse
  VoteRequest := OpenraftSurrealkv.VoteRequest
  VoteResponse := OpenraftSurrealkv.VoteResponse
  appendEntriesRequest := AppendEntriesRequest.codec
  appendEntriesResponse := AppendEntriesResponse.codec
  voteRequest := VoteRequest.codec
  voteResponse := VoteResponse.codec
  installSnapshotRequest := InstallSnapshotRequest.codec
  installSnapshotResponse := Vote.codec

/-! ## The server -/

inductive StatusCode where
  | invalidArgument
  | internal
  /-- A code that the transport sets. -/
  | transport (name : String)
deriving DecidableEq, Repr

/-- The error that a call ends with. -/
structure Status where
  code : StatusCode
  message : String
deriving DecidableEq, Repr

/-- The node behind the server.  An error is its text. -/
structure RaftServiceHandler (msgs : RaftMessages) (σ : Type) where
  handle : (m : RaftMethod) → msgs.Request m → σ → Except String (msgs.Response m) × σ

/-- A node that grants everything and counts the calls. -/
def RaftServiceHandler.granting : RaftServiceHandler .fields Nat where
  handle
    | .appendEntries, _, n => (.ok AppendEntriesResponse.success, n + 1)
    | .requestVote, (req : VoteRequest), n => (.ok ⟨req.vote, true, req.lastLogId⟩, n + 1)
    | .installSnapshot, (req : InstallSnapshotRequest), n => (.ok req.vote, n + 1)

/-- A message of the service on the wire. -/
structure RaftMessage where
  method : RaftMethod
  payload : Bytes
deriving DecidableEq, Repr

/-- The execution is one of this request for this call: its message is the request, serialized, the
handler answered it with the response in the state that the server was in, and the reply is that
response, serialized. -/
structure RaftServiceHandler.Executed {msgs : RaftMessages} {C σ : Type}
    (handler : RaftServiceHandler msgs σ) (id : C) (m : RaftMethod) (req : msgs.Request m)
    (resp : msgs.Response m) (e : Execution C RaftMessage Status Bytes σ) : Prop where
  request : ∃ payload, (msgs.requestCodec m).toStdvec req = .ok payload ∧
    e.request = ⟨id, ⟨m, payload⟩⟩
  handled : (handler.handle m req e.before).1 = .ok resp
  reply : ∃ bytes, (msgs.responseCodec m).toStdvec resp = .ok bytes ∧ e.reply = .ok bytes

namespace RaftGrpcServer

variable {msgs : RaftMessages} {σ : Type}

/-- Serialize the answer of the handler. -/
def respond (m : RaftMethod) : Except String (msgs.Response m) → Except Status Bytes
  | .error e => .error ⟨.internal, "Raft operation failed: " ++ e⟩
  | .ok resp => ((msgs.responseCodec m).toStdvec resp).mapError fun e =>
      ⟨.internal, "Serialization failed: " ++ e.message⟩

/-- One call: deserialize, handle, serialize. -/
def serve (handler : RaftServiceHandler msgs σ) (message : RaftMessage) (s : σ) :
    Except Status Bytes × σ :=
  match (msgs.requestCodec message.method).fromBytes message.payload with
  | .error e => (.error ⟨.invalidArgument, "Deserialization failed: " ++ e.message⟩, s)
  | .ok req =>
      (respond message.method (handler.handle message.method req s).1,
        (handler.handle message.method req s).2)

def appendEntries (handler : RaftServiceHandler msgs σ) (payload : Bytes) (s : σ) :
    Except Status Bytes × σ :=
  serve handler ⟨.appendEntries, payload⟩ s

def requestVote (handler : RaftServiceHandler msgs σ) (payload : Bytes) (s : σ) :
    Except Status Bytes × σ :=
  serve handler ⟨.requestVote, payload⟩ s

def installSnapshot (handler : RaftServiceHandler msgs σ) (payload : Bytes) (s : σ) :
    Except Status Bytes × σ :=
  serve handler ⟨.installSnapshot, payload⟩ s

/-- A request that a client serialized reaches the handler as it was. -/
theorem serve_of_toStdvec {handler : RaftServiceHandler msgs σ} {m : RaftMethod}
    {req : msgs.Request m} {payload : Bytes}
    (h : (msgs.requestCodec m).toStdvec req = .ok payload) (s : σ) :
    serve handler ⟨m, payload⟩ s =
      (respond m (handler.handle m req s).1, (handler.handle m req s).2) := by
  simp only [serve, Codec.fromBytes_of_toStdvec h]

/-- A payload of the server is a response of the handler. -/
theorem respond_eq_ok {m : RaftMethod} {r : Except String (msgs.Response m)} {bytes : Bytes}
    (h : respond m r = .ok bytes) :
    ∃ resp, r = .ok resp ∧ (msgs.responseCodec m).toStdvec resp = .ok bytes := by
  cases r with
  | error e => cases h
  | ok resp =>
      refine ⟨resp, rfl, ?_⟩
      rw [respond] at h
      cases hbytes : (msgs.responseCodec m).toStdvec resp with
      | error e =>
          rw [hbytes] at h
          cases h
      | ok bytes' =>
          rw [hbytes] at h
          cases h
          rfl

end RaftGrpcServer

/-! ## The client -/

/-- The limit of the client on retries, with its default. -/
structure ClientConfig where
  maxRetries : Nat
deriving DecidableEq, Repr

def ClientConfig.default : ClientConfig := ⟨2⟩

/-- A connection: the address it goes to, and how many were made before it. -/
structure Channel where
  endpoint : String
  number : Nat
deriving DecidableEq, Repr

/-- A client that is connected to a node. -/
structure RaftGrpcClient where
  target : NodeId
  client : Channel
  config : ClientConfig
deriving DecidableEq, Repr

/-- The network to the server of a node, with calls of any kind on it. -/
abbrev PeerNetwork (C σ : Type) := Rpc.Network C RaftMessage Status Bytes σ

namespace RaftGrpcClient

variable {msgs : RaftMessages} {C σ : Type}

/-- The error after the last attempt, where a status is displayed in some way. -/
def giveUp (client : RaftGrpcClient) (showStatus : Status → String) (m : RaftMethod)
    (attempts : Nat) : AttemptError Status → RaftError
  | .failed e => .network (m.name ++ " RPC to node " ++ toString client.target ++
      " failed after " ++ toString attempts ++ " attempts: " ++ showStatus e)
  | .timedOut => .network (m.name ++ " RPC to node " ++ toString client.target ++
      " timed out after " ++ toString attempts ++ " attempts")

/-- One call: serialize, send until it is answered, deserialize. -/
def call (client : RaftGrpcClient) (showStatus : Status → String)
    (handler : RaftServiceHandler msgs σ) (m : RaftMethod) (id : C) (req : msgs.Request m) :
    Eff (PeerNetwork C σ) RaftError (msgs.Response m) := do
  let payload ← Eff.ofExcept <|
    liftPostcard (fun e => .serialization ("Failed to serialize request: " ++ e.message))
      ((msgs.requestCodec m).toStdvec req)
  let response ← Eff.retry (client.giveUp showStatus m)
    (Rpc.Network.request (RaftGrpcServer.serve handler) ⟨id, ⟨m, payload⟩⟩)
    client.config.maxRetries 0
  Eff.ofExcept <|
    liftPostcard (fun e => .serialization ("Failed to deserialize response: " ++ e.message))
      ((msgs.responseCodec m).fromBytes response)

def appendEntries (client : RaftGrpcClient) (showStatus : Status → String)
    (handler : RaftServiceHandler msgs σ) (id : C) (req : msgs.AppendEntriesRequest) :
    Eff (PeerNetwork C σ) RaftError msgs.AppendEntriesResponse :=
  client.call showStatus handler .appendEntries id req

def requestVote (client : RaftGrpcClient) (showStatus : Status → String)
    (handler : RaftServiceHandler msgs σ) (id : C) (req : msgs.VoteRequest) :
    Eff (PeerNetwork C σ) RaftError msgs.VoteResponse :=
  client.call showStatus handler .requestVote id req

def installSnapshot (client : RaftGrpcClient) (showStatus : Status → String)
    (handler : RaftServiceHandler msgs σ) (id : C) (req : InstallSnapshotRequest) :
    Eff (PeerNetwork C σ) RaftError Vote :=
  client.call showStatus handler .installSnapshot id req

/-! ## What a call comes down to -/

section

variable {client : RaftGrpcClient} {showStatus : Status → String}
  {handler : RaftServiceHandler msgs σ} {m : RaftMethod} {id : C} {req : msgs.Request m}
  {net net' : PeerNetwork C σ}

/-- The loop of a call that serialized its request. -/
def attempts (client : RaftGrpcClient) (showStatus : Status → String)
    (handler : RaftServiceHandler msgs σ) (m : RaftMethod) (id : C) (payload : Bytes) :
    Eff (PeerNetwork C σ) RaftError Bytes :=
  Eff.retry (client.giveUp showStatus m)
    (Rpc.Network.request (RaftGrpcServer.serve handler) ⟨id, ⟨m, payload⟩⟩)
    client.config.maxRetries 0

theorem call_of_toStdvec_error {err : Postcard.Error}
    (h : (msgs.requestCodec m).toStdvec req = .error err) :
    client.call showStatus handler m id req net =
      (.error (.serialization ("Failed to serialize request: " ++ err.message)), net) := by
  rw [call, h, liftPostcard]
  exact Eff.bind_of_error (Eff.ofExcept_run _ net)

theorem call_of_attempts_error {payload : Bytes} {e : RaftError}
    (h : (msgs.requestCodec m).toStdvec req = .ok payload)
    (hloop : client.attempts showStatus handler m id payload net = (.error e, net')) :
    client.call showStatus handler m id req net = (.error e, net') := by
  rw [call, h, liftPostcard, Eff.bind_of_ok (Eff.ofExcept_run _ net)]
  exact Eff.bind_of_error hloop

theorem call_of_attempts_ok {payload response : Bytes}
    (h : (msgs.requestCodec m).toStdvec req = .ok payload)
    (hloop : client.attempts showStatus handler m id payload net = (.ok response, net')) :
    client.call showStatus handler m id req net =
      (liftPostcard (fun e => .serialization ("Failed to deserialize response: " ++ e.message))
        ((msgs.responseCodec m).fromBytes response), net') := by
  rw [call, h, liftPostcard, Eff.bind_of_ok (Eff.ofExcept_run _ net)]
  exact (Eff.bind_of_ok hloop).trans rfl

/-- What is read from an answer is what the handler returned for the request. -/
theorem attempts_ok {s₀ : σ} {payload response : Bytes}
    (hsound : net.Sound (RaftGrpcServer.serve handler) s₀)
    (h : (msgs.requestCodec m).toStdvec req = .ok payload)
    (hloop : client.attempts showStatus handler m id payload net = (.ok response, net')) :
    ∃ e ∈ net'.executed.drop net.executed.length, ∃ resp, handler.Executed id m req resp e ∧
      (msgs.responseCodec m).fromBytes response = .ok resp := by
  obtain ⟨e, he, _, hrequest, hreply, hserved⟩ := Rpc.Network.retry_request_ok hsound hloop
  rw [RaftGrpcServer.serve_of_toStdvec h] at hserved
  obtain ⟨resp, hresp, hbytes⟩ := RaftGrpcServer.respond_eq_ok hserved
  exact ⟨e, he, resp, ⟨⟨payload, h, hrequest⟩, hresp, ⟨response, hbytes, hreply⟩⟩,
    Codec.fromBytes_of_toStdvec hbytes⟩

/-- A call that returns a response was executed, with that response. -/
theorem call_ok {s₀ : σ} {resp : msgs.Response m}
    (hsound : net.Sound (RaftGrpcServer.serve handler) s₀)
    (h : client.call showStatus handler m id req net = (.ok resp, net')) :
    ∃ e ∈ net'.executed.drop net.executed.length, handler.Executed id m req resp e := by
  cases hpayload : (msgs.requestCodec m).toStdvec req with
  | error err =>
      rw [call_of_toStdvec_error hpayload] at h
      cases h
  | ok payload =>
      rcases hloop : client.attempts showStatus handler m id payload net with ⟨e | response, net₁⟩
      · rw [call_of_attempts_error hpayload hloop] at h
        cases h
      · obtain ⟨e, he, resp', hexecuted, hdecode⟩ := attempts_ok hsound hpayload hloop
        rw [call_of_attempts_ok hpayload hloop, hdecode, liftPostcard] at h
        cases h
        exact ⟨e, he, hexecuted⟩

/-- A call that fails could not serialize its request or ran out of attempts.  What the server
answers can be deserialized. -/
theorem call_error {s₀ : σ} {e : RaftError}
    (hsound : net.Sound (RaftGrpcServer.serve handler) s₀)
    (h : client.call showStatus handler m id req net = (.error e, net')) :
    (∃ err, (msgs.requestCodec m).toStdvec req = .error err ∧
      e = .serialization ("Failed to serialize request: " ++ err.message) ∧ net' = net) ∨
    ∃ payload f, (msgs.requestCodec m).toStdvec req = .ok payload ∧
      client.attempts showStatus handler m id payload net = (.error e, net') ∧
      e = client.giveUp showStatus m (client.config.maxRetries + 1) f := by
  cases hpayload : (msgs.requestCodec m).toStdvec req with
  | error err =>
      rw [call_of_toStdvec_error hpayload] at h
      cases h
      exact .inl ⟨err, rfl, rfl, rfl⟩
  | ok payload =>
      rcases hloop : client.attempts showStatus handler m id payload net with ⟨e' | response, net₁⟩
      · rw [call_of_attempts_error hpayload hloop] at h
        cases h
        obtain ⟨f, _, _, _, he⟩ := Eff.retry_error hloop
        rw [Nat.zero_add] at he
        exact .inr ⟨payload, f, rfl, hloop, he⟩
      · obtain ⟨_, _, resp, _, hdecode⟩ := attempts_ok hsound hpayload hloop
        rw [call_of_attempts_ok hpayload hloop, hdecode, liftPostcard] at h
        cases h

end

end RaftGrpcClient

end OpenraftSurrealkv
