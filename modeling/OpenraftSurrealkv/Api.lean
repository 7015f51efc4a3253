import OpenraftSurrealkv.App
import OpenraftSurrealkv.Lib.Base64

/-!
# The handlers of the HTTP service

A read answers from the map of the node.  A write goes through the node's
`clientWrite` when the service has a node, and runs on the map when it has none.
The store is shared between the handlers and the node.
-/

namespace OpenraftSurrealkv

open Postcard

namespace Api

/-- The node of the service, beside the store that the two share. -/
structure RaftHandle where
  isStandalone : Bool
  nodeId : UInt64
  raft : Bool
deriving DecidableEq, Repr

/-- The state behind the handlers. -/
structure AppState where
  storage : SurrealStorage
  raftNode : Option RaftHandle

/-- An operation of the store. -/
def onStorage {α : Type} (x : Op α) : Eff AppState RaftError α :=
  Eff.zoom AppState.storage (fun n s => { s with storage := n }) x

/-- The node on the shared store. -/
def AppState.node (s : AppState) (handle : RaftHandle) : RaftNode :=
  ⟨handle.isStandalone, handle.nodeId, s.storage, handle.raft⟩

/-- An operation of the node. -/
def onNode {α : Type} (handle : RaftHandle) (x : Eff RaftNode String α) :
    Eff AppState String α :=
  Eff.zoom (fun s => s.node handle) (fun node s => { s with storage := node.storage }) x

/-! ## Responses -/

inductive AppError where
  | notFound (msg : String)
  | internal (msg : String)
deriving DecidableEq, Repr

inductive StatusCode where
  | ok
  | notFound
  | internalServerError
deriving DecidableEq, Repr

/-- The body of a response: `ValueResponse`, `SuccessResponse` or `ErrorResponse`. -/
inductive Body where
  | value (value : String)
  | success (message : String)
  | error (error : String)
deriving DecidableEq, Repr

structure Response where
  status : StatusCode
  body : Body
deriving DecidableEq, Repr

def AppError.intoResponse : AppError → Response
  | .notFound msg => ⟨.notFound, .error msg⟩
  | .internal msg => ⟨.internalServerError, .error msg⟩

/-- The response to what a handler returns. -/
def respond : Except AppError Body → Response
  | .ok body => ⟨.ok, body⟩
  | .error e => e.intoResponse

/-- An error of the operation as an internal error. -/
def internal {ε α : Type} (display : ε → String) (x : Eff AppState ε α) : Eff AppState AppError α :=
  fun s => ((x s).1.mapError fun e => .internal (display e), (x s).2)

/-! ## Handlers -/

/-- The value as it is sent. -/
def encodeValue (v : Bytes) : String := String.ofList (Base64.encode v)

def getKey (key : String) : Eff AppState AppError Body := do
  match ← internal RaftError.display (onStorage (SurrealStorage.read key)) with
  | some v => pure (.value (encodeValue v))
  | none => Eff.fail (.notFound ("Key '" ++ key ++ "' not found"))

/-- Run a request through the node or on the map, where the consensus library answers as given. -/
def runRequest (answer : Except String KVResponse) (req : KVRequest) :
    Eff AppState AppError KVResponse := fun s =>
  match s.raftNode with
  | some handle => internal id (onNode handle (RaftNode.clientWrite answer req)) s
  | none => internal RaftError.display (onStorage (SurrealStorage.applyRequest req)) s

/-- A write and the message of its success. -/
def writeKey (answer : Except String KVResponse) (req : KVRequest) (message : String) :
    Eff AppState AppError Body := do
  let _ ← runRequest answer req
  pure (.success message)

def putKey (answer : Except String KVResponse) (key : String) (body : Bytes) :
    Eff AppState AppError Body :=
  writeKey answer (.set key body) ("Key '" ++ key ++ "' updated successfully")

def deleteKey (answer : Except String KVResponse) (key : String) : Eff AppState AppError Body :=
  writeKey answer (.delete key) ("Key '" ++ key ++ "' deleted successfully")

/-! ## What the handlers do -/

/-- Whether a write runs on the map of the node. -/
def AppState.runsLocally (s : AppState) (answer : Except String KVResponse) : Bool :=
  s.raftNode.all fun handle => (s.node handle).fallsBack answer

/-- The response to a read that finds the given value. -/
def answerTo (key : String) : Option Bytes → Response
  | some v => ⟨.ok, .value (encodeValue v)⟩
  | none => ⟨.notFound, .error ("Key '" ++ key ++ "' not found")⟩

theorem respond_getKey (key : String) (s : AppState) :
    respond (getKey key s).1 = answerTo key s.storage.stateMachine[key]? := by
  have hread : internal RaftError.display (onStorage (SurrealStorage.read key)) s =
      (.ok s.storage.stateMachine[key]?, s) := rfl
  rw [getKey, Eff.bind_of_ok hread]
  cases s.storage.stateMachine[key]? <;> rfl

theorem runRequest_state (answer : Except String KVResponse) (req : KVRequest) (s : AppState) :
    (runRequest answer req s).2 =
      if s.runsLocally answer then
        { s with storage := { s.storage with
            stateMachine := req.update.run s.storage.stateMachine } }
      else s := by
  rcases s with ⟨n, raftNode⟩
  cases raftNode with
  | none => rfl
  | some handle =>
      have hnode : (runRequest answer req ⟨n, some handle⟩).2 = AppState.mk
          (RaftNode.clientWrite answer req (AppState.node ⟨n, some handle⟩ handle)).2.storage
          (some handle) := rfl
      rw [hnode, RaftNode.clientWrite_state]
      have hlocal : AppState.runsLocally ⟨n, some handle⟩ answer =
          (AppState.node ⟨n, some handle⟩ handle).fallsBack answer := rfl
      rw [hlocal]
      split <;> rfl

/-- A write changes the map exactly when it runs locally, and nothing else. -/
theorem writeKey_state (answer : Except String KVResponse) (req : KVRequest) (message : String)
    (s : AppState) :
    (writeKey answer req message s).2 =
      if s.runsLocally answer then
        { s with storage := { s.storage with
            stateMachine := req.update.run s.storage.stateMachine } }
      else s := by
  rw [← runRequest_state]
  rcases hrun : runRequest answer req s with ⟨e | resp, s'⟩
  · rw [writeKey, Eff.bind_of_error hrun]
  · rw [writeKey, Eff.bind_of_ok hrun]
    rfl

/-- A write that succeeds ran on the map of the node, or the consensus library accepted it. -/
theorem of_clientWrite_ok {answer : Except String KVResponse} {req : KVRequest}
    {node node' : RaftNode} {resp : KVResponse}
    (h : RaftNode.clientWrite answer req node = (.ok resp, node')) :
    node.fallsBack answer = true ∨ answer = .ok resp := by
  rcases node with ⟨standalone, id, n, raft⟩
  cases raft with
  | false => exact .inl rfl
  | true =>
      cases answer with
      | ok resp' => exact .inr (congrArg Except.ok (Eff.ok_inj h).1)
      | error msg =>
          cases hfall : fallbackAllowed msg with
          | true => exact .inl hfall
          | false =>
              have hrun : RaftNode.clientWrite (.error msg) req ⟨standalone, id, n, true⟩ =
                  (.error ("raft client_write failed: " ++ msg), ⟨standalone, id, n, true⟩) :=
                if_neg (by rw [hfall]; decide)
              cases hrun.symm.trans h

theorem of_writeKey_ok {answer : Except String KVResponse} {req : KVRequest} {message : String}
    {s s' : AppState} {body : Body} (h : writeKey answer req message s = (.ok body, s')) :
    body = .success message ∧ (s.runsLocally answer = true ∨ ∃ resp, answer = .ok resp) := by
  obtain ⟨resp, s₁, hrun, hpure⟩ := Eff.bind_eq_ok_iff.mp h
  refine ⟨(Eff.ok_inj hpure).1.symm, ?_⟩
  rcases s with ⟨n, raftNode⟩
  cases raftNode with
  | none => exact .inl rfl
  | some handle =>
      rcases hwrite : RaftNode.clientWrite answer req (AppState.node ⟨n, some handle⟩ handle) with
        ⟨e | resp', node'⟩
      · have herr : runRequest answer req ⟨n, some handle⟩ =
            (.error (.internal e), ⟨node'.storage, some handle⟩) :=
          congrArg (fun x => ((x.1.mapError AppError.internal, ⟨x.2.storage, some handle⟩) :
            Except AppError KVResponse × AppState)) hwrite
        cases herr.symm.trans hrun
      · exact (of_clientWrite_ok hwrite).imp id fun hanswer => ⟨resp', hanswer⟩

/-- A write that does not run locally goes to a consensus library. -/
theorem raft_of_not_runsLocally {answer : Except String KVResponse} {s : AppState}
    (h : s.runsLocally answer = false) :
    ∃ handle, s.raftNode = some handle ∧ handle.raft = true := by
  rcases s with ⟨n, raftNode⟩
  cases raftNode with
  | none => cases h
  | some handle =>
      refine ⟨handle, rfl, ?_⟩
      rcases handle with ⟨standalone, id, raft⟩
      cases raft with
      | true => rfl
      | false => cases h

theorem ok_of_status {res : Except AppError Body} (h : (respond res).status = .ok) :
    ∃ body, res = .ok body := by
  cases res with
  | ok body => exact ⟨body, rfl⟩
  | error e => cases e <;> cases h

end Api

end OpenraftSurrealkv
