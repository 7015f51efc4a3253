import OpenraftSurrealkv.StorageRaft

/-!
# The node

A node writes through the consensus library when it has one.  When the library
answers with an error whose text speaks of forwarding, of a leader or of
unavailability, the node falls back to running the request on its own map.  A
node without the library always does so.
-/

namespace OpenraftSurrealkv

/-- A node: its store, and whether it runs the consensus library. -/
structure RaftNode where
  isStandalone : Bool
  nodeId : UInt64
  storage : SurrealStorage
  raft : Bool

/-- The lower case of a character.  Beyond ASCII only two characters have a lower case with an
ASCII letter in it, and the others cannot matter in a search for an ASCII text. -/
def lowerChar (c : Char) : List Char :=
  if c.toNat = 0x130 then ['i', Char.ofNat 0x307]
  else if c.toNat = 0x212A then ['k']
  else [c.toLower]

/-- `str::contains`. -/
def containsText (text : List Char) (pattern : String) : Bool := decide (pattern.toList <:+: text)

/-- Whether an error of the consensus library lets the node fall back. -/
def fallbackAllowed (msg : String) : Bool :=
  let lower := msg.toList.flatMap lowerChar
  containsText lower "forward" || containsText lower "leader" ||
    containsText lower "temporarily unavailable" || containsText lower "unavailable"

namespace RaftNode

/-- Run a request on the node's own map. -/
def applyLocally (req : KVRequest) : Eff RaftNode String KVResponse := fun node =>
  match SurrealStorage.applyRequest req node.storage with
  | (.ok resp, s) => (.ok resp, { node with storage := s })
  | (.error e, s) => (.error ("client_write fallback failed: " ++ e.display),
      { node with storage := s })

/-- Whether a write is run locally, given the answer of the consensus library. -/
def fallsBack (node : RaftNode) (answer : Except String KVResponse) : Bool :=
  match node.raft, answer with
  | true, .ok _ => false
  | true, .error msg => fallbackAllowed msg
  | false, _ => true

/-- Write through the consensus library, which answers as given, else locally. -/
def clientWrite (answer : Except String KVResponse) (req : KVRequest) :
    Eff RaftNode String KVResponse := fun node =>
  match node.raft, answer with
  | true, .ok resp => (.ok resp, node)
  | true, .error msg =>
      if fallbackAllowed msg then applyLocally req node
      else (.error ("raft client_write failed: " ++ msg), node)
  | false, _ => applyLocally req node

/-- A key of the node's map. -/
def readKey (key : String) : Eff RaftNode String (Option Bytes) := fun node =>
  match SurrealStorage.read key node.storage with
  | (.ok v, s) => (.ok v, { node with storage := s })
  | (.error e, s) => (.error ("read key failed: " ++ e.display), { node with storage := s })

/-- A write changes the node exactly when it falls back. -/
theorem clientWrite_state (answer : Except String KVResponse) (req : KVRequest)
    (node : RaftNode) :
    (clientWrite answer req node).2 =
      if node.fallsBack answer then
        { node with storage := { node.storage with
            stateMachine := req.update.run node.storage.stateMachine } }
      else node := by
  rcases node with ⟨standalone, id, storage, raft⟩
  cases raft with
  | false => rfl
  | true =>
      cases answer with
      | ok resp => rfl
      | error msg =>
          show (if fallbackAllowed msg then applyLocally req _ else _).2 = _
          cases hf : fallbackAllowed msg with
          | true => simp [fallsBack, hf, applyLocally, SurrealStorage.applyRequest, Eff.bind_run]
          | false => simp [fallsBack, hf]

end RaftNode

end OpenraftSurrealkv
