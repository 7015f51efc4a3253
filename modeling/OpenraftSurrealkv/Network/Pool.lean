import OpenraftSurrealkv.Config
import OpenraftSurrealkv.Network.Rpc

/-!
# Connections

The pool keeps one client for each node.  Getting a client that is not there
resolves the address of the node and connects to it, all under the lock of the
pool, so the calls of the pool happen one after another.

A `GrpcRaftNetwork` makes its calls with the client of its target.  Behind each
endpoint there is a server and the network to it.
-/

namespace OpenraftSurrealkv

open Rpc

/-! ## Addresses -/

/-- `str::starts_with`. -/
def startsWith (text start : String) : Bool := start.toList.isPrefixOf text.toList

/-- The address that a client connects to. -/
def addrWithScheme (addr : String) : String :=
  if startsWith addr "http://" || startsWith addr "https://" then addr else "http://" ++ addr

namespace StaticAddressResolver

/-- The address of a node in a map, and the text of the error when it is not there. -/
def resolveIn (missing : String) (addresses : OrdMap NodeId String) (nodeId : NodeId) :
    Except RaftError String :=
  match addresses[nodeId]? with
  | some addr => .ok addr
  | none => .error (.network (missing ++ toString nodeId))

/-- The resolver of the library. -/
def resolve (addresses : OrdMap NodeId String) (nodeId : NodeId) : Except RaftError String :=
  resolveIn "No address found for node " addresses nodeId

/-- The resolver of the program, on the addresses of its configuration. -/
def resolveInMain (addresses : OrdMap NodeId String) (nodeId : NodeId) : Except RaftError String :=
  resolveIn "no address found for node " addresses nodeId

end StaticAddressResolver

/-! ## The pool -/

/-- The clients of a pool, the connections made so far and the outcomes of the attempts to come: an
attempt at the head of the list fails with its text or succeeds, and after the list all succeed. -/
structure PoolState where
  clients : OrdMap NodeId RaftGrpcClient
  made : List (NodeId × String)
  dials : List (Option String)

/-- An operation of a pool. -/
abbrev PoolM (α : Type) := Eff PoolState RaftError α

def PoolState.new (dials : List (Option String)) : PoolState := ⟨∅, [], dials⟩

/-- One attempt to connect to an endpoint. -/
def PoolState.dial (target : NodeId) (endpoint : String) : Eff PoolState String Channel := fun s =>
  match s.dials.head?.join with
  | some e => (.error e, { s with dials := s.dials.tail })
  | none => (.ok ⟨endpoint, s.made.length⟩,
      { s with made := s.made ++ [(target, endpoint)], dials := s.dials.tail })

/-- What a pool is made with.  `invalid` says why the transport rejects an address. -/
structure ConnectionPool where
  addressResolver : NodeId → Except RaftError String
  invalid : String → Option String
  config : ClientConfig

/-- Connect to the address of a node. -/
def RaftGrpcClient.connect (invalid : String → Option String) (target : NodeId) (addr : String)
    (config : ClientConfig) : PoolM RaftGrpcClient := fun s =>
  match invalid (addrWithScheme addr) with
  | some e => (.error (.network ("Invalid address " ++ addr ++ ": " ++ e)), s)
  | none =>
      match PoolState.dial target (addrWithScheme addr) s with
      | (.error e, s') => (.error (.network ("Failed to connect to " ++ addr ++ ": " ++ e)), s')
      | (.ok channel, s') => (.ok ⟨target, channel, config⟩, s')

namespace ConnectionPool

/-- Connect to a node and keep the client. -/
def addClient (pool : ConnectionPool) (target : NodeId) : PoolM RaftGrpcClient := do
  let addr ← Eff.ofExcept (pool.addressResolver target)
  let created ← RaftGrpcClient.connect pool.invalid target addr pool.config
  Eff.modify fun s => { s with clients := s.clients.insert target created }
  pure created

/-- The client of a node, which is made if there is none. -/
def getClient (pool : ConnectionPool) (target : NodeId) : PoolM RaftGrpcClient := do
  match ← Eff.gets fun s => s.clients[target]? with
  | some existing => pure existing
  | none => pool.addClient target

def clientCount : PoolM Nat := Eff.gets fun s => s.clients.size

def removeClient (target : NodeId) : PoolM Unit :=
  Eff.modify fun s => { s with clients := s.clients.erase target }

end ConnectionPool

/-! ## The network of a node -/

/-- The pool of a node, and the network to the server behind each endpoint. -/
structure Fabric (C σ : Type) where
  pool : PoolState
  links : String → PeerNetwork C σ

/-- An error of a call, as the consensus library sees it. -/
inductive RPCError where
  | network (err : RaftError)
deriving DecidableEq, Repr

def convertToRpcError (err : RaftError) : RPCError := .network err

/-- The network to one node. -/
structure GrpcRaftNetwork where
  target : NodeId
  connectionPool : ConnectionPool

/-- The connections that the program starts with. -/
def Config.networkFactory (self : Config) (invalid : String → Option String) : ConnectionPool :=
  ⟨StaticAddressResolver.resolveInMain self.resolverAddresses, invalid, .default⟩

/-- `GrpcRaftNetworkFactory::new_client`. -/
def ConnectionPool.newClient (pool : ConnectionPool) (target : NodeId) : GrpcRaftNetwork :=
  ⟨target, pool⟩

namespace GrpcRaftNetwork

variable {msgs : RaftMessages} {C σ : Type}

/-- The client of the target. -/
def getClient (self : GrpcRaftNetwork) : Eff (Fabric C σ) RaftError RaftGrpcClient :=
  Eff.zoom Fabric.pool (fun p f => { f with pool := p }) (self.connectionPool.getClient self.target)

/-- A call over the connection of a client. -/
def onConnection (client : RaftGrpcClient) {α : Type} (x : Eff (PeerNetwork C σ) RaftError α) :
    Eff (Fabric C σ) RaftError α :=
  Eff.zoom (fun f => f.links client.client.endpoint)
    (fun net f => { f with links := Function.update f.links client.client.endpoint net }) x

/-- A call to the target, where `servers` are the nodes behind the endpoints. -/
def request (self : GrpcRaftNetwork) (showStatus : Status → String)
    (servers : String → RaftServiceHandler msgs σ) (m : RaftMethod) (id : C)
    (req : msgs.Request m) : Eff (Fabric C σ) RaftError (msgs.Response m) := do
  let client ← self.getClient
  onConnection client (client.call showStatus (servers client.client.endpoint) m id req)

/-- The result of a call as the consensus library sees it. -/
def asRpc {α : Type} (x : Eff (Fabric C σ) RaftError α) : Eff (Fabric C σ) RPCError α := fun f =>
  ((x f).1.mapError convertToRpcError, (x f).2)

def appendEntries (self : GrpcRaftNetwork) (showStatus : Status → String)
    (servers : String → RaftServiceHandler msgs σ) (id : C) (req : msgs.AppendEntriesRequest) :
    Eff (Fabric C σ) RPCError msgs.AppendEntriesResponse :=
  asRpc (self.request showStatus servers .appendEntries id req)

def vote (self : GrpcRaftNetwork) (showStatus : Status → String)
    (servers : String → RaftServiceHandler msgs σ) (id : C) (req : msgs.VoteRequest) :
    Eff (Fabric C σ) RPCError msgs.VoteResponse :=
  asRpc (self.request showStatus servers .requestVote id req)

end GrpcRaftNetwork

/-! ## What the pool does -/

/-- Getting a client returns the one that is kept, fails, or makes one and keeps it. -/
theorem ConnectionPool.getClient_cases (pool : ConnectionPool) (target : NodeId) (s : PoolState) :
    (∃ existing, s.clients[target]? = some existing ∧
      pool.getClient target s = (.ok existing, s)) ∨
    s.clients[target]? = none ∧
      ((∃ e s', pool.getClient target s = (.error e, s') ∧ s'.clients = s.clients ∧
        s'.made = s.made) ∨
      ∃ addr created s', pool.addressResolver target = .ok addr ∧
        pool.getClient target s = (.ok created, s') ∧
        created = ⟨target, ⟨addrWithScheme addr, s.made.length⟩, pool.config⟩ ∧
        s'.clients = s.clients.insert target created ∧
        s'.made = s.made ++ [(target, addrWithScheme addr)]) := by
  cases hkept : s.clients[target]? with
  | some existing =>
      refine .inl ⟨existing, rfl, ?_⟩
      rw [getClient, Eff.bind_of_ok (Eff.gets_run _ s), hkept]
      rfl
  | none =>
      refine .inr ⟨rfl, ?_⟩
      have hget : pool.getClient target s = pool.addClient target s := by
        rw [getClient, Eff.bind_of_ok (Eff.gets_run _ s), hkept]
      rw [hget]
      cases haddr : pool.addressResolver target with
      | error e =>
          refine .inl ⟨e, s, ?_, rfl, rfl⟩
          rw [addClient, haddr]
          exact Eff.bind_of_error (Eff.ofExcept_run _ s)
      | ok addr =>
          have hadd : pool.addClient target s =
              (RaftGrpcClient.connect pool.invalid target addr pool.config >>= fun created => do
                Eff.modify fun s => { s with clients := s.clients.insert target created }
                pure created) s := by
            rw [addClient, haddr]
            exact Eff.bind_of_ok (Eff.ofExcept_run _ s)
          rw [hadd]
          cases hinvalid : pool.invalid (addrWithScheme addr) with
          | some e =>
              have hconnect : RaftGrpcClient.connect pool.invalid target addr pool.config s =
                  (.error (.network ("Invalid address " ++ addr ++ ": " ++ e)), s) := by
                rw [RaftGrpcClient.connect, hinvalid]
              exact .inl ⟨_, s, Eff.bind_of_error hconnect, rfl, rfl⟩
          | none =>
              cases hdial : s.dials.head?.join with
              | some e =>
                  have hconnect : RaftGrpcClient.connect pool.invalid target addr pool.config s =
                      (.error (.network ("Failed to connect to " ++ addr ++ ": " ++ e)),
                        { s with dials := s.dials.tail }) := by
                    simp only [RaftGrpcClient.connect, hinvalid, PoolState.dial, hdial]
                  exact .inl ⟨_, _, Eff.bind_of_error hconnect, rfl, rfl⟩
              | none =>
                  have hconnect : RaftGrpcClient.connect pool.invalid target addr pool.config s =
                      (.ok ⟨target, ⟨addrWithScheme addr, s.made.length⟩, pool.config⟩,
                        { s with
                          made := s.made ++ [(target, addrWithScheme addr)]
                          dials := s.dials.tail }) := by
                    simp only [RaftGrpcClient.connect, hinvalid, PoolState.dial, hdial]
                  exact .inr ⟨addr, _, _, rfl, Eff.bind_of_ok hconnect, rfl, rfl, rfl⟩

end OpenraftSurrealkv
