import OpenraftSurrealkv.Merge.Executor

/-!
# The configuration of a node

`Config.validate` checks a configuration before the node starts.  Its loop over
the peers carries the ids and the addresses seen so far.  The cluster members and
the addresses of the resolver are then two maps built from the node and its
peers, and the merge policy is built from the snapshot settings.

`validate_eq_ok_iff` turns the checks into `WellFormed`, where the running sets
of the loop have become pairwise distinctness.  The fields that are only printed,
opened or handed to other crates are left out.
-/

namespace OpenraftSurrealkv

structure NodeConfig where
  nodeId : UInt64
  listenAddr : String
deriving DecidableEq, Repr

structure HttpConfig where
  enabled : Bool
  port : UInt16
deriving DecidableEq, Repr

structure RaftConfig where
  heartbeatIntervalMs : UInt64
  electionTimeoutMs : UInt64
deriving DecidableEq, Repr

structure PeerConfig where
  nodeId : UInt64
  addr : String
deriving DecidableEq, Repr

structure ClusterConfig where
  /-- The number of voters, this node and its peers. -/
  expectedVoters : Option Nat
  /-- The other nodes. -/
  peers : List PeerConfig
deriving DecidableEq, Repr

structure SnapshotConfig where
  checkpointIntervalSecs : UInt64
  maxDeltaChain : Nat
  maxDeltaBytesMb : UInt64
deriving DecidableEq, Repr

structure Config where
  node : NodeConfig
  http : HttpConfig
  raft : RaftConfig
  cluster : ClusterConfig
  snapshot : SnapshotConfig
deriving DecidableEq, Repr

/-- `str::trim`. -/
def trim (text : String) : List Char :=
  (text.toList.dropWhile isRustWhitespace).rdropWhile isRustWhitespace

/-- `if c { bail!(message) }`. -/
def bailIf (c : Prop) [Decidable c] (message : String) : Except String Unit :=
  if c then .error message else .ok ()

namespace Config

/-- `Config::default`. -/
def default : Config where
  node := ⟨1, "127.0.0.1:50051"⟩
  http := ⟨true, 8080⟩
  raft := ⟨500, 3000⟩
  cluster := ⟨none, []⟩
  snapshot := ⟨3600, 5, 300⟩

/-- The checks of the peers, with the ids and addresses seen so far. -/
def validatePeers (node : NodeConfig) :
    List UInt64 → List String → List PeerConfig → Except String Unit
  | _, _, [] => pure ()
  | seenNodeIds, seenAddrs, p :: rest => do
      bailIf (p.nodeId = 0) "cluster.peers.node_id must be greater than 0"
      bailIf (trim p.addr = []) "cluster.peers.addr cannot be empty"
      bailIf (p.nodeId = node.nodeId) "cluster.peers must not include current node_id"
      bailIf (p.addr = node.listenAddr) "cluster.peers must not reuse current node listen_addr"
      bailIf (p.nodeId ∈ seenNodeIds)
        ("cluster.peers contains duplicate node_id: " ++ toString p.nodeId)
      bailIf (p.addr ∈ seenAddrs) ("cluster.peers contains duplicate addr: " ++ p.addr)
      validatePeers node (p.nodeId :: seenNodeIds) (p.addr :: seenAddrs) rest

/-- The check of the number of voters. -/
def validateExpectedVoters (cluster : ClusterConfig) : Except String Unit :=
  match cluster.expectedVoters with
  | none => pure ()
  | some expected => do
      bailIf (expected = 0) "cluster.expected_voters must be greater than 0"
      let actual := 1 + cluster.peers.length
      bailIf (expected ≠ actual)
        ("cluster.expected_voters mismatch: expected=" ++ toString expected ++ ", actual=" ++
          toString actual ++ " (self + peers)")

def validate (self : Config) : Except String Unit := do
  bailIf (self.node.nodeId = 0) "node_id must be greater than 0"
  bailIf (self.node.listenAddr = "") "listen_addr cannot be empty"
  bailIf (self.raft.electionTimeoutMs ≤ self.raft.heartbeatIntervalMs)
    "heartbeat_interval_ms must be less than election_timeout_ms"
  bailIf (self.http.enabled = true ∧ self.http.port = 0)
    "HTTP port cannot be 0 when HTTP is enabled"
  validatePeers self.node [] [] self.cluster.peers
  validateExpectedVoters self.cluster

/-- Both address maps: the node first, then its peers in order. -/
def addressMap {V : Type} (value : String → V) (self : Config) : OrdMap UInt64 V :=
  self.cluster.peers.foldl (fun out p => out.insert p.nodeId (value p.addr))
    ((∅ : OrdMap UInt64 V).insert self.node.nodeId (value self.node.listenAddr))

/-- The initial membership, this node and its peers. -/
def clusterMembers (self : Config) : OrdMap UInt64 BasicNode := self.addressMap BasicNode.mk

/-- The addresses for the network resolver, this node and its peers. -/
def resolverAddresses (self : Config) : OrdMap UInt64 String := self.addressMap id

/-- The check of the number of voters at startup. -/
def checkExpectedVotersAtStartup (self : Config) : Except String Unit :=
  match self.cluster.expectedVoters with
  | none => pure ()
  | some expected =>
      let actual := self.clusterMembers.size
      bailIf (expected ≠ actual)
        ("cluster expected_voters mismatch at startup: expected=" ++ toString expected ++
          ", actual=" ++ toString actual)

/-- The merge policy that `main` builds.  The product wraps around where overflow is not checked. -/
def mergePolicy (self : Config) : DeltaMergePolicy where
  maxChainLength := self.snapshot.maxDeltaChain
  maxDeltaBytes := self.snapshot.maxDeltaBytesMb * 1024 * 1024
  checkpointIntervalSecs := self.snapshot.checkpointIntervalSecs

/-- One of the two products of `mergePolicy` does not fit a `u64`. -/
def mergePolicyOverflows (self : Config) : Prop :=
  2 ^ 64 ≤ self.snapshot.maxDeltaBytesMb.toNat * 1024 ∨
    2 ^ 64 ≤ (self.snapshot.maxDeltaBytesMb * 1024).toNat * 1024

/-! ## Accepted configurations -/

/-- What `validate` accepts. -/
structure WellFormed (c : Config) : Prop where
  nodeId : c.node.nodeId ≠ 0
  listenAddr : c.node.listenAddr ≠ ""
  timeouts : c.raft.heartbeatIntervalMs < c.raft.electionTimeoutMs
  port : c.http.enabled = true → c.http.port ≠ 0
  peerIds : ∀ p ∈ c.cluster.peers, p.nodeId ≠ 0
  /-- No address is blank. -/
  peerAddrs : ∀ p ∈ c.cluster.peers, ∃ ch ∈ p.addr.toList, isRustWhitespace ch = false
  distinctIds : c.cluster.peers.Pairwise fun p q => p.nodeId ≠ q.nodeId
  selfId : ∀ p ∈ c.cluster.peers, p.nodeId ≠ c.node.nodeId
  distinctAddrs : c.cluster.peers.Pairwise fun p q => p.addr ≠ q.addr
  selfAddr : ∀ p ∈ c.cluster.peers, p.addr ≠ c.node.listenAddr
  voters : ∀ expected, c.cluster.expectedVoters = some expected →
    expected ≠ 0 ∧ expected = 1 + c.cluster.peers.length

/-! ## What validation accepts -/

end Config

theorem bailIf_eq_ok_iff {c : Prop} [Decidable c] {message : String} :
    bailIf c message = .ok () ↔ ¬ c := by
  unfold bailIf
  split <;> simp_all

/-- A sequence of checks succeeds exactly when both parts do. -/
theorem checks_eq_ok_iff {x : Except String Unit} {y : Unit → Except String Unit} :
    x >>= y = .ok () ↔ x = .ok () ∧ y () = .ok () := by
  cases x with
  | error e => simp [bind, Except.bind]
  | ok u => simp [bind, Except.bind]

/-- A text is blank when nothing is left of it after trimming. -/
theorem trim_ne_nil_iff {text : String} :
    trim text ≠ [] ↔ ∃ ch ∈ text.toList, isRustWhitespace ch = false := by
  rw [trim, ne_eq, List.rdropWhile_eq_nil_iff]
  constructor
  · intro h
    by_contra hall
    push Not at hall
    refine h fun ch hch => ?_
    have hmem := List.dropWhile_sublist isRustWhitespace |>.subset hch
    exact eq_true_of_ne_false (hall ch hmem)
  · rintro ⟨ch, hmem, hch⟩ hall
    rw [← List.takeWhile_append_dropWhile (p := isRustWhitespace) (l := text.toList)] at hmem
    rcases List.mem_append.mp hmem with htake | hdrop
    · simp [List.mem_takeWhile_imp htake] at hch
    · simp [hall ch hdrop] at hch

namespace Config

/-- The checks that concern one peer alone. -/
def PeerOk (node : NodeConfig) (p : PeerConfig) : Prop :=
  p.nodeId ≠ 0 ∧ trim p.addr ≠ [] ∧ p.nodeId ≠ node.nodeId ∧ p.addr ≠ node.listenAddr

-- The sets grow along the loop, so they are general in the induction: a later peer differs from
-- every earlier one because it is not in them.
theorem validatePeers_eq_ok_iff {node : NodeConfig} {peers : List PeerConfig} :
    ∀ {ids : List UInt64} {addrs : List String},
      validatePeers node ids addrs peers = .ok () ↔
        (∀ p ∈ peers, PeerOk node p ∧ p.nodeId ∉ ids ∧ p.addr ∉ addrs) ∧
          peers.Pairwise (fun p q => p.nodeId ≠ q.nodeId) ∧
          peers.Pairwise (fun p q => p.addr ≠ q.addr) := by
  induction peers with
  | nil => simp [validatePeers, pure, Except.pure]
  | cons p rest ih =>
      intro ids addrs
      simp only [validatePeers, checks_eq_ok_iff, bailIf_eq_ok_iff, ih, PeerOk,
        List.mem_cons, List.pairwise_cons, forall_eq_or_imp]
      grind

theorem validateExpectedVoters_eq_ok_iff {cluster : ClusterConfig} :
    validateExpectedVoters cluster = .ok () ↔
      ∀ expected, cluster.expectedVoters = some expected →
        expected ≠ 0 ∧ expected = 1 + cluster.peers.length := by
  unfold validateExpectedVoters
  cases cluster.expectedVoters with
  | none => simp [pure, Except.pure]
  | some expected => simp [checks_eq_ok_iff, bailIf_eq_ok_iff]

theorem validate_eq_ok_iff {c : Config} : c.validate = .ok () ↔ c.WellFormed := by
  simp only [validate, checks_eq_ok_iff, bailIf_eq_ok_iff, validatePeers_eq_ok_iff,
    validateExpectedVoters_eq_ok_iff, PeerOk, trim_ne_nil_iff, List.not_mem_nil,
    not_false_eq_true, and_true, not_and, UInt64.not_le]
  constructor
  · rintro ⟨hid, haddr, htimes, hport, ⟨hpeers, hids, haddrs⟩, hvoters⟩
    exact {
      nodeId := hid
      listenAddr := haddr
      timeouts := htimes
      port := hport
      peerIds := fun p hp => (hpeers p hp).1
      peerAddrs := fun p hp => (hpeers p hp).2.1
      distinctIds := hids
      selfId := fun p hp => (hpeers p hp).2.2.1
      distinctAddrs := haddrs
      selfAddr := fun p hp => (hpeers p hp).2.2.2
      voters := hvoters }
  · intro h
    exact ⟨h.nodeId, h.listenAddr, h.timeouts, h.port,
      ⟨fun p hp => ⟨h.peerIds p hp, h.peerAddrs p hp, h.selfId p hp, h.selfAddr p hp⟩,
        h.distinctIds, h.distinctAddrs⟩, h.voters⟩

/-- The defaults pass their own check. -/
theorem validate_default : default.validate = .ok () := by
  decide

/-! ## The address maps -/

/-- The id and the address of this node or of one of its peers. -/
def IsMember (c : Config) (id : UInt64) (addr : String) : Prop :=
  (c.node.nodeId = id ∧ c.node.listenAddr = addr) ∨
    ∃ p ∈ c.cluster.peers, p.nodeId = id ∧ p.addr = addr

/-- No member is lost or replaced. -/
theorem get_addressMap {V : Type} {c : Config} (h : c.WellFormed) (value : String → V)
    {id : UInt64} {v : V} :
    (c.addressMap value)[id]? = some v ↔ ∃ addr, c.IsMember id addr ∧ value addr = v := by
  rw [addressMap, OrdMap.get_foldl_insert h.distinctIds, OrdMap.get_insert]
  constructor
  · rintro (⟨p, hp, hid, hv⟩ | ⟨_, hnode⟩)
    · exact ⟨p.addr, .inr ⟨p, hp, hid, rfl⟩, hv⟩
    · split at hnode
      next hid => exact ⟨c.node.listenAddr, .inl ⟨hid, rfl⟩, Option.some_inj.mp hnode⟩
      next => simp at hnode
  · rintro ⟨addr, ⟨hid, rfl⟩ | ⟨p, hp, hid, rfl⟩, rfl⟩
    · refine .inr ⟨fun p hp => ?_, if_pos hid⟩
      rw [← hid]
      exact h.selfId p hp
    · exact .inl ⟨p, hp, hid, rfl⟩

theorem size_addressMap {V : Type} {c : Config} (h : c.WellFormed) (value : String → V) :
    (c.addressMap value).size = 1 + c.cluster.peers.length := by
  rw [addressMap, OrdMap.size_foldl_insert h.distinctIds]
  · simp [Std.ExtTreeMap.size_insert]
  · intro p hp
    rw [OrdMap.get_insert_of_ne _ _ (h.selfId p hp).symm]
    simp

/-- Different members have different ids and different addresses. -/
theorem IsMember.id_eq_iff {c : Config} (h : c.WellFormed) {id id' : UInt64} {addr addr' : String}
    (hm : c.IsMember id addr) (hm' : c.IsMember id' addr') : id = id' ↔ addr = addr' := by
  rcases hm with ⟨rfl, rfl⟩ | ⟨p, hp, rfl, rfl⟩ <;> rcases hm' with ⟨rfl, rfl⟩ | ⟨q, hq, rfl, rfl⟩
  · simp
  · simp [(h.selfId q hq).symm, (h.selfAddr q hq).symm]
  · simp [h.selfId p hp, h.selfAddr p hp]
  · have hids := List.inj_on_of_nodup_map (List.pairwise_map.mpr h.distinctIds) hp hq
    have haddrs := List.inj_on_of_nodup_map (List.pairwise_map.mpr h.distinctAddrs) hp hq
    exact ⟨fun heq => congrArg _ (hids heq), fun heq => congrArg _ (haddrs heq)⟩

/-- The check at startup repeats one of the checks that validation made. -/
theorem checkExpectedVotersAtStartup_ok {c : Config} (h : c.WellFormed) :
    c.checkExpectedVotersAtStartup = .ok () := by
  unfold checkExpectedVotersAtStartup
  cases hvoters : c.cluster.expectedVoters with
  | none => rfl
  | some expected =>
      have hsize : c.clusterMembers.size = 1 + c.cluster.peers.length := size_addressMap h _
      simp [bailIf_eq_ok_iff, hsize, (h.voters expected hvoters).2]

end Config

end OpenraftSurrealkv
