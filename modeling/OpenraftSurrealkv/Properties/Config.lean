import OpenraftSurrealkv.Config

/-!
# What validation guarantees

A validated configuration gives the cluster a membership map and an address map
over the same ids, one per node, with no address used twice.  It does not bound
the merge settings: a chain length or a delta size of zero asks for the next merge
as soon as one is done, and a size of `2 ^ 44` megabytes or more does not fit.
-/

namespace OpenraftSurrealkv

namespace Config

/-! ## The cluster map -/

theorem mem_addressMap_iff {V : Type} {c : Config} (h : c.WellFormed) (value : String → V)
    {id : UInt64} :
    id ∈ c.addressMap value ↔ id = c.node.nodeId ∨ ∃ p ∈ c.cluster.peers, id = p.nodeId := by
  rw [← Std.ExtTreeMap.isSome_getElem?_iff_mem, Option.isSome_iff_exists]
  simp only [get_addressMap h]
  constructor
  · rintro ⟨_, _, ⟨rfl, _⟩ | ⟨p, hp, rfl, _⟩, _⟩
    · exact .inl rfl
    · exact .inr ⟨p, hp, rfl⟩
  · rintro (rfl | ⟨p, hp, rfl⟩)
    · exact ⟨_, _, .inl ⟨rfl, rfl⟩, rfl⟩
    · exact ⟨_, _, .inr ⟨p, hp, rfl, rfl⟩, rfl⟩

/-- Both maps hold the same address under an id. -/
theorem get_clusterMembers {c : Config} (h : c.WellFormed) (id : UInt64) :
    c.clusterMembers[id]? = c.resolverAddresses[id]?.map BasicNode.mk := by
  ext node
  rw [Option.map_eq_some_iff, clusterMembers, resolverAddresses, get_addressMap h]
  simp only [get_addressMap h, id_eq, exists_eq_right]

theorem validate_iff_wellFormed_and_maps_agree (c : Config) :
    (c.validate = .ok () ↔ c.WellFormed) ∧
      (c.validate = .ok () →
        (∀ id, id ∈ c.clusterMembers ↔
          id = c.node.nodeId ∨ ∃ p ∈ c.cluster.peers, id = p.nodeId) ∧
        (∀ id, id ∈ c.resolverAddresses ↔ id ∈ c.clusterMembers) ∧
        c.clusterMembers.size = 1 + c.cluster.peers.length ∧
        c.resolverAddresses.size = 1 + c.cluster.peers.length ∧
        (∀ id : UInt64, c.clusterMembers[id]? = c.resolverAddresses[id]?.map BasicNode.mk) ∧
        (∀ (id id' : UInt64) (addr : String), c.resolverAddresses[id]? = some addr →
          c.resolverAddresses[id']? = some addr → id = id') ∧
        c.checkExpectedVotersAtStartup = .ok ()) := by
  refine ⟨validate_eq_ok_iff, fun hok => ?_⟩
  have h : c.WellFormed := validate_eq_ok_iff.mp hok
  refine ⟨fun id => mem_addressMap_iff h _, fun id => ?_, size_addressMap h _, size_addressMap h _,
    get_clusterMembers h, ?_, checkExpectedVotersAtStartup_ok h⟩
  · rw [resolverAddresses, clusterMembers, mem_addressMap_iff h, mem_addressMap_iff h]
  · intro id id' addr haddr haddr'
    obtain ⟨_, hm, rfl⟩ := (get_addressMap h _).mp haddr
    obtain ⟨_, hm', heq⟩ := (get_addressMap h _).mp haddr'
    exact (hm.id_eq_iff h hm').mpr heq.symm

/-! ## The merge policy -/

/-- Both products fit when the whole one does. -/
theorem mergePolicyOverflows_iff {c : Config} :
    c.mergePolicyOverflows ↔ 2 ^ 64 ≤ c.snapshot.maxDeltaBytesMb.toNat * 2 ^ 20 := by
  unfold mergePolicyOverflows
  rw [UInt64.toNat_mul]
  have h1024 : (1024 : UInt64).toNat = 1024 := rfl
  rw [h1024]
  omega

theorem maxDeltaBytes_eq_zero_iff {c : Config} (h : ¬ c.mergePolicyOverflows) :
    c.mergePolicy.maxDeltaBytes ≤ 0 ↔ c.snapshot.maxDeltaBytesMb = 0 := by
  rw [mergePolicyOverflows_iff] at h
  have h1024 : (1024 : UInt64).toNat = 1024 := rfl
  rw [UInt64.le_iff_toNat_le, ← UInt64.toNat_inj, mergePolicy, UInt64.toNat_mul, UInt64.toNat_mul,
    h1024, UInt64.toNat_zero]
  omega

/-- After a merge only the thresholds that are zero can be met before the interval is over. -/
theorem evaluate_merged_eq_none_iff {policy : DeltaMergePolicy} {state : SnapshotMetaState}
    {path : Option String} {started now : UInt64} (hle : started ≤ now)
    (hlt : now.toNat < started.toNat + policy.checkpointIntervalSecs.toNat) :
    policy.evaluate (MergeExecutor.buildMergedSnapshotState state started path) now = none ↔
      policy.maxChainLength ≠ 0 ∧ ¬ policy.maxDeltaBytes ≤ 0 := by
  have helapsed : ¬ policy.checkpointIntervalSecs ≤ saturatingSub now started := by
    rw [saturatingSub, if_pos hle, UInt64.le_iff_toNat_le, UInt64.toNat_sub_of_le _ _ hle]
    have := UInt64.le_iff_toNat_le.mp hle
    omega
  simp only [DeltaMergePolicy.evaluate, MergeDecision.fromState,
    MergeExecutor.buildMergedSnapshotState, List.length_nil, Nat.le_zero]
  by_cases hchain : policy.maxChainLength = 0
  · simp [hchain]
  by_cases hbytes : policy.maxDeltaBytes ≤ 0
  · simp [hchain, hbytes]
  cases state.lastCheckpoint with
  | none => simp [hchain, hbytes]
  | some cp => simp [hchain, hbytes, helapsed]

/-- A finished merge asks for no other one within the interval exactly when the interval is empty
or neither of the two other thresholds is zero, and the policy can be built exactly when its size
fits. -/
theorem merged_not_due_iff (c : Config) :
    (¬ c.mergePolicyOverflows ∧
      ∀ (state : SnapshotMetaState) (path : Option String) (started now : UInt64),
        started ≤ now →
        now.toNat < started.toNat + c.snapshot.checkpointIntervalSecs.toNat →
        c.mergePolicy.evaluate
          (MergeExecutor.buildMergedSnapshotState state started path) now = none) ↔
      c.snapshot.maxDeltaBytesMb.toNat * 2 ^ 20 < 2 ^ 64 ∧
        (c.snapshot.checkpointIntervalSecs = 0 ∨
          (c.snapshot.maxDeltaChain ≠ 0 ∧ c.snapshot.maxDeltaBytesMb ≠ 0)) := by
  rw [mergePolicyOverflows_iff, Nat.not_le]
  refine and_congr_right fun hfits => ?_
  have hbytes : c.mergePolicy.maxDeltaBytes ≤ 0 ↔ c.snapshot.maxDeltaBytesMb = 0 :=
    maxDeltaBytes_eq_zero_iff (by rw [mergePolicyOverflows_iff]; omega)
  constructor
  · intro hnone
    by_cases hinterval : c.snapshot.checkpointIntervalSecs = 0
    · exact .inl hinterval
    · have hpos : c.snapshot.checkpointIntervalSecs.toNat ≠ 0 := fun h0 =>
        hinterval (UInt64.toNat_inj.mp h0)
      have hlt : (0 : UInt64).toNat <
          (0 : UInt64).toNat + c.mergePolicy.checkpointIntervalSecs.toNat :=
        Nat.lt_add_of_pos_right (Nat.pos_of_ne_zero hpos)
      have hdue := (evaluate_merged_eq_none_iff (UInt64.le_refl 0) hlt).mp
        (hnone ⟨none, [], 0⟩ none 0 0 (UInt64.le_refl 0) hlt)
      rw [hbytes] at hdue
      exact .inr hdue
  · rintro hthreshold state path started now hle hlt
    rcases hthreshold with hzero | ⟨hchain, hmb⟩
    · rw [hzero, UInt64.toNat_zero, Nat.add_zero] at hlt
      exact absurd (UInt64.le_iff_toNat_le.mp hle) (Nat.not_le.mpr hlt)
    · exact (evaluate_merged_eq_none_iff hle hlt).mpr ⟨hchain, by rwa [hbytes]⟩

/-- The default configuration with a chain length of zero is accepted, and a merge that has just
finished asks for the next one.  A size of `2 ^ 44` megabytes is accepted as well. -/
theorem zero_chain_merges_again :
    let zeroChain : Config := { default with snapshot := ⟨3600, 0, 300⟩ }
    let tooLarge : Config := { default with snapshot := ⟨3600, 5, 2 ^ 44⟩ }
    zeroChain.validate = .ok () ∧
      zeroChain.mergePolicy.evaluate
        (MergeExecutor.buildMergedSnapshotState ⟨none, [], 0⟩ 100 none) 100 =
          some .chainTooLong ∧
      tooLarge.validate = .ok () ∧ tooLarge.mergePolicyOverflows := by
  refine ⟨by decide, by decide, by decide, ?_⟩
  rw [mergePolicyOverflows_iff]
  decide

end Config

end OpenraftSurrealkv
