import OpenraftSurrealkv.Effects.Replica

/-!
# Convergence of replicas that ship deltas

The nodes of a group are given one committed log, each at its own pace, build
snapshots and merge their chains, and are sent the deltas that any of them ever
published, late or more than once.  Every operation of a node and every merge is
one step.  A node that refuses a delta for its base goes on.  At other errors of
its storage a node stops.

A node builds a snapshot, and takes a delta on its base, only while none of the
entries appended to it is left to apply.  Appending moves the applied position of
the store, so in between a build or an install would take entries as applied that
are not.  Deltas on other bases may arrive at any time, and merges may run.

A published delta is cut from a prefix of the log (`Ships`), and installing it is
only possible at its base.  So a node that has nothing left to apply holds what
the requests of the log up to its applied index leave, however it got there.
-/

namespace OpenraftSurrealkv

open Relation

namespace SurrealStorage

/-! ## Prefixes of the log -/

/-- A prefix of the log is the part up to its position. -/
theorem filter_position {log front : List Entry} (hinc : Increasing log) (hlog : front <+: log)
    (hne : front ≠ []) :
    log.filter (fun e => decide (e.index ≤ (positionAfter front).lastAppliedIndex)) = front := by
  obtain ⟨back, rfl⟩ := hlog
  have hfront : front.filter
      (fun e => decide (e.index ≤ (positionAfter front).lastAppliedIndex)) = front := by
    refine List.filter_eq_self.mpr fun e he => ?_
    exact decide_eq_true (index_le_positionAfter (List.pairwise_append.mp hinc).1 he)
  have hback : back.filter
      (fun e => decide (e.index ≤ (positionAfter front).lastAppliedIndex)) = [] := by
    refine List.filter_eq_nil_iff.mpr fun e he => ?_
    rw [decide_eq_true_eq]
    exact UInt64.not_le.mpr (positionAfter_lt hinc hne he)
  rw [List.filter_append, hfront, hback, List.append_nil]

/-- Without requests there are no updates. -/
theorem updates_eq_nil {es : List Entry} (h : ∀ e ∈ es, e.isNormal = false) : updates es = [] := by
  have hfilter : es.filter (fun _ => false) = [] := List.filter_false es
  rw [← updates_filter (p := fun _ => false), hfilter]
  · rfl
  · intro e he hnormal
    rw [h e he] at hnormal
    cases hnormal

theorem not_normal_of_zero {log : List Entry} (hone : RequestsFromOne log) {e : Entry}
    (he : e ∈ log) (hzero : e.index ≤ 0) : e.isNormal = false := by
  cases hnormal : e.isNormal with
  | false => rfl
  | true => exact absurd (UInt64.le_trans (hone e he hnormal) hzero) (by decide)

/-- The requests up to the position of a prefix are those of the prefix. -/
theorem updates_position {log front : List Entry} (hinc : Increasing log)
    (hone : RequestsFromOne log) (hlog : front <+: log) :
    updates (log.filter fun e => decide (e.index ≤ (positionAfter front).lastAppliedIndex)) =
      updates front := by
  by_cases hne : front = []
  · -- at position zero there may be a membership, but no request
    subst hne
    refine updates_eq_nil fun e he => ?_
    obtain ⟨hmem, hle⟩ := List.mem_filter.mp he
    exact not_normal_of_zero hone hmem (of_decide_eq_true hle)
  · rw [filter_position hinc hlog hne]

/-- The requests between the positions of two prefixes are those between the prefixes. -/
theorem updates_range {log front back : List Entry} (hinc : Increasing log)
    (hone : RequestsFromOne log) (hlog : front ++ back <+: log) :
    updates (log.filter fun e =>
      decide ((positionAfter front).lastAppliedIndex < e.index) &&
        decide (e.index ≤ (positionAfter (front ++ back)).lastAppliedIndex)) = updates back := by
  by_cases hne : front ++ back = []
  · obtain ⟨rfl, rfl⟩ := List.append_eq_nil_iff.mp hne
    refine updates_eq_nil fun e he => ?_
    obtain ⟨hmem, hrange⟩ := List.mem_filter.mp he
    rw [Bool.and_eq_true] at hrange
    exact not_normal_of_zero hone hmem (of_decide_eq_true hrange.2)
  · have hinc' : Increasing (front ++ back) := hinc.sublist hlog.sublist
    have hfront : front.filter
        (fun e => decide ((positionAfter front).lastAppliedIndex < e.index)) = [] := by
      refine List.filter_eq_nil_iff.mpr fun e he => ?_
      rw [decide_eq_true_eq]
      exact UInt64.not_lt.mpr (index_le_positionAfter (List.pairwise_append.mp hinc').1 he)
    rw [← List.filter_filter, filter_position hinc hlog hne, List.filter_append, hfront,
      List.nil_append]
    refine updates_filter fun e he hnormal => decide_eq_true ?_
    exact position_lt hinc' (fun e' he' => hone e' (hlog.subset he')) he hnormal

/-- Of two prefixes of the log the one with the smaller position comes first. -/
theorem prefix_of_position_le {log front other : List Entry} (hinc : Increasing log)
    (hfront : front <+: log) (hother : other <+: log) (hne : other ≠ [])
    (hle : (positionAfter front).lastAppliedIndex ≤ (positionAfter other).lastAppliedIndex) :
    front <+: other := by
  rcases List.prefix_or_prefix_of_prefix hfront hother with h | ⟨back, rfl⟩
  · exact h
  · rcases List.eq_nil_or_concat back with rfl | ⟨init, last, rfl⟩
    · rw [List.append_nil]
    · rw [List.concat_eq_append, ← List.append_assoc, positionAfter_concat] at hle
      have hlt : (positionAfter other).lastAppliedIndex < last.index := by
        refine positionAfter_lt (hinc.sublist hfront.sublist) hne ?_
        rw [List.concat_eq_append]
        exact List.mem_concat_self ..
      exact absurd hle (UInt64.not_le.mpr hlt)

/-! ## Published deltas -/

/-- A snapshot that, if it is a delta, was cut from a prefix of the log. -/
def Ships (ar : Archiver) (log : List Entry) (snap : Snapshot) : Prop :=
  ∀ metadata entries,
    decodeSnapshotPayload ar snap.snapshot = .ok (some (.delta metadata entries)) →
    ∃ front base count, front <+: log ∧ front ≠ [] ∧ (∀ e ∈ front, EntryFits e) ∧
      metadata.format = .delta base count ∧ base ≤ (positionAfter front).lastAppliedIndex ∧
      snap.snapshotMeta.lastLogId = some ⟨(positionAfter front).lastAppliedTerm,
        (positionAfter front).lastAppliedIndex⟩ ∧
      snap.snapshotMeta.lastMembership = membershipAfter front ∧ entries ≠ [] ∧
      List.Forall₂ Carries (requestsIn (saturatingAdd base 1)
        (positionAfter front).lastAppliedIndex front) entries

/-- A snapshot has the membership of the store. -/
theorem lastMembership_of_build {ar : Archiver} {n n' : SurrealStorage} {snap : Snapshot}
    (hbuild : buildSnapshot ar n = (.ok snap, n')) :
    snap.snapshotMeta.lastMembership = n.lastMembership := by
  obtain ⟨_, n₀, happlied, h₁⟩ := Eff.bind_eq_ok_iff.mp hbuild
  cases happlied
  obtain ⟨snap₀, n₁, hauto, h₂⟩ := Eff.bind_eq_ok_iff.mp h₁
  have hdata := (keeps_data_buildSnapshotAuto ar _).of_run (asIo_ok hauto)
  cases h₂
  exact congrArg Data.lastMembership hdata

theorem Ships.of_build {ar : Archiver} {log : List Entry} {s : ChainRun} {snap : Snapshot}
    {n' : SurrealStorage} (h : ChainInv ar s) (hlog : s.applied <+: log)
    (hmembership : s.store.lastMembership = membershipAfter s.applied)
    (hbuild : buildSnapshot ar s.store = (.ok snap, n')) : Ships ar log snap := by
  intro metadata entries hdelta
  obtain ⟨_, hid, d, hdecode, hpayload, _⟩ := buildSnapshot_published hbuild
  rw [hdelta] at hdecode
  cases hdecode
  obtain ⟨rfl, hisDelta⟩ := hpayload
  obtain ⟨c, count, hc, hformat⟩ := hisDelta.base
  have hstart : deltaStart s.snapshotState = saturatingAdd c.checkpointIndex 1 := by
    rw [deltaStart, hc]
  have hne : s.applied ≠ [] := by
    intro hnil
    refine hisDelta.ne_nil ?_
    rw [h.tracks.deltaEntries, hnil]
    rfl
  have hfits : ∀ e ∈ between (deltaStart s.snapshotState)
      s.store.metadata.appliedState.lastAppliedIndex s.applied, EntryFits e :=
    fun e he => h.tracks.fits e (mem_between.mp he).1
  have hcarries := carries_deltaOf hfits
  rw [← h.tracks.deltaEntries, hstart, h.tracks.position] at hcarries
  rw [h.tracks.position] at hid
  exact ⟨s.applied, c.checkpointIndex, count, hlog, hne, h.tracks.fits, hformat,
    h.chain.checkpoint c hc, hid, (lastMembership_of_build hbuild).trans hmembership,
    hisDelta.ne_nil, hcarries⟩

/-- The last log index of a snapshot. -/
def snapshotIndex (snap : Snapshot) : UInt64 :=
  (snap.snapshotMeta.lastLogId.map LogId.index).getD 0

theorem snapshotIndex_of_lastLogId {snap : Snapshot} {id : LogId}
    (h : snap.snapshotMeta.lastLogId = some id) : snapshotIndex snap = id.index := by
  rw [snapshotIndex, h]
  rfl

/-- The entries up to the last index of a delta of the log end with that index. -/
theorem Ships.position_filter {ar : Archiver} {log : List Entry} {snap : Snapshot}
    (h : Ships ar log snap) (hinc : Increasing log)
    (hdelta : isDeltaPayload ar snap.snapshot = true) :
    (positionAfter (log.filter fun e =>
      decide (e.index ≤ snapshotIndex snap))).lastAppliedIndex = snapshotIndex snap := by
  obtain ⟨metadata, entries, hdecode⟩ := exists_of_isDeltaPayload hdelta
  obtain ⟨front, _, _, hfront, hne, _, _, _, hid, _⟩ := h metadata entries hdecode
  rw [snapshotIndex_of_lastLogId hid, filter_position hinc hfront hne]

/-! ## Groups -/

namespace Replica

/-- The replica after an operation, or none after a storage error. -/
def ifOk {α : Type} (r : Replica) : Except RaftError α → Option Replica
  | .ok _ => some r
  | .error _ => none

theorem ifOk_eq_some {α : Type} {r q : Replica} {res : Except RaftError α}
    (h : r.ifOk res = some q) : r = q ∧ ∃ a, res = .ok a := by
  cases res with
  | error e => cases h
  | ok a =>
      cases h
      exact ⟨rfl, a, rfl⟩

/-- The snapshot is a delta on another base than the applied index of the store. -/
def Refuses (ar : Archiver) (n : SurrealStorage) (snap : Snapshot) : Prop :=
  ∃ metadata entries base count,
    decodeSnapshotPayload ar snap.snapshot = .ok (some (.delta metadata entries)) ∧
    metadata.format = .delta base count ∧ n.metadata.appliedState.lastAppliedIndex ≠ base

/-- Its install fails and changes nothing. -/
theorem Refuses.installSnapshot {ar : Archiver} {n : SurrealStorage} {snap : Snapshot}
    (h : Refuses ar n snap) : ∃ e, SurrealStorage.installSnapshot ar snap.snapshotMeta
      snap.snapshot n = (.error e, n) := by
  obtain ⟨metadata, entries, base, count, hdecode, hformat, hbase⟩ := h
  exact ⟨_, installSnapshot_delta_mismatch hdecode hformat hbase⟩

/-- What a node of a group does, given the snapshots that were published, with what is left of the
node and what it publishes.  Builds and installs on the base of a delta are made with nothing
pending. -/
inductive Step (ar : Archiver) (log : List Entry) (published : List Snapshot) (r : Replica) :
    Option Replica → List Snapshot → Prop
  | append (es : List Entry) {res : Except RaftError Unit} {n' : SurrealStorage} :
      r.applied ++ (r.pending ++ es) <+: log → SurrealStorage.append es r.store = (res, n') →
      Step ar log published r (ifOk ⟨{ r.run with store := n' }, r.pending ++ es⟩ res) []
  | apply (es rest : List Entry) {res : Except RaftError Unit} {n' : SurrealStorage} :
      r.pending = es ++ rest → SurrealStorage.apply es r.store = (res, n') →
      Step ar log published r (ifOk ⟨⟨n', r.applied ++ es, r.run.lastBuilt⟩, rest⟩ res) []
  | purge (id : LogId) {res : Except RaftError Unit} {n' : SurrealStorage} :
      SurrealStorage.purge id r.store = (res, n') →
      Step ar log published r (ifOk ⟨{ r.run with store := n' }, r.pending⟩ res) []
  | saveVote (vote : Vote) {res : Except RaftError Unit} {n' : SurrealStorage} :
      SurrealStorage.saveVote vote r.store = (res, n') →
      Step ar log published r (ifOk ⟨{ r.run with store := n' }, r.pending⟩ res) []
  | build {snap : Snapshot} {n' : SurrealStorage} :
      r.pending = [] → buildSnapshot ar r.store = (.ok snap, n') →
      Step ar log published r
        (some ⟨⟨n', r.applied, builtIndex r.run.lastBuilt (.ok snap)⟩, []⟩) [snap]
  | buildFails {e : RaftError} {n' : SurrealStorage} :
      r.pending = [] → buildSnapshot ar r.store = (.error e, n') →
      Step ar log published r (some ⟨{ r.run with store := n' }, []⟩) []
  | merge (ex : MergeExecutor) (trigger : MergeTrigger)
      {res : Except RaftError MergeTaskResult} {m' : MetadataManager} :
      ex.runMergeLoop ar trigger r.store.metadata = (res, m') →
      Step ar log published r
        (some ⟨{ r.run with store := { r.store with metadata := m' } }, r.pending⟩) []
  | install {snap : Snapshot} {res : Except RaftError Unit} {n' : SurrealStorage} :
      snap ∈ published → isDeltaPayload ar snap.snapshot = true → ¬ Refuses ar r.store snap →
      r.pending = [] → installSnapshot ar snap.snapshotMeta snap.snapshot r.store = (res, n') →
      Step ar log published r (ifOk ⟨⟨n',
        log.filter fun e => decide (e.index ≤ snapshotIndex snap), r.run.lastBuilt⟩, []⟩ res) []
  | refuse {snap : Snapshot} {res : Except RaftError Unit} {n' : SurrealStorage} :
      snap ∈ published → Refuses ar r.store snap →
      installSnapshot ar snap.snapshotMeta snap.snapshot r.store = (res, n') →
      Step ar log published r (some ⟨{ r.run with store := n' }, r.pending⟩) []

variable {ar : Archiver} {log : List Entry} {r : Replica}

/-- A build, whatever comes of it, leaves a replica of the same entries. -/
theorem Inv.built {res : Except RaftError Snapshot} {n' : SurrealStorage} (h : Inv ar log r)
    (hidle : r.pending = []) (hbuild : buildSnapshot ar r.store = (res, n')) :
    Inv ar log ⟨⟨n', r.applied, builtIndex r.run.lastBuilt res⟩, []⟩ := by
  obtain ⟨current, hdata⟩ := data_buildSnapshot hbuild
  have hsame : n'.lastMembership = r.store.lastMembership := congrArg Data.lastMembership hdata
  exact .of_chainInv ((h.idle hidle).buildSnapshot hbuild) h.isPrefix_applied
    (hsame.trans h.membership)

/-- A delta that installs brings the replica to the prefix that it was cut from. -/
theorem Inv.install {snap : Snapshot} {n' : SurrealStorage} {u : Unit} (h : Inv ar log r)
    (hinc : Increasing log) (hone : RequestsFromOne log) (hships : Ships ar log snap)
    (hdelta : isDeltaPayload ar snap.snapshot = true) (hidle : r.pending = [])
    (hinstall : installSnapshot ar snap.snapshotMeta snap.snapshot r.store = (.ok u, n')) :
    Inv ar log ⟨⟨n', log.filter fun e => decide (e.index ≤ snapshotIndex snap),
      r.run.lastBuilt⟩, []⟩ ∧
      r.applied <+: log.filter fun e => decide (e.index ≤ snapshotIndex snap) := by
  obtain ⟨metadata, entries, hdecode⟩ := exists_of_isDeltaPayload hdelta
  obtain ⟨front, base, count, hfront, hne, hfits, hformat, hle, hid, hmembership, _, hcarries⟩ :=
    hships metadata entries hdecode
  obtain ⟨hbase, fs, rfl⟩ := installSnapshot_delta_ok hdecode hformat hcarries hid hinstall
  have hchain := h.idle hidle
  rw [hchain.tracks.position] at hbase
  subst hbase
  obtain ⟨back, rfl⟩ := prefix_of_position_le hinc h.isPrefix_applied hfront hne hle
  rw [snapshotIndex_of_lastLogId hid, filter_position hinc hfront hne]
  have hinc' : Increasing (r.applied ++ back) := hinc.sublist hfront.sublist
  have hone' : RequestsFromOne (r.applied ++ back) := fun e he => hone e (hfront.subset he)
  refine ⟨.of_chainInv ⟨(hchain.tracks.delta hinc' hone' hfits).congr rfl, ?_⟩ hfront hmembership,
    List.prefix_append _ _⟩
  obtain ⟨hfiles, hstate⟩ := Prod.mk.inj (foldl_keeps chained_afterEntry
    (requestsIn (saturatingAdd (positionAfter r.applied).lastAppliedIndex 1)
      (positionAfter (r.applied ++ back)).lastAppliedIndex (r.applied ++ back)) r.store)
  have hsame := h.chain.extend hinc'
  rw [← hstate] at hsame
  exact hsame.of_fileState hfiles

/-- A delta that installs has the applied index as its base, and ends above it. -/
theorem install_base {snap : Snapshot} {n' : SurrealStorage} {u : Unit}
    (hships : Ships ar log snap) (hdelta : isDeltaPayload ar snap.snapshot = true)
    (hinstall : installSnapshot ar snap.snapshotMeta snap.snapshot r.store = (.ok u, n')) :
    ∃ metadata entries count,
      decodeSnapshotPayload ar snap.snapshot = .ok (some (.delta metadata entries)) ∧
      metadata.format = .delta r.appliedIndex count ∧
      (r.appliedIndex < u64Max → r.appliedIndex < snapshotIndex snap) := by
  obtain ⟨metadata, entries, hdecode⟩ := exists_of_isDeltaPayload hdelta
  obtain ⟨front, base, count, _, _, _, hformat, _, hid, _, hne, hcarries⟩ :=
    hships metadata entries hdecode
  obtain ⟨hbase, _⟩ := installSnapshot_delta_ok hdecode hformat hcarries hid hinstall
  subst hbase
  refine ⟨metadata, entries, count, hdecode, hformat, fun hmax => ?_⟩
  -- the first entry of the delta is above the base and not above the end
  obtain ⟨d, ds, rfl⟩ := List.exists_cons_of_ne_nil hne
  obtain ⟨e, es, _, _, hes⟩ := List.forall₂_cons_right_iff.mp hcarries
  have hmem : e ∈ requestsIn (saturatingAdd r.appliedIndex 1)
      (positionAfter front).lastAppliedIndex front := by
    rw [hes]
    exact List.mem_cons_self
  obtain ⟨_, hlo, hhi, _⟩ := mem_requestsIn.mp hmem
  rw [snapshotIndex_of_lastLogId hid]
  exact UInt64.lt_of_lt_of_le ((saturatingAdd_one_le_iff hmax).mp hlo) hhi

/-- Every step keeps the node a replica of the log, takes nothing back of what it applied, and
publishes deltas of the log. -/
theorem Inv.step {published snaps : List Snapshot} {r' : Option Replica} (h : Inv ar log r)
    (hinc : Increasing log) (hone : RequestsFromOne log)
    (hpublished : ∀ snap ∈ published, Ships ar log snap)
    (hstep : r.Step ar log published r' snaps) :
    (∀ q, r' = some q → q.Inv ar log ∧ r.applied <+: q.applied) ∧
      ∀ snap ∈ snaps, Ships ar log snap := by
  cases hstep with
  | append es hlog happend =>
      refine ⟨?_, fun _ hmem => nomatch hmem⟩
      rintro q hq
      obtain ⟨rfl, u, rfl⟩ := ifOk_eq_some hq
      exact ⟨h.append hlog hinc happend, List.prefix_rfl⟩
  | apply es rest hpending happly =>
      refine ⟨?_, fun _ hmem => nomatch hmem⟩
      rintro q hq
      obtain ⟨rfl, u, rfl⟩ := ifOk_eq_some hq
      exact ⟨h.apply hpending hinc happly, List.prefix_append _ _⟩
  | purge id hpurge =>
      refine ⟨?_, fun _ hmem => nomatch hmem⟩
      rintro q hq
      obtain ⟨rfl, u, rfl⟩ := ifOk_eq_some hq
      obtain ⟨_, rfl⟩ := Eff.ok_inj hpurge
      exact ⟨h.of_observed rfl, List.prefix_rfl⟩
  | saveVote vote hsave =>
      refine ⟨?_, fun _ hmem => nomatch hmem⟩
      rintro q hq
      obtain ⟨rfl, u, rfl⟩ := ifOk_eq_some hq
      exact ⟨h.of_observed ((keeps_observed_saveVote vote).of_run hsave), List.prefix_rfl⟩
  | build hidle hbuild =>
      refine ⟨?_, ?_⟩
      · rintro q hq
        cases hq
        exact ⟨h.built hidle hbuild, List.prefix_rfl⟩
      · intro snap hmem
        rw [List.mem_singleton] at hmem
        subst hmem
        exact .of_build (h.idle hidle) h.isPrefix_applied h.membership hbuild
  | buildFails hidle hbuild =>
      refine ⟨?_, fun _ hmem => nomatch hmem⟩
      rintro q hq
      cases hq
      exact ⟨h.built hidle hbuild, List.prefix_rfl⟩
  | merge ex trigger hmerge =>
      refine ⟨?_, fun _ hmem => nomatch hmem⟩
      rintro q hq
      cases hq
      exact ⟨h.merge hinc hmerge, List.prefix_rfl⟩
  | install hmem hdelta _ hidle hinstall =>
      refine ⟨?_, fun _ hmem => nomatch hmem⟩
      rintro q hq
      obtain ⟨rfl, u, rfl⟩ := ifOk_eq_some hq
      exact h.install hinc hone (hpublished _ hmem) hdelta hidle hinstall
  | refuse _ hrefuses hinstall =>
      refine ⟨?_, fun _ hmem => nomatch hmem⟩
      rintro q hq
      cases hq
      obtain ⟨e, herr⟩ := hrefuses.installSnapshot
      obtain ⟨-, rfl⟩ := Prod.mk.inj (herr.symm.trans hinstall)
      exact ⟨h.of_observed rfl, List.prefix_rfl⟩

/-- Above index zero something was applied. -/
theorem Inv.applied_ne_nil (h : Inv ar log r) (hidle : r.pending = [])
    (hzero : r.appliedIndex ≠ 0) : r.applied ≠ [] := by
  intro hnil
  have hindex := h.appliedIndex_eq hidle
  rw [hnil] at hindex
  exact hzero hindex

/-- What a replica with nothing pending reports. -/
theorem Inv.appliedState_eq (h : Inv ar log r) (hidle : r.pending = [])
    (hzero : r.appliedIndex ≠ 0) :
    (appliedState r.store).1 =
      .ok (r.applied.getLast?.map Entry.logId, membershipAfter r.applied) := by
  have hposition := (h.idle hidle).tracks.position
  obtain ⟨init, last, hlast⟩ :=
    (List.eq_nil_or_concat r.applied).resolve_left (h.applied_ne_nil hidle hzero)
  rw [List.concat_eq_append] at hlast
  have hid : r.store.appliedLogId = some last.logId := by
    rw [appliedLogId, if_neg hzero]
    rw [show r.run.applied = _ from hlast, positionAfter_concat] at hposition
    rw [hposition]
    rfl
  rw [appliedState_run, hid, h.membership, hlast, List.getLast?_concat]
  rfl

end Replica

/-- The nodes of a group that still run, and all snapshots they ever published. -/
structure ReplicaGroup (ι : Type) where
  node : ι → Option Replica
  published : List Snapshot

namespace ReplicaGroup

variable {ι : Type}

def start (stores : ι → SurrealStorage) : ReplicaGroup ι := ⟨fun i => some (.start (stores i)), []⟩

/-- Every replica of the group is one of the log, and every delta is cut from the log. -/
structure Inv (ar : Archiver) (log : List Entry) (g : ReplicaGroup ι) : Prop where
  nodes : ∀ i r, g.node i = some r → r.Inv ar log
  published : ∀ snap ∈ g.published, Ships ar log snap

theorem Inv.start {ar : Archiver} {log : List Entry} {stores : ι → SurrealStorage}
    (h : ∀ i, Fresh (stores i)) : Inv ar log (ReplicaGroup.start stores) where
  nodes := by
    intro i r hr
    cases hr
    exact .start (h i)
  published := fun _ hmem => nomatch hmem

variable [DecidableEq ι]

/-- One node takes a step. -/
inductive Step (ar : Archiver) (log : List Entry) : ReplicaGroup ι → ReplicaGroup ι → Prop
  | step {g : ReplicaGroup ι} (i : ι) (r : Replica) {r' : Option Replica}
      {snaps : List Snapshot} :
      g.node i = some r → r.Step ar log g.published r' snaps →
      Step ar log g ⟨Function.update g.node i r', g.published ++ snaps⟩

/-- The group after a node installed a snapshot. -/
def installed (g : ReplicaGroup ι) (log : List Entry) (i : ι) (r : Replica) (snap : Snapshot)
    (n' : SurrealStorage) : ReplicaGroup ι where
  node := Function.update g.node i (some ⟨⟨n',
    log.filter fun e => decide (e.index ≤ snapshotIndex snap), r.run.lastBuilt⟩, []⟩)
  published := g.published

theorem installed_step {ar : Archiver} {log : List Entry} {g : ReplicaGroup ι} {i : ι}
    {r : Replica} {snap : Snapshot} {n' : SurrealStorage} {u : Unit} (hr : g.node i = some r)
    (hmem : snap ∈ g.published) (hdelta : isDeltaPayload ar snap.snapshot = true)
    (hidle : r.pending = [])
    (hinstall : installSnapshot ar snap.snapshotMeta snap.snapshot r.store = (.ok u, n')) :
    Step ar log g (g.installed log i r snap n') := by
  have haccepts : ¬ Replica.Refuses ar r.store snap := by
    intro hrefuses
    obtain ⟨e, herr⟩ := hrefuses.installSnapshot
    cases herr.symm.trans hinstall
  have hstep : Step ar log g _ := .step i r hr (.install hmem hdelta haccepts hidle hinstall)
  rw [List.append_nil] at hstep
  exact hstep

/-! ## Runs -/

theorem Inv.step {ar : Archiver} {log : List Entry} {g g' : ReplicaGroup ι} (h : Inv ar log g)
    (hinc : Increasing log) (hone : RequestsFromOne log) (hstep : Step ar log g g') :
    Inv ar log g' := by
  obtain ⟨i, r, hnode, hnodeStep⟩ := hstep
  have hnext := (h.nodes i r hnode).step hinc hone h.published hnodeStep
  refine ⟨?_, ?_⟩
  · intro j q hq
    by_cases hj : j = i
    · subst hj
      simp only [Function.update_self] at hq
      exact (hnext.1 q hq).1
    · simp only [Function.update_of_ne hj] at hq
      exact h.nodes j q hq
  · intro snap hmem
    rcases List.mem_append.mp hmem with hmem | hmem
    · exact h.published snap hmem
    · exact hnext.2 snap hmem

theorem Inv.run {ar : Archiver} {log : List Entry} {g g' : ReplicaGroup ι} (h : Inv ar log g)
    (hinc : Increasing log) (hone : RequestsFromOne log)
    (hrun : ReflTransGen (Step ar log) g g') : Inv ar log g' := by
  induction hrun with
  | refl => exact h
  | tail _ hstep ih => exact ih.step hinc hone hstep

/-- A node that still runs after a step ran before it, and has applied no less. -/
theorem Inv.extends {ar : Archiver} {log : List Entry} {g g' : ReplicaGroup ι} (h : Inv ar log g)
    (hinc : Increasing log) (hone : RequestsFromOne log) (hstep : Step ar log g g') {i : ι}
    {b : Replica} (hb : g'.node i = some b) : ∃ a, g.node i = some a ∧ a.applied <+: b.applied := by
  obtain ⟨j, r, hnode, hnodeStep⟩ := hstep
  by_cases hj : i = j
  · subst hj
    simp only [Function.update_self] at hb
    have hnext := (h.nodes i r hnode).step hinc hone h.published hnodeStep
    exact ⟨r, hnode, (hnext.1 b hb).2⟩
  · simp only [Function.update_of_ne hj] at hb
    exact ⟨b, hb, List.prefix_rfl⟩

/-- Along a run a node loses nothing of what it applied. -/
theorem Inv.run_extends {ar : Archiver} {log : List Entry} {g g' : ReplicaGroup ι}
    (h : Inv ar log g) (hinc : Increasing log) (hone : RequestsFromOne log)
    (hrun : ReflTransGen (Step ar log) g g') {i : ι} {b : Replica} (hb : g'.node i = some b) :
    ∃ a, g.node i = some a ∧ a.applied <+: b.applied := by
  induction hrun generalizing b with
  | refl => exact ⟨b, hb, List.prefix_rfl⟩
  | tail hrun hstep ih =>
      obtain ⟨c, hc, hbc⟩ := (h.run hinc hone hrun).extends hinc hone hstep hb
      obtain ⟨a, ha, hac⟩ := ih hc
      exact ⟨a, ha, hac.trans hbc⟩

/-! ## Agreement -/

/-- Two requests. -/
def twoPuts : List Entry := [.put 1 1 "a" [1], .put 1 2 "b" [2]]

theorem increasing_twoPuts : Increasing twoPuts := List.pairwise_pair.mpr (by decide)

theorem requestsFromOne_twoPuts : RequestsFromOne twoPuts := by
  intro e he _
  simp only [twoPuts, List.mem_cons, List.not_mem_nil, or_false] at he
  rcases he with rfl | rfl <;> decide

/-- One node builds a full snapshot between two entries and a delta after them.  The other has only
the first entry and then installs the delta. -/
theorem exists_twoPuts_run :
    ∃ (g g' : ReplicaGroup Bool) (a b c : Replica) (snap : Snapshot) (n' : SurrealStorage),
      ReflTransGen (Step .stored twoPuts) (start fun _ => fresh []) g ∧
      (snap ∈ g.published ∧ isDeltaPayload .stored snap.snapshot = true ∧
        installSnapshot .stored snap.snapshotMeta snap.snapshot b.store = (.ok (), n') ∧
        g' = g.installed twoPuts false b snap n') ∧
      (g'.node true = some a ∧ a.pending = [] ∧ a.appliedIndex = 2) ∧
      (g.node false = some b ∧ b.pending = [] ∧ b.appliedIndex = 1) ∧
      (g'.node false = some c ∧ c.pending = [] ∧ c.appliedIndex = 2) := by
  have htest : (append [.put 1 1 "a" [1]]).succeeds (fresh []) (fun _ n₁ =>
      (apply [.put 1 1 "a" [1]]).succeeds n₁ fun _ n₂ =>
        (buildSnapshot .stored).succeeds n₂ fun _ n₃ =>
          (append [.put 1 2 "b" [2]]).succeeds n₃ fun _ n₄ =>
            (apply [.put 1 2 "b" [2]]).succeeds n₄ fun _ n₅ =>
              (buildSnapshot .stored).succeeds n₅ fun snap n₆ =>
                (installSnapshot .stored snap.snapshotMeta snap.snapshot).succeeds n₂ fun _ n₇ =>
                  isDeltaPayload .stored snap.snapshot &&
                    decide (n₆.metadata.appliedState.lastAppliedIndex = 2 ∧
                      n₂.metadata.appliedState.lastAppliedIndex = 1 ∧
                      n₇.metadata.appliedState.lastAppliedIndex = 2)) = true := by
    decide +kernel
  obtain ⟨_, n₁, happend, htest⟩ := Eff.exists_of_succeeds htest
  obtain ⟨_, n₂, happly, htest⟩ := Eff.exists_of_succeeds htest
  obtain ⟨full, n₃, hfull, htest⟩ := Eff.exists_of_succeeds htest
  obtain ⟨_, n₄, happend', htest⟩ := Eff.exists_of_succeeds htest
  obtain ⟨_, n₅, happly', htest⟩ := Eff.exists_of_succeeds htest
  obtain ⟨snap, n₆, hbuild, htest⟩ := Eff.exists_of_succeeds htest
  obtain ⟨_, n₇, hinstall, htest⟩ := Eff.exists_of_succeeds htest
  rw [Bool.and_eq_true, decide_eq_true_eq] at htest
  obtain ⟨hdelta, hsix, htwo, hseven⟩ := htest
  have hfront : [Entry.put 1 1 "a" [1]] <+: twoPuts := ⟨[.put 1 2 "b" [2]], rfl⟩
  have hrun : ReflTransGen (Step .stored twoPuts) (start fun _ : Bool => fresh []) _ :=
    (((((((ReflTransGen.refl
      |>.tail (.step true _ rfl (.append [.put 1 1 "a" [1]] hfront happend)))
      |>.tail (.step true _ rfl (.apply [.put 1 1 "a" [1]] [] rfl happly)))
      |>.tail (.step true _ rfl (.build rfl hfull)))
      |>.tail (.step true _ rfl (.append [.put 1 2 "b" [2]] List.prefix_rfl happend')))
      |>.tail (.step true _ rfl (.apply [.put 1 2 "b" [2]] [] rfl happly')))
      |>.tail (.step true _ rfl (.build rfl hbuild)))
      |>.tail (.step false _ rfl (.append [.put 1 1 "a" [1]] hfront happend)))
      |>.tail (.step false _ rfl (.apply [.put 1 1 "a" [1]] [] rfl happly))
  exact ⟨_, _, _, _, _, snap, n₇, hrun, ⟨by simp, hdelta, hinstall, rfl⟩,
    ⟨rfl, rfl, hsix⟩, ⟨rfl, rfl, htwo⟩, ⟨rfl, rfl, hseven⟩⟩

/-- The second part of that run, after which the delta is delivered once more and refused. -/
theorem exists_twoPuts_runs :
    ∃ (g g' : ReplicaGroup Bool) (a b c : Replica),
      ReflTransGen (Step .stored twoPuts) (start fun _ => fresh []) g ∧
      ReflTransGen (Step .stored twoPuts) g g' ∧
      (g'.node true = some a ∧ a.pending = [] ∧ a.appliedIndex = 2) ∧
      (g.node false = some b ∧ b.pending = [] ∧ b.appliedIndex = 1) ∧
      (g'.node false = some c ∧ c.pending = [] ∧ c.appliedIndex = 2) := by
  obtain ⟨g, g', a, b, c, snap, n', hrun, ⟨hmem, hdelta, hinstall, rfl⟩, ha, hb, hc⟩ :=
    exists_twoPuts_run
  have hinv := (Inv.start fun _ => fresh_fresh []).run increasing_twoPuts requestsFromOne_twoPuts
    hrun
  obtain ⟨metadata, entries, count, hdecode, hformat, _⟩ :=
    Replica.install_base (hinv.published snap hmem) hdelta hinstall
  have hbase : c.appliedIndex ≠ b.appliedIndex := by
    rw [hb.2.2, hc.2.2]
    decide
  have hrefuses : Replica.Refuses .stored c.store snap :=
    ⟨metadata, entries, b.appliedIndex, count, hdecode, hformat, hbase⟩
  obtain ⟨e, herr⟩ := hrefuses.installSnapshot
  have hagain : Step .stored twoPuts (g.installed twoPuts false b snap n') _ :=
    .step false c hc.1 (.refuse hmem hrefuses herr)
  refine ⟨g, _, a, b, c, hrun,
    (ReflTransGen.single (installed_step hb.1 hmem hdelta hb.2.1 hinstall)).tail hagain, ?_, hb, ?_⟩
  · exact ⟨ha.1, ha.2⟩
  · exact ⟨rfl, hc.2⟩

/-- A node with nothing pending holds what the requests of the log up to its applied index leave,
so two such nodes at one applied index agree. -/
theorem idle_replicas_converge {ar : Archiver} {log : List Entry} {stores : ι → SurrealStorage}
    {g : ReplicaGroup ι} (hinc : Increasing log) (hone : RequestsFromOne log)
    (hfresh : ∀ i, Fresh (stores i)) (hrun : ReflTransGen (Step ar log) (start stores) g) :
    (∀ i a, g.node i = some a → a.pending = [] → ∀ key, (read key a.store).1 =
      .ok (replay ∅ (updates (log.filter fun e => decide (e.index ≤ a.appliedIndex))))[key]?) ∧
    ∀ i j a b, g.node i = some a → g.node j = some b → a.pending = [] → b.pending = [] →
      a.appliedIndex = b.appliedIndex → ∀ key, (read key a.store).1 = (read key b.store).1 := by
  have hinv := (Inv.start hfresh).run hinc hone hrun
  have hholds : ∀ i a, g.node i = some a → a.pending = [] → ∀ key, (read key a.store).1 =
      .ok (replay ∅ (updates (log.filter fun e => decide (e.index ≤ a.appliedIndex))))[key]? := by
    intro i a ha hidle key
    have hnode := hinv.nodes i a ha
    rw [hnode.appliedIndex_eq hidle, updates_position hinc hone hnode.isPrefix_applied, ← hnode.map]
    rfl
  refine ⟨hholds, fun i j a b ha hb hidle hidle' hsame key => ?_⟩
  rw [hholds i a ha hidle, hholds j b hb hidle', hsame]

theorem idle_replicas_converge_twoPuts :
    ∃ (g : ReplicaGroup Bool) (a b : Replica),
      ReflTransGen (Step .stored twoPuts) (start fun _ => fresh []) g ∧
      g.node true = some a ∧ g.node false = some b ∧ b.appliedIndex = 2 ∧
      ∀ key, (read key a.store).1 = (read key b.store).1 := by
  obtain ⟨g, g', a, b, c, hrun, hmore, ⟨ha, hidle, hindex⟩, _, hc, hidle', hindex'⟩ :=
    exists_twoPuts_runs
  have hagree := (idle_replicas_converge increasing_twoPuts requestsFromOne_twoPuts
    (fun _ => fresh_fresh []) (hrun.trans hmore)).2 true false
  exact ⟨g', a, c, hrun.trans hmore, ha, hc, hindex',
    hagree a c ha hc hidle hidle' (hindex.trans hindex'.symm)⟩

/-- From one idle state of a node to a later one the applied index does not go back, and the map
moves on by the requests of the log in between. -/
theorem idle_replica_moves_on {ar : Archiver} {log : List Entry} {stores : ι → SurrealStorage}
    {g g' : ReplicaGroup ι} {i : ι} {a b : Replica} (hinc : Increasing log)
    (hone : RequestsFromOne log) (hfresh : ∀ i, Fresh (stores i))
    (hrun : ReflTransGen (Step ar log) (start stores) g) (hmore : ReflTransGen (Step ar log) g g')
    (ha : g.node i = some a) (hb : g'.node i = some b) (hidle : a.pending = [])
    (hidle' : b.pending = []) :
    a.appliedIndex ≤ b.appliedIndex ∧ ∀ key, (read key b.store).1 =
      .ok (replay a.store.stateMachine (updates (log.filter fun e =>
        decide (a.appliedIndex < e.index) && decide (e.index ≤ b.appliedIndex))))[key]? := by
  have hinv := (Inv.start hfresh).run hinc hone hrun
  have hinv' := hinv.run hinc hone hmore
  obtain ⟨a', ha', back, hback⟩ := hinv.run_extends hinc hone hmore hb
  rw [ha] at ha'
  cases ha'
  have hlog := (hinv'.nodes i b hb).isPrefix_applied
  have hindex' := (hinv'.nodes i b hb).appliedIndex_eq hidle'
  have hmap := (hinv'.nodes i b hb).map
  rw [← hback] at hlog hindex' hmap
  rw [(hinv.nodes i a ha).appliedIndex_eq hidle, hindex']
  refine ⟨positionAfter_le_append (hinc.sublist hlog.sublist), fun key => ?_⟩
  rw [updates_range hinc hone hlog, (hinv.nodes i a ha).map, ← replay_append, ← updates_append,
    ← hmap]
  rfl

theorem idle_replica_moves_on_twoPuts :
    ∃ (g g' : ReplicaGroup Bool) (b c : Replica),
      ReflTransGen (Step .stored twoPuts) g g' ∧
      g.node false = some b ∧ g'.node false = some c ∧ b.appliedIndex = 1 ∧ c.appliedIndex = 2 ∧
      ∀ key, (read key c.store).1 = .ok (replay b.store.stateMachine
        (updates (twoPuts.filter fun e => decide (b.appliedIndex < e.index) &&
          decide (e.index ≤ c.appliedIndex))))[key]? := by
  obtain ⟨g, g', a, b, c, hrun, hmore, _, ⟨hb, hidle, hindex⟩, hc, hidle', hindex'⟩ :=
    exists_twoPuts_runs
  exact ⟨g, g', b, c, hmore, hb, hc, hindex, hindex',
    (idle_replica_moves_on increasing_twoPuts requestsFromOne_twoPuts (fun _ => fresh_fresh [])
      hrun hmore hb hc hidle hidle').2⟩

/-- A node with nothing pending at an applied index above zero reports the log id of the last entry
of the log up to there and the last membership, so two such nodes at one index report the same. -/
theorem idle_replicas_report_alike {ar : Archiver} {log : List Entry} {stores : ι → SurrealStorage}
    {g : ReplicaGroup ι} (hinc : Increasing log) (hone : RequestsFromOne log)
    (hfresh : ∀ i, Fresh (stores i)) (hrun : ReflTransGen (Step ar log) (start stores) g) :
    (∀ i a, g.node i = some a → a.pending = [] → a.appliedIndex ≠ 0 →
      (appliedState a.store).1 = .ok
        ((log.filter fun e => decide (e.index ≤ a.appliedIndex)).getLast?.map Entry.logId,
          membershipAfter (log.filter fun e => decide (e.index ≤ a.appliedIndex)))) ∧
    ∀ i j a b, g.node i = some a → g.node j = some b → a.pending = [] → b.pending = [] →
      a.appliedIndex = b.appliedIndex → a.appliedIndex ≠ 0 →
      (appliedState a.store).1 = (appliedState b.store).1 := by
  have hinv := (Inv.start hfresh).run hinc hone hrun
  have hreport : ∀ i a, g.node i = some a → a.pending = [] → a.appliedIndex ≠ 0 →
      (appliedState a.store).1 = .ok
        ((log.filter fun e => decide (e.index ≤ a.appliedIndex)).getLast?.map Entry.logId,
          membershipAfter (log.filter fun e => decide (e.index ≤ a.appliedIndex))) := by
    intro i a ha hidle hzero
    have hnode := hinv.nodes i a ha
    rw [hnode.appliedState_eq hidle hzero, hnode.appliedIndex_eq hidle,
      filter_position hinc hnode.isPrefix_applied (hnode.applied_ne_nil hidle hzero)]
  refine ⟨hreport, fun i j a b ha hb hidle hidle' hsame hzero => ?_⟩
  rw [hreport i a ha hidle hzero, hreport j b hb hidle' (hsame ▸ hzero), hsame]

theorem idle_replicas_report_alike_twoPuts :
    ∃ (g : ReplicaGroup Bool) (a b : Replica),
      ReflTransGen (Step .stored twoPuts) (start fun _ => fresh []) g ∧
      g.node true = some a ∧ g.node false = some b ∧ b.appliedIndex = 2 ∧
      (appliedState a.store).1 = (appliedState b.store).1 := by
  obtain ⟨g, g', a, b, c, hrun, hmore, ⟨ha, hidle, hindex⟩, _, hc, hidle', hindex'⟩ :=
    exists_twoPuts_runs
  have hagree := (idle_replicas_report_alike increasing_twoPuts requestsFromOne_twoPuts
    (fun _ => fresh_fresh []) (hrun.trans hmore)).2 true false
  refine ⟨g', a, c, hrun.trans hmore, ha, hc, hindex',
    hagree a c ha hc hidle hidle' (hindex.trans hindex'.symm) ?_⟩
  rw [hindex]
  decide

/-! ## A delta that is delivered again -/

/-- A delta that a node installed is refused for its base at every later time, also while entries
wait to be applied, and changes nothing then. -/
theorem installed_delta_refused {ar : Archiver} {log : List Entry} {stores : ι → SurrealStorage}
    {g g' : ReplicaGroup ι} {i : ι} {a b : Replica} {snap : Snapshot} {n' : SurrealStorage}
    {u : Unit} (hinc : Increasing log) (hone : RequestsFromOne log)
    (hfresh : ∀ i, Fresh (stores i)) (hrun : ReflTransGen (Step ar log) (start stores) g)
    (ha : g.node i = some a) (hidle : a.pending = []) (hmax : a.appliedIndex < u64Max)
    (hmem : snap ∈ g.published) (hdelta : isDeltaPayload ar snap.snapshot = true)
    (hinstall : installSnapshot ar snap.snapshotMeta snap.snapshot a.store = (.ok u, n'))
    (hmore : ReflTransGen (Step ar log) (g.installed log i a snap n') g')
    (hb : g'.node i = some b) :
    installSnapshot ar snap.snapshotMeta snap.snapshot b.store =
      (.error (baseMismatch a.appliedIndex b.appliedIndex).ioOther, b.store) := by
  have hinv := (Inv.start hfresh).run hinc hone hrun
  have hinv₁ := hinv.step hinc hone (installed_step ha hmem hdelta hidle hinstall)
  have hinv' := hinv₁.run hinc hone hmore
  obtain ⟨metadata, entries, count, hdecode, hformat, hlt⟩ :=
    Replica.install_base (hinv.published snap hmem) hdelta hinstall
  refine installSnapshot_delta_mismatch hdecode hformat ?_
  -- what is applied now extends what the delta brought
  obtain ⟨c, hc, back, hback⟩ := hinv₁.run_extends hinc hone hmore hb
  simp only [installed, Function.update_self, Option.some.injEq] at hc
  subst hc
  have hb' := hinv'.nodes i b hb
  have hle := positionAfter_le_append
    (hback ▸ hinc.sublist hb'.isPrefix_applied.sublist : Increasing (_ ++ back))
  rw [hback, (hinv.published snap hmem).position_filter hinc hdelta] at hle
  have habove := UInt64.lt_of_lt_of_le (hlt hmax) (UInt64.le_trans hle hb'.reached)
  exact (UInt64.ne_of_lt habove).symm

theorem installed_delta_refused_twoPuts :
    ∃ (b c : Replica) (snap : Snapshot) (n' : SurrealStorage),
      installSnapshot .stored snap.snapshotMeta snap.snapshot b.store = (.ok (), n') ∧
      b.appliedIndex = 1 ∧ c.appliedIndex = 2 ∧
      installSnapshot .stored snap.snapshotMeta snap.snapshot c.store =
        (.error (baseMismatch b.appliedIndex c.appliedIndex).ioOther, c.store) := by
  obtain ⟨g, g', _, b, c, snap, n', hrun, ⟨hmem, hdelta, hinstall, rfl⟩, _, ⟨hb, hidle, hindex⟩,
    hc, _, hindex'⟩ := exists_twoPuts_run
  refine ⟨b, c, snap, n', hinstall, hindex, hindex', installed_delta_refused increasing_twoPuts
    requestsFromOne_twoPuts (fun _ => fresh_fresh []) hrun hb hidle ?_ hmem hdelta hinstall .refl
    hc⟩
  rw [hindex]
  decide

end ReplicaGroup

end SurrealStorage

end OpenraftSurrealkv
