import OpenraftSurrealkv.Effects.Sharing
import OpenraftSurrealkv.Properties.Chain

/-!
# Builds beside merges

Builds and merge tasks on one store, one atomic step at a time.  Each of them
reads the snapshot state and saves it later, and nothing keeps others from
saving in between: a merge then drops the delta of a build that it did not see
(`SurrealStorage.delta_lost`).

When every save finds the state that its call has read, the calls might as well
have run one after another (`SurrealStorage.builds_and_merges_serializable`).
Then a delta that was pushed is in the chain or below the checkpoint, and the
checkpoint does not go back.
-/

namespace OpenraftSurrealkv

open SurrealStorage

/-! ## Deltas and the checkpoint -/

/-- The index of the checkpoint, zero without one. -/
def SnapshotMetaState.checkpointIndex (st : SnapshotMetaState) : UInt64 :=
  (st.lastCheckpoint.map PersistedCheckpointMetadata.checkpointIndex).getD 0

/-- The request log is kept by index, and the deltas end between the checkpoint and the applied
index. -/
structure SoundChain (D : Data) (st : SnapshotMetaState) : Prop where
  keyed : ∀ k (record : LogEntry), D.raftLogs[k]? = some record → record.index = k
  checkpoint : st.checkpointIndex ≤ D.appliedState.lastAppliedIndex
  deltas : ∀ d ∈ st.deltaChain,
    st.checkpointIndex ≤ d.endIndex ∧ d.endIndex ≤ D.appliedState.lastAppliedIndex

/-- The delta is in the chain or below the checkpoint, and so is everything up to its end. -/
structure Covered (d : DeltaInfo) (st : SnapshotMetaState) : Prop where
  based : ∃ c, st.lastCheckpoint = some c
  last : ∀ last, st.deltaChain.getLast? = some last → last.endIndex = d.endIndex
  covered : d ∈ st.deltaChain ∨ d.endIndex ≤ st.checkpointIndex

section

variable {D : Data} {st st' : SnapshotMetaState}

theorem checkpointIndex_of_some {c : PersistedCheckpointMetadata}
    (h : st.lastCheckpoint = some c) : st.checkpointIndex = c.checkpointIndex := by
  rw [SnapshotMetaState.checkpointIndex, h]
  rfl

/-- The last record that a build reads. -/
theorem mem_of_last_logsSince {record : UInt64 × LogEntry}
    (h : (D.logsSince st).getLast? = some record) :
    D.raftLogs[record.1]? = some record.2 ∧ deltaStart st ≤ record.1 ∧
      record.1 ≤ D.appliedState.lastAppliedIndex := by
  unfold Data.logsSince at h
  split at h
  · exact OrdMap.mem_range.mp (List.mem_of_getLast? h)
  · cases h

/-- Whatever state a build reads, the last record is the same. -/
theorem last_logsSince_eq {record record' : UInt64 × LogEntry}
    (h : (D.logsSince st).getLast? = some record)
    (h' : (D.logsSince st').getLast? = some record') : record = record' := by
  unfold Data.logsSince at h h'
  split at h
  · split at h'
    · exact OrdMap.getLast_range_eq h h'
    · cases h'
  · cases h

/-- The checkpoint of a merged chain, when there is a delta in it. -/
theorem checkpointIndex_merged {c : PersistedCheckpointMetadata} (hc : st.lastCheckpoint = some c)
    (now : UInt64) (path : Option String) :
    (MergeExecutor.buildMergedSnapshotState st now path).checkpointIndex =
      (st.deltaChain.getLast?.map DeltaInfo.endIndex).getD st.checkpointIndex := by
  rw [checkpointIndex_of_some hc]
  simp only [SnapshotMetaState.checkpointIndex, MergeExecutor.buildMergedSnapshotState, hc,
    Option.map_some, Option.getD_some]

/-- A build keeps the chain sound and does not move the checkpoint back. -/
theorem SoundChain.build (h : SoundChain D st) (hbuild : BuildEffect D st st') :
    SoundChain D st' ∧ st.checkpointIndex ≤ st'.checkpointIndex := by
  cases hbuild with
  | @delta c record d bytes hc hlast hend =>
      obtain ⟨hget, hstart, hstop⟩ := mem_of_last_logsSince hlast
      have hindex : d.endIndex = record.1 := hend.trans (h.keyed _ _ hget)
      have hbelow : st.checkpointIndex ≤ deltaStart st := by
        rw [checkpointIndex_of_some hc, deltaStart, hc]
        exact le_saturatingAdd_one _
      refine ⟨⟨h.keyed, h.checkpoint, fun d' hd' => ?_⟩, UInt64.le_refl _⟩
      rcases List.mem_append.mp hd' with hd' | hd'
      · exact h.deltas d' hd'
      · rw [List.mem_singleton.mp hd', hindex]
        exact ⟨UInt64.le_trans hbelow hstart, hstop⟩
  | @full c hc =>
      have hindex : (⟨some c, [], 0⟩ : SnapshotMetaState).checkpointIndex =
          D.appliedState.lastAppliedIndex := hc
      refine ⟨⟨h.keyed, ?_, fun _ hd => absurd hd List.not_mem_nil⟩, ?_⟩
      · exact UInt64.le_of_eq hindex
      · rw [hindex]
        exact h.checkpoint

/-- So does a merge. -/
theorem SoundChain.merge (h : SoundChain D st) (now : UInt64) (path : Option String) :
    SoundChain D (MergeExecutor.buildMergedSnapshotState st now path) ∧
      st.checkpointIndex ≤
        (MergeExecutor.buildMergedSnapshotState st now path).checkpointIndex := by
  have hbounds : st.checkpointIndex ≤
        (MergeExecutor.buildMergedSnapshotState st now path).checkpointIndex ∧
      (MergeExecutor.buildMergedSnapshotState st now path).checkpointIndex ≤
        D.appliedState.lastAppliedIndex := by
    cases hc : st.lastCheckpoint with
    | none =>
        simp only [SnapshotMetaState.checkpointIndex, MergeExecutor.buildMergedSnapshotState, hc]
        exact ⟨UInt64.le_refl _, UInt64.zero_le⟩
    | some c =>
        rw [checkpointIndex_merged hc]
        cases hlast : st.deltaChain.getLast? with
        | none => exact ⟨UInt64.le_refl _, h.checkpoint⟩
        | some d => exact h.deltas d (List.mem_of_getLast? hlast)
  exact ⟨⟨h.keyed, hbounds.2, fun _ hd => absurd hd List.not_mem_nil⟩, hbounds.1⟩

/-- A build leaves the deltas of other builds covered. -/
theorem Covered.build {d : DeltaInfo} {record : UInt64 × LogEntry} {st₀ : SnapshotMetaState}
    (h : Covered d st) (hsound : SoundChain D st)
    (hlast₀ : (D.logsSince st₀).getLast? = some record) (hd : d.endIndex = record.2.index)
    (hbuild : BuildEffect D st st') : Covered d st' := by
  cases hbuild with
  | @delta c record' d' bytes hc hlast hend =>
      refine ⟨⟨c, hc⟩, fun last hl => ?_, h.covered.imp_left fun hmem => ?_⟩
      · rw [List.getLast?_concat, Option.some.injEq] at hl
        rw [← hl, hend, hd, last_logsSince_eq hlast hlast₀]
      · exact List.mem_append_left _ hmem
  | @full c hc =>
      obtain ⟨hget, _, hstop⟩ := mem_of_last_logsSince hlast₀
      refine ⟨⟨c, rfl⟩, fun _ hl => (nomatch hl), Or.inr ?_⟩
      show d.endIndex ≤ c.checkpointIndex
      rw [hc, hd, hsound.keyed _ _ hget]
      exact hstop

/-- A merge leaves the deltas of builds covered. -/
theorem Covered.merge {d : DeltaInfo} (h : Covered d st) (now : UInt64) (path : Option String) :
    Covered d (MergeExecutor.buildMergedSnapshotState st now path) := by
  obtain ⟨c, hc⟩ := h.based
  refine ⟨⟨_, Option.map_eq_some_iff.mpr ⟨c, hc, rfl⟩⟩, fun _ hl => (nomatch hl), Or.inr ?_⟩
  rw [checkpointIndex_merged hc]
  cases hlast : st.deltaChain.getLast? with
  | none =>
      refine h.covered.resolve_left fun hmem => ?_
      rw [List.getLast?_eq_none_iff.mp hlast] at hmem
      cases hmem
  | some last => exact UInt64.le_of_eq (h.last last hlast).symm

end

/-- In every run of applies, builds and merges one after another the chain is sound. -/
theorem SurrealStorage.ChainInv.soundChain {ar : Archiver} {s : ChainRun} (h : ChainInv ar s) :
    SoundChain s.store.data s.store.snapshotState where
  keyed := by
    intro k record hget
    have hmem : (k, record) ∈ s.store.raftLogs.toList := OrdMap.mem_toList.mpr hget
    rw [h.tracks.logs] at hmem
    obtain ⟨e, _, req, _, heq⟩ := mem_records.mp hmem
    cases heq
    rfl
  checkpoint := by
    show _ ≤ s.store.metadata.appliedState.lastAppliedIndex
    cases hc : s.store.snapshotState.lastCheckpoint with
    | none =>
        rw [SnapshotMetaState.checkpointIndex, hc]
        exact UInt64.zero_le
    | some c =>
        rw [checkpointIndex_of_some hc, h.tracks.position]
        exact h.chain.checkpoint c hc
  deltas := by
    intro d hd
    obtain ⟨c, hc⟩ := h.chain.based (List.ne_nil_of_mem hd)
    obtain ⟨stops, hcut⟩ := h.chain.cut
    obtain ⟨stop, hstop, hdelta⟩ := hcut.deltas.exists_of_mem_right hd
    have hstart : c.checkpointIndex ≤ deltaStart s.store.snapshotState := by
      rw [deltaStart, hc]
      exact le_saturatingAdd_one _
    rw [checkpointIndex_of_some hc]
    refine ⟨UInt64.le_trans hstart (UInt64.le_trans hdelta.start_le
      (hdelta.startIndex_le h.tracks.increasing)), ?_⟩
    show _ ≤ s.store.metadata.appliedState.lastAppliedIndex
    rw [h.tracks.position]
    exact UInt64.le_trans hdelta.endIndex_le (hcut.bound stop hstop)

/-! ## Calls one after another -/

/-- Builds and merges on one store. -/
abbrev SnapshotPool : Type 1 := Serial.Pool Phase SurrealStorage RaftError SnapshotMetaState

/-- One call of a pool makes one step.  A save is made only where `cond` holds of the states that
the call has read and of the current one. -/
abbrev SnapshotPool.Step (cond : List SnapshotMetaState → SnapshotMetaState → Prop) :
    SnapshotPool → SnapshotPool → Prop :=
  Serial.Pool.Step stateLens Phase.access cond

/-- The calls on a store before their first step. -/
def SnapshotPool.start (ar : Archiver) (n : SurrealStorage) (calls : List SnapshotCall) :
    SnapshotPool :=
  Serial.Pool.start n (calls.map (SnapshotCall.steps ar))

/-- The call with number `i` alone takes the snapshot state from the one to the other.  Clock,
files and everything else are at each step as in one of the visited stores. -/
def AloneIn (ar : Archiver) (calls : List SnapshotCall) (visited : List SurrealStorage) (i : Nat)
    (st st' : SnapshotMetaState) : Prop :=
  ∃ c, calls[i]? = some c ∧
    Serial.Alone stateLens (Serial.Among stateLens visited) (c.steps ar) st st'

section

variable {ar : Archiver} {calls : List SnapshotCall} {visited : List SurrealStorage} {D : Data}
  {st st' : SnapshotMetaState} {is : List Nat} {i : Nat}

theorem AloneIn.of_progs
    (h : ∃ p, (calls.map (SnapshotCall.steps ar))[i]? = some p ∧
      Serial.Alone stateLens (Serial.Among stateLens visited) p st st') :
    AloneIn ar calls visited i st st' := by
  obtain ⟨p, hp, halone⟩ := h
  rw [List.getElem?_map, Option.map_eq_some_iff] at hp
  obtain ⟨c, hc, rfl⟩ := hp
  exact ⟨c, hc, halone⟩

theorem data_of_among (hvisited : ∀ v ∈ visited, v.data = D) {n : SurrealStorage}
    (h : Serial.Among stateLens visited n) : n.data = D := by
  obtain ⟨v, hv, hn⟩ := h
  rw [hn]
  exact hvisited v hv

theorem AloneIn.effect (hvisited : ∀ v ∈ visited, v.data = D)
    (h : AloneIn ar calls visited i st st') :
    BuildEffect D st st' ∨
      ∃ now path, st' = MergeExecutor.buildMergedSnapshotState st now path := by
  obtain ⟨c, _, halone⟩ := h
  exact SnapshotCall.effect_of_alone (fun _ => data_of_among hvisited) halone

theorem AloneIn.buildEffect {currentTerm : UInt64} (hvisited : ∀ v ∈ visited, v.data = D)
    (hbuild : calls[i]? = some (.build currentTerm)) (h : AloneIn ar calls visited i st st') :
    BuildEffect D st st' := by
  obtain ⟨c, hc, halone⟩ := h
  obtain rfl := Option.some.inj (hbuild.symm.trans hc)
  exact buildEffect_of_alone (fun _ => data_of_among hvisited) halone.of_andThen_done

theorem SoundChain.call (h : SoundChain D st) (hvisited : ∀ v ∈ visited, v.data = D)
    (hcall : AloneIn ar calls visited i st st') :
    SoundChain D st' ∧ st.checkpointIndex ≤ st'.checkpointIndex := by
  rcases hcall.effect hvisited with hbuild | ⟨now, path, rfl⟩
  · exact h.build hbuild
  · exact h.merge now path

/-- Calls one after another keep the chain sound and do not move the checkpoint back. -/
theorem SoundChain.serially (h : SoundChain D st) (hvisited : ∀ v ∈ visited, v.data = D)
    (hcalls : Serial.Serially (AloneIn ar calls visited) is st st') :
    SoundChain D st' ∧ st.checkpointIndex ≤ st'.checkpointIndex := by
  refine hcalls.invariant (P := fun k => SoundChain D k ∧ st.checkpointIndex ≤ k.checkpointIndex)
    (fun _ k k' hcall hk => ?_) ⟨h, UInt64.le_refl _⟩
  obtain ⟨hsound, hle⟩ := hk.1.call hvisited hcall
  exact ⟨hsound, UInt64.le_trans hk.2 hle⟩

/-- Calls one after another leave the delta of a build covered. -/
theorem Covered.serially {d : DeltaInfo} {record : UInt64 × LogEntry} {st₀ : SnapshotMetaState}
    (h : Covered d st) (hsound : SoundChain D st)
    (hlast : (D.logsSince st₀).getLast? = some record) (hd : d.endIndex = record.2.index)
    (hvisited : ∀ v ∈ visited, v.data = D)
    (hcalls : Serial.Serially (AloneIn ar calls visited) is st st') : Covered d st' := by
  refine (hcalls.invariant (P := fun k => SoundChain D k ∧ Covered d k)
    (fun _ k k' hcall hk => ⟨(hk.1.call hvisited hcall).1, ?_⟩) ⟨hsound, h⟩).2
  rcases hcall.effect hvisited with hbuild | ⟨now, path, rfl⟩
  · exact hk.2.build hk.1 hlast hd hbuild
  · exact hk.2.merge now path

/-- The delta that a build pushed stays covered. -/
theorem covered_of_pushed {d : DeltaInfo} {st₂ : SnapshotMetaState} (h : SoundChain D st)
    (hvisited : ∀ v ∈ visited, v.data = D) (hcall : AloneIn ar calls visited i st st')
    (hpush : st'.deltaChain = st.deltaChain ++ [d])
    (hlater : Serial.Serially (AloneIn ar calls visited) is st' st₂) :
    d ∈ st₂.deltaChain ∨ d.endIndex ≤ st₂.checkpointIndex := by
  have hsound := (h.call hvisited hcall).1
  rcases hcall.effect hvisited with hbuild | ⟨now, path, rfl⟩
  · cases hbuild with
    | @delta c record d' bytes hc hlast hend =>
        obtain rfl : d' = d := List.singleton_inj.mp (List.append_cancel_left hpush)
        have hcovered : Covered d' { st with
            deltaChain := st.deltaChain ++ [d'], totalDeltaBytes := bytes } := by
          refine ⟨⟨c, hc⟩, fun last hl => ?_, Or.inl (by simp)⟩
          rw [List.getLast?_concat, Option.some.injEq] at hl
          rw [hl]
        exact (hcovered.serially hsound hlast hend hvisited hlater).covered
    | full => simp at hpush
  · simp [MergeExecutor.buildMergedSnapshotState] at hpush

/-- Builds and merges leave the applied position and the logs alone. -/
theorem data_of_visited {cond : List SnapshotMetaState → SnapshotMetaState → Prop}
    {n : SurrealStorage} {P : SnapshotPool}
    (hrun : Relation.ReflTransGen (SnapshotPool.Step cond) (SnapshotPool.start ar n calls) P) :
    ∀ v ∈ P.visited, v.data = n.data := by
  refine (Serial.keeps_run (g := data) (fun p hp => ?_) hrun).2.1
  obtain ⟨c, _, rfl⟩ := List.mem_map.mp hp
  exact c.all_data_steps ar

end

/-! ## A build and a merge -/

/-- A build and a merge of the chain. -/
def buildAndMerge : List SnapshotCall := [.build 1, .merge (.new .new .default) .chainTooLong]

/-- Three requests: the first in the checkpoint, the second in a delta, the third in neither.
Then the steps of `buildAndMerge` in the given order. -/
def runsOn (cond : List SnapshotMetaState → SnapshotMetaState → Prop)
    [∀ reads k, Decidable (cond reads k)] (schedule : List Nat)
    (good : SurrealStorage → SnapshotPool → Bool) : Bool :=
  (apply [.put 1 1 "a" [1]]).succeeds (fresh []) fun _ n₁ =>
  (buildSnapshotAuto .stored 1).succeeds n₁ fun _ n₂ =>
  (apply [.put 1 2 "b" [2]]).succeeds n₂ fun _ n₃ =>
  (buildSnapshotAuto .stored 1).succeeds n₃ fun _ n₄ =>
  (apply [.put 1 3 "c" [3]]).succeeds n₄ fun _ n =>
  ((SnapshotPool.start .stored n buildAndMerge).follow stateLens Phase.access cond schedule).any
    fun P => P.isDone && good n P

theorem exists_of_runsOn {cond : List SnapshotMetaState → SnapshotMetaState → Prop}
    [∀ reads k, Decidable (cond reads k)] {schedule : List Nat}
    {good : SurrealStorage → SnapshotPool → Bool} (h : runsOn cond schedule good = true) :
    ∃ n P, SoundChain n.data n.snapshotState ∧
      Relation.ReflTransGen (SnapshotPool.Step cond) (SnapshotPool.start .stored n buildAndMerge)
        P ∧ P.Done ∧ good n P = true := by
  obtain ⟨_, n₁, h₁, h⟩ := Eff.exists_of_succeeds h
  obtain ⟨_, n₂, h₂, h⟩ := Eff.exists_of_succeeds h
  obtain ⟨_, n₃, h₃, h⟩ := Eff.exists_of_succeeds h
  obtain ⟨_, n₄, h₄, h⟩ := Eff.exists_of_succeeds h
  obtain ⟨_, n, h₅, h⟩ := Eff.exists_of_succeeds h
  obtain ⟨P, hfollow, htest⟩ := (Option.any_eq_true _ _).mp h
  have hinc : Increasing (([] ++ [.put 1 1 "a" [1]] ++ [.put 1 2 "b" [2]]) ++
      [.put 1 3 "c" [3]]) := by
    show List.Pairwise (fun a b : Entry => a.index < b.index) _
    decide +kernel
  have hinc₂ := (List.pairwise_append.mp hinc).1
  have hinv₁ := (.fresh (fresh_fresh []) : ChainInv .stored _).apply
    (List.pairwise_append.mp hinc₂).1 h₁
  have hinv₂ := (hinv₁.build h₂).apply hinc₂ h₃
  have hinv₃ := (hinv₂.build h₄).apply hinc h₅
  obtain ⟨hdone, hgood⟩ := (Bool.and_eq_true _ _).mp htest
  exact ⟨n, P, hinv₃.soundChain, Serial.Pool.run_of_follow hfollow,
    Serial.Pool.done_of_isDone hdone, hgood⟩

/-! ## Serialization -/

/-- In every run whose saves all find what their call has read, and whose calls all succeed, the
snapshot state is as after some sequence of the calls.  If the chain was sound, the delta that a
build pushed is in the chain or below the checkpoint, and the checkpoint that a call saved is not
undone. -/
theorem SurrealStorage.builds_and_merges_serializable {ar : Archiver} {n : SurrealStorage}
    {calls : List SnapshotCall} {P : SnapshotPool}
    (hrun : Relation.ReflTransGen (SnapshotPool.Step Serial.Fresh)
      (SnapshotPool.start ar n calls) P) (hdone : P.Done) :
    (∃ order : List Nat, order.Perm (List.range calls.length) ∧
      Serial.Serially (AloneIn ar calls P.visited) order n.snapshotState P.state.snapshotState) ∧
    (SoundChain n.data n.snapshotState → ∀ i st st', (i, st, st') ∈ P.saves →
      (∀ d, st'.deltaChain = st.deltaChain ++ [d] →
        d ∈ P.state.snapshotState.deltaChain ∨
          d.endIndex ≤ P.state.snapshotState.checkpointIndex) ∧
      st'.checkpointIndex ≤ P.state.snapshotState.checkpointIndex) := by
  have hprogs : ∀ p ∈ calls.map (SnapshotCall.steps ar),
      Serial.SavesOnce stateLens Phase.access p := by
    intro p hp
    obtain ⟨c, _, rfl⟩ := List.mem_map.mp hp
    exact c.savesOnce_steps ar
  have hvisited := data_of_visited hrun
  constructor
  · obtain ⟨order, hperm, hserial⟩ := Serial.serial_of_fresh hprogs hrun hdone
    rw [List.length_map] at hperm
    exact ⟨order, hperm, hserial.mono fun _ _ _ h => .of_progs h⟩
  · intro hsound i st st' hsave
    obtain ⟨earlier, later, hearlier, hlater⟩ :=
      Serial.serial_around_save hprogs hrun hdone hsave
    replace hearlier := hearlier.mono fun _ _ _ h => AloneIn.of_progs h
    replace hlater := hlater.mono fun _ _ _ h => AloneIn.of_progs h
    have hcall := AloneIn.of_progs (Serial.alone_of_save hprogs hrun hdone hsave)
    have hfound := (hsound.serially hvisited hearlier).1
    refine ⟨fun d hpush => covered_of_pushed hfound hvisited hcall hpush hlater, ?_⟩
    exact ((hfound.call hvisited hcall).1.serially hvisited hlater).2

/-- The merge saves a started attempt before the build saves its delta, and reads the chain
after. -/
theorem SurrealStorage.builds_and_merges_serializable_both : ∃ (n : SurrealStorage)
    (P : SnapshotPool),
    SoundChain n.data n.snapshotState ∧
      Relation.ReflTransGen (SnapshotPool.Step Serial.Fresh)
        (SnapshotPool.start .stored n buildAndMerge) P ∧ P.Done ∧
      P.state.snapshotState.checkpointIndex = 3 ∧
      (∃ order : List Nat, order.Perm (List.range 2) ∧
        Serial.Serially (AloneIn .stored buildAndMerge P.visited) order n.snapshotState
          P.state.snapshotState) ∧
      ∀ i st st', (i, st, st') ∈ P.saves →
        (∀ d, st'.deltaChain = st.deltaChain ++ [d] →
          d ∈ P.state.snapshotState.deltaChain ∨
            d.endIndex ≤ P.state.snapshotState.checkpointIndex) ∧
        st'.checkpointIndex ≤ P.state.snapshotState.checkpointIndex := by
  have htest : runsOn Serial.Fresh [1, 0, 1, 0, 0, 0, 0, 1, 1, 0, 1, 1] (fun _ P =>
      decide (P.state.snapshotState.checkpointIndex = 3)) = true := by
    decide +kernel
  obtain ⟨n, P, hsound, hrun, hdone, hindex⟩ := exists_of_runsOn htest
  obtain ⟨hserial, hcovered⟩ := SurrealStorage.builds_and_merges_serializable hrun hdone
  exact ⟨n, P, hsound, hrun, hdone, of_decide_eq_true hindex, hserial, hcovered hsound⟩

/-- The merge reads the chain, the build pushes its delta, and the merge saves the chain that it
has read as folded. -/
theorem SurrealStorage.delta_lost : ∃ (n : SurrealStorage) (P : SnapshotPool),
    SoundChain n.data n.snapshotState ∧
      Relation.ReflTransGen (SnapshotPool.Step fun _ _ => True)
        (SnapshotPool.start .stored n buildAndMerge) P ∧ P.Done ∧
      (¬ ∃ order : List Nat, order.Perm (List.range 2) ∧
        Serial.Serially (AloneIn .stored buildAndMerge P.visited) order n.snapshotState
          P.state.snapshotState) ∧
      ∃ i st st' d, (i, st, st') ∈ P.saves ∧ st'.deltaChain = st.deltaChain ++ [d] ∧
        d ∉ P.state.snapshotState.deltaChain ∧
        P.state.snapshotState.checkpointIndex < d.endIndex := by
  have htest : runsOn (fun _ _ => True) [1, 1, 1, 0, 0, 0, 0, 0, 0, 1, 1, 1] (fun n P =>
      decide ((n.data.logsSince n.snapshotState).getLast?.map (·.2.index) = some 3) &&
      (decide (n.data.appliedState.lastAppliedIndex = 3) &&
      (decide (P.state.snapshotState.deltaChain = []) &&
      (decide (P.state.snapshotState.checkpointIndex = 2) &&
      P.saves.any fun save => save.2.2.deltaChain.any fun d =>
        decide (save.2.2.deltaChain = save.2.1.deltaChain ++ [d]) &&
          decide (2 < d.endIndex))))) = true := by
    decide +kernel
  obtain ⟨n, P, hsound, hrun, hdone, hgood⟩ := exists_of_runsOn htest
  simp only [Bool.and_eq_true, decide_eq_true_eq, List.any_eq_true] at hgood
  obtain ⟨hthree, happlied, hchain, hindex, ⟨i, st, st'⟩, hsave, d, _, hpush, hend⟩ := hgood
  have hvisited := data_of_visited hrun
  refine ⟨n, P, hsound, hrun, hdone, ?_, i, st, st', d, hsave, hpush, ?_, ?_⟩
  · rintro ⟨order, hperm, hserial⟩
    have hbuild : 0 ∈ order := hperm.mem_iff.mpr (by decide)
    obtain ⟨earlier, k, k', later, hearlier, hcall, hlater⟩ := hserial.of_mem hbuild
    have hfound := (hsound.serially hvisited hearlier).1
    have hfirst : buildAndMerge[0]? = some (.build 1) := rfl
    cases hcall.buildEffect hvisited hfirst with
    | @delta c record d bytes hc hlast hend =>
        obtain ⟨record', hlast', hthree⟩ := Option.map_eq_some_iff.mp hthree
        rw [last_logsSince_eq hlast hlast', hthree] at hend
        rcases covered_of_pushed hfound hvisited hcall rfl hlater with hmem | hle
        · rw [hchain] at hmem
          cases hmem
        · rw [hend, hindex] at hle
          exact absurd hle (by decide)
    | @full c hc =>
        have hle := ((hfound.call hvisited hcall).1.serially hvisited hlater).2
        replace hle : c.checkpointIndex ≤ P.state.snapshotState.checkpointIndex := hle
        rw [hc, happlied, hindex] at hle
        exact absurd hle (by decide)
  · rw [hchain]
    exact List.not_mem_nil
  · rw [hindex]
    exact hend

end OpenraftSurrealkv
