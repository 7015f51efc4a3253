import OpenraftSurrealkv.Effects.Chain
import OpenraftSurrealkv.Snapshot.Stored

/-!
# The log id of the checkpoint

A full build records the index and the term of the last entry applied.  A merge
moves the index to the end of the chain and keeps the term.  So the pair stays
the log id of an applied entry exactly when the last request of the chain has the
term of the checkpoint; after a change of leader between a full build and a delta
it has not.
-/

namespace OpenraftSurrealkv

namespace SurrealStorage

/-! ## Runs -/

/-- A successful `apply`, a build with any outcome once an entry was applied, or a merge task with
any outcome from a store that meets a condition. -/
inductive LogIdStep (ar : Archiver) (cond : SurrealStorage → Prop) : ChainRun → ChainRun → Prop
  | apply {s : ChainRun} (es : List Entry) {n' : SurrealStorage} :
      Increasing (s.applied ++ es) → SurrealStorage.apply es s.store = (.ok (), n') →
      LogIdStep ar cond s ⟨n', s.applied ++ es, s.lastBuilt⟩
  | build {s : ChainRun} {r : Except RaftError Snapshot} {n' : SurrealStorage} :
      s.applied ≠ [] → buildSnapshot ar s.store = (r, n') →
      LogIdStep ar cond s ⟨n', s.applied, builtIndex s.lastBuilt r⟩
  | merge {s : ChainRun} (ex : MergeExecutor) (trigger : MergeTrigger)
      {r : Except RaftError MergeTaskResult} {m' : MetadataManager} :
      cond s.store → ex.runMergeLoop ar trigger s.store.metadata = (r, m') →
      LogIdStep ar cond s ⟨{ s.store with metadata := m' }, s.applied, s.lastBuilt⟩

/-- The checkpoint has the index and the term of an applied entry. -/
def CheckpointApplied (st : SnapshotMetaState) (applied : List Entry) : Prop :=
  ∀ c, st.lastCheckpoint = some c →
    ∃ e ∈ applied, e.index = c.checkpointIndex ∧ e.term = c.checkpointTerm

/-- The request recorded at the end of the chain, if there is one, has the term of the
checkpoint. -/
def EndsInTerm (n : SurrealStorage) : Prop :=
  ∀ c d entry, n.snapshotState.lastCheckpoint = some c →
    n.snapshotState.deltaChain.getLast? = some d → n.raftLogs[d.endIndex]? = some entry →
    entry.term = c.checkpointTerm

/-! ## Steps -/

theorem ChainInv.logIdStep {ar : Archiver} {cond : SurrealStorage → Prop} {s s' : ChainRun}
    (h : ChainInv ar s) (hstep : LogIdStep ar cond s s') : ChainInv ar s' := by
  cases hstep with
  | apply es hinc happly => exact h.apply hinc happly
  | build _ hbuild => exact h.buildSnapshot hbuild
  | merge ex trigger _ hmerge => exact h.merge hmerge

theorem CheckpointApplied.extend {st : SnapshotMetaState} {applied : List Entry}
    (h : CheckpointApplied st applied) (es : List Entry) :
    CheckpointApplied st (applied ++ es) := by
  intro c hc
  obtain ⟨e, he, hid⟩ := h c hc
  exact ⟨e, List.mem_append_left _ he, hid⟩

/-- Once an entry was applied, the position is its log id. -/
theorem exists_mem_positionAfter {applied : List Entry} (hne : applied ≠ []) :
    ∃ e ∈ applied, positionAfter applied = ⟨e.index, e.term⟩ := by
  obtain ⟨front, last, rfl⟩ := (List.eq_nil_or_concat applied).resolve_left hne
  rw [List.concat_eq_append]
  exact ⟨last, List.mem_concat_self .., positionAfter_concat front last⟩

/-- A full build records the position, a delta build and a failed one keep the checkpoint. -/
theorem CheckpointApplied.build {ar : Archiver} {n n' : SurrealStorage} {applied : List Entry}
    {r : Except RaftError Snapshot} (h : CheckpointApplied n.snapshotState applied)
    (htracks : Tracks n applied) (hne : applied ≠ []) (hbuild : buildSnapshot ar n = (r, n')) :
    CheckpointApplied n'.snapshotState applied := by
  cases r with
  | error e =>
      rw [(buildSnapshot_failed hbuild).2]
      exact h
  | ok snap =>
      obtain ⟨_, hid, d, _, _, hstate⟩ := buildSnapshot_published hbuild
      rw [hstate]
      cases d with
      | full metadata =>
          intro c hc
          obtain ⟨hindex, hterm⟩ := recordSnapshot_full_logId hid _ metadata hc
          obtain ⟨e, he, hposition⟩ := exists_mem_positionAfter hne
          rw [htracks.position, hposition] at hindex hterm
          exact ⟨e, he, hindex.symm, hterm.symm⟩
      | delta metadata entries => exact h

/-- Entries with the same index are the same. -/
theorem eq_of_index_eq {applied : List Entry} (h : Increasing applied) {e e' : Entry}
    (he : e ∈ applied) (he' : e' ∈ applied) (hindex : e.index = e'.index) : e = e' := by
  have hnodup : (applied.map Entry.index).Nodup :=
    List.pairwise_map.mpr (h.imp fun hlt => UInt64.ne_of_lt hlt)
  exact List.inj_on_of_nodup_map hnodup he he' hindex

/-- A merged chain leaves the log id of an applied entry exactly when it ends in the term of the
checkpoint. -/
theorem ChainInv.checkpointApplied_folded_iff {ar : Archiver} {s : ChainRun} (h : ChainInv ar s)
    (happlied : CheckpointApplied s.snapshotState s.applied) (now : UInt64)
    (path : Option String) :
    CheckpointApplied (MergeExecutor.buildMergedSnapshotState s.snapshotState now path) s.applied ↔
      EndsInTerm s.store := by
  cases hlast : s.snapshotState.deltaChain.getLast? with
  | none =>
      constructor
      · intro _ c d entry _ hd _
        cases hlast.symm.trans hd
      · intro _ c' hc'
        obtain ⟨c, hc, rfl⟩ := Option.map_eq_some_iff.mp hc'
        rw [hlast]
        exact happlied c hc
  | some d =>
      -- the end of the chain is the index of a recorded request
      obtain ⟨stops, hcut⟩ := h.chain.cut
      obtain ⟨stop, _, hd⟩ := hcut.deltas.exists_getLast_left hlast
      obtain ⟨e, he, hindex⟩ := hd.exists_last
      obtain ⟨hmem, _, _, hn⟩ := mem_requestsIn.mp he
      obtain ⟨req, hreq⟩ := Entry.isNormal_iff.mp hn
      have hrecord := h.tracks.get_raftLogs hmem hreq
      rw [hindex] at hrecord
      constructor
      · intro hfolded c d' entry hc hd' hentry
        cases hlast.symm.trans hd'
        cases hrecord.symm.trans hentry
        obtain ⟨e', he', hindex', hterm⟩ := hfolded _ (Option.map_eq_some_iff.mpr ⟨c, hc, rfl⟩)
        rw [hlast] at hindex'
        cases eq_of_index_eq h.tracks.increasing hmem he' (hindex.trans hindex'.symm)
        exact hterm
      · intro hends c' hc'
        obtain ⟨c, hc, rfl⟩ := Option.map_eq_some_iff.mp hc'
        rw [hlast]
        exact ⟨e, hmem, hindex, hends c d _ hc hlast hrecord⟩

theorem ChainInv.checkpointApplied_step {ar : Archiver} {s s' : ChainRun} (h : ChainInv ar s)
    (happlied : CheckpointApplied s.snapshotState s.applied)
    (hstep : LogIdStep ar EndsInTerm s s') : CheckpointApplied s'.snapshotState s'.applied := by
  cases hstep with
  | @apply es n' _ happly =>
      show CheckpointApplied n'.snapshotState (s.applied ++ es)
      rw [snapshotState_apply_ok happly]
      exact happlied.extend es
  | build hne hbuild => exact happlied.build h.tracks hne hbuild
  | @merge ex trigger r m' hends hmerge =>
      show CheckpointApplied m'.snapshotState s.applied
      rcases (MergeExecutor.runMergeLoop_outcome hmerge).2 with ⟨hstate, _⟩ | ⟨now, path, hstate⟩
      · rw [hstate]
        exact happlied
      · rw [hstate]
        exact (h.checkpointApplied_folded_iff happlied now path).mpr hends

/-! ## Runs keep the log id -/

/-- In every run whose merged chains end in the term of the checkpoint, the checkpoint is the log
id of an applied entry. -/
theorem checkpoint_is_applied_entry {ar : Archiver} {n₀ : SurrealStorage} {s : ChainRun}
    (h₀ : Fresh n₀) (hrun : Relation.ReflTransGen (LogIdStep ar EndsInTerm) (.start n₀) s) :
    CheckpointApplied s.snapshotState s.applied := by
  have hboth : ChainInv ar s ∧ CheckpointApplied s.snapshotState s.applied := by
    induction hrun with
    | refl =>
        refine ⟨.fresh h₀, ?_⟩
        obtain ⟨w, ex, _, rfl⟩ := h₀.eq
        intro c hc
        cases hc
    | tail _ hstep ih => exact ⟨ih.1.logIdStep hstep, ih.1.checkpointApplied_step ih.2 hstep⟩
  exact hboth.2

/-! ## A merge in the same term and one in another -/

/-- The runs of the following examples: apply, build, apply, build, merge. -/
theorem merged_run (cond : SurrealStorage → Prop) {es fs : List Entry}
    {n₁ n₂ n₃ n₄ : SurrealStorage} {first second : Snapshot} {ex : MergeExecutor}
    {trigger : MergeTrigger} {result : MergeTaskResult} {m : MetadataManager} (hne : es ≠ [])
    (hinc : Increasing (es ++ fs)) (h₁ : apply es (fresh []) = (.ok (), n₁))
    (h₂ : buildSnapshot .stored n₁ = (.ok first, n₂)) (h₃ : apply fs n₂ = (.ok (), n₃))
    (h₄ : buildSnapshot .stored n₃ = (.ok second, n₄)) (hcond : cond n₄)
    (h₅ : ex.runMergeLoop .stored trigger n₄.metadata = (.ok result, m)) :
    Relation.ReflTransGen (LogIdStep .stored cond) (.start (fresh []))
      ⟨{ n₄ with metadata := m }, es ++ fs,
        builtIndex (builtIndex none (.ok first)) (.ok second)⟩ := by
  have hone : LogIdStep .stored cond (.start (fresh [])) ⟨n₁, es, none⟩ :=
    .apply es (List.pairwise_append.mp hinc).1 h₁
  have htwo : LogIdStep .stored cond ⟨n₁, es, none⟩ ⟨n₂, es, builtIndex none (.ok first)⟩ :=
    .build hne h₂
  have hthree : LogIdStep .stored cond ⟨n₂, es, builtIndex none (.ok first)⟩
      ⟨n₃, es ++ fs, builtIndex none (.ok first)⟩ :=
    .apply fs hinc h₃
  have hfour : LogIdStep .stored cond ⟨n₃, es ++ fs, builtIndex none (.ok first)⟩
      ⟨n₄, es ++ fs, builtIndex (builtIndex none (.ok first)) (.ok second)⟩ :=
    .build (List.append_ne_nil_of_left_ne_nil hne fs) h₄
  exact ((((Relation.ReflTransGen.single hone).tail htwo).tail hthree).tail hfour).tail
    (.merge ex trigger hcond h₅)

theorem endsInTerm_of_map {n : SurrealStorage} {i t : UInt64}
    (hck : n.snapshotState.lastCheckpoint.map (·.checkpointTerm) = some t)
    (hend : n.snapshotState.deltaChain.getLast?.map DeltaInfo.endIndex = some i)
    (hlog : n.raftLogs[i]?.map LogEntry.term = some t) : EndsInTerm n := by
  intro c d entry hc hd hentry
  rw [hd] at hend
  cases hend
  rw [hc] at hck
  rw [hentry] at hlog
  exact (Option.some.inj hlog).trans (Option.some.inj hck).symm

/-- Two requests of one term, the second one in a delta that is merged. -/
theorem same_term_checkpoint_applied :
    ∃ s : ChainRun,
      Relation.ReflTransGen (LogIdStep .stored EndsInTerm) (.start (fresh [])) s ∧
      s.snapshotState.lastCheckpoint.map (fun c => (c.checkpointIndex, c.checkpointTerm)) =
        some (2, 1) ∧
      CheckpointApplied s.snapshotState s.applied := by
  have htest : (apply [.put 1 1 "a" [1]]).succeeds (fresh []) (fun _ n₁ =>
      (buildSnapshot .stored).succeeds n₁ fun _ n₂ =>
      (apply [.put 1 2 "b" [2]]).succeeds n₂ fun _ n₃ =>
      (buildSnapshot .stored).succeeds n₃ fun _ n₄ =>
      decide (n₄.snapshotState.lastCheckpoint.map (·.checkpointTerm) = some 1 ∧
        n₄.snapshotState.deltaChain.getLast?.map DeltaInfo.endIndex = some 2 ∧
        n₄.raftLogs[(2 : UInt64)]?.map LogEntry.term = some 1) &&
      (MergeExecutor.runMergeLoop .stored (.new .new .default) .chainTooLong).succeeds n₄.metadata
        fun _ m => decide (m.snapshotState.lastCheckpoint.map
          (fun c => (c.checkpointIndex, c.checkpointTerm)) = some (2, 1))) = true := by
    decide +kernel
  obtain ⟨_, n₁, h₁, htest⟩ := Eff.exists_of_succeeds htest
  obtain ⟨first, n₂, h₂, htest⟩ := Eff.exists_of_succeeds htest
  obtain ⟨_, n₃, h₃, htest⟩ := Eff.exists_of_succeeds htest
  obtain ⟨second, n₄, h₄, htest⟩ := Eff.exists_of_succeeds htest
  obtain ⟨hends, htest⟩ := (Bool.and_eq_true _ _).mp htest
  obtain ⟨result, m, h₅, htest⟩ := Eff.exists_of_succeeds htest
  obtain ⟨hck, hend, hlog⟩ := of_decide_eq_true hends
  have hinc : Increasing ([.put 1 1 "a" [1]] ++ [.put 1 2 "b" [2]]) := by
    show List.Pairwise (fun a b : Entry => a.index < b.index) [.put 1 1 "a" [1], .put 1 2 "b" [2]]
    decide
  have hrun := merged_run EndsInTerm (List.cons_ne_nil _ _) hinc h₁ h₂ h₃ h₄
    (endsInTerm_of_map hck hend hlog) h₅
  exact ⟨_, hrun, of_decide_eq_true htest, checkpoint_is_applied_entry (fresh_fresh []) hrun⟩

/-- The same two requests with a change of term between them.  The merge leaves index `2` with
term `1`, and no entry has that log id. -/
theorem next_term_checkpoint_not_applied :
    ∃ s : ChainRun,
      Relation.ReflTransGen (LogIdStep .stored fun _ => True) (.start (fresh [])) s ∧
      s.applied = [.put 1 1 "a" [1], .put 2 2 "b" [2]] ∧
      s.snapshotState.lastCheckpoint.map (fun c => (c.checkpointIndex, c.checkpointTerm)) =
        some (2, 1) ∧
      ¬ CheckpointApplied s.snapshotState s.applied := by
  have htest : (apply [.put 1 1 "a" [1]]).succeeds (fresh []) (fun _ n₁ =>
      (buildSnapshot .stored).succeeds n₁ fun _ n₂ =>
      (apply [.put 2 2 "b" [2]]).succeeds n₂ fun _ n₃ =>
      (buildSnapshot .stored).succeeds n₃ fun _ n₄ =>
      (MergeExecutor.runMergeLoop .stored (.new .new .default) .chainTooLong).succeeds n₄.metadata
        fun _ m => decide (m.snapshotState.lastCheckpoint.map
          (fun c => (c.checkpointIndex, c.checkpointTerm)) = some (2, 1))) = true := by
    decide +kernel
  obtain ⟨_, n₁, h₁, htest⟩ := Eff.exists_of_succeeds htest
  obtain ⟨first, n₂, h₂, htest⟩ := Eff.exists_of_succeeds htest
  obtain ⟨_, n₃, h₃, htest⟩ := Eff.exists_of_succeeds htest
  obtain ⟨second, n₄, h₄, htest⟩ := Eff.exists_of_succeeds htest
  obtain ⟨result, m, h₅, htest⟩ := Eff.exists_of_succeeds htest
  have hinc : Increasing ([.put 1 1 "a" [1]] ++ [.put 2 2 "b" [2]]) := by
    show List.Pairwise (fun a b : Entry => a.index < b.index) [.put 1 1 "a" [1], .put 2 2 "b" [2]]
    decide
  have hrun := merged_run (fun _ => True) (List.cons_ne_nil _ _) hinc h₁ h₂ h₃ h₄ trivial h₅
  have hmerged := of_decide_eq_true htest
  refine ⟨_, hrun, rfl, hmerged, fun happlied => ?_⟩
  obtain ⟨c, hc, hid⟩ := Option.map_eq_some_iff.mp hmerged
  obtain ⟨hindex, hterm⟩ := Prod.mk.inj hid
  obtain ⟨e, he, heindex, heterm⟩ := happlied c hc
  rw [hindex] at heindex
  rw [hterm] at heterm
  -- the first entry is at another index, the second one of another term
  have hnone : ∀ x ∈ ([.put 1 1 "a" [1], .put 2 2 "b" [2]] : List Entry),
      x.index = 2 → x.term ≠ 1 := by
    decide
  exact hnone e he heindex heterm

end SurrealStorage

end OpenraftSurrealkv
