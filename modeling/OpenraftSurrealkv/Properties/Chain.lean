import OpenraftSurrealkv.Effects.Chain
import OpenraftSurrealkv.Snapshot.Stored

/-!
# The snapshot chain

In every run of applies, builds and merges the deltas of the chain start just
after the checkpoint and grow, no applied request is lost between the checkpoint
and the last delta, and the checkpoint does not go back.  Since the deltas grow,
replaying the whole chain on a tree runs each request after the checkpoint once.

Both fail at the greatest index.  There the index after the checkpoint saturates
to the checkpoint itself, so a delta starts with the request that the checkpoint
already has.  A chain with a request under the empty key cannot be replayed at
all: the map takes the empty key and the tree of a merge refuses it.
-/

namespace OpenraftSurrealkv

open CheckpointMergeBackend (NonemptyKeys treeUpdate forall₂_decodes)

namespace SurrealStorage

/-! ## What the chain promises -/

/-- The entries in the file of a delta. -/
def contents (ar : Archiver) (files : OrdMap String Bytes) (d : DeltaInfo) :
    Option (List DeltaEntry) := do
  let path ← d.filePath
  let bytes ← files[path]?
  (DeltaSnapshotCodec.decodeEntries ar bytes).toOption

/-- The applied requests in the range of a delta. -/
def entriesIn (applied : List Entry) (d : DeltaInfo) : List DeltaEntry :=
  deltaOf (between d.startIndex d.endIndex applied)

/-- The second delta has the same start, ends no earlier and has the entries of the first one in
front. -/
def Extends (applied : List Entry) (d d' : DeltaInfo) : Prop :=
  d.startIndex = d'.startIndex ∧ d.endIndex ≤ d'.endIndex ∧
    entriesIn applied d <+: entriesIn applied d'

/-- The snapshot state of a run as its readers expect it. -/
structure WellChained (ar : Archiver) (s : ChainRun) : Prop where
  based : s.snapshotState.deltaChain ≠ [] → ∃ c, s.snapshotState.lastCheckpoint = some c
  bounds : ∀ d ∈ s.snapshotState.deltaChain, ∀ c, s.snapshotState.lastCheckpoint = some c →
    c.checkpointIndex < d.startIndex ∧ d.startIndex ≤ d.endIndex ∧ d.endIndex ≤ s.appliedIndex
  grows : s.snapshotState.deltaChain.Pairwise (Extends s.applied)
  /-- The file of a delta has its entries, unless a failing write has cut off a file. -/
  files : s.store.world.cutOff = false → ∀ d ∈ s.snapshotState.deltaChain,
    contents ar s.store.files d = some (entriesIn s.applied d)
  bytes : s.snapshotState.totalDeltaBytes =
    (s.snapshotState.deltaChain.map DeltaInfo.sizeBytes).foldl saturatingAdd 0
  checkpoint : ∀ c, s.snapshotState.lastCheckpoint = some c → c.checkpointIndex ≤ s.appliedIndex
  noGap : ∀ b, s.lastBuilt = some b → ∀ e ∈ s.applied, e.isNormal = true → e.index ≤ b →
    (∃ c, s.snapshotState.lastCheckpoint = some c ∧ e.index ≤ c.checkpointIndex) ∨
      ∃ d, s.snapshotState.deltaChain.getLast? = some d ∧
        ∃ x ∈ entriesIn s.applied d, Carries e x

/-- The checkpoint is kept or moves to a later index. -/
def CheckpointLe (st st' : SnapshotMetaState) : Prop :=
  ∀ c, st.lastCheckpoint = some c →
    ∃ c', st'.lastCheckpoint = some c' ∧ c.checkpointIndex ≤ c'.checkpointIndex

/-- There is a next index to start a delta from, or no request at the greatest index. -/
def StartsBeyond (n : SurrealStorage) : Prop :=
  ∀ c, n.snapshotState.lastCheckpoint = some c → c.checkpointIndex = u64Max →
    n.raftLogs[u64Max]? = none

/-! ## The checkpoint along a run -/

theorem CheckpointLe.of_eq {st st' : SnapshotMetaState}
    (h : st'.lastCheckpoint = st.lastCheckpoint) : CheckpointLe st st' := by
  intro c hc
  exact ⟨c, h.trans hc, UInt64.le_refl _⟩

theorem CheckpointLe.trans {st₁ st₂ st₃ : SnapshotMetaState} (h₁ : CheckpointLe st₁ st₂)
    (h₂ : CheckpointLe st₂ st₃) : CheckpointLe st₁ st₃ := by
  intro c hc
  obtain ⟨c₂, hc₂, hle₂⟩ := h₁ c hc
  obtain ⟨c₃, hc₃, hle₃⟩ := h₂ c₂ hc₂
  exact ⟨c₃, hc₃, UInt64.le_trans hle₂ hle₃⟩

theorem ChainInv.checkpointLe_build {ar : Archiver} {s : ChainRun} {term : UInt64}
    {r : Except RaftError Snapshot} {n' : SurrealStorage} (h : ChainInv ar s)
    (hbuild : buildSnapshotAuto ar term s.store = (r, n')) :
    CheckpointLe s.snapshotState n'.snapshotState := by
  cases r with
  | error e =>
      rw [buildSnapshotAuto_error hbuild]
      exact .of_eq rfl
  | ok snap =>
      obtain ⟨hid, d, _, _, hstate⟩ := buildSnapshotAuto_ok hbuild
      rw [hstate]
      cases d with
      | full metadata =>
          obtain ⟨⟨c', hc', hindex⟩, _⟩ := recordSnapshot_full hid s.snapshotState metadata
          intro c hc
          refine ⟨c', hc', ?_⟩
          rw [hindex, h.tracks.position]
          exact h.chain.checkpoint c hc
      | delta metadata entries => exact .of_eq rfl

theorem ChainInv.checkpointLe_merge {ar : Archiver} {s : ChainRun} {ex : MergeExecutor}
    {trigger : MergeTrigger} {r : Except RaftError MergeTaskResult} {m' : MetadataManager}
    (h : ChainInv ar s) (hmerge : ex.runMergeLoop ar trigger s.store.metadata = (r, m')) :
    CheckpointLe s.snapshotState m'.snapshotState := by
  rcases (MergeExecutor.runMergeLoop_outcome hmerge).2 with ⟨hstate, _⟩ | ⟨now, path, hstate⟩
  · rw [hstate]
    exact .of_eq rfl
  · rw [hstate]
    intro c hc
    refine ⟨_, Option.map_eq_some_iff.mpr ⟨c, hc, rfl⟩, ?_⟩
    exact (h.chain.mergedIndex_bounds h.tracks.increasing hc).1

theorem ChainInv.checkpointLe_step {ar : Archiver} {cond : SurrealStorage → Prop} {s s' : ChainRun}
    (h : ChainInv ar s) (hstep : ChainStep ar cond s s') :
    CheckpointLe s.snapshotState s'.snapshotState := by
  cases hstep with
  | apply es _ happly => exact .of_eq (congrArg _ (snapshotState_apply_ok happly))
  | build term _ hbuild => exact h.checkpointLe_build hbuild
  | merge ex trigger hmerge => exact h.checkpointLe_merge hmerge

theorem ChainInv.checkpointLe_run {ar : Archiver} {cond : SurrealStorage → Prop}
    {s s' : ChainRun} (h : ChainInv ar s)
    (hrun : Relation.ReflTransGen (ChainStep ar cond) s s') :
    CheckpointLe s.snapshotState s'.snapshotState := by
  have hboth : ChainInv ar s' ∧ CheckpointLe s.snapshotState s'.snapshotState := by
    induction hrun with
    | refl => exact ⟨h, .of_eq rfl⟩
    | tail _ hstep ih => exact ⟨ih.1.step hstep, ih.2.trans (ih.1.checkpointLe_step hstep)⟩
  exact hboth.2

/-! ## The start of the chain -/

/-- A chain is cut after a checkpoint below the greatest index. -/
def BelowMax (st : SnapshotMetaState) : Prop :=
  st.deltaChain ≠ [] → ∀ c, st.lastCheckpoint = some c → c.checkpointIndex < u64Max

/-- Where deltas start beyond the checkpoint, a build leaves the checkpoint of a chain below the
greatest index. -/
theorem ChainInv.belowMax_build {ar : Archiver} {s : ChainRun} {term : UInt64}
    {r : Except RaftError Snapshot} {n' : SurrealStorage} (h : ChainInv ar s)
    (hmax : BelowMax s.snapshotState) (hcond : StartsBeyond s.store)
    (hbuild : buildSnapshotAuto ar term s.store = (r, n')) : BelowMax n'.snapshotState := by
  cases r with
  | error e =>
      rw [buildSnapshotAuto_error hbuild]
      exact hmax
  | ok snap =>
      obtain ⟨hid, d, _, hpayload, hstate⟩ := buildSnapshotAuto_ok hbuild
      rw [hstate]
      cases d with
      | full metadata =>
          intro hne
          exact absurd (recordSnapshot_full hid s.snapshotState metadata).2.1 hne
      | delta metadata entries =>
          obtain ⟨rfl, hdelta⟩ := hpayload
          obtain ⟨d, _, hd⟩ := h.tracks.recordSnapshot_delta hdelta snap
          obtain ⟨e, he, _⟩ := hd.exists_first
          obtain ⟨hmem, hstart, _, hn⟩ := mem_requestsIn.mp he
          intro _ c hc
          by_contra hge
          have hc' : c.checkpointIndex = u64Max :=
            UInt64.le_antisymm (le_u64Max _) (UInt64.not_lt.mp hge)
          have hcheckpoint : s.snapshotState.lastCheckpoint = some c := hc
          rw [deltaStart, hcheckpoint] at hstart
          simp only [hc', saturatingAdd_u64Max] at hstart
          have hindex : e.index = u64Max := UInt64.le_antisymm (le_u64Max _) hstart
          have hnone := hcond c hcheckpoint hc'
          obtain ⟨req, hreq⟩ := Entry.isNormal_iff.mp hn
          rw [← hindex, h.tracks.get_raftLogs hmem hreq] at hnone
          cases hnone

theorem ChainInv.belowMax_step {ar : Archiver} {s s' : ChainRun} (h : ChainInv ar s)
    (hmax : BelowMax s.snapshotState) (hstep : ChainStep ar StartsBeyond s s') :
    BelowMax s'.snapshotState := by
  cases hstep with
  | @apply es n' _ happly =>
      show BelowMax n'.snapshotState
      rw [snapshotState_apply_ok happly]
      exact hmax
  | build term hcond hbuild => exact h.belowMax_build hmax hcond hbuild
  | @merge ex trigger r m' hmerge =>
      show BelowMax m'.snapshotState
      rcases (MergeExecutor.runMergeLoop_outcome hmerge).2 with ⟨hstate, _⟩ | ⟨now, path, hstate⟩
      · rw [hstate]
        exact hmax
      · rw [hstate]
        exact fun hne => absurd rfl hne

theorem belowMax_run {ar : Archiver} {n₀ : SurrealStorage} {s : ChainRun} (h₀ : Fresh n₀)
    (hrun : Relation.ReflTransGen (ChainStep ar StartsBeyond) (.start n₀) s) :
    BelowMax s.snapshotState := by
  induction hrun with
  | refl =>
      obtain ⟨w, ex, _, rfl⟩ := h₀.eq
      exact fun hne => absurd rfl hne
  | tail hrun hstep ih => exact (ChainInv.run h₀ hrun).belowMax_step ih hstep

/-! ## Every run is well chained -/

/-- The entries of a delta are those that it was cut from. -/
theorem DeltaAt.entriesIn_eq {ar : Archiver} {w : World} {applied : List Entry}
    {start stop : UInt64} {d : DeltaInfo} (h : DeltaAt ar w applied start stop d)
    (hinc : Increasing applied) :
    entriesIn applied d = deltaOf (between start stop applied) := by
  have hsame : requestsIn d.startIndex d.endIndex applied = requestsIn start stop applied := by
    unfold requestsIn between
    rw [List.filter_filter, List.filter_filter]
    refine List.filter_congr fun e he => ?_
    cases hn : e.isNormal with
    | false => rfl
    | true =>
        simp only [Bool.true_and]
        rw [← Bool.decide_and, ← Bool.decide_and, decide_eq_decide]
        constructor
        · rintro ⟨hlo, hhi⟩
          exact ⟨UInt64.le_trans h.start_le hlo, UInt64.le_trans hhi h.endIndex_le⟩
        · rintro ⟨hlo, hhi⟩
          have hmem := mem_requestsIn.mpr ⟨he, hlo, hhi, hn⟩
          exact ⟨h.startIndex_le_index hinc hmem, h.le_endIndex hinc hmem⟩
  calc entriesIn applied d = deltaOf (requestsIn d.startIndex d.endIndex applied) :=
        (deltaOf_filter _).symm
    _ = deltaOf (requestsIn start stop applied) := by rw [hsame]
    _ = deltaOf (between start stop applied) := deltaOf_filter _

theorem DeltaAt.contents_eq {ar : Archiver} {w : World} {applied : List Entry}
    {start stop : UInt64} {d : DeltaInfo} (h : DeltaAt ar w applied start stop d)
    (hinc : Increasing applied) (hcut : w.cutOff = false) :
    contents ar w.files d = some (entriesIn applied d) := by
  obtain ⟨ts, data, hpath, hdata, hfile⟩ := h.file
  rw [h.entriesIn_eq hinc]
  simp only [contents, hpath, hfile hcut, DeltaSnapshotCodec.decodeEntries_of_encodeEntries hdata,
    bind, Option.bind_some, Except.toOption]

/-- Of two cuts from one start the later one extends the earlier one. -/
theorem DeltaAt.extends {ar : Archiver} {w : World} {applied : List Entry}
    {start stop stop' : UInt64} {d d' : DeltaInfo}
    (h : DeltaAt ar w applied start stop d) (hinc : Increasing applied) (hle : stop ≤ stop')
    (h' : DeltaAt ar w applied start stop' d') : Extends applied d d' := by
  have hgrow : requestsIn start stop applied <+: requestsIn start stop' applied :=
    requestsIn_isPrefix hinc hle
  refine ⟨?_, ?_, ?_⟩
  · obtain ⟨e, he, hindex⟩ := Option.map_eq_some_iff.mp h.first
    have hfirst := h'.first
    obtain ⟨rest, hrest⟩ := hgrow
    rw [← hrest, List.head?_append, he] at hfirst
    exact hindex.symm.trans (Option.some.inj hfirst)
  · obtain ⟨e, he, hindex⟩ := h.exists_last
    rw [← hindex]
    exact h'.le_endIndex hinc (hgrow.subset he)
  · rw [h.entriesIn_eq hinc, h'.entriesIn_eq hinc]
    exact deltaOf_isPrefix (between_isPrefix start hle hinc)

theorem ChainInv.wellChained {ar : Archiver} {s : ChainRun} (h : ChainInv ar s)
    (hmax : BelowMax s.snapshotState) : WellChained ar s := by
  obtain ⟨stops, hcut⟩ := h.chain.cut
  have hposition : s.appliedIndex = (positionAfter s.applied).lastAppliedIndex := by
    rw [ChainRun.appliedIndex, h.tracks.position]
  refine ⟨h.chain.based, ?_, ?_, ?_, h.chain.bytes, ?_, ?_⟩
  · intro d hd c hc
    obtain ⟨stop, hstop, hdelta⟩ := hcut.deltas.exists_of_mem_right hd
    have hstart := hdelta.start_le
    rw [deltaStart, show s.store.snapshotState.lastCheckpoint = some c from hc] at hstart
    have hlt := (saturatingAdd_one_le_iff (hmax (List.ne_nil_of_mem hd) c hc)).mp hstart
    refine ⟨hlt, hdelta.startIndex_le h.tracks.increasing, ?_⟩
    rw [hposition]
    exact UInt64.le_trans hdelta.endIndex_le (hcut.bound stop hstop)
  · exact hcut.deltas.pairwise
      (fun _ _ _ _ hle hd hd' => hd.extends h.tracks.increasing hle hd') hcut.ordered
  · intro hkept d hd
    obtain ⟨stop, _, hdelta⟩ := hcut.deltas.exists_of_mem_right hd
    exact hdelta.contents_eq h.tracks.increasing hkept
  · rw [hposition]
    exact h.chain.checkpoint
  · intro b hb e he hn hle
    obtain ⟨_, c, hc, hcovers⟩ := hcut.covers b hb
    rcases hcovers e he hn hle with hbelow | ⟨stop, hstop, hmem⟩
    · exact Or.inl ⟨c, hc, hbelow⟩
    · obtain ⟨d, hlast, hdelta⟩ := hcut.deltas.exists_getLast_right hstop
      have hcarries : List.Forall₂ Carries
          (requestsIn (deltaStart s.snapshotState) stop s.applied)
          (deltaOf (between (deltaStart s.snapshotState) stop s.applied)) :=
        carries_deltaOf fun e' he' => h.tracks.fits e' (mem_between.mp he').1
      obtain ⟨x, hx, hcarry⟩ := hcarries.exists_of_mem_left hmem
      rw [← hdelta.entriesIn_eq h.tracks.increasing] at hx
      exact Or.inr ⟨d, hlast, x, hx, hcarry⟩

/-- In every run whose deltas start beyond the checkpoint, every state is well chained and the
checkpoint does not go back. -/
theorem chain_holds_along_run {ar : Archiver} {n₀ : SurrealStorage} {s s' : ChainRun}
    (hfresh : Fresh n₀) (hrun : Relation.ReflTransGen (ChainStep ar StartsBeyond) (.start n₀) s)
    (hmore : Relation.ReflTransGen (ChainStep ar StartsBeyond) s s') :
    WellChained ar s ∧ CheckpointLe s.snapshotState s'.snapshotState := by
  have hinv := ChainInv.run hfresh hrun
  exact ⟨hinv.wellChained (belowMax_run hfresh hrun), hinv.checkpointLe_run hmore⟩

/-- A checkpoint below the greatest index lets deltas start beyond it. -/
theorem startsBeyond_of_ne {n : SurrealStorage}
    (h : n.snapshotState.lastCheckpoint.map (·.checkpointIndex) ≠ some u64Max) :
    StartsBeyond n := by
  intro c hc hmax
  rw [hc, Option.map_some, hmax] at h
  exact absurd rfl h

/-- The runs of the following examples: apply, build, apply, build. -/
theorem fourSteps_run (cond : SurrealStorage → Prop) {es fs : List Entry}
    {n₁ n₂ n₃ n₄ : SurrealStorage} {first second : Snapshot} (hinc : Increasing (es ++ fs))
    (h₁ : apply es (fresh []) = (.ok (), n₁)) (hc₁ : cond n₁)
    (h₂ : buildSnapshotAuto .stored 1 n₁ = (.ok first, n₂))
    (h₃ : apply fs n₂ = (.ok (), n₃)) (hc₃ : cond n₃)
    (h₄ : buildSnapshotAuto .stored 1 n₃ = (.ok second, n₄)) :
    Relation.ReflTransGen (ChainStep .stored cond) (.start (fresh []))
      ⟨n₄, es ++ fs, builtIndex (builtIndex none (.ok first)) (.ok second)⟩ := by
  have hone : ChainStep .stored cond (.start (fresh [])) ⟨n₁, es, none⟩ :=
    .apply es (List.pairwise_append.mp hinc).1 h₁
  have htwo : ChainStep .stored cond ⟨n₁, es, none⟩ ⟨n₂, es, builtIndex none (.ok first)⟩ :=
    .build 1 hc₁ h₂
  have hthree : ChainStep .stored cond ⟨n₂, es, builtIndex none (.ok first)⟩
      ⟨n₃, es ++ fs, builtIndex none (.ok first)⟩ :=
    .apply fs hinc h₃
  have hfour : ChainStep .stored cond ⟨n₃, es ++ fs, builtIndex none (.ok first)⟩
      ⟨n₄, es ++ fs, builtIndex (builtIndex none (.ok first)) (.ok second)⟩ :=
    .build 1 hc₃ h₄
  exact (((Relation.ReflTransGen.single hone).tail htwo).tail hthree).tail hfour

/-- Two requests, the second one in a delta, and a merge of the chain. -/
theorem chain_holds_along_run_merged :
    ∃ s s' : ChainRun,
      Relation.ReflTransGen (ChainStep .stored StartsBeyond) (.start (fresh [])) s ∧
      s.snapshotState.deltaChain.length = 1 ∧
      s'.snapshotState.lastCheckpoint.map (·.checkpointIndex) = some 2 ∧
      WellChained .stored s ∧ CheckpointLe s.snapshotState s'.snapshotState := by
  have htest : (apply [.put 1 1 "a" [1]]).succeeds (fresh []) (fun _ n₁ =>
      decide (n₁.snapshotState.lastCheckpoint.map (·.checkpointIndex) ≠ some u64Max) &&
      (buildSnapshotAuto .stored 1).succeeds n₁ fun _ n₂ =>
      (apply [.put 1 2 "b" [2]]).succeeds n₂ fun _ n₃ =>
      decide (n₃.snapshotState.lastCheckpoint.map (·.checkpointIndex) ≠ some u64Max) &&
      (buildSnapshotAuto .stored 1).succeeds n₃ fun _ n₄ =>
      decide (n₄.snapshotState.deltaChain.length = 1) &&
      (MergeExecutor.runMergeLoop .stored (.new .new .default) .chainTooLong).succeeds n₄.metadata
        fun _ m => decide (m.snapshotState.lastCheckpoint.map (·.checkpointIndex) = some 2)) =
      true := by
    decide +kernel
  obtain ⟨_, n₁, h₁, htest⟩ := Eff.exists_of_succeeds htest
  obtain ⟨hc₁, htest⟩ := (Bool.and_eq_true _ _).mp htest
  obtain ⟨first, n₂, h₂, htest⟩ := Eff.exists_of_succeeds htest
  obtain ⟨_, n₃, h₃, htest⟩ := Eff.exists_of_succeeds htest
  obtain ⟨hc₃, htest⟩ := (Bool.and_eq_true _ _).mp htest
  obtain ⟨second, n₄, h₄, htest⟩ := Eff.exists_of_succeeds htest
  obtain ⟨hlen, htest⟩ := (Bool.and_eq_true _ _).mp htest
  obtain ⟨result, m, hmerge, htest⟩ := Eff.exists_of_succeeds htest
  have hinc : Increasing ([.put 1 1 "a" [1]] ++ [.put 1 2 "b" [2]]) := by
    show List.Pairwise (fun a b : Entry => a.index < b.index) [.put 1 1 "a" [1], .put 1 2 "b" [2]]
    decide
  have hrun := fourSteps_run StartsBeyond hinc h₁ (startsBeyond_of_ne (of_decide_eq_true hc₁)) h₂ h₃
    (startsBeyond_of_ne (of_decide_eq_true hc₃)) h₄
  let s : ChainRun := ⟨n₄, [.put 1 1 "a" [1], .put 1 2 "b" [2]],
    builtIndex (builtIndex none (.ok first)) (.ok second)⟩
  let s' : ChainRun := ⟨{ n₄ with metadata := m }, s.applied, s.lastBuilt⟩
  have hmore : ChainStep .stored StartsBeyond s s' :=
    .merge (MergeExecutor.new .new .default) .chainTooLong hmerge
  have hlen' : s.snapshotState.deltaChain.length = 1 := of_decide_eq_true hlen
  have hmerged : s'.snapshotState.lastCheckpoint.map (·.checkpointIndex) = some 2 :=
    of_decide_eq_true htest
  exact ⟨s, s', hrun, hlen', hmerged, chain_holds_along_run (fresh_fresh []) hrun (.single hmore)⟩

/-- After a request at the greatest index two builds leave a chain of one delta, which starts at
the checkpoint. -/
theorem exists_maxDelta :
    ∃ s d c, Relation.ReflTransGen (ChainStep .stored fun _ => True) (.start (fresh [])) s ∧
      s.applied = [.put 1 u64Max "k" [7]] ∧ s.snapshotState.deltaChain = [d] ∧
      s.snapshotState.lastCheckpoint = some c ∧ c.checkpointIndex = u64Max ∧
      d.startIndex = u64Max ∧ s.store.world.cutOff = false := by
  have htest : (apply [.put 1 u64Max "k" [7]]).succeeds (fresh []) (fun _ n₁ =>
      (buildSnapshotAuto .stored 1).succeeds n₁ fun _ n₂ =>
      (apply []).succeeds n₂ fun _ n₃ =>
      (buildSnapshotAuto .stored 1).succeeds n₃ fun _ n₄ =>
      decide (n₄.snapshotState.deltaChain.map DeltaInfo.startIndex = [u64Max]) &&
      (decide (n₄.snapshotState.lastCheckpoint.map (·.checkpointIndex) = some u64Max) &&
      decide (n₄.world.cutOff = false))) = true := by
    decide +kernel
  obtain ⟨_, n₁, h₁, htest⟩ := Eff.exists_of_succeeds htest
  obtain ⟨first, n₂, h₂, htest⟩ := Eff.exists_of_succeeds htest
  obtain ⟨_, n₃, h₃, htest⟩ := Eff.exists_of_succeeds htest
  obtain ⟨second, n₄, h₄, htest⟩ := Eff.exists_of_succeeds htest
  obtain ⟨hchain, htest⟩ := (Bool.and_eq_true _ _).mp htest
  obtain ⟨hck, hkept⟩ := (Bool.and_eq_true _ _).mp htest
  obtain ⟨d, hd, hstart⟩ := List.map_eq_singleton_iff.mp (of_decide_eq_true hchain)
  obtain ⟨c, hc, hindex⟩ := Option.map_eq_some_iff.mp (of_decide_eq_true hck)
  have hinc : Increasing ([.put 1 u64Max "k" [7]] ++ []) := List.pairwise_singleton _ _
  have hrun := fourSteps_run (fun _ => True) hinc h₁ trivial h₂ h₃ trivial h₄
  exact ⟨_, d, c, hrun, rfl, hd, hc, hindex, hstart, of_decide_eq_true hkept⟩

/-- A delta that starts at the checkpoint. -/
theorem chain_starts_at_checkpoint :
    ∃ s d c, Relation.ReflTransGen (ChainStep .stored fun _ => True) (.start (fresh [])) s ∧
      s.applied = [.put 1 u64Max "k" [7]] ∧ s.snapshotState.deltaChain = [d] ∧
      s.snapshotState.lastCheckpoint = some c ∧ ¬ c.checkpointIndex < d.startIndex ∧
      ¬ WellChained .stored s := by
  obtain ⟨s, d, c, hrun, happlied, hd, hc, hindex, hstart, _⟩ := exists_maxDelta
  have hnot : ¬ c.checkpointIndex < d.startIndex := by
    rw [hindex, hstart]
    decide
  refine ⟨s, d, c, hrun, happlied, hd, hc, hnot, fun hchained => hnot ?_⟩
  have hmem : d ∈ s.snapshotState.deltaChain := by
    rw [hd]
    exact List.mem_singleton_self d
  exact (hchained.bounds d hmem c hc).1

/-! ## Merging a chain -/

/-- The entries applied after the checkpoint and up to the end of the chain. -/
def sinceCheckpoint (st : SnapshotMetaState) (applied : List Entry) : List Entry :=
  match st.lastCheckpoint, st.deltaChain.getLast? with
  | some c, some d => applied.filter fun e =>
      decide (c.checkpointIndex < e.index) && decide (e.index ≤ d.endIndex)
  | _, _ => []

/-- Replaying the chain onto any tree runs the requests after the checkpoint once each. -/
def MergesOnce (ar : Archiver) (s : ChainRun) : Prop :=
  ∀ w : World, w.Quiet → w.files = s.store.files →
    ∃ w', CheckpointMergeBackend.replayDeltas ar s.snapshotState w = (.ok (), w') ∧
      w'.tree =
        replay w.tree ((requests (sinceCheckpoint s.snapshotState s.applied)).map treeUpdate)

theorem DeltaAt.fileHolds {ar : Archiver} {w : World} {applied : List Entry}
    {start stop : UInt64} {d : DeltaInfo} (h : DeltaAt ar w applied start stop d)
    (hcut : w.cutOff = false) (hfits : ∀ e ∈ applied, EntryFits e) :
    CheckpointMergeBackend.FileHolds ar w.files (requests (requestsIn start stop applied)) d := by
  obtain ⟨ts, data, hpath, hdata, hfile⟩ := h.file
  refine ⟨_, data, _, hpath, hfile hcut, DeltaSnapshotCodec.decodeEntries_of_encodeEntries hdata,
    forall₂_decodes ?_⟩
  exact carries_deltaOf fun e he => hfits e (mem_between.mp he).1

/-- The files of a chain hold the ranges that its deltas were cut from. -/
theorem ChainInv.filesHold {ar : Archiver} {s : ChainRun} (h : ChainInv ar s)
    (hkept : s.store.world.cutOff = false) {stops : List UInt64}
    (hcut : CutAt ar s.store.world s.applied s.lastBuilt s.snapshotState stops) :
    List.Forall₂ (CheckpointMergeBackend.FileHolds ar s.store.files)
      (stops.map fun stop => requests (requestsIn (deltaStart s.snapshotState) stop s.applied))
      s.snapshotState.deltaChain := by
  rw [List.forall₂_map_left_iff]
  exact hcut.deltas.imp fun stop d hd => hd.fileHolds hkept h.tracks.fits

/-- Replaying a chain is replaying the range of its last delta. -/
theorem ChainInv.replayDeltas {ar : Archiver} {s : ChainRun} (h : ChainInv ar s)
    (hkept : s.store.world.cutOff = false) {stops : List UInt64}
    (hcut : CutAt ar s.store.world s.applied s.lastBuilt s.snapshotState stops) {stop : UInt64}
    (hstop : stops.getLast? = some stop)
    (hkeys : NonemptyKeys (requests (requestsIn (deltaStart s.snapshotState) stop s.applied)))
    {w : World} (hquiet : w.Quiet) (hfiles : w.files = s.store.files) :
    CheckpointMergeBackend.replayDeltas ar s.snapshotState w = (.ok (), w.withTree (replay w.tree
      ((requests (requestsIn (deltaStart s.snapshotState) stop s.applied)).map treeUpdate))) := by
  let range := fun stop => requests (requestsIn (deltaStart s.snapshotState) stop s.applied)
  obtain ⟨front, rfl⟩ := List.getLast?_eq_some_iff.mp hstop
  have hfront : ∀ earlier ∈ front, range earlier <+: range stop := fun earlier hmem =>
    (requestsIn_isPrefix h.tracks.increasing
      ((List.pairwise_append.mp hcut.ordered).2.2 earlier hmem stop List.mem_cons_self)).filterMap _
  have hall : ∀ reqs ∈ (front ++ [stop]).map range, NonemptyKeys reqs := by
    intro reqs hreqs
    obtain ⟨cut, hmem, rfl⟩ := List.mem_map.mp hreqs
    rcases List.mem_append.mp hmem with hmem | hmem
    · exact fun req hreq => hkeys req ((hfront cut hmem).subset hreq)
    · rw [List.mem_singleton.mp hmem]
      exact hkeys
  have hrun := CheckpointMergeBackend.replayChain_quiet (h.filesHold hkept hcut) hall hquiet hfiles
  have hchain : (((front ++ [stop]).map range).map (List.map treeUpdate)).foldl replay w.tree =
      replay w.tree ((range stop).map treeUpdate) := by
    rw [List.map_append, List.map_append]
    refine foldl_replay_of_chain w.tree _ ((range stop).map treeUpdate) fun us hus => ?_
    obtain ⟨reqs, hreqs, rfl⟩ := List.mem_map.mp hus
    obtain ⟨earlier, hmem, rfl⟩ := List.mem_map.mp hreqs
    exact (hfront earlier hmem).map _
  rw [hchain] at hrun
  exact hrun

/-- Below the greatest index the range of the last delta is what was applied since the
checkpoint. -/
theorem requests_sinceCheckpoint {ar : Archiver} {w : World} {applied : List Entry}
    {st : SnapshotMetaState} {c : PersistedCheckpointMetadata} {d : DeltaInfo} {stop : UInt64}
    (hinc : Increasing applied) (hc : st.lastCheckpoint = some c)
    (hlt : c.checkpointIndex < u64Max) (hlast : st.deltaChain.getLast? = some d)
    (hd : DeltaAt ar w applied (deltaStart st) stop d) :
    requests (sinceCheckpoint st applied) = requests (requestsIn (deltaStart st) stop applied) := by
  have hstart : ∀ i, deltaStart st ≤ i ↔ c.checkpointIndex < i := by
    intro i
    rw [deltaStart, hc]
    exact saturatingAdd_one_le_iff hlt
  rw [← requests_filter (p := Entry.isNormal) fun _ _ hn => hn, sinceCheckpoint, hc, hlast,
    requestsIn, between, List.filter_filter, List.filter_filter]
  congr 1
  refine List.filter_congr fun e he => ?_
  cases hn : e.isNormal with
  | false => rfl
  | true =>
      simp only [Bool.true_and, hstart]
      cases hlo : decide (c.checkpointIndex < e.index) with
      | false => rfl
      | true =>
          -- a request of the range is not beyond the last one of the delta
          have hmem : e.index ≤ stop → e.index ≤ d.endIndex := fun hle =>
            hd.le_endIndex hinc (mem_requestsIn.mpr
              ⟨he, (hstart e.index).mpr (of_decide_eq_true hlo), hle, hn⟩)
          have hiff : e.index ≤ d.endIndex ↔ e.index ≤ stop :=
            ⟨fun hle => UInt64.le_trans hle hd.endIndex_le, hmem⟩
          simp only [Bool.true_and, hiff]

/-- At the greatest index nothing is after the checkpoint. -/
theorem sinceCheckpoint_of_max {st : SnapshotMetaState} {c : PersistedCheckpointMetadata}
    (hc : st.lastCheckpoint = some c) (hmax : ¬ c.checkpointIndex < u64Max)
    (applied : List Entry) : sinceCheckpoint st applied = [] := by
  rw [sinceCheckpoint, hc]
  cases st.deltaChain.getLast? with
  | none => rfl
  | some d =>
      rw [List.filter_eq_nil_iff]
      intro e _ hboth
      rw [Bool.and_eq_true, decide_eq_true_eq] at hboth
      exact hmax (UInt64.lt_of_lt_of_le hboth.1 (le_u64Max _))

theorem DeltaAt.requests_ne_nil {ar : Archiver} {w : World} {applied : List Entry}
    {start stop : UInt64} {d : DeltaInfo} (h : DeltaAt ar w applied start stop d) :
    requests (requestsIn start stop applied) ≠ [] := by
  obtain ⟨e, he, _⟩ := h.exists_first
  obtain ⟨req, hreq⟩ := Entry.isNormal_iff.mp (mem_requestsIn.mp he).2.2.2
  refine List.ne_nil_of_mem (List.mem_filterMap.mpr ⟨e, he, (?_ : _ = some req)⟩)
  rw [Entry.request?, hreq]

theorem ChainInv.mergesOnce_of_below {ar : Archiver} {s : ChainRun} (h : ChainInv ar s)
    (hkept : s.store.world.cutOff = false) (hmax : BelowMax s.snapshotState)
    (hkeys : NonemptyKeys (requests (sinceCheckpoint s.snapshotState s.applied))) :
    MergesOnce ar s := by
  intro w hquiet hfiles
  obtain ⟨stops, hcut⟩ := h.chain.cut
  cases hlast : s.snapshotState.deltaChain.getLast? with
  | none =>
      have hnil := List.getLast?_eq_none_iff.mp hlast
      refine ⟨w, ?_, ?_⟩
      · rw [CheckpointMergeBackend.replayDeltas, hnil]
        rfl
      · rw [sinceCheckpoint, hlast]
        cases s.snapshotState.lastCheckpoint <;> rfl
  | some d =>
      have hne : s.snapshotState.deltaChain ≠ [] := by
        intro hnil
        rw [hnil] at hlast
        cases hlast
      obtain ⟨c, hc⟩ := h.chain.based hne
      obtain ⟨stop, hstop, hd⟩ := hcut.deltas.exists_getLast_left hlast
      have hsince := requests_sinceCheckpoint h.tracks.increasing hc (hmax hne c hc) hlast hd
      rw [hsince] at hkeys
      refine ⟨_, h.replayDeltas hkept hcut hstop hkeys hquiet hfiles, ?_⟩
      rw [World.withTree_tree, hsince]

/-- A chain that was replayed has no request with the empty key. -/
theorem ChainInv.nonemptyKeys_of_mergesOnce {ar : Archiver} {s : ChainRun} (h : ChainInv ar s)
    (hkept : s.store.world.cutOff = false) (honce : MergesOnce ar s) {stops : List UInt64}
    (hcut : CutAt ar s.store.world s.applied s.lastBuilt s.snapshotState stops) {stop : UInt64}
    (hstop : stops.getLast? = some stop) :
    NonemptyKeys (requests (requestsIn (deltaStart s.snapshotState) stop s.applied)) := by
  have hquiet : (s.store.world.withFaults []).Quiet := rfl
  obtain ⟨w', hrun, _⟩ := honce (s.store.world.withFaults []) hquiet rfl
  exact CheckpointMergeBackend.nonemptyKeys_of_replayChain (h.filesHold hkept hcut)
    (w := s.store.world.withFaults []) rfl hrun _
    (List.mem_map_of_mem (List.mem_of_getLast? hstop))

theorem ChainInv.below_of_mergesOnce {ar : Archiver} {s : ChainRun} (h : ChainInv ar s)
    (hkept : s.store.world.cutOff = false) (honce : MergesOnce ar s) :
    BelowMax s.snapshotState := by
  intro hne c hc
  by_contra hmax
  obtain ⟨stops, hcut⟩ := h.chain.cut
  have hlast := List.getLast?_eq_some_getLast hne
  obtain ⟨stop, hstop, hd⟩ := hcut.deltas.exists_getLast_left hlast
  have hkeys := h.nonemptyKeys_of_mergesOnce hkept honce hcut hstop
  -- the requests of the chain change some tree, and nothing was applied after the checkpoint
  have hupdates := mt (List.map_eq_nil_iff (f := treeUpdate)).mp hd.requests_ne_nil
  obtain ⟨baseline, hchanged⟩ := exists_replay_ne hupdates
  let w : World := (s.store.world.withTree baseline).withFaults []
  have hw : w.Quiet := rfl
  obtain ⟨w', hrun', htree⟩ := honce w hw rfl
  rw [h.replayDeltas hkept hcut hstop hkeys hw rfl] at hrun'
  cases hrun'
  rw [sinceCheckpoint_of_max hc hmax] at htree
  exact hchanged htree

theorem ChainInv.keys_of_mergesOnce {ar : Archiver} {s : ChainRun} (h : ChainInv ar s)
    (hkept : s.store.world.cutOff = false) (honce : MergesOnce ar s) :
    NonemptyKeys (requests (sinceCheckpoint s.snapshotState s.applied)) := by
  cases hlast : s.snapshotState.deltaChain.getLast? with
  | none =>
      have hnil : sinceCheckpoint s.snapshotState s.applied = [] := by
        rw [sinceCheckpoint, hlast]
        cases s.snapshotState.lastCheckpoint <;> rfl
      rw [hnil]
      exact List.forall_mem_nil _
  | some d =>
      have hne : s.snapshotState.deltaChain ≠ [] := by
        intro hnil
        rw [hnil] at hlast
        cases hlast
      obtain ⟨stops, hcut⟩ := h.chain.cut
      obtain ⟨c, hc⟩ := h.chain.based hne
      obtain ⟨stop, hstop, hd⟩ := hcut.deltas.exists_getLast_left hlast
      have hmax := h.below_of_mergesOnce hkept honce hne c hc
      rw [requests_sinceCheckpoint h.tracks.increasing hc hmax hlast hd]
      exact h.nonemptyKeys_of_mergesOnce hkept honce hcut hstop

/-- While the delta files keep what was written, replaying the chain runs each request after the
checkpoint once, unless the chain starts at the checkpoint itself or one of the requests has the
empty key, which the tree refuses. -/
theorem merge_replays_once_iff {ar : Archiver} {n₀ : SurrealStorage} {s : ChainRun}
    (hfresh : Fresh n₀)
    (hrun : Relation.ReflTransGen (ChainStep ar fun _ => True) (.start n₀) s)
    (hkept : s.store.world.cutOff = false) :
    MergesOnce ar s ↔ BelowMax s.snapshotState ∧
      NonemptyKeys (requests (sinceCheckpoint s.snapshotState s.applied)) := by
  have h := ChainInv.run hfresh hrun
  exact ⟨fun honce => ⟨h.below_of_mergesOnce hkept honce, h.keys_of_mergesOnce hkept honce⟩,
    fun hcond => h.mergesOnce_of_below hkept hcond.1 hcond.2⟩

/-- Two requests, the second one in a delta. -/
theorem merge_replays_once_iff_second :
    ∃ s : ChainRun, s.applied = [.put 1 1 "a" [1], .put 1 2 "b" [2]] ∧
      s.snapshotState.deltaChain.length = 1 ∧ s.store.world.cutOff = false ∧
      (MergesOnce .stored s ↔ BelowMax s.snapshotState ∧
        NonemptyKeys (requests (sinceCheckpoint s.snapshotState s.applied))) := by
  have htest : (apply [.put 1 1 "a" [1]]).succeeds (fresh []) (fun _ n₁ =>
      (buildSnapshotAuto .stored 1).succeeds n₁ fun _ n₂ =>
      (apply [.put 1 2 "b" [2]]).succeeds n₂ fun _ n₃ =>
      (buildSnapshotAuto .stored 1).succeeds n₃ fun _ n₄ =>
      decide (n₄.snapshotState.deltaChain.length = 1) &&
      decide (n₄.world.cutOff = false)) = true := by
    decide +kernel
  obtain ⟨_, n₁, h₁, htest⟩ := Eff.exists_of_succeeds htest
  obtain ⟨first, n₂, h₂, htest⟩ := Eff.exists_of_succeeds htest
  obtain ⟨_, n₃, h₃, htest⟩ := Eff.exists_of_succeeds htest
  obtain ⟨second, n₄, h₄, htest⟩ := Eff.exists_of_succeeds htest
  obtain ⟨hlen, hkept⟩ := (Bool.and_eq_true _ _).mp htest
  have hinc : Increasing ([.put 1 1 "a" [1]] ++ [.put 1 2 "b" [2]]) := by
    show List.Pairwise (fun a b : Entry => a.index < b.index) [.put 1 1 "a" [1], .put 1 2 "b" [2]]
    decide
  have hrun := fourSteps_run (fun _ => True) hinc h₁ trivial h₂ h₃ trivial h₄
  exact ⟨_, rfl, of_decide_eq_true hlen, of_decide_eq_true hkept,
    merge_replays_once_iff (fresh_fresh []) hrun (of_decide_eq_true hkept)⟩

/-- A chain that starts at the checkpoint runs the request of the checkpoint once more. -/
theorem merge_replays_checkpoint_request :
    ∃ s, Relation.ReflTransGen (ChainStep .stored fun _ => True) (.start (fresh [])) s ∧
      s.applied = [.put 1 u64Max "k" [7]] ∧ s.snapshotState.deltaChain.length = 1 ∧
      s.store.world.cutOff = false ∧ ¬ MergesOnce .stored s := by
  obtain ⟨s, d, c, hrun, happlied, hd, hc, hindex, _, hkept⟩ := exists_maxDelta
  refine ⟨s, hrun, happlied, by rw [hd]; rfl, hkept, fun honce => ?_⟩
  have hinv := ChainInv.run (fresh_fresh []) hrun
  have hne : s.snapshotState.deltaChain ≠ [] := by
    rw [hd]
    exact List.cons_ne_nil d []
  have hlt := hinv.below_of_mergesOnce hkept honce hne c hc
  rw [hindex] at hlt
  exact absurd hlt (by decide)

end SurrealStorage

end OpenraftSurrealkv
