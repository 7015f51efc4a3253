import OpenraftSurrealkv.Effects.Merge
import OpenraftSurrealkv.Lib.Pointwise

/-!
# The delta chain along a run

Full builds, delta builds and merges all write the snapshot state.  A full build
and a merge move the checkpoint and clear the chain, a delta build extends the
chain.  Every delta of a chain is cut from the same start, just after the
checkpoint, up to the applied index of its time (`DeltaAt`).  So the chain is a
list of growing ranges of the applied entries, and `ChainInv` is kept by every
step.
-/

namespace OpenraftSurrealkv

namespace SurrealStorage

/-! ## Runs -/

/-- A store, the entries it applied, and the last log index of the last snapshot it built. -/
structure ChainRun where
  store : SurrealStorage
  applied : List Entry
  lastBuilt : Option UInt64

def ChainRun.start (n : SurrealStorage) : ChainRun := ⟨n, [], none⟩

abbrev ChainRun.snapshotState (s : ChainRun) : SnapshotMetaState := s.store.snapshotState

abbrev ChainRun.appliedIndex (s : ChainRun) : UInt64 :=
  s.store.metadata.appliedState.lastAppliedIndex

/-- The last log index of the last snapshot, after a build. -/
def builtIndex (previous : Option UInt64) : Except RaftError Snapshot → Option UInt64
  | .ok snap => snap.snapshotMeta.lastLogId.map LogId.index
  | .error _ => previous

/-- A successful `apply`, a build with any outcome from a store that meets a condition, or a merge
task with any outcome. -/
inductive ChainStep (ar : Archiver) (cond : SurrealStorage → Prop) : ChainRun → ChainRun → Prop
  | apply {s : ChainRun} (es : List Entry) {n' : SurrealStorage} :
      Increasing (s.applied ++ es) → SurrealStorage.apply es s.store = (.ok (), n') →
      ChainStep ar cond s ⟨n', s.applied ++ es, s.lastBuilt⟩
  | build {s : ChainRun} (term : UInt64) {r : Except RaftError Snapshot} {n' : SurrealStorage} :
      cond s.store → buildSnapshotAuto ar term s.store = (r, n') →
      ChainStep ar cond s ⟨n', s.applied, builtIndex s.lastBuilt r⟩
  | merge {s : ChainRun} (ex : MergeExecutor) (trigger : MergeTrigger)
      {r : Except RaftError MergeTaskResult} {m' : MetadataManager} :
      ex.runMergeLoop ar trigger s.store.metadata = (r, m') →
      ChainStep ar cond s ⟨{ s.store with metadata := m' }, s.applied, s.lastBuilt⟩

/-! ## The invariant -/

/-- A delta of the requests from `start` that was cut when `stop` was the applied index.  Its file
holds them unless a failing write has cut off a file. -/
structure DeltaAt (ar : Archiver) (w : World) (applied : List Entry)
    (start stop : UInt64) (d : DeltaInfo) : Prop where
  first : (requestsIn start stop applied).head?.map Entry.index = some d.startIndex
  last : (requestsIn start stop applied).getLast?.map Entry.index = some d.endIndex
  file : ∃ ts data,
    d.filePath = some
      (DeltaSnapshotCodec.deltaPath RaftSnapshotBuilder.deltaDir ts (toString stop)) ∧
    DeltaSnapshotCodec.encodeEntries ar (deltaOf (between start stop applied)) = .ok data ∧
    (w.cutOff = false →
      w.files[DeltaSnapshotCodec.deltaPath RaftSnapshotBuilder.deltaDir ts (toString stop)]? =
        some data)

/-- The chain is cut at the applied indices `stops`. -/
structure CutAt (ar : Archiver) (w : World) (applied : List Entry)
    (lastBuilt : Option UInt64) (st : SnapshotMetaState) (stops : List UInt64) : Prop where
  deltas : List.Forall₂ (DeltaAt ar w applied (deltaStart st)) stops st.deltaChain
  ordered : stops.Pairwise (· ≤ ·)
  bound : ∀ stop ∈ stops, stop ≤ (positionAfter applied).lastAppliedIndex
  /-- Requests up to the last snapshot are below the checkpoint or in the last delta. -/
  covers : ∀ b, lastBuilt = some b → b ≤ (positionAfter applied).lastAppliedIndex ∧
    ∃ c, st.lastCheckpoint = some c ∧ ∀ e ∈ applied, e.isNormal = true → e.index ≤ b →
      e.index ≤ c.checkpointIndex ∨
        ∃ stop, stops.getLast? = some stop ∧ e ∈ requestsIn (deltaStart st) stop applied

/-- What holds of the snapshot state in every run. -/
structure ChainOf (ar : Archiver) (w : World) (applied : List Entry)
    (lastBuilt : Option UInt64) (st : SnapshotMetaState) : Prop where
  based : st.deltaChain ≠ [] → ∃ c, st.lastCheckpoint = some c
  checkpoint : ∀ c, st.lastCheckpoint = some c →
    c.checkpointIndex ≤ (positionAfter applied).lastAppliedIndex
  bytes : st.totalDeltaBytes = (st.deltaChain.map DeltaInfo.sizeBytes).foldl saturatingAdd 0
  cut : ∃ stops, CutAt ar w applied lastBuilt st stops

/-- What holds of a store in every run. -/
structure ChainInv (ar : Archiver) (s : ChainRun) : Prop where
  tracks : Tracks s.store s.applied
  chain : ChainOf ar s.store.world s.applied s.lastBuilt s.store.snapshotState

theorem ChainInv.fresh {ar : Archiver} {n : SurrealStorage} (h : Fresh n) :
    ChainInv ar (.start n) := by
  refine ⟨.fresh h, ?_⟩
  obtain ⟨w, ex, _, rfl⟩ := h.eq
  exact {
    based := fun hne => absurd rfl hne
    checkpoint := fun _ hc => nomatch hc
    bytes := rfl
    cut := ⟨[], .nil, .nil, (fun _ hmem => nomatch hmem), fun _ hb => nomatch hb⟩ }

/-! ## Deltas -/

theorem DeltaAt.exists_first {ar : Archiver} {w : World} {applied : List Entry}
    {start stop : UInt64} {d : DeltaInfo} (h : DeltaAt ar w applied start stop d) :
    ∃ e ∈ requestsIn start stop applied, e.index = d.startIndex := by
  obtain ⟨e, he, hindex⟩ := Option.map_eq_some_iff.mp h.first
  exact ⟨e, List.mem_of_head? he, hindex⟩

theorem DeltaAt.exists_last {ar : Archiver} {w : World} {applied : List Entry}
    {start stop : UInt64} {d : DeltaInfo} (h : DeltaAt ar w applied start stop d) :
    ∃ e ∈ requestsIn start stop applied, e.index = d.endIndex := by
  obtain ⟨e, he, hindex⟩ := Option.map_eq_some_iff.mp h.last
  exact ⟨e, List.mem_of_getLast? he, hindex⟩

theorem DeltaAt.le_endIndex {ar : Archiver} {w : World} {applied : List Entry}
    {start stop : UInt64} {d : DeltaInfo} (h : DeltaAt ar w applied start stop d)
    (hinc : Increasing applied) {e : Entry} (he : e ∈ requestsIn start stop applied) :
    e.index ≤ d.endIndex := by
  obtain ⟨last, hlast, hindex⟩ := Option.map_eq_some_iff.mp h.last
  rw [← hindex]
  exact index_le_getLast ((hinc.filter _).filter _) hlast he

theorem DeltaAt.startIndex_le_index {ar : Archiver} {w : World} {applied : List Entry}
    {start stop : UInt64} {d : DeltaInfo} (h : DeltaAt ar w applied start stop d)
    (hinc : Increasing applied) {e : Entry} (he : e ∈ requestsIn start stop applied) :
    d.startIndex ≤ e.index := by
  obtain ⟨first, hfirst, hindex⟩ := Option.map_eq_some_iff.mp h.first
  obtain ⟨rest, hrest⟩ := List.head?_eq_some_iff.mp hfirst
  have hsorted : Increasing (requestsIn start stop applied) := (hinc.filter _).filter _
  rw [hrest] at he hsorted
  rw [← hindex]
  rcases List.mem_cons.mp he with rfl | he
  · exact UInt64.le_refl _
  · exact UInt64.le_of_lt (List.rel_of_pairwise_cons hsorted he)

theorem DeltaAt.start_le {ar : Archiver} {w : World} {applied : List Entry}
    {start stop : UInt64} {d : DeltaInfo} (h : DeltaAt ar w applied start stop d) :
    start ≤ d.startIndex := by
  obtain ⟨e, he, hindex⟩ := h.exists_first
  rw [← hindex]
  exact (mem_requestsIn.mp he).2.1

theorem DeltaAt.startIndex_le {ar : Archiver} {w : World} {applied : List Entry}
    {start stop : UInt64} {d : DeltaInfo} (h : DeltaAt ar w applied start stop d)
    (hinc : Increasing applied) : d.startIndex ≤ d.endIndex := by
  obtain ⟨e, he, hindex⟩ := h.exists_first
  rw [← hindex]
  exact h.le_endIndex hinc he

theorem DeltaAt.endIndex_le {ar : Archiver} {w : World} {applied : List Entry}
    {start stop : UInt64} {d : DeltaInfo} (h : DeltaAt ar w applied start stop d) :
    d.endIndex ≤ stop := by
  obtain ⟨e, he, hindex⟩ := h.exists_last
  rw [← hindex]
  exact (mem_requestsIn.mp he).2.2.1

/-- Later entries leave a delta as it is. -/
theorem DeltaAt.extend {ar : Archiver} {w : World} {applied es : List Entry}
    {start stop : UInt64} {d : DeltaInfo} (h : DeltaAt ar w applied start stop d)
    (hinc : Increasing (applied ++ es))
    (hstop : stop ≤ (positionAfter applied).lastAppliedIndex) :
    DeltaAt ar w (applied ++ es) start stop d := by
  obtain ⟨e, he, _⟩ := h.exists_first
  have hne : applied ≠ [] := List.ne_nil_of_mem (mem_requestsIn.mp he).1
  have hsame : between start stop (applied ++ es) = between start stop applied :=
    between_extend fun e' he' => UInt64.lt_of_le_of_lt hstop (positionAfter_lt hinc hne he')
  have hrequests : requestsIn start stop (applied ++ es) = requestsIn start stop applied := by
    rw [requestsIn, hsame, requestsIn]
  refine ⟨?_, ?_, ?_⟩
  · rw [hrequests]
    exact h.first
  · rw [hrequests]
    exact h.last
  · rw [hsame]
    exact h.file

/-- A build that can only write the same delta again keeps the file. -/
theorem DeltaAt.of_filesWithin {ar : Archiver} {n n' : SurrealStorage} {applied : List Entry}
    {start stop a : UInt64} {d : DeltaInfo} (h : DeltaAt ar n.world applied start stop d)
    (hfiles : FilesWithin (BuildWrites ar a (deltaOf (between start a applied))) n n') :
    DeltaAt ar n'.world applied start stop d := by
  obtain ⟨ts, data, hpath, hdata, hfile⟩ := h.file
  refine ⟨h.first, h.last, ts, data, hpath, hdata, fun hcut => ?_⟩
  obtain ⟨content, hcontent, rfl | ⟨ts', harchive⟩ | ⟨ts', hdelta, hdata'⟩⟩ :=
    hfiles.files hcut _ data (hfile (hfiles.kept hcut))
  · exact hcontent
  · exact absurd harchive (deltaPath_ne_archivePath ts ts' _)
  · obtain rfl := deltaPath_inj hdelta
    rw [hdata] at hdata'
    cases hdata'
    exact hcontent

/-! ## What the steps do to the chain -/

section

variable {ar : Archiver} {w : World} {applied : List Entry}
  {lastBuilt : Option UInt64} {st : SnapshotMetaState}

/-- Applying entries keeps the chain. -/
theorem CutAt.extend {stops : List UInt64} {es : List Entry}
    (h : CutAt ar w applied lastBuilt st stops) (hinc : Increasing (applied ++ es)) :
    CutAt ar w (applied ++ es) lastBuilt st stops where
  deltas := by
    refine ((List.forall₂_and_left _ _).mpr ⟨h.bound, h.deltas⟩).imp fun stop d hd => ?_
    exact hd.2.extend hinc hd.1
  ordered := h.ordered
  bound := fun stop hstop => UInt64.le_trans (h.bound stop hstop) (positionAfter_le_append hinc)
  covers := by
    intro b hb
    obtain ⟨hle, c, hc, hcovers⟩ := h.covers b hb
    refine ⟨UInt64.le_trans hle (positionAfter_le_append hinc), c, hc, fun e he hn heb => ?_⟩
    rcases List.mem_append.mp he with he | he
    · refine (hcovers e he hn heb).imp id fun ⟨stop, hstop, hmem⟩ => ⟨stop, hstop, ?_⟩
      rw [mem_requestsIn] at hmem ⊢
      exact ⟨List.mem_append_left _ hmem.1, hmem.2⟩
    · -- an entry beyond the position is not below the last snapshot, unless nothing was applied
      left
      by_cases hnil : applied = []
      · subst hnil
        have hzero : e.index ≤ 0 := UInt64.le_trans heb hle
        exact UInt64.le_trans hzero UInt64.zero_le
      · have hlt := positionAfter_lt hinc hnil he
        exact absurd (UInt64.le_trans heb hle) (UInt64.not_le.mpr hlt)

theorem ChainOf.extend {es : List Entry} (h : ChainOf ar w applied lastBuilt st)
    (hinc : Increasing (applied ++ es)) : ChainOf ar w (applied ++ es) lastBuilt st where
  based := h.based
  checkpoint := fun c hc => UInt64.le_trans (h.checkpoint c hc) (positionAfter_le_append hinc)
  bytes := h.bytes
  cut := by
    obtain ⟨stops, hcut⟩ := h.cut
    exact ⟨stops, hcut.extend hinc⟩

/-- Whatever leaves the files alone keeps the chain. -/
theorem ChainOf.of_fileState {w' : World} (h : ChainOf ar w applied lastBuilt st)
    (hsame : Sys.fileState w' = Sys.fileState w) : ChainOf ar w' applied lastBuilt st where
  based := h.based
  checkpoint := h.checkpoint
  bytes := h.bytes
  cut := by
    obtain ⟨hfiles, hcut⟩ := Prod.mk.inj hsame
    obtain ⟨stops, hat⟩ := h.cut
    refine ⟨stops, hat.deltas.imp fun stop d hd => ?_, hat.ordered, hat.bound, hat.covers⟩
    refine ⟨hd.first, hd.last, ?_⟩
    rw [hfiles, hcut]
    exact hd.file

/-- A full snapshot moves the checkpoint to the position and clears the chain. -/
theorem ChainOf.full {c : PersistedCheckpointMetadata} (w : World)
    (hinc : Increasing applied) (hc : st.lastCheckpoint = some c)
    (hindex : c.checkpointIndex = (positionAfter applied).lastAppliedIndex)
    (hchain : st.deltaChain = []) (hbytes : st.totalDeltaBytes = 0) :
    ChainOf ar w applied (some (positionAfter applied).lastAppliedIndex) st where
  based := fun _ => ⟨c, hc⟩
  checkpoint := by
    intro c' hc'
    rw [hc] at hc'
    cases hc'
    exact UInt64.le_of_eq hindex
  bytes := by
    rw [hbytes, hchain]
    rfl
  cut := by
    refine ⟨[], ?_, .nil, (fun _ hmem => nomatch hmem), ?_⟩
    · rw [hchain]
      exact .nil
    · rintro b ⟨⟩
      refine ⟨UInt64.le_refl _, c, hc, fun e he _ _ => Or.inl ?_⟩
      rw [hindex]
      exact index_le_positionAfter hinc he

/-- A delta extends the chain. -/
theorem ChainOf.delta {c : PersistedCheckpointMetadata} {d : DeltaInfo}
    (h : ChainOf ar w applied lastBuilt st) (hc : st.lastCheckpoint = some c)
    (hd : DeltaAt ar w applied (deltaStart st) (positionAfter applied).lastAppliedIndex d) :
    ChainOf ar w applied (some (positionAfter applied).lastAppliedIndex)
      { st with
        deltaChain := st.deltaChain ++ [d]
        totalDeltaBytes := saturatingAdd st.totalDeltaBytes d.sizeBytes } where
  based := fun _ => ⟨c, hc⟩
  checkpoint := h.checkpoint
  bytes := by
    show saturatingAdd st.totalDeltaBytes d.sizeBytes = _
    rw [List.map_append, List.foldl_append, ← h.bytes]
    rfl
  cut := by
    obtain ⟨stops, hcut⟩ := h.cut
    refine ⟨stops ++ [(positionAfter applied).lastAppliedIndex], ?_, ?_, ?_, ?_⟩
    · exact List.rel_append hcut.deltas (.cons hd .nil)
    · rw [List.pairwise_append]
      refine ⟨hcut.ordered, List.pairwise_singleton _ _, fun stop hstop a ha => ?_⟩
      rw [List.mem_singleton.mp ha]
      exact hcut.bound stop hstop
    · intro stop hstop
      rcases List.mem_append.mp hstop with hstop | hstop
      · exact hcut.bound stop hstop
      · exact UInt64.le_of_eq (List.mem_singleton.mp hstop)
    · rintro b ⟨⟩
      refine ⟨UInt64.le_refl _, c, hc, fun e he hn hle => ?_⟩
      by_cases hck : e.index ≤ c.checkpointIndex
      · exact Or.inl hck
      · have hlt : c.checkpointIndex < e.index := UInt64.not_le.mp hck
        have hstart : deltaStart st ≤ e.index := by
          rw [deltaStart, hc]
          exact (saturatingAdd_one_le_iff (UInt64.lt_of_lt_of_le hlt (le_u64Max _))).mpr hlt
        refine Or.inr ⟨_, List.getLast?_concat, mem_requestsIn.mpr ⟨he, hstart, hle, hn⟩⟩

/-- The checkpoint of a merged chain. -/
def mergedIndex (st : SnapshotMetaState) (c : PersistedCheckpointMetadata) : UInt64 :=
  (st.deltaChain.getLast?.map DeltaInfo.endIndex).getD c.checkpointIndex

theorem mergedIndex_of_last {d : DeltaInfo} (h : st.deltaChain.getLast? = some d)
    (c : PersistedCheckpointMetadata) : mergedIndex st c = d.endIndex := by
  rw [mergedIndex, h]
  rfl

/-- A merge does not move the checkpoint back, nor beyond the position. -/
theorem ChainOf.mergedIndex_bounds {c : PersistedCheckpointMetadata}
    (h : ChainOf ar w applied lastBuilt st) (hinc : Increasing applied)
    (hc : st.lastCheckpoint = some c) :
    c.checkpointIndex ≤ mergedIndex st c ∧
      mergedIndex st c ≤ (positionAfter applied).lastAppliedIndex := by
  cases hlast : st.deltaChain.getLast? with
  | none =>
      have hsame : mergedIndex st c = c.checkpointIndex := by
        rw [mergedIndex, hlast]
        rfl
      rw [hsame]
      exact ⟨UInt64.le_refl _, h.checkpoint c hc⟩
  | some d =>
      obtain ⟨stops, hcut⟩ := h.cut
      obtain ⟨stop, hstop, hd⟩ := hcut.deltas.exists_getLast_left hlast
      have hstart : c.checkpointIndex ≤ deltaStart st := by
        rw [deltaStart, hc]
        exact le_saturatingAdd_one _
      rw [mergedIndex_of_last hlast]
      constructor
      · exact UInt64.le_trans hstart (UInt64.le_trans hd.start_le (hd.startIndex_le hinc))
      · exact UInt64.le_trans hd.endIndex_le (hcut.bound stop (List.mem_of_getLast? hstop))

/-- A merge moves the checkpoint to the end of the chain and clears the chain. -/
theorem ChainOf.folded (h : ChainOf ar w applied lastBuilt st) (hinc : Increasing applied)
    (w' : World) (now : UInt64) (path : Option String) :
    ChainOf ar w' applied lastBuilt (MergeExecutor.buildMergedSnapshotState st now path) where
  based := fun hne => absurd rfl hne
  checkpoint := by
    intro c' hc'
    obtain ⟨c, hc, rfl⟩ := Option.map_eq_some_iff.mp hc'
    exact (h.mergedIndex_bounds hinc hc).2
  bytes := rfl
  cut := by
    obtain ⟨stops, hcut⟩ := h.cut
    refine ⟨[], .nil, .nil, (fun _ hmem => nomatch hmem), fun b hb => ?_⟩
    obtain ⟨hle, c, hc, hcovers⟩ := hcut.covers b hb
    refine ⟨hle, _, Option.map_eq_some_iff.mpr ⟨c, hc, rfl⟩, fun e he hn heb => Or.inl ?_⟩
    show e.index ≤ mergedIndex st c
    rcases hcovers e he hn heb with hbelow | ⟨stop, hstop, hmem⟩
    · exact UInt64.le_trans hbelow (h.mergedIndex_bounds hinc hc).1
    · obtain ⟨d, hlast, hd⟩ := hcut.deltas.exists_getLast_right hstop
      rw [mergedIndex_of_last hlast]
      exact hd.le_endIndex hinc hmem

end

/-! ## Steps -/

theorem ChainInv.apply {ar : Archiver} {s : ChainRun} {es : List Entry} {n' : SurrealStorage}
    (h : ChainInv ar s) (hinc : Increasing (s.applied ++ es))
    (happly : SurrealStorage.apply es s.store = (.ok (), n')) :
    ChainInv ar ⟨n', s.applied ++ es, s.lastBuilt⟩ where
  tracks := h.tracks.apply hinc happly
  chain := by
    show ChainOf ar n'.world _ _ n'.snapshotState
    rw [snapshotState_apply_ok happly]
    exact (h.chain.of_fileState (fileState_apply_ok happly)).extend hinc

/-- Whatever a build does, the files of the chain keep their content unless one is cut off. -/
theorem ChainInv.refile {ar : Archiver} {s : ChainRun} {n' : SurrealStorage} (h : ChainInv ar s)
    (hfiles : FilesWithin (BuildWrites ar s.appliedIndex s.store.deltaEntries) s.store n') :
    ChainOf ar n'.world s.applied s.lastBuilt s.snapshotState where
  based := h.chain.based
  checkpoint := h.chain.checkpoint
  bytes := h.chain.bytes
  cut := by
    obtain ⟨stops, hcut⟩ := h.chain.cut
    refine ⟨stops, hcut.deltas.imp fun stop d hd => ?_, hcut.ordered, hcut.bound, hcut.covers⟩
    rw [h.tracks.deltaEntries] at hfiles
    exact hd.of_filesWithin hfiles

/-- What a build records for a delta. -/
theorem Tracks.recordSnapshot_delta {ar : Archiver} {n : SurrealStorage} {applied : List Entry}
    {w : World} {metadata : DeltaMetadata} (h : Tracks n applied)
    (hdelta : IsDelta ar n.metadata.appliedState.lastAppliedIndex n.snapshotState n.deltaEntries
      w.files metadata) (snap : Snapshot) :
    ∃ d, recordSnapshot snap n.snapshotState (.delta metadata n.deltaEntries) =
        { n.snapshotState with
          deltaChain := n.snapshotState.deltaChain ++ [d]
          totalDeltaBytes := saturatingAdd n.snapshotState.totalDeltaBytes d.sizeBytes } ∧
      DeltaAt ar w applied (deltaStart n.snapshotState)
        (positionAfter applied).lastAppliedIndex d := by
  obtain ⟨ts, data, hpath, hdata, hfile⟩ := hdelta.file
  rw [h.deltaEntries, h.position] at hdata
  rw [h.position] at hpath hfile
  have hindices : n.deltaEntries.map DeltaEntry.index =
      (requestsIn (deltaStart n.snapshotState) (positionAfter applied).lastAppliedIndex
        applied).map Entry.index := by
    rw [h.deltaEntries, map_index_deltaOf, h.position]
    rfl
  have hfirst := List.head?_eq_some_head hdelta.ne_nil
  have hlast := List.getLast?_eq_some_getLast hdelta.ne_nil
  simp only [recordSnapshot, hpath, hfirst, hlast, Option.map_some, Option.getD_some]
  refine ⟨_, rfl, ?_, ?_, ts, data, rfl, hdata, fun _ => hfile⟩
  · rw [← List.head?_map, ← hindices, List.head?_map, hfirst]
    rfl
  · rw [← List.getLast?_map, ← hindices, List.getLast?_map, hlast]
    rfl

theorem ChainInv.build {ar : Archiver} {s : ChainRun} {term : UInt64}
    {r : Except RaftError Snapshot} {n' : SurrealStorage} (h : ChainInv ar s)
    (hbuild : buildSnapshotAuto ar term s.store = (r, n')) :
    ChainInv ar ⟨n', s.applied, builtIndex s.lastBuilt r⟩ := by
  have hdata := (keeps_data_buildSnapshotAuto ar term).of_run hbuild
  have hfiles := filesWithin_buildSnapshotAuto ar term s.store
  rw [hbuild] at hfiles
  refine ⟨h.tracks.of_data hdata, ?_⟩
  cases r with
  | error e =>
      show ChainOf ar n'.world _ _ n'.snapshotState
      rw [buildSnapshotAuto_error hbuild]
      exact h.refile hfiles
  | ok snap =>
      obtain ⟨hid, d, _, hpayload, hstate⟩ := buildSnapshotAuto_ok hbuild
      have hbuilt : builtIndex s.lastBuilt (.ok snap) =
          some (positionAfter s.applied).lastAppliedIndex := by
        rw [builtIndex, hid, ← h.tracks.position]
        rfl
      show ChainOf ar n'.world _ (builtIndex s.lastBuilt (.ok snap)) n'.snapshotState
      rw [hbuilt, hstate]
      cases d with
      | full metadata =>
          obtain ⟨⟨c, hc, hindex⟩, hchain, hbytes⟩ :=
            recordSnapshot_full hid s.snapshotState metadata
          rw [h.tracks.position] at hindex
          exact .full _ h.tracks.increasing hc hindex hchain hbytes
      | delta metadata entries =>
          obtain ⟨rfl, hdelta⟩ := hpayload
          obtain ⟨c, _, hc, _⟩ := hdelta.base
          obtain ⟨d, hrecord, hd⟩ := h.tracks.recordSnapshot_delta hdelta snap
          rw [hrecord]
          exact (h.refile hfiles).delta hc hd

/-- A build of the state machine is one of the store, whose snapshot it keeps. -/
theorem ChainInv.buildSnapshot {ar : Archiver} {s : ChainRun} {r : Except RaftError Snapshot}
    {n' : SurrealStorage} (h : ChainInv ar s)
    (hbuild : SurrealStorage.buildSnapshot ar s.store = (r, n')) :
    ChainInv ar ⟨n', s.applied, builtIndex s.lastBuilt r⟩ := by
  cases r with
  | error e =>
      obtain ⟨e', hauto⟩ := buildSnapshot_eq_error hbuild
      have hinv := h.build hauto
      exact ⟨hinv.tracks, hinv.chain⟩
  | ok snap =>
      obtain ⟨snap₀, n₁, hauto, hid, _, rfl⟩ := buildSnapshot_eq_ok hbuild
      have hinv := h.build hauto
      have hbuilt : builtIndex s.lastBuilt (.ok snap) = builtIndex s.lastBuilt (.ok snap₀) :=
        congrArg (Option.map LogId.index) hid
      rw [hbuilt]
      exact ⟨hinv.tracks.of_data rfl, hinv.chain⟩

theorem ChainInv.merge {ar : Archiver} {s : ChainRun} {ex : MergeExecutor} {trigger : MergeTrigger}
    {r : Except RaftError MergeTaskResult} {m' : MetadataManager} (h : ChainInv ar s)
    (hmerge : ex.runMergeLoop ar trigger s.store.metadata = (r, m')) :
    ChainInv ar ⟨{ s.store with metadata := m' }, s.applied, s.lastBuilt⟩ := by
  obtain ⟨happlied, hkept⟩ := MergeExecutor.runMergeLoop_outcome hmerge
  refine ⟨⟨h.tracks.increasing, h.tracks.fits, h.tracks.logs, h.tracks.map, ?_⟩, ?_⟩
  · exact happlied.trans h.tracks.position
  · show ChainOf ar m'.world _ _ m'.snapshotState
    rcases hkept with ⟨hstate, hfiles⟩ | ⟨now, path, hstate⟩
    · rw [hstate]
      exact h.chain.of_fileState hfiles
    · rw [hstate]
      exact h.chain.folded h.tracks.increasing _ now path

theorem ChainInv.step {ar : Archiver} {cond : SurrealStorage → Prop} {s s' : ChainRun}
    (h : ChainInv ar s) (hstep : ChainStep ar cond s s') : ChainInv ar s' := by
  cases hstep with
  | apply es hinc happly => exact h.apply hinc happly
  | build term _ hbuild => exact h.build hbuild
  | merge ex trigger hmerge => exact h.merge hmerge

theorem ChainInv.run {ar : Archiver} {cond : SurrealStorage → Prop} {n₀ : SurrealStorage}
    {s : ChainRun} (h₀ : Fresh n₀)
    (hrun : Relation.ReflTransGen (ChainStep ar cond) (.start n₀) s) : ChainInv ar s := by
  induction hrun with
  | refl => exact .fresh h₀
  | tail _ hstep ih => exact ih.step hstep

end SurrealStorage

end OpenraftSurrealkv
