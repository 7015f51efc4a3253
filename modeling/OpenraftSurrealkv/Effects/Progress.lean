import OpenraftSurrealkv.Effects.Merge
import OpenraftSurrealkv.Effects.Tasks

/-!
# Who writes the merge progress

The record of the merge progress has a copy in memory and one in the tree
(`Progress`).  Builds, evaluations of the policy, attempts at a merge and the
cleanup leave both alone.  So only the saves of a merge task and those of a
recovery change them, and a save changes both or none
(`MetaSave.progress_cases`).
-/

namespace OpenraftSurrealkv

open MetadataManager

/-- The merge progress in memory, and the one that a restart would load. -/
structure Progress where
  memory : MergeProgressState
  stored : MergeProgressState

/-- What a restart would load as the merge progress. -/
def storedProgress (w : World) : MergeProgressState := mergeProgressRecord.recovered w.tree .new

def MetadataManager.progress (m : MetadataManager) : Progress :=
  ⟨m.mergeProgressState, storedProgress m.world⟩

/-- The merge progress of a store. -/
def SurrealStorage.progress (n : SurrealStorage) : Progress := n.metadata.progress

/-! ## Operations on the world -/

/-- A quantity that reads only the tree. -/
def Sys.ReadsTree {γ : Type} (g : World → γ) : Prop :=
  ∀ w w' : World, w'.tree = w.tree → g w' = g w

section

variable {γ : Type} {g : World → γ}

theorem Sys.ReadsTree.ofTree (h : Sys.ReadsTree g) : Sys.OfTree (Eff.Same g) where
  stored _ _ _ _ _ _ := h _ _ rfl
  dirs _ _ := h _ _ rfl
  reused _ _ := h _ _ rfl
  files _ _ := h _ _ rfl
  cutOff _ _ := h _ _ rfl

theorem Sys.ReadsTree.keeps {α : Type} {x : Sys α} (h : Sys.ReadsTree g)
    (hx : Eff.Keeps World.tree x) : Eff.Keeps g x :=
  hx.imp fun w w' => h w w'

end

section

variable {R : World → World → Prop} [IsPreorder World R]

/-- Of the tree, a build writes the sequence number alone. -/
theorem Sys.OfTree.buildSnapshotWithDelta (h : Sys.OfTree R)
    (hkey : ∀ w bytes, R w (w.withTree (w.tree.insert consistencySeqKey bytes))) (ar : Archiver)
    (cfg : SnapshotBuildConfig) (appliedIndex : UInt64) (st : SnapshotMetaState)
    (es : List DeltaEntry) :
    Eff.Within R (RaftSnapshotBuilder.buildSnapshotWithDelta ar cfg appliedIndex st es) :=
  within_buildSnapshotWithDelta h.toFrame (within_writeSequenceNumber h.stored hkey)
    (fun _ wrap _ => h.writeFile wrap _ _) (fun _ wrap _ _ => h.writeFile wrap _ _) cfg st

end

theorem readsTree_tree : Sys.ReadsTree World.tree := fun _ _ h => h

/-- An attempt works on a tree of its own. -/
theorem keeps_tree_executeMerge (ar : Archiver) (st : SnapshotMetaState) :
    ∀ backend : MergeBackend, Eff.Keeps World.tree (backend.executeMerge ar st)
  | .metadataOnly => .pure _
  | .checkpoint tempBase =>
      .bind (CheckpointMergeBackend.within_createTempTree readsTree_tree.ofTree.toFrame tempBase st)
        fun _ _ => rfl

namespace MergeCleanup

section

variable {R : World → World → Prop} [IsPreorder World R]

theorem within_cleanupDeltaFiles (hfile : ∀ path, Eff.Within R (removeFile path))
    (config : MergeCleanupConfig) (now : UInt64) :
    ∀ chain : List DeltaInfo, Eff.Within R (cleanupDeltaFiles config now chain)
  | [] => .pure _
  | delta :: rest => by
      have ih := within_cleanupDeltaFiles hfile config now rest
      unfold cleanupDeltaFiles
      cases delta.filePath with
      | none => exact ih
      | some path =>
          refine .ite ih (.bind (Eff.Within.attempt (hfile path)) fun result => ?_)
          cases result with
          | ok u => exact .bind ih fun _ => .pure _
          | error e => exact ih

/-- Only the directories that are old enough are removed. -/
theorem within_removeOldTempDirs (hcall : ∀ wrap, Eff.Within R (Sys.external wrap))
    {config : MergeCleanupConfig} {now : UInt64} {dirs : List (String × UInt64)}
    (h : ∀ d ∈ dirs, config.maxTempAgeSecs ≤ saturatingSub now d.2 →
      Eff.Within R (removeDirAll d.1)) : Eff.Within R (removeOldTempDirs config now dirs) := by
  induction dirs with
  | nil => exact .pure _
  | cons dir rest ih =>
      obtain ⟨path, modified⟩ := dir
      have hrest := ih fun d hd => h d (List.mem_cons_of_mem _ hd)
      unfold removeOldTempDirs
      refine .bind (hcall _) fun _ => ?_
      split
      next hold =>
          have hremove := h (path, modified) List.mem_cons_self hold
          exact .bind hremove fun _ => .bind hrest fun _ => .pure _
      next => exact hrest

theorem within_removeDirs {dirs : List (String × UInt64)}
    (h : ∀ d ∈ dirs, Eff.Within R (removeDirAll d.1)) : Eff.Within R (removeDirs dirs) := by
  induction dirs with
  | nil => exact .pure _
  | cons dir rest ih =>
      obtain ⟨path, modified⟩ := dir
      have hrest := ih fun d hd => h d (List.mem_cons_of_mem _ hd)
      unfold removeDirs
      refine .bind (.gets _) fun dir => ?_
      cases dir with
      | none => exact hrest
      | some d => exact .bind (h (path, modified) List.mem_cons_self) fun _ => hrest

/-- The cleanup reads the clock, lists directories and removes files and directories. -/
theorem within_run (hcall : ∀ wrap, Eff.Within R (Sys.external wrap))
    (hclock : Eff.Within R Sys.nowSecs) (hfile : ∀ path, Eff.Within R (removeFile path))
    (hdir : ∀ path, Eff.Within R (removeDirAll path)) (config : MergeCleanupConfig)
    (st : SnapshotMetaState) (now : Option UInt64) : Eff.Within R (run config st now) := by
  have htime : Eff.Within R (cleanupTime now) := by
    cases now with
    | none => exact hclock
    | some t => exact .pure _
  refine .bind htime fun now => .bind (within_cleanupDeltaFiles hfile config now _) fun _ =>
    .bind ?_ fun _ => .bind ?_ fun _ => .pure _
  · refine .bind (.gets _) fun dir => ?_
    cases dir with
    | none => exact .pure _
    | some d =>
        exact .bind (hcall _) fun _ => .bind (.gets _) fun dirs =>
          within_removeOldTempDirs hcall fun d _ _ => hdir d.1
  · refine .bind (.gets _) fun dir => ?_
    cases dir with
    | none => exact .pure _
    | some d =>
        exact .bind (hcall _) fun _ => .bind (.gets _) fun dirs =>
          .ite (.pure _) (.bind (within_removeDirs fun d _ => hdir d.1) fun _ => .pure _)

end

section

variable {R : World → World → Prop} [IsPreorder World R]

/-- Only the file itself is removed. -/
theorem within_removeFile (h : Sys.Stored R) (hfiles : ∀ w files, R w { w with files })
    (path : String) : Eff.Within R (removeFile path) := by
  refine .bind (Sys.within_external h _) fun _ => .bind (.gets _) fun file => ?_
  cases file with
  | none => exact .fail _
  | some bytes => exact .modify fun w => hfiles w _

/-- The cleanup leaves the tree alone. -/
theorem within_run_ofTree (h : Sys.OfTree R) (config : MergeCleanupConfig)
    (st : SnapshotMetaState) (now : Option UInt64) : Eff.Within R (run config st now) := by
  refine within_run (Sys.within_external h.stored) (Sys.within_nowSecs h.stored)
    (within_removeFile h.stored h.files) (fun path => ?_) config st now
  refine .bind (Sys.within_external h.stored _) fun _ => .modify fun w => ?_
  have hfiles := h.files w (w.files.filter fun p _ => !isBelow path p)
  exact trans_of R hfiles (h.dirs _ (w.dirs.filter fun p _ => !(p == path || isBelow path p)))

end

end MergeCleanup

/-! ## Operations of the metadata manager -/

theorem readsTree_storedProgress : Sys.ReadsTree storedProgress := by
  intro w w' h
  rw [storedProgress, storedProgress, h]

theorem consistencySeqKey_ne : consistencySeqKey ≠ mergeProgressRecord.key := by decide +kernel

namespace MetadataManager

theorem keeps_progress_sys {α : Type} {x : Sys α} (h : Eff.Keeps storedProgress x) :
    Eff.Keeps progress (sys x) := by
  intro m
  have hstored : storedProgress (x m.world).2 = storedProgress m.world := h m.world
  show (⟨m.mergeProgressState, storedProgress (x m.world).2⟩ : Progress) = m.progress
  rw [hstored]
  rfl

theorem keeps_progress_sys_of_tree {α : Type} {x : Sys α} (h : Eff.Keeps World.tree x) :
    Eff.Keeps progress (sys x) :=
  keeps_progress_sys (readsTree_storedProgress.keeps h)

theorem keeps_progress_shouldSpawn (ex : MergeExecutor) : Eff.Keeps progress ex.shouldSpawn :=
  .bind (.gets _) fun _ => .bind (keeps_progress_sys_of_tree
    (Sys.within_nowSecs readsTree_tree.ofTree.stored)) fun _ => .pure _

end MetadataManager

/-- A save changes the merge progress in memory and in the tree as it should, or in neither. -/
theorem MetaSave.progress_cases (op : MetaSave) (m : MetadataManager) :
    (op.call m).1.isOk = true ∧
        (op.call m).2.progress = ⟨(op.effect m.records).mergeProgress,
          (op.effect (Records.ofTree m.world.tree)).mergeProgress⟩ ∨
      (op.call m).1.isOk = false ∧ (op.call m).2.progress = m.progress := by
  rcases hrun : op.call m with ⟨r, m'⟩
  cases r with
  | ok u =>
      obtain ⟨hmemory, hstored⟩ := call_ok hrun
      refine Or.inl ⟨rfl, ?_⟩
      rw [← hmemory, ← hstored]
      rfl
  | error e =>
      obtain ⟨hmemory, hstored⟩ := call_error hrun
      refine Or.inr ⟨rfl, ?_⟩
      show (⟨m'.records.mergeProgress, storedProgress m'.world⟩ : Progress) = m.progress
      rw [hmemory, storedProgress, hstored]
      rfl

/-- A save of the snapshot state leaves the merge progress alone. -/
theorem keeps_progress_saveSnapshotState (st : SnapshotMetaState) :
    Eff.Keeps progress (saveSnapshotState st) := by
  intro m
  rcases MetaSave.progress_cases (.snapshot st) m with ⟨-, h⟩ | ⟨-, h⟩
  · exact h
  · exact h

theorem saveMergeProgressState_cases (st : MergeProgressState) (m : MetadataManager) :
    (saveMergeProgressState st m).1.isOk = true ∧
        (saveMergeProgressState st m).2.progress = ⟨st, st⟩ ∨
      (saveMergeProgressState st m).1.isOk = false ∧
        (saveMergeProgressState st m).2.progress = m.progress :=
  MetaSave.progress_cases (.mergeProgress st) m

theorem saveSnapshotAndMergeState_cases (s : SnapshotMetaState) (st : MergeProgressState)
    (m : MetadataManager) :
    (saveSnapshotAndMergeState s st m).1.isOk = true ∧
        (saveSnapshotAndMergeState s st m).2.progress = ⟨st, st⟩ ∨
      (saveSnapshotAndMergeState s st m).1.isOk = false ∧
        (saveSnapshotAndMergeState s st m).2.progress = m.progress :=
  MetaSave.progress_cases (.snapshotAndMerge s st) m

end OpenraftSurrealkv
