import OpenraftSurrealkv.Effects.Cleanup
import OpenraftSurrealkv.Effects.Open
import OpenraftSurrealkv.Snapshot.Stored

/-!
# The files of merged deltas

A merge task folds the chain into the checkpoint before it cleans up, and the
cleanup looks for delta files in the state that it is given.  The chain of that
state is empty.  So the cleanup removes no delta file, and a task that merged
files that are old enough leaves them and reports none.
-/

namespace OpenraftSurrealkv

open Postcard

/-! ## The cleanup of a folded chain -/

namespace MergeCleanup

theorem removedDeltaFiles_of_nil {config : MergeCleanupConfig} {st : SnapshotMetaState}
    {now : Option UInt64} {w w' : World} {report : CleanupReport} (hst : st.deltaChain = [])
    (h : run config st now w = (.ok report, w')) : report.removedDeltaFiles = 0 := by
  obtain ⟨t, w₁, _, h⟩ := Eff.bind_eq_ok_iff.mp h
  rw [hst] at h
  obtain ⟨removed, w₂, hdeltas, h⟩ := Eff.bind_eq_ok_iff.mp h
  cases hdeltas
  obtain ⟨_, _, _, h⟩ := Eff.bind_eq_ok_iff.mp h
  obtain ⟨_, _, _, h⟩ := Eff.bind_eq_ok_iff.mp h
  cases h
  rfl

/-- The cleanup makes no file. -/
theorem run_keeps_absent (p : String) (config : MergeCleanupConfig) (st : SnapshotMetaState)
    (now : Option UInt64) :
    Eff.Within (Eff.Preserved fun w : World => w.files[p]? = none) (run config st now) := by
  have hcall : ∀ wrap, Eff.Within (Eff.Preserved fun w : World => w.files[p]? = none)
      (Sys.external wrap) :=
    Sys.within_external fun _ _ _ _ _ _ h => h
  refine within_run hcall (fun _ h => h) (fun path => ?_) (fun path => ?_) config st now
  · refine .bind (hcall _) fun _ => .bind (.gets _) fun file => ?_
    cases file with
    | none => exact .fail _
    | some bytes =>
        refine .modify fun w h => ?_
        show (w.files.erase path)[p]? = none
        rw [OrdMap.get_erase, h, ite_self]
  · refine .bind (hcall _) fun _ => .modify fun w h => ?_
    show (w.files.filter _)[p]? = none
    rw [Std.ExtTreeMap.getElem?_filter', h]
    rfl

end MergeCleanup

/-! ## A merge task -/

namespace MergeExecutor

/-- A task that succeeds ends with the cleanup of a folded chain. -/
theorem mergeLoop_ok {ar : Archiver} {ex : MergeExecutor} {trigger : MergeTrigger}
    {started : UInt64} {fuel : Nat} {previous : UInt8} {m m' : MetadataManager}
    {result : MergeTaskResult}
    (h : mergeLoop ar ex trigger started fuel previous m = (.ok result, m')) :
    ∃ st w, st.deltaChain = [] ∧ w.files = m.files ∧
      MergeCleanup.run ex.cleanup st (some started) w = (.ok result.cleanupReport, m'.world) := by
  induction fuel generalizing previous m with
  | zero => cases h
  | succ fuel ih =>
      unfold mergeLoop at h
      obtain ⟨_, m₁, hsave, h⟩ := Eff.bind_eq_ok_iff.mp h
      have hfiles₁ : m₁.files = m.files :=
        congrArg (fun u => u.fileState.1) ((keeps_untouched_saveMergeProgressState _).of_run hsave)
      obtain ⟨st, m₂, hst, h⟩ := Eff.bind_eq_ok_iff.mp h
      cases hst
      obtain ⟨attempt, m₂, hattempt, h⟩ := Eff.bind_eq_ok_iff.mp h
      have hfiles₂ : m₂.files = m₁.files := by
        rw [← (Prod.mk.inj hattempt).2]
        exact congrArg (fun u => u.fileState.1) (keeps_untouched_sys
          (within_executeMerge Sys.ofFiles_fileState ar m₁.snapshotState ex.backend) m₁)
      cases attempt with
      | error err =>
          simp only at h
          split at h
          next =>
              obtain ⟨_, _, _, h⟩ := Eff.bind_eq_ok_iff.mp h
              cases h
          next =>
              obtain ⟨st, w, hnil, hw, hrun⟩ := ih h
              exact ⟨st, w, hnil, hw.trans (hfiles₂.trans hfiles₁), hrun⟩
      | ok exec =>
          obtain ⟨_, m₃, hmerged, h⟩ := Eff.bind_eq_ok_iff.mp h
          obtain ⟨report, m₄, hcleanup, h⟩ := Eff.bind_eq_ok_iff.mp h
          obtain ⟨w', hrun, rfl⟩ := MetadataManager.sys_ok hcleanup
          cases h
          refine ⟨_, m₃.world, rfl, ?_, hrun⟩
          rcases saveSnapshotAndMergeState_outcome _ _ m₂ with
            ⟨e, _, herr, _⟩ | ⟨saved, hok, _, _, hfiles₃⟩
          · rw [hmerged] at herr
            cases herr
          · obtain rfl : m₃ = saved := (Prod.mk.inj (hmerged.symm.trans hok)).2
            exact hfiles₃.trans (hfiles₂.trans hfiles₁)

/-- The files of the deltas of a chain that are old enough to be removed. -/
def reclaimable (config : MergeCleanupConfig) (started : UInt64) (chain : List DeltaInfo)
    (files : OrdMap String Bytes) : List String :=
  (files.toList.map Prod.fst).filter fun p => chain.any fun d =>
    d.filePath == some p && decide (config.maxDeltaAgeSecs ≤ saturatingSub started d.createdAt)

theorem mem_reclaimable {config : MergeCleanupConfig} {started : UInt64}
    {chain : List DeltaInfo} {files : OrdMap String Bytes} {d : DeltaInfo} {p : String}
    {bytes : Bytes} (hd : d ∈ chain) (hp : d.filePath = some p)
    (hage : config.maxDeltaAgeSecs ≤ saturatingSub started d.createdAt)
    (hfile : files[p]? = some bytes) : p ∈ reclaimable config started chain files := by
  refine List.mem_filter.mpr ⟨List.mem_map.mpr ⟨(p, bytes), OrdMap.mem_toList.mpr hfile, rfl⟩, ?_⟩
  exact List.any_eq_true.mpr ⟨d, hd, by simp [hp, hage]⟩

/-- A task that merged leaves no file of a merged delta that is old enough, and reports as many
removed files as there were, exactly when there was none. -/
theorem merged_files_reclaimed_iff {ar : Archiver} {ex : MergeExecutor} {trigger : MergeTrigger}
    {m m' : MetadataManager} {result : MergeTaskResult}
    (h : ex.runMergeLoop ar trigger m = (.ok result, m')) :
    ((∀ d ∈ m.snapshotState.deltaChain, ∀ p, d.filePath = some p →
        ex.cleanup.maxDeltaAgeSecs ≤ saturatingSub (m.world.clock.headD 0) d.createdAt →
        m'.files[p]? = none) ∧
      result.cleanupReport.removedDeltaFiles =
        (reclaimable ex.cleanup (m.world.clock.headD 0) m.snapshotState.deltaChain
          m.files).length) ↔
      reclaimable ex.cleanup (m.world.clock.headD 0) m.snapshotState.deltaChain m.files = [] := by
  obtain ⟨started, m₁, hclock, h⟩ := Eff.bind_eq_ok_iff.mp h
  cases hclock
  obtain ⟨st, w, hnil, hfiles, hrun⟩ := mergeLoop_ok h
  have hreport := MergeCleanup.removedDeltaFiles_of_nil hnil hrun
  constructor
  · rintro ⟨-, hcount⟩
    exact List.eq_nil_of_length_eq_zero (hcount.symm.trans hreport)
  · intro hnone
    refine ⟨fun d hd p hp hage => ?_, by rw [hreport, hnone]; rfl⟩
    have hfiles' : w.files = m.files := hfiles
    have habsent : w.files[p]? = none := by
      rw [hfiles']
      by_contra hsome
      obtain ⟨bytes, hbytes⟩ := Option.ne_none_iff_exists'.mp hsome
      have hmem := mem_reclaimable hd hp hage hbytes
      rw [hnone] at hmem
      cases hmem
    exact (MergeCleanup.run_keeps_absent p ex.cleanup st _).of_run hrun habsent

/-- A checkpoint with one delta of the second zero on top, and the file of the delta. -/
def oneDelta (now : UInt64) : MetadataManager where
  world := { SurrealStorage.emptyWorld [now] with
    files := (∅ : OrdMap String Bytes).insert "delta" [1] }
  votingState := .new
  appliedState := .new
  snapshotState := ⟨some (.new 1 1 1 0), [⟨2, 2, 1, 0, some "delta"⟩], 1⟩
  mergeProgressState := .new

/-- A quarter of an hour after the delta its file is too young: the task merges the delta and
has nothing to remove. -/
theorem nothing_to_reclaim :
    ∃ result m', (MergeExecutor.new .new .default).runMergeLoop .stored .timeWindowExpired
        (oneDelta 900) = (.ok result, m') ∧
      result.merged = true ∧ m'.files["delta"]? = some [1] ∧
      result.cleanupReport.removedDeltaFiles = 0 := by
  have hrun : ((MergeExecutor.new .new .default).runMergeLoop .stored .timeWindowExpired).succeeds
      (oneDelta 900) (fun result m' => decide (result.merged = true ∧
        m'.files["delta"]? = some [1])) = true := by decide +kernel
  obtain ⟨result, m', hrun, htest⟩ := Eff.exists_of_succeeds hrun
  obtain ⟨hmerged, hfile⟩ := of_decide_eq_true htest
  have hcount := ((merged_files_reclaimed_iff hrun).mpr (by decide +kernel)).2
  exact ⟨result, m', hrun, hmerged, hfile, hcount.trans (by decide +kernel)⟩

/-- A day later the file is old enough.  The task merges the delta, reports no removed file and
leaves the file where it is. -/
theorem merged_file_left :
    reclaimable .default 100000 (oneDelta 100000).snapshotState.deltaChain
        (oneDelta 100000).files = ["delta"] ∧
      ∃ result m', (MergeExecutor.new .new .default).runMergeLoop .stored .timeWindowExpired
          (oneDelta 100000) = (.ok result, m') ∧
        result.merged = true ∧ result.cleanupReport.removedDeltaFiles = 0 ∧
        m'.files["delta"]? = some [1] := by
  refine ⟨by decide +kernel, ?_⟩
  have hrun : ((MergeExecutor.new .new .default).runMergeLoop .stored .timeWindowExpired).succeeds
      (oneDelta 100000) (fun result m' => decide (result.merged = true ∧
        result.cleanupReport.removedDeltaFiles = 0 ∧ m'.files["delta"]? = some [1])) = true := by
    decide +kernel
  obtain ⟨result, m', hrun, htest⟩ := Eff.exists_of_succeeds hrun
  exact ⟨result, m', hrun, of_decide_eq_true htest⟩

end MergeExecutor

end OpenraftSurrealkv
