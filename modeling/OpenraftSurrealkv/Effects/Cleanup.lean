import OpenraftSurrealkv.Effects.Install
import OpenraftSurrealkv.Effects.Progress

/-!
# What the cleanup removes

The removal of a directory takes all below it along (`covers`).  Each loop of the
cleanup has a list of directories to remove.  Whatever happens, it leaves a
directory alone that nothing in its list covers.  When it succeeds, all that the
list covers is gone (`removing`), and in a quiet world it succeeds.
-/

namespace OpenraftSurrealkv

namespace MergeCleanup

/-! ## Removing directories from a map -/

/-- Whether the removal of the directory `q` takes the path `p` along. -/
def covers (q p : String) : Bool := p == q || isBelow q p

theorem isBelow_iff {q p : String} : isBelow q p = true ↔ (q ++ "/").toList <+: p.toList :=
  List.isPrefixOf_iff_prefix

theorem covers_trans {a b c : String} (hab : covers a b = true) (hbc : covers b c = true) :
    covers a c = true := by
  simp only [covers, Bool.or_eq_true, beq_iff_eq] at *
  rcases hab with rfl | hab
  · exact hbc
  rcases hbc with rfl | hbc
  · exact Or.inr hab
  rw [isBelow_iff] at *
  have hb : b.toList <+: (b ++ "/").toList := by
    rw [String.toList_append]
    exact List.prefix_append _ _
  exact Or.inr (hab.trans (hb.trans hbc))

/-- The directories that are left when those at the paths are removed. -/
def removing (paths : List String) (dirs : OrdMap String Dir) : OrdMap String Dir :=
  dirs.filter fun p _ => !paths.any fun q => covers q p

theorem get_removing (paths : List String) (dirs : OrdMap String Dir) (p : String) :
    (removing paths dirs)[p]? = if ∃ q ∈ paths, covers q p = true then none else dirs[p]? := by
  rw [removing, Std.ExtTreeMap.getElem?_filter']
  simp only [← List.any_eq_true]
  cases paths.any fun q => covers q p with
  | true => simp
  | false => cases dirs[p]? <;> rfl

theorem get_removing_of_covers {paths : List String} {q p : String} (dirs : OrdMap String Dir)
    (hq : q ∈ paths) (hp : covers q p = true) : (removing paths dirs)[p]? = none := by
  rw [get_removing, if_pos ⟨q, hq, hp⟩]

theorem get_removing_of_not_covers {paths : List String} (dirs : OrdMap String Dir) {p : String}
    (h : ∀ q ∈ paths, ¬ covers q p = true) : (removing paths dirs)[p]? = dirs[p]? := by
  rw [get_removing, if_neg]
  rintro ⟨q, hq, hp⟩
  exact h q hq hp

theorem removing_nil (dirs : OrdMap String Dir) : removing [] dirs = dirs :=
  Std.ExtTreeMap.ext_getElem? fun _ => get_removing_of_not_covers dirs fun _ h => nomatch h

theorem removing_cons (q : String) (paths : List String) (dirs : OrdMap String Dir) :
    removing (q :: paths) dirs = removing paths (removing [q] dirs) := by
  refine Std.ExtTreeMap.ext_getElem? fun p => ?_
  simp only [get_removing, List.exists_mem_cons_iff, List.not_mem_nil, false_and, exists_false,
    or_false]
  by_cases hq : covers q p = true
  · simp [hq]
  · simp [hq]

theorem removing_perm {paths paths' : List String} (h : paths.Perm paths')
    (dirs : OrdMap String Dir) : removing paths dirs = removing paths' dirs := by
  refine Std.ExtTreeMap.ext_getElem? fun p => ?_
  simp only [get_removing, h.mem_iff]

/-- Where nothing is, there is nothing to remove. -/
theorem removing_eq_self {q : String} {dirs : OrdMap String Dir}
    (h : ∀ p, covers q p = true → dirs[p]? = none) : removing [q] dirs = dirs := by
  refine Std.ExtTreeMap.ext_getElem? fun p => ?_
  rw [get_removing]
  split
  next hp =>
      obtain ⟨_, hmem, hp⟩ := hp
      rw [List.mem_singleton.mp hmem] at hp
      exact (h p hp).symm
  next => rfl

/-! ## The removal of one directory -/

theorem removeDirAll_ok {path : String} {w w' : World} {u : Unit}
    (h : removeDirAll path w = (.ok u, w')) : w'.dirs = removing [path] w.dirs := by
  obtain ⟨_, w₁, hcall, h⟩ := Eff.bind_eq_ok_iff.mp h
  obtain ⟨fs, rfl⟩ := Sys.external_ok hcall
  cases h
  simp [removing, covers, World.withFaults]

theorem total_removeDirAll (path : String) :
    Eff.Total World.Quiet (removeDirAll path) fun _ => World.Quiet :=
  .bind (total_external _) fun _ => .modify fun _ h => h

theorem keeps_dirs_cleanupDeltaFiles (config : MergeCleanupConfig) (now : UInt64)
    (chain : List DeltaInfo) : Eff.Keeps World.dirs (cleanupDeltaFiles config now chain) :=
  within_cleanupDeltaFiles (within_removeFile (fun _ _ _ _ _ _ => rfl) fun _ _ => rfl) config now
    chain

theorem quiet_removeFile (path : String) :
    Eff.Within (Eff.Preserved World.Quiet) (removeFile path) := by
  refine .bind (fun w hw => ?_) fun _ => .bind (.gets _) fun file => ?_
  · rw [Sys.external_quiet _ hw]
    exact hw
  cases file with
  | none => exact .fail _
  | some bytes => exact .modify fun _ hw => hw

/-- A file that cannot be removed does not stop the cleanup. -/
theorem total_cleanupDeltaFiles (config : MergeCleanupConfig) (now : UInt64) :
    ∀ chain : List DeltaInfo,
      Eff.Total World.Quiet (cleanupDeltaFiles config now chain) fun _ => World.Quiet
  | [] => .pure fun _ h => h
  | delta :: rest => by
      have ih := total_cleanupDeltaFiles config now rest
      unfold cleanupDeltaFiles
      cases delta.filePath with
      | none => exact ih
      | some path =>
          refine .ite ih (.bind (.attempt (quiet_removeFile path)) fun result => ?_)
          cases result with
          | ok u => exact .bind ih fun _ => .pure fun _ h => h
          | error e => exact ih

/-! ## Temporary directories -/

section

variable (config : MergeCleanupConfig) (now : UInt64)

/-- Whether a temporary directory is old enough to be removed. -/
def isOld (dir : String × UInt64) : Bool := config.maxTempAgeSecs ≤ saturatingSub now dir.2

/-- The paths of the directories that are old enough. -/
def oldPaths (dirs : List (String × UInt64)) : List String :=
  (dirs.filter (isOld config now)).map Prod.fst

theorem oldPaths_perm {dirs dirs' : List (String × UInt64)} (h : dirs.Perm dirs') :
    (oldPaths config now dirs).Perm (oldPaths config now dirs') :=
  (h.filter _).map _

variable {config now}

theorem oldPaths_cons_of_old {dir : String × UInt64} {dirs : List (String × UInt64)}
    (h : config.maxTempAgeSecs ≤ saturatingSub now dir.2) :
    oldPaths config now (dir :: dirs) = dir.1 :: oldPaths config now dirs := by
  simp [oldPaths, isOld, h]

theorem oldPaths_cons_of_not_old {dir : String × UInt64} {dirs : List (String × UInt64)}
    (h : ¬ config.maxTempAgeSecs ≤ saturatingSub now dir.2) :
    oldPaths config now (dir :: dirs) = oldPaths config now dirs := by
  simp [oldPaths, isOld, h]

theorem removeOldTempDirs_ok {dirs : List (String × UInt64)} {w w' : World} {n : Nat}
    (h : removeOldTempDirs config now dirs w = (.ok n, w')) :
    w'.dirs = removing (oldPaths config now dirs) w.dirs := by
  induction dirs generalizing w w' n with
  | nil =>
      cases h
      exact (removing_nil w.dirs).symm
  | cons dir rest ih =>
      obtain ⟨path, modified⟩ := dir
      obtain ⟨_, w₁, hcall, h⟩ := Eff.bind_eq_ok_iff.mp h
      obtain ⟨fs, rfl⟩ := Sys.external_ok hcall
      split at h
      next hold =>
          obtain ⟨_, w₂, hremove, h⟩ := Eff.bind_eq_ok_iff.mp h
          obtain ⟨k, w₃, hrest, h⟩ := Eff.bind_eq_ok_iff.mp h
          cases h
          rw [ih hrest, removeDirAll_ok hremove, oldPaths_cons_of_old hold, ← removing_cons]
          rfl
      next hnew =>
          rw [ih h, oldPaths_cons_of_not_old hnew]
          rfl

variable (config now)

theorem total_removeOldTempDirs :
    ∀ dirs : List (String × UInt64),
      Eff.Total World.Quiet (removeOldTempDirs config now dirs) fun _ => World.Quiet
  | [] => .pure fun _ h => h
  | (path, _) :: rest =>
      have ih := total_removeOldTempDirs rest
      .bind (total_external _) fun _ =>
        .ite (.bind (total_removeDirAll path) fun _ => .bind ih fun _ => .pure fun _ h => h) ih

end

/-! ## Checkpoint directories -/

/-- A directory is there, or nothing below it is. -/
def ThereOrGone (dirs : OrdMap String Dir) (path : String) : Prop :=
  dirs[path]? = none → ∀ p, covers path p = true → dirs[p]? = none

/-- The removal of a directory leaves none behind without its parent. -/
theorem ThereOrGone.removing {dirs : OrdMap String Dir} {path : String}
    (h : ThereOrGone dirs path) (q : String) : ThereOrGone (removing [q] dirs) path := by
  intro hnone p hp
  by_cases hq : covers q path = true
  · exact get_removing_of_covers dirs List.mem_cons_self (covers_trans hq hp)
  · rw [get_removing_of_not_covers dirs (by simpa using hq)] at hnone
    rw [get_removing, h hnone p hp, ite_self]

/-- In a quiet world the loop removes all its list, and nothing else. -/
theorem removeDirs_quiet {dirs : List (String × UInt64)} {w : World} (hw : w.Quiet)
    (hdirs : ∀ dir ∈ dirs, ThereOrGone w.dirs dir.1) :
    ∃ w', removeDirs dirs w = (.ok (), w') ∧ w'.dirs = removing (dirs.map Prod.fst) w.dirs := by
  induction dirs generalizing w with
  | nil => exact ⟨w, rfl, (removing_nil w.dirs).symm⟩
  | cons dir rest ih =>
      obtain ⟨path, modified⟩ := dir
      have hpath := hdirs _ List.mem_cons_self
      rw [List.map_cons, removing_cons, removeDirs, Eff.bind_of_ok (Eff.gets_run _ w)]
      cases hdir : w.dirs[path]? with
      | none =>
          rw [removing_eq_self (hpath hdir)]
          exact ih hw fun dir h => hdirs dir (List.mem_cons_of_mem _ h)
      | some d =>
          obtain ⟨u, w₁, hremove, hquiet⟩ := total_removeDirAll path w hw
          have hleft := removeDirAll_ok hremove
          simp only [Eff.bind_of_ok hremove, ← hleft]
          refine ih hquiet fun dir h => ?_
          rw [hleft]
          exact (hdirs dir (List.mem_cons_of_mem _ h)).removing path

end MergeCleanup

end OpenraftSurrealkv
