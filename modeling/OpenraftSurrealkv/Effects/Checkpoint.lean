import OpenraftSurrealkv.Effects.Faults

/-!
# What making a checkpoint does

A checkpoint is made in the directory that the first clock reading names.  The
tree goes there, and the sequence number goes under its key and into the manifest
of the same directory.  The metadata carry the last of the three readings.

Each lemma says what a successful operation did to the tree and the directories,
whatever outcomes of external calls it used up.
-/

namespace OpenraftSurrealkv

open Postcard

namespace World

def setDir (w : World) (path : String) (d : Dir) : World :=
  { w with dirs := w.dirs.insert path d }

/-- A directory, or the empty one that is made when it is missing. -/
def dirOrNew (w : World) (path : String) : Dir :=
  w.dirs[path]?.getD ⟨none, none, w.clock.headD 0⟩

@[simp] theorem get_setDir_self (w : World) (path : String) (d : Dir) :
    (w.setDir path d).dirs[path]? = some d :=
  Std.ExtTreeMap.getElem?_insert_self

theorem get_setDir_of_ne (w : World) {path other : String} (d : Dir) (h : other ≠ path) :
    (w.setDir path d).dirs[other]? = w.dirs[other]? :=
  OrdMap.get_insert_of_ne _ _ h.symm

theorem dirOrNew_of_get {w : World} {path : String} {d : Dir} (h : w.dirs[path]? = some d) :
    w.dirOrNew path = d := by
  rw [dirOrNew, h]
  rfl

end World

/-! ## Directories -/

namespace Sys

theorem createDirAll_ok {wrap : String → RaftError} {path : String} {w w' : World} {u : Unit}
    (h : createDirAll wrap path w = (.ok u, w')) :
    ∃ fs, w' = (w.setDir path (w.dirOrNew path)).withFaults fs := by
  obtain ⟨_, _, hcall, hdir⟩ := Eff.bind_eq_ok_iff.mp h
  obtain ⟨fs, rfl⟩ := external_ok hcall
  exact ⟨fs, (Prod.mk.inj hdir).2.symm⟩

theorem createCheckpoint_ok {path : String} {w w' : World} {seq : UInt64}
    (h : createCheckpoint path w = (.ok seq, w')) :
    w'.clock = w.clock ∧ w'.tree = w.tree ∧
      w'.dirs[path]? = some { w.dirOrNew path with tree := some w.tree } ∧
      ∀ other : String, other ≠ path → w'.dirs[other]? = w.dirs[other]? := by
  obtain ⟨_, _, hused, h⟩ := Eff.bind_eq_ok_iff.mp h
  obtain rfl := (Prod.mk.inj hused).2
  obtain ⟨_, _, hlinks, h⟩ := Eff.bind_eq_ok_iff.mp h
  obtain rfl := (Prod.mk.inj hlinks).2
  obtain ⟨_, _, hcall, h⟩ := Eff.bind_eq_ok_iff.mp h
  obtain ⟨fs, rfl⟩ := external_ok hcall
  obtain ⟨_, _, htask, h⟩ := Eff.bind_eq_ok_iff.mp h
  obtain ⟨gs, rfl⟩ := external_ok htask
  obtain ⟨_, _, htree, h⟩ := Eff.bind_eq_ok_iff.mp h
  obtain ⟨rfl, rfl⟩ := Eff.ok_inj htree
  obtain ⟨_, _, hdir, h⟩ := Eff.bind_eq_ok_iff.mp h
  obtain rfl := (Prod.mk.inj hdir).2
  obtain rfl := (Prod.mk.inj h).2
  have hfirst := World.get_setDir_self w path { w.dirOrNew path with tree := some ∅ }
  refine ⟨rfl, rfl, ?_, fun other hne => ?_⟩
  · refine (World.get_setDir_self _ _ _).trans (congrArg some ?_)
    exact congrArg (fun d : Dir => { d with tree := some w.tree }) (World.dirOrNew_of_get hfirst)
  · exact (World.get_setDir_of_ne _ _ hne).trans (World.get_setDir_of_ne _ _ hne)

end Sys

/-! ## The two copies of the sequence number -/

theorem writeSequenceNumber_ok {v : UInt64} {w w' : World} {u : Unit}
    (h : writeSequenceNumber v w = (.ok u, w')) :
    ∃ fs, w' = (w.withTree (w.tree.insert consistencySeqKey (toBeBytes v))).withFaults fs := by
  rw [writeSequenceNumber] at h
  obtain ⟨_, _, hthread, h⟩ := Eff.bind_eq_ok_iff.mp h
  obtain ⟨fs₁, rfl⟩ := Sys.external_ok hthread
  obtain ⟨_, _, hbegin, h⟩ := Eff.bind_eq_ok_iff.mp h
  obtain ⟨fs₂, rfl⟩ := Sys.external_ok hbegin
  obtain ⟨_, _, hset, h⟩ := Eff.bind_eq_ok_iff.mp h
  obtain ⟨-, -, rfl⟩ := Sys.setAll_eq_ok_iff.mp hset
  obtain ⟨_, _, hruntime, h⟩ := Eff.bind_eq_ok_iff.mp h
  obtain ⟨fs₃, rfl⟩ := Sys.external_ok hruntime
  obtain ⟨_, _, hcommit, h⟩ := Eff.bind_eq_ok_iff.mp h
  obtain ⟨fs₄, rfl⟩ := Sys.external_ok hcommit
  obtain ⟨_, _, hwrite, h⟩ := Eff.bind_eq_ok_iff.mp h
  obtain rfl := (Prod.mk.inj hwrite).2
  obtain ⟨fs, rfl⟩ := Sys.external_ok h
  exact ⟨fs, rfl⟩

/-- The number is under its key and at the end of the manifest. -/
theorem writeSequenceNumberDual_ok {dir : String} {v : UInt64} {w w' : World} {u : Unit}
    (h : writeSequenceNumberDual dir v w = (.ok u, w')) :
    w'.tree = w.tree.insert consistencySeqKey (toBeBytes v) ∧ w'.clock = w.clock.tail ∧
      w'.dirs[dir]? = some { w.dirOrNew dir with
        manifest := some (toBeBytes32 1 ++ toBeBytes (w.clock.headD 0) ++ toBeBytes v) } ∧
      ∀ other : String, other ≠ dir → w'.dirs[other]? = w.dirs[other]? := by
  rw [writeSequenceNumberDual] at h
  obtain ⟨_, _, hkey, h⟩ := Eff.bind_eq_ok_iff.mp h
  obtain ⟨fs₀, rfl⟩ := writeSequenceNumber_ok hkey
  obtain ⟨_, w₁, hdir, h⟩ := Eff.bind_eq_ok_iff.mp h
  obtain ⟨fs, rfl⟩ := Sys.createDirAll_ok hdir
  obtain ⟨_, _, hclock, h⟩ := Eff.bind_eq_ok_iff.mp h
  obtain ⟨rfl, rfl⟩ := Eff.ok_inj hclock
  obtain ⟨outcome, _, hcall, h⟩ := Eff.bind_eq_ok_iff.mp h
  cases outcome with
  | error e =>
      obtain ⟨_, _, _, hfail⟩ := Eff.bind_eq_ok_iff.mp h
      cases hfail
  | ok _ =>
  obtain ⟨gs, rfl⟩ := Sys.external_ok (Eff.attempt_eq_ok_iff.mp hcall)
  obtain rfl := (Prod.mk.inj h).2
  refine ⟨rfl, rfl, ?_, fun other hne => ?_⟩
  · refine (World.get_setDir_self _ _ _).trans ?_
    congr 2
    exact World.dirOrNew_of_get (World.get_setDir_self _ _ _)
  · exact (World.get_setDir_of_ne _ _ hne).trans (World.get_setDir_of_ne _ _ hne)

/-! ## Checkpoints -/

namespace CheckpointBuilder

/-- The directory of a checkpoint that is made in a given second. -/
def dirAt (base : String) (secs : UInt64) : String :=
  Sys.joinPath base ("checkpoint_" ++ toString secs)

/-- The reading that names the directory of a checkpoint. -/
def firstReading (w : World) : UInt64 := w.clock.headD 0

/-- The reading that the metadata carry. -/
def lastReading (w : World) : UInt64 := w.clock.tail.tail.headD 0

theorem dirAt_inj {base : String} {t t' : UInt64} : dirAt base t = dirAt base t' ↔ t = t' := by
  refine ⟨fun h => ?_, congrArg _⟩
  have hchars := congrArg String.toList h
  simp only [dirAt, Sys.joinPath, String.toList_append, List.append_assoc,
    List.append_cancel_left_eq] at hchars
  exact toString_inj hchars

theorem dirAt_ne_base (base : String) (t : UInt64) : dirAt base t ≠ base := by
  intro h
  have hlength := congrArg String.length h
  simp only [dirAt, Sys.joinPath, String.length_append] at hlength
  have hslash : "/".length = 1 := rfl
  omega

/-- A call made a checkpoint with its manifest in a directory, and beside the base directory it
touched no other.  A directory that was not used for a checkpoint before has the tree. -/
structure Wrote (base path : String) (sequenceNumber : UInt64) (w w' : World) : Prop where
  content : ∃ d timestamp, w'.dirs[path]? = some d ∧ d.tree.isSome ∧
    (Sys.hasCheckpoint path w = false → d.tree = some w.tree) ∧
    d.manifest = some (toBeBytes32 1 ++ toBeBytes timestamp ++ toBeBytes sequenceNumber)
  others : ∀ other : String, other ≠ path → other ≠ base → w'.dirs[other]? = w.dirs[other]?

/-- What a successful call did. -/
theorem create_ok {base : String} {appliedIndex term : UInt64} {w w' : World}
    {m : CheckpointMetadata} (h : create base appliedIndex term w = (.ok m, w')) :
    m.path = dirAt base (lastReading w) ∧
      Wrote base (dirAt base (firstReading w)) m.sequenceNumber w w' := by
  rw [create] at h
  obtain ⟨_, _, hbase, h⟩ := Eff.bind_eq_ok_iff.mp h
  obtain ⟨fs, rfl⟩ := Sys.createDirAll_ok hbase
  obtain ⟨_, _, hfirst, h⟩ := Eff.bind_eq_ok_iff.mp h
  obtain ⟨rfl, rfl⟩ := Eff.ok_inj hfirst
  obtain ⟨_, _, hpath, h⟩ := Eff.bind_eq_ok_iff.mp h
  obtain ⟨gs, rfl⟩ := Sys.createDirAll_ok hpath
  obtain ⟨seq, w₁, hcheckpoint, h⟩ := Eff.bind_eq_ok_iff.mp h
  obtain ⟨hclock₁, htree₁, hdir₁, hothers₁⟩ := Sys.createCheckpoint_ok hcheckpoint
  obtain ⟨_, _, hseq, h⟩ := Eff.bind_eq_ok_iff.mp h
  obtain ⟨rfl, rfl⟩ := Eff.ok_inj hseq
  obtain ⟨_, w₂, hwrite, h⟩ := Eff.bind_eq_ok_iff.mp h
  obtain ⟨-, hclock, hdir, hothers⟩ := writeSequenceNumberDual_ok hwrite
  obtain ⟨rfl, rfl⟩ := Eff.ok_inj h
  have htree := congrArg Dir.tree (World.dirOrNew_of_get hdir₁)
  refine ⟨?_, ⟨_, _, hdir, congrArg Option.isSome htree, fun _ => htree, rfl⟩,
    fun other hne hbase => ?_⟩
  · change dirAt base (w₂.clock.headD 0) = _
    rw [hclock, hclock₁]
    rfl
  · refine (hothers other hne).trans ((hothers₁ other hne).trans ?_)
    refine (World.get_setDir_of_ne _ _ hne).trans ?_
    exact World.get_setDir_of_ne _ _ hbase

end CheckpointBuilder

end OpenraftSurrealkv
