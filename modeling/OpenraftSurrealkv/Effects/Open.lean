import OpenraftSurrealkv.Effects.Log

/-!
# Opening a store

`SurrealStorage.new` recovers the metadata from the tree and starts with an
empty map, empty logs and the default membership.  A fresh store is one opened
on an empty tree.
-/

namespace OpenraftSurrealkv

namespace SurrealStorage

/-- The store that opens on a world, when loading succeeds. -/
def opened (w : World) (fs : List (Option String)) : SurrealStorage where
  metadata := {
    world := w.withFaults fs
    votingState := MetadataManager.votingRecord.recovered w.tree .new
    appliedState := MetadataManager.appliedRecord.recovered w.tree .new
    snapshotState := MetadataManager.snapshotRecord.recovered w.tree .new
    mergeProgressState := MetadataManager.mergeProgressRecord.recovered w.tree .new }
  stateMachine := ∅
  raftLogs := ∅
  raftEntries := ∅
  lastPurgedLogId := none
  lastMembership := defaultStoredMembership
  currentSnapshot := none
  mergeExecutor := none
  spawned := []

theorem new_ok {w : World} {n : SurrealStorage} (h : new w = .ok n) : ∃ fs, n = opened w fs := by
  rw [new] at h
  rcases hload : MetadataManager.load (MetadataManager.new w) with ⟨r, m⟩
  rw [hload] at h
  cases r with
  | error e => cases h
  | ok u =>
      obtain ⟨fs, rfl⟩ := MetadataManager.load_ok hload
      cases h
      exact ⟨fs, rfl⟩

/-- A store opened on an empty tree, with or without background merges. -/
def Fresh (n : SurrealStorage) : Prop :=
  ∃ w n₀ ex, w.tree = ∅ ∧ new w = .ok n₀ ∧ n = { n₀ with mergeExecutor := ex }

/-- A world with nothing in it, no failure to come, and the given clock readings. -/
def emptyWorld (clock : List UInt64) : World where
  tree := ∅
  files := ∅
  dirs := ∅
  clock := clock
  sequence := []
  uuids := []
  faults := []
  cuts := []
  cutOff := false
  reused := false

/-- The store on an empty world. -/
def fresh (clock : List UInt64) : SurrealStorage := opened (emptyWorld clock) []

theorem recovered_empty {α : Type} (r : Record α) (a : α) : r.recovered ∅ a = a := by
  have hkey : (∅ : Tree)[r.key]? = none := Std.ExtTreeMap.getElem?_empty
  simp only [Record.recovered, Record.persisted, hkey]

theorem new_emptyWorld (clock : List UInt64) : new (emptyWorld clock) = .ok (fresh clock) := rfl

theorem fresh_fresh (clock : List UInt64) : Fresh (fresh clock) :=
  ⟨emptyWorld clock, fresh clock, none, rfl, new_emptyWorld clock, rfl⟩

/-- A fresh store has loaded nothing. -/
theorem Fresh.eq {n : SurrealStorage} (h : Fresh n) :
    ∃ w ex, w.tree = ∅ ∧ n = {
      metadata := MetadataManager.new w
      stateMachine := ∅
      raftLogs := ∅
      raftEntries := ∅
      lastPurgedLogId := none
      lastMembership := defaultStoredMembership
      currentSnapshot := none
      mergeExecutor := ex
      spawned := [] } := by
  obtain ⟨w, n₀, ex, htree, hnew, rfl⟩ := h
  obtain ⟨fs, rfl⟩ := new_ok hnew
  refine ⟨w.withFaults fs, ex, htree, ?_⟩
  simp only [opened, htree, recovered_empty]
  rfl

end SurrealStorage

end OpenraftSurrealkv
