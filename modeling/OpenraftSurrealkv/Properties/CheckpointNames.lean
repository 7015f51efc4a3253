import OpenraftSurrealkv.Effects.Checkpoint

/-!
# The names of checkpoint directories

`CheckpointBuilder.create` reads the clock three times.  The first reading names
the directory that it writes, the second goes into the manifest and the third into
the metadata that it returns.  So the metadata name the directory that was written
exactly when the first and the third reading agree, and a later checkpoint goes
into the directory of an earlier one exactly when it begins in the second of that
one's first reading.
-/

namespace OpenraftSurrealkv

namespace CheckpointBuilder

/-- A world with an empty disk, in which no call fails, and with clock readings to come. -/
def emptyDisk (clock : List UInt64) : World :=
  ⟨∅, ∅, ∅, clock, [], [], [], [], false, false⟩

theorem create_emptyDisk (base : String) (appliedIndex term : UInt64) (clock : List UInt64) :
    ∃ m w', create base appliedIndex term (emptyDisk clock) = (.ok m, w') :=
  ⟨_, _, rfl⟩

/-! ## One checkpoint -/

/-- The metadata name the directory that was written exactly when the clock shows the same second
at its first and its last reading. -/
theorem metadata_names_written_iff (base : String) (appliedIndex term : UInt64)
    (clock : List UInt64) :
    (∀ (w w' : World) (m : CheckpointMetadata), w.clock = clock →
        create base appliedIndex term w = (.ok m, w') →
        Wrote base m.path m.sequenceNumber w w') ↔
      clock.headD 0 = clock.tail.tail.headD 0 := by
  constructor
  · intro h
    obtain ⟨m, w', hrun⟩ := create_emptyDisk base appliedIndex term clock
    obtain ⟨hpath, hwrote⟩ := create_ok hrun
    obtain ⟨d, _, hdir, _⟩ := (h _ w' m rfl hrun).content
    by_contra hne
    -- Only the directory of the first reading and the base directory exist.
    have hother : w'.dirs[m.path]? = none := by
      rw [hpath]
      exact hwrote.others _ (fun heq => hne (dirAt_inj.mp heq).symm) (dirAt_ne_base _ _)
    rw [hdir] at hother
    cases hother
  · rintro hsame w w' m rfl hrun
    obtain ⟨hpath, hwrote⟩ := create_ok hrun
    rw [hpath, show lastReading w = firstReading w from hsame.symm]
    exact hwrote

/-- A tick between the readings: the checkpoint is in `checkpoint_1`, the metadata say
`checkpoint_2`, which does not exist. -/
theorem tick_loses_checkpoint :
    ∃ m w', create "c" 7 1 (emptyDisk [1, 1, 2]) = (.ok m, w') ∧ m.path = "c/checkpoint_2" ∧
      Wrote "c" "c/checkpoint_1" m.sequenceNumber (emptyDisk [1, 1, 2]) w' ∧
      w'.dirs["c/checkpoint_2"]? = none := by
  obtain ⟨m, w', hrun⟩ := create_emptyDisk "c" 7 1 [1, 1, 2]
  obtain ⟨hpath, hwrote⟩ := create_ok hrun
  exact ⟨m, w', hrun, hpath, hwrote, hwrote.others "c/checkpoint_2" (by decide) (by decide)⟩

/-! ## Several checkpoints -/

/-- A successful call on a base directory, in some world. -/
structure Call (base : String) where
  appliedIndex : UInt64
  term : UInt64
  before : World
  after : World
  metadata : CheckpointMetadata
  ok : create base appliedIndex term before = (.ok metadata, after)

/-- The directory that a call wrote (`Call.wrote`). -/
def Call.written {base : String} (c : Call base) : String := dirAt base (firstReading c.before)

theorem Call.wrote {base : String} (c : Call base) :
    Wrote base c.written c.metadata.sequenceNumber c.before c.after :=
  (create_ok c.ok).2

/-- Along every sequence of calls, a later one goes into another directory than the one that an
earlier call wrote, and than the one that its metadata name, exactly when it begins in another
second than that of the earlier call's first and last reading. -/
theorem calls_keep_apart_iff {base : String} (calls : List (Call base)) :
    (∀ c ∈ calls, Wrote base c.written c.metadata.sequenceNumber c.before c.after) ∧
      (calls.Pairwise (fun c d => d.written ≠ c.written ∧ d.written ≠ c.metadata.path) ↔
        calls.Pairwise fun c d =>
          firstReading d.before ≠ firstReading c.before ∧
            firstReading d.before ≠ lastReading c.before) := by
  refine ⟨fun c _ => c.wrote, ?_⟩
  have hpair : ∀ c d : Call base,
      (d.written ≠ c.written ∧ d.written ≠ c.metadata.path) ↔
        (firstReading d.before ≠ firstReading c.before ∧
          firstReading d.before ≠ lastReading c.before) := by
    intro c d
    rw [Call.written, Call.written, (create_ok c.ok).1, ne_eq, dirAt_inj, ne_eq, dirAt_inj]
  simp only [hpair]

/-- Two checkpoints of different trees within one second share a directory, and the second one
replaces the first. -/
theorem same_second_shares_directory :
    let first := create "c" 7 1 (emptyDisk [1, 1, 1, 1, 1, 1])
    let second := create "c" 8 1 (first.2.withTree ((∅ : Tree).insert [1] [2]))
    first.1 = .ok ⟨7, 1, 0, 1, 0, "c", 0⟩ ∧ second.1 = .ok ⟨8, 1, 0, 1, 0, "c", 0⟩ ∧
      (first.2.dirs["c/checkpoint_1"]?.bind Dir.tree).map (fun t => t.contains [1]) =
        some false ∧
      (second.2.dirs["c/checkpoint_1"]?.bind Dir.tree).map (fun t => t.contains [1]) =
        some true := by
  decide +kernel

end CheckpointBuilder

end OpenraftSurrealkv
