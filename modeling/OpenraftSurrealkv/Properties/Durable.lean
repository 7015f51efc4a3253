import OpenraftSurrealkv.Effects.Durable
import OpenraftSurrealkv.Snapshot.Stored

/-!
# Runs with failures and restarts

Operations of the store with any failures of the calls they make, and restarts in
between.  A crash inside an operation is one of its failures followed by a restart:
the calls from the crash on fail, a write under way may leave its file cut off, and
the restart drops the memory.

Operations run one after another (`StoreStep`), or any number of builds and merges
run beside each other and beside the accesses of all other operations, one step at
a time (`BusyStep`).  A save is one step, its commit and its copy in memory
together.  Either way a restart finds the records that the memory held, as long as
no checkpoint was made in a directory that had been used for one: two full builds
within one second name the same directory, and the second one damages files that
the tree shares with the first.  If also no failing write has cut off a file that
was there, the files of the delta chain can be read.  They can then be replayed
unless one of their requests has the empty key.  The chain need not be the right
one: a merge can drop a delta that it did not see.
-/

namespace OpenraftSurrealkv

open Relation CheckpointMergeBackend

namespace SurrealStorage

/-! ## Runs -/

/-- An operation of the store with its arguments. -/
inductive StoreOperation where
  | append (entries : List Entry)
  | truncateAfter (lastLogId : Option LogId)
  | purge (logId : LogId)
  | saveVote (vote : Vote)
  | apply (entries : List Entry)
  | applyRequest (req : KVRequest)
  | appendLogEntry (term index : UInt64) (req : KVRequest)
  | buildSnapshot
  | buildSnapshotAuto (term : UInt64)
  | applyDeltaEntries (entries : List DeltaEntry)
  | installSnapshotAuto (snapshot : Snapshot)
  | installSnapshot (snapshotMeta : SnapshotMeta) (snapshot : Bytes)
  | recoverMergeState
  | runMergeLoop (ex : MergeExecutor) (trigger : MergeTrigger)

/-- The store after an operation, whatever came of it. -/
def StoreOperation.after (ar : Archiver) (n : SurrealStorage) : StoreOperation → SurrealStorage
  | .append entries => (SurrealStorage.append entries n).2
  | .truncateAfter lastLogId => (SurrealStorage.truncateAfter lastLogId n).2
  | .purge logId => (SurrealStorage.purge logId n).2
  | .saveVote vote => (SurrealStorage.saveVote vote n).2
  | .apply entries => (SurrealStorage.apply entries n).2
  | .applyRequest req => (SurrealStorage.applyRequest req n).2
  | .appendLogEntry term index req => (SurrealStorage.appendLogEntry term index req n).2
  | .buildSnapshot => (SurrealStorage.buildSnapshot ar n).2
  | .buildSnapshotAuto term => (SurrealStorage.buildSnapshotAuto ar term n).2
  | .applyDeltaEntries entries => (SurrealStorage.applyDeltaEntries entries n).2
  | .installSnapshotAuto snapshot => (SurrealStorage.installSnapshotAuto ar snapshot n).2
  | .installSnapshot snapshotMeta snapshot =>
      (SurrealStorage.installSnapshot ar snapshotMeta snapshot n).2
  | .recoverMergeState => (SurrealStorage.recoverMergeState n).2
  | .runMergeLoop ex trigger =>
      { n with metadata := (ex.runMergeLoop ar trigger n.metadata).2 }

/-- An operation, a restart, or a change outside that spares records and delta files. -/
inductive StoreStep (ar : Archiver) : SurrealStorage → SurrealStorage → Prop
  | call (n : SurrealStorage) (c : StoreOperation) : StoreStep ar n (c.after ar n)
  | restart {n n' : SurrealStorage} {w : World} (ex : Option MergeExecutor) :
      SameDisk n w → new w = .ok n' → StoreStep ar n { n' with mergeExecutor := ex }
  | outside {n : SurrealStorage} {w : World} :
      SameStored n.world w → StoreStep ar n { n with metadata := n.metadata.withWorld w }

/-- All operations but builds and merges are sequences of accesses. -/
theorem StoreOperation.after_cases (ar : Archiver) (n : SurrealStorage) (c : StoreOperation) :
    ReflTransGen Access n (c.after ar n) ∨ c = .buildSnapshot ∨
      (∃ term, c = .buildSnapshotAuto term) ∨ ∃ ex trigger, c = .runMergeLoop ex trigger := by
  cases c with
  | append entries => exact .inl (accesses_append entries n)
  | truncateAfter lastLogId => exact .inl (.single (.memory rfl rfl rfl rfl))
  | purge logId => exact .inl (.single (.memory rfl rfl rfl rfl))
  | saveVote vote => exact .inl (accesses_saveVote vote n)
  | apply entries => exact .inl (accesses_apply entries n)
  | applyRequest req => exact .inl (accesses_applyRequest req n)
  | appendLogEntry term index req => exact .inl (accesses_appendLogEntry term index req n)
  | buildSnapshot => exact .inr (.inl rfl)
  | buildSnapshotAuto term => exact .inr (.inr (.inl ⟨term, rfl⟩))
  | applyDeltaEntries entries => exact .inl (accesses_applyDeltaEntries entries n)
  | installSnapshotAuto snapshot => exact .inl (accesses_installSnapshotAuto ar snapshot n)
  | installSnapshot snapshotMeta snapshot =>
      exact .inl (accesses_installSnapshot ar snapshotMeta snapshot n)
  | recoverMergeState => exact .inl (accesses_recoverMergeState n)
  | runMergeLoop ex trigger => exact .inr (.inr (.inr ⟨ex, trigger, rfl⟩))

theorem Durable.call {ar : Archiver} {n : SurrealStorage} (h : Durable ar n) (c : StoreOperation) :
    Durable ar (c.after ar n) := by
  rcases c.after_cases ar n with haccesses | rfl | ⟨term, rfl⟩ | ⟨ex, trigger, rfl⟩
  · exact (Access.reaches (fun _ _ => Access.lasts) haccesses h).1
  · have hrun := ((alwaysLasts_buildSnapshotSteps ar n).run h).1
    rw [run_buildSnapshotSteps] at hrun
    exact hrun
  · have hrun := ((alwaysLasts_buildSnapshotAutoSteps ar term n).run h).1
    rw [run_buildSnapshotAutoSteps] at hrun
    exact hrun
  · exact h.merge rfl

theorem Durable.step {ar : Archiver} {n n' : SurrealStorage} (h : Durable ar n)
    (hstep : StoreStep ar n n') : Durable ar n' := by
  cases hstep with
  | call c => exact h.call c
  | restart ex hdisk hnew =>
      have hnext := h.restart hdisk hnew
      exact ⟨hnext.recorded, hnext.chain, hnext.records⟩
  | outside hstored => exact (Access.lasts (.outside hstored) h).1

/-- Every store that a run reaches is durable. -/
theorem Durable.run {ar : Archiver} {n₀ n : SurrealStorage} (h₀ : Fresh n₀)
    (hrun : ReflTransGen (StoreStep ar) n₀ n) : Durable ar n := by
  induction hrun with
  | refl => exact .fresh h₀
  | tail _ hstep ih => exact ih.step hstep

/-! ## Interleavings -/

/-- A call that makes its steps beside others: a build, or a merge whose cleanup spares the delta
files. -/
inductive Begins (ar : Archiver) : Steps Phase SurrealStorage RaftError Unit → Prop
  | buildSnapshot : Begins ar ((buildSnapshotSteps ar).andThen fun _ => .done (.ok ()))
  | buildSnapshotAuto (term : UInt64) :
      Begins ar ((buildSnapshotAutoSteps ar term).andThen fun _ => .done (.ok ()))
  | merge {ex : MergeExecutor} (trigger : MergeTrigger) : ex.cleanup.Spares →
      Begins ar ((mergeSteps ar ex trigger).andThen fun _ => .done (.ok ()))

/-- The store is opened again. -/
def Restarts (n n' : SurrealStorage) : Prop :=
  ∃ w n₁ ex, SameDisk n w ∧ new w = .ok n₁ ∧ n' = { n₁ with mergeExecutor := ex }

/-- A build or a merge begins or makes a step, another operation makes an access, or the store is
opened again and the calls are gone. -/
abbrev BusyStep (ar : Archiver) :
    Interleaving Phase SurrealStorage RaftError Unit →
      Interleaving Phase SurrealStorage RaftError Unit → Prop :=
  Interleaving.Step (Begins ar) Access Restarts

theorem Begins.alwaysLasts {ar : Archiver} {p : Steps Phase SurrealStorage RaftError Unit}
    (h : Begins ar p) (n : SurrealStorage) : AlwaysLasts ar p n := by
  cases h with
  | buildSnapshot => exact (alwaysLasts_buildSnapshotSteps ar n).andThen fun _ _ _ => trivial
  | buildSnapshotAuto term =>
      exact (alwaysLasts_buildSnapshotAutoSteps ar term n).andThen fun _ _ _ => trivial
  | merge trigger hspares =>
      exact (alwaysLasts_mergeSteps ar hspares trigger n).andThen fun _ _ _ => trivial

/-- Every store that an interleaving reaches is durable. -/
theorem Durable.interleaved {ar : Archiver} {n₀ : SurrealStorage}
    {S : Interleaving Phase SurrealStorage RaftError Unit} (h₀ : Fresh n₀)
    (hrun : ReflTransGen (BusyStep ar) ⟨n₀, []⟩ S) : Durable ar S.state := by
  have hsound := Interleaving.Sound.run (fun _ => Begins.alwaysLasts) (fun _ _ => Access.lasts)
    (I := Durable ar) (G := KeepsReadable ar) ?_ (.nil (.fresh h₀)) hrun
  · exact hsound.inv
  · rintro n _ ⟨w, n₁, ex, hdisk, hnew, rfl⟩ h
    have hnext := h.restart hdisk hnew
    exact ⟨hnext.recorded, hnext.chain, hnext.records⟩

/-- A merge of the operation spares the delta files. -/
def StoreOperation.Spares : StoreOperation → Prop
  | .runMergeLoop ex _ => ex.cleanup.Spares
  | _ => True

/-- An operation as a whole is an interleaving in which nothing comes between its steps. -/
theorem reaches_after {ar : Archiver} {c : StoreOperation} (hc : c.Spares) (n : SurrealStorage)
    (calls : List (Steps Phase SurrealStorage RaftError Unit)) :
    ∃ calls', ReflTransGen (BusyStep ar) ⟨n, calls⟩ ⟨c.after ar n, calls'⟩ := by
  have hruns : ∀ {α : Type} {p : Steps Phase SurrealStorage RaftError α},
      Begins ar (p.andThen fun _ => .done (.ok ())) →
        ∃ calls', ReflTransGen (BusyStep ar) ⟨n, calls⟩ ⟨(p.run n).2, calls'⟩ :=
    fun hp => Interleaving.reaches_run hp n calls
  rcases c.after_cases ar n with haccesses | rfl | ⟨term, rfl⟩ | ⟨ex, trigger, rfl⟩
  · exact ⟨calls, haccesses.lift (Interleaving.mk · calls) fun _ _ haccess => .move haccess⟩
  · have hrun := hruns .buildSnapshot
    rw [run_buildSnapshotSteps] at hrun
    exact hrun
  · have hrun := hruns (.buildSnapshotAuto term)
    rw [run_buildSnapshotAutoSteps] at hrun
    exact hrun
  · have hrun := hruns (.merge trigger hc)
    rw [run_mergeSteps] at hrun
    exact hrun

/-- The store after some operations. -/
def afterCalls (ar : Archiver) (n : SurrealStorage) (cs : List StoreOperation) : SurrealStorage :=
  cs.foldl (StoreOperation.after ar) n

theorem reaches_afterCalls {ar : Archiver} {cs : List StoreOperation} (hcs : ∀ c ∈ cs, c.Spares)
    (n : SurrealStorage) (calls : List (Steps Phase SurrealStorage RaftError Unit)) :
    ∃ calls', ReflTransGen (BusyStep ar) ⟨n, calls⟩ ⟨afterCalls ar n cs, calls'⟩ := by
  induction cs generalizing n calls with
  | nil => exact ⟨calls, .refl⟩
  | cons c cs ih =>
      obtain ⟨calls₁, hfirst⟩ := reaches_after (hcs c List.mem_cons_self) n calls
      obtain ⟨calls₂, hrest⟩ := ih (fun d hd => hcs d (List.mem_cons_of_mem c hd)) _ calls₁
      exact ⟨calls₂, hfirst.trans hrest⟩

/-- A build and a merge can be under way after some operations. -/
theorem reaches_busy {ar : Archiver} {cs : List StoreOperation} (hcs : ∀ c ∈ cs, c.Spares)
    (n : SurrealStorage) : ∃ S, ReflTransGen (BusyStep ar) ⟨n, []⟩ S ∧ 2 ≤ S.calls.length ∧
      S.state = afterCalls ar n cs := by
  obtain ⟨calls, hrun⟩ := reaches_afterCalls hcs n []
  have hspares : (MergeExecutor.new .new .default).cleanup.Spares := spares_default
  refine ⟨_, (hrun.tail (.begin .buildSnapshot)).tail (.begin (.merge .chainTooLong hspares)),
    ?_, rfl⟩
  simp only [List.length_append, List.length_singleton]
  omega

/-- A full snapshot between two requests and a delta after them. -/
def twoSnapshots : List StoreOperation :=
  [.apply [.put 1 1 "a" [1]], .buildSnapshot, .apply [.put 1 2 "b" [2]], .buildSnapshot]

theorem spares_twoSnapshots : ∀ c ∈ twoSnapshots, c.Spares := by
  simp [twoSnapshots, StoreOperation.Spares]

theorem faults_twoSnapshots :
    (afterCalls .stored (fresh []) twoSnapshots).world.faults = [] := by
  decide +kernel

theorem intact_twoSnapshots : Sys.Intact (afterCalls .stored (fresh []) twoSnapshots).world := by
  unfold Sys.Intact
  decide +kernel

theorem deltaChain_twoSnapshots :
    (afterCalls .stored (fresh []) twoSnapshots).snapshotState.deltaChain.length = 1 := by
  decide +kernel

/-- While no checkpoint was made in a directory that had been used for one, a restart at any time
succeeds unless one of its calls fails, and finds the vote, the applied position, the snapshot state
and the merge progress that the memory held. -/
theorem restart_finds_records {ar : Archiver} {n₀ : SurrealStorage}
    {S : Interleaving Phase SurrealStorage RaftError Unit} {w : World} (h₀ : Fresh n₀)
    (hrun : ReflTransGen (BusyStep ar) ⟨n₀, []⟩ S) (hreused : S.state.world.reused = false)
    (hdisk : SameDisk S.state w) :
    (w.faults = [] → ∃ n', new w = .ok n') ∧
      ∀ n', new w = .ok n' → n'.metadata.records = S.state.metadata.records := by
  have hdurable := Durable.interleaved h₀ hrun
  refine ⟨fun hquiet => ?_, fun n' hnew => hdurable.records_of_new hdisk hreused hnew⟩
  have hreadable := hdurable.recorded.readable
  rw [← hdisk.tree hreused] at hreadable
  exact ⟨_, hreadable.new_quiet hquiet⟩

theorem restart_finds_records_busy :
    ∃ S n', ReflTransGen (BusyStep .stored) ⟨fresh [], []⟩ S ∧ 2 ≤ S.calls.length ∧
      S.state.world.reused = false ∧ new S.state.world = .ok n' ∧
      n'.snapshotState.deltaChain.length = 1 ∧
      n'.metadata.records = S.state.metadata.records := by
  obtain ⟨S, hrun, hcalls, hafter⟩ := reaches_busy spares_twoSnapshots (fresh [])
  have hreused : S.state.world.reused = false := by
    rw [hafter]
    exact intact_twoSnapshots.2
  have hfinds := restart_finds_records (fresh_fresh []) hrun hreused (.refl _)
  have hquiet : S.state.world.faults = [] := by
    rw [hafter]
    exact faults_twoSnapshots
  obtain ⟨n', hnew⟩ := hfinds.1 hquiet
  have hrecords := hfinds.2 n' hnew
  have hstate : n'.snapshotState = S.state.snapshotState := congrArg Records.snapshot hrecords
  refine ⟨S, n', hrun, hcalls, hreused, hnew, ?_, hrecords⟩
  rw [hstate, hafter]
  exact deltaChain_twoSnapshots

/-! ## What a merge finds -/

/-- A file that reads back holds requests. -/
theorem ReadsBack.fileHolds {ar : Archiver} {files : OrdMap String Bytes} {d : DeltaInfo}
    (h : ReadsBack ar files d) : ∃ reqs, FileHolds ar files reqs d := by
  obtain ⟨ts, suffix, data, ds, hpath, hfile, hdecode, hds⟩ := h
  have hreqs : ∃ reqs, List.Forall₂ Decodes ds reqs := by
    clear hdecode
    induction ds with
    | nil => exact ⟨[], .nil⟩
    | cons d ds ih =>
        obtain ⟨req, hreq⟩ := hds d List.mem_cons_self
        obtain ⟨reqs, hreqs⟩ := ih fun e he => hds e (List.mem_cons_of_mem d he)
        exact ⟨req :: reqs, .cons hreq hreqs⟩
  obtain ⟨reqs, hreqs⟩ := hreqs
  exact ⟨reqs, _, data, ds, hpath, hfile, hdecode, hreqs⟩

end SurrealStorage

end OpenraftSurrealkv
