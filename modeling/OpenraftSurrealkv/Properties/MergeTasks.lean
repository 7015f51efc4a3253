import Mathlib.Logic.Relation
import OpenraftSurrealkv.Effects.Open
import OpenraftSurrealkv.Effects.Progress
import OpenraftSurrealkv.Properties.Metadata
import OpenraftSurrealkv.Snapshot.Stored

/-!
# Merge tasks in the background

A store, the calls that run on it and the merge tasks that those calls have
started, one atomic step at a time.  A task is in flight from its first save of
a started merge to its final save.

No place that starts a task looks at the merge progress, so two tasks can be in
flight at once (`two_merges_in_flight`).  A task is started only after an
evaluation of the policy that found a merge due (`Orderly`).  So there is at most
one in flight as long as the policy is not due whenever it is evaluated beside an
unfinished task, or beside a call that is about to start one
(`one_merge_in_flight`).
-/

namespace OpenraftSurrealkv

open MetadataManager

/-! ## Tasks and calls -/

/-- A merge task: the steps it has made and what is left of it. -/
structure MergeTask where
  rest : Steps Phase SurrealStorage RaftError MergeTaskResult
  trace : List Phase

namespace MergeTask

/-- A task that has made no step. -/
def start (ar : Archiver) (ex : MergeExecutor) (trigger : MergeTrigger) : MergeTask :=
  ⟨SurrealStorage.mergeSteps ar ex trigger, []⟩

/-- The task has returned or made its final save. -/
def Finished (t : MergeTask) : Prop :=
  (∃ r, t.rest = .done r) ∨ .succeeded ∈ t.trace ∨ .failed ∈ t.trace

instance (t : MergeTask) : Decidable t.Finished :=
  decidable_of_iff (t.rest.head? = none ∨ .succeeded ∈ t.trace ∨ .failed ∈ t.trace)
    (or_congr_left Steps.head?_eq_none_iff)

/-- The task has saved a started merge and has not finished. -/
def InFlight (t : MergeTask) : Prop := .started ∈ t.trace ∧ ¬ t.Finished

/-- A finished task stays finished. -/
theorem Finished.step {t : MergeTask} {n n' : SurrealStorage} {label : Phase} {ok : Bool}
    {rest : Steps Phase SurrealStorage RaftError MergeTaskResult}
    (hstep : Steps.Step t.rest n label ok rest n') (h : t.Finished) :
    (⟨rest, t.trace ++ [label]⟩ : MergeTask).Finished := by
  rcases h with ⟨r, hdone⟩ | h | h
  · rw [hdone] at hstep
    cases hstep
  · exact Or.inr (Or.inl (List.mem_append_left _ h))
  · exact Or.inr (Or.inr (List.mem_append_left _ h))

end MergeTask

/-- A call that can start a merge task. -/
inductive StoreCall where
  | build (currentTerm : UInt64)
  | recover
  | spawn
deriving DecidableEq, Repr

/-- The steps of a call. -/
def StoreCall.steps (ar : Archiver) (ex : MergeExecutor) :
    StoreCall → Steps Phase SurrealStorage RaftError Unit
  | .build currentTerm =>
      (SurrealStorage.buildSnapshotAutoSteps ar currentTerm).andThen fun _ => .done (.ok ())
  | .recover => SurrealStorage.recoverMergeStateSteps
  | .spawn => (SurrealStorage.spawnIfNeededSteps ex).andThen fun _ => .done (.ok ())

/-- The call has found a merge due and is about to start a task. -/
def AboutToSpawn (p : Steps Phase SurrealStorage RaftError Unit) : Prop := p.head? = some .spawn

instance : DecidablePred AboutToSpawn := fun p =>
  inferInstanceAs (Decidable (p.head? = some .spawn))

/-! ## The system -/

/-- The attempts since the record was last cleared or a merge last finished. -/
def countAfter : Phase → Bool → Nat → Nat
  | .execute, _, k => k + 1
  | .succeeded, true, _ => 0
  | .failed, true, _ => 0
  | .clear, true, _ => 0
  | _, _, k => k

/-- A store, the calls in progress, all tasks started and the attempts counted. -/
structure MergeSystem where
  store : SurrealStorage
  calls : List (Steps Phase SurrealStorage RaftError Unit)
  tasks : List MergeTask
  attempts : Nat

/-- The store does not merge, or does so with `ex`. -/
def SurrealStorage.MergesWith (ex : MergeExecutor) (n : SurrealStorage) : Prop :=
  ∀ ex', n.mergeExecutor = some ex' → ex' = ex

/-- A system before its first call. -/
structure MergeSystem.Start (ex : MergeExecutor) (S : MergeSystem) : Prop where
  executor : S.store.MergesWith ex
  calls : S.calls = []
  tasks : S.tasks = []
  attempts : S.attempts = 0

/-- Every task started so far has finished. -/
def MergeSystem.AllFinished (S : MergeSystem) : Prop := ∀ t ∈ S.tasks, t.Finished

/-- The merges under way: the unfinished tasks and the calls that are about to start one. -/
def MergeSystem.underWay (S : MergeSystem) : Nat :=
  S.tasks.countP (fun t => !decide t.Finished) + S.calls.countP fun p => decide (AboutToSpawn p)

/-- One step of the system.  Only calls that are `allowed` are made, and a call makes its next
step only where `cond` holds of it. -/
inductive SystemStep (ar : Archiver) (ex : MergeExecutor) (allowed : StoreCall → Prop)
    (cond : Phase → MergeSystem → Prop) : MergeSystem → MergeSystem → Prop
  | begin {S : MergeSystem} (c : StoreCall) : allowed c →
      SystemStep ar ex allowed cond S { S with calls := S.calls ++ [c.steps ar ex] }
  | call {S : MergeSystem} (i : Nat) {p p' : Steps Phase SurrealStorage RaftError Unit}
      {label : Phase} {ok : Bool} {n : SurrealStorage} :
      S.calls[i]? = some p → Steps.Step p S.store label ok p' n → label ≠ .spawn → cond label S →
      SystemStep ar ex allowed cond S
        { S with
          store := n
          calls := S.calls.set i p'
          attempts := countAfter label ok S.attempts }
  | spawn {S : MergeSystem} (i : Nat) {p p' : Steps Phase SurrealStorage RaftError Unit}
      {ok : Bool} {n : SurrealStorage} {trigger : MergeTrigger} :
      S.calls[i]? = some p → Steps.Step p S.store .spawn ok p' n →
      n.spawned = S.store.spawned ++ [trigger] → cond .spawn S →
      SystemStep ar ex allowed cond S
        { S with
          store := n
          calls := S.calls.set i p'
          tasks := S.tasks ++ [.start ar ex trigger] }
  | task {S : MergeSystem} (i : Nat) {t : MergeTask}
      {rest : Steps Phase SurrealStorage RaftError MergeTaskResult} {label : Phase} {ok : Bool}
      {n : SurrealStorage} :
      S.tasks[i]? = some t → Steps.Step t.rest S.store label ok rest n →
      SystemStep ar ex allowed cond S
        { S with
          store := n
          tasks := S.tasks.set i ⟨rest, t.trace ++ [label]⟩
          attempts := countAfter label ok S.attempts }
  /-- Applies, appends, votes and whatever else neither writes the merge progress nor starts a
  task. -/
  | other {S : MergeSystem} {n : SurrealStorage} :
      n.progress = S.store.progress → n.spawned = S.store.spawned →
      n.mergeExecutor = S.store.mergeExecutor →
      SystemStep ar ex allowed cond S { S with store := n }

/-! ## A store whose merge is due -/

/-- A checkpoint at index one and a delta on top of it. -/
def dueState : SnapshotMetaState :=
  ⟨some ⟨1, 1, 0, 0, some "target/checkpoints/checkpoint_0"⟩, [⟨2, 2, 10, 0, none⟩], 10⟩

/-- The executor of a store that merges after every delta. -/
def dueExecutor : MergeExecutor :=
  (MergeExecutor.new { DeltaMergePolicy.new with maxChainLength := 1 }
    MergeCleanupConfig.default).withBackend .checkpointNew

/-- The store has the chain, no failure is to come, and the clock stands still. -/
structure Due (n : SurrealStorage) : Prop where
  snapshotState : n.snapshotState = dueState
  readable : Readable n.world.tree
  stored : snapshotRecord.persisted n.world.tree = .ok (some dueState)
  faults : n.world.faults = []
  clock : n.world.clock = []

/-- The tree that holds the chain. -/
def dueTree : Tree := (∅ : Tree).insert snapshotRecord.key (snapshotRecord.codec.encode dueState)

theorem toStdvec_dueState : snapshotRecord.codec.toStdvec dueState =
    .ok (snapshotRecord.codec.encode dueState) :=
  Postcard.Codec.toStdvec_eq_ok_iff.mpr ⟨by decide +kernel, rfl⟩

/-- The store opened on that tree. -/
def dueStore : SurrealStorage :=
  { SurrealStorage.opened { SurrealStorage.emptyWorld [] with tree := dueTree } [] with
    mergeExecutor := some dueExecutor }

theorem readable_empty : Readable ∅ :=
  ⟨⟨none, rfl⟩, ⟨none, rfl⟩, ⟨none, rfl⟩, ⟨none, rfl⟩⟩

theorem due_dueStore : Due dueStore where
  snapshotState := Record.recovered_insert ∅ .new toStdvec_dueState
  readable := readable_empty.write (.snapshot toStdvec_dueState)
  stored := Record.persisted_insert ∅ toStdvec_dueState
  faults := rfl
  clock := rfl

theorem evaluate_due {n : SurrealStorage} (h : Due n) (now : UInt64) :
    dueExecutor.policy.evaluate n.snapshotState now = some .chainTooLong := by
  rw [h.snapshotState]
  rfl

/-- The record that the task saves first. -/
def dueProgress : MergeProgressState :=
  .started MergeTrigger.chainTooLong.asStr 1 dueExecutor.maxRetries 0

theorem toStdvec_dueProgress : mergeProgressRecord.codec.toStdvec dueProgress =
    .ok (mergeProgressRecord.codec.encode dueProgress) :=
  Postcard.Codec.toStdvec_eq_ok_iff.mpr ⟨by decide +kernel, rfl⟩

/-- The metadata after the task's first save. -/
def afterStarted (m : MetadataManager) : MetadataManager :=
  mergeProgressRecord.set dueProgress (m.withWorld (m.world.withTree (m.world.tree.insert
    mergeProgressRecord.key (mergeProgressRecord.codec.encode dueProgress))))

/-- The store after a reading of the clock and the start of tasks. -/
def ticked (n : SurrealStorage) (spawned : List MergeTrigger) : SurrealStorage :=
  { n with
    metadata := n.metadata.withWorld { n.world with clock := n.world.clock.tail }
    spawned := spawned }

theorem Due.ticked {n : SurrealStorage} (h : Due n) (spawned : List MergeTrigger) :
    Due (ticked n spawned) where
  snapshotState := h.snapshotState
  readable := h.readable
  stored := h.stored
  faults := h.faults
  clock := by
    show n.world.clock.tail = []
    rw [h.clock]
    rfl

theorem Due.afterStarted {n : SurrealStorage} (h : Due n) :
    Due { n with metadata := afterStarted n.metadata } where
  snapshotState := h.snapshotState
  readable := h.readable.write (.mergeProgress toStdvec_dueProgress)
  stored := by
    have hne : mergeProgressRecord.key ≠ snapshotRecord.key := MetaSave.keys_ne.2.2.2.2.2.symm
    show snapshotRecord.persisted (n.world.tree.insert mergeProgressRecord.key _) = _
    rw [Record.persisted_insert_of_ne hne]
    exact h.stored
  faults := h.faults
  clock := h.clock

/-- A call that is about to start a task. -/
def spawning : Steps Phase SurrealStorage RaftError Unit :=
  .step .spawn (Eff.modify fun n => { n with spawned := n.spawned ++ [.chainTooLong] })
    fun _ => .done (.ok ())

/-- A task that is about to read the chain and to try a merge. -/
def Attempting (ar : Archiver) (p : Steps Phase SurrealStorage RaftError MergeTaskResult) : Prop :=
  ∃ next, p = .step .readChain (SurrealStorage.onMetadata getSnapshotState) next ∧
    ∀ st, ∃ next', next st = .step .execute (SurrealStorage.onMetadata
      (Eff.attempt (sys (dueExecutor.backend.executeMerge ar st)))) next'

section Runs

variable {ar : Archiver} {allowed : StoreCall → Prop} {cond : Phase → MergeSystem → Prop}
  {S : MergeSystem}

theorem step_evaluate {n : SurrealStorage} (h : Due n) :
    Steps.Step (StoreCall.steps ar dueExecutor .spawn) n .evaluate true spawning
      (ticked n n.spawned) := by
  refine .ok (b := some MergeTrigger.chainTooLong) ?_
  show SurrealStorage.onMetadata dueExecutor.shouldSpawn n = _
  rw [SurrealStorage.shouldSpawn_run, evaluate_due h]
  rfl

theorem step_clock {n : SurrealStorage} (h : Due n) :
    Steps.Step (SurrealStorage.mergeSteps ar dueExecutor .chainTooLong) n .clock true
      (SurrealStorage.onMetadataSteps (dueExecutor.mergeLoopSteps ar .chainTooLong 0 255 0))
      (ticked n n.spawned) := by
  have hclock : n.world.clock.headD 0 = 0 := by
    rw [h.clock]
    rfl
  rw [← hclock]
  exact .ok rfl

theorem step_started (ar : Archiver) {n : SurrealStorage} (h : Due n) :
    ∃ rest, Attempting ar rest ∧
      Steps.Step (SurrealStorage.onMetadataSteps
        (dueExecutor.mergeLoopSteps ar .chainTooLong 0 255 0)) n .started true rest
        { n with metadata := afterStarted n.metadata } := by
  have hsave : SurrealStorage.onMetadata (saveMergeProgressState dueProgress) n =
      (.ok (), { n with metadata := afterStarted n.metadata }) := by
    rw [SurrealStorage.onMetadata, Eff.zoom_run, saveMergeProgressState,
      Record.save_quiet toStdvec_dueProgress h.faults]
    rfl
  exact ⟨_, ⟨_, rfl, fun _ => ⟨_, rfl⟩⟩, .ok hsave⟩

variable (ar allowed cond)

/-- A call that evaluates the policy of a due store starts a task. -/
theorem run_spawn (h : Due S.store) (hallowed : allowed .spawn)
    (hdue : cond .evaluate
      { S with calls := S.calls ++ [StoreCall.steps ar dueExecutor .spawn] })
    (hcond : ∀ n calls, n.progress = S.store.progress →
      cond .spawn { S with store := n, calls := calls }) :
    ∃ n calls, Due n ∧ n.progress = S.store.progress ∧
      Relation.ReflTransGen (SystemStep ar dueExecutor allowed cond) S
        { S with
          store := n
          calls := calls
          tasks := S.tasks ++ [.start ar dueExecutor .chainTooLong] } := by
  have hget : (S.calls ++ [StoreCall.steps ar dueExecutor .spawn])[S.calls.length]? =
      some (StoreCall.steps ar dueExecutor .spawn) := List.getElem?_concat_length
  have hlt : S.calls.length < (S.calls ++ [StoreCall.steps ar dueExecutor .spawn]).length := by
    simp
  have hevaluate : SystemStep ar dueExecutor allowed cond _ _ := .call (S := { S with
    calls := S.calls ++ [StoreCall.steps ar dueExecutor .spawn] }) S.calls.length hget
    (step_evaluate h) (by decide) hdue
  have hspawn : SystemStep ar dueExecutor allowed cond _ _ := .spawn (S := { S with
    store := ticked S.store S.store.spawned
    calls := (S.calls ++ [StoreCall.steps ar dueExecutor .spawn]).set S.calls.length spawning })
    S.calls.length (List.getElem?_set_self hlt) (.ok rfl) rfl (hcond _ _ rfl)
  have hbegin : SystemStep ar dueExecutor allowed cond S _ := .begin .spawn hallowed
  exact ⟨ticked S.store (S.store.spawned ++ [MergeTrigger.chainTooLong]), _, h.ticked _, rfl,
    ((Relation.ReflTransGen.single hbegin).tail hevaluate).tail hspawn⟩

/-- Alone, a new task of a due store reads the clock and saves a started merge. -/
theorem run_started (h : Due S.store) {i : Nat}
    (hi : S.tasks[i]? = some (.start ar dueExecutor .chainTooLong)) :
    ∃ n rest, Due n ∧ n.progress = ⟨dueProgress, dueProgress⟩ ∧ Attempting ar rest ∧
      Relation.ReflTransGen (SystemStep ar dueExecutor allowed cond) S
        { S with store := n, tasks := S.tasks.set i ⟨rest, [.clock, .started]⟩ } := by
  have hlt : i < S.tasks.length := (List.getElem?_eq_some_iff.mp hi).1
  obtain ⟨rest, hrest, hstep⟩ := step_started ar (h.ticked S.store.spawned)
  have hclock : SystemStep ar dueExecutor allowed cond S _ := .task i hi (step_clock h)
  have hstarted : SystemStep ar dueExecutor allowed cond _ _ := .task (S := { S with
    store := ticked S.store S.store.spawned
    tasks := S.tasks.set i ⟨_, [.clock]⟩ }) i (List.getElem?_set_self hlt) hstep
  refine ⟨_, rest, (h.ticked S.store.spawned).afterStarted, ?_, hrest, ?_⟩
  · show (⟨dueProgress, mergeProgressRecord.recovered (S.store.world.tree.insert
      mergeProgressRecord.key _) .new⟩ : Progress) = _
    rw [Record.recovered_insert _ _ toStdvec_dueProgress]
  · have hrun := (Relation.ReflTransGen.single hclock).tail hstarted
    rw [List.set_set] at hrun
    exact hrun

end Runs

theorem Attempting.inFlight {ar : Archiver}
    {p : Steps Phase SurrealStorage RaftError MergeTaskResult} (h : Attempting ar p) :
    (⟨p, [.clock, .started]⟩ : MergeTask).InFlight := by
  obtain ⟨next, rfl, -⟩ := h
  refine ⟨by simp, ?_⟩
  rintro (⟨r, hr⟩ | hmem | hmem)
  · cases hr
  · simp at hmem
  · simp at hmem

/-- The system of that store. -/
def dueSystem : MergeSystem := ⟨dueStore, [], [], 0⟩

theorem start_dueSystem : dueSystem.Start dueExecutor :=
  ⟨fun _ h => (Option.some.inj h).symm, rfl, rfl, rfl⟩

/-! ## At most one merge in flight -/

/-- Where a call has come to spawn, it has just found a merge due. -/
def SpawnsWhenDue (ex : MergeExecutor) (label : Phase) (n : SurrealStorage)
    (rest : Steps Phase SurrealStorage RaftError Unit) : Prop :=
  AboutToSpawn rest → label = .evaluate ∧
    ex.policy.evaluate n.snapshotState (n.world.clock.headD 0) ≠ none

/-- A call that starts a task only after an evaluation of the policy that found a merge due. -/
structure Orderly (ex : MergeExecutor) (p : Steps Phase SurrealStorage RaftError Unit) : Prop where
  head : ¬ AboutToSpawn p
  leaves : p.Leaves (SurrealStorage.MergesWith ex) (SpawnsWhenDue ex)

namespace Orderly

variable {ex : MergeExecutor} {label : Phase}

theorem done (r : Except RaftError Unit) : Orderly ex (.done r) :=
  ⟨fun h => (nomatch h), trivial⟩

/-- A step that starts no task, before an orderly rest. -/
theorem act_andThen {β : Type} {x : Op β} {f : β → Steps Phase SurrealStorage RaftError Unit}
    (hlabel : label ≠ .spawn) (hx : Eff.Keeps SurrealStorage.mergeExecutor x)
    (hf : ∀ n b, n.MergesWith ex → (x n).1 = .ok b → Orderly ex (f b)) :
    Orderly ex ((Steps.act label x).andThen f) where
  head h := hlabel (Option.some.inj h)
  leaves n hn := by
    refine ⟨fun ex' hex' => hn ex' ((hx n).symm.trans hex'), fun b hb => ?_⟩
    have hrest := hf n b hn hb
    exact ⟨fun h => absurd h hrest.head, hrest.leaves⟩

theorem act {x : Op Unit} (hlabel : label ≠ .spawn)
    (hx : Eff.Keeps SurrealStorage.mergeExecutor x) : Orderly ex (Steps.act label x) :=
  act_andThen hlabel hx fun _ b _ _ => done (.ok b)

/-- The only place that starts a task. -/
theorem spawnIfNeeded_andThen
    {f : Option MergeTrigger → Steps Phase SurrealStorage RaftError Unit}
    (hf : ∀ trigger, Orderly ex (f trigger)) :
    Orderly ex ((SurrealStorage.spawnIfNeededSteps ex).andThen f) where
  head h := nomatch h
  leaves n hn := by
    refine ⟨hn, fun trigger htrigger => ?_⟩
    replace htrigger : ex.policy.evaluate n.snapshotState (n.world.clock.headD 0) = trigger :=
      Except.ok.inj htrigger
    cases trigger with
    | none => exact ⟨fun h => absurd h (hf none).head, (hf none).leaves⟩
    | some t =>
        refine ⟨fun _ => ⟨rfl, ?_⟩, fun n' hn' => ⟨hn', fun _ _ => ?_⟩⟩
        · rw [htrigger]
          exact Option.some_ne_none t
        · exact ⟨fun h => absurd h (hf (some t)).head, (hf (some t)).leaves⟩

/-- The executor that a call reads is the one of the store. -/
theorem readExecutor_andThen
    {f : Option MergeExecutor → Steps Phase SurrealStorage RaftError Unit}
    (hnone : Orderly ex (f none)) (hsome : Orderly ex (f (some ex))) :
    Orderly ex ((Steps.act .readExecutor (Eff.gets SurrealStorage.mergeExecutor)).andThen f) := by
  refine act_andThen (by decide) (.gets _) fun n executor hn hread => ?_
  replace hread : n.mergeExecutor = executor := Except.ok.inj hread
  cases executor with
  | none => exact hnone
  | some ex' =>
      obtain rfl := hn ex' hread
      exact hsome

theorem triggerMerge_andThen {f : Unit → Steps Phase SurrealStorage RaftError Unit}
    (hf : Orderly ex (f ())) : Orderly ex (SurrealStorage.triggerMergeSteps.andThen f) := by
  rw [SurrealStorage.triggerMergeSteps, Steps.andThen_assoc]
  refine readExecutor_andThen hf ?_
  rw [Steps.andThen_assoc]
  exact spawnIfNeeded_andThen fun _ => hf

/-- Every call is orderly. -/
theorem steps (ar : Archiver) (ex : MergeExecutor) : ∀ c : StoreCall, Orderly ex (c.steps ar ex)
  | .build term => by
      rw [StoreCall.steps, SurrealStorage.buildSnapshotAutoSteps]
      simp only [Steps.andThen_assoc]
      refine act_andThen (by decide) (fun _ => rfl) fun _ applied _ _ => ?_
      refine act_andThen (by decide) (fun _ => rfl) fun _ st _ _ => ?_
      refine act_andThen (by decide) (.ite (.gets _) (.pure _)) fun _ logs _ _ => ?_
      refine act_andThen (by decide) (fun _ => rfl) fun _ snapshot _ _ => ?_
      cases decodeSnapshotPayload ar snapshot.snapshot with
      | error err => exact done _
      | ok decoded =>
          cases decoded with
          | none => exact triggerMerge_andThen (done _)
          | some d =>
              exact act_andThen (by decide) (fun _ => rfl) fun _ _ _ _ =>
                triggerMerge_andThen (done _)
  | .recover => by
      rw [StoreCall.steps, SurrealStorage.recoverMergeStateSteps]
      refine act_andThen (by decide) (fun _ => rfl) fun _ progress _ _ => ?_
      split
      · exact done _
      · split
        · exact act (by decide) fun _ => rfl
        · refine readExecutor_andThen (done _) (spawnIfNeeded_andThen fun trigger => ?_)
          cases trigger with
          | some t => exact done _
          | none => exact act (by decide) fun _ => rfl
  | .spawn => spawnIfNeeded_andThen fun _ => done _

end Orderly

theorem List.countP_set_add {α : Type*} {p : α → Bool} {l : List α} {i : Nat} {a : α} (b : α)
    (h : l[i]? = some a) :
    (l.set i b).countP p + (if p a then 1 else 0) = l.countP p + if p b then 1 else 0 := by
  obtain ⟨hlt, rfl⟩ := List.getElem?_eq_some_iff.mp h
  have hpos : p l[i] = true → 0 < l.countP p := fun hp =>
    List.countP_pos_iff.mpr ⟨_, List.getElem_mem hlt, hp⟩
  rw [List.countP_set hlt]
  split
  · have := hpos ‹_›
    omega
  · omega

theorem List.eq_of_countP_le_one {α : Type*} {p : α → Bool} {a b : α} :
    ∀ {l : List α} {i j : Nat}, l.countP p ≤ 1 → l[i]? = some a → p a = true →
      l[j]? = some b → p b = true → i = j
  | _ :: _, 0, 0, _, _, _, _, _ => rfl
  | x :: l, 0, j + 1, h, hi, ha, hj, hb => by
      obtain rfl := Option.some.inj hi
      have hpos : 0 < l.countP p := List.countP_pos_iff.mpr ⟨b, List.mem_of_getElem? hj, hb⟩
      rw [List.countP_cons_of_pos ha] at h
      omega
  | x :: l, i + 1, 0, h, hi, ha, hj, hb => by
      obtain rfl := Option.some.inj hj
      have hpos : 0 < l.countP p := List.countP_pos_iff.mpr ⟨a, List.mem_of_getElem? hi, ha⟩
      rw [List.countP_cons_of_pos hb] at h
      omega
  | x :: l, i + 1, j + 1, h, hi, ha, hj, hb => by
      have hle : l.countP p ≤ 1 := (List.sublist_cons_self x l).countP_le.trans h
      exact congrArg (· + 1) (List.eq_of_countP_le_one hle hi ha hj hb)

namespace MergeSystem

/-- Beside a merge under way, an evaluation of the policy finds none due. -/
def NotDueBeside (ex : MergeExecutor) (label : Phase) (S : MergeSystem) : Prop :=
  label = .evaluate → 0 < S.underWay →
    ex.policy.evaluate S.store.snapshotState (S.store.world.clock.headD 0) = none

/-- What holds in a run whose evaluations find no merge due beside one that is under way. -/
structure OneUnderWay (ex : MergeExecutor) (S : MergeSystem) : Prop where
  executor : S.store.MergesWith ex
  calls : ∀ p ∈ S.calls, p.Leaves (SurrealStorage.MergesWith ex) (SpawnsWhenDue ex)
  tasks : ∀ t ∈ S.tasks, t.rest.All fun _ f => ∀ n, (f n).mergeExecutor = n.mergeExecutor
  count : S.underWay ≤ 1

theorem OneUnderWay.calls_set {ex : MergeExecutor} {S : MergeSystem} (h : S.OneUnderWay ex)
    {i : Nat} {p : Steps Phase SurrealStorage RaftError Unit}
    (hp : p.Leaves (SurrealStorage.MergesWith ex) (SpawnsWhenDue ex)) :
    ∀ q ∈ S.calls.set i p, q.Leaves (SurrealStorage.MergesWith ex) (SpawnsWhenDue ex) := by
  intro q hq
  rcases List.mem_or_eq_of_mem_set hq with hq | rfl
  · exact h.calls q hq
  · exact hp

/-- A step after which a call is about to start a task is an evaluation that found a merge due. -/
theorem due_of_aboutToSpawn {ex : MergeExecutor} {p p' : Steps Phase SurrealStorage RaftError Unit}
    {n n' : SurrealStorage} {label : Phase} {ok : Bool} (hstep : Steps.Step p n label ok p' n')
    (hp : p.Leaves (SurrealStorage.MergesWith ex) (SpawnsWhenDue ex)) (hn : n.MergesWith ex)
    (hspawn : AboutToSpawn p') :
    label = .evaluate ∧ ex.policy.evaluate n.snapshotState (n.world.clock.headD 0) ≠ none := by
  obtain ⟨-, -, hnone | hdue⟩ := hstep.leaves hp hn
  · rw [AboutToSpawn, hnone] at hspawn
    cases hspawn
  · exact hdue hspawn

section

variable {S : MergeSystem} {i : Nat} (n : SurrealStorage) (k : Nat)

theorem underWay_set_call {p : Steps Phase SurrealStorage RaftError Unit}
    (p' : Steps Phase SurrealStorage RaftError Unit) (h : S.calls[i]? = some p) :
    underWay ⟨n, S.calls.set i p', S.tasks, k⟩ + (if AboutToSpawn p then 1 else 0) =
      S.underWay + if AboutToSpawn p' then 1 else 0 := by
  have hset := List.countP_set_add (p := fun p => decide (AboutToSpawn p)) p' h
  simp only [decide_eq_true_eq] at hset
  simp only [underWay]
  omega

theorem underWay_set_task {t u : MergeTask} (h : S.tasks[i]? = some t)
    (hfinished : t.Finished → u.Finished) :
    underWay ⟨n, S.calls, S.tasks.set i u, k⟩ ≤ S.underWay := by
  have hset := List.countP_set_add (p := fun t : MergeTask => !decide t.Finished) u h
  simp only [Bool.not_eq_true', decide_eq_false_iff_not] at hset
  simp only [underWay]
  by_cases ht : t.Finished
  · rw [if_neg (not_not.mpr ht), if_neg (not_not.mpr (hfinished ht))] at hset
    omega
  · rw [if_pos ht] at hset
    split at hset <;> omega

theorem underWay_concat_task (t : MergeTask) :
    underWay ⟨n, S.calls, S.tasks ++ [t], k⟩ ≤ S.underWay + 1 := by
  have hnew := List.countP_le_length (p := fun t : MergeTask => !decide t.Finished) (l := [t])
  rw [List.length_singleton] at hnew
  simp only [underWay]
  rw [List.countP_append]
  omega

end

theorem OneUnderWay.step {ar : Archiver} {ex : MergeExecutor} {allowed : StoreCall → Prop}
    {S T : MergeSystem} (hstep : SystemStep ar ex allowed (NotDueBeside ex) S T)
    (h : S.OneUnderWay ex) : T.OneUnderWay ex := by
  have hcount := h.count
  cases hstep with
  | begin c _ =>
      have hnew := Orderly.steps ar ex c
      refine ⟨h.executor, fun p hp => ?_, h.tasks, ?_⟩
      · rcases List.mem_append.mp hp with hp | hp
        · exact h.calls p hp
        · obtain rfl := List.mem_singleton.mp hp
          exact hnew.leaves
      · simpa [underWay, hnew.head] using hcount
  | @call i p p' label ok n hi hone hlabel hcond =>
      have hp := h.calls p (List.mem_of_getElem? hi)
      obtain ⟨hex, hrest, -⟩ := hone.leaves hp h.executor
      refine ⟨hex, h.calls_set hrest, h.tasks, ?_⟩
      have hset := underWay_set_call n (countAfter label ok S.attempts) p' hi
      by_cases hspawn : AboutToSpawn p'
      · -- The policy was due, so nothing was under way.
        obtain ⟨rfl, hsome⟩ := due_of_aboutToSpawn hone hp h.executor hspawn
        have hidle : ¬ 0 < S.underWay := fun hpos => hsome (hcond rfl hpos)
        rw [if_pos hspawn] at hset
        omega
      · rw [if_neg hspawn] at hset
        omega
  | @spawn i p p' ok n trigger hi hone _ _ =>
      have hp := h.calls p (List.mem_of_getElem? hi)
      obtain ⟨hex, hrest, -⟩ := hone.leaves hp h.executor
      refine ⟨hex, h.calls_set hrest, fun t ht => ?_, ?_⟩
      · rcases List.mem_append.mp ht with ht | ht
        · exact h.tasks t ht
        · obtain rfl := List.mem_singleton.mp ht
          exact .zoom (fun _ _ _ _ => rfl) (.of_forall (fun _ _ => trivial) _)
      · -- The call counted before, and the task that it starts counts now.
        have hspawn : AboutToSpawn p := hone.head?
        have hspawned : ¬ AboutToSpawn p' := fun hagain =>
          nomatch (due_of_aboutToSpawn hone hp h.executor hagain).1
        have hset := underWay_set_call n S.attempts p' hi
        rw [if_pos hspawn, if_neg hspawned] at hset
        have hnew := underWay_concat_task (S := ⟨n, S.calls.set i p', S.tasks, S.attempts⟩) n
          S.attempts (.start ar ex trigger)
        exact hnew.trans (by omega)
  | @task i t rest label ok n hi hone =>
      obtain ⟨⟨f, hf, rfl⟩, hrest⟩ := hone.all (h.tasks t (List.mem_of_getElem? hi))
      refine ⟨fun ex' hex' => h.executor ex' ((hf S.store).symm.trans hex'), h.calls,
        fun u hu => ?_, (underWay_set_task _ _ hi fun hfin => hfin.step hone).trans hcount⟩
      rcases List.mem_or_eq_of_mem_set hu with hu | rfl
      · exact h.tasks u hu
      · exact hrest
  | other _ _ hexecutor =>
      exact ⟨fun ex' hex' => h.executor ex' (hexecutor.symm.trans hex'), h.calls, h.tasks, hcount⟩

theorem OneUnderWay.run {ar : Archiver} {ex : MergeExecutor} {allowed : StoreCall → Prop}
    {S T : MergeSystem}
    (hrun : Relation.ReflTransGen (SystemStep ar ex allowed (NotDueBeside ex)) S T)
    (h : S.OneUnderWay ex) : T.OneUnderWay ex := by
  induction hrun with
  | refl => exact h
  | tail _ hstep ih => exact ih.step hstep

theorem Start.oneUnderWay {ex : MergeExecutor} {S : MergeSystem} (h : S.Start ex) :
    S.OneUnderWay ex where
  executor := h.executor
  calls p hp := by
    rw [h.calls] at hp
    cases hp
  tasks t ht := by
    rw [h.tasks] at ht
    cases ht
  count := by
    rw [underWay, h.calls, h.tasks]
    exact Nat.zero_le 1

end MergeSystem

/-- In a run in which the policy is not due whenever it is evaluated beside an unfinished task, or
beside a call that is about to start one, at most one task is in flight. -/
theorem SurrealStorage.one_merge_in_flight {ar : Archiver} {ex : MergeExecutor}
    {S T : MergeSystem} (hstart : S.Start ex)
    (hrun : Relation.ReflTransGen
      (SystemStep ar ex (fun _ => True) (MergeSystem.NotDueBeside ex)) S T)
    {i j : Nat} {t u : MergeTask} (hi : T.tasks[i]? = some t) (hj : T.tasks[j]? = some u)
    (ht : t.InFlight) (hu : u.InFlight) : i = j := by
  have hcount := (hstart.oneUnderWay.run hrun).count
  have htasks : T.tasks.countP (fun t => !decide t.Finished) ≤ 1 :=
    (Nat.le_add_right _ _).trans hcount
  have hunfinished : ∀ {v : MergeTask}, v.InFlight → (!decide v.Finished) = true := fun hv => by
    simpa using hv.2
  exact List.eq_of_countP_le_one htasks hi (hunfinished ht) hj (hunfinished hu)

theorem SurrealStorage.one_merge_in_flight_started : ∃ (T : MergeSystem) (t : MergeTask),
    Relation.ReflTransGen (SystemStep .stored dueExecutor (fun _ => True)
        (MergeSystem.NotDueBeside dueExecutor))
      dueSystem T ∧ T.tasks[0]? = some t ∧ t.InFlight ∧
        ∀ (j : Nat) u, T.tasks[j]? = some u → u.InFlight → j = 0 := by
  obtain ⟨n₁, calls, hdue, -, hspawn⟩ := run_spawn .stored (fun _ => True)
    (MergeSystem.NotDueBeside dueExecutor) (S := dueSystem) due_dueStore trivial
    (fun _ hbusy => absurd hbusy (by decide)) (fun _ _ _ h => nomatch h)
  obtain ⟨n₂, rest, -, -, hrest, hstarted⟩ := run_started .stored (fun _ => True)
    (MergeSystem.NotDueBeside dueExecutor) (i := 0) (S := { dueSystem with
    store := n₁, calls := calls, tasks := [.start .stored dueExecutor .chainTooLong] }) hdue rfl
  have hrun := hspawn.trans hstarted
  refine ⟨_, _, hrun, rfl, hrest.inFlight, fun j u hj hu => ?_⟩
  exact SurrealStorage.one_merge_in_flight start_dueSystem hrun hj rfl hu hrest.inFlight

/-- Two evaluations of the policy on one chain start two tasks, and both save a started merge. -/
theorem SurrealStorage.two_merges_in_flight : ∃ (T : MergeSystem) (t u : MergeTask),
    dueSystem.Start dueExecutor ∧
      Relation.ReflTransGen (SystemStep .stored dueExecutor (fun _ => True) fun _ _ => True)
        dueSystem T ∧
      T.tasks[0]? = some t ∧ T.tasks[1]? = some u ∧ t.InFlight ∧ u.InFlight := by
  let always : StoreCall → Prop := fun _ => True
  let free : Phase → MergeSystem → Prop := fun _ _ => True
  obtain ⟨n₁, calls₁, hdue₁, -, hspawn₁⟩ := run_spawn .stored always free (S := dueSystem)
    due_dueStore trivial trivial fun _ _ _ => trivial
  obtain ⟨n₂, calls₂, hdue₂, -, hspawn₂⟩ := run_spawn .stored always free (S := { dueSystem with
      store := n₁, calls := calls₁, tasks := [.start .stored dueExecutor .chainTooLong] })
    hdue₁ trivial trivial fun _ _ _ => trivial
  obtain ⟨n₃, rest₁, hdue₃, -, hrest₁, hstarted₁⟩ := run_started .stored always free (i := 0)
    (S := { dueSystem with
      store := n₂, calls := calls₂
      tasks := [.start .stored dueExecutor .chainTooLong,
        .start .stored dueExecutor .chainTooLong] }) hdue₂ rfl
  obtain ⟨n₄, rest₂, -, -, hrest₂, hstarted₂⟩ := run_started .stored always free (i := 1)
    (S := { dueSystem with
      store := n₃, calls := calls₂
      tasks := [⟨rest₁, [.clock, .started]⟩, .start .stored dueExecutor .chainTooLong] }) hdue₃ rfl
  exact ⟨_, _, _, start_dueSystem, ((hspawn₁.trans hspawn₂).trans hstarted₁).trans hstarted₂,
    rfl, rfl, hrest₁.inFlight, hrest₂.inFlight⟩

end OpenraftSurrealkv
