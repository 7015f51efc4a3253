import OpenraftSurrealkv.Properties.MergeTasks

/-!
# The number of merge attempts across crashes

A task numbers its attempts from one and gives up at the configured number.  A
recovery that finds a merge in progress starts a new task, which counts from one
again, so a merge that crashes the process is tried without end (`crash_loop`).

When no task is started while another is unfinished or while the record is in
progress, and no restart finds a merge that the recovery tries again, the attempts
since the record was last settled stay within bounds (`merge_attempts_bounded`).
One task at a time owns the count and the record (`Steps.Safe`), and everything
else leaves both alone (`Steps.Idle`).
-/

namespace OpenraftSurrealkv

open MetadataManager

/-! ## One task counts -/

/-- The phases whose save is the last one of a task. -/
def Phase.Final (label : Phase) : Prop := label = .succeeded ∨ label = .failed

instance : DecidablePred Phase.Final := fun label =>
  inferInstanceAs (Decidable (label = .succeeded ∨ label = .failed))

/-- The attempts counted are within bounds, none are counted once the record is settled, and the
record in memory is the one in the tree. -/
structure AttemptsOk (bound attempts : Nat) (v : Progress) : Prop where
  bounded : attempts ≤ bound
  settled : attempts = 0 ∨ v.memory.inProgress = true
  stored : v.memory = v.stored

theorem AttemptsOk.zero (bound : Nat) (st : MergeProgressState) : AttemptsOk bound 0 ⟨st, st⟩ :=
  ⟨Nat.zero_le _, Or.inl rfl, rfl⟩

theorem nextRetry_toNat {previous : UInt8} (h : previous.toNat < 255) :
    (nextRetry previous).toNat = previous.toNat + 1 := by
  rw [nextRetry, if_pos h, UInt8.toNat_add, UInt8.toNat_one]
  omega

namespace MergeExecutor

theorem idle_cleanup (ex : MergeExecutor) (st : SnapshotMetaState) (started : UInt64)
    (result : CleanupReport → MergeTaskResult) :
    ((Steps.act .cleanup (MetadataManager.sys (MergeCleanup.run ex.cleanup st
      (some started)))).andThen fun report => .done (.ok (result report))).Idle progress
        countAfter :=
  .andThen (.act (keeps_progress_sys_of_tree
      (MergeCleanup.within_run_ofTree readsTree_tree.ofTree _ _ _)) fun _ _ => rfl)
    fun _ => trivial

/-- The retry loop counts its attempts up to the configured number. -/
theorem safe_mergeLoopSteps (ar : Archiver) (ex : MergeExecutor) (trigger : MergeTrigger)
    (started : UInt64) : ∀ (fuel : Nat) (previous : UInt8) {attempts : Nat} {v : Progress},
      AttemptsOk ex.maxRetries.toNat attempts v → attempts ≤ previous.toNat →
      previous.toNat < ex.maxRetries.toNat →
      (mergeLoopSteps ar ex trigger started fuel previous).Safe progress countAfter Phase.Final
        (AttemptsOk ex.maxRetries.toNat) attempts v
  | 0, _, _, _, _, _, _ => trivial
  | fuel + 1, previous, attempts, v, hok, hle, hlt => by
      have hmax := ex.maxRetries.toNat_lt
      have hroom : previous.toNat < 255 := by omega
      have hretry := nextRetry_toNat hroom
      unfold mergeLoopSteps
      have hrunning : AttemptsOk ex.maxRetries.toNat attempts
          ⟨.started trigger.asStr (nextRetry previous) ex.maxRetries started,
            .started trigger.asStr (nextRetry previous) ex.maxRetries started⟩ :=
        ⟨hok.bounded, Or.inr rfl, rfl⟩
      refine .lands_andThen (fun m hm => hm ▸ saveMergeProgressState_cases _ m) hrunning hok
        (fun _ => ?_) fun h => absurd h (by decide)
      refine .quiet_andThen hrunning (.gets _) (fun _ _ => rfl) (fun st => ?_)
        fun h => absurd h (by decide)
      have hcounted : AttemptsOk ex.maxRetries.toNat (attempts + 1)
          ⟨.started trigger.asStr (nextRetry previous) ex.maxRetries started,
            .started trigger.asStr (nextRetry previous) ex.maxRetries started⟩ :=
        ⟨by omega, Or.inr rfl, rfl⟩
      have hkeeps := keeps_progress_sys_of_tree (keeps_tree_executeMerge ar st ex.backend)
      refine .lands_andThen (fun m hm => Or.inl ⟨rfl, (hkeeps m).trans hm⟩) hcounted hcounted
        (fun result => ?_) fun h => absurd h (by decide)
      cases result with
      | ok exec =>
          exact .lands_andThen (fun m hm => hm ▸ saveSnapshotAndMergeState_cases _ _ m)
            (.zero _ _) hcounted
            (fun _ => .quiet_andThen (.zero _ _) (keeps_progress_sys_of_tree
                (MergeCleanup.within_run_ofTree readsTree_tree.ofTree _ _ _)) (fun _ _ => rfl)
              (fun _ => trivial) fun h => absurd h (by decide))
            fun _ _ => idle_cleanup ex _ started _
      | error err =>
          by_cases hgive : ex.maxRetries ≤ nextRetry previous
          · simp only [if_pos hgive]
            exact .lands_andThen (fun m hm => hm ▸ saveMergeProgressState_cases _ m) (.zero _ _)
              hcounted (fun _ => trivial) fun _ _ => trivial
          · simp only [if_neg hgive]
            have hless : (nextRetry previous).toNat < ex.maxRetries.toNat := by
              rw [UInt8.le_iff_toNat_le] at hgive
              omega
            have hcount : attempts + 1 ≤ (nextRetry previous).toNat := by omega
            exact safe_mergeLoopSteps ar ex trigger started fuel (nextRetry previous) hcounted
              hcount hless

/-- A new task of an executor that tries at least once. -/
theorem safe_runMergeLoopSteps (ar : Archiver) (ex : MergeExecutor) (trigger : MergeTrigger)
    (hmax : 1 ≤ ex.maxRetries) {v : Progress} (hok : AttemptsOk ex.maxRetries.toNat 0 v) :
    (runMergeLoopSteps ar ex trigger).Safe progress countAfter Phase.Final
      (AttemptsOk ex.maxRetries.toNat) 0 v := by
  have hpos : (0 : UInt8).toNat < ex.maxRetries.toNat := UInt8.le_iff_toNat_le.mp hmax
  exact .quiet_andThen hok (keeps_progress_sys_of_tree
      (Sys.within_nowSecs readsTree_tree.ofTree.stored)) (fun _ _ => rfl)
    (fun started => safe_mergeLoopSteps ar ex trigger started 255 0 hok (Nat.le_refl 0) hpos)
    fun h => absurd h (by decide)

end MergeExecutor

namespace SurrealStorage

theorem keeps_progress_onMetadata {α : Type} {x : MetaM α}
    (h : Eff.Keeps MetadataManager.progress x) : Eff.Keeps progress (onMetadata x) :=
  Eff.Within.zoom h fun _ _ hm => hm

theorem safe_mergeSteps (ar : Archiver) (ex : MergeExecutor) (trigger : MergeTrigger)
    (hmax : 1 ≤ ex.maxRetries) {v : Progress} (hok : AttemptsOk ex.maxRetries.toNat 0 v) :
    (mergeSteps ar ex trigger).Safe progress countAfter Phase.Final
      (AttemptsOk ex.maxRetries.toNat) 0 v :=
  Steps.Safe.zoom (fun _ _ => rfl) (ex.safe_runMergeLoopSteps ar trigger hmax hok)

theorem idle_spawnIfNeededSteps (ex : MergeExecutor) :
    (spawnIfNeededSteps ex).Idle progress countAfter := by
  refine .andThen (.act (keeps_progress_onMetadata (keeps_progress_shouldSpawn ex))
    fun _ _ => rfl) fun trigger => ?_
  cases trigger with
  | none => trivial
  | some t => exact .andThen (.act (.modify fun _ => rfl) fun _ _ => rfl) fun _ => trivial

theorem idle_triggerMergeSteps : triggerMergeSteps.Idle progress countAfter := by
  refine .andThen (.act (.gets _) fun _ _ => rfl) fun executor => ?_
  cases executor with
  | none => trivial
  | some ex => exact (idle_spawnIfNeededSteps ex).andThen fun _ => trivial

/-- A build leaves the merge progress alone. -/
theorem idle_buildSnapshotAutoSteps (ar : Archiver) (term : UInt64) :
    (buildSnapshotAutoSteps ar term).Idle progress countAfter := by
  refine .andThen (.act (keeps_progress_onMetadata (.gets _)) fun _ _ => rfl) fun applied => ?_
  refine .andThen (.act (keeps_progress_onMetadata (.gets _)) fun _ _ => rfl) fun st => ?_
  refine .andThen (.act (.ite (.gets _) (.pure _)) fun _ _ => rfl) fun logs => ?_
  refine .andThen (.act (keeps_progress_onMetadata (keeps_progress_sys
    (readsTree_storedProgress.ofTree.buildSnapshotWithDelta
      (fun w _ => Record.recovered_insert_of_ne consistencySeqKey_ne w.tree _ _) ar _ _ _ _)))
    fun _ _ => rfl) fun snapshot => ?_
  refine .andThen trivial fun decoded => .andThen ?_ fun _ => .andThen idle_triggerMergeSteps
    fun _ => trivial
  cases decoded with
  | none => trivial
  | some d =>
      exact .act (keeps_progress_onMetadata (keeps_progress_saveSnapshotState _)) fun _ _ => rfl

/-- A call of `spawn_if_needed` only reads the clock, or finds a merge due and starts a task. -/
theorem spawnIfNeeded_cases (ex : MergeExecutor) (n : SurrealStorage) :
    spawnIfNeeded ex n = (.ok none, ticked n n.spawned) ∨
      ∃ trigger, ex.policy.evaluate n.snapshotState (n.world.clock.headD 0) = some trigger ∧
        spawnIfNeeded ex n = (.ok (some trigger), ticked n (n.spawned ++ [trigger])) := by
  rw [spawnIfNeeded, Eff.bind_of_ok (shouldSpawn_run ex n)]
  cases ex.policy.evaluate n.snapshotState (n.world.clock.headD 0) with
  | none => exact Or.inl rfl
  | some trigger => exact Or.inr ⟨trigger, rfl, rfl⟩

/-- The clearing of the record lands or changes nothing. -/
theorem clear_cases (n : SurrealStorage) :
    (onMetadata (saveMergeProgressState .new) n).2.spawned = n.spawned ∧
      ((onMetadata (saveMergeProgressState .new) n).2.progress = n.progress ∨
        (onMetadata (saveMergeProgressState .new) n).2.progress = ⟨.new, .new⟩) := by
  refine ⟨rfl, ?_⟩
  rcases saveMergeProgressState_cases .new n.metadata with ⟨-, h⟩ | ⟨-, h⟩
  · exact Or.inr h
  · exact Or.inl h

/-- The record is not in progress, or its attempts are used up, or the policy is not due: the
recovery does not try the merge again. -/
def NoRespawn (ex : MergeExecutor) (n : SurrealStorage) : Prop :=
  n.metadata.mergeProgressState.inProgress = true →
    n.metadata.mergeProgressState.maxRetries ≤ n.metadata.mergeProgressState.attempt ∨
      ex.policy.evaluate n.snapshotState (n.world.clock.headD 0) = none

/-- A recovery that does not try the merge again clears the record of a merge in progress, or does
nothing. -/
theorem recoverMergeState_cases {n n' : SurrealStorage} {ex : MergeExecutor}
    {r : Except RaftError Unit} (hex : n.mergeExecutor = some ex) (hspawned : n.spawned = [])
    (hno : n.NoRespawn ex) (h : recoverMergeState n = (r, n')) :
    n'.spawned = [] ∧ (n'.progress = n.progress ∨
      n.progress.memory.inProgress = true ∧ n'.progress = ⟨.new, .new⟩) := by
  have hread : onMetadata getMergeProgressState n = (.ok n.progress.memory, n) := rfl
  have hexec : (Eff.gets mergeExecutor : Op _) n = (.ok (some ex), n) := by
    rw [Eff.gets_run, hex]
  rw [recoverMergeState, Eff.bind_of_ok hread] at h
  by_cases hidle : n.progress.memory.inProgress = false
  · rw [if_pos hidle] at h
    cases h
    exact ⟨hspawned, Or.inl rfl⟩
  have hrunning : n.progress.memory.inProgress = true := by simpa using hidle
  rw [if_neg hidle] at h
  by_cases hspent : n.progress.memory.maxRetries ≤ n.progress.memory.attempt
  · rw [if_pos hspent] at h
    obtain ⟨hsp, hp⟩ := clear_cases n
    rw [h] at hsp hp
    exact ⟨hsp.trans hspawned, hp.imp_right fun hp => ⟨hrunning, hp⟩⟩
  · rw [if_neg hspent, Eff.bind_of_ok hexec] at h
    replace h : (spawnIfNeeded ex >>= _) n = (r, n') := h
    rcases spawnIfNeeded_cases ex n with hrun | ⟨trigger, hdue, -⟩
    · rw [Eff.bind_of_ok hrun] at h
      obtain ⟨hsp, hp⟩ := clear_cases (ticked n n.spawned)
      rw [show onMetadata (saveMergeProgressState .new) (ticked n n.spawned) = (r, n') from h]
        at hsp hp
      exact ⟨hsp.trans hspawned, hp.imp_right fun hp => ⟨hrunning, hp⟩⟩
    · have hnone := (hno hrunning).resolve_left hspent
      rw [hdue] at hnone
      cases hnone

end SurrealStorage

/-! ## Crashes and restarts -/

/-- A step of the system, or a crash and a restart: the store is opened on the tree that the
crash left, merges are configured as before, and the recovery runs.  The calls meet `cond`, and
the stores that are opened `reopened`. -/
inductive NodeStep (ar : Archiver) (ex : MergeExecutor) (cond : Phase → MergeSystem → Prop)
    (reopened : SurrealStorage → Prop) : MergeSystem → MergeSystem → Prop
  | step {S T : MergeSystem} :
      SystemStep ar ex (· ≠ .recover) cond S T → NodeStep ar ex cond reopened S T
  | restart {S : MergeSystem} {w : World} {n₀ n₁ : SurrealStorage} {r : Except RaftError Unit} :
      w.tree = S.store.world.tree → SurrealStorage.new w = .ok n₀ →
      reopened { n₀ with mergeExecutor := some ex } →
      SurrealStorage.recoverMergeState { n₀ with mergeExecutor := some ex } = (r, n₁) →
      NodeStep ar ex cond reopened S
        { store := n₁
          calls := []
          tasks := n₁.spawned.map (.start ar ex)
          attempts :=
            if n₀.progress.memory.inProgress = true ∧ n₁.progress.memory.inProgress = false then 0
            else S.attempts }

theorem NodeStep.of_run {ar : Archiver} {ex : MergeExecutor} {cond : Phase → MergeSystem → Prop}
    {reopened : SurrealStorage → Prop} {S T : MergeSystem}
    (h : Relation.ReflTransGen (SystemStep ar ex (· ≠ .recover) cond) S T) :
    Relation.ReflTransGen (NodeStep ar ex cond reopened) S T :=
  h.lift id fun _ _ => .step

namespace MergeSystem

/-- Every task has finished and the record is not in progress. -/
def Settled (S : MergeSystem) : Prop :=
  S.AllFinished ∧ S.store.progress.memory.inProgress = false

/-- A task is started only when the system is settled. -/
def SpawnsSettled (label : Phase) (S : MergeSystem) : Prop := label = .spawn → S.Settled

/-- What holds in a run that starts tasks only when the system is settled. -/
structure Bounded (ex : MergeExecutor) (S : MergeSystem) : Prop where
  attempts : AttemptsOk ex.maxRetries.toNat S.attempts S.store.progress
  calls : ∀ p ∈ S.calls, p.Idle SurrealStorage.progress countAfter
  tasks : ∀ (i : Nat) t, S.tasks[i]? = some t →
    t.rest.Idle SurrealStorage.progress countAfter ∨
      i + 1 = S.tasks.length ∧ t.rest.Safe SurrealStorage.progress countAfter Phase.Final
        (AttemptsOk ex.maxRetries.toNat) S.attempts S.store.progress
  finished : ∀ t ∈ S.tasks, t.Finished → t.rest.Idle SurrealStorage.progress countAfter

theorem not_finished_start (ar : Archiver) (ex : MergeExecutor) (trigger : MergeTrigger) :
    ¬ (MergeTask.start ar ex trigger).Finished := by
  rintro (⟨r, hr⟩ | hmem | hmem)
  · cases hr
  · cases hmem
  · cases hmem

/-- Steps that leave the tasks, the count and the merge progress alone. -/
theorem Bounded.same {ex : MergeExecutor} {S T : MergeSystem} (h : S.Bounded ex)
    (hattempts : T.attempts = S.attempts) (hview : T.store.progress = S.store.progress)
    (htasks : T.tasks = S.tasks)
    (hcalls : ∀ p ∈ T.calls, p.Idle SurrealStorage.progress countAfter) : T.Bounded ex := by
  refine ⟨?_, hcalls, ?_, ?_⟩
  · rw [hattempts, hview]
    exact h.attempts
  · rw [hattempts, hview, htasks]
    exact h.tasks
  · rw [htasks]
    exact h.finished

/-- A call that makes an idle step stays idle, as do the others. -/
theorem Bounded.calls_set {ex : MergeExecutor} {S : MergeSystem} (h : S.Bounded ex) (i : Nat)
    {p : Steps Phase SurrealStorage RaftError Unit}
    (hp : p.Idle SurrealStorage.progress countAfter) :
    ∀ q ∈ S.calls.set i p, q.Idle SurrealStorage.progress countAfter := by
  intro q hq
  rcases List.mem_or_eq_of_mem_set hq with hq | rfl
  · exact h.calls q hq
  · exact hp

/-- The start of a task, of which there is no unfinished one. -/
theorem Bounded.spawn (ar : Archiver) {ex : MergeExecutor} (hmax : 1 ≤ ex.maxRetries)
    {S : MergeSystem} (h : S.Bounded ex) (hcond : S.Settled) (trigger : MergeTrigger) :
    ({ S with tasks := S.tasks ++ [.start ar ex trigger] } : MergeSystem).Bounded ex := by
  have hzero : S.attempts = 0 := by
    refine h.attempts.settled.resolve_right fun hrunning => ?_
    rw [hcond.2] at hrunning
    cases hrunning
  have hidle : ∀ t ∈ S.tasks, t.rest.Idle SurrealStorage.progress countAfter :=
    fun t ht => h.finished t ht (hcond.1 t ht)
  refine ⟨h.attempts, h.calls, fun j u hj => ?_, fun u hu hfin => ?_⟩
  · rcases Nat.lt_or_ge j S.tasks.length with hlt | hge
    · rw [List.getElem?_append_left hlt] at hj
      exact Or.inl (hidle u (List.mem_of_getElem? hj))
    · have hbound := (List.getElem?_eq_some_iff.mp hj).1
      rw [List.length_append, List.length_singleton] at hbound
      obtain rfl : j = S.tasks.length := by omega
      rw [List.getElem?_concat_length, Option.some.injEq] at hj
      obtain rfl := hj
      refine Or.inr ⟨by rw [List.length_append, List.length_singleton], ?_⟩
      have hok := h.attempts
      simp only [hzero] at hok ⊢
      exact SurrealStorage.safe_mergeSteps ar ex trigger hmax hok
  · rcases List.mem_append.mp hu with hu | hu
    · exact hidle u hu
    · obtain rfl := List.mem_singleton.mp hu
      exact absurd hfin (not_finished_start ar ex trigger)

/-- A step of a task. -/
theorem Bounded.task {ex : MergeExecutor} {S : MergeSystem} (h : S.Bounded ex) {i : Nat}
    {t : MergeTask} {rest : Steps Phase SurrealStorage RaftError MergeTaskResult} {label : Phase}
    {ok : Bool} {n : SurrealStorage} (hi : S.tasks[i]? = some t)
    (hone : Steps.Step t.rest S.store label ok rest n) :
    ({ S with
      store := n
      tasks := S.tasks.set i ⟨rest, t.trace ++ [label]⟩
      attempts := countAfter label ok S.attempts } : MergeSystem).Bounded ex := by
  have hlt : i < S.tasks.length := (List.getElem?_eq_some_iff.mp hi).1
  have hself : (S.tasks.set i ⟨rest, t.trace ++ [label]⟩)[i]? =
      some ⟨rest, t.trace ++ [label]⟩ := List.getElem?_set_self hlt
  have hmem := List.mem_of_getElem? hi
  rcases h.tasks i t hi with hidle | ⟨hlast, hsafe⟩
  · obtain ⟨hview, hghost, hrest⟩ := hone.idle hidle
    refine ⟨?_, h.calls, fun j u hj => ?_, fun u hu hfin => ?_⟩
    · simp only [hghost, hview]
      exact h.attempts
    · simp only [hghost, hview, List.length_set]
      by_cases hij : i = j
      · subst hij
        obtain rfl := Option.some.inj (hself.symm.trans hj)
        exact Or.inl hrest
      · exact h.tasks j u ((List.getElem?_set_ne hij).symm.trans hj)
    · rcases List.mem_or_eq_of_mem_set hu with hu | rfl
      · exact h.finished u hu hfin
      · exact hrest
  · obtain ⟨hok, hrest, hfinal⟩ := hone.safe hsafe
    refine ⟨hok, h.calls, fun j u hj => ?_, fun u hu hfin => ?_⟩
    · simp only [List.length_set]
      by_cases hij : i = j
      · subst hij
        obtain rfl := Option.some.inj (hself.symm.trans hj)
        exact Or.inr ⟨hlast, hrest⟩
      · rcases h.tasks j u ((List.getElem?_set_ne hij).symm.trans hj) with hu | ⟨hu, -⟩
        · exact Or.inl hu
        · exact absurd (by omega : i = j) hij
    · rcases List.mem_or_eq_of_mem_set hu with hu | rfl
      · exact h.finished u hu hfin
      · -- The task finished before this step, with it, or has nothing left to do.
        rcases hfin with ⟨r, hdone⟩ | htrace | htrace
        · simp only at hdone
          rw [hdone]
          trivial
        · rcases List.mem_append.mp htrace with hold | hnew
          · exact (hone.idle (h.finished t hmem (Or.inr (Or.inl hold)))).2.2
          · exact hfinal (Or.inl (List.mem_singleton.mp hnew).symm)
        · rcases List.mem_append.mp htrace with hold | hnew
          · exact (hone.idle (h.finished t hmem (Or.inr (Or.inr hold)))).2.2
          · exact hfinal (Or.inr (List.mem_singleton.mp hnew).symm)

theorem Bounded.step {ar : Archiver} {ex : MergeExecutor} (hmax : 1 ≤ ex.maxRetries)
    {S T : MergeSystem} (hstep : SystemStep ar ex (· ≠ .recover) SpawnsSettled S T)
    (h : S.Bounded ex) : T.Bounded ex := by
  cases hstep with
  | begin c hc =>
      refine h.same rfl rfl rfl fun p hp => ?_
      rcases List.mem_append.mp hp with hp | hp
      · exact h.calls p hp
      · obtain rfl := List.mem_singleton.mp hp
        cases c with
        | build term =>
            exact (SurrealStorage.idle_buildSnapshotAutoSteps ar term).andThen fun _ => trivial
        | recover => exact absurd rfl hc
        | spawn => exact (SurrealStorage.idle_spawnIfNeededSteps ex).andThen fun _ => trivial
  | @call i p p' label ok n hi hone _ _ =>
      obtain ⟨hview, hghost, hrest⟩ := hone.idle (h.calls p (List.mem_of_getElem? hi))
      exact h.same (hghost _) hview rfl (h.calls_set i hrest)
  | @spawn i p p' ok n trigger hi hone _ hcond =>
      obtain ⟨hview, -, hrest⟩ := hone.idle (h.calls p (List.mem_of_getElem? hi))
      have hspawn := h.spawn ar hmax (hcond rfl) trigger
      exact hspawn.same rfl hview rfl (h.calls_set i hrest)
  | task i hi hone => exact h.task hi hone
  | other hprogress _ _ => exact h.same rfl hprogress rfl h.calls

/-- A store opened on the tree of a crash has the record that the crash left. -/
theorem Bounded.progress_opened {ex : MergeExecutor} {S : MergeSystem} (h : S.Bounded ex)
    {w : World} (htree : w.tree = S.store.world.tree) (fs : List (Option String)) :
    (SurrealStorage.opened w fs).progress = S.store.progress := by
  have hstored : mergeProgressRecord.recovered w.tree .new = S.store.progress.stored := by
    rw [htree]
    rfl
  show (⟨mergeProgressRecord.recovered w.tree .new,
    mergeProgressRecord.recovered w.tree .new⟩ : Progress) = _
  rw [hstored]
  exact congrArg (Progress.mk · S.store.progress.stored) h.attempts.stored.symm

theorem Bounded.idle {ex : MergeExecutor} {n : SurrealStorage} {attempts : Nat}
    (h : AttemptsOk ex.maxRetries.toNat attempts n.progress) :
    (⟨n, [], [], attempts⟩ : MergeSystem).Bounded ex :=
  ⟨h, fun _ hp => (nomatch hp), fun _ _ hj => (nomatch hj), fun _ hu => (nomatch hu)⟩

/-- A step of the node.  A restart may clear the record but does not start a task. -/
theorem Bounded.nodeStep {ar : Archiver} {ex : MergeExecutor} {S T : MergeSystem}
    (hmax : 1 ≤ ex.maxRetries)
    (hstep : NodeStep ar ex SpawnsSettled (SurrealStorage.NoRespawn ex) S T)
    (h : S.Bounded ex) : T.Bounded ex := by
  cases hstep with
  | step hone => exact h.step hmax hone
  | @restart w n₀ n₁ r htree hnew hno hrecover =>
      obtain ⟨fs, rfl⟩ := SurrealStorage.new_ok hnew
      have hview := h.progress_opened htree fs
      rcases SurrealStorage.recoverMergeState_cases rfl rfl hno hrecover with
        ⟨hnone, hsame | ⟨hrunning, hcleared⟩⟩
      · replace hsame : n₁.progress = S.store.progress := hsame.trans hview
        have hcount : ¬ (S.store.progress.memory.inProgress = true ∧
            S.store.progress.memory.inProgress = false) := by
          rintro ⟨htrue, hfalse⟩
          rw [htrue] at hfalse
          cases hfalse
        rw [hnone, hview, hsame, if_neg hcount]
        exact .idle (hsame ▸ h.attempts)
      · have hcount : (SurrealStorage.opened w fs).progress.memory.inProgress = true ∧
            n₁.progress.memory.inProgress = false := by
          rw [hcleared]
          exact ⟨hrunning, rfl⟩
        rw [hnone, if_pos hcount]
        exact .idle (hcleared ▸ .zero _ _)

theorem Bounded.run {ar : Archiver} {ex : MergeExecutor} {S T : MergeSystem}
    (hmax : 1 ≤ ex.maxRetries)
    (hrun : Relation.ReflTransGen
      (NodeStep ar ex SpawnsSettled (SurrealStorage.NoRespawn ex)) S T) (h : S.Bounded ex) :
    T.Bounded ex := by
  induction hrun with
  | refl => exact h
  | tail _ hstep ih => exact ih.nodeStep hmax hstep

end MergeSystem

/-! ## Runs of the due store -/

/-- The tree holds the chain and a merge in progress. -/
structure Crashed (t : Tree) : Prop where
  readable : Readable t
  snapshot : snapshotRecord.persisted t = .ok (some dueState)
  progress : mergeProgressRecord.recovered t .new = dueProgress

section Runs

variable {ar : Archiver}

/-- It reads the chain and tries a merge, which leaves the tree alone. -/
theorem Attempting.steps {p : Steps Phase SurrealStorage RaftError MergeTaskResult}
    (h : Attempting ar p) (n : SurrealStorage) :
    ∃ p' rest n', Steps.Step p n .readChain true p' n ∧ Steps.Step p' n .execute true rest n' ∧
      n'.world.tree = n.world.tree := by
  obtain ⟨next, rfl, hnext⟩ := h
  obtain ⟨next', hexecute⟩ := hnext n.snapshotState
  have hstep : ∃ rest, Steps.Step (next n.snapshotState) n .execute true rest
      (SurrealStorage.sys (dueExecutor.backend.executeMerge ar n.snapshotState) n).2 := by
    rw [hexecute]
    exact ⟨_, .ok rfl⟩
  obtain ⟨rest, hstep⟩ := hstep
  exact ⟨_, rest, _, .ok rfl, hstep,
    keeps_tree_executeMerge ar n.snapshotState dueExecutor.backend n.world⟩

/-- A new task of a due store, alone, up to its first attempt. -/
theorem run_attempted (ar : Archiver) (allowed : StoreCall → Prop)
    (cond : Phase → MergeSystem → Prop) {S : MergeSystem} (h : Due S.store) {i : Nat}
    (hi : S.tasks[i]? = some (.start ar dueExecutor .chainTooLong)) :
    ∃ n t, Crashed n.world.tree ∧
      Relation.ReflTransGen (SystemStep ar dueExecutor allowed cond) S
        { S with store := n, tasks := S.tasks.set i t, attempts := S.attempts + 1 } := by
  have hlt : i < S.tasks.length := (List.getElem?_eq_some_iff.mp hi).1
  obtain ⟨n, p, hdue, hprogress, hp, hstarted⟩ := run_started ar allowed cond h hi
  obtain ⟨p', rest, n', hread, htry, htree⟩ := hp.steps n
  have hread' : SystemStep ar dueExecutor allowed cond _ _ := .task (S := { S with
    store := n
    tasks := S.tasks.set i ⟨p, [.clock, .started]⟩ }) i (List.getElem?_set_self hlt) hread
  have htry' : SystemStep ar dueExecutor allowed cond _ _ := .task (S := { S with
    store := n
    tasks := S.tasks.set i ⟨p', [.clock, .started, .readChain]⟩ }) i
    (List.getElem?_set_self hlt) htry
  simp only [List.set_set] at hread' htry'
  refine ⟨n', _, ?_, (hstarted.tail hread').tail htry'⟩
  rw [htree]
  exact ⟨hdue.readable, hdue.stored, congrArg Progress.stored hprogress⟩

end Runs

/-- In a run whose calls start tasks only when every task has finished and the record is not in
progress, and whose restarts find no merge that the recovery tries again, the attempts since the
record was last settled stay within the configured number, whenever the process crashes. -/
theorem SurrealStorage.merge_attempts_bounded {ar : Archiver} {ex : MergeExecutor}
    (hmax : 1 ≤ ex.maxRetries) {S T : MergeSystem} (hstart : S.Start ex)
    (hrecord : S.store.metadata.mergeProgressState =
      mergeProgressRecord.recovered S.store.world.tree .new)
    (hrun : Relation.ReflTransGen
      (NodeStep ar ex MergeSystem.SpawnsSettled (SurrealStorage.NoRespawn ex)) S T) :
    T.attempts ≤ ex.maxRetries.toNat := by
  have hok : AttemptsOk ex.maxRetries.toNat S.attempts S.store.progress := by
    rw [hstart.attempts]
    exact ⟨Nat.zero_le _, Or.inl rfl, hrecord⟩
  have hinit : S.Bounded ex := by
    refine ⟨hok, fun p hp => ?_, fun j u hj => ?_, fun u hu => ?_⟩
    · rw [hstart.calls] at hp
      cases hp
    · rw [hstart.tasks] at hj
      cases hj
    · rw [hstart.tasks] at hu
      cases hu
  exact (hinit.run hmax hrun).attempts.bounded

theorem idle_dueStore : dueStore.progress.memory.inProgress = false := by
  show (mergeProgressRecord.recovered dueTree .new).inProgress = false
  rw [dueTree, Record.recovered_insert_of_ne MetaSave.keys_ne.2.2.2.2.2,
    SurrealStorage.recovered_empty]
  rfl

/-- With no merge in progress the recovery does nothing. -/
theorem restart_dueSystem : NodeStep .stored dueExecutor MergeSystem.SpawnsSettled
    (SurrealStorage.NoRespawn dueExecutor) dueSystem dueSystem := by
  have hrecover : SurrealStorage.recoverMergeState dueStore = (.ok (), dueStore) := by
    have hread : SurrealStorage.onMetadata getMergeProgressState dueStore =
        (.ok dueStore.progress.memory, dueStore) := rfl
    rw [SurrealStorage.recoverMergeState, Eff.bind_of_ok hread, if_pos idle_dueStore]
    rfl
  have hno : dueStore.NoRespawn dueExecutor := fun hrunning =>
    nomatch idle_dueStore.symm.trans hrunning
  exact .restart (S := dueSystem) (w := { SurrealStorage.emptyWorld [] with tree := dueTree }) rfl
    (Readable.new_quiet due_dueStore.readable rfl) hno hrecover

theorem SurrealStorage.merge_attempts_bounded_once : ∃ T : MergeSystem,
    Relation.ReflTransGen (NodeStep .stored dueExecutor MergeSystem.SpawnsSettled
        (SurrealStorage.NoRespawn dueExecutor)) dueSystem T ∧
      T.attempts = 1 ∧ T.attempts ≤ dueExecutor.maxRetries.toNat := by
  have hsettled : ∀ (n : SurrealStorage) calls, n.progress = dueSystem.store.progress →
      MergeSystem.SpawnsSettled .spawn { dueSystem with store := n, calls := calls } := by
    intro n calls hn _
    refine ⟨fun _ h => (nomatch h), ?_⟩
    show n.progress.memory.inProgress = false
    rw [hn]
    exact idle_dueStore
  obtain ⟨n₁, calls, hdue, -, hspawn⟩ := run_spawn .stored (· ≠ .recover) _ (S := dueSystem)
    due_dueStore (by decide) (fun h => nomatch h) hsettled
  obtain ⟨n₂, t, -, hattempted⟩ := run_attempted .stored (· ≠ .recover)
    MergeSystem.SpawnsSettled (i := 0) (S := { dueSystem with
      store := n₁, calls := calls, tasks := [.start .stored dueExecutor .chainTooLong] }) hdue rfl
  have hrun := (NodeStep.of_run (hspawn.trans hattempted)).head restart_dueSystem
  exact ⟨_, hrun, rfl, SurrealStorage.merge_attempts_bounded (by decide) start_dueSystem rfl hrun⟩

/-- The recovery of a merge whose record says that this was its first attempt. -/
theorem recover_due {n : SurrealStorage} (h : Due n) (hex : n.mergeExecutor = some dueExecutor)
    (hprogress : n.metadata.mergeProgressState = dueProgress) :
    SurrealStorage.recoverMergeState n =
      (.ok (), ticked n (n.spawned ++ [MergeTrigger.chainTooLong])) := by
  have hread : SurrealStorage.onMetadata getMergeProgressState n = (.ok dueProgress, n) := by
    rw [← hprogress]
    rfl
  have hexec : (Eff.gets SurrealStorage.mergeExecutor : Op _) n = (.ok (some dueExecutor), n) := by
    rw [Eff.gets_run, hex]
  have hspawn : SurrealStorage.spawnIfNeeded dueExecutor n =
      (.ok (some .chainTooLong), ticked n (n.spawned ++ [MergeTrigger.chainTooLong])) := by
    rw [SurrealStorage.spawnIfNeeded, Eff.bind_of_ok (SurrealStorage.shouldSpawn_run _ n),
      evaluate_due h]
    rfl
  rw [SurrealStorage.recoverMergeState, Eff.bind_of_ok hread, if_neg (by decide),
    if_neg (by decide), Eff.bind_of_ok hexec]
  show (SurrealStorage.spawnIfNeeded dueExecutor >>= _) n = _
  rw [Eff.bind_of_ok hspawn]
  rfl

/-- A restart after a crash in the first attempt starts a new task. -/
theorem Crashed.restart (ar : Archiver) {S : MergeSystem} (h : Crashed S.store.world.tree) :
    ∃ n, Due n ∧ NodeStep ar dueExecutor (fun _ _ => True) (fun _ => True) S
      ⟨n, [], [.start ar dueExecutor .chainTooLong], S.attempts⟩ := by
  let w : World := { SurrealStorage.emptyWorld [] with tree := S.store.world.tree }
  let n₀ : SurrealStorage :=
    { SurrealStorage.opened w [] with mergeExecutor := some dueExecutor }
  have hdue : Due n₀ := by
    refine ⟨?_, h.readable, h.snapshot, rfl, rfl⟩
    show snapshotRecord.recovered S.store.world.tree .new = dueState
    rw [Record.recovered, h.snapshot]
  have hrunning : (ticked n₀ [MergeTrigger.chainTooLong]).progress.memory = dueProgress :=
    h.progress
  have hrecover : SurrealStorage.recoverMergeState n₀ =
      (.ok (), ticked n₀ [MergeTrigger.chainTooLong]) := recover_due hdue rfl h.progress
  have hstep : NodeStep ar dueExecutor (fun _ _ => True) (fun _ => True) S _ :=
    .restart (w := w) rfl (Readable.new_quiet (w := w) h.readable rfl) trivial hrecover
  have hcount : ¬ ((SurrealStorage.opened w []).progress.memory.inProgress = true ∧
      (ticked n₀ [MergeTrigger.chainTooLong]).progress.memory.inProgress = false) := by
    rw [hrunning]
    rintro ⟨-, hsettled⟩
    cases hsettled
  rw [if_neg hcount] at hstep
  exact ⟨_, hdue.ticked _, hstep⟩

/-- Crash by crash, a new task is about to start with one more attempt counted. -/
theorem crash_loop (ar : Archiver) : ∀ k : Nat, ∃ n calls,
    Due n ∧ Relation.ReflTransGen (NodeStep ar dueExecutor (fun _ _ => True) fun _ => True)
      dueSystem
      ⟨n, calls, [.start ar dueExecutor .chainTooLong], k⟩
  | 0 => by
      obtain ⟨n, calls, hdue, -, hspawn⟩ := run_spawn ar (· ≠ .recover) (fun _ _ => True)
        (S := dueSystem) due_dueStore (by decide) trivial fun _ _ _ => trivial
      exact ⟨n, calls, hdue, NodeStep.of_run hspawn⟩
  | k + 1 => by
      obtain ⟨n, calls, hdue, hrun⟩ := crash_loop ar k
      obtain ⟨n₁, t, hcrashed, htry⟩ := run_attempted ar (· ≠ .recover) (fun _ _ => True) (i := 0)
        (S := ⟨n, calls, [.start ar dueExecutor .chainTooLong], k⟩) hdue rfl
      obtain ⟨n₂, hdue₂, hrestart⟩ :=
        Crashed.restart ar (S := ⟨n₁, calls, [t], k + 1⟩) hcrashed
      exact ⟨n₂, [], hdue₂, (hrun.trans (NodeStep.of_run htry)).tail hrestart⟩

/-- A process that crashes in each attempt tries again after each restart: the task of the
recovery counts from one again, so the record never reaches the configured number. -/
theorem SurrealStorage.merge_attempts_exceed_max : ∃ T : MergeSystem,
    Relation.ReflTransGen (NodeStep .stored dueExecutor (fun _ _ => True) fun _ => True)
        dueSystem T ∧
      dueExecutor.maxRetries.toNat = 3 ∧ T.attempts = 4 := by
  obtain ⟨n, calls, -, hrun⟩ := crash_loop .stored 4
  exact ⟨_, hrun, rfl, rfl⟩

end OpenraftSurrealkv
