import OpenraftSurrealkv.Effects.Faults
import OpenraftSurrealkv.Effects.Open
import OpenraftSurrealkv.Effects.Progress

/-!
# The retry loop of a merge

The loop is stated here over any backend, and `mergeLoop` is the case of the two
backends that the repository has (`mergeLoopWith_backend`).  A backend that
returns a given sequence of outcomes also keeps a list of its calls, with what
is persisted of the merge progress when the call is made.

While attempts fail the loop goes from one to the next with the snapshot state
as it was (`loop_of_failures`).  It ends with the first success or with the last
attempt allowed.
-/

namespace OpenraftSurrealkv

open Postcard MetadataManager

namespace MergeExecutor

/-! ## Any backend -/

/-- Computations on a manager beside the state of a backend. -/
abbrev BackendM (β : Type) : Type → Type := Eff (MetadataManager × β) RaftError

/-- A computation on the manager. -/
def onManager {β α : Type} (x : MetaM α) : BackendM β α :=
  Eff.zoom Prod.fst (fun m s => (m, s.2)) x

/-- The error of a merge that gives up. -/
def gaveUp (retries : UInt8) (err : RaftError) : RaftError :=
  .snapshot (mergeErrorCode err ++ ": merge failed after " ++ toString retries ++ " retries: " ++
    err.display)

section

variable {β : Type} (execute : SnapshotMetaState → BackendM β MergeExecution)
  (cleanup : MergeCleanupConfig) (maxRetries : UInt8) (trigger : MergeTrigger) (started : UInt64)

/-- What follows an attempt: record the merge and clean up, give up, or try again. -/
def afterAttempt (retries : UInt8) (snapshotState : SnapshotMetaState)
    (again : BackendM β MergeTaskResult) :
    Except RaftError MergeExecution → BackendM β MergeTaskResult
  | .ok exec => do
      let mergedState := buildMergedSnapshotState snapshotState started exec.checkpointPath
      onManager (saveSnapshotAndMergeState mergedState
        (.succeeded trigger.asStr retries maxRetries started))
      let cleanupReport ← onManager (sys (MergeCleanup.run cleanup mergedState (some started)))
      pure ⟨true, some trigger, retries, exec.checkpointSizeBytes, cleanupReport⟩
  | .error err =>
      if maxRetries ≤ retries then do
        onManager (saveMergeProgressState
          (.failed trigger.asStr retries maxRetries started err.display))
        Eff.fail (gaveUp retries err)
      else again

/-- The retry loop. -/
def mergeLoopWith : Nat → UInt8 → BackendM β MergeTaskResult
  | 0, _ => Eff.fail (.other "retry loop out of fuel")
  | fuel + 1, previous => do
      let retries := nextRetry previous
      onManager (saveMergeProgressState (.started trigger.asStr retries maxRetries started))
      let snapshotState ← onManager getSnapshotState
      let result ← Eff.attempt (execute snapshotState)
      afterAttempt cleanup maxRetries trigger started retries snapshotState
        (mergeLoopWith fuel retries) result

/-- A merge task from its start to its end. -/
def runMergeLoopWith : BackendM β MergeTaskResult := do
  let started ← onManager (sys Sys.nowSecs)
  mergeLoopWith execute cleanup maxRetries trigger started 255 0

end

theorem onManager_bind {β α γ : Type} (x : MetaM α) (f : α → MetaM γ) :
    (onManager (x >>= f) : BackendM β γ) = onManager x >>= fun a => onManager (f a) := by
  refine Eff.zoom_bind ?_ ?_ x f
  · exact fun _ _ => rfl
  · exact fun _ _ _ => rfl

/-- The loop of the repository's backends. -/
theorem mergeLoopWith_backend {β : Type} (ar : Archiver) (ex : MergeExecutor)
    (trigger : MergeTrigger) (started : UInt64) (fuel : Nat) (previous : UInt8) :
    (mergeLoopWith (fun st => onManager (sys (ex.backend.executeMerge ar st))) ex.cleanup
      ex.maxRetries trigger started fuel previous : BackendM β MergeTaskResult) =
        onManager (mergeLoop ar ex trigger started fuel previous) := by
  induction fuel generalizing previous with
  | zero => rfl
  | succ fuel ih =>
      rw [mergeLoopWith, mergeLoop, onManager_bind]
      refine congrArg _ (funext fun _ => ?_)
      rw [onManager_bind]
      refine congrArg _ (funext fun st => ?_)
      rw [onManager_bind]
      refine congrArg _ (funext fun result => ?_)
      cases result with
      | ok exec =>
          rw [afterAttempt, onManager_bind]
          refine congrArg _ (funext fun _ => ?_)
          rw [onManager_bind]
          rfl
      | error err =>
          rw [afterAttempt, ih]
          by_cases hmax : ex.maxRetries ≤ nextRetry previous
          · simp only [if_pos hmax, onManager_bind]
            rfl
          · simp only [if_neg hmax]

theorem onManager_of_eq {β α : Type} {x : MetaM α} {m m' : MetadataManager} {b : β}
    {r : Except RaftError α} (h : x m = (r, m')) :
    (onManager x : BackendM β α) (m, b) = (r, (m', b)) := by
  rw [onManager, Eff.zoom_run, h]

/-! ## Backends with given outcomes -/

/-- The outcomes of the calls of a backend, and what the calls do to the world.  They leave the
records alone, and the save after a call does not fail. -/
structure Script where
  outcome : Nat → Except RaftError MergeExecution
  effect : Nat → SnapshotMetaState → World → World
  tree_effect : ∀ i st w, (effect i st w).tree = w.tree
  succeeds_effect : ∀ i st w, (effect i st w).Succeeds 4
  short_error : ∀ i err, outcome i = .error err → (Codec.utf8 err.display).length < 2 ^ 62

/-- A call of the backend: what is persisted of the merge progress, and the state to merge. -/
structure BackendCall where
  persisted : Except Postcard.Error (Option MergeProgressState)
  state : SnapshotMetaState

/-- The next outcome, and the call added to the list of calls. -/
def Script.execute (script : Script) (st : SnapshotMetaState) :
    BackendM (List BackendCall) MergeExecution := fun s =>
  (script.outcome s.2.length,
    (s.1.withWorld (script.effect s.2.length st s.1.world),
      s.2 ++ [⟨mergeProgressRecord.persisted s.1.world.tree, st⟩]))

/-! ## Saves -/

/-- A record with a trigger and a short error text fits a buffer. -/
theorem toStdvec_progress {s : MergeProgressState} {trigger : MergeTrigger}
    (htrigger : s.triggerReason = some trigger.asStr)
    (herror : ∀ text, s.lastError = some text → (Codec.utf8 text).length < 2 ^ 62) :
    MergeProgressState.codec.toStdvec s = .ok (MergeProgressState.codec.encode s) := by
  refine Codec.toStdvec_eq_ok_iff.mpr ⟨?_, rfl⟩
  rcases s with ⟨inProgress, reason, attempt, maxRetries, startedAt, updatedAt, lastError⟩
  cases htrigger
  have hreason : (Codec.string.encode trigger.asStr).length ≤ 30 := by
    cases trigger <;> decide +kernel
  have hlast : ((Codec.option Codec.string).encode lastError).length ≤ 2 ^ 62 + 11 := by
    cases lastError with
    | none => decide
    | some text =>
        have hlen := Codec.length_string_le text
        have hshort := herror text rfl
        show (Codec.string.encode text).length + 1 ≤ _
        omega
  have hstarted := Codec.length_u64_le startedAt
  have hupdated := Codec.length_u64_le updatedAt
  show ([_] ++ (1 :: Codec.string.encode trigger.asStr ++ ([_] ++ ([_] ++
    (Codec.u64.encode startedAt ++ (Codec.u64.encode updatedAt ++
      (Codec.option Codec.string).encode lastError)))))).length < _
  simp only [List.length_append, List.length_cons, List.length_nil]
  omega

/-- The snapshot state is the same, in memory and in the tree. -/
structure SameSnapshot (m m' : MetadataManager) : Prop where
  memory : m'.snapshotState = m.snapshotState
  stored : snapshotRecord.persisted m'.world.tree = snapshotRecord.persisted m.world.tree

theorem SameSnapshot.trans {m₁ m₂ m₃ : MetadataManager} (h : SameSnapshot m₁ m₂)
    (h' : SameSnapshot m₂ m₃) : SameSnapshot m₁ m₃ :=
  ⟨h'.memory.trans h.memory, h'.stored.trans h.stored⟩

/-- The merge progress is a given one, in memory and in the tree. -/
structure HasProgress (m : MetadataManager) (s : MergeProgressState) : Prop where
  memory : m.mergeProgressState = s
  stored : mergeProgressRecord.persisted m.world.tree = .ok (some s)

theorem progressKey_ne : mergeProgressRecord.key ≠ snapshotRecord.key := by decide +kernel

theorem exists_saveMergeProgressState {s : MergeProgressState} {m : MetadataManager}
    (hfits : MergeProgressState.codec.toStdvec s = .ok (MergeProgressState.codec.encode s))
    (h : m.world.Succeeds 3) :
    ∃ m', saveMergeProgressState s m = (.ok (), m') ∧ SameSnapshot m m' ∧ HasProgress m' s :=
  ⟨_, Record.save_of_succeeds hfits h,
    ⟨rfl, Record.persisted_insert_of_ne progressKey_ne _ _⟩,
    ⟨rfl, Record.persisted_insert m.world.tree hfits⟩⟩

theorem exists_saveSnapshotAndMergeState {st : SnapshotMetaState} {s : MergeProgressState}
    {m : MetadataManager}
    (hsnapshot : SnapshotMetaState.codec.toStdvec st = .ok (SnapshotMetaState.codec.encode st))
    (hfits : MergeProgressState.codec.toStdvec s = .ok (MergeProgressState.codec.encode s))
    (h : m.world.Succeeds 4) :
    ∃ m', saveSnapshotAndMergeState st s m = (.ok (), m') ∧ m'.snapshotState = st ∧
      snapshotRecord.persisted m'.world.tree = .ok (some st) ∧ HasProgress m' s := by
  obtain ⟨w, hcommit, htree⟩ : ∃ w, Sys.commitWrites
      [.put snapshotRecord.key (SnapshotMetaState.codec.encode st),
        .put mergeProgressRecord.key (MergeProgressState.codec.encode s)] m.world = (.ok (), w) ∧
      w.tree = (m.world.tree.insert snapshotRecord.key (SnapshotMetaState.codec.encode st)).insert
        mergeProgressRecord.key (MergeProgressState.codec.encode s) :=
    ⟨_, Sys.transaction_eq_ok_iff.mpr
      ⟨Sys.keyed_cons.mpr ⟨(by decide : snapshotRecord.key ≠ []), Sys.keyed_put (by decide) _⟩,
        h, rfl⟩, rfl⟩
  have hrun : saveSnapshotAndMergeState st s m =
      (.ok (), mergeProgressRecord.set s (snapshotRecord.set st (m.withWorld w))) := by
    rw [saveSnapshotAndMergeState, hsnapshot, hfits, liftPostcard, liftPostcard,
      Eff.bind_of_ok (Eff.ofExcept_run _ m), Eff.bind_of_ok (Eff.ofExcept_run _ m),
      Eff.bind_of_ok (sys_of_eq hcommit)]
    rfl
  refine ⟨_, hrun, rfl, ?_, rfl, ?_⟩
  · show snapshotRecord.persisted w.tree = _
    rw [htree, Record.persisted_insert_of_ne progressKey_ne]
    exact Record.persisted_insert m.world.tree hsnapshot
  · show mergeProgressRecord.persisted w.tree = _
    rw [htree]
    exact Record.persisted_insert _ hfits

/-! ## One attempt -/

theorem nextRetry_ofNat {i : Nat} (h : i < 255) :
    nextRetry (UInt8.ofNat i) = UInt8.ofNat (i + 1) := by
  have hnat : (UInt8.ofNat i).toNat = i := UInt8.toNat_ofNat_of_lt' (by rw [UInt8.size]; omega)
  rw [nextRetry, if_pos (by omega), UInt8.ofNat_add]
  rfl

theorem not_le_ofNat {maxRetries : UInt8} {i : Nat} (h : i < maxRetries.toNat) :
    ¬ maxRetries ≤ UInt8.ofNat i := by
  have hmax := maxRetries.toNat_lt
  have hnat : (UInt8.ofNat i).toNat = i := UInt8.toNat_ofNat_of_lt' (by rw [UInt8.size]; omega)
  rw [UInt8.le_iff_toNat_le, hnat]
  omega

section

variable (script : Script) (cleanup : MergeCleanupConfig) (maxRetries : UInt8)
  (trigger : MergeTrigger) (started : UInt64)

/-- The call of the attempt after `i` others: its number is in the persisted record. -/
def callAt (st : SnapshotMetaState) (i : Nat) : BackendCall :=
  ⟨.ok (some (.started trigger.asStr (UInt8.ofNat (i + 1)) maxRetries started)), st⟩

/-- The first calls. -/
def callsTo (st : SnapshotMetaState) (i : Nat) : List BackendCall :=
  (List.range i).map (callAt maxRetries trigger started st)

/-- An attempt is recorded as started, and then its outcome decides. -/
theorem loop_attempt {m : MetadataManager} {calls : List BackendCall} {i : Nat} (fuel : Nat)
    (hcalls : calls.length = i) (hi : i < 255) (h : m.world.Succeeds 3) :
    ∃ m', SameSnapshot m m' ∧ m'.world.Succeeds 4 ∧
      mergeLoopWith script.execute cleanup maxRetries trigger started (fuel + 1) (UInt8.ofNat i)
          (m, calls) =
        afterAttempt cleanup maxRetries trigger started (UInt8.ofNat (i + 1)) m.snapshotState
          (mergeLoopWith script.execute cleanup maxRetries trigger started fuel
            (UInt8.ofNat (i + 1)))
          (script.outcome i)
          (m', calls ++ [callAt maxRetries trigger started m.snapshotState i]) := by
  have hfits : MergeProgressState.codec.toStdvec
      (.started trigger.asStr (UInt8.ofNat (i + 1)) maxRetries started) = .ok _ :=
    toStdvec_progress rfl fun _ htext => nomatch htext
  obtain ⟨m₁, hsave, hsame, hprogress⟩ := exists_saveMergeProgressState hfits h
  have hget : (onManager getSnapshotState : BackendM (List BackendCall) _) (m₁, calls) =
      (.ok m.snapshotState, (m₁, calls)) := by
    rw [← hsame.memory]
    rfl
  have hattempt : Eff.attempt (script.execute m.snapshotState) (m₁, calls) =
      (.ok (script.outcome i), (m₁.withWorld (script.effect i m.snapshotState m₁.world),
        calls ++ [callAt maxRetries trigger started m.snapshotState i])) := by
    subst hcalls
    rw [callAt, ← hprogress.stored]
    rfl
  refine ⟨m₁.withWorld (script.effect i m.snapshotState m₁.world), hsame.trans ⟨rfl, ?_⟩,
    script.succeeds_effect _ _ _, ?_⟩
  · rw [withWorld_world, script.tree_effect]
  · rw [mergeLoopWith, nextRetry_ofNat hi, Eff.bind_of_ok (onManager_of_eq hsave),
      Eff.bind_of_ok hget, Eff.bind_of_ok hattempt]

theorem callsTo_succ (st : SnapshotMetaState) (i : Nat) :
    callsTo maxRetries trigger started st (i + 1) =
      callsTo maxRetries trigger started st i ++ [callAt maxRetries trigger started st i] := by
  rw [callsTo, List.range_succ, List.map_append]
  rfl

theorem length_callsTo (st : SnapshotMetaState) (i : Nat) :
    (callsTo maxRetries trigger started st i).length = i := by
  rw [callsTo, List.length_map, List.length_range]

/-! ## Failing attempts -/

/-- After failures, when more attempts are allowed, the loop comes to the outcome of the next
attempt with the same snapshot state. -/
theorem loop_of_failures {m : MetadataManager} (h : m.world.Succeeds 3) {i : Nat}
    (hi : i < maxRetries.toNat) (hfail : ∀ j < i, ∃ err, script.outcome j = .error err) :
    ∃ m', SameSnapshot m m' ∧ m'.world.Succeeds 4 ∧
      mergeLoopWith script.execute cleanup maxRetries trigger started 255 0 (m, []) =
        afterAttempt cleanup maxRetries trigger started (UInt8.ofNat (i + 1)) m.snapshotState
          (mergeLoopWith script.execute cleanup maxRetries trigger started (254 - i)
            (UInt8.ofNat (i + 1)))
          (script.outcome i)
          (m', callsTo maxRetries trigger started m.snapshotState (i + 1)) := by
  induction i with
  | zero =>
      exact loop_attempt script cleanup maxRetries trigger started 254 List.length_nil
        (by decide) h
  | succ i ih =>
      have hmax := maxRetries.toNat_lt
      obtain ⟨err, herr⟩ := hfail i (by omega)
      obtain ⟨m₁, hsame₁, h₁, hrun₁⟩ := ih (by omega) fun j hj => hfail j (by omega)
      obtain ⟨m₂, hsame₂, h₂, hrun₂⟩ := loop_attempt script cleanup maxRetries trigger started
        (254 - (i + 1)) (length_callsTo maxRetries trigger started m.snapshotState (i + 1))
        (by omega) ((World.succeeds_add (a := 3) (b := 1)).mp h₁).1
      refine ⟨m₂, hsame₁.trans hsame₂, h₂, ?_⟩
      rw [hrun₁, herr, afterAttempt, if_neg (not_le_ofNat hi),
        show 254 - i = 254 - (i + 1) + 1 by omega, hrun₂, hsame₁.memory,
        callsTo_succ _ _ _ _ (i + 1)]

/-! ## The last attempt -/

/-- After a success the merged state is saved, and the cleanup leaves it alone. -/
theorem afterAttempt_ok {m : MetadataManager} {calls : List BackendCall} {retries : UInt8}
    {st : SnapshotMetaState} {again : BackendM (List BackendCall) MergeTaskResult}
    {exec : MergeExecution} (h : m.world.Succeeds 4)
    (hmerged : (SnapshotMetaState.codec.encode
      (buildMergedSnapshotState st started exec.checkpointPath)).length < 2 ^ 63) :
    ∃ result m', afterAttempt cleanup maxRetries trigger started retries st again (.ok exec)
        (m, calls) = (result, (m', calls)) ∧
      m'.snapshotState = buildMergedSnapshotState st started exec.checkpointPath ∧
      snapshotRecord.persisted m'.world.tree =
        .ok (some (buildMergedSnapshotState st started exec.checkpointPath)) ∧
      HasProgress m' (.succeeded trigger.asStr retries maxRetries started) := by
  obtain ⟨m₁, hsave, hstate, hstored, hprogress⟩ := exists_saveSnapshotAndMergeState
    (Codec.toStdvec_eq_ok_iff.mpr ⟨hmerged, rfl⟩)
    (toStdvec_progress (s := .succeeded trigger.asStr retries maxRetries started) rfl
      fun _ htext => nomatch htext) h
  have htree := MergeCleanup.within_run_ofTree readsTree_tree.ofTree cleanup
    (buildMergedSnapshotState st started exec.checkpointPath) (some started) m₁.world
  refine ⟨_, m₁.withWorld (MergeCleanup.run cleanup
    (buildMergedSnapshotState st started exec.checkpointPath) (some started) m₁.world).2,
    Prod.ext rfl ?_, hstate, ?_, hprogress.memory, ?_⟩
  · rw [afterAttempt, Eff.bind_of_ok (onManager_of_eq hsave)]
    refine Eff.bind_state (P := fun s : MetadataManager × List BackendCall => s = (_, calls))
      (fun e t ht => ?_) fun a t ht => ?_
    · exact (Prod.mk.inj ht).2.symm
    · exact (Prod.mk.inj ht).2.symm
  · rw [withWorld_world, htree, hstored]
  · rw [withWorld_world, htree, hprogress.stored]

/-- After the last failure the task gives up. -/
theorem afterAttempt_error {m : MetadataManager} {calls : List BackendCall} {retries : UInt8}
    {st : SnapshotMetaState} {again : BackendM (List BackendCall) MergeTaskResult}
    {err : RaftError} (h : m.world.Succeeds 4)
    (hshort : (Codec.utf8 err.display).length < 2 ^ 62) (hlast : maxRetries ≤ retries) :
    ∃ m', afterAttempt cleanup maxRetries trigger started retries st again (.error err)
        (m, calls) = (.error (gaveUp retries err), (m', calls)) ∧ SameSnapshot m m' ∧
      HasProgress m' (.failed trigger.asStr retries maxRetries started err.display) := by
  have hfits : MergeProgressState.codec.toStdvec
      (.failed trigger.asStr retries maxRetries started err.display) = .ok _ :=
    toStdvec_progress rfl fun text htext => by
      cases htext
      exact hshort
  obtain ⟨m₁, hsave, hsame, hprogress⟩ := exists_saveMergeProgressState hfits
    ((World.succeeds_add (a := 3) (b := 1)).mp h).1
  refine ⟨m₁, ?_, hsame, hprogress⟩
  rw [afterAttempt, if_pos hlast, Eff.bind_of_ok (onManager_of_eq hsave)]
  rfl

/-- The attempt after `i` failures ends a loop that has a success there. -/
theorem loop_of_success {m : MetadataManager} (h : m.world.Succeeds 3) {i : Nat}
    {exec : MergeExecution} (hi : i < maxRetries.toNat)
    (hfail : ∀ j < i, ∃ err, script.outcome j = .error err) (hok : script.outcome i = .ok exec)
    (hmerged : (SnapshotMetaState.codec.encode
      (buildMergedSnapshotState m.snapshotState started exec.checkpointPath)).length < 2 ^ 63) :
    ∃ result m', mergeLoopWith script.execute cleanup maxRetries trigger started 255 0 (m, []) =
        (result, (m', callsTo maxRetries trigger started m.snapshotState (i + 1))) ∧
      m'.snapshotState = buildMergedSnapshotState m.snapshotState started exec.checkpointPath ∧
      snapshotRecord.persisted m'.world.tree =
        .ok (some (buildMergedSnapshotState m.snapshotState started exec.checkpointPath)) ∧
      HasProgress m' (.succeeded trigger.asStr (UInt8.ofNat (i + 1)) maxRetries started) := by
  obtain ⟨m₁, _, h₁, hrun⟩ := loop_of_failures script cleanup maxRetries trigger started h hi hfail
  rw [hrun, hok]
  exact afterAttempt_ok cleanup maxRetries trigger started h₁ hmerged

/-- The last attempt allowed ends a loop without a success. -/
theorem loop_of_all_failures {m : MetadataManager} (h : m.world.Succeeds 3)
    (hpos : 1 ≤ maxRetries.toNat)
    (hfail : ∀ j < maxRetries.toNat, ∃ err, script.outcome j = .error err) :
    ∃ err m', script.outcome (maxRetries.toNat - 1) = .error err ∧
      mergeLoopWith script.execute cleanup maxRetries trigger started 255 0 (m, []) =
        (.error (gaveUp maxRetries err),
          (m', callsTo maxRetries trigger started m.snapshotState maxRetries.toNat)) ∧
      SameSnapshot m m' ∧
      HasProgress m' (.failed trigger.asStr maxRetries maxRetries started err.display) := by
  obtain ⟨m₁, hsame, h₁, hrun⟩ := loop_of_failures script cleanup maxRetries trigger started h
    (show maxRetries.toNat - 1 < maxRetries.toNat by omega) fun j hj => hfail j (by omega)
  obtain ⟨err, herr⟩ := hfail (maxRetries.toNat - 1) (by omega)
  rw [show maxRetries.toNat - 1 + 1 = maxRetries.toNat by omega, UInt8.ofNat_toNat, herr] at hrun
  obtain ⟨m', hlast, hsame', hprogress⟩ := afterAttempt_error cleanup maxRetries trigger started h₁
    (script.short_error _ _ herr) (UInt8.le_refl maxRetries)
  exact ⟨err, m', herr, hrun.trans hlast, hsame.trans hsame', hprogress⟩

end

/-! ## The task -/

/-- The first success is the outcome of the call after `i` others. -/
structure Script.FirstSuccess (script : Script) (i : Nat) (exec : MergeExecution) : Prop where
  before : ∀ j < i, ∃ err, script.outcome j = .error err
  success : script.outcome i = .ok exec

theorem Script.FirstSuccess.unique {script : Script} {i i' : Nat} {exec exec' : MergeExecution}
    (h : script.FirstSuccess i exec) (h' : script.FirstSuccess i' exec') :
    i = i' ∧ exec = exec' := by
  have hle : ∀ {i i' : Nat} {exec exec' : MergeExecution}, script.FirstSuccess i exec →
      script.FirstSuccess i' exec' → i ≤ i' := by
    intro i i' exec exec' h h'
    by_contra hlt
    obtain ⟨err, herr⟩ := h.before i' (by omega)
    cases herr.symm.trans h'.success
  obtain rfl := Nat.le_antisymm (hle h h') (hle h' h)
  exact ⟨rfl, Except.ok.inj (h.success.symm.trans h'.success)⟩

theorem Script.failures_or_firstSuccess (script : Script) (k : Nat) :
    (∀ j < k, ∃ err, script.outcome j = .error err) ∨
      ∃ i < k, ∃ exec, script.FirstSuccess i exec := by
  induction k with
  | zero => exact Or.inl fun j hj => absurd hj (Nat.not_lt_zero j)
  | succ k ih =>
      rcases ih with hfail | ⟨i, hi, exec, hfirst⟩
      · cases hk : script.outcome k with
        | ok exec => exact Or.inr ⟨k, Nat.lt_succ_self k, exec, hfail, hk⟩
        | error err =>
            refine Or.inl fun j hj => ?_
            rcases Nat.lt_succ_iff_lt_or_eq.mp hj with hlt | rfl
            · exact hfail j hlt
            · exact ⟨err, hk⟩
      · exact Or.inr ⟨i, Nat.lt_succ_of_lt hi, exec, hfirst⟩

theorem one_le_maxRetries (ex : MergeExecutor) (r : UInt8) :
    1 ≤ (ex.withMaxRetries r).maxRetries.toNat := by
  have hle : (1 : UInt8) ≤ max r 1 := by
    rw [UInt8.max_def]
    grind
  exact UInt8.le_iff_toNat_le.mp hle

/-- The time at which a task starts. -/
def startedAt (m : MetadataManager) : UInt64 := m.world.clock.headD 0

theorem runMergeLoopWith_run (script : Script) (cleanup : MergeCleanupConfig) (maxRetries : UInt8)
    (trigger : MergeTrigger) (m : MetadataManager) :
    runMergeLoopWith script.execute cleanup maxRetries trigger (m, []) =
      mergeLoopWith script.execute cleanup maxRetries trigger (startedAt m) 255 0
        (m.withWorld { m.world with clock := m.world.clock.tail }, []) := rfl

/-- With saves that succeed, a task calls the backend until the first success or the last attempt
allowed.  Each call finds its attempt recorded as started.  A success leaves the merged state and
its record, otherwise the snapshot state is the one before and the task gives up. -/
theorem merge_retries_until_success (script : Script) (ex : MergeExecutor) (r maxRetries : UInt8)
    (trigger : MergeTrigger) (m : MetadataManager)
    (hmax : (ex.withMaxRetries r).maxRetries = maxRetries) (hsaves : m.world.Succeeds 3)
    (hmerged : ∀ i exec, script.outcome i = .ok exec → (SnapshotMetaState.codec.encode
      (buildMergedSnapshotState m.snapshotState (startedAt m) exec.checkpointPath)).length <
        2 ^ 63) :
    ∃ result m' calls,
      runMergeLoopWith script.execute ex.cleanup maxRetries trigger (m, []) =
        (result, (m', calls)) ∧
      m'.mergeProgressState.inProgress = false ∧
      (∀ i exec, i < maxRetries.toNat → script.FirstSuccess i exec →
        calls = callsTo maxRetries trigger (startedAt m) m.snapshotState (i + 1) ∧
        m'.snapshotState =
          buildMergedSnapshotState m.snapshotState (startedAt m) exec.checkpointPath ∧
        snapshotRecord.persisted m'.world.tree = .ok (some
          (buildMergedSnapshotState m.snapshotState (startedAt m) exec.checkpointPath)) ∧
        HasProgress m' (.succeeded trigger.asStr (UInt8.ofNat (i + 1)) maxRetries
          (startedAt m))) ∧
      ((∀ j < maxRetries.toNat, ∃ err, script.outcome j = .error err) →
        ∃ err, script.outcome (maxRetries.toNat - 1) = .error err ∧
          result = .error (gaveUp maxRetries err) ∧
          calls = callsTo maxRetries trigger (startedAt m) m.snapshotState maxRetries.toNat ∧
          SameSnapshot m m' ∧
          HasProgress m' (.failed trigger.asStr maxRetries maxRetries (startedAt m)
            err.display)) := by
  rcases script.failures_or_firstSuccess maxRetries.toNat with hfail | ⟨i, hi, exec, hfirst⟩
  · obtain ⟨err, m', hlast, hrun, hsame, hprogress⟩ := loop_of_all_failures script ex.cleanup
      maxRetries trigger (startedAt m)
      (m := m.withWorld { m.world with clock := m.world.clock.tail }) hsaves
      (hmax ▸ one_le_maxRetries ex r) hfail
    refine ⟨_, m', _, (runMergeLoopWith_run ..).trans hrun, ?_, ?_, ?_⟩
    · rw [hprogress.memory]
      rfl
    · intro i exec hi hfirst
      obtain ⟨err, herr⟩ := hfail i hi
      cases herr.symm.trans hfirst.success
    · exact fun _ => ⟨err, hlast, rfl, rfl, ⟨hsame.memory, hsame.stored⟩, hprogress⟩
  · obtain ⟨result, m', hrun, hstate, hstored, hprogress⟩ := loop_of_success script ex.cleanup
      maxRetries trigger (startedAt m)
      (m := m.withWorld { m.world with clock := m.world.clock.tail }) hsaves hi hfirst.before
      hfirst.success (hmerged i exec hfirst.success)
    refine ⟨result, m', _, (runMergeLoopWith_run ..).trans hrun, ?_, ?_, ?_⟩
    · rw [hprogress.memory]
      rfl
    · intro i' exec' _ hfirst'
      obtain ⟨rfl, rfl⟩ := hfirst.unique hfirst'
      exact ⟨rfl, hstate, hstored, hprogress⟩
    · intro hfail
      obtain ⟨err, herr⟩ := hfail i hi
      cases herr.symm.trans hfirst.success

/-- A backend that fails twice. -/
def flaky : Script where
  outcome i := if i < 2 then .error (.snapshot "MERGE_INJECTED_FAILURE: injected failure")
    else .ok ⟨8192, some "target/checkpoints/checkpoint_test"⟩
  effect _ _ w := w.withFaults []
  tree_effect _ _ _ := rfl
  succeeds_effect _ _ _ := World.succeeds_of_quiet rfl 4
  short_error i err h := by
    split at h
    · cases h
      decide +kernel
    · cases h

/-- A manager with a checkpoint and a delta. -/
def withDelta : MetadataManager :=
  { MetadataManager.new (SurrealStorage.emptyWorld [100]) with
    snapshotState := ⟨some ⟨10, 2, 3, 1, none⟩, [⟨11, 20, 100, 2, none⟩], 100⟩ }

/-- The third attempt succeeds. -/
theorem merge_retries_until_success_flaky : ∃ result m' calls,
    runMergeLoopWith flaky.execute MergeCleanupConfig.default 3 .chainTooLong (withDelta, []) =
        (result, (m', calls)) ∧
      calls = callsTo 3 .chainTooLong 100 withDelta.snapshotState 3 ∧
      m'.snapshotState = ⟨some ⟨20, 2, 4, 100, some "target/checkpoints/checkpoint_test"⟩, [], 0⟩ ∧
      m'.mergeProgressState = .succeeded "chain_too_long" 3 3 100 := by
  have hfirst : flaky.FirstSuccess 2 ⟨8192, some "target/checkpoints/checkpoint_test"⟩ := by
    exact ⟨fun j hj => ⟨_, if_pos hj⟩, rfl⟩
  obtain ⟨result, m', calls, hrun, _, hsuccess, _⟩ := merge_retries_until_success flaky
    (.new .new .default) 3 3 .chainTooLong withDelta rfl (World.succeeds_of_quiet rfl 3) (by
      intro i exec h
      have hexec : exec = ⟨8192, some "target/checkpoints/checkpoint_test"⟩ := by
        unfold flaky at h
        simp only at h
        split at h
        · cases h
        · cases h
          rfl
      subst hexec
      decide +kernel)
  obtain ⟨hcalls, hstate, _, hprogress⟩ := hsuccess 2 _ (by decide) hfirst
  exact ⟨result, m', calls, hrun, hcalls, hstate, hprogress.memory⟩

end MergeExecutor

end OpenraftSurrealkv
