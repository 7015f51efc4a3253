import OpenraftSurrealkv.Effects.History
import OpenraftSurrealkv.Effects.Saving

/-!
# What a merge does

A merge task can end in two ways.  Either it leaves the chain, the checkpoint
and the files as they were, or it has folded the chain: the checkpoint is at the
end of the last delta and the chain is empty.  Files are removed only after the
chain was folded.

With no failure to come, replaying a chain runs the requests of its files, one
delta after the other, on the tree.  It stops at an entry that does not decode
and at a request with the empty key, which SurrealKV refuses.
-/

namespace OpenraftSurrealkv

open Postcard

/-! ## An attempt writes no file -/

section

variable {R : World → World → Prop} [IsPreorder World R]

namespace CheckpointMergeBackend

theorem within_resolveBaselineCheckpoint (h : Sys.Stored R) (st : SnapshotMetaState) :
    Eff.Within R (resolveBaselineCheckpoint st) := by
  unfold resolveBaselineCheckpoint
  cases st.lastCheckpoint with
  | none => exact .fail _
  | some cp =>
      cases hpath : cp.checkpointPath with
      | none =>
          simp only [hpath]
          exact .fail _
      | some path =>
          simp only [hpath]
          refine .bind (Eff.Within.attempt (Sys.within_external h _)) fun reachable =>
            .bind (.gets _) fun dir => ?_
          cases reachable with
          | error e => exact .fail _
          | ok u =>
              cases dir with
              | none => exact .fail _
              | some d => exact .pure _

theorem within_loadBaselineCheckpointToTree (h : Sys.Frame R) (checkpointPath tempPath : String) :
    Eff.Within R (loadBaselineCheckpointToTree checkpointPath tempPath) := by
  refine .bind (Sys.within_external h.stored _) fun _ =>
    .bind (Sys.within_external h.stored _) fun _ => .bind (.gets _) fun baseline => ?_
  cases baseline with
  | none => exact .fail _
  | some d =>
      exact .bind (Sys.within_updateDir h _ _) fun _ =>
        .bind (Sys.within_external h.stored _) fun _ => .pure _

theorem within_createTempTree (h : Sys.Frame R) (tempBase : String) (st : SnapshotMetaState) :
    Eff.Within R (createTempTree tempBase st) :=
  .bind (Sys.within_newUuid h.stored) fun _ =>
    .bind (Sys.within_createDirAll h _ _) fun _ =>
      .bind (within_resolveBaselineCheckpoint h.stored st) fun baseline =>
        within_loadBaselineCheckpointToTree h baseline _

theorem within_applyEntriesToTree (h : Sys.OfFiles R) : ∀ es : List DeltaEntry,
    Eff.Within R (applyEntriesToTree es)
  | [] => .pure _
  | _ :: es =>
      .bind (.bind (.ofExcept _) fun _ => h.transaction _ _ _ _) fun _ =>
        within_applyEntriesToTree h es

/-- The replay of one delta. -/
def replayDelta (ar : Archiver) (d : DeltaInfo) : Sys Unit :=
  match d.filePath with
  | none => pure ()
  | some path => do
      let bytes ← Sys.readFile path
      let es ← Eff.ofExcept (DeltaSnapshotCodec.decodeEntries ar bytes)
      applyEntriesToTree es

theorem replayChain_cons (ar : Archiver) (d : DeltaInfo) (chain : List DeltaInfo) :
    replayChain ar (d :: chain) = replayDelta ar d >>= fun _ => replayChain ar chain := by
  rw [replayChain, replayDelta]
  cases d.filePath with
  | none => rfl
  | some path => simp only [Eff.bind_assoc]

theorem within_replayDelta (h : Sys.OfFiles R) (ar : Archiver) (d : DeltaInfo) :
    Eff.Within R (replayDelta ar d) := by
  unfold replayDelta
  cases d.filePath with
  | none => exact .pure _
  | some path =>
      exact .bind (Sys.within_readFile h.stored path) fun _ =>
        .bind (.ofExcept _) fun es => within_applyEntriesToTree h es

theorem within_replayChain (h : Sys.OfFiles R) (ar : Archiver) : ∀ chain : List DeltaInfo,
    Eff.Within R (replayChain ar chain)
  | [] => .pure _
  | d :: chain => by
      rw [replayChain_cons]
      exact .bind (within_replayDelta h ar d) fun _ => within_replayChain h ar chain

theorem within_createCheckpointFromTree (h : Sys.OfFiles R) (ar : Archiver)
    (st : SnapshotMetaState) : Eff.Within R (createCheckpointFromTree ar st) := by
  refine .bind (within_create h.toFrame h.writeSequenceNumber _ _ _) fun metadata =>
    .bind ?_ fun _ => .pure _
  refine .bind (Sys.within_external h.stored _) fun _ => .bind (.gets _) fun dir => ?_
  cases dir with
  | none => exact .fail _
  | some d => exact .pure _

end CheckpointMergeBackend

open CheckpointMergeBackend in
theorem within_executeMerge (h : Sys.OfFiles R) (ar : Archiver) (st : SnapshotMetaState) :
    ∀ backend : MergeBackend, Eff.Within R (backend.executeMerge ar st)
  | .metadataOnly => .pure _
  | .checkpoint tempBase =>
      .bind (within_createTempTree h.toFrame tempBase st) fun tree =>
        h.withTree tree <| .bind (within_replayChain h ar st.deltaChain) fun _ =>
          within_createCheckpointFromTree h ar st

end

/-! ## The task -/

namespace MergeExecutor

/-- What a merge leaves alone until it has folded the chain. -/
structure Untouched where
  appliedState : AppliedState
  snapshotState : SnapshotMetaState
  fileState : OrdMap String Bytes × Bool

def untouched (m : MetadataManager) : Untouched :=
  ⟨m.appliedState, m.snapshotState, Sys.fileState m.world⟩

/-- The two ways in which a merge task ends. -/
def Outcome (m m' : MetadataManager) : Prop :=
  m'.appliedState = m.appliedState ∧
    (m'.snapshotState = m.snapshotState ∧ Sys.fileState m'.world = Sys.fileState m.world ∨
      ∃ now path, m'.snapshotState = buildMergedSnapshotState m.snapshotState now path)

theorem Outcome.of_untouched {m m' : MetadataManager} (h : untouched m' = untouched m) :
    Outcome m m' :=
  ⟨congrArg Untouched.appliedState h,
    Or.inl ⟨congrArg Untouched.snapshotState h, congrArg Untouched.fileState h⟩⟩

theorem Outcome.trans_untouched {m m₁ m' : MetadataManager} (h : untouched m₁ = untouched m)
    (h' : Outcome m₁ m') : Outcome m m' := by
  have happ : m₁.appliedState = m.appliedState := congrArg Untouched.appliedState h
  have hst : m₁.snapshotState = m.snapshotState := congrArg Untouched.snapshotState h
  have hfiles : Sys.fileState m₁.world = Sys.fileState m.world := congrArg Untouched.fileState h
  unfold Outcome
  rw [← happ, ← hst, ← hfiles]
  exact h'

theorem keeps_untouched_sys {α : Type} {x : Sys α} (h : Eff.Keeps Sys.fileState x) :
    Eff.Keeps untouched (MetadataManager.sys x) := by
  intro m
  have hfiles : Sys.fileState (x m.world).2 = Sys.fileState m.world := h m.world
  show (⟨m.appliedState, m.snapshotState, Sys.fileState (x m.world).2⟩ : Untouched) = untouched m
  rw [hfiles]
  rfl

theorem keeps_untouched_saveMergeProgressState (st : MergeProgressState) :
    Eff.Keeps untouched (MetadataManager.saveMergeProgressState st) :=
  Record.keeps_save st (fun _ => keeps_untouched_sys (Sys.ofFiles_fileState.transaction _ _ _ _))
    fun _ => rfl

/-- Saving the merged state folds the chain or changes nothing. -/
theorem saveSnapshotAndMergeState_outcome (st : SnapshotMetaState) (progress : MergeProgressState)
    (m : MetadataManager) :
    (∃ e m', MetadataManager.saveSnapshotAndMergeState st progress m = (.error e, m') ∧
      untouched m' = untouched m) ∨
    ∃ m', MetadataManager.saveSnapshotAndMergeState st progress m = (.ok (), m') ∧
      m'.appliedState = m.appliedState ∧ m'.snapshotState = st ∧ m'.files = m.files := by
  obtain ⟨fs, ⟨ws, -, hok⟩ | ⟨e, herr⟩⟩ := MetaSave.call_cases (.snapshotAndMerge st progress) m
  · exact Or.inr ⟨_, hok, rfl, rfl, rfl⟩
  · exact Or.inl ⟨e, _, herr, rfl⟩

/-- After a successful attempt the chain is folded, unless the merged state cannot be saved. -/
theorem afterAttempt_outcome {now : UInt64} {path : Option String}
    {progress : MergeProgressState} {α : Type} (f : Unit → MetaM α)
    (hf : ∀ u, Eff.Keeps MetadataManager.appliedState (f u) ∧
      Eff.Keeps MetadataManager.snapshotState (f u)) (m : MetadataManager) :
    Outcome m ((MetadataManager.saveSnapshotAndMergeState
      (buildMergedSnapshotState m.snapshotState now path) progress >>= f) m).2 := by
  rcases saveSnapshotAndMergeState_outcome (buildMergedSnapshotState m.snapshotState now path)
    progress m with ⟨e, m', herr, hsame⟩ | ⟨m', hok, happ, hst, _⟩
  · rw [Eff.bind_of_error herr]
    exact .of_untouched hsame
  · rw [Eff.bind_of_ok hok]
    have happ' : (f () m').2.appliedState = m'.appliedState := (hf ()).1 m'
    have hst' : (f () m').2.snapshotState = m'.snapshotState := (hf ()).2 m'
    exact ⟨happ'.trans happ, Or.inr ⟨now, path, hst'.trans hst⟩⟩

theorem mergeLoop_outcome (ar : Archiver) (ex : MergeExecutor) (trigger : MergeTrigger)
    (started : UInt64) : ∀ (fuel : Nat) (previous : UInt8) (m : MetadataManager),
      Outcome m (mergeLoop ar ex trigger started fuel previous m).2
  | 0, _, m => .of_untouched rfl
  | fuel + 1, previous, m => by
      have hsave := keeps_untouched_saveMergeProgressState
        (.started trigger.asStr (nextRetry previous) ex.maxRetries started) m
      unfold mergeLoop
      refine Eff.bind_state (fun e m₁ h₁ => ?_) fun _ m₁ h₁ => ?_
      · rw [h₁] at hsave
        exact .of_untouched hsave
      rw [h₁] at hsave
      refine .trans_untouched hsave ?_
      refine Eff.bind_state (fun e m₂ h₂ => nomatch h₂) fun st m₂ h₂ => ?_
      cases h₂
      have hattempt := keeps_untouched_sys
        (within_executeMerge Sys.ofFiles_fileState ar m₁.snapshotState ex.backend) m₁
      refine Eff.bind_state (fun e m₂ h₂ => nomatch h₂) fun result m₂ h₂ => ?_
      have hm₂ : untouched m₂ = untouched m₁ := by
        rw [← (Prod.mk.inj h₂).2]
        exact hattempt
      have hst : m₂.snapshotState = m₁.snapshotState := congrArg Untouched.snapshotState hm₂
      refine .trans_untouched hm₂ ?_
      cases result with
      | ok exec =>
          rw [← hst]
          refine afterAttempt_outcome _ (fun _ => ⟨?_, ?_⟩) m₂
          · exact .bind (MetadataManager.keeps_sys (fun _ _ => rfl) _) fun _ => .pure _
          · exact .bind (MetadataManager.keeps_sys (fun _ _ => rfl) _) fun _ => .pure _
      | error err =>
          by_cases hmax : ex.maxRetries ≤ nextRetry previous
          · simp only [if_pos hmax]
            have hfailed := keeps_untouched_saveMergeProgressState (.failed trigger.asStr
              (nextRetry previous) ex.maxRetries started err.display) m₂
            refine Eff.bind_state (fun e m₃ h₃ => ?_) fun _ m₃ h₃ => ?_
            · rw [h₃] at hfailed
              exact .of_untouched hfailed
            · rw [h₃] at hfailed
              exact .of_untouched hfailed
          · simp only [if_neg hmax]
            exact mergeLoop_outcome ar ex trigger started fuel (nextRetry previous) m₂

/-- A merge task folds the chain or leaves it alone. -/
theorem runMergeLoop_outcome {ar : Archiver} {ex : MergeExecutor} {trigger : MergeTrigger}
    {r : Except RaftError MergeTaskResult} {m m' : MetadataManager}
    (h : ex.runMergeLoop ar trigger m = (r, m')) : Outcome m m' := by
  have houtcome : Outcome m (runMergeLoop ar ex trigger m).2 := by
    refine Eff.bind_state (fun e m₁ h₁ => nomatch h₁) fun started m₁ h₁ => ?_
    have hsame : untouched m₁ = untouched m := by
      rw [← (Prod.mk.inj h₁).2]
      rfl
    exact .trans_untouched hsame (mergeLoop_outcome ar ex trigger started 255 0 m₁)
  rw [h] at houtcome
  exact houtcome

end MergeExecutor

/-! ## Replaying a chain -/

theorem readFile_quiet {w : World} {path : String} {bytes : Bytes} (h : w.Quiet)
    (hfile : w.files[path]? = some bytes) : Sys.readFile path w = (.ok bytes, w) := by
  rw [Sys.readFile, Eff.bind_of_ok (Sys.external_quiet _ h), Eff.bind_of_ok (Eff.gets_run _ w),
    hfile]
  rfl

namespace CheckpointMergeBackend

open SurrealStorage

/-- A request as an update of a tree. -/
def treeUpdate (req : KVRequest) : Update Bytes Bytes := req.update.mapKey Codec.utf8

theorem key_treeUpdate (req : KVRequest) : (treeUpdate req).key = Codec.utf8 req.key := by
  cases req <;> rfl

theorem key_treeUpdate_eq_nil_iff {req : KVRequest} : (treeUpdate req).key = [] ↔ req.key = "" := by
  rw [key_treeUpdate]
  exact Codec.utf8_injective.eq_iff (a := req.key) (b := "")

theorem applyEntryToTree_error {d : DeltaEntry} {err : Postcard.Error}
    (h : KVRequest.codec.fromBytes d.payload = .error err) (w : World) :
    applyEntryToTree d w =
      (.error (.serialization ("failed to decode entry: " ++ err.message)), w) := by
  rw [applyEntryToTree, h, liftPostcard, Eff.bind_of_error (Eff.ofExcept_run _ w)]

/-- A request with the empty key is refused. -/
theorem applyEntryToTree_empty_key {d : DeltaEntry} {req : KVRequest}
    (h : KVRequest.codec.fromBytes d.payload = .ok req) (hkey : req.key = "") (w : World) :
    ∃ e fs, applyEntryToTree d w = (.error e, w.withFaults fs) := by
  rw [applyEntryToTree, h, liftPostcard, Eff.bind_of_ok (Eff.ofExcept_run _ w)]
  exact Sys.commitWrites_empty_key (key_treeUpdate_eq_nil_iff.mpr hkey) w

/-- With no failure to come, a request takes effect on the tree. -/
theorem applyEntryToTree_of_fromBytes {d : DeltaEntry} {req : KVRequest} {w : World}
    (h : KVRequest.codec.fromBytes d.payload = .ok req) (hkey : req.key ≠ "") (hquiet : w.Quiet) :
    applyEntryToTree d w = (.ok (), w.withTree ((treeUpdate req).run w.tree)) := by
  rw [applyEntryToTree, h, liftPostcard, Eff.bind_of_ok (Eff.ofExcept_run _ w)]
  exact Sys.commitWrites_quiet hquiet
    (List.forall_mem_singleton.mpr (mt key_treeUpdate_eq_nil_iff.mp hkey))

/-! ### The requests that a replay runs -/

/-- The requests of entries up to the first that does not decode or has the empty key, and whether
there is no such entry. -/
def replayable : List DeltaEntry → List KVRequest × Bool
  | [] => ([], true)
  | e :: es =>
      match KVRequest.codec.fromBytes e.payload with
      | .ok req =>
          if req.key = "" then ([], false) else (req :: (replayable es).1, (replayable es).2)
      | .error _ => ([], false)

/-- The three cases of an entry: it does not decode, its key is empty, or it runs. -/
theorem replayable_cases (e : DeltaEntry) (es : List DeltaEntry) :
    replayable (e :: es) = ([], false) ∧
        (∀ w, ∃ err fs, applyEntryToTree e w = (.error err, w.withFaults fs)) ∨
      ∃ req, KVRequest.codec.fromBytes e.payload = .ok req ∧ req.key ≠ "" ∧
        replayable (e :: es) = (req :: (replayable es).1, (replayable es).2) := by
  cases hdec : KVRequest.codec.fromBytes e.payload with
  | error err =>
      refine Or.inl ⟨?_, fun w => ⟨_, w.faults, applyEntryToTree_error hdec w⟩⟩
      rw [replayable, hdec]
  | ok req =>
      by_cases hkey : req.key = ""
      · refine Or.inl ⟨?_, applyEntryToTree_empty_key hdec hkey⟩
        rw [replayable, hdec]
        exact if_pos hkey
      · refine Or.inr ⟨req, rfl, hkey, ?_⟩
        rw [replayable, hdec]
        exact if_neg hkey

/-- With no failure to come, the entries up to the first that cannot run take effect, and the replay
succeeds when there is none. -/
theorem applyEntriesToTree_replayable (es : List DeltaEntry) {w : World} (hw : w.Quiet) :
    ∃ r fs, applyEntriesToTree es w =
        (r, (w.withTree (replay w.tree ((replayable es).1.map treeUpdate))).withFaults fs) ∧
      ((replayable es).2 = true → r = .ok () ∧ fs = []) ∧
      ((replayable es).2 = false → ∃ err, r = .error err) := by
  induction es generalizing w with
  | nil =>
      refine ⟨.ok (), [], ?_, fun _ => ⟨rfl, rfl⟩, fun hfalse => nomatch hfalse⟩
      have hnone : w.withFaults [] = w := by
        rw [← hw]
        rfl
      exact congrArg (Prod.mk _) hnone.symm
  | cons e es ih =>
      rcases replayable_cases e es with ⟨hstop, hfails⟩ | ⟨req, hdec, hkey, hruns⟩
      · obtain ⟨err, fs, hrun⟩ := hfails w
        refine ⟨.error err, fs, ?_, ?_, fun _ => ⟨err, rfl⟩⟩
        · rw [applyEntriesToTree, Eff.bind_of_error hrun, hstop]
          rfl
        · rw [hstop]
          exact fun hfalse => nomatch hfalse
      · obtain ⟨r, fs, hrun, hr⟩ := ih (w := w.withTree ((treeUpdate req).run w.tree)) hw
        refine ⟨r, fs, ?_, ?_⟩
        · rw [applyEntriesToTree, Eff.bind_of_ok (applyEntryToTree_of_fromBytes hdec hkey hw),
            hruns]
          exact hrun
        · rw [hruns]
          exact hr

/-- Entries that ran to the end all decode and have keys. -/
theorem replayable_of_ok {es : List DeltaEntry} {w w' : World} {u : Unit}
    (h : applyEntriesToTree es w = (.ok u, w')) : (replayable es).2 = true := by
  induction es generalizing w with
  | nil => rfl
  | cons e es ih =>
      obtain ⟨_, w₁, hone, hrest⟩ := Eff.bind_eq_ok_iff.mp h
      rcases replayable_cases e es with ⟨_, hfails⟩ | ⟨req, _, _, hruns⟩
      · obtain ⟨err, fs, herr⟩ := hfails w
        rw [herr] at hone
        cases hone
      · rw [hruns]
        exact ih hrest

/-! ### The requests of a chain -/

/-- The payload of an entry is a request. -/
def Decodes (d : DeltaEntry) (req : KVRequest) : Prop :=
  KVRequest.codec.fromBytes d.payload = .ok req

/-- No request has the empty key. -/
def NonemptyKeys (reqs : List KVRequest) : Prop := ∀ req ∈ reqs, req.key ≠ ""

/-- Entries that decode can all run unless one of them has the empty key. -/
theorem replayable_of_decodes {ds : List DeltaEntry} {reqs : List KVRequest}
    (h : List.Forall₂ Decodes ds reqs) :
    ((replayable ds).2 = true ↔ NonemptyKeys reqs) ∧
      ((replayable ds).2 = true → (replayable ds).1 = reqs) := by
  induction h with
  | nil => exact ⟨iff_of_true rfl (List.forall_mem_nil _), fun _ => rfl⟩
  | @cons d req ds reqs hone _ ih =>
      have hkeys : NonemptyKeys (req :: reqs) ↔ req.key ≠ "" ∧ NonemptyKeys reqs :=
        List.forall_mem_cons
      rw [replayable, show KVRequest.codec.fromBytes d.payload = .ok req from hone, hkeys]
      by_cases hkey : req.key = ""
      · simp [hkey]
      · simp only [ne_eq, hkey, not_false_eq_true, true_and]
        exact ⟨ih.1, fun hall => congrArg (req :: ·) (ih.2 hall)⟩

/-- What a delta carries of entries decodes to their requests. -/
theorem forall₂_decodes {es : List Entry} {ds : List DeltaEntry}
    (h : List.Forall₂ Carries es ds) : List.Forall₂ Decodes ds (requests es) := by
  induction h with
  | nil => exact .nil
  | @cons e d es ds hone _ ih =>
      obtain ⟨req, hreq, hfit, rfl⟩ := hone
      have hrequests : requests (e :: es) = req :: requests es :=
        List.filterMap_cons_some (by rw [Entry.request?, hreq])
      rw [hrequests]
      exact .cons (Codec.fromBytes_of_toStdvec (Codec.toStdvec_eq_ok_iff.mpr ⟨hfit, rfl⟩)) ih

/-- The requests of a delta run on the tree in turn. -/
theorem applyEntriesToTree_quiet {ds : List DeltaEntry} {reqs : List KVRequest}
    (h : List.Forall₂ Decodes ds reqs) (hkeys : NonemptyKeys reqs) {w : World}
    (hquiet : w.Quiet) :
    applyEntriesToTree ds w = (.ok (), w.withTree (replay w.tree (reqs.map treeUpdate))) := by
  obtain ⟨hall, hsame⟩ := replayable_of_decodes h
  obtain ⟨r, fs, hrun, hok, _⟩ := applyEntriesToTree_replayable ds hquiet
  obtain ⟨rfl, rfl⟩ := hok (hall.mpr hkeys)
  have hnone : (w.withTree (replay w.tree (reqs.map treeUpdate))).withFaults [] =
      w.withTree (replay w.tree (reqs.map treeUpdate)) := by
    rw [← hquiet]
    rfl
  rw [hrun, hsame (hall.mpr hkeys), hnone]

/-- The file of a delta holds requests. -/
def FileHolds (ar : Archiver) (files : OrdMap String Bytes) (reqs : List KVRequest)
    (d : DeltaInfo) : Prop :=
  ∃ path bytes ds, d.filePath = some path ∧ files[path]? = some bytes ∧
    DeltaSnapshotCodec.decodeEntries ar bytes = .ok ds ∧ List.Forall₂ Decodes ds reqs

theorem FileHolds.replayDelta {ar : Archiver} {w : World} {reqs : List KVRequest} {d : DeltaInfo}
    (h : FileHolds ar w.files reqs d) (hkeys : NonemptyKeys reqs) (hquiet : w.Quiet) :
    replayDelta ar d w = (.ok (), w.withTree (replay w.tree (reqs.map treeUpdate))) := by
  obtain ⟨path, bytes, ds, hpath, hfile, hdecode, hds⟩ := h
  rw [CheckpointMergeBackend.replayDelta, hpath]
  simp only []
  rw [Eff.bind_of_ok (readFile_quiet hquiet hfile), hdecode, Eff.bind_of_ok (Eff.ofExcept_run _ w),
    applyEntriesToTree_quiet hds hkeys hquiet]

theorem FileHolds.nonemptyKeys {ar : Archiver} {w w' : World} {reqs : List KVRequest}
    {d : DeltaInfo} {u : Unit} (h : FileHolds ar w.files reqs d)
    (hrun : CheckpointMergeBackend.replayDelta ar d w = (.ok u, w')) : NonemptyKeys reqs := by
  obtain ⟨path, bytes, ds, hpath, hfile, hdecode, hds⟩ := h
  rw [CheckpointMergeBackend.replayDelta, hpath] at hrun
  obtain ⟨bytes', w₁, hread, hrun⟩ := Eff.bind_eq_ok_iff.mp hrun
  obtain ⟨hfile', fs, rfl⟩ := Sys.readFile_ok hread
  rw [hfile] at hfile'
  cases hfile'
  rw [hdecode, Eff.bind_of_ok (Eff.ofExcept_run _ _)] at hrun
  exact (replayable_of_decodes hds).1.mp (replayable_of_ok hrun)

/-- Replaying a chain runs the requests of its deltas one after the other. -/
theorem replayChain_quiet {ar : Archiver} {files : OrdMap String Bytes}
    {deltas : List (List KVRequest)} {chain : List DeltaInfo}
    (h : List.Forall₂ (FileHolds ar files) deltas chain) : (∀ reqs ∈ deltas, NonemptyKeys reqs) →
      ∀ {w : World}, w.Quiet → w.files = files → replayChain ar chain w =
        (.ok (), w.withTree ((deltas.map (List.map treeUpdate)).foldl replay w.tree)) := by
  induction h with
  | nil => exact fun _ _ _ _ => rfl
  | @cons reqs d deltas chain hone _ ih =>
      intro hkeys w hquiet hfiles
      obtain ⟨hkey, hrest⟩ := List.forall_mem_cons.mp hkeys
      have hquiet' : (w.withTree (replay w.tree (reqs.map treeUpdate))).Quiet := hquiet
      subst hfiles
      rw [replayChain_cons, Eff.bind_of_ok (hone.replayDelta hkey hquiet), ih hrest hquiet' rfl]
      rfl

/-- A chain that was replayed has no request with the empty key. -/
theorem nonemptyKeys_of_replayChain {ar : Archiver} {files : OrdMap String Bytes}
    {deltas : List (List KVRequest)} {chain : List DeltaInfo}
    (h : List.Forall₂ (FileHolds ar files) deltas chain) : ∀ {w w' : World} {u : Unit},
      w.files = files → replayChain ar chain w = (.ok u, w') →
        ∀ reqs ∈ deltas, NonemptyKeys reqs := by
  induction h with
  | nil => exact fun _ _ _ hreqs => nomatch hreqs
  | @cons reqs d deltas chain hone _ ih =>
      intro w w' u hfiles hrun
      rw [replayChain_cons] at hrun
      obtain ⟨_, w₁, hdelta, hrest⟩ := Eff.bind_eq_ok_iff.mp hrun
      have hsame := (within_replayDelta Sys.ofFiles_files ar d).of_run hdelta
      subst hfiles
      exact List.forall_mem_cons.mpr ⟨hone.nonemptyKeys hdelta, ih hsame hrest⟩

end CheckpointMergeBackend

end OpenraftSurrealkv
