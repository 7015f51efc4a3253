import OpenraftSurrealkv.Lib.Steps
import OpenraftSurrealkv.State

/-!
# Saving metadata step by step

The five saves of the metadata manager, as calls that can be interrupted:
begin, one write a record, commit, then one memory write a record.  Run in a row
the steps are the save (`MetaSave.run_steps`).  An interrupted save has either
not touched the tree or has landed in it as a whole (`MetaSave.tree_of_stops`),
and a save that lands changes exactly its own records (`MetaSave.ofTree_replay`).
-/

namespace OpenraftSurrealkv

open Postcard

/-- The steps of a save. -/
inductive SavePhase where
  | beginTxn
  | setKey
  | commit
  | remember
deriving DecidableEq, Repr

/-! ## Transactions -/

namespace Sys

/-- The writes of a transaction, one step each. -/
def setSteps (wrap : String → RaftError) :
    List (Update Bytes Bytes) → Steps SavePhase World RaftError Unit
  | [] => .done (.ok ())
  | write :: writes =>
      (Steps.act .setKey (setKey wrap write)).andThen fun _ => setSteps wrap writes

/-- Begin, the writes, commit. -/
def transactionSteps (onBegin onSet onCommit : String → RaftError)
    (writes : List (Update Bytes Bytes)) : Steps SavePhase World RaftError Unit :=
  (Steps.act .beginTxn (external onBegin)).andThen fun _ =>
    (setSteps onSet writes).andThen fun _ =>
      Steps.act .commit do
        external onCommit
        Eff.modify fun w => w.withTree (replay w.tree writes)

theorem run_setSteps (wrap : String → RaftError) :
    ∀ writes : List (Update Bytes Bytes), (setSteps wrap writes).run = setAll wrap writes
  | [] => rfl
  | _ :: writes => by
      rw [setSteps, Steps.run_andThen, Steps.run_act, run_setSteps wrap writes]
      rfl

theorem run_transactionSteps (onBegin onSet onCommit : String → RaftError)
    (writes : List (Update Bytes Bytes)) :
    (transactionSteps onBegin onSet onCommit writes).run =
      transaction onBegin onSet onCommit writes := by
  simp only [transactionSteps, Steps.run_andThen, Steps.run_act, run_setSteps]
  rfl

theorem tree_external (wrap : String → RaftError) (w : World) :
    (external wrap w).2.tree = w.tree := by
  obtain ⟨fs, hok | ⟨e, herr⟩⟩ := external_cases wrap w
  · rw [hok]
    rfl
  · rw [herr]
    rfl

theorem setKey_ok {wrap : String → RaftError} {write : Update Bytes Bytes} {w w' : World} {u : Unit}
    (h : setKey wrap write w = (.ok u, w')) : ∃ fs, w' = w.withFaults fs := by
  obtain ⟨fs, hok | ⟨e, herr⟩⟩ := setKey_cases wrap write w
  · rw [hok] at h
    exact ⟨fs, (Prod.mk.inj h).2.symm⟩
  · rw [herr] at h
    cases h

theorem tree_setKey (wrap : String → RaftError) (write : Update Bytes Bytes) (w : World) :
    (setKey wrap write w).2.tree = w.tree := by
  obtain ⟨fs, hok | ⟨e, herr⟩⟩ := setKey_cases wrap write w
  · rw [hok]
    rfl
  · rw [herr]
    rfl

theorem tree_of_stops_setSteps {wrap : String → RaftError} :
    ∀ {writes : List (Update Bytes Bytes)} {w w' : World} {ls : List SavePhase},
      Steps.Stops (setSteps wrap writes) w ls w' → w'.tree = w.tree
  | [], w, w', ls, h => by rw [h.of_done.2]
  | _ :: writes, w, w', ls, h => by
      rcases h.of_andThen with hfirst | ⟨_, w₁, _, _, hrun, _, rfl, hrest⟩
      · rcases hfirst.of_act with ⟨rfl, _⟩ | ⟨rfl, _⟩
        · rfl
        · exact tree_setKey wrap _ w
      · rw [tree_of_stops_setSteps hrest]
        rw [Steps.run_act] at hrun
        obtain ⟨fs, rfl⟩ := setKey_ok hrun
        rfl

/-- An interrupted transaction has landed as a whole or not at all. -/
theorem tree_of_stops_transactionSteps {onBegin onSet onCommit : String → RaftError}
    {writes : List (Update Bytes Bytes)} {w w' : World} {ls : List SavePhase}
    (h : Steps.Stops (transactionSteps onBegin onSet onCommit writes) w ls w') :
    w'.tree = w.tree ∨ w'.tree = replay w.tree writes := by
  rcases h.of_andThen with hbegin | ⟨_, w₁, _, _, hbegin, _, rfl, hrest⟩
  · left
    rcases hbegin.of_act with ⟨rfl, _⟩ | ⟨rfl, _⟩
    · rfl
    · exact tree_external onBegin w
  rw [Steps.run_act] at hbegin
  obtain ⟨fs, rfl⟩ := external_ok hbegin
  rcases hrest.of_andThen with hset | ⟨_, w₂, _, _, hset, _, rfl, hcommit⟩
  · left
    rw [tree_of_stops_setSteps hset]
    rfl
  rw [run_setSteps] at hset
  obtain ⟨gs, hok | ⟨e, herr⟩⟩ := setAll_cases onSet writes (w.withFaults fs)
  · rw [hok] at hset
    cases hset
    rcases hcommit.of_act with ⟨rfl, _⟩ | ⟨rfl, _⟩
    · exact Or.inl rfl
    · obtain ⟨hs, hc | ⟨e, hc⟩⟩ := external_cases onCommit ((w.withFaults fs).withFaults gs)
      · right
        rw [Eff.bind_of_ok hc]
        rfl
      · left
        rw [Eff.bind_of_error hc]
        rfl
  · rw [herr] at hset
    cases hset

end Sys

/-! ## The records -/

/-- The four records. -/
structure Records where
  voting : VotingState
  applied : AppliedState
  snapshot : SnapshotMetaState
  mergeProgress : MergeProgressState
deriving DecidableEq, Repr

/-- The records in memory. -/
def MetadataManager.records (m : MetadataManager) : Records :=
  ⟨m.votingState, m.appliedState, m.snapshotState, m.mergeProgressState⟩

open MetadataManager in
/-- The records that a tree holds, with the initial value for a missing one. -/
def Records.ofTree (t : Tree) : Records where
  voting := votingRecord.recovered t .new
  applied := appliedRecord.recovered t .new
  snapshot := snapshotRecord.recovered t .new
  mergeProgress := mergeProgressRecord.recovered t .new

/-- Loading into a new manager gives the records of the tree. -/
theorem records_load_new {w : World} {m : MetadataManager} {u : Unit}
    (h : MetadataManager.load (MetadataManager.new w) = (.ok u, m)) :
    m.records = Records.ofTree w.tree ∧ m.world.tree = w.tree := by
  obtain ⟨fs, rfl⟩ := MetadataManager.load_ok h
  exact ⟨rfl, rfl⟩

namespace Record

variable {α : Type}

theorem recovered_insert {r : Record α} {state : α} {bytes : Bytes} (t : Tree) (before : α)
    (h : r.codec.toStdvec state = .ok bytes) :
    r.recovered (t.insert r.key bytes) before = state := by
  rw [recovered, persisted_insert t h]

theorem recovered_insert_of_ne {r : Record α} {key : Bytes} (h : key ≠ r.key) (t : Tree)
    (bytes : Bytes) (before : α) :
    r.recovered (t.insert key bytes) before = r.recovered t before := by
  rw [recovered, recovered, persisted_insert_of_ne h]

end Record

/-! ## The five saves -/

/-- A save of the metadata manager with what it saves. -/
inductive MetaSave where
  | voting (s : VotingState)
  | applied (s : AppliedState)
  | snapshot (s : SnapshotMetaState)
  | mergeProgress (s : MergeProgressState)
  | snapshotAndMerge (s : SnapshotMetaState) (p : MergeProgressState)
deriving DecidableEq, Repr

namespace MetaSave

open MetadataManager

/-- The save as a whole. -/
def call : MetaSave → MetaM Unit
  | .voting s => saveVotingState s
  | .applied s => saveAppliedState s
  | .snapshot s => saveSnapshotState s
  | .mergeProgress s => saveMergeProgressState s
  | .snapshotAndMerge s p => saveSnapshotAndMergeState s p

/-- What a save makes of the records. -/
def effect : MetaSave → Records → Records
  | .voting s, k => { k with voting := s }
  | .applied s, k => { k with applied := s }
  | .snapshot s, k => { k with snapshot := s }
  | .mergeProgress s, k => { k with mergeProgress := s }
  | .snapshotAndMerge s p, k => { k with snapshot := s, mergeProgress := p }

/-- The write of one record. -/
def recordWrite {α : Type} (r : Record α) (state : α) : Except RaftError (Update Bytes Bytes) :=
  match liftPostcard RaftError.ofPostcard (r.codec.toStdvec state) with
  | .ok bytes => .ok (.put r.key bytes)
  | .error e => .error e

/-- The writes of a save. -/
def writes : MetaSave → Except RaftError (List (Update Bytes Bytes))
  | .voting s => (recordWrite votingRecord s).map ([·])
  | .applied s => (recordWrite appliedRecord s).map ([·])
  | .snapshot s => (recordWrite snapshotRecord s).map ([·])
  | .mergeProgress s => (recordWrite mergeProgressRecord s).map ([·])
  | .snapshotAndMerge s p =>
      match recordWrite snapshotRecord s with
      | .error e => .error e
      | .ok first => (recordWrite mergeProgressRecord p).map ([first, ·])

/-- The memory writes of a save, in order. -/
def remembers : MetaSave → List (MetadataManager → MetadataManager)
  | .voting s => [votingRecord.set s]
  | .applied s => [appliedRecord.set s]
  | .snapshot s => [snapshotRecord.set s]
  | .mergeProgress s => [mergeProgressRecord.set s]
  | .snapshotAndMerge s p => [snapshotRecord.set s, mergeProgressRecord.set p]

/-- The memory writes, one step each. -/
def rememberSteps : List (MetadataManager → MetadataManager) →
    Steps SavePhase MetadataManager RaftError Unit
  | [] => .done (.ok ())
  | f :: fs => (Steps.act .remember (Eff.modify f)).andThen fun _ => rememberSteps fs

/-- The steps of an operation on the world. -/
def onWorld {L α : Type} (p : Steps L World RaftError α) : Steps L MetadataManager RaftError α :=
  p.zoom MetadataManager.world fun w m => m.withWorld w

/-- The steps of a save. -/
def steps (op : MetaSave) : Steps SavePhase MetadataManager RaftError Unit :=
  (Steps.done op.writes).andThen fun ws =>
    (onWorld (Sys.transactionSteps RaftError.ofSurrealkv RaftError.ofSurrealkv
      RaftError.ofSurrealkv ws)).andThen fun _ => rememberSteps op.remembers

theorem run_onWorld {L α : Type} (p : Steps L World RaftError α) :
    (onWorld p).run = MetadataManager.sys p.run := by
  have hget : ∀ (w : World) (m : MetadataManager), (m.withWorld w).world = w := fun _ _ => rfl
  exact Steps.run_zoom hget (fun _ _ _ => rfl) (fun _ => rfl) p

theorem run_rememberSteps : ∀ (fs : List (MetadataManager → MetadataManager))
    (m : MetadataManager), (rememberSteps fs).run m = (.ok (), fs.foldl (fun m f => f m) m)
  | [], _ => rfl
  | f :: fs, m => by
      rw [rememberSteps, Steps.run_andThen, Steps.run_act, Eff.bind_of_ok (Eff.modify_run f m),
        run_rememberSteps fs]
      rfl

/-- Run in a row, the steps of a save of one record are the save. -/
theorem run_single {α : Type} (r : Record α) (state : α) :
    (do
      let ws ← Eff.ofExcept ((recordWrite r state).map ([·]))
      MetadataManager.sys (Sys.commitWrites ws)
      (rememberSteps [r.set state]).run : MetaM Unit) = r.save state := by
  have hremember : (rememberSteps [r.set state]).run = Eff.modify (r.set state) :=
    funext fun m => run_rememberSteps _ m
  rw [hremember]
  funext m
  unfold Record.save recordWrite
  cases liftPostcard RaftError.ofPostcard (r.codec.toStdvec state) <;> rfl

theorem run_joint (s : SnapshotMetaState) (p : MergeProgressState) :
    (do
      let ws ← Eff.ofExcept (writes (.snapshotAndMerge s p))
      MetadataManager.sys (Sys.commitWrites ws)
      (rememberSteps (remembers (.snapshotAndMerge s p))).run : MetaM Unit) =
      saveSnapshotAndMergeState s p := by
  have hremember : (rememberSteps (remembers (.snapshotAndMerge s p))).run = (do
      Eff.modify (snapshotRecord.set s)
      Eff.modify (mergeProgressRecord.set p) : MetaM Unit) :=
    funext fun m => run_rememberSteps _ m
  rw [hremember]
  funext m
  unfold saveSnapshotAndMergeState writes recordWrite
  simp only [snapshotRecord, mergeProgressRecord]
  cases liftPostcard RaftError.ofPostcard (SnapshotMetaState.codec.toStdvec s) with
  | error e => rfl
  | ok first =>
      cases liftPostcard RaftError.ofPostcard (MergeProgressState.codec.toStdvec p) <;> rfl

/-- Run in a row, the steps are the save. -/
theorem run_steps (op : MetaSave) : op.steps.run = op.call := by
  have htxn : ∀ ws, (onWorld (Sys.transactionSteps RaftError.ofSurrealkv RaftError.ofSurrealkv
      RaftError.ofSurrealkv ws)).run = MetadataManager.sys (Sys.commitWrites ws) := by
    intro ws
    rw [run_onWorld, Sys.run_transactionSteps]
    rfl
  rw [steps, Steps.run_andThen]
  simp only [Steps.run_andThen, Steps.run_done, htxn]
  cases op with
  | voting s => exact run_single votingRecord s
  | applied s => exact run_single appliedRecord s
  | snapshot s => exact run_single snapshotRecord s
  | mergeProgress s => exact run_single mergeProgressRecord s
  | snapshotAndMerge s p => exact run_joint s p

theorem stops_onWorld {L α : Type} {p : Steps L World RaftError α} {m m' : MetadataManager}
    {ls : List L} (h : Steps.Stops (onWorld p) m ls m') :
    ∃ w, Steps.Stops p m.world ls w ∧ m' = m.withWorld w := by
  have hget : ∀ (w : World) (m : MetadataManager), (m.withWorld w).world = w := fun _ _ => rfl
  exact h.of_zoom hget (fun _ _ _ => rfl) fun _ => rfl

/-- Memory writes leave the world alone. -/
theorem world_of_remembers (op : MetaSave) : ∀ f ∈ op.remembers, ∀ m, (f m).world = m.world := by
  cases op <;> simp [remembers, votingRecord, appliedRecord, snapshotRecord, mergeProgressRecord]

theorem world_of_stops_rememberSteps {fs : List (MetadataManager → MetadataManager)}
    (hfs : ∀ f ∈ fs, ∀ m, (f m).world = m.world) {m m' : MetadataManager} {ls : List SavePhase}
    (h : Steps.Stops (rememberSteps fs) m ls m') : m'.world = m.world := by
  induction fs generalizing m ls with
  | nil => rw [h.of_done.2]
  | cons f fs ih =>
      have hf := hfs f List.mem_cons_self
      rcases h.of_andThen with hfirst | ⟨_, m₁, _, _, hrun, _, rfl, hrest⟩
      · rcases hfirst.of_act with ⟨rfl, _⟩ | ⟨rfl, _⟩
        · rfl
        · exact hf m
      · cases hrun
        rw [ih (fun g hg => hfs g (List.mem_cons_of_mem f hg)) hrest]
        exact hf m

/-- An interrupted save has landed in the tree as a whole or not at all. -/
theorem tree_of_stops {op : MetaSave} {m m' : MetadataManager} {ls : List SavePhase}
    (h : Steps.Stops op.steps m ls m') :
    m'.world.tree = m.world.tree ∨
      ∃ ws, op.writes = .ok ws ∧ m'.world.tree = replay m.world.tree ws := by
  rcases h.of_andThen with hencode | ⟨ws, m₁, _, _, hencode, _, rfl, hrest⟩
  · rw [hencode.of_done.2]
    exact Or.inl rfl
  obtain ⟨hws, rfl⟩ := Prod.mk.inj hencode
  have hland : ∀ {m₁ : MetadataManager} {ls : List SavePhase},
      Steps.Stops (onWorld (Sys.transactionSteps RaftError.ofSurrealkv RaftError.ofSurrealkv
        RaftError.ofSurrealkv ws)) m ls m₁ →
      m₁.world.tree = m.world.tree ∨ m₁.world.tree = replay m.world.tree ws := by
    intro m₁ ls hstop
    obtain ⟨w, hw, rfl⟩ := stops_onWorld hstop
    exact Sys.tree_of_stops_transactionSteps hw
  have hor : m'.world.tree = m.world.tree ∨ m'.world.tree = replay m.world.tree ws := by
    rcases hrest.of_andThen with htxn | ⟨_, m₂, _, _, _, htxn, rfl, hremember⟩
    · exact hland htxn
    · rw [world_of_stops_rememberSteps op.world_of_remembers hremember]
      exact hland htxn
  exact hor.imp id fun htree => ⟨ws, hws, htree⟩

/-! ## What a save changes -/

theorem recordWrite_eq_ok {α : Type} {r : Record α} {state : α} {u : Update Bytes Bytes}
    (h : recordWrite r state = .ok u) :
    ∃ bytes, r.codec.toStdvec state = .ok bytes ∧ u = .put r.key bytes := by
  unfold recordWrite at h
  cases hs : liftPostcard RaftError.ofPostcard (r.codec.toStdvec state) with
  | error e =>
      rw [hs] at h
      cases h
  | ok bytes =>
      rw [hs] at h
      cases h
      exact ⟨bytes, liftPostcard_eq_ok_iff.mp hs, rfl⟩

theorem writes_single {α : Type} {r : Record α} {state : α} {ws : List (Update Bytes Bytes)}
    (h : (recordWrite r state).map ([·]) = .ok ws) :
    ∃ bytes, r.codec.toStdvec state = .ok bytes ∧ ws = [.put r.key bytes] := by
  cases hw : recordWrite r state with
  | error e =>
      rw [hw] at h
      cases h
  | ok u =>
      rw [hw] at h
      cases h
      obtain ⟨bytes, hbytes, rfl⟩ := recordWrite_eq_ok hw
      exact ⟨bytes, hbytes, rfl⟩

theorem writes_joint {s : SnapshotMetaState} {p : MergeProgressState}
    {ws : List (Update Bytes Bytes)} (h : writes (.snapshotAndMerge s p) = .ok ws) :
    ∃ bytes bytes', snapshotRecord.codec.toStdvec s = .ok bytes ∧
      mergeProgressRecord.codec.toStdvec p = .ok bytes' ∧
      ws = [.put snapshotRecord.key bytes, .put mergeProgressRecord.key bytes'] := by
  rw [writes] at h
  cases hs : recordWrite snapshotRecord s with
  | error e =>
      rw [hs] at h
      cases h
  | ok first =>
      rw [hs] at h
      cases hp : recordWrite mergeProgressRecord p with
      | error e =>
          rw [hp] at h
          cases h
      | ok second =>
          rw [hp] at h
          cases h
          obtain ⟨bytes, hbytes, rfl⟩ := recordWrite_eq_ok hs
          obtain ⟨bytes', hbytes', rfl⟩ := recordWrite_eq_ok hp
          exact ⟨bytes, bytes', hbytes, hbytes', rfl⟩

theorem keys_ne :
    votingRecord.key ≠ appliedRecord.key ∧ votingRecord.key ≠ snapshotRecord.key ∧
      votingRecord.key ≠ mergeProgressRecord.key ∧ appliedRecord.key ≠ snapshotRecord.key ∧
      appliedRecord.key ≠ mergeProgressRecord.key ∧
      snapshotRecord.key ≠ mergeProgressRecord.key := by
  decide +kernel

section

variable (t : Tree) {bytes : Bytes}

theorem ofTree_insert_voting {s : VotingState} (h : votingRecord.codec.toStdvec s = .ok bytes) :
    Records.ofTree (t.insert votingRecord.key bytes) =
      { Records.ofTree t with voting := s } := by
  obtain ⟨h₁, h₂, h₃, _⟩ := keys_ne
  simp only [Records.ofTree, Record.recovered_insert t _ h, Record.recovered_insert_of_ne h₁,
    Record.recovered_insert_of_ne h₂, Record.recovered_insert_of_ne h₃]

theorem ofTree_insert_applied {s : AppliedState} (h : appliedRecord.codec.toStdvec s = .ok bytes) :
    Records.ofTree (t.insert appliedRecord.key bytes) =
      { Records.ofTree t with applied := s } := by
  obtain ⟨h₁, _, _, h₂, h₃, _⟩ := keys_ne
  simp only [Records.ofTree, Record.recovered_insert t _ h, Record.recovered_insert_of_ne h₁.symm,
    Record.recovered_insert_of_ne h₂, Record.recovered_insert_of_ne h₃]

theorem ofTree_insert_snapshot {s : SnapshotMetaState}
    (h : snapshotRecord.codec.toStdvec s = .ok bytes) :
    Records.ofTree (t.insert snapshotRecord.key bytes) =
      { Records.ofTree t with snapshot := s } := by
  obtain ⟨_, h₁, _, h₂, _, h₃⟩ := keys_ne
  simp only [Records.ofTree, Record.recovered_insert t _ h, Record.recovered_insert_of_ne h₁.symm,
    Record.recovered_insert_of_ne h₂.symm, Record.recovered_insert_of_ne h₃]

theorem ofTree_insert_mergeProgress {s : MergeProgressState}
    (h : mergeProgressRecord.codec.toStdvec s = .ok bytes) :
    Records.ofTree (t.insert mergeProgressRecord.key bytes) =
      { Records.ofTree t with mergeProgress := s } := by
  obtain ⟨_, _, h₁, _, h₂, h₃⟩ := keys_ne
  simp only [Records.ofTree, Record.recovered_insert t _ h, Record.recovered_insert_of_ne h₁.symm,
    Record.recovered_insert_of_ne h₂.symm, Record.recovered_insert_of_ne h₃.symm]

end

/-- A save that lands changes its own records in the tree and no other. -/
theorem ofTree_replay {op : MetaSave} {ws : List (Update Bytes Bytes)} (h : op.writes = .ok ws)
    (t : Tree) : Records.ofTree (replay t ws) = op.effect (Records.ofTree t) := by
  cases op with
  | voting s =>
      obtain ⟨bytes, hbytes, rfl⟩ := writes_single h
      exact ofTree_insert_voting t hbytes
  | applied s =>
      obtain ⟨bytes, hbytes, rfl⟩ := writes_single h
      exact ofTree_insert_applied t hbytes
  | snapshot s =>
      obtain ⟨bytes, hbytes, rfl⟩ := writes_single h
      exact ofTree_insert_snapshot t hbytes
  | mergeProgress s =>
      obtain ⟨bytes, hbytes, rfl⟩ := writes_single h
      exact ofTree_insert_mergeProgress t hbytes
  | snapshotAndMerge s p =>
      obtain ⟨bytes, bytes', hbytes, hbytes', rfl⟩ := writes_joint h
      show Records.ofTree ((t.insert snapshotRecord.key bytes).insert
        mergeProgressRecord.key bytes') = _
      rw [ofTree_insert_mergeProgress _ hbytes', ofTree_insert_snapshot _ hbytes]
      rfl

/-- All memory writes of a save. -/
def remember (op : MetaSave) (m : MetadataManager) : MetadataManager :=
  op.remembers.foldl (fun m f => f m) m

theorem records_remember (op : MetaSave) (m : MetadataManager) :
    (op.remember m).records = op.effect m.records := by
  cases op <;> rfl

theorem world_remember (op : MetaSave) (m : MetadataManager) :
    (op.remember m).world = m.world := by
  cases op <;> rfl

/-- A save lands in the tree and then in memory, or changes neither. -/
theorem call_cases (op : MetaSave) (m : MetadataManager) :
    ∃ fs, (∃ ws, op.writes = .ok ws ∧ op.call m = (.ok (), op.remember (m.withWorld
        ((m.world.withTree (replay m.world.tree ws)).withFaults fs)))) ∨
      ∃ e, op.call m = (.error e, m.withWorld (m.world.withFaults fs)) := by
  rw [← run_steps, steps, Steps.run_andThen]
  cases hws : op.writes with
  | error e => exact ⟨m.world.faults, Or.inr ⟨e, Eff.bind_of_error rfl⟩⟩
  | ok ws =>
      have hencode : (Steps.done (.ok ws) : Steps SavePhase MetadataManager RaftError _).run m =
          (.ok ws, m) := rfl
      rw [Eff.bind_of_ok hencode, Steps.run_andThen, run_onWorld, Sys.run_transactionSteps]
      obtain ⟨fs, hok | ⟨e, herr⟩⟩ := Sys.transaction_cases RaftError.ofSurrealkv
        RaftError.ofSurrealkv RaftError.ofSurrealkv ws m.world
      · refine ⟨fs, Or.inl ⟨ws, rfl, ?_⟩⟩
        rw [Eff.bind_of_ok (MetadataManager.sys_of_eq hok), run_rememberSteps]
        rfl
      · refine ⟨fs, Or.inr ⟨e, ?_⟩⟩
        rw [Eff.bind_of_error (MetadataManager.sys_of_eq herr)]

/-- A save that returned has landed in both. -/
theorem call_ok {op : MetaSave} {m m' : MetadataManager} {u : Unit}
    (h : op.call m = (.ok u, m')) :
    m'.records = op.effect m.records ∧
      Records.ofTree m'.world.tree = op.effect (Records.ofTree m.world.tree) := by
  obtain ⟨fs, ⟨ws, hws, hok⟩ | ⟨e, herr⟩⟩ := op.call_cases m
  · rw [hok] at h
    obtain rfl := (Prod.mk.inj h).2
    rw [records_remember, world_remember]
    exact ⟨rfl, ofTree_replay hws _⟩
  · rw [herr] at h
    cases h

/-- A save that failed has changed neither. -/
theorem call_error {op : MetaSave} {m m' : MetadataManager} {e : RaftError}
    (h : op.call m = (.error e, m')) :
    m'.records = m.records ∧ m'.world.tree = m.world.tree := by
  obtain ⟨fs, ⟨ws, _, hok⟩ | ⟨e, herr⟩⟩ := op.call_cases m
  · rw [hok] at h
    cases h
  · rw [herr] at h
    obtain rfl := (Prod.mk.inj h).2
    exact ⟨rfl, rfl⟩

/-- After a crash in the middle of a save the records are those before or those after it. -/
theorem records_after_crash {op : MetaSave} {m m₁ m' : MetadataManager} {ls : List SavePhase}
    {w : World} {u : Unit} (hstop : Steps.Stops op.steps m ls m₁)
    (hw : w.tree = m₁.world.tree)
    (hload : MetadataManager.load (MetadataManager.new w) = (.ok u, m')) :
    m'.records = Records.ofTree m.world.tree ∨
      m'.records = op.effect (Records.ofTree m.world.tree) := by
  rw [(records_load_new hload).1, hw]
  rcases tree_of_stops hstop with hsame | ⟨ws, hws, hland⟩
  · rw [hsame]
    exact Or.inl rfl
  · rw [hland]
    exact Or.inr (ofTree_replay hws _)

end MetaSave

end OpenraftSurrealkv
