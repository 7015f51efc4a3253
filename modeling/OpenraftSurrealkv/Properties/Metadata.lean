import OpenraftSurrealkv.Effects.Open
import OpenraftSurrealkv.Effects.Saving
import OpenraftSurrealkv.Lib.Simulation

/-!
# The metadata across failures, crashes and concurrent saves

Saves made one after another keep memory and tree in step: the manager refines a
machine whose state is the four records, where a save that returned takes effect,
a refused one does not, and one interrupted by a crash does or does not, as a
whole (`AbstractStep`).

Concurrent saves do not.  A save commits under the lock of the tree and then
writes its value in memory under the lock of the record, so two saves of one
record can commit in one order and write in the other.
-/

namespace OpenraftSurrealkv

open MetadataManager

/-! ## What loading needs -/

namespace Record

variable {α : Type}

/-- The tree has no value of the record, or one that decodes. -/
def Readable (r : Record α) (t : Tree) : Prop := ∃ state?, r.persisted t = .ok state?

theorem readable_insert {r : Record α} {state : α} {bytes : Bytes} (t : Tree)
    (h : r.codec.toStdvec state = .ok bytes) : r.Readable (t.insert r.key bytes) :=
  ⟨some state, persisted_insert t h⟩

theorem readable_insert_of_ne {r : Record α} {key : Bytes} (h : key ≠ r.key) {t : Tree}
    (bytes : Bytes) (hr : r.Readable t) : r.Readable (t.insert key bytes) := by
  rw [Readable, persisted_insert_of_ne h]
  exact hr

/-- A loaded record was readable. -/
theorem readable_of_load {r : Record α} {m m' : MetadataManager} {u : Unit}
    (h : r.load m = (.ok u, m')) : r.Readable m.world.tree := by
  obtain ⟨_, state?, hpersisted, _⟩ := load_persisted h
  exact ⟨state?, hpersisted⟩

/-- With no failure to come, a readable record is loaded. -/
theorem total_load {r : Record α} {t : Tree} (hset : ∀ a m, (r.set a m).world = m.world)
    (h : r.Readable t) :
    Eff.Total (fun m => m.world.faults = [] ∧ m.world.tree = t) r.load
      fun _ m => m.world.faults = [] ∧ m.world.tree = t := by
  rintro m ⟨hfaults, rfl⟩
  have hget : MetadataManager.sys (Sys.getKey RaftError.ofSurrealkv r.key) m =
      (.ok m.world.tree[r.key]?, m) := by
    refine MetadataManager.sys_of_eq (w := m.world) ?_
    rw [Sys.getKey, Eff.bind_of_ok (Sys.external_quiet _ hfaults)]
    rfl
  obtain ⟨state?, hstate⟩ := h
  unfold persisted at hstate
  rw [load, Eff.bind_of_ok hget]
  cases hkey : m.world.tree[r.key]? with
  | none => exact ⟨(), m, rfl, hfaults, rfl⟩
  | some bytes =>
      cases hdec : r.codec.fromBytes bytes with
      | error e =>
          simp only [hkey, hdec] at hstate
          cases hstate
      | ok state =>
          refine ⟨(), r.set state m, ?_, by rw [hset, hfaults], by rw [hset]⟩
          show (Eff.ofExcept (liftPostcard RaftError.ofPostcard (r.codec.fromBytes bytes)) >>=
            fun state => Eff.modify (r.set state)) m = _
          rw [hdec, liftPostcard, Eff.bind_of_ok (Eff.ofExcept_run _ m)]
          rfl

end Record

/-- Every record of the tree can be loaded. -/
structure Readable (t : Tree) : Prop where
  voting : votingRecord.Readable t
  applied : appliedRecord.Readable t
  snapshot : snapshotRecord.Readable t
  mergeProgress : mergeProgressRecord.Readable t

/-- The bytes are those of a record under its key. -/
inductive IsRecord : Update Bytes Bytes → Prop
  | voting {s : VotingState} {bytes : Bytes} :
      votingRecord.codec.toStdvec s = .ok bytes → IsRecord (.put votingRecord.key bytes)
  | applied {s : AppliedState} {bytes : Bytes} :
      appliedRecord.codec.toStdvec s = .ok bytes → IsRecord (.put appliedRecord.key bytes)
  | snapshot {s : SnapshotMetaState} {bytes : Bytes} :
      snapshotRecord.codec.toStdvec s = .ok bytes → IsRecord (.put snapshotRecord.key bytes)
  | mergeProgress {s : MergeProgressState} {bytes : Bytes} :
      mergeProgressRecord.codec.toStdvec s = .ok bytes →
        IsRecord (.put mergeProgressRecord.key bytes)

namespace Readable

theorem write {u : Update Bytes Bytes} {t : Tree} (hu : IsRecord u) (ht : Readable t) :
    Readable (u.run t) := by
  obtain ⟨hva, hvs, hvm, has, ham, hsm⟩ := MetaSave.keys_ne
  cases hu with
  | voting h =>
      exact ⟨Record.readable_insert t h, Record.readable_insert_of_ne hva _ ht.applied,
        Record.readable_insert_of_ne hvs _ ht.snapshot,
        Record.readable_insert_of_ne hvm _ ht.mergeProgress⟩
  | applied h =>
      exact ⟨Record.readable_insert_of_ne hva.symm _ ht.voting, Record.readable_insert t h,
        Record.readable_insert_of_ne has _ ht.snapshot,
        Record.readable_insert_of_ne ham _ ht.mergeProgress⟩
  | snapshot h =>
      exact ⟨Record.readable_insert_of_ne hvs.symm _ ht.voting,
        Record.readable_insert_of_ne has.symm _ ht.applied, Record.readable_insert t h,
        Record.readable_insert_of_ne hsm _ ht.mergeProgress⟩
  | mergeProgress h =>
      exact ⟨Record.readable_insert_of_ne hvm.symm _ ht.voting,
        Record.readable_insert_of_ne ham.symm _ ht.applied,
        Record.readable_insert_of_ne hsm.symm _ ht.snapshot, Record.readable_insert t h⟩

theorem replay {ws : List (Update Bytes Bytes)} (hws : ∀ u ∈ ws, IsRecord u) {t : Tree}
    (ht : Readable t) : Readable (replay t ws) := by
  induction ws generalizing t with
  | nil => exact ht
  | cons u ws ih =>
      exact ih (fun v hv => hws v (List.mem_cons_of_mem u hv))
        (ht.write (hws u List.mem_cons_self))

/-- Loading a new manager needs readable records. -/
theorem of_load {w : World} {m : MetadataManager} {u : Unit}
    (h : load (MetadataManager.new w) = (.ok u, m)) : Readable w.tree := by
  obtain ⟨_, m₁, hext, h₁⟩ := Eff.bind_eq_ok_iff.mp h
  obtain ⟨w₁, hsys, rfl⟩ := sys_ok hext
  obtain ⟨fs₁, rfl⟩ := Sys.external_ok hsys
  obtain ⟨_, m₂, hvote, h₂⟩ := Eff.bind_eq_ok_iff.mp h₁
  have hv := Record.readable_of_load hvote
  obtain ⟨fs₂, rfl⟩ := Record.load_ok hvote
  obtain ⟨_, m₃, happ, h₃⟩ := Eff.bind_eq_ok_iff.mp h₂
  have ha := Record.readable_of_load happ
  obtain ⟨fs₃, rfl⟩ := Record.load_ok happ
  obtain ⟨_, m₄, hsnap, hmerge⟩ := Eff.bind_eq_ok_iff.mp h₃
  have hs := Record.readable_of_load hsnap
  obtain ⟨fs₄, rfl⟩ := Record.load_ok hsnap
  exact ⟨hv, ha, hs, Record.readable_of_load hmerge⟩

/-- With no failure to come, readable records are loaded. -/
theorem load_quiet {w : World} (h : Readable w.tree) (hw : w.faults = []) :
    ∃ m, load (MetadataManager.new w) = (.ok (), m) ∧ m.world.faults = [] := by
  have hbegin : Eff.Total (fun m => m.world.faults = [] ∧ m.world.tree = w.tree)
      (sys (Sys.external RaftError.ofSurrealkv))
      fun _ m => m.world.faults = [] ∧ m.world.tree = w.tree := by
    rintro m ⟨hfaults, htree⟩
    exact ⟨(), m, sys_of_eq (Sys.external_quiet _ hfaults), hfaults, htree⟩
  have htotal := hbegin.bind fun _ =>
    (Record.total_load (fun _ _ => rfl) h.voting).bind fun _ =>
      (Record.total_load (fun _ _ => rfl) h.applied).bind fun _ =>
        (Record.total_load (fun _ _ => rfl) h.snapshot).bind fun _ =>
          Record.total_load (fun _ _ => rfl) h.mergeProgress
  obtain ⟨_, m, hm, hfaults, _⟩ := htotal (MetadataManager.new w) ⟨hw, rfl⟩
  exact ⟨m, hm, hfaults⟩

/-- With no failure to come, a store opens on readable records. -/
theorem new_quiet {w : World} (h : Readable w.tree) (hw : w.faults = []) :
    SurrealStorage.new w = .ok (SurrealStorage.opened w []) := by
  obtain ⟨m, hload, hfaults⟩ := h.load_quiet hw
  obtain ⟨fs, rfl⟩ := MetadataManager.load_ok hload
  obtain rfl : fs = [] := hfaults
  rw [SurrealStorage.new, hload]
  rfl

end Readable

/-- The writes of a save are records. -/
theorem MetaSave.isRecord_of_writes {op : MetaSave} {ws : List (Update Bytes Bytes)}
    (h : op.writes = .ok ws) : ∀ u ∈ ws, IsRecord u := by
  cases op with
  | voting s =>
      obtain ⟨bytes, hbytes, rfl⟩ := writes_single h
      simpa using IsRecord.voting hbytes
  | applied s =>
      obtain ⟨bytes, hbytes, rfl⟩ := writes_single h
      simpa using IsRecord.applied hbytes
  | snapshot s =>
      obtain ⟨bytes, hbytes, rfl⟩ := writes_single h
      simpa using IsRecord.snapshot hbytes
  | mergeProgress s =>
      obtain ⟨bytes, hbytes, rfl⟩ := writes_single h
      simpa using IsRecord.mergeProgress hbytes
  | snapshotAndMerge s p =>
      obtain ⟨bytes, bytes', hbytes, hbytes', rfl⟩ := writes_joint h
      simpa using And.intro (IsRecord.snapshot hbytes) (IsRecord.mergeProgress hbytes')

/-- An interrupted save leaves the records readable. -/
theorem MetaSave.readable_of_stops {op : MetaSave} {m m' : MetadataManager}
    {ls : List SavePhase} (h : Steps.Stops op.steps m ls m') (ht : Readable m.world.tree) :
    Readable m'.world.tree := by
  rcases tree_of_stops h with hsame | ⟨ws, hws, hland⟩
  · rw [hsame]
    exact ht
  · rw [hland]
    exact ht.replay (isRecord_of_writes hws)

/-! ## One save after another -/

/-- What can happen to a manager whose saves are made one after another. -/
inductive MetaEvent where
  /-- The save returned. -/
  | saved (op : MetaSave)
  /-- The save returned an error. -/
  | refused (op : MetaSave)
  /-- The process crashed during the save and was restarted. -/
  | crashed (op : MetaSave)
  /-- The process crashed between two saves and was restarted. -/
  | restarted
deriving DecidableEq, Repr

/-- A step of the manager.  A restart loads a new manager on the tree that is left. -/
inductive MetaStep : MetadataManager → MetaEvent → MetadataManager → Prop
  | saved {op : MetaSave} {m m' : MetadataManager} :
      op.call m = (.ok (), m') → MetaStep m (.saved op) m'
  | refused {op : MetaSave} {m m' : MetadataManager} {e : RaftError} :
      op.call m = (.error e, m') → MetaStep m (.refused op) m'
  | crashed {op : MetaSave} {m m₁ m' : MetadataManager} {ls : List SavePhase} {w : World} :
      Steps.Stops op.steps m ls m₁ → w.tree = m₁.world.tree →
      load (MetadataManager.new w) = (.ok (), m') → MetaStep m (.crashed op) m'
  | restarted {m m' : MetadataManager} {w : World} :
      w.tree = m.world.tree → load (MetadataManager.new w) = (.ok (), m') →
      MetaStep m .restarted m'

/-- The same events on the records alone. -/
inductive AbstractStep : Records → MetaEvent → Records → Prop
  | saved (op : MetaSave) (k : Records) : AbstractStep k (.saved op) (op.effect k)
  | refused (op : MetaSave) (k : Records) : AbstractStep k (.refused op) k
  | lost (op : MetaSave) (k : Records) : AbstractStep k (.crashed op) k
  | landed (op : MetaSave) (k : Records) : AbstractStep k (.crashed op) (op.effect k)
  | restarted (k : Records) : AbstractStep k .restarted k

/-- Memory and tree both hold the records. -/
structure Holds (m : MetadataManager) (k : Records) : Prop where
  memory : m.records = k
  tree : Records.ofTree m.world.tree = k
  readable : Readable m.world.tree

theorem Holds.of_load {w : World} {m : MetadataManager} {u : Unit}
    (h : load (MetadataManager.new w) = (.ok u, m)) : Holds m (Records.ofTree w.tree) := by
  obtain ⟨hrecords, htree⟩ := records_load_new h
  refine ⟨hrecords, by rw [htree], ?_⟩
  rw [htree]
  exact Readable.of_load h

/-- Every step of the manager is one of the records. -/
theorem Holds.step {m m' : MetadataManager} {k : Records} {ev : MetaEvent} (hk : Holds m k)
    (hstep : MetaStep m ev m') : ∃ k', AbstractStep k ev k' ∧ Holds m' k' := by
  cases hstep with
  | @saved op _ _ hcall =>
      obtain ⟨hrecords, htree⟩ := MetaSave.call_ok hcall
      obtain ⟨ls, hstop⟩ := Steps.Stops.of_run ((congrFun op.run_steps m).trans hcall)
      refine ⟨op.effect k, .saved op k, ?_, ?_, MetaSave.readable_of_stops hstop hk.readable⟩
      · rw [hrecords, hk.memory]
      · rw [htree, hk.tree]
  | @refused op _ _ _ hcall =>
      obtain ⟨hrecords, htree⟩ := MetaSave.call_error hcall
      refine ⟨k, .refused op k, hrecords.trans hk.memory, ?_, ?_⟩
      · rw [htree, hk.tree]
      · rw [htree]
        exact hk.readable
  | @crashed op _ _ _ _ _ hstop hw hload =>
      have hnew := Holds.of_load hload
      rcases MetaSave.records_after_crash hstop hw hload with hlost | hlanded
      · rw [← hnew.memory, hlost, hk.tree] at hnew
        exact ⟨k, .lost op k, hnew⟩
      · rw [← hnew.memory, hlanded, hk.tree] at hnew
        exact ⟨op.effect k, .landed op k, hnew⟩
  | restarted hw hload =>
      have hnew := Holds.of_load hload
      rw [hw, hk.tree] at hnew
      exact ⟨k, .restarted k, hnew⟩

/-- The manager refines the machine on records, a refused save changes nothing, and after a crash
at any step of a save a load that meets no failure succeeds. -/
theorem metadata_refines_records {w₀ : World} {m₀ m : MetadataManager} {es : List MetaEvent}
    (hload : load (MetadataManager.new w₀) = (.ok (), m₀)) (hrun : Traces MetaStep m₀ es m) :
    Traces AbstractStep (Records.ofTree w₀.tree) es m.records ∧
      (∀ (op : MetaSave) e m', op.call m = (.error e, m') →
        m'.records = m.records ∧ m'.world.tree = m.world.tree) ∧
      ∀ (op : MetaSave) ls m₁ (w : World), Steps.Stops op.steps m ls m₁ →
        w.tree = m₁.world.tree → w.faults = [] →
        ∃ m', load (MetadataManager.new w) = (.ok (), m') := by
  obtain ⟨k, htrace, hk⟩ := hrun.simulate Holds.step (Holds.of_load hload)
  refine ⟨?_, ?_, ?_⟩
  · rw [hk.memory]
    exact htrace
  · intro op e m' hcall
    exact MetaSave.call_error hcall
  · intro op ls m₁ w hstop hw hquiet
    have hread := MetaSave.readable_of_stops hstop hk.readable
    rw [← hw] at hread
    exact (hread.load_quiet hquiet).imp fun _ h => h.1

/-- A joint save cut off between its commit and its first memory write. -/
theorem metadata_refines_records_landed :
    ∃ m₁ m₂, Steps.Stops (MetaSave.snapshotAndMerge ⟨none, [⟨2, 4, 8, 0, none⟩], 8⟩ .new).steps
        ((SurrealStorage.fresh []).metadata)
        [.beginTxn, .setKey, .setKey, .commit] m₁ ∧
      load (MetadataManager.new m₁.world) = (.ok (), m₂) ∧
      Traces AbstractStep (Records.ofTree ∅)
        [.crashed (.snapshotAndMerge ⟨none, [⟨2, 4, 8, 0, none⟩], 8⟩ .new)] m₂.records := by
  have hopen : load (MetadataManager.new (SurrealStorage.emptyWorld [])) =
      (.ok (), (SurrealStorage.fresh []).metadata) := rfl
  obtain ⟨m₁, hstop, hfaults⟩ : ∃ m₁ : MetadataManager, Steps.Stops
      (MetaSave.snapshotAndMerge ⟨none, [⟨2, 4, 8, 0, none⟩], 8⟩ .new).steps
      ((SurrealStorage.fresh []).metadata) [.beginTxn, .setKey, .setKey, .commit] m₁ ∧
      m₁.world.faults = [] :=
    ⟨_, .more rfl (.more rfl (.more rfl (.more rfl (.here _ _)))), rfl⟩
  obtain ⟨m₂, hload⟩ := (metadata_refines_records hopen (.nil _)).2.2 _ _ _ m₁.world hstop rfl
    hfaults
  have hstep : Traces MetaStep _ _ m₂ := .single (.crashed hstop rfl hload)
  exact ⟨m₁, m₂, hstop, hload, (metadata_refines_records hopen hstep).1⟩

/-! ## Concurrent saves -/

/-- The records by name. -/
inductive RecordName where
  | voting
  | applied
  | snapshot
  | mergeProgress
deriving DecidableEq, Repr

/-- The value of one record. -/
inductive RecordValue where
  | voting (s : VotingState)
  | applied (s : AppliedState)
  | snapshot (s : SnapshotMetaState)
  | mergeProgress (s : MergeProgressState)
deriving DecidableEq, Repr

/-- The record with a name. -/
def Records.value (k : Records) : RecordName → RecordValue
  | .voting => .voting k.voting
  | .applied => .applied k.applied
  | .snapshot => .snapshot k.snapshot
  | .mergeProgress => .mergeProgress k.mergeProgress

namespace MetaSave

/-- The records a save writes, in the order of the memory writes. -/
def names : MetaSave → List RecordName
  | .voting _ => [.voting]
  | .applied _ => [.applied]
  | .snapshot _ => [.snapshot]
  | .mergeProgress _ => [.mergeProgress]
  | .snapshotAndMerge _ _ => [.snapshot, .mergeProgress]

/-- The memory write of one record. -/
def rememberOne : MetaSave → RecordName → MetadataManager → MetadataManager
  | .voting s, .voting => votingRecord.set s
  | .applied s, .applied => appliedRecord.set s
  | .snapshot s, .snapshot => snapshotRecord.set s
  | .mergeProgress s, .mergeProgress => mergeProgressRecord.set s
  | .snapshotAndMerge s _, .snapshot => snapshotRecord.set s
  | .snapshotAndMerge _ p, .mergeProgress => mergeProgressRecord.set p
  | _, _ => id

/-- The first step of a save: serialize and commit. -/
def commit (op : MetaSave) : MetaM Unit := do
  let ws ← Eff.ofExcept op.writes
  sys (Sys.commitWrites ws)

theorem remembers_eq (op : MetaSave) : op.remembers = op.names.map op.rememberOne := by
  cases op <;> rfl

/-- A save is its commit, then its memory writes. -/
theorem call_eq (op : MetaSave) :
    op.call = (do
      op.commit
      Eff.modify fun m => op.names.foldl (fun m name => op.rememberOne name m) m : MetaM Unit) := by
  have hremember : (rememberSteps op.remembers).run =
      Eff.modify fun m => op.names.foldl (fun m name => op.rememberOne name m) m := by
    funext m
    rw [run_rememberSteps, Eff.modify_run, remembers_eq, List.foldl_map]
  funext m
  rw [← run_steps, steps, Steps.run_andThen, commit]
  cases op.writes with
  | error e => rfl
  | ok ws =>
      simp only [Steps.run_andThen, run_onWorld, Sys.run_transactionSteps, hremember]
      rfl

theorem nodup_names (op : MetaSave) : op.names.Nodup := by
  cases op <;> simp [names]

theorem value_effect_of_mem {op : MetaSave} {name : RecordName} (h : name ∈ op.names)
    (k k' : Records) : (op.effect k).value name = (op.effect k').value name := by
  cases op <;> cases name <;> first | rfl | simp [names] at h

theorem value_effect_of_not_mem {op : MetaSave} {name : RecordName} (h : name ∉ op.names)
    (k : Records) : (op.effect k).value name = k.value name := by
  cases op <;> cases name <;> first | rfl | simp [names] at h

theorem value_rememberOne {op : MetaSave} {name : RecordName} (h : name ∈ op.names)
    (m : MetadataManager) (k : Records) :
    (op.rememberOne name m).records.value name = (op.effect k).value name := by
  cases op <;> cases name <;> first | rfl | simp [names] at h

theorem value_rememberOne_of_ne {op : MetaSave} {name other : RecordName} (h : other ≠ name)
    (m : MetadataManager) :
    (op.rememberOne name m).records.value other = m.records.value other := by
  cases op <;> cases name <;> cases other <;> first | rfl | exact absurd rfl h

theorem world_rememberOne (op : MetaSave) (name : RecordName) (m : MetadataManager) :
    (op.rememberOne name m).world = m.world := by
  cases op <;> cases name <;> rfl

theorem commit_ok {op : MetaSave} {m m' : MetadataManager} {u : Unit}
    (h : op.commit m = (.ok u, m')) :
    m'.records = m.records ∧
      Records.ofTree m'.world.tree = op.effect (Records.ofTree m.world.tree) := by
  obtain ⟨ws, m₁, hws, hcommit⟩ := Eff.bind_eq_ok_iff.mp h
  rw [Eff.ofExcept_run, Prod.mk.injEq] at hws
  obtain ⟨hws, rfl⟩ := hws
  obtain ⟨w, hw, rfl⟩ := sys_ok hcommit
  refine ⟨rfl, ?_⟩
  obtain ⟨fs, hok | ⟨e, herr⟩⟩ := Sys.commitWrites_cases ws m.world
  · rw [hok] at hw
    obtain rfl := (Prod.mk.inj hw).2
    exact ofTree_replay hws _
  · rw [herr] at hw
    cases hw

end MetaSave

/-- A save on its way: the memory writes left to do, once it has committed. -/
structure SaveCall where
  op : MetaSave
  left : Option (List RecordName)
deriving DecidableEq, Repr

/-- A manager with the saves running on it, and for each record the call that committed it last. -/
structure SavePool where
  manager : MetadataManager
  calls : List SaveCall
  latest : RecordName → Option Nat

/-- Saves that have all just been called. -/
def SavePool.start (m : MetadataManager) (ops : List MetaSave) : SavePool :=
  ⟨m, ops.map fun op => ⟨op, none⟩, fun _ => none⟩

/-- After the commit of a call: its memory writes are left, and it is the last to have committed
its records. -/
def SavePool.committed (s : SavePool) (i : Nat) (op : MetaSave) (m : MetadataManager) :
    SavePool where
  manager := m
  calls := s.calls.set i ⟨op, some op.names⟩
  latest name := if name ∈ op.names then some i else s.latest name

/-- After a memory write of a call. -/
def SavePool.remembered (s : SavePool) (i : Nat) (op : MetaSave) (name : RecordName)
    (rest : List RecordName) : SavePool where
  manager := op.rememberOne name s.manager
  calls := s.calls.set i ⟨op, some rest⟩
  latest := s.latest

/-- A commit or a memory write of one of the calls.  Memory writes meet the condition. -/
inductive PoolStep (cond : SavePool → Nat → RecordName → Prop) : SavePool → SavePool → Prop
  | commit {s : SavePool} {i : Nat} {op : MetaSave} {m : MetadataManager} :
      s.calls[i]? = some ⟨op, none⟩ → op.commit s.manager = (.ok (), m) →
      PoolStep cond s (s.committed i op m)
  | remember {s : SavePool} {i : Nat} {op : MetaSave} {name : RecordName}
      {rest : List RecordName} :
      s.calls[i]? = some ⟨op, some (name :: rest)⟩ → cond s i name →
      PoolStep cond s (s.remembered i op name rest)

/-- The call that committed the record last is the one that writes it, or has not written it
yet. -/
def InOrder (s : SavePool) (i : Nat) (name : RecordName) : Prop :=
  ∀ j, s.latest name = some j → j ≠ i →
    ∀ call, s.calls[j]? = some call → ∃ left, call.left = some left ∧ name ∈ left

/-- Where the records of a pool are: the tree has the value of the last commit, and so has memory
once the call that made it has written it. -/
structure PoolInv (ops : List MetaSave) (s : SavePool) : Prop where
  saves : s.calls.map SaveCall.op = ops
  committed : ∀ name (j : Nat), s.latest name = some j → ∃ (op : MetaSave) (left : List RecordName),
    s.calls[j]? = some ⟨op, some left⟩ ∧ name ∈ op.names ∧
    (Records.ofTree s.manager.world.tree).value name =
      (op.effect (Records.ofTree s.manager.world.tree)).value name ∧
    (name ∉ left →
      s.manager.records.value name = (Records.ofTree s.manager.world.tree).value name)
  running : ∀ (i : Nat) (op : MetaSave) left, s.calls[i]? = some ⟨op, some left⟩ →
    left <:+ op.names ∧ ∀ name ∈ op.names, s.latest name ≠ none

theorem map_op_set {calls : List SaveCall} {i : Nat} {op : MetaSave}
    {left : Option (List RecordName)} (hi : calls[i]? = some ⟨op, left⟩)
    (left' : Option (List RecordName)) :
    (calls.set i ⟨op, left'⟩).map SaveCall.op = calls.map SaveCall.op := by
  obtain ⟨hlt, hget⟩ := List.getElem?_eq_some_iff.mp hi
  apply List.ext_getElem?
  intro j
  by_cases hij : i = j
  · subst hij
    simp [hlt, hget]
  · simp [hij]

namespace PoolInv

variable {ops : List MetaSave}

theorem start (m : MetadataManager) (ops : List MetaSave) : PoolInv ops (.start m ops) where
  saves := by simp [SavePool.start, Function.comp_def]
  committed name j hj := by cases hj
  running i op left hi := by
    simp [SavePool.start] at hi

theorem commit {s : SavePool} {i : Nat} {op : MetaSave} {m : MetadataManager} (hs : PoolInv ops s)
    (hi : s.calls[i]? = some ⟨op, none⟩) (hcommit : op.commit s.manager = (.ok (), m)) :
    PoolInv ops (s.committed i op m) := by
  obtain ⟨hmem, htree⟩ := MetaSave.commit_ok hcommit
  have hset : (s.calls.set i ⟨op, some op.names⟩)[i]? = some ⟨op, some op.names⟩ := by
    obtain ⟨hlt, -⟩ := List.getElem?_eq_some_iff.mp hi
    simp [hlt]
  refine ⟨?_, ?_, ?_⟩
  · exact (map_op_set hi _).trans hs.saves
  · intro name j hlatest
    simp only [SavePool.committed] at hlatest
    split at hlatest
    next hin =>
      obtain rfl := Option.some.inj hlatest
      refine ⟨op, op.names, hset, hin, ?_, fun hnot => absurd hin hnot⟩
      simp only [SavePool.committed, htree]
      exact MetaSave.value_effect_of_mem hin _ _
    next hnot =>
      obtain ⟨op', left, hj, hin, hdisk, hwritten⟩ := hs.committed name j hlatest
      have hne : i ≠ j := by
        rintro rfl
        rw [hi] at hj
        cases hj
      refine ⟨op', left, ?_, hin, ?_, ?_⟩
      · exact (List.getElem?_set_ne hne).trans hj
      · simp only [SavePool.committed, htree, MetaSave.value_effect_of_not_mem hnot]
        rw [hdisk]
        exact MetaSave.value_effect_of_mem hin _ _
      · simp only [SavePool.committed, hmem, htree, MetaSave.value_effect_of_not_mem hnot]
        exact hwritten
  · intro j op' left hj
    simp only [SavePool.committed] at hj ⊢
    by_cases hij : i = j
    · subst hij
      rw [hset] at hj
      cases hj
      exact ⟨List.suffix_refl _, fun name hname => by rw [if_pos hname]; exact nofun⟩
    · rw [List.getElem?_set_ne hij] at hj
      obtain ⟨hsuffix, hlatest⟩ := hs.running j op' left hj
      refine ⟨hsuffix, fun name hname => ?_⟩
      split
      · exact nofun
      · exact hlatest name hname

theorem remember {s : SavePool} {i : Nat} {op : MetaSave} {name : RecordName}
    {rest : List RecordName} (hs : PoolInv ops s)
    (hi : s.calls[i]? = some ⟨op, some (name :: rest)⟩) (hcond : InOrder s i name) :
    PoolInv ops (s.remembered i op name rest) := by
  have hset : (s.calls.set i ⟨op, some rest⟩)[i]? = some ⟨op, some rest⟩ := by
    obtain ⟨hlt, -⟩ := List.getElem?_eq_some_iff.mp hi
    simp [hlt]
  obtain ⟨hsuffix, hlatest⟩ := hs.running i op _ hi
  have hin : name ∈ op.names := hsuffix.subset List.mem_cons_self
  have hrest : name ∉ rest :=
    (List.nodup_cons.mp (hsuffix.sublist.nodup op.nodup_names)).1
  have hworld := op.world_rememberOne name s.manager
  refine ⟨?_, ?_, ?_⟩
  · exact (map_op_set hi _).trans hs.saves
  · intro other j hj
    obtain ⟨op', left, hcall, hin', hdisk, hwritten⟩ := hs.committed other j hj
    simp only [SavePool.remembered, hworld]
    by_cases hij : i = j
    · subst hij
      rw [hi] at hcall
      cases hcall
      refine ⟨op, rest, hset, hin', hdisk, fun hnot => ?_⟩
      by_cases hother : other = name
      · subst hother
        rw [MetaSave.value_rememberOne hin' s.manager, hdisk]
      · rw [MetaSave.value_rememberOne_of_ne hother]
        exact hwritten (by simp [hother, hnot])
    · refine ⟨op', left, ?_, hin', hdisk, fun hnot => ?_⟩
      · rw [List.getElem?_set_ne hij]
        exact hcall
      · by_cases hother : other = name
        · -- the last committer has still to write the record
          subst hother
          obtain ⟨left', hleft', hmem⟩ := hcond j hj (Ne.symm hij) _ hcall
          cases hleft'
          exact absurd hmem hnot
        · rw [MetaSave.value_rememberOne_of_ne hother]
          exact hwritten hnot
  · intro j op' left hj
    simp only [SavePool.remembered] at hj ⊢
    by_cases hij : i = j
    · subst hij
      rw [hset] at hj
      cases hj
      exact ⟨(List.suffix_cons name _).trans hsuffix, hlatest⟩
    · rw [List.getElem?_set_ne hij] at hj
      exact hs.running j op' left hj

theorem run {s s' : SavePool} (hs : PoolInv ops s)
    (hrun : Relation.ReflTransGen (PoolStep InOrder) s s') : PoolInv ops s' := by
  induction hrun with
  | refl => exact hs
  | tail _ hstep ih =>
      cases hstep with
      | commit hi hcommit => exact ih.commit hi hcommit
      | remember hi hcond => exact ih.remember hi hcond

/-- When all calls have returned, memory and tree agree on what they saved. -/
theorem agree {s : SavePool} (hs : PoolInv ops s) (hdone : ∀ c ∈ s.calls, c.left = some [])
    {op : MetaSave} (hop : op ∈ ops) {name : RecordName} (hname : name ∈ op.names) :
    s.manager.records.value name = (Records.ofTree s.manager.world.tree).value name := by
  rw [← hs.saves] at hop
  obtain ⟨call, hcall, rfl⟩ := List.mem_map.mp hop
  obtain ⟨i, hi⟩ := List.mem_iff_getElem?.mp hcall
  have hcommitted : s.latest name ≠ none := by
    have hi' : s.calls[i]? = some ⟨call.op, some []⟩ := by rw [hi, ← hdone call hcall]
    exact (hs.running i _ _ hi').2 name hname
  obtain ⟨j, hj⟩ := Option.ne_none_iff_exists'.mp hcommitted
  obtain ⟨op, left, hlast, _, _, hwritten⟩ := hs.committed name j hj
  have hleft : some left = some [] := hdone _ (List.mem_of_getElem? hlast)
  cases hleft
  exact hwritten List.not_mem_nil

end PoolInv

/-- When no save writes a record in memory after the call that committed it last has, the saved
records in memory are those a load reads back once all saves have returned. -/
theorem saves_agree_in_order {m₀ : MetadataManager} {ops : List MetaSave} {s : SavePool}
    (hrun : Relation.ReflTransGen (PoolStep InOrder) (.start m₀ ops) s)
    (hdone : ∀ c ∈ s.calls, c.left = some []) :
    ∀ op ∈ ops, ∀ name ∈ op.names, ∀ w m u, w.tree = s.manager.world.tree →
      load (MetadataManager.new w) = (.ok u, m) →
      s.manager.records.value name = m.records.value name := by
  intro op hop name hname w m u hw hload
  rw [(records_load_new hload).1, hw]
  exact ((PoolInv.start m₀ ops).run hrun).agree hdone hop hname

section Two

/-- A manager with nothing saved. -/
def unsaved : MetadataManager := (SurrealStorage.fresh []).metadata

/-- The manager after the commit of an applied position. -/
def appliedCommitted (m : MetadataManager) (st : AppliedState) : MetadataManager :=
  m.withWorld (m.world.withTree
    (m.world.tree.insert appliedRecord.key (AppliedState.codec.encode st)))

/-- Two saves that have committed, with nothing written in memory yet. -/
def twoCommitted : SavePool :=
  ((SavePool.start unsaved [.applied ⟨1, 1⟩, .applied ⟨2, 1⟩]).committed 0 (.applied ⟨1, 1⟩)
    (appliedCommitted unsaved ⟨1, 1⟩)).committed 1 (.applied ⟨2, 1⟩)
      (appliedCommitted (appliedCommitted unsaved ⟨1, 1⟩) ⟨2, 1⟩)

theorem commit_applied (st : AppliedState) {m : MetadataManager} (h : m.world.faults = []) :
    (MetaSave.applied st).commit m = (.ok (), appliedCommitted m st) := by
  have hwrites : (MetaSave.applied st).writes =
      .ok [.put appliedRecord.key (AppliedState.codec.encode st)] := by
    rw [MetaSave.writes, MetaSave.recordWrite,
      show appliedRecord.codec = AppliedState.codec from rfl, AppliedState.toStdvec_eq st]
    rfl
  rw [MetaSave.commit, hwrites, Eff.bind_of_ok (Eff.ofExcept_run _ m)]
  exact sys_of_eq (Sys.commitWrites_quiet h (Sys.keyed_put appliedRecord.key_ne_nil _))

theorem reaches_twoCommitted (cond : SavePool → Nat → RecordName → Prop) :
    Relation.ReflTransGen (PoolStep cond)
      (.start unsaved [.applied ⟨1, 1⟩, .applied ⟨2, 1⟩]) twoCommitted :=
  (Relation.ReflTransGen.single (.commit (i := 0) rfl (commit_applied ⟨1, 1⟩ rfl))).tail
    (.commit (i := 1) rfl (commit_applied ⟨2, 1⟩ rfl))

/-- Written in the order of the commits. -/
theorem saves_agree_in_order_two :
    ∃ s, Relation.ReflTransGen (PoolStep InOrder)
        (.start unsaved [.applied ⟨1, 1⟩, .applied ⟨2, 1⟩]) s ∧
      (∀ c ∈ s.calls, c.left = some []) ∧
      ∀ w m u, w.tree = s.manager.world.tree → load (MetadataManager.new w) = (.ok u, m) →
        s.manager.records.value .applied = m.records.value .applied := by
  have hfirst : InOrder twoCommitted 0 .applied := by
    intro j hj _ call hcall
    obtain rfl : 1 = j := Option.some.inj hj
    obtain rfl := Option.some.inj hcall
    exact ⟨[.applied], rfl, List.mem_cons_self⟩
  have hsecond : ∀ calls m, InOrder ⟨m, calls, twoCommitted.latest⟩ 1 .applied := by
    intro calls m j hj hne
    exact absurd (Option.some.inj hj).symm hne
  have hrun := ((reaches_twoCommitted InOrder).tail (.remember (i := 0) rfl hfirst)).tail
    (.remember (i := 1) rfl (hsecond _ _))
  have hdone : ∀ c ∈ ([⟨.applied ⟨1, 1⟩, some []⟩, ⟨.applied ⟨2, 1⟩, some []⟩] : List SaveCall),
      c.left = some [] := by decide
  exact ⟨_, hrun, hdone, saves_agree_in_order hrun hdone _ List.mem_cons_self _ List.mem_cons_self⟩

/-- Written in the other order: memory keeps the first position, the tree has the second. -/
theorem saves_written_out_of_order :
    ∃ s m, Relation.ReflTransGen (PoolStep fun _ _ _ => True)
        (.start unsaved [.applied ⟨1, 1⟩, .applied ⟨2, 1⟩]) s ∧
      (∀ c ∈ s.calls, c.left = some []) ∧
      load (MetadataManager.new s.manager.world) = (.ok (), m) ∧
      s.manager.appliedState = ⟨1, 1⟩ ∧ m.appliedState = ⟨2, 1⟩ := by
  have hrun := ((reaches_twoCommitted fun _ _ _ => True).tail
    (.remember (i := 1) rfl trivial)).tail (.remember (i := 0) rfl trivial)
  have hdone : ∀ c ∈ ([⟨.applied ⟨1, 1⟩, some []⟩, ⟨.applied ⟨2, 1⟩, some []⟩] : List SaveCall),
      c.left = some [] := by decide
  have hload : Eff.succeeds load (MetadataManager.new twoCommitted.manager.world) fun _ m =>
      m.appliedState = ⟨2, 1⟩ := by decide +kernel
  obtain ⟨_, m, hm, happlied⟩ := Eff.exists_of_succeeds hload
  exact ⟨_, m, hrun, hdone, hm, rfl, of_decide_eq_true happlied⟩

end Two

end OpenraftSurrealkv
