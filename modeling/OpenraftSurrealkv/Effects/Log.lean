import OpenraftSurrealkv.StorageRaft

/-!
# What appending and applying do

Each operation on the log has an effect as a plain function on the store, and
one lemma that says the operation has this effect when it succeeds.  The lemmas
hold up to `World.faults`, which every operation uses up as it goes.

* `afterEntry` is the effect of one entry of `apply`: the request runs on the
  map and is recorded, a membership is kept, and the applied position moves.
* `afterAppend` is the effect of one entry of `append`: it enters the log, and a
  request is recorded and moves the applied position.
-/

namespace OpenraftSurrealkv

open Postcard

namespace SurrealStorage

/-! ## Building blocks -/

/-- The same store with other call outcomes to come. -/
def withFaults (n : SurrealStorage) (fs : List (Option String)) : SurrealStorage :=
  { n with metadata := n.metadata.withWorld (n.world.withFaults fs) }

/-- The applied position moved, in memory and in the tree. -/
def atPosition (n : SurrealStorage) (st : AppliedState) : SurrealStorage :=
  { n with metadata := MetadataManager.appliedRecord.set st (n.metadata.withWorld
      (n.world.withTree (n.world.tree.insert MetadataManager.appliedRecord.key
        (AppliedState.codec.encode st)))) }

/-- The request of an entry in the request log. -/
def recordOf (e : Entry) (req : KVRequest) : LogEntry :=
  ⟨e.term, e.index, KVRequest.codec.encode req⟩

/-- The request log with a request added. -/
def withRecord (n : SurrealStorage) (l : LogEntry) : SurrealStorage :=
  { n with raftLogs := n.raftLogs.insert l.index l }

@[simp] theorem withFaults_withFaults (n : SurrealStorage) (fs gs : List (Option String)) :
    (n.withFaults fs).withFaults gs = n.withFaults gs := rfl

@[simp] theorem withFaults_self (n : SurrealStorage) : n.withFaults n.world.faults = n := rfl

theorem withFaults_atPosition (n : SurrealStorage) (fs : List (Option String)) (st : AppliedState) :
    (n.withFaults fs).atPosition st = (n.atPosition st).withFaults fs := rfl

/-- A sequence of effects that do not read the call outcomes. -/
theorem foldl_withFaults {f : SurrealStorage → Entry → SurrealStorage}
    (hf : ∀ n fs e, f (n.withFaults fs) e = (f n e).withFaults fs) :
    ∀ (es : List Entry) (n : SurrealStorage) (fs : List (Option String)),
      es.foldl f (n.withFaults fs) = (es.foldl f n).withFaults fs
  | [], _, _ => rfl
  | e :: es, n, fs => by
      rw [List.foldl_cons, List.foldl_cons, hf]
      exact foldl_withFaults hf es (f n e) fs

/-- Moving to a position twice is moving there once. -/
theorem atPosition_atPosition (n : SurrealStorage) (st : AppliedState) :
    (n.atPosition st).atPosition st = n.atPosition st := by
  have htree : ∀ t : Tree, ∀ k v : Bytes, (t.insert k v).insert k v = t.insert k v :=
    fun t k v => Update.run_run t (.put k v)
  simp only [atPosition, world, MetadataManager.appliedRecord, MetadataManager.withWorld_world,
    World.withTree_tree, htree]
  rfl

theorem onMetadata_of_eq {α : Type} {x : MetaM α} {n : SurrealStorage} {r : Except RaftError α}
    {m : MetadataManager} (h : x n.metadata = (r, m)) :
    onMetadata x n = (r, { n with metadata := m }) := by
  rw [onMetadata, Eff.zoom_run, h]

theorem sys_of_eq {α : Type} {x : Sys α} {n : SurrealStorage} {r : Except RaftError α}
    {w : World} (h : x n.world = (r, w)) :
    sys x n = (r, { n with metadata := n.metadata.withWorld w }) :=
  onMetadata_of_eq (MetadataManager.sys_of_eq h)

theorem saveAppliedState_cases (st : AppliedState) (n : SurrealStorage) :
    ∃ fs, onMetadata (MetadataManager.saveAppliedState st) n =
        (.ok (), (n.atPosition st).withFaults fs) ∨
      ∃ e, onMetadata (MetadataManager.saveAppliedState st) n = (.error e, n.withFaults fs) := by
  obtain ⟨fs, ⟨bytes, hb, hok⟩ | ⟨e, herr⟩⟩ :=
    MetadataManager.appliedRecord.save_cases st n.metadata
  · refine ⟨fs, Or.inl ?_⟩
    have hbytes : AppliedState.codec.encode st = bytes :=
      Except.ok.inj ((AppliedState.toStdvec_eq st).symm.trans hb)
    subst hbytes
    exact onMetadata_of_eq hok
  · exact ⟨fs, Or.inr ⟨e, onMetadata_of_eq herr⟩⟩

/-- With no failure to come, the applied position is saved. -/
theorem saveAppliedState_quiet {n : SurrealStorage} (st : AppliedState)
    (h : n.world.faults = []) :
    onMetadata (MetadataManager.saveAppliedState st) n = (.ok (), n.atPosition st) :=
  onMetadata_of_eq (Record.save_quiet (AppliedState.toStdvec_eq st) h)

/-! ## Recording a request -/

/-- A request that can be serialized. -/
def Fits (req : KVRequest) : Prop := (KVRequest.codec.encode req).length < 2 ^ 63

/-- Recording a request fails before it is recorded, fails to move the applied position after, or
succeeds. -/
theorem appendLogEntry_cases (term index : UInt64) (req : KVRequest) (n : SurrealStorage) :
    ∃ fs,
      (Fits req ∧ appendLogEntry term index req n = (.ok (),
        ((n.withRecord ⟨term, index, KVRequest.codec.encode req⟩).atPosition
          ⟨index, term⟩).withFaults fs)) ∨
      (∃ e, appendLogEntry term index req n = (.error e,
        (n.withRecord ⟨term, index, KVRequest.codec.encode req⟩).withFaults fs)) ∨
      ∃ e, appendLogEntry term index req n = (.error e, n.withFaults fs) := by
  cases hp : KVRequest.codec.toStdvec req with
  | error e =>
      refine ⟨n.world.faults, Or.inr (Or.inr ⟨.ofPostcard e, ?_⟩)⟩
      rw [appendLogEntry, hp, liftPostcard, Eff.bind_of_error (Eff.ofExcept_run _ n),
        withFaults_self]
  | ok payload =>
      obtain ⟨hlt, rfl⟩ := Codec.toStdvec_eq_ok_iff.mp hp
      have hrun : appendLogEntry term index req n =
          onMetadata (MetadataManager.saveAppliedState ⟨index, term⟩)
            (n.withRecord ⟨term, index, KVRequest.codec.encode req⟩) := by
        rw [appendLogEntry, hp, liftPostcard, Eff.bind_of_ok (Eff.ofExcept_run _ n),
          Eff.bind_of_ok (Eff.modify_run _ n)]
        rfl
      obtain ⟨fs, hok | ⟨e, herr⟩⟩ := saveAppliedState_cases ⟨index, term⟩
        (n.withRecord ⟨term, index, KVRequest.codec.encode req⟩)
      · exact ⟨fs, Or.inl ⟨hlt, hrun.trans hok⟩⟩
      · exact ⟨fs, Or.inr (Or.inl ⟨e, hrun.trans herr⟩)⟩

theorem appendLogEntry_ok {term index : UInt64} {req : KVRequest} {n n' : SurrealStorage}
    {u : Unit} (h : appendLogEntry term index req n = (.ok u, n')) :
    Fits req ∧ ∃ fs, n' = ((n.withRecord ⟨term, index, KVRequest.codec.encode req⟩).atPosition
      ⟨index, term⟩).withFaults fs := by
  obtain ⟨fs, ⟨hfit, hok⟩ | ⟨e, herr⟩ | ⟨e, herr⟩⟩ := appendLogEntry_cases term index req n
  · rw [hok] at h
    exact ⟨hfit, fs, (Prod.mk.inj h).2.symm⟩
  · rw [herr] at h
    cases h
  · rw [herr] at h
    cases h

theorem appendLogEntry_quiet {n : SurrealStorage} {req : KVRequest} (term index : UInt64)
    (hfit : Fits req) (h : n.world.faults = []) :
    appendLogEntry term index req n = (.ok (),
      (n.withRecord ⟨term, index, KVRequest.codec.encode req⟩).atPosition ⟨index, term⟩) := by
  have hp := Codec.toStdvec_eq_ok_iff.mpr ⟨hfit, rfl⟩
  rw [appendLogEntry, hp, liftPostcard, Eff.bind_of_ok (Eff.ofExcept_run _ n),
    Eff.bind_of_ok (Eff.modify_run _ n)]
  exact saveAppliedState_quiet ⟨index, term⟩ h

/-! ## Appending -/

/-- The effect of a request of the log, before the entry enters it. -/
def recorded (e : Entry) (n : SurrealStorage) : SurrealStorage :=
  match e.payload with
  | .normal req => (n.withRecord (recordOf e req)).atPosition ⟨e.index, e.term⟩
  | .blank => n
  | .membership _ => n

/-- The effect of appending an entry. -/
def afterAppend (n : SurrealStorage) (e : Entry) : SurrealStorage :=
  { recorded e n with raftEntries := n.raftEntries.insert e.index e }

/-- The request of an entry, if any, can be serialized. -/
def EntryFits (e : Entry) : Prop := ∀ req, e.payload = .normal req → Fits req

theorem asIo_ok {α : Type} {x : Op α} {n n' : SurrealStorage} {a : α}
    (h : asIo x n = (.ok a, n')) : x n = (.ok a, n') :=
  Eff.mapErr_eq_ok_iff.mp h

theorem recordRequest_ok {e : Entry} {n n' : SurrealStorage} {u : Unit}
    (h : recordRequest e n = (.ok u, n')) :
    EntryFits e ∧ ∃ fs, n' = (recorded e n).withFaults fs := by
  rcases e with ⟨id, p⟩
  cases p with
  | normal req =>
      obtain ⟨hfit, fs, rfl⟩ := appendLogEntry_ok (asIo_ok h)
      refine ⟨?_, fs, rfl⟩
      intro req' hreq
      cases hreq
      exact hfit
  | blank =>
      cases h
      exact ⟨(fun _ hreq => nomatch hreq), n.world.faults, rfl⟩
  | membership m =>
      cases h
      exact ⟨(fun _ hreq => nomatch hreq), n.world.faults, rfl⟩

theorem appendEntry_ok {e : Entry} {n n' : SurrealStorage} {u : Unit}
    (h : appendEntry e n = (.ok u, n')) :
    EntryFits e ∧ ∃ fs, n' = (n.afterAppend e).withFaults fs := by
  obtain ⟨_, n₁, hrec, hmod⟩ := Eff.bind_eq_ok_iff.mp h
  obtain ⟨hfit, fs, rfl⟩ := recordRequest_ok hrec
  refine ⟨hfit, fs, ?_⟩
  have hentries : ((recorded e n).withFaults fs).raftEntries = n.raftEntries := by
    rcases e with ⟨id, p⟩
    cases p <;> rfl
  rw [Eff.modify_run, Prod.mk.injEq, hentries] at hmod
  exact hmod.2.symm

/-- When every entry has its effect, a loop over entries has the effects in turn. -/
theorem loop_ok {α : Type} {step : Entry → Op α} {loop : List Entry → Op Unit}
    {after : SurrealStorage → Entry → SurrealStorage} (hnil : loop [] = pure ())
    (hcons : ∀ e es, loop (e :: es) = (step e >>= fun _ => loop es))
    (hstep : ∀ {e n n' a}, step e n = (.ok a, n') →
      EntryFits e ∧ ∃ fs, n' = (after n e).withFaults fs)
    (hfaults : ∀ n fs e, after (n.withFaults fs) e = (after n e).withFaults fs)
    (es : List Entry) :
    ∀ {n n' : SurrealStorage} {u : Unit}, loop es n = (.ok u, n') →
      (∀ e ∈ es, EntryFits e) ∧ ∃ fs, n' = (es.foldl after n).withFaults fs := by
  induction es with
  | nil =>
      intro n n' u h
      rw [hnil] at h
      obtain ⟨_, rfl⟩ := Eff.ok_inj h
      exact ⟨by simp, n.world.faults, rfl⟩
  | cons e es ih =>
      intro n n' u h
      rw [hcons] at h
      obtain ⟨_, n₁, hone, hrest⟩ := Eff.bind_eq_ok_iff.mp h
      obtain ⟨hfit, fs, rfl⟩ := hstep hone
      obtain ⟨hfits, gs, rfl⟩ := ih hrest
      refine ⟨List.forall_mem_cons.mpr ⟨hfit, hfits⟩, gs, ?_⟩
      rw [List.foldl_cons, foldl_withFaults hfaults, withFaults_withFaults]

theorem withFaults_afterAppend (n : SurrealStorage) (fs : List (Option String)) (e : Entry) :
    (n.withFaults fs).afterAppend e = (n.afterAppend e).withFaults fs := by
  rcases e with ⟨id, p⟩
  cases p <;> rfl

/-- A successful `append` has the effects of its entries in turn. -/
theorem append_ok {es : List Entry} {n n' : SurrealStorage} {u : Unit}
    (h : append es n = (.ok u, n')) :
    (∀ e ∈ es, EntryFits e) ∧ ∃ fs, n' = (es.foldl afterAppend n).withFaults fs :=
  loop_ok rfl (fun _ _ => rfl) appendEntry_ok withFaults_afterAppend es h

theorem raftEntries_afterAppend (n : SurrealStorage) (e : Entry) :
    (n.afterAppend e).raftEntries = n.raftEntries.insert e.index e := rfl

theorem lastPurgedLogId_afterAppend (n : SurrealStorage) (e : Entry) :
    (n.afterAppend e).lastPurgedLogId = n.lastPurgedLogId := by
  rcases e with ⟨id, p⟩
  cases p <;> rfl

/-! ## Positions of the log -/

/-- Entries at consecutive indices, the first after the last index if there is one. -/
def Consecutive : Option UInt64 → List Entry → Prop
  | _, [] => True
  | last, e :: es =>
      (∀ i, last = some i → e.index.toNat = i.toNat + 1) ∧ Consecutive (some e.index) es

/-- The index of the last log id. -/
def lastIndex (n : SurrealStorage) : Option UInt64 := n.lastLogId.map LogId.index

/-! ## Truncating and purging -/

/-- Whether truncating after a log id removes an index. -/
def cuts : Option LogId → UInt64 → Prop
  | some l, i => l.index < i
  | none, _ => True

theorem raftEntries_truncateAfter {l : Option LogId} {n : SurrealStorage} {i : UInt64} {e : Entry} :
    (truncateAfter l n).2.raftEntries[i]? = some e ↔ n.raftEntries[i]? = some e ∧ ¬ cuts l i := by
  cases l with
  | none =>
      have hnone : (truncateAfter none n).2.raftEntries[i]? = none :=
        Std.ExtTreeMap.getElem?_empty
      simp [hnone, cuts]
  | some l =>
      have hget : (truncateAfter (some l) n).2.raftEntries[i]? =
          n.raftEntries[i]?.filter fun _ => decide (i ≤ l.index) :=
        Std.ExtTreeMap.getElem?_filter'
      rw [hget, cuts, UInt64.not_lt, Option.filter_eq_some_iff, decide_eq_true_eq]

theorem raftEntries_purge {id : LogId} {n : SurrealStorage} {i : UInt64} {e : Entry} :
    (purge id n).2.raftEntries[i]? = some e ↔ n.raftEntries[i]? = some e ∧ id.index < i := by
  have hget : (purge id n).2.raftEntries[i]? =
      n.raftEntries[i]?.filter fun _ => decide (id.index < i) :=
    Std.ExtTreeMap.getElem?_filter'
  rw [hget, Option.filter_eq_some_iff, decide_eq_true_eq]

/-! ## Applying -/

/-- The effect of an entry on the state machine. -/
def afterPayload (n : SurrealStorage) (e : Entry) : SurrealStorage :=
  match e.payload with
  | .normal req =>
      { n with
        stateMachine := req.update.run n.stateMachine
        raftLogs := n.raftLogs.insert e.index (recordOf e req) }
  | .blank => n
  | .membership m => { n with lastMembership := ⟨some e.logId, m⟩ }

/-- The effect of applying an entry. -/
def afterEntry (n : SurrealStorage) (e : Entry) : SurrealStorage :=
  (n.afterPayload e).atPosition ⟨e.index, e.term⟩

theorem withFaults_afterEntry (n : SurrealStorage) (fs : List (Option String)) (e : Entry) :
    (n.withFaults fs).afterEntry e = (n.afterEntry e).withFaults fs := by
  rcases e with ⟨id, p⟩
  cases p <;> rfl

theorem sys_external_cases (wrap : String → RaftError) (n : SurrealStorage) :
    ∃ fs, sys (Sys.external wrap) n = (.ok (), n.withFaults fs) ∨
      ∃ e, sys (Sys.external wrap) n = (.error e, n.withFaults fs) := by
  obtain ⟨fs, hok | ⟨e, herr⟩⟩ := Sys.external_cases wrap n.world
  · exact ⟨fs, Or.inl (sys_of_eq hok)⟩
  · exact ⟨fs, Or.inr ⟨e, sys_of_eq herr⟩⟩

/-- Whatever comes of it, an external call uses up an outcome and changes nothing else. -/
theorem sys_external_state {wrap : String → RaftError} {n n' : SurrealStorage}
    {r : Except RaftError Unit} (h : sys (Sys.external wrap) n = (r, n')) :
    ∃ fs, n' = n.withFaults fs := by
  obtain ⟨fs, hok | ⟨_, herr⟩⟩ := sys_external_cases wrap n
  · cases hok.symm.trans h
    exact ⟨fs, rfl⟩
  · cases herr.symm.trans h
    exact ⟨fs, rfl⟩

/-- A request that was run and recorded has left all that its entry leaves. -/
theorem applyPayload_normal_ok {id : LogId} {req : KVRequest} {n n' : SurrealStorage}
    {r : KVResponse} (h : applyPayload ⟨id, .normal req⟩ n = (.ok r, n')) :
    Fits req ∧ ∃ fs, n' = (n.afterEntry ⟨id, .normal req⟩).withFaults fs := by
  obtain ⟨_, n₁, hreq, h₁⟩ := Eff.bind_eq_ok_iff.mp h
  obtain ⟨_, n₂, hlog, h₂⟩ := Eff.bind_eq_ok_iff.mp h₁
  cases asIo_ok hreq
  obtain ⟨hfit, fs, rfl⟩ := appendLogEntry_ok (asIo_ok hlog)
  cases h₂
  exact ⟨hfit, fs, rfl⟩

theorem applyPayload_ok {e : Entry} {n n' : SurrealStorage} {r : KVResponse}
    (h : applyPayload e n = (.ok r, n')) :
    EntryFits e ∧ ∃ fs, n'.atPosition ⟨e.index, e.term⟩ = (n.afterEntry e).withFaults fs := by
  rcases e with ⟨id, p⟩
  cases p with
  | normal req =>
      obtain ⟨hfit, fs, rfl⟩ := applyPayload_normal_ok h
      refine ⟨?_, fs, ?_⟩
      · intro req' he
        cases he
        exact hfit
      · rw [withFaults_atPosition]
        exact congrArg (withFaults · fs) (atPosition_atPosition _ _)
  | blank =>
      cases h
      exact ⟨(fun _ he => nomatch he), n.world.faults, rfl⟩
  | membership m =>
      cases h
      exact ⟨(fun _ he => nomatch he), n.world.faults, rfl⟩

/-- A successful entry of `apply` has the effect of the entry. -/
theorem applyEntry_ok {e : Entry} {n n' : SurrealStorage} {r : KVResponse}
    (h : applyEntry e n = (.ok r, n')) :
    EntryFits e ∧ ∃ fs, n' = (n.afterEntry e).withFaults fs := by
  obtain ⟨_, n₁, hitem, h₁⟩ := Eff.bind_eq_ok_iff.mp h
  obtain ⟨_, n₂, hpay, h₂⟩ := Eff.bind_eq_ok_iff.mp h₁
  obtain ⟨_, n₃, hsave, h₃⟩ := Eff.bind_eq_ok_iff.mp h₂
  cases h₃
  obtain ⟨fs₀, rfl⟩ := sys_external_state hitem
  obtain ⟨hfit, fs₁, hpos⟩ := applyPayload_ok hpay
  obtain ⟨fs₂, hok | ⟨_, herr⟩⟩ := saveAppliedState_cases ⟨e.index, e.term⟩ n₂
  · cases hok.symm.trans (asIo_ok hsave)
    refine ⟨hfit, fs₂, ?_⟩
    rw [hpos, withFaults_withFaults, withFaults_afterEntry, withFaults_withFaults]
  · cases herr.symm.trans (asIo_ok hsave)

/-- A successful `apply` has the effects of its entries in turn. -/
theorem apply_ok {es : List Entry} {n n' : SurrealStorage} {u : Unit}
    (h : apply es n = (.ok u, n')) :
    (∀ e ∈ es, EntryFits e) ∧ ∃ fs, n' = (es.foldl afterEntry n).withFaults fs :=
  loop_ok rfl (fun _ _ => rfl) applyEntry_ok withFaults_afterEntry es h

/-! ## The request log -/

/-- The request log with the record of an entry that has a request. -/
def logWith (logs : OrdMap UInt64 LogEntry) (e : Entry) : OrdMap UInt64 LogEntry :=
  match e.payload with
  | .normal req => logs.insert e.index (recordOf e req)
  | .blank => logs
  | .membership _ => logs

theorem raftLogs_afterAppend (n : SurrealStorage) (e : Entry) :
    (n.afterAppend e).raftLogs = logWith n.raftLogs e := by
  rcases e with ⟨id, p⟩
  cases p <;> rfl

theorem raftLogs_afterEntry (n : SurrealStorage) (e : Entry) :
    (n.afterEntry e).raftLogs = logWith n.raftLogs e := by
  rcases e with ⟨id, p⟩
  cases p <;> rfl

/-- Applying an entry leaves the log alone. -/
theorem raftEntries_afterEntry (n : SurrealStorage) (e : Entry) :
    (n.afterEntry e).raftEntries = n.raftEntries := by
  rcases e with ⟨id, p⟩
  cases p <;> rfl

theorem lastPurgedLogId_afterEntry (n : SurrealStorage) (e : Entry) :
    (n.afterEntry e).lastPurgedLogId = n.lastPurgedLogId := by
  rcases e with ⟨id, p⟩
  cases p <;> rfl

theorem get_logWith_of_ne {logs : OrdMap UInt64 LogEntry} {e : Entry} {i : UInt64}
    (h : e.index ≠ i) : (logWith logs e)[i]? = logs[i]? := by
  unfold logWith
  split
  next => rw [OrdMap.get_insert_of_ne _ _ h]
  next => rfl
  next => rfl

theorem get_logWith_normal {logs : OrdMap UInt64 LogEntry} {e : Entry} {req : KVRequest}
    (h : e.payload = .normal req) : (logWith logs e)[e.index]? = some (recordOf e req) := by
  rw [logWith, h]
  exact (OrdMap.get_insert _ _ _ _).trans (if_pos rfl)

/-- A record after an entry was there before or is the entry's. -/
theorem get_logWith_cases {logs : OrdMap UInt64 LogEntry} {e : Entry} {i : UInt64} {l : LogEntry}
    (h : (logWith logs e)[i]? = some l) :
    logs[i]? = some l ∨ e.isNormal = true ∧ e.index = i ∧ l.index = i := by
  by_cases hi : e.index = i
  · subst hi
    cases hn : e.payload with
    | normal req =>
        rw [get_logWith_normal hn] at h
        cases h
        exact Or.inr ⟨Entry.isNormal_iff.mpr ⟨req, hn⟩, rfl, rfl⟩
    | blank =>
        rw [logWith, hn] at h
        exact Or.inl h
    | membership m =>
        rw [logWith, hn] at h
        exact Or.inl h
  · rw [get_logWith_of_ne hi] at h
    exact Or.inl h

/-- An entry removes no record. -/
theorem get_logWith_of_some {logs : OrdMap UInt64 LogEntry} {i : UInt64} {l : LogEntry}
    (e : Entry) (h : logs[i]? = some l) : ∃ l', (logWith logs e)[i]? = some l' := by
  unfold logWith
  split
  next req _ =>
    rw [OrdMap.get_insert]
    split
    next => exact ⟨_, rfl⟩
    next => exact ⟨l, h⟩
  next => exact ⟨l, h⟩
  next => exact ⟨l, h⟩

/-! ## The map that applying leaves -/

/-- Entries at strictly increasing indices. -/
def Increasing (es : List Entry) : Prop := es.Pairwise fun a b => a.index < b.index

/-- The requests of a list of entries, in order. -/
def requests (es : List Entry) : List KVRequest := es.filterMap Entry.request?

/-- The requests of a list of entries as updates of a map. -/
def updates (es : List Entry) : List (Update String Bytes) := (requests es).map KVRequest.update

theorem updates_cons (e : Entry) (es : List Entry) :
    updates (e :: es) = (e.request?.map KVRequest.update).toList ++ updates es := by
  unfold updates requests
  rw [List.filterMap_cons]
  cases e.request? <;> rfl

theorem updates_append (es fs : List Entry) : updates (es ++ fs) = updates es ++ updates fs := by
  unfold updates requests
  rw [List.filterMap_append, List.map_append]

/-- Entries without a request can be left out. -/
theorem requests_filter {p : Entry → Bool} {es : List Entry}
    (h : ∀ e ∈ es, e.isNormal = true → p e = true) : requests (es.filter p) = requests es := by
  unfold requests
  rw [List.filterMap_filter]
  refine List.filterMap_congr fun e he => ?_
  cases hr : e.request? with
  | none => rw [ite_self]
  | some req => rw [if_pos (h e he (by rw [Entry.isNormal, hr]; rfl))]

theorem updates_filter {p : Entry → Bool} {es : List Entry}
    (h : ∀ e ∈ es, e.isNormal = true → p e = true) : updates (es.filter p) = updates es :=
  congrArg (List.map KVRequest.update) (requests_filter h)

theorem stateMachine_afterEntry (n : SurrealStorage) (e : Entry) :
    (n.afterEntry e).stateMachine =
      replay n.stateMachine (e.request?.map KVRequest.update).toList := by
  rcases e with ⟨id, p⟩
  cases p <;> rfl

theorem stateMachine_foldl_afterEntry : ∀ (es : List Entry) (n : SurrealStorage),
    (es.foldl afterEntry n).stateMachine = replay n.stateMachine (updates es)
  | [], _ => rfl
  | e :: es, n => by
      rw [List.foldl_cons, stateMachine_foldl_afterEntry es, stateMachine_afterEntry, updates_cons,
        replay_append]

end SurrealStorage

end OpenraftSurrealkv
