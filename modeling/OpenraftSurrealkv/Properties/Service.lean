import OpenraftSurrealkv.Api
import OpenraftSurrealkv.Properties.Durable
import OpenraftSurrealkv.Properties.Rejected

/-!
# Reads and writes of the service

A node serves reads and writes while the consensus library works on its store:
entries are applied, snapshots are built and installed, merges run, and any of
the calls may fail.  The map of the node is what the requests it executed leave,
in the order in which it executed them (`Serves`), so

* a read answers with the last of them for its key (`getKey_answers_last_write`),
* a write that was answered with success was executed during the call, and reads
  after it see it or a later request for its key (`acknowledged_write_is_read`).
-/

namespace OpenraftSurrealkv

open Relation Postcard

namespace SurrealStorage

/-! ## The requests that an operation executes -/

/-- Whether the next entry arrives from the stream that `apply` reads. -/
def entryArrives (n : SurrealStorage) : Bool := (sys (Sys.external .io) n).1.isOk

/-- The requests that applying executes: an entry that arrives runs its request first, and a failure
after that ends the call. -/
def executedByApply : List Entry → SurrealStorage → List KVRequest
  | [], _ => []
  | e :: es, n =>
      (if n.entryArrives then e.request?.toList else []) ++
        if (applyEntry e n).1.isOk then executedByApply es (applyEntry e n).2 else []

/-- Run a request and record it, as installing a delta does. -/
def applyDelta (e : DeltaEntry) (req : KVRequest) : Op Unit := do
  let _ ← applyRequest req
  appendLogEntry e.term e.index req

/-- The requests that the entries of a delta execute, up to the first failure. -/
def executedByDelta : List DeltaEntry → SurrealStorage → List KVRequest
  | [], _ => []
  | e :: es, n =>
      match KVRequest.codec.fromBytes e.payload with
      | .error _ => []
      | .ok req => req :: if (applyDelta e req n).1.isOk then
          executedByDelta es (applyDelta e req n).2 else []

/-- The requests that installing a snapshot executes: those of a delta on its base. -/
def executedByInstall (ar : Archiver) (snapshot : Snapshot) (n : SurrealStorage) :
    List KVRequest :=
  match decodeSnapshotPayload ar snapshot.snapshot with
  | .ok (some (.delta metadata entries)) =>
      let baseIndex := match metadata.format with
        | .delta baseIndex _ => baseIndex
        | .full _ => 0
      if n.metadata.appliedState.lastAppliedIndex = baseIndex then executedByDelta entries n else []
  | _ => []

/-- The requests that an operation executes on the map. -/
def StoreOperation.executes (ar : Archiver) (n : SurrealStorage) :
    StoreOperation → List KVRequest
  | .apply entries => executedByApply entries n
  | .applyRequest req => [req]
  | .applyDeltaEntries entries => executedByDelta entries n
  | .installSnapshotAuto snapshot => executedByInstall ar snapshot n
  | .installSnapshot snapshotMeta snapshot => executedByInstall ar ⟨snapshotMeta, snapshot⟩ n
  | _ => []

/-! ## What an operation does to the map -/

theorem keeps_stateMachine_appendLogEntry (term index : UInt64) (req : KVRequest) :
    Eff.Keeps stateMachine (appendLogEntry term index req) :=
  .bind (.ofExcept _) fun _ => .bind (.modify fun _ => rfl) fun _ => Eff.Keeps.zoom _ fun _ _ => rfl

theorem keeps_stateMachine_onMetadata {α : Type} (x : MetaM α) :
    Eff.Keeps stateMachine (onMetadata x) :=
  Eff.Keeps.zoom _ fun _ _ => rfl

theorem keeps_stateMachine_append : ∀ es : List Entry, Eff.Keeps stateMachine (append es)
  | [] => .pure _
  | e :: es => by
      refine .bind (.bind ?_ fun _ => .modify fun _ => rfl) fun _ => keeps_stateMachine_append es
      rcases e with ⟨id, payload⟩
      cases payload with
      | normal req => exact .mapErr _ (keeps_stateMachine_appendLogEntry _ _ req)
      | blank => exact .pure _
      | membership m => exact .pure _

theorem keeps_stateMachine_saveVote (vote : Vote) : Eff.Keeps stateMachine (saveVote vote) :=
  .bind (.mapErr _ (keeps_stateMachine_onMetadata _)) fun _ => .bind (.ofExcept _) fun _ =>
    keeps_stateMachine_onMetadata _

/-- What comes last does not matter to the map if it leaves the map alone. -/
theorem stateMachine_bind {α β : Type} {x : Op α} {f : α → Op β}
    (h : ∀ a, Eff.Keeps stateMachine (f a)) (n : SurrealStorage) :
    ((x >>= f) n).2.stateMachine = (x n).2.stateMachine := by
  rcases hx : x n with ⟨e | a, n₁⟩
  · rw [Eff.bind_of_error hx]
  · rw [Eff.bind_of_ok hx]
    exact h a n₁

theorem stateMachine_applyPayload (e : Entry) (n : SurrealStorage) :
    (applyPayload e n).2.stateMachine =
      replay n.stateMachine (e.request?.toList.map KVRequest.update) := by
  rcases e with ⟨id, payload⟩
  cases payload with
  | normal req =>
      exact stateMachine_bind (fun resp =>
        .bind (.mapErr _ (keeps_stateMachine_appendLogEntry _ _ req)) fun _ => .pure _) n
  | blank => rfl
  | membership m => rfl

theorem stateMachine_applyEntry (e : Entry) (n : SurrealStorage) :
    (applyEntry e n).2.stateMachine = replay n.stateMachine
      ((if n.entryArrives then e.request?.toList else []).map KVRequest.update) := by
  rcases harrives : sys (Sys.external .io) n with ⟨err | u, n₁⟩
  · have hsame := (keeps_stateMachine_onMetadata _).of_run harrives
    have hnot : n.entryArrives = false := by rw [entryArrives, harrives]; rfl
    rw [applyEntry, Eff.bind_of_error harrives, hnot]
    exact hsame
  · have hsame : n₁.stateMachine = n.stateMachine :=
      (keeps_stateMachine_onMetadata _).of_run harrives
    have hdone : n.entryArrives = true := by rw [entryArrives, harrives]; rfl
    rw [applyEntry, Eff.bind_of_ok harrives, hdone, if_pos rfl, ← hsame,
      ← stateMachine_applyPayload]
    exact stateMachine_bind (fun resp =>
      .bind (.mapErr _ (keeps_stateMachine_onMetadata _)) fun _ => .pure _) n₁

theorem stateMachine_apply : ∀ (es : List Entry) (n : SurrealStorage),
    (apply es n).2.stateMachine =
      replay n.stateMachine ((executedByApply es n).map KVRequest.update)
  | [], _ => rfl
  | e :: es, n => by
      have hentry := stateMachine_applyEntry e n
      rcases hrun : applyEntry e n with ⟨err | resp, n₁⟩
      · rw [hrun] at hentry
        rw [apply, Eff.bind_of_error hrun, executedByApply, hrun]
        simpa [Except.isOk, Except.toBool] using hentry
      · rw [hrun] at hentry
        rw [apply, Eff.bind_of_ok hrun, stateMachine_apply es n₁, executedByApply, hrun,
          List.map_append, replay_append, ← hentry]
        rfl

/-- Without a failure applying executes every request. -/
theorem executedByApply_of_ok : ∀ {es : List Entry} {n n' : SurrealStorage},
    apply es n = (.ok (), n') → executedByApply es n = requests es
  | [], _, _, _ => rfl
  | e :: es, n, n', h => by
      obtain ⟨resp, n₁, hentry, hrest⟩ := Eff.bind_eq_ok_iff.mp h
      have harrives : n.entryArrives = true := by
        obtain ⟨_, _, hexternal, _⟩ := Eff.bind_eq_ok_iff.mp hentry
        rw [entryArrives, hexternal]
        rfl
      have hok : (applyEntry e n).1.isOk = true := by rw [hentry]; rfl
      rw [executedByApply, if_pos harrives, if_pos hok, hentry, executedByApply_of_ok hrest,
        requests, requests, List.filterMap_cons]
      cases e.request? <;> rfl

theorem applyDeltaEntries_of_decode {e : DeltaEntry} {es : List DeltaEntry} {req : KVRequest}
    (h : KVRequest.codec.fromBytes e.payload = .ok req) (n : SurrealStorage) :
    applyDeltaEntries (e :: es) n = (applyDelta e req >>= fun _ => applyDeltaEntries es) n := by
  rw [applyDeltaEntries, h, liftPostcard, Eff.bind_of_ok (Eff.ofExcept_run _ n)]
  rfl

theorem executedByDelta_of_decode {e : DeltaEntry} {es : List DeltaEntry} {req : KVRequest}
    (h : KVRequest.codec.fromBytes e.payload = .ok req) (n : SurrealStorage) :
    executedByDelta (e :: es) n = req :: if (applyDelta e req n).1.isOk then
      executedByDelta es (applyDelta e req n).2 else [] := by
  rw [executedByDelta, h]

theorem stateMachine_applyDeltaEntries : ∀ (es : List DeltaEntry) (n : SurrealStorage),
    (applyDeltaEntries es n).2.stateMachine =
      replay n.stateMachine ((executedByDelta es n).map KVRequest.update)
  | [], _ => rfl
  | e :: es, n => by
      cases hdecode : KVRequest.codec.fromBytes e.payload with
      | error err =>
          rw [applyDeltaEntries, executedByDelta, hdecode, liftPostcard,
            Eff.bind_of_error (Eff.ofExcept_run _ n)]
          rfl
      | ok req =>
          have hreq : (applyDelta e req n).2.stateMachine = req.update.run n.stateMachine :=
            stateMachine_bind (fun _ => keeps_stateMachine_appendLogEntry _ _ req) n
          rw [applyDeltaEntries_of_decode hdecode, executedByDelta_of_decode hdecode]
          rcases hrun : applyDelta e req n with ⟨err | u, n₁⟩
          · rw [hrun] at hreq
            rw [Eff.bind_of_error hrun]
            exact hreq
          · rw [hrun] at hreq
            rw [Eff.bind_of_ok hrun, stateMachine_applyDeltaEntries es n₁, hreq]
            rfl

theorem stateMachine_installSnapshotAuto (ar : Archiver) (snapshot : Snapshot)
    (n : SurrealStorage) :
    (installSnapshotAuto ar snapshot n).2.stateMachine =
      replay n.stateMachine ((executedByInstall ar snapshot n).map KVRequest.update) := by
  cases hdecode : decodeSnapshotPayload ar snapshot.snapshot with
  | error e =>
      rw [installSnapshotAuto, executedByInstall, hdecode]
      rfl
  | ok decoded =>
      rcases decoded with _ | ⟨metadata⟩ | ⟨metadata, entries⟩
      · rw [installSnapshotAuto, executedByInstall, hdecode]
        rfl
      · rw [installSnapshotAuto_full hdecode, executedByInstall, hdecode]
        exact keeps_stateMachine_onMetadata _ n
      · obtain ⟨base, count, hformat⟩ := format_of_decodeSnapshotPayload hdecode
        rw [installSnapshotAuto_delta hdecode hformat, executedByInstall, hdecode]
        simp only [hformat]
        split
        next => exact stateMachine_applyDeltaEntries entries n
        next => rfl

theorem stateMachine_installSnapshot (ar : Archiver) (snapshotMeta : SnapshotMeta)
    (snapshot : Bytes) (n : SurrealStorage) :
    (installSnapshot ar snapshotMeta snapshot n).2.stateMachine = replay n.stateMachine
      ((executedByInstall ar ⟨snapshotMeta, snapshot⟩ n).map KVRequest.update) := by
  rw [← stateMachine_installSnapshotAuto,
    ← Eff.mapErr_state RaftError.ioOther (installSnapshotAuto ar _)]
  refine stateMachine_bind (fun _ => ?_) n
  exact .bind (keeps_stateMachine_saveLastLogId _) fun _ => .modify fun _ => rfl

theorem keeps_stateMachine_buildSnapshotAuto (ar : Archiver) (term : UInt64) :
    Eff.Keeps stateMachine (buildSnapshotAuto ar term) :=
  fun n => congrArg Data.stateMachine (keeps_data_buildSnapshotAuto ar term n)

theorem keeps_stateMachine_buildSnapshot (ar : Archiver) :
    Eff.Keeps stateMachine (buildSnapshot ar) :=
  .bind (keeps_stateMachine_onMetadata _) fun _ =>
    .bind (.mapErr _ (keeps_stateMachine_buildSnapshotAuto ar _)) fun _ =>
      .bind (.gets _) fun _ => .bind (.modify fun _ => rfl) fun _ => .pure _

theorem keeps_stateMachine_recoverMergeState : Eff.Keeps stateMachine recoverMergeState := by
  refine .bind (keeps_stateMachine_onMetadata _) fun progress => .ite (.pure _) (.ite
    (keeps_stateMachine_onMetadata _) (.bind (.gets _) fun ex => ?_))
  cases ex with
  | none => exact .pure _
  | some ex =>
      refine .bind (.bind (keeps_stateMachine_onMetadata _) fun trigger => ?_) fun spawned => ?_
      · cases trigger with
        | none => exact .pure _
        | some trigger => exact .bind (.modify fun _ => rfl) fun _ => .pure _
      · cases spawned with
        | none => exact keeps_stateMachine_onMetadata _
        | some _ => exact .pure _

/-- An operation runs the requests that it executes on the map, in order, and leaves the map alone
otherwise. -/
theorem StoreOperation.stateMachine_after (ar : Archiver) (n : SurrealStorage)
    (c : StoreOperation) :
    (c.after ar n).stateMachine =
      replay n.stateMachine ((c.executes ar n).map KVRequest.update) := by
  cases c with
  | append entries => exact keeps_stateMachine_append entries n
  | truncateAfter lastLogId => rfl
  | purge logId => rfl
  | saveVote vote => exact keeps_stateMachine_saveVote vote n
  | apply entries => exact stateMachine_apply entries n
  | applyRequest req => rfl
  | appendLogEntry term index req => exact keeps_stateMachine_appendLogEntry term index req n
  | buildSnapshot => exact keeps_stateMachine_buildSnapshot ar n
  | buildSnapshotAuto term => exact keeps_stateMachine_buildSnapshotAuto ar term n
  | applyDeltaEntries entries => exact stateMachine_applyDeltaEntries entries n
  | installSnapshotAuto snapshot => exact stateMachine_installSnapshotAuto ar snapshot n
  | installSnapshot snapshotMeta snapshot =>
      exact stateMachine_installSnapshot ar snapshotMeta snapshot n
  | recoverMergeState => exact keeps_stateMachine_recoverMergeState n
  | runMergeLoop ex trigger => rfl

end SurrealStorage

/-! ## Runs of the service -/

open SurrealStorage Api

/-- The service of a node, with the requests that the node executed since it was started. -/
structure ServiceRun where
  app : AppState
  executed : List KVRequest

namespace ServiceRun

/-- A node that was just started. -/
def start (n : SurrealStorage) (raftNode : Option RaftHandle) : ServiceRun := ⟨⟨n, raftNode⟩, []⟩

/-- An operation of the store, by the consensus library or in the background. -/
def operate (ar : Archiver) (r : ServiceRun) (c : StoreOperation) : ServiceRun :=
  ⟨{ r.app with storage := c.after ar r.app.storage },
    r.executed ++ c.executes ar r.app.storage⟩

/-- A read. -/
def get (r : ServiceRun) (key : String) : Response := respond (getKey key r.app).1

/-- A write.  While the handler waits for the consensus library, the library applies entries. -/
def write (r : ServiceRun) (during : List Entry) (answer : Except String KVResponse)
    (req : KVRequest) (message : String) : Response × ServiceRun :=
  let waited := { r.app with storage := (apply during r.app.storage).2 }
  let executed := r.executed ++ executedByApply during r.app.storage
  (respond (writeKey answer req message waited).1,
    ⟨(writeKey answer req message waited).2,
      if waited.runsLocally answer then executed ++ [req] else executed⟩)

/-- The consensus library answers a write of a node with success only after it applied its entry. -/
def Answers (r : ServiceRun) (during : List Entry) (answer : Except String KVResponse)
    (req : KVRequest) : Prop :=
  (∃ handle, r.app.raftNode = some handle ∧ handle.raft = true) → (∃ resp, answer = .ok resp) →
    req ∈ executedByApply during r.app.storage

end ServiceRun

/-- An operation of the store, a write, or a change of the clock and of the failures to come. -/
inductive ServiceStep (ar : Archiver) : ServiceRun → ServiceRun → Prop
  | operate (r : ServiceRun) (c : StoreOperation) : ServiceStep ar r (r.operate ar c)
  | write (r : ServiceRun) (during : List Entry) (answer : Except String KVResponse)
      (req : KVRequest) (message : String) :
      ServiceStep ar r (r.write during answer req message).2
  | outside (r : ServiceRun) (w : World) :
      ServiceStep ar r ⟨{ r.app with storage :=
        { r.app.storage with metadata := r.app.storage.metadata.withWorld w } }, r.executed⟩

/-- The map of the node is what the executed requests leave. -/
def Serves (r : ServiceRun) : Prop :=
  r.app.storage.stateMachine = replay ∅ (r.executed.map KVRequest.update)

section

variable {ar : Archiver} {r r' : ServiceRun} {during : List Entry}
  {answer : Except String KVResponse} {req : KVRequest} {message : String}

theorem Serves.start {w : World} {n : SurrealStorage} (ex : Option MergeExecutor)
    (raftNode : Option RaftHandle) (h : new w = .ok n) :
    Serves (.start { n with mergeExecutor := ex } raftNode) := by
  obtain ⟨fs, rfl⟩ := new_ok h
  rfl

theorem Serves.operate (h : Serves r) (c : StoreOperation) : Serves (r.operate ar c) := by
  rw [Serves, ServiceRun.operate, c.stateMachine_after, h, List.map_append, replay_append]

theorem Serves.write (h : Serves r) : Serves (r.write during answer req message).2 := by
  have hduring := stateMachine_apply during r.app.storage
  rw [h, ← replay_append, ← List.map_append] at hduring
  rw [Serves, ServiceRun.write, writeKey_state]
  split
  next =>
    rw [List.map_append, replay_append, ← hduring]
    rfl
  next => exact hduring

theorem Serves.step (h : Serves r) (hstep : ServiceStep ar r r') : Serves r' := by
  cases hstep with
  | operate c => exact h.operate c
  | write during answer req message => exact h.write
  | outside w => exact h

theorem Serves.run (h : Serves r) (hrun : ReflTransGen (ServiceStep ar) r r') : Serves r' := by
  induction hrun with
  | refl => exact h
  | tail _ hstep ih => exact ih.step hstep

/-- Requests are executed after those that were executed before. -/
theorem ServiceStep.executed_grows (hstep : ServiceStep ar r r') :
    r.executed <+: r'.executed := by
  cases hstep with
  | operate c => exact List.prefix_append _ _
  | write during answer req message =>
      show r.executed <+: if _ then _ else _
      split
      next => exact (List.prefix_append _ _).trans (List.prefix_append _ _)
      next => exact List.prefix_append _ _
  | outside w => exact List.prefix_refl _

theorem executed_grows_of_run (hrun : ReflTransGen (ServiceStep ar) r r') :
    r.executed <+: r'.executed := by
  induction hrun with
  | refl => exact List.prefix_refl _
  | tail _ hstep ih => exact ih.trans hstep.executed_grows

/-- A read answers with the last request for its key. -/
theorem Serves.get {key : String} {before us : List KVRequest} {v : Option Bytes} (h : Serves r)
    (hsplit : r.executed = before ++ us)
    (hlast : lastWrite key (us.map KVRequest.update) = some v) : r.get key = answerTo key v := by
  rw [ServiceRun.get, respond_getKey, h, hsplit, List.map_append, replay_append, get_replay, hlast]
  rfl

theorem Serves.get_of_none {key : String} (h : Serves r)
    (hlast : lastWrite key (r.executed.map KVRequest.update) = none) :
    r.get key = answerTo key none := by
  rw [ServiceRun.get, respond_getKey, h, get_replay, hlast]
  simp

/-- A write that was answered with success was executed during the call. -/
theorem executed_of_write (hanswers : r.Answers during answer req)
    (hok : (r.write during answer req message).1.status = .ok) :
    ∃ before later, (r.write during answer req message).2.executed = before ++ req :: later ∧
      r.executed <+: before := by
  obtain ⟨body, hbody⟩ := ok_of_status hok
  let waited : AppState := { r.app with storage := (apply during r.app.storage).2 }
  cases hlocal : waited.runsLocally answer with
  | true =>
      refine ⟨r.executed ++ executedByApply during r.app.storage, [], ?_, List.prefix_append _ _⟩
      exact if_pos hlocal
  | false =>
      have hwrite : writeKey answer req message waited = (.ok body, _) := Prod.ext hbody rfl
      rcases (of_writeKey_ok hwrite).2 with htrue | hanswer
      · rw [hlocal] at htrue
        cases htrue
      · have hmem := hanswers (raft_of_not_runsLocally hlocal) hanswer
        obtain ⟨a, b, hab⟩ := List.append_of_mem hmem
        refine ⟨r.executed ++ a, b, ?_, List.prefix_append _ _⟩
        have hexecuted : (r.write during answer req message).2.executed =
            r.executed ++ executedByApply during r.app.storage := if_neg (by rw [hlocal]; decide)
        rw [hexecuted, hab, List.append_assoc]

end

/-! ## Reads -/

section

variable {ar : Archiver} {w : World} {n : SurrealStorage} {ex : Option MergeExecutor}
  {raftNode : Option RaftHandle} {r r' : ServiceRun}

/-- Whatever happened since the node was started, a read answers with the last request for its key
that the node executed. -/
theorem getKey_answers_last_write (hnew : new w = .ok n)
    (hrun : ReflTransGen (ServiceStep ar) (.start { n with mergeExecutor := ex } raftNode) r)
    (key : String) :
    (∀ v, lastWrite key (r.executed.map KVRequest.update) = some (some v) →
      ∃ text, r.get key = ⟨.ok, .value text⟩ ∧ Base64.decode text.toList = some v) ∧
    ((∀ v, lastWrite key (r.executed.map KVRequest.update) ≠ some (some v)) →
      r.get key = ⟨.notFound, .error ("Key '" ++ key ++ "' not found")⟩) := by
  have hserves := (Serves.start ex raftNode hnew).run hrun
  constructor
  · intro v hlast
    refine ⟨encodeValue v, hserves.get (List.nil_append _).symm hlast, ?_⟩
    rw [encodeValue, String.toList_ofList]
    exact Base64.decode_encode v
  · intro hnone
    cases hlast : lastWrite key (r.executed.map KVRequest.update) with
    | none => exact hserves.get_of_none hlast
    | some res =>
        cases res with
        | none => exact hserves.get (List.nil_append _).symm hlast
        | some v => exact absurd hlast (hnone v)

/-- A leader on an empty store. -/
def leader : ServiceRun := .start { fresh [] with mergeExecutor := none } (some ⟨false, 1, true⟩)

/-- A write of the leader that the consensus library accepts. -/
def leaderWrote : Response × ServiceRun :=
  leader.write [.put 1 1 "a" [1]] (.ok .ok) (.set "a" [1]) "Key 'a' updated successfully"

theorem answers_leaderWrote : leader.Answers [.put 1 1 "a" [1]] (.ok .ok) (.set "a" [1]) :=
  fun _ _ => by decide +kernel

theorem lastWrite_leaderWrote :
    lastWrite "a" (leaderWrote.2.executed.map KVRequest.update) = some (some [1]) := by
  decide +kernel

theorem getKey_answers_last_write_leader :
    ∃ text, leaderWrote.2.get "a" = ⟨.ok, .value text⟩ ∧
      Base64.decode text.toList = some [1] := by
  have hrun : ReflTransGen (ServiceStep .stored) leader leaderWrote.2 :=
    .single (.write leader _ _ _ _)
  exact (getKey_answers_last_write (new_emptyWorld []) hrun "a").1 [1] lastWrite_leaderWrote

/-- A write that was answered with success took effect during the call, and from then on a read of
its key answers with it or with a later request for the key. -/
theorem acknowledged_write_is_read {during : List Entry} {answer : Except String KVResponse}
    {req : KVRequest} {message : String} (hnew : new w = .ok n)
    (hrun : ReflTransGen (ServiceStep ar) (.start { n with mergeExecutor := ex } raftNode) r)
    (hanswers : r.Answers during answer req)
    (hok : (r.write during answer req message).1.status = .ok)
    (hlater : ReflTransGen (ServiceStep ar) (r.write during answer req message).2 r') :
    ∃ before later, r'.executed = before ++ req :: later ∧ r.executed <+: before ∧
      before ++ [req] <+: (r.write during answer req message).2.executed ∧
      ∃ v, lastWrite req.key ((req :: later).map KVRequest.update) = some v ∧
        r'.get req.key = answerTo req.key v := by
  obtain ⟨before, between, hexecuted, hbefore⟩ := executed_of_write hanswers hok
  obtain ⟨rest, hrest⟩ := executed_grows_of_run hlater
  rw [hexecuted, List.append_assoc, List.cons_append] at hrest
  have hwritten : (lastWrite req.key
      ((req :: (between ++ rest)).map KVRequest.update)).isSome = true := by
    rw [lastWrite_isSome]
    exact ⟨req.update, List.mem_cons_self, req.key_update⟩
  obtain ⟨v, hv⟩ := Option.isSome_iff_exists.mp hwritten
  have hserves := (((Serves.start ex raftNode hnew).run hrun).write).run hlater
  refine ⟨before, between ++ rest, hrest.symm, hbefore, ?_, v, hv, hserves.get hrest.symm hv⟩
  rw [hexecuted]
  exact ⟨between, by simp⟩

theorem acknowledged_write_is_read_leader :
    ∃ before later, leaderWrote.2.executed = before ++ .set "a" [1] :: later ∧
      ∃ v, lastWrite "a" ((.set "a" [1] :: later).map KVRequest.update) = some v ∧
        leaderWrote.2.get "a" = answerTo "a" v := by
  have hok : leaderWrote.1.status = .ok := by decide +kernel
  have hrun : ReflTransGen (ServiceStep .stored) leader leader := .refl
  obtain ⟨before, later, hexecuted, _, _, v, hv, hget⟩ :=
    acknowledged_write_is_read (new_emptyWorld []) hrun answers_leaderWrote hok .refl
  exact ⟨before, later, hexecuted, v, hv, hget⟩

end

end OpenraftSurrealkv
