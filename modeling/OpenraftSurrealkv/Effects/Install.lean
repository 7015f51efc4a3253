import OpenraftSurrealkv.Effects.Build
import OpenraftSurrealkv.Effects.Faults

/-!
# What installing a snapshot does

A full snapshot is unpacked into a directory and the map stays as it is.  A
delta is refused unless the applied index is its base, and its entries then have
the effect of applying them.  With no failure to come nothing else can go wrong.
-/

namespace OpenraftSurrealkv

open Postcard

/-! ## Worlds in which no call fails -/

/-- No external call to come fails. -/
def World.Quiet (w : World) : Prop := w.faults = []

theorem total_external (wrap : String → RaftError) :
    Eff.Total World.Quiet (Sys.external wrap) fun _ => World.Quiet :=
  fun w h => ⟨(), w, Sys.external_quiet wrap h, h⟩

theorem total_nowSecs : Eff.Total World.Quiet Sys.nowSecs fun _ => World.Quiet :=
  fun _ h => ⟨_, _, rfl, h⟩

theorem total_updateDir (path : String) (f : Dir → Dir) :
    Eff.Total World.Quiet (Sys.updateDir path f) fun _ => World.Quiet :=
  .modify fun _ h => h

theorem total_createDirAll (wrap : String → RaftError) (path : String) :
    Eff.Total World.Quiet (Sys.createDirAll wrap path) fun _ => World.Quiet :=
  .bind (total_external wrap) fun _ => total_updateDir path id

/-- An archive that was packed can be unpacked. -/
theorem total_restore (ar : Archiver) (level : Nat) (dir : Dir) (target : String)
    {expected : CheckpointMetadata} (hcrc : expected.crc32 = 0) :
    Eff.Total World.Quiet (restore ar (ar.zstdEncode level (ar.tarPack dir)) target expected)
      fun _ => World.Quiet := by
  unfold restore
  rw [if_neg (fun h => h.1 hcrc)]
  refine .bind (total_createDirAll _ _) fun _ => .bind (total_external _) fun _ => ?_
  simp only [ar.zstdDecode_zstdEncode, ar.tarUnpack_tarPack]
  exact .bind (total_updateDir _ _) fun _ => .pure fun _ h => h

theorem total_new (appliedIndex term : UInt64) (dir : String) :
    Eff.Total World.Quiet (CheckpointMetadata.new appliedIndex term 0 dir)
      fun m w => m.crc32 = 0 ∧ w.Quiet :=
  .bind total_nowSecs fun _ => .pure fun _ h => ⟨rfl, h⟩

/-- An archive that a build made can be installed. -/
theorem total_installSnapshot {ar : Archiver} {snapshot : Snapshot} {metadata : DeltaMetadata}
    (h : HoldsArchive ar snapshot.snapshot metadata) :
    Eff.Total World.Quiet (RaftSnapshotBuilder.installSnapshot ar snapshot)
      fun _ => World.Quiet := by
  obtain ⟨m, dir, hformat, henvelope⟩ := h
  unfold RaftSnapshotBuilder.installSnapshot
  refine .bind total_nowSecs fun ts => ?_
  simp only [henvelope, hformat]
  refine .bind (total_new _ _ _) fun expected => ?_
  intro w hw
  exact Eff.Total.bind (total_restore ar 10 dir _ hw.1) (fun _ => .pure fun _ h => h) w hw.2

namespace SurrealStorage

/-! ## The two kinds of snapshot -/

theorem installSnapshotAuto_full {ar : Archiver} {snapshot : Snapshot} {metadata : DeltaMetadata}
    (hd : decodeSnapshotPayload ar snapshot.snapshot = .ok (some (.full metadata))) :
    installSnapshotAuto ar snapshot = sys (RaftSnapshotBuilder.installSnapshot ar snapshot) := by
  rw [installSnapshotAuto, hd]
  rfl

/-- The error of a delta on another base. -/
def baseMismatch (expected got : UInt64) : RaftError :=
  snapshotError errSnapshotInstallBaseMismatch
    ("expected=" ++ toString expected ++ ", got=" ++ toString got)

theorem installSnapshotAuto_delta {ar : Archiver} {snapshot : Snapshot}
    {metadata : DeltaMetadata} {base count : UInt64} {entries : List DeltaEntry}
    (hd : decodeSnapshotPayload ar snapshot.snapshot = .ok (some (.delta metadata entries)))
    (hf : metadata.format = .delta base count) (n : SurrealStorage) :
    installSnapshotAuto ar snapshot n =
      if n.metadata.appliedState.lastAppliedIndex = base then applyDeltaEntries entries n
      else (.error (baseMismatch base n.metadata.appliedState.lastAppliedIndex), n) := by
  have hrun : installSnapshotAuto ar snapshot n =
      (if n.metadata.appliedState.lastAppliedIndex ≠ base then
        Eff.fail (baseMismatch base n.metadata.appliedState.lastAppliedIndex)
      else applyDeltaEntries entries) n := by
    rw [installSnapshotAuto, hd]
    rcases metadata with ⟨format, _, _, _, _⟩
    subst hf
    rfl
  rw [hrun]
  by_cases hbase : n.metadata.appliedState.lastAppliedIndex = base
  · rw [if_neg (not_not_intro hbase), if_pos hbase]
  · rw [if_pos hbase, if_neg hbase]
    rfl

/-! ## Replaying a delta -/

/-- The entry of a delta is the request of the log entry. -/
def Carries (e : Entry) (d : DeltaEntry) : Prop :=
  ∃ req, e.payload = .normal req ∧ Fits req ∧ d = toDelta (recordOf e req)

/-- What a delta carries of an entry is its term, its index and its request. -/
theorem Carries.decode {e : Entry} {d : DeltaEntry} (h : Carries e d) :
    d.term = e.term ∧ d.index = e.index ∧
      ∃ req, e.payload = .normal req ∧ KVRequest.codec.fromBytes d.payload = .ok req := by
  obtain ⟨req, hreq, hfit, rfl⟩ := h
  exact ⟨rfl, rfl, req, hreq, Codec.fromBytes_of_toStdvec
    (Codec.toStdvec_eq_ok_iff.mpr ⟨hfit, rfl⟩)⟩

theorem quiet_afterEntry {n : SurrealStorage} (e : Entry) (h : n.world.Quiet) :
    (n.afterEntry e).world.Quiet := by
  rcases e with ⟨id, p⟩
  cases p with
  | blank => exact h
  | normal req => exact h
  | membership m => exact h

theorem quiet_foldl_afterEntry : ∀ (es : List Entry) {n : SurrealStorage}, n.world.Quiet →
    (es.foldl afterEntry n).world.Quiet
  | [], _, h => h
  | e :: es, _, h => quiet_foldl_afterEntry es (quiet_afterEntry e h)

/-- The effect of a request of a delta. -/
def afterDelta (n : SurrealStorage) (d : DeltaEntry) (req : KVRequest) : SurrealStorage :=
  n.afterEntry ⟨⟨d.term, d.index⟩, .normal req⟩

/-- An entry that does not decode stops the replay. -/
theorem applyDeltaEntries_error {d : DeltaEntry} {err : Postcard.Error}
    (h : KVRequest.codec.fromBytes d.payload = .error err) (ds : List DeltaEntry)
    (n : SurrealStorage) :
    applyDeltaEntries (d :: ds) n = (.error (snapshotError errSnapshotInstallDeltaApplyDecode
      ("index=" ++ toString d.index ++ ", cause=" ++ err.message)), n) := by
  rw [applyDeltaEntries, h, liftPostcard, Eff.bind_of_error (Eff.ofExcept_run _ n)]

/-- An entry that decodes takes effect when its save succeeds. -/
theorem applyDeltaEntries_cons {d : DeltaEntry} {req : KVRequest} {n : SurrealStorage}
    (h : KVRequest.codec.fromBytes d.payload = .ok req) (hfit : Fits req)
    (hsave : n.world.Succeeds 3) (ds : List DeltaEntry) :
    applyDeltaEntries (d :: ds) n = applyDeltaEntries ds ((n.afterDelta d req).skip 3) := by
  have hrecord := appendLogEntry_of_succeeds (n :=
    { n with stateMachine := req.update.run n.stateMachine }) d.term d.index hfit hsave
  rw [applyDeltaEntries, h, liftPostcard, Eff.bind_of_ok (Eff.ofExcept_run _ n),
    Eff.bind_of_ok (show applyRequest req n = (.ok .ok, _) from rfl)]
  exact Eff.bind_of_ok hrecord

/-- With no failure to come, there are no outcomes to use up. -/
theorem skip_of_quiet {n : SurrealStorage} (h : n.world.Quiet) (k : Nat) : n.skip k = n := by
  have hnil : n.world.faults.drop k = n.world.faults := by
    rw [show n.world.faults = [] from h, List.drop_nil]
  rw [skip, hnil, withFaults_self]

theorem applyDeltaEntries_cons_quiet {d : DeltaEntry} {req : KVRequest} {n : SurrealStorage}
    (h : KVRequest.codec.fromBytes d.payload = .ok req) (hfit : Fits req) (hquiet : n.world.Quiet)
    (ds : List DeltaEntry) :
    applyDeltaEntries (d :: ds) n = applyDeltaEntries ds (n.afterDelta d req) := by
  have hskip : (n.afterDelta d req).skip 3 = n.afterDelta d req :=
    skip_of_quiet (quiet_afterEntry _ hquiet) 3
  rw [applyDeltaEntries_cons h hfit (World.succeeds_of_quiet hquiet 3), hskip]

/-- With no failure to come, replaying a delta has the effect of applying its entries. -/
theorem applyDeltaEntries_quiet {es : List Entry} {ds : List DeltaEntry}
    (h : List.Forall₂ Carries es ds) :
    ∀ {n : SurrealStorage}, n.world.Quiet →
      applyDeltaEntries ds n = (.ok (), es.foldl afterEntry n) := by
  induction h with
  | nil => exact fun _ => rfl
  | @cons e d es ds hcarries hrest ih =>
      intro n hquiet
      obtain ⟨req, hreq, hfit, rfl⟩ := hcarries
      have hdecode : KVRequest.codec.fromBytes (toDelta (recordOf e req)).payload = .ok req :=
        Codec.fromBytes_of_toStdvec (Codec.toStdvec_eq_ok_iff.mpr ⟨hfit, rfl⟩)
      have hafter : n.afterDelta (toDelta (recordOf e req)) req = n.afterEntry e := by
        rcases e with ⟨id, payload⟩
        subst hreq
        rfl
      rw [applyDeltaEntries_cons_quiet hdecode hfit hquiet, hafter, List.foldl_cons]
      exact ih (quiet_afterEntry e hquiet)

/-! ## Installing -/

/-- The position that the log id of a snapshot moves to. -/
def atLogId (n : SurrealStorage) : Option LogId → SurrealStorage
  | some last => n.atPosition ⟨last.index, last.term⟩
  | none => n

/-- A store with the membership of a snapshot, and the snapshot as the current one. -/
def holding (n : SurrealStorage) (snapshotMeta : SnapshotMeta) (snapshot : Bytes) :
    SurrealStorage :=
  { n with
    lastMembership := snapshotMeta.lastMembership
    currentSnapshot := some ⟨snapshotMeta, snapshot⟩ }

theorem saveLastLogId_quiet {n : SurrealStorage} (h : n.world.Quiet) :
    ∀ last, saveLastLogId last n = (.ok (), n.atLogId last)
  | some _ => Eff.mapErr_of_ok (saveAppliedState_quiet _ h)
  | none => rfl

theorem installSnapshot_of_ok {ar : Archiver} {snapshotMeta : SnapshotMeta} {snapshot : Bytes}
    {n n₁ : SurrealStorage} (h : installSnapshotAuto ar ⟨snapshotMeta, snapshot⟩ n = (.ok (), n₁))
    (hquiet : n₁.world.Quiet) :
    installSnapshot ar snapshotMeta snapshot n =
      (.ok (), (n₁.atLogId snapshotMeta.lastLogId).holding snapshotMeta snapshot) := by
  have hio : asIo (installSnapshotAuto ar ⟨snapshotMeta, snapshot⟩) n = (.ok (), n₁) :=
    Eff.mapErr_of_ok h
  rw [installSnapshot, Eff.bind_of_ok hio, Eff.bind_of_ok (saveLastLogId_quiet hquiet _)]
  rfl

theorem installSnapshot_of_error {ar : Archiver} {snapshotMeta : SnapshotMeta} {snapshot : Bytes}
    {n n₁ : SurrealStorage} {e : RaftError}
    (h : installSnapshotAuto ar ⟨snapshotMeta, snapshot⟩ n = (.error e, n₁)) :
    installSnapshot ar snapshotMeta snapshot n = (.error e.ioOther, n₁) := by
  have hio : asIo (installSnapshotAuto ar ⟨snapshotMeta, snapshot⟩) n = (.error e.ioOther, n₁) := by
    rw [asIo, Eff.mapErr, h]
  rw [installSnapshot, Eff.bind_of_error hio]

theorem keeps_stateMachine_saveLastLogId :
    ∀ last, Eff.Keeps stateMachine (saveLastLogId last)
  | some _ => .mapErr _ (Eff.Keeps.zoom _ fun _ _ => rfl)
  | none => .pure _

/-- Installing a full snapshot leaves the map alone. -/
theorem stateMachine_installSnapshot_full {ar : Archiver} {snapshotMeta : SnapshotMeta}
    {snapshot : Bytes} {metadata : DeltaMetadata} {n n' : SurrealStorage} {u : Unit}
    (hd : decodeSnapshotPayload ar snapshot = .ok (some (.full metadata)))
    (h : installSnapshot ar snapshotMeta snapshot n = (.ok u, n')) :
    n'.stateMachine = n.stateMachine := by
  have hauto : Eff.Keeps stateMachine (installSnapshotAuto ar ⟨snapshotMeta, snapshot⟩) := by
    rw [installSnapshotAuto_full hd]
    exact Eff.Keeps.zoom _ fun _ _ => rfl
  have hkeeps : Eff.Keeps stateMachine (installSnapshot ar snapshotMeta snapshot) :=
    .bind (.mapErr _ hauto) fun _ =>
      .bind (keeps_stateMachine_saveLastLogId _) fun _ => .modify fun _ => rfl
  have hsame := hkeeps n
  rw [h] at hsame
  exact hsame

/-- With no failure to come, a full snapshot installs. -/
theorem installSnapshot_full_quiet {ar : Archiver} {snapshotMeta : SnapshotMeta}
    {snapshot : Bytes} {metadata : DeltaMetadata} {n : SurrealStorage}
    (hd : decodeSnapshotPayload ar snapshot = .ok (some (.full metadata)))
    (harchive : HoldsArchive ar snapshot metadata) (hquiet : n.world.Quiet) :
    ∃ n', installSnapshot ar snapshotMeta snapshot n = (.ok (), n') := by
  have htotal : Eff.Total World.Quiet
      (RaftSnapshotBuilder.installSnapshot ar ⟨snapshotMeta, snapshot⟩) fun _ => World.Quiet :=
    total_installSnapshot harchive
  obtain ⟨_, w, hrun, hw⟩ := htotal n.world hquiet
  have hauto : installSnapshotAuto ar ⟨snapshotMeta, snapshot⟩ n =
      (.ok (), { n with metadata := n.metadata.withWorld w }) := by
    rw [installSnapshotAuto_full hd]
    exact sys_of_eq hrun
  exact ⟨_, installSnapshot_of_ok hauto hw⟩

/-- With no failure to come, a delta on its base installs. -/
theorem installSnapshot_delta_quiet {ar : Archiver} {snapshotMeta : SnapshotMeta}
    {snapshot : Bytes} {metadata : DeltaMetadata} {base count : UInt64} {es : List Entry}
    {ds : List DeltaEntry} {n : SurrealStorage}
    (hd : decodeSnapshotPayload ar snapshot = .ok (some (.delta metadata ds)))
    (hf : metadata.format = .delta base count) (hcarries : List.Forall₂ Carries es ds)
    (hbase : n.metadata.appliedState.lastAppliedIndex = base) (hquiet : n.world.Quiet) :
    installSnapshot ar snapshotMeta snapshot n = (.ok (),
      ((es.foldl afterEntry n).atLogId snapshotMeta.lastLogId).holding snapshotMeta snapshot) := by
  have hauto : installSnapshotAuto ar ⟨snapshotMeta, snapshot⟩ n =
      (.ok (), es.foldl afterEntry n) := by
    rw [installSnapshotAuto_delta hd hf, if_pos hbase]
    exact applyDeltaEntries_quiet hcarries hquiet
  exact installSnapshot_of_ok hauto (quiet_foldl_afterEntry es hquiet)

/-- A delta on another base is refused. -/
theorem installSnapshot_delta_mismatch {ar : Archiver} {snapshotMeta : SnapshotMeta}
    {snapshot : Bytes} {metadata : DeltaMetadata} {base count : UInt64} {ds : List DeltaEntry}
    {n : SurrealStorage}
    (hd : decodeSnapshotPayload ar snapshot = .ok (some (.delta metadata ds)))
    (hf : metadata.format = .delta base count)
    (hbase : n.metadata.appliedState.lastAppliedIndex ≠ base) :
    installSnapshot ar snapshotMeta snapshot n =
      (.error (baseMismatch base n.metadata.appliedState.lastAppliedIndex).ioOther, n) := by
  refine installSnapshot_of_error ?_
  rw [installSnapshotAuto_delta hd hf, if_neg hbase]

end SurrealStorage

end OpenraftSurrealkv
