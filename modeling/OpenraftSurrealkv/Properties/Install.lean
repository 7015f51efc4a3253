import OpenraftSurrealkv.Effects.Install
import OpenraftSurrealkv.Effects.Open
import OpenraftSurrealkv.Lib.Pointwise
import OpenraftSurrealkv.Snapshot.Stored

/-!
# Installing snapshots

A full snapshot unpacks its archive and does not touch the key-value map, so the
destination ends with the source's map only if it had it before.

Every snapshot that a source publishes is well formed: it holds an archive, or
entries that decode to requests on a recorded base.  With no failure to come a
full snapshot always installs, and a delta installs exactly on its base.
-/

namespace OpenraftSurrealkv

open Postcard

namespace SurrealStorage

/-! ## Full snapshots -/

/-- The source builds a full snapshot. -/
def BuildsFull (ar : Archiver) (src : SurrealStorage) (snap : Snapshot) (src' : SurrealStorage) :
    Prop :=
  buildSnapshot ar src = (.ok snap, src') ∧
    ∃ metadata, decodeSnapshotPayload ar snap.snapshot = .ok (some (.full metadata))

/-- An installed full snapshot reproduces the source's map exactly when the destination had that
map before. -/
theorem full_install_reproduces_iff {ar : Archiver} {src src' dst dst' : SurrealStorage}
    {snap : Snapshot} (hbuild : BuildsFull ar src snap src')
    (hinstall : installSnapshot ar snap.snapshotMeta snap.snapshot dst = (.ok (), dst')) :
    (∀ key, (read key dst').1 = (read key src).1) ↔
      ∀ key, (read key dst).1 = (read key src).1 := by
  obtain ⟨_, metadata, hfull⟩ := hbuild
  simp only [read, Eff.gets_run, stateMachine_installSnapshot_full hfull hinstall]

/-- A source with one key. -/
def oneKey : SurrealStorage := (apply [.put 1 1 "k" [7]] (fresh [])).2

theorem oneKey_builds : ∃ snap src', buildSnapshot .stored oneKey = (.ok snap, src') := by
  have hrun : (buildSnapshot .stored).succeeds oneKey (fun _ _ => true) = true := by
    decide +kernel
  obtain ⟨snap, src', hbuild, _⟩ := Eff.exists_of_succeeds hrun
  exact ⟨snap, src', hbuild⟩

theorem full_install_reproduces_iff_onto_itself :
    ∃ snap src' dst', BuildsFull .stored oneKey snap src' ∧
      installSnapshot .stored snap.snapshotMeta snap.snapshot oneKey = (.ok (), dst') ∧
      ∀ key, (read key dst').1 = (read key oneKey).1 := by
  obtain ⟨snap, src', hbuild⟩ := oneKey_builds
  obtain ⟨metadata, hdecode, harchive⟩ := buildSnapshot_full_of_no_checkpoint rfl hbuild
  have hfull : BuildsFull .stored oneKey snap src' := ⟨hbuild, metadata, hdecode⟩
  obtain ⟨dst', hinstall⟩ := installSnapshot_full_quiet (n := oneKey) hdecode harchive rfl
  exact ⟨snap, src', dst', hfull, hinstall,
    (full_install_reproduces_iff hfull hinstall).mpr fun _ => rfl⟩

/-- A full snapshot of a store with a key, installed on a fresh store, brings no key. -/
theorem full_install_loses_key :
    ∃ src snap src' dst', apply [.put 1 1 "k" [7]] (fresh []) = (.ok (), src) ∧
      BuildsFull .stored src snap src' ∧
      installSnapshot .stored snap.snapshotMeta snap.snapshot (fresh []) = (.ok (), dst') ∧
      (read "k" src).1 = .ok (some [7]) ∧ (read "k" dst').1 = .ok none := by
  obtain ⟨snap, src', hbuild⟩ := oneKey_builds
  obtain ⟨metadata, hdecode, harchive⟩ := buildSnapshot_full_of_no_checkpoint rfl hbuild
  have hfull : BuildsFull .stored oneKey snap src' := ⟨hbuild, metadata, hdecode⟩
  obtain ⟨dst', hinstall⟩ := installSnapshot_full_quiet (n := fresh []) hdecode harchive rfl
  refine ⟨oneKey, snap, src', dst', rfl, hfull, hinstall, rfl, ?_⟩
  rw [read, Eff.gets_run, stateMachine_installSnapshot_full hdecode hinstall]
  rfl

/-! ## What a source publishes -/

/-- A call on the source: `apply` or `build_snapshot`, with any outcome. -/
inductive SourceStep (ar : Archiver) : SurrealStorage → SurrealStorage → Prop
  | apply {es : List Entry} {r : Except RaftError Unit} {n n' : SurrealStorage}
      (h : apply es n = (r, n')) : SourceStep ar n n'
  | build {r : Except RaftError Snapshot} {n n' : SurrealStorage}
      (h : buildSnapshot ar n = (r, n')) : SourceStep ar n n'

/-- The request log holds requests only. -/
def RecordsOnly (n : SurrealStorage) : Prop :=
  ∀ (i : UInt64) (l : LogEntry), n.raftLogs[i]? = some l → ∃ e, Carries e (toDelta l)

/-- A snapshot that holds an archive, or entries on a base. -/
def WellFormed (ar : Archiver) (snapshot : Bytes) : Prop :=
  (∃ metadata, decodeSnapshotPayload ar snapshot = .ok (some (.full metadata)) ∧
    HoldsArchive ar snapshot metadata) ∨
  ∃ metadata base count es ds,
    decodeSnapshotPayload ar snapshot = .ok (some (.delta metadata ds)) ∧
      metadata.format = .delta base count ∧ List.Forall₂ Carries es ds

/-- The source records requests, and its current snapshot is well formed. -/
structure Publishes (ar : Archiver) (n : SurrealStorage) : Prop where
  records : RecordsOnly n
  current : ∀ snap, n.currentSnapshot = some snap → WellFormed ar snap.snapshot

theorem RecordsOnly.of_eq {n n' : SurrealStorage} (h : RecordsOnly n)
    (hsame : n'.raftLogs = n.raftLogs) : RecordsOnly n' := by
  unfold RecordsOnly
  rw [hsame]
  exact h

theorem preserved_of_keeps {α : Type} {x : Op α} (h : Eff.Keeps raftLogs x) :
    Eff.Within (Eff.Preserved RecordsOnly) x :=
  h.imp fun _ _ hsame hrec => hrec.of_eq hsame

theorem preserved_appendLogEntry (term index : UInt64) (req : KVRequest) :
    Eff.Within (Eff.Preserved RecordsOnly) (appendLogEntry term index req) := by
  refine .bind_ofExcept fun payload hpayload => ?_
  obtain ⟨hfit, rfl⟩ := Codec.toStdvec_eq_ok_iff.mp (liftPostcard_eq_ok_iff.mp hpayload)
  refine .bind (.modify fun n hrec => ?_) fun _ =>
    preserved_of_keeps (Eff.Keeps.zoom _ fun _ _ => rfl)
  intro i l hl
  rw [OrdMap.get_insert] at hl
  split at hl
  next =>
    cases hl
    exact ⟨⟨⟨term, index⟩, .normal req⟩, req, rfl, hfit, rfl⟩
  next => exact hrec i l hl

theorem preserved_applyPayload (e : Entry) :
    Eff.Within (Eff.Preserved RecordsOnly) (applyPayload e) := by
  rcases e with ⟨id, p⟩
  cases p with
  | blank => exact .pure _
  | membership m => exact .bind (.modify fun _ hrec => hrec) fun _ => .pure _
  | normal req =>
      refine .bind (.mapErr _ ?_) fun _ => .bind (.mapErr _ ?_) fun _ => .pure _
      · exact .bind (.modify fun _ hrec => hrec) fun _ => .pure _
      · exact preserved_appendLogEntry _ _ _

/-- Applying, with any outcome, records requests only. -/
theorem preserved_apply : ∀ es, Eff.Within (Eff.Preserved RecordsOnly) (apply es)
  | [] => .pure _
  | e :: es => by
      refine .bind ?_ fun _ => preserved_apply es
      refine .bind (preserved_of_keeps (Eff.Keeps.zoom _ fun _ _ => rfl)) fun _ => ?_
      refine .bind (preserved_applyPayload e) fun _ => ?_
      exact .bind (.mapErr _ (preserved_of_keeps (Eff.Keeps.zoom _ fun _ _ => rfl))) fun _ =>
        .pure _

theorem keeps_currentSnapshot_apply : ∀ es, Eff.Keeps currentSnapshot (apply es)
  | [] => .pure _
  | e :: es => by
      refine .bind ?_ fun _ => keeps_currentSnapshot_apply es
      refine .bind (Eff.Keeps.zoom _ fun _ _ => rfl) fun _ => .bind ?_ fun _ => ?_
      · rcases e with ⟨id, p⟩
        cases p with
        | blank => exact .pure _
        | membership m => exact .bind (.modify fun _ => rfl) fun _ => .pure _
        | normal req =>
            refine .bind (.mapErr _ ?_) fun _ => .bind (.mapErr _ ?_) fun _ => .pure _
            · exact .bind (.modify fun _ => rfl) fun _ => .pure _
            · exact .bind (.ofExcept _) fun _ => .bind (.modify fun _ => rfl) fun _ =>
                Eff.Keeps.zoom _ fun _ _ => rfl
      · exact .bind (.mapErr _ (Eff.Keeps.zoom _ fun _ _ => rfl)) fun _ => .pure _

/-- The entries that the next delta would have are requests. -/
theorem carries_deltaEntries {n : SurrealStorage} (h : RecordsOnly n) :
    ∃ es, List.Forall₂ Carries es n.deltaEntries := by
  refine List.exists_forall₂ fun d hd => ?_
  unfold deltaEntries at hd
  split at hd
  next =>
    obtain ⟨l, hl, rfl⟩ := List.mem_map.mp hd
    obtain ⟨⟨i, l⟩, hmem, rfl⟩ := List.mem_map.mp hl
    exact h i l (OrdMap.mem_range.mp hmem).1
  next => cases hd

theorem wellFormed_buildSnapshot {ar : Archiver} {n n' : SurrealStorage} {snap : Snapshot}
    (hrec : RecordsOnly n) (h : buildSnapshot ar n = (.ok snap, n')) :
    WellFormed ar snap.snapshot := by
  obtain ⟨_, _, d, hdecode, hpayload, _⟩ := buildSnapshot_published h
  cases d with
  | full metadata => exact Or.inl ⟨metadata, hdecode, hpayload⟩
  | delta metadata entries =>
      obtain ⟨rfl, hdelta⟩ := hpayload
      obtain ⟨c, count, _, hformat⟩ := hdelta.base
      obtain ⟨es, hes⟩ := carries_deltaEntries hrec
      exact Or.inr ⟨metadata, _, count, es, _, hdecode, hformat, hes⟩

theorem Publishes.step {ar : Archiver} {n n' : SurrealStorage} (h : Publishes ar n)
    (hstep : SourceStep ar n n') : Publishes ar n' := by
  cases hstep with
  | @apply es r _ _ happly =>
      have hrec := preserved_apply es n h.records
      have hcur : (SurrealStorage.apply es n).2.currentSnapshot = n.currentSnapshot :=
        keeps_currentSnapshot_apply es n
      rw [happly] at hrec hcur
      refine ⟨hrec, ?_⟩
      rw [hcur]
      exact h.current
  | @build r _ _ hbuild =>
      cases r with
      | error e =>
          have hdata := (buildSnapshot_failed hbuild).1
          have hcur : n'.currentSnapshot = n.currentSnapshot := congrArg Data.currentSnapshot hdata
          refine ⟨h.records.of_eq (congrArg Data.raftLogs hdata), ?_⟩
          rw [hcur]
          exact h.current
      | ok snap =>
          have hdata := (buildSnapshot_published hbuild).1
          have hcur : n'.currentSnapshot = some snap := congrArg Data.currentSnapshot hdata
          refine ⟨h.records.of_eq (congrArg Data.raftLogs hdata), fun snap' hsnap => ?_⟩
          rw [hcur] at hsnap
          cases hsnap
          exact wellFormed_buildSnapshot h.records hbuild

theorem Publishes.fresh {ar : Archiver} {n : SurrealStorage} (h : Fresh n) : Publishes ar n := by
  obtain ⟨w, ex, _, rfl⟩ := h.eq
  refine ⟨fun i l hl => ?_, fun snap hsnap => nomatch hsnap⟩
  rw [show (∅ : OrdMap UInt64 LogEntry)[i]? = none from Std.ExtTreeMap.getElem?_empty] at hl
  cases hl

theorem Publishes.run {ar : Archiver} {n₀ n : SurrealStorage} (h₀ : Fresh n₀)
    (hrun : Relation.ReflTransGen (SourceStep ar) n₀ n) : Publishes ar n := by
  induction hrun with
  | refl => exact Publishes.fresh h₀
  | tail _ hstep ih => exact ih.step hstep

/-- A published snapshot installs when it is full, and when it is a delta it installs exactly on its
base and is refused elsewhere. -/
theorem published_snapshot_installs {ar : Archiver} {n₀ src dst : SurrealStorage}
    {snap : Snapshot} (hfresh : Fresh n₀) (hrun : Relation.ReflTransGen (SourceStep ar) n₀ src)
    (hcurrent : src.currentSnapshot = some snap) (hquiet : dst.world.Quiet) :
    (∃ metadata, decodeSnapshotPayload ar snap.snapshot = .ok (some (.full metadata)) ∧
      ∃ dst', installSnapshot ar snap.snapshotMeta snap.snapshot dst = (.ok (), dst')) ∨
    ∃ metadata base count entries,
      decodeSnapshotPayload ar snap.snapshot = .ok (some (.delta metadata entries)) ∧
      metadata.format = .delta base count ∧
      (dst.metadata.appliedState.lastAppliedIndex = base →
        ∃ dst', installSnapshot ar snap.snapshotMeta snap.snapshot dst = (.ok (), dst')) ∧
      (dst.metadata.appliedState.lastAppliedIndex ≠ base →
        installSnapshot ar snap.snapshotMeta snap.snapshot dst =
          (.error (baseMismatch base dst.metadata.appliedState.lastAppliedIndex).ioOther, dst)) := by
  rcases (Publishes.run hfresh hrun).current snap hcurrent with
    ⟨metadata, hdecode, harchive⟩ | ⟨metadata, base, count, es, ds, hdecode, hformat, hcarries⟩
  · exact Or.inl ⟨metadata, hdecode, installSnapshot_full_quiet hdecode harchive hquiet⟩
  · refine Or.inr ⟨metadata, base, count, ds, hdecode, hformat, ?_, ?_⟩
    · intro hbase
      exact ⟨_, installSnapshot_delta_quiet hdecode hformat hcarries hbase hquiet⟩
    · intro hbase
      exact installSnapshot_delta_mismatch hdecode hformat hbase

/-- A source that applied an entry, built a full snapshot, applied another entry, and built a delta
of it. -/
def SecondSnapshot (src : SurrealStorage) (snap : Snapshot) : Prop :=
  ∃ n₁ n₂ n₃ first,
    apply [.put 1 1 "a" [1]] (fresh []) = (.ok (), n₁) ∧
    buildSnapshot .stored n₁ = (.ok first, n₂) ∧
    apply [.put 1 2 "b" [2]] n₂ = (.ok (), n₃) ∧
    buildSnapshot .stored n₃ = (.ok snap, src)

theorem SecondSnapshot.reachable {src : SurrealStorage} {snap : Snapshot}
    (h : SecondSnapshot src snap) :
    Relation.ReflTransGen (SourceStep .stored) (fresh []) src ∧
      src.currentSnapshot = some snap := by
  obtain ⟨n₁, n₂, n₃, first, h₁, h₂, h₃, h₄⟩ := h
  refine ⟨?_, congrArg Data.currentSnapshot (buildSnapshot_published h₄).1⟩
  exact (((Relation.ReflTransGen.single (.apply h₁)).tail (.build h₂)).tail (.apply h₃)).tail
    (.build h₄)

theorem exists_secondSnapshot :
    ∃ src snap, SecondSnapshot src snap ∧
      (installSnapshot .stored snap.snapshotMeta snap.snapshot (fresh [])).1 =
        .error (baseMismatch 1 0).ioOther := by
  have hrun : (apply [.put 1 1 "a" [1]]).succeeds (fresh []) (fun _ n₁ =>
      (buildSnapshot .stored).succeeds n₁ fun _ n₂ =>
        (apply [.put 1 2 "b" [2]]).succeeds n₂ fun _ n₃ =>
          (buildSnapshot .stored).succeeds n₃ fun snap _ =>
            (installSnapshot .stored snap.snapshotMeta snap.snapshot (fresh [])).1 =
              .error (baseMismatch 1 0).ioOther) = true := by
    decide +kernel
  obtain ⟨_, n₁, h₁, hrun⟩ := Eff.exists_of_succeeds hrun
  obtain ⟨first, n₂, h₂, hrun⟩ := Eff.exists_of_succeeds hrun
  obtain ⟨_, n₃, h₃, hrun⟩ := Eff.exists_of_succeeds hrun
  obtain ⟨snap, src, h₄, hrun⟩ := Eff.exists_of_succeeds hrun
  exact ⟨src, snap, ⟨n₁, n₂, n₃, first, h₁, h₂, h₃, h₄⟩, of_decide_eq_true hrun⟩

theorem published_snapshot_installs_second :
    ∃ src snap, SecondSnapshot src snap ∧ (fresh []).world.Quiet ∧
      ((∃ dst', installSnapshot .stored snap.snapshotMeta snap.snapshot (fresh []) =
          (.ok (), dst')) ∨
        ∃ base, installSnapshot .stored snap.snapshotMeta snap.snapshot (fresh []) =
          (.error (baseMismatch base 0).ioOther, fresh [])) := by
  obtain ⟨src, snap, hsecond, _⟩ := exists_secondSnapshot
  obtain ⟨hrun, hcurrent⟩ := hsecond.reachable
  refine ⟨src, snap, hsecond, rfl, ?_⟩
  have hquiet : (fresh []).world.Quiet := rfl
  rcases published_snapshot_installs (fresh_fresh []) hrun hcurrent hquiet with
    ⟨_, _, hok⟩ | ⟨_, base, _, _, _, _, hok, herr⟩
  · exact Or.inl hok
  · by_cases hbase : (fresh []).metadata.appliedState.lastAppliedIndex = base
    · exact Or.inl (hok hbase)
    · exact Or.inr ⟨base, herr hbase⟩

/-- A follower with nothing applied is behind the base of the second snapshot. -/
theorem delta_refused_by_lagging_follower :
    ∃ src snap, SecondSnapshot src snap ∧ src.currentSnapshot = some snap ∧
      (installSnapshot .stored snap.snapshotMeta snap.snapshot (fresh [])).1 =
        .error (baseMismatch 1 0).ioOther := by
  obtain ⟨src, snap, hsecond, herr⟩ := exists_secondSnapshot
  exact ⟨src, snap, hsecond, hsecond.reachable.2, herr⟩

end SurrealStorage

end OpenraftSurrealkv
