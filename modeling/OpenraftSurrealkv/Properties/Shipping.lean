import OpenraftSurrealkv.Effects.History
import OpenraftSurrealkv.Snapshot.Stored

/-!
# Shipping a delta

A source applies entries and builds snapshots.  A delta that it builds carries
the requests after its last full snapshot.  So a destination with the source's
map and applied index of that time, once the delta is installed, has the
source's map and applied position.

At the greatest index the delta starts with the entry of the full snapshot
itself.  Running that request once more changes nothing.
-/

namespace OpenraftSurrealkv

namespace SurrealStorage

/-! ## Runs of the source -/

/-- A source with the entries it applied, and the applied index and the map at its last full
snapshot. -/
structure Shipping where
  store : SurrealStorage
  applied : List Entry
  base : Option (UInt64 × OrdMap String Bytes)

/-- A request of the log is not at index `0`, where the first membership is. -/
def RequestsFromOne (es : List Entry) : Prop := ∀ e ∈ es, e.isNormal = true → 1 ≤ e.index

/-- The base after a build from a store. -/
def Shipping.baseAfter (ar : Archiver) (s : Shipping) :
    Except RaftError Snapshot → Option (UInt64 × OrdMap String Bytes)
  | .ok snap =>
      match decodeSnapshotPayload ar snap.snapshot with
      | .ok (some (.full _)) =>
          some (s.store.metadata.appliedState.lastAppliedIndex, s.store.stateMachine)
      | _ => s.base
  | .error _ => s.base

/-- A successful `apply`, or a build with any outcome. -/
inductive ShippingStep (ar : Archiver) : Shipping → Shipping → Prop
  | apply {s : Shipping} (es : List Entry) {n' : SurrealStorage} :
      Increasing (s.applied ++ es) → RequestsFromOne es →
      SurrealStorage.apply es s.store = (.ok (), n') →
      ShippingStep ar s ⟨n', s.applied ++ es, s.base⟩
  | build {s : Shipping} {r : Except RaftError Snapshot} {n' : SurrealStorage} :
      buildSnapshot ar s.store = (r, n') →
      ShippingStep ar s ⟨n', s.applied, s.baseAfter ar r⟩

/-- The last full snapshot was built after the first entries, and its index is the checkpoint's. -/
def BaseOf (st : SnapshotMetaState) (applied : List Entry) (c : UInt64)
    (m : OrdMap String Bytes) : Prop :=
  (∃ ck, st.lastCheckpoint = some ck ∧ ck.checkpointIndex = c) ∧
    ∃ front back, applied = front ++ back ∧ c = (positionAfter front).lastAppliedIndex ∧
      m = replay ∅ (updates front)

/-- What holds of a source in every run. -/
structure ShippingInv (s : Shipping) : Prop where
  tracks : Tracks s.store s.applied
  fromOne : RequestsFromOne s.applied
  base : ∀ c m, s.base = some (c, m) → BaseOf s.store.snapshotState s.applied c m

theorem ShippingInv.fresh {n : SurrealStorage} (h : Fresh n) : ShippingInv ⟨n, [], none⟩ :=
  ⟨.fresh h, (fun _ he => nomatch he), fun _ _ hbase => nomatch hbase⟩

theorem BaseOf.extend {st : SnapshotMetaState} {applied : List Entry} {c : UInt64}
    {m : OrdMap String Bytes} (h : BaseOf st applied c m) (es : List Entry) :
    BaseOf st (applied ++ es) c m := by
  obtain ⟨hck, front, back, rfl, hc, hm⟩ := h
  exact ⟨hck, front, back ++ es, List.append_assoc _ _ _, hc, hm⟩

theorem ShippingInv.apply {s : Shipping} {es : List Entry} {n' : SurrealStorage}
    (h : ShippingInv s) (hinc : Increasing (s.applied ++ es)) (hone : RequestsFromOne es)
    (happly : SurrealStorage.apply es s.store = (.ok (), n')) :
    ShippingInv ⟨n', s.applied ++ es, s.base⟩ where
  tracks := h.tracks.apply hinc happly
  fromOne := by
    intro e he
    rcases List.mem_append.mp he with he | he
    · exact h.fromOne e he
    · exact hone e he
  base := by
    intro c m hbase
    rw [snapshotState_apply_ok happly]
    exact (h.base c m hbase).extend es

theorem ShippingInv.build {ar : Archiver} {s : Shipping} {r : Except RaftError Snapshot}
    {n' : SurrealStorage} (h : ShippingInv s) (hbuild : buildSnapshot ar s.store = (r, n')) :
    ShippingInv ⟨n', s.applied, s.baseAfter ar r⟩ := by
  obtain ⟨current, hdata⟩ := data_buildSnapshot hbuild
  refine ⟨h.tracks.of_data hdata, h.fromOne, fun c m hbase => ?_⟩
  cases r with
  | error e =>
      rw [(buildSnapshot_failed hbuild).2]
      exact h.base c m hbase
  | ok snap =>
      obtain ⟨_, hid, d, hdecode, _, hstate⟩ := buildSnapshot_published hbuild
      rw [hstate]
      cases d with
      | full metadata =>
          simp only [Shipping.baseAfter, hdecode] at hbase
          cases hbase
          refine ⟨(recordSnapshot_full hid _ _).1, s.applied, [], (List.append_nil _).symm, ?_,
            h.tracks.map⟩
          rw [h.tracks.position]
      | delta metadata entries =>
          simp only [Shipping.baseAfter, hdecode] at hbase
          exact h.base c m hbase

theorem ShippingInv.run {ar : Archiver} {n₀ : SurrealStorage} {s : Shipping} (h₀ : Fresh n₀)
    (hrun : Relation.ReflTransGen (ShippingStep ar) ⟨n₀, [], none⟩ s) : ShippingInv s := by
  induction hrun with
  | refl => exact ShippingInv.fresh h₀
  | tail _ hstep ih =>
      cases hstep with
      | apply es hinc hone happly => exact ih.apply hinc hone happly
      | build hbuild => exact ih.build hbuild

/-! ## What a delta brings -/

/-- A request after the first entries is beyond their position. -/
theorem position_lt {front back : List Entry} (hinc : Increasing (front ++ back))
    (hone : RequestsFromOne (front ++ back)) {e : Entry} (he : e ∈ back)
    (hnormal : e.isNormal = true) : (positionAfter front).lastAppliedIndex < e.index := by
  by_cases hfront : front = []
  · subst hfront
    have hle := hone e (List.mem_append_right _ he) hnormal
    show (0 : UInt64) < e.index
    exact UInt64.lt_of_lt_of_le (by decide) hle
  · exact positionAfter_lt hinc hfront he

/-- Below the greatest index a delta brings the requests after the first entries. -/
theorem updates_between {front back : List Entry} (hinc : Increasing (front ++ back))
    (hone : RequestsFromOne (front ++ back))
    (hlt : (positionAfter front).lastAppliedIndex < u64Max) :
    updates (between (saturatingAdd (positionAfter front).lastAppliedIndex 1)
      (positionAfter (front ++ back)).lastAppliedIndex (front ++ back)) = updates back := by
  rw [between_append, between_eq_nil, List.nil_append]
  · refine updates_filter fun e he hnormal => ?_
    rw [Bool.and_eq_true, decide_eq_true_eq, decide_eq_true_eq]
    exact ⟨(saturatingAdd_one_le_iff hlt).mpr (position_lt hinc hone he hnormal),
      index_le_positionAfter hinc (List.mem_append_right _ he)⟩
  · intro e he hlo
    have hle := index_le_positionAfter (List.pairwise_append.mp hinc).1 he
    exact absurd ((saturatingAdd_one_le_iff hlt).mp hlo) (UInt64.not_lt.mpr hle)

/-- At the greatest index a delta brings the last of the first entries once more. -/
theorem between_u64Max {init : List Entry} {last : Entry} (hinc : Increasing (init ++ [last]))
    (hmax : last.index = u64Max) : between u64Max u64Max (init ++ [last]) = [last] := by
  rw [between_append, between_eq_nil, List.nil_append]
  · refine List.filter_eq_self.mpr fun e he => ?_
    rw [List.mem_singleton] at he
    subst he
    rw [hmax]
    decide
  · intro e he hlo
    have hlt := (List.pairwise_append.mp hinc).2.2 e he last (List.mem_singleton.mpr rfl)
    rw [hmax] at hlt
    exact absurd hlt (UInt64.not_lt.mpr hlo)

/-- Nothing comes after the greatest index. -/
theorem eq_nil_of_u64Max {init back : List Entry} {last : Entry}
    (hinc : Increasing (init ++ [last] ++ back)) (hmax : last.index = u64Max) : back = [] := by
  rw [List.eq_nil_iff_forall_not_mem]
  intro e he
  have hlt := (List.pairwise_append.mp hinc).2.2 last (List.mem_concat_self ..) e he
  rw [hmax] at hlt
  exact UInt64.not_lt.mpr (le_u64Max e.index) hlt

/-- Replaying a delta on the map of its base gives the map of all entries. -/
theorem replay_between {front back : List Entry} (hinc : Increasing (front ++ back))
    (hone : RequestsFromOne (front ++ back)) :
    replay (replay ∅ (updates front))
      (updates (between (saturatingAdd (positionAfter front).lastAppliedIndex 1)
        (positionAfter (front ++ back)).lastAppliedIndex (front ++ back))) =
      replay ∅ (updates (front ++ back)) := by
  by_cases hlt : (positionAfter front).lastAppliedIndex < u64Max
  · rw [updates_between hinc hone hlt, updates_append, replay_append]
  · have hmax : (positionAfter front).lastAppliedIndex = u64Max :=
      UInt64.le_antisymm (le_u64Max _) (UInt64.not_lt.mp hlt)
    rcases List.eq_nil_or_concat front with rfl | ⟨init, last, rfl⟩
    · exact absurd hmax (by decide)
    · rw [List.concat_eq_append] at hinc hmax ⊢
      rw [positionAfter_concat] at hmax
      have hlast : last.index = u64Max := hmax
      obtain rfl := eq_nil_of_u64Max hinc hlast
      rw [List.append_nil] at hinc ⊢
      rw [positionAfter_concat, hlast, saturatingAdd_u64Max, between_u64Max hinc hlast,
        updates_append, replay_append]
      exact replay_absorb fun u hu => ⟨u, hu, rfl⟩

/-! ## Installing it -/

/-- The delta of a source carries requests that bring the map of its base to the source's map. -/
theorem ShippingInv.delta {ar : Archiver} {s : Shipping} {c : UInt64} {m : OrdMap String Bytes}
    {snap : Snapshot} {n' : SurrealStorage} {metadata : DeltaMetadata} {entries : List DeltaEntry}
    (h : ShippingInv s) (hbase : s.base = some (c, m))
    (hbuild : buildSnapshot ar s.store = (.ok snap, n'))
    (hdelta : decodeSnapshotPayload ar snap.snapshot = .ok (some (.delta metadata entries))) :
    (∃ count, metadata.format = .delta c count) ∧
      ∃ es, List.Forall₂ Carries es entries ∧ replay m (updates es) = s.store.stateMachine := by
  obtain ⟨_, _, d, hdecode, hpayload, _⟩ := buildSnapshot_published hbuild
  rw [hdelta] at hdecode
  cases hdecode
  obtain ⟨rfl, hisDelta⟩ := hpayload
  obtain ⟨⟨ck, hck, rfl⟩, front, back, happlied, hc, rfl⟩ := h.base c m hbase
  obtain ⟨ck', count, hck', hformat⟩ := hisDelta.base
  rw [hck] at hck'
  cases hck'
  refine ⟨⟨count, hformat⟩, ?_⟩
  have hstart : deltaStart s.store.snapshotState = saturatingAdd ck.checkpointIndex 1 := by
    rw [deltaStart, hck]
  have hfits : ∀ e ∈ between (deltaStart s.store.snapshotState)
      s.store.metadata.appliedState.lastAppliedIndex s.applied, EntryFits e :=
    fun e he => h.tracks.fits e (mem_between.mp he).1
  rw [h.tracks.deltaEntries]
  refine ⟨_, carries_deltaOf hfits, ?_⟩
  rw [updates_filter fun e _ hn => hn, hstart, h.tracks.position, h.tracks.map, hc, happlied]
  have hinc := h.tracks.increasing
  have hone := h.fromOne
  rw [happlied] at hinc hone
  exact replay_between hinc hone

/-- A delta installed on the source's map and applied index of its base reproduces the source. -/
theorem delta_ships_source {ar : Archiver} {n₀ dst : SurrealStorage} {s : Shipping} {c : UInt64}
    {m : OrdMap String Bytes} {snap : Snapshot} {n' : SurrealStorage} {metadata : DeltaMetadata}
    {entries : List DeltaEntry} (hfresh : Fresh n₀)
    (hrun : Relation.ReflTransGen (ShippingStep ar) ⟨n₀, [], none⟩ s)
    (hbase : s.base = some (c, m)) (hbuild : buildSnapshot ar s.store = (.ok snap, n'))
    (hdelta : decodeSnapshotPayload ar snap.snapshot = .ok (some (.delta metadata entries)))
    (hmap : ∀ key, (read key dst).1 = .ok m[key]?)
    (hindex : dst.metadata.appliedState.lastAppliedIndex = c) (hquiet : dst.world.Quiet) :
    ∃ dst', installSnapshot ar snap.snapshotMeta snap.snapshot dst = (.ok (), dst') ∧
      (∀ key, (read key dst').1 = (read key s.store).1) ∧
      dst'.metadata.appliedState = s.store.metadata.appliedState := by
  obtain ⟨⟨count, hformat⟩, es, hcarries, hreplay⟩ :=
    (ShippingInv.run hfresh hrun).delta hbase hbuild hdelta
  have hdst : dst.stateMachine = m :=
    Std.ExtTreeMap.ext_getElem? fun key => Except.ok.inj (hmap key)
  obtain ⟨_, hid, _⟩ := buildSnapshot_published hbuild
  refine ⟨_, installSnapshot_delta_quiet hdelta hformat hcarries hindex hquiet, ?_, ?_⟩
  · intro key
    have hafter : (es.foldl afterEntry dst).stateMachine = s.store.stateMachine := by
      rw [stateMachine_foldl_afterEntry, hdst, hreplay]
    rw [hid, read, Eff.gets_run, Eff.gets_run, ← hafter]
    rfl
  · rw [hid]
    rfl

/-- A source with one entry applied. -/
def oneApplied : SurrealStorage := (apply [.put 1 1 "a" [1]] (fresh [])).2

/-- A full snapshot, another entry, and a run to the state before the delta. -/
theorem second_run {first : Snapshot} {n₂ n₃ : SurrealStorage}
    (hfull : buildSnapshot .stored oneApplied = (.ok first, n₂))
    (happly : apply [.put 1 2 "b" [2]] n₂ = (.ok (), n₃)) :
    Relation.ReflTransGen (ShippingStep .stored) ⟨fresh [], [], none⟩
      ⟨n₃, [.put 1 1 "a" [1], .put 1 2 "b" [2]], some (1, oneApplied.stateMachine)⟩ := by
  obtain ⟨metadata, hdecode, _⟩ := buildSnapshot_full_of_no_checkpoint rfl hfull
  have hone : ShippingStep .stored ⟨fresh [], [], none⟩
      ⟨oneApplied, [.put 1 1 "a" [1]], none⟩ := by
    refine .apply [.put 1 1 "a" [1]] (List.pairwise_singleton _ _) ?_ rfl
    intro e he _
    rw [List.mem_singleton] at he
    subst he
    decide
  have htwo : ShippingStep .stored ⟨oneApplied, [.put 1 1 "a" [1]], none⟩
      ⟨n₂, [.put 1 1 "a" [1]], some (1, oneApplied.stateMachine)⟩ := by
    have hstep := ShippingStep.build (s := ⟨oneApplied, [.put 1 1 "a" [1]], none⟩) hfull
    simp only [Shipping.baseAfter, hdecode] at hstep
    exact hstep
  have hthree : ShippingStep .stored
      ⟨n₂, [.put 1 1 "a" [1]], some (1, oneApplied.stateMachine)⟩
      ⟨n₃, [.put 1 1 "a" [1], .put 1 2 "b" [2]], some (1, oneApplied.stateMachine)⟩ := by
    refine .apply [.put 1 2 "b" [2]] ?_ ?_ happly
    · exact List.pairwise_pair.mpr (by decide)
    · intro e he _
      rw [List.mem_singleton] at he
      subst he
      decide
  exact ((Relation.ReflTransGen.single hone).tail htwo).tail hthree

theorem delta_ships_source_second :
    ∃ n₂ n₃ n₄ first snap dst',
      buildSnapshot .stored oneApplied = (.ok first, n₂) ∧
      apply [.put 1 2 "b" [2]] n₂ = (.ok (), n₃) ∧
      buildSnapshot .stored n₃ = (.ok snap, n₄) ∧
      installSnapshot .stored snap.snapshotMeta snap.snapshot oneApplied = (.ok (), dst') ∧
      (∀ key, (read key dst').1 = (read key n₃).1) ∧
      dst'.metadata.appliedState = n₃.metadata.appliedState := by
  have htest : (buildSnapshot .stored).succeeds oneApplied (fun _ n₂ =>
      (apply [.put 1 2 "b" [2]]).succeeds n₂ fun _ n₃ =>
        (buildSnapshot .stored).succeeds n₃ fun snap _ =>
          isDeltaPayload .stored snap.snapshot) = true := by
    decide +kernel
  obtain ⟨first, n₂, hfull, htest⟩ := Eff.exists_of_succeeds htest
  obtain ⟨_, n₃, happly, htest⟩ := Eff.exists_of_succeeds htest
  obtain ⟨snap, n₄, hbuild, htest⟩ := Eff.exists_of_succeeds htest
  obtain ⟨metadata, entries, hdelta⟩ := exists_of_isDeltaPayload htest
  have hmap : ∀ key, (read key oneApplied).1 = .ok oneApplied.stateMachine[key]? := fun _ => rfl
  obtain ⟨dst', hinstall, hreads, hposition⟩ :=
    delta_ships_source (fresh_fresh []) (second_run hfull happly) rfl hbuild hdelta hmap rfl rfl
  exact ⟨n₂, n₃, n₄, first, snap, dst', hfull, happly, hbuild, hinstall, hreads, hposition⟩

end SurrealStorage

end OpenraftSurrealkv
