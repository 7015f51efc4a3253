import OpenraftSurrealkv.Effects.Install
import OpenraftSurrealkv.Effects.Open
import OpenraftSurrealkv.Snapshot.Stored

/-!
# What a rejected install leaves behind

An install that is refused before the replay starts changes nothing, and an
install of a full snapshot never touches the map, the request log or the applied
position.  The replay of a delta decodes an entry, writes the map and the
request log, and saves the applied position, before it looks at the next entry.
So once a first entry has been decoded, an error leaves its traces.
-/

namespace OpenraftSurrealkv

open Postcard

/-- A payload that decodes as a delta has the format of one. -/
theorem format_of_decodeSnapshotPayload {ar : Archiver} {payload : Bytes}
    {metadata : DeltaMetadata} {es : List DeltaEntry}
    (h : decodeSnapshotPayload ar payload = .ok (some (.delta metadata es))) :
    ∃ base count, metadata.format = .delta base count := by
  unfold decodeSnapshotPayload at h
  split at h
  next envelope _ =>
    split at h
    next base count hformat =>
      split at h
      next =>
        cases h
        exact ⟨base, count, hformat⟩
      next => cases h
    next => cases h
  next =>
    split at h
    next => cases h
    next =>
      split at h
      next => cases h
      next =>
        cases h
        exact ⟨_, _, rfl⟩

namespace SurrealStorage

/-! ## Where a replay stops -/

/-- The entry holds a request that can be recorded. -/
def IsRequest (e : DeltaEntry) : Prop :=
  ∃ req, KVRequest.codec.fromBytes e.payload = .ok req ∧ Fits req

/-- A replay that ran to the end found requests only, and all its saves succeeded. -/
theorem lands_of_ok {es : List DeltaEntry} {n n' : SurrealStorage} {u : Unit}
    (h : applyDeltaEntries es n = (.ok u, n')) :
    (∀ e ∈ es, IsRequest e) ∧ n.world.Succeeds (3 * es.length) := by
  induction es generalizing n with
  | nil => exact ⟨(fun e he => nomatch he), (fun o ho => nomatch ho)⟩
  | cons e es ih =>
      cases hdec : KVRequest.codec.fromBytes e.payload with
      | error err =>
          rw [applyDeltaEntries_error hdec] at h
          cases h
      | ok req =>
          have hwhole := h
          rw [applyDeltaEntries, hdec, liftPostcard, Eff.bind_of_ok (Eff.ofExcept_run _ n)] at h
          obtain ⟨_, n₁, happly, hrest⟩ := Eff.bind_eq_ok_iff.mp h
          obtain rfl := (Prod.mk.inj happly).2
          obtain ⟨_, n₂, hrecord, _⟩ := Eff.bind_eq_ok_iff.mp hrest
          have hfit := (appendLogEntry_ok hrecord).1
          have hworld := succeeds_of_appendLogEntry hrecord
          have hsave : n.world.Succeeds 3 := hworld
          rw [applyDeltaEntries_cons hdec hfit hsave] at hwhole
          obtain ⟨hrequests, hsaves⟩ := ih hwhole
          refine ⟨List.forall_mem_cons.mpr ⟨⟨req, hdec, hfit⟩, hrequests⟩, ?_⟩
          rw [List.length_cons, show 3 * (es.length + 1) = 3 + 3 * es.length by omega,
            World.succeeds_add]
          exact ⟨hsave, hsaves⟩

/-- Requests whose saves all succeed are replayed to the end. -/
theorem ok_of_lands {es : List DeltaEntry} {n : SurrealStorage}
    (hrequests : ∀ e ∈ es, IsRequest e) (hsaves : n.world.Succeeds (3 * es.length)) :
    ∃ n', applyDeltaEntries es n = (.ok (), n') := by
  induction es generalizing n with
  | nil => exact ⟨n, rfl⟩
  | cons e es ih =>
      obtain ⟨⟨req, hdec, hfit⟩, hrest⟩ := List.forall_mem_cons.mp hrequests
      rw [List.length_cons, show 3 * (es.length + 1) = 3 + 3 * es.length by omega,
        World.succeeds_add] at hsaves
      rw [applyDeltaEntries_cons hdec hfit hsaves.1]
      exact ih hrest hsaves.2

/-! ## What it leaves -/

/-- The map, the request log and the applied position are the same. -/
def Unchanged (n n' : SurrealStorage) : Prop :=
  n'.stateMachine = n.stateMachine ∧ n'.raftLogs = n.raftLogs ∧
    n'.metadata.appliedState = n.metadata.appliedState

/-- A record of the request log stays until another one replaces it. -/
theorem recorded_applyDeltaEntries {i : UInt64} : ∀ es : List DeltaEntry,
    Eff.Within (Eff.Preserved fun n : SurrealStorage => n.raftLogs[i]? ≠ none)
      (applyDeltaEntries es)
  | [] => .pure _
  | e :: es => by
      refine .bind (.ofExcept _) fun req => .bind ?_ fun _ => .bind ?_ fun _ =>
        recorded_applyDeltaEntries es
      · exact .bind (.modify fun _ h => h) fun _ => .pure _
      · refine .bind (.ofExcept _) fun payload => .bind (.modify fun n h => ?_) fun _ =>
          Eff.Within.zoom (Q := fun _ _ => True) (fun _ => trivial) fun _ _ _ h => h
        show (n.raftLogs.insert e.index _)[i]? ≠ none
        rw [OrdMap.get_insert]
        split
        next => exact Option.some_ne_none _
        next => exact h

/-- A request that decodes has been run on the map by the time the replay can stop. -/
theorem stateMachine_of_stopped {e : DeltaEntry} {req : KVRequest} {n n' : SurrealStorage}
    {err : RaftError} {es : List DeltaEntry}
    (hdec : KVRequest.codec.fromBytes e.payload = .ok req)
    (hstop : ¬ (Fits req ∧ n.world.Succeeds 3))
    (h : applyDeltaEntries (e :: es) n = (.error err, n')) :
    n'.stateMachine = req.update.run n.stateMachine := by
  rw [applyDeltaEntries, hdec, liftPostcard, Eff.bind_of_ok (Eff.ofExcept_run _ n),
    Eff.bind_of_ok (show applyRequest req n = (.ok .ok, _) from rfl)] at h
  rcases Eff.bind_eq_error_iff.mp h with hrecord | ⟨_, n₁, hrecord, _⟩
  · have hkeep : Eff.Keeps stateMachine (appendLogEntry e.term e.index req) :=
      .bind (.ofExcept _) fun _ => .bind (.modify fun _ => rfl) fun _ =>
        Eff.Keeps.zoom _ fun _ _ => rfl
    have hsame := hkeep { n with stateMachine := req.update.run n.stateMachine }
    rw [hrecord] at hsame
    exact hsame
  · have hsave := succeeds_of_appendLogEntry hrecord
    exact absurd ⟨(appendLogEntry_ok hrecord).1, hsave⟩ hstop

/-- An update changes some map. -/
theorem exists_run_ne (u : Update String Bytes) : ∃ m, u.run m ≠ m := by
  obtain ⟨m, hm⟩ := exists_replay_ne (List.cons_ne_nil u [])
  exact ⟨m, hm⟩

/-- A store at an applied index, with the given map and outcomes to come and no request recorded. -/
def storeAt (base : UInt64) (m : OrdMap String Bytes) (fs : List (Option String)) :
    SurrealStorage :=
  { fresh [] with
    metadata := { (fresh []).metadata with
      world := (emptyWorld []).withFaults fs
      appliedState := ⟨base, 0⟩ }
    stateMachine := m }

/-- Once the first entry decodes, a replay that does not run to the end changes some store. -/
theorem exists_changed {e : DeltaEntry} {req : KVRequest} {es : List DeltaEntry}
    {fs : List (Option String)} (base : UInt64)
    (hdec : KVRequest.codec.fromBytes e.payload = .ok req)
    (hstop : ¬ ((∀ d ∈ e :: es, IsRequest d) ∧ ∀ o ∈ fs.take (3 * (e :: es).length), o = none)) :
    ∃ m err n', applyDeltaEntries (e :: es) (storeAt base m fs) = (.error err, n') ∧
      ¬ Unchanged (storeAt base m fs) n' := by
  obtain ⟨m, hm⟩ := exists_run_ne req.update
  rcases hrun : applyDeltaEntries (e :: es) (storeAt base m fs) with ⟨r, n'⟩
  cases r with
  | ok u => exact absurd (lands_of_ok hrun) hstop
  | error err =>
      refine ⟨m, err, n', hrun, fun hsame => ?_⟩
      by_cases hfirst : Fits req ∧ (storeAt base m fs).world.Succeeds 3
      · -- the first request is recorded, and its record stays
        rw [applyDeltaEntries_cons hdec hfirst.1 hfirst.2] at hrun
        have hkept := recorded_applyDeltaEntries (i := e.index) es
          (((storeAt base m fs).afterDelta e req).skip 3)
        rw [hrun] at hkept
        refine hkept ?_ ?_
        · show ((storeAt base m fs).raftLogs.insert e.index _)[e.index]? ≠ none
          rw [OrdMap.get_insert, if_pos rfl]
          exact Option.some_ne_none _
        · rw [hsame.2.1]
          exact Std.ExtTreeMap.getElem?_empty
      · exact hm ((stateMachine_of_stopped hdec hfirst hrun).symm.trans hsame.1)

/-! ## Rejected installs -/

/-- For a given payload and outcomes to come, a rejected install changes no store exactly when the
payload is not a delta, is one that is replayed to the end, or is one whose first entry does not
decode. -/
theorem rejected_install_changes_nothing_iff (ar : Archiver) (snapshot : Snapshot)
    (fs : List (Option String)) :
    (∀ n : SurrealStorage, n.world.faults = fs → ∀ err n',
      installSnapshotAuto ar snapshot n = (.error err, n') → Unchanged n n') ↔
    ∀ metadata es,
      decodeSnapshotPayload ar snapshot.snapshot = .ok (some (.delta metadata es)) →
        ((∀ e ∈ es, IsRequest e) ∧ ∀ o ∈ fs.take (3 * es.length), o = none) ∨
        ∃ e rest err, es = e :: rest ∧ KVRequest.codec.fromBytes e.payload = .error err := by
  constructor
  · intro hunchanged metadata es hdecode
    obtain ⟨base, count, hformat⟩ := format_of_decodeSnapshotPayload hdecode
    by_contra hcon
    obtain ⟨hlands, hfirst⟩ := not_or.mp hcon
    cases es with
    | nil => exact hlands ⟨(fun e he => nomatch he), (fun o ho => nomatch ho)⟩
    | cons e es =>
        cases hdec : KVRequest.codec.fromBytes e.payload with
        | error err => exact hfirst ⟨e, es, err, rfl, hdec⟩
        | ok req =>
            obtain ⟨m, err, n', hrun, hchanged⟩ := exists_changed base hdec hlands
            refine hchanged (hunchanged (storeAt base m fs) rfl err n' ?_)
            have hbase : (storeAt base m fs).metadata.appliedState.lastAppliedIndex = base := rfl
            rw [installSnapshotAuto_delta hdecode hformat, if_pos hbase]
            exact hrun
  · rintro hcond n rfl err n' hinstall
    cases hdecode : decodeSnapshotPayload ar snapshot.snapshot with
    | error e =>
        rw [installSnapshotAuto, hdecode] at hinstall
        obtain rfl := (Prod.mk.inj hinstall).2
        exact ⟨rfl, rfl, rfl⟩
    | ok decoded =>
        cases decoded with
        | none =>
            rw [installSnapshotAuto, hdecode] at hinstall
            obtain rfl := (Prod.mk.inj hinstall).2
            exact ⟨rfl, rfl, rfl⟩
        | some d =>
            cases d with
            | full metadata =>
                rw [installSnapshotAuto_full hdecode] at hinstall
                obtain rfl := (Prod.mk.inj hinstall).2
                exact ⟨rfl, rfl, rfl⟩
            | delta metadata es =>
                obtain ⟨base, count, hformat⟩ := format_of_decodeSnapshotPayload hdecode
                rw [installSnapshotAuto_delta hdecode hformat] at hinstall
                split at hinstall
                next =>
                  rcases hcond metadata es hdecode with
                    ⟨hrequests, hsaves⟩ | ⟨e, rest, err', rfl, hdec⟩
                  · obtain ⟨n₁, hok⟩ := ok_of_lands hrequests hsaves
                    rw [hok] at hinstall
                    cases hinstall
                  · rw [applyDeltaEntries_error hdec] at hinstall
                    obtain rfl := (Prod.mk.inj hinstall).2
                    exact ⟨rfl, rfl, rfl⟩
                next =>
                  obtain rfl := (Prod.mk.inj hinstall).2
                  exact ⟨rfl, rfl, rfl⟩

/-- A delta on an empty store with a request and, after it, an entry that does not decode. -/
def brokenDelta : Snapshot where
  snapshotMeta := ⟨some ⟨1, 2⟩, defaultStoredMembership, "broken"⟩
  snapshot := SnapshotEnvelope.codec.encode ⟨DeltaMetadata.new (.delta 0 2) 0 0,
    DeltaSnapshotCodec.entriesCodec.encode
      [⟨1, 1, KVRequest.codec.encode (.set "k" [7])⟩, ⟨1, 2, [9]⟩]⟩

/-- The install of the broken delta is rejected and leaves the key, the record and the position of
its first entry. -/
theorem rejected_install_leaves_prefix :
    ∃ err n', installSnapshotAuto .stored brokenDelta (fresh []) = (.error err, n') ∧
      n'.stateMachine["k"]? = some [7] ∧
      n'.raftLogs[(1 : UInt64)]? = some ⟨1, 1, KVRequest.codec.encode (.set "k" [7])⟩ ∧
      n'.metadata.appliedState = ⟨1, 1⟩ ∧ ¬ Unchanged (fresh []) n' := by
  have hrun : (installSnapshotAuto .stored brokenDelta (fresh [])).1 =
      .error (snapshotError errSnapshotInstallDeltaApplyDecode
        "index=2, cause=Serde Deserialization Error") := by
    decide +kernel
  have hleft : (installSnapshotAuto .stored brokenDelta (fresh [])).2.stateMachine["k"]? =
        some [7] ∧
      (installSnapshotAuto .stored brokenDelta (fresh [])).2.raftLogs[(1 : UInt64)]? =
        some ⟨1, 1, KVRequest.codec.encode (.set "k" [7])⟩ ∧
      (installSnapshotAuto .stored brokenDelta (fresh [])).2.metadata.appliedState = ⟨1, 1⟩ := by
    decide +kernel
  refine ⟨_, _, Prod.ext hrun rfl, hleft.1, hleft.2.1, hleft.2.2, fun hsame => ?_⟩
  have hposition : (⟨1, 1⟩ : AppliedState) = .new := hleft.2.2.symm.trans hsame.2.2
  exact absurd hposition (by decide)

end SurrealStorage

end OpenraftSurrealkv
