import OpenraftSurrealkv.Properties.OnePoint
import OpenraftSurrealkv.Properties.Shipping

/-!
# A replica of a committed log

The consensus library first appends the entries of the log to a store and later
applies them in order.  Appending records the requests and moves the applied
position, so a store is only what it reports once no entry is left to apply.
`Replica.Inv` describes a store between the two, and each operation of the state
machine keeps it.  Builds and installs read the applied position, so for them
nothing may be left to apply (`Inv.idle`).

A delta that was cut from the same log brings a replica at its base to the end of
the delta (`Tracks.delta`).
-/

namespace OpenraftSurrealkv

open Postcard

namespace SurrealStorage

/-! ## Replaying a delta under any failures -/

/-- An entry that takes effect has the effect of the log entry it carries. -/
theorem applyDeltaEntries_cons_ok {e : Entry} {d : DeltaEntry} {ds : List DeltaEntry}
    {n n' : SurrealStorage} {u : Unit} (hcarries : Carries e d)
    (h : applyDeltaEntries (d :: ds) n = (.ok u, n')) :
    ∃ fs, applyDeltaEntries ds ((n.afterEntry e).withFaults fs) = (.ok u, n') := by
  obtain ⟨hterm, hindex, req, hreq, hdecode⟩ := hcarries.decode
  rw [applyDeltaEntries, hdecode, liftPostcard, Eff.bind_of_ok (Eff.ofExcept_run _ n),
    Eff.bind_of_ok (show applyRequest req n = (.ok .ok, _) from rfl)] at h
  obtain ⟨_, n₁, hlog, hrest⟩ := Eff.bind_eq_ok_iff.mp h
  obtain ⟨_, fs, rfl⟩ := appendLogEntry_ok hlog
  refine ⟨fs, ?_⟩
  rcases e with ⟨id, payload⟩
  subst hreq
  rw [hterm, hindex] at hrest
  exact hrest

/-- A replay that succeeds has the effects of the entries in turn. -/
theorem applyDeltaEntries_ok {es : List Entry} {ds : List DeltaEntry}
    (h : List.Forall₂ Carries es ds) :
    ∀ {n n' : SurrealStorage} {u : Unit}, applyDeltaEntries ds n = (.ok u, n') →
      ∃ fs, n' = (es.foldl afterEntry n).withFaults fs := by
  induction h with
  | nil =>
      intro n n' u hrun
      obtain ⟨_, rfl⟩ := Eff.ok_inj hrun
      exact ⟨n.world.faults, rfl⟩
  | cons hcarries _ ih =>
      intro n n' u hrun
      obtain ⟨fs, hrest⟩ := applyDeltaEntries_cons_ok hcarries hrun
      obtain ⟨gs, rfl⟩ := ih hrest
      refine ⟨gs, ?_⟩
      rw [List.foldl_cons, foldl_withFaults withFaults_afterEntry, withFaults_withFaults]

/-- A delta that installs is on its base, and its entries and its log id took effect. -/
theorem installSnapshot_delta_ok {ar : Archiver} {snapshotMeta : SnapshotMeta} {snapshot : Bytes}
    {metadata : DeltaMetadata} {base count : UInt64} {es : List Entry} {ds : List DeltaEntry}
    {last : LogId} {n n' : SurrealStorage} {u : Unit}
    (hd : decodeSnapshotPayload ar snapshot = .ok (some (.delta metadata ds)))
    (hf : metadata.format = .delta base count) (hcarries : List.Forall₂ Carries es ds)
    (hlast : snapshotMeta.lastLogId = some last)
    (h : installSnapshot ar snapshotMeta snapshot n = (.ok u, n')) :
    n.metadata.appliedState.lastAppliedIndex = base ∧
      ∃ fs, n' = (((es.foldl afterEntry n).atPosition ⟨last.index, last.term⟩).withFaults
        fs).holding snapshotMeta snapshot := by
  obtain ⟨_, n₁, hauto, h₁⟩ := Eff.bind_eq_ok_iff.mp h
  obtain ⟨_, n₂, hsave, hmod⟩ := Eff.bind_eq_ok_iff.mp h₁
  have hrun := asIo_ok hauto
  rw [installSnapshotAuto_delta hd hf] at hrun
  by_cases hbase : n.metadata.appliedState.lastAppliedIndex = base
  · rw [if_pos hbase] at hrun
    obtain ⟨fs, rfl⟩ := applyDeltaEntries_ok hcarries hrun
    rw [hlast] at hsave
    obtain ⟨gs, hok | ⟨_, herr⟩⟩ := saveAppliedState_cases ⟨last.index, last.term⟩
      ((es.foldl afterEntry n).withFaults fs)
    · cases hok.symm.trans (asIo_ok hsave)
      refine ⟨hbase, gs, ?_⟩
      rw [withFaults_atPosition, withFaults_withFaults] at hmod
      exact (Prod.mk.inj hmod).2.symm
    · cases herr.symm.trans (asIo_ok hsave)
  · rw [if_neg hbase] at hrun
    cases hrun

/-! ## A delta on its base -/

/-- Below the greatest index a delta carries the requests after the first entries. -/
theorem requestsIn_base {front back : List Entry} (hinc : Increasing (front ++ back))
    (hone : RequestsFromOne (front ++ back))
    (hlt : (positionAfter front).lastAppliedIndex < u64Max) :
    requestsIn (saturatingAdd (positionAfter front).lastAppliedIndex 1)
      (positionAfter (front ++ back)).lastAppliedIndex (front ++ back) =
        back.filter Entry.isNormal := by
  have hfront : between (saturatingAdd (positionAfter front).lastAppliedIndex 1)
      (positionAfter (front ++ back)).lastAppliedIndex front = [] := by
    refine between_eq_nil fun e he hlo => ?_
    have hle := index_le_positionAfter (List.pairwise_append.mp hinc).1 he
    exact absurd ((saturatingAdd_one_le_iff hlt).mp hlo) (UInt64.not_lt.mpr hle)
  rw [requestsIn, between_append, hfront, List.nil_append, between, List.filter_filter]
  refine List.filter_congr fun e he => ?_
  cases hnormal : e.isNormal with
  | false => rfl
  | true =>
      have hlo := (saturatingAdd_one_le_iff hlt).mpr (position_lt hinc hone he hnormal)
      have hhi := index_le_positionAfter hinc (List.mem_append_right _ he)
      simp [hlo, hhi]

/-- Entries without a request have no record. -/
theorem records_filter_isNormal : ∀ es : List Entry, records (es.filter Entry.isNormal) = records es
  | [] => rfl
  | e :: es => by
      have ih := records_filter_isNormal es
      cases hn : e.isNormal with
      | false => rw [List.filter_cons_of_neg (by rw [hn]; decide), records_cons_of_not hn, ih]
      | true =>
          obtain ⟨req, hreq⟩ := Entry.isNormal_iff.mp hn
          rw [List.filter_cons_of_pos hn, records_cons_of_normal hreq, records_cons_of_normal hreq,
            ih]

/-- Running the last request once more changes nothing. -/
theorem Tracks.again {n : SurrealStorage} {init : List Entry} {last : Entry}
    (h : Tracks n (init ++ [last])) (hnormal : last.isNormal = true) :
    Tracks (n.afterEntry last) (init ++ [last]) := by
  obtain ⟨req, hreq⟩ := Entry.isNormal_iff.mp hnormal
  have hrecord : n.raftLogs[last.index]? = some (recordOf last req) :=
    h.get_raftLogs (List.mem_concat_self ..) hreq
  have hlogs : (n.afterEntry last).raftLogs = n.raftLogs := by
    refine Std.ExtTreeMap.ext_getElem? fun i => ?_
    rw [raftLogs_afterEntry]
    by_cases hi : last.index = i
    · subst hi
      rw [get_logWith_normal hreq, hrecord]
    · rw [get_logWith_of_ne hi]
  have hone : updates [last] = (last.request?.map KVRequest.update).toList := by
    rw [updates_cons]
    exact List.append_nil _
  refine ⟨h.increasing, h.fits, ?_, ?_, (positionAfter_concat init last).symm⟩
  · rw [hlogs, h.logs]
  · rw [stateMachine_afterEntry, h.map, updates_append, replay_append, hone]
    exact replay_absorb fun u hu => ⟨u, hu, rfl⟩

/-- Tracking reads the position of the store as it stands. -/
theorem Tracks.atPosition {n : SurrealStorage} {applied applied' : List Entry}
    (h : Tracks n applied) (hinc : Increasing applied') (hfits : ∀ e ∈ applied', EntryFits e)
    (hrecords : records applied = records applied')
    (hupdates : updates applied = updates applied') :
    Tracks (n.atPosition (positionAfter applied')) applied' where
  increasing := hinc
  fits := hfits
  logs := by
    rw [← hrecords]
    exact h.logs
  map := by
    rw [← hupdates]
    exact h.map
  position := rfl

/-- A delta on its base brings a store to the entries it was cut from. -/
theorem Tracks.delta {n : SurrealStorage} {front back : List Entry} (h : Tracks n front)
    (hinc : Increasing (front ++ back)) (hone : RequestsFromOne (front ++ back))
    (hfits : ∀ e ∈ front ++ back, EntryFits e) :
    Tracks (((requestsIn (saturatingAdd (positionAfter front).lastAppliedIndex 1)
      (positionAfter (front ++ back)).lastAppliedIndex (front ++ back)).foldl
        SurrealStorage.afterEntry n).atPosition (positionAfter (front ++ back)))
      (front ++ back) := by
  by_cases hlt : (positionAfter front).lastAppliedIndex < u64Max
  · have hsub : (front ++ back.filter Entry.isNormal).Sublist (front ++ back) :=
      (List.Sublist.refl front).append List.filter_sublist
    have hfold := h.foldl (hinc.sublist hsub)
      fun e he => hfits e (List.mem_append_right _ (List.mem_of_mem_filter he))
    rw [requestsIn_base hinc hone hlt]
    refine hfold.atPosition hinc hfits ?_ ?_
    · rw [records_append, records_append, records_filter_isNormal]
    · rw [updates_append, updates_append, updates_filter fun _ _ hn => hn]
  · -- at the greatest index the delta can only hold the last entry itself
    have hmax : (positionAfter front).lastAppliedIndex = u64Max :=
      UInt64.le_antisymm (le_u64Max _) (UInt64.not_lt.mp hlt)
    rcases List.eq_nil_or_concat front with rfl | ⟨init, last, rfl⟩
    · exact absurd hmax (by decide)
    · rw [List.concat_eq_append] at h hinc hone hfits hmax ⊢
      rw [positionAfter_concat] at hmax
      have hlast : last.index = u64Max := hmax
      obtain rfl := eq_nil_of_u64Max hinc hlast
      rw [List.append_nil] at hinc hfits ⊢
      rw [positionAfter_concat, hlast, saturatingAdd_u64Max, requestsIn, between_u64Max hinc hlast,
        ← hlast, ← positionAfter_concat init last]
      cases hnormal : last.isNormal with
      | false =>
          rw [List.filter_cons_of_neg (by rw [hnormal]; decide)]
          exact h.atPosition hinc hfits rfl rfl
      | true =>
          rw [List.filter_cons_of_pos hnormal]
          exact (h.again hnormal).atPosition hinc hfits rfl rfl

/-! ## What tracking reads -/

/-- The part of a store that tracking reads. -/
def tracked (n : SurrealStorage) : OrdMap UInt64 LogEntry × OrdMap String Bytes × AppliedState :=
  (n.raftLogs, n.stateMachine, n.metadata.appliedState)

theorem Tracks.congr {n n' : SurrealStorage} {applied : List Entry} (h : Tracks n applied)
    (hsame : n'.tracked = n.tracked) : Tracks n' applied := by
  obtain ⟨hlogs, hmap, hposition⟩ :
      n'.raftLogs = n.raftLogs ∧ n'.stateMachine = n.stateMachine ∧
        n'.metadata.appliedState = n.metadata.appliedState := by
    simpa only [tracked, Prod.mk.injEq] using hsame
  exact ⟨h.increasing, h.fits, hlogs ▸ h.logs, hmap ▸ h.map, hposition ▸ h.position⟩

theorem tracked_afterEntry (n : SurrealStorage) (e : Entry) :
    (n.afterEntry e).tracked =
      (logWith n.raftLogs e, replay n.stateMachine (e.request?.map KVRequest.update).toList,
        ⟨e.index, e.term⟩) := by
  rw [tracked, raftLogs_afterEntry, stateMachine_afterEntry]
  rfl

theorem tracked_foldl_afterEntry : ∀ (es : List Entry) {n n' : SurrealStorage},
    n'.tracked = n.tracked → (es.foldl afterEntry n').tracked = (es.foldl afterEntry n).tracked
  | [], _, _, h => h
  | e :: es, n, n', h => by
      refine tracked_foldl_afterEntry es ?_
      have hlogs : n'.raftLogs = n.raftLogs := congrArg Prod.fst h
      have hmap : n'.stateMachine = n.stateMachine := congrArg (fun t => t.2.1) h
      rw [tracked_afterEntry, tracked_afterEntry, hlogs, hmap]

/-- The records of entries as updates of the request log. -/
def recordUpdates (es : List Entry) : List (Update UInt64 LogEntry) :=
  (records es).map fun p => .put p.1 p.2

theorem foldl_logWith : ∀ (es : List Entry) (logs : OrdMap UInt64 LogEntry),
    es.foldl logWith logs = replay logs (recordUpdates es)
  | [], _ => rfl
  | e :: es, logs => by
      rw [List.foldl_cons, foldl_logWith es]
      rcases e with ⟨id, p⟩
      cases p <;> rfl

/-- Effects that record each entry leave the records of all. -/
theorem raftLogs_foldl {f : SurrealStorage → Entry → SurrealStorage}
    (hf : ∀ n e, (f n e).raftLogs = logWith n.raftLogs e) (es : List Entry) (n : SurrealStorage) :
    (es.foldl f n).raftLogs = replay n.raftLogs (recordUpdates es) := by
  rw [← foldl_logWith]
  induction es generalizing n with
  | nil => rfl
  | cons e es ih => rw [List.foldl_cons, ih, hf, List.foldl_cons]

theorem recordUpdates_append (es fs : List Entry) :
    recordUpdates (es ++ fs) = recordUpdates es ++ recordUpdates fs := by
  rw [recordUpdates, records_append, List.map_append]
  rfl

theorem positionAfter_append_of_ne {front back : List Entry} (hne : back ≠ []) :
    positionAfter (front ++ back) = positionAfter back := by
  obtain ⟨init, last, rfl⟩ := (List.eq_nil_or_concat back).resolve_left hne
  rw [List.concat_eq_append, ← List.append_assoc, positionAfter_concat, positionAfter_concat]

theorem appliedState_foldl_afterEntry {es : List Entry} (hne : es ≠ []) (n : SurrealStorage) :
    (es.foldl afterEntry n).metadata.appliedState = positionAfter es := by
  obtain ⟨init, last, rfl⟩ := (List.eq_nil_or_concat es).resolve_left hne
  rw [List.concat_eq_append, List.foldl_append, positionAfter_concat]
  rfl

/-- What each entry leaves alone, all of them do. -/
theorem foldl_keeps {γ : Type} {g : SurrealStorage → γ}
    {f : SurrealStorage → Entry → SurrealStorage} (hf : ∀ n e, g (f n e) = g n) :
    ∀ (es : List Entry) (n : SurrealStorage), g (es.foldl f n) = g n
  | [], _ => rfl
  | e :: es, n => by rw [List.foldl_cons, foldl_keeps hf es, hf]

/-- Appending leaves the map alone. -/
theorem stateMachine_foldl_afterAppend (es : List Entry) (n : SurrealStorage) :
    (es.foldl afterAppend n).stateMachine = n.stateMachine := by
  refine foldl_keeps (fun n e => ?_) es n
  rcases e with ⟨id, p⟩
  cases p <;> rfl

/-- Appending first makes no difference to what applying leaves. -/
theorem tracked_apply_append (pending es : List Entry) (n : SurrealStorage) :
    ((pending ++ es).foldl afterEntry (es.foldl afterAppend n)).tracked =
      ((pending ++ es).foldl afterEntry n).tracked := by
  rcases List.eq_nil_or_concat es with rfl | ⟨init, last, hes⟩
  · rfl
  · have hne : pending ++ es ≠ [] := by
      rw [hes]
      simp
    have hlogs : replay (replay n.raftLogs (recordUpdates es)) (recordUpdates (pending ++ es)) =
        replay n.raftLogs (recordUpdates (pending ++ es)) := by
      refine replay_absorb fun u hu => ⟨u, ?_, rfl⟩
      rw [recordUpdates_append]
      exact List.mem_append_right _ hu
    rw [tracked, tracked, raftLogs_foldl raftLogs_afterEntry, raftLogs_foldl raftLogs_afterEntry,
      raftLogs_foldl raftLogs_afterAppend, hlogs, stateMachine_foldl_afterEntry,
      stateMachine_foldl_afterEntry, stateMachine_foldl_afterAppend,
      appliedState_foldl_afterEntry hne, appliedState_foldl_afterEntry hne]

/-! ## Replicas -/

/-- A replica: its run, and the entries that were appended and not yet applied. -/
structure Replica where
  run : ChainRun
  pending : List Entry

namespace Replica

abbrev store (r : Replica) : SurrealStorage := r.run.store

abbrev applied (r : Replica) : List Entry := r.run.applied

/-- The applied index that the store reports. -/
abbrev appliedIndex (r : Replica) : UInt64 := r.run.appliedIndex

def start (n : SurrealStorage) : Replica := ⟨.start n, []⟩

/-- What holds of a replica of a log: applying what is pending leaves a store that tracks all it
was given. -/
structure Inv (ar : Archiver) (log : List Entry) (r : Replica) : Prop where
  isPrefix : r.applied ++ r.pending <+: log
  settled : Tracks (r.pending.foldl afterEntry r.store) (r.applied ++ r.pending)
  map : r.store.stateMachine = replay ∅ (updates r.applied)
  membership : r.store.lastMembership = membershipAfter r.applied
  chain : ChainOf ar r.store.world r.applied r.run.lastBuilt r.store.snapshotState
  reached : (positionAfter r.applied).lastAppliedIndex ≤ r.appliedIndex

variable {ar : Archiver} {log : List Entry} {r : Replica}

theorem Inv.start {n : SurrealStorage} (h : Fresh n) : Inv ar log (.start n) where
  isPrefix := List.nil_prefix
  settled := .fresh h
  map := (Tracks.fresh h).map
  membership := by
    obtain ⟨w, ex, _, rfl⟩ := h.eq
    rfl
  chain := (ChainInv.fresh h).chain
  reached := UInt64.zero_le

/-- With nothing pending the run is one of the chain. -/
theorem Inv.idle (h : Inv ar log r) (hidle : r.pending = []) : ChainInv ar r.run := by
  have hsettled := h.settled
  rw [hidle, List.append_nil] at hsettled
  exact ⟨hsettled, h.chain⟩

/-- With nothing pending the applied index is that of the last entry applied. -/
theorem Inv.appliedIndex_eq (h : Inv ar log r) (hidle : r.pending = []) :
    r.appliedIndex = (positionAfter r.applied).lastAppliedIndex :=
  congrArg AppliedState.lastAppliedIndex (h.idle hidle).tracks.position

theorem Inv.isPrefix_applied (h : Inv ar log r) : r.applied <+: log :=
  (List.prefix_append _ _).trans h.isPrefix

/-- A run of the chain with nothing pending is a replica of a log that extends its entries. -/
theorem Inv.of_chainInv {s : ChainRun} (h : ChainInv ar s) (hlog : s.applied <+: log)
    (hmembership : s.store.lastMembership = membershipAfter s.applied) :
    Inv ar log ⟨s, []⟩ where
  isPrefix := by
    rw [List.append_nil]
    exact hlog
  settled := by
    rw [List.append_nil]
    exact h.tracks
  map := h.tracks.map
  membership := hmembership
  chain := h.chain
  reached := UInt64.le_of_eq (congrArg AppliedState.lastAppliedIndex h.tracks.position).symm

/-! ## Steps of a replica -/

/-- What the chain reads of a store. -/
def chained (n : SurrealStorage) : (OrdMap String Bytes × Bool) × SnapshotMetaState :=
  (Sys.fileState n.world, n.snapshotState)

theorem chained_afterAppend (n : SurrealStorage) (e : Entry) :
    chained (n.afterAppend e) = chained n := by
  rcases e with ⟨id, p⟩
  cases p <;> rfl

theorem chained_afterEntry (n : SurrealStorage) (e : Entry) :
    chained (n.afterEntry e) = chained n := by
  rcases e with ⟨id, p⟩
  cases p <;> rfl

theorem lastMembership_afterAppend (n : SurrealStorage) (e : Entry) :
    (n.afterAppend e).lastMembership = n.lastMembership := by
  rcases e with ⟨id, p⟩
  cases p <;> rfl

/-- Appending moves the applied position to an entry with a request, if there is one. -/
theorem appliedState_foldl_afterAppend : ∀ (es : List Entry) (n : SurrealStorage),
    (es.foldl afterAppend n).metadata.appliedState = n.metadata.appliedState ∨
      ∃ e ∈ es, (es.foldl afterAppend n).metadata.appliedState.lastAppliedIndex = e.index
  | [], _ => Or.inl rfl
  | e :: es, n => by
      rcases appliedState_foldl_afterAppend es (n.afterAppend e) with hsame | ⟨e', he', hindex⟩
      · rw [List.foldl_cons, hsame]
        rcases e with ⟨id, p⟩
        cases p with
        | normal req => exact Or.inr ⟨_, List.mem_cons_self, rfl⟩
        | blank => exact Or.inl rfl
        | membership m => exact Or.inl rfl
      · exact Or.inr ⟨e', List.mem_cons_of_mem e he', hindex⟩

/-- The position after some entries is not above the index of a later one. -/
theorem position_le {front back : List Entry} (hinc : Increasing (front ++ back)) {e : Entry}
    (he : e ∈ back) : (positionAfter front).lastAppliedIndex ≤ e.index := by
  by_cases hne : front = []
  · subst hne
    exact UInt64.zero_le
  · exact UInt64.le_of_lt (positionAfter_lt hinc hne he)

/-- Entries of the log that are appended wait to be applied. -/
theorem Inv.append {es : List Entry} {n' : SurrealStorage} {u : Unit} (h : Inv ar log r)
    (hlog : r.applied ++ (r.pending ++ es) <+: log) (hinc : Increasing log)
    (happend : SurrealStorage.append es r.store = (.ok u, n')) :
    Inv ar log ⟨{ r.run with store := n' }, r.pending ++ es⟩ := by
  obtain ⟨hfits, fs, rfl⟩ := append_ok happend
  have hall : Increasing (r.applied ++ r.pending ++ es) := by
    rw [List.append_assoc]
    exact hinc.sublist hlog.sublist
  obtain ⟨hfiles, hstate⟩ := Prod.mk.inj (foldl_keeps chained_afterAppend es r.store)
  refine ⟨hlog, ?_, ?_, ?_, ?_, ?_⟩
  · have htracks := h.settled.foldl hall hfits
    rw [List.append_assoc, ← List.foldl_append] at htracks
    refine htracks.congr (Eq.trans ?_ (tracked_apply_append r.pending es r.store))
    exact tracked_foldl_afterEntry _ rfl
  · exact (stateMachine_foldl_afterAppend es r.store).trans h.map
  · exact (foldl_keeps lastMembership_afterAppend es r.store).trans h.membership
  · show ChainOf ar ((es.foldl afterAppend r.store).withFaults fs).world r.applied
      r.run.lastBuilt (es.foldl afterAppend r.store).snapshotState
    rw [hstate]
    exact h.chain.of_fileState hfiles
  · show _ ≤ (es.foldl afterAppend r.store).metadata.appliedState.lastAppliedIndex
    rcases appliedState_foldl_afterAppend es r.store with hsame | ⟨e, he, hindex⟩
    · rw [hsame]
      exact h.reached
    · rw [hindex]
      rw [List.append_assoc] at hall
      exact position_le hall (List.mem_append_right _ he)

/-- The first of the pending entries are applied. -/
theorem Inv.apply {es rest : List Entry} {n' : SurrealStorage} {u : Unit} (h : Inv ar log r)
    (hpending : r.pending = es ++ rest) (hinc : Increasing log)
    (happly : SurrealStorage.apply es r.store = (.ok u, n')) :
    Inv ar log ⟨⟨n', r.applied ++ es, r.run.lastBuilt⟩, rest⟩ := by
  have hall := h.isPrefix
  rw [hpending, ← List.append_assoc] at hall
  have hstep : Increasing (r.applied ++ es) :=
    hinc.sublist ((List.prefix_append _ _).trans hall).sublist
  refine ⟨hall, ?_, ?_, ?_, ?_, ?_⟩
  · have htracks := h.settled
    rw [hpending, List.foldl_append, ← List.append_assoc] at htracks
    obtain ⟨_, fs, rfl⟩ := apply_ok happly
    refine htracks.congr ?_
    exact tracked_foldl_afterEntry rest rfl
  · obtain ⟨_, fs, rfl⟩ := apply_ok happly
    rw [updates_append, replay_append, ← h.map]
    exact stateMachine_foldl_afterEntry es r.store
  · obtain ⟨_, fs, rfl⟩ := apply_ok happly
    rw [membershipAfter_append, ← h.membership]
    exact lastMembership_foldl es r.store
  · show ChainOf ar n'.world _ _ n'.snapshotState
    rw [snapshotState_apply_ok happly]
    exact (h.chain.of_fileState (fileState_apply_ok happly)).extend hstep
  · obtain ⟨_, fs, rfl⟩ := apply_ok happly
    show _ ≤ (es.foldl afterEntry r.store).metadata.appliedState.lastAppliedIndex
    by_cases hne : es = []
    · subst hne
      rw [List.append_nil]
      exact h.reached
    · rw [appliedState_foldl_afterEntry hne, positionAfter_append_of_ne hne]
      exact UInt64.le_refl _

/-- A merge changes neither what is tracked nor what is pending. -/
theorem Inv.merge {ex : MergeExecutor} {trigger : MergeTrigger}
    {res : Except RaftError MergeTaskResult} {m' : MetadataManager} (h : Inv ar log r)
    (hinc : Increasing log) (hmerge : ex.runMergeLoop ar trigger r.store.metadata = (res, m')) :
    Inv ar log ⟨{ r.run with store := { r.store with metadata := m' } }, r.pending⟩ := by
  obtain ⟨happlied, hkept⟩ := MergeExecutor.runMergeLoop_outcome hmerge
  have hincreasing : Increasing r.applied := hinc.sublist h.isPrefix_applied.sublist
  refine ⟨h.isPrefix, ?_, h.map, h.membership, ?_, ?_⟩
  · refine h.settled.congr (tracked_foldl_afterEntry r.pending ?_)
    rw [tracked, tracked, happlied]
  · show ChainOf ar m'.world _ _ m'.snapshotState
    rcases hkept with ⟨hstate, hfiles⟩ | ⟨now, path, hstate⟩
    · rw [hstate]
      exact h.chain.of_fileState hfiles
    · rw [hstate]
      exact h.chain.folded hincreasing _ now path
  · show _ ≤ m'.appliedState.lastAppliedIndex
    rw [happlied]
    exact h.reached

/-- What the invariant reads of a store. -/
def observed (n : SurrealStorage) :
    OrdMap UInt64 LogEntry × OrdMap String Bytes × StoredMembership × MergeExecutor.Untouched :=
  (n.raftLogs, n.stateMachine, n.lastMembership, MergeExecutor.untouched n.metadata)

/-- A step that leaves alone what the invariant reads keeps it. -/
theorem Inv.of_observed {n' : SurrealStorage} (h : Inv ar log r)
    (hsame : observed n' = observed r.store) :
    Inv ar log ⟨{ r.run with store := n' }, r.pending⟩ := by
  have hmeta : MergeExecutor.untouched n'.metadata = MergeExecutor.untouched r.store.metadata :=
    congrArg (fun t => t.2.2.2) hsame
  have hmembership : n'.lastMembership = r.store.lastMembership :=
    congrArg (fun t => t.2.2.1) hsame
  have hmap : n'.stateMachine = r.store.stateMachine := congrArg (fun t => t.2.1) hsame
  have hlogs : n'.raftLogs = r.store.raftLogs := congrArg Prod.fst hsame
  have hposition : n'.metadata.appliedState = r.store.metadata.appliedState :=
    congrArg MergeExecutor.Untouched.appliedState hmeta
  refine ⟨h.isPrefix, ?_, hmap.trans h.map, hmembership.trans h.membership, ?_, ?_⟩
  · refine h.settled.congr (tracked_foldl_afterEntry r.pending ?_)
    rw [tracked, tracked, hlogs, hmap, hposition]
  · have hfiles : Sys.fileState n'.world = Sys.fileState r.store.world :=
      congrArg MergeExecutor.Untouched.fileState hmeta
    have hstate : n'.snapshotState = r.store.snapshotState :=
      congrArg MergeExecutor.Untouched.snapshotState hmeta
    show ChainOf ar n'.world _ _ n'.snapshotState
    rw [hstate]
    exact h.chain.of_fileState hfiles
  · show _ ≤ n'.metadata.appliedState.lastAppliedIndex
    rw [hposition]
    exact h.reached

theorem keeps_observed_onMetadata {α : Type} {x : MetaM α}
    (h : Eff.Keeps MergeExecutor.untouched x) : Eff.Keeps observed (onMetadata x) := by
  refine Eff.Within.zoom h fun n m hm => ?_
  show (_, _, _, MergeExecutor.untouched m) = observed n
  rw [show MergeExecutor.untouched m = MergeExecutor.untouched n.metadata from hm]
  rfl

/-- Saving a vote, whatever comes of it, leaves alone what the invariant reads. -/
theorem keeps_observed_saveVote (vote : Vote) : Eff.Keeps observed (saveVote vote) := by
  have hwrites : ∀ {x : Sys Unit}, Eff.Keeps Sys.fileState x → Eff.Keeps observed (sys x) :=
    fun hx => keeps_observed_onMetadata (MergeExecutor.keeps_untouched_sys hx)
  have hvoting : Eff.Keeps MergeExecutor.untouched
      (MetadataManager.saveVotingState ⟨vote.term, vote.votedFor⟩) :=
    Record.keeps_save _ (fun _ => MergeExecutor.keeps_untouched_sys
      (Sys.ofFiles_fileState.transaction _ _ _ _)) fun _ => rfl
  exact .bind (.mapErr _ (keeps_observed_onMetadata hvoting)) fun _ =>
    .bind (.ofExcept _) fun _ => hwrites (Sys.ofFiles_fileState.transaction _ _ _ _)

end Replica

end SurrealStorage

end OpenraftSurrealkv
