import OpenraftSurrealkv.Effects.Install
import OpenraftSurrealkv.Effects.Open

/-!
# What a store remembers of the entries it applied

A store that only applied entries, at increasing indices, has the record of each
request in its request log, the map that the requests leave, and the position of
the last entry (`Tracks`).  So the entries that a delta would have are the
requests applied between the start of the delta and the applied index.
-/

namespace OpenraftSurrealkv

open Postcard

namespace SurrealStorage

/-! ## Records of entries -/

/-- The record of an entry with a request, under its index. -/
def record? (e : Entry) : Option (UInt64 × LogEntry) :=
  e.request?.map fun req => (e.index, recordOf e req)

/-- The request log that entries leave, in their order. -/
def records (es : List Entry) : List (UInt64 × LogEntry) := es.filterMap record?

/-- The requests of entries as the entries of a delta. -/
def deltaOf (es : List Entry) : List DeltaEntry := (records es).map fun p => toDelta p.2

/-- The entries with an index in the closed range. -/
def between (lo hi : UInt64) (es : List Entry) : List Entry :=
  es.filter fun e => decide (lo ≤ e.index) && decide (e.index ≤ hi)

theorem mem_between {lo hi : UInt64} {es : List Entry} {e : Entry} :
    e ∈ between lo hi es ↔ e ∈ es ∧ lo ≤ e.index ∧ e.index ≤ hi := by
  simp only [between, List.mem_filter, Bool.and_eq_true, decide_eq_true_eq]

theorem between_append (lo hi : UInt64) (es fs : List Entry) :
    between lo hi (es ++ fs) = between lo hi es ++ between lo hi fs :=
  List.filter_append ..

theorem between_eq_nil {lo hi : UInt64} {es : List Entry}
    (h : ∀ e ∈ es, lo ≤ e.index → ¬ e.index ≤ hi) : between lo hi es = [] := by
  rw [List.eq_nil_iff_forall_not_mem]
  intro e he
  obtain ⟨hmem, hlo, hhi⟩ := mem_between.mp he
  exact h e hmem hlo hhi

theorem record?_normal {e : Entry} {req : KVRequest} (h : e.payload = .normal req) :
    record? e = some (e.index, recordOf e req) := by
  rw [record?, Entry.request?, h]
  rfl

theorem record?_eq_some {e : Entry} {p : UInt64 × LogEntry} (h : record? e = some p) :
    ∃ req, e.payload = .normal req ∧ p = (e.index, recordOf e req) := by
  rcases e with ⟨id, payload⟩
  cases payload with
  | blank => cases h
  | membership m => cases h
  | normal req =>
      cases h
      exact ⟨req, rfl, rfl⟩

theorem record?_eq_none {e : Entry} (h : e.isNormal = false) : record? e = none := by
  cases hr : e.request? with
  | none => rw [record?, hr]; rfl
  | some req =>
      rw [Entry.isNormal, hr] at h
      cases h

theorem records_cons_of_normal {e : Entry} {req : KVRequest} (h : e.payload = .normal req)
    (es : List Entry) : records (e :: es) = (e.index, recordOf e req) :: records es :=
  List.filterMap_cons_some (record?_normal h)

theorem records_cons_of_not {e : Entry} (h : e.isNormal = false) (es : List Entry) :
    records (e :: es) = records es :=
  List.filterMap_cons_none (record?_eq_none h)

theorem records_append (es fs : List Entry) : records (es ++ fs) = records es ++ records fs :=
  List.filterMap_append

/-- A condition on the index can be checked before or after taking the records. -/
theorem filter_records (p : UInt64 → Bool) : ∀ es : List Entry,
    (records es).filter (fun r => p r.1) = records (es.filter fun e => p e.index)
  | [] => rfl
  | e :: es => by
      have ih := filter_records p es
      unfold records at ih ⊢
      cases hr : record? e with
      | none =>
          cases hp : p e.index with
          | true => rw [List.filter_cons_of_pos (by exact hp), List.filterMap_cons_none hr,
              List.filterMap_cons_none hr, ih]
          | false => rw [List.filter_cons_of_neg (by rw [hp]; decide),
              List.filterMap_cons_none hr, ih]
      | some r =>
          obtain ⟨req, _, rfl⟩ := record?_eq_some hr
          cases hp : p e.index with
          | true => rw [List.filter_cons_of_pos (by exact hp), List.filterMap_cons_some hr,
              List.filterMap_cons_some hr, List.filter_cons_of_pos (by exact hp), ih]
          | false => rw [List.filter_cons_of_neg (by rw [hp]; decide),
              List.filterMap_cons_some hr, List.filter_cons_of_neg (by rw [hp]; decide), ih]

theorem mem_records {es : List Entry} {p : UInt64 × LogEntry} :
    p ∈ records es ↔ ∃ e ∈ es, ∃ req, e.payload = .normal req ∧ p = (e.index, recordOf e req) := by
  unfold records
  rw [List.mem_filterMap]
  constructor
  · rintro ⟨e, he, hrec⟩
    exact ⟨e, he, record?_eq_some hrec⟩
  · rintro ⟨e, he, req, hreq, rfl⟩
    exact ⟨e, he, record?_normal hreq⟩

/-- The records of entries at increasing indices are in key order. -/
theorem ordered_records {es : List Entry} (h : Increasing es) : OrdMap.Ordered (records es) := by
  refine List.Pairwise.filterMap record? (fun a b hlt => ?_) h
  intro p hp q hq
  obtain ⟨_, _, rfl⟩ := record?_eq_some hp
  obtain ⟨_, _, rfl⟩ := record?_eq_some hq
  exact hlt

/-- A delta of entries has one entry for each of those with a request. -/
theorem forall₂_deltaOf : ∀ es : List Entry,
    List.Forall₂ (fun e d => ∃ req, e.payload = .normal req ∧ d = toDelta (recordOf e req))
      (es.filter Entry.isNormal) (deltaOf es)
  | [] => .nil
  | e :: es => by
      have ih := forall₂_deltaOf es
      unfold deltaOf at ih ⊢
      cases hn : e.isNormal with
      | false =>
          rw [List.filter_cons_of_neg (by rw [hn]; decide), records_cons_of_not hn]
          exact ih
      | true =>
          obtain ⟨req, hreq⟩ := Entry.isNormal_iff.mp hn
          rw [List.filter_cons_of_pos hn, records_cons_of_normal hreq, List.map_cons]
          exact .cons ⟨req, hreq, rfl⟩ ih

/-- A delta of entries carries the ones with a request. -/
theorem carries_deltaOf {es : List Entry} (h : ∀ e ∈ es, EntryFits e) :
    List.Forall₂ Carries (es.filter Entry.isNormal) (deltaOf es) := by
  have hfits : ∀ e ∈ es.filter Entry.isNormal, EntryFits e :=
    fun e he => h e (List.mem_of_mem_filter he)
  refine ((List.forall₂_and_left _ _).mpr ⟨hfits, forall₂_deltaOf es⟩).imp ?_
  rintro e d ⟨hfit, req, hreq, hd⟩
  exact ⟨req, hreq, hfit req hreq, hd⟩

/-! ## Tracking -/

/-- The applied position after entries. -/
def positionAfter (es : List Entry) : AppliedState :=
  match es.getLast? with
  | some e => ⟨e.index, e.term⟩
  | none => .new

/-- The store is what applying the entries to a fresh one leaves. -/
structure Tracks (n : SurrealStorage) (applied : List Entry) : Prop where
  increasing : Increasing applied
  fits : ∀ e ∈ applied, EntryFits e
  logs : n.raftLogs.toList = records applied
  map : n.stateMachine = replay ∅ (updates applied)
  position : n.metadata.appliedState = positionAfter applied

theorem Tracks.fresh {n : SurrealStorage} (h : Fresh n) : Tracks n [] := by
  obtain ⟨w, ex, _, rfl⟩ := h.eq
  exact ⟨.nil, (fun e he => nomatch he), rfl, rfl, rfl⟩

/-- Tracking reads nothing that a build changes. -/
theorem Tracks.of_data {n n' : SurrealStorage} {applied : List Entry} {current : Option Snapshot}
    (h : Tracks n applied) (hdata : n'.data = { n.data with currentSnapshot := current }) :
    Tracks n' applied := by
  have hlogs : n'.raftLogs = n.raftLogs := congrArg Data.raftLogs hdata
  have hmap : n'.stateMachine = n.stateMachine := congrArg Data.stateMachine hdata
  have hpos : n'.metadata.appliedState = n.metadata.appliedState :=
    congrArg Data.appliedState hdata
  exact ⟨h.increasing, h.fits, by rw [hlogs, h.logs], by rw [hmap, h.map], by rw [hpos, h.position]⟩

/-- A request that was applied is recorded under its index. -/
theorem Tracks.get_raftLogs {n : SurrealStorage} {applied : List Entry} {e : Entry}
    {req : KVRequest} (h : Tracks n applied) (he : e ∈ applied) (hreq : e.payload = .normal req) :
    n.raftLogs[e.index]? = some (recordOf e req) := by
  rw [← OrdMap.mem_toList, h.logs, mem_records]
  exact ⟨e, he, req, hreq, rfl⟩

theorem positionAfter_concat (es : List Entry) (e : Entry) :
    positionAfter (es ++ [e]) = ⟨e.index, e.term⟩ := by
  rw [positionAfter, List.getLast?_concat]

/-- The record of an entry beyond the last one is the last record. -/
theorem Tracks.logs_afterEntry {n : SurrealStorage} {applied : List Entry} {e : Entry}
    (h : Tracks n applied) (hinc : Increasing (applied ++ [e])) :
    (n.afterEntry e).raftLogs.toList = records (applied ++ [e]) := by
  rw [records_append, ← h.logs]
  rcases e with ⟨id, p⟩
  cases p with
  | blank => exact (List.append_nil _).symm
  | membership m => exact (List.append_nil _).symm
  | normal req =>
      refine OrdMap.toList_insert_of_last fun r hr => ?_
      rw [h.logs] at hr
      obtain ⟨e', he', hrec⟩ := List.mem_filterMap.mp hr
      obtain ⟨req', _, rfl⟩ := record?_eq_some hrec
      exact (List.pairwise_append.mp hinc).2.2 e' he' _ (List.mem_singleton.mpr rfl)

theorem Tracks.afterEntry {n : SurrealStorage} {applied : List Entry} {e : Entry}
    (h : Tracks n applied) (hinc : Increasing (applied ++ [e])) (hfit : EntryFits e) :
    Tracks (n.afterEntry e) (applied ++ [e]) where
  increasing := hinc
  fits := by
    intro e' he'
    rcases List.mem_append.mp he' with he' | he'
    · exact h.fits e' he'
    · rw [List.mem_singleton] at he'
      subst he'
      exact hfit
  logs := h.logs_afterEntry hinc
  map := by
    have hone : updates [e] = (e.request?.map KVRequest.update).toList := by
      rw [updates_cons]
      exact List.append_nil _
    rw [stateMachine_afterEntry, h.map, updates_append, replay_append, hone]
  position := (positionAfter_concat applied e).symm

theorem Tracks.foldl : ∀ {es : List Entry} {n : SurrealStorage} {applied : List Entry},
    Tracks n applied → Increasing (applied ++ es) → (∀ e ∈ es, EntryFits e) →
      Tracks (es.foldl SurrealStorage.afterEntry n) (applied ++ es)
  | [], n, applied, h, _, _ => by
      rw [List.append_nil]
      exact h
  | e :: es, n, applied, h, hinc, hfits => by
      rw [List.append_cons] at hinc ⊢
      have hone : Increasing (applied ++ [e]) := (List.pairwise_append.mp hinc).1
      exact Tracks.foldl (h.afterEntry hone (hfits e List.mem_cons_self)) hinc
        fun e' he' => hfits e' (List.mem_cons_of_mem e he')

/-- A successful `apply` beyond the last entry extends what is tracked. -/
theorem Tracks.apply {n n' : SurrealStorage} {applied es : List Entry} {u : Unit}
    (h : Tracks n applied) (hinc : Increasing (applied ++ es))
    (happly : SurrealStorage.apply es n = (.ok u, n')) : Tracks n' (applied ++ es) := by
  obtain ⟨hfits, fs, rfl⟩ := apply_ok happly
  exact (h.foldl hinc hfits).of_data rfl

/-- What applying one entry leaves alone, a successful `apply` does. -/
theorem apply_ok_keeps {γ : Type} {g : SurrealStorage → γ} {n n' : SurrealStorage}
    {es : List Entry} {u : Unit} (happly : SurrealStorage.apply es n = (.ok u, n'))
    (hentry : ∀ n e, g (SurrealStorage.afterEntry n e) = g n)
    (hfaults : ∀ n fs, g (withFaults n fs) = g n) : g n' = g n := by
  obtain ⟨hfits, fs, rfl⟩ := apply_ok happly
  rw [hfaults]
  clear happly hfits
  induction es generalizing n with
  | nil => rfl
  | cons e es ih => rw [List.foldl_cons, ih, hentry]

theorem snapshotState_apply_ok {n n' : SurrealStorage} {es : List Entry} {u : Unit}
    (happly : SurrealStorage.apply es n = (.ok u, n')) : n'.snapshotState = n.snapshotState := by
  refine apply_ok_keeps happly (fun n e => ?_) fun _ _ => rfl
  rcases e with ⟨id, p⟩
  cases p <;> rfl

theorem fileState_apply_ok {n n' : SurrealStorage} {es : List Entry} {u : Unit}
    (happly : SurrealStorage.apply es n = (.ok u, n')) :
    Sys.fileState n'.world = Sys.fileState n.world := by
  refine apply_ok_keeps (g := fun n => Sys.fileState n.world) happly (fun n e => ?_) fun _ _ => rfl
  rcases e with ⟨id, p⟩
  cases p <;> rfl

/-! ## Positions and deltas -/

/-- No entry is beyond the applied position. -/
theorem index_le_positionAfter {es : List Entry} (h : Increasing es) {e : Entry} (he : e ∈ es) :
    e.index ≤ (positionAfter es).lastAppliedIndex := by
  have hne : es ≠ [] := List.ne_nil_of_mem he
  obtain ⟨front, last, rfl⟩ := (List.eq_nil_or_concat es).resolve_left hne
  rw [List.concat_eq_append] at h he ⊢
  rw [positionAfter_concat]
  rcases List.mem_append.mp he with he | he
  · have hlt := (List.pairwise_append.mp h).2.2 e he last (List.mem_singleton.mpr rfl)
    exact UInt64.le_of_lt hlt
  · rw [List.mem_singleton] at he
    subst he
    exact UInt64.le_refl _

/-- Entries after the first ones are beyond their position. -/
theorem positionAfter_lt {front back : List Entry} (hinc : Increasing (front ++ back))
    (hne : front ≠ []) {e : Entry} (he : e ∈ back) :
    (positionAfter front).lastAppliedIndex < e.index := by
  obtain ⟨init, last, rfl⟩ := (List.eq_nil_or_concat front).resolve_left hne
  rw [List.concat_eq_append] at hinc ⊢
  rw [positionAfter_concat]
  exact (List.pairwise_append.mp hinc).2.2 last (List.mem_concat_self ..) e he

/-- The position does not go back. -/
theorem positionAfter_le_append {front back : List Entry} (hinc : Increasing (front ++ back)) :
    (positionAfter front).lastAppliedIndex ≤ (positionAfter (front ++ back)).lastAppliedIndex := by
  rcases List.eq_nil_or_concat front with rfl | ⟨init, last, rfl⟩
  · exact UInt64.zero_le
  · rw [List.concat_eq_append] at hinc ⊢
    rw [positionAfter_concat]
    exact index_le_positionAfter hinc (List.mem_append_left _ (List.mem_concat_self ..))

/-- What a delta takes from the request log are the requests applied in the range. -/
theorem Tracks.logsSince {n : SurrealStorage} {applied : List Entry} (h : Tracks n applied)
    (start stop : UInt64) :
    (if start ≤ stop then (OrdMap.range n.raftLogs start stop).map Prod.snd else []).map toDelta =
      deltaOf (between start stop applied) := by
  split
  next =>
    rw [OrdMap.range, h.logs, filter_records fun i => decide (start ≤ i) && decide (i ≤ stop),
      List.map_map]
    rfl
  next hgt =>
    have hnil : between start stop applied = [] :=
      between_eq_nil fun _ _ hlo hhi => hgt (UInt64.le_trans hlo hhi)
    rw [hnil]
    rfl

/-- The entries that the next delta would have. -/
theorem Tracks.deltaEntries {n : SurrealStorage} {applied : List Entry} (h : Tracks n applied) :
    n.deltaEntries = deltaOf (between (deltaStart n.snapshotState)
      n.metadata.appliedState.lastAppliedIndex applied) := by
  rw [← h.logsSince, SurrealStorage.deltaEntries]
  split
  next => rfl
  next => rfl

/-! ## Growing ranges -/

/-- The entries with a request and an index in the closed range. -/
def requestsIn (lo hi : UInt64) (es : List Entry) : List Entry :=
  (between lo hi es).filter Entry.isNormal

theorem mem_requestsIn {lo hi : UInt64} {es : List Entry} {e : Entry} :
    e ∈ requestsIn lo hi es ↔ e ∈ es ∧ lo ≤ e.index ∧ e.index ≤ hi ∧ e.isNormal = true := by
  rw [requestsIn, List.mem_filter, mem_between, and_assoc, and_assoc]

theorem map_index_deltaOf (es : List Entry) :
    (deltaOf es).map DeltaEntry.index = (es.filter Entry.isNormal).map Entry.index := by
  symm
  rw [← List.forall₂_eq_eq_eq, List.forall₂_map_left_iff, List.forall₂_map_right_iff]
  refine (forall₂_deltaOf es).imp ?_
  rintro e d ⟨req, _, rfl⟩
  rfl

/-- A range with a later end extends a range with an earlier one. -/
theorem between_isPrefix (lo : UInt64) {hi hi' : UInt64} (hle : hi ≤ hi') :
    ∀ {es : List Entry}, Increasing es → between lo hi es <+: between lo hi' es
  | [], _ => List.prefix_rfl
  | e :: es, h => by
      obtain ⟨hhead, htail⟩ := List.pairwise_cons.mp h
      by_cases hhi : e.index ≤ hi
      · have ih := between_isPrefix lo hle htail
        have hhi' : e.index ≤ hi' := UInt64.le_trans hhi hle
        unfold between at ih ⊢
        by_cases hlo : lo ≤ e.index
        · rw [List.filter_cons_of_pos (by simp [hlo, hhi]),
            List.filter_cons_of_pos (by simp [hlo, hhi'])]
          exact (List.prefix_cons_inj e).mpr ih
        · rw [List.filter_cons_of_neg (by simp [hlo]), List.filter_cons_of_neg (by simp [hlo])]
          exact ih
      · -- beyond the earlier end there is nothing left of the first range
        have hnil : between lo hi (e :: es) = [] := by
          refine between_eq_nil fun e' he' _ hle' => ?_
          rcases List.mem_cons.mp he' with rfl | he'
          · exact hhi hle'
          · exact hhi (UInt64.le_trans (UInt64.le_of_lt (hhead e' he')) hle')
        rw [hnil]
        exact List.nil_prefix

theorem requestsIn_isPrefix {lo hi hi' : UInt64} {es : List Entry} (h : Increasing es)
    (hle : hi ≤ hi') : requestsIn lo hi es <+: requestsIn lo hi' es :=
  (between_isPrefix lo hle h).filter _

theorem deltaOf_isPrefix {es fs : List Entry} (h : es <+: fs) : deltaOf es <+: deltaOf fs :=
  (h.filterMap _).map _

/-- Only the requests are in a delta. -/
theorem deltaOf_filter (es : List Entry) : deltaOf (es.filter Entry.isNormal) = deltaOf es := by
  unfold deltaOf records
  rw [List.filterMap_filter]
  congr 2
  funext e
  rcases e with ⟨id, payload⟩
  cases payload <;> rfl

/-- Entries beyond the end of a range do not change it. -/
theorem between_extend {lo hi : UInt64} {es fs : List Entry}
    (h : ∀ e ∈ fs, hi < e.index) : between lo hi (es ++ fs) = between lo hi es := by
  have hnil : between lo hi fs = [] :=
    between_eq_nil fun e he _ hle => UInt64.not_lt.mpr hle (h e he)
  rw [between_append, hnil, List.append_nil]

/-- Requests lie between the first and the last of them. -/
theorem index_le_getLast {es : List Entry} (h : Increasing es) {e last : Entry}
    (hlast : es.getLast? = some last) (he : e ∈ es) : e.index ≤ last.index := by
  have hle := index_le_positionAfter h he
  rw [positionAfter, hlast] at hle
  exact hle

end SurrealStorage

end OpenraftSurrealkv
