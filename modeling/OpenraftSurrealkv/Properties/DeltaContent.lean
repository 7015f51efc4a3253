import OpenraftSurrealkv.Effects.History
import OpenraftSurrealkv.Lib.Pointwise
import OpenraftSurrealkv.Snapshot.Stored

/-!
# What a delta carries

The request log is written by `append` as well as by `apply`, and `truncate_after`
does not cut it.  Over runs that follow the Raft rules the record of an applied
request stays, and a record that was appended and never applied stays too.  So a
delta is exactly the committed requests of its range when every index of the
range at which a request was ever appended had a request applied, and its start
did not saturate.
-/

namespace OpenraftSurrealkv

namespace SurrealStorage

/-! ## Runs that follow the Raft rules -/

/-- A store with the entries ever appended and the entries applied, in order. -/
structure RaftRun where
  store : SurrealStorage
  appended : List Entry
  applied : List Entry

/-- Only entries that were not applied are truncated. -/
def CutsUnapplied (s : RaftRun) (l : Option LogId) : Prop :=
  ∀ e ∈ s.applied, s.store.raftEntries[e.index]? ≠ none → ¬ cuts l e.index

/-- The purged position does not go back. -/
def PurgesForward (s : RaftRun) (id : LogId) : Prop :=
  ∀ last, s.store.lastPurgedLogId = some last → last.index ≤ id.index

/-- The entries are the ones in the log at their indices, in order after the applied ones. -/
def AppliesLog (s : RaftRun) (es : List Entry) : Prop :=
  Increasing (s.applied ++ es) ∧ ∀ e ∈ es, s.store.raftEntries[e.index]? = some e

/-- A successful call that follows the Raft rules, or a build with any outcome. -/
inductive RaftStep (ar : Archiver) : RaftRun → RaftRun → Prop
  | append {s : RaftRun} (es : List Entry) {n' : SurrealStorage} :
      Consecutive s.store.lastIndex es → SurrealStorage.append es s.store = (.ok (), n') →
      RaftStep ar s ⟨n', s.appended ++ es, s.applied⟩
  | truncateAfter {s : RaftRun} (l : Option LogId) :
      CutsUnapplied s l → RaftStep ar s { s with store := (truncateAfter l s.store).2 }
  | purge {s : RaftRun} (id : LogId) :
      PurgesForward s id → RaftStep ar s { s with store := (purge id s.store).2 }
  | apply {s : RaftRun} (es : List Entry) {n' : SurrealStorage} :
      AppliesLog s es → SurrealStorage.apply es s.store = (.ok (), n') →
      RaftStep ar s ⟨n', s.appended, s.applied ++ es⟩
  | build {s : RaftRun} {r : Except RaftError Snapshot} {n' : SurrealStorage} :
      buildSnapshot ar s.store = (r, n') → RaftStep ar s { s with store := n' }

/-- What holds of the two logs in every run. -/
structure RaftInv (s : RaftRun) : Prop where
  /-- The log holds appended entries under their indices. -/
  inLog : ∀ (i : UInt64) e, s.store.raftEntries[i]? = some e → e.index = i ∧ e ∈ s.appended
  /-- The log is above the purged position. -/
  unpurged : ∀ (i : UInt64) e id, s.store.raftEntries[i]? = some e →
    s.store.lastPurgedLogId = some id → id.index < i
  increasing : Increasing s.applied
  fits : ∀ e ∈ s.applied, EntryFits e
  /-- An applied entry is in the log or was purged. -/
  retained : ∀ e ∈ s.applied, s.store.raftEntries[e.index]? = some e ∨
    ∃ id, s.store.lastPurgedLogId = some id ∧ e.index ≤ id.index
  /-- An applied request is recorded. -/
  recorded : ∀ e ∈ s.applied, ∀ req, e.payload = .normal req →
    s.store.raftLogs[e.index]? = some (recordOf e req)
  /-- A record is of an appended request. -/
  written : ∀ (i : UInt64) l, s.store.raftLogs[i]? = some l →
    l.index = i ∧ ∃ e ∈ s.appended, e.isNormal = true ∧ e.index = i
  /-- An appended request has a record at its index. -/
  kept : ∀ e ∈ s.appended, e.isNormal = true → ∃ l, s.store.raftLogs[e.index]? = some l

theorem RaftInv.fresh {n : SurrealStorage} (h : Fresh n) : RaftInv ⟨n, [], []⟩ := by
  obtain ⟨w, ex, _, rfl⟩ := h.eq
  have hentries : ∀ i : UInt64, (∅ : OrdMap UInt64 Entry)[i]? = none :=
    fun i => Std.ExtTreeMap.getElem?_empty
  have hlogs : ∀ i : UInt64, (∅ : OrdMap UInt64 LogEntry)[i]? = none :=
    fun i => Std.ExtTreeMap.getElem?_empty
  refine ⟨?_, ?_, .nil, ?_, ?_, ?_, ?_, ?_⟩
  · intro i e he
    rw [hentries] at he
    cases he
  · intro i e id he
    rw [hentries] at he
    cases he
  · exact fun _ he => nomatch he
  · exact fun _ he => nomatch he
  · exact fun _ he => nomatch he
  · intro i l hl
    rw [hlogs] at hl
    cases hl
  · exact fun _ he => nomatch he

/-! ## The steps -/

/-- The invariant reads the two logs and the purged position. -/
theorem RaftInv.of_eq {s : RaftRun} (h : RaftInv s) {n : SurrealStorage}
    (hentries : n.raftEntries = s.store.raftEntries)
    (hlogs : n.raftLogs = s.store.raftLogs)
    (hpurged : n.lastPurgedLogId = s.store.lastPurgedLogId) : RaftInv { s with store := n } := by
  refine ⟨?_, ?_, h.increasing, h.fits, ?_, ?_, ?_, ?_⟩
  · rw [hentries]
    exact h.inLog
  · rw [hentries, hpurged]
    exact h.unpurged
  · rw [hentries, hpurged]
    exact h.retained
  · rw [hlogs]
    exact h.recorded
  · rw [hlogs]
    exact h.written
  · rw [hlogs]
    exact h.kept

theorem lt_of_toNat_succ {i j k : UInt64} (hij : i ≤ j) (hk : k.toNat = j.toNat + 1) : i < k := by
  rw [UInt64.lt_iff_toNat_lt]
  rw [UInt64.le_iff_toNat_le] at hij
  omega

/-- The next index to append at is beyond the log and the purged position. -/
theorem RaftInv.next_beyond {s : RaftRun} (h : RaftInv s) {k : UInt64}
    (hk : ∀ i, s.store.lastIndex = some i → k.toNat = i.toNat + 1) :
    (∀ (i : UInt64) e, s.store.raftEntries[i]? = some e → i < k) ∧
      ∀ id, s.store.lastPurgedLogId = some id → id.index < k := by
  cases hlast : s.store.raftEntries.toList.getLast? with
  | none =>
      have hnil := List.getLast?_eq_none_iff.mp hlast
      constructor
      · intro i e he
        have hmem := OrdMap.mem_toList.mpr he
        rw [hnil] at hmem
        cases hmem
      · intro id hid
        refine lt_of_toNat_succ (UInt64.le_refl _) (hk id.index ?_)
        rw [lastIndex, lastLogId, hlast, hid]
        rfl
  | some last =>
      obtain ⟨i₀, e₀⟩ := last
      have hmem := OrdMap.mem_toList.mp (List.mem_of_getLast? hlast)
      obtain ⟨hindex, _⟩ := h.inLog i₀ e₀ hmem
      have hnext : k.toNat = i₀.toNat + 1 := by
        refine hk i₀ ?_
        rw [lastIndex, lastLogId, hlast]
        exact congrArg some hindex
      constructor
      · intro i e he
        rcases (OrdMap.ordered_toList _).lt_or_eq_of_getLast hlast
          (OrdMap.mem_toList.mpr he) with hlt | heq
        · exact lt_of_toNat_succ (UInt64.le_of_lt hlt) hnext
        · cases heq
          exact lt_of_toNat_succ (UInt64.le_refl _) hnext
      · intro id hid
        exact lt_of_toNat_succ (UInt64.le_of_lt (h.unpurged i₀ e₀ id hmem hid)) hnext

theorem RaftInv.applied_below {s : RaftRun} (h : RaftInv s) {k : UInt64}
    (hk : ∀ i, s.store.lastIndex = some i → k.toNat = i.toNat + 1) :
    ∀ e ∈ s.applied, e.index < k := by
  obtain ⟨hlog, hpurged⟩ := h.next_beyond hk
  intro e he
  rcases h.retained e he with hin | ⟨id, hid, hle⟩
  · exact hlog e.index e hin
  · exact UInt64.lt_of_le_of_lt hle (hpurged id hid)

theorem mem_concat {α : Type} {a b : α} {as : List α} : a ∈ as ++ [b] ↔ a ∈ as ∨ a = b := by
  rw [List.mem_append, List.mem_singleton]

/-- Appending an entry at the next index keeps the invariant. -/
theorem RaftInv.afterAppend {s : RaftRun} (h : RaftInv s) {e : Entry}
    (hk : ∀ i, s.store.lastIndex = some i → e.index.toNat = i.toNat + 1) :
    RaftInv ⟨s.store.afterAppend e, s.appended ++ [e], s.applied⟩ := by
  obtain ⟨hlog, hpurged⟩ := h.next_beyond hk
  have hbelow := h.applied_below hk
  refine ⟨?_, ?_, h.increasing, h.fits, ?_, ?_, ?_, ?_⟩
  · intro i v hv
    rw [raftEntries_afterAppend, OrdMap.get_insert] at hv
    split at hv
    next hi =>
      cases hv
      exact ⟨hi, mem_concat.mpr (Or.inr rfl)⟩
    next =>
      obtain ⟨hindex, hmem⟩ := h.inLog i v hv
      exact ⟨hindex, mem_concat.mpr (Or.inl hmem)⟩
  · intro i v id hv hid
    rw [lastPurgedLogId_afterAppend] at hid
    rw [raftEntries_afterAppend, OrdMap.get_insert] at hv
    split at hv
    next hi =>
      subst hi
      exact hpurged id hid
    next => exact h.unpurged i v id hv hid
  · intro a ha
    rw [lastPurgedLogId_afterAppend, raftEntries_afterAppend,
      OrdMap.get_insert_of_ne _ _ (UInt64.ne_of_lt (hbelow a ha)).symm]
    exact h.retained a ha
  · intro a ha req hreq
    rw [raftLogs_afterAppend, get_logWith_of_ne (UInt64.ne_of_lt (hbelow a ha)).symm]
    exact h.recorded a ha req hreq
  · intro i l hl
    rw [raftLogs_afterAppend] at hl
    rcases get_logWith_cases hl with hl | ⟨hn, hi, hindex⟩
    · obtain ⟨hindex, a, ha, hn, hi⟩ := h.written i l hl
      exact ⟨hindex, a, mem_concat.mpr (Or.inl ha), hn, hi⟩
    · exact ⟨hindex, e, mem_concat.mpr (Or.inr rfl), hn, hi⟩
  · intro a ha hn
    rw [raftLogs_afterAppend]
    rcases mem_concat.mp ha with ha | rfl
    · obtain ⟨l, hl⟩ := h.kept a ha hn
      exact get_logWith_of_some e hl
    · obtain ⟨req, hreq⟩ := Entry.isNormal_iff.mp hn
      exact ⟨_, get_logWith_normal hreq⟩

/-- After appending at the next index the entry is the last one. -/
theorem RaftInv.lastIndex_afterAppend {s : RaftRun} (h : RaftInv s) {e : Entry}
    (hk : ∀ i, s.store.lastIndex = some i → e.index.toNat = i.toNat + 1) :
    (s.store.afterAppend e).lastIndex = some e.index := by
  have hlist : (s.store.afterAppend e).raftEntries.toList =
      s.store.raftEntries.toList ++ [(e.index, e)] := by
    rw [raftEntries_afterAppend]
    refine OrdMap.toList_insert_of_last fun p hp => ?_
    exact (h.next_beyond hk).1 p.1 p.2 (OrdMap.mem_toList.mp hp)
  rw [lastIndex, lastLogId, hlist, List.getLast?_concat]
  rfl

theorem RaftInv.foldl_afterAppend : ∀ {es : List Entry} {s : RaftRun}, RaftInv s →
    Consecutive s.store.lastIndex es →
      RaftInv ⟨es.foldl SurrealStorage.afterAppend s.store, s.appended ++ es, s.applied⟩
  | [], s, h, _ => by
      rw [List.append_nil]
      exact h
  | e :: es, s, h, hcons => by
      rw [List.append_cons]
      refine RaftInv.foldl_afterAppend (h.afterAppend hcons.1) ?_
      rw [h.lastIndex_afterAppend hcons.1]
      exact hcons.2

theorem RaftInv.append {s : RaftRun} {es : List Entry} {n' : SurrealStorage} (h : RaftInv s)
    (hcons : Consecutive s.store.lastIndex es)
    (happend : SurrealStorage.append es s.store = (.ok (), n')) :
    RaftInv ⟨n', s.appended ++ es, s.applied⟩ := by
  obtain ⟨_, fs, rfl⟩ := append_ok happend
  exact (h.foldl_afterAppend hcons).of_eq rfl rfl rfl

theorem RaftInv.truncateAfter {s : RaftRun} {l : Option LogId} (h : RaftInv s)
    (hcut : CutsUnapplied s l) :
    RaftInv { s with store := (SurrealStorage.truncateAfter l s.store).2 } := by
  refine ⟨?_, ?_, h.increasing, h.fits, ?_, h.recorded, h.written, h.kept⟩
  · intro i e he
    exact h.inLog i e (raftEntries_truncateAfter.mp he).1
  · intro i e id he hid
    exact h.unpurged i e id (raftEntries_truncateAfter.mp he).1 hid
  · intro e he
    rcases h.retained e he with hin | hpurged
    · refine Or.inl (raftEntries_truncateAfter.mpr ⟨hin, hcut e he ?_⟩)
      rw [hin]
      exact Option.some_ne_none e
    · exact Or.inr hpurged

theorem RaftInv.purge {s : RaftRun} {id : LogId} (h : RaftInv s) (hforward : PurgesForward s id) :
    RaftInv { s with store := (SurrealStorage.purge id s.store).2 } := by
  refine ⟨?_, ?_, h.increasing, h.fits, ?_, h.recorded, h.written, h.kept⟩
  · intro i e he
    exact h.inLog i e (raftEntries_purge.mp he).1
  · intro i e id' he hid
    cases hid
    exact (raftEntries_purge.mp he).2
  · intro e he
    rcases h.retained e he with hin | ⟨last, hlast, hle⟩
    · by_cases hlt : id.index < e.index
      · exact Or.inl (raftEntries_purge.mpr ⟨hin, hlt⟩)
      · exact Or.inr ⟨id, rfl, UInt64.not_lt.mp hlt⟩
    · exact Or.inr ⟨id, rfl, UInt64.le_trans hle (hforward last hlast)⟩

/-- Applying the next entry of the log keeps the invariant. -/
theorem RaftInv.afterEntry {s : RaftRun} (h : RaftInv s) {e : Entry}
    (hinc : Increasing (s.applied ++ [e])) (hlog : s.store.raftEntries[e.index]? = some e)
    (hfit : EntryFits e) : RaftInv ⟨s.store.afterEntry e, s.appended, s.applied ++ [e]⟩ := by
  have hentries := raftEntries_afterEntry s.store e
  have hpurged := lastPurgedLogId_afterEntry s.store e
  have hbelow : ∀ a ∈ s.applied, e.index ≠ a.index := fun a ha =>
    (UInt64.ne_of_lt ((List.pairwise_append.mp hinc).2.2 a ha e (List.mem_singleton.mpr rfl))).symm
  refine ⟨?_, ?_, hinc, ?_, ?_, ?_, ?_, ?_⟩
  · rw [hentries]
    exact h.inLog
  · rw [hentries, hpurged]
    exact h.unpurged
  · intro a ha
    rcases mem_concat.mp ha with ha | rfl
    · exact h.fits a ha
    · exact hfit
  · rw [hentries, hpurged]
    intro a ha
    rcases mem_concat.mp ha with ha | rfl
    · exact h.retained a ha
    · exact Or.inl hlog
  · intro a ha req hreq
    rw [raftLogs_afterEntry]
    rcases mem_concat.mp ha with ha | rfl
    · rw [get_logWith_of_ne (hbelow a ha)]
      exact h.recorded a ha req hreq
    · exact get_logWith_normal hreq
  · intro i l hl
    rw [raftLogs_afterEntry] at hl
    rcases get_logWith_cases hl with hl | ⟨hn, hi, hindex⟩
    · exact h.written i l hl
    · exact ⟨hindex, e, (h.inLog e.index e hlog).2, hn, hi⟩
  · intro a ha hn
    rw [raftLogs_afterEntry]
    obtain ⟨l, hl⟩ := h.kept a ha hn
    exact get_logWith_of_some e hl

theorem RaftInv.foldl_afterEntry : ∀ {es : List Entry} {s : RaftRun}, RaftInv s →
    AppliesLog s es → (∀ e ∈ es, EntryFits e) →
      RaftInv ⟨es.foldl SurrealStorage.afterEntry s.store, s.appended, s.applied ++ es⟩
  | [], s, h, _, _ => by
      rw [List.append_nil]
      exact h
  | e :: es, s, h, ⟨hinc, hlog⟩, hfits => by
      rw [List.append_cons] at hinc ⊢
      have hone : Increasing (s.applied ++ [e]) := (List.pairwise_append.mp hinc).1
      have hstep := h.afterEntry hone (hlog e List.mem_cons_self) (hfits e List.mem_cons_self)
      refine RaftInv.foldl_afterEntry hstep ⟨hinc, ?_⟩ ?_
      · intro a ha
        rw [raftEntries_afterEntry]
        exact hlog a (List.mem_cons_of_mem e ha)
      · intro a ha
        exact hfits a (List.mem_cons_of_mem e ha)

theorem RaftInv.apply {s : RaftRun} {es : List Entry} {n' : SurrealStorage} (h : RaftInv s)
    (hrules : AppliesLog s es) (happly : SurrealStorage.apply es s.store = (.ok (), n')) :
    RaftInv ⟨n', s.appended, s.applied ++ es⟩ := by
  obtain ⟨hfits, fs, rfl⟩ := apply_ok happly
  exact (h.foldl_afterEntry hrules hfits).of_eq rfl rfl rfl

theorem RaftInv.build {ar : Archiver} {s : RaftRun} {r : Except RaftError Snapshot}
    {n' : SurrealStorage} (h : RaftInv s) (hbuild : buildSnapshot ar s.store = (r, n')) :
    RaftInv { s with store := n' } := by
  obtain ⟨current, hdata⟩ := data_buildSnapshot hbuild
  exact h.of_eq (congrArg Data.raftEntries hdata) (congrArg Data.raftLogs hdata)
    (congrArg Data.lastPurgedLogId hdata)

theorem RaftInv.run {ar : Archiver} {n₀ : SurrealStorage} {s : RaftRun} (h₀ : Fresh n₀)
    (hrun : Relation.ReflTransGen (RaftStep ar) ⟨n₀, [], []⟩ s) : RaftInv s := by
  induction hrun with
  | refl => exact RaftInv.fresh h₀
  | tail _ hstep ih =>
      cases hstep with
      | append es hcons happend => exact ih.append hcons happend
      | truncateAfter l hcut => exact ih.truncateAfter hcut
      | purge id hforward => exact ih.purge hforward
      | apply es hrules happly => exact ih.apply hrules happly
      | build hbuild => exact ih.build hbuild

/-! ## The entries of a delta -/

/-- The applied entries with a request and an index after `b` and up to `n`. -/
def committed (s : RaftRun) (b n : UInt64) : List Entry :=
  (s.applied.filter fun e => decide (b < e.index) && decide (e.index ≤ n)).filter Entry.isNormal

theorem mem_committed {s : RaftRun} {b n : UInt64} {e : Entry} :
    e ∈ committed s b n ↔ e ∈ s.applied ∧ b < e.index ∧ e.index ≤ n ∧ e.isNormal = true := by
  simp only [committed, List.mem_filter, Bool.and_eq_true, decide_eq_true_eq, and_assoc]

/-- The start of a delta does not saturate, and at every index of its range at which a request was
ever appended a request was applied. -/
def Clean (s : RaftRun) : Prop :=
  ∀ ck, s.store.snapshotState.lastCheckpoint = some ck → ck.checkpointIndex < u64Max ∧
    ∀ e ∈ s.appended, e.isNormal = true → ck.checkpointIndex < e.index →
      e.index ≤ s.store.metadata.appliedState.lastAppliedIndex →
      ∃ e' ∈ s.applied, e'.isNormal = true ∧ e'.index = e.index

/-- The entries that the next delta would have are the records in its range. -/
theorem mem_deltaEntries {n : SurrealStorage} {i : UInt64} {l : LogEntry}
    (hl : n.raftLogs[i]? = some l) (hlo : deltaStart n.snapshotState ≤ i)
    (hhi : i ≤ n.metadata.appliedState.lastAppliedIndex) : toDelta l ∈ n.deltaEntries := by
  rw [deltaEntries, if_pos (UInt64.le_trans hlo hhi)]
  refine List.mem_map_of_mem (List.mem_map.mpr ⟨(i, l), ?_, rfl⟩)
  exact OrdMap.mem_range.mpr ⟨hl, hlo, hhi⟩

/-- In a clean range the records are those of the applied entries. -/
theorem RaftInv.range_of_clean {s : RaftRun} (h : RaftInv s)
    {ck : PersistedCheckpointMetadata} (hck : s.store.snapshotState.lastCheckpoint = some ck)
    (hclean : Clean s) :
    OrdMap.range s.store.raftLogs (saturatingAdd ck.checkpointIndex 1)
        s.store.metadata.appliedState.lastAppliedIndex =
      records (s.applied.filter fun e => decide (ck.checkpointIndex < e.index) &&
        decide (e.index ≤ s.store.metadata.appliedState.lastAppliedIndex)) := by
  obtain ⟨hlt, happlied⟩ := hclean ck hck
  refine OrdMap.range_eq_of_ordered (ordered_records (h.increasing.filter _)) fun i l => ?_
  rw [saturatingAdd_one_le_iff hlt, mem_records]
  simp only [List.mem_filter, Bool.and_eq_true, decide_eq_true_eq]
  constructor
  · rintro ⟨e, ⟨he, hlo, hhi⟩, req, hreq, heq⟩
    cases heq
    exact ⟨h.recorded e he req hreq, hlo, hhi⟩
  · rintro ⟨hl, hlo, hhi⟩
    obtain ⟨_, a, ha, hn, rfl⟩ := h.written i l hl
    obtain ⟨e, he, hne, hindex⟩ := happlied a ha hn hlo hhi
    obtain ⟨req, hreq⟩ := Entry.isNormal_iff.mp hne
    have hrec := h.recorded e he req hreq
    rw [← hindex] at hl hlo hhi ⊢
    rw [hl] at hrec
    cases hrec
    exact ⟨e, ⟨he, hlo, hhi⟩, req, hreq, rfl⟩

/-- Where the range is clean its records are the committed requests. -/
theorem RaftInv.deltaEntries_of_clean {s : RaftRun} (h : RaftInv s)
    {ck : PersistedCheckpointMetadata} (hck : s.store.snapshotState.lastCheckpoint = some ck)
    (hne : s.store.deltaEntries ≠ []) (hclean : Clean s) :
    List.Forall₂ Carries
      (committed s ck.checkpointIndex s.store.metadata.appliedState.lastAppliedIndex)
      s.store.deltaEntries := by
  have hstart : deltaStart s.store.snapshotState = saturatingAdd ck.checkpointIndex 1 := by
    rw [deltaStart, hck]
  have hentries : s.store.deltaEntries = deltaOf (s.applied.filter fun e =>
      decide (ck.checkpointIndex < e.index) &&
        decide (e.index ≤ s.store.metadata.appliedState.lastAppliedIndex)) := by
    unfold deltaEntries at hne ⊢
    split
    next =>
      rw [hstart, h.range_of_clean hck hclean, List.map_map]
      rfl
    next hgt =>
      rw [if_neg hgt] at hne
      exact absurd rfl hne
  rw [hentries]
  exact carries_deltaOf fun e he => h.fits e (List.mem_filter.mp he).1

/-- A delta that carries the committed requests has a clean range. -/
theorem RaftInv.clean_of_deltaEntries {s : RaftRun} (h : RaftInv s)
    {ck : PersistedCheckpointMetadata} (hck : s.store.snapshotState.lastCheckpoint = some ck)
    (hne : s.store.deltaEntries ≠ [])
    (hcarries : List.Forall₂ Carries
      (committed s ck.checkpointIndex s.store.metadata.appliedState.lastAppliedIndex)
      s.store.deltaEntries) : Clean s := by
  have hstart : deltaStart s.store.snapshotState = saturatingAdd ck.checkpointIndex 1 := by
    rw [deltaStart, hck]
  have hlt : ck.checkpointIndex < u64Max := by
    obtain ⟨d, hd⟩ := List.exists_mem_of_ne_nil _ hne
    obtain ⟨e, he, _⟩ := hcarries.exists_of_mem_right hd
    exact UInt64.lt_of_lt_of_le (mem_committed.mp he).2.1 (le_u64Max e.index)
  intro ck' hck'
  rw [hck] at hck'
  cases hck'
  refine ⟨hlt, fun e he hn hlo hhi => ?_⟩
  obtain ⟨l, hl⟩ := h.kept e he hn
  have hmem := mem_deltaEntries hl
    (by rw [hstart]; exact (saturatingAdd_one_le_iff hlt).mpr hlo) hhi
  obtain ⟨e', he', hc⟩ := hcarries.exists_of_mem_right hmem
  obtain ⟨happ, _, _, hn'⟩ := mem_committed.mp he'
  refine ⟨e', happ, hn', ?_⟩
  exact hc.decode.2.1.symm.trans (h.written e.index l hl).1

/-- A delta carries exactly the committed requests of its range when the range is clean. -/
theorem delta_carries_committed_iff {ar : Archiver} {n₀ n' : SurrealStorage} {s : RaftRun}
    {snap : Snapshot} {metadata : DeltaMetadata} {entries : List DeltaEntry} {b count : UInt64}
    {last : LogId} (hfresh : Fresh n₀)
    (hrun : Relation.ReflTransGen (RaftStep ar) ⟨n₀, [], []⟩ s)
    (hbuild : buildSnapshot ar s.store = (.ok snap, n'))
    (hdelta : decodeSnapshotPayload ar snap.snapshot = .ok (some (.delta metadata entries)))
    (hbase : metadata.format = .delta b count) (hlast : snap.snapshotMeta.lastLogId = some last) :
    List.Forall₂ Carries (committed s b last.index) entries ↔ Clean s := by
  have hinv := RaftInv.run hfresh hrun
  obtain ⟨_, hid, d, hdecode, hpayload, _⟩ := buildSnapshot_published hbuild
  rw [hdelta] at hdecode
  cases hdecode
  obtain ⟨rfl, hisDelta⟩ := hpayload
  obtain ⟨ck, count', hck, hformat⟩ := hisDelta.base
  rw [hbase] at hformat
  cases hformat
  rw [hlast] at hid
  cases hid
  exact ⟨hinv.clean_of_deltaEntries hck hisDelta.ne_nil,
    hinv.deltaEntries_of_clean hck hisDelta.ne_nil⟩

/-! ## A refilled index -/

def requestA : Entry := .put 1 1 "a" [1]

/-- A request that is truncated before it is applied. -/
def requestX : Entry := .put 1 2 "x" [9]

/-- The entry without a request that takes its index. -/
def blankTwo : Entry := ⟨⟨2, 2⟩, .blank⟩

def requestB : Entry := .put 2 3 "b" [2]

/-- Index `2` first gets a request that is truncated, then a blank entry that is applied. -/
theorem refilled_run {n₁ n₂ n₃ n₄ n₅ n₆ : SurrealStorage} {first : Snapshot}
    (happend : append [requestA] (fresh []) = (.ok (), n₁))
    (hlog : n₁.raftEntries[requestA.index]? = some requestA)
    (happly : apply [requestA] n₁ = (.ok (), n₂))
    (hbuild : buildSnapshot .stored n₂ = (.ok first, n₃)) (hlast : n₃.lastIndex = some 1)
    (happendX : append [requestX] n₃ = (.ok (), n₄))
    (hlastX : (truncateAfter (some ⟨1, 1⟩) n₄).2.lastIndex = some 1)
    (happendB : append [blankTwo, requestB] (truncateAfter (some ⟨1, 1⟩) n₄).2 = (.ok (), n₅))
    (hlogB : n₅.raftEntries[blankTwo.index]? = some blankTwo ∧
      n₅.raftEntries[requestB.index]? = some requestB)
    (happlyB : apply [blankTwo, requestB] n₅ = (.ok (), n₆)) :
    Relation.ReflTransGen (RaftStep .stored) ⟨fresh [], [], []⟩
      ⟨n₆, [requestA, requestX, blankTwo, requestB], [requestA, blankTwo, requestB]⟩ := by
  have hone : RaftStep .stored ⟨fresh [], [], []⟩ ⟨n₁, [requestA], []⟩ :=
    .append [requestA] ⟨(fun _ hi => nomatch hi), trivial⟩ happend
  have htwo : RaftStep .stored ⟨n₁, [requestA], []⟩ ⟨n₂, [requestA], [requestA]⟩ := by
    refine .apply [requestA] ⟨List.pairwise_singleton _ _, fun e he => ?_⟩ happly
    rw [List.mem_singleton] at he
    subst he
    exact hlog
  have hthree : RaftStep .stored ⟨n₂, [requestA], [requestA]⟩ ⟨n₃, [requestA], [requestA]⟩ :=
    .build hbuild
  have hfour : RaftStep .stored ⟨n₃, [requestA], [requestA]⟩
      ⟨n₄, [requestA, requestX], [requestA]⟩ := by
    refine .append [requestX] ⟨fun i hi => ?_, trivial⟩ happendX
    cases hlast.symm.trans hi
    rfl
  have hfive : RaftStep .stored ⟨n₄, [requestA, requestX], [requestA]⟩
      ⟨(truncateAfter (some ⟨1, 1⟩) n₄).2, [requestA, requestX], [requestA]⟩ := by
    refine .truncateAfter (some ⟨1, 1⟩) fun e he _ => ?_
    rw [List.mem_singleton] at he
    subst he
    show ¬ (1 : UInt64) < 1
    decide
  have hsix : RaftStep .stored
      ⟨(truncateAfter (some ⟨1, 1⟩) n₄).2, [requestA, requestX], [requestA]⟩
      ⟨n₅, [requestA, requestX, blankTwo, requestB], [requestA]⟩ := by
    refine .append [blankTwo, requestB] ⟨fun i hi => ?_, fun i hi => ?_, trivial⟩ happendB
    · cases hlastX.symm.trans hi
      rfl
    · cases hi
      rfl
  have hseven : RaftStep .stored ⟨n₅, [requestA, requestX, blankTwo, requestB], [requestA]⟩
      ⟨n₆, [requestA, requestX, blankTwo, requestB], [requestA, blankTwo, requestB]⟩ := by
    refine .apply [blankTwo, requestB] ⟨?_, fun e he => ?_⟩ happlyB
    · show List.Pairwise (fun a b : Entry => a.index < b.index) [requestA, blankTwo, requestB]
      decide
    · rcases List.mem_pair.mp he with rfl | rfl
      · exact hlogB.1
      · exact hlogB.2
  exact ((((((Relation.ReflTransGen.single hone).tail htwo).tail hthree).tail hfour).tail
    hfive).tail hsix).tail hseven

/-- What the snapshot after the run is tested for. -/
def refilledDelta (snap : Snapshot) : Bool :=
  match decodeSnapshotPayload .stored snap.snapshot with
  | .ok (some (.delta metadata entries)) =>
      decide (metadata.format = .delta 1 2 ∧ snap.snapshotMeta.lastLogId = some ⟨2, 3⟩ ∧
        entries.map DeltaEntry.index = [2, 3])
  | _ => false

theorem exists_refilled :
    ∃ store snap n', Relation.ReflTransGen (RaftStep .stored) ⟨fresh [], [], []⟩
        ⟨store, [requestA, requestX, blankTwo, requestB], [requestA, blankTwo, requestB]⟩ ∧
      buildSnapshot .stored store = (.ok snap, n') ∧ refilledDelta snap = true := by
  have htest : (append [requestA]).succeeds (fresh []) (fun _ n₁ =>
      decide (n₁.raftEntries[requestA.index]? = some requestA) &&
      (apply [requestA]).succeeds n₁ fun _ n₂ =>
      (buildSnapshot .stored).succeeds n₂ fun _ n₃ =>
      decide (n₃.lastIndex = some 1) &&
      (append [requestX]).succeeds n₃ fun _ n₄ =>
      decide ((truncateAfter (some ⟨1, 1⟩) n₄).2.lastIndex = some 1) &&
      (append [blankTwo, requestB]).succeeds (truncateAfter (some ⟨1, 1⟩) n₄).2 fun _ n₅ =>
      decide (n₅.raftEntries[blankTwo.index]? = some blankTwo ∧
        n₅.raftEntries[requestB.index]? = some requestB) &&
      (apply [blankTwo, requestB]).succeeds n₅ fun _ n₆ =>
      (buildSnapshot .stored).succeeds n₆ fun snap _ => refilledDelta snap) = true := by
    decide +kernel
  obtain ⟨_, n₁, h₁, htest⟩ := Eff.exists_of_succeeds htest
  obtain ⟨hlog, htest⟩ := (Bool.and_eq_true _ _).mp htest
  obtain ⟨_, n₂, h₂, htest⟩ := Eff.exists_of_succeeds htest
  obtain ⟨first, n₃, h₃, htest⟩ := Eff.exists_of_succeeds htest
  obtain ⟨hlast, htest⟩ := (Bool.and_eq_true _ _).mp htest
  obtain ⟨_, n₄, h₄, htest⟩ := Eff.exists_of_succeeds htest
  obtain ⟨hlastX, htest⟩ := (Bool.and_eq_true _ _).mp htest
  obtain ⟨_, n₅, h₅, htest⟩ := Eff.exists_of_succeeds htest
  obtain ⟨hlogB, htest⟩ := (Bool.and_eq_true _ _).mp htest
  obtain ⟨_, n₆, h₆, htest⟩ := Eff.exists_of_succeeds htest
  obtain ⟨snap, n₇, h₇, htest⟩ := Eff.exists_of_succeeds htest
  refine ⟨n₆, snap, n₇, ?_, h₇, htest⟩
  exact refilled_run h₁ (of_decide_eq_true hlog) h₂ h₃ (of_decide_eq_true hlast) h₄
    (of_decide_eq_true hlastX) h₅ (of_decide_eq_true hlogB) h₆

theorem exists_of_refilledDelta {snap : Snapshot} (h : refilledDelta snap = true) :
    ∃ metadata entries,
      decodeSnapshotPayload .stored snap.snapshot = .ok (some (.delta metadata entries)) ∧
        metadata.format = .delta 1 2 ∧ snap.snapshotMeta.lastLogId = some ⟨2, 3⟩ ∧
        entries.map DeltaEntry.index = [2, 3] := by
  unfold refilledDelta at h
  split at h
  next metadata entries hd => exact ⟨metadata, entries, hd, of_decide_eq_true h⟩
  next => cases h

theorem delta_carries_committed_iff_refilled :
    ∃ s snap metadata entries n', s.appended = [requestA, requestX, blankTwo, requestB] ∧
      s.applied = [requestA, blankTwo, requestB] ∧
      buildSnapshot .stored s.store = (.ok snap, n') ∧
      decodeSnapshotPayload .stored snap.snapshot = .ok (some (.delta metadata entries)) ∧
      (List.Forall₂ Carries (committed s 1 3) entries ↔ Clean s) := by
  obtain ⟨store, snap, n', hrun, hbuild, htest⟩ := exists_refilled
  obtain ⟨metadata, entries, hdelta, hbase, hlast, _⟩ := exists_of_refilledDelta htest
  have hiff := delta_carries_committed_iff (fresh_fresh []) hrun hbuild hdelta hbase hlast
  exact ⟨⟨store, _, _⟩, snap, metadata, entries, n', rfl, rfl, hbuild, hdelta, hiff⟩

/-- The delta after the refilled index still carries the truncated request. -/
theorem delta_carries_truncated_request :
    ∃ s snap metadata entries n',
      Relation.ReflTransGen (RaftStep .stored) ⟨fresh [], [], []⟩ s ∧
      s.appended = [requestA, requestX, blankTwo, requestB] ∧
      s.applied = [requestA, blankTwo, requestB] ∧
      buildSnapshot .stored s.store = (.ok snap, n') ∧
      decodeSnapshotPayload .stored snap.snapshot = .ok (some (.delta metadata entries)) ∧
      metadata.format = .delta 1 2 ∧ snap.snapshotMeta.lastLogId = some ⟨2, 3⟩ ∧
      entries.map DeltaEntry.index = [2, 3] ∧ committed s 1 3 = [requestB] ∧
      ¬ List.Forall₂ Carries (committed s 1 3) entries := by
  obtain ⟨store, snap, n', hrun, hbuild, htest⟩ := exists_refilled
  obtain ⟨metadata, entries, hdelta, hbase, hlast, hentries⟩ := exists_of_refilledDelta htest
  refine ⟨_, snap, metadata, entries, n', hrun, rfl, rfl, hbuild, hdelta, hbase, hlast, hentries,
    rfl, ?_⟩
  intro hcarries
  have hlen := hcarries.length_eq
  have htwo := congrArg List.length hentries
  rw [List.length_map] at htwo
  rw [htwo] at hlen
  cases hlen

end SurrealStorage

end OpenraftSurrealkv
