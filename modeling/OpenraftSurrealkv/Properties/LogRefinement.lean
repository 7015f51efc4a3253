import OpenraftSurrealkv.Effects.Open
import OpenraftSurrealkv.Lib.Simulation

/-!
# The log store refines a Raft log

An abstract Raft log is a purged position and a list of entries that are
appended, cut at the end and dropped at the front.  The log store keeps the
entries in a map by index and filters it.  As long as batches follow on the log
and a purge leaves no gap, the map is the list with its indices, the indices are
one contiguous run after the purged position, and a failed append has added a
part of its batch.
-/

namespace OpenraftSurrealkv

/-! ## The abstract log -/

/-- A Raft log: the purged position, and the entries after it in order. -/
structure RaftLog where
  purged : Option LogId
  entries : List Entry
deriving DecidableEq, Repr

namespace RaftLog

/-- The last log id: of the last entry, else the purged one. -/
def lastLogId (log : RaftLog) : Option LogId :=
  (log.entries.getLast?.map Entry.logId).or log.purged

def append (log : RaftLog) (es : List Entry) : RaftLog :=
  { log with entries := log.entries ++ es }

/-- Cut the log after a position, or at its start. -/
def truncateAfter (log : RaftLog) : Option LogId → RaftLog
  | some last => { log with entries := log.entries.takeWhile fun e => e.index ≤ last.index }
  | none => { log with entries := [] }

/-- Drop the entries up to a position. -/
def purge (log : RaftLog) (id : LogId) : RaftLog where
  purged := some id
  entries := log.entries.dropWhile fun e => e.index ≤ id.index

end RaftLog

/-- What can happen to a log. -/
inductive LogEvent where
  | appended (es : List Entry)
  | appendFailed (es : List Entry)
  | truncated (last : Option LogId)
  | purged (id : LogId)
deriving DecidableEq, Repr

/-- A step of the abstract log.  A failed append adds the beginning of its batch. -/
inductive RaftLog.Step : RaftLog → LogEvent → RaftLog → Prop
  | appended (log : RaftLog) (es : List Entry) : Step log (.appended es) (log.append es)
  | appendFailed (log : RaftLog) {es part : List Entry} :
      part <+: es → Step log (.appendFailed es) (log.append part)
  | truncated (log : RaftLog) (last : Option LogId) :
      Step log (.truncated last) (log.truncateAfter last)
  | purged (log : RaftLog) (id : LogId) : Step log (.purged id) (log.purge id)

namespace SurrealStorage

/-! ## Consecutive entries -/

/-- The last index after some entries. -/
def lastAfter (last : Option UInt64) (es : List Entry) : Option UInt64 :=
  (es.getLast?.map Entry.index).or last

theorem lastAfter_cons (last : Option UInt64) (e : Entry) (es : List Entry) :
    lastAfter last (e :: es) = lastAfter (some e.index) es := by
  cases es with
  | nil => rfl
  | cons e' es =>
      rw [lastAfter, lastAfter, List.getLast?_cons_cons,
        List.getLast?_eq_some_getLast (List.cons_ne_nil e' es)]
      rfl

namespace Consecutive

theorem append {last : Option UInt64} {es es' : List Entry} (h : Consecutive last es)
    (h' : Consecutive (lastAfter last es) es') : Consecutive last (es ++ es') := by
  induction es generalizing last with
  | nil => exact h'
  | cons e es ih =>
      rw [lastAfter_cons] at h'
      exact ⟨h.1, ih h.2 h'⟩

theorem of_append_left {last : Option UInt64} {es es' : List Entry}
    (h : Consecutive last (es ++ es')) : Consecutive last es := by
  induction es generalizing last with
  | nil => trivial
  | cons e es ih => exact ⟨h.1, ih h.2⟩

theorem lt_of_mem {i : UInt64} {es : List Entry} (h : Consecutive (some i) es) :
    ∀ e ∈ es, i < e.index := by
  induction es generalizing i with
  | nil => simp
  | cons e es ih =>
      have hi : i < e.index := by
        have := h.1 i rfl
        rw [UInt64.lt_iff_toNat_lt]
        omega
      intro e' he'
      rcases List.mem_cons.mp he' with rfl | he'
      · exact hi
      · exact UInt64.lt_trans hi (ih h.2 e' he')

/-- The indices increase. -/
theorem pairwise {last : Option UInt64} {es : List Entry} (h : Consecutive last es) :
    es.Pairwise fun e e' => e.index < e'.index := by
  induction es generalizing last with
  | nil => exact .nil
  | cons e es ih => exact .cons (lt_of_mem h.2) (ih h.2)

/-- Any entries may come first when there is no last index. -/
theorem of_none {i : UInt64} {es : List Entry} (h : Consecutive none es)
    (hi : ∀ e ∈ es.head?, e.index.toNat = i.toNat + 1) : Consecutive (some i) es := by
  cases es with
  | nil => trivial
  | cons e es =>
      refine ⟨fun j hj => ?_, h.2⟩
      obtain rfl := Option.some.inj hj
      exact hi e rfl

theorem to_none {last : Option UInt64} {es : List Entry} (h : Consecutive last es) :
    Consecutive none es := by
  cases es with
  | nil => trivial
  | cons e es => exact ⟨fun i hi => (nomatch hi), h.2⟩

end Consecutive

/-! ## Cutting at a position -/

section

variable {es : List Entry}

/-- Filtering increasing entries from above is cutting them. -/
theorem filter_le_eq_takeWhile (h : es.Pairwise fun e e' => e.index < e'.index) (k : UInt64) :
    es.filter (fun e => decide (e.index ≤ k)) = es.takeWhile fun e => decide (e.index ≤ k) := by
  induction es with
  | nil => rfl
  | cons e es ih =>
      obtain ⟨hlt, hrest⟩ := List.pairwise_cons.mp h
      by_cases he : e.index ≤ k
      · simp [he, ih hrest]
      · have hall : ∀ e' ∈ es, ¬ e'.index ≤ k := fun e' he' hle =>
          he (UInt64.le_of_lt (UInt64.lt_of_lt_of_le (hlt e' he') hle))
        simpa [he] using hall

/-- Filtering increasing entries from below is dropping them. -/
theorem filter_lt_eq_dropWhile (h : es.Pairwise fun e e' => e.index < e'.index) (k : UInt64) :
    es.filter (fun e => decide (k < e.index)) = es.dropWhile fun e => decide (e.index ≤ k) := by
  induction es with
  | nil => rfl
  | cons e es ih =>
      obtain ⟨hlt, hrest⟩ := List.pairwise_cons.mp h
      by_cases he : e.index ≤ k
      · have hnot : ¬ k < e.index := UInt64.not_lt.mpr he
        simp [he, hnot, ih hrest]
      · have hk : k < e.index := UInt64.not_le.mp he
        have hall : ∀ e' ∈ es, k < e'.index := fun e' he' => UInt64.lt_trans hk (hlt e' he')
        simpa [he, hk] using hall

/-- What is left after dropping entries up to a position starts right after it, when the entries
began at or before that point. -/
theorem Consecutive.dropWhile {k : UInt64} (h : Consecutive none es)
    (hfirst : ∀ e ∈ es.head?, e.index.toNat ≤ k.toNat + 1) :
    Consecutive (some k) (es.dropWhile fun e => decide (e.index ≤ k)) := by
  induction es with
  | nil => trivial
  | cons e es ih =>
      by_cases he : e.index ≤ k
      · rw [List.dropWhile_cons_of_pos (by simpa using he)]
        refine ih h.2.to_none ?_
        intro e' he'
        cases es with
        | nil => cases he'
        | cons e₁ es =>
            obtain rfl := Option.some.inj he'
            have hnext := h.2.1 e.index rfl
            rw [UInt64.le_iff_toNat_le] at he
            omega
      · rw [List.dropWhile_cons_of_neg (by simpa using he)]
        refine h.of_none ?_
        intro e' he'
        obtain rfl := Option.some.inj he'
        have hle := hfirst e rfl
        rw [UInt64.le_iff_toNat_le] at he
        omega

end

/-! ## The store and the abstract log -/

/-- The map holds the entries of the log under their indices, which run on from the purged
position. -/
structure Represents (n : SurrealStorage) (log : RaftLog) : Prop where
  entries : n.raftEntries.toList = log.entries.map fun e => (e.index, e)
  purged : n.lastPurgedLogId = log.purged
  contiguous : Consecutive (log.purged.map LogId.index) log.entries

/-- The entries and the purged position of the log. -/
def logPart (n : SurrealStorage) : OrdMap UInt64 Entry × Option LogId :=
  (n.raftEntries, n.lastPurgedLogId)

theorem Represents.of_logPart {n n' : SurrealStorage} {log : RaftLog} (h : Represents n log)
    (heq : n'.logPart = n.logPart) : Represents n' log := by
  obtain ⟨hentries, hpurged⟩ := Prod.mk.inj heq
  exact ⟨by rw [hentries, h.entries], by rw [hpurged, h.purged], h.contiguous⟩

theorem Represents.lastLogId {n : SurrealStorage} {log : RaftLog} (h : Represents n log) :
    n.lastLogId = log.lastLogId := by
  simp [SurrealStorage.lastLogId, RaftLog.lastLogId, h.entries, h.purged, Function.comp_def]

theorem Represents.lastIndex {n : SurrealStorage} {log : RaftLog} (h : Represents n log) :
    n.lastIndex = lastAfter (log.purged.map LogId.index) log.entries := by
  rw [SurrealStorage.lastIndex, h.lastLogId, RaftLog.lastLogId, lastAfter]
  cases log.entries.getLast? <;> rfl

/-! ### Appending -/

theorem keeps_logPart_recordRequest (e : Entry) : Eff.Keeps logPart (recordRequest e) := by
  rcases e with ⟨id, p⟩
  cases p with
  | normal req =>
      exact .mapErr _ (.bind (.ofExcept _) fun _ => .bind (.modify fun _ => rfl) fun _ =>
        Eff.Keeps.zoom _ fun _ _ => rfl)
  | blank => exact .pure ()
  | membership m => exact .pure ()

/-- An entry that could not be appended is not in the log. -/
theorem logPart_of_appendEntry_error {e : Entry} {n n' : SurrealStorage} {x : RaftError}
    (h : appendEntry e n = (.error x, n')) : n'.logPart = n.logPart := by
  rcases Eff.bind_eq_error_iff.mp h with hrecord | ⟨_, n₁, _, hinsert⟩
  · have hkeep := keeps_logPart_recordRequest e n
    rw [hrecord] at hkeep
    exact hkeep
  · cases hinsert

namespace Represents

variable {n n' : SurrealStorage} {log : RaftLog}

theorem afterAppend (h : Represents n log) {e : Entry}
    (he : ∀ i, n.lastIndex = some i → e.index.toNat = i.toNat + 1) :
    Represents (n.afterAppend e) (log.append [e]) := by
  have hcons : Consecutive (log.purged.map LogId.index) (log.entries ++ [e]) := by
    refine h.contiguous.append ⟨?_, trivial⟩
    rw [← h.lastIndex]
    exact he
  refine ⟨?_, (lastPurgedLogId_afterAppend n e).trans h.purged, hcons⟩
  have hlast : ∀ p ∈ n.raftEntries.toList, p.1 < e.index := by
    rw [h.entries]
    intro p hp
    obtain ⟨e', he', rfl⟩ := List.mem_map.mp hp
    exact (List.pairwise_append.mp hcons.pairwise).2.2 e' he' e List.mem_cons_self
  rw [raftEntries_afterAppend, OrdMap.toList_insert_of_last hlast, h.entries]
  simp [RaftLog.append]

/-- An append adds its batch, or the beginning of it when it fails. -/
theorem append : ∀ {es : List Entry} {n : SurrealStorage} {log : RaftLog}
    {r : Except RaftError Unit}, Represents n log → Consecutive n.lastIndex es →
    SurrealStorage.append es n = (r, n') →
      ∃ part, part <+: es ∧ (∀ u, r = .ok u → part = es) ∧ Represents n' (log.append part)
  | [], n, log, r, h, _, hrun => by
      cases hrun
      refine ⟨[], List.nil_prefix, fun _ _ => rfl, ?_⟩
      simpa [RaftLog.append] using h
  | e :: es, n, log, r, h, hcons, hrun => by
      rcases hone : SurrealStorage.appendEntry e n with ⟨r₁, n₁⟩
      cases r₁ with
      | error x =>
          rw [SurrealStorage.append, Eff.bind_of_error hone] at hrun
          cases hrun
          refine ⟨[], List.nil_prefix, fun _ hok => (nomatch hok), ?_⟩
          have hsame := h.of_logPart (logPart_of_appendEntry_error hone)
          simpa [RaftLog.append] using hsame
      | ok u =>
          rw [SurrealStorage.append, Eff.bind_of_ok hone] at hrun
          obtain ⟨_, fs, rfl⟩ := appendEntry_ok hone
          have h₁ : Represents ((n.afterAppend e).withFaults fs) (log.append [e]) :=
            (h.afterAppend hcons.1).of_logPart rfl
          have hrest : Consecutive ((n.afterAppend e).withFaults fs).lastIndex es := by
            rw [h₁.lastIndex]
            simpa [RaftLog.append, lastAfter] using hcons.2
          obtain ⟨part, hpart, hall, hrep⟩ := append h₁ hrest hrun
          refine ⟨e :: part, List.cons_prefix_cons.mpr ⟨rfl, hpart⟩, ?_, ?_⟩
          · intro u hok
            rw [hall u hok]
          · simpa [RaftLog.append] using hrep

/-! ### Truncating and purging -/

theorem truncateAfter (h : Represents n log) (last : Option LogId) :
    Represents (SurrealStorage.truncateAfter last n).2 (log.truncateAfter last) := by
  cases last with
  | none =>
      refine ⟨rfl, h.purged, trivial⟩
  | some last =>
      have hcut := filter_le_eq_takeWhile h.contiguous.pairwise last.index
      refine ⟨?_, h.purged, ?_⟩
      · show (n.raftEntries.filter fun idx _ => decide (idx ≤ last.index)).toList =
          (log.entries.takeWhile fun e => decide (e.index ≤ last.index)).map _
        rw [Std.ExtTreeMap.toList_filter, h.entries, List.filter_map, ← hcut]
        rfl
      · have hpart := List.takeWhile_append_dropWhile (p := fun e : Entry =>
          decide (e.index ≤ last.index)) (l := log.entries)
        have hcontiguous := h.contiguous
        rw [← hpart] at hcontiguous
        exact hcontiguous.of_append_left

theorem purge (h : Represents n log) {id : LogId}
    (hforward : ∀ p, n.lastPurgedLogId = some p → p.index ≤ id.index)
    (hfirst : n.lastPurgedLogId = none →
      ∀ first ∈ n.raftEntries.toList.head?, first.1.toNat ≤ id.index.toNat + 1) :
    Represents (SurrealStorage.purge id n).2 (log.purge id) := by
  have hdrop := filter_lt_eq_dropWhile h.contiguous.pairwise id.index
  refine ⟨?_, rfl, h.contiguous.to_none.dropWhile ?_⟩
  · show (n.raftEntries.filter fun idx _ => decide (id.index < idx)).toList =
      (log.entries.dropWhile fun e => decide (e.index ≤ id.index)).map _
    rw [Std.ExtTreeMap.toList_filter, h.entries, List.filter_map, ← hdrop]
    rfl
  · intro e he
    cases hpurged : n.lastPurgedLogId with
    | none =>
        refine hfirst hpurged (e.index, e) ?_
        rw [h.entries, List.head?_map, he]
        rfl
    | some p =>
        -- the first entry comes right after the old position, which is not beyond the new one
        have hle := hforward p hpurged
        obtain ⟨rest, hrest⟩ : ∃ rest, log.entries = e :: rest :=
          ⟨_, List.eq_cons_of_mem_head? he⟩
        have hcontiguous := h.contiguous
        rw [← h.purged, hpurged, hrest] at hcontiguous
        have hnext := hcontiguous.1 p.index rfl
        rw [UInt64.le_iff_toNat_le] at hle
        omega

end Represents

/-! ## Runs of the log store -/

/-- A position to truncate after: not before the purged one and not after the last log id, and the
start of the log only when nothing was purged. -/
def TruncatesWithin (n : SurrealStorage) : Option LogId → Prop
  | none => n.lastPurgedLogId = none
  | some l => (∀ p, n.lastPurgedLogId = some p → p.index ≤ l.index) ∧
      ∃ last, n.lastLogId = some last ∧ l.index ≤ last.index

/-- The purged position does not move back. -/
def NotBelowPurged (n : SurrealStorage) (id : LogId) : Prop :=
  ∀ p, n.lastPurgedLogId = some p → p.index ≤ id.index

/-- Nor does the first purge leave a gap before the first entry. -/
def ReachesFirst (n : SurrealStorage) (id : LogId) : Prop :=
  n.lastPurgedLogId = none →
    ∀ first ∈ n.raftEntries.toList.head?, first.1.toNat ≤ id.index.toNat + 1

/-- A call of the log store.  Batches follow on the log, and purges meet the condition. -/
inductive LogStoreStep (cond : SurrealStorage → LogId → Prop) :
    SurrealStorage → LogEvent → SurrealStorage → Prop
  | appended {n n' : SurrealStorage} {es : List Entry} :
      Consecutive n.lastIndex es → append es n = (.ok (), n') → LogStoreStep cond n (.appended es) n'
  | appendFailed {n n' : SurrealStorage} {es : List Entry} {e : RaftError} :
      Consecutive n.lastIndex es → append es n = (.error e, n') →
      LogStoreStep cond n (.appendFailed es) n'
  | truncated {n n' : SurrealStorage} {last : Option LogId} :
      TruncatesWithin n last → truncateAfter last n = (.ok (), n') →
      LogStoreStep cond n (.truncated last) n'
  | purged {n n' : SurrealStorage} {id : LogId} :
      cond n id → purge id n = (.ok (), n') → LogStoreStep cond n (.purged id) n'

/-- Every call is answered by the abstract log. -/
theorem Represents.step {n n' : SurrealStorage} {log : RaftLog} {ev : LogEvent}
    (h : Represents n log)
    (hstep : LogStoreStep (fun n id => NotBelowPurged n id ∧ ReachesFirst n id) n ev n') :
    ∃ log', RaftLog.Step log ev log' ∧ Represents n' log' := by
  cases hstep with
  | appended hcons hrun =>
      obtain ⟨part, _, hall, hrep⟩ := h.append hcons hrun
      rw [hall () rfl] at hrep
      exact ⟨_, .appended log _, hrep⟩
  | appendFailed hcons hrun =>
      obtain ⟨part, hpart, _, hrep⟩ := h.append hcons hrun
      exact ⟨_, .appendFailed log hpart, hrep⟩
  | truncated _ hrun =>
      cases hrun
      exact ⟨_, .truncated log _, h.truncateAfter _⟩
  | purged hcond hrun =>
      cases hrun
      exact ⟨_, .purged log _, h.purge hcond.1 hcond.2⟩

/-- The log store refines the abstract log: its map is the list of entries with their indices,
which run on from the purged position, and it reports exactly the purged and the last log id. -/
theorem log_store_refines {n₀ n : SurrealStorage} {evs : List LogEvent}
    (hempty : n₀.raftEntries = ∅) (hunpurged : n₀.lastPurgedLogId = none)
    (hrun : Traces (LogStoreStep fun n id => NotBelowPurged n id ∧ ReachesFirst n id) n₀ evs n) :
    ∃ log, Traces RaftLog.Step ⟨none, []⟩ evs log ∧
      n.raftEntries.toList = log.entries.map (fun e => (e.index, e)) ∧
      Consecutive (n.lastPurgedLogId.map LogId.index) log.entries ∧
      getLogState n = (.ok ⟨log.purged, log.lastLogId⟩, n) := by
  have hstart : Represents n₀ ⟨none, []⟩ := by
    refine ⟨?_, hunpurged, trivial⟩
    rw [hempty]
    rfl
  obtain ⟨log, htrace, hrep⟩ := hrun.simulate Represents.step hstart
  refine ⟨log, htrace, hrep.entries, ?_, ?_⟩
  · rw [hrep.purged]
    exact hrep.contiguous
  · rw [getLogState, Eff.gets_run, hrep.purged, hrep.lastLogId]

/-- A blank entry of term `1`. -/
def blankAt (index : UInt64) : Entry := ⟨⟨1, index⟩, .blank⟩

/-- Two entries, the second one cut off again. -/
def cutLog : SurrealStorage :=
  (truncateAfter (some ⟨1, 1⟩) (((fresh []).afterAppend (blankAt 1)).afterAppend (blankAt 2))).2

/-- Then purged beyond its end. -/
def purgedLog : SurrealStorage := (purge ⟨1, 4⟩ cutLog).2

/-- Appended, cut, purged beyond the end, and appended after the purged position. -/
theorem log_store_refines_purged :
    ∃ n, Traces (LogStoreStep fun n id => NotBelowPurged n id ∧ ReachesFirst n id) (fresh [])
        [.appended [blankAt 1, blankAt 2], .truncated (some ⟨1, 1⟩), .purged ⟨1, 4⟩,
          .appended [blankAt 5]] n ∧
      ∃ log, Traces RaftLog.Step ⟨none, []⟩
        [.appended [blankAt 1, blankAt 2], .truncated (some ⟨1, 1⟩), .purged ⟨1, 4⟩,
          .appended [blankAt 5]] log ∧
        n.raftEntries.toList = log.entries.map (fun e => (e.index, e)) ∧
        Consecutive (n.lastPurgedLogId.map LogId.index) log.entries ∧
        getLogState n = (.ok ⟨log.purged, log.lastLogId⟩, n) := by
  have happend : LogStoreStep (fun n id => NotBelowPurged n id ∧ ReachesFirst n id) (fresh [])
      (.appended [blankAt 1, blankAt 2])
      (((fresh []).afterAppend (blankAt 1)).afterAppend (blankAt 2)) := by
    refine .appended ⟨(fun i hi => nomatch hi), fun i hi => ?_, trivial⟩ rfl
    obtain rfl := Option.some.inj hi
    decide
  have htruncate : LogStoreStep (fun n id => NotBelowPurged n id ∧ ReachesFirst n id)
      (((fresh []).afterAppend (blankAt 1)).afterAppend (blankAt 2))
      (.truncated (some ⟨1, 1⟩)) cutLog :=
    .truncated ⟨(fun p hp => nomatch hp), ⟨1, 2⟩, by decide +kernel, by decide⟩ rfl
  have hpurge : LogStoreStep (fun n id => NotBelowPurged n id ∧ ReachesFirst n id) cutLog
      (.purged ⟨1, 4⟩) purgedLog := by
    refine .purged ⟨(fun p hp => nomatch hp), fun _ first hfirst => ?_⟩ rfl
    have hhead : cutLog.raftEntries.toList.head? = some (1, blankAt 1) := by decide +kernel
    obtain rfl := Option.some.inj (hhead.symm.trans hfirst)
    decide
  have hagain : LogStoreStep (fun n id => NotBelowPurged n id ∧ ReachesFirst n id) purgedLog
      (.appended [blankAt 5]) (purgedLog.afterAppend (blankAt 5)) := by
    refine .appended ⟨fun i hi => ?_, trivial⟩ rfl
    have hlast : purgedLog.lastIndex = some 4 := by decide +kernel
    obtain rfl := Option.some.inj (hlast.symm.trans hi)
    decide
  have hrun := (((Traces.single happend).snoc htruncate).snoc hpurge).snoc hagain
  exact ⟨_, hrun, log_store_refines rfl rfl hrun⟩

/-- A first purge before the first entry leaves a gap. -/
theorem first_purge_leaves_gap :
    ∃ n, Traces (LogStoreStep NotBelowPurged) (fresh []) [.appended [blankAt 5], .purged ⟨1, 2⟩] n ∧
      n.raftEntries.toList = [(5, blankAt 5)] ∧ n.lastPurgedLogId = some ⟨1, 2⟩ ∧
      ¬ Consecutive (n.lastPurgedLogId.map LogId.index) [blankAt 5] := by
  have happend : LogStoreStep NotBelowPurged (fresh []) (.appended [blankAt 5])
      ((fresh []).afterAppend (blankAt 5)) := .appended ⟨(fun i hi => nomatch hi), trivial⟩ rfl
  have hpurge : LogStoreStep NotBelowPurged ((fresh []).afterAppend (blankAt 5)) (.purged ⟨1, 2⟩)
      (purge ⟨1, 2⟩ ((fresh []).afterAppend (blankAt 5))).2 := .purged (fun p hp => nomatch hp) rfl
  refine ⟨_, (Traces.single happend).snoc hpurge, by decide +kernel, rfl, ?_⟩
  intro hcons
  exact absurd (hcons.1 2 rfl) (by decide)

end SurrealStorage

end OpenraftSurrealkv
