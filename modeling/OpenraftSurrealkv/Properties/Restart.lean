import OpenraftSurrealkv.Effects.Open

/-!
# What a restart keeps

The applied position is in the tree and survives.  The key-value map, the
membership, the log and the purged position are in memory only and come back
empty.  So a restart is invisible to the state machine only when no membership
was applied and every key that was set was deleted again, and invisible to the
log storage only when nothing is in the log and nothing was purged.
-/

namespace OpenraftSurrealkv

namespace SurrealStorage

/-! ## Runs of apply -/

/-- Batches of entries, applied one after another. -/
def applyBatches : List (List Entry) → Op Unit
  | [] => pure ()
  | batch :: rest => do
      apply batch
      applyBatches rest

theorem applyBatches_ok : ∀ {bs : List (List Entry)} {n n' : SurrealStorage} {u : Unit},
    applyBatches bs n = (.ok u, n') → ∃ fs, n' = (bs.flatten.foldl afterEntry n).withFaults fs
  | [], n, n', _, h => by
      cases h
      exact ⟨n.world.faults, rfl⟩
  | batch :: bs, n, n', _, h => by
      obtain ⟨_, n₁, hone, hrest⟩ := Eff.bind_eq_ok_iff.mp h
      obtain ⟨-, fs, rfl⟩ := apply_ok hone
      obtain ⟨gs, rfl⟩ := applyBatches_ok hrest
      refine ⟨gs, ?_⟩
      rw [foldl_withFaults withFaults_afterEntry, withFaults_withFaults, List.flatten_cons,
        List.foldl_append]

/-- A reopened store would recover the applied position in memory. -/
def Synced (n : SurrealStorage) : Prop :=
  MetadataManager.appliedRecord.recovered n.world.tree .new = n.metadata.appliedState

theorem synced_atPosition (n : SurrealStorage) (st : AppliedState) : Synced (n.atPosition st) := by
  have hp := Record.persisted_insert (r := MetadataManager.appliedRecord) n.world.tree
    (AppliedState.toStdvec_eq st)
  have htree : (n.atPosition st).world.tree = n.world.tree.insert
      MetadataManager.appliedRecord.key (AppliedState.codec.encode st) := rfl
  rw [Synced, htree, Record.recovered, hp]
  rfl

theorem synced_foldl_afterEntry : ∀ (es : List Entry) {n : SurrealStorage},
    Synced n → Synced (es.foldl afterEntry n)
  | [], _, h => h
  | e :: es, n, _ =>
      synced_foldl_afterEntry es (synced_atPosition (n.afterPayload e) ⟨e.index, e.term⟩)

theorem Fresh.synced {n : SurrealStorage} (h : Fresh n) : Synced n := by
  obtain ⟨w, ex, htree, rfl⟩ := h.eq
  have hrec := recovered_empty MetadataManager.appliedRecord AppliedState.new
  rw [← htree] at hrec
  exact hrec

/-- Whether the entry is a membership. -/
def IsMembership (e : Entry) : Prop := ∃ m, e.payload = .membership m

theorem lastMembership_afterEntry_of_not {n : SurrealStorage} {e : Entry}
    (h : ¬ IsMembership e) : (n.afterEntry e).lastMembership = n.lastMembership := by
  rcases e with ⟨id, p⟩
  cases p with
  | normal req => rfl
  | blank => rfl
  | membership m => exact absurd ⟨m, rfl⟩ h

theorem lastMembership_afterEntry_of {n : SurrealStorage} {e : Entry} (h : IsMembership e) :
    (n.afterEntry e).lastMembership.logId = some e.logId := by
  rcases e with ⟨id, p⟩
  obtain ⟨m, hm⟩ := h
  cases hm
  rfl

/-- The membership has a log id once one was applied, and is unchanged before. -/
theorem lastMembership_foldl_afterEntry : ∀ (es : List Entry) (n : SurrealStorage),
    ((∀ e ∈ es, ¬ IsMembership e) → (es.foldl afterEntry n).lastMembership = n.lastMembership) ∧
      ((∃ e ∈ es, IsMembership e) ∨ n.lastMembership.logId ≠ none →
        (es.foldl afterEntry n).lastMembership.logId ≠ none)
  | [], n => ⟨fun _ => rfl, fun h => h.resolve_left (by simp)⟩
  | e :: es, n => by
      obtain ⟨hkeep, hset⟩ := lastMembership_foldl_afterEntry es (n.afterEntry e)
      constructor
      · intro h
        rw [List.foldl_cons, hkeep fun e' he' => h e' (List.mem_cons_of_mem e he')]
        exact lastMembership_afterEntry_of_not (h e (List.mem_cons_self ..))
      · intro h
        refine hset ?_
        by_cases he : IsMembership e
        · right
          rw [lastMembership_afterEntry_of he]
          exact Option.some_ne_none _
        · rw [lastMembership_afterEntry_of_not he]
          refine h.imp_left ?_
          rintro ⟨e', he', hm⟩
          rcases List.mem_cons.mp he' with rfl | he'
          · exact absurd hm he
          · exact ⟨e', he', hm⟩

/-! ## Restarting the state machine -/

/-- The log id that `appliedState` reports. -/
def appliedLogId (n : SurrealStorage) : Option LogId :=
  if n.metadata.appliedState.lastAppliedIndex = 0 then none
  else some ⟨n.metadata.appliedState.lastAppliedTerm, n.metadata.appliedState.lastAppliedIndex⟩

theorem appliedState_run (n : SurrealStorage) :
    appliedState n = (.ok (n.appliedLogId, n.lastMembership), n) := rfl

/-- The entries up to a log id. -/
def upTo (id : Option LogId) (es : List Entry) : List Entry :=
  match id with
  | some id => es.filter fun e => e.index ≤ id.index
  | none => []

/-- A reopened store reports the applied log id of the store before. -/
theorem appliedLogId_opened {n : SurrealStorage} (h : Synced n) (fs : List (Option String)) :
    (opened n.world fs).appliedLogId = n.appliedLogId := by
  have hst : (opened n.world fs).metadata.appliedState = n.metadata.appliedState := h
  rw [appliedLogId, appliedLogId, hst]

/-- A restart after a run of `apply` is invisible exactly when no membership was applied and every
key that was set up to the applied log id was deleted again. -/
theorem restart_keeps_state_machine_iff {n₀ n₁ n₂ : SurrealStorage} (bs : List (List Entry))
    (h₀ : Fresh n₀) (hrun : applyBatches bs n₀ = (.ok (), n₁)) (hopen : new n₁.world = .ok n₂) :
    ((appliedState n₂).1 = (appliedState n₁).1 ∧
      ∀ k, (read k n₂).1 = .ok (replay ∅ (updates (upTo n₁.appliedLogId bs.flatten)))[k]?) ↔
    (∀ e ∈ bs.flatten, ¬ IsMembership e) ∧
      PutsDeleted (updates (upTo n₁.appliedLogId bs.flatten)) := by
  obtain ⟨fs, rfl⟩ := applyBatches_ok hrun
  obtain ⟨gs, rfl⟩ := new_ok hopen
  have hsync : Synced ((bs.flatten.foldl afterEntry n₀).withFaults fs) :=
    synced_foldl_afterEntry bs.flatten h₀.synced
  obtain ⟨hkeep, hset⟩ := lastMembership_foldl_afterEntry bs.flatten n₀
  have hinit : n₀.lastMembership = defaultStoredMembership := by
    obtain ⟨w, ex, -, rfl⟩ := h₀.eq
    rfl
  refine and_congr ?_ ?_
  · rw [appliedState_run, appliedState_run, appliedLogId_opened hsync]
    constructor
    · intro h e he hm
      refine hset (Or.inl ⟨e, he, hm⟩) ?_
      have hmem := (Prod.mk.inj (Except.ok.inj h)).2
      exact congrArg StoredMembership.logId hmem.symm
    · intro h
      have hmem : ((bs.flatten.foldl afterEntry n₀).withFaults fs).lastMembership =
          defaultStoredMembership := (hkeep h).trans hinit
      rw [hmem]
      rfl
  · have hread : ∀ k : String, (read k (opened ((bs.flatten.foldl afterEntry n₀).withFaults
        fs).world gs)).1 = .ok none := fun k => congrArg Except.ok Std.ExtTreeMap.getElem?_empty
    simp only [hread, Except.ok.injEq]
    rw [← replay_empty_eq_empty_iff]
    exact forall_congr' fun k => eq_comm

/-- A key that is set and then deleted. -/
def setThenDeleted : List (List Entry) :=
  [[.put 1 1 "k" [7]], [⟨⟨1, 2⟩, .normal (.delete "k")⟩]]

/-- The two requests survive a restart. -/
theorem restart_keeps_state_machine_deleted :
    ∃ n₁ n₂, applyBatches setThenDeleted (fresh []) = (.ok (), n₁) ∧ new n₁.world = .ok n₂ ∧
      n₁.appliedLogId = some ⟨1, 2⟩ ∧ (appliedState n₂).1 = (appliedState n₁).1 ∧
      ∀ k, (read k n₂).1 =
        .ok (replay ∅ (updates (upTo n₁.appliedLogId setThenDeleted.flatten)))[k]? := by
  refine ⟨_, _, rfl, rfl, rfl, (restart_keeps_state_machine_iff setThenDeleted (fresh_fresh [])
    rfl rfl).mpr ⟨?_, ?_⟩⟩
  · rintro e he ⟨m, hm⟩
    simp only [setThenDeleted, List.flatten_cons, List.flatten_nil, List.append_nil,
      List.cons_append, List.nil_append, List.mem_cons, List.not_mem_nil, or_false] at he
    rcases he with rfl | rfl
    · cases hm
    · cases hm
  · exact ⟨List.mem_singleton_self _, trivial⟩

/-- A key that was applied is gone after a restart, under the same applied log id. -/
theorem restart_loses_key :
    ∃ n₁ n₂, applyBatches [[.put 1 1 "k" [7]]] (fresh []) = (.ok (), n₁) ∧ new n₁.world = .ok n₂ ∧
      (appliedState n₂).1 = .ok (some ⟨1, 1⟩, defaultStoredMembership) ∧
      (read "k" n₂).1 = .ok none ∧
      (replay ∅ (updates (upTo (some ⟨1, 1⟩) [.put 1 1 "k" [7]])))["k"]? = some [7] :=
  ⟨_, _, rfl, rfl, rfl, rfl, by decide⟩

/-! ## Restarting the log -/

/-- A call of the log storage. -/
inductive LogCall where
  | append (es : List Entry)
  | truncateAfter (l : Option LogId)
  | purge (id : LogId)

def LogCall.perform : LogCall → Op Unit
  | .append es => SurrealStorage.append es
  | .truncateAfter l => SurrealStorage.truncateAfter l
  | .purge id => SurrealStorage.purge id

/-- Calls made one after another. -/
def performAll : List LogCall → Op Unit
  | [] => pure ()
  | c :: cs => do
      c.perform
      performAll cs

/-- Some later truncation removes the index. -/
def CutIn (cs : List LogCall) (i : UInt64) : Prop := ∃ l, .truncateAfter l ∈ cs ∧ cuts l i

/-- Nothing is purged and every appended entry is truncated later on. -/
def AllCut : List LogCall → Prop
  | [] => True
  | .append es :: cs => (∀ e ∈ es, CutIn cs e.index) ∧ AllCut cs
  | .truncateAfter _ :: cs => AllCut cs
  | .purge _ :: _ => False

theorem cutIn_cons {c : LogCall} {cs : List LogCall} {i : UInt64} :
    CutIn (c :: cs) i ↔ (∃ l, c = .truncateAfter l ∧ cuts l i) ∨ CutIn cs i := by
  unfold CutIn
  constructor
  · rintro ⟨l, hl, hc⟩
    rcases List.mem_cons.mp hl with heq | hl
    · exact Or.inl ⟨l, heq.symm, hc⟩
    · exact Or.inr ⟨l, hl, hc⟩
  · rintro (⟨l, rfl, hc⟩ | ⟨l, hl, hc⟩)
    · exact ⟨l, List.mem_cons_self .., hc⟩
    · exact ⟨l, List.mem_cons_of_mem c hl, hc⟩

/-- Appending a batch adds its indices to the log. -/
theorem mem_raftEntries_foldl_afterAppend : ∀ (es : List Entry) (n : SurrealStorage) (i : UInt64),
    (es.foldl afterAppend n).raftEntries[i]? ≠ none ↔
      n.raftEntries[i]? ≠ none ∨ ∃ e ∈ es, e.index = i
  | [], n, i => by simp
  | e :: es, n, i => by
      rw [List.foldl_cons, mem_raftEntries_foldl_afterAppend es, raftEntries_afterAppend,
        OrdMap.get_insert]
      by_cases hi : e.index = i
      · simp [hi]
      · simp [hi]

theorem lastPurgedLogId_foldl_afterAppend : ∀ (es : List Entry) (n : SurrealStorage),
    (es.foldl afterAppend n).lastPurgedLogId = n.lastPurgedLogId
  | [], _ => rfl
  | e :: es, n => by
      rw [List.foldl_cons, lastPurgedLogId_foldl_afterAppend es, lastPurgedLogId_afterAppend]

/-- Truncating removes the indices that it cuts. -/
theorem mem_raftEntries_truncateAfter (l : Option LogId) (n : SurrealStorage) (i : UInt64) :
    (truncateAfter l n).2.raftEntries[i]? ≠ none ↔ n.raftEntries[i]? ≠ none ∧ ¬ cuts l i := by
  simp only [Option.ne_none_iff_exists', raftEntries_truncateAfter, exists_and_right]

/-- After successful calls the log is empty and nothing is purged exactly when the calls cut all
they append, the log before is cut too, and nothing was purged before. -/
theorem performAll_clear_iff : ∀ {cs : List LogCall} {n n' : SurrealStorage} {u : Unit},
    performAll cs n = (.ok u, n') →
      (((∀ i : UInt64, n'.raftEntries[i]? = none) ∧ n'.lastPurgedLogId = none) ↔
        AllCut cs ∧ n.lastPurgedLogId = none ∧
          ∀ i : UInt64, n.raftEntries[i]? ≠ none → CutIn cs i)
  | [], n, n', _, h => by
      cases h
      simp [AllCut, CutIn, and_comm]
  | .append es :: cs, n, n', _, h => by
      obtain ⟨_, n₁, hone, hrest⟩ := Eff.bind_eq_ok_iff.mp h
      obtain ⟨-, fs, rfl⟩ := append_ok hone
      have hpurged : ((es.foldl afterAppend n).withFaults fs).lastPurgedLogId = n.lastPurgedLogId :=
        lastPurgedLogId_foldl_afterAppend es n
      have hmem : ∀ i : UInt64, ((es.foldl afterAppend n).withFaults fs).raftEntries[i]? ≠ none ↔
          n.raftEntries[i]? ≠ none ∨ ∃ e ∈ es, e.index = i :=
        mem_raftEntries_foldl_afterAppend es n
      rw [performAll_clear_iff hrest, hpurged, AllCut]
      simp only [hmem, cutIn_cons, reduceCtorEq, false_and, exists_false, false_or]
      constructor
      · rintro ⟨hcut, hp, hall⟩
        exact ⟨⟨fun e he => hall e.index (Or.inr ⟨e, he, rfl⟩), hcut⟩, hp,
          fun i hi => hall i (Or.inl hi)⟩
      · rintro ⟨⟨hes, hcut⟩, hp, hall⟩
        refine ⟨hcut, hp, ?_⟩
        rintro i (hi | ⟨e, he, rfl⟩)
        · exact hall i hi
        · exact hes e he
  | .truncateAfter l :: cs, n, n', _, h => by
      obtain ⟨_, n₁, hone, hrest⟩ := Eff.bind_eq_ok_iff.mp h
      have hn₁ : n₁ = (truncateAfter l n).2 := (congrArg Prod.snd hone).symm
      subst hn₁
      have hpurged : (truncateAfter l n).2.lastPurgedLogId = n.lastPurgedLogId := rfl
      rw [performAll_clear_iff hrest, hpurged, AllCut]
      simp only [mem_raftEntries_truncateAfter, cutIn_cons, LogCall.truncateAfter.injEq,
        exists_eq_left']
      refine and_congr_right fun _ => and_congr_right fun _ => forall_congr' fun i => ?_
      by_cases hc : cuts l i
      · simp [hc]
      · simp [hc]
  | .purge id :: cs, n, n', _, h => by
      obtain ⟨_, n₁, hone, hrest⟩ := Eff.bind_eq_ok_iff.mp h
      have hn₁ : n₁ = (purge id n).2 := (congrArg Prod.snd hone).symm
      subst hn₁
      have hpurged : (purge id n).2.lastPurgedLogId = some id := rfl
      rw [performAll_clear_iff hrest, hpurged, AllCut]
      simp

theorem readLogEntries_of_empty {n : SurrealStorage} (h : n.raftEntries = ∅) (lo hi : Bound) :
    (readLogEntries lo hi n).1 = .ok [] := by
  unfold readLogEntries
  split
  · rfl
  · rw [Eff.gets_run, h]
    rfl

/-- Reading the whole log finds every entry. -/
theorem raftEntries_eq_empty_of_read {n : SurrealStorage}
    (h : (readLogEntries .unbounded .unbounded n).1 = .ok []) (i : UInt64) :
    n.raftEntries[i]? = none := by
  have hrange : (OrdMap.range n.raftEntries 0 u64Max).map Prod.snd = [] := Except.ok.inj h
  rw [List.map_eq_nil_iff] at hrange
  cases hi : n.raftEntries[i]? with
  | none => rfl
  | some e =>
      have hmem : (i, e) ∈ OrdMap.range n.raftEntries 0 u64Max := by
        refine OrdMap.mem_range.mpr ⟨hi, UInt64.le_iff_toNat_le.mpr (Nat.zero_le _), ?_⟩
        exact UInt64.le_iff_toNat_le.mpr (Nat.le_of_lt_succ i.toNat_lt)
      rw [hrange] at hmem
      cases hmem

/-- A restart after a run of log calls is invisible exactly when the calls purge nothing and
truncate every entry they append. -/
theorem restart_keeps_log_iff {n₀ n₁ n₂ : SurrealStorage} (cs : List LogCall) (h₀ : Fresh n₀)
    (hrun : performAll cs n₀ = (.ok (), n₁)) (hopen : new n₁.world = .ok n₂) :
    ((getLogState n₂).1 = (getLogState n₁).1 ∧
      ∀ lo hi, (readLogEntries lo hi n₂).1 = (readLogEntries lo hi n₁).1) ↔ AllCut cs := by
  obtain ⟨gs, rfl⟩ := new_ok hopen
  have hclear := performAll_clear_iff hrun
  obtain ⟨w, ex, -, rfl⟩ := h₀.eq
  have hinit : ∀ i : UInt64, (∅ : OrdMap UInt64 Entry)[i]? = none :=
    fun i => Std.ExtTreeMap.getElem?_empty
  simp only [hinit, ne_eq, not_true_eq_false, false_imp_iff, implies_true, and_true] at hclear
  rw [← hclear]
  constructor
  · rintro ⟨hstate, hread⟩
    refine ⟨?_, ?_⟩
    · refine raftEntries_eq_empty_of_read ?_
      rw [← hread]
      exact readLogEntries_of_empty rfl .unbounded .unbounded
    · exact (congrArg LogState.lastPurgedLogId (Except.ok.inj hstate)).symm
  · rintro ⟨hentries, hpurged⟩
    have hempty : n₁.raftEntries = ∅ :=
      Std.ExtTreeMap.ext_getElem? fun i => (hentries i).trans (hinit i).symm
    refine ⟨?_, fun lo hi => ?_⟩
    · rw [getLogState, Eff.gets_run, Eff.gets_run, lastLogId, lastLogId, hempty, hpurged]
      rfl
    · rw [readLogEntries_of_empty hempty, readLogEntries_of_empty rfl]

/-- An entry that was appended and truncated leaves nothing for a restart to lose. -/
theorem restart_keeps_log_truncated :
    (getLogState (opened (performAll [.append [.put 1 1 "k" [7]], .truncateAfter none]
        (fresh [])).2.world [])).1 =
      (getLogState (performAll [.append [.put 1 1 "k" [7]], .truncateAfter none] (fresh [])).2).1 ∧
    ∀ lo hi, (readLogEntries lo hi (opened (performAll [.append [.put 1 1 "k" [7]],
        .truncateAfter none] (fresh [])).2.world [])).1 =
      (readLogEntries lo hi (performAll [.append [.put 1 1 "k" [7]], .truncateAfter none]
        (fresh [])).2).1 := by
  refine (restart_keeps_log_iff [.append [.put 1 1 "k" [7]], .truncateAfter none]
    (fresh_fresh []) rfl rfl).mpr ⟨?_, trivial⟩
  intro e _
  exact ⟨none, List.mem_singleton.mpr rfl, trivial⟩

/-- An appended entry is gone after a restart. -/
theorem restart_loses_log :
    ∃ n₁ n₂, performAll [.append [.put 1 1 "k" [7]]] (fresh []) = (.ok (), n₁) ∧
      new n₁.world = .ok n₂ ∧
      (getLogState n₁).1 = .ok ⟨none, some ⟨1, 1⟩⟩ ∧ (getLogState n₂).1 = .ok ⟨none, none⟩ ∧
      (readLogEntries .unbounded .unbounded n₁).1 = .ok [.put 1 1 "k" [7]] ∧
      (readLogEntries .unbounded .unbounded n₂).1 = .ok [] :=
  ⟨_, _, rfl, rfl, rfl, rfl, rfl, rfl⟩

end SurrealStorage

end OpenraftSurrealkv
