import OpenraftSurrealkv.Effects.Sharing
import OpenraftSurrealkv.Lib.Beside
import OpenraftSurrealkv.Properties.Chain
import OpenraftSurrealkv.Properties.Restart

/-!
# A build beside applies

One `buildSnapshot`, one atomic step at a time, while entries are applied in
between.  The build reads the term, the index, the logs and the membership one
after another, so what it returns need not describe one point of the log
(`SurrealStorage.snapshot_mixes_points`).

It does so when the term does not change between the first two reads, something
has been applied before the second, and no membership is applied between the
second and the last (`SurrealStorage.snapshot_describes_one_point`).
-/

namespace OpenraftSurrealkv

namespace SurrealStorage

/-! ## What a store remembers -/

/-- The membership after an entry. -/
def membershipStep (membership : StoredMembership) (e : Entry) : StoredMembership :=
  match e.payload with
  | .membership m => ⟨some e.logId, m⟩
  | .blank => membership
  | .normal _ => membership

/-- The last membership of entries that were applied to a fresh store. -/
def membershipAfter (es : List Entry) : StoredMembership :=
  es.foldl membershipStep defaultStoredMembership

theorem membershipAfter_append (es fs : List Entry) :
    membershipAfter (es ++ fs) = fs.foldl membershipStep (membershipAfter es) :=
  List.foldl_append

theorem membershipStep_of_not {e : Entry} (h : ¬ IsMembership e) (membership : StoredMembership) :
    membershipStep membership e = membership := by
  rcases e with ⟨id, p⟩
  cases p with
  | normal req => rfl
  | blank => rfl
  | membership m => exact absurd ⟨m, rfl⟩ h

theorem lastMembership_afterEntry (n : SurrealStorage) (e : Entry) :
    (n.afterEntry e).lastMembership = membershipStep n.lastMembership e := by
  rcases e with ⟨id, p⟩
  cases p <;> rfl

theorem lastMembership_foldl (es : List Entry) (n : SurrealStorage) :
    (es.foldl afterEntry n).lastMembership = es.foldl membershipStep n.lastMembership := by
  induction es generalizing n with
  | nil => rfl
  | cons e es ih => rw [List.foldl_cons, ih, lastMembership_afterEntry, List.foldl_cons]

/-- The store is what applying the entries to a fresh one leaves, the membership included. -/
structure Remembers (applied : List Entry) (n : SurrealStorage) : Prop where
  tracks : Tracks n applied
  membership : n.lastMembership = membershipAfter applied

theorem Remembers.of_data {n n' : SurrealStorage} {applied : List Entry}
    {current : Option Snapshot} (h : Remembers applied n)
    (hdata : n'.data = { n.data with currentSnapshot := current }) : Remembers applied n' where
  tracks := h.tracks.of_data hdata
  membership := by
    have hsame : n'.lastMembership = n.lastMembership := congrArg Data.lastMembership hdata
    rw [hsame, h.membership]

theorem Remembers.of_sys {α : Type} {x : Sys α} {n n' : SurrealStorage} {applied : List Entry}
    {r : Except RaftError α} (h : Remembers applied n) (hx : sys x n = (r, n')) :
    Remembers applied n' := by
  obtain rfl := (Prod.mk.inj hx).2
  exact h.of_data rfl

/-- Every run of applies, builds and merges on a fresh store is remembered. -/
theorem Remembers.run {ar : Archiver} {cond : SurrealStorage → Prop} {n₀ : SurrealStorage}
    {s : ChainRun} (h₀ : Fresh n₀)
    (hrun : Relation.ReflTransGen (ChainStep ar cond) (.start n₀) s) :
    Remembers s.applied s.store := by
  refine ⟨(ChainInv.run h₀ hrun).tracks, ?_⟩
  induction hrun with
  | refl =>
      obtain ⟨w, ex, _, rfl⟩ := h₀.eq
      rfl
  | @tail s _ _ hstep ih =>
      cases hstep with
      | apply es _ happly =>
          obtain ⟨_, fs, rfl⟩ := apply_ok happly
          show (es.foldl afterEntry _).lastMembership = membershipAfter (_ ++ es)
          rw [lastMembership_foldl, ih, membershipAfter_append]
      | build term _ hbuild =>
          have hdata := (keeps_data_buildSnapshotAuto ar term).of_run hbuild
          exact (congrArg Data.lastMembership hdata).trans ih
      | merge => exact ih

theorem Remembers.applyEntry {n n' : SurrealStorage} {applied : List Entry} {e : Entry}
    {r : KVResponse} (h : Remembers applied n) (hinc : Increasing (applied ++ [e]))
    (happly : SurrealStorage.applyEntry e n = (.ok r, n')) : Remembers (applied ++ [e]) n' := by
  obtain ⟨hfit, fs, rfl⟩ := applyEntry_ok happly
  refine ⟨(h.tracks.afterEntry hinc hfit).of_data rfl, ?_⟩
  show (n.afterEntry e).lastMembership = _
  rw [lastMembership_afterEntry, h.membership, membershipAfter_append]
  rfl

/-! ## Runs -/

/-- How far the build has come. -/
inductive Moment where
  | started
  | termRead
  | indexRead
  | membershipRead
deriving DecidableEq, Repr

/-- The moment after a step of the build. -/
def Moment.after : Moment → Phase → Moment
  | .started, .readApplied => .termRead
  | .termRead, .readApplied => .indexRead
  | .indexRead, .readMembership => .membershipRead
  | m, _ => m

/-- Entries are applied beside the build, in the order of their indices.  `allowed` says which, and
`may` which steps the build makes. -/
def besideApply (allowed : Moment → List Entry → Entry → Prop)
    (may : Moment → Phase → List Entry → SurrealStorage → Prop) :
    Beside.Rules Phase SurrealStorage (List Entry) Moment where
  after := Moment.after
  move m es n es' n' := ∃ e r, es' = es ++ [e] ∧ Increasing es' ∧
    applyEntry e n = (.ok r, n') ∧ allowed m es e
  may := may

/-- A build beside applies. -/
abbrev BuildRun : Type 1 :=
  Beside.Config Phase SurrealStorage RaftError Snapshot (List Entry) Moment

/-- A build on a store, before its first step. -/
def BuildRun.start (ar : Archiver) (s : ChainRun) : BuildRun :=
  ⟨buildSnapshotSteps ar, .started, s.applied, s.store⟩

/-- Between the first two reads the term stays, and between the second and the last no membership
is applied. -/
def SteadyApply (m : Moment) (es : List Entry) (e : Entry) : Prop :=
  (m = .termRead → e.term = (positionAfter es).lastAppliedTerm) ∧
    (m = .indexRead → ¬ IsMembership e)

/-- Something is applied before the index is read, and a delta can start beyond the checkpoint. -/
def SteadyStep (m : Moment) (label : Phase) (es : List Entry) (n : SurrealStorage) : Prop :=
  (m = .termRead → label = .readApplied → es ≠ []) ∧
    (m = .indexRead → label = .readSnapshot → StartsBeyond n)

/-- The applied entries with a request and an index after `base` and up to `stop`. -/
def requestsAbove (base stop : UInt64) (es : List Entry) : List Entry :=
  (es.filter fun e => decide (base < e.index) && decide (e.index ≤ stop)).filter Entry.isNormal

/-- The snapshot describes the log up to one applied entry: it has the log id of the entry, the
last membership applied up to it and, if it is a delta, the requests above its base up to it. -/
def OnePoint (ar : Archiver) (applied : List Entry) (snap : Snapshot) : Prop :=
  ∃ e ∈ applied, snap.snapshotMeta.lastLogId = some e.logId ∧
    snap.snapshotMeta.lastMembership = membershipAfter (between 0 e.index applied) ∧
    ∀ metadata entries,
      decodeSnapshotPayload ar snap.snapshot = .ok (some (.delta metadata entries)) →
      ∃ base count, metadata.format = .delta base count ∧
        List.Forall₂ Carries (requestsAbove base e.index applied) entries

/-- The build returns the snapshot in a run of a fresh store: applies, builds and merges one after
another, and then the build beside applies. -/
def Returns (allowed : Moment → List Entry → Entry → Prop)
    (may : Moment → Phase → List Entry → SurrealStorage → Prop) (ar : Archiver)
    (applied : List Entry) (snap : Snapshot) : Prop :=
  ∃ n₀ s c, Fresh n₀ ∧ Relation.ReflTransGen (ChainStep ar fun _ => True) (.start n₀) s ∧
    Relation.ReflTransGen (Beside.Config.Step (besideApply allowed may)) (BuildRun.start ar s) c ∧
    c.rest = .done (.ok snap) ∧ c.history = applied

/-! ## What the build can rely on -/

/-- What the build can rely on. -/
def SteadyGrowth (m : Moment) (es es' : List Entry) : Prop :=
  ∃ e, es' = es ++ [e] ∧ Increasing es' ∧ SteadyApply m es e

section

variable {m : Moment} {es es' : List Entry}

theorem isPrefix_of_growth (h : Relation.ReflTransGen (SteadyGrowth m) es es') :
    es <+: es' ∧ (Increasing es → Increasing es') := by
  induction h with
  | refl => exact ⟨List.prefix_rfl, id⟩
  | tail _ hstep ih =>
      obtain ⟨e, rfl, hinc, _⟩ := hstep
      exact ⟨ih.1.trans (List.prefix_append _ _), fun _ => hinc⟩

theorem term_of_growth (h : Relation.ReflTransGen (SteadyGrowth .termRead) es es') :
    (positionAfter es').lastAppliedTerm = (positionAfter es).lastAppliedTerm := by
  induction h with
  | refl => rfl
  | tail _ hstep ih =>
      obtain ⟨e, rfl, _, hterm⟩ := hstep
      rw [positionAfter_concat, ← ih]
      exact hterm.1 rfl

theorem membership_of_growth (h : Relation.ReflTransGen (SteadyGrowth .indexRead) es es') :
    membershipAfter es' = membershipAfter es := by
  induction h with
  | refl => rfl
  | tail _ hstep ih =>
      obtain ⟨e, rfl, _, hnot⟩ := hstep
      rw [membershipAfter_append, ← ih]
      exact membershipStep_of_not (hnot.2 rfl) _

/-- Entries applied later are not in a range that ends at the position. -/
theorem between_of_isPrefix (lo : UInt64) (hpre : es <+: es') (hinc : Increasing es')
    (hne : es ≠ []) :
    between lo (positionAfter es).lastAppliedIndex es' =
      between lo (positionAfter es).lastAppliedIndex es := by
  obtain ⟨fs, rfl⟩ := hpre
  exact between_extend fun e he => positionAfter_lt hinc hne he

theorem between_zero_positionAfter (hinc : Increasing es) :
    between 0 (positionAfter es).lastAppliedIndex es = es := by
  refine List.filter_eq_self.mpr fun e he => ?_
  simp only [Bool.and_eq_true, decide_eq_true_eq]
  exact ⟨UInt64.zero_le, index_le_positionAfter hinc he⟩

end

/-- Where a delta can start beyond the checkpoint, it has the requests above the checkpoint. -/
theorem requestsAbove_eq {n : SurrealStorage} {es es' : List Entry} {stop : UInt64}
    {c : PersistedCheckpointMetadata} (h : Tracks n es) (hbeyond : StartsBeyond n)
    (hc : n.snapshotState.lastCheckpoint = some c) (hold : ∀ e ∈ es', e.index ≤ stop → e ∈ es) :
    requestsAbove c.checkpointIndex stop es' =
      requestsIn (deltaStart n.snapshotState) stop es' := by
  have hstart : deltaStart n.snapshotState = saturatingAdd c.checkpointIndex 1 := by
    rw [deltaStart, hc]
  rw [requestsAbove, requestsIn, between, List.filter_filter, List.filter_filter, hstart]
  refine List.filter_congr fun e he => Bool.eq_iff_iff.mpr ?_
  simp only [Bool.and_eq_true, decide_eq_true_eq]
  rcases UInt64.lt_or_eq_of_le (le_u64Max c.checkpointIndex) with hlt | hmax
  · rw [saturatingAdd_one_le_iff hlt]
  · rw [hmax, saturatingAdd_u64Max]
    constructor
    · rintro ⟨-, hbelow, -⟩
      exact absurd (le_u64Max _) (UInt64.not_le.mpr hbelow)
    · rintro ⟨hnormal, hlo, hhi⟩
      -- A request at the greatest index would have a record there.
      have hindex : e.index = u64Max := UInt64.le_antisymm (le_u64Max _) hlo
      have hnone := hbeyond c hc hmax
      obtain ⟨req, hreq⟩ := Entry.isNormal_iff.mp hnormal
      rw [← hindex, h.get_raftLogs (hold e he hhi) hreq] at hnone
      cases hnone

/-- The entries of a delta that was cut from the logs of `es₄`, at the position after `es`. -/
theorem carries_of_delta {ar : Archiver} {n₃ n₄ : SurrealStorage} {es es₃ es₄ es' : List Entry}
    {files : OrdMap String Bytes} {metadata : DeltaMetadata} (hne : es ≠ [])
    (hinc : Increasing es') (hpre₃ : es <+: es₃) (hpre₄ : es <+: es₄) (hpre : es <+: es')
    (h₃ : Tracks n₃ es₃) (hbeyond : StartsBeyond n₃) (h₄ : Tracks n₄ es₄)
    (hdelta : IsDelta ar (positionAfter es).lastAppliedIndex n₃.snapshotState
      (deltaOf (between (deltaStart n₃.snapshotState) (positionAfter es).lastAppliedIndex es₄))
      files metadata) :
    ∃ base count, metadata.format = .delta base count ∧
      List.Forall₂ Carries (requestsAbove base (positionAfter es).lastAppliedIndex es')
        (deltaOf (between (deltaStart n₃.snapshotState) (positionAfter es).lastAppliedIndex
          es₄)) := by
  obtain ⟨c, count, hc, hformat⟩ := hdelta.base
  have hold : ∀ e ∈ es', e.index ≤ (positionAfter es).lastAppliedIndex → e ∈ es₃ := by
    intro e he hle
    have hmem : e ∈ between 0 (positionAfter es).lastAppliedIndex es' :=
      mem_between.mpr ⟨he, UInt64.zero_le, hle⟩
    rw [between_of_isPrefix 0 hpre hinc hne] at hmem
    exact hpre₃.subset (mem_between.mp hmem).1
  refine ⟨c.checkpointIndex, count, hformat, ?_⟩
  rw [requestsAbove_eq h₃ hbeyond hc hold, requestsIn, between_of_isPrefix _ hpre hinc hne,
    ← between_of_isPrefix _ hpre₄ h₄.increasing hne]
  exact carries_deltaOf fun e he => h₄.fits e (mem_between.mp he).1

/-- The log id, the membership and the entries of a snapshot at the position after `es`. -/
theorem onePoint_of_parts {ar : Archiver} {es es' : List Entry} {snap : Snapshot}
    (hne : es ≠ []) (hpre : es <+: es') (hinc : Increasing es')
    (hid : snap.snapshotMeta.lastLogId =
      some ⟨(positionAfter es).lastAppliedTerm, (positionAfter es).lastAppliedIndex⟩)
    (hmembership : snap.snapshotMeta.lastMembership = membershipAfter es)
    (hdelta : ∀ metadata entries,
      decodeSnapshotPayload ar snap.snapshot = .ok (some (.delta metadata entries)) →
      ∃ base count, metadata.format = .delta base count ∧
        List.Forall₂ Carries (requestsAbove base (positionAfter es).lastAppliedIndex es')
          entries) : OnePoint ar es' snap := by
  have hpoint := (between_of_isPrefix 0 hpre hinc hne).trans
    (between_zero_positionAfter (hinc.sublist hpre.sublist))
  obtain ⟨front, e, rfl⟩ := (List.eq_nil_or_concat es).resolve_left hne
  rw [List.concat_eq_append] at *
  rw [positionAfter_concat] at hid hdelta hpoint
  refine ⟨e, hpre.subset (List.mem_concat_self ..), hid, ?_, hdelta⟩
  rw [hmembership, hpoint]

/-- The steps of a build keep what the store remembers. -/
theorem Quiet.remembers {label : Phase} {f : SurrealStorage → SurrealStorage}
    (h : Quiet label f) :
    Moment.after .indexRead label = .indexRead ∧
      ∀ es n, Remembers es n → Remembers es (f n) := by
  constructor
  · cases label with
    | readMembership => exact absurd rfl h.membership
    | _ => rfl
  · intro es n hn
    exact hn.of_data (h.data n)

/-! ## The build -/

theorem holds_buildSnapshotSteps (ar : Archiver) (es : List Entry) :
    Beside.Holds (besideApply SteadyApply SteadyStep) Remembers SteadyGrowth
      (fun snap es => OnePoint ar es snap) (buildSnapshotSteps ar) .started es := by
  refine .read_andThen getAppliedState_run fun es₁ n₁ _ h₁ _ => .mapErr_andThen ?_
  rw [buildSnapshotAutoSteps, Steps.andThen_assoc]
  refine .read_andThen getAppliedState_run fun es₂ n₂ hgrowth₂ h₂ hmay₂ => ?_
  rw [Steps.andThen_assoc]
  refine .read_andThen getSnapshotState_run fun es₃ n₃ hgrowth₃ h₃ hmay₃ => ?_
  rw [Steps.andThen_assoc]
  refine .read_andThen (logsSince_run _ _) fun es₄ n₄ hgrowth₄ h₄ _ => ?_
  rw [Steps.andThen_assoc, h₄.tracks.logsSince]
  refine .act_andThen fun es₅ n₅ snapshot n₆ hgrowth₅ h₅ _ hbuild => ⟨h₅.of_sys hbuild, ?_⟩
  obtain ⟨⟨id, hid⟩, d, hdecode, hpayload⟩ :=
    buildSnapshotWithDelta_ok (Prod.ext (Prod.mk.inj hbuild).1 rfl)
  rw [hdecode, Steps.done_andThen, Steps.andThen_assoc]
  refine .quiet_andThen ((quiet_saveBuiltSteps _ _ _).imp fun _ _ h => h.remembers)
    fun _ es₆ hgrowth₆ => ?_
  rw [Steps.andThen_assoc]
  refine .quiet_andThen (quiet_triggerMergeSteps.imp fun _ _ h => h.remembers)
    fun _ es₇ hgrowth₇ => ?_
  rw [Steps.done_andThen]
  refine .read_andThen (fun _ => rfl) fun es₈ n₈ hgrowth₈ h₈ _ => ?_
  refine .act_andThen fun es₉ n₉ _ _ hgrowth₉ h₉ _ hpublish => ⟨?_, fun es' hgrowth => ?_⟩
  · cases hpublish
    exact h₉.of_data rfl
  -- From the second read to the last only entries that are no memberships were applied.
  have hquiet := (((hgrowth₃.trans hgrowth₄).trans hgrowth₅).trans
    (hgrowth₆.trans hgrowth₇)).trans hgrowth₈
  have hpre₃ := (isPrefix_of_growth hgrowth₃).1
  have hpre₄ := (isPrefix_of_growth (hgrowth₃.trans hgrowth₄)).1
  obtain ⟨hlater, hinc⟩ := isPrefix_of_growth (hgrowth₉.trans hgrowth)
  have hpre := (isPrefix_of_growth hquiet).1.trans hlater
  have hne : es₂ ≠ [] := hmay₂.1 rfl rfl
  rw [h₂.tracks.position] at hid hpayload
  rw [h₁.tracks.position, ← term_of_growth hgrowth₂] at hid
  refine onePoint_of_parts hne hpre (hinc h₈.tracks.increasing) ?_ ?_ fun metadata entries hd => ?_
  · show snapshot.snapshotMeta.lastLogId = _
    rw [hid]
    rfl
  · show n₈.lastMembership = _
    rw [h₈.membership, membership_of_growth hquiet]
  · obtain rfl : d = .delta metadata entries :=
      Option.some.inj (Except.ok.inj (hdecode.symm.trans hd))
    obtain ⟨rfl, hdelta⟩ := hpayload
    exact carries_of_delta hne (hinc h₈.tracks.increasing) hpre₃ hpre₄ hpre h₃.tracks
      (hmay₃.2 rfl rfl) h₄.tracks hdelta

/-! ## Executable runs -/

/-- Who makes the next step. -/
inductive Turn where
  | build
  | apply (e : Entry)

instance (es : List Entry) : Decidable (Increasing es) :=
  inferInstanceAs (Decidable (es.Pairwise _))

instance (e : Entry) : Decidable (IsMembership e) :=
  match h : e.payload with
  | .membership m => .isTrue ⟨m, h⟩
  | .blank => .isFalse fun ⟨_, hm⟩ => nomatch h.symm.trans hm
  | .normal _ => .isFalse fun ⟨_, hm⟩ => nomatch h.symm.trans hm

instance (n : SurrealStorage) : Decidable (StartsBeyond n) :=
  inferInstanceAs (Decidable (∀ c ∈ n.snapshotState.lastCheckpoint, c.checkpointIndex = u64Max →
    n.raftLogs[u64Max]? = none))

instance (m : Moment) (es : List Entry) (e : Entry) : Decidable (SteadyApply m es e) :=
  inferInstanceAs (Decidable ((_ → _) ∧ (_ → _)))

instance (m : Moment) (label : Phase) (es : List Entry) (n : SurrealStorage) :
    Decidable (SteadyStep m label es n) :=
  inferInstanceAs (Decidable ((_ → _ → _) ∧ (_ → _ → _)))

section

variable (allowed : Moment → List Entry → Entry → Prop)
  (may : Moment → Phase → List Entry → SurrealStorage → Prop)
  [∀ m es e, Decidable (allowed m es e)] [∀ m label es n, Decidable (may m label es n)]

/-- One step of a run, if it succeeds and may be made. -/
def BuildRun.advance : BuildRun → Turn → Option BuildRun
  | ⟨.step label x next, m, es, n⟩, .build =>
      match x n with
      | (.ok b, n') =>
          if may m label es n then some ⟨next b, m.after label, es, n'⟩ else none
      | (.error _, _) => none
  | ⟨.done _, _, _, _⟩, .build => none
  | ⟨rest, m, es, n⟩, .apply e =>
      match applyEntry e n with
      | (.ok _, n') =>
          if Increasing (es ++ [e]) ∧ allowed m es e then some ⟨rest, m, es ++ [e], n'⟩ else none
      | (.error _, _) => none

/-- The steps of a run. -/
def BuildRun.follow : List Turn → BuildRun → Option BuildRun
  | [], c => some c
  | turn :: turns, c => (c.advance allowed may turn).bind (BuildRun.follow turns)

variable {allowed may}

theorem BuildRun.step_of_advance {c d : BuildRun} {turn : Turn}
    (h : c.advance allowed may turn = some d) :
    Beside.Config.Step (besideApply allowed may) c d := by
  unfold BuildRun.advance at h
  split at h
  · split at h
    · next hx =>
        split at h
        · next hmay =>
            cases h
            exact .call (.ok hx) hmay
        · cases h
    · cases h
  · cases h
  · split at h
    · next hx =>
        split at h
        · next hallowed =>
            cases h
            exact .move ⟨_, _, rfl, hallowed.1, hx, hallowed.2⟩
        · cases h
    · cases h

theorem BuildRun.run_of_follow : ∀ {turns : List Turn} {c d : BuildRun},
    c.follow allowed may turns = some d →
      Relation.ReflTransGen (Beside.Config.Step (besideApply allowed may)) c d
  | [], c, d, h => by
      cases h
      exact .refl
  | turn :: turns, c, d, h => by
      obtain ⟨c', hfirst, hrest⟩ := Option.bind_eq_some_iff.mp h
      exact .head (BuildRun.step_of_advance hfirst) (BuildRun.run_of_follow hrest)

end

/-- The build makes some steps in a row. -/
def builds (k : Nat) : List Turn := List.replicate k .build

/-- An entry with which a second node joins. -/
def joined (term index : UInt64) : Entry :=
  ⟨⟨term, index⟩, .membership ⟨[[1, 2]], [(1, ⟨""⟩), (2, ⟨""⟩)]⟩⟩

/-- Entries, a full snapshot of them, and then a build beside applies. -/
def returnsWith (allowed : Moment → List Entry → Entry → Prop)
    (may : Moment → Phase → List Entry → SurrealStorage → Prop)
    [∀ m es e, Decidable (allowed m es e)] [∀ m label es n, Decidable (may m label es n)]
    (es : List Entry) (turns : List Turn) (good : List Entry → Snapshot → Bool) : Bool :=
  (apply es).succeeds (fresh []) fun _ n₁ =>
  (buildSnapshotAuto .stored 1).succeeds n₁ fun _ n₂ =>
  ((BuildRun.start .stored ⟨n₂, es, none⟩).follow allowed may turns).any fun c =>
    match c.rest with
    | .done (.ok snap) => good c.history snap
    | _ => false

theorem exists_of_returnsWith {allowed : Moment → List Entry → Entry → Prop}
    {may : Moment → Phase → List Entry → SurrealStorage → Prop}
    [∀ m es e, Decidable (allowed m es e)] [∀ m label es n, Decidable (may m label es n)]
    {es : List Entry} {turns : List Turn} {good : List Entry → Snapshot → Bool}
    (hinc : Increasing es) (h : returnsWith allowed may es turns good = true) :
    ∃ applied snap, Returns allowed may .stored applied snap ∧ good applied snap = true := by
  obtain ⟨_, n₁, h₁, h⟩ := Eff.exists_of_succeeds h
  obtain ⟨first, n₂, h₂, h⟩ := Eff.exists_of_succeeds h
  obtain ⟨c, hfollow, hgood⟩ := (Option.any_eq_true _ _).mp h
  have hone : ChainStep .stored (fun _ => True) (.start (fresh [])) ⟨n₁, es, none⟩ :=
    .apply es hinc h₁
  have htwo : ChainStep .stored (fun _ => True) ⟨n₁, es, none⟩
      ⟨n₂, es, builtIndex none (.ok first)⟩ := .build 1 trivial h₂
  split at hgood
  · next snap hrest =>
      exact ⟨c.history, snap, ⟨fresh [], _, c, fresh_fresh [],
        (Relation.ReflTransGen.single hone).tail htwo, BuildRun.run_of_follow hfollow, hrest, rfl⟩,
        hgood⟩
  · cases hgood

/-- No applied entry has the log id of the snapshot and its membership as the last one up to it. -/
def mixed (applied : List Entry) (snap : Snapshot) : Bool :=
  applied.all fun e => decide (snap.snapshotMeta.lastLogId = some e.logId →
    snap.snapshotMeta.lastMembership ≠ membershipAfter (between 0 e.index applied))

theorem not_onePoint_of_mixed {ar : Archiver} {applied : List Entry} {snap : Snapshot}
    (h : mixed applied snap = true) : ¬ OnePoint ar applied snap := by
  rintro ⟨e, he, hid, hmembership, _⟩
  exact of_decide_eq_true (List.all_eq_true.mp h e he) hid hmembership

/-- The snapshot is a delta on the greatest index, and has entries. -/
def beyondMax (ar : Archiver) (snap : Snapshot) : Bool :=
  match decodeSnapshotPayload ar snap.snapshot with
  | .ok (some (.delta metadata (_ :: _))) => decide (metadata.format = .delta u64Max 1)
  | _ => false

theorem not_onePoint_of_beyondMax {ar : Archiver} {applied : List Entry} {snap : Snapshot}
    (h : beyondMax ar snap = true) : ¬ OnePoint ar applied snap := by
  rintro ⟨e, _, _, _, hdelta⟩
  unfold beyondMax at h
  split at h
  · next metadata d ds hdecode =>
      obtain ⟨base, count, hformat, hcarries⟩ := hdelta _ _ hdecode
      rw [of_decide_eq_true h] at hformat
      cases hformat
      have hnil : requestsAbove u64Max e.index applied = [] := by
        refine List.eq_nil_iff_forall_not_mem.mpr fun e' he' => ?_
        simp only [requestsAbove, List.mem_filter, Bool.and_eq_true, decide_eq_true_eq] at he'
        exact UInt64.not_le.mpr he'.1.2.1 (le_u64Max _)
      rw [hnil] at hcarries
      cases hcarries
  · cases h

/-! ## One point of the log -/

/-- In every run in which the term stays between the first two reads, something is applied before
the second, no membership is applied between the second and the last, and a delta can start beyond
the checkpoint, the snapshot describes one point of the log. -/
theorem snapshot_describes_one_point {ar : Archiver} {applied : List Entry} {snap : Snapshot}
    (h : Returns SteadyApply SteadyStep ar applied snap) : OnePoint ar applied snap := by
  obtain ⟨n₀, s, c, hfresh, hbefore, hrun, hdone, rfl⟩ := h
  have henv : ∀ m es n es' n', (besideApply SteadyApply SteadyStep).move m es n es' n' →
      Remembers es n → Remembers es' n' ∧ SteadyGrowth m es es' := by
    rintro m es n es' n' ⟨e, r, rfl, hinc, happly, hsteady⟩ h
    exact ⟨h.applyEntry hinc happly, e, rfl, hinc, hsteady⟩
  obtain ⟨_, hholds⟩ := (holds_buildSnapshotSteps ar s.applied).run henv hrun
    (Remembers.run hfresh hbefore)
  rw [hdone] at hholds
  exact hholds c.history .refl

/-- A membership is applied between the first two reads, a request of the next term after the
second, and a membership after the last. -/
theorem snapshot_describes_one_point_delta : ∃ applied snap,
    Returns SteadyApply SteadyStep .stored applied snap ∧ applied.length = 5 ∧
      snap.snapshotMeta.lastLogId = some ⟨1, 3⟩ ∧ OnePoint .stored applied snap := by
  have htest : returnsWith SteadyApply SteadyStep [.put 1 1 "a" [1]]
      ([.apply (.put 1 2 "b" [2]), .build, .apply (joined 1 3), .build,
        .apply (.put 2 4 "c" [3])] ++ builds 6 ++ [.apply (joined 2 5), .build])
      (fun applied snap => decide (applied.length = 5) &&
        decide (snap.snapshotMeta.lastLogId = some ⟨1, 3⟩)) = true := by
    decide +kernel
  obtain ⟨applied, snap, hreturns, hgood⟩ :=
    exists_of_returnsWith (List.pairwise_singleton _ _) htest
  simp only [Bool.and_eq_true, decide_eq_true_eq] at hgood
  exact ⟨applied, snap, hreturns, hgood.1, hgood.2, snapshot_describes_one_point hreturns⟩

/-- Four runs that return no point of the log.  The term is that of the entry before and the index
that of the entry after; the membership is that of a later entry; nothing is applied; a delta has a
request at its base. -/
theorem snapshot_mixes_points :
    (∃ applied snap, Returns (fun _ _ _ => True) (fun _ _ _ _ => True) .stored applied snap ∧
      applied.map Entry.logId = [⟨1, 1⟩, ⟨2, 2⟩] ∧
      snap.snapshotMeta.lastLogId = some ⟨1, 2⟩ ∧ ¬ OnePoint .stored applied snap) ∧
    (∃ applied snap, Returns (fun _ _ _ => True) (fun _ _ _ _ => True) .stored applied snap ∧
      snap.snapshotMeta.lastLogId = some ⟨1, 1⟩ ∧
      snap.snapshotMeta.lastMembership.logId = some ⟨1, 2⟩ ∧ ¬ OnePoint .stored applied snap) ∧
    (∃ applied snap, Returns (fun _ _ _ => True) (fun _ _ _ _ => True) .stored applied snap ∧
      applied = [] ∧ snap.snapshotMeta.lastLogId = some ⟨0, 0⟩ ∧
      ¬ OnePoint .stored applied snap) ∧
    ∃ applied snap, Returns (fun _ _ _ => True) (fun _ _ _ _ => True) .stored applied snap ∧
      beyondMax .stored snap = true ∧ ¬ OnePoint .stored applied snap := by
  have hterm : returnsWith (fun _ _ _ => True) (fun _ _ _ _ => True) [.put 1 1 "a" [1]]
      ([.build, .apply (.put 2 2 "b" [2])] ++ builds 8) (fun applied snap =>
        decide (applied.map Entry.logId = [⟨1, 1⟩, ⟨2, 2⟩] ∧
          snap.snapshotMeta.lastLogId = some ⟨1, 2⟩) && mixed applied snap) = true := by
    decide +kernel
  have hmembership : returnsWith (fun _ _ _ => True) (fun _ _ _ _ => True) [.put 1 1 "a" [1]]
      (builds 7 ++ [.apply (joined 1 2)] ++ builds 2) (fun applied snap =>
        decide (snap.snapshotMeta.lastLogId = some ⟨1, 1⟩ ∧
          snap.snapshotMeta.lastMembership.logId = some ⟨1, 2⟩) && mixed applied snap) = true := by
    decide +kernel
  have hnothing : returnsWith (fun _ _ _ => True) (fun _ _ _ _ => True) [] (builds 9)
      (fun applied snap => decide (applied = [] ∧
        snap.snapshotMeta.lastLogId = some ⟨0, 0⟩) && mixed applied snap) = true := by
    decide +kernel
  have hmax : returnsWith (fun _ _ _ => True) (fun _ _ _ _ => True) [.put 1 u64Max "k" [7]]
      (builds 9) (fun _ snap => beyondMax .stored snap) = true := by
    decide +kernel
  obtain ⟨es₁, snap₁, hreturns₁, h₁⟩ := exists_of_returnsWith (List.pairwise_singleton _ _) hterm
  obtain ⟨es₂, snap₂, hreturns₂, h₂⟩ :=
    exists_of_returnsWith (List.pairwise_singleton _ _) hmembership
  obtain ⟨es₃, snap₃, hreturns₃, h₃⟩ := exists_of_returnsWith .nil hnothing
  obtain ⟨es₄, snap₄, hreturns₄, h₄⟩ := exists_of_returnsWith (List.pairwise_singleton _ _) hmax
  simp only [Bool.and_eq_true, decide_eq_true_eq] at h₁ h₂ h₃
  exact ⟨⟨es₁, snap₁, hreturns₁, h₁.1.1, h₁.1.2, not_onePoint_of_mixed h₁.2⟩,
    ⟨es₂, snap₂, hreturns₂, h₂.1.1, h₂.1.2, not_onePoint_of_mixed h₂.2⟩,
    ⟨es₃, snap₃, hreturns₃, h₃.1.1, h₃.1.2, not_onePoint_of_mixed h₃.2⟩,
    es₄, snap₄, hreturns₄, h₄, not_onePoint_of_beyondMax h₄⟩

end SurrealStorage

end OpenraftSurrealkv
