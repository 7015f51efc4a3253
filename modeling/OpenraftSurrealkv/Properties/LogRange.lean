import OpenraftSurrealkv.Effects.Open

/-!
# Reading a range of the log

The bounds of a range are turned into a closed range of indices, where the index
before or after an excluded bound is found with saturating arithmetic.  Below an
excluded `0` and above an excluded `u64::MAX` there is no index, and there the
saturated bound is the excluded index itself.  Everywhere else the closed range
has the same indices (`rangeStart_le_iff`, `le_rangeEndInclusive_iff`).
-/

namespace OpenraftSurrealkv

namespace SurrealStorage

/-! ## Ranges -/

/-- The lower bound admits an index. -/
def Bound.IsBelow : Bound → UInt64 → Prop
  | .included v, i => v ≤ i
  | .excluded v, i => v < i
  | .unbounded, _ => True

/-- The upper bound admits an index. -/
def Bound.IsAbove : Bound → UInt64 → Prop
  | .included v, i => i ≤ v
  | .excluded v, i => i < v
  | .unbounded, _ => True

instance (lo : Bound) (i : UInt64) : Decidable (lo.IsBelow i) :=
  match lo with
  | .included v => inferInstanceAs (Decidable (v ≤ i))
  | .excluded v => inferInstanceAs (Decidable (v < i))
  | .unbounded => .isTrue trivial

instance (hi : Bound) (i : UInt64) : Decidable (hi.IsAbove i) :=
  match hi with
  | .included v => inferInstanceAs (Decidable (i ≤ v))
  | .excluded v => inferInstanceAs (Decidable (i < v))
  | .unbounded => .isTrue trivial

theorem lt_u64Max_or_eq (v : UInt64) : v < u64Max ∨ v = u64Max := by
  have h := le_u64Max v
  grind

theorem rangeStart_le_iff (lo : Bound) (i : UInt64) :
    rangeStart lo ≤ i ↔ lo.IsBelow i ∨ lo = .excluded u64Max ∧ i = u64Max := by
  cases lo with
  | included v => simp [rangeStart, Bound.IsBelow]
  | unbounded => simp [rangeStart, Bound.IsBelow]
  | excluded v =>
      rcases lt_u64Max_or_eq v with h | rfl
      · have hne : v ≠ u64Max := by grind
        simp [rangeStart, Bound.IsBelow, saturatingAdd_one_le_iff h, hne]
      · have hmax := le_u64Max i
        simp only [rangeStart, Bound.IsBelow, saturatingAdd_u64Max, true_and]
        grind

theorem le_rangeEndInclusive_iff (hi : Bound) (i : UInt64) :
    i ≤ rangeEndInclusive hi ↔ hi.IsAbove i ∨ hi = .excluded 0 ∧ i = 0 := by
  cases hi with
  | included v => simp [rangeEndInclusive, Bound.IsAbove]
  | unbounded => simp [rangeEndInclusive, Bound.IsAbove, le_u64Max]
  | excluded v =>
      by_cases h : v = 0
      · subst h
        simp only [rangeEndInclusive, Bound.IsAbove, saturatingSub]
        grind
      · have hone : 1 ≤ v := by grind
        simp only [rangeEndInclusive, Bound.IsAbove, saturatingSub, if_pos hone,
          Bound.excluded.injEq, h, false_and, or_false]
        grind

/-! ## Reading -/

/-- `BTreeMap::range` over a closed range, which panics when the range is inverted. -/
def rangeOrPanic (logs : OrdMap UInt64 Entry) (start stop : UInt64) :
    Option (List (UInt64 × Entry)) :=
  if stop < start then none else some (OrdMap.range logs start stop)

/-- `RaftLogReader::try_get_log_entries`, or nothing when it panics. -/
def readLogEntriesOrPanic (lo hi : Bound) (n : SurrealStorage) : Option (List Entry) :=
  if rangeEndInclusive hi < rangeStart lo then some []
  else (rangeOrPanic n.raftEntries (rangeStart lo) (rangeEndInclusive hi)).map (List.map Prod.snd)

/-- An inverted range is empty. -/
theorem range_eq_nil {logs : OrdMap UInt64 Entry} {start stop : UInt64} (h : stop < start) :
    OrdMap.range logs start stop = [] := by
  refine OrdMap.range_eq_of_ordered .nil fun i e => ?_
  constructor
  · intro hmem
    cases hmem
  · rintro ⟨_, hlo, hhi⟩
    exact absurd (UInt64.le_trans hlo hhi) (UInt64.not_le.mpr h)

/-- A read does not panic and returns the entries of the closed range. -/
theorem readLogEntriesOrPanic_eq (lo hi : Bound) (n : SurrealStorage) :
    readLogEntriesOrPanic lo hi n = some
      ((OrdMap.range n.raftEntries (rangeStart lo) (rangeEndInclusive hi)).map Prod.snd) := by
  unfold readLogEntriesOrPanic
  split
  next h => rw [range_eq_nil h, List.map_nil]
  next h => rw [rangeOrPanic, if_neg h, Option.map_some]

/-- The state passing form of a read agrees with the one that shows panics. -/
theorem readLogEntries_eq_iff {lo hi : Bound} {n : SurrealStorage} {es : List Entry} :
    readLogEntries lo hi n = (.ok es, n) ↔ readLogEntriesOrPanic lo hi n = some es := by
  rw [readLogEntriesOrPanic_eq, readLogEntries]
  split
  next h =>
    rw [range_eq_nil h]
    simp
  next => simp

/-! ## Exact reads -/

/-- The read returns, in the order of the indices, the stored entries whose index is in the range,
and it does not panic. -/
def ReadsExactly (lo hi : Bound) (n : SurrealStorage) : Prop :=
  ∃ ps : List (UInt64 × Entry), OrdMap.Ordered ps ∧
    (∀ i e, (i, e) ∈ ps ↔ n.raftEntries[i]? = some e ∧ lo.IsBelow i ∧ hi.IsAbove i) ∧
    readLogEntriesOrPanic lo hi n = some (ps.map Prod.snd) ∧
    readLogEntries lo hi n = (.ok (ps.map Prod.snd), n)

/-- A read is exact when the closed range has the stored indices of the range. -/
theorem readsExactly_of_iff {lo hi : Bound} {n : SurrealStorage}
    (h : ∀ i e, n.raftEntries[i]? = some e →
      (rangeStart lo ≤ i ∧ i ≤ rangeEndInclusive hi ↔ lo.IsBelow i ∧ hi.IsAbove i)) :
    ReadsExactly lo hi n := by
  have hread := readLogEntriesOrPanic_eq lo hi n
  refine ⟨_, OrdMap.ordered_range _ _ _, fun i e => ?_, hread, readLogEntries_eq_iff.mpr hread⟩
  rw [OrdMap.mem_range]
  exact and_congr_right fun hget => h i e hget

/-- A read that returns an entry outside the range is not exact. -/
theorem not_readsExactly {lo hi : Bound} {n : SurrealStorage} {i : UInt64} {e : Entry}
    (hget : n.raftEntries[i]? = some e) (hlo : rangeStart lo ≤ i) (hhi : i ≤ rangeEndInclusive hi)
    (hout : ¬ (lo.IsBelow i ∧ hi.IsAbove i)) : ¬ ReadsExactly lo hi n := by
  rintro ⟨ps, hps, hmem, hread, _⟩
  rw [readLogEntriesOrPanic_eq, Option.some.injEq] at hread
  have hlen := congrArg List.length hread
  rw [List.length_map, List.length_map] at hlen
  -- the entries of the range and the one outside are all returned
  have hnot : (i, e) ∉ ps := fun hp => hout ((hmem i e).mp hp).2
  have hsub : (i, e) :: ps ⊆ OrdMap.range n.raftEntries (rangeStart lo) (rangeEndInclusive hi) := by
    intro p hp
    rcases List.mem_cons.mp hp with rfl | hp
    · exact OrdMap.mem_range.mpr ⟨hget, hlo, hhi⟩
    · obtain ⟨hp, hbelow, habove⟩ := (hmem p.1 p.2).mp hp
      exact OrdMap.mem_range.mpr ⟨hp, (rangeStart_le_iff lo p.1).mpr (Or.inl hbelow),
        (le_rangeEndInclusive_iff hi p.1).mpr (Or.inl habove)⟩
  have hle := (List.subperm_of_subset (List.nodup_cons.mpr ⟨hnot, hps.nodup⟩) hsub).length_le
  rw [List.length_cons] at hle
  omega

/-- A read is exact unless the range ends before `0` and the entry at `0` is stored, or starts after
`u64::MAX` and the entry at `u64::MAX` is stored, and the other end admits that entry. -/
theorem log_read_exact_iff (lo hi : Bound) (n : SurrealStorage) :
    ReadsExactly lo hi n ↔
      ¬ (hi = .excluded 0 ∧ lo.IsBelow 0 ∧ ∃ e, n.raftEntries[(0 : UInt64)]? = some e) ∧
      ¬ (lo = .excluded u64Max ∧ hi.IsAbove u64Max ∧ ∃ e, n.raftEntries[u64Max]? = some e) := by
  constructor
  · intro hexact
    constructor
    · rintro ⟨rfl, hlo, e, he⟩
      refine not_readsExactly he ((rangeStart_le_iff lo 0).mpr (Or.inl hlo)) (by decide) ?_ hexact
      rintro ⟨_, habove⟩
      exact absurd habove (by decide)
    · rintro ⟨rfl, hhi, e, he⟩
      refine not_readsExactly he (by decide) ((le_rangeEndInclusive_iff hi u64Max).mpr
        (Or.inl hhi)) ?_ hexact
      rintro ⟨hbelow, _⟩
      exact absurd hbelow (by decide)
  · rintro ⟨hzero, hmax⟩
    refine readsExactly_of_iff fun i e hget => ?_
    rw [rangeStart_le_iff, le_rangeEndInclusive_iff]
    constructor
    · rintro ⟨hlo | ⟨rfl, rfl⟩, hhi | ⟨rfl, hi0⟩⟩
      · exact ⟨hlo, hhi⟩
      · subst hi0
        exact absurd ⟨rfl, hlo, e, hget⟩ hzero
      · exact absurd ⟨rfl, hhi, e, hget⟩ hmax
      · exact absurd hi0 (by decide)
    · rintro ⟨hlo, hhi⟩
      exact ⟨Or.inl hlo, Or.inl hhi⟩

/-- A log with entries at both ends of the index space. -/
def twoEnds : List Entry := [⟨⟨1, 0⟩, .blank⟩, ⟨⟨2, u64Max⟩, .blank⟩]

/-- The entry at index `0` is returned by a read of the indices before `0`, and the one at
`u64::MAX` by a read of the indices after it. -/
theorem read_outside_returns_ends :
    ∃ n, append twoEnds (fresh []) = (.ok (), n) ∧
      readLogEntries .unbounded (.excluded 0) n = (.ok [⟨⟨1, 0⟩, .blank⟩], n) ∧
      ¬ ReadsExactly .unbounded (.excluded 0) n ∧
      readLogEntries (.excluded u64Max) .unbounded n = (.ok [⟨⟨2, u64Max⟩, .blank⟩], n) ∧
      ¬ ReadsExactly (.excluded u64Max) .unbounded n := by
  have hrun : (append twoEnds (fresh [])).1 = .ok () := by decide +kernel
  have hzero : (append twoEnds (fresh [])).2.raftEntries[(0 : UInt64)]? =
      some ⟨⟨1, 0⟩, .blank⟩ := by
    decide +kernel
  have hmax : (append twoEnds (fresh [])).2.raftEntries[u64Max]? =
      some ⟨⟨2, u64Max⟩, .blank⟩ := by
    decide +kernel
  have hread : readLogEntriesOrPanic .unbounded (.excluded 0) (append twoEnds (fresh [])).2 =
        some [⟨⟨1, 0⟩, .blank⟩] ∧
      readLogEntriesOrPanic (.excluded u64Max) .unbounded (append twoEnds (fresh [])).2 =
        some [⟨⟨2, u64Max⟩, .blank⟩] := by
    decide +kernel
  exact ⟨_, Prod.ext hrun rfl, readLogEntries_eq_iff.mpr hread.1,
    not_readsExactly hzero (by decide) (by decide) (by decide),
    readLogEntries_eq_iff.mpr hread.2,
    not_readsExactly hmax (by decide) (by decide) (by decide)⟩

end SurrealStorage

end OpenraftSurrealkv
