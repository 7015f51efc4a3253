import OpenraftSurrealkv.Properties.Metadata

/-!
# Snapshot metadata written before checkpoints had a path

The checkpoint of a snapshot state once had no path, and the field was added
with a default for records that lack it.  Postcard does not mark where a struct
ends, so the reader does not see that the field is missing: it takes the length
of the delta chain, which comes next, for the tag of the path.  A record with a
checkpoint is therefore refused, or read with a path that nobody wrote
(`decode_pathless`).  A record without one has the same bytes in both layouts.
-/

namespace OpenraftSurrealkv

open Postcard MetadataManager

/-! ## The old layout -/

/-- `CheckpointMetadata` without `checkpoint_path`. -/
structure PathlessCheckpoint where
  checkpointIndex : UInt64
  checkpointTerm : UInt64
  sequenceNumber : UInt64
  createdAt : UInt64
deriving DecidableEq, Repr

/-- `SnapshotMetaState` over such a checkpoint. -/
structure PathlessSnapshotState where
  lastCheckpoint : Option PathlessCheckpoint
  deltaChain : List DeltaInfo
  totalDeltaBytes : UInt64
deriving DecidableEq, Repr

def PathlessCheckpoint.codec : Codec PathlessCheckpoint :=
  (Codec.u64.pair <| Codec.u64.pair <| Codec.u64.pair Codec.u64).iso
    (fun x => ⟨x.1, x.2.1, x.2.2.1, x.2.2.2⟩)
    (fun m => (m.checkpointIndex, m.checkpointTerm, m.sequenceNumber, m.createdAt))
    (fun _ => rfl)

def PathlessSnapshotState.codec : Codec PathlessSnapshotState :=
  ((Codec.option PathlessCheckpoint.codec).pair <|
    (Codec.seq DeltaInfo.codec).pair Codec.u64).iso
    (fun x => ⟨x.1, x.2.1, x.2.2⟩)
    (fun s => (s.lastCheckpoint, s.deltaChain, s.totalDeltaBytes))
    (fun _ => rfl)

/-- The checkpoint with no path. -/
def PathlessCheckpoint.upgrade (c : PathlessCheckpoint) : PersistedCheckpointMetadata :=
  .new c.checkpointIndex c.checkpointTerm c.sequenceNumber c.createdAt

/-- What a reader of the new layout should make of the old state. -/
def PathlessSnapshotState.upgrade (s : PathlessSnapshotState) : SnapshotMetaState :=
  ⟨s.lastCheckpoint.map PathlessCheckpoint.upgrade, s.deltaChain, s.totalDeltaBytes⟩

/-! ## Reading it -/

/-- What follows the checkpoint. -/
def PathlessSnapshotState.tail (s : PathlessSnapshotState) : Bytes :=
  Codec.u64.encode (UInt64.ofNat s.deltaChain.length) ++
    (s.deltaChain.flatMap DeltaInfo.codec.encode ++ Codec.u64.encode s.totalDeltaBytes)

theorem PathlessSnapshotState.encode_some {s : PathlessSnapshotState} {c : PathlessCheckpoint}
    (h : s.lastCheckpoint = some c) :
    codec.encode s = 1 :: (Codec.u64.encode c.checkpointIndex ++
      (Codec.u64.encode c.checkpointTerm ++ (Codec.u64.encode c.sequenceNumber ++
        (Codec.u64.encode c.createdAt ++ s.tail)))) := by
  have hcheckpoint : (Codec.option PathlessCheckpoint.codec).encode s.lastCheckpoint =
      1 :: (Codec.u64.encode c.checkpointIndex ++ (Codec.u64.encode c.checkpointTerm ++
        (Codec.u64.encode c.sequenceNumber ++ Codec.u64.encode c.createdAt))) := by
    rw [h]
    rfl
  have hencode : codec.encode s = (Codec.option PathlessCheckpoint.codec).encode s.lastCheckpoint ++
      ((Codec.u64.encode (UInt64.ofNat s.deltaChain.length) ++
        s.deltaChain.flatMap DeltaInfo.codec.encode) ++ Codec.u64.encode s.totalDeltaBytes) := rfl
  rw [hencode, hcheckpoint, tail]
  simp only [List.cons_append, List.append_assoc]

/-- Without a checkpoint the two layouts agree. -/
theorem PathlessSnapshotState.encode_none {s : PathlessSnapshotState}
    (h : s.lastCheckpoint = none) : codec.encode s = SnapshotMetaState.codec.encode s.upgrade := by
  have hold : codec.encode s = (Codec.option PathlessCheckpoint.codec).encode s.lastCheckpoint ++
      ((Codec.seq DeltaInfo.codec).pair Codec.u64).encode (s.deltaChain, s.totalDeltaBytes) := rfl
  have hnew : SnapshotMetaState.codec.encode s.upgrade =
      (Codec.option PersistedCheckpointMetadata.codec).encode
        (s.lastCheckpoint.map PathlessCheckpoint.upgrade) ++
      ((Codec.seq DeltaInfo.codec).pair Codec.u64).encode (s.deltaChain, s.totalDeltaBytes) := rfl
  rw [hold, hnew, h]
  rfl

/-- The length of the chain is read as the tag of a path.  Only an empty chain reads as no path,
and then the number of delta bytes is all that is left. -/
theorem PathlessSnapshotState.chain_nil_of_decode {s : PathlessSnapshotState} {rest : Bytes}
    (hlen : s.deltaChain.length < 2 ^ 64)
    (h : (Codec.option Codec.string).decode s.tail = .ok (none, rest)) :
    rest = Codec.u64.encode s.totalDeltaBytes := by
  unfold tail at h
  rcases hchain : s.deltaChain with _ | ⟨d, _ | ⟨d', chain⟩⟩
  · rw [hchain] at h
    cases h
    rfl
  · rw [hchain] at h
    obtain ⟨path, hpath, _⟩ := Codec.option_decode_one h
    cases hpath
  · have htoNat : (UInt64.ofNat s.deltaChain.length).toNat = s.deltaChain.length := by
      rw [UInt64.toNat_ofNat']
      omega
    have htwo : 2 ≤ (UInt64.ofNat s.deltaChain.length).toNat := by
      rw [htoNat, hchain, List.length_cons, List.length_cons]
      omega
    obtain ⟨b, more, hb, h0, h1⟩ := Codec.exists_u64_encode htwo
    rw [hb, List.cons_append, Codec.option_decode_bad h0 h1] at h
    cases h

/-- A number of delta bytes is not a chain followed by a number of delta bytes. -/
theorem not_decode_chain_u64 (total : UInt64) (x : List DeltaInfo × UInt64) (rest : Bytes) :
    ((Codec.seq DeltaInfo.codec).pair Codec.u64).decode (Codec.u64.encode total) ≠
      .ok (x, rest) := by
  intro h
  obtain ⟨mid, hchain, htotal⟩ := Codec.pair_decode_eq_ok h
  have hread := Codec.decode_u64 total []
  rw [List.append_nil] at hread
  simp only [Codec.seq, hread] at hchain
  cases htake : total.toNat with
  | zero =>
      rw [htake] at hchain
      obtain rfl : ([] : Bytes) = mid := (Prod.mk.inj (Except.ok.inj hchain)).2
      cases htotal
  | succ n =>
      rw [htake] at hchain
      cases hchain

/-- A checkpoint of the old layout is read with a path, if it is read at all. -/
theorem PathlessSnapshotState.decode_pathless {s : PathlessSnapshotState} {c : PathlessCheckpoint}
    {s' : SnapshotMetaState} {rest : Bytes} (hc : s.lastCheckpoint = some c)
    (hlen : s.deltaChain.length < 2 ^ 64)
    (h : SnapshotMetaState.codec.decode (codec.encode s) = .ok (s', rest)) :
    ∃ cp path, s'.lastCheckpoint = some cp ∧ cp.checkpointPath = some path := by
  rw [encode_some hc] at h
  obtain ⟨x, hx, rfl⟩ := Codec.iso_decode_eq_ok h
  obtain ⟨r₀, hopt, hmore⟩ := Codec.pair_decode_eq_ok hx
  obtain ⟨cp, hcp, hfields⟩ := Codec.option_decode_one hopt
  obtain ⟨y, hy, rfl⟩ := Codec.iso_decode_eq_ok hfields
  obtain ⟨r₁, hindex, hy₁⟩ := Codec.pair_decode_eq_ok hy
  obtain ⟨r₂, hterm, hy₂⟩ := Codec.pair_decode_eq_ok hy₁
  obtain ⟨r₃, hseq, hy₃⟩ := Codec.pair_decode_eq_ok hy₂
  obtain ⟨r₄, hcreated, hpath⟩ := Codec.pair_decode_eq_ok hy₃
  obtain rfl := (Codec.decode_u64_eq_ok hindex).2
  obtain rfl := (Codec.decode_u64_eq_ok hterm).2
  obtain rfl := (Codec.decode_u64_eq_ok hseq).2
  obtain rfl := (Codec.decode_u64_eq_ok hcreated).2
  cases hp : y.2.2.2.2 with
  | some path => exact ⟨_, path, hcp, hp⟩
  | none =>
      rw [hp] at hpath
      obtain rfl := chain_nil_of_decode hlen hpath
      exact absurd hmore (not_decode_chain_u64 _ _ _)

/-- A record is longer than its chain. -/
theorem PathlessSnapshotState.length_chain_lt (s : PathlessSnapshotState)
    (h : (codec.encode s).length < 2 ^ 63) : s.deltaChain.length < 2 ^ 64 := by
  have hchain := Codec.length_le_flatMap DeltaInfo.codec s.deltaChain
  have hlen : (codec.encode s).length = _ + ((_ + (s.deltaChain.flatMap
      DeltaInfo.codec.encode).length) + _) :=
    List.length_append.trans (congrArg (_ + ·)
      (List.length_append.trans (congrArg (· + _) List.length_append)))
  omega

/-! ## Loading it -/

/-- A record that was read was decoded from its bytes. -/
theorem Record.decode_of_persisted {α : Type} {r : Record α} {t : Tree} {bytes : Bytes}
    {state? : Option α} (hkey : t[r.key]? = some bytes) (h : r.persisted t = .ok state?) :
    ∃ state rest, r.codec.decode bytes = .ok (state, rest) ∧ state? = some state := by
  cases hdec : r.codec.decode bytes with
  | error e =>
      simp only [Record.persisted, hkey, Codec.fromBytes, hdec] at h
      cases h
  | ok x =>
      simp only [Record.persisted, hkey, Codec.fromBytes, hdec, Except.ok.injEq] at h
      exact ⟨x.1, x.2, rfl, h.symm⟩

/-- A record of the old layout loads as the state it was written for exactly when it has no
checkpoint. -/
theorem pathless_state_loads_iff {s : PathlessSnapshotState} {bytes : Bytes} {w : World}
    (hbytes : PathlessSnapshotState.codec.toStdvec s = .ok bytes)
    (hkey : w.tree[snapshotRecord.key]? = some bytes)
    (hvoting : votingRecord.Readable w.tree) (happlied : appliedRecord.Readable w.tree)
    (hmerge : mergeProgressRecord.Readable w.tree) (hquiet : w.faults = []) :
    (∃ m, load (MetadataManager.new w) = (.ok (), m) ∧ m.snapshotState = s.upgrade) ↔
      s.lastCheckpoint = none := by
  obtain ⟨hlt, rfl⟩ := Codec.toStdvec_eq_ok_iff.mp hbytes
  constructor
  · rintro ⟨m, hload, hstate⟩
    cases hc : s.lastCheckpoint with
    | none => rfl
    | some c =>
        obtain ⟨state?, hread⟩ := (Readable.of_load hload).snapshot
        obtain ⟨s', rest, hdecode, rfl⟩ := Record.decode_of_persisted hkey hread
        obtain ⟨fs, rfl⟩ := load_ok hload
        obtain ⟨cp, path, hcp, hpath⟩ :=
          PathlessSnapshotState.decode_pathless hc (s.length_chain_lt hlt) hdecode
        have hrec : snapshotRecord.recovered w.tree .new = s' := by
          simp only [Record.recovered, hread]
        have hsame : s' = s.upgrade := hrec.symm.trans hstate
        rw [hsame, PathlessSnapshotState.upgrade, hc] at hcp
        cases hcp
        cases hpath
  · intro hnone
    have hsnapshot : snapshotRecord.persisted w.tree = .ok (some s.upgrade) := by
      rw [PathlessSnapshotState.encode_none hnone] at hkey hlt
      simp only [Record.persisted, hkey]
      have hback : snapshotRecord.codec.fromBytes (SnapshotMetaState.codec.encode s.upgrade) =
          .ok s.upgrade := SnapshotMetaState.codec.fromBytes_encode (by omega)
      rw [hback]
    obtain ⟨m, hload, _⟩ :=
      Readable.load_quiet ⟨hvoting, happlied, ⟨_, hsnapshot⟩, hmerge⟩ hquiet
    refine ⟨m, hload, ?_⟩
    obtain ⟨fs, rfl⟩ := load_ok hload
    show snapshotRecord.recovered w.tree .new = s.upgrade
    simp only [Record.recovered, hsnapshot]

/-- A world whose tree holds the bytes of an old state and nothing else. -/
def pathlessWorld (s : PathlessSnapshotState) : World :=
  (SurrealStorage.emptyWorld []).withTree
    ((∅ : Tree).insert snapshotRecord.key (PathlessSnapshotState.codec.encode s))

/-- A state with a delta and no checkpoint. -/
def chainOnly : PathlessSnapshotState := ⟨none, [.new 1 2 3 4], 3⟩

theorem pathless_state_loads_iff_chain :
    ∃ m, load (MetadataManager.new (pathlessWorld chainOnly)) = (.ok (), m) ∧
      m.snapshotState = ⟨none, [.new 1 2 3 4], 3⟩ := by
  have hbytes : PathlessSnapshotState.codec.toStdvec chainOnly =
      .ok (PathlessSnapshotState.codec.encode chainOnly) :=
    Codec.toStdvec_eq_ok_iff.mpr ⟨by decide +kernel, rfl⟩
  have hkey : (pathlessWorld chainOnly).tree[snapshotRecord.key]? =
      some (PathlessSnapshotState.codec.encode chainOnly) :=
    (OrdMap.get_insert _ _ _ _).trans (if_pos rfl)
  exact (pathless_state_loads_iff hbytes hkey ⟨none, by decide +kernel⟩ ⟨none, by decide +kernel⟩
    ⟨none, by decide +kernel⟩ rfl).mpr rfl

/-- A record with a checkpoint and no delta is refused.  One with a checkpoint and a delta loads
with a path that is made of the delta's indices, and without the delta. -/
theorem pathless_checkpoint_misread :
    (load (MetadataManager.new (pathlessWorld ⟨some ⟨10, 2, 1, 100⟩, [], 0⟩))).1 =
        .error (.serialization "Hit the end of buffer, expected more data") ∧
      ∃ m, load (MetadataManager.new (pathlessWorld
          ⟨some ⟨10, 2, 1, 100⟩, [.new 2 65 66 0], 5⟩)) = (.ok (), m) ∧
        m.snapshotState = ⟨some ⟨10, 2, 1, 100, some "AB"⟩, [], 0⟩ := by
  refine ⟨by decide +kernel, ?_⟩
  have hrun : load.succeeds (MetadataManager.new (pathlessWorld
      ⟨some ⟨10, 2, 1, 100⟩, [.new 2 65 66 0], 5⟩))
      (fun _ m => m.snapshotState = ⟨some ⟨10, 2, 1, 100, some "AB"⟩, [], 0⟩) = true := by
    decide +kernel
  obtain ⟨_, m, hload, hm⟩ := Eff.exists_of_succeeds hrun
  exact ⟨m, hload, of_decide_eq_true hm⟩

end OpenraftSurrealkv
