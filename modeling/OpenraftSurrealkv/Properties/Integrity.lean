import OpenraftSurrealkv.Effects.Build
import OpenraftSurrealkv.Effects.Errors
import OpenraftSurrealkv.Effects.Open
import OpenraftSurrealkv.Snapshot.Stored

/-!
# The checksum of a full snapshot

`restore` compares the CRC-32 of an archive with the one of the expected metadata,
unless that one is zero.  A build never computes it and an installation expects new
metadata, where it is zero.  So no installation ends at the comparison, whatever
the archive has become.
-/

namespace OpenraftSurrealkv

open Postcard RaftSnapshotBuilder

/-- The error of the integrity check. -/
def crcMismatch : RaftError := .snapshot "CRC32 mismatch while restoring snapshot"

theorem installSnapshot_ne_crcMismatch (ar : Archiver) (snapshot : Snapshot) (w : World) :
    (installSnapshot ar snapshot w).1 ≠ .error crcMismatch := by
  intro h
  refine raises_installSnapshot (E := (· ≠ crcMismatch)) ar snapshot ?_ ?_ ?_ w crcMismatch _
    (Prod.ext h rfl) rfl
  · intro text heq
    cases heq
  · intro text heq
    have hhead := congrArg (fun s : String => s.toList.head?) (RaftError.snapshot.inj heq)
    simp [String.toList_append] at hhead
  · decide

/-- A built archive `p` can be replaced in its envelope by any `p'`: the installation ends at the
integrity check exactly when it has nothing to reject.  The archive as it was built passes. -/
theorem corrupted_archive_rejected_iff {ar : Archiver} {cfg : SnapshotBuildConfig}
    {appliedIndex : UInt64} {w w' : World} {snap : Snapshot}
    (h : buildSnapshot ar cfg appliedIndex w = (.ok snap, w')) :
    ∃ envelope m, SnapshotEnvelope.codec.fromBytes snap.snapshot = .ok envelope ∧
      envelope.metadata.format = .full m ∧
      (∀ target : World, (installSnapshot ar snap target).1 ≠ .error crcMismatch) ∧
      ∀ (p' bytes' : Bytes) (target : World),
        SnapshotEnvelope.codec.toStdvec ⟨envelope.metadata, p'⟩ = .ok bytes' →
        ((crc32 p' ≠ crc32 envelope.payload →
            (installSnapshot ar ⟨snap.snapshotMeta, bytes'⟩ target).1 = .error crcMismatch) ↔
          crc32 p' = crc32 envelope.payload) := by
  obtain ⟨-, metadata, -, m, dir, hformat, henvelope⟩ := buildSnapshot_ok h
  refine ⟨_, m, henvelope, hformat, installSnapshot_ne_crcMismatch ar snap, ?_⟩
  intro p' bytes' target _
  constructor
  · intro hreject
    by_contra hcrc
    exact installSnapshot_ne_crcMismatch ar _ target (hreject hcrc)
  · intro hsame hcrc
    exact absurd hsame hcrc

/-- A snapshot of the empty tree can be installed as it was built. -/
theorem built_archive_passes :
    ∃ snap w', buildSnapshot .stored ⟨1, "a", 1⟩ 1 (SurrealStorage.emptyWorld []) = (.ok snap, w') ∧
      ∀ target : World, (installSnapshot .stored snap target).1 ≠ .error crcMismatch := by
  have hrun : (buildSnapshot .stored ⟨1, "a", 1⟩ 1).succeeds (SurrealStorage.emptyWorld [])
      (fun _ _ => true) = true := by decide +kernel
  obtain ⟨snap, w', hbuild, _⟩ := Eff.exists_of_succeeds hrun
  obtain ⟨_, _, _, _, hpass, _⟩ := corrupted_archive_rejected_iff hbuild
  exact ⟨snap, w', hbuild, hpass⟩

/-- The archive of a build is replaced by the archive of an empty directory, and the installation
accepts it. -/
theorem other_archive_installed :
    let w : World := SurrealStorage.emptyWorld []
    let p' : Bytes := Archiver.stored.tarPack ⟨none, none, 0⟩
    ∃ snap w₁ envelope bytes' w₂,
      buildSnapshot .stored ⟨1, "a", 1⟩ 1 w = (.ok snap, w₁) ∧
        SnapshotEnvelope.codec.fromBytes snap.snapshot = .ok envelope ∧
        crc32 p' ≠ crc32 envelope.payload ∧
        SnapshotEnvelope.codec.toStdvec ⟨envelope.metadata, p'⟩ = .ok bytes' ∧
        installSnapshot .stored ⟨snap.snapshotMeta, bytes'⟩ w₁ = (.ok (), w₂) := by
  intro w p'
  have hrun : (buildSnapshot .stored ⟨1, "a", 1⟩ 1).succeeds w (fun snap w₁ =>
      match SnapshotEnvelope.codec.fromBytes snap.snapshot with
      | .error _ => false
      | .ok envelope =>
          decide (crc32 p' ≠ crc32 envelope.payload) &&
            match SnapshotEnvelope.codec.toStdvec ⟨envelope.metadata, p'⟩ with
            | .error _ => false
            | .ok bytes' =>
                (installSnapshot .stored ⟨snap.snapshotMeta, bytes'⟩).succeeds w₁
                  fun _ _ => true) = true := by
    decide +kernel
  obtain ⟨snap, w₁, hbuild, hrest⟩ := Eff.exists_of_succeeds hrun
  split at hrest
  next => cases hrest
  next envelope henvelope =>
    obtain ⟨hcrc, hrest⟩ := Bool.and_eq_true_iff.mp hrest
    split at hrest
    next => cases hrest
    next bytes' hbytes =>
      obtain ⟨_, w₂, hinstall, _⟩ := Eff.exists_of_succeeds hrest
      exact ⟨snap, w₁, envelope, bytes', w₂, hbuild, henvelope, of_decide_eq_true hcrc, hbytes,
        hinstall⟩

end OpenraftSurrealkv
