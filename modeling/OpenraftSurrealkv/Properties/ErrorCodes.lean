import OpenraftSurrealkv.Effects.Errors
import OpenraftSurrealkv.Effects.Open
import OpenraftSurrealkv.Snapshot.Stored

/-!
# The code of a merge error

`mergeErrorCode` takes the text of a snapshot error up to its first colon.  The
errors about the baseline begin with their code, so it is found whatever follows.
The errors of the delta codec and of the checkpoint are snapshot errors as well,
and begin with a text of their own: that text becomes the code.  One of them, that
of a writer thread that panicked, has no colon and becomes the code as a whole.
-/

namespace OpenraftSurrealkv

open Postcard

/-! ## Labels -/

/-- The text in front of the first colon, trimmed. -/
def labelOf (text : String) : List Char :=
  ((text.toList.takeWhile (· ≠ ':')).dropWhile isRustWhitespace).rdropWhile isRustWhitespace

/-- A label that stands as it is in front of a colon. -/
def IsLabel (label : String) : Prop :=
  label ≠ "" ∧ label.toList.takeWhile (· ≠ ':') = label.toList ∧
    label.toList.dropWhile isRustWhitespace = label.toList ∧
    label.toList.rdropWhile isRustWhitespace = label.toList

instance (label : String) : Decidable (IsLabel label) :=
  inferInstanceAs (Decidable (_ ∧ _))

theorem mergeErrorCode_snapshot (text : String) :
    mergeErrorCode (.snapshot text) =
      if labelOf text = [] then mergeErrUnknown else String.ofList (labelOf text) := rfl

theorem labelOf_append {label : String} (h : IsLabel label) (text : String) :
    labelOf (label ++ ": " ++ text) = label.toList := by
  obtain ⟨-, hcolon, hleft, hright⟩ := h
  have hsplit : (label ++ ": " ++ text).toList = label.toList ++ ':' :: ' ' :: text.toList := by
    simp [String.toList_append]
  have htake : (label.toList ++ ':' :: ' ' :: text.toList).takeWhile (· ≠ ':') = label.toList := by
    rw [List.takeWhile_append_of_pos (List.takeWhile_eq_self_iff.mp hcolon)]
    simp
  rw [labelOf, hsplit, htake, hleft, hright]

theorem mergeErrorCode_append {label : String} (h : IsLabel label) (text : String) :
    mergeErrorCode (.snapshot (label ++ ": " ++ text)) = label := by
  rw [mergeErrorCode_snapshot, labelOf_append h, if_neg, String.ofList_toList]
  intro hnil
  exact h.1 (String.toList_inj.mp hnil)

theorem isLabel_of_mem_mergeErrorCodes : ∀ code ∈ mergeErrorCodes, IsLabel code := by
  decide +kernel

/-- The texts of the delta codec and of the checkpoint are labels and none of the codes. -/
theorem isLabel_of_stage :
    ∀ stage ∈ "read delta payload failed" :: "decode delta entries failed" :: checkpointStages,
      IsLabel stage ∧ stage ∉ mergeErrorCodes := by
  decide +kernel

/-- So is the text of a writer thread that panicked. -/
theorem mergeErrorCode_writerPanicked :
    mergeErrorCode (.snapshot writerPanicked) ∉ mergeErrorCodes := by
  decide +kernel

/-! ## The errors of a merge -/

theorem mergeErrorCode_snapshot_mem_iff (text : String) :
    mergeErrorCode (.snapshot text) ∈ mergeErrorCodes ↔
      labelOf text = [] ∨ String.ofList (labelOf text) ∈ mergeErrorCodes := by
  rw [mergeErrorCode_snapshot]
  by_cases hblank : labelOf text = []
  · simp only [hblank, if_true, true_or, iff_true]
    decide
  · simp only [hblank, if_false, false_or]

/-- What `mergeErrorCode` makes of an error of the merge is a known code exactly when the error is
no snapshot error, an error about the baseline, or the text of a decoder that could not be made and
happens to begin with a colon or with one of the codes. -/
theorem merge_error_code_known_iff {ar : Archiver} {st : SnapshotMetaState}
    {backend : MergeBackend} {w w' : World} {err : RaftError}
    (h : backend.executeMerge ar st w = (.error err, w')) :
    (mergeErrorCode err ∈ mergeErrorCodes ↔
      (∀ text, err ≠ .snapshot text) ∨
      (∃ code ∈ [mergeErrBaselineMissing, mergeErrBaselinePathRequired,
        mergeErrBaselinePathMissing], ∃ detail, err = mergeSnapshotError code detail) ∨
      ∃ data text, ar.zstdDecode data = .error (.create text) ∧ err = .snapshot text ∧
        (labelOf text = [] ∨ String.ofList (labelOf text) ∈ mergeErrorCodes)) ∧
    ∀ code ∈ mergeErrorCodes, ∀ detail, mergeErrorCode (mergeSnapshotError code detail) = code := by
  have hcode : ∀ code ∈ mergeErrorCodes, ∀ detail,
      mergeErrorCode (mergeSnapshotError code detail) = code := fun code hmem detail =>
    mergeErrorCode_append (isLabel_of_mem_mergeErrorCodes code hmem) detail
  have hbaseline : ∀ code ∈ [mergeErrBaselineMissing, mergeErrBaselinePathRequired,
      mergeErrBaselinePathMissing], code ∈ mergeErrorCodes := by decide
  refine ⟨⟨fun hmem => ?_, ?_⟩, hcode⟩
  · cases MergeBackend.raises_executeMerge ar st backend w err w' h with
    | plain hplain => exact .inl hplain
    | baseline hbase detail => exact .inr (.inl ⟨_, hbase, detail, rfl⟩)
    | @decoder data text hdecode =>
        exact .inr (.inr ⟨data, text, hdecode, rfl, (mergeErrorCode_snapshot_mem_iff text).mp hmem⟩)
    | stage hstage text =>
        obtain ⟨hlabel, hunknown⟩ := isLabel_of_stage _ hstage
        rw [mergeErrorCode_append hlabel] at hmem
        exact absurd hmem hunknown
    | panicked => exact absurd hmem mergeErrorCode_writerPanicked
  · rintro (hplain | ⟨code, hbase, detail, rfl⟩ | ⟨data, text, _, rfl, hlabel⟩)
    · cases err with
      | snapshot text => exact absurd rfl (hplain text)
      | _ => exact (by decide : mergeErrUnknown ∈ mergeErrorCodes)
    · rw [hcode code (hbaseline code hbase)]
      exact hbaseline code hbase
    · exact (mergeErrorCode_snapshot_mem_iff text).mpr hlabel

/-- A merge without a baseline ends with a known code. -/
theorem missing_baseline_code_known :
    ∃ err w', MergeBackend.checkpointNew.executeMerge .stored ⟨none, [], 0⟩
        (SurrealStorage.emptyWorld []) = (.error err, w') ∧
      mergeErrorCode err ∈ mergeErrorCodes := by
  obtain ⟨w', hrun⟩ : ∃ w', MergeBackend.checkpointNew.executeMerge .stored ⟨none, [], 0⟩
      (SurrealStorage.emptyWorld []) = (.error (mergeSnapshotError mergeErrBaselineMissing
        "missing baseline checkpoint metadata; merge aborted"), w') := ⟨_, rfl⟩
  refine ⟨_, w', hrun, (merge_error_code_known_iff hrun).1.mpr (.inr (.inl ?_))⟩
  exact ⟨mergeErrBaselineMissing, by decide, _, rfl⟩

/-- A merge of a delta whose file is empty ends with an error that has none of the codes. -/
theorem undecodable_delta_code_unknown :
    let st : SnapshotMetaState :=
      ⟨some ⟨1, 1, 0, 0, some "base"⟩, [⟨2, 2, 0, 0, some "delta"⟩], 0⟩
    let w : World :=
      { SurrealStorage.emptyWorld [] with
        files := (∅ : OrdMap String Bytes).insert "delta" []
        dirs := (∅ : OrdMap String Dir).insert "base" ⟨none, none, 0⟩ }
    let err : RaftError := .snapshot "read delta payload failed: incomplete frame"
    (MergeBackend.checkpointNew.executeMerge .framed st w).1 = .error err ∧
      mergeErrorCode err = "read delta payload failed" ∧
      mergeErrorCode err ∉ mergeErrorCodes := by
  decide +kernel

end OpenraftSurrealkv
