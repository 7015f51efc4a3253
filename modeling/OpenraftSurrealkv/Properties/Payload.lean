import OpenraftSurrealkv.Snapshot.Stored
import OpenraftSurrealkv.Snapshot.Builder

/-!
# Reading snapshot payloads

A payload of the current version reads back to its metadata and entries.  A
payload of version 1 has no mark of its own.  A full one has the layout of the
current version.  A delta of version 1 is first read as an envelope of the
current version: the number of its entries is taken for the entry count, the
term and index of the first entry for the size and the time, and the length of
the first entry's request for the tag of the file path.  A request takes at
least two bytes, so that length never starts with a tag and the reading fails.
-/

namespace OpenraftSurrealkv

open Postcard

/-! ## Version 1 -/

/-- A request takes at least its tag and the length of its key. -/
theorem KVRequest.two_le_length_encode (req : KVRequest) :
    2 ≤ (KVRequest.codec.encode req).length := by
  cases req with
  | set key value =>
      have htag := Codec.u32.encode_pos 0
      have hfields := (Codec.string.pair Codec.bytes).encode_pos (key, value)
      show 2 ≤ (Codec.u32.encode 0 ++ (Codec.string.pair Codec.bytes).encode (key, value)).length
      rw [List.length_append]
      omega
  | delete key =>
      have htag := Codec.u32.encode_pos 1
      have hkey := Codec.string.encode_pos key
      show 2 ≤ (Codec.u32.encode 1 ++ Codec.string.encode key).length
      rw [List.length_append]
      omega

/-- A delta entry starts with its term, its index and the length of its request. -/
theorem DeltaEntry.exists_encode {e : DeltaEntry} {req : KVRequest}
    (h : KVRequest.codec.toStdvec req = .ok e.payload) :
    ∃ b rest, DeltaEntry.codec.encode e =
        Codec.u64.encode e.term ++ (Codec.u64.encode e.index ++ (b :: rest)) ∧
      b ≠ 0 ∧ b ≠ 1 := by
  obtain ⟨hlt, hencode⟩ := Codec.toStdvec_eq_ok_iff.mp h
  have htwo := req.two_le_length_encode
  rw [hencode] at hlt htwo
  have hlen : (UInt64.ofNat e.payload.length).toNat = e.payload.length := by
    rw [UInt64.toNat_ofNat']
    omega
  obtain ⟨b, rest, hb, h0, h1⟩ := Codec.exists_u64_encode (hlen ▸ htwo)
  refine ⟨b, rest ++ e.payload.flatMap Codec.u8.encode, ?_, h0, h1⟩
  show Codec.u64.encode e.term ++ (Codec.u64.encode e.index ++
    (Codec.u64.encode (UInt64.ofNat e.payload.length) ++ e.payload.flatMap Codec.u8.encode)) = _
  rw [hb, List.cons_append]

/-- The format of a delta of version 1 reads as one of the current version, without its entries. -/
theorem SnapshotFormat.decode_legacy (base : UInt64) (entries : List DeltaEntry) (rest : Bytes) :
    SnapshotFormat.codec.decode
        (LegacySnapshotFormatV1.codec.encode (.delta base entries) ++ rest) =
      .ok (.delta base (UInt64.ofNat entries.length),
        entries.flatMap DeltaEntry.codec.encode ++ rest) := by
  have hbytes : LegacySnapshotFormatV1.codec.encode (.delta base entries) ++ rest =
      Codec.u32.encode 1 ++ (Codec.u64.encode base ++
        (Codec.u64.encode (UInt64.ofNat entries.length) ++
          (entries.flatMap DeltaEntry.codec.encode ++ rest))) := by
    show (Codec.u32.encode 1 ++ (Codec.u64.encode base ++
      (Codec.u64.encode (UInt64.ofNat entries.length) ++
        entries.flatMap DeltaEntry.codec.encode))) ++ rest = _
    simp only [List.append_assoc]
  have hfields := Codec.pair_decode_ok (Codec.decode_u64 base _)
    (Codec.decode_u64 (UInt64.ofNat entries.length)
      (entries.flatMap DeltaEntry.codec.encode ++ rest))
  rw [hbytes]
  exact Codec.iso_decode_ok (Codec.either_decode_inr hfields)

/-- The metadata of a delta of version 1 does not read as metadata of the current version. -/
theorem DeltaMetadata.decode_legacy {metadata : LegacyDeltaMetadataV1} {base : UInt64}
    {e : DeltaEntry} {entries : List DeltaEntry} {req : KVRequest}
    (hformat : metadata.format = .delta base (e :: entries))
    (hpayload : KVRequest.codec.toStdvec req = .ok e.payload) (rest : Bytes) :
    DeltaMetadata.codec.decode (LegacyDeltaMetadataV1.codec.encode metadata ++ rest) =
      .error .deserializeBadOption := by
  obtain ⟨b, tail, hentry, h0, h1⟩ := DeltaEntry.exists_encode hpayload
  let fields :=
    (Codec.u64.pair <| Codec.u64.pair <| (Codec.option Codec.string).pair Codec.u16).encode
      (metadata.sizeBytes, metadata.createdAt, metadata.filePath, metadata.version) ++ rest
  have hbytes : LegacyDeltaMetadataV1.codec.encode metadata ++ rest =
      LegacySnapshotFormatV1.codec.encode (.delta base (e :: entries)) ++ fields := by
    rw [← hformat, ← List.append_assoc]
    rfl
  have hrest : (e :: entries).flatMap DeltaEntry.codec.encode ++ fields =
      Codec.u64.encode e.term ++ (Codec.u64.encode e.index ++
        (b :: (tail ++ (entries.flatMap DeltaEntry.codec.encode ++ fields)))) := by
    rw [List.flatMap_cons, hentry]
    simp only [List.append_assoc, List.cons_append]
  have hdecode := SnapshotFormat.decode_legacy base (e :: entries) fields
  rw [hrest] at hdecode
  rw [hbytes]
  refine Codec.iso_decode_error (Codec.pair_decode_error_right hdecode ?_)
  refine Codec.pair_decode_error_right (Codec.decode_u64 e.term _) ?_
  refine Codec.pair_decode_error_right (Codec.decode_u64 e.index _) ?_
  exact Codec.pair_decode_error_left (Codec.option_decode_bad h0 h1 _)

/-- An envelope is longer than the list of its entries. -/
theorem LegacySnapshotEnvelopeV1.length_entries_le {legacy : LegacySnapshotEnvelopeV1}
    {base : UInt64} {entries : List DeltaEntry}
    (hformat : legacy.metadata.format = .delta base entries) :
    entries.length ≤ (LegacySnapshotEnvelopeV1.codec.encode legacy).length := by
  have hentries := Codec.length_le_flatMap DeltaEntry.codec entries
  have hformatLen : (LegacySnapshotFormatV1.codec.encode (.delta base entries)).length =
      (Codec.u32.encode 1).length + ((Codec.u64.encode base).length +
        ((Codec.u64.encode (UInt64.ofNat entries.length)).length +
          (entries.flatMap DeltaEntry.codec.encode).length)) := by
    rw [← List.length_append, ← List.length_append, ← List.length_append]
    rfl
  have hlen : (LegacySnapshotEnvelopeV1.codec.encode legacy).length =
      ((LegacySnapshotFormatV1.codec.encode legacy.metadata.format).length + _) + _ :=
    List.length_append.trans (congrArg (· + _) List.length_append)
  rw [hformat] at hlen
  omega

/-- Every payload of version 1 is understood, and no delta of it is taken for a payload of the
current version. -/
theorem legacy_payload_decodes (ar : Archiver) {legacy : LegacySnapshotEnvelopeV1} {bytes : Bytes}
    (h : LegacySnapshotEnvelopeV1.codec.toStdvec legacy = .ok bytes) :
    (∀ base entries, legacy.metadata.format = .delta base entries → entries ≠ [] →
      (∀ e ∈ entries, ∃ req, KVRequest.codec.toStdvec req = .ok e.payload) →
      (∃ err, SnapshotEnvelope.codec.fromBytes bytes = .error err) ∧
        ∃ count : UInt64, count.toNat = entries.length ∧
          decodeSnapshotPayload ar bytes = .ok (some (.delta ⟨.delta base count,
            legacy.metadata.sizeBytes, legacy.metadata.createdAt, legacy.metadata.filePath, 2⟩
            entries))) ∧
    ∀ m, legacy.metadata.format = .full m →
      ∃ version, decodeSnapshotPayload ar bytes = .ok (some (.full ⟨.full m,
        legacy.metadata.sizeBytes, legacy.metadata.createdAt, legacy.metadata.filePath,
        version⟩)) := by
  have hback := Codec.fromBytes_of_toStdvec h
  obtain ⟨hlt, rfl⟩ := Codec.toStdvec_eq_ok_iff.mp h
  constructor
  · intro base entries hformat hne hpayloads
    obtain ⟨e, rest, rfl⟩ := List.exists_cons_of_ne_nil hne
    obtain ⟨req, hreq⟩ := hpayloads e List.mem_cons_self
    have hmeta := DeltaMetadata.decode_legacy hformat hreq (Codec.bytes.encode legacy.payload)
    have herr : SnapshotEnvelope.codec.fromBytes (LegacySnapshotEnvelopeV1.codec.encode legacy) =
        .error .deserializeBadOption := by
      have hdecode : SnapshotEnvelope.codec.decode
          (LegacySnapshotEnvelopeV1.codec.encode legacy) = .error .deserializeBadOption :=
        Codec.iso_decode_error (Codec.pair_decode_error_left hmeta)
      rw [Codec.fromBytes, hdecode]
    refine ⟨⟨_, herr⟩, UInt64.ofNat (e :: rest).length, ?_, ?_⟩
    · have hcount := LegacySnapshotEnvelopeV1.length_entries_le hformat
      rw [UInt64.toNat_ofNat']
      omega
    · simp only [decodeSnapshotPayload, herr, hback, hformat]
  · intro m hformat
    have hsame : SnapshotEnvelope.codec.toStdvec ⟨⟨.full m, legacy.metadata.sizeBytes,
        legacy.metadata.createdAt, legacy.metadata.filePath, legacy.metadata.version⟩,
        legacy.payload⟩ = .ok (LegacySnapshotEnvelopeV1.codec.encode legacy) := by
      rcases legacy with ⟨⟨format, size, created, path, version⟩, payload⟩
      simp only at hformat
      subst hformat
      exact h
    exact ⟨_, decodeSnapshotPayload_full rfl hsame⟩

/-- A delta of version 1 with one request. -/
def legacyExample : LegacySnapshotEnvelopeV1 where
  metadata := ⟨.delta 4 [⟨1, 5, KVRequest.codec.encode (.set "k" [7])⟩], 1, 2, none, 1⟩
  payload := []

theorem legacy_payload_decodes_example :
    ∃ count : UInt64, count.toNat = 1 ∧
      decodeSnapshotPayload .stored (LegacySnapshotEnvelopeV1.codec.encode legacyExample) =
        .ok (some (.delta ⟨.delta 4 count, 1, 2, none, 2⟩
          [⟨1, 5, KVRequest.codec.encode (.set "k" [7])⟩])) := by
  have hbytes : LegacySnapshotEnvelopeV1.codec.toStdvec legacyExample =
      .ok (LegacySnapshotEnvelopeV1.codec.encode legacyExample) :=
    Codec.toStdvec_eq_ok_iff.mpr ⟨by decide +kernel, rfl⟩
  have hreq : KVRequest.codec.toStdvec (.set "k" [7]) =
      .ok (KVRequest.codec.encode (.set "k" [7])) :=
    Codec.toStdvec_eq_ok_iff.mpr ⟨by decide +kernel, rfl⟩
  refine ((legacy_payload_decodes .stored hbytes).1 4 _ rfl (List.cons_ne_nil _ _) ?_).2
  intro e he
  rw [List.mem_singleton] at he
  subst he
  exact ⟨_, hreq⟩

/-! ## The current version -/

/-- A payload of the current version reads back to its metadata and entries. -/
theorem payload_round_trip (ar : Archiver) {metadata : DeltaMetadata} {payload bytes : Bytes}
    (h : SnapshotEnvelope.codec.toStdvec ⟨metadata, payload⟩ = .ok bytes) :
    (∀ base count entries, metadata.format = .delta base count →
      DeltaSnapshotCodec.encodeEntries ar entries = .ok payload →
      decodeSnapshotPayload ar bytes = .ok (some (.delta metadata entries)) ∧
        decodeDeltaEntriesFromPayload ar bytes = .ok (some entries)) ∧
    ∀ m, metadata.format = .full m →
      decodeSnapshotPayload ar bytes = .ok (some (.full metadata)) ∧
        decodeDeltaEntriesFromPayload ar bytes = .ok none := by
  constructor
  · intro base count entries hformat hentries
    have hdecode := decodeSnapshotPayload_delta hformat hentries h
    refine ⟨hdecode, ?_⟩
    rw [decodeDeltaEntriesFromPayload, hdecode]
  · intro m hformat
    have hdecode : decodeSnapshotPayload ar bytes = .ok (some (.full metadata)) :=
      decodeSnapshotPayload_full hformat h
    refine ⟨hdecode, ?_⟩
    rw [decodeDeltaEntriesFromPayload, hdecode]

/-- A delta at the greatest index, with a file path. -/
def deltaExample : DeltaMetadata :=
  (DeltaMetadata.new (.delta u64Max 1) 3 u64Max).withFilePath "target/tmp/deltas/x"

theorem payload_round_trip_delta :
    ∃ payload bytes, DeltaSnapshotCodec.encodeEntries .stored [⟨1, u64Max, [200, 0]⟩] =
        .ok payload ∧
      SnapshotEnvelope.codec.toStdvec ⟨deltaExample, payload⟩ = .ok bytes ∧
      decodeSnapshotPayload .stored bytes =
        .ok (some (.delta deltaExample [⟨1, u64Max, [200, 0]⟩])) := by
  let payload := DeltaSnapshotCodec.entriesCodec.encode [⟨1, u64Max, [200, 0]⟩]
  have hentries : DeltaSnapshotCodec.encodeEntries .stored [⟨1, u64Max, [200, 0]⟩] =
      .ok payload := by
    decide +kernel
  have hbytes : SnapshotEnvelope.codec.toStdvec ⟨deltaExample, payload⟩ =
      .ok (SnapshotEnvelope.codec.encode ⟨deltaExample, payload⟩) :=
    Codec.toStdvec_eq_ok_iff.mpr ⟨by decide +kernel, rfl⟩
  have hround := (payload_round_trip .stored hbytes).1 u64Max 1 _ rfl hentries
  exact ⟨payload, _, hentries, hbytes, hround.1⟩

end OpenraftSurrealkv
