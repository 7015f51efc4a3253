import OpenraftSurrealkv.Effects.Checkpoint
import OpenraftSurrealkv.Effects.Open

/-!
# The sequence number in two encodings

The key of the sequence number holds eight bytes or a decimal text, and only the
length tells which.  A text of eight digits is therefore read as eight bytes.
Each of them is at least `0x30`, so the number read is far above every number of
eight digits.  What `writeSequenceNumberDual` writes is read back from the key and
from the manifest.
-/

namespace OpenraftSurrealkv

open Postcard

/-! ## Bytes -/

theorem length_toBeBytes (v : UInt64) : (toBeBytes v).length = 8 := rfl

theorem length_toBeBytes32 (v : UInt32) : (toBeBytes32 v).length = 4 := rfl

theorem fromBeBytes_toBeBytes (v : UInt64) : fromBeBytes (toBeBytes v) = v := by
  apply UInt64.toNat.inj
  have hlt := v.toNat_lt
  simp only [fromBeBytes, toBeBytes, List.range, List.range.loop, List.map_cons, List.map_nil,
    List.foldl_cons, List.foldl_nil, UInt8.toNat_ofNat', UInt64.toNat_ofNat']
  omega

/-- The value of a byte string is below a power of the base. -/
theorem foldl_bytes_lt (bytes : Bytes) :
    ∀ acc : Nat, bytes.foldl (fun acc b => acc * 256 + b.toNat) acc <
      (acc + 1) * 256 ^ bytes.length := by
  induction bytes with
  | nil => simp
  | cons b bytes ih =>
      intro acc
      have hb := b.toNat_lt
      rw [List.foldl_cons, List.length_cons, Nat.pow_succ']
      refine (ih _).trans_le ?_
      rw [← Nat.mul_assoc]
      exact Nat.mul_le_mul_right _ (by omega)

theorem le_foldl_bytes (bytes : Bytes) :
    ∀ acc : Nat, acc * 256 ^ bytes.length ≤ bytes.foldl (fun acc b => acc * 256 + b.toNat) acc := by
  induction bytes with
  | nil => simp
  | cons b bytes ih =>
      intro acc
      rw [List.foldl_cons, List.length_cons, Nat.pow_succ', ← Nat.mul_assoc]
      exact (Nat.mul_le_mul_right _ (Nat.le_add_right _ _)).trans (ih _)

/-! ## Decimal text -/

theorem toList_toString (v : UInt64) : (toString v).toList = Nat.toDigits 10 v.toNat := by
  rw [show toString v = Nat.repr v.toNat from rfl, Nat.toList_repr]

theorem isDigit_of_mem_toString {v : UInt64} {c : Char} (h : c ∈ (toString v).toList) :
    c.isDigit = true := by
  rw [toList_toString] at h
  exact Nat.isDigit_of_mem_toDigits (by decide) (by decide) h

theorem parseU64_toString (v : UInt64) : parseU64 (toString v) = some v := by
  have hdigits : digitsValue (toString v).toList = some v.toNat := by
    rw [digitsValue, if_pos]
    · rw [toList_toString]
      have hvalue := Nat.ofDigitChars_ten_toDigits (n := v.toNat)
      rw [Nat.ofDigitChars_eq_foldl] at hvalue
      simpa only [Nat.mul_comm 10] using congrArg some hvalue
    · refine ⟨?_, List.all_eq_true.mpr fun c => isDigit_of_mem_toString⟩
      rw [toList_toString]
      exact Nat.toDigits_ne_nil
  have hplus : ∀ rest, (toString v).toList ≠ '+' :: rest := by
    intro rest hcons
    have hdigit := isDigit_of_mem_toString (v := v) (c := '+') (by simp [hcons])
    revert hdigit
    decide
  unfold parseU64
  generalize (toString v).toList = text at hdigits hplus
  split
  next rest => exact absurd rfl (hplus rest)
  next => simp only [hdigits, if_pos v.toNat_lt, UInt64.ofNat_toNat]

theorem utf8_eq_map_of_isDigit {s : String} (h : ∀ c ∈ s.toList, c.isDigit = true) :
    Codec.utf8 s = s.toList.map fun c => UInt8.ofNat c.toNat := by
  have hencode : Codec.utf8 s = s.toList.flatMap String.utf8EncodeChar := by
    rw [Codec.utf8, ← String.utf8Encode_toList, List.utf8Encode]
    simp
  have hchar : ∀ c ∈ s.toList, String.utf8EncodeChar c = [UInt8.ofNat c.toNat] := by
    intro c hc
    have hdigit := h c hc
    simp only [Char.isDigit, Bool.and_eq_true, decide_eq_true_eq] at hdigit
    have hle : c.val.toNat ≤ 0x7f := (UInt32.le_iff_toNat_le.mp hdigit.2).trans (by decide)
    exact if_pos hle
  rw [hencode, List.flatMap_congr hchar, List.map_eq_flatMap]

theorem utf8_toString (v : UInt64) :
    Codec.utf8 (toString v) = (Nat.toDigits 10 v.toNat).map fun c => UInt8.ofNat c.toNat := by
  rw [utf8_eq_map_of_isDigit fun c => isDigit_of_mem_toString, toList_toString]

/-- The numbers of eight digits. -/
theorem length_utf8_toString_eq_eight_iff (v : UInt64) :
    (Codec.utf8 (toString v)).length = 8 ↔ 10 ^ 7 ≤ v.toNat ∧ v.toNat < 10 ^ 8 := by
  rw [utf8_toString, List.length_map]
  have h7 := Nat.length_toDigits_le_iff (n := v.toNat) (b := 10) (k := 7) (by decide) (by decide)
  have h8 := Nat.length_toDigits_le_iff (n := v.toNat) (b := 10) (k := 8) (by decide) (by decide)
  omega

/-- Eight digits read as eight bytes give a number of more than eight digits. -/
theorem fromBeBytes_utf8_toString_ne {v : UInt64}
    (h : 10 ^ 7 ≤ v.toNat ∧ v.toNat < 10 ^ 8) : fromBeBytes (Codec.utf8 (toString v)) ≠ v := by
  have hlength := (length_utf8_toString_eq_eight_iff v).mpr h
  rcases hbytes : Codec.utf8 (toString v) with _ | ⟨b, rest⟩
  · simp [hbytes] at hlength
  · have hrest : rest.length = 7 := by simpa [hbytes] using hlength
    have hb : 48 ≤ b.toNat := by
      have hmem : b ∈ Codec.utf8 (toString v) := by simp [hbytes]
      rw [utf8_eq_map_of_isDigit fun c => isDigit_of_mem_toString] at hmem
      obtain ⟨c, hc, rfl⟩ := List.mem_map.mp hmem
      have hdigit := isDigit_of_mem_toString hc
      simp only [Char.isDigit, Bool.and_eq_true, decide_eq_true_eq] at hdigit
      have hlow := UInt32.le_iff_toNat_le.mp hdigit.1
      have hhigh := UInt32.le_iff_toNat_le.mp hdigit.2
      rw [UInt8.toNat_ofNat']
      change 48 ≤ c.toNat at hlow
      change c.toNat ≤ 57 at hhigh
      omega
    intro heq
    have hvalue := congrArg UInt64.toNat heq
    have hlow := le_foldl_bytes rest b.toNat
    have hhigh := foldl_bytes_lt rest b.toNat
    have hbyte := b.toNat_lt
    rw [hrest] at hlow hhigh
    rw [fromBeBytes, List.foldl_cons, Nat.zero_mul, Nat.zero_add, UInt64.toNat_ofNat'] at hvalue
    omega

/-! ## Reading the key -/

theorem getKey_stored {w : World} {raw : Bytes} (hw : w.Succeeds 1)
    (hkey : w.tree[consistencySeqKey]? = some raw) (wrap : String → RaftError) :
    Sys.getKey wrap consistencySeqKey w = (.ok (some raw), w.skip 1) := by
  rw [Sys.getKey, Eff.bind_of_ok (Sys.external_eq_ok_iff.mpr ⟨hw, rfl⟩), Eff.gets_run, ← hkey]
  rfl

/-- Eight bytes are taken for a number. -/
theorem readSequenceNumber_of_length_eq {w : World} {raw : Bytes} (hw : w.Succeeds 1)
    (hkey : w.tree[consistencySeqKey]? = some raw) (hlength : raw.length = 8) :
    readSequenceNumber w = (.ok (fromBeBytes raw), w.skip 1) := by
  rw [readSequenceNumber, Eff.bind_of_ok (getKey_stored hw hkey _)]
  simp only [hlength, if_true]
  exact Eff.pure_run _ _

/-- Another number of bytes is taken for a text. -/
theorem readSequenceNumber_of_length_ne {w : World} {raw : Bytes} {v : UInt64}
    (hw : w.Succeeds 1) (hkey : w.tree[consistencySeqKey]? = some raw) (hlength : raw.length ≠ 8)
    (hparse : (Codec.fromUtf8 raw).bind parseU64 = some v) :
    readSequenceNumber w = (.ok v, w.skip 1) := by
  rw [readSequenceNumber, Eff.bind_of_ok (getKey_stored hw hkey _)]
  simp only [hlength, if_false, hparse]
  exact Eff.pure_run _ _

theorem readSequenceNumber_bytes {w : World} {v : UInt64} (hw : w.Succeeds 1)
    (hkey : w.tree[consistencySeqKey]? = some (toBeBytes v)) :
    readSequenceNumber w = (.ok v, w.skip 1) := by
  rw [readSequenceNumber_of_length_eq hw hkey (length_toBeBytes v), fromBeBytes_toBeBytes]

theorem readSequenceNumber_text_iff {w : World} {v : UInt64} (hw : w.Succeeds 1)
    (hkey : w.tree[consistencySeqKey]? = some (Codec.utf8 (toString v))) :
    (readSequenceNumber w).1 = .ok v ↔ ¬ (10 ^ 7 ≤ v.toNat ∧ v.toNat < 10 ^ 8) := by
  by_cases height : 10 ^ 7 ≤ v.toNat ∧ v.toNat < 10 ^ 8
  · rw [readSequenceNumber_of_length_eq hw hkey ((length_utf8_toString_eq_eight_iff v).mpr height)]
    refine iff_of_false (fun hread => ?_) (not_not.mpr height)
    exact fromBeBytes_utf8_toString_ne height (Except.ok.inj hread)
  · have hparse : (Codec.fromUtf8 (Codec.utf8 (toString v))).bind parseU64 = some v := by
      rw [Codec.fromUtf8_utf8, Option.bind_some, parseU64_toString]
    rw [readSequenceNumber_of_length_ne hw hkey
      (height ∘ (length_utf8_toString_eq_eight_iff v).mp) hparse]
    exact iff_of_true rfl height

/-! ## Writing both copies -/

/-- The manifest is twenty bytes with the number at the end. -/
theorem manifest_tail (version : UInt32) (timestamp v : UInt64) :
    ((toBeBytes32 version ++ toBeBytes timestamp ++ toBeBytes v).drop 12).take 8 = toBeBytes v :=
  rfl

theorem parseSequence_of_manifest {w : World} {dir : String} {version : UInt32}
    {timestamp v : UInt64} (hw : w.Succeeds 1)
    (hmanifest : w.dirs[dir]?.bind Dir.manifest =
      some (toBeBytes32 version ++ toBeBytes timestamp ++ toBeBytes v)) :
    parseSequenceFromCheckpointManifest dir w = (.ok (some v), w.skip 1) := by
  have hlength : ¬ (toBeBytes32 version ++ toBeBytes timestamp ++ toBeBytes v).length < 20 := by
    simp [length_toBeBytes, length_toBeBytes32]
  rw [parseSequenceFromCheckpointManifest, Eff.bind_of_ok (Eff.gets_run _ w), hmanifest]
  simp only
  rw [Eff.bind_of_ok (Sys.external_eq_ok_iff.mpr ⟨hw, rfl⟩), if_neg hlength, manifest_tail,
    fromBeBytes_toBeBytes]
  rfl

/-- The key is read back in both encodings except for the numbers of eight digits, whose text is
taken for bytes.  After a write of both copies every reader gives the number. -/
theorem sequence_number_read_back_iff (v : UInt64) :
    ((∀ w : World, w.Succeeds 1 → w.tree[consistencySeqKey]? = some (toBeBytes v) →
        (readSequenceNumber w).1 = .ok v) ∧
      (∀ w : World, w.Succeeds 1 →
        w.tree[consistencySeqKey]? = some (Codec.utf8 (toString v)) →
        (readSequenceNumber w).1 = .ok v) ∧
      ∀ (dir : String) (w w' : World), writeSequenceNumberDual dir v w = (.ok (), w') →
        w'.Succeeds 1 →
        (readSequenceNumber w').1 = .ok v ∧
          (parseSequenceFromCheckpointManifest dir w').1 = .ok (some v) ∧
          (resolveSequenceNumber none dir w').1 = .ok v) ↔
      ¬ (10 ^ 7 ≤ v.toNat ∧ v.toNat < 10 ^ 8) := by
  constructor
  · rintro ⟨-, htext, -⟩
    obtain ⟨w, hw, hkey⟩ : ∃ w : World, w.Succeeds 1 ∧
        w.tree[consistencySeqKey]? = some (Codec.utf8 (toString v)) := by
      refine ⟨(SurrealStorage.emptyWorld []).withTree
          ((∅ : Tree).insert consistencySeqKey (Codec.utf8 (toString v))),
        World.succeeds_of_quiet rfl 1, ?_⟩
      exact Std.ExtTreeMap.getElem?_insert_self
    exact (readSequenceNumber_text_iff hw hkey).mp (htext w hw hkey)
  · intro hdigits
    refine ⟨fun w hw hkey => ?_, fun w hw hkey => ?_, fun dir w w' hwrite hw => ?_⟩
    · rw [readSequenceNumber_bytes hw hkey]
    · exact (readSequenceNumber_text_iff hw hkey).mpr hdigits
    · obtain ⟨htree, _, hdir, _⟩ := writeSequenceNumberDual_ok hwrite
      have hkey : w'.tree[consistencySeqKey]? = some (toBeBytes v) := by
        rw [htree]
        exact Std.ExtTreeMap.getElem?_insert_self
      have hmanifest : w'.dirs[dir]?.bind Dir.manifest =
          some (toBeBytes32 1 ++ toBeBytes (w.clock.headD 0) ++ toBeBytes v) := by
        rw [hdir]
        rfl
      have hread := readSequenceNumber_bytes hw hkey
      refine ⟨?_, ?_, ?_⟩
      · rw [hread]
      · rw [parseSequence_of_manifest hw hmanifest]
      · rw [resolveSequenceNumber, Eff.bind_of_ok (Eff.attempt_run _ w'), hread]
        rfl

/-- The text of 12345678 is read as the bytes of another number. -/
theorem eight_digits_misread :
    let w := (SurrealStorage.emptyWorld []).withTree
      ((∅ : Tree).insert consistencySeqKey (Codec.utf8 "12345678"))
    toString (12345678 : UInt64) = "12345678" ∧
      (readSequenceNumber w).1 = .ok 0x3132333435363738 := by
  refine ⟨by decide, ?_⟩
  decide +kernel

end OpenraftSurrealkv
