import OpenraftSurrealkv.Lib.Effect
import OpenraftSurrealkv.Types

/-!
# Sending a snapshot

`fullSnapshot` sends the bytes of a snapshot to another node, one request per
chunk.  The other side is a `GrpcLink`: it answers each request, fails it or is
cancelled in the middle of it, in any way that may depend on what was sent
before.  The state is the list of the requests handed to it.

`SentUpTo` says what the requests sent so far are, `SentUpTo.send` is one round
of the loop, and `sendChunks_sent` a whole run of it.
-/

namespace OpenraftSurrealkv

open Postcard

structure InstallSnapshotRequest where
  vote : Vote
  snapshotMeta : SnapshotMeta
  offset : UInt64
  data : Bytes
  done : Bool
deriving DecidableEq, Repr

/-- How a request ends. -/
inductive RpcOutcome where
  | cancelled (closed : String)
  | failed (err : RaftError)
  | answered (vote : Vote)
deriving DecidableEq, Repr

inductive StreamingError where
  | closed (reason : String)
  | network (err : RaftError)
  /-- An addition of the loop panics. -/
  | overflow
  /-- The loop was cut short by the model. -/
  | outOfFuel
deriving DecidableEq, Repr

/-- The connection to another node. -/
structure GrpcLink where
  getClient : Except RaftError Unit
  /-- The outcome of a request, after others. -/
  respond : List InstallSnapshotRequest → InstallSnapshotRequest → RpcOutcome

/-- No request fails and nothing is cancelled. -/
structure GrpcLink.Reliable (link : GrpcLink) : Prop where
  connected : link.getClient = .ok ()
  answers : ∀ sent req, ∃ vote, link.respond sent req = .answered vote

/-- An operation that sends requests. -/
abbrev Sending (α : Type) := Eff (List InstallSnapshotRequest) StreamingError α

/-- Hand one request to the client and wait for its end.  Returns the vote of the answer. -/
def GrpcLink.installSnapshot (link : GrpcLink) (req : InstallSnapshotRequest) : Sending Vote := do
  let outcome ← Eff.gets fun sent => link.respond sent req
  Eff.modify fun sent => sent ++ [req]
  match outcome with
  | .cancelled closed => Eff.fail (.closed closed)
  | .failed err => Eff.fail (.network err)
  | .answered vote => pure vote

/-- `option.snapshot_chunk_size().unwrap_or(1024 * 1024).max(1)`. -/
def effectiveChunkSize (snapshotChunkSize : Option UInt64) : UInt64 :=
  max (snapshotChunkSize.getD (1024 * 1024)) 1

/-- The loop over the chunks from an offset on.  Each round sends at least one byte, so the number
of bytes left is fuel enough. -/
def sendChunks (link : GrpcLink) (vote : Vote) (snapshot : Snapshot) (chunkSize : UInt64) :
    Nat → Nat → Vote → Sending Vote
  | 0, offset, lastVote =>
      if offset < snapshot.snapshot.length then Eff.fail .outOfFuel else pure lastVote
  | fuel + 1, offset, lastVote =>
      if offset < snapshot.snapshot.length then
        if 2 ^ 64 ≤ offset + chunkSize.toNat then Eff.fail .overflow
        else do
          let stop := min (offset + chunkSize.toNat) snapshot.snapshot.length
          let answer ← link.installSnapshot {
            vote := vote
            snapshotMeta := snapshot.snapshotMeta
            offset := UInt64.ofNat offset
            data := (snapshot.snapshot.take stop).drop offset
            done := stop = snapshot.snapshot.length }
          sendChunks link vote snapshot chunkSize fuel stop answer
      else pure lastVote

/-- Send a snapshot.  Returns the vote of the last answer. -/
def fullSnapshot (link : GrpcLink) (vote : Vote) (snapshot : Snapshot)
    (snapshotChunkSize : Option UInt64) (fuel : Nat) : Sending Vote := do
  Eff.ofExcept (link.getClient.mapError StreamingError.network)
  if snapshot.snapshot = [] then
    link.installSnapshot ⟨vote, snapshot.snapshotMeta, 0, [], true⟩
  else
    sendChunks link vote snapshot (effectiveChunkSize snapshotChunkSize) fuel 0 vote

/-! ## One round -/

theorem one_le_effectiveChunkSize (snapshotChunkSize : Option UInt64) :
    1 ≤ (effectiveChunkSize snapshotChunkSize).toNat := by
  have hle : (1 : UInt64) ≤ effectiveChunkSize snapshotChunkSize := by
    rw [effectiveChunkSize]
    change (1 : UInt64) ≤ if _ ≤ (1 : UInt64) then 1 else _
    split
    next => exact UInt64.le_refl 1
    next h => exact UInt64.le_of_lt (UInt64.not_le.mp h)
  exact UInt64.le_iff_toNat_le.mp hle

theorem GrpcLink.Reliable.installSnapshot {link : GrpcLink} (h : link.Reliable)
    (req : InstallSnapshotRequest) (sent : List InstallSnapshotRequest) :
    ∃ vote, link.installSnapshot req sent = (.ok vote, sent ++ [req]) := by
  obtain ⟨vote, hvote⟩ := h.answers sent req
  refine ⟨vote, ?_⟩
  rw [GrpcLink.installSnapshot, Eff.bind_of_ok (Eff.gets_run _ _),
    Eff.bind_of_ok (Eff.modify_run _ _), hvote]
  rfl

theorem getElem?_concat_eq_some {α : Type} {l : List α} {a b : α} {i : Nat}
    (h : (l ++ [a])[i]? = some b) : (i < l.length ∧ l[i]? = some b) ∨ (l.length = i ∧ a = b) := by
  rcases Nat.lt_trichotomy i l.length with hlt | heq | hgt
  · rw [List.getElem?_append_left hlt] at h
    exact .inl ⟨hlt, h⟩
  · subst heq
    simp at h
    exact .inr ⟨rfl, h⟩
  · rw [List.getElem?_eq_none (by simp; omega)] at h
    cases h

/-- The requests for the bytes before an offset, none of them the last one before the end. -/
structure SentUpTo (bytes : Bytes) (chunkSize : UInt64) (offset : Nat)
    (sent : List InstallSnapshotRequest) : Prop where
  data : (sent.map InstallSnapshotRequest.data).flatten = bytes.take offset
  offsets : ∀ i req, sent[i]? = some req →
    req.offset.toNat = ((sent.take i).map fun r => r.data.length).sum
  nonempty : ∀ req ∈ sent, req.data ≠ []
  done : ∀ i req, sent[i]? = some req →
    (req.done = true ↔ i + 1 = sent.length ∧ offset = bytes.length)
  fits : ∀ req ∈ sent, req.offset.toNat + chunkSize.toNat < 2 ^ 64

theorem SentUpTo.nil (bytes : Bytes) (chunkSize : UInt64) : SentUpTo bytes chunkSize 0 [] where
  data := by simp
  offsets := by simp
  nonempty := by simp
  done := by simp
  fits := by simp

/-- The lengths sent so far add up to the offset. -/
theorem SentUpTo.sum_lengths {bytes : Bytes} {chunkSize : UInt64} {offset : Nat}
    {sent : List InstallSnapshotRequest} (h : SentUpTo bytes chunkSize offset sent)
    (hle : offset ≤ bytes.length) : (sent.map fun r => r.data.length).sum = offset := by
  have hlength := congrArg List.length h.data
  rw [List.length_flatten, List.map_map, List.length_take, Nat.min_eq_left hle] at hlength
  exact hlength

/-- One more chunk, up to `stop`. -/
theorem SentUpTo.send {bytes : Bytes} {chunkSize : UInt64} {offset stop : Nat}
    {sent : List InstallSnapshotRequest} {req : InstallSnapshotRequest}
    (h : SentUpTo bytes chunkSize offset sent) (hlt : offset < stop) (hstop : stop ≤ bytes.length)
    (hfits : offset + chunkSize.toNat < 2 ^ 64) (hoffset : req.offset = UInt64.ofNat offset)
    (hdata : req.data = (bytes.take stop).drop offset) (hdone : req.done = (stop = bytes.length)) :
    SentUpTo bytes chunkSize stop (sent ++ [req]) := by
  have htoNat : req.offset.toNat = offset := by
    rw [hoffset, UInt64.toNat_ofNat_of_lt' (by simp only [UInt64.size]; omega)]
  exact {
    data := by
      have htake : bytes.take offset = (bytes.take stop).take offset := by
        rw [List.take_take, Nat.min_eq_left hlt.le]
      simp [h.data, hdata, htake]
    offsets := by
      intro i r hr
      rcases getElem?_concat_eq_some hr with ⟨hi, hold⟩ | ⟨rfl, rfl⟩
      · rw [List.take_append_of_le_length hi.le]
        exact h.offsets i r hold
      · rw [List.take_left, htoNat, h.sum_lengths (hlt.le.trans hstop)]
    nonempty := by
      intro r hr
      rcases List.mem_append.mp hr with hold | hnew
      · exact h.nonempty r hold
      · rw [List.mem_singleton.mp hnew, hdata]
        exact List.ne_nil_of_length_pos (by simp; omega)
    done := by
      intro i r hr
      rcases getElem?_concat_eq_some hr with ⟨hi, hold⟩ | ⟨rfl, rfl⟩
      · simp only [h.done i r hold, List.length_append, List.length_singleton]
        omega
      · simp [hdone]
    fits := by
      intro r hr
      rcases List.mem_append.mp hr with hold | hnew
      · exact h.fits r hold
      · rw [List.mem_singleton.mp hnew, htoNat]
        exact hfits }

/-! ## The loop -/

-- A chunk size beyond the end is only ever added to the offset zero.  A smaller one is below
-- `2 ^ 63`, and so is every offset.
theorem sendChunks_sent {link : GrpcLink} (hlink : link.Reliable) {vote : Vote}
    {snapshot : Snapshot} {chunkSize : UInt64} (hpos : 1 ≤ chunkSize.toNat)
    (hlen : snapshot.snapshot.length < 2 ^ 63) :
    ∀ {fuel offset : Nat} {lastVote : Vote} {sent : List InstallSnapshotRequest},
      snapshot.snapshot.length - offset ≤ fuel → offset ≤ snapshot.snapshot.length →
      offset = 0 ∨ chunkSize.toNat < 2 ^ 63 ∨ offset = snapshot.snapshot.length →
      SentUpTo snapshot.snapshot chunkSize offset sent →
      ∃ vote' sent', sendChunks link vote snapshot chunkSize fuel offset lastVote sent =
          (.ok vote', sent') ∧
        SentUpTo snapshot.snapshot chunkSize snapshot.snapshot.length sent' := by
  intro fuel
  induction fuel with
  | zero =>
      intro offset lastVote sent hfuel hle _ h
      have hend : offset = snapshot.snapshot.length := by omega
      refine ⟨lastVote, sent, ?_, hend ▸ h⟩
      rw [sendChunks, if_neg (by omega)]
      rfl
  | succ fuel ih =>
      intro offset lastVote sent hfuel hle hsize h
      by_cases hlt : offset < snapshot.snapshot.length
      · have hfits : offset + chunkSize.toNat < 2 ^ 64 := by
          have := chunkSize.toNat_lt
          omega
        have hstop : offset < min (offset + chunkSize.toNat) snapshot.snapshot.length := by omega
        obtain ⟨answer, hanswer⟩ := hlink.installSnapshot {
          vote := vote
          snapshotMeta := snapshot.snapshotMeta
          offset := UInt64.ofNat offset
          data := (snapshot.snapshot.take
            (min (offset + chunkSize.toNat) snapshot.snapshot.length)).drop offset
          done := min (offset + chunkSize.toNat) snapshot.snapshot.length =
            snapshot.snapshot.length } sent
        rw [sendChunks, if_pos hlt, if_neg (Nat.not_le.mpr hfits), Eff.bind_of_ok hanswer]
        refine ih (by omega) (Nat.min_le_right _ _) (by omega) ?_
        exact h.send hstop (Nat.min_le_right _ _) hfits rfl rfl (by simp)
      · refine ⟨lastVote, sent, ?_, ?_⟩
        · rw [sendChunks, if_neg hlt]
          rfl
        · have hend : offset = snapshot.snapshot.length := by omega
          exact hend ▸ h

/-! ## Whole snapshots -/

/-- When every request is answered, the loop ends within one round per byte and the requests are
the bytes of the snapshot, cut into chunks. -/
theorem fullSnapshot_lossless {link : GrpcLink} (hlink : link.Reliable) (vote : Vote)
    (snapshot : Snapshot) (hlen : snapshot.snapshot.length < 2 ^ 63)
    (snapshotChunkSize : Option UInt64) {fuel : Nat} (hfuel : snapshot.snapshot.length ≤ fuel) :
    ∃ vote' sent,
      fullSnapshot link vote snapshot snapshotChunkSize fuel [] = (.ok vote', sent) ∧
        (sent.map InstallSnapshotRequest.data).flatten = snapshot.snapshot ∧
        (∀ i req, sent[i]? = some req →
          req.offset.toNat = ((sent.take i).map fun r => r.data.length).sum) ∧
        (snapshot.snapshot ≠ [] → ∀ req ∈ sent, req.data ≠ []) ∧
        sent ≠ [] ∧
        (∀ i req, sent[i]? = some req → (req.done = true ↔ i + 1 = sent.length)) ∧
        ∀ req ∈ sent,
          req.offset.toNat + (effectiveChunkSize snapshotChunkSize).toNat < 2 ^ 64 := by
  have hclient : (Eff.ofExcept (link.getClient.mapError StreamingError.network) : Sending Unit) [] =
      (.ok (), []) := by
    rw [hlink.connected]
    rfl
  by_cases hempty : snapshot.snapshot = []
  · obtain ⟨answer, hanswer⟩ := hlink.installSnapshot ⟨vote, snapshot.snapshotMeta, 0, [], true⟩ []
    refine ⟨answer, [⟨vote, snapshot.snapshotMeta, 0, [], true⟩], ?_, ?_⟩
    · rw [fullSnapshot, Eff.bind_of_ok hclient, if_pos hempty, hanswer]
      rfl
    · have hbound := (effectiveChunkSize snapshotChunkSize).toNat_lt
      simpa [hempty, List.getElem?_singleton] using hbound
  · obtain ⟨vote', sent, hrun, h⟩ := sendChunks_sent hlink
      (one_le_effectiveChunkSize snapshotChunkSize) hlen hfuel (Nat.zero_le _) (.inl rfl)
      (.nil ..)
    refine ⟨vote', sent, ?_, ?_, h.offsets, fun _ => h.nonempty, ?_, ?_, h.fits⟩
    · rw [fullSnapshot, Eff.bind_of_ok hclient, if_neg hempty, hrun]
    · rw [h.data, List.take_length]
    · rintro rfl
      exact hempty (by simpa using h.data.symm)
    · intro i req hreq
      simp [h.done i req hreq]

/-- A link that answers every request with the vote it came with. -/
def GrpcLink.echo : GrpcLink := ⟨.ok (), fun _ req => .answered req.vote⟩

theorem GrpcLink.echo_reliable : GrpcLink.echo.Reliable := ⟨rfl, fun _ req => ⟨req.vote, rfl⟩⟩

/-- Three bytes in chunks of two. -/
theorem three_bytes_sent :
    ∃ vote' sent,
      fullSnapshot .echo ⟨1, none, true⟩ ⟨⟨none, ⟨none, ⟨[], []⟩⟩, "s"⟩, [7, 8, 9]⟩ (some 2) 3 [] =
          (.ok vote', sent) ∧
        (sent.map InstallSnapshotRequest.data).flatten = [7, 8, 9] := by
  obtain ⟨vote', sent, hrun, hdata, _⟩ := fullSnapshot_lossless GrpcLink.echo_reliable
    ⟨1, none, true⟩ ⟨⟨none, ⟨none, ⟨[], []⟩⟩, "s"⟩, [7, 8, 9]⟩ (by decide) (some 2)
    (Nat.le_refl 3)
  exact ⟨vote', sent, hrun, hdata⟩

end OpenraftSurrealkv
