import OpenraftSurrealkv.Properties.Calls
import Mathlib.Data.List.Forall2

/-!
# Sending a snapshot over the network

The chunks of a snapshot are sent one call after the other, each tried again when
it fails.  When the transfer is reported as done, the handler of the other node
has executed the request of every chunk, in the order of the snapshot, whatever
the network lost or delayed on the way and however often it executed an attempt.
-/

namespace OpenraftSurrealkv

open Relation Postcard Rpc

/-! ## Transfers over any link -/

/-- Every request was answered when it was sent. -/
def GrpcLink.Answered (link : GrpcLink) (sent : List InstallSnapshotRequest) : Prop :=
  ∀ i req, sent[i]? = some req → ∃ vote, link.respond (sent.take i) req = .answered vote

theorem GrpcLink.Answered.nil (link : GrpcLink) : link.Answered [] := by
  intro i req h
  cases h

theorem GrpcLink.Answered.concat {link : GrpcLink} {sent : List InstallSnapshotRequest}
    {req : InstallSnapshotRequest} {vote : Vote} (h : link.Answered sent)
    (hreq : link.respond sent req = .answered vote) : link.Answered (sent ++ [req]) := by
  intro i r hr
  rcases getElem?_concat_eq_some hr with ⟨hi, hold⟩ | ⟨rfl, rfl⟩
  · rw [List.take_append_of_le_length hi.le]
    exact h i r hold
  · rw [List.take_left]
    exact ⟨vote, hreq⟩

theorem GrpcLink.Answered.front {link : GrpcLink} {front : List InstallSnapshotRequest}
    {last : InstallSnapshotRequest} (h : link.Answered (front ++ [last])) :
    link.Answered front ∧ ∃ vote, link.respond front last = .answered vote := by
  constructor
  · intro i req hreq
    have hi := (List.getElem?_eq_some_iff.mp hreq).1
    have hsame := h i req (by rw [List.getElem?_append_left hi]; exact hreq)
    rw [List.take_append_of_le_length hi.le] at hsame
    exact hsame
  · have hlast := h front.length last (by simp)
    rw [List.take_left] at hlast
    exact hlast

/-- A request that succeeds was answered. -/
theorem GrpcLink.installSnapshot_ok {link : GrpcLink} {req : InstallSnapshotRequest}
    {sent sent' : List InstallSnapshotRequest} {vote : Vote}
    (h : link.installSnapshot req sent = (.ok vote, sent')) :
    link.respond sent req = .answered vote ∧ sent' = sent ++ [req] := by
  rw [GrpcLink.installSnapshot, Eff.bind_of_ok (Eff.gets_run _ _),
    Eff.bind_of_ok (Eff.modify_run _ _)] at h
  cases hout : link.respond sent req with
  | cancelled closed =>
      rw [hout] at h
      cases h
  | failed err =>
      rw [hout] at h
      cases h
  | answered vote' =>
      rw [hout] at h
      cases h
      exact ⟨rfl, rfl⟩

/-- A loop that succeeds sent the rest of the bytes, and every request was answered. -/
theorem sendChunks_ok {link : GrpcLink} {vote : Vote} {snapshot : Snapshot} {chunkSize : UInt64}
    (hpos : 1 ≤ chunkSize.toNat) :
    ∀ {fuel offset : Nat} {lastVote vote' : Vote} {sent sent' : List InstallSnapshotRequest},
      offset ≤ snapshot.snapshot.length → SentUpTo snapshot.snapshot chunkSize offset sent →
      link.Answered sent →
      sendChunks link vote snapshot chunkSize fuel offset lastVote sent = (.ok vote', sent') →
        SentUpTo snapshot.snapshot chunkSize snapshot.snapshot.length sent' ∧
          link.Answered sent' := by
  intro fuel
  induction fuel with
  | zero =>
      intro offset lastVote vote' sent sent' hle h hanswered hrun
      rw [sendChunks] at hrun
      by_cases hlt : offset < snapshot.snapshot.length
      · rw [if_pos hlt] at hrun
        cases hrun
      · rw [if_neg hlt] at hrun
        cases hrun
        obtain rfl : offset = snapshot.snapshot.length := by omega
        exact ⟨h, hanswered⟩
  | succ fuel ih =>
      intro offset lastVote vote' sent sent' hle h hanswered hrun
      rw [sendChunks] at hrun
      by_cases hlt : offset < snapshot.snapshot.length
      · rw [if_pos hlt] at hrun
        by_cases hfits : 2 ^ 64 ≤ offset + chunkSize.toNat
        · rw [if_pos hfits] at hrun
          cases hrun
        · rw [if_neg hfits] at hrun
          obtain ⟨answer, sent₁, hone, hrest⟩ := Eff.bind_eq_ok_iff.mp hrun
          obtain ⟨hanswer, rfl⟩ := GrpcLink.installSnapshot_ok hone
          have hstop : offset < min (offset + chunkSize.toNat) snapshot.snapshot.length := by omega
          refine ih (Nat.min_le_right _ _) ?_ (hanswered.concat hanswer) hrest
          exact h.send hstop (Nat.min_le_right _ _) (by omega) rfl rfl (by simp)
      · rw [if_neg hlt] at hrun
        cases hrun
        obtain rfl : offset = snapshot.snapshot.length := by omega
        exact ⟨h, hanswered⟩

/-- A transfer that succeeds sent the bytes of the snapshot, and every request was answered. -/
theorem fullSnapshot_ok {link : GrpcLink} {vote vote' : Vote} {snapshot : Snapshot}
    {snapshotChunkSize : Option UInt64} {fuel : Nat} {sent : List InstallSnapshotRequest}
    (h : fullSnapshot link vote snapshot snapshotChunkSize fuel [] = (.ok vote', sent)) :
    (sent.map InstallSnapshotRequest.data).flatten = snapshot.snapshot ∧
      (∀ i req, sent[i]? = some req → (req.done = true ↔ i + 1 = sent.length)) ∧
      link.Answered sent := by
  obtain ⟨_, s, hclient, hrun⟩ := Eff.bind_eq_ok_iff.mp h
  obtain rfl : s = [] := (Prod.mk.inj hclient).2.symm
  by_cases hempty : snapshot.snapshot = []
  · rw [if_pos hempty] at hrun
    obtain ⟨hanswer, rfl⟩ := GrpcLink.installSnapshot_ok hrun
    refine ⟨by simp [hempty], ?_, (GrpcLink.Answered.nil link).concat hanswer⟩
    intro i req hreq
    rcases getElem?_concat_eq_some hreq with ⟨hi, _⟩ | ⟨rfl, rfl⟩
    · exact absurd hi (Nat.not_lt_zero i)
    · simp
  · rw [if_neg hempty] at hrun
    obtain ⟨hsent, hanswered⟩ := sendChunks_ok (one_le_effectiveChunkSize snapshotChunkSize)
      (Nat.zero_le _) (.nil ..) (.nil link) hrun
    refine ⟨?_, ?_, hanswered⟩
    · rw [hsent.data, List.take_length]
    · intro i req hreq
      simp [hsent.done i req hreq]

/-! ## Transfers over the network -/

/-- A client, the node it is connected to, and the name of its calls. -/
structure Peer (msgs : RaftMessages) (C σ : Type) where
  client : RaftGrpcClient
  showStatus : Status → String
  handler : RaftServiceHandler msgs σ
  id : C

variable {msgs : RaftMessages} {C σ : Type}

namespace Peer

/-- The call for one chunk. -/
def install (p : Peer msgs C σ) (req : InstallSnapshotRequest) :
    Eff (PeerNetwork C σ) RaftError Vote :=
  p.client.installSnapshot p.showStatus p.handler p.id req

/-- The network after the calls for some chunks. -/
def afterChunks (p : Peer msgs C σ) (net : PeerNetwork C σ)
    (sent : List InstallSnapshotRequest) : PeerNetwork C σ :=
  sent.foldl (fun n req => (p.install req n).2) net

/-- How the call for a chunk ends. -/
def outcome : Except RaftError Vote → RpcOutcome
  | .ok vote => .answered vote
  | .error err => .failed err

theorem outcome_eq_answered {r : Except RaftError Vote} {vote : Vote}
    (h : outcome r = .answered vote) : r = .ok vote := by
  cases r with
  | ok vote' =>
      cases h
      rfl
  | error err => cases h

/-- The link to the node over a network, with no cancellation. -/
def link (p : Peer msgs C σ) (net : PeerNetwork C σ) : GrpcLink where
  getClient := .ok ()
  respond sent req := outcome (p.install req (p.afterChunks net sent)).1

variable {p : Peer msgs C σ} {net : PeerNetwork C σ} {s₀ : σ}

theorem afterChunks_concat (sent : List InstallSnapshotRequest) (req : InstallSnapshotRequest) :
    p.afterChunks net (sent ++ [req]) = (p.install req (p.afterChunks net sent)).2 := by
  rw [afterChunks, List.foldl_append]
  rfl

theorem sound_install (h : net.Sound (RaftGrpcServer.serve p.handler) s₀)
    (req : InstallSnapshotRequest) :
    (p.install req net).2.Sound (RaftGrpcServer.serve p.handler) s₀ ∧
      net.Grows (p.install req net).2 :=
  sound_call (m := .installSnapshot) h (Prod.eta (p.install req net)).symm

/-- The calls for chunks keep a network sound. -/
theorem sound_afterChunks (h : net.Sound (RaftGrpcServer.serve p.handler) s₀)
    (sent : List InstallSnapshotRequest) :
    (p.afterChunks net sent).Sound (RaftGrpcServer.serve p.handler) s₀ ∧
      net.Grows (p.afterChunks net sent) := by
  induction sent using List.reverseRecOn with
  | nil => exact ⟨h, .refl net⟩
  | append_singleton sent req ih =>
      rw [afterChunks_concat]
      obtain ⟨hsound, hgrows⟩ := sound_install ih.1 req
      exact ⟨hsound, ih.2.trans hgrows⟩

/-- The execution is one of the request of a chunk, and the handler returned a response. -/
def Installs (p : Peer msgs C σ) (req : InstallSnapshotRequest)
    (e : Execution C RaftMessage Status Bytes σ) : Prop :=
  ∃ vote : Vote, p.handler.Executed p.id .installSnapshot req vote e

/-- A chunk that was answered was executed meanwhile. -/
theorem installs_of_answered {req : InstallSnapshotRequest} {vote : Vote}
    (h : net.Sound (RaftGrpcServer.serve p.handler) s₀)
    (hanswer : outcome (p.install req net).1 = .answered vote) :
    ∃ e ∈ (p.install req net).2.executed.drop net.executed.length, p.Installs req e := by
  have hcall : p.install req net = (.ok vote, (p.install req net).2) :=
    Prod.ext (outcome_eq_answered hanswer) rfl
  obtain ⟨e, he, hexecuted⟩ := RaftGrpcClient.call_ok (m := .installSnapshot) h hcall
  exact ⟨e, he, vote, hexecuted⟩

/-- Chunks that were all answered were executed one after the other. -/
theorem executed_of_answered (h : net.Sound (RaftGrpcServer.serve p.handler) s₀)
    (sent : List InstallSnapshotRequest) (hanswered : (p.link net).Answered sent) :
    ∃ es : List (Execution C RaftMessage Status Bytes σ),
      es.Sublist ((p.afterChunks net sent).executed.drop net.executed.length) ∧
        List.Forall₂ p.Installs sent es := by
  induction sent using List.reverseRecOn with
  | nil => exact ⟨[], List.nil_sublist _, .nil⟩
  | append_singleton sent req ih =>
      obtain ⟨hfront, vote, hlast⟩ := hanswered.front
      obtain ⟨es, hes, hinstalls⟩ := ih hfront
      obtain ⟨hsound, hgrows⟩ := sound_afterChunks h sent
      obtain ⟨e, he, hinstall⟩ := installs_of_answered hsound hlast
      -- the executions during the last call come after all those before it
      obtain ⟨new, hnew⟩ := (sound_install hsound req).2.executed
      rw [← hnew, List.drop_left] at he
      refine ⟨es ++ [e], ?_, List.rel_append hinstalls (.cons hinstall .nil)⟩
      rw [afterChunks_concat, ← hnew, List.drop_append_of_le_length hgrows.executed.length_le]
      exact hes.append (List.singleton_sublist.mpr he)

/-- When a transfer succeeds, the chunks that were sent make up the snapshot, only the last is
marked as such, and the node executed their requests in this order. -/
theorem transfer_executed {turns : List (Turn C RaftMessage Status)} {vote vote' : Vote}
    {snapshot : Snapshot} {snapshotChunkSize : Option UInt64} {fuel : Nat}
    {sent : List InstallSnapshotRequest}
    (hreach : ReflTransGen (PeerStep p.handler fun _ => True) (.start s₀ turns) net)
    (hsend : fullSnapshot (p.link net) vote snapshot snapshotChunkSize fuel [] =
      (.ok vote', sent)) :
    (sent.map InstallSnapshotRequest.data).flatten = snapshot.snapshot ∧
      (∀ i req, sent[i]? = some req → (req.done = true ↔ i + 1 = sent.length)) ∧
      ∃ es : List (Execution C RaftMessage Status Bytes σ),
        es.Sublist ((p.afterChunks net sent).executed.drop net.executed.length) ∧
          List.Forall₂ p.Installs sent es := by
  obtain ⟨hdata, hdone, hanswered⟩ := fullSnapshot_ok hsend
  have hsound := (sound_run (.start s₀ turns) hreach).1
  exact ⟨hdata, hdone, executed_of_answered hsound sent hanswered⟩

/-- Three bytes in two chunks, the first of which is lost once. -/
def threeBytes : Snapshot := ⟨⟨none, ⟨none, ⟨[], []⟩⟩, "s"⟩, [7, 8, 9]⟩

def chunkTurns : List (Turn Unit RaftMessage Status) :=
  [⟨[], .timedOut⟩, ⟨[.execute 1], .replied⟩, ⟨[.execute 0, .execute 2], .replied⟩]

def grantingPeer : Peer .fields Unit Nat :=
  ⟨⟨1, ⟨"http://127.0.0.1:50051", 0⟩, .default⟩, Status.message, .granting, ()⟩

theorem transfer_executed_three :
    ∃ (vote' : Vote) (sent : List InstallSnapshotRequest)
      (es : List (Execution Unit RaftMessage Status Bytes Nat)),
      fullSnapshot (grantingPeer.link (.start 0 chunkTurns)) ⟨1, none, true⟩ threeBytes (some 2) 3
        [] = (.ok vote', sent) ∧
      (sent.map InstallSnapshotRequest.data).flatten = [7, 8, 9] ∧
      List.Forall₂ grantingPeer.Installs sent es := by
  have htest : (fullSnapshot (grantingPeer.link (.start 0 chunkTurns)) ⟨1, none, true⟩ threeBytes
      (some 2) 3).succeeds [] (fun _ _ => true) = true := by
    decide +kernel
  obtain ⟨vote', sent, hsend, _⟩ := Eff.exists_of_succeeds htest
  obtain ⟨hdata, _, es, _, hes⟩ := transfer_executed .refl hsend
  exact ⟨vote', sent, es, hsend, hdata, hes⟩

end Peer

end OpenraftSurrealkv
