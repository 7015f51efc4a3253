import OpenraftSurrealkv.Network.Rpc
import Mathlib.Logic.Relation

/-!
# Calls between nodes

Clients call a node over a network that loses, delays and reorders, while others
send to it too.  However the steps interleave,

* a call that returns a response was executed by the server during the call: what
  was executed is the request of the call, and the response is the handler's
  (`response_from_handler`),
* no request is executed more often than it was tried, not even long after the
  call is over, and nothing else is executed in its name
  (`executed_at_most_attempts`),
* a call fails only if its request cannot be serialized or after all its
  attempts failed (`error_after_all_attempts`).
-/

namespace OpenraftSurrealkv

open Relation Postcard Rpc

variable {msgs : RaftMessages} {C σ : Type}

/-- Others on the network act, or a client makes a call, each for a call that is allowed. -/
inductive PeerStep (handler : RaftServiceHandler msgs σ) (allowed : C → Prop) :
    PeerNetwork C σ → PeerNetwork C σ → Prop
  | act {net : PeerNetwork C σ} (action : Action C RaftMessage) :
      (∀ request, action = .send request → allowed request.call) →
      PeerStep handler allowed net (net.act (RaftGrpcServer.serve handler) action)
  | call {net : PeerNetwork C σ} (client : RaftGrpcClient) (showStatus : Status → String)
      (m : RaftMethod) (id : C) (req : msgs.Request m) : allowed id →
      PeerStep handler allowed net (client.call showStatus handler m id req net).2

variable {handler : RaftServiceHandler msgs σ} {allowed : C → Prop} {s₀ : σ}
  {net net' : PeerNetwork C σ}

/-! ## Steps -/

section

variable {client : RaftGrpcClient} {showStatus : Status → String} {m : RaftMethod} {id : C}
  {req : msgs.Request m}

/-- A call leaves the network as it is or as its attempts leave it. -/
theorem call_state {r : Except RaftError (msgs.Response m)}
    (h : client.call showStatus handler m id req net = (r, net')) :
    (∃ err, (msgs.requestCodec m).toStdvec req = .error err ∧ net' = net) ∨
    ∃ payload r', (msgs.requestCodec m).toStdvec req = .ok payload ∧
      client.attempts showStatus handler m id payload net = (r', net') := by
  cases hpayload : (msgs.requestCodec m).toStdvec req with
  | error err =>
      rw [RaftGrpcClient.call_of_toStdvec_error hpayload] at h
      exact .inl ⟨err, rfl, (Prod.mk.inj h).2.symm⟩
  | ok payload =>
      rcases hloop : client.attempts showStatus handler m id payload net with ⟨e | response, net₁⟩
      · rw [RaftGrpcClient.call_of_attempts_error hpayload hloop] at h
        exact .inr ⟨payload, .error e, rfl, hloop.trans (by rw [(Prod.mk.inj h).2])⟩
      · rw [RaftGrpcClient.call_of_attempts_ok hpayload hloop] at h
        exact .inr ⟨payload, .ok response, rfl, hloop.trans (by rw [(Prod.mk.inj h).2])⟩

theorem sound_call {r : Except RaftError (msgs.Response m)}
    (hsound : net.Sound (RaftGrpcServer.serve handler) s₀)
    (h : client.call showStatus handler m id req net = (r, net')) :
    net'.Sound (RaftGrpcServer.serve handler) s₀ ∧ net.Grows net' := by
  rcases call_state h with ⟨_, _, rfl⟩ | ⟨payload, r', _, hloop⟩
  · exact ⟨hsound, .refl _⟩
  · exact hsound.retry hloop

end

theorem PeerStep.sound (h : net.Sound (RaftGrpcServer.serve handler) s₀)
    (hstep : PeerStep handler allowed net net') :
    net'.Sound (RaftGrpcServer.serve handler) s₀ ∧ net.Grows net' := by
  cases hstep with
  | act action _ => exact ⟨h.act action, Rpc.Network.grows_act _ net action⟩
  | call client showStatus m id req _ => exact sound_call h rfl

/-- A network that calls lead to is sound. -/
theorem sound_run (h : net.Sound (RaftGrpcServer.serve handler) s₀)
    (hrun : ReflTransGen (PeerStep handler allowed) net net') :
    net'.Sound (RaftGrpcServer.serve handler) s₀ ∧ net.Grows net' := by
  induction hrun with
  | refl => exact ⟨h, .refl net⟩
  | tail _ hstep ih =>
      obtain ⟨hsound, hgrows⟩ := hstep.sound ih.1
      exact ⟨hsound, ih.2.trans hgrows⟩

/-! ## Responses -/

/-- A call that returns a response was executed during the call: the message executed is its
request, and its response is what the handler returned and the server replied, in a state that the
server was in. -/
theorem response_from_handler {client : RaftGrpcClient} {showStatus : Status → String}
    {m : RaftMethod} {id : C} {req : msgs.Request m} {turns : List (Turn C RaftMessage Status)}
    {resp : msgs.Response m}
    (hreach : ReflTransGen (PeerStep handler fun _ => True) (.start s₀ turns) net)
    (hcall : client.call showStatus handler m id req net = (.ok resp, net')) :
    Rpc.Network.Linked (RaftGrpcServer.serve handler) s₀ net'.executed net'.server ∧
      ∃ e ∈ net'.executed.drop net.executed.length, handler.Executed id m req resp e := by
  have hsound := (sound_run (.start s₀ turns) hreach).1
  exact ⟨(sound_call hsound hcall).1.linked, RaftGrpcClient.call_ok hsound hcall⟩

/-- The first attempt of a call times out and is executed all the same, after the second. -/
def lateTurns : List (Turn Unit RaftMessage Status) :=
  [⟨[], .timedOut⟩, ⟨[.execute 1, .execute 0], .replied⟩]

/-- A client of node `1` requests a vote. -/
def voteCall : Eff (PeerNetwork Unit Nat) RaftError VoteResponse :=
  RaftGrpcClient.requestVote ⟨1, ⟨"http://127.0.0.1:50051", 0⟩, .default⟩ Status.message .granting
    () ⟨⟨3, some 2, false⟩, some ⟨2, 7⟩⟩

/-- The entries of a leader after the seventh: a request and a membership. -/
def twoEntries : AppendEntriesRequest where
  vote := ⟨3, some 2, true⟩
  prevLogId := some ⟨2, 7⟩
  entries := [⟨⟨3, 8⟩, .normal (.set "k" [1, 2])⟩,
    ⟨⟨3, 9⟩, .membership ⟨[[1, 2]], [(1, ⟨"a"⟩), (2, ⟨"b"⟩)]⟩⟩]
  leaderCommit := some ⟨2, 6⟩

/-- A client of node `1` sends them. -/
def appendCall : Eff (PeerNetwork Unit Nat) RaftError AppendEntriesResponse :=
  RaftGrpcClient.appendEntries ⟨1, ⟨"http://127.0.0.1:50051", 0⟩, .default⟩ Status.message .granting
    () twoEntries

theorem response_from_handler_late :
    ∃ (resp : AppendEntriesResponse) (net' : PeerNetwork Unit Nat),
      appendCall (.start 0 lateTurns) = (.ok resp, net') ∧ ∃ e ∈ net'.executed,
        RaftServiceHandler.granting.Executed () .appendEntries twoEntries resp e := by
  have htest : appendCall.succeeds (.start 0 lateTurns) (fun _ _ => true) = true := by
    decide +kernel
  obtain ⟨resp, net', hcall, _⟩ := Eff.exists_of_succeeds htest
  obtain ⟨_, e, he, hexecuted⟩ := response_from_handler (m := .appendEntries) .refl hcall
  exact ⟨resp, net', hcall, e, he, hexecuted⟩

/-! ## Executions -/

variable [DecidableEq C]

/-- Steps for other calls send nothing for this one. -/
theorem PeerStep.messagesFor {c : C} (h : net.Reserved c)
    (hstep : PeerStep handler (· ≠ c) net net') : net'.messagesFor c = net.messagesFor c := by
  cases hstep with
  | act action hothers => exact Rpc.Network.messagesFor_act net hothers
  | call client showStatus m id req hne =>
      rcases call_state (Prod.eta (client.call showStatus handler m id req net)).symm with
        ⟨_, _, hsame⟩ | ⟨payload, _, _, hloop⟩
      · rw [hsame]
      · exact Rpc.Network.messagesFor_retry_of_ne hne h hloop

theorem messagesFor_run {c : C} (hsound : net.Sound (RaftGrpcServer.serve handler) s₀)
    (h : net.Reserved c) (hrun : ReflTransGen (PeerStep handler (· ≠ c)) net net') :
    net'.messagesFor c = net.messagesFor c := by
  induction hrun with
  | refl => rfl
  | tail hrun hstep ih =>
      have hreserved := h.grows (sound_run hsound hrun).2
      exact (hstep.messagesFor hreserved).trans ih

section

variable {client : RaftGrpcClient} {showStatus : Status → String} {m : RaftMethod} {id : C}
  {req : msgs.Request m} {turns : List (Turn C RaftMessage Status)}

/-- What a call sends is its request, serialized, and no more often than it may. -/
theorem messagesFor_call {r : Except RaftError (msgs.Response m)} (h : net.Reserved id)
    (hcall : client.call showStatus handler m id req net = (r, net')) :
    ∃ sent : List RaftMessage, net'.messagesFor id = net.messagesFor id ++ sent ∧
      sent.length ≤ client.config.maxRetries + 1 ∧
      ∀ message ∈ sent, message.method = m ∧
        (msgs.requestCodec m).fromBytes message.payload = .ok req := by
  rcases call_state hcall with ⟨_, _, rfl⟩ | ⟨payload, r', hpayload, hloop⟩
  · exact ⟨[], (List.append_nil _).symm, Nat.zero_le _, fun _ hmem => nomatch hmem⟩
  · obtain ⟨k, hk, _, hsent⟩ := Rpc.Network.messagesFor_retry h hloop
    refine ⟨_, hsent, ?_, ?_⟩
    · rw [List.length_replicate]
      exact Nat.succ_le_succ hk
    · intro message hmem
      rw [List.eq_of_mem_replicate hmem]
      exact ⟨rfl, Codec.fromBytes_of_toStdvec hpayload⟩

/-- Whatever happens after a call, its request was not executed more often than it was tried, and
nothing else was executed for the call. -/
theorem executed_at_most_attempts
    (hreach : ReflTransGen (PeerStep handler fun _ => True) (.start s₀ turns) net)
    (hnew : net.messagesFor id = []) (hreserved : net.Reserved id)
    (hlater : ReflTransGen (PeerStep handler (· ≠ id))
      (client.call showStatus handler m id req net).2 net') :
    net'.executedFor id ≤ client.config.maxRetries + 1 ∧
      ∀ e ∈ net'.executed, e.request.call = id → e.request.message.method = m ∧
        (msgs.requestCodec m).fromBytes e.request.message.payload = .ok req := by
  have hsound := (sound_run (.start s₀ turns) hreach).1
  obtain ⟨hsound₁, hgrows⟩ := sound_call hsound
    (Prod.eta (client.call showStatus handler m id req net)).symm
  obtain ⟨sent, hsent, hlength, hmessages⟩ := messagesFor_call hreserved
    (Prod.eta (client.call showStatus handler m id req net)).symm
  have hafter := messagesFor_run hsound₁ (hreserved.grows hgrows) hlater
  rw [hsent, hnew, List.nil_append] at hafter
  have hsound' := (sound_run hsound₁ hlater).1
  constructor
  · have hle := hsound'.executedFor_le id
    rw [hafter] at hle
    exact Nat.le_trans hle hlength
  · rintro e he rfl
    have hmem := hsound'.mem_messagesFor he
    rw [hafter] at hmem
    exact hmessages _ hmem

omit [DecidableEq C] in
theorem reserved_lateTurns : ∀ turn ∈ lateTurns, Rpc.Network.Others () turn.actions := by
  intro turn hturn request hmem
  simp only [lateTurns, List.mem_cons, List.not_mem_nil, or_false] at hturn
  rcases hturn with rfl | rfl
  · cases hmem
  · simp at hmem

/-- The first attempt is executed once more after the call, which the server ignores. -/
theorem executed_at_most_attempts_late :
    ∃ net' : PeerNetwork Unit Nat,
      ReflTransGen (PeerStep .granting (· ≠ ())) (voteCall (.start 0 lateTurns)).2 net' ∧
      net'.executedFor () ≤ 3 := by
  refine ⟨_, .single (.act (.execute 0) fun _ heq => nomatch heq), ?_⟩
  exact (executed_at_most_attempts (m := .requestVote) .refl rfl reserved_lateTurns
    (.single (.act (.execute 0) fun _ heq => nomatch heq))).1

/-! ## Failures -/

/-- A call that fails has sent nothing, because its request cannot be serialized, or it sent its
request as often as it may and says so. -/
theorem error_after_all_attempts {e : RaftError}
    (hreach : ReflTransGen (PeerStep handler fun _ => True) (.start s₀ turns) net)
    (hreserved : net.Reserved id)
    (hcall : client.call showStatus handler m id req net = (.error e, net')) :
    (∃ err, (msgs.requestCodec m).toStdvec req = .error err ∧
      e = .serialization ("Failed to serialize request: " ++ err.message) ∧ net' = net) ∨
    ∃ payload f, (msgs.requestCodec m).toStdvec req = .ok payload ∧
      e = client.giveUp showStatus m (client.config.maxRetries + 1) f ∧
      net'.messagesFor id = net.messagesFor id ++
        List.replicate (client.config.maxRetries + 1) ⟨m, payload⟩ := by
  have hsound := (sound_run (.start s₀ turns) hreach).1
  rcases RaftGrpcClient.call_error hsound hcall with hserialize | ⟨payload, f, hpayload, hloop, he⟩
  · exact .inl hserialize
  · obtain ⟨k, _, hk, hsent⟩ := Rpc.Network.messagesFor_retry hreserved hloop
    rw [hk ⟨e, rfl⟩] at hsent
    exact .inr ⟨payload, f, hpayload, he, hsent⟩

/-- Nobody answers. -/
theorem error_after_all_attempts_silent :
    ∃ net' : PeerNetwork Unit Nat,
      voteCall (.start 0 []) =
        (.error (.network "RequestVote RPC to node 1 timed out after 3 attempts"), net') ∧
      (net'.messagesFor ()).length = 3 := by
  have herr : (voteCall (.start 0 [])).1 =
      .error (.network "RequestVote RPC to node 1 timed out after 3 attempts") := by
    decide +kernel
  have hcall : voteCall (.start 0 []) = (.error _, (voteCall (.start 0 [])).2) :=
    Prod.ext herr rfl
  refine ⟨_, hcall, ?_⟩
  rcases error_after_all_attempts (m := .requestVote) .refl
    (fun _ hturn => absurd hturn List.not_mem_nil) hcall with ⟨_, _, he, _⟩ | ⟨_, _, _, _, hsent⟩
  · cases he
  · rw [hsent]
    rfl

end

end OpenraftSurrealkv
