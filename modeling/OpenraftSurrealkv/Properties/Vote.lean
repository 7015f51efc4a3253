import OpenraftSurrealkv.Effects.Open
import OpenraftSurrealkv.Effects.Tasks
import OpenraftSurrealkv.Lib.Simulation

/-!
# The durability of votes

A vote is written twice: without its committed flag in the voting record, then in
full under a key of its own, from which it is read back.  The voting record is
read only while that key is missing.  So whatever fails and wherever the process
crashes, a vote read after a save that returned is the vote of that save or of a
later one.
-/

namespace OpenraftSurrealkv

open Postcard

namespace SurrealStorage

/-! ## Saving a vote step by step -/

/-- The vote in full, under its own key. -/
def saveVoteV2Steps (vote : Vote) : Steps SavePhase SurrealStorage RaftError Unit :=
  (Steps.done (liftPostcard (fun e => .io e.message) (Vote.codec.toStdvec vote))).andThen
    fun data => onMetadataSteps (MetaSave.onWorld
      (Sys.transactionSteps .io .io .io [.put raftVoteV2Key data]))

/-- The steps of `saveVote`. -/
def saveVoteSteps (vote : Vote) : Steps SavePhase SurrealStorage RaftError Unit :=
  ((onMetadataSteps (MetaSave.voting ⟨vote.term, vote.votedFor⟩).steps).mapErr
    RaftError.ioOther).andThen fun _ => saveVoteV2Steps vote

/-- Run in a row, the steps are the save. -/
theorem run_saveVoteSteps (vote : Vote) : (saveVoteSteps vote).run = saveVote vote := by
  simp only [saveVoteSteps, saveVoteV2Steps, Steps.run_andThen, Steps.run_mapErr,
    run_onMetadataSteps, MetaSave.run_steps, MetaSave.run_onWorld, Sys.run_transactionSteps,
    Steps.run_done]
  rfl

/-! ## What is under the key -/

/-- The tree has the vote under its own key. -/
def VoteIn (t : Tree) (vote : Vote) : Prop :=
  ∃ data, t[raftVoteV2Key]? = some data ∧ Vote.codec.fromBytes data = .ok vote

theorem voteIn_insert {vote : Vote} {data : Bytes} (t : Tree)
    (h : Vote.codec.toStdvec vote = .ok data) : VoteIn (t.insert raftVoteV2Key data) vote := by
  refine ⟨data, ?_, Codec.fromBytes_of_toStdvec h⟩
  rw [OrdMap.get_insert, if_pos rfl]

theorem votingKey_ne : MetadataManager.votingRecord.key ≠ raftVoteV2Key := by
  decide +kernel

/-- Cut off anywhere, the save of the voting record leaves the other key alone. -/
theorem voteKey_of_stops_voting {s : VotingState} {n n' : SurrealStorage} {ls : List SavePhase}
    (h : Steps.Stops ((onMetadataSteps (MetaSave.voting s).steps).mapErr RaftError.ioOther)
      n ls n') :
    n'.world.tree[raftVoteV2Key]? = n.world.tree[raftVoteV2Key]? := by
  obtain ⟨m, hstop, rfl⟩ := stops_onMetadataSteps h.of_mapErr
  rcases MetaSave.tree_of_stops hstop with hsame | ⟨ws, hws, hland⟩
  · exact congrArg (fun t : Tree => t[raftVoteV2Key]?) hsame
  · obtain ⟨bytes, _, rfl⟩ := MetaSave.writes_single hws
    show m.world.tree[raftVoteV2Key]? = _
    rw [hland, replay_cons, replay_nil, Update.run, OrdMap.get_insert, if_neg votingKey_ne]

/-- Cut off anywhere, the save under the key has landed or has left it alone. -/
theorem voteKey_of_stops_v2 {vote : Vote} {n n' : SurrealStorage} {ls : List SavePhase}
    (h : Steps.Stops (saveVoteV2Steps vote) n ls n') :
    n'.world.tree[raftVoteV2Key]? = n.world.tree[raftVoteV2Key]? ∨ VoteIn n'.world.tree vote := by
  rcases h.of_andThen with hencode | ⟨data, n₁, _, _, hencode, _, rfl, hrest⟩
  · rw [hencode.of_done.2]
    exact Or.inl rfl
  · rw [Steps.run_done, Eff.ofExcept_run, Prod.mk.injEq] at hencode
    obtain ⟨hdata, rfl⟩ := hencode
    obtain ⟨m, hmeta, rfl⟩ := stops_onMetadataSteps hrest
    obtain ⟨w, hw, rfl⟩ := MetaSave.stops_onWorld hmeta
    rcases Sys.tree_of_stops_transactionSteps hw with hsame | hland
    · exact Or.inl (congrArg (fun t : Tree => t[raftVoteV2Key]?) hsame)
    · right
      show VoteIn w.tree vote
      rw [hland]
      exact voteIn_insert _ (liftPostcard_eq_ok_iff.mp hdata)

/-- Cut off anywhere, a save has put its vote under the key or left it alone. -/
theorem voteKey_of_stops {vote : Vote} {n n' : SurrealStorage} {ls : List SavePhase}
    (h : Steps.Stops (saveVoteSteps vote) n ls n') :
    n'.world.tree[raftVoteV2Key]? = n.world.tree[raftVoteV2Key]? ∨ VoteIn n'.world.tree vote := by
  rcases h.of_andThen with hfirst | ⟨_, n₁, _, _, _, hfirst, rfl, hsecond⟩
  · exact Or.inl (voteKey_of_stops_voting hfirst)
  · rw [← voteKey_of_stops_voting hfirst]
    exact voteKey_of_stops_v2 hsecond

/-- A save that returned has put its vote under the key. -/
theorem voteIn_of_saveVote {vote : Vote} {n n' : SurrealStorage} {u : Unit}
    (h : saveVote vote n = (.ok u, n')) : VoteIn n'.world.tree vote := by
  obtain ⟨_, n₁, _, hrest⟩ := Eff.bind_eq_ok_iff.mp h
  obtain ⟨data, n₂, hencode, htxn⟩ := Eff.bind_eq_ok_iff.mp hrest
  rw [Eff.ofExcept_run, Prod.mk.injEq] at hencode
  obtain ⟨hdata, rfl⟩ := hencode
  obtain ⟨fs, hok | ⟨e, herr⟩⟩ := Sys.transaction_cases .io .io .io [.put raftVoteV2Key data]
    n₁.world
  · rw [sys_of_eq hok] at htxn
    obtain rfl := (Prod.mk.inj htxn).2
    exact voteIn_insert _ (liftPostcard_eq_ok_iff.mp hdata)
  · rw [sys_of_eq herr] at htxn
    cases htxn

/-! ## Reading it back -/

theorem sys_getKey_cases (wrap : String → RaftError) (key : Bytes) (n : SurrealStorage) :
    ∃ fs, sys (Sys.getKey wrap key) n = (.ok n.world.tree[key]?, n.withFaults fs) ∨
      ∃ e, sys (Sys.getKey wrap key) n = (.error e, n.withFaults fs) := by
  obtain ⟨fs, hok | ⟨e, herr⟩⟩ := Sys.external_cases wrap n.world
  · exact ⟨fs, Or.inl (sys_of_eq (Eff.bind_of_ok hok))⟩
  · exact ⟨fs, Or.inr ⟨e, sys_of_eq (Eff.bind_of_error herr)⟩⟩

/-- Once the key was read, the vote under it is returned. -/
theorem readVote_of_getKey {vote : Vote} {n n₁ n₂ : SurrealStorage} (hv : VoteIn n.world.tree vote)
    (hbegin : sys (Sys.external .io) n = (.ok (), n₁))
    (hget : sys (Sys.getKey .io raftVoteV2Key) n₁ = (.ok n.world.tree[raftVoteV2Key]?, n₂)) :
    readVote n = (.ok (some vote), n₂) := by
  obtain ⟨data, hdata, hvote⟩ := hv
  rw [readVote, Eff.bind_of_ok hbegin, Eff.bind_of_ok hget, hdata]
  show (Eff.ofExcept (liftPostcard _ (Vote.codec.fromBytes data)) >>= _) n₂ = _
  rw [hvote]
  rfl

/-- What is under the key is what is read. -/
theorem readVote_ok {vote : Vote} {n n' : SurrealStorage} {r : Option Vote}
    (hv : VoteIn n.world.tree vote) (h : readVote n = (.ok r, n')) : r = some vote := by
  obtain ⟨fs, hbegin | ⟨e, hbegin⟩⟩ := sys_external_cases .io n
  · obtain ⟨gs, hget | ⟨e, hget⟩⟩ := sys_getKey_cases .io raftVoteV2Key (n.withFaults fs)
    · rw [readVote_of_getKey hv hbegin hget] at h
      cases h
      rfl
    · rw [readVote, Eff.bind_of_ok hbegin, Eff.bind_of_error hget] at h
      cases h
  · rw [readVote, Eff.bind_of_error hbegin] at h
    cases h

/-- With no failure to come, it is read. -/
theorem readVote_quiet {vote : Vote} {n : SurrealStorage} (hv : VoteIn n.world.tree vote)
    (h : n.world.faults = []) : readVote n = (.ok (some vote), n) := by
  have hext := Sys.external_quiet .io h
  exact readVote_of_getKey hv (sys_of_eq hext) (sys_of_eq (Eff.bind_of_ok hext))

/-! ## Runs of votes -/

/-- What can happen to a store that votes. -/
inductive VoteEvent where
  /-- The save returned. -/
  | saved (vote : Vote)
  /-- The save returned an error. -/
  | refused (vote : Vote)
  /-- The process crashed during the save and was restarted. -/
  | crashed (vote : Vote)
  /-- The process crashed between two saves and was restarted. -/
  | restarted
deriving DecidableEq, Repr

/-- A step of a store that votes. -/
inductive VoteStep : SurrealStorage → VoteEvent → SurrealStorage → Prop
  | saved {vote : Vote} {n n' : SurrealStorage} :
      saveVote vote n = (.ok (), n') → VoteStep n (.saved vote) n'
  | refused {vote : Vote} {n n' : SurrealStorage} {e : RaftError} :
      saveVote vote n = (.error e, n') → VoteStep n (.refused vote) n'
  | crashed {vote : Vote} {n n₁ n' : SurrealStorage} {ls : List SavePhase} {w : World} :
      Steps.Stops (saveVoteSteps vote) n ls n₁ → w.tree = n₁.world.tree → new w = .ok n' →
      VoteStep n (.crashed vote) n'
  | restarted {n n' : SurrealStorage} {w : World} :
      w.tree = n.world.tree → new w = .ok n' → VoteStep n .restarted n'

/-- One event more: a save that returned leaves only its own vote, any other adds its vote to
those that can be read. -/
def candidatesAfter : Option (List Vote) → VoteEvent → Option (List Vote)
  | _, .saved vote => some [vote]
  | votes?, .refused vote => votes?.map (· ++ [vote])
  | votes?, .crashed vote => votes?.map (· ++ [vote])
  | votes?, .restarted => votes?

/-- The vote of the last save that returned and those of the saves after it, or nothing when no
save has returned. -/
def candidates (es : List VoteEvent) : Option (List Vote) := es.foldl candidatesAfter none

theorem world_new {w : World} {n : SurrealStorage} (h : new w = .ok n) :
    n.world.tree = w.tree := by
  obtain ⟨fs, rfl⟩ := new_ok h
  rfl

/-- A save that may have been cut off leaves one of the votes before or its own. -/
theorem voteIn_of_stops {vote : Vote} {n n' : SurrealStorage} {ls : List SavePhase}
    {votes : List Vote} (h : Steps.Stops (saveVoteSteps vote) n ls n')
    (hv : ∃ v ∈ votes, VoteIn n.world.tree v) : ∃ v ∈ votes ++ [vote], VoteIn n'.world.tree v := by
  rcases voteKey_of_stops h with hsame | hland
  · obtain ⟨v, hmem, data, hdata, hvote⟩ := hv
    exact ⟨v, List.mem_append_left _ hmem, data, hsame.trans hdata, hvote⟩
  · exact ⟨vote, List.mem_append_right _ List.mem_cons_self, hland⟩

/-- One of the candidates is under the key. -/
theorem voteIn_candidates {n₀ n : SurrealStorage} {es : List VoteEvent}
    (hrun : Traces VoteStep n₀ es n) {votes : List Vote} (hvotes : candidates es = some votes) :
    ∃ v ∈ votes, VoteIn n.world.tree v := by
  induction hrun generalizing votes with
  | nil => cases hvotes
  | snoc hbefore hstep ih =>
      rw [candidates, List.foldl_append, List.foldl_cons, List.foldl_nil] at hvotes
      cases hstep with
      | saved hsave =>
          cases hvotes
          exact ⟨_, List.mem_cons_self, voteIn_of_saveVote hsave⟩
      | refused hsave =>
          obtain ⟨before, hbefore, rfl⟩ := Option.map_eq_some_iff.mp hvotes
          obtain ⟨ls, hstop⟩ := Steps.Stops.of_run
            ((congrFun (run_saveVoteSteps _) _).trans hsave)
          exact voteIn_of_stops hstop (ih hbefore)
      | crashed hstop hw hnew =>
          obtain ⟨before, hbefore, rfl⟩ := Option.map_eq_some_iff.mp hvotes
          rw [world_new hnew, hw]
          exact voteIn_of_stops hstop (ih hbefore)
      | restarted hw hnew =>
          rw [world_new hnew, hw]
          exact ih hvotes

/-- Once a save has returned, a vote read back is that of the last save that returned or of a
later one, with no failure to come it is read back, and while a save is under way its vote is the
only other one that can be read. -/
theorem vote_read_is_recent {n₀ n : SurrealStorage} {es : List VoteEvent} {votes : List Vote}
    (hrun : Traces VoteStep n₀ es n) (hvotes : candidates es = some votes) :
    (∀ r n', readVote n = (.ok r, n') → ∃ v ∈ votes, r = some v) ∧
      (n.world.faults = [] → ∃ v ∈ votes, readVote n = (.ok (some v), n)) ∧
      ∀ vote ls n₁, Steps.Stops (saveVoteSteps vote) n ls n₁ →
        ∀ r n', readVote n₁ = (.ok r, n') → ∃ v ∈ votes ++ [vote], r = some v := by
  have hin := voteIn_candidates hrun hvotes
  refine ⟨?_, ?_, ?_⟩
  · intro r n' hread
    obtain ⟨v, hmem, hv⟩ := hin
    exact ⟨v, hmem, readVote_ok hv hread⟩
  · intro hquiet
    obtain ⟨v, hmem, hv⟩ := hin
    exact ⟨v, hmem, readVote_quiet hv hquiet⟩
  · intro vote ls n₁ hstop r n' hread
    obtain ⟨v, hmem, hv⟩ := voteIn_of_stops hstop hin
    exact ⟨v, hmem, readVote_ok hv hread⟩

/-- A committed vote is saved; the save of the next one is cut off between its two
transactions. -/
theorem vote_read_is_recent_crashed :
    ∃ n₁ n₂ n₃, saveVote ⟨1, some 1, true⟩ (fresh []) = (.ok (), n₁) ∧
      Steps.Stops (saveVoteSteps ⟨2, some 3, false⟩) n₁
        [.beginTxn, .setKey, .commit, .remember] n₂ ∧
      new n₂.world = .ok n₃ ∧
      readVote n₃ = (.ok (some ⟨1, some 1, true⟩), n₃) ∧
      ∀ r n', readVote n₃ = (.ok r, n') →
        ∃ v ∈ [⟨1, some 1, true⟩, ⟨2, some 3, false⟩], r = some v := by
  obtain ⟨n₁, n₂, n₃, hsave, hstop, hnew, hread⟩ : ∃ n₁ n₂ n₃,
      saveVote ⟨1, some 1, true⟩ (fresh []) = (.ok (), n₁) ∧
      Steps.Stops (saveVoteSteps ⟨2, some 3, false⟩) n₁
        [.beginTxn, .setKey, .commit, .remember] n₂ ∧
      new n₂.world = .ok n₃ ∧ readVote n₃ = (.ok (some ⟨1, some 1, true⟩), n₃) :=
    ⟨_, _, _, rfl, .more rfl (.more rfl (.more rfl (.more rfl (.here _ _)))), rfl, rfl⟩
  have hrun : Traces VoteStep (fresh [])
      [.saved ⟨1, some 1, true⟩, .crashed ⟨2, some 3, false⟩] n₃ :=
    .snoc (.single (.saved hsave)) (.crashed hstop rfl hnew)
  exact ⟨n₁, n₂, n₃, hsave, hstop, hnew, hread, (vote_read_is_recent hrun rfl).1⟩

end SurrealStorage

end OpenraftSurrealkv
