import OpenraftSurrealkv.Effects.Faults
import OpenraftSurrealkv.Properties.Vote

/-!
# The two records of a vote

`saveVote` writes the voting record and then the vote in full, each in a
transaction of its own.  When the first lands and the second fails, the voting
record is that of a vote that was not saved, while `readVote` returns the vote
before it.  This is the only way in which the two come to disagree: of a sequence
of saves, the records agree after each one exactly when no save is of that kind
and changes the voting record (`SurrealStorage.vote_records_agree_iff`).
-/

namespace OpenraftSurrealkv

open Postcard

namespace SurrealStorage

/-! ## What a save does -/

/-- The voting record of a vote. -/
def votingOf (vote : Vote) : VotingState := ⟨vote.term, vote.votedFor⟩

/-- The voting record of a vote, in memory and in the tree. -/
def withVoting (n : SurrealStorage) (vote : Vote) : SurrealStorage :=
  { n with metadata := MetadataManager.votingRecord.set (votingOf vote) (n.metadata.withWorld
      (n.world.withTree (n.world.tree.insert MetadataManager.votingRecord.key
        (VotingState.codec.encode (votingOf vote))))) }

/-- The vote under its own key. -/
def withVote (n : SurrealStorage) (vote : Vote) : SurrealStorage :=
  { n with metadata := n.metadata.withWorld (n.world.withTree
      (n.world.tree.insert raftVoteV2Key (Vote.codec.encode vote))) }

theorem saveVotingState_of_succeeds {n : SurrealStorage} (vote : Vote) (h : n.world.Succeeds 3) :
    asIo (onMetadata (MetadataManager.saveVotingState (votingOf vote))) n =
      (.ok (), (n.withVoting vote).skip 3) := by
  have hsave : MetadataManager.votingRecord.save (votingOf vote) n.metadata = _ :=
    Record.save_of_succeeds (VotingState.toStdvec_eq _) h
  exact Eff.mapErr_of_ok (onMetadata_of_eq hsave)

/-- After the voting record was saved, the rest of a save is one transaction. -/
theorem saveVote_of_voting {n n₁ : SurrealStorage} {vote : Vote}
    (h : asIo (onMetadata (MetadataManager.saveVotingState (votingOf vote))) n = (.ok (), n₁)) :
    saveVote vote n = sys (Sys.transaction .io .io .io
      [.put raftVoteV2Key (Vote.codec.encode vote)]) n₁ := by
  have hencode : (Eff.ofExcept (liftPostcard (fun e => .io e.message)
      (Vote.codec.toStdvec vote)) : Op Bytes) n₁ = (.ok (Vote.codec.encode vote), n₁) := by
    rw [Vote.toStdvec_eq]
    rfl
  exact (Eff.bind_of_ok h).trans (Eff.bind_of_ok hencode)

/-- Both transactions land. -/
theorem saveVote_of_succeeds {n : SurrealStorage} (vote : Vote) (h : n.world.Succeeds 6) :
    ∃ fs, saveVote vote n = (.ok (), ((n.withVoting vote).withVote vote).withFaults fs) := by
  obtain ⟨hfirst, hsecond⟩ := (World.succeeds_add (a := 3) (b := 3)).mp h
  rw [saveVote_of_voting (saveVotingState_of_succeeds vote hfirst)]
  have htxn : Sys.transaction .io .io .io [.put raftVoteV2Key (Vote.codec.encode vote)]
      ((n.withVoting vote).skip 3).world = (.ok (), _) :=
    Sys.transaction_eq_ok_iff.mpr ⟨Sys.keyed_put (by decide) _, hsecond, rfl⟩
  exact ⟨_, sys_of_eq htxn⟩

/-- Only the first transaction lands. -/
theorem saveVote_of_first {n : SurrealStorage} (vote : Vote) (h : n.world.Succeeds 3)
    (hnot : ¬ n.world.Succeeds 6) :
    ∃ err fs, saveVote vote n = (.error err, (n.withVoting vote).withFaults fs) := by
  rw [saveVote_of_voting (saveVotingState_of_succeeds vote h)]
  obtain ⟨fs, hok | ⟨err, herr⟩⟩ := Sys.transaction_cases .io .io .io
    [.put raftVoteV2Key (Vote.codec.encode vote)] ((n.withVoting vote).skip 3).world
  · have hsecond := (Sys.transaction_eq_ok_iff.mp hok).2.1
    exact absurd ((World.succeeds_add (a := 3) (b := 3)).mpr ⟨h, hsecond⟩) hnot
  · exact ⟨err, fs, sys_of_eq herr⟩

/-- The first transaction does not land. -/
theorem saveVote_of_not {n : SurrealStorage} (vote : Vote) (hnot : ¬ n.world.Succeeds 3) :
    ∃ err fs, saveVote vote n = (.error err, n.withFaults fs) := by
  obtain ⟨fs, ⟨_, _, hok⟩ | ⟨err, herr⟩⟩ :=
    MetadataManager.votingRecord.save_cases (votingOf vote) n.metadata
  · exact absurd (Record.succeeds_of_save hok) hnot
  · exact ⟨_, fs, Eff.bind_of_error (Eff.mapErr_of_error (onMetadata_of_eq herr))⟩

/-! ## What is read back -/

/-- What `readVote` returns when its reads do not fail. -/
def voteRead (n : SurrealStorage) : Except RaftError (Option Vote) :=
  (readVote (n.withFaults [])).1

theorem voteRead_eq (n : SurrealStorage) :
    voteRead n = match n.world.tree[raftVoteV2Key]? with
      | some bytes =>
          (liftPostcard (fun e => RaftError.io e.message) (Vote.codec.fromBytes bytes)).map some
      | none => .ok (n.metadata.votingState.votedFor.map fun id =>
          ⟨n.metadata.votingState.currentTerm, some id, false⟩) := by
  have hext : Sys.external .io (n.withFaults []).world = _ := Sys.external_quiet .io rfl
  have hbegin : sys (Sys.external .io) (n.withFaults []) = (.ok (), n.withFaults []) :=
    sys_of_eq hext
  have hget : sys (Sys.getKey .io raftVoteV2Key) (n.withFaults []) =
      (.ok n.world.tree[raftVoteV2Key]?, n.withFaults []) := sys_of_eq (Eff.bind_of_ok hext)
  rw [voteRead, readVote, Eff.bind_of_ok hbegin, Eff.bind_of_ok hget]
  cases n.world.tree[raftVoteV2Key]? with
  | none => rfl
  | some bytes =>
      simp only []
      cases liftPostcard (fun e => RaftError.io e.message) (Vote.codec.fromBytes bytes) with
      | error err => rfl
      | ok vote => rfl

theorem voteRead_of_voteIn {n : SurrealStorage} {vote : Vote} (h : VoteIn n.world.tree vote) :
    voteRead n = .ok (some vote) := by
  have hread : readVote (n.withFaults []) = _ := readVote_quiet h rfl
  rw [voteRead, hread]

/-- What is read back depends on the two records. -/
theorem voteRead_congr {n n' : SurrealStorage}
    (hkey : n'.world.tree[raftVoteV2Key]? = n.world.tree[raftVoteV2Key]?)
    (hvoting : n'.metadata.votingState = n.metadata.votingState) : voteRead n' = voteRead n := by
  rw [voteRead_eq, voteRead_eq, hkey, hvoting]

/-- The voting record has the term and the node of the vote under its own key, if there is one. -/
def RecordsAgree (n : SurrealStorage) : Prop :=
  n.world.tree[raftVoteV2Key]? ≠ none →
    ∃ vote, voteRead n = .ok (some vote) ∧ n.metadata.votingState = votingOf vote

theorem RecordsAgree.congr {n n' : SurrealStorage} (h : RecordsAgree n)
    (hkey : n'.world.tree[raftVoteV2Key]? = n.world.tree[raftVoteV2Key]?)
    (hvoting : n'.metadata.votingState = n.metadata.votingState) : RecordsAgree n' := by
  intro hsome
  obtain ⟨vote, hread, hstate⟩ := h (hkey ▸ hsome)
  exact ⟨vote, (voteRead_congr hkey hvoting).trans hread, hvoting.trans hstate⟩

theorem key_withVoting (n : SurrealStorage) (vote : Vote) :
    (n.withVoting vote).world.tree[raftVoteV2Key]? = n.world.tree[raftVoteV2Key]? :=
  OrdMap.get_insert_of_ne _ _ votingKey_ne

/-! ## One save -/

/-- After the save the records agree, and if it fails what is read is what was read before. -/
def CallAgrees (vote : Vote) (n : SurrealStorage) : Prop :=
  RecordsAgree (saveVote vote n).2 ∧
    ∀ err n', saveVote vote n = (.error err, n') →
      n'.metadata.votingState = n.metadata.votingState ∧ voteRead n' = voteRead n

/-- The second transaction lands if the first does, or the first changes nothing. -/
def CallSafe (vote : Vote) (n : SurrealStorage) : Prop :=
  n.world.Succeeds 3 → n.world.Succeeds 6 ∨ n.metadata.votingState = votingOf vote

instance (vote : Vote) (n : SurrealStorage) : Decidable (CallSafe vote n) :=
  inferInstanceAs (Decidable (_ → _ ∨ _))

theorem callAgrees_of_error {vote : Vote} {n n' : SurrealStorage} {err : RaftError}
    (h : RecordsAgree n) (hsave : saveVote vote n = (.error err, n'))
    (hkey : n'.world.tree[raftVoteV2Key]? = n.world.tree[raftVoteV2Key]?)
    (hvoting : n'.metadata.votingState = n.metadata.votingState) : CallAgrees vote n := by
  constructor
  · rw [hsave]
    exact h.congr hkey hvoting
  · intro err' n'' hsave'
    cases hsave.symm.trans hsave'
    exact ⟨hvoting, voteRead_congr hkey hvoting⟩

theorem callAgrees_iff {vote : Vote} {n : SurrealStorage} (h : RecordsAgree n) :
    CallAgrees vote n ↔ CallSafe vote n := by
  by_cases hfirst : n.world.Succeeds 3
  · by_cases hboth : n.world.Succeeds 6
    · obtain ⟨fs, hsave⟩ := saveVote_of_succeeds vote hboth
      refine iff_of_true ⟨fun _ => ?_, fun err n' herr => ?_⟩ fun _ => Or.inl hboth
      · have hin := voteIn_of_saveVote hsave
        rw [hsave]
        exact ⟨vote, voteRead_of_voteIn hin, rfl⟩
      · cases hsave.symm.trans herr
    · obtain ⟨err, fs, hsave⟩ := saveVote_of_first vote hfirst hboth
      constructor
      · intro hagrees _
        have hsame := (hagrees.2 err _ hsave).1
        exact Or.inr hsame.symm
      · intro hsafe
        have hvoting := (hsafe hfirst).resolve_left hboth
        exact callAgrees_of_error h hsave (key_withVoting n vote) hvoting.symm
  · obtain ⟨err, fs, hsave⟩ := saveVote_of_not vote hfirst
    exact iff_of_true (callAgrees_of_error h hsave rfl rfl) fun hok => absurd hok hfirst

/-! ## Sequences of saves -/

/-- At each save of a sequence. -/
def Along (P : Vote → SurrealStorage → Prop) : List Vote → SurrealStorage → Prop
  | [], _ => True
  | vote :: votes, n => P vote n ∧ Along P votes (saveVote vote n).2

/-- The records agree after each save, and a save that fails leaves what is read, exactly when each
save that lands its first transaction lands its second, or finds its voting record there. -/
theorem vote_records_agree_iff {votes : List Vote} {n : SurrealStorage} (h : RecordsAgree n) :
    Along CallAgrees votes n ↔ Along CallSafe votes n := by
  induction votes generalizing n with
  | nil => exact Iff.rfl
  | cons vote votes ih =>
      constructor
      · rintro ⟨hone, hrest⟩
        exact ⟨(callAgrees_iff h).mp hone, (ih hone.1).mp hrest⟩
      · rintro ⟨hone, hrest⟩
        have hagrees := (callAgrees_iff h).mpr hone
        exact ⟨hagrees, (ih hagrees.1).mpr hrest⟩

/-- A fresh store with calls that fail. -/
def freshWith (fs : List (Option String)) : SurrealStorage := (fresh []).withFaults fs

/-- The first save of the second vote fails at once, the next one lands. -/
theorem vote_records_agree_iff_refused :
    Along CallSafe [⟨1, some 1, true⟩, ⟨2, some 2, false⟩, ⟨2, some 2, false⟩]
        (freshWith (List.replicate 6 none ++ [some "begin"])) ∧
      Along CallAgrees [⟨1, some 1, true⟩, ⟨2, some 2, false⟩, ⟨2, some 2, false⟩]
        (freshWith (List.replicate 6 none ++ [some "begin"])) := by
  have hsafe : Along CallSafe [⟨1, some 1, true⟩, ⟨2, some 2, false⟩, ⟨2, some 2, false⟩]
      (freshWith (List.replicate 6 none ++ [some "begin"])) :=
    ⟨by decide +kernel, by decide +kernel, by decide +kernel, trivial⟩
  have hstart : RecordsAgree (freshWith (List.replicate 6 none ++ [some "begin"])) :=
    fun hsome => absurd (by decide +kernel) hsome
  exact ⟨hsafe, (vote_records_agree_iff hstart).mpr hsafe⟩

/-- The second transaction of the second save fails: the voting record is that of the second vote,
and the first vote is read back. -/
theorem vote_records_diverge : ∃ n₁ n₂,
    saveVote ⟨1, some 1, true⟩ (freshWith (List.replicate 9 none ++ [some "begin"])) =
      (.ok (), n₁) ∧
    saveVote ⟨2, some 2, false⟩ n₁ = (.error (.io "begin"), n₂) ∧
    n₂.metadata.votingState = ⟨2, some 2⟩ ∧ voteRead n₂ = .ok (some ⟨1, some 1, true⟩) ∧
    ¬ RecordsAgree n₂ := by
  obtain ⟨n₁, n₂, h₁, h₂, hvoting, hread, hkey⟩ : ∃ n₁ n₂,
      saveVote ⟨1, some 1, true⟩ (freshWith (List.replicate 9 none ++ [some "begin"])) =
        (.ok (), n₁) ∧
      saveVote ⟨2, some 2, false⟩ n₁ = (.error (.io "begin"), n₂) ∧
      n₂.metadata.votingState = ⟨2, some 2⟩ ∧ voteRead n₂ = .ok (some ⟨1, some 1, true⟩) ∧
      n₂.world.tree[raftVoteV2Key]? ≠ none :=
    ⟨_, _, rfl, rfl, rfl, rfl, by decide +kernel⟩
  refine ⟨n₁, n₂, h₁, h₂, hvoting, hread, fun hagree => ?_⟩
  obtain ⟨vote, hvote, hstate⟩ := hagree hkey
  cases hread.symm.trans hvote
  cases hvoting.symm.trans hstate

end SurrealStorage

end OpenraftSurrealkv
