import OpenraftSurrealkv.Effects.Merge
import OpenraftSurrealkv.Snapshot.Stored

/-!
# The two replays of a delta

Installing a delta runs its requests on the key-value map, merging one runs them
on the tree of a checkpoint.  Both decode an entry first and then write one key.
Where the tree takes every key as a map does, a map and a tree that hold the same
under every key stay in step, and both replays stop at the first entry that does
not decode.  SurrealKV takes every key but the empty one.

The tree also holds the records of the store, under keys that a client can name.
Nothing keeps a request away from them: a merge leaves the records alone
whatever the baseline holds exactly when no request that it runs names one.
-/

namespace OpenraftSurrealkv

open Postcard

theorem KVRequest.tight_codec : KVRequest.codec.Tight := by
  refine ((Codec.tight_string.pair Codec.tight_bytes).either Codec.tight_string).iso ?_
  rintro (⟨key, value⟩ | key)
  · rfl
  · rfl

namespace SurrealStorage

open CheckpointMergeBackend

/-- A request read from a buffer can be serialized. -/
theorem fits_of_fromBytes {payload : Bytes} {req : KVRequest} (hlen : payload.length < 2 ^ 63)
    (h : KVRequest.codec.fromBytes payload = .ok req) : Fits req :=
  (KVRequest.tight_codec.length_le h).trans_lt hlen

/-! ## In step -/

/-- The tree holds under the bytes of every key what the map holds under the key. -/
def InStep (n : SurrealStorage) (w : World) : Prop := Mirrors Codec.utf8 n.stateMachine w.tree

/-- A request keeps the map and the tree in step. -/
theorem InStep.afterDelta {n : SurrealStorage} {w : World} (h : InStep n w) (e : DeltaEntry)
    (req : KVRequest) :
    InStep (n.afterDelta e req) (w.withTree ((treeUpdate req).run w.tree)) :=
  h.run Codec.utf8_injective req.update

/-- Setting and deleting the key and committing do to the tree what they do to a map. -/
def ActsAsMap (key : Bytes) : Prop :=
  ∀ u : Update Bytes Bytes, u.key = key → ∀ w : World, w.Quiet →
    Sys.commitWrites [u] w = (.ok (), w.withTree (u.run w.tree))

theorem actsAsMap_iff {key : Bytes} : ActsAsMap key ↔ key ≠ [] := by
  constructor
  · rintro hmap rfl
    have hquiet : (emptyWorld []).Quiet := rfl
    have hempty : (Update.del [] : Update Bytes Bytes).key = [] := rfl
    obtain ⟨e, fs, herr⟩ := Sys.commitWrites_empty_key hempty (emptyWorld [])
    rw [hmap (.del []) rfl (emptyWorld []) hquiet] at herr
    cases herr
  · rintro hkey u rfl w hquiet
    exact Sys.commitWrites_quiet hquiet (List.forall_mem_singleton.mpr hkey)

/-- Replaying a delta on a map and on a tree that are in step, where the tree acts as a map on the
keys and no failure is to come, succeeds on both or stops at the same entry, and leaves them in
step. -/
theorem replays_agree {es : List DeltaEntry} {n : SurrealStorage} {w : World}
    (hlen : ∀ e ∈ es, e.payload.length < 2 ^ 63)
    (hkeys : ∀ e ∈ es, ∀ req, KVRequest.codec.fromBytes e.payload = .ok req →
      ActsAsMap (Codec.utf8 req.key))
    (hn : n.world.Quiet) (hw : w.Quiet) (h : InStep n w) :
    (∃ n' w', applyDeltaEntries es n = (.ok (), n') ∧ applyEntriesToTree es w = (.ok (), w') ∧
      InStep n' w') ∨
    ∃ done e rest n' w' err err', es = done ++ e :: rest ∧
      applyDeltaEntries done n = (.ok (), n') ∧ applyEntriesToTree done w = (.ok (), w') ∧
      applyDeltaEntries [e] n' = (.error err, n') ∧ applyEntryToTree e w' = (.error err', w') ∧
      applyDeltaEntries es n = (.error err, n') ∧ applyEntriesToTree es w = (.error err', w') ∧
      InStep n' w' := by
  induction es generalizing n w with
  | nil => exact Or.inl ⟨n, w, rfl, rfl, h⟩
  | cons e es ih =>
      cases hdec : KVRequest.codec.fromBytes e.payload with
      | error err =>
          have htree := applyEntryToTree_error hdec w
          refine Or.inr ⟨[], e, es, n, w, _, _, rfl, rfl, rfl, applyDeltaEntries_error hdec [] n,
            htree, applyDeltaEntries_error hdec es n, ?_, h⟩
          rw [applyEntriesToTree, Eff.bind_of_error htree]
      | ok req =>
          have hfit := fits_of_fromBytes (hlen e List.mem_cons_self) hdec
          have hkey : req.key ≠ "" := by
            rw [Ne, ← key_treeUpdate_eq_nil_iff, key_treeUpdate]
            exact actsAsMap_iff.mp (hkeys e List.mem_cons_self req hdec)
          have hmap := applyDeltaEntries_cons_quiet hdec hfit hn
          have htree : ∀ rest, applyEntriesToTree (e :: rest) w = applyEntriesToTree rest _ :=
            fun rest => by
              rw [applyEntriesToTree,
                Eff.bind_of_ok (applyEntryToTree_of_fromBytes hdec hkey hw)]
          have hrest := ih (n := n.afterDelta e req)
            (w := w.withTree ((treeUpdate req).run w.tree))
            (fun e' he' => hlen e' (List.mem_cons_of_mem e he'))
            (fun e' he' => hkeys e' (List.mem_cons_of_mem e he')) (quiet_afterEntry _ hn) hw
            (h.afterDelta e req)
          rcases hrest with ⟨n', w', hn', hw', hstep⟩ |
            ⟨done, e', rest, n', w', err, err', rfl, h₁, h₂, h₃, h₄, h₅, h₆, hstep⟩
          · exact Or.inl ⟨n', w', (hmap es).trans hn', (htree es).trans hw', hstep⟩
          · exact Or.inr ⟨e :: done, e', rest, n', w', err, err', rfl, (hmap done).trans h₁,
              (htree done).trans h₂, h₃, h₄, (hmap _).trans h₅, (htree _).trans h₆, hstep⟩

/-- A delta with an entry that does not decode after two that do. -/
def mixedDelta : List DeltaEntry :=
  [⟨1, 1, KVRequest.codec.encode (.set "a" [1])⟩, ⟨1, 2, KVRequest.codec.encode (.delete "b")⟩,
    ⟨1, 3, [9]⟩]

theorem actsAsMap_mixedDelta : ∀ e ∈ mixedDelta, ∀ req,
    KVRequest.codec.fromBytes e.payload = .ok req → ActsAsMap (Codec.utf8 req.key) := by
  have hkeys : ∀ e ∈ mixedDelta, ((KVRequest.codec.fromBytes e.payload).toOption.all
      fun req => decide (Codec.utf8 req.key ≠ [])) = true := by
    decide +kernel
  intro e he req hreq
  have hkey := hkeys e he
  rw [hreq] at hkey
  exact actsAsMap_iff.mpr (of_decide_eq_true hkey)

theorem replays_agree_mixed :
    InStep (fresh []) (emptyWorld []) ∧
      InStep (applyDeltaEntries mixedDelta (fresh [])).2
        (applyEntriesToTree mixedDelta (emptyWorld [])).2 := by
  have hlen : ∀ e ∈ mixedDelta, e.payload.length < 2 ^ 63 := by decide +kernel
  have hempty : InStep (fresh []) (emptyWorld []) := fun _ =>
    Std.ExtTreeMap.getElem?_empty.trans Std.ExtTreeMap.getElem?_empty.symm
  have hn : (fresh []).world.Quiet := rfl
  have hw : (emptyWorld []).Quiet := rfl
  refine ⟨hempty, ?_⟩
  rcases replays_agree hlen actsAsMap_mixedDelta hn hw hempty with ⟨n', w', hn', hw', hstep⟩ |
    ⟨_, _, _, n', w', _, _, _, _, _, _, _, hn', hw', hstep⟩
  · rw [hn', hw']
    exact hstep
  · rw [hn', hw']
    exact hstep

/-! ## The requests of a chain -/

/-- The requests in the delta files of a chain, up to the first file or entry that cannot be read or
the first request with the empty key. -/
def chainRequests (ar : Archiver) (files : OrdMap String Bytes) : List DeltaInfo → List KVRequest
  | [] => []
  | d :: chain =>
      match d.filePath with
      | none => chainRequests ar files chain
      | some path =>
          match files[path]?.map (DeltaSnapshotCodec.decodeEntries ar) with
          | some (.ok es) =>
              (replayable es).1 ++ if (replayable es).2 then chainRequests ar files chain else []
          | some (.error _) => []
          | none => []

/-- The requests that the replay of one delta runs, and whether it comes to its end. -/
def deltaRequests (ar : Archiver) (files : OrdMap String Bytes) (d : DeltaInfo) :
    List KVRequest × Bool :=
  match d.filePath with
  | none => ([], true)
  | some path =>
      match files[path]?.map (DeltaSnapshotCodec.decodeEntries ar) with
      | some (.ok es) => replayable es
      | some (.error _) => ([], false)
      | none => ([], false)

section

variable {ar : Archiver} {d : DeltaInfo} {chain : List DeltaInfo}

theorem chainRequests_cons {files : OrdMap String Bytes} :
    chainRequests ar files (d :: chain) = (deltaRequests ar files d).1 ++
      if (deltaRequests ar files d).2 then chainRequests ar files chain else [] := by
  cases hpath : d.filePath with
  | none => simp [chainRequests, deltaRequests, hpath]
  | some path =>
      rcases hdecoded : files[path]?.map (DeltaSnapshotCodec.decodeEntries ar) with _ | _ | es <;>
        simp [chainRequests, deltaRequests, hpath, hdecoded]

/-- With no failure to come, the replay of a delta runs its requests. -/
theorem replayDelta_quiet (ar : Archiver) (d : DeltaInfo) {w : World} (hw : w.Quiet) :
    ∃ r fs, replayDelta ar d w = (r, (w.withTree (replay w.tree
        ((deltaRequests ar w.files d).1.map treeUpdate))).withFaults fs) ∧
      ((deltaRequests ar w.files d).2 = true → r = .ok () ∧ fs = []) ∧
      ((deltaRequests ar w.files d).2 = false → ∃ err, r = .error err) := by
  have hnone : w.withFaults [] = w := by
    rw [← hw]
    rfl
  rw [replayDelta, deltaRequests]
  cases d.filePath with
  | none =>
      exact ⟨.ok (), [], congrArg (Prod.mk _) hnone.symm, fun _ => ⟨rfl, rfl⟩,
        fun hstop => absurd hstop.symm Bool.false_ne_true⟩
  | some path =>
      simp only []
      cases hfile : w.files[path]? with
      | none =>
          have hread : Sys.readFile path w =
              (.error (.io "No such file or directory (os error 2)"), w) := by
            rw [Sys.readFile, Eff.bind_of_ok (Sys.external_quiet _ hw),
              Eff.bind_of_ok (Eff.gets_run _ w), hfile]
            rfl
          rw [Eff.bind_of_error hread, Option.map_none]
          exact ⟨_, [], congrArg (Prod.mk _) hnone.symm,
            fun hall => absurd hall Bool.false_ne_true, fun _ => ⟨_, rfl⟩⟩
      | some bytes =>
          rw [Eff.bind_of_ok (readFile_quiet hw hfile), Option.map_some]
          cases hdec : DeltaSnapshotCodec.decodeEntries ar bytes with
          | error err =>
              exact ⟨.error err, [], congrArg (Prod.mk _) hnone.symm,
                fun hall => absurd hall Bool.false_ne_true, fun _ => ⟨err, rfl⟩⟩
          | ok es =>
              rw [Eff.bind_of_ok (Eff.ofExcept_run _ w)]
              exact applyEntriesToTree_replayable es hw

/-- A delta whose replay came to its end has no entry that stops it. -/
theorem deltaRequests_of_ok {w w' : World} {u : Unit} (h : replayDelta ar d w = (.ok u, w')) :
    (deltaRequests ar w.files d).2 = true := by
  rw [replayDelta] at h
  rw [deltaRequests]
  cases hpath : d.filePath with
  | none => rfl
  | some path =>
      rw [hpath] at h
      obtain ⟨bytes, w₁, hread, h⟩ := Eff.bind_eq_ok_iff.mp h
      obtain ⟨es, w₂, hdec, h⟩ := Eff.bind_eq_ok_iff.mp h
      have hfile := (Sys.readFile_ok hread).1
      have hdecode : DeltaSnapshotCodec.decodeEntries ar bytes = .ok es := (Prod.mk.inj hdec).1
      simp only [hfile, Option.map_some, hdecode]
      exact replayable_of_ok h

end

/-- With no failure to come, a replay runs the requests of the chain. -/
theorem tree_replayChain {ar : Archiver} {chain : List DeltaInfo} {w : World} (hw : w.Quiet) :
    (replayChain ar chain w).2.tree =
      replay w.tree ((chainRequests ar w.files chain).map treeUpdate) := by
  induction chain generalizing w with
  | nil => rfl
  | cons d chain ih =>
      obtain ⟨r, fs, hrun, hall, hstop⟩ := replayDelta_quiet ar d hw
      rw [replayChain_cons, chainRequests_cons]
      cases hd : (deltaRequests ar w.files d).2 with
      | false =>
          obtain ⟨err, rfl⟩ := hstop hd
          rw [Eff.bind_of_error hrun]
          simp
      | true =>
          obtain ⟨rfl, rfl⟩ := hall hd
          have hquiet : ((w.withTree (replay w.tree
              ((deltaRequests ar w.files d).1.map treeUpdate))).withFaults []).Quiet := rfl
          have hrest := ih hquiet
          rw [Eff.bind_of_ok hrun, if_pos rfl, List.map_append, replay_append]
          exact hrest

/-! ## The records under the keys -/

section

variable {key : Bytes}

theorem stored_key (key : Bytes) : Sys.Stored (Eff.Same fun w : World => w.tree[key]?) :=
  fun _ _ _ _ _ _ => rfl

/-- Entries whose requests do not name the key leave it alone, whatever fails. -/
theorem keeps_key_applyEntriesToTree {es : List DeltaEntry}
    (h : ∀ req ∈ (replayable es).1, Codec.utf8 req.key ≠ key) :
    Eff.Keeps (fun w : World => w.tree[key]?) (applyEntriesToTree es) := by
  induction es with
  | nil => exact .pure _
  | cons e es ih =>
      rcases replayable_cases e es with ⟨_, hfails⟩ | ⟨req, hdec, _, hruns⟩
      · intro w
        obtain ⟨err, fs, hrun⟩ := hfails w
        rw [applyEntriesToTree, Eff.bind_of_error hrun]
        rfl
      · rw [hruns] at h
        refine .bind (.bind_ofExcept fun req' hreq' => ?_) fun _ =>
          ih fun req' hreq' => h req' (List.mem_cons_of_mem _ hreq')
        rw [hdec, liftPostcard, Except.ok.injEq] at hreq'
        subst hreq'
        refine Sys.within_transaction (stored_key key) _ _ _ fun w => ?_
        show ((treeUpdate req).run w.tree)[key]? = w.tree[key]?
        rw [Update.get_run, key_treeUpdate, if_neg (h req List.mem_cons_self)]

/-- A delta whose requests do not name the key leaves it alone, whatever fails. -/
theorem get_tree_replayDelta {ar : Archiver} {d : DeltaInfo} {w : World}
    (h : ∀ req ∈ (deltaRequests ar w.files d).1, Codec.utf8 req.key ≠ key) :
    (replayDelta ar d w).2.tree[key]? = w.tree[key]? := by
  rw [deltaRequests] at h
  rw [replayDelta]
  cases hpath : d.filePath with
  | none => rfl
  | some path =>
      rw [hpath] at h
      simp only []
      refine Eff.bind_state (P := fun w' : World => w'.tree[key]? = w.tree[key]?)
        (fun e w₁ hread => ?_) fun bytes w₁ hread => ?_
      · exact (Sys.within_readFile (stored_key key) path).of_run hread
      · obtain ⟨hfile, fs, rfl⟩ := Sys.readFile_ok hread
        simp only [hfile, Option.map_some] at h
        cases hdec : DeltaSnapshotCodec.decodeEntries ar bytes with
        | error err => rfl
        | ok es =>
            simp only [hdec] at h
            exact keeps_key_applyEntriesToTree h (w.withFaults fs)

/-- A chain whose requests do not name the key leaves it alone, whatever fails. -/
theorem get_tree_replayChain {ar : Archiver} {chain : List DeltaInfo} {w : World}
    (h : ∀ req ∈ chainRequests ar w.files chain, Codec.utf8 req.key ≠ key) :
    (replayChain ar chain w).2.tree[key]? = w.tree[key]? := by
  induction chain generalizing w with
  | nil => rfl
  | cons d chain ih =>
      rw [chainRequests_cons] at h
      rw [replayChain_cons]
      have hone := get_tree_replayDelta fun req hreq => h req (List.mem_append_left _ hreq)
      have hfiles := within_replayDelta Sys.ofFiles_files ar d w
      refine Eff.bind_state (P := fun w' : World => w'.tree[key]? = w.tree[key]?)
        (fun e w₁ hrun => ?_) fun _ w₁ hrun => ?_
      · rw [hrun] at hone
        exact hone
      · rw [hrun] at hone hfiles
        have hsame : w₁.files = w.files := hfiles
        rw [if_pos (deltaRequests_of_ok hrun), ← hsame] at h
        exact (ih fun req hreq => h req (List.mem_append_right _ hreq)).trans hone

end

/-- The keys of the records that the store keeps in the tree. -/
def internalKeys : List Bytes :=
  [MetadataManager.votingRecord.key, raftVoteV2Key, MetadataManager.appliedRecord.key,
    MetadataManager.snapshotRecord.key, MetadataManager.mergeProgressRecord.key, consistencySeqKey]

/-- A merge leaves the records of every baseline alone, whatever fails, exactly when no request that
its replay can reach names one of them. -/
theorem merge_keeps_records_iff (ar : Archiver) (st : SnapshotMetaState)
    (files : OrdMap String Bytes) :
    (∀ w : World, w.files = files → ∀ key ∈ internalKeys,
      (replayDeltas ar st w).2.tree[key]? = w.tree[key]?) ↔
    ∀ req ∈ chainRequests ar files st.deltaChain, Codec.utf8 req.key ∉ internalKeys := by
  constructor
  · intro hframe req hreq hkey
    refine (replay_frame_iff (k := Codec.utf8 req.key)).mp (fun t => ?_) (treeUpdate req)
      (List.mem_map_of_mem hreq) (key_treeUpdate req)
    have hquiet : ({ emptyWorld [] with tree := t, files := files } : World).Quiet := rfl
    have hsame := hframe { emptyWorld [] with tree := t, files := files } rfl _ hkey
    rw [replayDeltas, tree_replayChain hquiet] at hsame
    exact hsame
  · rintro hno w rfl key hkey
    exact get_tree_replayChain fun req hreq heq => hno req hreq (heq ▸ hkey)

/-- The content of the checkpoint that a store has recorded. -/
def baselineTree (n : SurrealStorage) : Option Tree :=
  n.metadata.snapshotState.lastCheckpoint.bind fun cp =>
    cp.checkpointPath.bind fun path => n.world.dirs[path]?.bind Dir.tree

/-- Whether the replay of a store's chain on its baseline puts a `0` in place of a vote. -/
def overwritesVote (n : SurrealStorage) : Bool :=
  match n.baselineTree with
  | some t =>
      decide (t[MetadataManager.votingRecord.key]? = some (VotingState.codec.encode ⟨1, some 1⟩)) &&
        (replayDeltas .stored n.metadata.snapshotState).succeeds (n.world.withTree t) fun _ w =>
          decide (w.tree[MetadataManager.votingRecord.key]? = some [0])
  | none => false

theorem exists_of_overwritesVote {n : SurrealStorage} (h : overwritesVote n = true) :
    ∃ t w, n.baselineTree = some t ∧
      t[MetadataManager.votingRecord.key]? = some (VotingState.codec.encode ⟨1, some 1⟩) ∧
      replayDeltas .stored n.metadata.snapshotState (n.world.withTree t) = (.ok (), w) ∧
      w.tree[MetadataManager.votingRecord.key]? = some [0] := by
  unfold overwritesVote at h
  split at h
  next t ht =>
    obtain ⟨hvote, hrun⟩ := (Bool.and_eq_true _ _).mp h
    obtain ⟨_, w, hrun, hzero⟩ := Eff.exists_of_succeeds hrun
    exact ⟨t, w, ht, of_decide_eq_true hvote, hrun, of_decide_eq_true hzero⟩
  next => cases h

/-- A vote is saved, a snapshot is built, and a client sets the key `raft_vote`.  The merge of the
delta overwrites the vote of the checkpoint. -/
theorem client_overwrites_vote :
    ∃ n₁ n₂ n₃ n₄ n₅ first second t w,
      saveVote ⟨1, some 1, true⟩ (fresh []) = (.ok (), n₁) ∧
      apply [.put 1 1 "a" [1]] n₁ = (.ok (), n₂) ∧ buildSnapshot .stored n₂ = (.ok first, n₃) ∧
      apply [.put 1 2 "raft_vote" [0]] n₃ = (.ok (), n₄) ∧
      buildSnapshot .stored n₄ = (.ok second, n₅) ∧ n₅.baselineTree = some t ∧
      t[MetadataManager.votingRecord.key]? = some (VotingState.codec.encode ⟨1, some 1⟩) ∧
      replayDeltas .stored n₅.metadata.snapshotState (n₅.world.withTree t) = (.ok (), w) ∧
      w.tree[MetadataManager.votingRecord.key]? = some [0] := by
  have hrun : (saveVote ⟨1, some 1, true⟩).succeeds (fresh []) (fun _ n₁ =>
      (apply [.put 1 1 "a" [1]]).succeeds n₁ fun _ n₂ =>
      (buildSnapshot .stored).succeeds n₂ fun _ n₃ =>
      (apply [.put 1 2 "raft_vote" [0]]).succeeds n₃ fun _ n₄ =>
      (buildSnapshot .stored).succeeds n₄ fun _ n₅ => overwritesVote n₅) = true := by
    decide +kernel
  obtain ⟨_, n₁, h₁, hrun⟩ := Eff.exists_of_succeeds hrun
  obtain ⟨_, n₂, h₂, hrun⟩ := Eff.exists_of_succeeds hrun
  obtain ⟨first, n₃, h₃, hrun⟩ := Eff.exists_of_succeeds hrun
  obtain ⟨_, n₄, h₄, hrun⟩ := Eff.exists_of_succeeds hrun
  obtain ⟨second, n₅, h₅, hrun⟩ := Eff.exists_of_succeeds hrun
  obtain ⟨t, w, ht⟩ := exists_of_overwritesVote hrun
  exact ⟨n₁, n₂, n₃, n₄, n₅, first, second, t, w, h₁, h₂, h₃, h₄, h₅, ht⟩

end SurrealStorage

end OpenraftSurrealkv
