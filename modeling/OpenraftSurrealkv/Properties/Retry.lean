import OpenraftSurrealkv.Effects.History

/-!
# Applying again after a failure

An entry makes up to four changes with two saves between them, and `apply` stops
at the first save that fails.  What is left is either an entry that is not
recorded as applied and whose changes, made again, give what they would have
given (`Undone`), or an entry that is recorded as applied and complete
(`Complete`).  The second happens when a request was recorded and only the save
after it failed.

So calling `apply` again with the entries beyond the recorded position, however
often and in whatever batches, ends in the store that one `apply` without
failures leaves.
-/

namespace OpenraftSurrealkv

open Postcard

namespace SurrealStorage

/-! ## Failing entries -/

/-- The entry is not recorded as applied, and applying it gives what it would have given. -/
def Undone (e : Entry) (n n' : SurrealStorage) : Prop :=
  n'.metadata.appliedState = n.metadata.appliedState ∧
    ∃ fs, n'.afterEntry e = (n.afterEntry e).withFaults fs

/-- The entry is applied. -/
def Complete (e : Entry) (n n' : SurrealStorage) : Prop :=
  EntryFits e ∧ ∃ fs, n' = (n.afterEntry e).withFaults fs

theorem Undone.withFaults {e : Entry} {n n' : SurrealStorage} (h : Undone e n n')
    (fs : List (Option String)) : Undone e n (n'.withFaults fs) := by
  obtain ⟨hsame, gs, heq⟩ := h
  refine ⟨hsame, fs, ?_⟩
  rw [withFaults_afterEntry, heq, withFaults_withFaults]

theorem Undone.of_withFaults {e : Entry} {n n' : SurrealStorage} {fs : List (Option String)}
    (h : Undone e (n.withFaults fs) n') : Undone e n n' := by
  obtain ⟨hsame, gs, heq⟩ := h
  refine ⟨hsame, gs, ?_⟩
  rw [heq, withFaults_afterEntry, withFaults_withFaults]

theorem undone_refl (e : Entry) (n : SurrealStorage) : Undone e n n :=
  ⟨rfl, (n.afterEntry e).world.faults, rfl⟩

/-- The request of an entry ran on the map. -/
theorem undone_request {e : Entry} {req : KVRequest} (h : e.payload = .normal req)
    (n : SurrealStorage) :
    Undone e n { n with stateMachine := req.update.run n.stateMachine } := by
  refine ⟨rfl, (n.afterEntry e).world.faults, ?_⟩
  rw [withFaults_self, afterEntry, afterEntry, afterPayload, afterPayload, h]
  simp only [Update.run_run]

/-- The request of an entry ran on the map and is recorded. -/
theorem undone_record {e : Entry} {req : KVRequest} (h : e.payload = .normal req)
    (n : SurrealStorage) :
    Undone e n ({ n with stateMachine := req.update.run n.stateMachine }.withRecord
      (recordOf e req)) := by
  refine ⟨rfl, (n.afterEntry e).world.faults, ?_⟩
  have hlogs : ∀ (m : OrdMap UInt64 LogEntry) (k : UInt64) (v : LogEntry),
      (m.insert k v).insert k v = m.insert k v :=
    fun m k v => Update.run_run m (.put k v)
  rw [withFaults_self, afterEntry, afterEntry, afterPayload, afterPayload, h]
  simp only [withRecord, recordOf, Update.run_run, hlogs]

theorem applyPayload_error {e : Entry} {n n' : SurrealStorage} {err : RaftError}
    (h : applyPayload e n = (.error err, n')) : Undone e n n' := by
  rcases e with ⟨id, p⟩
  cases p with
  | blank => cases h
  | membership m => cases h
  | normal req =>
      rw [applyPayload] at h
      simp only [] at h
      rw [Eff.bind_of_ok (show asIo (applyRequest req) n = (.ok .ok, _) from rfl)] at h
      rcases Eff.bind_eq_error_iff.mp h with hlog | ⟨_, _, _, hpure⟩
      · obtain ⟨_, hlog⟩ := Eff.mapErr_eq_error hlog
        obtain ⟨fs, ⟨_, hok⟩ | ⟨_, herr⟩ | ⟨_, herr⟩⟩ := appendLogEntry_cases id.term id.index req
          { n with stateMachine := req.update.run n.stateMachine }
        · cases hok.symm.trans hlog
        · cases herr.symm.trans hlog
          exact (undone_record (e := ⟨id, .normal req⟩) rfl n).withFaults fs
        · cases herr.symm.trans hlog
          exact (undone_request (e := ⟨id, .normal req⟩) rfl n).withFaults fs
      · cases hpure

theorem applyPayload_settles {e : Entry} {n n' : SurrealStorage} {r : KVResponse}
    (h : applyPayload e n = (.ok r, n')) : Undone e n n' ∨ Complete e n n' := by
  obtain ⟨hfit, _⟩ := applyPayload_ok h
  rcases e with ⟨id, p⟩
  cases p with
  | blank =>
      cases h
      exact Or.inl (undone_refl _ n)
  | membership m =>
      cases h
      exact Or.inl ⟨rfl, (n.afterEntry ⟨id, .membership m⟩).world.faults, rfl⟩
  | normal req =>
      obtain ⟨_, fs, hstate⟩ := applyPayload_normal_ok h
      exact Or.inr ⟨hfit, fs, hstate⟩

/-- An entry that fails can be applied again, or is applied. -/
theorem applyEntry_error {e : Entry} {n n' : SurrealStorage} {err : RaftError}
    (h : applyEntry e n = (.error err, n')) : Undone e n n' ∨ Complete e n n' := by
  rcases Eff.bind_eq_error_iff.mp h with hitem | ⟨_, n₁, hitem, h₁⟩
  · obtain ⟨fs, rfl⟩ := sys_external_state hitem
    exact Or.inl ((undone_refl e n).withFaults fs)
  obtain ⟨fs, rfl⟩ := sys_external_state hitem
  rcases Eff.bind_eq_error_iff.mp h₁ with hpay | ⟨_, n₂, hpay, h₂⟩
  · exact Or.inl (applyPayload_error hpay).of_withFaults
  rcases Eff.bind_eq_error_iff.mp h₂ with hsave | ⟨_, _, _, hpure⟩
  · obtain ⟨_, hsave⟩ := Eff.mapErr_eq_error hsave
    obtain ⟨gs, hok | ⟨_, herr⟩⟩ := saveAppliedState_cases ⟨e.index, e.term⟩ n₂
    · cases hok.symm.trans hsave
    · cases herr.symm.trans hsave
      rcases applyPayload_settles hpay with hundone | ⟨hfit, fs', rfl⟩
      · exact Or.inl (hundone.of_withFaults.withFaults gs)
      · refine Or.inr ⟨hfit, gs, ?_⟩
        rw [withFaults_afterEntry, withFaults_withFaults, withFaults_withFaults]
  · cases hpure

/-! ## Failing calls -/

theorem position_foldl_congr {n m : SurrealStorage} (es : List Entry)
    (h : n.metadata.appliedState = m.metadata.appliedState) :
    (es.foldl afterEntry n).metadata.appliedState =
      (es.foldl afterEntry m).metadata.appliedState := by
  induction es generalizing n m with
  | nil => exact h
  | cons e es ih => exact ih rfl

theorem position_foldl_concat (n : SurrealStorage) (es : List Entry) (e : Entry) :
    ((es ++ [e]).foldl afterEntry n).metadata.appliedState = ⟨e.index, e.term⟩ := by
  rw [List.foldl_append]
  rfl

/-- Some of the entries are recorded as applied, and applying the rest gives what applying all of
them to the first store would have given. -/
structure Halfway (es : List Entry) (n₀ n : SurrealStorage) (done rest : List Entry) : Prop where
  split : es = done ++ rest
  fits : ∀ e ∈ done, EntryFits e
  position : n.metadata.appliedState = (done.foldl afterEntry n₀).metadata.appliedState
  completes : ∃ fs, rest.foldl afterEntry n = (es.foldl afterEntry n₀).withFaults fs

theorem Halfway.start (es : List Entry) (n : SurrealStorage) : Halfway es n n [] es where
  split := rfl
  fits := fun _ he => nomatch he
  position := rfl
  completes := ⟨(es.foldl afterEntry n).world.faults, rfl⟩

/-- Applying some of the rest, halfway as well. -/
theorem Halfway.trans {es done rest batch back done' rest' : List Entry}
    {n₀ n n' : SurrealStorage} (h : Halfway es n₀ n done rest) (hrest : rest = batch ++ back)
    (h' : Halfway batch n n' done' rest') :
    Halfway es n₀ n' (done ++ done') (rest' ++ back) where
  split := by rw [h.split, hrest, h'.split, List.append_assoc, List.append_assoc]
  fits := by
    intro e he
    rcases List.mem_append.mp he with he | he
    · exact h.fits e he
    · exact h'.fits e he
  position := by
    rw [h'.position, List.foldl_append]
    exact position_foldl_congr done' h.position
  completes := by
    obtain ⟨fs, hfs⟩ := h.completes
    obtain ⟨gs, hgs⟩ := h'.completes
    refine ⟨gs, ?_⟩
    rw [List.foldl_append, hgs, foldl_withFaults withFaults_afterEntry, ← List.foldl_append,
      ← hrest, hfs, withFaults_withFaults]

theorem Halfway.of_complete {e : Entry} {n n' : SurrealStorage} (h : Complete e n n') :
    Halfway [e] n n' [e] [] := by
  obtain ⟨hfit, fs, rfl⟩ := h
  refine ⟨rfl, ?_, rfl, fs, rfl⟩
  intro e' he'
  rw [List.mem_singleton.mp he']
  exact hfit

theorem Halfway.of_undone {e : Entry} {n n' : SurrealStorage} (h : Undone e n n') :
    Halfway [e] n n' [] [e] :=
  ⟨rfl, (fun _ he => nomatch he), h.1, h.2⟩

/-- A call of `apply` gets halfway, whatever its outcome. -/
theorem halfway_apply {es : List Entry} {n n' : SurrealStorage} {r : Except RaftError Unit}
    (h : apply es n = (r, n')) : ∃ done rest, Halfway es n n' done rest := by
  induction es generalizing n with
  | nil =>
      cases h
      exact ⟨[], [], .start [] _⟩
  | cons e es ih =>
      have hstart := Halfway.start (e :: es) n
      cases hone : applyEntry e n with
      | mk r₁ n₁ =>
          cases r₁ with
          | ok resp =>
              obtain ⟨hfit, hcomplete⟩ := applyEntry_ok hone
              have hfirst := hstart.trans rfl (Halfway.of_complete ⟨hfit, hcomplete⟩)
              rw [apply, Eff.bind_of_ok hone] at h
              obtain ⟨done, rest, hhalf⟩ := ih h
              exact ⟨_, _, hfirst.trans (List.append_nil es).symm hhalf⟩
          | error err =>
              rw [apply, Eff.bind_of_error hone] at h
              cases h
              rcases applyEntry_error hone with hundone | hcomplete
              · exact ⟨_, _, hstart.trans rfl (.of_undone hundone)⟩
              · exact ⟨_, _, hstart.trans rfl (.of_complete hcomplete)⟩

/-! ## Retries -/

/-- The entries beyond the recorded position. -/
def remaining (es : List Entry) (n : SurrealStorage) : List Entry :=
  es.filter fun e => decide (n.metadata.appliedState.lastAppliedIndex < e.index)

/-- Call `apply` with all of them. -/
def retry (es : List Entry) : Op Unit := fun n => apply (remaining es n) n

/-- A call of `apply` with the next entries, however many, with any outcome. -/
def Retries (es : List Entry) (n n' : SurrealStorage) : Prop :=
  ∃ batch back r, remaining es n = batch ++ back ∧ apply batch n = (r, n')

theorem Halfway.remaining_eq {es done rest : List Entry} {n₀ n : SurrealStorage}
    (h : Halfway es n₀ n done rest) (hinc : Increasing es)
    (habove : ∀ e ∈ es, n₀.metadata.appliedState.lastAppliedIndex < e.index) :
    remaining es n = rest := by
  rw [remaining, h.position]
  rw [h.split] at hinc habove ⊢
  rw [List.filter_append]
  rcases List.eq_nil_or_concat done with rfl | ⟨front, last, rfl⟩
  · rw [List.filter_nil, List.nil_append, List.filter_eq_self]
    exact fun e he => decide_eq_true (habove e he)
  · rw [List.concat_eq_append] at hinc ⊢
    rw [position_foldl_concat]
    obtain ⟨hdone, _, hcross⟩ := List.pairwise_append.mp hinc
    have hnil : (front ++ [last]).filter (fun e => decide (last.index < e.index)) = [] := by
      rw [List.filter_eq_nil_iff]
      intro e he hlt
      have hle := index_le_getLast hdone (List.getLast?_concat ..) he
      exact UInt64.not_le.mpr (of_decide_eq_true hlt) hle
    rw [hnil, List.nil_append, List.filter_eq_self]
    exact fun e he => decide_eq_true (hcross last (List.mem_concat_self ..) e he)

theorem Halfway.run {es : List Entry} {n₀ n : SurrealStorage} (hinc : Increasing es)
    (habove : ∀ e ∈ es, n₀.metadata.appliedState.lastAppliedIndex < e.index)
    (hrun : Relation.ReflTransGen (Retries es) n₀ n) : ∃ done rest, Halfway es n₀ n done rest := by
  induction hrun with
  | refl => exact ⟨[], es, .start es n₀⟩
  | tail _ hstep ih =>
      obtain ⟨done, rest, hhalf⟩ := ih
      obtain ⟨batch, back, r, hbatch, happly⟩ := hstep
      rw [hhalf.remaining_eq hinc habove] at hbatch
      obtain ⟨done', rest', hhalf'⟩ := halfway_apply happly
      exact ⟨_, _, hhalf.trans hbatch hhalf'⟩

/-! ## Calls without failures -/

theorem faults_afterEntry (n : SurrealStorage) (e : Entry) :
    (n.afterEntry e).world.faults = n.world.faults := by
  rcases e with ⟨id, p⟩
  cases p <;> rfl

theorem applyPayload_quiet {e : Entry} {n : SurrealStorage} (hfit : EntryFits e)
    (h : n.world.faults = []) :
    ∃ r n', applyPayload e n = (.ok r, n') ∧ n'.world.faults = [] := by
  rcases e with ⟨id, p⟩
  cases p with
  | blank => exact ⟨_, _, rfl, h⟩
  | membership m => exact ⟨_, _, rfl, h⟩
  | normal req =>
      have hreq : asIo (applyRequest req) n =
          (.ok .ok, { n with stateMachine := req.update.run n.stateMachine }) := rfl
      have hlog := appendLogEntry_quiet
        (n := { n with stateMachine := req.update.run n.stateMachine }) id.term id.index
        (hfit req rfl) h
      exact ⟨_, _, Eff.bind_eq_ok_iff.mpr ⟨_, _, hreq, Eff.bind_eq_ok_iff.mpr
        ⟨_, _, Eff.mapErr_of_ok hlog, rfl⟩⟩, h⟩

/-- An entry that can be serialized is applied when nothing fails. -/
theorem applyEntry_quiet {e : Entry} {n : SurrealStorage} (hfit : EntryFits e)
    (h : n.world.faults = []) : ∃ r, applyEntry e n = (.ok r, n.afterEntry e) := by
  have hitem : sys (Sys.external .io) n = (.ok (), n) := sys_of_eq (Sys.external_quiet .io h)
  obtain ⟨r, n₁, hpay, h₁⟩ := applyPayload_quiet hfit h
  have hsave := saveAppliedState_quiet ⟨e.index, e.term⟩ h₁
  have hrun : applyEntry e n = (.ok r, n₁.atPosition ⟨e.index, e.term⟩) :=
    Eff.bind_eq_ok_iff.mpr ⟨_, _, hitem, Eff.bind_eq_ok_iff.mpr
      ⟨_, _, hpay, Eff.bind_eq_ok_iff.mpr ⟨_, _, Eff.mapErr_of_ok hsave, rfl⟩⟩⟩
  refine ⟨r, hrun.trans ?_⟩
  obtain ⟨_, fs, heq⟩ := applyPayload_ok hpay
  have hfs : (n₁.atPosition ⟨e.index, e.term⟩).world.faults = fs := by
    rw [heq]
    rfl
  have hnil : fs = (n.afterEntry e).world.faults := by
    rw [← hfs, faults_afterEntry, h]
    exact h₁
  rw [heq, hnil, withFaults_self]

theorem apply_quiet {es : List Entry} {n : SurrealStorage} (hfits : ∀ e ∈ es, EntryFits e)
    (h : n.world.faults = []) : apply es n = (.ok (), es.foldl afterEntry n) := by
  induction es generalizing n with
  | nil => rfl
  | cons e es ih =>
      obtain ⟨r, hone⟩ := applyEntry_quiet (hfits e List.mem_cons_self) h
      rw [apply, Eff.bind_of_ok hone, List.foldl_cons]
      have hrest : ∀ e' ∈ es, EntryFits e' := fun e' he' => hfits e' (List.mem_cons_of_mem e he')
      exact ih hrest ((faults_afterEntry n e).trans h)

/-- After any calls with entries beyond the recorded position, a successful call with all of them
leaves what one call without failures leaves, and such a call is possible.  The entries are at
increasing, in particular at consecutive, indices. -/
theorem apply_replay_safe {es : List Entry} {n₀ n : SurrealStorage} (hinc : Increasing es)
    (habove : ∀ e ∈ es, n₀.metadata.appliedState.lastAppliedIndex < e.index)
    (hrun : Relation.ReflTransGen (Retries es) n₀ n) :
    (∀ n', retry es n = (.ok (), n') →
      ∃ m, apply es (n₀.withFaults []) = (.ok (), m) ∧
        n'.stateMachine = m.stateMachine ∧ n'.lastMembership = m.lastMembership ∧
        n'.raftLogs = m.raftLogs ∧ n'.metadata.appliedState = m.metadata.appliedState ∧
        n'.world.tree = m.world.tree) ∧
    ((∀ e ∈ es, EntryFits e) → ∃ n', retry es (n.withFaults []) = (.ok (), n')) := by
  obtain ⟨done, rest, hhalf⟩ := Halfway.run hinc habove hrun
  have hrest : remaining es n = rest := hhalf.remaining_eq hinc habove
  constructor
  · intro n' hlast
    rw [retry, hrest] at hlast
    obtain ⟨hfits, fs, rfl⟩ := apply_ok hlast
    obtain ⟨gs, hgs⟩ := hhalf.completes
    have hall : ∀ e ∈ es, EntryFits e := by
      intro e he
      rw [hhalf.split] at he
      rcases List.mem_append.mp he with he | he
      · exact hhalf.fits e he
      · exact hfits e he
    refine ⟨_, apply_quiet hall rfl, ?_⟩
    rw [hgs, foldl_withFaults withFaults_afterEntry]
    exact ⟨rfl, rfl, rfl, rfl, rfl⟩
  · intro hall
    refine ⟨_, apply_quiet (fun e he => hall e ?_) rfl⟩
    exact List.mem_of_mem_filter he

/-- A request, a membership and a request. -/
def mixedEntries : List Entry :=
  [.put 1 1 "a" [1], ⟨⟨1, 2⟩, .membership ⟨[[1]], [(1, ⟨""⟩)]⟩⟩, .put 2 3 "b" [2]]

/-- A fresh store whose fifth and twelfth calls of the outside fail. -/
def failsTwice : SurrealStorage :=
  (fresh []).withFaults (List.replicate 4 none ++ [some "first"] ++ List.replicate 6 none ++
    [some "second"])

/-- The save after the first request and the save of the last request fail, and the third call
succeeds. -/
theorem apply_replay_safe_fails_twice : ∃ n₁ n₂ n' m,
    retry mixedEntries failsTwice =
      (.error (.io "Storage error: SurrealKV error: first"), n₁) ∧
    retry mixedEntries n₁ = (.error (.io "Storage error: SurrealKV error: second"), n₂) ∧
    retry mixedEntries n₂ = (.ok (), n') ∧
    apply mixedEntries (failsTwice.withFaults []) = (.ok (), m) ∧
    n'.stateMachine = m.stateMachine ∧ n'.lastMembership = m.lastMembership ∧
    n'.raftLogs = m.raftLogs ∧ n'.metadata.appliedState = m.metadata.appliedState ∧
    n'.world.tree = m.world.tree := by
  have hfirst : (retry mixedEntries failsTwice).1 =
      .error (.io "Storage error: SurrealKV error: first") := by
    decide +kernel
  have hsecond : (retry mixedEntries (retry mixedEntries failsTwice).2).1 =
      .error (.io "Storage error: SurrealKV error: second") := by
    decide +kernel
  have hthird : (retry mixedEntries
      (retry mixedEntries (retry mixedEntries failsTwice).2).2).1 = .ok () := by
    decide +kernel
  have hstep : ∀ n, Retries mixedEntries n (retry mixedEntries n).2 :=
    fun n => ⟨remaining mixedEntries n, [], _, (List.append_nil _).symm, rfl⟩
  have hrun := (Relation.ReflTransGen.single (hstep failsTwice)).tail (hstep _)
  have hinc : Increasing mixedEntries := by
    unfold Increasing
    decide +kernel
  obtain ⟨m, hm, hsame⟩ := (apply_replay_safe hinc (by decide +kernel) hrun).1 _
    (Prod.ext hthird rfl)
  exact ⟨_, _, _, m, Prod.ext hfirst rfl, Prod.ext hsecond rfl, Prod.ext hthird rfl, hm, hsame⟩

end SurrealStorage

end OpenraftSurrealkv
