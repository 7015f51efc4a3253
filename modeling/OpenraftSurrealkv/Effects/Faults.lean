import OpenraftSurrealkv.Effects.Log

/-!
# How operations use up the outcomes to come

An operation that makes `k` external calls succeeds exactly when the next `k`
outcomes are successes, and then it leaves the outcomes after them.  A
transaction makes one call to begin, one for each write and one to commit.
-/

namespace OpenraftSurrealkv

open Postcard

/-! ## Outcomes -/

namespace World

/-- None of the next `k` external calls fails. -/
def Succeeds (w : World) (k : Nat) : Prop := ∀ o ∈ w.faults.take k, o = none

instance (w : World) (k : Nat) : Decidable (w.Succeeds k) :=
  inferInstanceAs (Decidable (∀ o ∈ w.faults.take k, o = none))

/-- The world after `k` external calls. -/
def skip (w : World) (k : Nat) : World := w.withFaults (w.faults.drop k)

theorem succeeds_add {w : World} {a b : Nat} :
    w.Succeeds (a + b) ↔ w.Succeeds a ∧ (w.skip a).Succeeds b := by
  simp only [Succeeds, skip, withFaults_faults, List.take_add, List.mem_append, or_imp,
    forall_and]

theorem skip_add (w : World) (a b : Nat) : (w.skip a).skip b = w.skip (a + b) := by
  simp only [skip, withFaults_faults, withFaults_withFaults, List.drop_drop]

/-- With no failure to come, every number of calls succeeds. -/
theorem succeeds_of_quiet {w : World} (h : w.faults = []) (k : Nat) : w.Succeeds k := by
  simp [Succeeds, h]

end World

namespace Sys

theorem external_eq_ok_iff {wrap : String → RaftError} {w w' : World} :
    external wrap w = (.ok (), w') ↔ w.Succeeds 1 ∧ w' = w.skip 1 := by
  rcases hf : w.faults with _ | ⟨_ | text, fs⟩
  · have hself : w.withFaults [] = w := by
      rw [← hf]
      rfl
    simp [external, World.Succeeds, World.skip, hf, hself, eq_comm]
  · simp [external, World.Succeeds, World.skip, hf, eq_comm]
  · simp [external, World.Succeeds, World.skip, hf]

theorem setKey_eq_ok_iff {wrap : String → RaftError} {write : Update Bytes Bytes} {w w' : World} :
    setKey wrap write w = (.ok (), w') ↔ write.key ≠ [] ∧ w.Succeeds 1 ∧ w' = w.skip 1 := by
  by_cases hkey : write.key = []
  · obtain ⟨e, fs, herr⟩ := setKey_empty_key hkey wrap w
    simp [herr, hkey]
  · rw [setKey_of_ne hkey, external_eq_ok_iff]
    simp [hkey]

theorem setAll_eq_ok_iff {wrap : String → RaftError} {writes : List (Update Bytes Bytes)}
    {w w' : World} :
    setAll wrap writes w = (.ok (), w') ↔
      Keyed writes ∧ w.Succeeds writes.length ∧ w' = w.skip writes.length := by
  induction writes generalizing w with
  | nil =>
      have hkeyed : Keyed [] := List.forall_mem_nil _
      simp [setAll, hkeyed, World.Succeeds, World.skip, eq_comm]
  | cons u writes ih =>
      rw [setAll, Eff.bind_eq_ok_iff, List.length_cons, Nat.add_comm, World.succeeds_add,
        ← World.skip_add, keyed_cons]
      constructor
      · rintro ⟨_, w₁, hset, hrest⟩
        obtain ⟨hkey, hone, rfl⟩ := setKey_eq_ok_iff.mp hset
        obtain ⟨hkeyed, hmore, rfl⟩ := ih.mp hrest
        exact ⟨⟨hkey, hkeyed⟩, ⟨hone, hmore⟩, rfl⟩
      · rintro ⟨⟨hkey, hkeyed⟩, ⟨hone, hmore⟩, rfl⟩
        exact ⟨(), w.skip 1, setKey_eq_ok_iff.mpr ⟨hkey, hone, rfl⟩,
          ih.mpr ⟨hkeyed, hmore, rfl⟩⟩

/-- A transaction lands exactly when its begin, its writes and its commit succeed and no write is
under the empty key. -/
theorem transaction_eq_ok_iff {onBegin onSet onCommit : String → RaftError}
    {writes : List (Update Bytes Bytes)} {w w' : World} :
    transaction onBegin onSet onCommit writes w = (.ok (), w') ↔
      Keyed writes ∧ w.Succeeds (writes.length + 2) ∧
        w' = (w.withTree (replay w.tree writes)).skip (writes.length + 2) := by
  rw [show writes.length + 2 = 1 + (writes.length + 1) by omega, World.succeeds_add,
    World.succeeds_add, ← World.skip_add, ← World.skip_add, transaction]
  constructor
  · intro h
    obtain ⟨_, w₁, hbegin, h₁⟩ := Eff.bind_eq_ok_iff.mp h
    obtain ⟨_, w₂, hset, h₂⟩ := Eff.bind_eq_ok_iff.mp h₁
    obtain ⟨_, w₃, hcommit, h₃⟩ := Eff.bind_eq_ok_iff.mp h₂
    obtain ⟨hb, rfl⟩ := external_eq_ok_iff.mp hbegin
    obtain ⟨hkeyed, hs, rfl⟩ := setAll_eq_ok_iff.mp hset
    obtain ⟨hc, rfl⟩ := external_eq_ok_iff.mp hcommit
    exact ⟨hkeyed, ⟨hb, hs, hc⟩, (Prod.mk.inj h₃).2.symm⟩
  · rintro ⟨hkeyed, ⟨hb, hs, hc⟩, rfl⟩
    rw [Eff.bind_of_ok (external_eq_ok_iff.mpr ⟨hb, rfl⟩),
      Eff.bind_of_ok (setAll_eq_ok_iff.mpr ⟨hkeyed, hs, rfl⟩),
      Eff.bind_of_ok (external_eq_ok_iff.mpr ⟨hc, rfl⟩)]
    rfl

end Sys

/-! ## Saves -/

namespace Record

variable {α : Type} {r : Record α} {state : α} {bytes : Bytes} {m : MetadataManager}

/-- A save makes three calls. -/
theorem save_of_succeeds (hbytes : r.codec.toStdvec state = .ok bytes) (h : m.world.Succeeds 3) :
    r.save state m = (.ok (), r.set state (m.withWorld
      ((m.world.withTree (m.world.tree.insert r.key bytes)).skip 3))) := by
  have hcommit : Sys.commitWrites [.put r.key bytes] m.world =
      (.ok (), (m.world.withTree (m.world.tree.insert r.key bytes)).skip 3) :=
    Sys.transaction_eq_ok_iff.mpr ⟨Sys.keyed_put r.key_ne_nil bytes, h, rfl⟩
  rw [save, hbytes, liftPostcard, Eff.bind_of_ok (Eff.ofExcept_run _ m),
    Eff.bind_of_ok (MetadataManager.sys_of_eq hcommit)]
  rfl

theorem succeeds_of_save {m' : MetadataManager} {u : Unit}
    (h : r.save state m = (.ok u, m')) : m.world.Succeeds 3 := by
  obtain ⟨bytes, m₁, hbytes, hrest⟩ := Eff.bind_eq_ok_iff.mp h
  obtain rfl := (Prod.mk.inj hbytes).2
  obtain ⟨_, m₂, hcommit, _⟩ := Eff.bind_eq_ok_iff.mp hrest
  obtain ⟨w, hw, _⟩ := MetadataManager.sys_ok hcommit
  exact (Sys.transaction_eq_ok_iff.mp hw).2.1

end Record

namespace SurrealStorage

/-- The store after `k` external calls. -/
def skip (n : SurrealStorage) (k : Nat) : SurrealStorage := n.withFaults (n.world.faults.drop k)

theorem saveAppliedState_of_succeeds {n : SurrealStorage} (st : AppliedState)
    (h : n.world.Succeeds 3) :
    onMetadata (MetadataManager.saveAppliedState st) n = (.ok (), (n.atPosition st).skip 3) :=
  onMetadata_of_eq (Record.save_of_succeeds (AppliedState.toStdvec_eq st) h)

theorem succeeds_of_saveAppliedState {n n' : SurrealStorage} {st : AppliedState} {u : Unit}
    (h : onMetadata (MetadataManager.saveAppliedState st) n = (.ok u, n')) :
    n.world.Succeeds 3 := by
  rw [onMetadata, Eff.zoom_run, Prod.mk.injEq] at h
  exact Record.succeeds_of_save (Prod.ext h.1 rfl)

/-- A request is recorded when it fits a buffer and the save of the position succeeds. -/
theorem appendLogEntry_of_succeeds {n : SurrealStorage} {req : KVRequest} (term index : UInt64)
    (hfit : Fits req) (h : n.world.Succeeds 3) :
    appendLogEntry term index req n = (.ok (),
      ((n.withRecord ⟨term, index, KVRequest.codec.encode req⟩).atPosition ⟨index, term⟩).skip
        3) := by
  have hp := Codec.toStdvec_eq_ok_iff.mpr ⟨hfit, rfl⟩
  rw [appendLogEntry, hp, liftPostcard, Eff.bind_of_ok (Eff.ofExcept_run _ n),
    Eff.bind_of_ok (Eff.modify_run _ n)]
  exact saveAppliedState_of_succeeds ⟨index, term⟩ h

theorem succeeds_of_appendLogEntry {n n' : SurrealStorage} {req : KVRequest} {term index : UInt64}
    {u : Unit} (h : appendLogEntry term index req n = (.ok u, n')) : n.world.Succeeds 3 := by
  obtain ⟨payload, n₁, hpayload, hrest⟩ := Eff.bind_eq_ok_iff.mp h
  obtain rfl := (Prod.mk.inj hpayload).2
  obtain ⟨_, n₂, hrecord, hsave⟩ := Eff.bind_eq_ok_iff.mp hrest
  obtain rfl := (Prod.mk.inj hrecord).2
  have hworld := succeeds_of_saveAppliedState hsave
  exact hworld

end SurrealStorage

end OpenraftSurrealkv
