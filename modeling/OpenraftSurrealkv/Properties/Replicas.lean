import OpenraftSurrealkv.App
import OpenraftSurrealkv.Effects.Open

/-!
# Agreement of replicas

The nodes of a cluster apply one committed log, each at its own pace, while
clients write to any of them.  A write that the consensus library refuses may be
run on the node's own map, past the log.  Under every other key the map of a node
is the replay of the log prefix it has applied (`Cluster.Inv`), so two nodes that
have applied the same prefix agree there.
-/

namespace OpenraftSurrealkv

open Relation SurrealStorage

/-- The nodes of a cluster, with what each has applied and what each ran past the log. -/
structure Cluster (ι : Type) where
  node : ι → RaftNode
  /-- How many entries of the committed log a node has applied. -/
  applied : ι → Nat
  /-- The requests that a node ran by falling back. -/
  fellBack : ι → List KVRequest

namespace Cluster

variable {ι : Type}

/-- Nodes with the consensus library on fresh stores. -/
def Initial (c : Cluster ι) : Prop :=
  ∀ i, (c.node i).raft = true ∧ Fresh (c.node i).storage ∧ c.applied i = 0 ∧ c.fellBack i = []

/-- Under a key that no fallback wrote, a node holds the replay of the prefix it has applied. -/
def Inv (log : List Entry) (c : Cluster ι) : Prop :=
  ∀ i, ∀ k : String, (∀ req ∈ c.fellBack i, req.key ≠ k) →
    (c.node i).storage.stateMachine[k]? =
      (replay ∅ (updates (log.take (c.applied i))))[k]?

theorem Inv.init {log : List Entry} {c : Cluster ι} (h : c.Initial) : Inv log c := by
  intro i k _
  obtain ⟨-, hfresh, happlied, -⟩ := h i
  obtain ⟨w, ex, -, heq⟩ := hfresh.eq
  rw [heq, happlied]
  rfl

variable [DecidableEq ι]

/-- A client writes to a node, which the consensus library answers in any way, or a node applies
the next entries of the committed log. -/
inductive Step (log : List Entry) : Cluster ι → Cluster ι → Prop where
  | clientWrite (c : Cluster ι) (i : ι) (req : KVRequest) (answer : Except String KVResponse) :
      Step log c {
        node := Function.update c.node i (RaftNode.clientWrite answer req (c.node i)).2
        applied := c.applied
        fellBack := Function.update c.fellBack i
          (if (c.node i).fallsBack answer then c.fellBack i ++ [req] else c.fellBack i) }
  | apply (c : Cluster ι) (i : ι) (es : List Entry) (s : SurrealStorage) :
      es <+: log.drop (c.applied i) →
      SurrealStorage.apply es (c.node i).storage = (.ok (), s) →
      Step log c {
        node := Function.update c.node i { c.node i with storage := s }
        applied := Function.update c.applied i (c.applied i + es.length)
        fellBack := c.fellBack }

/-- A prefix of what is left of a list extends the part before. -/
theorem take_add_length {α : Type} {es l : List α} {n : Nat} (h : es <+: l.drop n) :
    l.take (n + es.length) = l.take n ++ es := by
  rw [List.take_add, List.prefix_iff_eq_take.mp h, List.length_take]
  congr 1
  have hle := h.length_le
  rw [Nat.min_eq_left]
  simpa using hle

/-- A client write keeps the invariant: only a fallback writes, and only under its own key. -/
theorem Inv.clientWrite {log : List Entry} {c : Cluster ι} (hi : Inv log c) (i : ι)
    (req : KVRequest) (answer : Except String KVResponse) :
    Inv log {
      node := Function.update c.node i (RaftNode.clientWrite answer req (c.node i)).2
      applied := c.applied
      fellBack := Function.update c.fellBack i
        (if (c.node i).fallsBack answer then c.fellBack i ++ [req] else c.fellBack i) } := by
  intro j k hk
  by_cases hj : j = i
  · subst hj
    simp only [Function.update_self, RaftNode.clientWrite_state] at hk ⊢
    cases hf : (c.node j).fallsBack answer with
    | false =>
        simp only [hf, Bool.false_eq_true, if_false] at hk ⊢
        exact hi j k hk
    | true =>
        simp only [hf, if_true] at hk ⊢
        have hne : req.update.key ≠ k := by
          rw [KVRequest.key_update]
          exact hk req (List.mem_append_right _ (List.mem_singleton.mpr rfl))
        rw [Update.get_run, if_neg hne]
        exact hi j k fun req' hr => hk req' (List.mem_append_left _ hr)
  · simp only [Function.update_of_ne hj] at hk ⊢
    exact hi j k hk

/-- Applying the next entries of the log keeps the invariant. -/
theorem Inv.apply {log : List Entry} {c : Cluster ι} (hi : Inv log c) {i : ι} {es : List Entry}
    {s : SurrealStorage} (hes : es <+: log.drop (c.applied i))
    (hrun : SurrealStorage.apply es (c.node i).storage = (.ok (), s)) :
    Inv log {
      node := Function.update c.node i { c.node i with storage := s }
      applied := Function.update c.applied i (c.applied i + es.length)
      fellBack := c.fellBack } := by
  intro j k hk
  by_cases hj : j = i
  · subst hj
    obtain ⟨-, fs, rfl⟩ := apply_ok hrun
    have hmap : ((es.foldl afterEntry (c.node j).storage).withFaults fs).stateMachine =
        replay (c.node j).storage.stateMachine (updates es) := stateMachine_foldl_afterEntry es _
    simp only [Function.update_self]
    rw [hmap, take_add_length hes, updates_append, replay_append, get_replay, get_replay,
      hi j k hk]
  · simp only [Function.update_of_ne hj]
    exact hi j k hk

theorem Inv.run {log : List Entry} {c c' : Cluster ι} (hi : Inv log c)
    (h : ReflTransGen (Step log) c c') : Inv log c' := by
  induction h with
  | refl => exact hi
  | tail _ hs ih =>
      cases hs with
      | clientWrite i req answer => exact ih.clientWrite i req answer
      | apply i es s hes hrun => exact ih.apply hes hrun

/-- Two nodes that have applied the same prefix agree under every key that neither of them wrote
by falling back. -/
theorem replicas_agree_past_fallback {log : List Entry} {c₀ c : Cluster ι} (h₀ : c₀.Initial)
    (h : ReflTransGen (Step log) c₀ c) {i j : ι} (hsame : c.applied i = c.applied j) (k : String)
    (hi : ∀ req ∈ c.fellBack i, req.key ≠ k) (hj : ∀ req ∈ c.fellBack j, req.key ≠ k) :
    (RaftNode.readKey k (c.node i)).1 = (RaftNode.readKey k (c.node j)).1 := by
  have hinv : Inv log c := (Inv.init h₀).run h
  show Except.ok (c.node i).storage.stateMachine[k]? = .ok (c.node j).storage.stateMachine[k]?
  rw [hinv i k hi, hinv j k hj, hsame]

/-- A cluster of two fresh nodes. -/
def pair : Cluster Bool where
  node b := ⟨false, if b then 2 else 1, fresh [], true⟩
  applied _ := 0
  fellBack _ := []

theorem pair_initial : pair.Initial := fun _ => ⟨rfl, fresh_fresh [], rfl, rfl⟩

/-- Two nodes that have applied one entry, with a write refused by the library in between. -/
theorem replicas_agree_past_fallback_pair :
    ∃ c, ReflTransGen (Step [.put 1 1 "k" [7]]) pair c ∧
      (RaftNode.readKey "k" (c.node true)).1 = (RaftNode.readKey "k" (c.node false)).1 := by
  have hrun : ReflTransGen (Step [.put 1 1 "k" [7]]) pair _ :=
    (((ReflTransGen.refl (a := pair)).tail (.clientWrite _ true (.delete "x")
      (.error "has to forward request to: None, None"))).tail
      (.apply _ true [.put 1 1 "k" [7]] _ (List.prefix_refl _) rfl)).tail
      (.apply _ false [.put 1 1 "k" [7]] _ (List.prefix_refl _) rfl)
  refine ⟨_, hrun, replicas_agree_past_fallback pair_initial hrun rfl "k" ?_ ?_⟩
  · decide
  · decide

/-- A write that falls back on one of two nodes with the same empty prefix makes them differ. -/
theorem fallback_splits_replicas :
    ∃ c, ReflTransGen (Step []) pair c ∧ c.applied true = c.applied false ∧
      (RaftNode.readKey "k" (c.node true)).1 = .ok (some [7]) ∧
      (RaftNode.readKey "k" (c.node false)).1 = .ok none :=
  ⟨_, .single (.clientWrite pair true (.set "k" [7])
    (.error "has to forward request to: None, None")), rfl, rfl, rfl⟩

end Cluster

end OpenraftSurrealkv
