import OpenraftSurrealkv.Lib.Effect
import Mathlib.Data.List.Nodup
import Mathlib.Data.List.Induction

/-!
# Remote calls over a network that loses and delays

A caller sends a message and waits.  Meanwhile other callers send messages of
their own and the server executes messages, each at most once, in any order and
at any time after it was sent.  A message that is lost is one that is never
executed.  The wait ends with the reply, with a failure of the connection, or
with a timeout, and the last two say nothing about whether the message was or
will be executed.

What happens while a caller waits is a `Turn`.  A network has a list of turns to
come, so a statement about every network is one about every interleaving.

* `Network.Sound` : every execution is one of a message that was sent, no message
  is executed twice, and the replies are those of the server run on the messages
  in the order of execution.
* `retry` sends a message again after a failure, a bounded number of times.
-/

/-! ## Trying again -/

namespace Eff

variable {σ F ε α : Type}

/-- Run a computation, and again after a failure while there are retries left.  The last failure is
reported with the number of runs. -/
def retry (giveUp : Nat → F → ε) (call : Eff σ F α) : Nat → Nat → Eff σ ε α
  | 0, attempt => fun s =>
      match call s with
      | (.ok a, s') => (.ok a, s')
      | (.error f, s') => (.error (giveUp (attempt + 1) f), s')
  | left + 1, attempt => fun s =>
      match call s with
      | (.ok a, s') => (.ok a, s')
      | (.error _, s') => retry giveUp call left (attempt + 1) s'

/-- Runs that all fail, one after the other. -/
inductive Fails (call : Eff σ F α) : σ → Nat → σ → Prop
  | nil {s : σ} : Fails call s 0 s
  | cons {s t u : σ} {f : F} {k : Nat} :
      call s = (.error f, t) → Fails call t k u → Fails call s (k + 1) u

variable {giveUp : Nat → F → ε} {call : Eff σ F α}

theorem retry_of_ok {s t : σ} {a : α} (h : call s = (.ok a, t)) (left attempt : Nat) :
    retry giveUp call left attempt s = (.ok a, t) := by
  cases left <;> simp only [retry, h]

theorem retry_zero_of_error {s t : σ} {f : F} (h : call s = (.error f, t)) (attempt : Nat) :
    retry giveUp call 0 attempt s = (.error (giveUp (attempt + 1) f), t) := by
  simp only [retry, h]

theorem retry_succ_of_error {s t : σ} {f : F} (h : call s = (.error f, t)) (left attempt : Nat) :
    retry giveUp call (left + 1) attempt s = retry giveUp call left (attempt + 1) t := by
  simp only [retry, h]

/-- Success is that of one run, after failures that were fewer than the runs allowed. -/
theorem retry_ok {left attempt : Nat} {s t : σ} {a : α}
    (h : retry giveUp call left attempt s = (.ok a, t)) :
    ∃ k u, k ≤ left ∧ Fails call s k u ∧ call u = (.ok a, t) := by
  induction left generalizing s attempt with
  | zero =>
      rcases hcall : call s with ⟨b | f, s'⟩
      · rw [retry_zero_of_error hcall] at h
        cases h
      · rw [retry_of_ok hcall] at h
        cases h
        exact ⟨0, s, Nat.le_refl 0, .nil, hcall⟩
  | succ left ih =>
      rcases hcall : call s with ⟨b | f, s'⟩
      · rw [retry_succ_of_error hcall] at h
        obtain ⟨k, u, hk, hfails, hok⟩ := ih h
        exact ⟨k + 1, u, Nat.succ_le_succ hk, .cons hcall hfails, hok⟩
      · rw [retry_of_ok hcall] at h
        cases h
        exact ⟨0, s, Nat.zero_le _, .nil, hcall⟩

/-- Failure is that of the last run allowed, after failures of all the others. -/
theorem retry_error {left attempt : Nat} {s t : σ} {e : ε}
    (h : retry giveUp call left attempt s = (.error e, t)) :
    ∃ f u, Fails call s left u ∧ call u = (.error f, t) ∧ e = giveUp (attempt + left + 1) f := by
  induction left generalizing s attempt with
  | zero =>
      rcases hcall : call s with ⟨b | f, s'⟩
      · rw [retry_zero_of_error hcall] at h
        cases h
        exact ⟨b, s, .nil, hcall, rfl⟩
      · rw [retry_of_ok hcall] at h
        cases h
  | succ left ih =>
      rcases hcall : call s with ⟨b | f, s'⟩
      · rw [retry_succ_of_error hcall] at h
        obtain ⟨f, u, hfails, hlast, he⟩ := ih h
        refine ⟨f, u, .cons hcall hfails, hlast, ?_⟩
        rw [he]
        congr 1
        omega
      · rw [retry_of_ok hcall] at h
        cases h

/-- What every run keeps, all of them do. -/
theorem retry_run {P : σ → Prop} (hcall : ∀ s, P s → P (call s).2) {left attempt : Nat} {s t : σ}
    {r : Except ε α} (h : retry giveUp call left attempt s = (r, t)) (hs : P s) : P t := by
  induction left generalizing attempt s with
  | zero =>
      have hnext := hcall s hs
      rcases hrun : call s with ⟨f | a, t⟩
      · rw [retry_zero_of_error hrun] at h
        rw [hrun] at hnext
        exact (Prod.mk.inj h).2 ▸ hnext
      · rw [retry_of_ok hrun] at h
        rw [hrun] at hnext
        exact (Prod.mk.inj h).2 ▸ hnext
  | succ left ih =>
      have hnext := hcall s hs
      rcases hrun : call s with ⟨f | a, t⟩
      · rw [retry_succ_of_error hrun] at h
        rw [hrun] at hnext
        exact ih h hnext
      · rw [retry_of_ok hrun] at h
        rw [hrun] at hnext
        exact (Prod.mk.inj h).2 ▸ hnext

end Eff

namespace Rpc

/-! ## Networks -/

/-- A message, with the call it was sent for. -/
structure Sent (C M : Type) where
  call : C
  message : M
deriving DecidableEq, Repr

/-- The execution of the message with the given number, in a state of the server. -/
structure Execution (C M F R σ : Type) where
  number : Nat
  request : Sent C M
  before : σ
  reply : Except F R

/-- What others do while a caller waits. -/
inductive Action (C M : Type) where
  | send (request : Sent C M)
  | execute (number : Nat)
deriving DecidableEq, Repr

/-- How a wait ends. -/
inductive Ending (F : Type) where
  | replied
  | broken (cause : F)
  | timedOut
deriving DecidableEq, Repr

/-- What happens during a wait. -/
structure Turn (C M F : Type) where
  actions : List (Action C M)
  ending : Ending F
deriving DecidableEq, Repr

/-- The server, all messages sent to it, all it executed, and the turns to come. -/
structure Network (C M F R σ : Type) where
  server : σ
  sent : List (Sent C M)
  executed : List (Execution C M F R σ)
  turns : List (Turn C M F)

/-- Why an attempt failed. -/
inductive AttemptError (F : Type) where
  | failed (cause : F)
  | timedOut
deriving DecidableEq, Repr

namespace Network

variable {C M F R σ : Type}

/-- A message that was sent and not executed is executed. -/
def execute (handle : M → σ → Except F R × σ) (net : Network C M F R σ) (number : Nat) :
    Network C M F R σ :=
  match net.sent[number]? with
  | none => net
  | some request =>
      if net.executed.any (fun e => e.number == number) then net
      else
        { net with
          server := (handle request.message net.server).2
          executed := net.executed ++
            [⟨number, request, net.server, (handle request.message net.server).1⟩] }

/-- One action of others. -/
def act (handle : M → σ → Except F R × σ) (net : Network C M F R σ) :
    Action C M → Network C M F R σ
  | .send request => { net with sent := net.sent ++ [request] }
  | .execute number => net.execute handle number

/-- The reply to the message with the given number. -/
def reply (net : Network C M F R σ) (number : Nat) : Option (Except F R) :=
  (net.executed.find? fun e => e.number == number).map Execution.reply

/-- What the wait gives the caller of the message with the given number. -/
def outcome (net : Network C M F R σ) (number : Nat) : Ending F → Except (AttemptError F) R
  | .replied =>
      match net.reply number with
      | some (.ok r) => .ok r
      | some (.error f) => .error (.failed f)
      | none => .error .timedOut
  | .broken f => .error (.failed f)
  | .timedOut => .error .timedOut

/-- The network after a message was sent and its wait is over. -/
def afterTurn (handle : M → σ → Except F R × σ) (request : Sent C M) (turn : Turn C M F)
    (net : Network C M F R σ) : Network C M F R σ :=
  turn.actions.foldl (act handle)
    { net with sent := net.sent ++ [request], turns := net.turns.tail }

/-- Send a message and wait.  With no turn to come the wait times out. -/
def request (handle : M → σ → Except F R × σ) (req : Sent C M) :
    Eff (Network C M F R σ) (AttemptError F) R := fun net =>
  let turn := net.turns.headD ⟨[], .timedOut⟩
  let net' := net.afterTurn handle req turn
  (net'.outcome net.sent.length turn.ending, net')

/-! ## What a network keeps -/

/-- Executions one after the other, from a state of the server to another. -/
def Linked (handle : M → σ → Except F R × σ) : σ → List (Execution C M F R σ) → σ → Prop
  | s, [], t => s = t
  | s, e :: es, t => e.before = s ∧ e.reply = (handle e.request.message s).1 ∧
      Linked handle (handle e.request.message s).2 es t

variable {handle : M → σ → Except F R × σ}

theorem Linked.concat {e : Execution C M F R σ} : ∀ {es : List (Execution C M F R σ)} {s t : σ},
    Linked handle s es t → e.before = t → e.reply = (handle e.request.message t).1 →
      Linked handle s (es ++ [e]) (handle e.request.message t).2
  | [], s, t, h, hbefore, hreply => by
      cases h
      exact ⟨hbefore, hreply, rfl⟩
  | _ :: es, _, _, ⟨hfirst, hfirst', hrest⟩, hbefore, hreply =>
      ⟨hfirst, hfirst', hrest.concat hbefore hreply⟩

/-- The reply of an execution is that of the server in the state before it. -/
theorem Linked.reply_eq : ∀ {es : List (Execution C M F R σ)} {s t : σ},
    Linked handle s es t → ∀ e ∈ es, e.reply = (handle e.request.message e.before).1
  | e :: es, s, t, ⟨hbefore, hreply, hrest⟩, e', he' => by
      rcases List.mem_cons.mp he' with rfl | he'
      · rw [hreply, hbefore]
      · exact hrest.reply_eq e' he'

/-- The executions are those of messages that were sent, each at most once, and the server is in
the state they leave. -/
structure Sound (handle : M → σ → Except F R × σ) (s₀ : σ) (net : Network C M F R σ) : Prop where
  linked : Linked handle s₀ net.executed net.server
  sent : ∀ e ∈ net.executed, net.sent[e.number]? = some e.request
  once : (net.executed.map Execution.number).Nodup

/-- A network with nothing sent. -/
def start (s₀ : σ) (turns : List (Turn C M F)) : Network C M F R σ := ⟨s₀, [], [], turns⟩

theorem Sound.start (s₀ : σ) (turns : List (Turn C M F)) :
    Sound handle s₀ (Network.start s₀ turns : Network C M F R σ) :=
  ⟨rfl, (fun _ he => nomatch he), .nil⟩

theorem Sound.send {s₀ : σ} {net : Network C M F R σ} (h : Sound handle s₀ net)
    (request : Sent C M) (turns : List (Turn C M F)) :
    Sound handle s₀ { net with sent := net.sent ++ [request], turns := turns } where
  linked := h.linked
  sent := by
    intro e he
    have hold := h.sent e he
    rw [List.getElem?_append_left (List.getElem?_eq_some_iff.mp hold).1]
    exact hold
  once := h.once

/-- An action executes nothing new, or one message for the first time. -/
theorem execute_cases (handle : M → σ → Except F R × σ) (net : Network C M F R σ) (number : Nat) :
    net.execute handle number = net ∨
      ∃ request, net.sent[number]? = some request ∧
        (∀ e ∈ net.executed, e.number ≠ number) ∧
        net.execute handle number =
          { net with
            server := (handle request.message net.server).2
            executed := net.executed ++
              [⟨number, request, net.server, (handle request.message net.server).1⟩] } := by
  cases hsent : net.sent[number]? with
  | none =>
      left
      simp only [execute, hsent]
  | some request =>
      by_cases hdone : net.executed.any (fun e => e.number == number) = true
      · left
        simp only [execute, hsent, hdone, if_true]
      · refine Or.inr ⟨request, rfl, ?_, ?_⟩
        · intro e he heq
          refine hdone (List.any_eq_true.mpr ⟨e, he, ?_⟩)
          rw [heq]
          exact beq_self_eq_true number
        · simp only [execute, hsent, hdone]
          rfl

theorem Sound.execute {s₀ : σ} {net : Network C M F R σ} (h : Sound handle s₀ net)
    (number : Nat) : Sound handle s₀ (net.execute handle number) := by
  rcases execute_cases handle net number with hsame | ⟨request, hrequest, hnew, heq⟩
  · rw [hsame]
    exact h
  · rw [heq]
    refine ⟨h.linked.concat rfl rfl, ?_, ?_⟩
    · intro e he
      rcases List.mem_append.mp he with he | he
      · exact h.sent e he
      · rw [List.mem_singleton] at he
        subst he
        exact hrequest
    · rw [List.map_append, List.nodup_append]
      refine ⟨h.once, List.nodup_singleton _, ?_⟩
      intro a ha b hb hab
      obtain ⟨e, he, rfl⟩ := List.mem_map.mp ha
      rw [List.map_singleton, List.mem_singleton] at hb
      exact hnew e he (hab.trans hb)

theorem Sound.act {s₀ : σ} {net : Network C M F R σ} (h : Sound handle s₀ net) :
    ∀ action, Sound handle s₀ (net.act handle action)
  | .send request => h.send request net.turns
  | .execute number => h.execute number

theorem Sound.foldl {s₀ : σ} : ∀ (actions : List (Action C M)) {net : Network C M F R σ},
    Sound handle s₀ net → Sound handle s₀ (actions.foldl (Network.act handle) net)
  | [], _, h => h
  | a :: actions, _, h => Sound.foldl actions (h.act a)

/-- Sending a message and waiting keeps a network sound. -/
theorem Sound.request {s₀ : σ} {net net' : Network C M F R σ} {req : Sent C M}
    {r : Except (AttemptError F) R} (h : Sound handle s₀ net)
    (hreq : Network.request handle req net = (r, net')) : Sound handle s₀ net' := by
  cases hreq
  exact .foldl _ (h.send req net.turns.tail)

/-! ## What a network only adds to -/

/-- Nothing sent or executed is taken back, and the turns to come get fewer. -/
structure Grows (net net' : Network C M F R σ) : Prop where
  sent : net.sent <+: net'.sent
  executed : net.executed <+: net'.executed
  turns : net'.turns <:+ net.turns

theorem Grows.refl (net : Network C M F R σ) : Grows net net :=
  ⟨List.prefix_rfl, List.prefix_rfl, List.suffix_rfl⟩

theorem Grows.trans {net net₁ net' : Network C M F R σ} (h : Grows net net₁)
    (h' : Grows net₁ net') : Grows net net' :=
  ⟨h.sent.trans h'.sent, h.executed.trans h'.executed, h'.turns.trans h.turns⟩

theorem grows_act (handle : M → σ → Except F R × σ) (net : Network C M F R σ) :
    ∀ action, Grows net (net.act handle action)
  | .send request => ⟨List.prefix_append _ _, List.prefix_rfl, List.suffix_rfl⟩
  | .execute number => by
      rcases execute_cases handle net number with hsame | ⟨request, _, _, heq⟩
      · rw [act, hsame]
        exact .refl net
      · rw [act, heq]
        exact ⟨List.prefix_rfl, List.prefix_append _ _, List.suffix_rfl⟩

theorem grows_foldl (handle : M → σ → Except F R × σ) :
    ∀ (actions : List (Action C M)) (net : Network C M F R σ),
      Grows net (actions.foldl (act handle) net)
  | [], net => .refl net
  | a :: actions, net => (grows_act handle net a).trans (grows_foldl handle actions _)

/-- After a wait the message is among those sent. -/
theorem request_grows {net net' : Network C M F R σ} {req : Sent C M}
    {r : Except (AttemptError F) R} (hreq : Network.request handle req net = (r, net')) :
    Grows net net' ∧ net.sent ++ [req] <+: net'.sent := by
  cases hreq
  have hgrows := grows_foldl handle (net.turns.headD ⟨[], .timedOut⟩).actions
    { net with sent := net.sent ++ [req], turns := net.turns.tail }
  have hsend : Grows net { net with sent := net.sent ++ [req], turns := net.turns.tail } :=
    ⟨List.prefix_append _ _, List.prefix_rfl, List.tail_suffix _⟩
  exact ⟨hsend.trans hgrows, hgrows.sent⟩

theorem reply_eq_some {net : Network C M F R σ} {number : Nat} {r : Except F R}
    (h : net.reply number = some r) : ∃ e ∈ net.executed, e.number = number ∧ e.reply = r := by
  obtain ⟨e, he, hreply⟩ := Option.map_eq_some_iff.mp h
  have hnumber : e.number = number := by simpa using List.find?_some he
  exact ⟨e, List.mem_of_find?_eq_some he, hnumber, hreply⟩

/-- The answer is the reply to an execution of the message during the wait. -/
theorem request_ok {s₀ : σ} {net net' : Network C M F R σ} {req : Sent C M} {r : R}
    (h : Sound handle s₀ net) (hreq : Network.request handle req net = (.ok r, net')) :
    ∃ e ∈ net'.executed.drop net.executed.length, net.sent.length ≤ e.number ∧ e.request = req ∧
      e.reply = .ok r ∧ (handle req.message e.before).1 = .ok r := by
  have hsound := h.request hreq
  obtain ⟨hgrows, hsent⟩ := request_grows hreq
  have hreply : net'.reply net.sent.length = some (.ok r) := by
    rw [Network.request, Prod.mk.injEq] at hreq
    obtain ⟨hout, rfl⟩ := hreq
    cases hend : (net.turns.headD ⟨[], .timedOut⟩).ending with
    | broken f =>
        rw [hend] at hout
        cases hout
    | timedOut =>
        rw [hend] at hout
        cases hout
    | replied =>
        rw [hend, outcome] at hout
        split at hout
        next r' hr =>
          cases hout
          exact hr
        next => cases hout
        next => cases hout
  obtain ⟨e, he, hnumber, hr⟩ := reply_eq_some hreply
  have hrequest : e.request = req := by
    obtain ⟨rest, hrest⟩ := hsent
    have hold := hsound.sent e he
    rw [hnumber, ← hrest] at hold
    simpa using hold.symm
  obtain ⟨new, hnew⟩ := hgrows.executed
  refine ⟨e, ?_, Nat.le_of_eq hnumber.symm, hrequest, hr, ?_⟩
  · rw [← hnew, List.drop_left]
    rw [← hnew] at he
    refine (List.mem_append.mp he).resolve_left fun hold => ?_
    have hlt := (List.getElem?_eq_some_iff.mp (h.sent e hold)).1
    omega
  · rw [← hr, hsound.linked.reply_eq e he, hrequest]

/-! ## Calls -/

/-- Attempts that fail leave a network sound. -/
theorem fails_request {s₀ : σ} {req : Sent C M} {net net' : Network C M F R σ} {k : Nat}
    (h : Sound handle s₀ net) (hfails : Eff.Fails (Network.request handle req) net k net') :
    Sound handle s₀ net' ∧ Grows net net' := by
  induction hfails with
  | nil => exact ⟨h, .refl _⟩
  | cons hone _ ih =>
      obtain ⟨hsound, hgrows⟩ := ih (h.request hone)
      exact ⟨hsound, (request_grows hone).1.trans hgrows⟩

section

variable {ε : Type} {giveUp : Nat → AttemptError F → ε} {s₀ : σ} {req : Sent C M}
  {net net' : Network C M F R σ} {maxRetries : Nat}

/-- A call keeps a network sound. -/
theorem Sound.retry {r : Except ε R} (h : Sound handle s₀ net)
    (hcall : Eff.retry giveUp (Network.request handle req) maxRetries 0 net = (r, net')) :
    Sound handle s₀ net' ∧ Grows net net' := by
  have hkept := Eff.retry_run (P := fun n => Sound handle s₀ n ∧ Grows net n) ?_ hcall
    ⟨h, .refl net⟩
  · exact hkept
  · rintro net₁ ⟨hsound, hgrows⟩
    exact ⟨hsound.request rfl, hgrows.trans (request_grows rfl).1⟩

/-- A call that succeeds was executed during the call, with the reply it returns. -/
theorem retry_request_ok {r : R} (h : Sound handle s₀ net)
    (hcall : Eff.retry giveUp (Network.request handle req) maxRetries 0 net = (.ok r, net')) :
    ∃ e ∈ net'.executed.drop net.executed.length, net.sent.length ≤ e.number ∧ e.request = req ∧
      e.reply = .ok r ∧ (handle req.message e.before).1 = .ok r := by
  obtain ⟨k, net₁, _, hfails, hlast⟩ := Eff.retry_ok hcall
  obtain ⟨hsound, hgrows⟩ := fails_request h hfails
  obtain ⟨e, he, hnumber, hexecuted⟩ := request_ok hsound hlast
  refine ⟨e, ?_, Nat.le_trans hgrows.sent.length_le hnumber, hexecuted⟩
  obtain ⟨more, hmore⟩ := Nat.exists_eq_add_of_le hgrows.executed.length_le
  rw [hmore, ← List.drop_drop] at he
  exact List.mem_of_mem_drop he

end

/-! ## Counting the messages of a call -/

/-- Distinct places of a list with a property are no more than the elements with it. -/
theorem length_le_countP {α : Type} {p : α → Bool} (l : List α) :
    ∀ {ns : List Nat}, ns.Nodup → (∀ n ∈ ns, ∃ a, l[n]? = some a ∧ p a = true) →
      ns.length ≤ l.countP p := by
  induction l using List.reverseRecOn with
  | nil =>
      intro ns _ h
      cases ns with
      | nil => exact Nat.zero_le _
      | cons n ns =>
          obtain ⟨a, ha, _⟩ := h n List.mem_cons_self
          cases ha
  | append_singleton l a ih =>
      intro ns hnodup h
      -- the last place is taken out, the others are places of the front
      have hfront : (ns.erase l.length).length ≤ l.countP p := by
        refine ih (hnodup.erase _) fun n hn => ?_
        obtain ⟨b, hb, hp⟩ := h n (List.mem_of_mem_erase hn)
        have hne : n ≠ l.length := fun heq => by
          subst heq
          exact hnodup.not_mem_erase hn
        have hlt := (List.getElem?_eq_some_iff.mp hb).1
        rw [List.length_append, List.length_singleton] at hlt
        rw [List.getElem?_append_left (by omega)] at hb
        exact ⟨b, hb, hp⟩
      rw [List.countP_append, List.countP_singleton]
      by_cases hmem : l.length ∈ ns
      · obtain ⟨b, hb, hp⟩ := h l.length hmem
        rw [List.getElem?_concat_length, Option.some.injEq] at hb
        subst hb
        rw [List.length_erase_of_mem hmem] at hfront
        rw [if_pos hp]
        omega
      · rw [List.erase_of_not_mem hmem] at hfront
        omega

section

variable [DecidableEq C]

/-- The messages sent for a call. -/
def messagesFor (net : Network C M F R σ) (c : C) : List M :=
  (net.sent.filter fun s => s.call = c).map Sent.message

/-- How many messages of a call were executed. -/
def executedFor (net : Network C M F R σ) (c : C) : Nat :=
  net.executed.countP fun e => e.request.call = c

/-- What is executed for a call was sent for it. -/
theorem Sound.mem_messagesFor {s₀ : σ} {net : Network C M F R σ} (h : Sound handle s₀ net)
    {e : Execution C M F R σ} (he : e ∈ net.executed) :
    e.request.message ∈ net.messagesFor e.request.call := by
  refine List.mem_map.mpr ⟨e.request, List.mem_filter.mpr ⟨?_, decide_eq_true rfl⟩, rfl⟩
  exact List.mem_of_getElem? (h.sent e he)

/-- A message is executed at most once. -/
theorem Sound.executedFor_le {s₀ : σ} {net : Network C M F R σ} (h : Sound handle s₀ net) (c : C) :
    net.executedFor c ≤ (net.messagesFor c).length := by
  have hnodup : ((net.executed.filter fun e => e.request.call = c).map Execution.number).Nodup :=
    h.once.sublist (List.filter_sublist.map _)
  have hplaces := length_le_countP (p := fun s : Sent C M => decide (s.call = c)) net.sent hnodup ?_
  · rw [List.length_map, ← List.countP_eq_length_filter] at hplaces
    rw [messagesFor, List.length_map, ← List.countP_eq_length_filter]
    exact hplaces
  · intro n hn
    obtain ⟨e, he, rfl⟩ := List.mem_map.mp hn
    obtain ⟨hmem, hcall⟩ := List.mem_filter.mp he
    exact ⟨e.request, h.sent e hmem, hcall⟩

end

/-- No action sends for the call. -/
def Others (c : C) (actions : List (Action C M)) : Prop :=
  ∀ request, .send request ∈ actions → request.call ≠ c

/-- In no turn to come another caller sends for the call. -/
def Reserved (c : C) (net : Network C M F R σ) : Prop := ∀ turn ∈ net.turns, Others c turn.actions

theorem Reserved.grows {c : C} {net net' : Network C M F R σ} (h : Reserved c net)
    (hgrows : Grows net net') : Reserved c net' :=
  fun turn hturn => h turn (hgrows.turns.subset hturn)

theorem Reserved.headD {c : C} {net : Network C M F R σ} (h : Reserved c net) (ending : Ending F) :
    Others c (net.turns.headD ⟨[], ending⟩).actions := by
  cases hturns : net.turns with
  | nil => exact fun _ hmem => nomatch hmem
  | cons turn turns => exact h turn (hturns ▸ List.mem_cons_self)

variable [DecidableEq C]

theorem messagesFor_act {c : C} (net : Network C M F R σ) {action : Action C M}
    (h : ∀ request, action = .send request → request.call ≠ c) :
    (net.act handle action).messagesFor c = net.messagesFor c := by
  cases action with
  | send request =>
      have hne := h request rfl
      simp [act, messagesFor, hne]
  | execute number =>
      rcases execute_cases handle net number with hsame | ⟨_, _, _, heq⟩
      · rw [act, hsame]
      · rw [act, heq]
        rfl

/-- The actions of others send nothing for the call. -/
theorem messagesFor_foldl {c : C} : ∀ {actions : List (Action C M)} {net : Network C M F R σ},
    Others c actions → (actions.foldl (act handle) net).messagesFor c = net.messagesFor c
  | [], _, _ => rfl
  | a :: actions, net, h => by
      rw [List.foldl_cons,
        messagesFor_foldl fun request hmem => h request (List.mem_cons_of_mem a hmem)]
      exact messagesFor_act net fun request ha => h request (ha ▸ List.mem_cons_self)

/-- One attempt sends its message for its call. -/
theorem messagesFor_request {net net' : Network C M F R σ} {req : Sent C M}
    {r : Except (AttemptError F) R} (h : Reserved req.call net)
    (hreq : Network.request handle req net = (r, net')) :
    net'.messagesFor req.call = net.messagesFor req.call ++ [req.message] := by
  cases hreq
  rw [afterTurn, messagesFor_foldl (h.headD _)]
  simp [messagesFor]

/-- An attempt of another call sends nothing for this one. -/
theorem messagesFor_request_of_ne {c : C} {net net' : Network C M F R σ} {req : Sent C M}
    {r : Except (AttemptError F) R} (hne : req.call ≠ c) (h : Reserved c net)
    (hreq : Network.request handle req net = (r, net')) :
    net'.messagesFor c = net.messagesFor c := by
  cases hreq
  rw [afterTurn, messagesFor_foldl (h.headD _)]
  simp [messagesFor, hne]

/-- Attempts that fail send the message once each. -/
theorem messagesFor_fails {req : Sent C M} {net net' : Network C M F R σ} {k : Nat}
    (h : Reserved req.call net) (hfails : Eff.Fails (Network.request handle req) net k net') :
    Reserved req.call net' ∧
      net'.messagesFor req.call = net.messagesFor req.call ++ List.replicate k req.message := by
  induction hfails with
  | nil => exact ⟨h, (List.append_nil _).symm⟩
  | cons hone _ ih =>
      obtain ⟨hreserved, hsent⟩ := ih (h.grows (request_grows hone).1)
      refine ⟨hreserved, ?_⟩
      rw [hsent, messagesFor_request h hone, List.append_assoc, List.replicate_succ]
      rfl

/-- A call sends its message at least once and no more often than it may, and as often as it may
if it fails. -/
theorem messagesFor_retry {ε : Type} {giveUp : Nat → AttemptError F → ε} {req : Sent C M}
    {net net' : Network C M F R σ} {maxRetries : Nat} {r : Except ε R} (h : Reserved req.call net)
    (hcall : Eff.retry giveUp (Network.request handle req) maxRetries 0 net = (r, net')) :
    ∃ k, k ≤ maxRetries ∧ ((∃ e, r = .error e) → k = maxRetries) ∧
      net'.messagesFor req.call =
        net.messagesFor req.call ++ List.replicate (k + 1) req.message := by
  cases r with
  | ok a =>
      obtain ⟨k, net₁, hk, hfails, hlast⟩ := Eff.retry_ok hcall
      obtain ⟨hreserved, hsent⟩ := messagesFor_fails h hfails
      refine ⟨k, hk, (fun ⟨_, he⟩ => nomatch he), ?_⟩
      rw [messagesFor_request hreserved hlast, hsent, List.append_assoc, ← List.replicate_succ']
  | error e =>
      obtain ⟨f, net₁, hfails, hlast, _⟩ := Eff.retry_error hcall
      obtain ⟨hreserved, hsent⟩ := messagesFor_fails h hfails
      refine ⟨maxRetries, Nat.le_refl _, fun _ => rfl, ?_⟩
      rw [messagesFor_request hreserved hlast, hsent, List.append_assoc, ← List.replicate_succ']

/-- The attempts of another call send nothing for this one. -/
theorem messagesFor_retry_of_ne {ε : Type} {giveUp : Nat → AttemptError F → ε} {c : C}
    {req : Sent C M} {net net' : Network C M F R σ} {maxRetries : Nat} {r : Except ε R}
    (hne : req.call ≠ c) (h : Reserved c net)
    (hcall : Eff.retry giveUp (Network.request handle req) maxRetries 0 net = (r, net')) :
    net'.messagesFor c = net.messagesFor c := by
  refine (Eff.retry_run (P := fun n => Reserved c n ∧ n.messagesFor c = net.messagesFor c) ?_ hcall
    ⟨h, rfl⟩).2
  rintro net₁ ⟨hreserved, hsent⟩
  exact ⟨hreserved.grows (request_grows rfl).1,
    (messagesFor_request_of_ne hne hreserved rfl).trans hsent⟩

end Network

end Rpc
