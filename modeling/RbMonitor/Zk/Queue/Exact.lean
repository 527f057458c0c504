import RbMonitor.Zk.Queue.Order

/-!
This module contains the order in which the nodes of a queue are consumed, over the runs in which no
session is lost and every node of a list is got and deleted.
-/

namespace RbMonitor

namespace Zk

open Client Consumer

/-- The pop passes a node on. -/
def Event.passesOn (id : Nat) : Event → Bool
  | .dataCb qelm _ => qelm = id
  | _ => false

def Event.passed : Event → Option Nat
  | .dataCb _ node => some node
  | _ => none

def Event.consumed : Event → Option Nat
  | .deleted node => some node
  | _ => none

def Event.produced : Event → Option Nat
  | .pushed node => some node
  | _ => none

namespace QueueState

/-- The nodes that were passed to a data callback, of any client. -/
def passed (s : QueueState) : List Nat :=
  s.log.filterMap fun entry => entry.2.passed

def consumed (s : QueueState) : List Nat :=
  s.log.filterMap fun entry => entry.2.consumed

def pushed (s : QueueState) : List Nat :=
  s.log.filterMap fun entry => entry.2.produced

end QueueState

/-- The client that deletes a node passed it on before. -/
def PassedBefore (log : List (Nat × Event)) : Prop :=
  ∀ (n client node : Nat), log[n]? = some (client, .deleted node) →
    ∃ m < n, ∃ qelm, log[m]? = some (client, .dataCb qelm node)

/-- Every node that is consumed was passed on once, and in the order of the queue. -/
structure ExactlyOnce (s : QueueState) : Prop where
  before : PassedBefore s.log
  once : s.passed.Nodup
  pop : ∀ (i : Nat) (c : Client), s.lock.clients[i]? = some c → ∀ id,
    (s.events i).countP (Event.passesOn id) ≤ 1
  order : s.consumed <+: s.pushed
  distinct : s.pushed.Nodup

namespace Consumer

/-- The node that the pop took is being deleted. -/
def Finishing (q : Consumer) (id : Nat) : Prop :=
  (∃ node, .adelete id node ∈ q.requests) ∨ ∃ ok, .deleteCompleted id ok ∈ q.inbox

/-- A pop passes on one node, and then it only deletes it. -/
def Once (q : Consumer) (events : List Event) : Prop :=
  ∀ id, events.countP (Event.passesOn id) = 0 ∨
    (events.countP (Event.passesOn id) = 1 ∧ q.elements id ≠ none ∧ (q.Live id → q.Finishing id))

section

variable {c c' : Client} {q q' : Consumer} {id : Nat} {directory queue : List Nat}
  {nextSeq nextElement : Nat} {events : List Event}

theorem Finishing.mono (h : q.Finishing id) (hrequests : ∀ request ∈ q.requests, request ∈ q'.requests)
    (hinbox : ∀ completion ∈ q.inbox, completion ∈ q'.inbox)
    : q'.Finishing id := by
  rcases h with ⟨node, hmem⟩ | ⟨ok, hmem⟩
  . exact .inl ⟨node, hrequests _ hmem⟩
  . exact .inr ⟨ok, hinbox _ hmem⟩

theorem Finishing.fireIf (h : q.Finishing id) (connected : Bool) : (q.fireIf connected).Finishing id := by
  apply h.mono
  . rw [requests_fireIf]
    exact fun request hmem => hmem
  . intro completion hmem
    unfold Consumer.fireIf
    split
    . exact List.mem_append_left _ hmem
    . exact hmem

theorem Finishing.reply (h : q.Finishing id) {request : QueueRequest} {requests : List QueueRequest}
    (hrequests : q.requests = request :: requests) {reply : QueueCompletion}
    (hreply : ∀ node, request = .adelete id node → ∃ ok, reply = .deleteCompleted id ok)
    (hsub : ∀ request' ∈ requests, request' ∈ q'.requests)
    (hinbox : ∀ completion ∈ q.inbox ++ [reply], completion ∈ q'.inbox)
    : q'.Finishing id := by
  rcases h with ⟨node, hmem⟩ | ⟨ok, hmem⟩
  . rw [hrequests] at hmem
    cases List.mem_cons.mp hmem with
    | inl heq =>
      rcases hreply node heq.symm with ⟨ok, heq⟩
      subst heq
      exact .inr ⟨ok, hinbox _ (List.mem_append_right _ (List.mem_singleton.mpr rfl))⟩
    | inr hmem => exact .inl ⟨node, hsub _ hmem⟩
  . exact .inr ⟨ok, hinbox _ (List.mem_append_left _ hmem)⟩

theorem Finishing.serve (h : q.Finishing id) {request : QueueRequest} {requests : List QueueRequest}
    (hrequests : q.requests = request :: requests) {effect : QueueEffect} {reply : QueueCompletion}
    (hhandle : { q with requests := requests }.handle queue request = (effect, reply))
    : { effect.consumer with inbox := effect.consumer.inbox ++ [reply] }.Finishing id := by
  cases request with
  | agetChildren i | awgetChildren i | aget i node =>
    cases hhandle
    exact h.reply hrequests (fun _ heq => by cases heq) (fun _ hmem => hmem) fun _ hmem => hmem
  | adelete i node =>
    simp only [Consumer.handle] at hhandle
    split at hhandle
    . cases hhandle
      apply h.reply hrequests _ (fun _ hmem => hmem)
      . intro completion hmem
        cases List.mem_append.mp hmem with
        | inl hold => exact List.mem_append_left _ (List.mem_append_left _ hold)
        | inr hnew => exact List.mem_append_right _ hnew
      . intro node' heq
        cases heq
        exact ⟨true, rfl⟩
    . cases hhandle
      apply h.reply hrequests _ (fun _ hmem => hmem) fun _ hmem => hmem
      intro node' heq
      cases heq
      exact ⟨false, rfl⟩

theorem Finishing.refuse (h : q.Finishing id) {request : QueueRequest} {requests : List QueueRequest}
    (hrequests : q.requests = request :: requests)
    : { q with requests := requests, inbox := q.inbox ++ [request.failed] }.Finishing id := by
  apply h.reply hrequests _ (fun _ hmem => hmem) fun _ hmem => hmem
  intro node heq
  subst heq
  exact ⟨false, rfl⟩

theorem lost_act (hlost : q.lost = []) {a : QueueAction} (hgood : a.succeeds q)
    {effect : QueueEffect} (hstep : q.act directory queue nextElement c a = some effect)
    : effect.consumer.lost = [] := by
  have hfire : ∀ connected, (q.fireIf connected).lost = [] := by
    intro connected
    unfold Consumer.fireIf
    split <;> exact hlost
  cases Consumer.taken_of_act hstep with
  | rbZkQueuePop | rbZkMutexLock | serve | refuse | serveLost | dropLost | refuseQueue _ =>
    exact hlost
  | call =>
    simp only
    split
    . rfl
    . exact hlost
  | complete _ => exact (grows_mutexCallbacks q _ _).lost.trans hlost
  | disconnect | expire => cases hgood
  | reconnect | rbZkQueuePush => exact hfire _
  | completeQueue _ _ | rbZkMutexUnlock _ _ _ | unlockFault _ _ _ =>
    exact (grows_complete _ _ _).lost.trans hlost
  | serveQueue _ hhandle =>
    rcases kept_of_handle hhandle with ⟨_, hsame, _⟩
    exact hsame.trans hlost
  | deletesLost hmem _ | forgetsLost hmem =>
    rw [hlost] at hmem
    cases hmem
  | dropQueueLost => rfl

end

end Consumer

section

variable {c c' : Client} {q : Consumer} {id : Nat} {directory queue : List Nat}
  {nextSeq nextElement : Nat} {events : List Event}

theorem Coupled.finishing_completeQueue (h : Coupled c q) (hplaced : c.Placed directory nextSeq)
    {completion : QueueCompletion} {inbox : List QueueCompletion}
    (hinbox : q.inbox = completion :: inbox) (called : Bool) (hfinishing : q.Finishing id)
    : ({ q with inbox := inbox }.complete called completion).consumer.Finishing id ∨
        ¬({ q with inbox := inbox }.complete called completion).consumer.Live id := by
  have hgrows := grows_complete { q with inbox := inbox } called completion
  rcases hfinishing with ⟨node, hmem⟩ | ⟨ok, hmem⟩
  . exact .inl (.inl ⟨node, hgrows.requests _ hmem⟩)
  . rw [hinbox] at hmem
    cases List.mem_cons.mp hmem with
    | inl heq =>
      subst heq
      exact .inr (h.deleteCompleted hplaced hinbox).2.2.2.2
    | inr hmem =>
      refine .inl (.inr ⟨ok, ?_⟩)
      rw [hgrows.inbox]
      exact hmem

theorem Coupled.finishing_act (h : Coupled c q) (hplaced : c.Placed directory nextSeq)
    (hcalm : c.Calm) (hlost : q.lost = []) {a : QueueAction} (hgood : a.succeeds q)
    {effect : QueueEffect} (hstep : q.act directory queue nextElement c a = some effect)
    (hfinishing : q.Finishing id)
    : effect.consumer.Finishing id ∨ ¬effect.consumer.Live id := by
  cases Consumer.taken_of_act hstep with
  | rbZkQueuePop | rbZkMutexLock | serve | refuse | serveLost | dropLost | dropQueueLost =>
    exact .inl hfinishing
  | call =>
    have hnot : c.calls.head? ≠ some .resetZkContext :=
      fun heq => hcalm.calls (List.mem_of_mem_head? heq)
    simp only [if_neg hnot]
    exact .inl hfinishing
  | @complete called completion _ _ =>
    have hgrows := grows_mutexCallbacks q called (c.callbacks directory completion)
    refine .inl (hfinishing.mono hgrows.requests ?_)
    rw [hgrows.inbox]
    exact fun completion hmem => hmem
  | disconnect | expire => cases hgood
  | reconnect | rbZkQueuePush => exact .inl (hfinishing.fireIf _)
  | @completeQueue called _ _ hinbox _ | @rbZkMutexUnlock called _ _ _ hinbox _ _
  | @unlockFault called _ _ _ hinbox _ _ =>
    exact h.finishing_completeQueue hplaced hinbox called hfinishing
  | serveQueue hrequests hhandle => exact .inl (hfinishing.serve hrequests hhandle)
  | refuseQueue hrequests => exact .inl (hfinishing.refuse hrequests)
  | deletesLost hmem _ | forgetsLost hmem =>
    rw [hlost] at hmem
    cases hmem

theorem countP_of_node {log : List Event} (hlog : ∀ event ∈ log, event.node = none) (id : Nat)
    : log.countP (Event.passesOn id) = 0 := by
  rw [List.countP_eq_zero]
  intro event hmem
  have hnone := hlog event hmem
  cases event <;> first | exact Bool.false_ne_true | cases hnone

theorem Coupled.once_act (h : Coupled c q) (hplaced : c.Placed directory nextSeq) (hcalm : c.Calm)
    (hlost : q.lost = []) {a : QueueAction} (hgood : a.succeeds q) {effect : QueueEffect}
    (hstep : q.act directory queue nextElement c a = some effect)
    (hmoves : Moves queue nextElement q effect) (honce : q.Once events)
    : effect.consumer.Once (events ++ effect.log) := by
  have hfollows := follows_act h.fresh_nextMutex hstep
  intro id
  rw [List.countP_append]
  have hstays : effect.log.countP (Event.passesOn id) = 0 →
      events.countP (Event.passesOn id) + effect.log.countP (Event.passesOn id) = 0 ∨
        (events.countP (Event.passesOn id) + effect.log.countP (Event.passesOn id) = 1 ∧
          effect.consumer.elements id ≠ none ∧
          (effect.consumer.Live id → effect.consumer.Finishing id)) := by
    intro hzero
    rw [hzero, Nat.add_zero]
    rcases honce id with hnone | ⟨hone, hknown, hlast⟩
    . exact .inl hnone
    . refine .inr ⟨hone, fun hnone => hknown (hfollows.known id hnone), ?_⟩
      intro hlive
      have hold := (hfollows.live id hlive).resolve_right hknown
      exact (h.finishing_act hplaced hcalm hlost hgood hstep (hlast hold)).resolve_right
        (not_not_intro hlive)
  cases hmoves with
  | rests _ _ hlog _ => exact hstays (countP_of_node hlog id)
  | pushes _ _ hlog _ =>
    apply hstays
    rw [hlog]
    rfl
  | consumes i node _ _ _ hlog _ =>
    apply hstays
    rw [hlog]
    rfl
  | passes i node inbox hinbox _ _ hlog hrequests =>
    by_cases heq : i = id
    . subst heq
      have hone : effect.log.countP (Event.passesOn i) = 1 := by
        rw [hlog]
        simp [Event.passesOn]
      have hlive := (h.held i (mem_waiting_head hinbox rfl)).1
      rcases honce i with hnone | ⟨_, _, hlast⟩
      . refine .inr ⟨by omega, ?_, fun _ => .inl
          ⟨node, (hrequests i node).mpr (.inr ⟨rfl, rfl⟩)⟩⟩
        intro hnone
        rcases hlive with ⟨qelm, hqelm, _⟩
        rw [hfollows.known i hnone] at hqelm
        cases hqelm
      -- the pop that passed a node on waits for no other
      . rcases hlast hlive with ⟨node', hmem⟩ | ⟨ok, hmem⟩
        . have hget : .getElement i (some node) ∈ q.inbox := by
            rw [hinbox]
            exact List.mem_cons_self
          exact absurd rfl (h.tidy.not_reply hmem hget)
        . rw [hinbox] at hmem
          cases List.mem_cons.mp hmem with
          | inl heq => cases heq
          | inr hmem =>
            exact absurd (mem_waiting_of_reply (q := { q with inbox := inbox }) hmem rfl)
              (h.tidy.not_waiting_reply hinbox rfl)
    . apply hstays
      rw [hlog]
      simp [Event.passesOn, heq]

end

/-- What holds for a client that keeps its session. -/
structure Steadfast (c : Client) (q : Consumer) (events : List Event) : Prop where
  calm : c.Calm
  coupled : Coupled c q
  once : q.Once events
  lost : q.lost = []

/-- The node that is passed on and not deleted yet is the one that a pop asks to delete. -/
structure History (s : QueueState) : Prop where
  pushed : s.pushed = List.range s.nextElement
  queue : s.consumed ++ s.queue = s.pushed
  passed :
    (s.passed = s.consumed ∧ ∀ (i : Nat) (c : Client), s.lock.clients[i]? = some c →
      ∀ id node, .adelete id node ∉ (s.consumers i).requests) ∨
    ∃ i c id node, s.lock.clients[i]? = some c ∧ .adelete id node ∈ (s.consumers i).requests ∧
      s.passed = s.consumed ++ [node]
  asked : ∀ (i : Nat) (c : Client), s.lock.clients[i]? = some c →
    ∀ id node, .adelete id node ∈ (s.consumers i).requests → (i, .dataCb id node) ∈ s.log
  before : PassedBefore s.log

structure Exact (s : QueueState) : Prop where
  ordered : s.lock.Ordered
  steadfast : s.All Steadfast
  rooted : ∀ (i : Nat) (c : Client), s.lock.clients[i]? = some c → c.Rooted
  fits : ∀ (i : Nat) (c : Client), s.lock.clients[i]? = some c → Fits s.queue (s.consumers i)
  history : History s

section

variable {clients : Nat} {s s' : QueueState} {a : ConsumerAction} {c : Client}
  {effect : QueueEffect}

theorem Exact.oneWaiting (h : Exact s) {i j : Nat} {c c' : Client}
    (hc : s.lock.clients[i]? = some c) (hc' : s.lock.clients[j]? = some c') {id id' : Nat}
    (hid : id ∈ (s.consumers i).waiting) (hid' : id' ∈ (s.consumers j).waiting)
    : i = j ∧ id = id' := by
  apply h.ordered.oneHeld hc hc' (h.rooted i c hc) (h.rooted j c' hc')
  . exact ((h.steadfast i c hc).coupled.held id hid).2
  . exact ((h.steadfast j c' hc').coupled.held id' hid').2

theorem History.sorted (h : History s) : s.queue.Pairwise (· < ·) := by
  have hrange : (s.consumed ++ s.queue).Pairwise (· < ·) := by
    rw [h.queue, h.pushed]
    exact List.pairwise_lt_range
  exact (List.pairwise_append.mp hrange).2.1

theorem Exact.moves (h : Exact s) (hgood : a.succeeds s) (hc : s.lock.clients[a.client]? = some c)
    (heffect : (s.consumers a.client).act s.lock.directory s.queue s.nextElement c a.action =
      some effect)
    {c' : Client} (hlock : LockStep s.lock.directory s.lock.nextSeq c effect.lock c')
    : Fits effect.queue effect.consumer ∧
        Moves s.queue s.nextElement (s.consumers a.client) effect := by
  have hsteadfast := h.steadfast a.client c hc
  apply hsteadfast.coupled.moves (h.ordered.placed a.client c hc) hsteadfast.calm
    (h.fits a.client c hc) h.history.sorted _ hsteadfast.lost hgood heffect hlock
  exact fun id hid id' hid' => (h.oneWaiting hc hc hid hid').2

theorem keepsSession_of_succeeds {q : Consumer} {a : QueueAction} (hgood : a.succeeds q)
    : a.keepsSession := by
  cases a <;> first | rfl | cases hgood

theorem steadfast_step (h : Exact s) (hgood : a.succeeds s)
    (hstep : (queueMachine clients).step s a = some s')
    : s'.All Steadfast := by
  apply h.steadfast.step _ _ _ hstep
  . intro c effect c' hc hsteadfast heffect hlock
    have hplaced := h.ordered.placed a.client c hc
    have hmoves := (h.moves hgood hc heffect hlock).2
    refine ⟨?_, ?_, ?_, lost_act hsteadfast.lost hgood heffect⟩
    . cases heq : effect.lock with
      | none =>
        rw [heq] at hlock
        cases hlock
        exact hsteadfast.calm
      | some action =>
        rw [heq] at hlock
        rcases hlock with ⟨lockEffect, hact, heq'⟩
        subst heq'
        exact hsteadfast.calm.act
          (keepsSession_act (keepsSession_of_succeeds hgood) heffect heq) hact
    . apply hsteadfast.coupled.act hplaced heffect _ hlock
      intro called completion inbox _ hinbox hcleans
      exact absurd hcleans (hsteadfast.calm.not_cleans (by simp [hinbox]))
    . exact hsteadfast.coupled.once_act hplaced hsteadfast.calm hsteadfast.lost hgood heffect hmoves
        hsteadfast.once
  . intro c q events gone hsteadfast
    exact ⟨hsteadfast.calm.delete gone, hsteadfast.coupled.steady (steady_delete gone),
      hsteadfast.once, hsteadfast.lost⟩
  . intro c q events connected hsteadfast
    refine ⟨hsteadfast.calm, ?_, ?_, ?_⟩
    . exact hsteadfast.coupled.fewer (fewer_fireIf q connected)
        (hsteadfast.coupled.tidy.fireIf connected)
    . intro id
      have helements := (fewer_fireIf q connected).elements
      unfold Consumer.Live
      rw [helements]
      refine (hsteadfast.once id).imp_right ?_
      intro hone
      exact ⟨hone.1, hone.2.1, fun hlive => (hone.2.2 hlive).fireIf connected⟩
    . unfold Consumer.fireIf
      split <;> exact hsteadfast.lost

theorem rooted_step (h : Exact s) (hgood : a.succeeds s)
    (hstep : (queueMachine clients).step s a = some s') (i : Nat) (d : Client)
    (hd : s'.lock.clients[i]? = some d)
    : d.Rooted := by
  rcases queueMachine_step hstep with ⟨c, effect, hc, heffect, hlock, _⟩
  cases haction : effect.lock with
  | none =>
    simp only [haction] at hlock
    rw [hlock] at hd
    exact h.rooted i d hd
  | some action =>
    simp only [haction] at hlock
    rcases lockMachine_step hlock with ⟨c₁, lockEffect, hc₁, hact, _, hclients⟩
    rw [hc] at hc₁
    cases hc₁
    have hsteadfast := h.steadfast a.client c hc
    have hplaced := h.ordered.placed a.client c hc
    have hrooted := h.rooted a.client c hc
    have hattended := hsteadfast.coupled.attended
    have hkeeps := keepsSession_act (keepsSession_of_succeeds hgood) heffect haction
    rw [hclients i] at hd
    by_cases heq : i = a.client
    . rw [if_pos heq] at hd
      cases hd
      apply Client.Rooted.delete
      . apply hrooted.act hattended hplaced hsteadfast.calm _ hkeeps _ hact
        . intro node hnode node' hnode' hseq
          exact (h.ordered.owner _ _ c c hc hc node hnode node' hnode' hseq).2
        . intro id hunlock
          rw [hunlock] at haction
          exact (hsteadfast.coupled.act_unlock hplaced heffect haction).1.idle
      . intro node hnode hgone
        exact absurd rfl ((hrooted.gone hattended hsteadfast.calm hkeeps hact hgone).2 node hnode)
    . rw [if_neg heq] at hd
      rcases Option.map_eq_some_iff.mp hd with ⟨cᵢ, hcᵢ, hd⟩
      subst hd
      apply (h.rooted i cᵢ hcᵢ).delete
      intro node hnode hgone
      rcases (hrooted.gone hattended hsteadfast.calm hkeeps hact hgone).1 with ⟨node', hnode', hseq⟩
      exact absurd (h.ordered.owner _ _ cᵢ c hcᵢ hc node hnode node' hnode' hseq.symm).1 heq

theorem clients_step (hstep : (queueMachine clients).step s a = some s') (i : Nat)
    : (∀ d, s'.lock.clients[i]? = some d → ∃ c, s.lock.clients[i]? = some c) ∧
        ∀ c, s.lock.clients[i]? = some c → ∃ d, s'.lock.clients[i]? = some d := by
  rcases queueMachine_step hstep with ⟨c, effect, hc, _, hlock, _⟩
  rcases lock_step hc hlock with ⟨gone, c', _, hclients⟩
  rw [hclients i]
  by_cases heq : i = a.client
  . rw [if_pos heq, heq, hc]
    exact ⟨fun _ _ => ⟨c, rfl⟩, fun _ _ => ⟨_, rfl⟩⟩
  . rw [if_neg heq]
    cases s.lock.clients[i]? with
    | none => simp
    | some cᵢ => exact ⟨fun _ _ => ⟨cᵢ, rfl⟩, fun _ _ => ⟨_, rfl⟩⟩

theorem fits_step (h : Exact s) (hgood : a.succeeds s)
    (hstep : (queueMachine clients).step s a = some s') (i : Nat) (d : Client)
    (hd : s'.lock.clients[i]? = some d)
    : Fits s'.queue (s'.consumers i) := by
  rcases (clients_step hstep i).1 d hd with ⟨cᵢ, hcᵢ⟩
  rcases queueMachine_step hstep with ⟨c, effect, hc, heffect, hlock, hsame, hothers, hqueue, _⟩
  rcases lock_step hc hlock with ⟨gone, c', hlock, _⟩
  rcases h.moves hgood hc heffect hlock with ⟨hfits, hmoves⟩
  rw [hqueue]
  by_cases heq : i = a.client
  . rw [heq, hsame]
    exact hfits
  . rw [hothers i heq]
    have hold := h.fits i cᵢ hcᵢ
    cases hmoves with
    | rests hqueue _ _ _ => exact hold.fireIf (by simp only [hqueue, List.prefix_rfl]) _
    | pushes hqueue _ _ _ => exact hold.fireIf (by simp only [hqueue, List.prefix_append]) _
    | passes _ _ _ _ hqueue _ _ _ => exact hold.fireIf (by simp only [hqueue, List.prefix_rfl]) _
    -- a node is deleted by the only pop that waits
    | consumes id node hdelete _ _ _ _ =>
      apply Fits.fireIf _ (List.prefix_refl _)
      apply fits_of_idle
      intro id' hid'
      exact heq (h.oneWaiting hcᵢ hc hid' (mem_waiting_of_request hdelete)).1

theorem passedBefore_append {log new : List (Nat × Event)} (h : PassedBefore log)
    (hnew : ∀ client node, (client, .deleted node) ∈ new →
      ∃ qelm, (client, .dataCb qelm node) ∈ log)
    : PassedBefore (log ++ new) := by
  intro n client node hn
  have hpassed : ∃ m < n, ∃ qelm, log[m]? = some (client, .dataCb qelm node) := by
    by_cases hlt : n < log.length
    . rw [List.getElem?_append_left hlt] at hn
      exact h n client node hn
    . rw [List.getElem?_append_right (Nat.le_of_not_lt hlt)] at hn
      rcases hnew client node (List.mem_of_getElem? hn) with ⟨qelm, hmem⟩
      rcases List.getElem?_of_mem hmem with ⟨m, hm⟩
      have hmlt : m < log.length := by
        rcases List.getElem?_eq_some_iff.mp hm with ⟨hmlt, _⟩
        exact hmlt
      exact ⟨m, by omega, qelm, hm⟩
  rcases hpassed with ⟨m, hlt, qelm, hm⟩
  refine ⟨m, hlt, qelm, ?_⟩
  rw [List.getElem?_append_left]
  . exact hm
  . rcases List.getElem?_eq_some_iff.mp hm with ⟨hmlt, _⟩
    exact hmlt

theorem filterMap_log {log log' : List (Nat × Event)} {client : Nat} {new : List Event}
    (hlog : log' = log ++ new.map fun event => (client, event)) (f : Event → Option Nat)
    : log'.filterMap (fun entry => f entry.2) =
        log.filterMap (fun entry => f entry.2) ++ new.filterMap f := by
  rw [hlog, List.filterMap_append, List.filterMap_map]
  rfl

theorem pushed_append {client : Nat} {new : List Event}
    (hlog : s'.log = s.log ++ new.map fun event => (client, event))
    : s'.pushed = s.pushed ++ new.filterMap Event.produced :=
  filterMap_log hlog Event.produced

theorem consumed_append {client : Nat} {new : List Event}
    (hlog : s'.log = s.log ++ new.map fun event => (client, event))
    : s'.consumed = s.consumed ++ new.filterMap Event.consumed :=
  filterMap_log hlog Event.consumed

theorem passed_append {client : Nat} {new : List Event}
    (hlog : s'.log = s.log ++ new.map fun event => (client, event))
    : s'.passed = s.passed ++ new.filterMap Event.passed :=
  filterMap_log hlog Event.passed

theorem filterMap_of_node {log : List Event} (hlog : ∀ event ∈ log, event.node = none)
    : log.filterMap Event.passed = [] ∧ log.filterMap Event.consumed = [] ∧
        log.filterMap Event.produced = [] := by
  simp only [List.filterMap_eq_nil_iff]
  refine ⟨?_, ?_, ?_⟩ <;>
  . intro event hmem
    have hnone := hlog event hmem
    cases event <;> first | rfl | cases hnone

theorem deletes_step (hstep : (queueMachine clients).step s a = some s') (i : Nat)
    : (i = a.client ∨ (s'.consumers i).requests = (s.consumers i).requests) := by
  by_cases heq : i = a.client
  . exact .inl heq
  . rcases queueMachine_step hstep with ⟨_, _, _, _, _, _, hothers, _⟩
    right
    rw [hothers i heq, requests_fireIf]

theorem History.same (h : History s) (hstep : (queueMachine clients).step s a = some s')
    (hrequests : ∀ id node, .adelete id node ∈ (s'.consumers a.client).requests ↔
      .adelete id node ∈ (s.consumers a.client).requests)
    {new : List Event} (hlog : s'.log = s.log ++ new.map fun event => (a.client, event))
    (hpassed : new.filterMap Event.passed = []) (hconsumed : new.filterMap Event.consumed = [])
    (hpushed : s'.pushed = List.range s'.nextElement)
    (hqueue : s'.consumed ++ s'.queue = s'.pushed)
    : History s' := by
  have hdeletes : ∀ i id node, .adelete id node ∈ (s'.consumers i).requests ↔
      .adelete id node ∈ (s.consumers i).requests := by
    intro i id node
    rcases deletes_step hstep i with heq | heq
    . rw [heq]
      exact hrequests id node
    . rw [heq]
  have hpassed' : s'.passed = s.passed := by
    unfold QueueState.passed
    rw [filterMap_log hlog, hpassed, List.append_nil]
  have hconsumed' : s'.consumed = s.consumed := by
    unfold QueueState.consumed
    rw [filterMap_log hlog, hconsumed, List.append_nil]
  refine ⟨hpushed, hqueue, ?_, ?_, ?_⟩
  . rw [hpassed', hconsumed']
    rcases h.passed with ⟨heq, hnone⟩ | ⟨i, c, id, node, hc, hmem, heq⟩
    . refine .inl ⟨heq, ?_⟩
      intro i d hd id node
      rcases (clients_step hstep i).1 d hd with ⟨c, hc⟩
      rw [hdeletes]
      exact hnone i c hc id node
    . rcases (clients_step hstep i).2 c hc with ⟨d, hd⟩
      exact .inr ⟨i, d, id, node, hd, (hdeletes i id node).mpr hmem, heq⟩
  . intro i d hd id node hmem
    rcases (clients_step hstep i).1 d hd with ⟨c, hc⟩
    rw [hlog]
    exact List.mem_append_left _ (h.asked i c hc id node ((hdeletes i id node).mp hmem))
  . rw [hlog]
    apply passedBefore_append h.before
    intro client node hmem
    rcases List.mem_map.mp hmem with ⟨event, hevent, heq⟩
    cases heq
    have hsome : node ∈ new.filterMap Event.consumed :=
      List.mem_filterMap.mpr ⟨_, hevent, rfl⟩
    rw [hconsumed] at hsome
    cases hsome

theorem Exact.not_deletes (h : Exact s) {client : Nat} (hc : s.lock.clients[client]? = some c)
    {id node : Nat} (hget : .getElement id (some node) ∈ (s.consumers client).inbox)
    (hwaiting : id ∈ (s.consumers client).waiting) {i : Nat} {cᵢ : Client}
    (hcᵢ : s.lock.clients[i]? = some cᵢ) (id' node' : Nat)
    : .adelete id' node' ∉ (s.consumers i).requests := by
  intro hmem
  rcases h.oneWaiting hc hcᵢ hwaiting (mem_waiting_of_request hmem) with ⟨hi, hid⟩
  subst hi
  exact (h.steadfast client c hc).coupled.tidy.not_reply hmem hget (congrArg some hid)

theorem Exact.queue_eq_cons (h : Exact s) {client : Nat} (hc : s.lock.clients[client]? = some c)
    {id node : Nat} (hdelete : .adelete id node ∈ (s.consumers client).requests)
    : s.queue = node :: s.queue.filter (· ≠ node) := by
  have hfits := (h.fits client c hc).requests _ hdelete
  have hsorted := h.history.sorted
  rcases List.head?_eq_some_iff.mp hfits.1 with ⟨rest, heq⟩
  rw [heq] at hsorted ⊢
  have hrest : rest.filter (· ≠ node) = rest := by
    rw [List.filter_eq_self]
    intro other hmem
    have hlt := (List.pairwise_cons.mp hsorted).1 other hmem
    simpa using Nat.ne_of_gt hlt
  simpa using hrest.symm

theorem Exact.passed_eq (h : Exact s) {client : Nat} (hc : s.lock.clients[client]? = some c)
    {id node : Nat} (hdelete : .adelete id node ∈ (s.consumers client).requests)
    : s.passed = s.consumed ++ [node] := by
  have hfits := (h.fits client c hc).requests _ hdelete
  rcases h.history.passed with ⟨_, hnone⟩ | ⟨i, cᵢ, id', node', hcᵢ, hmem, heq⟩
  . exact absurd hdelete (hnone client c hc id node)
  . have hhead := ((h.fits i cᵢ hcᵢ).requests _ hmem).1
    rw [hfits.1] at hhead
    cases hhead
    exact heq

theorem history_step (h : Exact s) (hgood : a.succeeds s)
    (hstep : (queueMachine clients).step s a = some s')
    : History s' := by
  rcases queueMachine_step hstep with
    ⟨c, effect, hc, heffect, hlock, hsame, _, hqueue, hnext, hlog⟩
  rcases lock_step hc hlock with ⟨gone, c', hlock, _⟩
  have hhistory := h.history
  have hall : ∀ i, i = a.client ∨ (s'.consumers i).requests = (s.consumers i).requests :=
    deletes_step hstep
  have hpushed' := pushed_append hlog
  have hconsumed' := consumed_append hlog
  have hpassed' := passed_append hlog
  rcases h.moves hgood hc heffect hlock with ⟨_, hmoves⟩
  cases hmoves with
  | rests hqueue' hpushed hevents hrequests =>
    rcases filterMap_of_node hevents with ⟨hpassed, hconsumed, hproduced⟩
    rw [hproduced, List.append_nil] at hpushed'
    rw [hconsumed, List.append_nil] at hconsumed'
    apply hhistory.same hstep (hsame ▸ hrequests) hlog hpassed hconsumed
    . rw [hpushed', hnext, hpushed, hhistory.pushed]
      rfl
    . rw [hpushed', hconsumed', hqueue, hqueue', hhistory.queue]
  | pushes hqueue' hpushed hevents hrequests =>
    rw [hevents] at hpushed' hconsumed'
    have hconsumed : s'.consumed = s.consumed := hconsumed'.trans (List.append_nil _)
    apply hhistory.same hstep (hsame ▸ hrequests) hlog
    . rw [hevents]
      rfl
    . rw [hevents]
      rfl
    . rw [hpushed', hnext, if_pos hpushed, hhistory.pushed, List.range_succ]
      rfl
    . rw [hpushed', hconsumed, hqueue, hqueue', ← List.append_assoc, hhistory.queue]
      rfl
  | passes id node inbox hinbox hqueue' hpushed hevents hrequests =>
    have hget : .getElement id (some node) ∈ (s.consumers a.client).inbox := by
      rw [hinbox]
      exact List.mem_cons_self
    have hnone := fun i cᵢ hcᵢ => @Exact.not_deletes _ _ h _ hc _ _ hget
      (mem_waiting_head hinbox rfl) i cᵢ hcᵢ
    have hpassed : s.passed = s.consumed := by
      rcases hhistory.passed with ⟨heq, _⟩ | ⟨i, cᵢ, id', node', hcᵢ, hmem, _⟩
      . exact heq
      . exact absurd hmem (hnone i cᵢ hcᵢ id' node')
    rw [hevents] at hpushed' hconsumed' hpassed'
    have hsamePushed : s'.pushed = s.pushed := hpushed'.trans (List.append_nil _)
    have hsameConsumed : s'.consumed = s.consumed := hconsumed'.trans (List.append_nil _)
    refine ⟨?_, ?_, ?_, ?_, ?_⟩
    . rw [hsamePushed, hnext, hpushed, hhistory.pushed]
      rfl
    . rw [hsamePushed, hsameConsumed, hqueue, hqueue', hhistory.queue]
    . rcases (clients_step hstep a.client).2 c hc with ⟨d, hd⟩
      refine .inr ⟨a.client, d, id, node, hd, ?_, ?_⟩
      . rw [hsame]
        exact (hrequests id node).mpr (.inr ⟨rfl, rfl⟩)
      . rw [hpassed', hsameConsumed, hpassed]
        rfl
    . intro i d hd id' node' hmem
      rcases (clients_step hstep i).1 d hd with ⟨cᵢ, hcᵢ⟩
      rcases hall i with heq | heq
      . subst heq
        rw [hsame] at hmem
        rcases (hrequests id' node').mp hmem with hold | ⟨hid, hnode⟩
        . exact absurd hold (hnone _ _ hcᵢ id' node')
        . subst hid hnode
          rw [hlog, hevents]
          exact List.mem_append_right _ List.mem_cons_self
      . rw [heq] at hmem
        exact absurd hmem (hnone _ _ hcᵢ id' node')
    . rw [hlog]
      apply passedBefore_append hhistory.before
      intro client other hmem
      simp [hevents] at hmem
  | consumes id node hdelete hqueue' hpushed hevents hrequests =>
    have hqueued := h.queue_eq_cons hc hdelete
    have hpassed := h.passed_eq hc hdelete
    have hnone : ∀ i d, s'.lock.clients[i]? = some d →
        ∀ id' node', .adelete id' node' ∉ (s'.consumers i).requests := by
      intro i d hd id' node' hmem
      rcases (clients_step hstep i).1 d hd with ⟨cᵢ, hcᵢ⟩
      rcases hall i with heq | heq
      . subst heq
        rw [hsame] at hmem
        exact hrequests id' node' hmem
      . rw [heq] at hmem
        have hi := (h.oneWaiting hcᵢ hc (mem_waiting_of_request hmem)
          (mem_waiting_of_request hdelete)).1
        subst hi
        rw [← heq, hsame] at hmem
        exact hrequests id' node' hmem
    rw [hevents] at hpushed' hconsumed' hpassed'
    have hsamePushed : s'.pushed = s.pushed := hpushed'.trans (List.append_nil _)
    have hsamePassed : s'.passed = s.passed := hpassed'.trans (List.append_nil _)
    refine ⟨?_, ?_, .inl ⟨?_, hnone⟩, ?_, ?_⟩
    . rw [hsamePushed, hnext, hpushed, hhistory.pushed]
      rfl
    . rw [hsamePushed, hconsumed', hqueue, hqueue', ← hhistory.queue, List.append_assoc]
      exact congrArg (s.consumed ++ ·) hqueued.symm
    . rw [hsamePassed, hconsumed', hpassed]
      rfl
    . intro i d hd id' node' hmem
      exact absurd hmem (hnone i d hd id' node')
    . rw [hlog]
      apply passedBefore_append hhistory.before
      intro client other hmem
      simp only [hevents, List.map_cons, List.map_nil, List.mem_singleton, Prod.mk.injEq,
        Event.deleted.injEq] at hmem
      rcases hmem with ⟨hclient, hother⟩
      subst hclient hother
      exact ⟨id, hhistory.asked _ c hc id _ hdelete⟩

theorem exact_step (h : Exact s) (hgood : a.succeeds s)
    (hstep : (queueMachine clients).step s a = some s')
    : Exact s' :=
  ⟨ordered_queueStep h.ordered hstep, steadfast_step h hgood hstep, rooted_step h hgood hstep,
    fits_step h hgood hstep, history_step h hgood hstep⟩

theorem Exact.exactlyOnce (h : Exact s) : ExactlyOnce s := by
  have hdistinct : (s.consumed ++ s.queue).Nodup := by
    rw [h.history.queue, h.history.pushed]
    exact List.nodup_range
  refine ⟨h.history.before, ?_, ?_, ?_, ?_⟩
  . rcases h.history.passed with ⟨heq, _⟩ | ⟨i, c, id, node, hc, hmem, heq⟩
    . rw [heq]
      exact (List.nodup_append.mp hdistinct).1
    . rw [heq]
      rcases List.head?_eq_some_iff.mp ((h.fits i c hc).requests _ hmem).1 with ⟨rest, hqueue⟩
      rw [hqueue] at hdistinct
      refine List.Nodup.sublist ?_ hdistinct
      exact List.Sublist.append_left (List.singleton_sublist.mpr List.mem_cons_self) _
  . intro i c hc id
    rcases (h.steadfast i c hc).once id with hzero | ⟨hone, _⟩
    . omega
    . omega
  . rw [← h.history.queue]
    exact List.prefix_append _ _
  . rw [h.history.pushed]
    exact List.nodup_range

end

theorem exact_init (clients : Nat) : Exact (queueMachine clients).init := by
  have hclient : ∀ (i : Nat) (c : Client),
      (queueMachine clients).init.lock.clients[i]? = some c → c = .start :=
    fun i c hc => List.eq_of_mem_replicate (List.mem_of_getElem? hc)
  refine ⟨ordered_init clients, ?_, ?_, ?_, ?_⟩
  . apply all_init
    exact ⟨calm_start, coupled_start, fun id => .inl rfl, rfl⟩
  . intro i c hc
    rw [hclient i c hc]
    exact rooted_start
  . intro i c hc
    refine ⟨?_, ?_⟩ <;> intro _ hmem <;> cases hmem
  . refine ⟨rfl, rfl, .inl ⟨rfl, ?_⟩, ?_, ?_⟩
    . intro i c hc id node hmem
      cases hmem
    . intro i c hc id node hmem
      cases hmem
    . intro n client node hn
      simp [queueMachine] at hn

/-- In every run in which no session is lost and every node is got and deleted, the nodes of the
queue are consumed in its order, and each was passed on once before. -/
theorem exactlyOnce_of_succeeds (clients : Nat) (as : List ConsumerAction)
    (h : (queueMachine clients).AllSteps (fun s a => a.succeeds s) (queueMachine clients).init as)
    : (queueMachine clients).Always ExactlyOnce (queueMachine clients).init as := by
  apply Machine.Always.imp (p := Exact)
  . exact fun s hs => hs.exactlyOnce
  . apply Machine.always_of_allSteps _ (exact_init clients) h
    intro s a s' hs hgood hstep
    exact exact_step hs hgood hstep

/-- A pop waits for a node, takes it and gives the lock to the pop of another client. -/
theorem exactlyOnce_of_succeeds_handover
    : let as := popRun 0 ++ [⟨0, .serveQueue⟩, ⟨0, .completeQueue true⟩, ⟨0, .serveQueue⟩,
        ⟨0, .completeQueue true⟩] ++ popRun 1 ++ [⟨1, .rbZkQueuePush⟩, ⟨0, .completeQueue true⟩,
        ⟨0, .serveQueue⟩, ⟨0, .completeQueue true⟩, ⟨0, .serveQueue⟩, ⟨0, .completeQueue true⟩,
        ⟨0, .serveQueue⟩, ⟨0, .completeQueue true⟩, ⟨0, .serve⟩, ⟨0, .complete true⟩,
        ⟨1, .complete true⟩, ⟨1, .serve⟩, ⟨1, .complete true⟩, ⟨0, .rbZkQueuePush⟩,
        ⟨1, .serveQueue⟩, ⟨1, .completeQueue true⟩, ⟨1, .serveQueue⟩, ⟨1, .completeQueue true⟩,
        ⟨1, .serveQueue⟩, ⟨1, .completeQueue true⟩]
      (queueMachine 2).Always ExactlyOnce (queueMachine 2).init as ∧
        ((queueMachine 2).run as).map QueueState.consumed = some [0, 1] := by
  refine ⟨exactlyOnce_of_succeeds 2 _ ?_, ?_⟩
  . decide
  . decide

end Zk

end RbMonitor
