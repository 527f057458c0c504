import RbMonitor.Zk.Rooted
import RbMonitor.Zk.Queue.Run

/-!
This module contains what a pop knows about the queue: while it goes on, no other pop does, so the
node that it takes is the first one.
-/

namespace RbMonitor

namespace Zk

open Client Consumer

/-- The call for a node or for its deletion does not fail. -/
def QueueCompletion.succeeds (called : Bool) : QueueCompletion → Bool
  | .popMinimum _ (some strings) _ => called || (minStr strings).isNone
  | .getElement _ _ => called
  | _ => true

/-- The session is not lost, and no node is refused, nor its deletion. -/
def QueueAction.succeeds (q : Consumer) : QueueAction → Bool
  | .disconnect _ _ | .expire => false
  | .refuseQueue => q.requests.head?.all fun request => request.takes.isNone
  | .completeQueue called => q.inbox.head?.all (QueueCompletion.succeeds called)
  | _ => true

def ConsumerAction.succeeds (s : QueueState) (a : ConsumerAction) : Bool :=
  a.action.succeeds (s.consumers a.client)

/-- The node that the event is about. -/
def Event.node : Event → Option Nat
  | .dataCb _ node | .pushed node | .deleted node => some node
  | _ => none

namespace Consumer

/-- The pop takes the node. -/
def Names (q : Consumer) (id node : Nat) : Prop :=
  ∃ qelm, q.elements id = some qelm ∧ qelm.queueElementPath = some node

end Consumer

/-- The request is about the first node, which its pop takes. -/
def QueueRequest.Fits (queue : List Nat) (q : Consumer) : QueueRequest → Prop
  | .aget id node | .adelete id node => queue.head? = some node ∧ q.Names id node
  | .agetChildren _ | .awgetChildren _ => True

def QueueCompletion.Fits (queue : List Nat) (q : Consumer) : QueueCompletion → Prop
  | .popMinimum _ (some strings) _ => strings <+: queue
  | .getElement id value => ∃ node, value = some node ∧ queue.head? = some node ∧ q.Names id node
  | _ => True

namespace Consumer

structure Fits (queue : List Nat) (q : Consumer) : Prop where
  requests : ∀ request ∈ q.requests, request.Fits queue q
  inbox : ∀ completion ∈ q.inbox, completion.Fits queue q

/-- One pop waits for a reply at most. -/
def Alone (q : Consumer) : Prop :=
  ∀ id ∈ q.waiting, ∀ id' ∈ q.waiting, id = id'

/-- What an action does to the queue, and what it tells about its nodes. -/
inductive Moves (queue : List Nat) (nextElement : Nat) (q : Consumer) (effect : QueueEffect) : Prop
  | rests (hqueue : effect.queue = queue) (hpushed : effect.pushed = false)
      (hlog : ∀ event ∈ effect.log, event.node = none)
      (hrequests : ∀ id node,
        .adelete id node ∈ effect.consumer.requests ↔ .adelete id node ∈ q.requests)
  | pushes (hqueue : effect.queue = queue ++ [nextElement]) (hpushed : effect.pushed = true)
      (hlog : effect.log = [.pushed nextElement])
      (hrequests : ∀ id node,
        .adelete id node ∈ effect.consumer.requests ↔ .adelete id node ∈ q.requests)
  | passes (id node : Nat) (inbox : List QueueCompletion)
      (hinbox : q.inbox = .getElement id (some node) :: inbox)
      (hqueue : effect.queue = queue) (hpushed : effect.pushed = false)
      (hlog : effect.log = [.dataCb id node])
      (hrequests : ∀ i other, .adelete i other ∈ effect.consumer.requests ↔
        .adelete i other ∈ q.requests ∨ (i = id ∧ other = node))
  | consumes (id node : Nat) (hdelete : .adelete id node ∈ q.requests)
      (hqueue : effect.queue = queue.filter (· ≠ node)) (hpushed : effect.pushed = false)
      (hlog : effect.log = [.deleted node])
      (hrequests : ∀ id node, .adelete id node ∉ effect.consumer.requests)

theorem Moves.of_log_nil {queue : List Nat} {nextElement : Nat} {q : Consumer}
    {effect : QueueEffect} (hqueue : effect.queue = queue) (hpushed : effect.pushed = false)
    (hlog : effect.log = []) (hrequests : ∀ id node,
      .adelete id node ∈ effect.consumer.requests ↔ .adelete id node ∈ q.requests)
    : Moves queue nextElement q effect := by
  apply Moves.rests hqueue hpushed _ hrequests
  rw [hlog]
  exact fun _ hmem => absurd hmem List.not_mem_nil

section

variable {q q' : Consumer} {id : Nat} {ids queue queue' : List Nat}

theorem minStr_eq_some_iff {strings : List Nat} {min : Nat}
    : minStr strings = some min ↔ IsLeast {string | string ∈ strings} min := by
  have hbetter : ∀ (string : Nat) (min : Option Nat),
      (min.all fun m => string < m) ↔ True ∧ ∀ m ∈ min, string < m := by
    intro string min
    cases min <;> simp
  -- the least number is the greatest one in the other order
  have h := @foldl_better_eq_some_iff Natᵒᵈ _ (fun _ => True)
    (fun (string : Nat) (min : Option Nat) => min.all fun m => string < m)
    (fun _ _ => inferInstanceAs (Decidable (_ = true))) hbetter strings none min
  simp only [and_true, reduceCtorEq, or_false] at h
  exact h

theorem minStr_cons {node : Nat} {nodes : List Nat} (h : (node :: nodes).Pairwise (· < ·))
    : minStr (node :: nodes) = some node := by
  rw [List.pairwise_cons] at h
  apply minStr_eq_some_iff.mpr
  refine ⟨List.mem_cons_self, ?_⟩
  intro other hmem
  cases List.mem_cons.mp hmem with
  | inl heq => exact Nat.le_of_eq heq.symm
  | inr hmem => exact Nat.le_of_lt (h.1 other hmem)

theorem mem_waiting_of_request {request : QueueRequest} (hmem : request ∈ q.requests)
    : request.qelm ∈ q.waiting :=
  mem_waiting_iff.mpr (.inl ⟨request, hmem, rfl⟩)

theorem mem_waiting_of_reply {completion : QueueCompletion} (hmem : completion ∈ q.inbox)
    (hid : completion.reply = some id)
    : id ∈ q.waiting :=
  mem_waiting_iff.mpr (.inr ⟨completion, hmem, hid⟩)

theorem Tidy.not_reply (h : Tidy q) {request : QueueRequest} (hrequest : request ∈ q.requests)
    {completion : QueueCompletion} (hmem : completion ∈ q.inbox)
    : completion.reply ≠ some request.qelm := by
  intro hreply
  have honce := h.once request.qelm
  have hasks : 1 ≤ (q.requests.filterMap QueueRequest.lists).count request.qelm +
      (q.requests.filterMap QueueRequest.takes).count request.qelm := by
    have hsome : request.lists = some request.qelm ∨ request.takes = some request.qelm := by
      cases request <;> simp [QueueRequest.lists, QueueRequest.takes, QueueRequest.qelm]
    rcases hsome with hsome | hsome
    . have := List.count_pos_iff.mpr (List.mem_filterMap.mpr ⟨request, hrequest, hsome⟩)
      omega
    . have := List.count_pos_iff.mpr (List.mem_filterMap.mpr ⟨request, hrequest, hsome⟩)
      omega
  have hanswers : 1 ≤ (q.inbox.filterMap QueueCompletion.lists).count request.qelm +
      (q.inbox.filterMap QueueCompletion.watched).count request.qelm +
        (q.inbox.filterMap QueueCompletion.takes).count request.qelm := by
    have hsome : completion.lists = some request.qelm ∨ completion.watched = some request.qelm ∨
        completion.takes = some request.qelm := by
      cases completion with
      | popMinimum _ _ watcherSetted =>
        cases watcherSetted with
        | false => exact .inl hreply
        | true => exact .inr (.inl hreply)
      | getElement _ _ | deleteCompleted _ _ => exact .inr (.inr hreply)
      | childWatcher _ => cases hreply
    rcases hsome with hsome | hsome | hsome
    . have := List.count_pos_iff.mpr (List.mem_filterMap.mpr ⟨completion, hmem, hsome⟩)
      omega
    . have := List.count_pos_iff.mpr (List.mem_filterMap.mpr ⟨completion, hmem, hsome⟩)
      omega
    . have := List.count_pos_iff.mpr (List.mem_filterMap.mpr ⟨completion, hmem, hsome⟩)
      omega
  rw [count_waiting] at honce
  simp only [Consumer.listing, replying, Consumer.taking, List.count_append] at honce
  omega

theorem Fits.keeps (h : Fits queue q) (hqueue : queue <+: queue')
    (helements : ∀ id ∈ q.waiting, q'.elements id = q.elements id)
    (hrequests : ∀ request ∈ q'.requests, request ∈ q.requests ∨ request.Fits queue' q')
    (hinbox : ∀ completion ∈ q'.inbox, completion ∈ q.inbox ∨ completion.Fits queue' q')
    : Fits queue' q' := by
  have hhead : ∀ {id node : Nat}, id ∈ q.waiting → queue.head? = some node ∧ q.Names id node →
      queue'.head? = some node ∧ q'.Names id node := by
    intro id node hid h
    refine ⟨?_, ?_⟩
    . rcases hqueue with ⟨rest, heq⟩
      rw [← heq, List.head?_append, h.1, Option.some_or]
    . unfold Names
      rw [helements id hid]
      exact h.2
  refine ⟨?_, ?_⟩
  . intro request hmem
    rcases hrequests request hmem with hold | hnew
    . have hid := mem_waiting_of_request hold
      have hfits := h.requests request hold
      cases request with
      | aget id node | adelete id node => exact hhead hid hfits
      | agetChildren id | awgetChildren id => trivial
    . exact hnew
  . intro completion hmem
    rcases hinbox completion hmem with hold | hnew
    . have hfits := h.inbox completion hold
      cases completion with
      | popMinimum id strings watcherSetted =>
        cases strings with
        | none => trivial
        | some strings => exact List.IsPrefix.trans hfits hqueue
      | getElement id value =>
        rcases hfits with ⟨node, hvalue, hfits⟩
        exact ⟨node, hvalue, hhead (mem_waiting_of_reply hold rfl) hfits⟩
      | deleteCompleted id ok | childWatcher id => trivial
    . exact hnew

theorem Fits.fireIf (h : Fits queue q) (hqueue : queue <+: queue') (connected : Bool)
    : Fits queue' (q.fireIf connected) := by
  unfold Consumer.fireIf
  split
  . refine h.keeps hqueue (fun _ _ => rfl) (fun request hmem => .inl hmem) ?_
    intro completion hmem
    rcases List.mem_append.mp hmem with hold | hnew
    . exact .inl hold
    . rcases List.mem_map.mp hnew with ⟨i, _, heq⟩
      subst heq
      exact .inr trivial
  . exact h.keeps hqueue (fun _ _ => rfl) (fun request hmem => .inl hmem)
      fun completion hmem => .inl hmem

@[simp]
theorem requests_fireIf (q : Consumer) (connected : Bool)
    : (q.fireIf connected).requests = q.requests := by
  unfold Consumer.fireIf
  split <;> rfl

theorem Fits.pop (h : Fits queue q) {completion : QueueCompletion} {inbox : List QueueCompletion}
    (hinbox : q.inbox = completion :: inbox)
    : Fits queue { q with inbox := inbox } := by
  refine h.keeps (List.prefix_refl queue) (fun _ _ => rfl) (fun request hmem => .inl hmem) ?_
  intro completion' hmem
  rw [hinbox]
  exact .inl (List.mem_cons_of_mem _ hmem)

theorem Fits.request (h : Fits queue q) {request : QueueRequest} (hfits : request.Fits queue q)
    : Fits queue (q.request request) := by
  refine h.keeps (List.prefix_refl queue) (fun _ _ => rfl) ?_ fun completion hmem => .inl hmem
  intro request' hmem
  cases List.mem_append.mp hmem with
  | inl hold => exact .inl hold
  | inr hnew =>
    right
    rw [List.mem_singleton.mp hnew]
    cases request <;> exact hfits

theorem Fits.ends (h : Fits queue q) (hends : Ends ids q q') (hids : ∀ id ∈ ids, id ∉ q.waiting)
    : Fits queue q' := by
  apply h.keeps (List.prefix_refl queue)
  . intro i hi
    exact hends.others i fun hmem => hids i hmem hi
  . intro request hmem
    rw [hends.requests] at hmem
    exact .inl hmem
  . intro completion hmem
    rw [hends.inbox] at hmem
    exact .inl hmem

theorem fits_of_idle (hidle : ∀ id, id ∉ q.waiting) : Fits queue q := by
  refine ⟨?_, ?_⟩
  . exact fun request hmem => absurd (mem_waiting_of_request hmem) (hidle request.qelm)
  . intro completion hmem
    cases completion with
    | popMinimum id _ _ | getElement id _ | deleteCompleted id _ =>
      exact absurd (mem_waiting_of_reply hmem rfl) (hidle id)
    | childWatcher id => trivial

theorem Alone.idle (h : q.Alone) (htidy : q.Tidy) {request : QueueRequest}
    {requests : List QueueRequest} (hrequests : q.requests = request :: requests)
    {effect : QueueEffect} {reply : QueueCompletion} (hreply : reply.reply = some request.qelm)
    (hhandle : { q with requests := requests }.handle queue request = (effect, reply))
    (hsame : effect.consumer.requests = requests)
    : ∀ id, id ∉ { q with requests := requests }.waiting := by
  have hmem : request ∈ q.requests := by
    rw [hrequests]
    exact List.mem_cons_self
  have hid := mem_waiting_of_request hmem
  intro i hi
  rcases mem_waiting_iff.mp hi with ⟨request', hmem', heq⟩ | ⟨completion, hmem', heq⟩
  . have hmem'' : request' ∈ q.requests := by
      rw [hrequests]
      exact List.mem_cons_of_mem _ hmem'
    have hone := h _ (mem_waiting_of_request hmem'') _ hid
    have hserved := htidy.serve hrequests hhandle
    have hrequest : request' ∈ { effect.consumer with
        inbox := effect.consumer.inbox ++ [reply] }.requests := hsame ▸ hmem'
    apply hserved.not_reply hrequest (List.mem_append_right _ List.mem_cons_self)
    rw [hreply, hone]
  . have hone := h _ (mem_waiting_of_reply hmem' heq) _ hid
    subst hone
    exact htidy.not_reply hmem hmem' heq

end

/-- A callback that tells of no node. -/
structure Silent (queue : List Nat) (q : Consumer) (turn : Turn) : Prop where
  fits : Fits queue turn.consumer
  log : ∀ event ∈ turn.log, event.node = none
  deletes : ∀ id node,
    .adelete id node ∈ turn.consumer.requests ↔ .adelete id node ∈ q.requests

section

variable {q q' : Consumer} {id : Nat} {ids queue : List Nat}

theorem Fits.silent (h : Fits queue q) : Silent queue q { consumer := q } :=
  ⟨h, fun _ hmem => absurd hmem List.not_mem_nil, fun _ _ => Iff.rfl⟩

theorem Fits.silent_ends (h : Fits queue q) (hends : Ends ids q q')
    (hids : ∀ id ∈ ids, id ∉ q.waiting)
    : Silent queue q { consumer := q' } := by
  refine ⟨h.ends hends hids, fun _ hmem => absurd hmem List.not_mem_nil, ?_⟩
  intro i node
  simp only [hends.requests]

theorem Fits.silent_lists (h : Fits queue q) {request : QueueRequest} (hlists : request.takes = none)
    : Silent queue q { consumer := q.request request } := by
  refine ⟨h.request ?_, fun _ hmem => absurd hmem List.not_mem_nil, ?_⟩
  . cases request with
    | agetChildren i | awgetChildren i => trivial
    | aget i node | adelete i node => cases hlists
  . intro i node
    simp only [Consumer.request, List.mem_append, List.mem_singleton]
    constructor
    . intro hmem
      cases hmem with
      | inl hold => exact hold
      | inr heq =>
        subst heq
        cases hlists
    . exact .inl

theorem Silent.tells {turn : Turn} (h : Silent queue q turn) (log : List Event)
    (hlog : ∀ event ∈ log, event.node = none) (unlock : Option Nat)
    : Silent queue q { turn with log := log ++ turn.log, unlock := unlock } := by
  refine ⟨h.fits, ?_, h.deletes⟩
  intro event hmem
  cases List.mem_append.mp hmem with
  | inl hnew => exact hlog event hnew
  | inr hold => exact h.log event hold

theorem silent_use (h : Fits queue q) {f : QueueElement → Turn}
    (hf : ∀ qelm, q.elements id = some qelm → Silent queue q (f qelm))
    : Silent queue q (q.use id f) := by
  by_cases hlive : q.Live id
  . rcases hlive with ⟨qelm, hqelm, hrefcnt⟩
    rw [use_eq hqelm hrefcnt]
    exact hf qelm hqelm
  . rw [use_of_not_live hlive]
    exact h.silent_ends (ends_fault q) fun i hi => absurd hi List.not_mem_nil

theorem silent_rbZkQueueElementDecref (h : Fits queue q) (hid : id ∉ q.waiting)
    : Silent queue q (q.rbZkQueueElementDecref id) := by
  have hends : Ends [id] q (q.rbZkQueueElementDecref id).consumer := ends_rbZkQueueElementDecref q id
  have hids : ∀ i ∈ [id], i ∉ q.waiting := by
    intro i hi
    rwa [List.mem_singleton.mp hi]
  refine ⟨h.ends hends hids, ?_, ?_⟩
  . intro event hmem
    unfold Consumer.rbZkQueueElementDecref Consumer.use at hmem
    split at hmem
    . cases hmem
    . split at hmem
      . cases hmem
      . simp only at hmem
        split at hmem
        . rw [List.mem_singleton.mp hmem]
          rfl
        . cases hmem
  . intro i node
    rw [hends.requests]

theorem silent_errorDone (h : Fits queue q) (hid : id ∉ q.waiting)
    : Silent queue q (q.errorDone id) := by
  apply (silent_rbZkQueueElementDecref h hid).tells [.errorCb id]
  intro event hmem
  rw [List.mem_singleton.mp hmem]
  rfl

theorem silent_rbZkQueuePopNolock (h : Fits queue q) (hid : id ∉ q.waiting) (called : Bool)
    : Silent queue q (q.rbZkQueuePopNolock called id) := by
  apply silent_use h
  intro qelm _
  split
  . exact h.silent_lists rfl
  . exact silent_errorDone h hid

theorem silent_mutexCallback (h : Fits queue q) (hid : id ∉ q.waiting) (called : Bool)
    {callback : MutexCallback} (hcallback : callback = .schangeCb id true ∨ callback = .errorCb id)
    : Silent queue q (q.mutexCallbacks called [callback]) := by
  have hone : Silent queue q (q.mutexCallback called callback) := by
    rcases hcallback with heq | heq
    . subst heq
      simp only [mutexCallback, rbZkQueueMutexStatusChange, ↓reduceIte]
      split
      . apply silent_use h
        intro qelm _
        apply (silent_rbZkQueuePopNolock h hid called).tells [.obtained id]
        intro event hmem
        rw [List.mem_singleton.mp hmem]
        rfl
      . exact h.silent
    . subst heq
      simp only [mutexCallback, rbZkQueueMutexErrorCb]
      split
      . apply silent_use h
        intro qelm _
        exact silent_errorDone h hid
      . exact h.silent
  simp only [mutexCallbacks, List.append_nil]
  exact ⟨hone.fits, hone.log, hone.deletes⟩

theorem silent_childWatcher (h : Fits queue q)
    (hid : ¬q.Ignores id → id ∉ q.waiting) (called : Bool)
    : Silent queue q (q.rbZkQueueChildWatcher called id) := by
  apply silent_use h
  intro qelm hqelm
  split
  . exact h.silent
  . next hignore =>
    apply silent_rbZkQueuePopNolock h _ called
    apply hid
    intro hignores
    rcases hignores with ⟨qelm', hsame, hignores⟩
    rw [hqelm] at hsame
    cases hsame
    exact hignore hignores

theorem silent_rbZkQueueDeleteCompleted (h : Fits queue q) (hid : id ∉ q.waiting)
    : Silent queue q (q.rbZkQueueDeleteCompleted id) := by
  apply silent_use h
  intro qelm _
  apply (silent_rbZkQueueElementDecref h hid).tells [.deleteCb id, .unlock id]
  intro event hmem
  simp only [List.mem_cons, List.not_mem_nil, or_false] at hmem
  rcases hmem with heq | heq <;> rw [heq] <;> rfl

theorem silent_popMinimum (h : Fits queue q) (hid : id ∉ q.waiting)
    (hsorted : queue.Pairwise (· < ·)) {called watcherSetted : Bool} {strings : Option (List Nat)}
    (hfits : (QueueCompletion.popMinimum id strings watcherSetted).Fits queue q)
    (hgood : (QueueCompletion.popMinimum id strings watcherSetted).succeeds called)
    : Silent queue q (q.rbZkQueuePopMinimum0 called id strings watcherSetted) := by
  apply silent_use h
  intro qelm hqelm
  cases strings with
  | none => exact silent_errorDone h hid
  | some strings =>
    cases strings with
    | nil =>
      simp only [minStr, List.foldl_nil]
      split
      . exact h.silent
      . split
        . exact h.silent_lists rfl
        . exact h.silent
    | cons node nodes =>
      have hmin : minStr (node :: nodes) = some node :=
        minStr_cons (List.Pairwise.sublist (List.IsPrefix.sublist hfits) hsorted)
      have hcalled : called = true := by
        simpa [QueueCompletion.succeeds, hmin] using hgood
      have hhead : queue.head? = some node := by
        rcases hfits with ⟨rest, heq⟩
        rw [← heq]
        rfl
      have hset : Ends [id] q (q.setElement id { qelm with
          queueElementPath := some node
          shouldIgnoreWatcher := qelm.shouldIgnoreWatcher || watcherSetted }) :=
        ends_setElement hqelm (Nat.le_refl _) (fun hignores => by simp [hignores])
          fun _ => Option.some_ne_none node
      have hids : ∀ i ∈ [id], i ∉ q.waiting := by
        intro i hi
        rwa [List.mem_singleton.mp hi]
      simp only [hmin, if_pos hcalled]
      refine ⟨?_, fun _ hmem => absurd hmem List.not_mem_nil, ?_⟩
      . apply (h.ends hset hids).request
        exact ⟨hhead, _, Function.update_self .., rfl⟩
      . intro i node'
        simp [Consumer.request, Consumer.setElement]

theorem Silent.moves {turn : Turn} (h : Silent queue q turn) (hrequests : q'.requests = q.requests)
    {effect : QueueEffect} {nextElement : Nat} (hconsumer : effect.consumer = turn.consumer)
    (hqueue : effect.queue = queue) (hpushed : effect.pushed = false) (hlog : effect.log = turn.log)
    : Fits effect.queue effect.consumer ∧ Moves queue nextElement q' effect := by
  refine ⟨?_, .rests hqueue hpushed ?_ ?_⟩
  . rw [hqueue, hconsumer]
    exact h.fits
  . rw [hlog]
    exact h.log
  . rw [hconsumer, hrequests]
    exact h.deletes

theorem Fits.moves_serve (h : Fits queue q) (htidy : q.Tidy) (halone : q.Alone)
    {request : QueueRequest} {requests : List QueueRequest}
    (hrequests : q.requests = request :: requests) {effect : QueueEffect} {reply : QueueCompletion}
    (hhandle : { q with requests := requests }.handle queue request = (effect, reply))
    (nextElement : Nat)
    : Fits effect.queue { effect.consumer with inbox := effect.consumer.inbox ++ [reply] } ∧
        Moves queue nextElement q { effect with
          consumer := { effect.consumer with inbox := effect.consumer.inbox ++ [reply] } } := by
  have hmem : request ∈ q.requests := by
    rw [hrequests]
    exact List.mem_cons_self
  have hsub : ∀ request' ∈ requests, request' ∈ q.requests := by
    rw [hrequests]
    exact fun request' hmem => List.mem_cons_of_mem _ hmem
  have hfits := h.requests request hmem
  have hreply : ∀ {childWatches : List Nat}, reply.Fits queue q → Fits queue { q with
      childWatches := childWatches, requests := requests, inbox := q.inbox ++ [reply] } := by
    intro childWatches hreply
    refine h.keeps (List.prefix_refl queue) (fun _ _ => rfl)
      (fun request' hmem => .inl (hsub request' hmem)) ?_
    intro completion hmem
    cases List.mem_append.mp hmem with
    | inl hold => exact .inl hold
    | inr hnew =>
      right
      rw [List.mem_singleton.mp hnew]
      exact hreply
  cases request with
  | agetChildren i | awgetChildren i =>
    cases hhandle
    refine ⟨hreply (List.prefix_refl queue), .of_log_nil rfl rfl rfl ?_⟩
    intro j node
    simp [hrequests]
  | aget i node =>
    have hin : node ∈ queue := List.mem_of_mem_head? hfits.1
    simp only [Consumer.handle, if_pos hin] at hhandle
    cases hhandle
    refine ⟨hreply ⟨node, rfl, hfits⟩, .of_log_nil rfl rfl rfl ?_⟩
    intro j node'
    simp [hrequests]
  | adelete i node =>
    have hin : node ∈ queue := List.mem_of_mem_head? hfits.1
    have hhandle' := hhandle
    simp only [Consumer.handle, if_pos hin] at hhandle'
    cases hhandle'
    have hidle := halone.idle htidy hrequests rfl hhandle rfl
    have hrest : Fits (queue.filter (· ≠ node)) { q with requests := requests }.fire :=
      (fits_of_idle hidle).fireIf (List.prefix_refl _) true
    refine ⟨?_, .consumes i node hmem rfl rfl rfl ?_⟩
    . refine hrest.keeps (List.prefix_refl _) (fun _ _ => rfl) (fun request' hmem => .inl hmem) ?_
      intro completion hmem
      cases List.mem_append.mp hmem with
      | inl hold => exact .inl hold
      | inr hnew =>
        right
        rw [List.mem_singleton.mp hnew]
        trivial
    . intro j node' hmem'
      exact hidle j (mem_waiting_of_request (q := { q with requests := requests }) hmem')

end

end Consumer

section

variable {c c' : Client} {q : Consumer} {id : Nat} {directory queue : List Nat}
  {nextSeq nextElement : Nat}

theorem Coupled.silent_complete (h : Coupled c q) (hplaced : c.Placed directory nextSeq)
    (hfits : Fits queue q) {completion : Completion} {inbox : List Completion}
    (hinbox : c.inbox = completion :: inbox) (hcleans : ¬completion.cleans) {directory' : List Nat}
    (hstep : { c with inbox := inbox }.complete directory' completion = some c') (called : Bool)
    : Consumer.Silent queue q (q.mutexCallbacks called (c.callbacks directory' completion)) := by
  have hidle : ∀ id, completion.mutex = some id → id ∉ q.waiting := by
    intro id hid hwaiting
    exact (h.held id hwaiting).2.idle (mem_carried_head hinbox hid)
  cases completes_of_complete hplaced h.attended hinbox hstep with
  | steady hcallbacks _ =>
    rw [hcallbacks]
    exact hfits.silent
  | deleted _ => exact hfits.silent
  | @failed _ i hcallbacks hid _ _ =>
    rw [hcallbacks]
    exact silent_mutexCallback hfits (hidle i hid) called (.inr rfl)
  | @obtained _ i hcallbacks hid _ _ =>
    rw [hcallbacks]
    exact silent_mutexCallback hfits (hidle i hid) called (.inl rfl)
  | session hstate =>
    apply absurd _ hcleans
    simpa [Completion.cleans] using hstate

theorem Coupled.getElement_eq (h : Coupled c q) (hfits : Fits queue q) {value : Option Nat}
    {inbox : List QueueCompletion} (hinbox : q.inbox = .getElement id value :: inbox)
    : ∃ node, value = some node ∧ queue.head? = some node ∧ q.Names id node ∧
        { q with inbox := inbox }.rbZkQueueGetElement true id value = {
          consumer := { q with inbox := inbox }.request (.adelete id node)
          log := [.dataCb id node] } := by
  rcases (h.held id (mem_waiting_head hinbox rfl)).1 with ⟨qelm, hqelm, hrefcnt⟩
  have hqelm' : { q with inbox := inbox }.elements id = some qelm := hqelm
  have hmem : .getElement id value ∈ q.inbox := by
    rw [hinbox]
    exact List.mem_cons_self
  rcases hfits.inbox _ hmem with ⟨node, hvalue, hhead, qelm', hsame, hpath⟩
  rw [hqelm] at hsame
  cases hsame
  refine ⟨node, hvalue, hhead, ⟨qelm, hqelm, hpath⟩, ?_⟩
  rw [hvalue]
  simp only [Consumer.rbZkQueueGetElement, use_eq hqelm' hrefcnt, hpath, ↓reduceIte]

theorem Coupled.silent_completeQueue (h : Coupled c q) (hfits : Fits queue q)
    (hsorted : queue.Pairwise (· < ·)) {completion : QueueCompletion}
    {inbox : List QueueCompletion} (hinbox : q.inbox = completion :: inbox) {called : Bool}
    (hgood : completion.succeeds called) (hget : ∀ id value, completion ≠ .getElement id value)
    : Consumer.Silent queue { q with inbox := inbox }
        ({ q with inbox := inbox }.complete called completion) := by
  have hpop := hfits.pop hinbox
  have hmem : completion ∈ q.inbox := by
    rw [hinbox]
    exact List.mem_cons_self
  cases completion with
  | popMinimum i strings watcherSetted =>
    exact silent_popMinimum hpop (h.tidy.not_waiting_reply hinbox rfl) hsorted
      (hfits.inbox _ hmem) hgood
  | getElement i value => exact absurd rfl (hget i value)
  | deleteCompleted i ok =>
    exact silent_rbZkQueueDeleteCompleted hpop (h.tidy.not_waiting_reply hinbox rfl)
  | childWatcher i =>
    apply silent_childWatcher hpop
    intro hignores hwaiting
    exact h.tidy.not_waiting_event hinbox hignores ((fewer_pop hinbox).waiting i hwaiting)

theorem Coupled.moves_rbZkQueuePop (h : Coupled c q) (hfits : Fits queue q) {effect : QueueEffect}
    (hstep : q.act directory queue nextElement c .rbZkQueuePop = some effect)
    : Fits effect.queue effect.consumer ∧ Moves queue nextElement q effect := by
  cases Consumer.taken_of_act hstep with
  | rbZkQueuePop =>
    refine ⟨?_, .of_log_nil rfl rfl rfl fun _ _ => Iff.rfl⟩
    refine hfits.keeps (List.prefix_refl queue) ?_ (fun request hmem => .inl hmem)
      fun completion hmem => .inl hmem
    intro i hi
    apply Function.update_of_ne
    intro heq
    rcases (h.held i hi).1 with ⟨qelm, hqelm, _⟩
    rw [heq, h.fresh_nextMutex] at hqelm
    cases hqelm

theorem Coupled.moves_complete (h : Coupled c q) (hplaced : c.Placed directory nextSeq)
    (hcalm : c.Calm) (hfits : Fits queue q) {called : Bool} {effect : QueueEffect}
    (hstep : q.act directory queue nextElement c (.complete called) = some effect)
    (hlock : LockStep directory nextSeq c effect.lock c')
    : Fits effect.queue effect.consumer ∧ Moves queue nextElement q effect := by
  cases Consumer.taken_of_act hstep with
  | @complete _ completion inbox hinbox =>
    have hcomplete := complete_of_lockStep hinbox hlock
    have hcleans : ¬completion.cleans := hcalm.not_cleans (by rw [hinbox]; exact List.mem_cons_self)
    have hsilent := h.silent_complete hplaced hfits hinbox hcleans hcomplete called
    exact hsilent.moves rfl rfl rfl rfl rfl

theorem Coupled.moves_getElement (h : Coupled c q) (hfits : Fits queue q) {value : Option Nat}
    {inbox : List QueueCompletion} (hinbox : q.inbox = .getElement id value :: inbox)
    {effect : QueueEffect}
    (hconsumer : effect.consumer =
      ({ q with inbox := inbox }.rbZkQueueGetElement true id value).consumer)
    (hqueue : effect.queue = queue) (hpushed : effect.pushed = false)
    (hlog : effect.log = ({ q with inbox := inbox }.rbZkQueueGetElement true id value).log)
    : Fits effect.queue effect.consumer ∧ Moves queue nextElement q effect := by
  rcases h.getElement_eq hfits hinbox with ⟨node, hvalue, hhead, hnames, hturn⟩
  rw [hturn] at hconsumer hlog
  subst hvalue
  refine ⟨?_, .passes id node inbox hinbox hqueue hpushed hlog ?_⟩
  . rw [hqueue, hconsumer]
    exact (hfits.pop hinbox).request ⟨hhead, hnames⟩
  . intro j other
    rw [hconsumer]
    simp [Consumer.request]

theorem Coupled.moves_completeQueue (h : Coupled c q) (hfits : Fits queue q)
    (hsorted : queue.Pairwise (· < ·)) {completion : QueueCompletion}
    {inbox : List QueueCompletion} (hinbox : q.inbox = completion :: inbox) {called : Bool}
    (hgood : completion.succeeds called) {effect : QueueEffect}
    (hconsumer : effect.consumer = ({ q with inbox := inbox }.complete called completion).consumer)
    (hqueue : effect.queue = queue) (hpushed : effect.pushed = false)
    (hlog : effect.log = ({ q with inbox := inbox }.complete called completion).log)
    : Fits effect.queue effect.consumer ∧ Moves queue nextElement q effect := by
  by_cases hget : ∃ i value, completion = .getElement i value
  . rcases hget with ⟨i, value, heq⟩
    subst heq
    have hcalled : called = true := hgood
    subst hcalled
    exact h.moves_getElement hfits hinbox hconsumer hqueue hpushed hlog
  . have hsilent := h.silent_completeQueue hfits hsorted hinbox hgood
      fun i value heq => hget ⟨i, value, heq⟩
    apply hsilent.moves _ hconsumer hqueue hpushed hlog
    rfl

theorem Consumer.Fits.moves_refuseQueue (h : Fits queue q)
    (hgood : QueueAction.refuseQueue.succeeds q) {effect : QueueEffect}
    (hstep : q.act directory queue nextElement c .refuseQueue = some effect)
    : Fits effect.queue effect.consumer ∧ Moves queue nextElement q effect := by
  cases Consumer.taken_of_act hstep with
  | @refuseQueue request requests hrequests =>
    have hnone : request.takes = none := by
      simpa [QueueAction.succeeds, hrequests] using hgood
    refine ⟨?_, .of_log_nil rfl rfl rfl ?_⟩
    . refine h.keeps (List.prefix_refl queue) (fun _ _ => rfl) ?_ ?_
      . intro request' hmem
        rw [hrequests]
        exact .inl (List.mem_cons_of_mem _ hmem)
      . intro completion hmem
        cases List.mem_append.mp hmem with
        | inl hold => exact .inl hold
        | inr hnew =>
          right
          rw [List.mem_singleton.mp hnew]
          cases request with
          | agetChildren i | awgetChildren i => trivial
          | aget i node | adelete i node => cases hnone
    . intro i node
      rw [hrequests]
      cases request with
      | agetChildren i | awgetChildren i => simp
      | aget i node | adelete i node => cases hnone

theorem Consumer.Fits.moves_fireIf (h : Fits queue q) {fires : Bool} {effect : QueueEffect}
    (hconsumer : effect.consumer = q.fireIf fires) (hqueue : effect.queue = queue)
    (hpushed : effect.pushed = false) (hlog : effect.log = [])
    : Fits effect.queue effect.consumer ∧ Moves queue nextElement q effect := by
  rw [hqueue, hconsumer]
  refine ⟨h.fireIf (List.prefix_refl queue) fires, .of_log_nil hqueue hpushed hlog ?_⟩
  intro i node
  rw [hconsumer, requests_fireIf]

theorem Coupled.moves (h : Coupled c q) (hplaced : c.Placed directory nextSeq) (hcalm : c.Calm)
    (hfits : Fits queue q) (hsorted : queue.Pairwise (· < ·)) (halone : q.Alone)
    (hlost : q.lost = []) {a : QueueAction} (hgood : a.succeeds q) {effect : QueueEffect}
    (hstep : q.act directory queue nextElement c a = some effect)
    (hlock : LockStep directory nextSeq c effect.lock c')
    : Fits effect.queue effect.consumer ∧ Moves queue nextElement q effect := by
  cases Consumer.taken_of_act hstep with
  | rbZkQueuePop => exact h.moves_rbZkQueuePop hfits hstep
  | rbZkMutexLock | serve | refuse | serveLost | dropLost =>
    exact hfits.silent.moves rfl rfl rfl rfl rfl
  | call =>
    have hnot : c.calls.head? ≠ some .resetZkContext :=
      fun heq => hcalm.calls (List.mem_of_mem_head? heq)
    simp only [if_neg hnot]
    exact ⟨hfits, .of_log_nil rfl rfl rfl fun _ _ => Iff.rfl⟩
  | complete _ => exact h.moves_complete hplaced hcalm hfits hstep hlock
  | disconnect | expire => cases hgood
  | reconnect => exact hfits.moves_fireIf rfl rfl rfl rfl
  | rbZkQueuePush =>
    refine ⟨hfits.fireIf (List.prefix_append queue _) _, .pushes rfl rfl rfl ?_⟩
    intro i node
    rw [requests_fireIf]
  | @completeQueue called completion _ hinbox _
  | @rbZkMutexUnlock called completion _ _ hinbox _ _ =>
    have hsucceeds : completion.succeeds called := by
      simpa [QueueAction.succeeds, hinbox] using hgood
    exact h.moves_completeQueue hfits hsorted hinbox hsucceeds rfl rfl rfl rfl
  | unlockFault hinbox hunlock hunlocks =>
    exact absurd (h.deleteCompleted_of_unlock hplaced hinbox hunlock).2 hunlocks
  | serveQueue hrequests hhandle =>
    exact hfits.moves_serve h.tidy halone hrequests hhandle nextElement
  | refuseQueue _ => exact hfits.moves_refuseQueue hgood hstep
  | deletesLost hmem _ | forgetsLost hmem =>
    rw [hlost] at hmem
    cases hmem
  | dropQueueLost =>
    exact ⟨⟨hfits.requests, hfits.inbox⟩, .of_log_nil rfl rfl rfl fun _ _ => Iff.rfl⟩

end

end Zk

end RbMonitor
