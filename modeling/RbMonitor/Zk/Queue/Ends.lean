import RbMonitor.Zk.Queue.Chain
import RbMonitor.Zk.Queue.Step

/-!
This module contains how the pops of a client change: what they wait for only becomes less, or some
of them end.
-/

namespace RbMonitor

namespace Zk

def QueueRequest.qelm : QueueRequest → Nat
  | .agetChildren qelm | .awgetChildren qelm | .aget qelm _ | .adelete qelm _ => qelm

def QueueCompletion.reply : QueueCompletion → Option Nat
  | .popMinimum qelm _ _ | .getElement qelm _ | .deleteCompleted qelm _ => some qelm
  | .childWatcher _ => none

@[simp]
theorem QueueRequest.reply_failed (request : QueueRequest)
    : request.failed.reply = some request.qelm := by
  cases request <;> rfl

@[simp]
theorem QueueRequest.childEvent_failed (request : QueueRequest)
    : request.failed.childEvent = none := by
  cases request <;> rfl

/-- The pop whose life the event belongs to. -/
def Event.qelm : Event → Option Nat
  | .obtained qelm | .errorCb qelm | .deleteCb qelm | .unlock qelm | .released qelm => some qelm
  | .dataCb _ _ | .pushed _ | .deleted _ => none

/-- The action starts no pop, and calls none back. -/
def QueueAction.quiet : QueueAction → Bool
  | .rbZkQueuePop | .complete _ | .completeQueue _ => false
  | _ => true

/-- Requests with the replies that answer them, also when they fail. -/
structure Answers (f : QueueRequest → Option Nat) (g : QueueCompletion → Option Nat) : Prop where
  failed : ∀ request, g request.failed = f request
  late : ∀ completion failed, completion.failed = some failed → g failed = g completion
  event : ∀ qelm, g (.childWatcher qelm) = none

theorem answers_reply : Answers (fun request => some request.qelm) QueueCompletion.reply := by
  refine ⟨QueueRequest.reply_failed, ?_, fun _ => rfl⟩
  intro completion failed h
  cases completion <;> cases h <;> rfl

theorem answers_takes : Answers QueueRequest.takes QueueCompletion.takes := by
  refine ⟨?_, ?_, fun _ => rfl⟩
  . intro request
    cases request <;> rfl
  . intro completion failed h
    cases completion with
    | popMinimum i strings watcherSetted =>
      cases h
      cases watcherSetted <;> rfl
    | getElement i value =>
      cases h
      rfl
    | deleteCompleted i ok =>
      cases h
      rfl
    | childWatcher i => cases h

namespace Consumer

/-- A pop has such a request or such a reply on the way. -/
def Stage (f : QueueRequest → Option Nat) (g : QueueCompletion → Option Nat) (q : Consumer) (id : Nat)
    : Prop :=
  (∃ request ∈ q.requests, f request = some id) ∨ ∃ completion ∈ q.inbox, g completion = some id

/-- The queue element is not released. -/
def Live (q : Consumer) (id : Nat) : Prop :=
  ∃ qelm, q.elements id = some qelm ∧ qelm.refcnt ≠ 0

/-- The pop knows the node that it takes. -/
def Takes (q : Consumer) (id : Nat) : Prop :=
  ∃ qelm, q.elements id = some qelm ∧ qelm.queueElementPath ≠ none

/-- The same elements, and nothing new that they wait for. -/
structure Fewer (q q' : Consumer) : Prop where
  elements : q'.elements = q.elements
  waiting : ∀ id ∈ q'.waiting, id ∈ q.waiting
  taking : ∀ id ∈ q'.taking, id ∈ q.taking
  watching : ∀ id ∈ q'.watching, id ∈ q.watching ∨ id ∈ q.waiting

/-- The elements `ids` may be released, and nothing else happens. -/
structure Ends (ids : List Nat) (q q' : Consumer) : Prop where
  requests : q'.requests = q.requests
  lost : q'.lost = q.lost
  inbox : q'.inbox = q.inbox
  childWatches : q'.childWatches = q.childWatches
  none : ∀ id, q'.elements id = none ↔ q.elements id = none
  others : ∀ id, id ∉ ids → q'.elements id = q.elements id
  ignores : ∀ id, q.Ignores id → q'.Ignores id
  takes : ∀ id, q.Takes id → q'.Takes id
  refcnt : (∀ id qelm, q.elements id = some qelm → qelm.refcnt ≤ 1) →
    ∀ id qelm, q'.elements id = some qelm → qelm.refcnt ≤ 1
  live : ∀ id, q'.Live id → q.Live id

section

variable {f : QueueRequest → Option Nat} {g : QueueCompletion → Option Nat} {q : Consumer} {id : Nat}

theorem Stage.pop {completion : QueueCompletion} {inbox : List QueueCompletion}
    (hinbox : q.inbox = completion :: inbox) (h : Stage f g { q with inbox := inbox } id)
    : Stage f g q id := by
  unfold Stage
  rw [hinbox]
  refine h.imp_right ?_
  intro hreply
  rcases hreply with ⟨reply, hmem, hid⟩
  exact ⟨reply, List.mem_cons_of_mem _ hmem, hid⟩

theorem Stage.fire (hanswers : Answers f g) (h : Stage f g q.fire id) : Stage f g q id := by
  refine h.imp_right ?_
  intro hreply
  rcases hreply with ⟨reply, hmem, hid⟩
  cases List.mem_append.mp hmem with
  | inl hold => exact ⟨reply, hold, hid⟩
  | inr hevent =>
    rcases List.mem_map.mp hevent with ⟨i, _, heq⟩
    rw [← heq, hanswers.event] at hid
    cases hid

theorem Stage.reply {request : QueueRequest} {requests : List QueueRequest}
    (hrequests : q.requests = request :: requests) {reply : QueueCompletion}
    (hreply : g reply = f request) {childWatches : List Nat}
    (h : Stage f g { q with
        childWatches := childWatches
        requests := requests
        inbox := q.inbox ++ [reply] } id)
    : Stage f g q id := by
  unfold Stage
  rw [hrequests]
  rcases h with ⟨request', hmem, hid⟩ | ⟨completion, hmem, hid⟩
  . exact .inl ⟨request', List.mem_cons_of_mem _ hmem, hid⟩
  . cases List.mem_append.mp hmem with
    | inl hold => exact .inr ⟨completion, hold, hid⟩
    | inr hnew =>
      rw [List.mem_singleton.mp hnew, hreply] at hid
      exact .inl ⟨request, List.mem_cons_self, hid⟩

theorem Stage.resetZkContext (hanswers : Answers f g) (h : Stage f g q.resetZkContext id)
    : Stage f g q id := by
  rcases h with ⟨request, hmem, _⟩ | ⟨completion, hmem, hid⟩
  . cases hmem
  . cases List.mem_append.mp hmem with
    | inl hold => exact .inr ⟨completion, hold, hid⟩
    | inr hfailed =>
      rcases List.mem_map.mp hfailed with ⟨request, hrequest, heq⟩
      rw [← heq, hanswers.failed] at hid
      exact .inl ⟨request, hrequest, hid⟩

theorem mem_inbox_disconnect {live : Bool} {received : Nat} {completion : QueueCompletion}
    (hmem : completion ∈ (q.disconnect live received).inbox)
    : completion ∈ q.inbox.take received ∨
        (∃ reply ∈ q.inbox.drop received, reply.failed = some completion) ∨
          ∃ request ∈ q.requests, request.failed = completion := by
  simpa [Consumer.disconnect] using hmem

theorem Stage.disconnect (hanswers : Answers f g) {live : Bool} {received : Nat}
    (h : Stage f g (q.disconnect live received) id)
    : Stage f g q id := by
  rcases h with ⟨request, hmem, _⟩ | ⟨completion, hmem, hid⟩
  . cases hmem
  . rcases mem_inbox_disconnect hmem with htake | ⟨reply, hdrop, hfailed⟩ | ⟨request, hreq, hfailed⟩
    . exact .inr ⟨completion, List.mem_of_mem_take htake, hid⟩
    . rw [hanswers.late reply completion hfailed] at hid
      exact .inr ⟨reply, List.mem_of_mem_drop hdrop, hid⟩
    . rw [← hfailed, hanswers.failed] at hid
      exact .inl ⟨request, hreq, hid⟩

end

section

variable {q q' : Consumer} {id : Nat} {ids : List Nat}

theorem mem_waiting_iff
    : id ∈ q.waiting ↔ Stage (fun request => some request.qelm) QueueCompletion.reply q id := by
  simp only [waiting, Consumer.listing, replying, Consumer.taking, List.mem_append,
    List.mem_filterMap, Stage]
  constructor
  . intro h
    rcases h with ((⟨request, hmem, hid⟩ | ⟨completion, hmem, hid⟩) | ⟨completion, hmem, hid⟩) |
      (⟨request, hmem, hid⟩ | ⟨completion, hmem, hid⟩)
    . left
      refine ⟨request, hmem, ?_⟩
      cases request <;> cases hid <;> rfl
    . right
      refine ⟨completion, hmem, ?_⟩
      unfold QueueCompletion.lists at hid
      split at hid <;> cases hid
      rfl
    . right
      refine ⟨completion, hmem, ?_⟩
      unfold QueueCompletion.watched at hid
      split at hid <;> cases hid
      rfl
    . left
      refine ⟨request, hmem, ?_⟩
      cases request <;> cases hid <;> rfl
    . right
      refine ⟨completion, hmem, ?_⟩
      cases completion <;> cases hid <;> rfl
  . intro h
    rcases h with ⟨request, hmem, hid⟩ | ⟨completion, hmem, hid⟩
    . cases request with
      | agetChildren i | awgetChildren i => exact .inl (.inl (.inl ⟨_, hmem, hid⟩))
      | aget i node | adelete i node => exact .inr (.inl ⟨_, hmem, hid⟩)
    . cases completion with
      | popMinimum i strings watcherSetted =>
        cases watcherSetted with
        | false => exact .inl (.inl (.inr ⟨_, hmem, hid⟩))
        | true => exact .inl (.inr ⟨_, hmem, hid⟩)
      | getElement i value | deleteCompleted i ok => exact .inr (.inr ⟨_, hmem, hid⟩)
      | childWatcher i => cases hid

theorem mem_taking_iff
    : id ∈ q.taking ↔ Stage QueueRequest.takes QueueCompletion.takes q id := by
  simp only [Consumer.taking, List.mem_append, List.mem_filterMap, Stage]

theorem mem_watching_iff : id ∈ q.watching ↔ id ∈ q.childWatches ∨ .childWatcher id ∈ q.inbox := by
  simp only [watching, List.mem_append, List.mem_filterMap]
  apply or_congr_right
  constructor
  . intro h
    rcases h with ⟨completion, hmem, hid⟩
    cases completion with
    | childWatcher i =>
      cases hid
      exact hmem
    | popMinimum i strings watcherSetted => cases hid
    | getElement i value => cases hid
    | deleteCompleted i ok => cases hid
  . intro hmem
    exact ⟨_, hmem, rfl⟩

theorem fewer_of_stage (helements : q'.elements = q.elements)
    (hstage : ∀ {f : QueueRequest → Option Nat} {g : QueueCompletion → Option Nat}, Answers f g →
      ∀ id, Stage f g q' id → Stage f g q id)
    (hwatching : ∀ id ∈ q'.watching, id ∈ q.watching ∨ id ∈ q.waiting)
    : Fewer q q' := by
  refine ⟨helements, ?_, ?_, hwatching⟩
  . intro i hi
    exact mem_waiting_iff.mpr (hstage answers_reply i (mem_waiting_iff.mp hi))
  . intro i hi
    exact mem_taking_iff.mpr (hstage answers_takes i (mem_taking_iff.mp hi))

theorem Fewer.refl (q : Consumer) : Fewer q q :=
  ⟨rfl, fun _ h => h, fun _ h => h, fun _ h => .inl h⟩

theorem Fewer.trans {r : Consumer} (h : Fewer q q') (h' : Fewer q' r) : Fewer q r where
  elements := h'.elements.trans h.elements
  waiting id hid := h.waiting id (h'.waiting id hid)
  taking id hid := h.taking id (h'.taking id hid)
  watching id hid := by
    cases h'.watching id hid with
    | inl hwatching => exact h.watching id hwatching
    | inr hwaiting => exact .inr (h.waiting id hwaiting)

theorem fewer_forget (q : Consumer) (lost : List QueueRequest) : Fewer q { q with lost := lost } :=
  ⟨rfl, fun _ h => h, fun _ h => h, fun _ h => .inl h⟩

theorem fewer_fire (q : Consumer) : Fewer q q.fire := by
  refine fewer_of_stage rfl ?_ ?_
  . exact fun hanswers i hi => hi.fire hanswers
  . exact fun i hi => .inl (mem_watching_fire.mp hi)

theorem fewer_fireIf (q : Consumer) (connected : Bool) : Fewer q (q.fireIf connected) := by
  unfold Consumer.fireIf
  split
  . exact fewer_fire q
  . exact Fewer.refl q

theorem fewer_disconnect (q : Consumer) (live : Bool) (received : Nat)
    : Fewer q (q.disconnect live received) := by
  refine fewer_of_stage rfl ?_ ?_
  . exact fun hanswers i hi => hi.disconnect hanswers
  . intro i hi
    left
    rw [mem_watching_iff] at hi ⊢
    rcases hi with hwatch | hevent
    . have hmem := List.mem_of_mem_filter hwatch
      cases List.mem_append.mp hmem with
      | inl hold => exact .inl hold
      | inr hlate =>
        rcases List.mem_filterMap.mp hlate with ⟨event, hdrop, hid⟩
        right
        cases event with
        | childWatcher j =>
          cases hid
          exact List.mem_of_mem_drop hdrop
        | popMinimum j strings watcherSetted => cases hid
        | getElement j value => cases hid
        | deleteCompleted j ok => cases hid
    . rcases mem_inbox_disconnect hevent with htake | ⟨reply, _, hfailed⟩ | ⟨request, _, hfailed⟩
      . exact .inr (List.mem_of_mem_take htake)
      . cases reply <;> cases hfailed
      . cases request <;> cases hfailed

theorem fewer_resetZkContext (q : Consumer) : Fewer q q.resetZkContext := by
  refine fewer_of_stage rfl ?_ ?_
  . exact fun hanswers i hi => hi.resetZkContext hanswers
  . intro i hi
    rw [mem_watching_iff] at hi
    rcases hi with hwatch | hevent
    . cases hwatch
    . cases List.mem_append.mp hevent with
      | inl hold => exact .inl (mem_watching_iff.mpr (.inr hold))
      | inr hfailed =>
        rcases List.mem_map.mp hfailed with ⟨request, _, heq⟩
        cases request <;> cases heq

theorem fewer_reply {request : QueueRequest} {requests : List QueueRequest}
    (hrequests : q.requests = request :: requests) {reply : QueueCompletion}
    (hreply : reply.reply = some request.qelm) (htakes : reply.takes = request.takes)
    {childWatches : List Nat}
    (hwatches : ∀ id ∈ childWatches, id ∈ q.childWatches ∨ id = request.qelm)
    : Fewer q { q with
        childWatches := childWatches
        requests := requests
        inbox := q.inbox ++ [reply] } := by
  refine ⟨rfl, ?_, ?_, ?_⟩
  . intro i hi
    exact mem_waiting_iff.mpr (Stage.reply hrequests hreply (mem_waiting_iff.mp hi))
  . intro i hi
    exact mem_taking_iff.mpr (Stage.reply hrequests htakes (mem_taking_iff.mp hi))
  . intro i hi
    rw [mem_watching_iff] at hi
    rcases hi with hwatch | hevent
    . rcases hwatches i hwatch with hold | heq
      . exact .inl (mem_watching_iff.mpr (.inl hold))
      . right
        rw [mem_waiting_iff, Stage, hrequests]
        exact .inl ⟨request, List.mem_cons_self, congrArg some heq.symm⟩
    . cases List.mem_append.mp hevent with
      | inl hold => exact .inl (mem_watching_iff.mpr (.inr hold))
      | inr hnew =>
        rw [← List.mem_singleton.mp hnew] at hreply
        cases hreply

theorem fewer_serve {request : QueueRequest} {requests : List QueueRequest}
    (hrequests : q.requests = request :: requests) {queue : List Nat} {effect : QueueEffect}
    {reply : QueueCompletion}
    (hhandle : { q with requests := requests }.handle queue request = (effect, reply))
    : Fewer q { effect.consumer with inbox := effect.consumer.inbox ++ [reply] } := by
  cases request with
  | agetChildren i =>
    cases hhandle
    exact fewer_reply hrequests rfl rfl fun _ h => .inl h
  | awgetChildren i =>
    cases hhandle
    apply fewer_reply hrequests rfl rfl
    intro j hj
    simpa [QueueRequest.qelm] using hj
  | aget i node =>
    cases hhandle
    exact fewer_reply hrequests rfl rfl fun _ h => .inl h
  | adelete i node =>
    simp only [Consumer.handle] at hhandle
    split at hhandle
    . cases hhandle
      apply (fewer_fire q).trans
      exact fewer_reply (q := q.fire) hrequests rfl rfl fun _ h => .inl h
    . cases hhandle
      exact fewer_reply hrequests rfl rfl fun _ h => .inl h

theorem watching_pop {completion : QueueCompletion} {inbox : List QueueCompletion}
    (hinbox : q.inbox = completion :: inbox) (hmem : id ∈ { q with inbox := inbox }.watching)
    : id ∈ q.watching := by
  rw [mem_watching_iff] at hmem ⊢
  rw [hinbox]
  exact hmem.imp_right (List.mem_cons_of_mem _)

theorem fewer_pop {completion : QueueCompletion} {inbox : List QueueCompletion}
    (hinbox : q.inbox = completion :: inbox)
    : Fewer q { q with inbox := inbox } := by
  refine fewer_of_stage rfl ?_ ?_
  . exact fun _ i hi => hi.pop hinbox
  . exact fun i hi => .inl (watching_pop hinbox hi)

theorem use_eq {qelm : QueueElement} (hqelm : q.elements id = some qelm) (hrefcnt : qelm.refcnt ≠ 0)
    (f : QueueElement → Turn)
    : q.use id f = f qelm := by
  simp only [use, hqelm, if_neg hrefcnt]

theorem use_of_not_live (hdead : ¬q.Live id) (f : QueueElement → Turn)
    : q.use id f = { consumer := { q with fault := true } } := by
  unfold use
  split
  . rfl
  . next qelm hqelm =>
    split
    . rfl
    . next hrefcnt => exact absurd ⟨qelm, hqelm, hrefcnt⟩ hdead

theorem Ends.refl (q : Consumer) : Ends [] q q :=
  ⟨rfl, rfl, rfl, rfl, fun _ => Iff.rfl, fun _ _ => rfl, fun _ h => h, fun _ h => h, fun h => h,
    fun _ h => h⟩

theorem Ends.trans {r : Consumer} {ids' : List Nat} (h : Ends ids q q') (h' : Ends ids' q' r)
    : Ends (ids ++ ids') q r where
  requests := h'.requests.trans h.requests
  lost := h'.lost.trans h.lost
  inbox := h'.inbox.trans h.inbox
  childWatches := h'.childWatches.trans h.childWatches
  none id := (h'.none id).trans (h.none id)
  others id hid := by
    rw [List.mem_append, not_or] at hid
    rw [h'.others id hid.2, h.others id hid.1]
  ignores id hignores := h'.ignores id (h.ignores id hignores)
  takes id htakes := h'.takes id (h.takes id htakes)
  refcnt hle := h'.refcnt (h.refcnt hle)
  live id hlive := h.live id (h'.live id hlive)

theorem ends_fault (q : Consumer) : Ends [] q { q with fault := true } :=
  ⟨rfl, rfl, rfl, rfl, fun _ => Iff.rfl, fun _ _ => rfl, fun _ h => h, fun _ h => h, fun h => h,
    fun _ h => h⟩

theorem Ends.mono {ids' : List Nat} (h : Ends ids q q') (hsub : ids ⊆ ids') : Ends ids' q q' :=
  ⟨h.requests, h.lost, h.inbox, h.childWatches, h.none, fun id hid => h.others id fun hmem =>
    hid (hsub hmem), h.ignores, h.takes, h.refcnt, h.live⟩

theorem ends_setElement {qelm qelm' : QueueElement} (hqelm : q.elements id = some qelm)
    (hrefcnt : qelm'.refcnt ≤ qelm.refcnt)
    (hignores : qelm.shouldIgnoreWatcher → qelm'.shouldIgnoreWatcher)
    (hpath : qelm.queueElementPath ≠ none → qelm'.queueElementPath ≠ none)
    : Ends [id] q (q.setElement id qelm') := by
  have hsame : (q.setElement id qelm').elements id = some qelm' := by
    simp [Consumer.setElement]
  have hother : ∀ i, i ≠ id → (q.setElement id qelm').elements i = q.elements i := by
    intro i hne
    simp [Consumer.setElement, hne]
  refine ⟨rfl, rfl, rfl, rfl, ?_, ?_, ?_, ?_, ?_, ?_⟩
  . intro i
    by_cases heq : i = id
    . subst heq
      simp [hsame, hqelm]
    . rw [hother i heq]
  . intro i hi
    exact hother i (by simpa using hi)
  . intro i h
    apply h.setElement
    intro old hold
    rw [hqelm] at hold
    cases hold
    exact hignores
  . intro i htakes
    rcases htakes with ⟨old, hold, hsome⟩
    by_cases heq : i = id
    . subst heq
      rw [hqelm] at hold
      cases hold
      exact ⟨qelm', hsame, hpath hsome⟩
    . exact ⟨old, (hother i heq).trans hold, hsome⟩
  . intro hle i new hnew
    by_cases heq : i = id
    . subst heq
      rw [hsame] at hnew
      cases hnew
      exact Nat.le_trans hrefcnt (hle i qelm hqelm)
    . rw [hother i heq] at hnew
      exact hle i new hnew
  . intro i hlive
    by_cases heq : i = id
    . subst heq
      rcases hlive with ⟨new, hnew, hne⟩
      rw [hsame] at hnew
      cases hnew
      exact ⟨qelm, hqelm, by omega⟩
    . unfold Live at hlive
      rwa [hother i heq] at hlive

theorem ends_rbZkQueueElementDecref (q : Consumer) (id : Nat)
    : Ends [id] q (q.rbZkQueueElementDecref id).consumer := by
  by_cases hlive : q.Live id
  . rcases hlive with ⟨qelm, hqelm, hrefcnt⟩
    rw [Consumer.rbZkQueueElementDecref, use_eq hqelm hrefcnt]
    exact ends_setElement hqelm (Nat.sub_le _ _) (fun h => h) fun h => h
  . rw [Consumer.rbZkQueueElementDecref, use_of_not_live hlive]
    exact (ends_fault q).mono (List.nil_subset _)

theorem not_live_rbZkQueueElementDecref
    (hle : ∀ id qelm, q.elements id = some qelm → qelm.refcnt ≤ 1) (id : Nat)
    : ¬(q.rbZkQueueElementDecref id).consumer.Live id := by
  by_cases hlive : q.Live id
  . rcases hlive with ⟨qelm, hqelm, hrefcnt⟩
    rw [Consumer.rbZkQueueElementDecref, use_eq hqelm hrefcnt]
    have hone := hle id qelm hqelm
    simp only [Live, Consumer.setElement, Function.update_self, Option.some.injEq]
    intro h
    rcases h with ⟨new, hnew, hne⟩
    subst hnew
    apply hne
    show qelm.refcnt - 1 = 0
    omega
  . rw [Consumer.rbZkQueueElementDecref, use_of_not_live hlive]
    exact hlive

theorem ends_errorDone (q : Consumer) (id : Nat) : Ends [id] q (q.errorDone id).consumer :=
  ends_rbZkQueueElementDecref q id

theorem ends_use {f : QueueElement → Turn}
    (hf : ∀ qelm, q.elements id = some qelm → Ends ids q (f qelm).consumer)
    : Ends ids q (q.use id f).consumer := by
  by_cases hlive : q.Live id
  . rcases hlive with ⟨qelm, hqelm, hrefcnt⟩
    rw [use_eq hqelm hrefcnt]
    exact hf qelm hqelm
  . rw [use_of_not_live hlive]
    exact (ends_fault q).mono (List.nil_subset _)

theorem ends_errorCb (q : Consumer) (called : Bool) (id : Nat)
    : Ends [id] q (q.mutexCallback called (.errorCb id)).consumer := by
  simp only [mutexCallback, rbZkQueueMutexErrorCb]
  split
  . exact ends_use fun _ _ => ends_errorDone q id
  . exact (Ends.refl q).mono (List.nil_subset _)

/-- Every element stays, and none that is released comes back. -/
structure Follows (q q' : Consumer) : Prop where
  known : ∀ id, q'.elements id = none → q.elements id = none
  live : ∀ id, q'.Live id → q.Live id ∨ q.elements id = none

/-- A callback of the consumer: more requests at most, and nothing that arrives. -/
structure Grows (q q' : Consumer) : Prop extends Follows q q' where
  requests : ∀ request ∈ q.requests, request ∈ q'.requests
  lost : q'.lost = q.lost
  inbox : q'.inbox = q.inbox

theorem Fewer.follows (h : Fewer q q') : Follows q q' where
  known id hnone := h.elements ▸ hnone
  live id hlive := by
    unfold Live at hlive
    rw [h.elements] at hlive
    exact .inl hlive

theorem Ends.grows (h : Ends ids q q') : Grows q q' where
  known id hnone := (h.none id).mp hnone
  live id hlive := .inl (h.live id hlive)
  requests _ hmem := h.requests ▸ hmem
  lost := h.lost
  inbox := h.inbox

theorem Grows.request (h : Grows q q') (request : QueueRequest) : Grows q (q'.request request) where
  known := h.known
  live := h.live
  requests request' hmem := List.mem_append_left _ (h.requests request' hmem)
  lost := h.lost
  inbox := h.inbox

theorem Follows.trans {r : Consumer} (h : Follows q q') (h' : Follows q' r) : Follows q r where
  known id hnone := h.known id (h'.known id hnone)
  live id hlive := by
    cases h'.live id hlive with
    | inl hlive => exact h.live id hlive
    | inr hnone => exact .inr (h.known id hnone)

theorem Grows.trans {r : Consumer} (h : Grows q q') (h' : Grows q' r) : Grows q r where
  toFollows := h.toFollows.trans h'.toFollows
  requests request hmem := h'.requests request (h.requests request hmem)
  lost := h'.lost.trans h.lost
  inbox := h'.inbox.trans h.inbox

theorem follows_setElement {qelm : QueueElement} (hnone : q.elements id = none)
    : Follows q (q.setElement id qelm) := by
  have hother : ∀ i, i ≠ id → (q.setElement id qelm).elements i = q.elements i := by
    intro i hne
    simp [Consumer.setElement, hne]
  refine ⟨?_, ?_⟩
  . intro i hi
    by_cases heq : i = id
    . rw [heq]
      exact hnone
    . rwa [hother i heq] at hi
  . intro i hi
    by_cases heq : i = id
    . rw [heq]
      exact .inr hnone
    . unfold Live at hi
      rw [hother i heq] at hi
      exact .inl hi

theorem grows_use {f : QueueElement → Turn}
    (hf : ∀ qelm, q.elements id = some qelm → Grows q (f qelm).consumer)
    : Grows q (q.use id f).consumer := by
  by_cases hlive : q.Live id
  . rcases hlive with ⟨qelm, hqelm, hrefcnt⟩
    rw [use_eq hqelm hrefcnt]
    exact hf qelm hqelm
  . rw [use_of_not_live hlive]
    exact (ends_fault q).grows

theorem grows_rbZkQueuePopNolock (q : Consumer) (called : Bool) (id : Nat)
    : Grows q (q.rbZkQueuePopNolock called id).consumer := by
  apply grows_use
  intro _ _
  split
  . exact (Ends.refl q).grows.request _
  . exact (ends_errorDone q id).grows

theorem grows_mutexCallbacks (q : Consumer) (called : Bool) (callbacks : List MutexCallback)
    : Grows q (q.mutexCallbacks called callbacks).consumer := by
  induction callbacks generalizing q with
  | nil => exact (Ends.refl q).grows
  | cons callback callbacks ih =>
    apply Grows.trans _ (ih _)
    cases callback with
    | schangeCb id obtained =>
      simp only [mutexCallback, rbZkQueueMutexStatusChange]
      split
      . apply grows_use
        intro _ _
        split
        . exact grows_rbZkQueuePopNolock q called id
        . exact (Ends.refl q).grows
      . exact (Ends.refl q).grows
    | errorCb id => exact (ends_errorCb q called id).grows

theorem grows_complete (q : Consumer) (called : Bool) (completion : QueueCompletion)
    : Grows q (q.complete called completion).consumer := by
  cases completion with
  | popMinimum id strings watcherSetted =>
    apply grows_use
    intro qelm hqelm
    cases strings with
    | none => exact (ends_errorDone q id).grows
    | some strings =>
      simp only
      split
      . next node _ =>
        have hset : Ends [id] q (q.setElement id { qelm with
            queueElementPath := some node
            shouldIgnoreWatcher := qelm.shouldIgnoreWatcher || watcherSetted }) :=
          ends_setElement hqelm (Nat.le_refl _) (fun hignores => by simp [hignores])
            fun _ => Option.some_ne_none node
        split
        . exact hset.grows.request _
        . exact hset.grows.trans (ends_errorDone _ id).grows
      . split
        . exact (Ends.refl q).grows
        . split
          . exact (Ends.refl q).grows.request _
          . exact (Ends.refl q).grows
  | getElement id value =>
    apply grows_use
    intro qelm hqelm
    cases value with
    | none => exact (ends_errorDone q id).grows
    | some node =>
      simp only
      split
      . split
        . exact (Ends.refl q).grows.request _
        . exact (Ends.refl q).grows
      . exact (Ends.refl q).grows
  | deleteCompleted id ok =>
    apply grows_use
    intro qelm hqelm
    exact (ends_rbZkQueueElementDecref q id).grows
  | childWatcher id =>
    apply grows_use
    intro qelm hqelm
    split
    . exact (Ends.refl q).grows
    . exact grows_rbZkQueuePopNolock q called id

@[simp]
theorem fault_fireIf (q : Consumer) (connected : Bool) : (q.fireIf connected).fault = q.fault := by
  unfold Consumer.fireIf
  split <;> rfl

/-- The pops hear of nothing. -/
structure Rests (q q' : Consumer) : Prop where
  fewer : Fewer q q'
  tidy : q.Tidy → q'.Tidy
  fault : q'.fault = q.fault

theorem rests_fireIf (q : Consumer) (connected : Bool) : Rests q (q.fireIf connected) :=
  ⟨fewer_fireIf q connected, fun h => h.fireIf connected, fault_fireIf q connected⟩

theorem rests_forget (q : Consumer) (lost : List QueueRequest) : Rests q { q with lost := lost } :=
  ⟨fewer_forget q lost, fun h => h.forget lost, rfl⟩

theorem Rests.refl (q : Consumer) : Rests q q :=
  ⟨Fewer.refl q, fun h => h, rfl⟩

theorem qelm_of_handle {queue : List Nat} {request : QueueRequest} {effect : QueueEffect}
    {reply : QueueCompletion} (hhandle : q.handle queue request = (effect, reply))
    : ∀ event ∈ effect.log, event.qelm = none := by
  intro event hmem
  cases request with
  | agetChildren i | awgetChildren i | aget i node =>
    cases hhandle
    cases hmem
  | adelete i node =>
    simp only [Consumer.handle] at hhandle
    split at hhandle
    . cases hhandle
      rw [List.mem_singleton.mp hmem]
      rfl
    . cases hhandle
      cases hmem

theorem rests_act {c : Client} {directory queue : List Nat} {nextElement : Nat} {a : QueueAction}
    (hquiet : a.quiet) {effect : QueueEffect}
    (hstep : q.act directory queue nextElement c a = some effect)
    : Rests q effect.consumer ∧ ∀ event ∈ effect.log, event.qelm = none := by
  have hnone : ∀ event ∈ ([] : List Event), event.qelm = none :=
    fun event hmem => absurd hmem List.not_mem_nil
  have hone : ∀ {event : Event}, event.qelm = none → ∀ event' ∈ [event], event'.qelm = none := by
    intro event hqelm event' hmem
    rw [List.mem_singleton.mp hmem]
    exact hqelm
  cases taken_of_act hstep with
  | rbZkQueuePop | complete _ | completeQueue _ _ | rbZkMutexUnlock _ _ _ | unlockFault _ _ _ =>
    cases hquiet
  | rbZkMutexLock | serve | refuse | serveLost | dropLost => exact ⟨Rests.refl q, hnone⟩
  | call =>
    refine ⟨?_, hnone⟩
    simp only
    split
    . exact ⟨fewer_resetZkContext q, fun h => h.resetZkContext, rfl⟩
    . exact Rests.refl q
  | disconnect =>
    refine ⟨⟨fewer_disconnect q c.live _, ?_, rfl⟩, hnone⟩
    exact fun h => h.disconnect c.live _
  | reconnect => exact ⟨rests_fireIf q _, hnone⟩
  | expire | dropQueueLost => exact ⟨rests_forget q [], hnone⟩
  | rbZkQueuePush => exact ⟨rests_fireIf q _, hone rfl⟩
  | serveQueue hrequests hhandle =>
    rcases kept_of_handle hhandle with ⟨_, _, hfault⟩
    have hlog := qelm_of_handle hhandle
    exact ⟨⟨fewer_serve hrequests hhandle, fun h => h.serve hrequests hhandle, hfault⟩, hlog⟩
  | @refuseQueue request _ hrequests =>
    refine ⟨⟨?_, fun h => h.refuse hrequests, rfl⟩, hnone⟩
    exact fewer_reply hrequests (answers_reply.failed request) (answers_takes.failed request)
      fun _ h => .inl h
  | @deletesLost _ _ lost _ _ =>
    have hfire := rests_fireIf { q with lost := lost } c.connected
    refine ⟨⟨(fewer_forget q lost).trans hfire.fewer, ?_, hfire.fault⟩, hone rfl⟩
    exact fun h => hfire.tidy (h.forget lost)
  | forgetsLost _ => exact ⟨rests_forget q _, hnone⟩

theorem follows_act {c : Client} {directory queue : List Nat} {nextElement : Nat} {a : QueueAction}
    {effect : QueueEffect} (hfresh : q.elements c.nextMutex = none)
    (hstep : q.act directory queue nextElement c a = some effect)
    : Follows q effect.consumer := by
  cases hquiet : a.quiet with
  | true => exact (rests_act hquiet hstep).1.fewer.follows
  | false =>
    cases taken_of_act hstep with
    | rbZkQueuePop => exact follows_setElement hfresh
    | complete _ => exact (grows_mutexCallbacks q _ _).toFollows
    | completeQueue hinbox _ | rbZkMutexUnlock hinbox _ _ =>
      exact (fewer_pop hinbox).follows.trans (grows_complete _ _ _).toFollows
    | @unlockFault called completion inbox _ hinbox _ _ =>
      have hturn : Follows q ({ q with inbox := inbox }.complete called completion).consumer :=
        (fewer_pop hinbox).follows.trans (grows_complete _ called completion).toFollows
      exact hturn.trans (ends_fault _).grows.toFollows
    | rbZkMutexLock | call | serve | refuse | serveLost | dropLost | disconnect | reconnect
    | expire | rbZkQueuePush | serveQueue _ _ | refuseQueue _ | deletesLost _ _ | forgetsLost _
    | dropQueueLost =>
      cases hquiet

end

end Consumer

end Zk

end RbMonitor
