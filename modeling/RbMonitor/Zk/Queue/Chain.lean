import RbMonitor.Zk.Placed
import RbMonitor.Zk.Queue.Impl

/-!
This module contains what a pop waits for. Its stages follow one another, so it waits for one reply
at a time, and beside it for one event of the children.
-/

namespace RbMonitor

namespace Zk

/-- The request asks for the list of the queue. -/
def QueueRequest.lists : QueueRequest → Option Nat
  | .agetChildren qelm | .awgetChildren qelm => some qelm
  | .aget _ _ | .adelete _ _ => none

/-- The request is about the node that the pop takes. -/
def QueueRequest.takes : QueueRequest → Option Nat
  | .aget qelm _ | .adelete qelm _ => some qelm
  | .agetChildren _ | .awgetChildren _ => none

def QueueCompletion.lists : QueueCompletion → Option Nat
  | .popMinimum qelm _ false => some qelm
  | _ => none

def QueueCompletion.takes : QueueCompletion → Option Nat
  | .getElement qelm _ | .deleteCompleted qelm _ => some qelm
  | _ => none

/-- The first completion may come before the second. An event follows the reply that set its watch,
and the reply to a deletion follows the events that it caused. -/
def QueueCompletion.Precedes : QueueCompletion → QueueCompletion → Prop
  | .childWatcher qelm, .popMinimum qelm' _ true => qelm ≠ qelm'
  | .deleteCompleted qelm true, .childWatcher qelm' => qelm ≠ qelm'
  | _, _ => True

theorem QueueCompletion.precedes_of_reply (first : QueueCompletion) {second : QueueCompletion}
    (hwatched : second.watched = none) (hevent : second.childEvent = none)
    : first.Precedes second := by
  unfold QueueCompletion.Precedes
  split
  . cases hwatched
  . cases hevent
  . trivial

namespace Consumer

def listing (q : Consumer) : List Nat :=
  q.requests.filterMap QueueRequest.lists ++ q.inbox.filterMap QueueCompletion.lists

def replying (q : Consumer) : List Nat :=
  q.inbox.filterMap QueueCompletion.watched

def taking (q : Consumer) : List Nat :=
  q.requests.filterMap QueueRequest.takes ++ q.inbox.filterMap QueueCompletion.takes

def watching (q : Consumer) : List Nat :=
  q.childWatches ++ q.inbox.filterMap QueueCompletion.childEvent

/-- The pops that wait for a reply. -/
def waiting (q : Consumer) : List Nat :=
  q.listing ++ q.replying ++ q.taking

def Ignores (q : Consumer) (id : Nat) : Prop :=
  ∃ qelm, q.elements id = some qelm ∧ qelm.shouldIgnoreWatcher

structure Tidy (q : Consumer) : Prop where
  once : ∀ id, q.waiting.count id ≤ 1
  event : ∀ id, q.watching.count id ≤ 1
  listing : ∀ id ∈ q.listing, id ∉ q.watching
  -- an event of the node that is taken is ignored
  taking : ∀ id ∈ q.taking, id ∈ q.watching → q.Ignores id
  order : q.inbox.Pairwise QueueCompletion.Precedes
  deleted : ∀ id, .deleteCompleted id true ∈ q.inbox → id ∉ q.childWatches

section

variable {q q' : Consumer} {id : Nat}

theorem count_waiting (q : Consumer) (id : Nat)
    : q.waiting.count id = q.listing.count id + q.replying.count id + q.taking.count id := by
  simp only [waiting, List.count_append]

theorem mem_waiting : id ∈ q.waiting ↔ id ∈ q.listing ∨ id ∈ q.replying ∨ id ∈ q.taking := by
  simp only [waiting, List.mem_append, or_assoc]

theorem mem_taking {completion : QueueCompletion} (hmem : completion ∈ q.inbox)
    (htakes : completion.takes = some id)
    : id ∈ q.taking :=
  List.mem_append_right _ (List.mem_filterMap.mpr ⟨completion, hmem, htakes⟩)

theorem mem_watching {completion : QueueCompletion} (hmem : completion ∈ q.inbox)
    (hevent : completion.childEvent = some id)
    : id ∈ q.watching :=
  List.mem_append_right _ (List.mem_filterMap.mpr ⟨completion, hmem, hevent⟩)

theorem tidy_start : Tidy .start := by
  constructor <;> simp [start, waiting, watching, Consumer.listing, replying, Consumer.taking]

theorem Tidy.elements (h : Tidy q) {elements : Nat → Option QueueElement}
    (hignores : ∀ id, q.Ignores id → { q with elements := elements }.Ignores id) (fault : Bool)
    : Tidy { q with elements := elements, fault := fault } :=
  ⟨h.once, h.event, h.listing, fun id htaking hwatching =>
    hignores id (h.taking id htaking hwatching), h.order, h.deleted⟩

theorem Ignores.setElement (h : q.Ignores id) {i : Nat} {qelm : QueueElement}
    (hqelm : ∀ old, q.elements i = some old → old.shouldIgnoreWatcher → qelm.shouldIgnoreWatcher)
    : (q.setElement i qelm).Ignores id := by
  rcases h with ⟨old, hold, hignore⟩
  by_cases heq : id = i
  . subst heq
    exact ⟨qelm, by simp [Consumer.setElement], hqelm old hold hignore⟩
  . exact ⟨old, by simp [Consumer.setElement, heq, hold], hignore⟩

theorem Tidy.setElement (h : Tidy q) {i : Nat} {qelm : QueueElement}
    (hqelm : ∀ old, q.elements i = some old → old.shouldIgnoreWatcher → qelm.shouldIgnoreWatcher)
    : Tidy (q.setElement i qelm) :=
  h.elements (fun _ hignores => hignores.setElement hqelm) q.fault

theorem count_pop {completion : QueueCompletion} {inbox : List QueueCompletion}
    (hinbox : q.inbox = completion :: inbox) (i : Nat)
    : q.listing.count i = { q with inbox := inbox }.listing.count i
          + completion.lists.toList.count i ∧
        q.replying.count i = { q with inbox := inbox }.replying.count i
          + completion.watched.toList.count i ∧
        q.taking.count i = { q with inbox := inbox }.taking.count i
          + completion.takes.toList.count i ∧
        q.watching.count i = { q with inbox := inbox }.watching.count i
          + completion.childEvent.toList.count i := by
  simp only [Consumer.listing, replying, Consumer.taking, watching, hinbox,
    Client.filterMap_cons_eq, List.count_append]
  refine ⟨?_, ?_, ?_, ?_⟩ <;> omega

theorem Tidy.pop (h : Tidy q) {completion : QueueCompletion} {inbox : List QueueCompletion}
    (hinbox : q.inbox = completion :: inbox)
    : Tidy { q with inbox := inbox } := by
  have hcount := count_pop hinbox
  have hmem : ∀ {l l' : List Nat} {i : Nat}, l'.count i ≤ l.count i → i ∈ l' → i ∈ l := by
    intro l l' i hle hi
    rw [← List.count_pos_iff] at hi ⊢
    omega
  refine ⟨?_, ?_, ?_, ?_, ?_, ?_⟩
  . intro i
    have := hcount i
    have := h.once i
    rw [count_waiting] at this ⊢
    omega
  . intro i
    have := hcount i
    have := h.event i
    omega
  . intro i hlisting hwatching
    have := hcount i
    exact h.listing i (hmem (by omega) hlisting) (hmem (by omega) hwatching)
  . intro i htaking hwatching
    have := hcount i
    exact h.taking i (hmem (by omega) htaking) (hmem (by omega) hwatching)
  . have := h.order
    rw [hinbox] at this
    exact (List.pairwise_cons.mp this).2
  . intro i hdeleted
    apply h.deleted i
    rw [hinbox]
    exact List.mem_cons_of_mem _ hdeleted

theorem Tidy.waiting_pop (h : Tidy q) {completion : QueueCompletion}
    {inbox : List QueueCompletion} (hinbox : q.inbox = completion :: inbox)
    (hid : completion.lists = some id ∨ completion.watched = some id ∨ completion.takes = some id)
    : id ∉ { q with inbox := inbox }.waiting := by
  have hcount := count_pop hinbox id
  have honce := h.once id
  have hone : 1 ≤ completion.lists.toList.count id + completion.watched.toList.count id
      + completion.takes.toList.count id := by
    rcases hid with hid | hid | hid <;> simp [hid] <;> omega
  rw [← List.count_eq_zero]
  rw [count_waiting] at honce ⊢
  omega

theorem Tidy.request (h : Tidy q) {request : QueueRequest}
    (hwaits : ∀ id, request.lists = some id ∨ request.takes = some id → id ∉ q.waiting)
    (hlists : ∀ id, request.lists = some id → id ∉ q.watching)
    (htakes : ∀ id, request.takes = some id → id ∈ q.watching → q.Ignores id)
    : Tidy (q.request request) := by
  have hlisting (i : Nat) : (q.request request).listing.count i =
      q.listing.count i + request.lists.toList.count i := by
    simp only [Consumer.listing, Consumer.request, List.filterMap_append, Client.filterMap_cons_eq,
      List.filterMap_nil, List.append_nil, List.count_append]
    omega
  have htaking (i : Nat) : (q.request request).taking.count i =
      q.taking.count i + request.takes.toList.count i := by
    simp only [Consumer.taking, Consumer.request, List.filterMap_append, Client.filterMap_cons_eq,
      List.filterMap_nil, List.append_nil, List.count_append]
    omega
  have hreplying : (q.request request).replying = q.replying := rfl
  have hmem : ∀ {l l' : List Nat} {o : Option Nat} {i : Nat},
      l'.count i = l.count i + o.toList.count i → i ∈ l' → i ∈ l ∨ o = some i := by
    intro l l' o i hcount hi
    rw [← List.count_pos_iff] at hi
    by_cases hold : i ∈ l
    . exact .inl hold
    . right
      rw [List.count_eq_zero.mpr hold] at hcount
      have : i ∈ o.toList := List.count_pos_iff.mp (by omega)
      simpa using this
  refine ⟨?_, h.event, ?_, ?_, h.order, h.deleted⟩
  . intro i
    have honce := h.once i
    have hlisting := hlisting i
    have htaking := htaking i
    rw [count_waiting] at honce ⊢
    rw [hreplying]
    by_cases hi : request.lists = some i ∨ request.takes = some i
    . have hzero := List.count_eq_zero.mpr (hwaits i hi)
      rw [count_waiting] at hzero
      have : request.lists.toList.count i + request.takes.toList.count i ≤ 1 := by
        cases request <;> simp [QueueRequest.lists, QueueRequest.takes, List.count_singleton] <;>
          split <;> omega
      omega
    . rw [not_or] at hi
      have hnone : ∀ {o : Option Nat}, o ≠ some i → o.toList.count i = 0 := by
        intro o ho
        rw [List.count_eq_zero]
        intro hmem
        exact ho (by simpa using hmem)
      rw [hnone hi.1] at hlisting
      rw [hnone hi.2] at htaking
      omega
  . intro i hi
    cases hmem (hlisting i) hi with
    | inl hold => exact h.listing i hold
    | inr hnew => exact hlists i hnew
  . intro i hi hwatching
    cases hmem (htaking i) hi with
    | inl hold => exact h.taking i hold hwatching
    | inr hnew => exact htakes i hnew hwatching

theorem filterMap_childWatcher (childWatches : List Nat)
    : (childWatches.map QueueCompletion.childWatcher).filterMap QueueCompletion.childEvent =
          childWatches ∧
        (childWatches.map QueueCompletion.childWatcher).filterMap QueueCompletion.lists = [] ∧
        (childWatches.map QueueCompletion.childWatcher).filterMap QueueCompletion.watched = [] ∧
        (childWatches.map QueueCompletion.childWatcher).filterMap QueueCompletion.takes = [] := by
  simp only [List.filterMap_map, List.filterMap_eq_nil_iff]
  refine ⟨?_, fun _ _ => rfl, fun _ _ => rfl, fun _ _ => rfl⟩
  have heq : QueueCompletion.childEvent ∘ QueueCompletion.childWatcher = some := rfl
  rw [heq, List.filterMap_some]

theorem waits_fire (q : Consumer)
    : q.fire.listing = q.listing ∧ q.fire.replying = q.replying ∧ q.fire.taking = q.taking ∧
        ∀ i, q.fire.watching.count i = q.watching.count i := by
  rcases filterMap_childWatcher q.childWatches with ⟨hevent, hlists, hwatched, htakes⟩
  simp only [Consumer.listing, replying, Consumer.taking, watching, fire, List.filterMap_append,
    hevent, hlists, hwatched, htakes, List.append_nil, List.nil_append, true_and]
  intro i
  simp only [List.count_append]
  omega

theorem mem_watching_fire : id ∈ q.fire.watching ↔ id ∈ q.watching := by
  rw [← List.count_pos_iff, ← List.count_pos_iff, (waits_fire q).2.2.2]

theorem Tidy.fire (h : Tidy q) : Tidy q.fire := by
  rcases waits_fire q with ⟨hlisting, hreplying, htaking, hwatching⟩
  refine ⟨?_, ?_, ?_, ?_, ?_, ?_⟩
  . intro i
    have := h.once i
    rw [count_waiting] at this ⊢
    rwa [hlisting, hreplying, htaking]
  . intro i
    rw [hwatching]
    exact h.event i
  . intro i hi
    rw [hlisting] at hi
    rw [mem_watching_fire]
    exact h.listing i hi
  . intro i hi hevent
    rw [htaking] at hi
    exact h.taking i hi (mem_watching_fire.mp hevent)
  . apply List.pairwise_append.mpr
    refine ⟨h.order, ?_, ?_⟩
    . rw [List.pairwise_map]
      exact List.Pairwise.imp (fun _ => trivial) (List.pairwise_of_forall fun _ _ => trivial)
    . intro completion hmem event hevent
      rcases List.mem_map.mp hevent with ⟨i, hi, heq⟩
      subst heq
      -- no deletion that fired the watch is answered
      cases completion with
      | deleteCompleted j ok =>
        cases ok with
        | false => trivial
        | true =>
          intro heq
          subst heq
          exact h.deleted j hmem hi
      | popMinimum j strings watcherSetted => trivial
      | getElement j value => trivial
      | childWatcher j => trivial
  . intro i _
    simp [Consumer.fire]

theorem Tidy.fireIf (h : Tidy q) (connected : Bool) : Tidy (q.fireIf connected) := by
  unfold Consumer.fireIf
  split
  . exact h.fire
  . exact h

theorem mem_of_count_eq {l l' : List Nat} (h : l'.count id = l.count id) : id ∈ l' ↔ id ∈ l := by
  rw [← List.count_pos_iff, ← List.count_pos_iff, h]

theorem Tidy.reply (h : Tidy q) {request : QueueRequest} {requests : List QueueRequest}
    (hrequests : q.requests = request :: requests) {reply : QueueCompletion}
    (hlists : reply.lists = request.lists) (htakes : reply.takes = request.takes)
    (hwatched : reply.watched = none) (hevent : reply.childEvent = none)
    (hdeleted : ∀ id, reply = .deleteCompleted id true → id ∉ q.childWatches)
    : Tidy { q with requests := requests, inbox := q.inbox ++ [reply] } := by
  have hreply : ∀ f : QueueCompletion → Option Nat,
      [reply].filterMap f = (f reply).toList := by
    intro f
    rw [Client.filterMap_cons_eq, List.filterMap_nil, List.append_nil]
  have hlisting (i : Nat) : { q with requests := requests, inbox := q.inbox ++ [reply] }.listing.count
      i = q.listing.count i := by
    simp only [Consumer.listing, hrequests, List.filterMap_append, Client.filterMap_cons_eq, hlists,
      List.filterMap_nil, List.append_nil, List.count_append]
    omega
  have htaking (i : Nat) : { q with requests := requests, inbox := q.inbox ++ [reply] }.taking.count
      i = q.taking.count i := by
    simp only [Consumer.taking, hrequests, List.filterMap_append, Client.filterMap_cons_eq, htakes,
      List.filterMap_nil, List.append_nil, List.count_append]
    omega
  have hreplying : { q with requests := requests, inbox := q.inbox ++ [reply] }.replying =
      q.replying := by
    simp [replying, hreply, hwatched]
  have hwatching : { q with requests := requests, inbox := q.inbox ++ [reply] }.watching =
      q.watching := by
    simp [watching, hreply, hevent]
  refine ⟨?_, ?_, ?_, ?_, ?_, ?_⟩
  . intro i
    have := h.once i
    rw [count_waiting] at this ⊢
    rwa [hlisting, hreplying, htaking]
  . rw [hwatching]
    exact h.event
  . intro i hi
    rw [hwatching]
    exact h.listing i ((mem_of_count_eq (hlisting i)).mp hi)
  . intro i hi
    rw [hwatching]
    exact h.taking i ((mem_of_count_eq (htaking i)).mp hi)
  . apply List.pairwise_append.mpr
    refine ⟨h.order, List.pairwise_singleton _ _, ?_⟩
    intro completion _ reply' hmem
    rw [List.mem_singleton.mp hmem]
    exact QueueCompletion.precedes_of_reply completion hwatched hevent
  . intro i hi
    cases List.mem_append.mp hi with
    | inl hold => exact h.deleted i hold
    | inr hnew => exact hdeleted i (List.mem_singleton.mp hnew).symm

theorem Tidy.watched (h : Tidy q) {requests : List QueueRequest}
    (hrequests : q.requests = .awgetChildren id :: requests) {childWatches : List Nat}
    (hwatches : childWatches = q.childWatches ∨ childWatches = q.childWatches ++ [id])
    (strings : Option (List Nat))
    : Tidy { q with
        childWatches := childWatches
        requests := requests
        inbox := q.inbox ++ [.popMinimum id strings true] } := by
  have hid : id ∈ q.listing := by
    simp [Consumer.listing, hrequests, QueueRequest.lists]
  have hidle := h.listing id hid
  have hnone : q.waiting.count id = 1 ∧ q.listing.count id = 1 := by
    have honce := h.once id
    have hpos := List.count_pos_iff.mpr hid
    rw [count_waiting] at honce ⊢
    omega
  generalize hq' : { q with
        childWatches := childWatches
        requests := requests
        inbox := q.inbox ++ [QueueCompletion.popMinimum id strings true] } = q'
  have hlisting (i : Nat) : q.listing.count i = q'.listing.count i + if id = i then 1 else 0 := by
    rw [← hq']
    simp only [Consumer.listing, hrequests, List.filterMap_append, Client.filterMap_cons_eq,
      QueueRequest.lists, QueueCompletion.lists, Option.toList_some, Option.toList_none,
      List.filterMap_nil, List.append_nil, List.count_append, List.count_singleton, beq_iff_eq]
    omega
  have hreplying (i : Nat) : q'.replying.count i = q.replying.count i + if id = i then 1 else 0 := by
    rw [← hq']
    simp only [replying, List.filterMap_append, Client.filterMap_cons_eq, QueueCompletion.watched,
      Option.toList_some, List.filterMap_nil, List.append_nil, List.count_append,
      List.count_singleton, beq_iff_eq]
  have htaking : q'.taking = q.taking := by
    rw [← hq']
    simp only [Consumer.taking, hrequests, List.filterMap_append, Client.filterMap_cons_eq,
      QueueRequest.takes, QueueCompletion.takes, Option.toList_none, List.filterMap_nil,
      List.nil_append, List.append_nil]
  have hwatching (i : Nat) : q'.watching.count i ≤ q.watching.count i + if id = i then 1 else 0 := by
    rw [← hq']
    have hevent : [QueueCompletion.popMinimum id strings true].filterMap
        QueueCompletion.childEvent = [] := rfl
    rcases hwatches with heq | heq <;>
      simp only [watching, heq, List.filterMap_append, hevent, List.append_nil, List.count_append,
        List.count_singleton, beq_iff_eq] <;>
      omega
  have hmem : ∀ i, i ∈ q'.watching → i ∈ q.watching ∨ i = id := by
    intro i hi
    have := hwatching i
    rw [← List.count_pos_iff] at hi ⊢
    split at this
    . next heq => exact .inr heq.symm
    . left
      omega
  have hlists : ∀ i, i ∈ q'.listing → i ∈ q.listing ∧ i ≠ id := by
    intro i hi
    have hcount := hlisting i
    rw [← List.count_pos_iff] at hi ⊢
    refine ⟨by omega, ?_⟩
    intro heq
    subst heq
    rw [if_pos rfl] at hcount
    omega
  refine ⟨?_, ?_, ?_, ?_, ?_, ?_⟩
  . intro i
    have honce := h.once i
    have hlisting := hlisting i
    have hreplying := hreplying i
    rw [count_waiting] at honce ⊢
    rw [htaking]
    omega
  . intro i
    have := h.event i
    have := hwatching i
    split at this
    . next heq =>
      subst heq
      rw [List.count_eq_zero.mpr hidle] at this
      exact this
    . omega
  . intro i hi hevent
    rcases hlists i hi with ⟨hold, hne⟩
    cases hmem i hevent with
    | inl hevent => exact h.listing i hold hevent
    | inr heq => exact hne heq
  . intro i hi hevent
    rw [htaking] at hi
    cases hmem i hevent with
    | inl hevent =>
      rw [← hq']
      exact h.taking i hi hevent
    | inr heq =>
      subst heq
      have := List.count_pos_iff.mpr hi
      rw [count_waiting] at hnone
      omega
  . rw [← hq']
    apply List.pairwise_append.mpr
    refine ⟨h.order, List.pairwise_singleton _ _, ?_⟩
    intro completion hcompletion reply hreply
    rw [List.mem_singleton.mp hreply]
    cases completion with
    | childWatcher i =>
      intro heq
      subst heq
      exact hidle (mem_watching hcompletion rfl)
    | popMinimum i strings watcherSetted => trivial
    | getElement i value => trivial
    | deleteCompleted i ok => cases ok <;> trivial
  . rw [← hq']
    intro i hi
    have hdeleted : .deleteCompleted i true ∈ q.inbox := by simpa using hi
    have hold := h.deleted i hdeleted
    rcases hwatches with heq | heq
    . rwa [heq]
    . rw [heq, List.mem_append, List.mem_singleton, not_or]
      refine ⟨hold, ?_⟩
      intro heq
      subst heq
      have := List.count_pos_iff.mpr (mem_taking hdeleted rfl)
      rw [count_waiting] at hnone
      omega

theorem Tidy.refuse (h : Tidy q) {request : QueueRequest} {requests : List QueueRequest}
    (hrequests : q.requests = request :: requests)
    : Tidy { q with requests := requests, inbox := q.inbox ++ [request.failed] } := by
  cases request with
  | agetChildren i =>
    apply h.reply hrequests rfl rfl rfl rfl
    intro i heq
    cases heq
  | awgetChildren i => exact h.watched hrequests (.inl rfl) none
  | aget i node =>
    apply h.reply hrequests rfl rfl rfl rfl
    intro i heq
    cases heq
  | adelete i node =>
    apply h.reply hrequests rfl rfl rfl rfl
    intro i heq
    cases heq

theorem Tidy.refuseAll (h : Tidy q)
    : Tidy { q with requests := [], inbox := q.inbox ++ q.requests.map QueueRequest.failed } := by
  generalize hrequests : q.requests = requests
  induction requests generalizing q with
  | nil =>
    simp only [List.map_nil, List.append_nil]
    rw [← hrequests]
    exact h
  | cons request requests ih =>
    have := ih (h.refuse hrequests) rfl
    simpa using this

theorem Tidy.serve (h : Tidy q) {request : QueueRequest} {requests : List QueueRequest}
    (hrequests : q.requests = request :: requests) {queue : List Nat} {effect : QueueEffect}
    {reply : QueueCompletion}
    (hhandle : { q with requests := requests }.handle queue request = (effect, reply))
    : Tidy { effect.consumer with inbox := effect.consumer.inbox ++ [reply] } := by
  cases request with
  | agetChildren i =>
    cases hhandle
    apply h.reply hrequests rfl rfl rfl rfl
    intro i heq
    cases heq
  | awgetChildren i =>
    cases hhandle
    exact h.watched hrequests (.inr rfl) (some queue)
  | aget i node =>
    cases hhandle
    apply h.reply hrequests rfl rfl rfl rfl
    intro i heq
    cases heq
  | adelete i node =>
    simp only [Consumer.handle] at hhandle
    split at hhandle
    . cases hhandle
      exact h.fire.reply hrequests rfl rfl rfl rfl fun i _ => List.not_mem_nil
    . cases hhandle
      apply h.reply hrequests rfl rfl rfl rfl
      intro i heq
      cases heq

theorem Tidy.forget (h : Tidy q) (lost : List QueueRequest) : Tidy { q with lost := lost } :=
  ⟨h.once, h.event, h.listing, h.taking, h.order, h.deleted⟩

theorem bind_failed (completion : QueueCompletion)
    : completion.failed.bind QueueCompletion.lists = completion.lists ∧
        completion.failed.bind QueueCompletion.watched = completion.watched ∧
        completion.failed.bind QueueCompletion.takes = completion.takes := by
  cases completion with
  | popMinimum i strings watcherSetted => cases watcherSetted <;> exact ⟨rfl, rfl, rfl⟩
  | getElement i value => exact ⟨rfl, rfl, rfl⟩
  | deleteCompleted i ok => exact ⟨rfl, rfl, rfl⟩
  | childWatcher i => exact ⟨rfl, rfl, rfl⟩

theorem filterMap_failed (completions : List QueueCompletion)
    : (completions.filterMap QueueCompletion.failed).filterMap QueueCompletion.lists =
          completions.filterMap QueueCompletion.lists ∧
        (completions.filterMap QueueCompletion.failed).filterMap QueueCompletion.watched =
          completions.filterMap QueueCompletion.watched ∧
        (completions.filterMap QueueCompletion.failed).filterMap QueueCompletion.takes =
          completions.filterMap QueueCompletion.takes ∧
        (completions.filterMap QueueCompletion.failed).filterMap QueueCompletion.childEvent = [] := by
  simp only [List.filterMap_filterMap, List.filterMap_eq_nil_iff]
  refine ⟨?_, ?_, ?_, ?_⟩
  . simp only [(bind_failed _).1]
  . simp only [(bind_failed _).2.1]
  . simp only [(bind_failed _).2.2]
  . intro completion _
    cases completion <;> rfl

theorem Tidy.late (h : Tidy q) {front late : List QueueCompletion} (hinbox : q.inbox = front ++ late)
    : Tidy { q with
        childWatches := (q.childWatches ++ late.filterMap QueueCompletion.childEvent).filter
          (· ∉ late.filterMap QueueCompletion.watched)
        inbox := front ++ late.filterMap QueueCompletion.failed } := by
  rcases filterMap_failed late with ⟨hlists, hwatched, htakes, hevent⟩
  have hcross := (List.pairwise_append.mp (hinbox ▸ h.order)).2.2
  generalize hq' : { q with
        childWatches := (q.childWatches ++ late.filterMap QueueCompletion.childEvent).filter
          (· ∉ late.filterMap QueueCompletion.watched)
        inbox := front ++ late.filterMap QueueCompletion.failed } = q'
  have hlisting : q'.listing = q.listing := by
    simp only [← hq', Consumer.listing, hinbox, List.filterMap_append, hlists]
  have hreplying : q'.replying = q.replying := by
    simp only [← hq', replying, hinbox, List.filterMap_append, hwatched]
  have htaking : q'.taking = q.taking := by
    simp only [← hq', Consumer.taking, hinbox, List.filterMap_append, htakes]
  have hwatching (i : Nat) : q'.watching.count i ≤ q.watching.count i := by
    have hfilter := (List.filter_sublist (l := q.childWatches ++
      late.filterMap QueueCompletion.childEvent)
      (p := (· ∉ late.filterMap QueueCompletion.watched))).count_le i
    simp only [← hq', watching, hinbox, List.filterMap_append, hevent, List.append_nil,
      List.count_append] at hfilter ⊢
    omega
  refine ⟨?_, ?_, ?_, ?_, ?_, ?_⟩
  . intro i
    rw [count_waiting, hlisting, hreplying, htaking, ← count_waiting]
    exact h.once i
  . exact fun i => Nat.le_trans (hwatching i) (h.event i)
  . intro i hi hmem
    rw [hlisting] at hi
    exact h.listing i hi (Client.mem_of_count_le hwatching hmem)
  . intro i hi hmem
    rw [htaking] at hi
    rw [← hq']
    exact h.taking i hi (Client.mem_of_count_le hwatching hmem)
  . rw [← hq']
    apply List.pairwise_append.mpr
    refine ⟨(List.pairwise_append.mp (hinbox ▸ h.order)).1, ?_, ?_⟩
    . rw [List.pairwise_filterMap]
      apply List.pairwise_of_forall
      intro completion _ failed hfailed failed' _
      cases completion <;> cases hfailed <;> trivial
    . intro completion hmem failed hfailed
      rcases List.mem_filterMap.mp hfailed with ⟨reply, hreply, heq⟩
      have := hcross completion hmem reply hreply
      cases reply with
      | popMinimum i strings watcherSetted =>
        cases heq
        cases watcherSetted with
        | false => exact QueueCompletion.precedes_of_reply completion rfl rfl
        | true =>
          cases completion with
          | childWatcher j => exact this
          | deleteCompleted j ok => cases ok <;> trivial
          | popMinimum j strings watcherSetted => trivial
          | getElement j value => trivial
      | getElement i value =>
        cases heq
        exact QueueCompletion.precedes_of_reply completion rfl rfl
      | deleteCompleted i ok =>
        cases heq
        exact QueueCompletion.precedes_of_reply completion rfl rfl
      | childWatcher i => cases heq
  . rw [← hq']
    intro i hi hmem
    have hdeleted : .deleteCompleted i true ∈ front := by
      cases List.mem_append.mp hi with
      | inl hfront => exact hfront
      | inr hfailed =>
        rcases List.mem_filterMap.mp hfailed with ⟨reply, _, heq⟩
        cases reply <;> cases heq
    cases List.mem_append.mp (List.mem_of_mem_filter hmem) with
    | inl hold => exact h.deleted i (by simp [hinbox, hdeleted]) hold
    | inr hlate =>
      rcases List.mem_filterMap.mp hlate with ⟨event, hevent, heq⟩
      cases event with
      | childWatcher j =>
        cases heq
        exact hcross _ hdeleted _ hevent rfl
      | popMinimum j strings watcherSetted => cases heq
      | getElement j value => cases heq
      | deleteCompleted j ok => cases heq

theorem Tidy.disconnect (h : Tidy q) (live : Bool) (received : Nat)
    : Tidy (q.disconnect live received) := by
  have hlate := h.late (List.take_append_drop received q.inbox).symm
  have := (hlate.refuseAll).forget (if live then q.lost ++ q.requests else [])
  simpa [Consumer.disconnect] using this

theorem Tidy.resetZkContext (h : Tidy q) : Tidy q.resetZkContext := by
  have hall := h.refuseAll
  refine ⟨hall.once, ?_, ?_, ?_, hall.order, fun i _ => List.not_mem_nil⟩
  . intro i
    have := hall.event i
    simp only [watching, Consumer.resetZkContext, List.nil_append, List.count_append] at this ⊢
    omega
  . intro i hi hmem
    exact hall.listing i hi (List.mem_append_right _ hmem)
  . intro i hi hmem
    exact hall.taking i hi (List.mem_append_right _ hmem)

end

end Consumer

end Zk

end RbMonitor
