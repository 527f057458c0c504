import RbMonitor.Zk.Queue.Run

/-!
This module contains which objects the callbacks of a client reach: over the runs that disturb no pop
while something carries it, none that is released.
-/

namespace RbMonitor

namespace Zk

open Client Consumer

def QueueCompletion.qelm : QueueCompletion → Nat
  | .popMinimum qelm _ _ | .getElement qelm _ | .deleteCompleted qelm _ | .childWatcher qelm => qelm

/-- The mutexes that the library of the client holds for its callbacks. -/
def Client.registered (c : Client) : List Nat :=
  c.requests.map Request.mutex ++ c.inbox.filterMap Completion.mutex ++ c.watches.map Watch.mutex

/-- The queue elements that it holds. -/
def Consumer.registered (q : Consumer) : List Nat :=
  q.requests.map QueueRequest.qelm ++ q.inbox.map QueueCompletion.qelm ++ q.childWatches

/-- No callback reached a released object, and none that may still come carries one. -/
structure Safe (c : Client) (q : Consumer) : Prop where
  mutexFault : c.fault = false
  elementFault : q.fault = false
  mutexes : ∀ id ∈ c.registered, c.Tracks id
  elements : ∀ id ∈ q.registered, q.Live id
  -- a mutex that has not obtained its lock calls back with its element
  ready : ∀ id, id ∈ c.pendingLeaders.map Mutex.id ∨ (id, false) ∈ c.marks →
    q.elements id = none ∨ q.Live id

def CallbacksLive (s : QueueState) : Prop :=
  ∀ (i : Nat) (c : Client), s.lock.clients[i]? = some c → Safe c (s.consumers i)

/-- No pop goes on, and nothing comes back to a mutex. -/
def Client.atRest (c : Client) (q : Consumer) : Bool :=
  c.watches = [] && c.carried = [] && c.leadersNodesList.all fun mutex =>
    match q.elements mutex.id with
    | none => true
    | some qelm => qelm.refcnt ≠ 0 && mutex.id ∉ q.waiting && mutex.id ∉ q.watching

/-- The connection, or the session, is lost at rest, and the node to wait for is not deleted before
the client waits for it. -/
def Completion.safe (directory : List Nat) (c : Client) (q : Consumer) : Completion → Bool
  | .leaderGetChildrenComplete id (some strings) =>
    c.state ≠ .connected ||
      (((c.mutex? id).bind Mutex.path).bind (leaderPreviousString strings)).all (· ∈ directory)
  | .sessionEvent .connected => true
  | .sessionEvent _ => c.atRest q
  | _ => true

/-- The pop does not fail while an event may still reach it. -/
def QueueCompletion.safe (called : Bool) (q : Consumer) : QueueCompletion → Bool
  | .popMinimum id none _ | .getElement id none | .deleteCompleted id false => id ∉ q.watching
  | .popMinimum id (some strings) _ => called || (minStr strings).isNone || id ∉ q.watching
  | _ => true

def QueueAction.safe (directory : List Nat) (c : Client) (q : Consumer) : QueueAction → Bool
  | .complete _ => c.inbox.head?.all (Completion.safe directory c q)
  | .completeQueue called => q.inbox.head?.all (QueueCompletion.safe called q)
  | _ => true

def ConsumerAction.safe (s : QueueState) (a : ConsumerAction) : Bool :=
  s.lock.clients[a.client]?.all fun c =>
    a.action.safe s.lock.directory c (s.consumers a.client)

namespace Client

/-- Every watch waits for an event, and no released mutex was used. -/
structure Whole (c : Client) : Prop where
  found : ∀ watch ∈ c.watches, watch.found
  fault : c.fault = false

section

variable {c c' : Client} {id : Nat} {directory : List Nat} {nextSeq : Nat}

theorem Whole.quiet (h : Whole c) (hwatches : ∀ watch ∈ c'.watches, watch ∈ c.watches ∨ watch.found)
    (hfault : c'.fault = c.fault)
    : Whole c' where
  found watch hmem := by
    cases hwatches watch hmem with
    | inl hold => exact h.found watch hold
    | inr hfound => exact hfound
  fault := hfault.trans h.fault

theorem Whole.same (h : Whole c) (hwatches : c'.watches = c.watches) (hfault : c'.fault = c.fault)
    : Whole c' :=
  h.quiet (fun _ hmem => .inl (hwatches ▸ hmem)) hfault

theorem Whole.fire (h : Whole c) (reports : Watch → Bool) : Whole (c.fire reports) := by
  refine h.quiet ?_ rfl
  intro watch hmem
  exact .inl (List.mem_filter.mp hmem).1

theorem Whole.delete (h : Whole c) (gone : List Nat) : Whole (c.delete gone) := by
  have hnodes : Whole { c with nodes := c.nodes.filter fun node => node.seq ∉ gone } :=
    h.same rfl rfl
  simp only [Client.delete]
  split
  . exact hnodes.fire _
  . exact hnodes

theorem Whole.rbZkMutexDone (h : Whole c) (htracks : c.Tracks id) : Whole (c.rbZkMutexDone id) := by
  rcases mutex?_of_tracks htracks with ⟨mutex, hmutex⟩
  unfold Client.rbZkMutexDone
  rw [hmutex]
  exact h.same rfl rfl

theorem Whole.tracks_watch (h : Whole c) (hattended : c.Attended) {watch : Watch}
    (hmem : watch ∈ c.watches)
    : c.Tracks watch.mutex := by
  apply hattended.tracked
  apply List.mem_append_right
  exact List.mem_map_of_mem (List.mem_filter.mpr ⟨hmem, h.found watch hmem⟩)

theorem Whole.tracks_registered (h : Whole c) (hattended : c.Attended) (hid : id ∈ c.registered)
    : c.Tracks id := by
  rcases List.mem_append.mp hid with hid | hid
  . exact hattended.tracked id (List.mem_append_left _ hid)
  . rcases List.mem_map.mp hid with ⟨watch, hmem, heq⟩
    subst heq
    exact h.tracks_watch hattended hmem

theorem Whole.complete (h : Whole c) (hattended : c.Attended) {completion : Completion}
    {inbox : List Completion} (hinbox : c.inbox = completion :: inbox) {q : Consumer}
    (hgood : completion.safe directory c q)
    (hstep : { c with inbox := inbox }.complete directory completion = some c')
    : Whole c' := by
  have hpop : Whole { c with inbox := inbox } := h.same rfl rfl
  have htracks : ∀ id, completion.mutex = some id → c.Tracks id :=
    fun id hid => hattended.tracked id (mem_carried_head hinbox hid)
  cases completion with
  | createMutexNodeComplete id leaderNode =>
    cases hstep
    rcases mutex?_of_tracks (htracks id rfl) with ⟨mutex, hmutex⟩
    have hmutex' : { c with inbox := inbox }.mutex? id = some mutex := hmutex
    unfold Client.createMutexNodeComplete
    cases leaderNode with
    | none => exact hpop.rbZkMutexDone (htracks id rfl)
    | some node =>
      simp only [hmutex']
      have hset : Whole ({ c with inbox := inbox }.setMutex { mutex with path := some node }) :=
        hpop.same rfl rfl
      split
      . apply hset.rbZkMutexDone
        rw [tracks_iff, marks_setMutex]
        exact ⟨mutex.iAmLeader, List.mem_map.mpr ⟨_, mem_marks hmutex', by
          simp [(mem_of_mutex? hmutex).2]⟩⟩
      . exact hset.same rfl rfl
  | leaderGetChildrenComplete id strings =>
    rcases mutex?_of_tracks (htracks id rfl) with ⟨mutex, hmutex⟩
    have hmutex' : { c with inbox := inbox }.mutex? id = some mutex := hmutex
    simp only [Client.complete, Client.leaderGetChildrenComplete, hmutex'] at hstep
    split at hstep
    . cases hstep
      exact hpop
    . next strings =>
      split at hstep
      . cases hstep
        exact hpop.same rfl rfl
      . next befStr hbef =>
        split at hstep
        . cases hstep
          exact hpop.rbZkMutexDone (htracks id rfl)
        . cases hstep
          exact hpop.rbZkMutexDone (htracks id rfl)
        . next hstate =>
          have hfound : befStr ∈ directory := by
            have hstate : c.state = .connected := hstate
            simpa [Completion.safe, hstate, hmutex, hbef] using hgood
          simp only [ne_eq, ite_not, Option.ite_none_right_eq_some, Option.some.injEq] at hstep
          rcases hstep with ⟨_, hstep⟩
          simp only [hfound, decide_true, ↓reduceIte] at hstep
          subst hstep
          refine hpop.quiet ?_ rfl
          intro watch hmem
          rcases List.mem_append.mp hmem with hold | hnew
          . exact .inl hold
          . right
            rw [List.mem_singleton.mp hnew]
  | deleteMutexCompleted id =>
    cases hstep
    exact hpop.rbZkMutexDone (htracks id rfl)
  | previousLeaderWatcher id node =>
    cases hstep
    rcases mutex?_of_tracks (htracks id rfl) with ⟨mutex, hmutex⟩
    have hmutex' : { c with inbox := inbox }.mutex? id = some mutex := hmutex
    simp only [Client.previousLeaderWatcher, hmutex']
    split
    . exact hpop
    . exact hpop.same rfl rfl
  | sessionEvent state =>
    cases hstep
    unfold Client.zkWatcher
    split
    . next hany =>
      rcases List.any_eq_true.mp hany with ⟨watch, hmem, hnone⟩
      rcases mutex?_of_tracks (h.tracks_watch hattended hmem) with ⟨mutex, hmutex⟩
      have hmutex' : { c with inbox := inbox }.mutex? watch.mutex = some mutex := hmutex
      rw [hmutex'] at hnone
      cases hnone
    . cases state <;> exact hpop.same rfl rfl

theorem Whole.act (h : Whole c) (hattended : c.Attended) {a : ClientAction} {q : Consumer}
    (hgood : a = .complete → c.inbox.head?.all (Completion.safe directory c q)) {effect : Effect}
    (hstep : c.act directory nextSeq a = some effect)
    : Whole effect.client := by
  cases taken_of_act hstep with
  | rbZkMutexLock _ => exact h.same rfl rfl
  | rbZkMutexUnlock _ hunlock =>
    cases unlocks_of_rbZkMutexUnlock hunlock with
    | deletes _ _ _ => exact h.same rfl rfl
    | frees hmutex _ _ => exact h.rbZkMutexDone (tracks_iff.mpr ⟨_, mem_marks hmutex⟩)
  | @doPendingLocks calls _ _ =>
    have htail : Whole { c with calls := calls } := h.same rfl rfl
    unfold Client.zkWatcherDoPendingLocks
    split
    . exact htail
    . exact htail.same rfl rfl
  | resetZkContext _ _ => exact h.quiet (fun _ hmem => absurd hmem List.not_mem_nil) rfl
  | complete _ hinbox hcomplete =>
    apply h.complete hattended hinbox _ hcomplete
    . exact q
    . simpa [hinbox] using hgood rfl
  | @serve request requests effect reply _ _ _ hhandle =>
    have hclient : Whole effect.client := by
      cases request <;> cases hhandle <;> exact h.same rfl rfl
    exact (hclient.delete _).same rfl rfl
  | refuse _ _ _ _ => exact h.same rfl rfl
  | @serveLost request lost _ => cases request <;> exact h.same rfl rfl
  | dropLost => exact h.same rfl rfl
  | disconnect hdisconnect =>
    simp only [Client.disconnect, Option.ite_none_left_eq_some, Option.some.injEq] at hdisconnect
    rcases hdisconnect with ⟨_, hdisconnect⟩
    subst hdisconnect
    refine h.quiet ?_ rfl
    intro watch hmem
    rcases List.mem_append.mp hmem with hold | hnew
    . exact .inl hold
    -- the event came from a node that was there
    . rcases List.mem_filterMap.mp hnew with ⟨completion, _, hwatch⟩
      cases completion <;> cases hwatch
      exact .inr rfl
  | reconnect hreconnect =>
    cases reconnects_of_reconnect hreconnect with
    | connected _ _ =>
      have hevent : Whole { c with
          state := .connected
          inbox := c.inbox ++ [Completion.sessionEvent .connected] } := h.same rfl rfl
      exact hevent.fire _
    | expired _ _ => exact h.same rfl rfl
  | expire _ => exact h.same rfl rfl

theorem whole_start : Whole .start := by
  constructor <;> simp [start]

end

end Client

namespace Consumer

/-- Every event comes back to a live element, and no released one was used. -/
structure Alive (q : Consumer) : Prop where
  watching : ∀ id ∈ q.watching, q.Live id
  fault : q.fault = false

section

variable {q q' : Consumer} {id : Nat}

theorem Live.elements (h : q.Live id) (helements : q'.elements id = q.elements id)
    : q'.Live id := by
  rcases h with ⟨qelm, hqelm, hrefcnt⟩
  exact ⟨qelm, helements.trans hqelm, hrefcnt⟩

theorem Alive.fewer (h : Alive q) (hwaiting : ∀ id ∈ q.waiting, q.Live id) (hfewer : Fewer q q')
    (hfault : q'.fault = q.fault)
    : Alive q' where
  watching id hmem := by
    have hlive : q.Live id := by
      cases hfewer.watching id hmem with
      | inl hwatching => exact h.watching id hwatching
      | inr hmem => exact hwaiting id hmem
    exact hlive.elements (congrFun hfewer.elements id)
  fault := hfault.trans h.fault

theorem Alive.pop (h : Alive q) {completion : QueueCompletion} {inbox : List QueueCompletion}
    (hinbox : q.inbox = completion :: inbox)
    : Alive { q with inbox := inbox } where
  watching id hmem := h.watching id (watching_pop hinbox hmem)
  fault := h.fault

theorem Alive.request (h : Alive q) (request : QueueRequest) : Alive (q.request request) where
  watching := h.watching
  fault := h.fault

theorem Alive.setElement (h : Alive q) {qelm : QueueElement}
    (hqelm : id ∈ q.watching → qelm.refcnt ≠ 0)
    : Alive (q.setElement id qelm) where
  watching i hmem := by
    by_cases heq : i = id
    . subst heq
      exact ⟨qelm, Function.update_self .., hqelm hmem⟩
    . exact (h.watching i hmem).elements (Function.update_of_ne heq ..)
  fault := h.fault

theorem Alive.use (h : q.Live id) {f : QueueElement → Turn}
    (hf : ∀ qelm, q.elements id = some qelm → qelm.refcnt ≠ 0 → Alive (f qelm).consumer)
    : Alive (q.use id f).consumer := by
  rcases h with ⟨qelm, hqelm, hrefcnt⟩
  rw [use_eq hqelm hrefcnt]
  exact hf qelm hqelm hrefcnt

theorem Alive.rbZkQueueElementDecref (h : Alive q) (hlive : q.Live id) (hwatching : id ∉ q.watching)
    : Alive (q.rbZkQueueElementDecref id).consumer := by
  apply Alive.use hlive
  intro qelm hqelm hrefcnt
  exact h.setElement fun hmem => absurd hmem hwatching

theorem Alive.errorDone (h : Alive q) (hlive : q.Live id) (hwatching : id ∉ q.watching)
    : Alive (q.errorDone id).consumer :=
  h.rbZkQueueElementDecref hlive hwatching

theorem Alive.rbZkQueuePopNolock (h : Alive q) (hlive : q.Live id) {called : Bool}
    (hwatching : called = false → id ∉ q.watching)
    : Alive (q.rbZkQueuePopNolock called id).consumer := by
  apply Alive.use hlive
  intro qelm hqelm hrefcnt
  cases called with
  | true => exact h.request _
  | false => exact h.errorDone hlive (hwatching rfl)

theorem Alive.popMinimum (h : Alive q) (hlive : q.Live id) {called watcherSetted : Bool}
    {strings : Option (List Nat)}
    (hwatching : (QueueCompletion.popMinimum id strings watcherSetted).safe called q)
    : Alive (q.rbZkQueuePopMinimum0 called id strings watcherSetted).consumer := by
  apply Alive.use hlive
  intro qelm hqelm hrefcnt
  cases strings with
  | none =>
    apply h.errorDone hlive
    simpa [QueueCompletion.safe] using hwatching
  | some strings =>
    simp only
    split
    . next node hmin =>
      have hset : Alive (q.setElement id { qelm with
          queueElementPath := some node
          shouldIgnoreWatcher := qelm.shouldIgnoreWatcher || watcherSetted }) :=
        h.setElement fun _ => hrefcnt
      split
      . exact hset.request _
      . next hcalled =>
        apply hset.errorDone
        . exact ⟨_, Function.update_self .., hrefcnt⟩
        . have hnot : id ∉ q.watching := by
            simpa [QueueCompletion.safe, hmin, hcalled] using hwatching
          exact hnot
    . split
      . exact h
      . split
        . exact h.request _
        . exact h

theorem Alive.getElement (h : Alive q) (hlive : q.Live id) {called : Bool} {value : Option Nat}
    (hwatching : (QueueCompletion.getElement id value).safe called q)
    : Alive (q.rbZkQueueGetElement called id value).consumer := by
  apply Alive.use hlive
  intro qelm hqelm hrefcnt
  cases value with
  | none =>
    apply h.errorDone hlive
    simpa [QueueCompletion.safe] using hwatching
  | some node =>
    simp only
    split
    . split
      . exact h.request _
      . exact h
    . exact h

theorem Alive.childWatcher (h : Alive q) (hlive : q.Live id) (hwatching : id ∉ q.watching)
    (called : Bool)
    : Alive (q.rbZkQueueChildWatcher called id).consumer := by
  apply Alive.use hlive
  intro qelm hqelm hrefcnt
  split
  . exact h
  . exact h.rbZkQueuePopNolock hlive fun _ => hwatching

theorem Tidy.not_watching_deleted (h : Tidy q) {inbox : List QueueCompletion}
    (hinbox : q.inbox = .deleteCompleted id true :: inbox)
    : id ∉ q.watching := by
  intro hmem
  rcases mem_watching_iff.mp hmem with hmem | hmem
  . apply h.deleted id _ hmem
    rw [hinbox]
    exact List.mem_cons_self
  . have horder := h.order
    rw [hinbox] at horder hmem
    rcases List.mem_cons.mp hmem with heq | hmem
    . cases heq
    . exact absurd rfl ((List.pairwise_cons.mp horder).1 _ hmem)

theorem Alive.complete (h : Alive q) (htidy : q.Tidy) (hwaiting : ∀ id ∈ q.waiting, q.Live id)
    {completion : QueueCompletion} {inbox : List QueueCompletion}
    (hinbox : q.inbox = completion :: inbox) {called : Bool} (hgood : completion.safe called q)
    : Alive ({ q with inbox := inbox }.complete called completion).consumer := by
  have hpop := h.pop hinbox
  have hlive : ∀ id, completion.reply = some id → { q with inbox := inbox }.Live id :=
    fun id hid => (hwaiting id (mem_waiting_head hinbox hid)).elements rfl
  have hevent : ∀ id, id ∈ { q with inbox := inbox }.watching → id ∈ q.watching :=
    fun id hmem => watching_pop hinbox hmem
  cases completion with
  | popMinimum id strings watcherSetted =>
    apply hpop.popMinimum (hlive id rfl)
    cases strings with
    | none =>
      simp only [QueueCompletion.safe, decide_eq_true_eq] at hgood ⊢
      exact fun hmem => hgood (hevent id hmem)
    | some strings =>
      simp only [QueueCompletion.safe, Bool.or_eq_true, decide_eq_true_eq] at hgood ⊢
      exact hgood.imp_right fun hnot hmem => hnot (hevent id hmem)
  | getElement id value =>
    apply hpop.getElement (hlive id rfl)
    cases value with
    | none =>
      simp only [QueueCompletion.safe, decide_eq_true_eq] at hgood ⊢
      exact fun hmem => hgood (hevent id hmem)
    | some node => rfl
  | deleteCompleted id ok =>
    apply Alive.use (hlive id rfl)
    intro qelm hqelm hrefcnt
    apply hpop.rbZkQueueElementDecref (hlive id rfl)
    intro hmem
    cases ok with
    | true => exact htidy.not_watching_deleted hinbox (hevent id hmem)
    | false =>
      simp only [QueueCompletion.safe, decide_eq_true_eq] at hgood
      exact hgood (hevent id hmem)
  | childWatcher id =>
    have hmem : id ∈ q.watching := by
      rw [mem_watching_iff, hinbox]
      exact .inr List.mem_cons_self
    exact hpop.childWatcher ((h.watching id hmem).elements rfl) (htidy.not_watching_event hinbox)
      called

theorem Alive.errorCb (h : Alive q)
    (hid : q.elements id = none ∨ q.Live id ∧ id ∉ q.watching) (called : Bool)
    : Alive (q.mutexCallback called (.errorCb id)).consumer := by
  simp only [mutexCallback, rbZkQueueMutexErrorCb]
  split
  . next hsome =>
    rcases hid with hnone | ⟨hlive, hwatching⟩
    . rw [hnone] at hsome
      cases hsome
    . apply Alive.use hlive
      intro qelm hqelm hrefcnt
      exact h.errorDone hlive hwatching
  . exact h

theorem Alive.schangeCb (h : Alive q)
    (hid : q.elements id = none ∨ q.Live id ∧ id ∉ q.watching) (called : Bool)
    : Alive (q.mutexCallback called (.schangeCb id true)).consumer := by
  simp only [mutexCallback, rbZkQueueMutexStatusChange, ↓reduceIte]
  split
  . next hsome =>
    rcases hid with hnone | ⟨hlive, hwatching⟩
    . rw [hnone] at hsome
      cases hsome
    . apply Alive.use hlive
      intro qelm hqelm hrefcnt
      exact h.rbZkQueuePopNolock hlive fun _ => hwatching
  . exact h

theorem Alive.cleaned (h : Alive q) {mutexes : List Mutex} (hnodup : (mutexes.map Mutex.id).Nodup)
    (hrest : ∀ mutex ∈ mutexes,
      q.elements mutex.id = none ∨ q.Live mutex.id ∧ mutex.id ∉ q.watching)
    (called : Bool)
    : Alive (q.mutexCallbacks called
        (mutexes.flatMap fun mutex => [.schangeCb mutex.id false, .errorCb mutex.id])).consumer := by
  induction mutexes generalizing q with
  | nil => exact h
  | cons mutex mutexes ih =>
    have hmutex := hrest mutex List.mem_cons_self
    have hchange : (q.mutexCallback called (.schangeCb mutex.id false)).consumer = q := by
      simp only [mutexCallback, rbZkQueueMutexStatusChange]
      split
      . next hsome =>
        rcases hmutex with hnone | ⟨⟨qelm, hqelm, hrefcnt⟩, _⟩
        . rw [hnone] at hsome
          cases hsome
        . rw [use_eq hqelm hrefcnt]
          rfl
      . rfl
    have hends := ends_errorCb q called mutex.id
    have hwatching : (q.mutexCallback called (.errorCb mutex.id)).consumer.watching =
        q.watching := by
      simp only [Consumer.watching, hends.inbox, hends.childWatches]
    simp only [List.flatMap_cons, List.cons_append, List.nil_append, mutexCallbacks, hchange]
    rw [List.map_cons, List.nodup_cons] at hnodup
    apply ih (h.errorCb hmutex called) hnodup.2
    intro other hother
    have hsame : (q.mutexCallback called (.errorCb mutex.id)).consumer.elements other.id =
        q.elements other.id := by
      apply hends.others
      intro heq
      exact hnodup.1 (List.mem_singleton.mp heq ▸ List.mem_map_of_mem hother)
    rcases hrest other (List.mem_cons_of_mem _ hother) with hnone | ⟨hlive, hnot⟩
    . exact .inl (hsame.trans hnone)
    . exact .inr ⟨hlive.elements hsame, hwatching ▸ hnot⟩

end

end Consumer

/-- What holds for a client that was not disturbed. -/
structure Sound (c : Client) (q : Consumer) : Prop where
  coupled : Coupled c q
  whole : c.Whole
  alive : q.Alive

section

variable {c c' : Client} {q : Consumer} {directory queue : List Nat} {nextSeq nextElement : Nat}

theorem Sound.safe (h : Sound c q) : Safe c q := by
  refine ⟨h.whole.fault, h.alive.fault, ?_, ?_, h.coupled.ready⟩
  . exact fun id hid => h.whole.tracks_registered h.coupled.attended hid
  . intro id hid
    have hwaiting : ∀ id, Stage (fun request => some request.qelm) QueueCompletion.reply q id →
        q.Live id :=
      fun id hstage => (h.coupled.held id (mem_waiting_iff.mpr hstage)).1
    simp only [Consumer.registered, List.mem_append, List.mem_map] at hid
    rcases hid with (⟨request, hmem, heq⟩ | ⟨completion, hmem, heq⟩) | hmem
    . exact hwaiting id (.inl ⟨request, hmem, congrArg some heq⟩)
    . cases completion with
      | childWatcher qelm =>
        apply h.alive.watching
        rw [mem_watching_iff, ← heq]
        exact .inr hmem
      | popMinimum _ _ _ | getElement _ _ | deleteCompleted _ _ =>
        exact hwaiting id (.inr ⟨_, hmem, congrArg some heq⟩)
    . exact h.alive.watching id (mem_watching_iff.mpr (.inl hmem))

theorem atRest_of_atRest (hrest : c.atRest q) : AtRest c q := by
  simp only [Client.atRest, Bool.and_eq_true, decide_eq_true_eq, List.all_eq_true] at hrest
  refine ⟨hrest.1.1, hrest.1.2, ?_⟩
  intro id htracks
  rcases htracks with ⟨mutex, hmem, heq⟩
  subst heq
  have hmutex := hrest.2 mutex hmem
  cases hqelm : q.elements mutex.id with
  | none => exact .inl rfl
  | some qelm =>
    simp only [hqelm, ne_eq, Bool.and_eq_true, decide_eq_true_eq] at hmutex
    exact .inr ⟨⟨qelm, hqelm, by simpa using hmutex.1.1⟩, hmutex.1.2, hmutex.2⟩

theorem Coupled.not_watching (h : Coupled c q) (hplaced : c.Placed directory nextSeq) {id : Nat}
    (hmark : (id, false) ∈ c.marks)
    : q.elements id = none ∨ q.Live id ∧ id ∉ q.watching := by
  rcases h.ready id (.inr hmark) with hnone | hlive
  . exact .inl hnone
  . refine .inr ⟨hlive, ?_⟩
    intro hmem
    have hheld := h.watching id hmem hlive
    cases hplaced.eq_of_mem_marks hmark hheld.leads

theorem Sound.complete (h : Sound c q) (hplaced : c.Placed directory nextSeq)
    {completion : Completion} {inbox : List Completion} (hinbox : c.inbox = completion :: inbox)
    (hgood : completion.safe directory c q)
    (hstep : { c with inbox := inbox }.complete directory completion = some c') (called : Bool)
    : (q.mutexCallbacks called (c.callbacks directory completion)).consumer.Alive := by
  cases completes_of_complete hplaced h.coupled.attended hinbox hstep with
  | steady hcallbacks _ =>
    rw [hcallbacks]
    exact h.alive
  | deleted _ => exact h.alive
  | failed hcallbacks _ hmark _ =>
    rw [hcallbacks]
    exact h.alive.errorCb (h.coupled.not_watching hplaced hmark) called
  | obtained hcallbacks _ hmark _ =>
    rw [hcallbacks]
    exact h.alive.schangeCb (h.coupled.not_watching hplaced hmark) called
  | @session state hstate =>
    have hrest : c.atRest q := by
      cases state with
      | connected => exact absurd rfl hstate
      | connecting | expiredSession => exact hgood
    have hcallbacks : c.callbacks directory (.sessionEvent state) =
        c.leadersNodesList.flatMap fun mutex =>
          [.schangeCb mutex.id false, .errorCb mutex.id] := by
      cases state with
      | connected => exact absurd rfl hstate
      | connecting | expiredSession => rfl
    rw [hcallbacks]
    apply h.alive.cleaned
    . rw [List.nodup_iff_count_le_one]
      intro id
      have := hplaced.nodup id
      simp only [Client.mutexes, List.map_append, List.count_append] at this
      omega
    . intro mutex hmem
      rcases (atRest_of_atRest hrest).pops mutex.id ⟨mutex, hmem, rfl⟩ with hnone | hrests
      . exact .inl hnone
      . exact .inr ⟨hrests.1, hrests.2.2⟩

theorem Sound.act (h : Sound c q) (hplaced : c.Placed directory nextSeq) {a : QueueAction}
    (hgood : a.safe directory c q) {effect : QueueEffect}
    (hstep : q.act directory queue nextElement c a = some effect)
    (hlock : LockStep directory nextSeq c effect.lock c')
    : Sound c' effect.consumer := by
  refine ⟨?_, ?_, ?_⟩
  . apply h.coupled.act hplaced hstep _ hlock
    intro called completion inbox ha hinbox hcleans
    subst ha
    have hsafe : completion.safe directory c q := by
      simpa [QueueAction.safe, hinbox] using hgood
    cases completion with
    | sessionEvent state =>
      cases state with
      | connected => cases hcleans
      | connecting | expiredSession => exact atRest_of_atRest hsafe
    | createMutexNodeComplete _ _ | leaderGetChildrenComplete _ _ | deleteMutexCompleted _
    | previousLeaderWatcher _ _ => cases hcleans
  . cases heq : effect.lock with
    | none =>
      rw [heq] at hlock
      cases hlock
      exact h.whole
    | some action =>
      rw [heq] at hlock
      rcases hlock with ⟨lockEffect, hact, heq'⟩
      subst heq'
      apply h.whole.act h.coupled.attended _ hact
      . exact q
      . intro hcomplete
        subst hcomplete
        rcases lock_act hstep with hsame | ⟨_, _, _, hsame⟩
        . rw [heq] at hsame
          cases a with
          | complete called => exact hgood
          | _ => cases hsame
        . rw [heq] at hsame
          cases hsame
  . cases hquiet : a.quiet with
    | true =>
      have hrests := (rests_act hquiet hstep).1
      exact h.alive.fewer (fun id hmem => (h.coupled.held id hmem).1) hrests.fewer hrests.fault
    | false =>
      cases Consumer.taken_of_act hstep with
      | rbZkQueuePop => exact h.alive.setElement fun _ => Nat.one_ne_zero
      | complete hinbox =>
        apply h.complete hplaced hinbox _ (complete_of_lockStep hinbox hlock)
        simpa [QueueAction.safe, hinbox] using hgood
      | completeQueue hinbox _ | rbZkMutexUnlock hinbox _ _ =>
        apply h.alive.complete h.coupled.tidy _ hinbox
        . simpa [QueueAction.safe, hinbox] using hgood
        . exact fun id hmem => (h.coupled.held id hmem).1
      | unlockFault hinbox hunlock hunlocks =>
        exact absurd (h.coupled.deleteCompleted_of_unlock hplaced hinbox hunlock).2 hunlocks
      | rbZkMutexLock | call | serve | refuse | serveLost | dropLost | disconnect | reconnect
      | expire | rbZkQueuePush | serveQueue _ _ | refuseQueue _ | deletesLost _ _ | forgetsLost _
      | dropQueueLost =>
        cases hquiet

end

theorem sound_step {clients : Nat} {s s' : QueueState} {a : ConsumerAction}
    (hordered : s.lock.Ordered) (h : s.All fun c q _ => Sound c q) (hgood : a.safe s)
    (hstep : (queueMachine clients).step s a = some s')
    : s'.All fun c q _ => Sound c q := by
  apply h.step _ _ _ hstep
  . intro c effect c' hc hsound heffect hlock
    apply hsound.act (hordered.placed a.client c hc) _ heffect hlock
    simpa [ConsumerAction.safe, hc] using hgood
  . intro c q events gone hsound
    exact ⟨hsound.coupled.steady (steady_delete gone), hsound.whole.delete gone, hsound.alive⟩
  . intro c q events connected hsound
    have hrests := rests_fireIf q connected
    refine ⟨?_, hsound.whole, ?_⟩
    . exact hsound.coupled.fewer hrests.fewer (hrests.tidy hsound.coupled.tidy)
    . exact hsound.alive.fewer (fun id hmem => (hsound.coupled.held id hmem).1) hrests.fewer
        hrests.fault

/-- As long as nothing is released that something still carries, no callback reaches a released
object. -/
theorem callbacksLive_of_safe (clients : Nat) (as : List ConsumerAction)
    (h : (queueMachine clients).AllSteps (fun s a => a.safe s) (queueMachine clients).init as)
    : (queueMachine clients).Always CallbacksLive (queueMachine clients).init as := by
  apply Machine.Always.imp (p := fun s => s.lock.Ordered ∧ s.All fun c q _ => Sound c q)
  . intro s hs i c hc
    exact (hs.2 i c hc).safe
  . apply Machine.always_of_allSteps _ _ h
    . intro s a s' hs hgood hstep
      exact ⟨ordered_queueStep hs.1 hstep, sound_step hs.1 hs.2 hgood hstep⟩
    . exact ⟨ordered_init clients, all_init
        ⟨coupled_start, whole_start, ⟨by simp [Consumer.watching, Consumer.start], rfl⟩⟩ clients⟩

/-- The connection is lost after the pop has ended. -/
theorem callbacksLive_of_safe_atRest
    : (queueMachine 1).Always CallbacksLive (queueMachine 1).init
        (popRun 0 ++ [⟨0, .rbZkQueuePush⟩, ⟨0, .serveQueue⟩, ⟨0, .completeQueue true⟩,
          ⟨0, .serveQueue⟩, ⟨0, .completeQueue true⟩, ⟨0, .serveQueue⟩, ⟨0, .completeQueue true⟩,
          ⟨0, .serve⟩, ⟨0, .complete true⟩, ⟨0, .disconnect 0 0⟩, ⟨0, .complete true⟩]) := by
  apply callbacksLive_of_safe
  decide

/-- The connection is lost while the node of a mutex is created: the session event frees the mutex
that the completion of the request still carries. -/
theorem not_callbacksLive_creating
    : ¬∀ (clients : Nat) (as : List ConsumerAction),
        (queueMachine clients).Always CallbacksLive (queueMachine clients).init as := by
  intro h
  let as : List ConsumerAction :=
    [⟨0, .reconnect false⟩, ⟨0, .complete true⟩, ⟨0, .rbZkQueuePop⟩, ⟨0, .call⟩,
      ⟨0, .disconnect 0 0⟩, ⟨0, .complete true⟩]
  have hrun : ((queueMachine 1).run as).any (fun s => s.lock.clients[0]?.any fun c =>
      0 ∈ c.registered && c.leadersNodesList = []) = true := by
    decide
  cases hs : (queueMachine 1).run as with
  | none => simp [hs] at hrun
  | some s =>
    simp only [hs, Option.any_some, Option.any_eq_true, Bool.and_eq_true, decide_eq_true_eq] at hrun
    rcases hrun with ⟨c, hc, hregistered, hnil⟩
    rcases ((h 1 as).last hs 0 c hc).mutexes 0 hregistered with ⟨mutex, hmem, _⟩
    rw [hnil] at hmem
    cases hmem

end Zk

end RbMonitor
