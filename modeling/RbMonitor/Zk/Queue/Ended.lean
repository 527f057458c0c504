import RbMonitor.Zk.Queue.Run

/-!
This module contains how the pops of a queue end, over the runs in which no session is lost.
-/

namespace RbMonitor

namespace Zk

open Client Consumer

/-- The pop has given back the lock if it had it, with one callback, and its element is released. -/
structure EndedWell (events : List Event) (id : Nat) : Prop where
  unlocked : .obtained id ∈ events → .unlock id ∈ events
  callback : events.count (.errorCb id) + events.count (.deleteCb id) = 1
  released : events.count (.released id) = 1

/-- Every pop that ended has ended well. -/
def PopsEndWell (s : QueueState) : Prop :=
  ∀ (i : Nat) (c : Client), s.lock.clients[i]? = some c →
    ∀ id, .errorCb id ∈ s.events i ∨ .deleteCb id ∈ s.events i → EndedWell (s.events i) id

/-- No element is used that was released. -/
def NoneReleasedUsed (s : QueueState) : Prop :=
  ∀ (i : Nat) (c : Client), s.lock.clients[i]? = some c → (s.consumers i).fault = false

def MutexCallback.goesOn (called : Bool) (q : Consumer) : MutexCallback → Bool
  | .schangeCb id true => called || (q.elements id).isNone
  | _ => true

/-- No stage of the pop fails before its deletion is asked for, and the element of an event is not
released. -/
def QueueCompletion.goesOn (called : Bool) (q : Consumer) : QueueCompletion → Bool
  | .popMinimum _ none _ | .getElement _ none => false
  | .popMinimum _ (some strings) _ => called || (minStr strings).isNone
  | .getElement _ (some _) => called
  | .deleteCompleted _ _ => true
  | .childWatcher id =>
    match q.elements id with
    | none => false
    | some qelm => qelm.refcnt ≠ 0 && (called || qelm.shouldIgnoreWatcher)

/-- The session is not lost, and the pop that hears of something goes on. -/
def QueueAction.goesOn (directory : List Nat) (c : Client) (q : Consumer) : QueueAction → Bool
  | .disconnect _ _ | .expire => false
  | .complete called =>
    c.inbox.head?.all fun completion =>
      (c.callbacks directory completion).all (MutexCallback.goesOn called q)
  | .completeQueue called => q.inbox.head?.all (QueueCompletion.goesOn called q)
  | _ => true

def ConsumerAction.goesOn (s : QueueState) (a : ConsumerAction) : Bool :=
  s.lock.clients[a.client]?.all fun c =>
    a.action.goesOn s.lock.directory c (s.consumers a.client)

/-- What the log tells about the pops of a client. -/
structure Recorded (c : Client) (q : Consumer) (events : List Event) : Prop where
  callback : ∀ id, events.count (.errorCb id) + events.count (.deleteCb id) =
    events.count (.released id)
  once : ∀ id, events.count (.released id) ≤ 1
  live : ∀ id, q.Live id → events.count (.released id) = 0
  unlocked : ∀ id, events.count (.deleteCb id) ≤ events.count (.unlock id)
  failed : ∀ id, events.count (.errorCb id) = 0 ∨ events.count (.obtained id) = 0
  obtained : ∀ id, events.count (.obtained id) = 0 ∨ (q.Live id → c.Held id)
  known : ∀ id, q.elements id = none →
    events.count (.obtained id) = 0 ∧ events.count (.released id) = 0

section

variable {c c' : Client} {q : Consumer} {id : Nat} {directory queue : List Nat}
  {nextSeq nextElement : Nat} {events : List Event}

theorem Recorded.endedWell (h : Recorded c q events)
    (hended : .errorCb id ∈ events ∨ .deleteCb id ∈ events)
    : EndedWell events id := by
  have hcallback := h.callback id
  have honce := h.once id
  have hunlocked := h.unlocked id
  have hfailed := h.failed id
  simp only [← List.count_pos_iff] at hended
  refine ⟨?_, by omega, by omega⟩
  simp only [← List.count_pos_iff]
  omega

theorem recorded_start : Recorded .start .start [] := by
  constructor <;> simp

/-- What the log tells of a step: at most one pop obtains its lock or ends. -/
def Told (c c' : Client) (q q' : Consumer) (log : List Event) : Prop :=
  (∀ event ∈ log, event.qelm = none) ∨
  (∃ id, log = [.obtained id] ∧ q.Live id ∧ c'.Held id) ∨
  (∃ id, log = [.errorCb id, .released id] ∧ q.Live id ∧ ¬c.Held id ∧ ¬q'.Live id) ∨
  ∃ id, log = [.deleteCb id, .unlock id, .released id] ∧ q.Live id ∧ ¬q'.Live id

theorem errorDone_eq (h : Coupled c q) {qelm : QueueElement} (hqelm : q.elements id = some qelm)
    (hrefcnt : qelm.refcnt ≠ 0)
    : q.errorDone id = {
        consumer := q.setElement id { qelm with refcnt := qelm.refcnt - 1 }
        log := [.errorCb id, .released id] } := by
  have hone := h.refcnt id qelm hqelm
  have hlast : qelm.refcnt - 1 = 0 := by omega
  simp only [errorDone, rbZkQueueElementDecref, use_eq hqelm hrefcnt, hlast, ↓reduceIte]

theorem Coupled.told_complete (h : Coupled c q) (hplaced : c.Placed directory nextSeq)
    {completion : Completion} {inbox : List Completion} (hinbox : c.inbox = completion :: inbox)
    (hcleans : ¬completion.cleans) {called : Bool} {directory' : List Nat}
    (hgood : (c.callbacks directory' completion).all (MutexCallback.goesOn called q))
    (hstep : { c with inbox := inbox }.complete directory' completion = some c')
    : (q.mutexCallbacks called (c.callbacks directory' completion)).consumer.fault = q.fault ∧
        Told c c' q (q.mutexCallbacks called (c.callbacks directory' completion)).consumer
          (q.mutexCallbacks called (c.callbacks directory' completion)).log := by
  cases completes_of_complete hplaced h.attended hinbox hstep with
  | steady hcallbacks _ =>
    rw [hcallbacks]
    exact ⟨rfl, .inl fun event hmem => absurd hmem List.not_mem_nil⟩
  | deleted _ => exact ⟨rfl, .inl fun event hmem => absurd hmem List.not_mem_nil⟩
  | @failed _ i hcallbacks hid hmark _ =>
    rw [hcallbacks]
    have hnot : ¬c.Held i := fun hheld => hheld.idle (mem_carried_head hinbox hid)
    simp only [mutexCallbacks, mutexCallback, rbZkQueueMutexErrorCb, List.append_nil]
    rcases h.ready i (.inr hmark) with hnone | hlive
    . simp only [hnone, Option.isSome_none, Bool.false_eq_true, ↓reduceIte, true_and]
      exact .inl fun event hmem => absurd hmem List.not_mem_nil
    . have hdead := not_live_rbZkQueueElementDecref h.refcnt i
      rcases hlive with ⟨qelm, hqelm, hrefcnt⟩
      have hdone := errorDone_eq h hqelm hrefcnt
      simp only [hqelm, Option.isSome_some, ↓reduceIte, use_eq hqelm hrefcnt]
      refine ⟨by rw [hdone]; rfl, .inr (.inr (.inl ⟨i, by rw [hdone], ?_, hnot, hdead⟩))⟩
      exact ⟨qelm, hqelm, hrefcnt⟩
  | @obtained _ i hcallbacks hid hmark hobtains =>
    rw [hcallbacks] at hgood ⊢
    have hcalled : called = true ∨ q.elements i = none := by
      simpa [MutexCallback.goesOn] using hgood
    simp only [mutexCallbacks, mutexCallback, rbZkQueueMutexStatusChange, rbZkQueuePopNolock,
      List.append_nil]
    rcases h.ready i (.inr hmark) with hnone | hlive
    . simp only [hnone, Option.isSome_none, Bool.false_eq_true, ↓reduceIte, true_and]
      exact .inl fun event hmem => absurd hmem List.not_mem_nil
    . rcases hlive with ⟨qelm, hqelm, hrefcnt⟩
      have hcalled : called = true := by simpa [hqelm] using hcalled
      simp only [hqelm, Option.isSome_some, ↓reduceIte, use_eq hqelm hrefcnt, hcalled]
      refine ⟨rfl, .inr (.inl ⟨i, rfl, ⟨qelm, hqelm, hrefcnt⟩, ?_⟩)⟩
      exact hobtains.obtained (tracks_iff.mpr ⟨false, hmark⟩)
  | session hstate =>
    apply absurd _ hcleans
    simpa [Completion.cleans] using hstate

theorem Coupled.told_completeQueue (h : Coupled c q) {completion : QueueCompletion}
    {inbox : List QueueCompletion} (hinbox : q.inbox = completion :: inbox) {called : Bool}
    (hgood : completion.goesOn called q)
    (hunlock : ({ q with inbox := inbox }.complete called completion).unlock = none)
    : ({ q with inbox := inbox }.complete called completion).consumer.fault = q.fault ∧
        ∀ event ∈ ({ q with inbox := inbox }.complete called completion).log,
          event.qelm = none := by
  cases completion with
  | popMinimum i strings watcherSetted =>
    rcases (h.held i (mem_waiting_head hinbox rfl)).1 with ⟨qelm, hqelm, hrefcnt⟩
    have hqelm' : { q with inbox := inbox }.elements i = some qelm := hqelm
    cases strings with
    | none => cases hgood
    | some strings =>
      simp only [Consumer.complete, Consumer.rbZkQueuePopMinimum0, use_eq hqelm' hrefcnt]
      split
      . next node hmin =>
        have hcalled : called = true := by
          simpa [QueueCompletion.goesOn, hmin] using hgood
        rw [if_pos hcalled]
        exact ⟨rfl, fun event hmem => absurd hmem List.not_mem_nil⟩
      . split
        . exact ⟨rfl, fun event hmem => absurd hmem List.not_mem_nil⟩
        . split <;> exact ⟨rfl, fun event hmem => absurd hmem List.not_mem_nil⟩
  | getElement i value =>
    rcases (h.held i (mem_waiting_head hinbox rfl)).1 with ⟨qelm, hqelm, hrefcnt⟩
    have hqelm' : { q with inbox := inbox }.elements i = some qelm := hqelm
    cases value with
    | none => cases hgood
    | some node =>
      have hcalled : called = true := hgood
      have htaking : i ∈ q.taking := by
        simp [Consumer.taking, hinbox, QueueCompletion.takes]
      rcases h.path i htaking with ⟨qelm₁, hqelm₁, hpath⟩
      rw [hqelm] at hqelm₁
      cases hqelm₁
      rcases Option.ne_none_iff_exists'.mp hpath with ⟨path, hpath⟩
      simp only [Consumer.complete, Consumer.rbZkQueueGetElement, use_eq hqelm' hrefcnt, hpath,
        hcalled, ↓reduceIte, List.mem_singleton, forall_eq]
      exact ⟨rfl, rfl⟩
  | deleteCompleted i ok =>
    rcases (h.held i (mem_waiting_head hinbox rfl)).1 with ⟨qelm, hqelm, hrefcnt⟩
    have hqelm' : { q with inbox := inbox }.elements i = some qelm := hqelm
    simp only [Consumer.complete, Consumer.rbZkQueueDeleteCompleted, use_eq hqelm' hrefcnt]
      at hunlock
    cases hunlock
  | childWatcher i =>
    simp only [QueueCompletion.goesOn] at hgood
    split at hgood
    . cases hgood
    . next qelm hqelm =>
      simp only [ne_eq, Bool.and_eq_true, decide_eq_true_eq, Bool.or_eq_true] at hgood
      have hqelm' : { q with inbox := inbox }.elements i = some qelm := hqelm
      simp only [Consumer.complete, Consumer.rbZkQueueChildWatcher, Consumer.rbZkQueuePopNolock,
        use_eq hqelm' hgood.1]
      split
      . exact ⟨rfl, fun event hmem => absurd hmem List.not_mem_nil⟩
      . next hignore =>
        rw [if_pos (hgood.2.resolve_right hignore)]
        exact ⟨rfl, fun event hmem => absurd hmem List.not_mem_nil⟩

theorem Coupled.told (h : Coupled c q) (hplaced : c.Placed directory nextSeq) (hcalm : c.Calm)
    {a : QueueAction} (hgood : a.goesOn directory c q) {effect : QueueEffect}
    (hstep : q.act directory queue nextElement c a = some effect)
    (hlock : LockStep directory nextSeq c effect.lock c')
    : effect.consumer.fault = q.fault ∧ Told c c' q effect.consumer effect.log := by
  cases hquiet : a.quiet with
  | true =>
    rcases rests_act hquiet hstep with ⟨hrests, hlog⟩
    exact ⟨hrests.fault, .inl hlog⟩
  | false =>
    cases Consumer.taken_of_act hstep with
    | rbZkQueuePop => exact ⟨rfl, .inl fun event hmem => absurd hmem List.not_mem_nil⟩
    | complete hinbox =>
      apply h.told_complete hplaced hinbox _ _ (complete_of_lockStep hinbox hlock)
      . exact hcalm.not_cleans (by simp [hinbox])
      . simpa [QueueAction.goesOn, hinbox] using hgood
    | @completeQueue called completion _ hinbox hnone =>
      have hgood : completion.goesOn called q := by
        simpa [QueueAction.goesOn, hinbox] using hgood
      rcases h.told_completeQueue hinbox hgood hnone with ⟨hfault, hlog⟩
      exact ⟨hfault, .inl hlog⟩
    | @rbZkMutexUnlock _ _ _ i _ _ _ =>
      rcases h.act_unlock hplaced hstep rfl with ⟨_, hdead, hlog, hlive, hfault⟩
      exact ⟨hfault, .inr (.inr (.inr ⟨i, hlog, hlive, hdead⟩))⟩
    | unlockFault hinbox hunlock hunlocks =>
      exact absurd (h.deleteCompleted_of_unlock hplaced hinbox hunlock).2 hunlocks
    | rbZkMutexLock | call | serve | refuse | serveLost | dropLost | disconnect | reconnect
    | expire | rbZkQueuePush | serveQueue _ _ | refuseQueue _ | deletesLost _ _ | forgetsLost _
    | dropQueueLost =>
      cases hquiet

theorem Told.counts {q' : Consumer} {log : List Event} (h : Told c c' q q' log) (id : Nat)
    : (log.count (.obtained id) = 0 ∧ log.count (.errorCb id) = 0 ∧
        log.count (.deleteCb id) = 0 ∧ log.count (.unlock id) = 0 ∧
        log.count (.released id) = 0) ∨
      (log.count (.obtained id) = 1 ∧ log.count (.errorCb id) = 0 ∧
        log.count (.deleteCb id) = 0 ∧ log.count (.unlock id) = 0 ∧
        log.count (.released id) = 0 ∧ q.Live id ∧ c'.Held id) ∨
      (log.count (.obtained id) = 0 ∧ log.count (.errorCb id) = 1 ∧
        log.count (.deleteCb id) = 0 ∧ log.count (.unlock id) = 0 ∧
        log.count (.released id) = 1 ∧ q.Live id ∧ ¬c.Held id ∧ ¬q'.Live id) ∨
      (log.count (.obtained id) = 0 ∧ log.count (.errorCb id) = 0 ∧
        log.count (.deleteCb id) = 1 ∧ log.count (.unlock id) = 1 ∧
        log.count (.released id) = 1 ∧ q.Live id ∧ ¬q'.Live id) := by
  rcases h with hlog | ⟨i, hlog, hlive, hheld⟩ | ⟨i, hlog, hlive, hnot, hdead⟩ |
    ⟨i, hlog, hlive, hdead⟩
  . have hnone : ∀ event : Event, event.qelm ≠ none → log.count event = 0 := by
      intro event hqelm
      rw [List.count_eq_zero]
      exact fun hmem => hqelm (hlog event hmem)
    left
    refine ⟨?_, ?_, ?_, ?_, ?_⟩ <;> exact hnone _ (Option.some_ne_none id)
  . by_cases heq : i = id
    . subst heq
      exact .inr (.inl (by simp [hlog, hlive, hheld]))
    . exact .inl (by simp [hlog, heq])
  . by_cases heq : i = id
    . subst heq
      exact .inr (.inr (.inl (by simp [hlog, hlive, hnot, hdead])))
    . exact .inl (by simp [hlog, heq])
  . by_cases heq : i = id
    . subst heq
      exact .inr (.inr (.inr (by simp [hlog, hlive, hdead])))
    . exact .inl (by simp [hlog, heq])

theorem Coupled.held_act (h : Coupled c q) (hplaced : c.Placed directory nextSeq) (hcalm : c.Calm)
    {a : QueueAction} {effect : QueueEffect}
    (hstep : q.act directory queue nextElement c a = some effect)
    (hlock : LockStep directory nextSeq c effect.lock c') (hheld : c.Held id)
    (hlive : effect.consumer.Live id)
    : c'.Held id := by
  apply hheld.lockStep hplaced h.attended _ _ hlock
  . intro i hunlock
    rcases h.act_unlock hplaced hstep hunlock with ⟨hheld, hdead, _⟩
    exact ⟨fun heq => hdead (heq ▸ hlive), hheld.idle⟩
  . exact fun completion hmem => hcalm.not_cleans hmem

theorem Recorded.act (h : Recorded c q events) (hcoupled : Coupled c q)
    (hplaced : c.Placed directory nextSeq) (hcalm : c.Calm) {a : QueueAction}
    (hgood : a.goesOn directory c q) {effect : QueueEffect}
    (hstep : q.act directory queue nextElement c a = some effect)
    (hlock : LockStep directory nextSeq c effect.lock c')
    : Recorded c' effect.consumer (events ++ effect.log) := by
  have hfollows := follows_act hcoupled.fresh_nextMutex hstep
  have hcounts := (hcoupled.told hplaced hcalm hgood hstep hlock).2.counts
  refine ⟨?_, ?_, ?_, ?_, ?_, ?_, ?_⟩
  . intro id
    have hold := h.callback id
    simp only [List.count_append]
    rcases hcounts id with hnew | hnew | hnew | hnew <;> omega
  . intro id
    have hold := h.once id
    simp only [List.count_append]
    rcases hcounts id with hnew | hnew | hnew | hnew
    . omega
    . omega
    . have := h.live id hnew.2.2.2.2.2.1
      omega
    . have := h.live id hnew.2.2.2.2.2.1
      omega
  . intro id hlive
    have hold : events.count (.released id) = 0 := by
      cases hfollows.live id hlive with
      | inl hold => exact h.live id hold
      | inr hnone => exact (h.known id hnone).2
    simp only [List.count_append]
    rcases hcounts id with hnew | hnew | hnew | hnew
    . omega
    . omega
    . exact absurd hlive hnew.2.2.2.2.2.2.2
    . exact absurd hlive hnew.2.2.2.2.2.2
  . intro id
    have hold := h.unlocked id
    simp only [List.count_append]
    rcases hcounts id with hnew | hnew | hnew | hnew <;> omega
  . intro id
    have hold := h.failed id
    have hcallback := h.callback id
    simp only [List.count_append]
    rcases hcounts id with hnew | hnew | hnew | hnew
    . omega
    . have := h.live id hnew.2.2.2.2.2.1
      omega
    . rcases h.obtained id with hzero | hheld
      . omega
      . exact absurd (hheld hnew.2.2.2.2.2.1) hnew.2.2.2.2.2.2.1
    . omega
  . intro id
    simp only [List.count_append]
    rcases hcounts id with hnew | hnew | hnew | hnew
    . rw [hnew.1, Nat.add_zero]
      rcases h.obtained id with hzero | hheld
      . exact .inl hzero
      . by_cases hknown : q.elements id = none
        . exact .inl (h.known id hknown).1
        . right
          intro hlive
          have hold := (hfollows.live id hlive).resolve_right hknown
          exact hcoupled.held_act hplaced hcalm hstep hlock (hheld hold) hlive
    . exact .inr fun _ => hnew.2.2.2.2.2.2
    . exact .inr fun hlive => absurd hlive hnew.2.2.2.2.2.2.2
    . exact .inr fun hlive => absurd hlive hnew.2.2.2.2.2.2
  . intro id hnone
    have hold := h.known id (hfollows.known id hnone)
    have hdead : ¬q.Live id := by
      intro hlive
      rcases hlive with ⟨qelm, hqelm, _⟩
      rw [hfollows.known id hnone] at hqelm
      cases hqelm
    simp only [List.count_append]
    rcases hcounts id with hnew | hnew | hnew | hnew
    . omega
    . exact absurd hnew.2.2.2.2.2.1 hdead
    . exact absurd hnew.2.2.2.2.2.1 hdead
    . exact absurd hnew.2.2.2.2.2.1 hdead

theorem Recorded.steady (h : Recorded c q events) (hsteady : c.Steady c') : Recorded c' q events where
  callback := h.callback
  once := h.once
  live := h.live
  unlocked := h.unlocked
  failed := h.failed
  obtained id := (h.obtained id).imp_right fun hheld hlive => hsteady.held (hheld hlive)
  known := h.known

theorem Recorded.fireIf (h : Recorded c q events) (connected : Bool)
    : Recorded c (q.fireIf connected) events := by
  have helements := (fewer_fireIf q connected).elements
  refine ⟨h.callback, h.once, ?_, h.unlocked, h.failed, ?_, ?_⟩
  . intro id hlive
    unfold Consumer.Live at hlive
    rw [helements] at hlive
    exact h.live id hlive
  . intro id
    unfold Consumer.Live
    rw [helements]
    exact h.obtained id
  . intro id hnone
    rw [helements] at hnone
    exact h.known id hnone

theorem keepsSession_of_goesOn {a : QueueAction} (hgood : a.goesOn directory c q)
    : a.keepsSession := by
  cases a <;> first | rfl | cases hgood

end

/-- What holds for a client in a run without a loss of its session. -/
structure Followed (c : Client) (q : Consumer) (events : List Event) : Prop where
  calm : c.Calm
  coupled : Coupled c q
  recorded : Recorded c q events
  fault : q.fault = false

theorem followed_step {clients : Nat} {s s' : QueueState} {a : ConsumerAction}
    (hordered : s.lock.Ordered) (h : s.All Followed) (hgood : a.goesOn s)
    (hstep : (queueMachine clients).step s a = some s')
    : s'.All Followed := by
  apply h.step _ _ _ hstep
  . intro c effect c' hc hfollowed heffect hlock
    have hplaced := hordered.placed a.client c hc
    have hgood : a.action.goesOn s.lock.directory c (s.consumers a.client) := by
      simpa [ConsumerAction.goesOn, hc] using hgood
    refine ⟨?_, ?_, ?_, ?_⟩
    . cases heq : effect.lock with
      | none =>
        rw [heq] at hlock
        cases hlock
        exact hfollowed.calm
      | some action =>
        rw [heq] at hlock
        rcases hlock with ⟨lockEffect, hact, heq'⟩
        subst heq'
        exact hfollowed.calm.act
          (keepsSession_act (keepsSession_of_goesOn hgood) heffect heq) hact
    . apply hfollowed.coupled.act hplaced heffect _ hlock
      intro called completion inbox _ hinbox hcleans
      exact absurd hcleans (hfollowed.calm.not_cleans (by simp [hinbox]))
    . exact hfollowed.recorded.act hfollowed.coupled hplaced hfollowed.calm hgood heffect hlock
    . exact (hfollowed.coupled.told hplaced hfollowed.calm hgood heffect hlock).1.trans
        hfollowed.fault
  . intro c q events gone hfollowed
    exact ⟨hfollowed.calm.delete gone, hfollowed.coupled.steady (steady_delete gone),
      hfollowed.recorded.steady (steady_delete gone), hfollowed.fault⟩
  . intro c q events connected hfollowed
    refine ⟨hfollowed.calm, ?_, hfollowed.recorded.fireIf connected, ?_⟩
    . exact hfollowed.coupled.fewer (fewer_fireIf q connected)
        (hfollowed.coupled.tidy.fireIf connected)
    . exact (fault_fireIf q connected).trans hfollowed.fault

/-- As long as no session is lost and every pop goes on to its deletion, every pop ends well. -/
theorem popsEndWell_of_goesOn (clients : Nat) (as : List ConsumerAction)
    (h : (queueMachine clients).AllSteps (fun s a => a.goesOn s) (queueMachine clients).init as)
    : (queueMachine clients).Always (fun s => PopsEndWell s ∧ NoneReleasedUsed s)
        (queueMachine clients).init as := by
  apply Machine.Always.imp (p := fun s => s.lock.Ordered ∧ s.All Followed)
  . intro s hs
    refine ⟨?_, fun i c hc => (hs.2 i c hc).fault⟩
    intro i c hc id hended
    exact (hs.2 i c hc).recorded.endedWell hended
  . apply Machine.always_of_allSteps _ _ h
    . intro s a s' hs hgood hstep
      exact ⟨ordered_queueStep hs.1 hstep, followed_step hs.1 hs.2 hgood hstep⟩
    . exact ⟨ordered_init clients, all_init ⟨calm_start, coupled_start, recorded_start, rfl⟩ clients⟩

/-- A node is pushed, taken and deleted, and the lock is given back. -/
theorem popsEndWell_of_goesOn_deleted
    : (queueMachine 1).Always (fun s => PopsEndWell s ∧ NoneReleasedUsed s) (queueMachine 1).init
        (popRun 0 ++ [⟨0, .rbZkQueuePush⟩, ⟨0, .serveQueue⟩, ⟨0, .completeQueue true⟩,
          ⟨0, .serveQueue⟩, ⟨0, .completeQueue true⟩, ⟨0, .serveQueue⟩, ⟨0, .completeQueue true⟩,
          ⟨0, .serve⟩, ⟨0, .complete true⟩]) := by
  apply popsEndWell_of_goesOn
  decide

/-- The node of the list is not got, and the lock stays with the pop that ended. -/
theorem not_popsEndWell_failedGet
    : ¬∀ (clients : Nat) (as : List ConsumerAction),
        (queueMachine clients).AllSteps (fun _ a => a.action.keepsSession)
          (queueMachine clients).init as →
        (queueMachine clients).Always PopsEndWell (queueMachine clients).init as := by
  intro h
  let as := popRun 0 ++ [⟨0, .rbZkQueuePush⟩, ⟨0, .serveQueue⟩, ⟨0, .completeQueue true⟩,
    ⟨0, .refuseQueue⟩, ⟨0, .completeQueue true⟩]
  have hrun : ((queueMachine 1).run as).any (fun s => s.lock.clients[0]?.isSome &&
      s.events 0 = [.obtained 0, .pushed 0, .errorCb 0, .released 0]) = true := by
    decide
  cases hs : (queueMachine 1).run as with
  | none => simp [hs] at hrun
  | some s =>
    simp only [hs, Option.any_some, Bool.and_eq_true, decide_eq_true_eq] at hrun
    rcases Option.isSome_iff_exists.mp hrun.1 with ⟨c, hc⟩
    have hkeeps : (queueMachine 1).AllSteps (fun _ a => a.action.keepsSession)
        (queueMachine 1).init as := by
      decide
    have hended := (h 1 as hkeeps).last hs 0 c hc 0 (by simp [hrun.2])
    have hunlock := hended.unlocked (by simp [hrun.2])
    simp [hrun.2] at hunlock

end Zk

end RbMonitor
