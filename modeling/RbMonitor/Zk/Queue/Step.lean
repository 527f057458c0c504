import RbMonitor.Zk.Queue.Impl

/-!
This module contains the actions of a consumer one by one: what each comes to and when.
-/

namespace RbMonitor

namespace Zk

namespace Consumer

/-- `q.Taken directory queue nextElement c a effect` if the action `a` of the consumer `q` with the
client `c` comes to `effect`. -/
inductive Taken (directory queue : List Nat) (nextElement : Nat) (c : Client) (q : Consumer)
    : QueueAction → QueueEffect → Prop
  | rbZkQueuePop
    : Taken directory queue nextElement c q .rbZkQueuePop
        { consumer := q.setElement c.nextMutex {}, lock := some .rbZkMutexLock, queue }
  | rbZkMutexLock
    : Taken directory queue nextElement c q .rbZkMutexLock
        { consumer := q, lock := some .rbZkMutexLock, queue }
  | call
    : Taken directory queue nextElement c q .call
        { consumer := if c.calls.head? = some .resetZkContext then q.resetZkContext else q
          lock := some .call
          queue }
  | complete {called : Bool} {completion : Completion} {inbox : List Completion}
      (hinbox : c.inbox = completion :: inbox)
    : Taken directory queue nextElement c q (.complete called)
        { consumer := (q.mutexCallbacks called (c.callbacks directory completion)).consumer
          lock := some .complete
          queue
          log := (q.mutexCallbacks called (c.callbacks directory completion)).log }
  | serve
    : Taken directory queue nextElement c q .serve { consumer := q, lock := some .serve, queue }
  | refuse
    : Taken directory queue nextElement c q .refuse { consumer := q, lock := some .refuse, queue }
  | serveLost
    : Taken directory queue nextElement c q .serveLost
        { consumer := q, lock := some .serveLost, queue }
  | dropLost
    : Taken directory queue nextElement c q .dropLost
        { consumer := q, lock := some .dropLost, queue }
  | disconnect {received receivedQueue : Nat}
    : Taken directory queue nextElement c q (.disconnect received receivedQueue)
        { consumer := q.disconnect c.live receivedQueue
          lock := some (.disconnect received)
          queue }
  | reconnect {missed : Bool}
    : Taken directory queue nextElement c q (.reconnect missed)
        { consumer := q.fireIf (c.live && missed), lock := some .reconnect, queue }
  | expire
    : Taken directory queue nextElement c q .expire
        { consumer := { q with lost := [] }, lock := some .expire, queue }
  | rbZkQueuePush
    : Taken directory queue nextElement c q .rbZkQueuePush
        { consumer := q.fireIf c.connected
          queue := queue ++ [nextElement]
          pushed := true
          log := [.pushed nextElement] }
  | completeQueue {called : Bool} {completion : QueueCompletion} {inbox : List QueueCompletion}
      (hinbox : q.inbox = completion :: inbox)
      (hunlock : ({ q with inbox := inbox }.complete called completion).unlock = none)
    : Taken directory queue nextElement c q (.completeQueue called)
        { consumer := ({ q with inbox := inbox }.complete called completion).consumer
          queue
          log := ({ q with inbox := inbox }.complete called completion).log }
  | rbZkMutexUnlock {called : Bool} {completion : QueueCompletion} {inbox : List QueueCompletion}
      {id : Nat} (hinbox : q.inbox = completion :: inbox)
      (hunlock : ({ q with inbox := inbox }.complete called completion).unlock = some id)
      (hunlocks : (c.rbZkMutexUnlock id).isSome)
    : Taken directory queue nextElement c q (.completeQueue called)
        { consumer := ({ q with inbox := inbox }.complete called completion).consumer
          lock := some (.rbZkMutexUnlock id)
          queue
          log := ({ q with inbox := inbox }.complete called completion).log }
  | unlockFault {called : Bool} {completion : QueueCompletion} {inbox : List QueueCompletion}
      {id : Nat} (hinbox : q.inbox = completion :: inbox)
      (hunlock : ({ q with inbox := inbox }.complete called completion).unlock = some id)
      (hunlocks : ¬(c.rbZkMutexUnlock id).isSome)
    : Taken directory queue nextElement c q (.completeQueue called)
        { consumer :=
            { ({ q with inbox := inbox }.complete called completion).consumer with fault := true }
          queue
          log := ({ q with inbox := inbox }.complete called completion).log }
  | serveQueue {request : QueueRequest} {requests : List QueueRequest} {effect : QueueEffect}
      {reply : QueueCompletion} (hrequests : q.requests = request :: requests)
      (hhandle : { q with requests := requests }.handle queue request = (effect, reply))
    : Taken directory queue nextElement c q .serveQueue
        { effect with
          consumer := { effect.consumer with inbox := effect.consumer.inbox ++ [reply] } }
  | refuseQueue {request : QueueRequest} {requests : List QueueRequest}
      (hrequests : q.requests = request :: requests)
    : Taken directory queue nextElement c q .refuseQueue
        { consumer := { q with requests := requests, inbox := q.inbox ++ [request.failed] }
          queue }
  | deletesLost {id node : Nat} {lost : List QueueRequest}
      (hlost : q.lost = .adelete id node :: lost) (hnode : node ∈ queue)
    : Taken directory queue nextElement c q .serveQueueLost
        { consumer := { q with lost := lost }.fireIf c.connected
          queue := queue.filter (· ≠ node)
          log := [.deleted node] }
  | forgetsLost {request : QueueRequest} {lost : List QueueRequest}
      (hlost : q.lost = request :: lost)
    : Taken directory queue nextElement c q .serveQueueLost
        { consumer := { q with lost := lost }, queue }
  | dropQueueLost
    : Taken directory queue nextElement c q .dropQueueLost
        { consumer := { q with lost := [] }, queue }

variable {c : Client} {q : Consumer} {directory queue : List Nat} {nextElement : Nat}
  {a : QueueAction} {effect : QueueEffect}

theorem taken_of_act (hstep : q.act directory queue nextElement c a = some effect)
    : q.Taken directory queue nextElement c a effect := by
  cases a with
  | rbZkQueuePop =>
    simp only [Consumer.act, Option.ite_none_left_eq_some, Option.some.injEq] at hstep
    rcases hstep with ⟨_, heq⟩
    subst heq
    exact .rbZkQueuePop
  | rbZkMutexLock =>
    simp only [Consumer.act, Option.ite_none_left_eq_some, Option.some.injEq] at hstep
    rcases hstep with ⟨_, heq⟩
    subst heq
    exact .rbZkMutexLock
  | call =>
    simp only [Consumer.act, Option.ite_none_left_eq_some, Option.some.injEq] at hstep
    rcases hstep with ⟨_, heq⟩
    subst heq
    exact .call
  | complete called =>
    simp only [Consumer.act, Option.ite_none_left_eq_some] at hstep
    rcases hstep with ⟨_, hstep⟩
    split at hstep
    . cases hstep
    . next completion inbox hinbox =>
      cases hstep
      exact .complete hinbox
  | serve =>
    cases hstep
    exact .serve
  | refuse =>
    cases hstep
    exact .refuse
  | serveLost =>
    cases hstep
    exact .serveLost
  | dropLost =>
    cases hstep
    exact .dropLost
  | disconnect received receivedQueue =>
    cases hstep
    exact .disconnect
  | reconnect missed =>
    cases hstep
    exact .reconnect
  | expire =>
    cases hstep
    exact .expire
  | rbZkQueuePush =>
    cases hstep
    exact .rbZkQueuePush
  | completeQueue called =>
    simp only [Consumer.act, Option.ite_none_left_eq_some] at hstep
    rcases hstep with ⟨_, hstep⟩
    split at hstep
    . cases hstep
    . next completion inbox hinbox =>
      split at hstep
      . next hunlock =>
        cases hstep
        exact .completeQueue hinbox hunlock
      . next id hunlock =>
        split at hstep
        . next hunlocks =>
          cases hstep
          exact .rbZkMutexUnlock hinbox hunlock hunlocks
        . next hunlocks =>
          cases hstep
          exact .unlockFault hinbox hunlock hunlocks
  | serveQueue =>
    simp only [Consumer.act, Option.ite_none_right_eq_some] at hstep
    rcases hstep with ⟨_, hstep⟩
    split at hstep
    . cases hstep
    . next request requests hrequests =>
      cases hstep
      exact .serveQueue hrequests rfl
  | refuseQueue =>
    simp only [Consumer.act, Option.ite_none_right_eq_some] at hstep
    rcases hstep with ⟨_, hstep⟩
    split at hstep
    . cases hstep
    . next request requests hrequests =>
      cases hstep
      exact .refuseQueue hrequests
  | serveQueueLost =>
    simp only [Consumer.act] at hstep
    split at hstep
    . cases hstep
    . next request lost hlost =>
      split at hstep
      . next id node =>
        split at hstep
        . next hnode =>
          cases hstep
          exact .deletesLost hlost hnode
        . cases hstep
          exact .forgetsLost hlost
      . cases hstep
        exact .forgetsLost hlost
  | dropQueueLost =>
    cases hstep
    exact .dropQueueLost

theorem kept_of_handle {request : QueueRequest} {reply : QueueCompletion}
    (hhandle : q.handle queue request = (effect, reply))
    : effect.lock = none ∧ effect.consumer.lost = q.lost ∧ effect.consumer.fault = q.fault := by
  cases request with
  | agetChildren i | awgetChildren i | aget i node =>
    cases hhandle
    exact ⟨rfl, rfl, rfl⟩
  | adelete i node =>
    simp only [Consumer.handle] at hhandle
    split at hhandle <;>
    . cases hhandle
      exact ⟨rfl, rfl, rfl⟩

end Consumer

end Zk

end RbMonitor
