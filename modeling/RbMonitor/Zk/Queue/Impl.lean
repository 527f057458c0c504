import Mathlib.Logic.Function.Basic
import RbMonitor.Zk.Impl

/-!
This module contains the queue of `rb_zk.c`: clients that pop its nodes under a lock, and the server
that holds them.

A queue element has the address of its mutex, and it is freed when it has no references. Requests and
replies of the queue have an order of their own in each session, so they may overtake those of the
mutexes; every order that the session allows is one of these. The callbacks of `rb_monitor_zk.c` pop
again, and a pop may begin at any time.
-/

namespace RbMonitor

namespace Zk

/-- `struct rb_zk_queue_element`. -/
structure QueueElement where
  queueElementPath : Option Nat := none
  shouldIgnoreWatcher : Bool := false
  refcnt : Nat := 1
deriving DecidableEq

inductive QueueRequest where
  | agetChildren (qelm : Nat)
  | awgetChildren (qelm : Nat)
  | aget (qelm : Nat) (node : Nat)
  | adelete (qelm : Nat) (node : Nat)
deriving DecidableEq

/-- What the completion thread calls, with `none` and `false` for a negative `rc`. -/
inductive QueueCompletion where
  | popMinimum (qelm : Nat) (strings : Option (List Nat)) (watcherSetted : Bool)
  | getElement (qelm : Nat) (value : Option Nat)
  | deleteCompleted (qelm : Nat) (ok : Bool)
  | childWatcher (qelm : Nat)
deriving DecidableEq

/-- What a pop does that others see, and what happens to the nodes of the queue. -/
inductive Event where
  | obtained (qelm : Nat)
  | dataCb (qelm : Nat) (node : Nat)
  | deleteCb (qelm : Nat)
  | errorCb (qelm : Nat)
  | unlock (qelm : Nat)
  | released (qelm : Nat)
  | pushed (node : Nat)
  | deleted (node : Nat)
deriving DecidableEq

def QueueRequest.failed : QueueRequest → QueueCompletion
  | .agetChildren qelm => .popMinimum qelm none false
  | .awgetChildren qelm => .popMinimum qelm none true
  | .aget qelm _ => .getElement qelm none
  | .adelete qelm _ => .deleteCompleted qelm false

def QueueCompletion.failed : QueueCompletion → Option QueueCompletion
  | .popMinimum qelm _ watcherSetted => some (.popMinimum qelm none watcherSetted)
  | .getElement qelm _ => some (.getElement qelm none)
  | .deleteCompleted qelm _ => some (.deleteCompleted qelm false)
  | .childWatcher _ => none

/-- The reply that comes with a watch. -/
def QueueCompletion.watched : QueueCompletion → Option Nat
  | .popMinimum qelm _ true => some qelm
  | _ => none

def QueueCompletion.childEvent : QueueCompletion → Option Nat
  | .childWatcher qelm => some qelm
  | _ => none

structure Consumer where
  elements : Nat → Option QueueElement
  -- the watches on the children of the queue
  childWatches : List Nat
  requests : List QueueRequest
  -- requests on a lost connection that the server may still handle
  lost : List QueueRequest
  inbox : List QueueCompletion
  -- a released element was used
  fault : Bool

/-- What a callback comes to: the mutex that it unlocks, and the events. -/
structure Turn where
  consumer : Consumer
  log : List Event := []
  unlock : Option Nat := none

/-- What a mutex calls. -/
inductive MutexCallback where
  | schangeCb (mutex : Nat) (obtained : Bool)
  | errorCb (mutex : Nat)
deriving DecidableEq

/-- The callbacks of a completion. -/
def Client.callbacks (directory : List Nat) (c : Client) : Completion → List MutexCallback
  | .createMutexNodeComplete id none => [.errorCb id]
  | .createMutexNodeComplete id (some _) => if c.state = .expiredSession then [.errorCb id] else []
  | .leaderGetChildrenComplete _ none => []
  | .leaderGetChildrenComplete id (some strings) =>
    match c.mutex? id with
    | none => []
    | some mutex =>
      match mutex.path.bind (leaderPreviousString strings) with
      | none => [.schangeCb id true]
      | some befStr => if c.state = .connected ∧ befStr ∈ directory then [] else [.errorCb id]
  | .deleteMutexCompleted _ => []
  | .previousLeaderWatcher _ _ => []
  | .sessionEvent .connected => []
  | .sessionEvent _ =>
    c.leadersNodesList.flatMap fun mutex => [.schangeCb mutex.id false, .errorCb mutex.id]

def minStr (strings : List Nat) : Option Nat :=
  strings.foldl
    (fun minStr string => if minStr.all fun m => string < m then some string else minStr)
    none

namespace Consumer

def start : Consumer where
  elements := fun _ => none
  childWatches := []
  requests := []
  lost := []
  inbox := []
  fault := false

def setElement (q : Consumer) (id : Nat) (qelm : QueueElement) : Consumer :=
  { q with elements := Function.update q.elements id (some qelm) }

def request (q : Consumer) (request : QueueRequest) : Consumer :=
  { q with requests := q.requests ++ [request] }

def use (q : Consumer) (id : Nat) (f : QueueElement → Turn) : Turn :=
  match q.elements id with
  | none => { consumer := { q with fault := true } }
  | some qelm => if qelm.refcnt = 0 then { consumer := { q with fault := true } } else f qelm

/-- `rb_zk_queue_element_decref`. -/
def rbZkQueueElementDecref (q : Consumer) (id : Nat) : Turn :=
  q.use id fun qelm =>
    { consumer := q.setElement id { qelm with refcnt := qelm.refcnt - 1 }
      log := if qelm.refcnt - 1 = 0 then [.released id] else [] }

/-- `error_cb`, and the reference goes. -/
def errorDone (q : Consumer) (id : Nat) : Turn :=
  let turn := q.rbZkQueueElementDecref id
  { turn with log := .errorCb id :: turn.log }

/-- `called` tells whether the call of the client library in a callback succeeds. -/
def rbZkQueuePopNolock (called : Bool) (q : Consumer) (id : Nat) : Turn :=
  q.use id fun _ => if called then { consumer := q.request (.agetChildren id) } else q.errorDone id

def rbZkQueueDeleteCompleted (q : Consumer) (id : Nat) : Turn :=
  q.use id fun _ =>
    let turn := q.rbZkQueueElementDecref id
    { turn with log := .deleteCb id :: .unlock id :: turn.log, unlock := some id }

def rbZkQueueGetElement (called : Bool) (q : Consumer) (id : Nat) (value : Option Nat) : Turn :=
  q.use id fun qelm =>
    match value with
    | none => q.errorDone id
    | some node =>
      match qelm.queueElementPath with
      | some path =>
        if called then
          { consumer := q.request (.adelete id path), log := [.dataCb id node] }
        else
          { consumer := q, log := [.dataCb id node, .errorCb id] }
      | none => { consumer := q, log := [.dataCb id node, .errorCb id] }

def rbZkQueueChildWatcher (called : Bool) (q : Consumer) (id : Nat) : Turn :=
  q.use id fun qelm =>
    if qelm.shouldIgnoreWatcher then { consumer := q } else q.rbZkQueuePopNolock called id

/-- The result of `zoo_awget_children` is not looked at. -/
def rbZkQueuePopMinimum0 (called : Bool) (q : Consumer) (id : Nat) (strings : Option (List Nat))
    (watcherSetted : Bool)
    : Turn :=
  q.use id fun qelm =>
    match strings with
    | none => q.errorDone id
    | some strings =>
      match minStr strings with
      | some node =>
        let q := q.setElement id { qelm with
          queueElementPath := some node
          shouldIgnoreWatcher := qelm.shouldIgnoreWatcher || watcherSetted }
        if called then { consumer := q.request (.aget id node) } else q.errorDone id
      | none =>
        if watcherSetted then
          { consumer := q }
        else if called then
          { consumer := q.request (.awgetChildren id) }
        else
          { consumer := q }

def rbZkQueueMutexStatusChange (called : Bool) (q : Consumer) (id : Nat) (mutexObtained : Bool)
    : Turn :=
  q.use id fun _ =>
    if mutexObtained then
      let turn := q.rbZkQueuePopNolock called id
      { turn with log := .obtained id :: turn.log }
    else
      { consumer := q }

def rbZkQueueMutexErrorCb (q : Consumer) (id : Nat) : Turn :=
  q.use id fun _ => q.errorDone id

/-- A mutex without a queue element has callbacks of its own. -/
def mutexCallback (called : Bool) (q : Consumer) (callback : MutexCallback) : Turn :=
  match callback with
  | .schangeCb id obtained =>
    if (q.elements id).isSome then
      q.rbZkQueueMutexStatusChange called id obtained
    else
      { consumer := q }
  | .errorCb id =>
    if (q.elements id).isSome then q.rbZkQueueMutexErrorCb id else { consumer := q }

def mutexCallbacks (called : Bool) (q : Consumer) : List MutexCallback → Turn
  | [] => { consumer := q }
  | callback :: callbacks =>
    let first := q.mutexCallback called callback
    let rest := first.consumer.mutexCallbacks called callbacks
    { consumer := rest.consumer, log := first.log ++ rest.log }

def complete (called : Bool) (q : Consumer) : QueueCompletion → Turn
  | .popMinimum id strings watcherSetted => q.rbZkQueuePopMinimum0 called id strings watcherSetted
  | .getElement id value => q.rbZkQueueGetElement called id value
  | .deleteCompleted id _ => q.rbZkQueueDeleteCompleted id
  | .childWatcher id => q.rbZkQueueChildWatcher called id

/-- The children of the queue change. -/
def fire (q : Consumer) : Consumer :=
  { q with
    childWatches := []
    inbox := q.inbox ++ q.childWatches.map .childWatcher }

def disconnect (q : Consumer) (live : Bool) (received : Nat) : Consumer :=
  let late := q.inbox.drop received
  { q with
    -- a watch begins with its reply, and stays when its event does not arrive
    childWatches := (q.childWatches ++ late.filterMap QueueCompletion.childEvent).filter
      (· ∉ late.filterMap QueueCompletion.watched)
    requests := []
    lost := if live then q.lost ++ q.requests else []
    inbox := q.inbox.take received ++
      (late.filterMap QueueCompletion.failed ++ q.requests.map QueueRequest.failed) }

def resetZkContext (q : Consumer) : Consumer :=
  { q with
    childWatches := []
    requests := []
    lost := []
    inbox := q.inbox ++ q.requests.map QueueRequest.failed }

end Consumer

inductive QueueAction where
  | rbZkQueuePop
  -- a mutex of the same directory that no queue element has
  | rbZkMutexLock
  | call
  | complete (called : Bool)
  | serve
  | refuse
  | serveLost
  | dropLost
  | disconnect (received receivedQueue : Nat)
  -- whether the children of the queue changed meanwhile
  | reconnect (missed : Bool)
  | expire
  | rbZkQueuePush
  | completeQueue (called : Bool)
  | serveQueue
  | refuseQueue
  | serveQueueLost
  | dropQueueLost
deriving DecidableEq

/-- What an action comes to: the consumer, what its client does, and the queue after it. -/
structure QueueEffect where
  consumer : Consumer
  lock : Option ClientAction := none
  queue : List Nat
  pushed : Bool := false
  log : List Event := []

def Client.connected (c : Client) : Bool :=
  c.live && c.state = .connected

namespace Consumer

def fireIf (q : Consumer) (connected : Bool) : Consumer :=
  if connected then q.fire else q

/-- The server handles a request of the session; the reply. -/
def handle (queue : List Nat) (q : Consumer) : QueueRequest → QueueEffect × QueueCompletion
  | .agetChildren id => ({ consumer := q, queue }, .popMinimum id (some queue) false)
  | .awgetChildren id =>
    ({ consumer := { q with childWatches := q.childWatches ++ [id] }, queue },
      .popMinimum id (some queue) true)
  | .aget id node =>
    ({ consumer := q, queue }, .getElement id (if node ∈ queue then some node else none))
  | .adelete id node =>
    if node ∈ queue then
      ({ consumer := q.fire, queue := queue.filter (· ≠ node), log := [.deleted node] },
        .deleteCompleted id true)
    else
      ({ consumer := q, queue }, .deleteCompleted id false)

def act (directory queue : List Nat) (nextElement : Nat) (c : Client) (q : Consumer)
    : QueueAction → Option QueueEffect
  | .rbZkQueuePop =>
    if c.fault || q.fault then
      none
    else
      some { consumer := q.setElement c.nextMutex {}, lock := some .rbZkMutexLock, queue }
  | .rbZkMutexLock =>
    if c.fault || q.fault then none else some { consumer := q, lock := some .rbZkMutexLock, queue }
  | .call =>
    if c.fault || q.fault then
      none
    else
      some {
        consumer := if c.calls.head? = some .resetZkContext then q.resetZkContext else q
        lock := some .call
        queue }
  | .complete called =>
    if c.fault || q.fault then
      none
    else
      match c.inbox with
      | [] => none
      | completion :: _ =>
        let turn := q.mutexCallbacks called (c.callbacks directory completion)
        some { consumer := turn.consumer, lock := some .complete, queue, log := turn.log }
  | .serve => some { consumer := q, lock := some .serve, queue }
  | .refuse => some { consumer := q, lock := some .refuse, queue }
  | .serveLost => some { consumer := q, lock := some .serveLost, queue }
  | .dropLost => some { consumer := q, lock := some .dropLost, queue }
  | .disconnect received receivedQueue =>
    some {
      consumer := q.disconnect c.live receivedQueue
      lock := some (.disconnect received)
      queue }
  | .reconnect missed =>
    some { consumer := q.fireIf (c.live && missed), lock := some .reconnect, queue }
  | .expire => some { consumer := { q with lost := [] }, lock := some .expire, queue }
  | .rbZkQueuePush =>
    some {
      consumer := q.fireIf c.connected
      queue := queue ++ [nextElement]
      pushed := true
      log := [.pushed nextElement] }
  | .completeQueue called =>
    if c.fault || q.fault then
      none
    else
      match q.inbox with
      | [] => none
      | completion :: inbox =>
        let turn := { q with inbox := inbox }.complete called completion
        match turn.unlock with
        | none => some { consumer := turn.consumer, queue, log := turn.log }
        | some id =>
          if (c.rbZkMutexUnlock id).isSome then
            some {
              consumer := turn.consumer
              lock := some (.rbZkMutexUnlock id)
              queue
              log := turn.log }
          else
            some { consumer := { turn.consumer with fault := true }, queue, log := turn.log }
  | .serveQueue =>
    if c.connected then
      match q.requests with
      | [] => none
      | request :: requests =>
        let (effect, reply) := { q with requests := requests }.handle queue request
        some { effect with
          consumer := { effect.consumer with inbox := effect.consumer.inbox ++ [reply] } }
    else
      none
  | .refuseQueue =>
    if c.connected then
      match q.requests with
      | [] => none
      | request :: requests =>
        some {
          consumer := { q with requests := requests, inbox := q.inbox ++ [request.failed] }
          queue }
    else
      none
  | .serveQueueLost =>
    match q.lost with
    | [] => none
    | request :: lost =>
      match request with
      | .adelete _ node =>
        if node ∈ queue then
          some {
            consumer := { q with lost := lost }.fireIf c.connected
            queue := queue.filter (· ≠ node)
            log := [.deleted node] }
        else
          some { consumer := { q with lost := lost }, queue }
      | _ => some { consumer := { q with lost := lost }, queue }
  | .dropQueueLost => some { consumer := { q with lost := [] }, queue }

end Consumer

/-- The consumers of a queue with their lock directory, and the number of its next node. -/
structure QueueState where
  lock : Ensemble
  consumers : Nat → Consumer
  queue : List Nat
  nextElement : Nat
  log : List (Nat × Event)

structure ConsumerAction where
  client : Nat
  action : QueueAction
deriving DecidableEq

def QueueState.connected (s : QueueState) (client : Nat) : Bool :=
  s.lock.clients[client]?.any Client.connected

def queueMachine (clients : Nat) : Machine QueueState ConsumerAction where
  init :=
    { lock := (lockMachine clients).init
      consumers := fun _ => .start
      queue := []
      nextElement := 0
      log := [] }
  step s a := do
    let c ← s.lock.clients[a.client]?
    let effect ← (s.consumers a.client).act s.lock.directory s.queue s.nextElement c a.action
    let lock ←
      match effect.lock with
      | none => some s.lock
      | some action => (lockMachine clients).step s.lock { client := a.client, action }
    return {
      lock
      consumers := fun client =>
        if client = a.client then
          effect.consumer
        else
          (s.consumers client).fireIf (effect.queue ≠ s.queue && s.connected client)
      queue := effect.queue
      nextElement := if effect.pushed then s.nextElement + 1 else s.nextElement
      log := s.log ++ effect.log.map fun event => (a.client, event) }

end Zk

end RbMonitor
