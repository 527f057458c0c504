import RbMonitor.Lib.Machine
import Mathlib.Data.List.Basic

/-!
This module contains the mutexes of `rb_zk.c`: clients with their mutexes, requests and completions,
and a ZooKeeper server that holds the nodes of one lock directory.

A node of the directory is the sequence number at the end of its name, a mutex is its address. The
server handles the requests of a session in their order, and its replies and events come in the
order in which it made them.

Each callback of the completion thread, each call on the thread of the handler and each function that
the process calls is one step, so two threads are never in the middle of two of them. A process stops
at its first use of a mutex that is freed.
-/

namespace RbMonitor

namespace Zk

/-- `zoo_state`, and the state of a session event. -/
inductive ZooState where
  | connecting
  | connected
  | expiredSession
deriving DecidableEq

structure Mutex where
  id : Nat
  -- the node, once `override_leader_node` replaced the prefix that its name is made from
  path : Option Nat
  iAmLeader : Bool
deriving DecidableEq

inductive Request where
  | acreate (mutex : Nat)
  | agetChildren (mutex : Nat)
  | adelete (mutex : Nat) (path : Option Nat)
deriving DecidableEq

/-- What the completion thread calls, with `none` for every `rc` other than `ZOK`. -/
inductive Completion where
  | createMutexNodeComplete (mutex : Nat) (leaderNode : Option Nat)
  | leaderGetChildrenComplete (mutex : Nat) (strings : Option (List Nat))
  | deleteMutexCompleted (mutex : Nat)
  | previousLeaderWatcher (mutex : Nat) (node : Nat)
  | sessionEvent (state : ZooState)
deriving DecidableEq

/-- A watch that `zoo_wexists` left on a node, and whether it found the node. -/
structure Watch where
  mutex : Nat
  node : Nat
  found : Bool
deriving DecidableEq

/-- An ephemeral node of a session, and the mutex whose request created it. -/
structure Node where
  seq : Nat
  mutex : Nat
deriving DecidableEq

/-- What `rd_thread_func_call1` gave to the thread of the handler. -/
inductive Call where
  | doPendingLocks
  | resetZkContext
deriving DecidableEq

structure Client where
  state : ZooState
  calls : List Call
  pendingLeaders : List Mutex
  leadersNodesList : List Mutex
  nextMutex : Nat
  watches : List Watch
  -- requests that the server has not handled
  requests : List Request
  -- requests on a lost connection that the server may still handle
  lost : List Request
  -- replies and events that are not delivered
  inbox : List Completion
  -- the session at the server: whether it lives, and its nodes
  live : Bool
  nodes : List Node
  -- a released mutex was used: nothing is known about the process from here on
  fault : Bool
deriving DecidableEq

/-- What an action of a client comes to: the client, the nodes that are gone from the directory and
whether a sequence number was taken. -/
structure Effect where
  client : Client
  gone : List Nat := []
  created : Bool := false

/-- `leader_previous_string`: the greatest string below `my_str`. -/
def leaderPreviousString (strings : List Nat) (myStr : Nat) : Option Nat :=
  strings.foldl
    (fun befStr string =>
      if string < myStr ∧ (befStr.all fun bef => bef < string) then some string else befStr)
    none

def Request.creates : Request → Option Nat
  | .acreate mutex => some mutex
  | .agetChildren _ | .adelete _ _ => none

/-- The completion of a request that fails. -/
def Request.failed : Request → Completion
  | .acreate mutex => .createMutexNodeComplete mutex none
  | .agetChildren mutex => .leaderGetChildrenComplete mutex none
  | .adelete mutex _ => .deleteMutexCompleted mutex

def Completion.isSessionEvent : Completion → Bool
  | .sessionEvent _ => true
  | _ => false

/-- What becomes of a reply on a connection that is lost. -/
def Completion.failed : Completion → Option Completion
  | .createMutexNodeComplete mutex _ => some (.createMutexNodeComplete mutex none)
  | .leaderGetChildrenComplete mutex _ => some (.leaderGetChildrenComplete mutex none)
  | .deleteMutexCompleted mutex => some (.deleteMutexCompleted mutex)
  | .previousLeaderWatcher _ _ | .sessionEvent _ => none

/-- The watch of an event that did not arrive: the client still holds it. -/
def Completion.watch : Completion → Option Watch
  | .previousLeaderWatcher mutex node => some { mutex, node, found := true }
  | _ => none

namespace Client

def start : Client where
  state := .connecting
  calls := []
  pendingLeaders := []
  leadersNodesList := []
  nextMutex := 0
  watches := []
  requests := []
  lost := []
  inbox := []
  live := true
  nodes := []
  fault := false

def mutex? (c : Client) (id : Nat) : Option Mutex :=
  c.leadersNodesList.find? fun mutex => mutex.id = id

def setMutex (c : Client) (mutex : Mutex) : Client :=
  { c with
    leadersNodesList := c.leadersNodesList.map fun m => if m.id = mutex.id then mutex else m }

def request (c : Client) (request : Request) : Client :=
  { c with requests := c.requests ++ [request] }

/-- `rb_zk_mutex_error_done` and `rb_zk_mutex_done`: the mutex leaves the list and is freed. -/
def rbZkMutexDone (c : Client) (id : Nat) : Client :=
  match c.mutex? id with
  | none => { c with fault := true }
  | some _ =>
    { c with leadersNodesList := c.leadersNodesList.filter fun mutex => mutex.id ≠ id }

def previousLeaderWatcher (c : Client) (id : Nat) : Client :=
  match c.mutex? id with
  | none => { c with fault := true }
  | some _ => if c.state = .expiredSession then c else c.request (.agetChildren id)

/-- The completion of `zoo_aget_children`, with the call of `zoo_wexists` in it. The call waits for
the requests before it, so it has an answer only when these are handled. -/
def leaderGetChildrenComplete (directory : List Nat) (c : Client) (id : Nat)
    : Option (List Nat) → Option Client
  | none => some c
  | some strings =>
    match c.mutex? id with
    | none => some { c with fault := true }
    | some mutex =>
      match mutex.path.bind (leaderPreviousString strings) with
      | none => some (c.setMutex { mutex with iAmLeader := true })
      | some befStr =>
        match c.state with
        -- `ZINVALIDSTATE` and `ZCONNECTIONLOSS`
        | .expiredSession | .connecting => some (c.rbZkMutexDone id)
        | .connected =>
          if c.requests ≠ [] then
            none
          else
            let found := befStr ∈ directory
            let c := { c with watches := c.watches ++ [{ mutex := id, node := befStr, found }] }
            some (if found then c else c.rbZkMutexDone id)

def createMutexNodeComplete (c : Client) (id : Nat) (leaderNode : Option Nat) : Client :=
  match leaderNode with
  | none => c.rbZkMutexDone id
  | some node =>
    match c.mutex? id with
    | none => { c with fault := true }
    | some mutex =>
      let c := c.setMutex { mutex with path := some node }
      -- `zoo_aget_children` fails on a handle that cannot recover
      if c.state = .expiredSession then c.rbZkMutexDone id else c.request (.agetChildren id)

/-- `zk_watcher`. Every other watcher gets the session event too. -/
def zkWatcher (c : Client) (state : ZooState) : Client :=
  if c.watches.any fun watch => (c.mutex? watch.mutex).isNone then
    { c with fault := true }
  else
    match state with
    | .connected => { c with calls := c.calls ++ [.doPendingLocks] }
    -- `zk_watcher_clean_mutex`
    | .connecting => { c with leadersNodesList := [] }
    | .expiredSession => { c with calls := c.calls ++ [.resetZkContext], leadersNodesList := [] }

def complete (directory : List Nat) (c : Client) : Completion → Option Client
  | .createMutexNodeComplete id leaderNode => some (c.createMutexNodeComplete id leaderNode)
  | .leaderGetChildrenComplete id strings => c.leaderGetChildrenComplete directory id strings
  | .deleteMutexCompleted id => some (c.rbZkMutexDone id)
  | .previousLeaderWatcher id _ => some (c.previousLeaderWatcher id)
  | .sessionEvent state => some (c.zkWatcher state)

def rbZkMutexLock (c : Client) : Client :=
  { c with
    pendingLeaders := c.pendingLeaders ++ [{ id := c.nextMutex, path := none, iAmLeader := false }]
    nextMutex := c.nextMutex + 1
    calls := c.calls ++ [.doPendingLocks] }

def zkWatcherDoPendingLocks (c : Client) : Client :=
  if c.state ≠ .connected then
    c
  else
    { c with
      pendingLeaders := []
      leadersNodesList := c.leadersNodesList ++ c.pendingLeaders
      requests := c.requests ++ c.pendingLeaders.map fun mutex => .acreate mutex.id }

/-- `reset_zk_context`: the old session is closed, a new one begins. -/
def resetZkContext (c : Client) : Effect where
  client :=
    { c with
      state := .connecting
      watches := []
      requests := []
      lost := []
      inbox := c.inbox ++ c.requests.map Request.failed
      live := true
      nodes := [] }
  gone := c.nodes.map Node.seq

/-- `rb_zk_mutex_unlock`. It is called with a mutex that was obtained. -/
def rbZkMutexUnlock (c : Client) (id : Nat) : Option Client :=
  match c.mutex? id with
  | none => none
  | some mutex =>
    if !mutex.iAmLeader then
      none
    else if c.state = .connected then
      some (c.request (.adelete id mutex.path))
    else
      some (c.rbZkMutexDone id)

/-- The server handles a request of the session; the reply, if there is a connection to send it. -/
def handle (directory : List Nat) (nextSeq : Nat) (c : Client) : Request → Effect × Completion
  | .acreate id =>
    ({ client := { c with nodes := c.nodes ++ [{ seq := nextSeq, mutex := id }] }, created := true },
      .createMutexNodeComplete id (some nextSeq))
  | .agetChildren id => ({ client := c }, .leaderGetChildrenComplete id (some directory))
  | .adelete id path => ({ client := c, gone := path.toList }, .deleteMutexCompleted id)

/-- The connection is lost, after the first `received` elements of the inbox arrived. -/
def disconnect (c : Client) (received : Nat) : Option Client :=
  let late := c.inbox.drop received
  if c.state ≠ .connected ∨ late.any Completion.isSessionEvent then
    none
  else
    some { c with
      state := .connecting
      watches := c.watches ++ late.filterMap Completion.watch
      requests := []
      lost := if c.live then c.lost ++ c.requests else []
      inbox := c.inbox.take received ++ .sessionEvent .connecting ::
        (late.filterMap Completion.failed ++ c.requests.map Request.failed) }

/-- Whether the watch reports that the nodes `gone` were deleted. -/
def Watch.reports (gone : List Nat) (watch : Watch) : Bool :=
  watch.found && watch.node ∈ gone

def fire (c : Client) (reports : Watch → Bool) : Client :=
  { c with
    watches := c.watches.filter fun watch => !reports watch
    inbox := c.inbox ++ (c.watches.filter reports).map fun watch =>
      .previousLeaderWatcher watch.mutex watch.node }

/-- The client is connected again, or it learns that its session expired. -/
def reconnect (directory : List Nat) (c : Client) : Option Client :=
  if c.state ≠ .connecting then
    none
  else if c.live then
    let c := { c with state := .connected, inbox := c.inbox ++ [Completion.sessionEvent .connected] }
    some (c.fire fun watch => watch.found && watch.node ∉ directory)
  else
    some { c with state := .expiredSession, inbox := c.inbox ++ [Completion.sessionEvent .expiredSession] }

/-- The nodes `gone` are deleted from the directory. -/
def delete (gone : List Nat) (c : Client) : Client :=
  let c := { c with nodes := c.nodes.filter fun node => node.seq ∉ gone }
  if c.state = .connected then c.fire (Watch.reports gone) else c

end Client

inductive ClientAction where
  | rbZkMutexLock
  | rbZkMutexUnlock (mutex : Nat)
  -- the thread of the handler runs its first call
  | call
  -- the completion thread delivers the first element of the inbox
  | complete
  -- the server handles the first request, or refuses it
  | serve
  | refuse
  | serveLost
  | dropLost
  | disconnect (received : Nat)
  | reconnect
  | expire
deriving DecidableEq

namespace Client

def act (directory : List Nat) (nextSeq : Nat) (c : Client) : ClientAction → Option Effect
  | .rbZkMutexLock => if c.fault then none else some { client := c.rbZkMutexLock }
  | .rbZkMutexUnlock id =>
    if c.fault then none else (c.rbZkMutexUnlock id).map fun c => { client := c }
  | .call =>
    if c.fault then
      none
    else
      match c.calls with
      | [] => none
      | .doPendingLocks :: calls =>
        some { client := { c with calls := calls }.zkWatcherDoPendingLocks }
      | .resetZkContext :: calls => some { c with calls := calls }.resetZkContext
  | .complete =>
    if c.fault then
      none
    else
      match c.inbox with
      | [] => none
      | completion :: inbox =>
        ({ c with inbox := inbox }.complete directory completion).map fun c => { client := c }
  | .serve =>
    if c.live && c.state = .connected then
      match c.requests with
      | [] => none
      | request :: requests =>
        let (effect, reply) := { c with requests := requests }.handle directory nextSeq request
        let c := effect.client.delete effect.gone
        some { effect with client := { c with inbox := c.inbox ++ [reply] } }
    else
      none
  | .refuse =>
    if c.live && c.state = .connected then
      match c.requests with
      | [] | .adelete _ _ :: _ => none
      | request :: requests =>
        some { client := { c with requests := requests, inbox := c.inbox ++ [request.failed] } }
    else
      none
  | .serveLost =>
    match c.lost with
    | [] => none
    | request :: lost => some ({ c with lost := lost }.handle directory nextSeq request).1
  | .dropLost => some { client := { c with lost := [] } }
  | .disconnect received => (c.disconnect received).map fun c => { client := c }
  | .reconnect => (c.reconnect directory).map fun c => { client := c }
  | .expire =>
    if c.live then
      some {
        client := { c with live := false, lost := [], nodes := [] }
        gone := c.nodes.map Node.seq }
    else
      none

end Client

/-- The clients of a lock directory, with the sequence number of its next node. -/
structure Ensemble where
  clients : List Client
  nextSeq : Nat
deriving DecidableEq

def Ensemble.directory (s : Ensemble) : List Nat :=
  s.clients.flatMap fun c => c.nodes.map Node.seq

/-- An action of one of the clients. -/
structure Action where
  client : Nat
  action : ClientAction

def lockMachine (clients : Nat) : Machine Ensemble Action where
  init := { clients := List.replicate clients .start, nextSeq := 0 }
  step s a := do
    let c ← s.clients[a.client]?
    let effect ← c.act s.directory s.nextSeq a.action
    return {
      clients := (s.clients.set a.client effect.client).map (Client.delete effect.gone)
      nextSeq := if effect.created then s.nextSeq + 1 else s.nextSeq }

end Zk

end RbMonitor
