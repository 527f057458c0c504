import RbMonitor.Worker.Order
import RbMonitor.Zk.Queue.Exact

/-!
This module contains the processes of a cluster with the ZooKeeper queue that they pop: what becomes
of the sensors that are pushed.
-/

namespace RbMonitor

open CString

/-- The clients of a queue, each with its process. -/
structure Cluster where
  queue : Zk.QueueState
  processes : List Process

inductive ClusterAction where
  | zookeeper (a : Zk.ConsumerAction)
  | process (i : Nat) (a : Action)

/-- The call of `rb_zk_pop_data_cb` in an event. -/
def Cluster.popDataCb (value : Nat → List Char) : Zk.Event → Option Action
  | .dataCb _ node => some (.zkPopData 0 (value node))
  | _ => none

/-- The action is one of the process alone. -/
def Action.isZkPopData : Action → Bool
  | .zkPopData _ _ => true
  | _ => false

/-- The cluster where the node `n` of the queue has the data `value n`, and the process `i` has
`sensors i` sensors and `threads i` workers. -/
def clusterMachine (value : Nat → List Char) (parse : CStr → Option Json) (clients : Nat)
    (sensors threads : Nat → Nat)
    : Machine Cluster ClusterAction where
  init :=
    { queue := (Zk.queueMachine clients).init
      processes := (List.range clients).map fun i => .start (threads i) }
  step s
    | .zookeeper a => do
      let process ← s.processes[a.client]?
      let queue ← (Zk.queueMachine clients).step s.queue a
      let events := (queue.log.drop s.queue.log.length).map Prod.snd
      let process ← (processMachine parse (sensors a.client) (threads a.client)).runFrom process
        (events.filterMap (Cluster.popDataCb value))
      return { queue, processes := s.processes.set a.client process }
    | .process i a =>
      if a.isZkPopData then
        none
      else do
        let process ← s.processes[i]?
        let process ← (processMachine parse (sensors i) (threads i)).step process a
        return { s with processes := s.processes.set i process }

namespace Process

/-- The sensors that were received and not handed to a worker. -/
def onTheWay (parse : CStr → Option Json) (s : Process) : List Json :=
  s.queue.filterMap QueueElm.jsonObject? ++ (s.laux ++ s.popSensorsList).filterMap parse

section

variable {parse : CStr → Option Json} {sensors threads : Nat} {s s' : Process} {a : Action}

theorem onTheWay_step (hstep : Taken parse sensors s a s')
    : s.onTheWay parse ++ (received a).filterMap parse
      = (handed s a).filterMap QueueElm.jsonObject? ++ s'.onTheWay parse := by
  have hqueue := congrArg (List.filterMap QueueElm.jsonObject?) (queue_fifo hstep)
  have hstrings := congrArg (List.filterMap parse) (strings_fifo hstep)
  rw [List.filterMap_append, List.filterMap_append, queued_jsonObject hstep] at hqueue
  rw [List.filterMap_append] at hstrings
  unfold onTheWay
  rw [List.append_assoc, hstrings, List.filterMap_append, ← List.append_assoc, hqueue,
    List.append_assoc]

theorem onTheWay_popDataCb {value : Nat → List Char} {events : List Zk.Event}
    (hrun : (processMachine parse sensors threads).runFrom s
      (events.filterMap (Cluster.popDataCb value)) = some s')
    : s'.onTheWay parse = s.onTheWay parse
        ++ (events.filterMap Zk.Event.passed).filterMap fun node => parse (ofBytes (value node)) := by
  induction events generalizing s with
  | nil =>
    cases hrun
    simp
  | cons event events ih =>
    cases event with
    | dataCb qelm node =>
      rcases Machine.runFrom_cons_eq_some.mp hrun with ⟨s₁, hstep, hrest⟩
      have hreceived : s₁.onTheWay parse
          = s.onTheWay parse ++ [node].filterMap fun node => parse (ofBytes (value node)) :=
        (onTheWay_step (taken_of_step hstep)).symm
      rw [ih hrest, hreceived, List.append_assoc, ← List.filterMap_append]
      rfl
    | _ => exact ih hrun

end

end Process

namespace Cluster

section

variable {value : Nat → List Char} {parse : CStr → Option Json} {clients : Nat}
  {sensors threads : Nat → Nat} {s s' : Cluster} {a : ClusterAction} {as : List ClusterAction}

/-- What a step hands to a worker of one of the processes. -/
def handed (s : Cluster) : ClusterAction → List Json
  | .zookeeper _ => []
  | .process i a =>
    match s.processes[i]? with
    | none => []
    | some process => (process.handed a).filterMap QueueElm.jsonObject?

def succeeds (s : Cluster) : ClusterAction → Bool
  | .zookeeper a => a.succeeds s.queue
  | .process _ _ => true

/-- The sensors of the nodes that were passed on are handed out, or with one of the processes. -/
structure Conserved (value : Nat → List Char) (parse : CStr → Option Json) (s : Cluster)
    (hist : List Json) : Prop where
  exact : Zk.Exact s.queue
  passed : ((s.queue.passed.filterMap fun node => parse (ofBytes (value node)) : List Json)
      : Multiset Json)
    = ↑hist + ↑(s.processes.flatMap (Process.onTheWay parse))

theorem conserved_init
    : Conserved value parse (clusterMachine value parse clients sensors threads).init [] := by
  refine ⟨Zk.exact_init clients, ?_⟩
  have hprocesses : (clusterMachine value parse clients sensors threads).init.processes.flatMap
      (Process.onTheWay parse) = [] := by
    rw [List.flatMap_eq_nil_iff]
    intro process hmem
    rcases List.mem_map.mp hmem with ⟨i, _, rfl⟩
    rfl
  rw [hprocesses]
  rfl

theorem conserved_step {hist : List Json} (h : Conserved value parse s hist)
    (hgood : s.succeeds a)
    (hstep : (clusterMachine value parse clients sensors threads).step s a = some s')
    : Conserved value parse s' (hist ++ handed s a) := by
  cases a with
  | zookeeper a =>
    simp only [clusterMachine, Option.bind_eq_bind, Option.bind_eq_some_iff, Option.pure_def,
      Option.some.injEq] at hstep
    rcases hstep with ⟨process, hprocess, queue, hqueue, process', hprocess', rfl⟩
    rcases Zk.queueMachine_step hqueue with ⟨_, effect, _, _, _, _, _, _, _, hlog⟩
    refine ⟨Zk.exact_step h.exact hgood hqueue, ?_⟩
    have hevents : (queue.log.drop s.queue.log.length).map Prod.snd = effect.log := by
      rw [hlog, List.drop_left, List.map_map]
      exact List.map_id effect.log
    rw [hevents] at hprocess'
    have hway : process.onTheWay parse
        ++ ((effect.log.filterMap Zk.Event.passed).filterMap fun node => parse (ofBytes (value node)))
        = [] ++ process'.onTheWay parse :=
      (Process.onTheWay_popDataCb hprocess').symm
    have hset := coe_flatMap_set (Process.onTheWay parse) hprocess hway
    rw [Zk.passed_append hlog, List.filterMap_append, ← Multiset.coe_add, h.passed, add_assoc, hset]
    simp [handed]
  | process i a =>
    simp only [clusterMachine, Option.ite_none_left_eq_some, Option.bind_eq_bind,
      Option.bind_eq_some_iff, Option.pure_def, Option.some.injEq] at hstep
    rcases hstep with ⟨hown, process, hprocess, process', hprocess', rfl⟩
    refine ⟨h.exact, ?_⟩
    have hreceived : Process.received a = [] := by
      cases a with
      | zkPopData rc value => exact absurd rfl hown
      | _ => rfl
    have hway := Process.onTheWay_step (Process.taken_of_step hprocess')
    have hset := coe_flatMap_set (Process.onTheWay parse) hprocess hway
    rw [hreceived, List.filterMap_nil, Multiset.coe_nil, add_zero] at hset
    simp only [handed, hprocess]
    rw [h.passed, hset, ← Multiset.coe_add, add_assoc]

theorem passed_prefix {s : Zk.QueueState} (h : Zk.Exact s)
    : ∃ waiting, s.pushed = s.passed ++ waiting ∧ waiting <:+ s.queue := by
  rcases h.history.passed with ⟨heq, _⟩ | ⟨i, c, id, node, hc, hmem, heq⟩
  . exact ⟨s.queue, by rw [heq, h.history.queue], List.suffix_refl _⟩
  . have hfits := (h.fits i c hc).requests _ hmem
    rcases List.head?_eq_some_iff.mp hfits.1 with ⟨rest, hqueue⟩
    refine ⟨rest, ?_, ?_⟩
    . rw [heq, ← h.history.queue, hqueue, List.append_assoc]
      rfl
    . rw [hqueue]
      exact List.suffix_cons node rest

/-- A sensor is pushed, popped by the second process and handed to its worker. -/
def clusterRun : List ClusterAction :=
  let zookeeper : List Zk.ConsumerAction :=
    ⟨0, .rbZkQueuePush⟩ :: Zk.popRun 1 ++ [⟨1, .serveQueue⟩, ⟨1, .completeQueue true⟩,
      ⟨1, .serveQueue⟩, ⟨1, .completeQueue true⟩]
  zookeeper.map .zookeeper ++ [.process 1 .zkMove, .process 1 .zkAdd, .process 1 (.pop 0)]

end

end Cluster

end RbMonitor
