import RbMonitor.Lib.Machine
import RbMonitor.Monitor.Basic

/-!
This module contains the queue of the workers: the main loop and the thread of the ZooKeeper handler
that fill it, and the workers that empty it.
-/

namespace RbMonitor

open CString

/-- What a pointer in the queue points to: the queue itself does not know. -/
inductive QueueElm where
  | sensor (id : Nat)
  | jsonObject (obj : Json)

inductive MainState where
  -- at the head of the loop over the sensors
  | atSensor (i : Nat)
  -- between `rb_sensor_get` and `queue_sensor`
  | holding (i : Nat)
  | leaving
deriving DecidableEq

inductive WorkerState where
  | idle
  | popped (elm : QueueElm)
  -- in `process_rb_sensor`, with the lock of the sensor
  | processing (id : Nat)
  -- before `rb_sensor_put`
  | putting (id : Nat)
  | ended

/-- The part of the process that the threads share, with what each of them is about to do. -/
structure Process where
  run : Bool
  refcnt : Nat → Int
  locked : Nat → Bool
  freed : Nat → Bool
  queue : List QueueElm
  main : MainState
  workers : List WorkerState
  popSensorsList : List CStr
  -- calls of `rb_monitor_zk_add_popped_sensors_to_monitor_queue` that were requested
  calls : Nat
  laux : List CStr
  -- sensors that were popped after the signal, and are not put
  dropped : List Nat
  -- a pointer to something else was used as a sensor
  fault : Bool

inductive Action where
  | signal
  | mainGet
  | mainQueue
  | mainLeave
  | zkPopData (rc : Int) (value : List Char)
  | zkMove
  | zkAdd
  | pop (w : Nat)
  | trylock (w : Nat)
  | unlock (w : Nat)
  | put (w : Nat)
  | drop (w : Nat)
  | leave (w : Nat)

namespace Process

/-- The process after `sensors` sensors were parsed and `threads` workers created. -/
def start (threads : Nat) : Process where
  run := true
  refcnt _ := 1
  locked _ := false
  freed _ := false
  queue := []
  main := .atSensor 0
  workers := List.replicate threads .idle
  popSensorsList := []
  calls := 0
  laux := []
  dropped := []
  fault := false

def rbSensorGet (s : Process) (id : Nat) : Process :=
  { s with refcnt := Function.update s.refcnt id (s.refcnt id + 1) }

def rbSensorPut (s : Process) (id : Nat) : Process :=
  let refcnt := s.refcnt id - 1
  { s with
    refcnt := Function.update s.refcnt id refcnt
    freed := if refcnt = 0 then Function.update s.freed id true else s.freed }

def queueSensor (s : Process) (elm : QueueElm) : Process :=
  { s with queue := s.queue ++ [elm] }

def setWorker (s : Process) (w : Nat) (state : WorkerState) : Process :=
  { s with workers := s.workers.set w state }

/-- `rb_zk_pop_data_cb`. On an error it appends what it was given all the same. -/
def rbZkPopDataCb (s : Process) (value : List Char) : Process :=
  { s with popSensorsList := s.popSensorsList ++ [ofBytes value], calls := s.calls + 1 }

/-- `rb_monitor_zk_add_sensor_to_monitor_queue`: what is queued is the parsed JSON. -/
def rbMonitorZkAddSensorToMonitorQueue (parse : CStr → Option Json) (s : Process) (str : CStr)
    : Process :=
  match parse str with
  | none => s
  | some obj => s.queueSensor (.jsonObject obj)

/-- `worker_process_sensor`, up to its end or to the lock. -/
def workerProcessSensor (s : Process) (w : Nat) : QueueElm → Process
  | .sensor id =>
    if s.locked id then
      s.setWorker w (.putting id)
    else
      { s.setWorker w (.processing id) with locked := Function.update s.locked id true }
  | .jsonObject _ => { s with fault := true }

end Process

open Process in
/-- The steps of a process with `sensors` sensors; `parse` is the JSON parser. -/
def processMachine (parse : CStr → Option Json) (sensors threads : Nat)
    : Machine Process Action where
  init := start threads
  step s a :=
    if s.fault then
      none
    else
      match a with
      | .signal => some { s with run := false }
      | .mainGet =>
        match s.main with
        | .atSensor i =>
          if s.run && i < sensors then
            some { s.rbSensorGet i with main := .holding i }
          else
            none
        | _ => none
      | .mainQueue =>
        match s.main with
        | .holding i =>
          let next := if i + 1 < sensors then i + 1 else 0
          some { s.queueSensor (.sensor i) with main := .atSensor next }
        | _ => none
      | .mainLeave =>
        match s.main with
        | .atSensor _ => if s.run then none else some { s with main := .leaving }
        | _ => none
      | .zkPopData _ value => some (s.rbZkPopDataCb value)
      | .zkMove =>
        if s.calls = 0 ∨ s.laux ≠ [] then
          none
        else
          some { s with laux := s.popSensorsList, popSensorsList := [], calls := s.calls - 1 }
      | .zkAdd =>
        match s.laux with
        | [] => none
        | str :: laux => some { rbMonitorZkAddSensorToMonitorQueue parse s str with laux := laux }
      | .pop w =>
        match s.workers[w]?, s.queue with
        | some .idle, elm :: queue => some { s.setWorker w (.popped elm) with queue := queue }
        | _, _ => none
      | .trylock w =>
        match s.workers[w]? with
        | some (.popped elm) => if s.run then some (s.workerProcessSensor w elm) else none
        | _ => none
      | .unlock w =>
        match s.workers[w]? with
        | some (.processing id) =>
          some { s.setWorker w (.putting id) with locked := Function.update s.locked id false }
        | _ => none
      | .put w =>
        match s.workers[w]? with
        | some (.putting id) => some ((s.rbSensorPut id).setWorker w .idle)
        | _ => none
      | .drop w =>
        match s.workers[w]? with
        | some (.popped elm) =>
          if s.run then
            none
          else
            some { s.setWorker w .ended with
              dropped := match elm with
                | .sensor id => id :: s.dropped
                | .jsonObject _ => s.dropped }
        | _ => none
      | .leave w =>
        match s.workers[w]? with
        | some .idle => if s.run then none else some (s.setWorker w .ended)
        | _ => none

end RbMonitor
