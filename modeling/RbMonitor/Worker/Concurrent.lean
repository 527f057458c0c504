import Mathlib.Logic.Function.Basic
import RbMonitor.Sensor.Impl
import RbMonitor.Worker.Impl

/-!
This module contains the workers with the passes they make: the last known values are shared, the
array of a pass is the worker's own, and the steps of several passes may come in any order.
-/

namespace RbMonitor

/-- What a worker has of its own in `process_monitors_array`. -/
structure Iteration where
  id : Nat
  input : PassInput
  currentIteration : List (Option MonitorValue)
  -- the index of the loop
  next : Nat

structure Workers where
  process : Process
  lastVals : Nat → List (Option MonitorValue)
  iterations : Nat → Option Iteration
  -- what was done for which sensor, in the order in which it was done
  logs : List (Nat × MonitorLog)

inductive PassAction where
  -- a step that begins or ends no pass
  | process (a : Action)
  | trylock (w : Nat) (input : PassInput)
  | monitor (w : Nat)
  | unlock (w : Nat)

namespace Workers

def setIteration (s : Workers) (w : Nat) (it : Option Iteration) : Workers :=
  { s with iterations := Function.update s.iterations w it }

@[simp]
theorem setIteration_iterations_self (s : Workers) (w : Nat) (it : Option Iteration)
    : (s.setIteration w it).iterations w = it := by
  simp [setIteration]

theorem setIteration_iterations_of_ne (s : Workers) {w w' : Nat} (h : w' ≠ w)
    (it : Option Iteration)
    : (s.setIteration w it).iterations w' = s.iterations w' := by
  simp [setIteration, Function.update_of_ne h]

/-- The values of a sensor after one of its monitors was processed. -/
def store (s : Workers) (id : Nat) (lastKnown : List (Option MonitorValue)) (log : MonitorLog)
    : Workers :=
  { s with lastVals := Function.update s.lastVals id lastKnown, logs := s.logs ++ [(id, log)] }

@[simp]
theorem store_lastVals_self (s : Workers) (id : Nat) (lastKnown : List (Option MonitorValue))
    (log : MonitorLog)
    : (s.store id lastKnown log).lastVals id = lastKnown := by
  simp [store]

theorem store_lastVals_of_ne (s : Workers) {id id' : Nat} (h : id' ≠ id)
    (lastKnown : List (Option MonitorValue)) (log : MonitorLog)
    : (s.store id lastKnown log).lastVals id' = s.lastVals id' := by
  simp [store, Function.update_of_ne h]

end Workers

/-- The step that the threads see. -/
def PassAction.erase : PassAction → Option Action
  | .process a => some a
  | .trylock w _ => some (.trylock w)
  | .monitor _ => none
  | .unlock w => some (.unlock w)

section

variable {lib : Matheval}

/-- How often the loop of `process_monitors_array` is run. -/
def passLength (sensor : Sensor lib) (input : PassInput) : Nat :=
  if sensor.peername.isSome && sensor.community.isSome && input.session then
    sensor.monitors.length
  else
    0

variable (parse : CStr → Option Json) (rdDne : Binary64 → Binary64 → Bool)
  (sensors : Nat → Sensor lib) (count threads : Nat)

def Workers.start : Workers where
  process := Process.start threads
  lastVals id := List.replicate (sensors id).monitors.length none
  iterations _ := none
  logs := []

/-- The worker begins the pass of a sensor whose lock it got. -/
def Workers.enter (s : Workers) (w id : Nat) (input : PassInput) : Workers :=
  s.setIteration w (some {
    id, input
    currentIteration := (newIteration (sensors id) (s.lastVals id)).currentIteration
    next := 0 })

/-- The worker has the lock of the sensor, or leaves the sensor alone. -/
def Workers.trylock (s : Workers) (w : Nat) (input : PassInput) : Workers :=
  match s.process.workers[w]? with
  | some (.processing id) => s.enter sensors w id input
  | _ => s

/-- The body of the loop. -/
def Workers.monitor (s : Workers) (w : Nat) (it : Iteration) : Option Workers :=
  match processMonitor rdDne (sensors it.id) it.input
      { lastKnown := s.lastVals it.id, currentIteration := it.currentIteration } it.next with
  | .error _ => none
  | .ok (st, log) =>
    some ((s.setIteration w (some { it with
      currentIteration := st.currentIteration
      next := it.next + 1 })).store it.id st.lastKnown log)

/-- The steps of the workers with `count` sensors. -/
def workersMachine : Machine Workers PassAction where
  init := Workers.start sensors threads
  step s a :=
    match a with
    | .process a =>
      match a with
      | .trylock _ | .unlock _ => none
      | a => ((processMachine parse count threads).step s.process a).map fun process =>
        { s with process }
    | .trylock w input =>
      ((processMachine parse count threads).step s.process (.trylock w)).map fun process =>
        { s with process }.trylock sensors w input
    | .monitor w =>
      match s.process.fault, s.iterations w with
      | false, some it =>
        if it.next < passLength (sensors it.id) it.input then
          s.monitor rdDne sensors w it
        else
          none
      | _, _ => none
    | .unlock w =>
      match s.iterations w with
      | none => none
      | some it =>
        if it.next = passLength (sensors it.id) it.input then
          ((processMachine parse count threads).step s.process (.unlock w)).map fun process =>
            { s with process }.setIteration w none
        else
          none

end

end RbMonitor
