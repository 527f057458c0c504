import RbMonitor.Lib.RunLog
import RbMonitor.Message.Impl
import RbMonitor.Op.Impl

/-!
This module contains the pass over the monitors of a sensor: which operands an operation is given,
what is stored for each monitor and what is sent.
-/

namespace RbMonitor

/-- The read of position `i` of an array. -/
def elmAt {α : Type} (elms : List α) (i : Nat) : CM α :=
  match elms[i]? with
  | none => .error .outOfBounds
  | some elm => .ok elm

/-- `rb_array_add`, for an array of capacity `size`. -/
def rbArrayAdd {α : Type} (size : Nat) (array : List α) (elm : α) : List α :=
  if array.length = size then array else array ++ [elm]

/-! ### Dependencies -/

/-- Both have no group, or both have the same. -/
def sameGroup (iGid groupId : Option CStr) : Bool :=
  match iGid, groupId with
  | none, none => true
  | some iGid, some groupId => groupId = iGid
  | _, _ => false

/-- `find_monitor_pos`. -/
def findMonitorPos (monitorsArray : List Monitor) (name : CStr) (groupId : Option CStr) : Int :=
  go monitorsArray 0
where
  go (rest : List Monitor) (i : Nat) : Int :=
    match rest with
    | [] => -1
    | monitor :: rest =>
      if name = monitor.name && sameGroup monitor.groupId groupId then i else go rest (i + 1)

/-- `rb_monitor_get_op_variables`. -/
def rbMonitorGetOpVariables (lib : Matheval) (monitor : Monitor) : List CStr :=
  if monitor.type ≠ .op then
    []
  else if !lib.create monitor.cmdArg then
    []
  else
    lib.getVariables monitor.cmdArg

/-- `get_monitor_dependencies`: the positions of the variables, closed by -1. -/
def getMonitorDependencies (lib : Matheval) (monitorsArray : List Monitor) (monitor : Monitor)
    : Option (List Int) :=
  let vars := rbMonitorGetOpVariables lib monitor
  if vars = [] then none else go vars []
where
  go (vars : List CStr) (ret : List Int) : Option (List Int) :=
    match vars with
    | [] => some (ret ++ [-1])
    | var :: vars =>
      let pos := findMonitorPos monitorsArray var monitor.groupId
      if pos = -1 then none else go vars (ret ++ [pos])

/-- `get_monitors_dependencies`. -/
def getMonitorsDependencies (lib : Matheval) (monitorsArray : List Monitor)
    : List (Option (List Int)) :=
  monitorsArray.map (getMonitorDependencies lib monitorsArray)

/-- `pos_array_length`. -/
def posArrayLength : List Int → CM Nat
  | [] => .error .outOfBounds
  | pos :: rest =>
    if pos = -1 then
      .ok 0
    else do
      let n ← posArrayLength rest
      return n + 1

/-- `rb_monitor_value_array_select`. -/
def rbMonitorValueArraySelect (array : List (Option MonitorValue)) (pos : Option (List Int))
    : CM (Option (List (Option MonitorValue))) :=
  match pos with
  | none => .ok none
  | some pos => do
    let retSize ← posArrayLength pos
    return some (← go retSize pos [])
where
  go (retSize : Nat) (pos : List Int) (ret : List (Option MonitorValue))
      : CM (List (Option MonitorValue)) :=
    match pos with
    | [] => .error .outOfBounds
    | p :: pos =>
      if p = -1 then
        .ok ret
      else if p < 0 then
        .error .outOfBounds
      else do
        let elm ← elmAt array p.toNat
        go retSize pos (rbArrayAdd retSize ret elm)

/-! ### What is stored and sent -/

section

variable (lib : Matheval) (rdDne : Binary64 → Binary64 → Bool)

/-- The messages of a monitor that is sent. -/
def ifSend (monitor : Monitor) (msgs : CM (List RbMessage)) : CM (List RbMessage) :=
  if monitor.send then msgs else .ok []

/-- The children that `process_monitor_value_v_print` keeps in the copy that it prints. -/
def printChildren (new old : List (Option MonitorValue)) : CM (List (Option MonitorValue)) :=
  match new, old with
  | [], _ => .ok []
  -- past the end of the old array all children are new
  | new, [] => .ok new
  | none :: new, _ :: old => do return none :: (← printChildren new old)
  | some newI :: new, none :: old => do return some newI :: (← printChildren new old)
  | some newI :: new, some oldI :: old => do
    let n ← newI.asValue
    let o ← oldI.asValue
    let update := rbMonitorValueCmpTimestamp o n < 0 || rdDne o.value n.value
    return (if update then some newI else none) :: (← printChildren new old)

/-- `process_monitor_value_v_print`. -/
def processMonitorValueVPrint (monitor : Monitor) (newMv oldMv : MonitorValue)
    : CM (List RbMessage) := do
  let (newChildren, newSplitOpResult) ← newMv.asArray
  let (oldChildren, _) ← oldMv.asArray
  let children ← printChildren rdDne newChildren oldChildren
  printMonitorValue (.array children newSplitOpResult) monitor

/-- `process_monitor_value_v`: the messages, and the old value with the children of the new one. -/
def processMonitorValueV (monitor : Monitor) (newMv oldMv : MonitorValue)
    : CM (MonitorValue × List RbMessage) := do
  let msgs ← ifSend monitor (processMonitorValueVPrint rdDne monitor newMv oldMv)
  let (newChildren, _) ← newMv.asArray
  let (_, oldSplitOpResult) ← oldMv.asArray
  return (.array newChildren oldSplitOpResult, msgs)

/-- The test of `process_monitor_value` whether the new value replaces the old one. -/
def updateValue (monitor : Monitor) (monitorValue : MonitorValue) (oldMv : Option MonitorValue)
    : CM Bool :=
  match oldMv, monitorValue with
  | none, _ => .ok true
  | some oldMv, .value new =>
    if !monitor.timestampGiven then
      .ok true
    else do
      let old ← oldMv.asValue
      return rbMonitorValueCmpTimestamp old new < 0 || rdDne old.value new.value
  | some _, .array _ _ => .ok !monitor.timestampGiven

/-- `process_monitor_value`: the value to store and the messages. -/
def processMonitorValue (monitor : Monitor) (monitorValue : MonitorValue)
    (oldMv : Option MonitorValue)
    : CM (MonitorValue × List RbMessage) := do
  let update ← updateValue rdDne monitor monitorValue oldMv
  match oldMv with
  | none => return (monitorValue, ← ifSend monitor (printMonitorValue monitorValue monitor))
  | some oldMv =>
    if update then
      return (monitorValue, ← ifSend monitor (printMonitorValue monitorValue monitor))
    else if monitorValue.isValue then
      return (oldMv, [])
    else
      processMonitorValueV rdDne monitor monitorValue oldMv

/-! ### The pass -/

/-- What the outside says while one monitor is processed. -/
structure Response where
  popen : Option (List Char)
  snmp : SnmpResponse
  now : Int

/-- `process_sensor_monitor`. -/
def processSensorMonitor (monitor : Monitor) (response : Response)
    (opVars : Option (List (Option MonitorValue)))
    : CM OpResult :=
  match monitor.type with
  | .system => do
    return (some (← rbMonitorGetSystemExternalValue monitor response.popen response.now), [])
  | .oid => do
    return (some (← rbMonitorGetSnmpExternalValue monitor response.snmp response.now), [])
  | .op => rbMonitorGetOpResult lib monitor opVars response.now

/-- `struct rb_sensor_s`, without the values. -/
structure Sensor where
  peername : Option CStr
  community : Option CStr
  monitors : List Monitor
  opVars : List (Option (List Int)) := getMonitorsDependencies lib monitors
  opVars_eq : opVars = getMonitorsDependencies lib monitors := by rfl

/-- The two value arrays of a pass. -/
structure PassState where
  lastKnown : List (Option MonitorValue)
  currentIteration : List (Option MonitorValue)

/-- What happens while one monitor is processed: the calls of the evaluator, the value the monitor
yields and the messages that are sent. -/
@[ext]
structure MonitorLog where
  calls : List EvalCall
  yielded : Option MonitorValue
  messages : List RbMessage

/-- The outside world during one pass. -/
structure PassInput where
  /-- Whether the SNMP session could be created. -/
  session : Bool
  response : Nat → Response

/-- The last known value of a monitor after it yielded `value`, or nothing. -/
def storeMonitorValue (monitor : Monitor) (value lastKnownI : Option MonitorValue)
    : CM (Option MonitorValue × List RbMessage) :=
  match value with
  | none => .ok (lastKnownI, [])
  | some value => do
    let (mv, messages) ← processMonitorValue rdDne monitor value lastKnownI
    return (some mv, messages)

variable {lib}

/-- The arrays at the start of a pass: the second is copied from the first. -/
def newIteration (sensor : Sensor lib) (lastKnown : List (Option MonitorValue)) : PassState :=
  { lastKnown := lastKnown, currentIteration := lastKnown.take sensor.monitors.length }

/-- The body of the loop of `process_monitors_array`. -/
def processMonitor (sensor : Sensor lib) (input : PassInput) (st : PassState) (i : Nat)
    : CM (PassState × MonitorLog) := do
  let opVars ← rbMonitorValueArraySelect st.currentIteration (← elmAt sensor.opVars i)
  let monitor ← elmAt sensor.monitors i
  let (value, calls) ← processSensorMonitor lib monitor (input.response i) opVars
  let lastKnownI ← elmAt st.lastKnown i
  let (lastKnownI, messages) ← storeMonitorValue rdDne monitor value lastKnownI
  let st := {
    lastKnown := st.lastKnown.set i lastKnownI
    currentIteration := st.currentIteration.set i lastKnownI
  }
  return (st, { calls := calls, yielded := value, messages := messages })

/-- `process_monitors_array`: the new values, and the log of every monitor unless the pass ends
before the loop. -/
def processMonitorsArray (sensor : Sensor lib) (lastKnown : List (Option MonitorValue))
    (input : PassInput)
    : CM (List (Option MonitorValue) × List MonitorLog) := do
  let aok := sensor.peername.isSome && sensor.community.isSome && input.session
  if !aok then
    return (lastKnown, [])
  else
    let (st, logs) ← runLog (processMonitor rdDne sensor input) (newIteration sensor lastKnown)
      (List.range sensor.monitors.length)
    return (st.lastKnown, logs)

/-- The passes of a sensor, from its first one on. -/
def processRbSensor (sensor : Sensor lib) (inputs : List PassInput)
    : CM (List (Option MonitorValue) × List (List MonitorLog)) :=
  runLog (processMonitorsArray rdDne sensor) (List.replicate sensor.monitors.length none) inputs

end

/-- The sum of two loads. -/
def loadMonitor : Monitor :=
  { type := .op, name := "load".toList, cmdArg := "load_1+load_5".toList }

def loadSensor : Sensor .sums where
  peername := some "10.0.0.1".toList
  community := some "public".toList
  monitors := [
    { type := .system, name := "load_1".toList, cmdArg := "load 1".toList },
    { type := .system, name := "load_5".toList, cmdArg := "load 5".toList },
    loadMonitor]

end RbMonitor
