import RbMonitor.Lib.OwnHeap
import RbMonitor.Lib.RefHeap
import RbMonitor.Sensor.Impl

/-!
This module contains the pass over the monitors of a sensor with the memory that it allocates, reads
and frees: monitor values, arrays of pointers, messages, and what an operation needs.
-/

namespace RbMonitor

namespace Mem

/-- What one allocation holds. A block on the stack is one that is freed at the end of its function. -/
inductive Cell where
  -- `struct monitor_value`
  | value (v : Value)
  | array (childrenCount : Nat) (splitOpResult : Option Ptr) (children : Ptr)
  -- a block of `struct monitor_value *`
  | pointers (elms : List (Option Ptr))
  -- `struct rb_array`; `size` is the length of the elements
  | rbArray (count : Nat) (elms : List (Option Ptr))
  -- `rb_message_array_t`, with payload and length of each message
  | messages (count : Nat) (msgs : List (Option (Ptr × Nat)))
  | payload (text : CStr)
  -- `struct process_sensor_monitor_ctx`
  | context
  | evaluator
  | libmathevalVars

abbrev MM (α : Type) := OwnM Cell Fault α

open OwnM

/-! ### `rb_value.c` and `rb_array.c` -/

def isValue (mv : Ptr) : MM Bool := do
  match ← read mv with
  | .value _ => return true
  | .array _ _ _ => return false
  | _ => fail .badTag

def valueAt (mv : Ptr) : MM Value := do
  match ← read mv with
  | .value v => return v
  | _ => fail .badTag

def arrayAt (mv : Ptr) : MM (Nat × Option Ptr × Ptr) := do
  match ← read mv with
  | .array childrenCount splitOpResult children => return (childrenCount, splitOpResult, children)
  | _ => fail .badTag

/-- The first `count` pointers of a block. -/
def pointersAt (block : Ptr) (count : Nat) : MM (List (Option Ptr)) := do
  match ← read block with
  | .pointers elms => if elms.length < count then fail .outOfBounds else return elms.take count
  | _ => fail .badTag

def setPointer (block : Ptr) (i : Nat) (elm : Option Ptr) : MM Unit := do
  match ← read block with
  | .pointers elms =>
    if i < elms.length then write block (.pointers (elms.set i elm)) else fail .outOfBounds
  | _ => fail .badTag

def processNovectorMonitor (value : Binary64) (now : Int) : MM Ptr :=
  alloc (.value { timestamp := now, value := value })

def newMonitorValueArray (nChildren : Nat) (children : Ptr) (splitOp : Option Ptr) : MM Ptr :=
  alloc (.array nChildren splitOp children)

/-- `if (p) f(p)`, and `free(p)`. -/
def ifSome (p : Option Ptr) (f : Ptr → MM Unit) : MM Unit :=
  match p with
  | none => pure ()
  | some p => f p

/-- `rb_monitor_value_done`. The recursion is no deeper than there are cells. -/
def rbMonitorValueDone (mv : Ptr) : MM Unit := do
  go (← used) mv
where
  go (fuel : Nat) (mv : Ptr) : MM Unit :=
    match fuel with
    | 0 => fail .divergence
    | fuel + 1 => do
      match ← read mv with
      | .value _ => free mv
      | .array childrenCount splitOpResult children =>
        let elms ← pointersAt children childrenCount
        elms.forM (ifSome · (go fuel))
        ifSome splitOpResult (go fuel)
        free children
        free mv
      | _ => fail .badTag

def rbArrayNew (size : Nat) : MM Ptr :=
  alloc (.rbArray 0 (List.replicate size none))

def rbArrayAt (array : Ptr) (i : Nat) : MM (Option Ptr) := do
  match ← read array with
  | .rbArray _ elms => ofExcept (elmAt elms i)
  | _ => fail .badTag

def rbArraySet (array : Ptr) (i : Nat) (elm : Option Ptr) : MM Unit := do
  match ← read array with
  | .rbArray count elms =>
    if i < elms.length then write array (.rbArray count (elms.set i elm)) else fail .outOfBounds
  | _ => fail .badTag

def rbArrayAdd (array : Ptr) (elm : Option Ptr) : MM Unit := do
  match ← read array with
  | .rbArray count elms =>
    if elms.length = count then
      pure ()
    else
      write array (.rbArray (count + 1) (elms.set count elm))
  | _ => fail .badTag

/-- The elements up to `count`. -/
def rbArrayElms (array : Ptr) : MM (List (Option Ptr)) := do
  match ← read array with
  | .rbArray count elms => return elms.take count
  | _ => fail .badTag

def rbArrayDone (array : Option Ptr) : MM Unit :=
  ifSome array free

def rbMonitorValueArraySelect (array : Ptr) (pos : Option (List Int)) : MM (Option Ptr) :=
  match pos with
  | none => return none
  | some pos => do
    let retSize ← ofExcept (posArrayLength pos)
    let ret ← rbArrayNew retSize
    go ret pos
    return some ret
where
  go (ret : Ptr) (pos : List Int) : MM Unit :=
    match pos with
    | [] => fail .outOfBounds
    | p :: pos =>
      if p = -1 then
        pure ()
      else if p < 0 then
        fail .outOfBounds
      else do
        rbArrayAdd ret (← rbArrayAt array p.toNat)
        go ret pos

/-! ### Messages -/

def newMessagesArray (s : Nat) : MM Ptr :=
  alloc (.messages s (List.replicate s none))

/-- `print_monitor_value0`, into message `i` of an array. -/
def printMonitorValue0 (messages : Ptr) (i : Nat) (mv : Ptr) (monitor : Monitor) (inst : Int)
    : MM Unit := do
  let value ← valueAt mv
  let text := printPayload value monitor inst
  let payload ← alloc (.payload text)
  match ← read messages with
  | .messages count msgs =>
    if i < msgs.length then
      write messages (.messages count (msgs.set i (some (payload, text.length))))
    else
      fail .outOfBounds
  | _ => fail .badTag

def setCount (messages : Ptr) (count : Nat) : MM Unit := do
  match ← read messages with
  | .messages _ msgs => write messages (.messages count msgs)
  | _ => fail .badTag

/-- `print_monitor_value`. -/
def printMonitorValue (mv : Ptr) (monitor : Monitor) : MM Ptr := do
  if ← isValue mv then
    let ret ← newMessagesArray 1
    printMonitorValue0 ret 0 mv monitor NO_INSTANCE
    return ret
  else
    let (childrenCount, splitOpResult, children) ← arrayAt mv
    let ret ← newMessagesArray (childrenCount + if splitOpResult.isSome then 1 else 0)
    let iMsgs ← printChildren ret (← pointersAt children childrenCount) 0 0
    ifSome splitOpResult fun so => printMonitorValue0 ret iMsgs so monitor NO_INSTANCE
    setCount ret (iMsgs + if splitOpResult.isSome then 1 else 0)
    return ret
where
  printChildren (ret : Ptr) (children : List (Option Ptr)) (i iMsgs : Nat) : MM Nat :=
    match children with
    | [] => return iMsgs
    | none :: children => printChildren ret children (i + 1) iMsgs
    | some child :: children => do
      printMonitorValue0 ret iMsgs child monitor i
      printChildren ret children (i + 1) (iMsgs + 1)

/-- Which outputs are set up: `kafka_broker` and `http_handler` are no `NULL`. -/
structure Outputs where
  kafkaBroker : Bool
  httpHandler : Bool

inductive Output where
  | kafka
  | http
deriving DecidableEq

/-- A message that an output was asked to copy; nothing depends on whether it could. -/
structure Produced where
  output : Output
  bytes : Option CStr
deriving DecidableEq

/-- The bytes that are copied: no more than there are. -/
def copyPayload : Option (Ptr × Nat) → MM (Option CStr)
  | none => return none
  | some (payload, len) => do
    match ← read payload with
    | .payload text => if text.length < len then fail .outOfBounds else return some (text.take len)
    | _ => fail .badTag

def produce (out : Outputs) (bytes : Option CStr) : List Produced :=
  (if out.kafkaBroker then [{ output := .kafka, bytes := bytes }] else [])
    ++ if out.httpHandler then [{ output := .http, bytes := bytes }] else []

/-- `worker_process_sensor_send_array`. -/
def workerProcessSensorSendArray (out : Outputs) (msgs : Ptr) : MM (List Produced) := do
  match ← read msgs with
  | .messages count elms =>
    if elms.length < count then
      fail .outOfBounds
    else
      let produced ← go (elms.take count)
      free msgs
      return produced
  | _ => fail .badTag
where
  go (elms : List (Option (Ptr × Nat))) : MM (List Produced) :=
    match elms with
    | [] => return []
    | elm :: elms => do
      let bytes ← copyPayload elm
      ifSome (elm.map Prod.fst) free
      return produce out bytes ++ (← go elms)

/-- `worker_process_sensor_send_messages`, and the loop of the same kind in the pass. -/
def workerProcessSensorSendMessages (out : Outputs) (msgs : List Ptr) : MM (List Produced) :=
  match msgs with
  | [] => return []
  | array :: msgs => do
    let produced ← workerProcessSensorSendArray out array
    return produced ++ (← workerProcessSensorSendMessages out msgs)

/-! ### External monitors -/

def splitOp (splitop : Option CStr) (sum : Binary64) (count : Nat) (now : Int)
    : MM (Option Ptr) :=
  match splitop with
  | none => return none
  | some op =>
    if count = 0 then
      return none
    else do
      let result := if op = ['s', 'u', 'm'] then sum else sum / Binary64.ofInt count
      return some (← processNovectorMonitor result now)

namespace processVectorMonitor

structure Acc where
  sum : Binary64 := 0
  meanCount : Nat := 0

def element (monitor : Monitor) (splittok : CStr) (now : Int) (children : Ptr) (tok : CStr)
    (count : Nat) (acc : Acc)
    : MM Acc :=
  if tok = splittok then
    return acc
  else
    let timestampSep := if monitor.timestampGiven then some DEFAULT_TIMESTAMP_SEP else none
    match extractVectorValue tok splittok timestampSep with
    | none => return acc
    | some v => do
      let timestamp := if v.timestamp ≠ 0 then v.timestamp else now
      let child ← processNovectorMonitor v.value timestamp
      setPointer children count (some child)
      return { sum := acc.sum + v.value, meanCount := acc.meanCount + 1 }

def loop (monitor : Monitor) (splittok : CStr) (now : Int) (children : Ptr) (fuel : Nat)
    (tok : Option CStr) (count : Nat) (acc : Acc)
    : MM Acc :=
  match tok with
  | none => return acc
  | some tok =>
    match fuel with
    | 0 => fail .divergence
    | fuel + 1 => do
      let tok := if 0 < count then tok.drop splittok.length else tok
      let acc ← element monitor splittok now children tok count acc
      loop monitor splittok now children fuel (CString.strstr tok splittok) (count + 1) acc

end processVectorMonitor

def processVectorMonitor (monitor : Monitor) (splittok valueBuf : CStr) (now : Int) : MM Ptr := do
  let nChildren ← ofExcept (vectorElements valueBuf splittok)
  let children ← alloc (.pointers (List.replicate nChildren none))
  let acc ← processVectorMonitor.loop monitor splittok now children (valueBuf.length + 1)
    (some valueBuf) 0 {}
  let so ← splitOp monitor.splitop acc.sum acc.meanCount now
  newMonitorValueArray nChildren children so

def rbMonitorGetExternalValue (monitor : Monitor) (valueBuf : CStr) (number : Binary64) (now : Int)
    : MM Ptr :=
  let (valueBuf, number) := if valueBuf = [] then (['0'], 0) else (valueBuf, number)
  match monitor.splittok with
  | none => processNovectorMonitor number now
  | some splittok => processVectorMonitor monitor splittok valueBuf now

def rbMonitorGetSystemExternalValue (monitor : Monitor) (popen : Option (List Char)) (now : Int)
    : MM Ptr :=
  let (valueBuf, number) := systemSolveResponse popen
  rbMonitorGetExternalValue monitor valueBuf number now

def rbMonitorGetSnmpExternalValue (monitor : Monitor) (response : SnmpResponse) (now : Int)
    : MM Ptr :=
  let (valueBuf, number) := snmpSolveResponse response
  rbMonitorGetExternalValue monitor valueBuf number now

/-! ### Operations -/

abbrev OpResult := Option Ptr × List EvalCall

/-- `op_libmatheval_vars`, without the allocation. -/
def opLibmathevalVars (opVars : List (Option Ptr)) (names : List CStr)
    : MM (Option LibmathevalVars) :=
  go opVars 0 0 (newLibmathevalVars opVars.length)
where
  go (rest : List (Option Ptr)) (i expectedVElms : Nat) (vars : LibmathevalVars)
      : MM (Option LibmathevalVars) :=
    match rest with
    | [] => return some vars
    | none :: rest => go rest (i + 1) expectedVElms vars
    | some mv :: rest =>
      match names[i]? with
      | none => fail .outOfBounds
      | some name => do
        let vars' := { vars with names := vars.names.set i (some name), count := vars.count + 1 }
        if ← isValue mv then
          go rest (i + 1) expectedVElms vars'
        else
          let (childrenCount, _, _) ← arrayAt mv
          if vars.count = 0 then
            go rest (i + 1) childrenCount vars'
          else if childrenCount ≠ expectedVElms then
            return none
          else
            go rest (i + 1) expectedVElms vars'

def rbMonitorOpValue0 (lib : Matheval) (vars : LibmathevalVars) (monitor : Monitor) (now : Int)
    : MM OpResult :=
  let call : EvalCall :=
    { operation := monitor.cmdArg
      names := vars.names.take vars.count
      values := vars.values.take vars.count }
  let number := lib.evaluate call.operation call.names call.values
  if !number.isNormal then
    return (none, [call])
  else if (CString.printLf number).length < VAL_BUF_SIZE then do
    return (some (← processNovectorMonitor number now), [call])
  else
    fail (.valBuf call)

def rbMonitorOpValue (lib : Matheval) (opVars : List (Option Ptr)) (vars : LibmathevalVars)
    (monitor : Monitor) (now : Int)
    : MM OpResult :=
  go opVars 0 vars
where
  go (rest : List (Option Ptr)) (v : Nat) (vars : LibmathevalVars) : MM OpResult :=
    match rest with
    | [] => rbMonitorOpValue0 lib vars monitor now
    | none :: _ => return (none, [])
    | some mv :: rest => do
      if ← isValue mv then
        let x ← valueAt mv
        go rest (v + 1) { vars with values := vars.values.set v x.value }
      else
        return (none, [])

def rbMonitorOpVectorI (lib : Matheval) (opVars : List (Option Ptr)) (vars : LibmathevalVars)
    (vPos : Nat) (monitor : Monitor) (now : Int)
    : MM OpResult :=
  go opVars 0 vars
where
  go (rest : List (Option Ptr)) (v : Nat) (vars : LibmathevalVars) : MM OpResult :=
    match rest with
    | [] => rbMonitorOpValue0 lib vars monitor now
    | none :: _ => return (none, [])
    | some mv :: rest => do
      if ← isValue mv then
        let (childrenCount, _, children) ← arrayAt mv
        match ← ofExcept (elmAt (← pointersAt children childrenCount) vPos) with
        | none => return (none, [])
        | some mvI =>
          let x ← valueAt mvI
          go rest (v + 1) { vars with values := vars.values.set v x.value }
      else
        return (none, [])

namespace rbMonitorOpVector

structure Acc where
  sum : Binary64 := 0
  count : Nat := 0
  calls : List EvalCall := []

def loop (lib : Matheval) (opVars : List (Option Ptr)) (vars : LibmathevalVars) (monitor : Monitor)
    (now : Int) (children : Ptr) (todo i : Nat) (acc : Acc)
    : MM Acc :=
  match todo with
  | 0 => return acc
  | todo + 1 => do
    let (child, calls) ← rbMonitorOpVectorI lib opVars vars i monitor now
    setPointer children i child
    let acc := { acc with calls := acc.calls ++ calls }
    match child with
    | none => loop lib opVars vars monitor now children todo (i + 1) acc
    | some mv =>
      let x ← valueAt mv
      loop lib opVars vars monitor now children todo (i + 1)
        { acc with sum := acc.sum + x.value, count := acc.count + 1 }

end rbMonitorOpVector

def rbMonitorOpVector (lib : Matheval) (mv0 : Ptr) (opVars : List (Option Ptr))
    (vars : LibmathevalVars) (monitor : Monitor) (now : Int)
    : MM OpResult := do
  let (childrenCount, _, _) ← arrayAt mv0
  let children ← alloc (.pointers (List.replicate childrenCount none))
  let acc ← rbMonitorOpVector.loop lib opVars vars monitor now children childrenCount 0 {}
  let so ← splitOp monitor.splitop acc.sum acc.count now
  return (some (← newMonitorValueArray childrenCount children so), acc.calls)

/-- The part of `rb_monitor_get_op_result` that has the variables. -/
def rbMonitorOpResultOf (lib : Matheval) (monitor : Monitor) (mv0 : Option Ptr)
    (opVars : List (Option Ptr)) (vars : LibmathevalVars) (now : Int)
    : MM OpResult :=
  match mv0 with
  | none => return (none, [])
  | some mv0 => do
    if ← isValue mv0 then
      rbMonitorOpValue lib opVars vars monitor now
    else
      rbMonitorOpVector lib mv0 opVars vars monitor now

/-- `rb_monitor_get_op_result`. -/
def rbMonitorGetOpResult (lib : Matheval) (monitor : Monitor) (opVars : Option Ptr) (now : Int)
    : MM OpResult :=
  match opVars with
  | none => return (none, [])
  | some opVars => do
    match ← rbArrayElms opVars with
    | [] => return (none, [])
    | mv0 :: rest =>
      if !lib.create monitor.cmdArg then
        return (none, [])
      else
        let f ← alloc .evaluator
        let libmathevalVars ← alloc .libmathevalVars
        match ← opLibmathevalVars (mv0 :: rest) (lib.getVariables monitor.cmdArg) with
        | none =>
          free libmathevalVars
          free f
          return (none, [])
        | some vars =>
          let ret ← rbMonitorOpResultOf lib monitor mv0 (mv0 :: rest) vars now
          free libmathevalVars
          free f
          return ret

/-! ### The pass -/

section

variable (lib : Matheval) (rdDne : Binary64 → Binary64 → Bool)

def processSensorMonitor (monitor : Monitor) (response : Response) (opVars : Option Ptr)
    : MM OpResult :=
  match monitor.type with
  | .system => do
    return (some (← rbMonitorGetSystemExternalValue monitor response.popen response.now), [])
  | .oid => do
    return (some (← rbMonitorGetSnmpExternalValue monitor response.snmp response.now), [])
  | .op => rbMonitorGetOpResult lib monitor opVars response.now

/-- The loops of `process_monitor_value_v_print`, into the block `printChildren`. -/
def printChildren (block : Ptr) (new old : List (Option Ptr)) (i : Nat) : MM Unit :=
  match new, old with
  | [], _ => pure ()
  | newI :: new, [] => do
    setPointer block i newI
    printChildren block new [] (i + 1)
  | none :: new, _ :: old => printChildren block new old (i + 1)
  | some newI :: new, none :: old => do
    setPointer block i (some newI)
    printChildren block new old (i + 1)
  | some newI :: new, some oldI :: old => do
    let n ← valueAt newI
    let o ← valueAt oldI
    let update := rbMonitorValueCmpTimestamp o n < 0 || rdDne o.value n.value
    (if update then setPointer block i (some newI) else pure ())
    printChildren block new old (i + 1)

/-- The messages of a monitor that is sent. -/
def ifSend (monitor : Monitor) (msgs : MM Ptr) : MM (List Ptr) :=
  if monitor.send then (fun msgs => [msgs]) <$> msgs else pure []

/-- `process_monitor_value_v_print`: both the block and what is printed are on the stack. -/
def processMonitorValueVPrint (monitor : Monitor) (newMv oldMv : Ptr) : MM Ptr := do
  let (newCount, newSplitOpResult, newBlock) ← arrayAt newMv
  let (oldCount, _, oldBlock) ← arrayAt oldMv
  let block ← alloc (.pointers (List.replicate newCount none))
  printChildren rdDne block (← pointersAt newBlock newCount) (← pointersAt oldBlock oldCount) 0
  let toPrint ← alloc (.array newCount newSplitOpResult block)
  let msgs ← printMonitorValue toPrint monitor
  free toPrint
  free block
  return msgs

/-- `process_monitor_value_v`: the children are swapped, and what was new is freed. -/
def processMonitorValueV (monitor : Monitor) (newMv oldMv : Ptr) : MM (List Ptr) := do
  let ret ← ifSend monitor (processMonitorValueVPrint rdDne monitor newMv oldMv)
  let (newCount, newSplitOpResult, newBlock) ← arrayAt newMv
  let (oldCount, oldSplitOpResult, oldBlock) ← arrayAt oldMv
  write oldMv (.array newCount oldSplitOpResult newBlock)
  write newMv (.array oldCount newSplitOpResult oldBlock)
  rbMonitorValueDone newMv
  return ret

def updateValue (monitor : Monitor) (monitorValue : Ptr) (oldMv : Option Ptr) : MM Bool :=
  match oldMv with
  | none => return true
  | some oldMv =>
    if !monitor.timestampGiven then
      return true
    else do
      if ← isValue monitorValue then
        let old ← valueAt oldMv
        let new ← valueAt monitorValue
        return rbMonitorValueCmpTimestamp old new < 0 || rdDne old.value new.value
      else
        return false

/-- `process_monitor_value`: the value to store, and the messages that are pushed. -/
def processMonitorValue (monitor : Monitor) (monitorValue : Ptr) (oldMv : Option Ptr)
    : MM (Option Ptr × List Ptr) := do
  if ← updateValue rdDne monitor monitorValue oldMv then
    let msgs ← ifSend monitor (printMonitorValue monitorValue monitor)
    ifSome oldMv rbMonitorValueDone
    return (some monitorValue, msgs)
  else
    match oldMv with
    -- `update_value` holds when there is no old value
    | none => fail .nullPointer
    | some oldMv =>
      if ← isValue monitorValue then
        rbMonitorValueDone monitorValue
        return (some oldMv, [])
      else
        let msgs ← processMonitorValueV rdDne monitor monitorValue oldMv
        return (some oldMv, msgs)

/-- What happens while one monitor is processed. -/
structure MonitorLog where
  calls : List EvalCall
  produced : List Produced

variable {lib}

/-- The last known value of a monitor after it yielded `value`, or nothing. -/
def storeMonitorValue (monitor : Monitor) (value : Option Ptr) (lastKnown : Ptr) (i : Nat)
    : MM (List Ptr) :=
  match value with
  | none => return []
  | some value => do
    let (mv, ret) ← processMonitorValue rdDne monitor value (← rbArrayAt lastKnown i)
    rbArraySet lastKnown i mv
    return ret

/-- The body of the loop of `process_monitors_array`. -/
def processMonitor (sensor : Sensor lib) (out : Outputs) (input : PassInput)
    (lastKnown current : Ptr) (i : Nat)
    : MM MonitorLog := do
  let opVars ← rbMonitorValueArraySelect current (← ofExcept (elmAt sensor.opVars i))
  let monitor ← ofExcept (elmAt sensor.monitors i)
  let (value, calls) ← processSensorMonitor lib monitor (input.response i) opVars
  let ret ← storeMonitorValue rdDne monitor value lastKnown i
  rbArraySet current i (← rbArrayAt lastKnown i)
  rbArrayDone opVars
  let produced ← workerProcessSensorSendMessages out ret
  return { calls := calls, produced := produced }

/-- The array of the iteration, filled from the last known values. -/
def newIteration (lastKnown : Ptr) (count : Nat) : MM Ptr := do
  let current ← rbArrayNew count
  match ← read lastKnown with
  | .rbArray _ elms =>
    if elms.length < count then
      fail .outOfBounds
    else
      write current (.rbArray count (elms.take count))
      return current
  | _ => fail .badTag

/-- `process_monitors_array`. -/
def processMonitorsArray (sensor : Sensor lib) (out : Outputs) (lastKnown : Ptr) (input : PassInput)
    : MM (List MonitorLog) := do
  let aok := sensor.peername.isSome && sensor.community.isSome
  let processCtx ← (if aok then some <$> alloc .context else pure none)
  let current ← newIteration lastKnown sensor.monitors.length
  let logs ← (List.range (if aok && input.session then sensor.monitors.length else 0)).mapM
    (processMonitor rdDne sensor out input lastKnown current)
  free current
  ifSome processCtx free
  return logs

/-- The last values that `sensor_common_attrs_parse_json` allocates. -/
def newLastVals (count : Nat) : MM Ptr :=
  alloc (.rbArray count (List.replicate count none))

/-- What `sensor_done` does with the last values. -/
def lastValsDone (lastVals : Ptr) : MM Unit := do
  let elms ← rbArrayElms lastVals
  elms.forM (ifSome · rbMonitorValueDone)
  free lastVals

/-- The passes of a sensor, and the array of its last values. -/
def passes (sensor : Sensor lib) (out : Outputs) (inputs : List PassInput)
    : MM (Ptr × List (List MonitorLog)) := do
  let lastVals ← newLastVals sensor.monitors.length
  let logs ← inputs.mapM (processMonitorsArray rdDne sensor out lastVals)
  return (lastVals, logs)

/-- The passes of a sensor, until its last reference is put. -/
def processRbSensor (sensor : Sensor lib) (out : Outputs) (inputs : List PassInput)
    : MM (List (List MonitorLog)) := do
  let (lastVals, logs) ← passes rdDne sensor out inputs
  lastValsDone lastVals
  return logs

end

end Mem

end RbMonitor
