import RbMonitor.Json.Heap

/-!
This module contains the parsing of the monitors of a sensor with the references it takes.
-/

namespace RbMonitor

/-- `struct rb_monitor_s` with the reference to its enrichment. -/
structure HeapMonitor where
  type : MonitorCmdType
  name : CStr
  nameSplitSuffix : Option CStr
  instancePrefix : Option CStr
  groupId : Option CStr
  send : Bool
  timestampGiven : Bool
  integer : Bool
  splittok : Option CStr
  splitop : Option CStr
  cmdArg : CStr
  enrichment : Ptr
  op_timestampGiven : type = .op → timestampGiven = false

def HeapMonitor.withEnrichment (monitor : HeapMonitor) (enrichment : LinkHash CStr Json) : Monitor where
  type := monitor.type
  name := monitor.name
  nameSplitSuffix := monitor.nameSplitSuffix
  instancePrefix := monitor.instancePrefix
  groupId := monitor.groupId
  send := monitor.send
  timestampGiven := monitor.timestampGiven
  integer := monitor.integer
  splittok := monitor.splittok
  splitop := monitor.splitop
  cmdArg := monitor.cmdArg
  enrichment := enrichment
  op_timestampGiven := monitor.op_timestampGiven

namespace JsonHeap

/-- `extract_monitor_cmd`. -/
def extractMonitorCmd (jsonC : JsonC) (h : JsonHeap) (jsonMonitor : Option Ptr)
    : HM (Option (MonitorCmdType × CStr)) :=
  go [.system, .oid, .op]
where
  go : List MonitorCmdType → HM (Option (MonitorCmdType × CStr))
    | [] => return none
    | type :: types => do
      match ← jsonObjectObjectGetEx h jsonMonitor type.cmdKey.toList with
      | some jsonCmdArg =>
        return (jsonObjectGetString jsonC (← jsonValue h jsonCmdArg)).map fun cmdArg => (type, cmdArg)
      | none => go types

/-- The own enrichment of a monitor is added to the copy of the one of its sensor. -/
def addMonitorEnrichment (h : JsonHeap) (enrichment : Ptr) (jsonMonitor : Option Ptr)
    : HM JsonHeap := do
  match ← jsonObjectObjectGetEx h jsonMonitor "enrichment".toList with
  | none => return h
  | some monitorEnrichment =>
    -- every value gets a reference and is added, as in a copy
    jsonObjectCopy0Childs h enrichment (← jsonObjectMembers h monitorEnrichment)

/-- The array `enrichment_add`. All strings are there before the first is added. -/
def newEnrichmentStrs (h : JsonHeap) : List (String × Option CStr)
    → LinkHash CStr (Option Ptr) × JsonHeap
  | [] => ([], h)
  | (_, none) :: rest => newEnrichmentStrs h rest
  | (key, some val) :: rest =>
    let (str, h) := h.alloc (.string val)
    let (adds, h) := newEnrichmentStrs h rest
    ((key.toList, some str) :: adds, h)

def enrichmentStrs (type : MonitorCmdType) (unit groupName : Option CStr)
    : List (String × Option CStr) :=
  [("type", some type.rbMonitorType.toList), ("unit", unit), ("group_name", groupName)]

def parseRbMonitor0 (jsonC : JsonC) (h : JsonHeap) (type : MonitorCmdType) (cmdArg : CStr)
    (jsonMonitor : Option Ptr) (sensorEnrichment : Ptr) : HM (Option HeapMonitor × JsonHeap) := do
  match ← childStr jsonC h jsonMonitor "name" with
  | none => return (none, h)
  | some name =>
    let auxSplitOp ← childStr jsonC h jsonMonitor "split_op"
    let unit ← childStr jsonC h jsonMonitor "unit"
    let groupName ← childStr jsonC h jsonMonitor "group_name"
    let auxTimestampGiven ← childInt64 jsonC h jsonMonitor "timestamp_given" 0
    let splittok ← childStr jsonC h jsonMonitor "split"
    let nameSplitSuffix ← childStr jsonC h jsonMonitor "name_split_suffix"
    let instancePrefix ← childStr jsonC h jsonMonitor "instance_prefix"
    let groupId ← childStr jsonC h jsonMonitor "group_id"
    let send ← childInt64 jsonC h jsonMonitor "send" 1
    let integer ← childInt64 jsonC h jsonMonitor "integer" 0
    match ← jsonObjectObjectCopy h sensorEnrichment with
    | (none, h) => return (none, h)
    | (some enrichment, h) =>
      let h ← addMonitorEnrichment h enrichment jsonMonitor
      let (adds, h) := newEnrichmentStrs h (enrichmentStrs type unit groupName)
      let h ← adds.foldlM (fun h e => jsonObjectObjectAdd h enrichment e.1 e.2) h
      return (some {
        type
        name
        nameSplitSuffix
        instancePrefix
        groupId
        send := send ≠ 0
        -- an `int`
        timestampGiven := type ≠ .op ∧ auxTimestampGiven.bmod (2 ^ 32) ≠ 0
        integer := integer ≠ 0
        splittok
        splitop := auxSplitOp.filter validSplitOp
        cmdArg
        enrichment
        op_timestampGiven := fun h => by simp [h] }, h)

/-- `parse_rb_monitor`. -/
def parseRbMonitor (jsonC : JsonC) (h : JsonHeap) (jsonMonitor : Option Ptr)
    (sensorEnrichment : Ptr) : HM (Option HeapMonitor × JsonHeap) := do
  match ← extractMonitorCmd jsonC h jsonMonitor with
  | none => return (none, h)
  | some (cmdType, cmdArg) => parseRbMonitor0 jsonC h cmdType cmdArg jsonMonitor sensorEnrichment

/-- `parse_rb_monitors`. The array has place for every monitor of the configuration. -/
def parseRbMonitors (jsonC : JsonC) (h : JsonHeap) (monitorsArrayJson sensorEnrichment : Ptr)
    : HM (List HeapMonitor × JsonHeap) := do
  go h (← jsonObjectArrayElms h monitorsArrayJson)
where
  go (h : JsonHeap) : List (Option Ptr) → HM (List HeapMonitor × JsonHeap)
    | [] => return ([], h)
    | monitorJson :: rest => do
      let (monitor, h) ← parseRbMonitor jsonC h monitorJson sensorEnrichment
      let (monitors, h) ← go h rest
      return (monitor.toList ++ monitors, h)

/-- `rb_monitor_done`. -/
def rbMonitorDone (h : JsonHeap) (monitor : HeapMonitor) : HM JsonHeap :=
  jsonObjectPut h (some monitor.enrichment)

def rbMonitorsArrayDone (h : JsonHeap) (monitorsArray : List HeapMonitor) : HM JsonHeap :=
  monitorsArray.foldlM rbMonitorDone h

end JsonHeap

end RbMonitor
