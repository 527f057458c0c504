import RbMonitor.Lib.Strtod
import RbMonitor.Value.Basic
import RbMonitor.Monitor.Basic

/-!
This module contains the messages that are printed for a monitor value.
-/

namespace RbMonitor

open CString

/-- `struct rb_message`: the payload, with the value and the instance it was printed from. -/
structure RbMessage where
  value : Value
  inst : Int
  payload : CStr
deriving DecidableEq

def NO_INSTANCE : Int := -1

/-- One entry of the enrichment. Objects and arrays are skipped. -/
def printMonitorValueEnrichmentEntry (key : CStr) : Json → CStr
  | .string str => ",\"".toList ++ key ++ "\":\"".toList ++ ofBytes str ++ "\"".toList
  | .int integer => ",\"".toList ++ key ++ "\":".toList ++ printInt integer
  | .null => ",\"".toList ++ key ++ "\":null".toList
  | .boolean b => ",\"".toList ++ key ++ "\":".toList ++ (if b then "true" else "false").toList
  | .double d => ",\"".toList ++ key ++ "\":".toList ++ printLf d
  | .object _ | .array _ => []

/-- `print_monitor_value_enrichment`. -/
def printMonitorValueEnrichment (enrichment : LinkHash CStr Json) : CStr :=
  enrichment.flatMap fun (key, val) => printMonitorValueEnrichmentEntry key val

/-- The payload that `print_monitor_value0` builds. -/
def printPayload (value : Value) (monitor : Monitor) (inst : Int) : CStr :=
  "\x7b\"timestamp\":".toList ++ printNat (value.timestamp % 2 ^ 64).toNat
    ++ ",\"monitor\":\"".toList ++ monitor.name
    ++ (if inst ≠ NO_INSTANCE then monitor.nameSplitSuffix.getD [] else []) ++ "\"".toList
    ++ (match monitor.instancePrefix with
      | some instancePrefix =>
        if inst ≠ NO_INSTANCE then
          ",\"instance\":\"".toList ++ instancePrefix ++ printInt inst ++ "\"".toList
        else
          []
      | none => [])
    ++ (if monitor.integer then
        ",\"value\":".toList ++ printInt value.value.toInt64
      else
        ",\"value\":\"".toList ++ printLf value.value ++ "\"".toList)
    ++ (match monitor.groupId with
      | some groupId => ",\"group_id\":".toList ++ groupId
      | none => [])
    ++ printMonitorValueEnrichment monitor.enrichment ++ "\x7d".toList

/-- `print_monitor_value0`. -/
def printMonitorValue0 (value : Value) (monitor : Monitor) (inst : Int) : RbMessage :=
  { value := value, inst := inst, payload := printPayload value monitor inst }

/-- `print_monitor_value`. -/
def printMonitorValue (monitorValue : MonitorValue) (monitor : Monitor) : CM (List RbMessage) :=
  match monitorValue with
  | .value value => .ok [printMonitorValue0 value monitor NO_INSTANCE]
  | .array children splitOpResult => do
    let msgs ← printChildren children 0
    match splitOpResult with
    | none => return msgs
    | some so => return msgs ++ [printMonitorValue0 (← so.asValue) monitor NO_INSTANCE]
where
  printChildren (children : List (Option MonitorValue)) (i : Nat) : CM (List RbMessage) :=
    match children with
    | [] => .ok []
    | none :: children => printChildren children (i + 1)
    | some child :: children => do
      let value ← child.asValue
      return printMonitorValue0 value monitor i :: (← printChildren children (i + 1))

end RbMonitor
