import RbMonitor.Value.Basic
import RbMonitor.Monitor.Basic

/-!
This module contains the parsing of a monitor from its configuration.
-/

/-- What is used of json-c: the text of a value that is no string, and a value as an integer. -/
structure JsonC where
  toJsonString : Json → CStr
  getInt64 : Json → Int

namespace RbMonitor

open CString

/-- `json_object_object_get_ex`: nothing is found in what is no object. -/
def jsonObjectGetEx (base : Json) (key : CStr) : Option Json :=
  match base with
  | .object members => members.lookup key
  | _ => none

/-- `json_object_get_string`, which is `NULL` for null. -/
def jsonObjectGetString (jsonC : JsonC) : Json → Option CStr
  | .null => none
  | .string str => some (ofBytes str)
  | val => some (ofBytes (jsonC.toJsonString val))

/-- `PARSE_CJSON_CHILD0`. A child that is null is none. -/
def parseCjsonChild {α : Type} (base : Json) (childKey : CStr) (cb : Json → α) (defaultValue : α)
    : α :=
  match jsonObjectGetEx base childKey with
  | none | some .null => defaultValue
  | some value => cb value

def parseCjsonChildInt64 (jsonC : JsonC) (base : Json) (childKey : String) (defaultValue : Int)
    : Int :=
  parseCjsonChild base childKey.toList jsonC.getInt64 defaultValue

def parseCjsonChildDupStr (jsonC : JsonC) (base : Json) (childKey : String) : Option CStr :=
  parseCjsonChild base childKey.toList (jsonObjectGetString jsonC) none

/-- `json_object_object_copy`. -/
def jsonObjectCopy (orig : Json) : Option (LinkHash CStr Json) :=
  match orig with
  | .object members => some (LinkHash.insertAll [] members)
  | _ => none

/-- `rb_monitor_type`. -/
def MonitorCmdType.rbMonitorType : MonitorCmdType → String
  | .system => "system"
  | .oid => "snmp"
  | .op => "op"

def MonitorCmdType.cmdKey : MonitorCmdType → String
  | .system => "system"
  | .oid => "oid"
  | .op => "op"

/-- `extract_monitor_cmd`: the first key that is there decides. -/
def extractMonitorCmd (jsonC : JsonC) (jsonMonitor : Json) : Option (MonitorCmdType × CStr) :=
  go [.system, .oid, .op]
where
  go : List MonitorCmdType → Option (MonitorCmdType × CStr)
    | [] => none
    | type :: types =>
      match jsonObjectGetEx jsonMonitor type.cmdKey.toList with
      | some jsonCmdArg => (jsonObjectGetString jsonC jsonCmdArg).map fun cmdArg => (type, cmdArg)
      | none => go types

def validSplitOp (splitOp : CStr) : Bool :=
  splitOp = "sum".toList || splitOp = "mean".toList

/-- The own enrichment of a monitor is added to the one of its sensor. -/
def addMonitorEnrichment (jsonMonitor : Json) (enrichment : LinkHash CStr Json)
    : CM (LinkHash CStr Json) :=
  match jsonObjectGetEx jsonMonitor "enrichment".toList with
  | none => return enrichment
  | some (.object members) => return LinkHash.insertAll enrichment members
  | some _ => .error .nullPointer

/-- `RB_MONITOR_ENRICHMENT_STR`. -/
def rbMonitorEnrichmentStr (key : String) (val : Option CStr) : LinkHash CStr Json :=
  (val.map fun val => (key.toList, Json.string val)).toList

def enrichmentAdd (type : MonitorCmdType) (unit groupName : Option CStr) : LinkHash CStr Json :=
  rbMonitorEnrichmentStr "type" type.rbMonitorType.toList ++ rbMonitorEnrichmentStr "unit" unit
    ++ rbMonitorEnrichmentStr "group_name" groupName

def parseRbMonitor0 (jsonC : JsonC) (type : MonitorCmdType) (cmdArg : CStr) (jsonMonitor : Json)
    (sensorEnrichment : Json) : CM (Option Monitor) :=
  match parseCjsonChildDupStr jsonC jsonMonitor "name" with
  | none => return none
  | some name => do
    let splitOp := (parseCjsonChildDupStr jsonC jsonMonitor "split_op").filter validSplitOp
    -- an `int`
    let auxTimestampGiven := (parseCjsonChildInt64 jsonC jsonMonitor "timestamp_given" 0).bmod (2 ^ 32)
    match jsonObjectCopy sensorEnrichment with
    | none => return none
    | some copy =>
      let enrichment ← addMonitorEnrichment jsonMonitor copy
      let unit := parseCjsonChildDupStr jsonC jsonMonitor "unit"
      let groupName := parseCjsonChildDupStr jsonC jsonMonitor "group_name"
      return some {
        type
        name
        nameSplitSuffix := parseCjsonChildDupStr jsonC jsonMonitor "name_split_suffix"
        instancePrefix := parseCjsonChildDupStr jsonC jsonMonitor "instance_prefix"
        groupId := parseCjsonChildDupStr jsonC jsonMonitor "group_id"
        send := parseCjsonChildInt64 jsonC jsonMonitor "send" 1 ≠ 0
        timestampGiven := type ≠ .op ∧ auxTimestampGiven ≠ 0
        integer := parseCjsonChildInt64 jsonC jsonMonitor "integer" 0 ≠ 0
        splittok := parseCjsonChildDupStr jsonC jsonMonitor "split"
        splitop := splitOp
        cmdArg
        enrichment := LinkHash.insertAll enrichment (enrichmentAdd type unit groupName)
        op_timestampGiven := fun h => by simp [h] }

/-- `parse_rb_monitor`. -/
def parseRbMonitor (jsonC : JsonC) (jsonMonitor sensorEnrichment : Json) : CM (Option Monitor) :=
  match extractMonitorCmd jsonC jsonMonitor with
  | none => return none
  | some (cmdType, cmdArg) => parseRbMonitor0 jsonC cmdType cmdArg jsonMonitor sensorEnrichment

theorem nodup_keys_of_jsonObjectCopy {orig : Json} {copy : LinkHash CStr Json}
    (h : jsonObjectCopy orig = some copy)
    : (LinkHash.keys copy).Nodup := by
  unfold jsonObjectCopy at h
  split at h
  . cases h
    apply LinkHash.nodup_keys_insertAll
    exact List.nodup_nil
  . cases h

theorem nodup_keys_of_addMonitorEnrichment {jsonMonitor : Json}
    {sensorEnrichment enrichment : LinkHash CStr Json}
    (hsensor : (LinkHash.keys sensorEnrichment).Nodup)
    (h : addMonitorEnrichment jsonMonitor sensorEnrichment = .ok enrichment)
    : (LinkHash.keys enrichment).Nodup := by
  unfold addMonitorEnrichment at h
  split at h
  . cases h
    exact hsensor
  . cases h
    exact LinkHash.nodup_keys_insertAll hsensor _
  . cases h

theorem nodup_keys_of_parseRbMonitor {jsonC : JsonC} {jsonMonitor sensorEnrichment : Json}
    {monitor : Monitor} (h : parseRbMonitor jsonC jsonMonitor sensorEnrichment = .ok (some monitor))
    : (LinkHash.keys monitor.enrichment).Nodup := by
  unfold parseRbMonitor at h
  split at h
  . cases h
  . unfold parseRbMonitor0 at h
    split at h
    . cases h
    . simp only at h
      split at h
      . cases h
      . next copy hcopy =>
        rcases CM.bind_eq_ok.mp h with ⟨enrichment, henrichment, hmonitor⟩
        cases hmonitor
        apply LinkHash.nodup_keys_insertAll
        exact nodup_keys_of_addMonitorEnrichment (nodup_keys_of_jsonObjectCopy hcopy) henrichment

end RbMonitor
