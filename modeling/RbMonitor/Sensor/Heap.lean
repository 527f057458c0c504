import RbMonitor.Sensor.Impl
import RbMonitor.Main.Config
import RbMonitor.Monitor.Heap

/-!
This module contains the parsing of a sensor and its end, with the references to its enrichment.
-/

namespace RbMonitor

inductive SnmpVersion where
  | v1
  | v2c
  | v3
  /-- `SNMP_DEFAULT_VERSION`. -/
  | default
deriving DecidableEq

def netSnmpVersion (stringVersion : CStr) : SnmpVersion :=
  if stringVersion = "1".toList then
    .v1
  else if stringVersion = "2c".toList then
    .v2c
  else if stringVersion = "3".toList then
    .v3
  else
    .default

/-- `struct rb_sensor_s`, of which `calloc` makes all zero. -/
structure HeapSensor where
  enrichment : Option Ptr := none
  peername : Option CStr := none
  community : Option CStr := none
  version : Option SnmpVersion := none
  timeout : Int
  monitors : Option (List HeapMonitor) := none
  opVars : Option (List (Option (List Int))) := none
  lastVals : Option (List (Option MonitorValue)) := none
  refcnt : Int

namespace JsonHeap

/-- `sensor_create_enrichment`. -/
def sensorCreateEnrichment (h : JsonHeap) (sensorName : CStr) (sensorId : Int)
    (sensorEnrichment : Ptr) : HM JsonHeap := do
  let h ← addJsonChild h sensorEnrichment "sensor_name" (.string sensorName)
  if sensorId > 0 then addJsonChild h sensorEnrichment "sensor_id" (.int sensorId) else return h

/-- The enrichment of the configuration itself, if there is one, without a reference of its own. -/
def sensorEnrichment (h : JsonHeap) (sensorInfo : Option Ptr) : HM (Ptr × JsonHeap) := do
  match (← jsonObjectObjectGetEx h sensorInfo "enrichment".toList).join with
  | some enrichment => return (enrichment, h)
  | none => return h.alloc (.object [])

section

variable (jsonC : JsonC) (lib : Matheval)

/-- `sensor_common_attrs_parse_json`. -/
def sensorCommonAttrsParseJson (h : JsonHeap) (sensor : HeapSensor) (sensorInfo : Option Ptr)
    : HM (Bool × HeapSensor × JsonHeap) := do
  let sensorId ← childInt64 jsonC h sensorInfo "sensor_id" 0
  match ← childStr jsonC h sensorInfo "sensor_name" with
  | none => return (false, sensor, h)
  | some sensorName =>
    match (← jsonObjectObjectGetEx h sensorInfo "monitors".toList).join with
    | none => return (false, sensor, h)
    | some sensorMonitors =>
      let timeout ← childInt64 jsonC h sensorInfo "timeout" sensor.timeout
      let peername ← childStr jsonC h sensorInfo "sensor_ip"
      let community ← childStr jsonC h sensorInfo "community"
      let snmpVersion ← childStr jsonC h sensorInfo "snmp_version"
      let (enrichment, h) ← sensorEnrichment h sensorInfo
      let h ← sensorCreateEnrichment h sensorName sensorId enrichment
      let (monitors, h) ← parseRbMonitors jsonC h sensorMonitors enrichment
      let sensor := { sensor with
        enrichment := some enrichment
        peername
        community
        version := snmpVersion.map netSnmpVersion
        timeout
        monitors := some monitors
        opVars := some (getMonitorsDependencies lib (monitors.map (·.withEnrichment [])))
        lastVals := some (List.replicate monitors.length none) }
      return (true, sensor, h)

/-- `sensor_common_attrs_check_sensor`. -/
def sensorCommonAttrsCheckSensor (sensor : HeapSensor) : Bool :=
  sensor.peername.isSome && sensor.community.isSome && sensor.monitors.isSome

/-- `sensor_common_attrs`. -/
def sensorCommonAttrs (h : JsonHeap) (sensor : HeapSensor) (sensorInfo : Option Ptr)
    : HM (Bool × HeapSensor × JsonHeap) := do
  let (rc, sensor, h) ← sensorCommonAttrsParseJson jsonC lib h sensor sensorInfo
  return (rc && sensorCommonAttrsCheckSensor sensor, sensor, h)

/-- `sensor_done`. -/
def sensorDone (h : JsonHeap) (sensor : HeapSensor) : HM JsonHeap := do
  let h ← rbMonitorsArrayDone h (sensor.monitors.getD [])
  jsonObjectPut h sensor.enrichment

/-- `rb_sensor_put`: what is left of the sensor, and the heap. -/
def rbSensorPut (h : JsonHeap) (sensor : HeapSensor) : HM (Option HeapSensor × JsonHeap) := do
  let refcnt := sensor.refcnt - 1
  if refcnt = 0 then
    return (none, ← sensorDone h sensor)
  else
    return (some { sensor with refcnt }, h)

/-- `sensor_set_defaults`. -/
def sensorSetDefaults (workerInfo : WorkerInfo) : HeapSensor where
  timeout := workerInfo.timeout
  refcnt := 1

/-- `parse_rb_sensor`. -/
def parseRbSensor (h : JsonHeap) (sensorInfo : Option Ptr) (workerInfo : WorkerInfo)
    : HM (Option HeapSensor × JsonHeap) := do
  let (sensorOk, sensor, h) ←
    sensorCommonAttrs jsonC lib h (sensorSetDefaults workerInfo) sensorInfo
  if sensorOk then
    return (some sensor, h)
  else
    return (none, (← rbSensorPut h sensor).2)

end

end JsonHeap

end RbMonitor
