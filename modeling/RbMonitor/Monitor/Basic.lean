import RbMonitor.Lib.LinkHash
import RbMonitor.Lib.Binary64
import RbMonitor.Lib.CString

/-!
This module contains the configuration of a monitor.
-/

/-- A value of json-c. -/
inductive Json where
  | null
  | boolean (b : Bool)
  | int (n : Int)
  | double (d : Binary64)
  | string (s : CStr)
  | array (elms : List Json)
  | object (members : List (CStr × Json))

namespace RbMonitor

/-- `enum monitor_cmd_type`, in the order in which the keys are searched. -/
inductive MonitorCmdType where
  | system
  | oid
  | op
deriving DecidableEq, Repr

/-- `struct rb_monitor_s`. `parse_rb_monitor0` refuses given timestamps on an operation. -/
structure Monitor where
  type : MonitorCmdType
  name : CStr
  nameSplitSuffix : Option CStr := none
  instancePrefix : Option CStr := none
  groupId : Option CStr := none
  send : Bool := true
  timestampGiven : Bool := false
  integer : Bool := false
  splittok : Option CStr := none
  splitop : Option CStr := none
  cmdArg : CStr
  enrichment : LinkHash CStr Json := []
  op_timestampGiven : type = .op → timestampGiven = false := by
    first | exact fun _ => rfl | exact nofun

end RbMonitor
