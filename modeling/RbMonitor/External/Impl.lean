import RbMonitor.Lib.Fields
import RbMonitor.Value.Basic
import RbMonitor.Monitor.Basic

/-!
This module contains the monitors that ask something outside: the output of a command or the answer
of an SNMP agent, as a number or split into a vector.
-/

namespace RbMonitor

open CString

/-- `DEFAULT_TIMESTAMP_SEP`. -/
def DEFAULT_TIMESTAMP_SEP : CStr := [':']

/-- The number of elements of a vector response. An empty token is found at every step. -/
def vectorElements (haystack splittok : CStr) : CM Nat :=
  go (haystack.length + 1) haystack 1
where
  go (fuel : Nat) (haystack : CStr) (ret : Nat) : CM Nat :=
    match fuel with
    | 0 => .error .divergence
    | fuel + 1 =>
      match strstr haystack splittok with
      | none => .ok ret
      | some haystack => go fuel (haystack.drop splittok.length) (ret + 1)

/-- The timestamp and value at the front of `vectorValues`; timestamp 0 stands for none given. -/
def extractVectorValue (vectorValues splittok : CStr) (timestampSep : Option CStr)
    : Option Value :=
  let endToken := (strstr vectorValues splittok).getD []
  match timestampSep with
  | none => toDouble 0 vectorValues
  | some sep =>
    match strstr vectorValues sep with
    | none => none
    | some timestampEnd =>
      -- of two suffixes the shorter one starts later
      if timestampEnd.length ≤ endToken.length then
        none
      else
        toDouble ((scanTu vectorValues).getD 0) (timestampEnd.drop sep.length)
where
  toDouble (timestamp : Int) (vectorValues : CStr) : Option Value :=
    let number := strtod vectorValues
    if number.erange then none else some { timestamp := timestamp, value := number.value }

/-- What `split_op` makes of the elements that are there. -/
def splitOp (splitop : Option CStr) (sum : Binary64) (count : Nat) (now : Int)
    : Option MonitorValue :=
  match splitop with
  | none => none
  | some op =>
    if count = 0 then
      none
    else
      let result := if op = ['s', 'u', 'm'] then sum else sum / Binary64.ofInt count
      some (processNovectorMonitor result now)

namespace processVectorMonitor

structure Acc where
  children : List (Option MonitorValue)
  sum : Binary64 := 0
  meanCount : Nat := 0

/-- The body of the loop, with `tok` past the separator. -/
def element (monitor : Monitor) (splittok : CStr) (now : Int) (tok : CStr) (count : Nat) (acc : Acc)
    : CM Acc :=
  if tok = splittok then
    .ok acc
  else
    let timestampSep := if monitor.timestampGiven then some DEFAULT_TIMESTAMP_SEP else none
    match extractVectorValue tok splittok timestampSep with
    | none => .ok acc
    | some v =>
      if count < acc.children.length then
        let timestamp := if v.timestamp ≠ 0 then v.timestamp else now
        .ok {
          children := acc.children.set count (some (processNovectorMonitor v.value timestamp))
          sum := acc.sum + v.value
          meanCount := acc.meanCount + 1
        }
      else
        .error .outOfBounds

def loop (monitor : Monitor) (splittok : CStr) (now : Int) (fuel : Nat) (tok : Option CStr)
    (count : Nat) (acc : Acc)
    : CM Acc :=
  match tok with
  | none => .ok acc
  | some tok =>
    match fuel with
    | 0 => .error .divergence
    | fuel + 1 => do
      let tok := if 0 < count then tok.drop splittok.length else tok
      let acc ← element monitor splittok now tok count acc
      loop monitor splittok now fuel (strstr tok splittok) (count + 1) acc

end processVectorMonitor

def processVectorMonitor (monitor : Monitor) (splittok valueBuf : CStr) (now : Int)
    : CM MonitorValue := do
  let nChildren ← vectorElements valueBuf splittok
  let acc ← processVectorMonitor.loop monitor splittok now (valueBuf.length + 1) (some valueBuf) 0
    { children := List.replicate nChildren none }
  return .array acc.children (splitOp monitor.splitop acc.sum acc.meanCount now)

/-- The text and the number that `get_value_cb` leaves, taken as a scalar or as a vector. -/
def rbMonitorGetExternalValue (monitor : Monitor) (valueBuf : CStr) (number : Binary64) (now : Int)
    : CM MonitorValue :=
  let (valueBuf, number) := if valueBuf = [] then (['0'], 0) else (valueBuf, number)
  match monitor.splittok with
  | none => .ok (processNovectorMonitor number now)
  | some splittok => processVectorMonitor monitor splittok valueBuf now

/-- `fgets`: at most `size - 1` bytes, and nothing after a newline. -/
def fgets (size : Nat) (stream : List Char) : Option (List Char) :=
  if stream = [] then
    none
  else
    let text := stream.take (size - 1)
    some (text.takeWhile (· ≠ '\n') ++ if '\n' ∈ text then ['\n'] else [])

def trimEnd (buf : CStr) : CStr :=
  buf.rdropWhile isSpace

/-- `system_solve_response`: `popen` is the output of the command, if it could be run. -/
def systemSolveResponse (popen : Option (List Char)) : CStr × Binary64 :=
  match popen.bind (fgets BUFSIZ) with
  | none => (['0'], 0)
  | some line =>
    let buff := trimEnd (ofBytes line)
    if startsWithNumber buff then
      (buff, (strtod buff).value)
    else
      (['0'], 0)

/-- The first variable of an SNMP response. -/
inductive SnmpResponse where
  | error
  | integer (n : Int)
  | gauge (n : Int)
  | octetStr (bytes : List Char)
  | counter32 (n : Int)
  | counter64 (high low : Nat)
  | unknown

def snmpSolveResponse : SnmpResponse → CStr × Binary64
  | .error | .unknown => (['0'], 0)
  | .integer n | .gauge n | .counter32 n => (printInt n, Binary64.ofInt n)
  | .octetStr bytes =>
    if bytes = [] then
      (['0'], 0)
    else
      let valueBuf := (ofBytes bytes).take (BUFSIZ - 1)
      (valueBuf, (strtod valueBuf).value)
  | .counter64 _ low => (printNat low, Binary64.ofInt low)

def rbMonitorGetSystemExternalValue (monitor : Monitor) (popen : Option (List Char)) (now : Int)
    : CM MonitorValue :=
  let (valueBuf, number) := systemSolveResponse popen
  rbMonitorGetExternalValue monitor valueBuf number now

def rbMonitorGetSnmpExternalValue (monitor : Monitor) (response : SnmpResponse) (now : Int)
    : CM MonitorValue :=
  let (valueBuf, number) := snmpSolveResponse response
  rbMonitorGetExternalValue monitor valueBuf number now

end RbMonitor
