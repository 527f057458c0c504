import Mathlib.Data.List.ReduceOption
import RbMonitor.Op.ElementWise
import RbMonitor.Sensor.Total

/-!
This module contains the array that a monitor with a split token makes of a response.
-/

namespace RbMonitor

open CString

/-- The sum or the mean of the elements, if there are any. -/
def splitResult (op : CStr) (vs : List Value) : Option Binary64 :=
  if vs = [] then none else some (aggregate op vs)

/-- The text that a monitor splits in a pass. -/
def responseText (monitor : Monitor) (response : Response) : CStr :=
  let valueBuf :=
    match monitor.type with
    | .system => (systemSolveResponse response.popen).1
    | .oid => (snmpSolveResponse response.snmp).1
    | .op => []
  if valueBuf = [] then ['0'] else valueBuf

/-- The elements of a response. -/
def responseElements (monitor : Monitor) (splittok : CStr) (response : Response)
    : List (Option Value) :=
  (starts splittok (responseText monitor response)).map
    (elementValue monitor splittok response.now)

def responseArray (monitor : Monitor) (splittok : CStr) (response : Response) : ValueArray :=
  let elements := responseElements monitor splittok response
  { children := elements
    splitOpResult :=
      (monitor.splitop.bind (splitResult · elements.reduceOption)).map fun result =>
        { timestamp := response.now, value := result } }

theorem splitOp_eq (splitop : Option CStr) (values : List (Option Value)) (now : Int)
    : splitOp splitop (sumOf values) (countOf values) now =
        ((splitop.bind (splitResult · values.reduceOption)).map fun result =>
          ({ timestamp := now, value := result } : Value)).map .value := by
  unfold splitOp splitResult
  cases splitop with
  | none => rfl
  | some op =>
    have hcount : countOf values = 0 ↔ values.reduceOption = [] := List.length_eq_zero_iff
    by_cases hnil : values.reduceOption = []
    . simp [hcount, hnil]
    . simp only [hcount, hnil, if_false, Option.bind_some, Option.map_some]
      rfl

theorem processVectorMonitor_eq_responseArray (monitor : Monitor) {splittok : CStr}
    (htok : splittok ≠ []) (response : Response)
    : processVectorMonitor monitor splittok (responseText monitor response) response.now =
        .ok (responseArray monitor splittok response).toMonitorValue := by
  rw [processVectorMonitor_eq monitor htok]
  simp only [splitOp_eq]
  rfl

theorem processSensorMonitor_of_split {lib : Matheval} {monitor : Monitor} {splittok : CStr}
    (hop : monitor.type ≠ .op) (hsplit : monitor.splittok = some splittok) (htok : splittok ≠ [])
    (response : Response) (opVars : Option (List (Option MonitorValue)))
    : processSensorMonitor lib monitor response opVars =
        .ok (some (responseArray monitor splittok response).toMonitorValue, []) := by
  have hok := processVectorMonitor_eq_responseArray monitor htok response
  have hexternal (valueBuf : CStr) (number : Binary64)
      (htext : responseText monitor response = if valueBuf = [] then ['0'] else valueBuf)
      : rbMonitorGetExternalValue monitor valueBuf number response.now =
          .ok (responseArray monitor splittok response).toMonitorValue := by
    unfold rbMonitorGetExternalValue
    rw [hsplit, ← hok, htext]
    by_cases hnil : valueBuf = [] <;> simp [hnil]
  unfold processSensorMonitor
  cases htype : monitor.type with
  | system =>
    have htext : responseText monitor response =
        if (systemSolveResponse response.popen).1 = [] then ['0']
        else (systemSolveResponse response.popen).1 := by
      simp [responseText, htype]
    simp [rbMonitorGetSystemExternalValue, hexternal _ _ htext, Bind.bind, Except.bind, Pure.pure,
      Except.pure]
  | oid =>
    have htext : responseText monitor response =
        if (snmpSolveResponse response.snmp).1 = [] then ['0']
        else (snmpSolveResponse response.snmp).1 := by
      simp [responseText, htype]
    simp [rbMonitorGetSnmpExternalValue, hexternal _ _ htext, Bind.bind, Except.bind, Pure.pure,
      Except.pure]
  | op => exact absurd htype hop

theorem splittok_ne_nil_of_processSensorMonitor {lib : Matheval} {monitor : Monitor}
    {splittok : CStr} (hop : monitor.type ≠ .op)
    (hsplit : monitor.splittok = some splittok) {response : Response}
    {opVars : Option (List (Option MonitorValue))} {r : OpResult}
    (h : processSensorMonitor lib monitor response opVars = .ok r)
    : splittok ≠ [] := by
  intro hnil
  rw [processSensorMonitor_of_splittok_nil hop (hnil ▸ hsplit)] at h
  cases h

theorem yields_responseArray {lib : Matheval} {monitor : Monitor} {splittok : CStr}
    (hop : monitor.type ≠ .op) (hsplit : monitor.splittok = some splittok) {response : Response}
    {opVars : Option (List (Option MonitorValue))} {value : Option MonitorValue}
    {calls : List EvalCall}
    (h : processSensorMonitor lib monitor response opVars = .ok (value, calls))
    : value = some (responseArray monitor splittok response).toMonitorValue := by
  have htok := splittok_ne_nil_of_processSensorMonitor hop hsplit h
  rw [processSensorMonitor_of_split hop hsplit htok, Except.ok.injEq, Prod.mk.injEq] at h
  exact h.1.symm

end RbMonitor
