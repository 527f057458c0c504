import RbMonitor.External.Impl

/-!
This module contains the monitors that operate on the values of other monitors.
-/

namespace RbMonitor

open CString

/-- libmatheval: which expressions parse, their variables in the order in which they are listed, and
the number that an expression has for named values. -/
structure Matheval where
  create : CStr → Bool
  getVariables : CStr → List CStr
  evaluate : CStr → List (Option CStr) → List Binary64 → Binary64

/-- Sums of distinct variables, as libmatheval evaluates them. -/
def Matheval.sums : Matheval where
  create operation := operation ≠ []
  getVariables operation := fields ['+'] operation
  evaluate _ _ values := values.foldl (· + ·) 0

/-- `struct libmatheval_vars`: both arrays have the length given at allocation. -/
structure LibmathevalVars where
  names : List (Option CStr)
  values : List Binary64
  count : Nat

def newLibmathevalVars (newSize : Nat) : LibmathevalVars :=
  { names := List.replicate newSize none, values := List.replicate newSize 0, count := 0 }

/-- The value of an operation, if any, and the calls of the evaluator. -/
abbrev OpResult := Option MonitorValue × List EvalCall

/-- `op_libmatheval_vars`: the operands are paired with the names, and vectors of different size
are refused. -/
def opLibmathevalVars (opVars : List (Option MonitorValue)) (names : List CStr)
    : CM (Option LibmathevalVars) :=
  go opVars 0 0 (newLibmathevalVars opVars.length)
where
  go (rest : List (Option MonitorValue)) (i expectedVElms : Nat) (vars : LibmathevalVars)
      : CM (Option LibmathevalVars) :=
    match rest with
    | [] => .ok (some vars)
    | none :: rest => go rest (i + 1) expectedVElms vars
    | some mv :: rest =>
      match names[i]? with
      | none => .error .outOfBounds
      | some name =>
        let vars' := { vars with names := vars.names.set i (some name), count := vars.count + 1 }
        match mv with
        | .value _ => go rest (i + 1) expectedVElms vars'
        | .array children _ =>
          if vars.count = 0 then
            go rest (i + 1) children.length vars'
          else if children.length ≠ expectedVElms then
            .ok none
          else
            go rest (i + 1) expectedVElms vars'

/-- The size of `val_buf` in `rb_monitor_op_value0`. -/
def VAL_BUF_SIZE : Nat := 64

/-- `rb_monitor_op_value0`, with the `sprintf` of an accepted number to `val_buf`. -/
def rbMonitorOpValue0 (lib : Matheval) (vars : LibmathevalVars) (monitor : Monitor) (now : Int)
    : CM OpResult :=
  let call : EvalCall :=
    { operation := monitor.cmdArg
      names := vars.names.take vars.count
      values := vars.values.take vars.count }
  let number := lib.evaluate call.operation call.names call.values
  if !number.isNormal then
    .ok (none, [call])
  else if (printLf number).length < VAL_BUF_SIZE then
    .ok (some (processNovectorMonitor number now), [call])
  else
    -- the terminator, at least, goes past the end of `val_buf`
    .error (.valBuf call)

/-- `rb_monitor_op_value`, on scalars. -/
def rbMonitorOpValue (lib : Matheval) (opVars : List (Option MonitorValue)) (vars : LibmathevalVars)
    (monitor : Monitor) (now : Int)
    : CM OpResult :=
  go opVars 0 vars
where
  go (rest : List (Option MonitorValue)) (v : Nat) (vars : LibmathevalVars) : CM OpResult :=
    match rest with
    | [] => rbMonitorOpValue0 lib vars monitor now
    | none :: _ => .ok (none, [])
    | some mv :: rest =>
      if !mv.isValue then
        .ok (none, [])
      else do
        let x ← mv.asValue
        go rest (v + 1) { vars with values := vars.values.set v x.value }

/-- `rb_monitor_op_vector_i`. The tag that is tested is `VALUE`, and then the operand is read as an
array. -/
def rbMonitorOpVectorI (lib : Matheval) (opVars : List (Option MonitorValue))
    (vars : LibmathevalVars) (vPos : Nat) (monitor : Monitor) (now : Int)
    : CM OpResult :=
  go opVars 0 vars
where
  go (rest : List (Option MonitorValue)) (v : Nat) (vars : LibmathevalVars) : CM OpResult :=
    match rest with
    | [] => rbMonitorOpValue0 lib vars monitor now
    | none :: _ => .ok (none, [])
    | some mv :: rest =>
      if !mv.isValue then
        .ok (none, [])
      else do
        let (children, _) ← mv.asArray
        match children[vPos]? with
        | none => .error .outOfBounds
        | some none => .ok (none, [])
        | some (some mvI) =>
          let x ← mvI.asValue
          go rest (v + 1) { vars with values := vars.values.set v x.value }

namespace rbMonitorOpVector

structure Acc where
  children : List (Option MonitorValue) := []
  sum : Binary64 := 0
  count : Nat := 0
  calls : List EvalCall := []

/-- The loop over the positions from `i` on. -/
def loop (lib : Matheval) (opVars : List (Option MonitorValue)) (vars : LibmathevalVars)
    (monitor : Monitor) (now : Int) (todo i : Nat) (acc : Acc)
    : CM Acc :=
  match todo with
  | 0 => .ok acc
  | todo + 1 => do
    let (child, calls) ← rbMonitorOpVectorI lib opVars vars i monitor now
    let acc := { acc with children := acc.children ++ [child], calls := acc.calls ++ calls }
    match child with
    | none => loop lib opVars vars monitor now todo (i + 1) acc
    | some mv =>
      let x ← mv.asValue
      loop lib opVars vars monitor now todo (i + 1)
        { acc with sum := acc.sum + x.value, count := acc.count + 1 }

end rbMonitorOpVector

/-- `rb_monitor_op_vector`, with the first operand read as an array. -/
def rbMonitorOpVector (lib : Matheval) (mv0 : MonitorValue) (opVars : List (Option MonitorValue))
    (vars : LibmathevalVars) (monitor : Monitor) (now : Int)
    : CM OpResult := do
  let (children, _) ← mv0.asArray
  let acc ← rbMonitorOpVector.loop lib opVars vars monitor now children.length 0 {}
  return (some (.array acc.children (splitOp monitor.splitop acc.sum acc.count now)), acc.calls)

/-- `rb_monitor_get_op_result`; `opVars` is `NULL` for a monitor whose dependencies could not be
resolved. -/
def rbMonitorGetOpResult (lib : Matheval) (monitor : Monitor)
    (opVars : Option (List (Option MonitorValue))) (now : Int)
    : CM OpResult :=
  match opVars with
  | none | some [] => .ok (none, [])
  | some (mv0 :: rest) =>
    if !lib.create monitor.cmdArg then
      .ok (none, [])
    else do
      match ← opLibmathevalVars (mv0 :: rest) (lib.getVariables monitor.cmdArg) with
      | none => .ok (none, [])
      | some vars =>
        match mv0 with
        | none => .ok (none, [])
        | some mv0 =>
          if mv0.isValue then
            rbMonitorOpValue lib (some mv0 :: rest) vars monitor now
          else
            rbMonitorOpVector lib mv0 (some mv0 :: rest) vars monitor now

end RbMonitor
