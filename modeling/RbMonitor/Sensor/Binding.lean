import RbMonitor.Sensor.Lemmas
import RbMonitor.Sensor.Store

/-!
This module contains the pairing of the variables of an operation with the values of the monitors
they stand for.
-/

namespace RbMonitor

/-- The calls of the evaluator for an operation pair each variable with the scalar that `values`
holds for the first monitor with its name and the group of the operation, and there is none if some
variable has no such monitor or that monitor has no value. -/
structure BindsByName (lib : Matheval) (monitors : List Monitor) (monitor : Monitor)
    (values : List (Option MonitorValue)) (calls : List EvalCall)
    : Prop where
  paired : ∀ call ∈ calls,
    call.operation = monitor.cmdArg
      ∧ call.names = (lib.getVariables monitor.cmdArg).map some
      ∧ List.Forall₂
        (fun var x => ∃ p v, bound monitors monitor.groupId var = some p
          ∧ stored values p = some (.value v) ∧ v.value = x)
        (lib.getVariables monitor.cmdArg) call.values
  not_called : ∀ var ∈ lib.getVariables monitor.cmdArg,
    (∀ p, bound monitors monitor.groupId var = some p → stored values p = none) → calls = []

theorem bindsByName_nil (lib : Matheval) (monitors : List Monitor) (monitor : Monitor)
    (values : List (Option MonitorValue))
    : BindsByName lib monitors monitor values [] where
  paired := by simp
  not_called := by simp

theorem forall₂_bound {monitors : List Monitor} {groupId : Option CStr} {vars : List CStr}
    {js : List Nat} {values : List (Option MonitorValue)} {xs : List Binary64}
    (hjs : List.Forall₂ (fun var j => bound monitors groupId var = some j) vars js)
    (hxs : List.Forall₂ (fun mv x => ∃ v, mv = some (.value v) ∧ v.value = x)
      (js.map (stored values)) xs)
    : List.Forall₂
        (fun var x => ∃ p v, bound monitors groupId var = some p
          ∧ stored values p = some (.value v) ∧ v.value = x)
        vars xs := by
  induction hjs generalizing xs with
  | nil =>
    cases hxs
    exact .nil
  | cons hj _ ih =>
    cases hxs with
    | cons hx hxs =>
      rcases hx with ⟨v, hv, hx⟩
      exact .cons ⟨_, v, hj, hv, hx⟩ (ih hxs)

section

variable {lib : Matheval} {rdDne : Binary64 → Binary64 → Bool} {sensor : Sensor lib}

variable (rdDne) in
theorem storeMonitorValue_of_op {monitor : Monitor} (hop : monitor.type = .op)
    {opVars : Option (List (Option MonitorValue))} {now : Int} {value : Option MonitorValue}
    {calls : List EvalCall} (h : rbMonitorGetOpResult lib monitor opVars now = .ok (value, calls))
    (old : Option MonitorValue)
    : ∃ new msgs, storeMonitorValue rdDne monitor value old = .ok (new, msgs) := by
  cases value with
  | none => exact ⟨old, [], rfl⟩
  | some mv =>
    have hflat : mv.Flat := by
      rcases rbMonitorGetOpResult_shape lib monitor now h with hnone | ⟨n, harray⟩ | ⟨v, _, _, hv, _⟩
      . cases hnone
      . cases harray
        simp [MonitorValue.Flat]
      . cases hv
        trivial
    rcases printMonitorValue_ok hflat monitor with ⟨msgs, hmsgs⟩
    rw [storeMonitorValue_of_not_given monitor (monitor.op_timestampGiven hop), hmsgs, ifSend_ok]
    exact ⟨_, _, rfl⟩

variable (rdDne) in
theorem callsOf_updateMonitor (input : PassInput) (values : List (Option MonitorValue)) {i : Nat}
    {monitor : Monitor} (hm : sensor.monitors[i]? = some monitor) (hop : monitor.type = .op)
    : callsOf (·.2.calls) (updateMonitor rdDne sensor input values i) =
        callsOf Prod.snd (rbMonitorGetOpResult lib monitor (operandsOf sensor values monitor)
          (input.response i).now) := by
  simp only [updateMonitor, elmAt_eq_ok.mpr hm, processSensorMonitor, hop, Bind.bind, Except.bind]
  cases hr : rbMonitorGetOpResult lib monitor (operandsOf sensor values monitor)
      (input.response i).now with
  | error e => cases e <;> rfl
  | ok r =>
    rcases storeMonitorValue_of_op rdDne hop hr (stored values i) with ⟨mv, msgs, hstore⟩
    simp only [hstore]
    rfl

variable (rdDne) in
theorem bindsByName_of_updateMonitor (input : PassInput) (values : List (Option MonitorValue))
    {i : Nat} {monitor : Monitor} (hm : sensor.monitors[i]? = some monitor)
    (hop : monitor.type = .op)
    : BindsByName lib sensor.monitors monitor values
        (callsOf (·.2.calls) (updateMonitor rdDne sensor input values i)) := by
  rw [callsOf_updateMonitor rdDne input values hm hop]
  cases hpos : operandPositions lib sensor.monitors monitor with
  | none =>
    have hnull : operandsOf sensor values monitor = none := by
      rw [operandsOf, hpos, Option.map_none]
    rw [hnull, rbMonitorGetOpResult_none]
    exact bindsByName_nil lib sensor.monitors monitor values
  | some js =>
    have hjs := forall₂_of_operandPositions hpos
    have hoperands : operandsOf sensor values monitor = some (js.map (stored values)) := by
      rw [operandsOf, hpos, Option.map_some]
    rw [hoperands]
    have hlen : (lib.getVariables monitor.cmdArg).length = (js.map (stored values)).length := by
      simpa using hjs.length_eq
    rcases callsOf_rbMonitorGetOpResult lib monitor (input.response i).now hlen with
      hnil | ⟨xs, hxs, hcalls⟩
    . rw [hnil]
      exact bindsByName_nil lib sensor.monitors monitor values
    . have hpaired := forall₂_bound hjs (scalars_eq_some_iff.mp hxs)
      rw [hcalls]
      constructor
      . intro call hcall
        rw [List.mem_singleton] at hcall
        subst hcall
        exact ⟨rfl, rfl, hpaired⟩
      . intro var hvar hnone
        rcases exists_of_forall₂ hpaired.flip hvar with ⟨x, _, p, v, hp, hval, _⟩
        rw [hnone p hp] at hval
        cases hval

/-- Whenever an operation is processed in some pass of some run, its variables are bound by name to
what is stored at that moment. -/
theorem evaluator_bindsByName {inputs : List PassInput} {values : List (Option MonitorValue)}
    {passes : List (List MonitorLog)}
    (hrun : processRbSensor rdDne sensor inputs = .ok (values, passes))
    {input : PassInput} {i : Nat} {st : PassState} {logs : List MonitorLog}
    (hbefore : runLog (processMonitor rdDne sensor input) (newIteration sensor values)
      (List.range i) = .ok (st, logs))
    {monitor : Monitor} (hm : sensor.monitors[i]? = some monitor) (hop : monitor.type = .op)
    : BindsByName lib sensor.monitors monitor st.lastKnown
        (callsOf (·.2.calls) (processMonitor rdDne sensor input st i)) := by
  have hlen := length_processRbSensor hrun
  rw [newIteration_eq hlen] at hbefore
  rcases (runLog_processMonitor_eq_ok hlen).mp hbefore with ⟨values', hbefore', rfl⟩
  have hlen' := (length_runLog_updateMonitor hbefore').trans hlen
  have hcalls : callsOf (·.2.calls) (processMonitor rdDne sensor input ⟨values', values'⟩ i) =
      callsOf (·.2.calls) (updateMonitor rdDne sensor input values' i) := by
    rw [processMonitor_eq hlen' (List.getElem?_eq_some_iff.mp hm).1]
    cases updateMonitor rdDne sensor input values' i with
    | error e => cases e <;> rfl
    | ok r => rfl
  rw [hcalls]
  exact bindsByName_of_updateMonitor rdDne input values' hm hop

end

/-- The commands print 3 and 4. -/
def loadInput : PassInput where
  session := true
  response i := { popen := some (if i = 0 then ['3'] else ['4']), snmp := .error, now := 1 }

theorem evaluator_bindsByName_load
    : ∃ st logs,
        runLog (processMonitor (fun a b => a ≠ b) loadSensor loadInput)
            (newIteration loadSensor [none, none, none]) (List.range 2) = .ok (st, logs)
          ∧ callsOf (·.2.calls) (processMonitor (fun a b => a ≠ b) loadSensor loadInput st 2)
            = [evalCall .sums loadMonitor [3, 4]]
          ∧ BindsByName .sums loadSensor.monitors loadMonitor st.lastKnown
            (callsOf (·.2.calls)
              (processMonitor (fun a b => a ≠ b) loadSensor loadInput st 2)) := by
  have hends : endsWith
      (fun st _ => decide (callsOf (·.2.calls)
        (processMonitor (fun a b => a ≠ b) loadSensor loadInput st 2)
          = [evalCall .sums loadMonitor [3, 4]]))
      (runLog (processMonitor (fun a b => a ≠ b) loadSensor loadInput)
        (newIteration loadSensor [none, none, none]) (List.range 2)) := by
    decide +kernel
  rcases exists_of_endsWith hends with ⟨st, logs, hbefore, hcalls⟩
  exact ⟨st, logs, hbefore, of_decide_eq_true hcalls,
    evaluator_bindsByName (processRbSensor_nil loadSensor) hbefore rfl rfl⟩

end RbMonitor
