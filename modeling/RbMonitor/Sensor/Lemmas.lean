import RbMonitor.Lib.Simulates
import RbMonitor.Sensor.Impl
import RbMonitor.External.Lemmas
import RbMonitor.Op.Lemmas

/-!
This module contains the pass over the monitors with one array of values in place of two, and with
the operands of an operation found by name.
-/

namespace RbMonitor

theorem elmAt_of_lt {α : Type} {elms : List α} {i : Nat} (h : i < elms.length)
    : elmAt elms i = .ok elms[i] := by
  simp [elmAt, h]

@[simp]
theorem elmAt_eq_ok {α : Type} {elms : List α} {i : Nat} {elm : α}
    : elmAt elms i = .ok elm ↔ elms[i]? = some elm := by
  unfold elmAt
  cases elms[i]? <;> simp

/-! ### Operands by name -/

/-- Whether a monitor is the one that a variable of a group stands for. -/
def binds (name : CStr) (groupId : Option CStr) (monitor : Monitor) : Bool :=
  name = monitor.name && monitor.groupId = groupId

/-- The first monitor that a variable stands for. -/
def bound (monitors : List Monitor) (groupId : Option CStr) (name : CStr) : Option Nat :=
  monitors.findIdx? (binds name groupId)

/-- The positions of the variables of an operation, if there are any and all of them are found. -/
def operandPositions (lib : Matheval) (monitors : List Monitor) (monitor : Monitor)
    : Option (List Nat) :=
  let vars := rbMonitorGetOpVariables lib monitor
  if vars = [] then none else vars.mapM (bound monitors monitor.groupId)

theorem sameGroup_eq (iGid groupId : Option CStr)
    : sameGroup iGid groupId = decide (iGid = groupId) := by
  cases iGid <;> cases groupId <;> simp [sameGroup, eq_comm]

theorem findMonitorPos.go_eq (name : CStr) (groupId : Option CStr) (rest : List Monitor) (i : Nat)
    : go name groupId rest i
        =
      match rest.findIdx? (binds name groupId) with
      | some k => ((i + k : Nat) : Int)
      | none => -1 := by
  induction rest generalizing i with
  | nil => rfl
  | cons monitor rest ih =>
    have hbinds : (decide (name = monitor.name) && sameGroup monitor.groupId groupId)
        = binds name groupId monitor := by
      rw [sameGroup_eq]
      rfl
    rw [go, hbinds, List.findIdx?_cons]
    by_cases hb : binds name groupId monitor
    . simp [hb]
    . simp only [hb, Bool.false_eq_true, ↓reduceIte, ih]
      cases rest.findIdx? (binds name groupId) with
      | none => rfl
      | some k => simp [Nat.add_assoc, Nat.add_comm 1]

theorem findMonitorPos_eq (monitors : List Monitor) (name : CStr) (groupId : Option CStr)
    : findMonitorPos monitors name groupId
        =
      match bound monitors groupId name with
      | some k => (k : Int)
      | none => -1 := by
  rw [findMonitorPos, findMonitorPos.go_eq, bound]
  simp only [Nat.zero_add]

theorem getMonitorDependencies.go_eq (monitors : List Monitor) (monitor : Monitor)
    (vars : List CStr) (ret : List Int)
    : go monitors monitor vars ret
        =
      (vars.mapM (bound monitors monitor.groupId)).map fun js =>
        ret ++ js.map Int.ofNat ++ [-1] := by
  induction vars generalizing ret with
  | nil => simp [go]
  | cons var vars ih =>
    simp only [go, findMonitorPos_eq, List.mapM_cons]
    cases bound monitors monitor.groupId var with
    | none => simp
    | some k =>
      have : (k : Int) ≠ -1 := by omega
      simp only [this, ↓reduceIte, ih]
      cases vars.mapM (bound monitors monitor.groupId) <;> simp

theorem getMonitorDependencies_eq (lib : Matheval) (monitors : List Monitor) (monitor : Monitor)
    : getMonitorDependencies lib monitors monitor
        =
      (operandPositions lib monitors monitor).map fun js => js.map Int.ofNat ++ [-1] := by
  unfold getMonitorDependencies operandPositions
  dsimp only
  split
  . rfl
  . simp [getMonitorDependencies.go_eq]

theorem bound_lt {monitors : List Monitor} {groupId : Option CStr} {name : CStr} {j : Nat}
    (h : bound monitors groupId name = some j)
    : j < monitors.length := by
  unfold bound at h
  rw [List.findIdx?_eq_some_iff_getElem] at h
  exact h.1

theorem exists_bound_of_operandPositions {lib : Matheval} {monitors : List Monitor}
    {monitor : Monitor} {js : List Nat} (h : operandPositions lib monitors monitor = some js)
    {j : Nat} (hj : j ∈ js)
    : ∃ var, bound monitors monitor.groupId var = some j := by
  unfold operandPositions at h
  dsimp only at h
  split at h
  . cases h
  . rcases exists_of_forall₂ (mapM_eq_some_iff.mp h) hj with ⟨var, _, hvar⟩
    exact ⟨var, hvar⟩

theorem operandPositions_lt {lib : Matheval} {monitors : List Monitor} {monitor : Monitor}
    {js : List Nat} (h : operandPositions lib monitors monitor = some js)
    : ∀ j ∈ js, j < monitors.length := by
  intro j hj
  rcases exists_bound_of_operandPositions h hj with ⟨var, hvar⟩
  exact bound_lt hvar

theorem type_of_operandPositions {lib : Matheval} {monitors : List Monitor} {monitor : Monitor}
    {js : List Nat} (h : operandPositions lib monitors monitor = some js)
    : monitor.type = .op := by
  unfold operandPositions rbMonitorGetOpVariables at h
  by_cases hop : monitor.type = .op
  . exact hop
  . simp [hop] at h

theorem create_of_operandPositions {lib : Matheval} {monitors : List Monitor} {monitor : Monitor}
    {js : List Nat} (h : operandPositions lib monitors monitor = some js)
    : lib.create monitor.cmdArg := by
  unfold operandPositions rbMonitorGetOpVariables at h
  cases hc : lib.create monitor.cmdArg with
  | true => rfl
  | false => simp [hc] at h

theorem operandPositions_ne_nil {lib : Matheval} {monitors : List Monitor} {monitor : Monitor}
    : operandPositions lib monitors monitor ≠ some [] := by
  unfold operandPositions
  cases rbMonitorGetOpVariables lib monitor with
  | nil => simp
  | cons var vars =>
    simp only [List.mapM_cons]
    cases bound monitors monitor.groupId var with
    | none => simp
    | some j => cases vars.mapM (bound monitors monitor.groupId) <;> simp

theorem forall₂_of_operandPositions {lib : Matheval} {monitors : List Monitor} {monitor : Monitor}
    {js : List Nat} (h : operandPositions lib monitors monitor = some js)
    : List.Forall₂ (fun var j => bound monitors monitor.groupId var = some j)
        (lib.getVariables monitor.cmdArg) js := by
  have hop := type_of_operandPositions h
  unfold operandPositions rbMonitorGetOpVariables at h
  cases hc : lib.create monitor.cmdArg with
  | false => simp [hop, hc] at h
  | true =>
    simp only [hop, hc, ne_eq, not_true_eq_false, ↓reduceIte, Bool.not_true, Bool.false_eq_true]
      at h
    split at h
    . cases h
    . exact mapM_eq_some_iff.mp h

/-! ### The values selected -/

/-- The value stored for a monitor. -/
def stored (values : List (Option MonitorValue)) (i : Nat) : Option MonitorValue :=
  values[i]?.join

theorem posArrayLength_eq (js : List Nat)
    : posArrayLength (js.map Int.ofNat ++ [-1]) = .ok js.length := by
  induction js with
  | nil => rfl
  | cons j js ih =>
    have : (j : Int) ≠ -1 := by omega
    simp [posArrayLength, this, ih, Bind.bind, Except.bind, Pure.pure, Except.pure]

theorem rbMonitorValueArraySelect.go_eq {values : List (Option MonitorValue)} {js : List Nat}
    (hlt : ∀ j ∈ js, j < values.length) (retSize : Nat) (ret : List (Option MonitorValue))
    (hsize : ret.length + js.length = retSize)
    : go values retSize (js.map Int.ofNat ++ [-1]) ret = .ok (ret ++ js.map (stored values)) := by
  induction js generalizing ret with
  | nil => simp [go]
  | cons j js ih =>
    have hj : j < values.length := hlt j (by simp)
    have h1 : (j : Int) ≠ -1 := by omega
    have h2 : ¬ (j : Int) < 0 := by omega
    simp only [List.length_cons] at hsize
    have hroom : ret.length ≠ retSize := by omega
    have := ih (fun j hj => hlt j (by simp [hj])) (ret ++ [values[j]]) (by simp; omega)
    simp [go, h1, h2, elmAt, hj, Bind.bind, Except.bind, rbArrayAdd, hroom, this, stored]

theorem rbMonitorValueArraySelect_eq (values : List (Option MonitorValue))
    (positions : Option (List Nat)) (hlt : ∀ js, positions = some js → ∀ j ∈ js, j < values.length)
    : rbMonitorValueArraySelect values (positions.map fun js => js.map Int.ofNat ++ [-1])
        =
      .ok (positions.map (·.map (stored values))) := by
  cases positions with
  | none => rfl
  | some js =>
    simp [rbMonitorValueArraySelect, posArrayLength_eq,
      rbMonitorValueArraySelect.go_eq (hlt js rfl) js.length [], Bind.bind, Except.bind, Pure.pure,
      Except.pure]

/-! ### One array of values -/

section

variable {lib : Matheval} (rdDne : Binary64 → Binary64 → Bool) (sensor : Sensor lib)

/-- What an operation is given: the stored values of the monitors that its variables stand for. -/
def operandsOf (values : List (Option MonitorValue)) (monitor : Monitor)
    : Option (List (Option MonitorValue)) :=
  (operandPositions lib sensor.monitors monitor).map (·.map (stored values))

/-- Monitor `i` is an operation with monitor `j` as an operand. -/
def DependsOn (i j : Nat) : Prop :=
  ∃ deps, sensor.opVars[i]? = some (some deps) ∧ (j : Int) ∈ deps

/-- One monitor of a pass, with one array of values. -/
def updateMonitor (input : PassInput) (values : List (Option MonitorValue)) (i : Nat)
    : CM (List (Option MonitorValue) × MonitorLog) := do
  let monitor ← elmAt sensor.monitors i
  let (value, calls) ← processSensorMonitor lib monitor (input.response i)
    (operandsOf sensor values monitor)
  let (mv, messages) ← storeMonitorValue rdDne monitor value (stored values i)
  return (values.set i mv, { calls := calls, yielded := value, messages := messages })

variable {rdDne sensor}

theorem dependsOn_of_mem {i : Nat} {monitor : Monitor} (hm : sensor.monitors[i]? = some monitor)
    {js : List Nat} (hjs : operandPositions lib sensor.monitors monitor = some js) {j : Nat}
    (hj : j ∈ js)
    : DependsOn sensor i j := by
  refine ⟨js.map Int.ofNat ++ [-1], ?_, by simp [hj]⟩
  simp [sensor.opVars_eq, getMonitorsDependencies, hm, getMonitorDependencies_eq, hjs]

theorem operandsOf_congr {values₁ values₂ : List (Option MonitorValue)} {i : Nat}
    {monitor : Monitor} (hm : sensor.monitors[i]? = some monitor)
    (h : ∀ j, DependsOn sensor i j → stored values₁ j = stored values₂ j)
    : operandsOf sensor values₁ monitor = operandsOf sensor values₂ monitor := by
  unfold operandsOf
  cases hjs : operandPositions lib sensor.monitors monitor with
  | none => rfl
  | some js =>
    simp only [Option.map_some, Option.some.injEq, List.map_inj_left]
    intro j hj
    exact h j (dependsOn_of_mem hm hjs hj)

theorem updateMonitor_eq_ok {input : PassInput} {values values' : List (Option MonitorValue)}
    {i : Nat} {log : MonitorLog}
    : updateMonitor rdDne sensor input values i = .ok (values', log)
        ↔
      ∃ monitor mv,
        sensor.monitors[i]? = some monitor
          ∧ processSensorMonitor lib monitor (input.response i) (operandsOf sensor values monitor)
            = .ok (log.yielded, log.calls)
          ∧ storeMonitorValue rdDne monitor log.yielded (stored values i) = .ok (mv, log.messages)
          ∧ values' = values.set i mv := by
  simp only [updateMonitor, CM.bind_eq_ok, elmAt_eq_ok, Prod.exists, CM.pure_eq_ok, Prod.mk.injEq]
  constructor
  . intro hex
    rcases hex with ⟨monitor, hm, value, calls, hv, mv, messages, hs, rfl, rfl⟩
    exact ⟨monitor, mv, hm, hv, hs, rfl⟩
  . intro hex
    rcases hex with ⟨monitor, mv, hm, hv, hs, rfl⟩
    exact ⟨monitor, hm, _, _, hv, mv, _, hs, rfl, rfl⟩

theorem length_updateMonitor {input : PassInput} {values values' : List (Option MonitorValue)}
    {i : Nat} {log : MonitorLog}
    (h : updateMonitor rdDne sensor input values i = .ok (values', log))
    : values'.length = values.length := by
  rcases updateMonitor_eq_ok.mp h with ⟨_, _, _, _, _, rfl⟩
  simp

theorem stored_replicate (n i : Nat) : stored (List.replicate n none) i = none := by
  simp only [stored, List.getElem?_replicate]
  split <;> rfl

theorem stored_set_self {values : List (Option MonitorValue)} {i : Nat} (h : i < values.length)
    (mv : Option MonitorValue)
    : stored (values.set i mv) i = mv := by
  simp [stored, h]

theorem stored_set_ne {values : List (Option MonitorValue)} {i j : Nat} (h : i ≠ j)
    (mv : Option MonitorValue)
    : stored (values.set i mv) j = stored values j := by
  simp [stored, h]

theorem stored_updateMonitor_ne {input : PassInput} {values values' : List (Option MonitorValue)}
    {i j : Nat} {log : MonitorLog}
    (h : updateMonitor rdDne sensor input values i = .ok (values', log)) (hij : i ≠ j)
    : stored values' j = stored values j := by
  rcases updateMonitor_eq_ok.mp h with ⟨_, mv, _, _, _, rfl⟩
  exact stored_set_ne hij mv

theorem stored_runLog_of_not_mem {input : PassInput} {values values' : List (Option MonitorValue)}
    {is : List Nat} {logs : List MonitorLog}
    (h : runLog (updateMonitor rdDne sensor input) values is = .ok (values', logs)) {j : Nat}
    (hj : j ∉ is)
    : stored values' j = stored values j := by
  induction is generalizing values logs with
  | nil =>
    simp only [runLog_nil, Except.ok.injEq, Prod.mk.injEq] at h
    rw [h.1]
  | cons i is ih =>
    simp only [List.mem_cons, not_or] at hj
    rcases runLog_cons_eq_ok.mp h with ⟨values₁, log, logs', hstep, hrest, _⟩
    rw [ih hrest hj.2, stored_updateMonitor_ne hstep (Ne.symm hj.1)]

theorem length_runLog_updateMonitor {input : PassInput}
    {values values' : List (Option MonitorValue)} {is : List Nat} {logs : List MonitorLog}
    (h : runLog (updateMonitor rdDne sensor input) values is = .ok (values', logs))
    : values'.length = values.length :=
  runLog_invariant (fun values₁ => values₁.length = values.length)
    (fun _ _ _ _ hlen hstep => (length_updateMonitor hstep).trans hlen) h rfl

theorem range_eq_append_cons {i n : Nat} (h : i < n)
    : List.range n = List.range i ++ i :: List.range' (i + 1) (n - i - 1) := by
  have happend := @List.range'_append_1 0 i (n - i - 1 + 1)
  rw [List.range'_succ, Nat.zero_add, show i + (n - i - 1 + 1) = n by omega] at happend
  rw [List.range_eq_range', List.range_eq_range', happend]

theorem exists_updateMonitor_of_pass {input : PassInput}
    {values values' : List (Option MonitorValue)} {logs : List MonitorLog}
    (h : runLog (updateMonitor rdDne sensor input) values (List.range sensor.monitors.length)
      = .ok (values', logs))
    {i : Nat} (hi : i < sensor.monitors.length)
    : ∃ before after log,
        logs[i]? = some log
          ∧ updateMonitor rdDne sensor input before i = .ok (after, log)
          ∧ before.length = values.length
          ∧ (∀ j, j < i → stored before j = stored values' j)
          ∧ (∀ j, i ≤ j → stored before j = stored values j)
          ∧ stored after i = stored values' i := by
  rw [range_eq_append_cons hi] at h
  rcases runLog_append_eq_ok.mp h with ⟨before, logs₁, _, hbefore, hrest, rfl⟩
  rcases runLog_cons_eq_ok.mp hrest with ⟨after, log, logs₂, hstep, hafter, rfl⟩
  have hlen := length_runLog hbefore
  have hkept (j : Nat) (hj : j ≤ i) : stored values' j = stored after j := by
    apply stored_runLog_of_not_mem hafter
    simp only [List.mem_range', not_exists, not_and]
    omega
  refine ⟨before, after, log, ?_, hstep, length_runLog_updateMonitor hbefore, ?_, ?_,
    (hkept i le_rfl).symm⟩
  . simp only [List.length_range] at hlen
    simp [hlen]
  . intro j hj
    rw [hkept j (by omega), stored_updateMonitor_ne hstep (by omega)]
  . intro j hj
    apply stored_runLog_of_not_mem hbefore
    simp only [List.mem_range]
    omega

theorem length_opVars (sensor : Sensor lib) : sensor.opVars.length = sensor.monitors.length := by
  simp [sensor.opVars_eq, getMonitorsDependencies]

theorem processMonitor_eq {input : PassInput} {values : List (Option MonitorValue)}
    (hlen : values.length = sensor.monitors.length) {i : Nat} (hi : i < sensor.monitors.length)
    : processMonitor rdDne sensor input ⟨values, values⟩ i =
        (updateMonitor rdDne sensor input values i).map fun r => (⟨r.1, r.1⟩, r.2) := by
  have hvars : i < sensor.opVars.length := length_opVars sensor ▸ hi
  have hvalues : i < values.length := hlen ▸ hi
  have hdeps : sensor.opVars[i] =
      (operandPositions lib sensor.monitors sensor.monitors[i]).map fun js =>
        js.map Int.ofNat ++ [-1] := by
    simp [sensor.opVars_eq, getMonitorsDependencies, getMonitorDependencies_eq]
  have hselect : rbMonitorValueArraySelect values
      ((operandPositions lib sensor.monitors sensor.monitors[i]).map fun js =>
        js.map Int.ofNat ++ [-1]) = .ok (operandsOf sensor values sensor.monitors[i]) :=
    rbMonitorValueArraySelect_eq values _ fun js hjs j hj => hlen ▸ operandPositions_lt hjs j hj
  have hstored : stored values i = values[i] := by
    simp [stored, hvalues]
  simp only [processMonitor, updateMonitor, elmAt_of_lt hi, elmAt_of_lt hvalues,
    elmAt_of_lt hvars, hdeps, hstored, Bind.bind, Except.bind, hselect]
  cases processSensorMonitor lib sensor.monitors[i] (input.response i)
    (operandsOf sensor values sensor.monitors[i]) with
  | error e => rfl
  | ok r =>
    simp only
    cases storeMonitorValue rdDne sensor.monitors[i] r.1 values[i] <;> rfl

theorem lt_of_processMonitor {input : PassInput} {st st' : PassState} {i : Nat} {log : MonitorLog}
    (h : processMonitor rdDne sensor input st i = .ok (st', log))
    : i < sensor.monitors.length := by
  simp only [processMonitor, CM.bind_eq_ok, elmAt_eq_ok] at h
  rcases h with ⟨_, _, _, _, monitor, hm, _⟩
  exact (List.getElem?_eq_some_iff.mp hm).1

theorem processMonitor_eq_ok {input : PassInput} {values : List (Option MonitorValue)}
    (hlen : values.length = sensor.monitors.length) {i : Nat} {st : PassState} {log : MonitorLog}
    : processMonitor rdDne sensor input ⟨values, values⟩ i = .ok (st, log)
        ↔
      ∃ values', updateMonitor rdDne sensor input values i = .ok (values', log)
        ∧ st = ⟨values', values'⟩ := by
  constructor
  . intro h
    rw [processMonitor_eq hlen (lt_of_processMonitor h)] at h
    cases hupdate : updateMonitor rdDne sensor input values i with
    | error e =>
      rw [hupdate] at h
      cases h
    | ok r =>
      rw [hupdate] at h
      cases h
      exact ⟨r.1, rfl, rfl⟩
  . intro h
    rcases h with ⟨values', hupdate, hst⟩
    rcases updateMonitor_eq_ok.mp hupdate with ⟨monitor, _, hm, _⟩
    rw [processMonitor_eq hlen (List.getElem?_eq_some_iff.mp hm).1, hupdate, hst]
    rfl

theorem runLog_processMonitor_eq_ok {input : PassInput} {values : List (Option MonitorValue)}
    (hlen : values.length = sensor.monitors.length) {is : List Nat} {st : PassState}
    {logs : List MonitorLog}
    : runLog (processMonitor rdDne sensor input) ⟨values, values⟩ is = .ok (st, logs)
        ↔
      ∃ values', runLog (updateMonitor rdDne sensor input) values is = .ok (values', logs)
        ∧ st = ⟨values', values'⟩ := by
  induction is generalizing values logs with
  | nil =>
    simp only [runLog_nil, Except.ok.injEq, Prod.mk.injEq]
    constructor
    . intro hex
      rcases hex with ⟨rfl, rfl⟩
      exact ⟨values, ⟨rfl, rfl⟩, rfl⟩
    . intro hex
      rcases hex with ⟨_, ⟨rfl, rfl⟩, rfl⟩
      exact ⟨rfl, rfl⟩
  | cons i is ih =>
    simp only [runLog_cons_eq_ok, processMonitor_eq_ok hlen]
    constructor
    . intro hex
      rcases hex with ⟨_, log, logs', ⟨values₁, h₁, rfl⟩, his, rfl⟩
      rcases (ih ((length_updateMonitor h₁).trans hlen)).mp his with ⟨values₂, h₂, rfl⟩
      exact ⟨values₂, ⟨values₁, log, logs', h₁, h₂, rfl⟩, rfl⟩
    . intro hex
      rcases hex with ⟨values₂, ⟨values₁, log, logs', h₁, h₂, rfl⟩, rfl⟩
      exact ⟨_, log, logs', ⟨values₁, h₁, rfl⟩,
        (ih ((length_updateMonitor h₁).trans hlen)).mpr ⟨values₂, h₂, rfl⟩, rfl⟩

/-- Whether the pass comes to its loop. -/
def aok (sensor : Sensor lib) (input : PassInput) : Bool :=
  sensor.peername.isSome && sensor.community.isSome && input.session

theorem newIteration_eq {values : List (Option MonitorValue)}
    (hlen : values.length = sensor.monitors.length)
    : newIteration sensor values = ⟨values, values⟩ := by
  simp [newIteration, ← hlen]

theorem processMonitorsArray_of_not_aok {input : PassInput} (h : aok sensor input = false)
    (values : List (Option MonitorValue))
    : processMonitorsArray rdDne sensor values input = .ok (values, []) := by
  unfold aok at h
  simp [processMonitorsArray, h, Pure.pure, Except.pure]

theorem processMonitorsArray_of_aok {input : PassInput} (h : aok sensor input)
    {values values' : List (Option MonitorValue)} (hlen : values.length = sensor.monitors.length)
    {logs : List MonitorLog}
    : processMonitorsArray rdDne sensor values input = .ok (values', logs)
        ↔
      runLog (updateMonitor rdDne sensor input) values (List.range sensor.monitors.length)
        = .ok (values', logs) := by
  unfold aok at h
  simp only [processMonitorsArray, h, Bool.not_true, Bool.false_eq_true, ↓reduceIte,
    newIteration_eq hlen, CM.bind_eq_ok, runLog_processMonitor_eq_ok hlen, Prod.exists,
    CM.pure_eq_ok, Prod.mk.injEq]
  constructor
  . intro hex
    rcases hex with ⟨_, _, ⟨_, hrun, rfl⟩, rfl, rfl⟩
    exact hrun
  . intro hrun
    exact ⟨_, logs, ⟨values', hrun, rfl⟩, rfl, rfl⟩

theorem length_processMonitorsArray {input : PassInput}
    {values values' : List (Option MonitorValue)} (hlen : values.length = sensor.monitors.length)
    {logs : List MonitorLog}
    (h : processMonitorsArray rdDne sensor values input = .ok (values', logs))
    : values'.length = sensor.monitors.length := by
  cases haok : aok sensor input with
  | false =>
    rw [processMonitorsArray_of_not_aok haok] at h
    simp only [Except.ok.injEq, Prod.mk.injEq] at h
    exact h.1 ▸ hlen
  | true =>
    rw [processMonitorsArray_of_aok haok hlen] at h
    exact (length_runLog_updateMonitor h).trans hlen

@[simp]
theorem processRbSensor_nil (sensor : Sensor lib)
    : processRbSensor rdDne sensor [] = .ok (List.replicate sensor.monitors.length none, []) := rfl

theorem length_processRbSensor {inputs : List PassInput} {values : List (Option MonitorValue)}
    {logs : List (List MonitorLog)} (h : processRbSensor rdDne sensor inputs = .ok (values, logs))
    : values.length = sensor.monitors.length :=
  runLog_invariant (fun values => values.length = sensor.monitors.length)
    (fun _ _ _ _ hlen hstep => length_processMonitorsArray hlen hstep) h (by simp)

end

end RbMonitor
