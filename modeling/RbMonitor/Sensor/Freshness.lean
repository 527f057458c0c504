import RbMonitor.Sensor.Binding
import RbMonitor.Sensor.Store

/-!
This module contains what a pass takes over from earlier passes: the values of the operations that
yield nothing in it.
-/

namespace RbMonitor

section

variable {lib : Matheval} (rdDne : Binary64 → Binary64 → Bool) (sensor : Sensor lib)

def NoTimestampGiven : Prop :=
  ∀ monitor ∈ sensor.monitors, monitor.timestampGiven = false

/-- Operations only refer to monitors that are listed before them. -/
def RefersBackwards : Prop :=
  ∀ i (hi : i < sensor.monitors.length), sensor.monitors[i].type = .op →
    ∀ var ∈ lib.getVariables sensor.monitors[i].cmdArg,
      ∀ p ∈ bound sensor.monitors sensor.monitors[i].groupId var, p < i

/-- The messages of a pass do not depend on the passes before it. -/
def Fresh : Prop :=
  ∀ inputs₁ inputs₂ values₁ values₂ passes₁ passes₂,
    processRbSensor rdDne sensor inputs₁ = .ok (values₁, passes₁) →
    processRbSensor rdDne sensor inputs₂ = .ok (values₂, passes₂) →
    ∀ input values₁' values₂' logs₁ logs₂,
      processMonitorsArray rdDne sensor values₁ input = .ok (values₁', logs₁) →
      processMonitorsArray rdDne sensor values₂ input = .ok (values₂', logs₂) →
      logs₁.flatMap (·.messages) = logs₂.flatMap (·.messages)

/-- An operation is evaluated on what its variables yield in the pass, or, where a variable is an
operation that yields nothing in it, on what is stored from before. -/
def EvaluatedOn (values : List (Option MonitorValue)) (logs : List MonitorLog) (monitor : Monitor)
    (call : EvalCall)
    : Prop :=
  List.Forall₂
    (fun var x => ∃ p operand log v, bound sensor.monitors monitor.groupId var = some p
      ∧ sensor.monitors[p]? = some operand ∧ logs[p]? = some log ∧ v.value = x
      ∧ (log.yielded = some (.value v)
        ∨ operand.type = .op ∧ log.yielded = none ∧ stored values p = some (.value v)))
    (lib.getVariables monitor.cmdArg) call.values

variable {rdDne sensor}

theorem storeMonitorValue_congr {monitor : Monitor} (h : monitor.timestampGiven = false)
    {value old₁ old₂ : Option MonitorValue} (hold : value = none → old₁ = old₂)
    : storeMonitorValue rdDne monitor value old₁ = storeMonitorValue rdDne monitor value old₂ := by
  cases value with
  | none => rw [hold rfl]
  | some mv => rw [storeMonitorValue_of_not_given monitor h, storeMonitorValue_of_not_given monitor h]

theorem storeMonitorValue_fst {monitor : Monitor} (h : monitor.timestampGiven = false)
    {value old new : Option MonitorValue} {msgs : List RbMessage}
    (hstore : storeMonitorValue rdDne monitor value old = .ok (new, msgs))
    : new = value.or old := by
  cases value with
  | none =>
    simp only [storeMonitorValue, Except.ok.injEq, Prod.mk.injEq] at hstore
    simp [hstore.1]
  | some mv =>
    rw [storeMonitorValue_of_not_given monitor h] at hstore
    cases hprint : ifSend monitor (printMonitorValue mv monitor) with
    | error e => simp [hprint, Except.map] at hstore
    | ok msgs' =>
      simp only [hprint, Except.map, Except.ok.injEq, Prod.mk.injEq] at hstore
      simp [← hstore.1]

theorem type_of_yields_nothing {monitor : Monitor} {response : Response}
    {opVars : Option (List (Option MonitorValue))} {calls : List EvalCall}
    (h : processSensorMonitor lib monitor response opVars = .ok (none, calls))
    : monitor.type = .op := by
  unfold processSensorMonitor at h
  cases htype : monitor.type with
  | system =>
    simp only [htype, CM.bind_eq_ok, CM.pure_eq_ok] at h
    rcases h with ⟨_, _, h⟩
    cases h
  | oid =>
    simp only [htype, CM.bind_eq_ok, CM.pure_eq_ok] at h
    rcases h with ⟨_, _, h⟩
    cases h
  | op => rfl

theorem type_of_mem_calls {monitor : Monitor} {response : Response}
    {opVars : Option (List (Option MonitorValue))} {value : Option MonitorValue}
    {calls : List EvalCall} {call : EvalCall}
    (h : processSensorMonitor lib monitor response opVars = .ok (value, calls))
    (hcall : call ∈ calls)
    : monitor.type = .op := by
  unfold processSensorMonitor at h
  cases htype : monitor.type with
  | system =>
    simp only [htype, CM.bind_eq_ok, CM.pure_eq_ok, Prod.mk.injEq] at h
    rcases h with ⟨_, _, _, rfl⟩
    cases hcall
  | oid =>
    simp only [htype, CM.bind_eq_ok, CM.pure_eq_ok, Prod.mk.injEq] at h
    rcases h with ⟨_, _, _, rfl⟩
    cases hcall
  | op => rfl

theorem refersBackwards_dependsOn (hback : RefersBackwards sensor) {i j : Nat}
    (h : DependsOn sensor i j)
    : j < i := by
  rcases h with ⟨deps, hdeps, hj⟩
  simp only [sensor.opVars_eq, getMonitorsDependencies, List.getElem?_map, Option.map_eq_some_iff,
    getMonitorDependencies_eq] at hdeps
  rcases hdeps with ⟨monitor, hm, js, hjs, rfl⟩
  rcases List.getElem?_eq_some_iff.mp hm with ⟨hi, rfl⟩
  have hmem : j ∈ js := by
    simpa [show (j : Int) ≠ -1 by omega] using hj
  have hop := type_of_operandPositions hjs
  rcases exists_of_forall₂ (forall₂_of_operandPositions hjs) hmem with ⟨var, hvar, hbound⟩
  exact hback i hi hop var hvar j hbound

section

variable {input : PassInput} {values₁ values₂ values₁' values₂' : List (Option MonitorValue)}
variable {logs₁ logs₂ : List MonitorLog}

theorem runLog_updateMonitor_congr (hts : NoTimestampGiven sensor) (hback : RefersBackwards sensor)
    (hlen₁ : values₁.length = sensor.monitors.length)
    (hlen₂ : values₂.length = sensor.monitors.length)
    (h₁ : runLog (updateMonitor rdDne sensor input) values₁ (List.range sensor.monitors.length)
      = .ok (values₁', logs₁))
    (h₂ : runLog (updateMonitor rdDne sensor input) values₂ (List.range sensor.monitors.length)
      = .ok (values₂', logs₂))
    (hstale : ∀ i log, logs₁[i]? = some log → log.yielded = none →
      stored values₁ i = stored values₂ i)
    {i : Nat} (hi : i < sensor.monitors.length)
    : logs₁[i]? = logs₂[i]? ∧ stored values₁' i = stored values₂' i := by
  induction i using Nat.strongRecOn with
  | _ i ih =>
    rcases exists_updateMonitor_of_pass h₁ hi with
      ⟨before₁, after₁, log₁, hlog₁, hstep₁, hblen₁, hlt₁, hle₁, hafter₁⟩
    rcases exists_updateMonitor_of_pass h₂ hi with
      ⟨before₂, after₂, log₂, hlog₂, hstep₂, hblen₂, hlt₂, hle₂, hafter₂⟩
    rcases updateMonitor_eq_ok.mp hstep₁ with ⟨monitor, mv₁, hm, hr₁, hmv₁, rfl⟩
    rcases updateMonitor_eq_ok.mp hstep₂ with ⟨monitor', mv₂, hm', hr₂, hmv₂, rfl⟩
    rw [hm, Option.some.injEq] at hm'
    subst hm'
    have hoperands : operandsOf sensor before₁ monitor = operandsOf sensor before₂ monitor := by
      apply operandsOf_congr hm
      intro j hj
      have hji := refersBackwards_dependsOn hback hj
      rw [hlt₁ j hji, hlt₂ j hji]
      exact (ih j hji (by omega)).2
    have hstored : log₁.yielded = none → stored before₁ i = stored before₂ i := by
      intro hnone
      rw [hle₁ i le_rfl, hle₂ i le_rfl]
      exact hstale i log₁ hlog₁ hnone
    have hmts := hts monitor (List.mem_of_getElem? hm)
    rw [hoperands, hr₂, Except.ok.injEq, Prod.mk.injEq] at hr₁
    rw [storeMonitorValue_congr hmts hstored, ← hr₁.1, hmv₂, Except.ok.injEq, Prod.mk.injEq] at hmv₁
    have hlogs : log₁ = log₂ := MonitorLog.ext hr₁.2.symm hr₁.1.symm hmv₁.2.symm
    rw [hlog₁, hlog₂, ← hafter₁, ← hafter₂, stored_set_self (by omega), stored_set_self (by omega)]
    exact ⟨congrArg some hlogs, hmv₁.1.symm⟩

end

theorem stored_of_pass (hts : NoTimestampGiven sensor) {input : PassInput}
    {values values' : List (Option MonitorValue)} {logs : List MonitorLog}
    (hlen : values.length = sensor.monitors.length)
    (h : runLog (updateMonitor rdDne sensor input) values (List.range sensor.monitors.length)
      = .ok (values', logs))
    {p : Nat} {operand : Monitor} (hm : sensor.monitors[p]? = some operand) {mv : MonitorValue}
    (hmv : stored values' p = some mv)
    : ∃ log, logs[p]? = some log
        ∧ (log.yielded = some mv
          ∨ operand.type = .op ∧ log.yielded = none ∧ stored values p = some mv) := by
  rcases List.getElem?_eq_some_iff.mp hm with ⟨hp, _⟩
  rcases exists_updateMonitor_of_pass h hp with
    ⟨before, after, log, hlog, hstep, hblen, _, hle, hafter⟩
  rcases updateMonitor_eq_ok.mp hstep with ⟨operand', new, hm', hr, hstore, rfl⟩
  rw [hm, Option.some.injEq] at hm'
  subst hm'
  have hnew := storeMonitorValue_fst (hts operand (List.mem_of_getElem? hm)) hstore
  rw [stored_set_self (by omega), hmv] at hafter
  rw [hafter, hle p le_rfl] at hnew
  refine ⟨log, hlog, ?_⟩
  cases hy : log.yielded with
  | some mv' =>
    left
    simpa [hy, eq_comm] using hnew
  | none =>
    right
    rw [hy] at hr hnew
    exact ⟨type_of_yields_nothing hr, rfl, hnew.symm⟩

theorem evaluatedOn_of_runLog (hts : NoTimestampGiven sensor) (hback : RefersBackwards sensor)
    {input : PassInput} {values values' : List (Option MonitorValue)} {logs : List MonitorLog}
    (hlen : values.length = sensor.monitors.length)
    (h : runLog (updateMonitor rdDne sensor input) values (List.range sensor.monitors.length)
      = .ok (values', logs))
    {i : Nat} {monitor : Monitor} (hm : sensor.monitors[i]? = some monitor) {log : MonitorLog}
    (hlog : logs[i]? = some log) {call : EvalCall} (hcall : call ∈ log.calls)
    : EvaluatedOn sensor values logs monitor call := by
  rcases List.getElem?_eq_some_iff.mp hm with ⟨hi, rfl⟩
  rcases exists_updateMonitor_of_pass h hi with ⟨before, after, log', hlog', hstep, _, hlt, _, _⟩
  rw [hlog, Option.some.injEq] at hlog'
  subst hlog'
  rcases updateMonitor_eq_ok.mp hstep with ⟨monitor, _, hm', hr, _, _⟩
  rw [hm, Option.some.injEq] at hm'
  subst hm'
  have hop := type_of_mem_calls hr hcall
  have hbinds := bindsByName_of_updateMonitor rdDne input before hm hop
  rw [hstep] at hbinds
  rcases hbinds.paired call hcall with ⟨_, _, hpaired⟩
  have hbefore := (List.forall₂_and_left _ _).mpr ⟨hback i hi hop, hpaired⟩
  refine hbefore.imp ?_
  intro var x hex
  rcases hex with ⟨hvar, p, v, hp, hv, hx⟩
  rw [hlt p (hvar p hp)] at hv
  have hexists : ∃ operand, sensor.monitors[p]? = some operand :=
    ⟨_, List.getElem?_eq_getElem (bound_lt hp)⟩
  rcases hexists with ⟨operand, hoperand⟩
  rcases stored_of_pass hts hlen h hoperand hv with ⟨logp, hlogp, hcases⟩
  exact ⟨p, _, logp, v, hp, hoperand, hlogp, hx, hcases⟩

/-- The messages of a pass are those of any other pass with the same responses over values that
agree at the operations that yield nothing in it, and only such values are carried over into an
operation. -/
theorem messages_eq_of_stale_eq (hts : NoTimestampGiven sensor) (hback : RefersBackwards sensor)
    {inputs₁ inputs₂ : List PassInput} {values₁ values₂ : List (Option MonitorValue)}
    {passes₁ passes₂ : List (List MonitorLog)}
    (hrun₁ : processRbSensor rdDne sensor inputs₁ = .ok (values₁, passes₁))
    (hrun₂ : processRbSensor rdDne sensor inputs₂ = .ok (values₂, passes₂))
    {input : PassInput} {values₁' values₂' : List (Option MonitorValue)}
    {logs₁ logs₂ : List MonitorLog}
    (h₁ : processMonitorsArray rdDne sensor values₁ input = .ok (values₁', logs₁))
    (h₂ : processMonitorsArray rdDne sensor values₂ input = .ok (values₂', logs₂))
    : ((∀ (i : Nat) (log : MonitorLog), logs₁[i]? = some log → log.yielded = none →
            stored values₁ i = stored values₂ i) →
          logs₁.flatMap (·.messages) = logs₂.flatMap (·.messages))
        ∧ ∀ (i : Nat) (log : MonitorLog) monitor call, logs₁[i]? = some log →
          sensor.monitors[i]? = some monitor → call ∈ log.calls →
            EvaluatedOn sensor values₁ logs₁ monitor call := by
  have hlen₁ := length_processRbSensor hrun₁
  have hlen₂ := length_processRbSensor hrun₂
  cases haok : aok sensor input with
  | false =>
    rw [processMonitorsArray_of_not_aok haok] at h₁ h₂
    simp only [Except.ok.injEq, Prod.mk.injEq] at h₁ h₂
    rcases h₁ with ⟨_, rfl⟩
    rcases h₂ with ⟨_, rfl⟩
    constructor
    . intro _
      rfl
    . intro i log monitor call hlog
      cases hlog
  | true =>
    rw [processMonitorsArray_of_aok haok hlen₁] at h₁
    rw [processMonitorsArray_of_aok haok hlen₂] at h₂
    constructor
    . intro hstale
      have hlogs : logs₁ = logs₂ := by
        have hn₁ := length_runLog h₁
        have hn₂ := length_runLog h₂
        apply List.ext_getElem?
        intro i
        by_cases hi : i < sensor.monitors.length
        . exact (runLog_updateMonitor_congr hts hback hlen₁ hlen₂ h₁ h₂ hstale hi).1
        . simp only [List.length_range] at hn₁ hn₂
          rw [List.getElem?_eq_none (by omega), List.getElem?_eq_none (by omega)]
      rw [hlogs]
    . intro i log monitor call hlog hm hcall
      exact evaluatedOn_of_runLog hts hback hlen₁ h₁ hm hlog hcall

end

/-- Two loads, their sum, and an operation on that sum. -/
def staleSensor : Sensor .sums where
  peername := some "10.0.0.1".toList
  community := some "public".toList
  monitors := [
    { type := .system, name := "load_1".toList, cmdArg := "load 1".toList },
    { type := .system, name := "load_5".toList, cmdArg := "load 5".toList },
    loadMonitor,
    { type := .op, name := "again".toList, cmdArg := "load+load_1".toList }]

/-- Both commands print the same. -/
def staleInput (out : List Char) : PassInput where
  session := true
  response _ := { popen := some out, snmp := .error, now := 1 }

theorem exists_last_pass {lib : Matheval} {rdDne : Binary64 → Binary64 → Bool} {sensor : Sensor lib}
    {inputs : List PassInput} {input : PassInput} {values values' : List (Option MonitorValue)}
    {passes passes' : List (List MonitorLog)}
    (hrun : processRbSensor rdDne sensor inputs = .ok (values, passes))
    (hall : processRbSensor rdDne sensor (inputs ++ [input]) = .ok (values', passes'))
    : ∃ values'' logs, processMonitorsArray rdDne sensor values input = .ok (values'', logs)
        ∧ passes' = passes ++ [logs] := by
  unfold processRbSensor at hrun hall
  rcases runLog_append_eq_ok.mp hall with ⟨_, _, _, hbefore, hlast, rfl⟩
  rw [hrun, Except.ok.injEq, Prod.mk.injEq] at hbefore
  rcases hbefore with ⟨rfl, rfl⟩
  rcases runLog_cons_eq_ok.mp hlast with ⟨values'', logs, _, h, hnil, rfl⟩
  simp only [runLog_nil, Except.ok.injEq, Prod.mk.injEq] at hnil
  exact ⟨values'', logs, h, by rw [← hnil.2]⟩

theorem noTimestampGiven_staleSensor : NoTimestampGiven staleSensor := by
  unfold NoTimestampGiven
  decide +kernel

theorem refersBackwards_staleSensor : RefersBackwards staleSensor := by
  unfold RefersBackwards
  decide +kernel

/-- The loads are 1 and 5. -/
def unevenInput : PassInput where
  session := true
  response i := { popen := some (if i = 0 then ['1'] else ['5']), snmp := .error, now := 1 }

/-- The loads 3 and 3 or 1 and 5 have the same sum, and it is what is left of them in a pass in which
the sum of two zeros is not stored. -/
theorem messages_eq_of_stale_eq_load
    : ∃ values₁ passes₁ values₂ passes₂ values₁' values₂' logs₁ logs₂,
        processRbSensor (fun a b => a ≠ b) staleSensor [staleInput ['3']] = .ok (values₁, passes₁)
          ∧ processRbSensor (fun a b => a ≠ b) staleSensor [unevenInput] = .ok (values₂, passes₂)
          ∧ processMonitorsArray (fun a b => a ≠ b) staleSensor values₁ (staleInput ['0'])
            = .ok (values₁', logs₁)
          ∧ processMonitorsArray (fun a b => a ≠ b) staleSensor values₂ (staleInput ['0'])
            = .ok (values₂', logs₂)
          ∧ logs₁.map (·.yielded.isSome) = [true, true, false, true]
          ∧ logs₁.flatMap (·.messages) = logs₂.flatMap (·.messages)
          ∧ (logs₁.flatMap (·.messages)).length = 3
          ∧ ∀ (i : Nat) (log : MonitorLog) monitor call, logs₁[i]? = some log →
            staleSensor.monitors[i]? = some monitor → call ∈ log.calls →
            EvaluatedOn staleSensor values₁ logs₁ monitor call := by
  have hsum (input : PassInput)
      (hends : endsWith (fun values _ =>
          decide (MonitorValue.toChild? (stored values 2) = some (some ⟨1, 6⟩)))
        (processRbSensor (fun a b => a ≠ b) staleSensor [input]))
      : ∃ values passes,
          processRbSensor (fun a b => a ≠ b) staleSensor [input] = .ok (values, passes)
            ∧ stored values 2 = some (.value ⟨1, 6⟩) := by
    rcases exists_of_endsWith hends with ⟨values, passes, hrun, hvalue⟩
    exact ⟨values, passes, hrun, MonitorValue.eq_map_of_toChild? (of_decide_eq_true hvalue)⟩
  rcases hsum (staleInput ['3']) (by decide +kernel) with ⟨values₁, passes₁, hrun₁, hsum₁⟩
  rcases hsum unevenInput (by decide +kernel) with ⟨values₂, passes₂, hrun₂, hsum₂⟩
  have hends₁ : endsWith (fun _ passes => passes[1]?.map (fun logs =>
        (logs.map (·.yielded.isSome), (logs.flatMap (·.messages)).length))
          == some ([true, true, false, true], 3))
      (processRbSensor (fun a b => a ≠ b) staleSensor ([staleInput ['3']] ++ [staleInput ['0']])) := by
    decide +kernel
  have hends₂ : endsWith (fun _ _ => true)
      (processRbSensor (fun a b => a ≠ b) staleSensor ([unevenInput] ++ [staleInput ['0']])) := by
    decide +kernel
  rcases exists_of_endsWith hends₁ with ⟨_, _, hall₁, hlogs⟩
  rcases exists_of_endsWith hends₂ with ⟨_, _, hall₂, _⟩
  rcases exists_last_pass hrun₁ hall₁ with ⟨values₁', logs₁, h₁, rfl⟩
  rcases exists_last_pass hrun₂ hall₂ with ⟨values₂', logs₂, h₂, _⟩
  have hlen : passes₁.length = 1 := length_runLog hrun₁
  simp only [List.getElem?_append_right, hlen, le_refl, Nat.sub_self, List.getElem?_cons_zero,
    Option.map_some, beq_iff_eq, Option.some.injEq, Prod.mk.injEq] at hlogs
  have hstale (i : Nat) (log : MonitorLog) (hlog : logs₁[i]? = some log) (hnone : log.yielded = none)
      : stored values₁ i = stored values₂ i := by
    have hat : (logs₁.map (·.yielded.isSome))[i]? = some false := by
      rw [List.getElem?_map, hlog, Option.map_some, hnone]
      rfl
    rw [hlogs.1] at hat
    match i with
    | 0 => cases hat
    | 1 => cases hat
    | 2 => rw [hsum₁, hsum₂]
    | 3 => cases hat
    | i + 4 => cases hat
  have hboth := messages_eq_of_stale_eq noTimestampGiven_staleSensor refersBackwards_staleSensor
    hrun₁ hrun₂ h₁ h₂
  exact ⟨values₁, passes₁, values₂, passes₂, values₁', values₂', logs₁, logs₂, hrun₁, hrun₂, h₁, h₂,
    hlogs.1, hboth.1 hstale, hlogs.2, hboth.2⟩

/-- After a pass with loads the sum of two zeros, which is not stored, is taken for the old sum. -/
theorem not_fresh_staleSensor
    : NoTimestampGiven staleSensor ∧ RefersBackwards staleSensor
        ∧ ¬ Fresh (fun a b => a ≠ b) staleSensor := by
  refine ⟨noTimestampGiven_staleSensor, refersBackwards_staleSensor, ?_⟩
  intro hfresh
  have hstale : endsWith (fun _ passes => passes[1]?.map (·.flatMap (·.messages) |>.length) == some 3)
      (processRbSensor (fun a b => a ≠ b) staleSensor ([staleInput ['3']] ++ [staleInput ['0']])) := by
    decide +kernel
  have hfirst : endsWith (fun _ logs => (logs.flatMap (·.messages)).length == 2)
      (processMonitorsArray (fun a b => a ≠ b) staleSensor
        (List.replicate staleSensor.monitors.length none) (staleInput ['0'])) := by
    decide +kernel
  rcases exists_of_endsWith hstale with ⟨_, _, hrun, hcount₁⟩
  rcases exists_of_endsWith hfirst with ⟨_, _, h₂, hcount₂⟩
  rcases runLog_append_eq_ok.mp hrun with ⟨values, passes, _, hbefore, hlast, rfl⟩
  rcases runLog_cons_eq_ok.mp hlast with ⟨_, logs, _, h₁, _, rfl⟩
  have hsame := hfresh _ [] _ _ _ _ hbefore (processRbSensor_nil staleSensor) _ _ _ _ _ h₁ h₂
  have hlen : passes.length = 1 := length_runLog hbefore
  simp only [List.getElem?_append_right, hlen, le_refl, Nat.sub_self, List.getElem?_cons_zero,
    Option.map_some, hsame, beq_iff_eq, Option.some.injEq] at hcount₁ hcount₂
  omega

end RbMonitor
