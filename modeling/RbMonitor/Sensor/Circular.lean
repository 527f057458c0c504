import Mathlib.Logic.Relation
import RbMonitor.Sensor.Tags

/-!
This module contains the operations that depend on themselves, directly or through others: no run
gives them a number.
-/

namespace RbMonitor

open Relation

/-- A scalar is a number, and so is a child or a split result. -/
def MonitorValue.HasNumber : MonitorValue → Prop
  | .value _ => True
  | .array children splitOpResult => (∃ c, some c ∈ children) ∨ splitOpResult.isSome

theorem exists_replicate_of_not_hasNumber {mv : MonitorValue} (h : ¬ mv.HasNumber)
    : ∃ n, mv = .array (List.replicate n none) none := by
  cases mv with
  | value v => exact absurd trivial h
  | array children so =>
    simp only [MonitorValue.HasNumber, not_or, not_exists] at h
    have hso : so = none := by simpa using h.2
    have hchildren : children = List.replicate children.length none := by
      apply List.eq_replicate_of_mem
      intro child hchild
      cases child with
      | none => rfl
      | some c => exact absurd hchild (h.1 c)
    refine ⟨children.length, ?_⟩
    rw [hso, ← hchildren]

theorem not_hasNumber_replicate (n : Nat)
    : ¬ (MonitorValue.array (List.replicate n none) none).HasNumber := by
  simp [MonitorValue.HasNumber]

theorem printMonitorValue_replicate (n : Nat) (monitor : Monitor)
    : printMonitorValue (.array (List.replicate n none) none) monitor = .ok [] := by
  have hchildren (i : Nat)
      : printMonitorValue.printChildren monitor (List.replicate n none) i = .ok [] := by
    induction n generalizing i with
    | zero => rfl
    | succ n ih => exact ih (i + 1)
  simp [printMonitorValue, hchildren, Bind.bind, Except.bind, Pure.pure, Except.pure]

section

variable {lib : Matheval} {rdDne : Binary64 → Binary64 → Bool} (sensor : Sensor lib)

/-- Monitor `i` is on a cycle of dependencies, or depends on one. -/
def Circular (i : Nat) : Prop :=
  ∃ j, ReflTransGen (DependsOn sensor) i j ∧ TransGen (DependsOn sensor) j j

/-- No circular operation has a number. -/
def Silent (values : List (Option MonitorValue)) : Prop :=
  ∀ i, Circular sensor i → ∀ mv, stored values i = some mv → ¬ mv.HasNumber

variable {sensor}

theorem Circular.dependsOn {i : Nat} (h : Circular sensor i)
    : ∃ j, DependsOn sensor i j ∧ Circular sensor j := by
  rcases h with ⟨j, hreach, hcycle⟩
  cases ReflTransGen.cases_head hreach with
  | inl heq =>
    subst heq
    rcases TransGen.head'_iff.mp hcycle with ⟨k, hdep, hback⟩
    exact ⟨k, hdep, i, hback, hcycle⟩
  | inr hstep =>
    rcases hstep with ⟨k, hdep, hrest⟩
    exact ⟨k, hdep, j, hrest, hcycle⟩

theorem exists_operandPositions_of_dependsOn {i j : Nat} (h : DependsOn sensor i j)
    : ∃ monitor js, sensor.monitors[i]? = some monitor
        ∧ operandPositions lib sensor.monitors monitor = some js ∧ j ∈ js := by
  rcases h with ⟨deps, hdeps, hj⟩
  rw [sensor.opVars_eq, getMonitorsDependencies, List.getElem?_map] at hdeps
  rcases Option.map_eq_some_iff.mp hdeps with ⟨monitor, hm, hdeps⟩
  rw [getMonitorDependencies_eq] at hdeps
  rcases Option.map_eq_some_iff.mp hdeps with ⟨js, hjs, rfl⟩
  refine ⟨monitor, js, hm, hjs, ?_⟩
  simpa using hj

theorem scalars_eq_none_of_mem {operands : List (Option MonitorValue)} {operand : Option MonitorValue}
    (hmem : operand ∈ operands) (h : ∀ mv, operand = some mv → ¬ mv.HasNumber)
    : scalars operands = none := by
  induction operands with
  | nil => cases hmem
  | cons mv rest ih =>
    cases List.mem_cons.mp hmem with
    | inl heq =>
      subst heq
      match operand with
      | none => rfl
      | some (.array _ _) => rfl
      | some (.value v) => exact absurd trivial (h _ rfl)
    | inr hrest =>
      match mv with
      | none => rfl
      | some (.array _ _) => rfl
      | some (.value v) => simp [scalars, ih hrest]

theorem yields_of_circular {i : Nat} (hcirc : Circular sensor i) {monitor : Monitor}
    (hm : sensor.monitors[i]? = some monitor) {values : List (Option MonitorValue)}
    (hsilent : Silent sensor values) {response : Response} {r : Option MonitorValue}
    {calls : List EvalCall}
    (h : processSensorMonitor lib monitor response (operandsOf sensor values monitor)
      = .ok (r, calls))
    : monitor.type = .op ∧ ∀ mv, r = some mv → ¬ mv.HasNumber := by
  rcases hcirc.dependsOn with ⟨j, hdep, hj⟩
  rcases exists_operandPositions_of_dependsOn hdep with ⟨monitor', js, hm', hjs, hmem⟩
  rw [hm, Option.some.injEq] at hm'
  subst hm'
  have hop := type_of_operandPositions hjs
  refine ⟨hop, ?_⟩
  have hoperands : operandsOf sensor values monitor = some (js.map (stored values)) := by
    simp [operandsOf, hjs]
  have hnone : scalars (js.map (stored values)) = none :=
    scalars_eq_none_of_mem (List.mem_map_of_mem hmem) (hsilent j hj)
  simp only [processSensorMonitor, hop, hoperands] at h
  intro mv hmv
  subst hmv
  rcases rbMonitorGetOpResult_shape lib monitor response.now h with h | ⟨n, h⟩ | ⟨v, ops, xs, _, h, hs⟩
  . cases h
  . cases h
    exact not_hasNumber_replicate n
  . cases h
    rw [hnone] at hs
    cases hs

theorem storeMonitorValue_of_not_hasNumber {monitor : Monitor}
    (hts : monitor.timestampGiven = false) {r old new : Option MonitorValue}
    {messages : List RbMessage} (hr : ∀ mv, r = some mv → ¬ mv.HasNumber)
    (hold : ∀ mv, old = some mv → ¬ mv.HasNumber)
    (h : storeMonitorValue rdDne monitor r old = .ok (new, messages))
    : (∀ mv, new = some mv → ¬ mv.HasNumber) ∧ messages = [] := by
  cases r with
  | none =>
    cases h
    exact ⟨hold, rfl⟩
  | some mv =>
    rcases exists_replicate_of_not_hasNumber (hr mv rfl) with ⟨n, rfl⟩
    rw [storeMonitorValue_of_not_given monitor hts, printMonitorValue_replicate] at h
    simp only [ifSend_ok, ite_self, Except.map, Except.ok.injEq, Prod.mk.injEq] at h
    rw [← h.1, ← h.2]
    exact ⟨hr, rfl⟩

/-- What a monitor leaves in the log. -/
def SilentLog (sensor : Sensor lib) (i : Nat) (log : MonitorLog) : Prop :=
  Circular sensor i → log.messages = []

theorem silent_of_updateMonitor {input : PassInput} {values values' : List (Option MonitorValue)}
    {i : Nat} {log : MonitorLog} (hlen : values.length = sensor.monitors.length)
    (hsilent : Silent sensor values)
    (h : updateMonitor rdDne sensor input values i = .ok (values', log))
    : Silent sensor values' ∧ SilentLog sensor i log := by
  rcases updateMonitor_eq_ok.mp h with ⟨monitor, mv, hm, hr, hstore, rfl⟩
  have hlt : i < values.length := by
    rw [hlen]
    exact (List.getElem?_eq_some_iff.mp hm).1
  have hcirc (hi : Circular sensor i)
      : (∀ mv', mv = some mv' → ¬ mv'.HasNumber) ∧ log.messages = [] := by
    rcases yields_of_circular hi hm hsilent hr with ⟨hop, hyields⟩
    exact storeMonitorValue_of_not_hasNumber (monitor.op_timestampGiven hop) hyields
      (hsilent i hi) hstore
  constructor
  . intro j hj
    by_cases hij : i = j
    . subst hij
      rw [stored_set_self hlt]
      exact (hcirc hj).1
    . rw [stored_set_ne hij]
      exact hsilent j hj
  . intro hi
    exact (hcirc hi).2

theorem silent_of_runLog_updateMonitor {input : PassInput}
    {values values' : List (Option MonitorValue)} {is : List Nat} {logs : List MonitorLog}
    (hlen : values.length = sensor.monitors.length) (hsilent : Silent sensor values)
    (h : runLog (updateMonitor rdDne sensor input) values is = .ok (values', logs))
    : Silent sensor values' ∧ List.Forall₂ (SilentLog sensor) is logs := by
  have hrun := runLog_forall₂
    (fun values : List (Option MonitorValue) =>
      values.length = sensor.monitors.length ∧ Silent sensor values)
    (SilentLog sensor)
    (fun values i values' log hinv hstep =>
      have hkept := silent_of_updateMonitor hinv.1 hinv.2 hstep
      ⟨⟨(length_updateMonitor hstep).trans hinv.1, hkept.1⟩, hkept.2⟩)
    h ⟨hlen, hsilent⟩
  exact ⟨hrun.1.2, hrun.2⟩

/-- The circular operations send nothing in a pass. -/
def SilentPass (sensor : Sensor lib) (logs : List MonitorLog) : Prop :=
  ∀ i, Circular sensor i → ∀ log, logs[i]? = some log → log.messages = []

theorem silentPass_of_forall₂ {m : Nat} {logs : List MonitorLog}
    (h : List.Forall₂ (SilentLog sensor) (List.range m) logs)
    : SilentPass sensor logs := by
  intro i hi log hlog
  rcases List.getElem?_eq_some_iff.mp hlog with ⟨hlt, rfl⟩
  have hget := h.get (by rw [h.length_eq]; exact hlt) hlt
  simp only [List.get_eq_getElem, List.getElem_range] at hget
  exact hget hi

theorem silent_of_processMonitorsArray {input : PassInput}
    {values values' : List (Option MonitorValue)} {logs : List MonitorLog}
    (hlen : values.length = sensor.monitors.length) (hsilent : Silent sensor values)
    (h : processMonitorsArray rdDne sensor values input = .ok (values', logs))
    : Silent sensor values' ∧ SilentPass sensor logs := by
  cases haok : aok sensor input with
  | false =>
    rw [processMonitorsArray_of_not_aok haok, Except.ok.injEq, Prod.mk.injEq] at h
    rw [← h.1, ← h.2]
    refine ⟨hsilent, ?_⟩
    intro i _ log hlog
    simp at hlog
  | true =>
    rw [processMonitorsArray_of_aok haok hlen] at h
    have hrun := silent_of_runLog_updateMonitor hlen hsilent h
    exact ⟨hrun.1, silentPass_of_forall₂ hrun.2⟩

theorem silent_replicate (n : Nat) : Silent sensor (List.replicate n none) := by
  intro i _ mv hmv
  rw [stored_replicate] at hmv
  cases hmv

theorem silent_of_processRbSensor {inputs : List PassInput} {values : List (Option MonitorValue)}
    {passes : List (List MonitorLog)}
    (h : processRbSensor rdDne sensor inputs = .ok (values, passes))
    : Silent sensor values ∧ ∀ logs ∈ passes, SilentPass sensor logs := by
  have hrun := runLog_forall₂
    (fun values : List (Option MonitorValue) =>
      values.length = sensor.monitors.length ∧ Silent sensor values)
    (fun _ logs => SilentPass sensor logs)
    (fun values input values' logs hinv hstep =>
      have hkept := silent_of_processMonitorsArray hinv.1 hinv.2 hstep
      ⟨⟨length_processMonitorsArray hinv.1 hstep, hkept.1⟩, hkept.2⟩)
    h ⟨List.length_replicate, silent_replicate _⟩
  refine ⟨hrun.1.2, ?_⟩
  intro logs hlogs
  rcases exists_of_forall₂ hrun.2 hlogs with ⟨_, _, hpass⟩
  exact hpass

/-- In every run a circular operation has no number and sends nothing, up to any monitor of the pass
that comes next. -/
theorem circular_silent {inputs : List PassInput} {values : List (Option MonitorValue)}
    {passes : List (List MonitorLog)}
    (h : processRbSensor rdDne sensor inputs = .ok (values, passes)) {i : Nat}
    (hi : Circular sensor i)
    : (∀ mv, stored values i = some mv → ¬ mv.HasNumber)
        ∧ (∀ logs ∈ passes, ∀ log, logs[i]? = some log → log.messages = [])
        ∧ ∀ input m st logs,
          runLog (processMonitor rdDne sensor input) (newIteration sensor values) (List.range m)
            = .ok (st, logs) →
          (∀ mv, stored st.lastKnown i = some mv → ¬ mv.HasNumber)
            ∧ ∀ log, logs[i]? = some log → log.messages = [] := by
  have hlen := length_processRbSensor h
  have hrun := silent_of_processRbSensor h
  refine ⟨hrun.1 i hi, fun logs hlogs => hrun.2 logs hlogs i hi, ?_⟩
  intro input m st logs hpart
  rw [newIteration_eq hlen, runLog_processMonitor_eq_ok hlen] at hpart
  rcases hpart with ⟨values', hpart, rfl⟩
  have hkept := silent_of_runLog_updateMonitor hlen hrun.1 hpart
  exact ⟨hkept.1 i hi, silentPass_of_forall₂ hkept.2 i hi⟩

end

/-- Two operations that need each other, and one that needs them. -/
def circularSensor : Sensor .sums where
  peername := some "10.0.0.1".toList
  community := some "public".toList
  monitors := [
    { type := .system, name := "load_1".toList, cmdArg := "load 1".toList },
    { type := .op, name := "a".toList, cmdArg := "load_1+b".toList },
    { type := .op, name := "b".toList, cmdArg := "a+load_1".toList },
    { type := .op, name := "c".toList, cmdArg := "load_1+b".toList }]

def circularInput : PassInput where
  session := true
  response _ := { popen := some ['3'], snmp := .error, now := 1 }

theorem circular_circularSensor : Circular circularSensor 3 := by
  have hcb : DependsOn circularSensor 3 2 := ⟨[0, 2, -1], by decide +kernel, by decide⟩
  have hba : DependsOn circularSensor 2 1 := ⟨[1, 0, -1], by decide +kernel, by decide⟩
  have hab : DependsOn circularSensor 1 2 := ⟨[0, 2, -1], by decide +kernel, by decide⟩
  exact ⟨2, ReflTransGen.single hcb, TransGen.tail (TransGen.single hba) hab⟩

theorem circular_silent_load
    : ∃ values passes,
        processRbSensor (fun a b => a ≠ b) circularSensor [circularInput, circularInput]
            = .ok (values, passes)
          ∧ ∀ logs ∈ passes, ∀ log, logs[3]? = some log → log.messages = [] := by
  have hends : endsWith (fun _ _ => true) (processRbSensor (fun a b => a ≠ b) circularSensor
      [circularInput, circularInput]) := by
    decide +kernel
  rcases exists_of_endsWith hends with ⟨values, passes, hrun, _⟩
  exact ⟨values, passes, hrun, (circular_silent hrun circular_circularSensor).2.1⟩

end RbMonitor
