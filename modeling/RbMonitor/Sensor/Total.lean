import RbMonitor.Sensor.Lemmas
import RbMonitor.Sensor.Store

/-!
This module contains when a run comes to its end: no response has to be split at the empty token,
and the results of the operations fit their buffer.
-/

namespace RbMonitor

/-- The tags that a value of a monitor can have. -/
def Tagged (monitor : Monitor) (mv : MonitorValue) : Prop :=
  mv.Flat ∧ (monitor.type ≠ .op → mv.isValue = monitor.splittok.isNone)

theorem flat_toMonitorValue (a : ValueArray) : a.toMonitorValue.Flat :=
  MonitorValue.flat_iff.mpr (.inr ⟨a, rfl⟩)

theorem tagged_toMonitorValue {monitor : Monitor} (h : monitor.splittok.isNone = false)
    (a : ValueArray)
    : Tagged monitor a.toMonitorValue :=
  ⟨flat_toMonitorValue a, fun _ => h.symm⟩

theorem exists_value_of_tagged {monitor : Monitor} (hop : monitor.type ≠ .op)
    (hsplit : monitor.splittok.isNone = true) {old : Option MonitorValue}
    (h : ∀ mv, old = some mv → Tagged monitor mv)
    : ∃ o : Option Value, old = o.map .value := by
  cases old with
  | none => exact ⟨none, rfl⟩
  | some mv =>
    rcases MonitorValue.exists_of_isValue (((h mv rfl).2 hop).trans hsplit) with ⟨v, rfl⟩
    exact ⟨some v, rfl⟩

theorem exists_array_of_tagged {monitor : Monitor} (hop : monitor.type ≠ .op)
    (hsplit : monitor.splittok.isNone = false) {old : Option MonitorValue}
    (h : ∀ mv, old = some mv → Tagged monitor mv)
    : ∃ o : Option ValueArray, old = o.map ValueArray.toMonitorValue := by
  cases old with
  | none => exact ⟨none, rfl⟩
  | some mv =>
    rcases h mv rfl with ⟨hflat, htag⟩
    rcases MonitorValue.flat_iff.mp hflat with ⟨v, rfl⟩ | ⟨a, rfl⟩
    . have := (htag hop).trans hsplit
      cases this
    . exact ⟨some a, rfl⟩

/-- All stored values have the tags of their monitors. -/
def WellTagged (monitors : List Monitor) (values : List (Option MonitorValue)) : Prop :=
  ∀ i monitor mv, monitors[i]? = some monitor → stored values i = some mv → Tagged monitor mv

/-- No response has to be split at the empty token. -/
def NoEmptySplit (monitors : List Monitor) : Prop :=
  ∀ monitor ∈ monitors, monitor.type ≠ .op → monitor.splittok ≠ some []

theorem vectorElements_nil (haystack : CStr) : vectorElements haystack [] = .error .divergence := by
  have hgo (fuel ret : Nat) : vectorElements.go [] fuel haystack ret = .error .divergence := by
    induction fuel generalizing ret with
    | zero => rfl
    | succ fuel ih => simpa [vectorElements.go] using ih (ret + 1)
  exact hgo _ _

theorem rbMonitorGetExternalValue_of_splittok_nil {monitor : Monitor}
    (h : monitor.splittok = some []) (valueBuf : CStr) (number : Binary64) (now : Int)
    : rbMonitorGetExternalValue monitor valueBuf number now = .error .divergence := by
  simp [rbMonitorGetExternalValue, h, processVectorMonitor, vectorElements_nil, Bind.bind,
    Except.bind]

theorem rbMonitorGetOpResult_ok (lib : Matheval) (monitor : Monitor)
    (opVars : List (Option MonitorValue)) (now : Int)
    (hlen : (lib.getVariables monitor.cmdArg).length = opVars.length)
    (hfits : OperationFits lib monitor opVars)
    : ∃ r calls, rbMonitorGetOpResult lib monitor (some opVars) now = .ok (r, calls)
        ∧ ∀ mv, r = some mv → mv.Flat := by
  cases hc : lib.create monitor.cmdArg with
  | false =>
    exact ⟨_, _, rbMonitorGetOpResult_of_not_create lib monitor now _ hc, by simp⟩
  | true =>
    match opVars with
    | [] => exact ⟨_, _, rbMonitorGetOpResult_of_nil lib monitor now, by simp⟩
    | none :: rest => exact ⟨_, _, rbMonitorGetOpResult_of_null lib monitor now hlen, by simp⟩
    | some (.array children so) :: rest =>
      rw [rbMonitorGetOpResult_of_array lib monitor now children so hc hlen]
      split
      . exact ⟨_, _, rfl, by simp [MonitorValue.Flat]⟩
      . exact ⟨_, _, rfl, by simp⟩
    | some (.value x) :: rest =>
      rw [rbMonitorGetOpResult_of_value lib monitor now x hc hlen]
      cases hs : scalars (some (.value x) :: rest) with
      | none => exact ⟨_, _, rfl, by simp⟩
      | some xs =>
        rcases rbMonitorOpValue0_of_fits (hfits xs hs) now with ⟨r, calls, hr, hvalue⟩
        refine ⟨r, calls, hr, ?_⟩
        intro mv hmv
        rcases MonitorValue.exists_of_isValue (hvalue mv hmv) with ⟨v, rfl⟩
        trivial

theorem rbMonitorGetOpResult_of_not_fits {lib : Matheval} {monitor : Monitor}
    {opVars : List (Option MonitorValue)} (hc : lib.create monitor.cmdArg) (hne : opVars ≠ [])
    (hlen : (lib.getVariables monitor.cmdArg).length = opVars.length)
    (hfits : ¬ OperationFits lib monitor opVars) (now : Int)
    : ∃ call, rbMonitorGetOpResult lib monitor (some opVars) now = .error (.valBuf call) := by
  unfold OperationFits at hfits
  simp only [not_forall] at hfits
  rcases hfits with ⟨xs, hxs, hfits⟩
  match opVars with
  | [] => exact absurd rfl hne
  | none :: rest => simp [scalars] at hxs
  | some (.array children so) :: rest => simp [scalars] at hxs
  | some (.value x) :: rest =>
    rw [rbMonitorGetOpResult_of_value lib monitor now x hc hlen, hxs]
    exact ⟨_, rbMonitorOpValue0_of_not_fits hfits now⟩

section

variable {lib : Matheval} {rdDne : Binary64 → Binary64 → Bool} {sensor : Sensor lib}

variable (sensor) in
/-- If the monitor is an operation on scalars, its result at the stored values fits. -/
def OpFits (values : List (Option MonitorValue)) (monitor : Monitor) : Prop :=
  ∀ opVars, operandsOf sensor values monitor = some opVars → OperationFits lib monitor opVars

theorem processSensorMonitor_ok {monitor : Monitor}
    (hsplit : monitor.type ≠ .op → monitor.splittok ≠ some [])
    {values : List (Option MonitorValue)} (hfits : OpFits sensor values monitor)
    (response : Response)
    : ∃ r calls,
        processSensorMonitor lib monitor response (operandsOf sensor values monitor) = .ok (r, calls)
          ∧ ∀ mv, r = some mv → Tagged monitor mv := by
  unfold processSensorMonitor
  cases htype : monitor.type with
  | system =>
    rcases rbMonitorGetExternalValue_ok monitor (hsplit (by simp [htype]))
      (systemSolveResponse response.popen).1 (systemSolveResponse response.popen).2 response.now with
      ⟨mv, hmv, htag, hflat⟩
    refine ⟨some mv, [], ?_, ?_⟩
    . simp [rbMonitorGetSystemExternalValue, hmv, Bind.bind, Except.bind, Pure.pure, Except.pure]
    . intro _ hex
      cases hex
      exact ⟨hflat, fun _ => htag⟩
  | oid =>
    rcases rbMonitorGetExternalValue_ok monitor (hsplit (by simp [htype]))
      (snmpSolveResponse response.snmp).1 (snmpSolveResponse response.snmp).2 response.now with
      ⟨mv, hmv, htag, hflat⟩
    refine ⟨some mv, [], ?_, ?_⟩
    . simp [rbMonitorGetSnmpExternalValue, hmv, Bind.bind, Except.bind, Pure.pure, Except.pure]
    . intro _ hex
      cases hex
      exact ⟨hflat, fun _ => htag⟩
  | op =>
    dsimp only
    cases hpos : operandPositions lib sensor.monitors monitor with
    | none => exact ⟨none, [], by simp [operandsOf, hpos], by simp⟩
    | some js =>
      have hjs := forall₂_of_operandPositions hpos
      have hoperands : operandsOf sensor values monitor = some (js.map (stored values)) := by
        rw [operandsOf, hpos, Option.map_some]
      rcases rbMonitorGetOpResult_ok lib monitor (js.map (stored values))
        response.now (by simpa using hjs.length_eq) (hfits _ hoperands) with
        ⟨r, calls, hr, hflat⟩
      refine ⟨r, calls, by simpa [operandsOf, hpos] using hr, ?_⟩
      intro mv hmv
      exact ⟨hflat mv hmv, by simp [htype]⟩

theorem processSensorMonitor_of_not_fits {monitor : Monitor} {values : List (Option MonitorValue)}
    (hfits : ¬ OpFits sensor values monitor) (response : Response)
    : ∃ call, processSensorMonitor lib monitor response (operandsOf sensor values monitor)
        = .error (.valBuf call) := by
  unfold OpFits at hfits
  simp only [not_forall] at hfits
  rcases hfits with ⟨opVars, hoperands, hfits⟩
  rcases Option.map_eq_some_iff.mp hoperands with ⟨js, hjs, rfl⟩
  have hne : js ≠ [] := by
    intro hnil
    exact operandPositions_ne_nil (hnil ▸ hjs)
  rw [hoperands, processSensorMonitor, type_of_operandPositions hjs]
  apply rbMonitorGetOpResult_of_not_fits (create_of_operandPositions hjs) (by simpa using hne)
    (by simpa using (forall₂_of_operandPositions hjs).length_eq) hfits

variable (rdDne) in
theorem storeMonitorValue_ok {monitor : Monitor} {value old : Option MonitorValue}
    (hvalue : ∀ mv, value = some mv → Tagged monitor mv)
    (hold : ∀ mv, old = some mv → Tagged monitor mv)
    : ∃ new msgs, storeMonitorValue rdDne monitor value old = .ok (new, msgs)
        ∧ ∀ mv, new = some mv → Tagged monitor mv := by
  cases value with
  | none => exact ⟨old, [], rfl, hold⟩
  | some mv =>
    rcases hvalue mv rfl with ⟨hflat, htag⟩
    cases hts : monitor.timestampGiven with
    | false =>
      rcases printMonitorValue_ok hflat monitor with ⟨msgs, hmsgs⟩
      rw [storeMonitorValue_of_not_given monitor hts, hmsgs, ifSend_ok]
      exact ⟨some mv, _, rfl, by simpa using ⟨hflat, htag⟩⟩
    | true =>
      have hop : monitor.type ≠ .op := by
        intro hop
        simp [monitor.op_timestampGiven hop] at hts
      cases hsplit : monitor.splittok.isNone with
      | true =>
        rcases MonitorValue.exists_of_isValue ((htag hop).trans hsplit) with ⟨v, rfl⟩
        rcases exists_value_of_tagged hop hsplit hold with ⟨o, rfl⟩
        rw [storeMonitorValue_value monitor hts]
        split
        . exact ⟨_, _, rfl, by simpa using ⟨hflat, htag⟩⟩
        . exact ⟨_, _, rfl, hold⟩
      | false =>
        rcases exists_array_of_tagged hop hsplit hvalue with ⟨a, ha⟩
        rcases exists_array_of_tagged hop hsplit hold with ⟨o, rfl⟩
        cases a with
        | none => cases ha
        | some a =>
          rw [ha, Option.map_some, storeMonitorValue_array monitor hts]
          refine ⟨_, _, rfl, ?_⟩
          intro _ hex
          cases hex
          exact tagged_toMonitorValue hsplit _

variable (rdDne) in
theorem updateMonitor_ok (input : PassInput) {values : List (Option MonitorValue)}
    (hlen : values.length = sensor.monitors.length) (htags : WellTagged sensor.monitors values)
    {i : Nat} {monitor : Monitor} (hm : sensor.monitors[i]? = some monitor)
    (hsplit : monitor.type ≠ .op → monitor.splittok ≠ some [])
    (hfits : OpFits sensor values monitor)
    : ∃ values' log, updateMonitor rdDne sensor input values i = .ok (values', log)
        ∧ WellTagged sensor.monitors values' := by
  have hi := (List.getElem?_eq_some_iff.mp hm).1
  rcases processSensorMonitor_ok hsplit hfits (input.response i) with ⟨r, calls, hr, hrtag⟩
  rcases storeMonitorValue_ok rdDne hrtag (htags i _ · hm) with ⟨mv, msgs, hmv, hmvtag⟩
  refine ⟨values.set i mv, { calls := calls, yielded := r, messages := msgs },
    updateMonitor_eq_ok.mpr ⟨_, mv, hm, hr, hmv, rfl⟩, ?_⟩
  intro j monitor' mv' hj hmv'
  by_cases hij : i = j
  . subst hij
    rw [stored_set_self (by omega)] at hmv'
    rw [hm, Option.some.injEq] at hj
    exact hj ▸ hmvtag mv' hmv'
  . rw [stored_set_ne hij] at hmv'
    exact htags j monitor' mv' hj hmv'

theorem wellTagged_replicate (monitors : List Monitor) (n : Nat)
    : WellTagged monitors (List.replicate n none) := by
  intro i monitor mv _ h
  simp [stored, List.getElem?_replicate] at h
  split at h <;> simp_all

theorem processSensorMonitor_of_splittok_nil {monitor : Monitor} (hop : monitor.type ≠ .op)
    (hsplit : monitor.splittok = some []) (response : Response)
    (opVars : Option (List (Option MonitorValue)))
    : processSensorMonitor lib monitor response opVars = .error .divergence := by
  unfold processSensorMonitor
  cases htype : monitor.type with
  | system =>
    simp [rbMonitorGetSystemExternalValue, rbMonitorGetExternalValue_of_splittok_nil hsplit,
      Bind.bind, Except.bind]
  | oid =>
    simp [rbMonitorGetSnmpExternalValue, rbMonitorGetExternalValue_of_splittok_nil hsplit,
      Bind.bind, Except.bind]
  | op => exact absurd htype hop

theorem splittok_ne_nil_of_updateMonitor {input : PassInput}
    {values values' : List (Option MonitorValue)} {i : Nat} {log : MonitorLog}
    (h : updateMonitor rdDne sensor input values i = .ok (values', log)) {monitor : Monitor}
    (hm : sensor.monitors[i]? = some monitor) (hop : monitor.type ≠ .op)
    : monitor.splittok ≠ some [] := by
  intro hsplit
  rcases updateMonitor_eq_ok.mp h with ⟨monitor', _, hm', hr, _, _⟩
  rw [hm, Option.some.injEq] at hm'
  subst hm'
  rw [processSensorMonitor_of_splittok_nil hop hsplit] at hr
  cases hr

theorem opFits_of_updateMonitor {input : PassInput} {values values' : List (Option MonitorValue)}
    {i : Nat} {log : MonitorLog}
    (h : updateMonitor rdDne sensor input values i = .ok (values', log)) {monitor : Monitor}
    (hm : sensor.monitors[i]? = some monitor)
    : OpFits sensor values monitor := by
  by_contra hfits
  rcases updateMonitor_eq_ok.mp h with ⟨monitor', _, hm', hr, _, _⟩
  rw [hm, Option.some.injEq] at hm'
  subst hm'
  rcases processSensorMonitor_of_not_fits hfits (input.response i) with ⟨call, hcall⟩
  rw [hcall] at hr
  cases hr

/-- The values of a pass are as many as the monitors, with the tags of their monitors. -/
structure TagsKept (sensor : Sensor lib) (values : List (Option MonitorValue)) : Prop where
  length : values.length = sensor.monitors.length
  tags : WellTagged sensor.monitors values

theorem tagsKept_replicate (sensor : Sensor lib)
    : TagsKept sensor (List.replicate sensor.monitors.length none) :=
  ⟨List.length_replicate, wellTagged_replicate _ _⟩

theorem TagsKept.of_updateMonitor {input : PassInput} {values values' : List (Option MonitorValue)}
    (h : TagsKept sensor values) {i : Nat} {log : MonitorLog}
    (hstep : updateMonitor rdDne sensor input values i = .ok (values', log))
    : TagsKept sensor values' := by
  rcases updateMonitor_eq_ok.mp hstep with ⟨monitor, _, hm, _, _, _⟩
  rcases updateMonitor_ok rdDne input h.length h.tags hm (splittok_ne_nil_of_updateMonitor hstep hm)
    (opFits_of_updateMonitor hstep hm) with
    ⟨_, _, hok, htags⟩
  rw [hstep] at hok
  cases hok
  exact ⟨(length_updateMonitor hstep).trans h.length, htags⟩

theorem TagsKept.of_runLog_updateMonitor {input : PassInput}
    {values values' : List (Option MonitorValue)} (h : TagsKept sensor values) {is : List Nat}
    {logs : List MonitorLog}
    (hrun : runLog (updateMonitor rdDne sensor input) values is = .ok (values', logs))
    : TagsKept sensor values' :=
  runLog_invariant (TagsKept sensor) (fun _ _ _ _ h hstep => h.of_updateMonitor hstep) hrun h

theorem TagsKept.of_processMonitorsArray {input : PassInput}
    {values values' : List (Option MonitorValue)} (h : TagsKept sensor values)
    {logs : List MonitorLog}
    (hpass : processMonitorsArray rdDne sensor values input = .ok (values', logs))
    : TagsKept sensor values' := by
  cases haok : aok sensor input with
  | false =>
    rw [processMonitorsArray_of_not_aok haok, Except.ok.injEq, Prod.mk.injEq] at hpass
    exact hpass.1 ▸ h
  | true => exact h.of_runLog_updateMonitor ((processMonitorsArray_of_aok haok h.length).mp hpass)

theorem tagsKept_of_processRbSensor {inputs : List PassInput}
    {values : List (Option MonitorValue)} {passes : List (List MonitorLog)}
    (h : processRbSensor rdDne sensor inputs = .ok (values, passes))
    : TagsKept sensor values :=
  runLog_invariant (TagsKept sensor) (fun _ _ _ _ h hpass => h.of_processMonitorsArray hpass) h
    (tagsKept_replicate sensor)

/-! ### When a run ends -/

theorem exists_updateMonitor_iff (input : PassInput) {values : List (Option MonitorValue)}
    (h : TagsKept sensor values) {i : Nat} {monitor : Monitor}
    (hm : sensor.monitors[i]? = some monitor)
    : (∃ r, updateMonitor rdDne sensor input values i = .ok r)
        ↔
      (monitor.type ≠ .op → monitor.splittok ≠ some []) ∧ OpFits sensor values monitor := by
  constructor
  . intro hex
    rcases hex with ⟨r, hr⟩
    exact ⟨splittok_ne_nil_of_updateMonitor hr hm, opFits_of_updateMonitor hr hm⟩
  . intro hconds
    rcases updateMonitor_ok rdDne input h.length h.tags hm hconds.1 hconds.2 with
      ⟨values', log, hok, _⟩
    exact ⟨_, hok⟩

theorem eq_range_of_append_cons {n i : Nat} {before after : List Nat}
    (h : List.range n = before ++ i :: after)
    : before = List.range i ∧ i < n := by
  have hlen := congrArg List.length h
  simp only [List.length_range, List.length_append, List.length_cons] at hlen
  have hat := congrArg (·[before.length]?) h
  simp only [List.getElem?_append_right (Nat.le_refl _), Nat.sub_self, List.getElem?_cons_zero,
    List.getElem?_range (show before.length < n by omega), Option.some.injEq] at hat
  have htake := congrArg (List.take before.length) h
  rw [List.take_range, List.take_left, Nat.min_eq_left (by omega)] at htake
  exact ⟨hat ▸ htake.symm, by omega⟩

variable (rdDne sensor)

/-- No response of these passes has to be split at the empty token. -/
def SplitsEnd (inputs : List PassInput) : Prop :=
  ∀ input ∈ inputs, aok sensor input → NoEmptySplit sensor.monitors

/-- The results of the operations of a pass fit, each at the values that it finds. -/
def PassFits (values : List (Option MonitorValue)) (input : PassInput) : Prop :=
  ∀ i st logs,
    runLog (processMonitor rdDne sensor input) (newIteration sensor values) (List.range i)
      = .ok (st, logs) →
    ∀ monitor, sensor.monitors[i]? = some monitor → OpFits sensor st.currentIteration monitor

/-- The results of the operations of a run fit, each at the values that it finds. -/
def RunFits (inputs : List PassInput) : Prop :=
  ∀ before input after values passes, inputs = before ++ input :: after → aok sensor input →
    processRbSensor rdDne sensor before = .ok (values, passes) → PassFits rdDne sensor values input

variable {rdDne sensor}

theorem exists_processMonitorsArray_iff {input : PassInput} (haok : aok sensor input)
    {values : List (Option MonitorValue)} (h : TagsKept sensor values)
    : (∃ r, processMonitorsArray rdDne sensor values input = .ok r)
        ↔ NoEmptySplit sensor.monitors ∧ PassFits rdDne sensor values input := by
  have hrun : (∃ r, processMonitorsArray rdDne sensor values input = .ok r)
      ↔ ∃ r, runLog (updateMonitor rdDne sensor input) values (List.range sensor.monitors.length)
        = .ok r := by
    simp only [Prod.exists, processMonitorsArray_of_aok haok h.length]
  rw [hrun, exists_runLog_iff]
  constructor
  . intro hsteps
    constructor
    . intro monitor hmonitor hop
      rcases exists_runLog_iff.mpr hsteps with ⟨⟨_, _⟩, hok⟩
      rcases List.mem_iff_getElem.mp hmonitor with ⟨i, hi, rfl⟩
      rcases exists_step_of_runLog hok (List.mem_range.mpr hi) with ⟨_, _, _, hstep⟩
      exact splittok_ne_nil_of_updateMonitor hstep (List.getElem?_eq_getElem hi) hop
    . intro i st logs hbefore monitor hm
      rw [newIteration_eq h.length] at hbefore
      rcases (runLog_processMonitor_eq_ok h.length).mp hbefore with ⟨values', hupdates, rfl⟩
      have hi := (List.getElem?_eq_some_iff.mp hm).1
      rcases hsteps _ i _ values' logs (range_eq_append_cons hi) hupdates with ⟨⟨_, _⟩, hstep⟩
      exact opFits_of_updateMonitor hstep hm
  . intro hconds before i after values' logs hrange hbefore
    rcases eq_range_of_append_cons hrange with ⟨rfl, hi⟩
    have hm := List.getElem?_eq_getElem hi
    rw [exists_updateMonitor_iff input (h.of_runLog_updateMonitor hbefore) hm]
    refine ⟨hconds.1 _ (List.mem_of_getElem? hm), ?_⟩
    apply hconds.2 i ⟨values', values'⟩ logs _ _ hm
    rw [newIteration_eq h.length]
    exact (runLog_processMonitor_eq_ok h.length).mpr ⟨values', hbefore, rfl⟩

theorem exists_processRbSensor_iff {inputs : List PassInput}
    : (∃ r, processRbSensor rdDne sensor inputs = .ok r)
        ↔ SplitsEnd sensor inputs ∧ RunFits rdDne sensor inputs := by
  unfold processRbSensor
  rw [exists_runLog_iff]
  constructor
  . intro hsteps
    constructor
    . intro input hinput haok
      rcases List.append_of_mem hinput with ⟨before, after, rfl⟩
      have hbefore : ∃ r, processRbSensor rdDne sensor before = .ok r := by
        rcases exists_runLog_iff.mpr hsteps with ⟨⟨_, _⟩, hok⟩
        rcases runLog_append_eq_ok.mp hok with ⟨values, passes, _, hbefore, _, _⟩
        exact ⟨_, hbefore⟩
      rcases hbefore with ⟨⟨values, passes⟩, hbefore⟩
      have hpass := hsteps before input after values passes rfl hbefore
      rw [exists_processMonitorsArray_iff haok (tagsKept_of_processRbSensor hbefore)] at hpass
      exact hpass.1
    . intro before input after values passes hinputs haok hbefore
      have hpass := hsteps before input after values passes hinputs hbefore
      rw [exists_processMonitorsArray_iff haok (tagsKept_of_processRbSensor hbefore)] at hpass
      exact hpass.2
  . intro hconds before input after values passes hinputs hbefore
    cases haok : aok sensor input with
    | false => exact ⟨_, processMonitorsArray_of_not_aok haok values⟩
    | true =>
      rw [exists_processMonitorsArray_iff haok (tagsKept_of_processRbSensor hbefore)]
      exact ⟨hconds.1 input (by simp [hinputs]) haok,
        hconds.2 before input after values passes hinputs haok hbefore⟩

end

end RbMonitor
