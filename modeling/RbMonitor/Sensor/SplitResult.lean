import RbMonitor.Op.ElementWise
import RbMonitor.Sensor.Cache
import RbMonitor.Sensor.Freshness

/-!
This module contains how the stored result of a split operation fits the children that are stored
with it, over the runs of a sensor.
-/

namespace RbMonitor

open CString

/-- An array has a split result exactly when it has a child, and it is that of its children. -/
structure ValueArray.Consistent (op : CStr) (a : ValueArray) : Prop where
  isSome_iff : a.splitOpResult.isSome ↔ ∃ v, some v ∈ a.children
  value_eq : ∀ v, a.splitOpResult = some v → v.value = aggregate op a.children.reduceOption

theorem reduceOption_eq_nil_iff {α : Type} {l : List (Option α)}
    : l.reduceOption = [] ↔ ¬ ∃ a, some a ∈ l := by
  simp only [List.eq_nil_iff_forall_not_mem, List.reduceOption_mem_iff, not_exists]

theorem ValueArray.consistent_iff {op : CStr} {a : ValueArray}
    : a.Consistent op
        ↔ a.splitOpResult.map (·.value) = splitResult op a.children.reduceOption := by
  unfold splitResult
  cases hso : a.splitOpResult with
  | none =>
    constructor
    . intro h
      have hnone := h.isSome_iff
      simp only [hso, Option.isSome_none, Bool.false_eq_true, false_iff] at hnone
      rw [if_pos (reduceOption_eq_nil_iff.mpr hnone), Option.map_none]
    . intro h
      have hnil : a.children.reduceOption = [] := by
        by_contra hne
        simp [hne] at h
      constructor
      . simpa [hso] using reduceOption_eq_nil_iff.mp hnil
      . simp [hso]
  | some v =>
    constructor
    . intro h
      have hsome := h.isSome_iff
      simp only [hso, Option.isSome_some, true_iff] at hsome
      have hne : a.children.reduceOption ≠ [] := by
        intro hnil
        exact reduceOption_eq_nil_iff.mp hnil hsome
      rw [if_neg hne, Option.map_some, h.value_eq v hso]
    . intro h
      have hne : a.children.reduceOption ≠ [] := by
        intro hnil
        simp [hnil] at h
      constructor
      . simp only [hso, Option.isSome_some, true_iff]
        by_contra hnone
        exact hne (reduceOption_eq_nil_iff.mpr hnone)
      . intro w hw
        rw [if_neg hne, Option.map_some, Option.some.injEq] at h
        rw [hso, Option.some.injEq] at hw
        rw [← hw, h]

section

variable {lib : Matheval} (rdDne : Binary64 → Binary64 → Bool) (sensor : Sensor lib) (i : Nat)
variable (monitor : Monitor) (splittok op : CStr)

/-- An array with the split result of its own children. -/
def ConsistentValue (mv : MonitorValue) : Prop :=
  mv.isValue = false → ∃ a : ValueArray, mv = a.toMonitorValue ∧ a.Consistent op

/-- In every state that the run reaches, the array stored for monitor `i` has the result of its own
children. -/
def StaysConsistent (inputs : List PassInput) : Prop :=
  ∀ k values passes, processRbSensor rdDne sensor (inputs.take k) = .ok (values, passes) →
    ∀ mv, stored values i = some mv → ConsistentValue op mv

/-- All responses that are asked for in a run have the same sum or mean, or no elements. -/
def ResponsesAgree (inputs : List PassInput) : Prop :=
  ∀ input ∈ inputs, ∀ input' ∈ inputs, aok sensor input → aok sensor input' →
    splitResult op (responseElements monitor splittok (input.response i)).reduceOption =
      splitResult op (responseElements monitor splittok (input'.response i)).reduceOption

/-- What a pass leaves of an array with given timestamps. -/
def remember (old : Option ValueArray) (input : PassInput) : Option ValueArray :=
  if aok sensor input then
    some (keepSplit old (responseArray monitor splittok (input.response i)))
  else
    old

variable {rdDne sensor i monitor splittok op}

theorem stored_of_pass_remember (hm : sensor.monitors[i]? = some monitor)
    (hts : monitor.timestampGiven) (hsplit : monitor.splittok = some splittok) {input : PassInput}
    {values values' : List (Option MonitorValue)} {logs : List MonitorLog}
    (hlen : values.length = sensor.monitors.length)
    (h : processMonitorsArray rdDne sensor values input = .ok (values', logs))
    {old : Option ValueArray} (hold : stored values i = old.map ValueArray.toMonitorValue)
    : stored values' i =
        (remember sensor i monitor splittok old input).map ValueArray.toMonitorValue := by
  have hop : monitor.type ≠ .op := by
    intro hop
    simp [monitor.op_timestampGiven hop] at hts
  unfold remember
  cases haok : aok sensor input with
  | false =>
    rw [processMonitorsArray_of_not_aok haok, Except.ok.injEq, Prod.mk.injEq] at h
    rw [← h.1]
    exact hold
  | true =>
    rcases processMonitorsArray_at_of_aok haok hlen h hm with ⟨log, opVars, _, hr, hstore⟩
    have htok := splittok_ne_nil_of_processSensorMonitor hop hsplit hr
    rw [processSensorMonitor_of_split hop hsplit htok, Except.ok.injEq, Prod.mk.injEq] at hr
    rw [← hr.1, hold, storeMonitorValue_array monitor hts, Except.ok.injEq, Prod.mk.injEq] at hstore
    rw [← hstore.1]
    rfl

theorem stored_of_run_remember (hm : sensor.monitors[i]? = some monitor)
    (hts : monitor.timestampGiven) (hsplit : monitor.splittok = some splittok)
    {inputs : List PassInput} {values values' : List (Option MonitorValue)}
    {passes : List (List MonitorLog)} (hlen : values.length = sensor.monitors.length)
    (h : runLog (processMonitorsArray rdDne sensor) values inputs = .ok (values', passes))
    {old : Option ValueArray} (hold : stored values i = old.map ValueArray.toMonitorValue)
    : stored values' i =
        (inputs.foldl (remember sensor i monitor splittok) old).map ValueArray.toMonitorValue := by
  induction inputs generalizing values passes old with
  | nil =>
    simp only [runLog_nil, Except.ok.injEq, Prod.mk.injEq] at h
    rw [← h.1]
    exact hold
  | cons input inputs ih =>
    rcases runLog_cons_eq_ok.mp h with ⟨values₁, logs, passes', hpass, hrest, rfl⟩
    have hlen₁ := length_processMonitorsArray hlen hpass
    exact ih hlen₁ hrest (stored_of_pass_remember hm hts hsplit hlen hpass hold)

theorem splitOpResult_foldl_remember (inputs : List PassInput) (a : ValueArray)
    : ∃ b, inputs.foldl (remember sensor i monitor splittok) (some a) = some b
        ∧ b.splitOpResult = a.splitOpResult := by
  induction inputs generalizing a with
  | nil => exact ⟨a, rfl, rfl⟩
  | cons input inputs ih =>
    rw [List.foldl_cons]
    unfold remember
    split
    . rcases ih (keepSplit (some a) (responseArray monitor splittok (input.response i))) with
        ⟨b, hb, hsplit⟩
      exact ⟨b, hb, hsplit⟩
    . exact ih a

theorem value_splitOpResult_responseArray (hop : monitor.splitop = some op) (response : Response)
    : (responseArray monitor splittok response).splitOpResult.map (·.value) =
        splitResult op (responseElements monitor splittok response).reduceOption := by
  simp [responseArray, hop, Function.comp_def]

/-- An array that agrees with a response of the run, as all of them do. -/
def AgreesWith (sensor : Sensor lib) (i : Nat) (monitor : Monitor) (splittok op : CStr)
    (inputs : List PassInput) (a : ValueArray) : Prop :=
  a.Consistent op ∧ ∃ input ∈ inputs, aok sensor input ∧
    a.splitOpResult.map (·.value) =
      splitResult op (responseElements monitor splittok (input.response i)).reduceOption

theorem agreesWith_remember (hop : monitor.splitop = some op) {inputs : List PassInput}
    (hagree : ResponsesAgree sensor i monitor splittok op inputs) {input : PassInput}
    (hinput : input ∈ inputs) {old : Option ValueArray}
    (hold : ∀ a, old = some a → AgreesWith sensor i monitor splittok op inputs a) {a : ValueArray}
    (h : remember sensor i monitor splittok old input = some a)
    : AgreesWith sensor i monitor splittok op inputs a := by
  unfold remember at h
  split at h
  . next haok =>
    have hresponse
        : (responseArray monitor splittok (input.response i)).splitOpResult.map (·.value) =
            splitResult op (responseElements monitor splittok (input.response i)).reduceOption :=
      value_splitOpResult_responseArray hop (input.response i)
    cases h
    cases old with
    | none =>
      exact ⟨ValueArray.consistent_iff.mpr hresponse, input, hinput, haok, hresponse⟩
    | some a =>
      rcases hold a rfl with ⟨_, input₀, hinput₀, haok₀, hsplit₀⟩
      refine ⟨?_, input₀, hinput₀, haok₀, hsplit₀⟩
      rw [ValueArray.consistent_iff]
      exact hsplit₀.trans (hagree input₀ hinput₀ input hinput haok₀ haok)
  . exact hold a h

theorem agreesWith_foldl_remember (hop : monitor.splitop = some op) {inputs : List PassInput}
    (hagree : ResponsesAgree sensor i monitor splittok op inputs) {rest : List PassInput}
    (hrest : ∀ input ∈ rest, input ∈ inputs) {old : Option ValueArray}
    (hold : ∀ a, old = some a → AgreesWith sensor i monitor splittok op inputs a) {a : ValueArray}
    (h : rest.foldl (remember sensor i monitor splittok) old = some a)
    : AgreesWith sensor i monitor splittok op inputs a := by
  induction rest generalizing old with
  | nil => exact hold a h
  | cons input rest ih =>
    apply ih (fun input' h' => hrest input' (List.mem_cons_of_mem _ h')) _ h
    intro b hb
    exact agreesWith_remember hop hagree (hrest input List.mem_cons_self) hold hb

theorem splitResult_eq_of_consistent {inputs : List PassInput}
    (hcons : ∀ k a, (inputs.take k).foldl (remember sensor i monitor splittok) none = some a →
      a.Consistent op)
    {j j' : Nat} (hle : j ≤ j') {input input' : PassInput} (hj : inputs[j]? = some input)
    (hj' : inputs[j']? = some input') (haok : aok sensor input) (haok' : aok sensor input')
    : splitResult op (responseElements monitor splittok (input.response i)).reduceOption =
        splitResult op (responseElements monitor splittok (input'.response i)).reduceOption := by
  have hstep {k : Nat} {x : PassInput} (hk : inputs[k]? = some x) (hx : aok sensor x)
      : ∃ a, (inputs.take (k + 1)).foldl (remember sensor i monitor splittok) none = some a
        ∧ a.children = responseElements monitor splittok (x.response i) := by
    rw [List.take_add_one, hk, Option.toList_some, List.foldl_append, List.foldl_cons,
      List.foldl_nil, remember, if_pos hx]
    exact ⟨_, rfl, rfl⟩
  rcases hstep hj haok with ⟨a, ha, hchildren⟩
  rcases hstep hj' haok' with ⟨a', ha', hchildren'⟩
  have hsplit : a'.splitOpResult = a.splitOpResult := by
    have htake : inputs.take (j' + 1) =
        inputs.take (j + 1) ++ (inputs.take (j' + 1)).drop (j + 1) := by
      have happend := List.take_append_drop (j + 1) (inputs.take (j' + 1))
      rw [List.take_take, Nat.min_eq_left (by omega)] at happend
      exact happend.symm
    rw [htake, List.foldl_append, ha] at ha'
    rcases splitOpResult_foldl_remember ((inputs.take (j' + 1)).drop (j + 1)) a with ⟨b, hb, hso⟩
    rw [hb, Option.some.injEq] at ha'
    rw [← ha', hso]
  have h := ValueArray.consistent_iff.mp (hcons _ a ha)
  have h' := ValueArray.consistent_iff.mp (hcons _ a' ha')
  rw [hchildren] at h
  rw [hchildren', hsplit] at h'
  exact h.symm.trans h'

theorem consistent_foldl_remember_iff (hop : monitor.splitop = some op) (inputs : List PassInput)
    : (∀ k a, (inputs.take k).foldl (remember sensor i monitor splittok) none = some a →
        a.Consistent op)
        ↔ ResponsesAgree sensor i monitor splittok op inputs := by
  constructor
  . intro hcons input hinput input' hinput' haok haok'
    rcases List.getElem?_of_mem hinput with ⟨j, hj⟩
    rcases List.getElem?_of_mem hinput' with ⟨j', hj'⟩
    rcases Nat.le_total j j' with hle | hle
    . exact splitResult_eq_of_consistent hcons hle hj hj' haok haok'
    . exact (splitResult_eq_of_consistent hcons hle hj' hj haok' haok).symm
  . intro hagree k a ha
    exact (agreesWith_foldl_remember hop hagree (fun _ h => List.mem_of_mem_take h)
      (fun _ h => by cases h) ha).1

theorem consistentValue_yields (hsplit : monitor.splittok = some splittok)
    (hop : monitor.splitop = some op) {response : Response}
    {opVars : Option (List (Option MonitorValue))} {mv : MonitorValue} {calls : List EvalCall}
    (h : processSensorMonitor lib monitor response opVars = .ok (some mv, calls))
    : ConsistentValue op mv := by
  intro harray
  by_cases htype : monitor.type = .op
  . simp only [processSensorMonitor, htype] at h
    rcases rbMonitorGetOpResult_shape lib monitor response.now h with h | ⟨n, h⟩ | ⟨v, _, _, h, _⟩
    . cases h
    . cases h
      refine ⟨⟨List.replicate n none, none⟩, ?_, ?_⟩
      . simp [ValueArray.toMonitorValue]
      . rw [ValueArray.consistent_iff]
        simp [splitResult, List.reduceOption]
    . cases h
      cases harray
  . have htok := splittok_ne_nil_of_processSensorMonitor htype hsplit h
    rw [processSensorMonitor_of_split htype hsplit htok, Except.ok.injEq, Prod.mk.injEq,
      Option.some.injEq] at h
    exact ⟨_, h.1.symm,
      ValueArray.consistent_iff.mpr (value_splitOpResult_responseArray hop response)⟩

theorem consistentValue_of_pass (hm : sensor.monitors[i]? = some monitor)
    (hts : monitor.timestampGiven = false) (hsplit : monitor.splittok = some splittok)
    (hop : monitor.splitop = some op) {input : PassInput}
    {values values' : List (Option MonitorValue)} {logs : List MonitorLog}
    (hlen : values.length = sensor.monitors.length)
    (h : processMonitorsArray rdDne sensor values input = .ok (values', logs))
    (hold : ∀ mv, stored values i = some mv → ConsistentValue op mv)
    : ∀ mv, stored values' i = some mv → ConsistentValue op mv := by
  rcases processMonitorsArray_at hlen h hm with ⟨_, rfl⟩ | ⟨log, opVars, _, hr, hstore⟩
  . exact hold
  . intro mv hmv
    rw [storeMonitorValue_fst hts hstore] at hmv
    cases hy : log.yielded with
    | none =>
      rw [hy, Option.none_or] at hmv
      exact hold mv hmv
    | some mv' =>
      rw [hy, Option.some_or, Option.some.injEq] at hmv
      rw [hy, hmv] at hr
      exact consistentValue_yields hsplit hop hr

theorem consistentValue_of_run (hm : sensor.monitors[i]? = some monitor)
    (hts : monitor.timestampGiven = false) (hsplit : monitor.splittok = some splittok)
    (hop : monitor.splitop = some op) {inputs : List PassInput}
    {values values' : List (Option MonitorValue)} {passes : List (List MonitorLog)}
    (hlen : values.length = sensor.monitors.length)
    (h : runLog (processMonitorsArray rdDne sensor) values inputs = .ok (values', passes))
    (hold : ∀ mv, stored values i = some mv → ConsistentValue op mv)
    : ∀ mv, stored values' i = some mv → ConsistentValue op mv := by
  have hinv := runLog_invariant
    (fun values : List (Option MonitorValue) => values.length = sensor.monitors.length ∧
      ∀ mv, stored values i = some mv → ConsistentValue op mv)
    (fun values input values' logs hinv hstep =>
      ⟨length_processMonitorsArray hinv.1 hstep,
        consistentValue_of_pass hm hts hsplit hop hinv.1 hstep hinv.2⟩)
    h ⟨hlen, hold⟩
  exact hinv.2

theorem staysConsistent_iff_foldl (hm : sensor.monitors[i]? = some monitor)
    (hts : monitor.timestampGiven) (hsplit : monitor.splittok = some splittok)
    {inputs : List PassInput} {values : List (Option MonitorValue)}
    {passes : List (List MonitorLog)}
    (h : processRbSensor rdDne sensor inputs = .ok (values, passes))
    : StaysConsistent rdDne sensor i op inputs
        ↔ ∀ k a, (inputs.take k).foldl (remember sensor i monitor splittok) none = some a →
            a.Consistent op := by
  have hstored {k : Nat} {values : List (Option MonitorValue)} {passes : List (List MonitorLog)}
      (hk : processRbSensor rdDne sensor (inputs.take k) = .ok (values, passes))
      : stored values i =
          ((inputs.take k).foldl (remember sensor i monitor splittok) none).map
            ValueArray.toMonitorValue :=
    stored_of_run_remember hm hts hsplit List.length_replicate hk (stored_replicate _ i)
  constructor
  . intro hcons k a ha
    have hsplit := List.take_append_drop k inputs
    rw [processRbSensor, ← hsplit] at h
    rcases runLog_append_eq_ok.mp h with ⟨values₁, passes₁, _, hk, _, _⟩
    have hst := hstored hk
    rw [ha, Option.map_some] at hst
    rcases hcons k values₁ passes₁ hk _ hst rfl with ⟨b, hb, hbcons⟩
    have heq := congrArg MonitorValue.toValueArray? hb
    simp only [MonitorValue.toValueArray?_toMonitorValue, Option.some.injEq] at heq
    rw [heq]
    exact hbcons
  . intro hcons k values₁ passes₁ hk mv hmv _
    rw [hstored hk] at hmv
    rcases Option.map_eq_some_iff.mp hmv with ⟨a, ha, rfl⟩
    exact ⟨a, rfl, hcons k a ha⟩

/-- The array stored for a monitor that splits has the result of its own children in every state of
a run exactly when no timestamps are given, or all responses of the run have the same result. -/
theorem staysConsistent_iff (hm : sensor.monitors[i]? = some monitor)
    (hsplit : monitor.splittok = some splittok) (hop : monitor.splitop = some op)
    {inputs : List PassInput} {values : List (Option MonitorValue)}
    {passes : List (List MonitorLog)}
    (h : processRbSensor rdDne sensor inputs = .ok (values, passes))
    : StaysConsistent rdDne sensor i op inputs
        ↔ monitor.timestampGiven = false ∨ ResponsesAgree sensor i monitor splittok op inputs := by
  cases hts : monitor.timestampGiven with
  | false =>
    simp only [true_or, iff_true]
    intro k values₁ passes₁ hk
    apply consistentValue_of_run hm hts hsplit hop List.length_replicate hk
    intro mv hmv
    rw [stored_replicate] at hmv
    cases hmv
  | true =>
    rw [staysConsistent_iff_foldl hm hts hsplit h, consistent_foldl_remember_iff hop]
    simp

end

theorem exists_run_packetsSensor (inputs : List PassInput)
    : ∃ values passes, processRbSensor differsBy packetsSensor inputs = .ok (values, passes) := by
  have hsplits : SplitsEnd packetsSensor inputs := by
    intro input _ _ monitor hmonitor _
    rw [List.mem_singleton.mp hmonitor]
    decide
  have hfits : RunFits differsBy packetsSensor inputs := by
    intro before input after values passes _ _ _ i st logs _ monitor hm opVars hopVars
    rcases Option.map_eq_some_iff.mp hopVars with ⟨js, hjs, _⟩
    have hop := type_of_operandPositions hjs
    rw [List.mem_singleton.mp (List.mem_of_getElem? hm)] at hop
    cases hop
  rcases exists_processRbSensor_iff.mpr ⟨hsplits, hfits⟩ with ⟨⟨values, passes⟩, hrun⟩
  exact ⟨values, passes, hrun⟩

/-- Only the timestamps change. -/
def sameSumInputs : List PassInput :=
  [packetsInput "10:20;30:40".toList, packetsInput "10:20;60:40".toList]

/-- The second interface goes from 40 packets to 100. -/
def otherSumInputs : List PassInput :=
  [packetsInput "10:20;30:40".toList, packetsInput "10:20;60:100".toList]

theorem staysConsistent_iff_sameSum
    : StaysConsistent differsBy packetsSensor 0 "sum".toList sameSumInputs
        ↔ packetsMonitor.timestampGiven = false
          ∨ ResponsesAgree packetsSensor 0 packetsMonitor [';'] "sum".toList sameSumInputs := by
  rcases exists_run_packetsSensor sameSumInputs with ⟨values, passes, hrun⟩
  exact staysConsistent_iff rfl rfl rfl hrun

/-- The sum of the first response, 60, stays with the children 20 and 100. -/
theorem not_staysConsistent_otherSum
    : ¬ StaysConsistent differsBy packetsSensor 0 "sum".toList otherSumInputs := by
  intro h
  rcases exists_run_packetsSensor otherSumInputs with ⟨values, passes, hrun⟩
  have hm : packetsSensor.monitors[0]? = some packetsMonitor := rfl
  rw [staysConsistent_iff_foldl hm rfl rfl hrun, consistent_foldl_remember_iff rfl] at h
  have hsum := h (packetsInput "10:20;30:40".toList) (by simp [otherSumInputs])
    (packetsInput "10:20;60:100".toList) (by simp [otherSumInputs]) rfl rfl
  revert hsum
  decide +kernel

end RbMonitor
