import Mathlib.Data.List.ReduceOption
import RbMonitor.Sensor.Response

/-!
This module contains which instances of a vector with given timestamps are sent, over the runs of a
sensor.
-/

namespace RbMonitor

/-- The logs of a monitor in the passes that come to it. -/
def logsOf (i : Nat) (passes : List (List MonitorLog)) : List MonitorLog :=
  passes.filterMap (·[i]?)

/-- The arrays that a monitor yields. -/
def arraysOf (i : Nat) (passes : List (List MonitorLog)) : List ValueArray :=
  (logsOf i passes).filterMap fun log => log.yielded.bind (·.toValueArray?)

section

variable {lib : Matheval} {rdDne : Binary64 → Binary64 → Bool} {sensor : Sensor lib}

theorem processMonitorsArray_at_of_aok {input : PassInput}
    {values values' : List (Option MonitorValue)} {logs : List MonitorLog} (haok : aok sensor input)
    (hlen : values.length = sensor.monitors.length)
    (h : processMonitorsArray rdDne sensor values input = .ok (values', logs)) {i : Nat}
    {monitor : Monitor} (hm : sensor.monitors[i]? = some monitor)
    : ∃ log opVars, logs[i]? = some log
        ∧ processSensorMonitor lib monitor (input.response i) opVars = .ok (log.yielded, log.calls)
        ∧ storeMonitorValue rdDne monitor log.yielded (stored values i)
          = .ok (stored values' i, log.messages) := by
  rw [processMonitorsArray_of_aok haok hlen] at h
  rcases List.getElem?_eq_some_iff.mp hm with ⟨hi, _⟩
  rcases exists_updateMonitor_of_pass h hi with
    ⟨before, after, log, hlog, hstep, hblen, _, hle, hafter⟩
  rcases updateMonitor_eq_ok.mp hstep with ⟨monitor', mv, hm', hr, hstore, rfl⟩
  rw [hm, Option.some.injEq] at hm'
  subst hm'
  rw [stored_set_self (by omega)] at hafter
  rw [hle i le_rfl, hafter] at hstore
  exact ⟨log, _, hlog, hr, hstore⟩

theorem processMonitorsArray_at {input : PassInput} {values values' : List (Option MonitorValue)}
    {logs : List MonitorLog} (hlen : values.length = sensor.monitors.length)
    (h : processMonitorsArray rdDne sensor values input = .ok (values', logs)) {i : Nat}
    {monitor : Monitor} (hm : sensor.monitors[i]? = some monitor)
    : (logs[i]? = none ∧ values' = values)
        ∨ ∃ log opVars, logs[i]? = some log
          ∧ processSensorMonitor lib monitor (input.response i) opVars
            = .ok (log.yielded, log.calls)
          ∧ storeMonitorValue rdDne monitor log.yielded (stored values i)
            = .ok (stored values' i, log.messages) := by
  cases haok : aok sensor input with
  | false =>
    rw [processMonitorsArray_of_not_aok haok, Except.ok.injEq, Prod.mk.injEq] at h
    left
    exact ⟨by simp [← h.2], h.1.symm⟩
  | true =>
    right
    exact processMonitorsArray_at_of_aok haok hlen h hm

variable (sensor) in
/-- The arrays of the responses of a run, one for each pass that comes to the monitors. -/
def responseArrays (i : Nat) (monitor : Monitor) (splittok : CStr) (inputs : List PassInput)
    : List ValueArray :=
  (inputs.filter (aok sensor)).map fun input => responseArray monitor splittok (input.response i)

/-- The children that are stored for a monitor; none before its first value. -/
def Remembers (values : List (Option MonitorValue)) (i : Nat) (children : List (Option Value))
    : Prop :=
  ∃ old : Option ValueArray, stored values i = old.map ValueArray.toMonitorValue
    ∧ children = (old.map ValueArray.children).getD []

theorem remembers_replicate (n i : Nat) : Remembers (List.replicate n none) i [] := by
  exact ⟨none, stored_replicate n i, rfl⟩

theorem runLog_arrays {i : Nat} {monitor : Monitor} (hm : sensor.monitors[i]? = some monitor)
    (hts : monitor.timestampGiven) {splittok : CStr} (hsplit : monitor.splittok = some splittok)
    {inputs : List PassInput} {values values' : List (Option MonitorValue)}
    {passes : List (List MonitorLog)} {children : List (Option Value)}
    (hlen : values.length = sensor.monitors.length) (hrem : Remembers values i children)
    (h : runLog (processMonitorsArray rdDne sensor) values inputs = .ok (values', passes))
    : arraysOf i passes = responseArrays sensor i monitor splittok inputs
        ∧ (logsOf i passes).map (·.yielded) = (arraysOf i passes).map (some ·.toMonitorValue)
        ∧ (logsOf i passes).map (·.messages)
          = List.zipWith (sentMessages monitor rdDne)
            (children :: (arraysOf i passes).map (·.children)) (arraysOf i passes) := by
  have hop : monitor.type ≠ .op := by
    intro hop
    simp [monitor.op_timestampGiven hop] at hts
  induction inputs generalizing values passes children with
  | nil =>
    simp only [runLog_nil, Except.ok.injEq, Prod.mk.injEq] at h
    rcases h with ⟨_, rfl⟩
    exact ⟨rfl, rfl, rfl⟩
  | cons input inputs ih =>
    rcases runLog_cons_eq_ok.mp h with ⟨values₁, logs, passes', hpass, hrest, rfl⟩
    have hlen₁ := length_processMonitorsArray hlen hpass
    cases haok : aok sensor input with
    | false =>
      rw [processMonitorsArray_of_not_aok haok, Except.ok.injEq, Prod.mk.injEq] at hpass
      rcases hpass with ⟨rfl, rfl⟩
      have hlogs : logsOf i ([] :: passes') = logsOf i passes' := rfl
      have hresponses : responseArrays sensor i monitor splittok (input :: inputs)
          = responseArrays sensor i monitor splittok inputs := by
        simp [responseArrays, haok]
      rw [arraysOf, hlogs, hresponses]
      exact ih hlen hrem hrest
    | true =>
      rcases processMonitorsArray_at_of_aok haok hlen hpass hm with ⟨log, opVars, hlog, hr, hstore⟩
      have ha := yields_responseArray hop hsplit hr
      rcases hrem with ⟨old, hold, rfl⟩
      rw [ha, hold, storeMonitorValue_array monitor hts, Except.ok.injEq, Prod.mk.injEq] at hstore
      have hrem₁ : Remembers values₁ i (responseArray monitor splittok (input.response i)).children :=
        ⟨some (keepSplit old _), hstore.1.symm, rfl⟩
      rcases ih hlen₁ hrem₁ hrest with ⟨harrays', hyields, hmsgs⟩
      have hlogs : logsOf i (logs :: passes') = log :: logsOf i passes' := by
        simp [logsOf, hlog]
      have harrays : arraysOf i (logs :: passes')
          = responseArray monitor splittok (input.response i) :: arraysOf i passes' := by
        simp [arraysOf, hlogs, ha]
      rw [hlogs, harrays]
      refine ⟨?_, ?_, ?_⟩
      . simp [responseArrays, haok, harrays']
      . simp [ha, hyields]
      . simp [← hstore.2, hmsgs]

end

/-! ### The instances that are sent -/

section

variable (rdDne : Binary64 → Binary64 → Bool) (monitor : Monitor)

/-- Whether instance `i` with value `v` is sent after the array `prev`: that array has no such child,
or one with a smaller timestamp, or with another value. -/
def isSent (prev : Option ValueArray) (i : Nat) (v : Value) : Bool :=
  (prev.bind fun p => p.children[i]?.join).all fun old =>
    old.timestamp < v.timestamp || rdDne old.value v.value

/-- The messages of the instances of `array` that are sent, in order, and of its split operation. -/
def changeMessages (prev : Option ValueArray) (array : ValueArray) : List RbMessage :=
  ((List.range array.children.length).filterMap fun i =>
    (array.children[i]?.join.filter (isSent rdDne prev i)).map fun v =>
      printMonitorValue0 v monitor i)
    ++ (array.splitOpResult.map fun v => printMonitorValue0 v monitor NO_INSTANCE).toList

/-- The differences of the timestamps fit `time_t`. -/
def TimestampsFit (arrays : List ValueArray) : Prop :=
  ∀ a ∈ arrays, ∀ b ∈ arrays, ∀ v ∈ a.children.reduceOption, ∀ w ∈ b.children.reduceOption,
    -2 ^ 63 ≤ v.timestamp - w.timestamp ∧ v.timestamp - w.timestamp < 2 ^ 63

instance (arrays : List ValueArray) : Decidable (TimestampsFit arrays) :=
  inferInstanceAs (Decidable (∀ a ∈ arrays, ∀ b ∈ arrays, ∀ v ∈ a.children.reduceOption,
    ∀ w ∈ b.children.reduceOption,
      -2 ^ 63 ≤ v.timestamp - w.timestamp ∧ v.timestamp - w.timestamp < 2 ^ 63))

variable {rdDne monitor}

theorem TimestampsFit.mono {arrays arrays' : List ValueArray} (h : TimestampsFit arrays)
    (hsub : arrays' ⊆ arrays)
    : TimestampsFit arrays' :=
  fun a ha b hb => h a (hsub ha) b (hsub hb)

theorem rbMonitorValueCmpTimestamp_lt {old new : Value}
    (hlo : -2 ^ 63 ≤ old.timestamp - new.timestamp) (hhi : old.timestamp - new.timestamp < 2 ^ 63)
    : rbMonitorValueCmpTimestamp old new < 0 ↔ old.timestamp < new.timestamp := by
  unfold rbMonitorValueCmpTimestamp
  rw [Int.bmod_eq_of_le (by omega) (by omega)]
  omega

theorem childMessages_eq (children : List (Option Value)) (k : Nat)
    : childMessages monitor children k
        =
      (List.range children.length).filterMap fun i =>
        children[i]?.join.map fun v => printMonitorValue0 v monitor (k + i : Nat) := by
  induction children generalizing k with
  | nil => rfl
  | cons child children ih =>
    rw [childMessages, ih, List.length_cons, List.range_succ_eq_map, List.filterMap_cons,
      List.filterMap_map]
    cases child with
    | none => simp [Nat.add_assoc, Nat.add_comm 1]
    | some v => simp [Nat.add_assoc, Nat.add_comm 1]

theorem changed_eq_isSent {prev : Option ValueArray} {array : ValueArray}
    (hfit : TimestampsFit (prev.toList ++ [array])) {i : Nat} {v : Value}
    (hv : some v ∈ array.children)
    : changed rdDne ((prev.map ValueArray.children).getD [])[i]?.join v = isSent rdDne prev i v := by
  cases prev with
  | none => simp [changed, isSent]
  | some p =>
    simp only [Option.map_some, Option.getD_some, isSent, Option.bind_some]
    cases hold : p.children[i]?.join with
    | none => rfl
    | some old =>
      have hmem : some old ∈ p.children := by
        rw [Option.join_eq_some_iff] at hold
        exact List.mem_of_getElem? hold
      rcases hfit p (by simp) array (by simp) old
        (List.reduceOption_mem_iff.mpr hmem) v (List.reduceOption_mem_iff.mpr hv) with
        ⟨hlo, hhi⟩
      simp [changed, rbMonitorValueCmpTimestamp_lt hlo hhi]

theorem sentMessages_eq (hsend : monitor.send) {prev : Option ValueArray} {array : ValueArray}
    (hfit : TimestampsFit (prev.toList ++ [array]))
    : sentMessages monitor rdDne ((prev.map ValueArray.children).getD []) array
        =
      changeMessages rdDne monitor prev array := by
  simp only [sentMessages, hsend, ↓reduceIte, changeMessages, splitMessages]
  congr 1
  rw [childMessages_eq, length_changedChildren]
  apply List.filterMap_congr
  intro i hi
  have hi : i < array.children.length := List.mem_range.mp hi
  have hchild : (changedChildren rdDne ((prev.map ValueArray.children).getD []) array.children)[i]?.join
      = array.children[i]?.join.filter
        (changed rdDne ((prev.map ValueArray.children).getD [])[i]?.join) := by
    simp [changedChildren, hi]
  rw [hchild, Nat.zero_add]
  congr 1
  cases hv : array.children[i]?.join with
  | none => rfl
  | some v =>
    rw [Option.join_eq_some_iff] at hv
    simp [Option.filter, changed_eq_isSent hfit (List.mem_of_getElem? hv)]

theorem zipWith_sentMessages (hsend : monitor.send) (prev : Option ValueArray) (arrays : List ValueArray)
    (hfit : TimestampsFit (prev.toList ++ arrays))
    : List.zipWith (sentMessages monitor rdDne)
        ((prev.map ValueArray.children).getD [] :: arrays.map (·.children)) arrays
        =
      List.zipWith (changeMessages rdDne monitor) (prev :: arrays.map some) arrays := by
  induction arrays generalizing prev with
  | nil => rfl
  | cons array arrays ih =>
    simp only [List.map_cons, List.zipWith_cons_cons]
    rw [sentMessages_eq hsend (hfit.mono (by simp)), ← ih (some array) (hfit.mono (by simp))]
    rfl

/-- In every run a vector with given timestamps yields the arrays of its responses, one for each pass
that comes to the monitors, and sends for each of them the instances that changed since the array
before and the result of the split operation. -/
theorem messages_eq_changeMessages {lib : Matheval} {sensor : Sensor lib} {i : Nat}
    (hm : sensor.monitors[i]? = some monitor) (hts : monitor.timestampGiven) {splittok : CStr}
    (hsplit : monitor.splittok = some splittok) (hsend : monitor.send) {inputs : List PassInput}
    {values : List (Option MonitorValue)} {passes : List (List MonitorLog)}
    (h : processRbSensor rdDne sensor inputs = .ok (values, passes))
    (hfit : TimestampsFit (responseArrays sensor i monitor splittok inputs))
    : arraysOf i passes = responseArrays sensor i monitor splittok inputs
        ∧ (logsOf i passes).map (·.yielded) = (arraysOf i passes).map (some ·.toMonitorValue)
        ∧ (logsOf i passes).map (·.messages)
          = List.zipWith (changeMessages rdDne monitor) (none :: (arraysOf i passes).map some)
            (arraysOf i passes) := by
  rcases runLog_arrays hm hts hsplit (by simp)
    (remembers_replicate sensor.monitors.length i) h with
    ⟨harrays, hyields, hmsgs⟩
  refine ⟨harrays, hyields, ?_⟩
  rw [hmsgs]
  exact zipWith_sentMessages hsend none (arraysOf i passes) (harrays ▸ hfit)

end

/-- Packets of two interfaces, with the times at which they were counted. -/
def packetsMonitor : Monitor :=
  { type := .system, name := "packets_received".toList, cmdArg := "get_pkts.sh".toList,
    nameSplitSuffix := some "_per_interface".toList, instancePrefix := some "instance-".toList,
    splittok := some [';'], splitop := some "sum".toList, timestampGiven := true }

def packetsSensor : Sensor .sums where
  peername := some "10.0.0.1".toList
  community := some "public".toList
  monitors := [packetsMonitor]

def packetsInput (out : List Char) : PassInput where
  session := true
  response _ := { popen := some out, snmp := .error, now := 70 }

/-- In the second response the first interface is as it was. -/
def packetsInputs : List PassInput :=
  [packetsInput "10:20;30:40".toList, packetsInput "10:20;60:100".toList]

theorem messages_eq_changeMessages_packets
    : ∃ (values : List (Option MonitorValue)) (passes : List (List MonitorLog)),
        processRbSensor (fun a b => a ≠ b) packetsSensor packetsInputs = .ok (values, passes)
          ∧ (arraysOf 0 passes = responseArrays packetsSensor 0 packetsMonitor [';'] packetsInputs
            ∧ (logsOf 0 passes).map (·.yielded) = (arraysOf 0 passes).map (some ·.toMonitorValue)
            ∧ (logsOf 0 passes).map (·.messages)
              = List.zipWith (changeMessages (fun a b => a ≠ b) packetsMonitor)
                (none :: (arraysOf 0 passes).map some) (arraysOf 0 passes))
          ∧ (logsOf 0 passes).map (·.messages) =
            [[printMonitorValue0 ⟨10, 20⟩ packetsMonitor 0,
              printMonitorValue0 ⟨30, 40⟩ packetsMonitor 1,
              printMonitorValue0 ⟨70, 60⟩ packetsMonitor NO_INSTANCE],
            [printMonitorValue0 ⟨60, 100⟩ packetsMonitor 1,
              printMonitorValue0 ⟨70, 120⟩ packetsMonitor NO_INSTANCE]] := by
  have hends : endsWith (fun _ passes => (logsOf 0 passes).map (·.messages) =
        [[printMonitorValue0 ⟨10, 20⟩ packetsMonitor 0,
          printMonitorValue0 ⟨30, 40⟩ packetsMonitor 1,
          printMonitorValue0 ⟨70, 60⟩ packetsMonitor NO_INSTANCE],
        [printMonitorValue0 ⟨60, 100⟩ packetsMonitor 1,
          printMonitorValue0 ⟨70, 120⟩ packetsMonitor NO_INSTANCE]])
      (processRbSensor (fun a b => a ≠ b) packetsSensor packetsInputs) := by
    decide +kernel
  have hfit : TimestampsFit (responseArrays packetsSensor 0 packetsMonitor [';'] packetsInputs) := by
    decide +kernel
  rcases exists_of_endsWith hends with ⟨values, passes, hrun, hmsgs⟩
  have hm : packetsSensor.monitors[0]? = some packetsMonitor := rfl
  exact ⟨values, passes, hrun, messages_eq_changeMessages hm rfl rfl rfl hrun hfit,
    of_decide_eq_true hmsgs⟩

end RbMonitor
