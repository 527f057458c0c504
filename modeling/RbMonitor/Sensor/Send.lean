import RbMonitor.Sensor.Tags

/-!
This module contains that `send` of a monitor only silences it: what a run stores and what it sends
for the other monitors does not depend on it.
-/

namespace RbMonitor

open CString

def Monitor.withSend (monitor : Monitor) (send : Bool) : Monitor :=
  { monitor with send := send }

/-! ### What does not read the flag -/

section

variable (monitor : Monitor) (send : Bool)

theorem processVectorMonitor.loop_withSend (splittok : CStr) (now : Int) (fuel : Nat)
    (tok : Option CStr) (count : Nat) (acc : Acc)
    : loop (monitor.withSend send) splittok now fuel tok count acc =
        loop monitor splittok now fuel tok count acc := by
  induction fuel generalizing tok count acc with
  | zero => cases tok <;> rfl
  | succ fuel ih =>
    cases tok with
    | none => rfl
    | some tok =>
      unfold loop
      simp only [ih]
      rfl

theorem rbMonitorGetExternalValue_withSend (valueBuf : CStr) (number : Binary64) (now : Int)
    : rbMonitorGetExternalValue (monitor.withSend send) valueBuf number now =
        rbMonitorGetExternalValue monitor valueBuf number now := by
  unfold rbMonitorGetExternalValue processVectorMonitor
  simp only [processVectorMonitor.loop_withSend]
  rfl

theorem rbMonitorGetOpResult_withSend (lib : Matheval) {opVars : List (Option MonitorValue)}
    (hlen : (lib.getVariables monitor.cmdArg).length = opVars.length) (now : Int)
    : rbMonitorGetOpResult lib (monitor.withSend send) (some opVars) now =
        rbMonitorGetOpResult lib monitor (some opVars) now := by
  cases hc : lib.create monitor.cmdArg with
  | false =>
    have hc' : lib.create (monitor.withSend send).cmdArg = false := hc
    rw [rbMonitorGetOpResult_of_not_create lib monitor now _ hc,
      rbMonitorGetOpResult_of_not_create lib _ now _ hc']
  | true =>
    match opVars with
    | [] => rfl
    | none :: rest =>
      rw [rbMonitorGetOpResult_of_null lib monitor now hlen,
        rbMonitorGetOpResult_of_null lib (monitor.withSend send) now hlen]
    | some (.array children so) :: rest =>
      rw [rbMonitorGetOpResult_of_array lib monitor now children so hc hlen,
        rbMonitorGetOpResult_of_array lib (monitor.withSend send) now children so hc hlen]
    | some (.value x) :: rest =>
      rw [rbMonitorGetOpResult_of_value lib monitor now x hc hlen,
        rbMonitorGetOpResult_of_value lib (monitor.withSend send) now x hc hlen]
      rfl

theorem printMonitorValue.printChildren_withSend (children : List (Option MonitorValue)) (i : Nat)
    : printChildren (monitor.withSend send) children i = printChildren monitor children i := by
  induction children generalizing i with
  | nil => rfl
  | cons child children ih =>
    cases child with
    | none => exact ih (i + 1)
    | some child =>
      unfold printChildren
      rw [ih]
      rfl

theorem printMonitorValue_withSend (mv : MonitorValue)
    : printMonitorValue mv (monitor.withSend send) = printMonitorValue mv monitor := by
  cases mv with
  | value v => rfl
  | array children so =>
    unfold printMonitorValue
    simp only [printMonitorValue.printChildren_withSend]
    rfl

end

/-! ### What reads it -/

section

variable (rdDne : Binary64 → Binary64 → Bool)

theorem storeMonitorValue_withSend {monitor : Monitor} {value old : Option MonitorValue}
    (hvalue : ∀ mv, value = some mv → Tagged monitor mv)
    (hold : ∀ mv, old = some mv → Tagged monitor mv)
    : storeMonitorValue rdDne (monitor.withSend false) value old =
        (storeMonitorValue rdDne (monitor.withSend true) value old).map fun r => (r.1, []) := by
  cases value with
  | none => rfl
  | some mv =>
    rcases hvalue mv rfl with ⟨hflat, htag⟩
    cases hts : monitor.timestampGiven with
    | false =>
      rcases printMonitorValue_ok hflat monitor with ⟨msgs, hmsgs⟩
      rw [storeMonitorValue_of_not_given (monitor.withSend false) hts,
        storeMonitorValue_of_not_given (monitor.withSend true) hts,
        printMonitorValue_withSend, printMonitorValue_withSend, hmsgs, ifSend_ok, ifSend_ok]
      rfl
    | true =>
      have hop : monitor.type ≠ .op := by
        intro hop
        simp [monitor.op_timestampGiven hop] at hts
      cases hsplit : monitor.splittok.isNone with
      | true =>
        rcases MonitorValue.exists_of_isValue ((htag hop).trans hsplit) with ⟨v, hv⟩
        rcases exists_value_of_tagged hop hsplit hold with ⟨o, ho⟩
        rw [hv, ho, storeMonitorValue_value (monitor.withSend false) hts,
          storeMonitorValue_value (monitor.withSend true) hts]
        split
        . rfl
        . rfl
      | false =>
        rcases exists_array_of_tagged hop hsplit hvalue with ⟨a, ha⟩
        rcases exists_array_of_tagged hop hsplit hold with ⟨o, ho⟩
        cases a with
        | none => cases ha
        | some a =>
          rw [ha, ho, Option.map_some, storeMonitorValue_array (monitor.withSend false) hts,
            storeMonitorValue_array (monitor.withSend true) hts]
          rfl

end

/-! ### A sensor with the flag of one monitor set -/

section

variable {lib : Matheval}

theorem bound_congr {monitors monitors' : List Monitor}
    (h : monitors'.map (fun m => (m.name, m.groupId)) = monitors.map fun m => (m.name, m.groupId))
    (groupId : Option CStr) (name : CStr)
    : bound monitors' groupId name = bound monitors groupId name := by
  have hbinds : binds name groupId =
      (fun p : CStr × Option CStr => name = p.1 && p.2 = groupId) ∘ fun m => (m.name, m.groupId) :=
    rfl
  unfold bound
  rw [hbinds, ← List.findIdx?_map, ← List.findIdx?_map, h]

theorem map_modify_of_eq {α β : Type} {f : α → α} {g : α → β} (h : ∀ a, g (f a) = g a)
    (l : List α) (i : Nat)
    : (l.modify i f).map g = l.map g := by
  apply List.ext_getElem?
  intro j
  rw [List.getElem?_map, List.getElem?_map, List.getElem?_modify]
  cases l[j]? with
  | none => rfl
  | some a =>
    by_cases hij : i = j
    . simp [hij, h]
    . simp [hij]

theorem bound_modify (monitors : List Monitor) (m : Nat) (send : Bool) (groupId : Option CStr)
    (name : CStr)
    : bound (monitors.modify m (·.withSend send)) groupId name = bound monitors groupId name := by
  apply bound_congr
  apply map_modify_of_eq
  intro monitor
  rfl

theorem getMonitorsDependencies_modify (monitors : List Monitor) (m : Nat) (send : Bool)
    : getMonitorsDependencies lib (monitors.modify m (·.withSend send)) =
        getMonitorsDependencies lib monitors := by
  have hdeps (monitor : Monitor)
      : getMonitorDependencies lib (monitors.modify m (·.withSend send)) monitor =
        getMonitorDependencies lib monitors monitor := by
    rw [getMonitorDependencies_eq, getMonitorDependencies_eq]
    unfold operandPositions
    simp only [funext (bound_modify monitors m send monitor.groupId)]
  unfold getMonitorsDependencies
  rw [funext hdeps]
  apply map_modify_of_eq
  intro monitor
  rw [getMonitorDependencies_eq, getMonitorDependencies_eq]
  rfl

/-- The sensor with `send` of monitor `m` switched. -/
def Sensor.withSend (sensor : Sensor lib) (m : Nat) (send : Bool) : Sensor lib where
  peername := sensor.peername
  community := sensor.community
  monitors := sensor.monitors.modify m (·.withSend send)
  opVars := sensor.opVars
  opVars_eq := by rw [getMonitorsDependencies_modify, ← sensor.opVars_eq]

def MonitorLog.silent (log : MonitorLog) : MonitorLog :=
  { log with messages := [] }

/-- The logs of a pass without the messages of monitor `m`. -/
def silence (m : Nat) (logs : List MonitorLog) : List MonitorLog :=
  logs.modify m MonitorLog.silent

variable {rdDne : Binary64 → Binary64 → Bool} {sensor : Sensor lib}

theorem getElem?_monitors_withSend (sensor : Sensor lib) (m : Nat) (send : Bool) (i : Nat)
    : (sensor.withSend m send).monitors[i]? =
        if m = i then sensor.monitors[i]?.map (·.withSend send) else sensor.monitors[i]? := by
  have hmonitors : (sensor.withSend m send).monitors = sensor.monitors.modify m (·.withSend send) :=
    rfl
  rw [hmonitors, List.getElem?_modify]
  split
  . rfl
  . simp

theorem operandsOf_withSend (m : Nat) (send : Bool) (values : List (Option MonitorValue))
    (monitor : Monitor)
    : operandsOf (sensor.withSend m send) values monitor = operandsOf sensor values monitor := by
  have hbound (groupId : Option CStr) (name : CStr)
      : bound (sensor.withSend m send).monitors groupId name = bound sensor.monitors groupId name :=
    bound_modify sensor.monitors m send groupId name
  unfold operandsOf operandPositions
  simp only [funext (hbound monitor.groupId)]

theorem processSensorMonitor_withSend (monitor : Monitor) (send : Bool) (response : Response)
    (values : List (Option MonitorValue))
    : processSensorMonitor lib (monitor.withSend send) response (operandsOf sensor values monitor) =
        processSensorMonitor lib monitor response (operandsOf sensor values monitor) := by
  unfold processSensorMonitor
  have htype : (monitor.withSend send).type = monitor.type := rfl
  rw [htype]
  cases monitor.type with
  | system =>
    simp only [rbMonitorGetSystemExternalValue, rbMonitorGetExternalValue_withSend]
  | oid =>
    simp only [rbMonitorGetSnmpExternalValue, rbMonitorGetExternalValue_withSend]
  | op =>
    cases hpos : operandPositions lib sensor.monitors monitor with
    | none => simp [operandsOf, hpos]
    | some js =>
      have hjs := forall₂_of_operandPositions hpos
      simp only [operandsOf, hpos, Option.map_some]
      apply rbMonitorGetOpResult_withSend
      simpa using hjs.length_eq

theorem tagged_of_processSensorMonitor {monitor : Monitor} {response : Response}
    {values : List (Option MonitorValue)} {r : Option MonitorValue} {calls : List EvalCall}
    (h : processSensorMonitor lib monitor response (operandsOf sensor values monitor) = .ok (r, calls))
    : ∀ mv, r = some mv → Tagged monitor mv := by
  have hsplit : monitor.type ≠ .op → monitor.splittok ≠ some [] := by
    intro hop hsplit
    rw [processSensorMonitor_of_splittok_nil hop hsplit] at h
    cases h
  have hfits : OpFits sensor values monitor := by
    by_contra hfits
    rcases processSensorMonitor_of_not_fits hfits response with ⟨call, hcall⟩
    rw [hcall] at h
    cases h
  rcases processSensorMonitor_ok hsplit hfits response with ⟨r', calls', hok, htag⟩
  rw [h] at hok
  cases hok
  exact htag

theorem updateMonitor_withSend (m : Nat) (input : PassInput) {values : List (Option MonitorValue)}
    (htags : WellTagged sensor.monitors values) (i : Nat)
    : updateMonitor rdDne (sensor.withSend m false) input values i =
        (updateMonitor rdDne (sensor.withSend m true) input values i).map fun r =>
          (r.1, if i = m then r.2.silent else r.2) := by
  unfold updateMonitor
  simp only [operandsOf_withSend, elmAt, getElem?_monitors_withSend]
  cases hm : sensor.monitors[i]? with
  | none =>
    simp only [Option.map_none, ite_self]
    rfl
  | some monitor =>
    by_cases heq : m = i
    . have hoperands (send : Bool)
          : operandsOf sensor values (monitor.withSend send) = operandsOf sensor values monitor := rfl
      simp only [heq, ↓reduceIte, Option.map_some, hoperands, processSensorMonitor_withSend,
        Bind.bind, Except.bind]
      cases hr : processSensorMonitor lib monitor (input.response i)
        (operandsOf sensor values monitor) with
      | error e => rfl
      | ok r =>
        simp only
        rw [storeMonitorValue_withSend rdDne (tagged_of_processSensorMonitor hr)
          (htags i monitor · hm)]
        cases storeMonitorValue rdDne (monitor.withSend true) r.1 (stored values i) <;> rfl
    . simp only [heq, ↓reduceIte, Ne.symm heq, Bind.bind, Except.bind]
      cases processSensorMonitor lib monitor (input.response i)
        (operandsOf sensor values monitor) with
      | error e => rfl
      | ok r =>
        simp only
        cases storeMonitorValue rdDne monitor r.1 (stored values i) <;> rfl

theorem length_monitors_withSend (sensor : Sensor lib) (m : Nat) (send : Bool)
    : (sensor.withSend m send).monitors.length = sensor.monitors.length :=
  List.length_modify _ _ _

theorem tagsKept_withSend {m : Nat} {send : Bool} {values : List (Option MonitorValue)}
    : TagsKept (sensor.withSend m send) values ↔ TagsKept sensor values := by
  constructor
  . intro h
    refine ⟨h.length.trans (length_monitors_withSend sensor m send), ?_⟩
    intro i monitor mv hm hmv
    have htag := h.tags i
    rw [getElem?_monitors_withSend, hm] at htag
    by_cases heq : m = i
    . exact htag (monitor.withSend send) mv (by simp [heq]) hmv
    . exact htag monitor mv (by simp [heq]) hmv
  . intro h
    refine ⟨h.length.trans (length_monitors_withSend sensor m send).symm, ?_⟩
    intro i monitor mv hm hmv
    rw [getElem?_monitors_withSend] at hm
    by_cases heq : m = i
    . rw [if_pos heq, Option.map_eq_some_iff] at hm
      rcases hm with ⟨monitor', hm', hmonitor⟩
      subst hmonitor
      exact h.tags i monitor' mv hm' hmv
    . rw [if_neg heq] at hm
      exact h.tags i monitor mv hm hmv

theorem silence_eq_zipWith {m n : Nat} {logs : List MonitorLog} (hlen : logs.length = n)
    : List.zipWith (fun i log => if i = m then MonitorLog.silent log else log) (List.range n) logs =
        silence m logs := by
  apply List.ext_getElem
  . simp [silence, hlen]
  . intro i _ _
    simp [silence, List.getElem_modify, eq_comm]

variable (rdDne) in
theorem processMonitorsArray_withSend (m : Nat) (input : PassInput)
    {values : List (Option MonitorValue)} (h : TagsKept sensor values)
    : processMonitorsArray rdDne (sensor.withSend m false) values input =
        (processMonitorsArray rdDne (sensor.withSend m true) values input).map fun r =>
          (r.1, silence m r.2) := by
  have hlen (send : Bool) := length_monitors_withSend sensor m send
  cases haok : aok (sensor.withSend m false) input with
  | false =>
    have haok' : aok (sensor.withSend m true) input = false := haok
    rw [processMonitorsArray_of_not_aok haok, processMonitorsArray_of_not_aok haok']
    simp [Except.map, silence]
  | true =>
    have haok' : aok (sensor.withSend m true) input = true := haok
    have hnew (send : Bool) : newIteration (sensor.withSend m send) values = ⟨values, values⟩ :=
      newIteration_eq (h.length.trans (hlen send).symm)
    have hmap (st : PassState) (i : Nat) (hi : i ∈ List.range sensor.monitors.length)
        (hst : PassTags (sensor.withSend m true) st)
        : processMonitor rdDne (sensor.withSend m false) input st i =
          (processMonitor rdDne (sensor.withSend m true) input st i).map fun r =>
            (r.1, if i = m then MonitorLog.silent r.2 else r.2) := by
      rcases hst with ⟨values', hst, hkept⟩
      have hkept := tagsKept_withSend.mp hkept
      rw [List.mem_range] at hi
      rw [hst, processMonitor_eq (hkept.length.trans (hlen false).symm) ((hlen false).symm ▸ hi),
        processMonitor_eq (hkept.length.trans (hlen true).symm) ((hlen true).symm ▸ hi),
        updateMonitor_withSend m input hkept.tags i]
      cases updateMonitor rdDne (sensor.withSend m true) input values' i <;> rfl
    have hrun := runLog_map (PassTags (sensor.withSend m true))
      (fun i log => if i = m then MonitorLog.silent log else log) hmap
      (fun _ _ _ _ hst hstep => passTags_of_processMonitor hst hstep) ⟨values, rfl, tagsKept_withSend.mpr h⟩
    unfold aok at haok haok'
    simp only [processMonitorsArray, haok, haok', Bool.not_true, Bool.false_eq_true, ↓reduceIte,
      hnew, hlen, hrun]
    cases hok : runLog (processMonitor rdDne (sensor.withSend m true) input) ⟨values, values⟩
      (List.range sensor.monitors.length) with
    | error e => rfl
    | ok r =>
      have hlogs : r.2.length = sensor.monitors.length := by
        rw [length_runLog hok, List.length_range]
      simp only [Except.map, Bind.bind, Except.bind, Pure.pure, Except.pure,
        silence_eq_zipWith hlogs]

/-- Without `send` a monitor is silent, and nothing else of a run is different. -/
theorem processRbSensor_withSend (rdDne : Binary64 → Binary64 → Bool) (sensor : Sensor lib) (m : Nat)
    (inputs : List PassInput)
    : processRbSensor rdDne (sensor.withSend m false) inputs =
        (processRbSensor rdDne (sensor.withSend m true) inputs).map fun r =>
          (r.1, r.2.map (silence m)) := by
  have hmap (values : List (Option MonitorValue)) (input : PassInput) (_ : input ∈ inputs)
      (h : TagsKept sensor values) :=
    processMonitorsArray_withSend rdDne m input h
  have hinv (values : List (Option MonitorValue)) (input : PassInput)
      (values' : List (Option MonitorValue)) (logs : List MonitorLog) (h : TagsKept sensor values)
      (hstep : processMonitorsArray rdDne (sensor.withSend m true) values input = .ok (values', logs))
      : TagsKept sensor values' := by
    exact tagsKept_withSend.mp ((tagsKept_withSend.mpr h).of_processMonitorsArray hstep)
  unfold processRbSensor
  rw [length_monitors_withSend, length_monitors_withSend]
  rw [runLog_map (TagsKept sensor) (fun _ => silence m) hmap hinv
    ⟨List.length_replicate, wellTagged_replicate _ _⟩]
  cases hok : runLog (processMonitorsArray rdDne (sensor.withSend m true))
    (List.replicate sensor.monitors.length none) inputs with
  | error e => rfl
  | ok r =>
    have hzip : List.zipWith (fun _ => silence m) inputs r.2 = r.2.map (silence m) := by
      have hpasses := length_runLog hok
      apply List.ext_getElem
      . simp [hpasses]
      . intro i _ _
        simp
    simp only [Except.map, hzip]

end

end RbMonitor
