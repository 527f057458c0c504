import RbMonitor.Sensor.Total

/-!
This module contains that no pass reads a value through the wrong member of its union, whatever the
responses are.
-/

namespace RbMonitor

section

variable {lib : Matheval} {rdDne : Binary64 → Binary64 → Bool} {sensor : Sensor lib}

/-- The faults of a pass: a response is split at the empty token, or a result does not fit. -/
inductive PassFault : Fault → Prop where
  | emptySplit : PassFault .divergence
  | valBuf (call : EvalCall) : PassFault (.valBuf call)

variable (rdDne) in
theorem updateMonitor_ok_or (input : PassInput) {values : List (Option MonitorValue)}
    (h : TagsKept sensor values) {i : Nat} (hi : i < sensor.monitors.length)
    : (∃ values' log, updateMonitor rdDne sensor input values i = .ok (values', log)
        ∧ TagsKept sensor values')
      ∨ ∃ e, PassFault e ∧ updateMonitor rdDne sensor input values i = .error e := by
  have hm : sensor.monitors[i]? = some sensor.monitors[i] := List.getElem?_eq_getElem hi
  by_cases hsplit : sensor.monitors[i].type ≠ .op → sensor.monitors[i].splittok ≠ some []
  . by_cases hfits : OpFits sensor values sensor.monitors[i]
    . left
      rcases updateMonitor_ok rdDne input h.length h.tags hm hsplit hfits with
        ⟨values', log, hok, htags⟩
      exact ⟨values', log, hok, (length_updateMonitor hok).trans h.length, htags⟩
    . right
      rcases processSensorMonitor_of_not_fits hfits (input.response i) with ⟨call, hcall⟩
      refine ⟨_, .valBuf call, ?_⟩
      unfold updateMonitor
      rw [elmAt_of_lt hi]
      simp only [Bind.bind, Except.bind, hcall]
  . right
    simp only [Classical.not_imp, not_not] at hsplit
    refine ⟨_, .emptySplit, ?_⟩
    unfold updateMonitor
    rw [elmAt_of_lt hi]
    simp only [Bind.bind, Except.bind, processSensorMonitor_of_splittok_nil hsplit.1 hsplit.2]

/-- Both arrays of a pass are the same, with the tags of the monitors. -/
def PassTags (sensor : Sensor lib) (st : PassState) : Prop :=
  ∃ values, st = ⟨values, values⟩ ∧ TagsKept sensor values

theorem passTags_of_processMonitor {input : PassInput} {st st' : PassState} {i : Nat}
    {log : MonitorLog} (h : PassTags sensor st)
    (hstep : processMonitor rdDne sensor input st i = .ok (st', log))
    : PassTags sensor st' := by
  rcases h with ⟨values, hst, hkept⟩
  subst hst
  rcases (processMonitor_eq_ok hkept.length).mp hstep with ⟨values', hupdate, hst'⟩
  exact ⟨values', hst', hkept.of_updateMonitor hupdate⟩

variable (rdDne) in
theorem processMonitorsArray_ok_or (input : PassInput) {values : List (Option MonitorValue)}
    (h : TagsKept sensor values)
    : (∃ values' logs, processMonitorsArray rdDne sensor values input = .ok (values', logs)
        ∧ TagsKept sensor values')
      ∨ ∃ e, PassFault e ∧ processMonitorsArray rdDne sensor values input = .error e := by
  cases haok : aok sensor input with
  | false => exact .inl ⟨values, [], processMonitorsArray_of_not_aok haok values, h⟩
  | true =>
    have hstep (st : PassState) (i : Nat) (hi : i ∈ List.range sensor.monitors.length)
        (hst : PassTags sensor st)
        : (∃ st' log, processMonitor rdDne sensor input st i = .ok (st', log) ∧ PassTags sensor st')
          ∨ ∃ e, PassFault e ∧ processMonitor rdDne sensor input st i = .error e := by
      rcases hst with ⟨values, heq, hkept⟩
      subst heq
      rw [List.mem_range] at hi
      rw [processMonitor_eq hkept.length hi]
      cases updateMonitor_ok_or rdDne input hkept hi with
      | inl hok =>
        rcases hok with ⟨values', log, hok, hkept'⟩
        rw [hok]
        exact .inl ⟨⟨values', values'⟩, log, rfl, values', rfl, hkept'⟩
      | inr herror =>
        rcases herror with ⟨e, he, herror⟩
        rw [herror]
        exact .inr ⟨e, he, rfl⟩
    have hrun := runLog_total_or (PassTags sensor) PassFault hstep
      ⟨values, newIteration_eq h.length, h⟩
    unfold aok at haok
    simp only [processMonitorsArray, haok, Bool.not_true, Bool.false_eq_true, ↓reduceIte]
    cases hrun with
    | inl hok =>
      rcases hok with ⟨st, logs, hok, values', hst, hkept'⟩
      rw [hok, hst]
      exact .inl ⟨values', logs, rfl, hkept'⟩
    | inr herror =>
      rcases herror with ⟨e, he, herror⟩
      rw [herror]
      exact .inr ⟨e, he, rfl⟩

variable (rdDne) in
theorem processRbSensor_ok_or (sensor : Sensor lib) (inputs : List PassInput)
    : (∃ values passes, processRbSensor rdDne sensor inputs = .ok (values, passes)
        ∧ TagsKept sensor values)
      ∨ ∃ e, PassFault e ∧ processRbSensor rdDne sensor inputs = .error e := by
  unfold processRbSensor
  apply runLog_total_or (TagsKept sensor) PassFault
  . intro values input _ h
    exact processMonitorsArray_ok_or rdDne input h
  . exact tagsKept_replicate sensor

variable (rdDne) in
/-- No run reads a value through the wrong tag, and what it stores has the tags of the monitors. -/
theorem processRbSensor_tagSafe (sensor : Sensor lib) (inputs : List PassInput)
    : processRbSensor rdDne sensor inputs ≠ .error .badTag ∧
        ∀ values passes, processRbSensor rdDne sensor inputs = .ok (values, passes) →
          WellTagged sensor.monitors values := by
  cases processRbSensor_ok_or rdDne sensor inputs with
  | inl hok =>
    rcases hok with ⟨values, passes, hok, hkept⟩
    rw [hok]
    refine ⟨by simp, ?_⟩
    intro values' passes' heq
    cases heq
    exact hkept.tags
  | inr herror =>
    rcases herror with ⟨e, he, herror⟩
    rw [herror]
    cases he <;> exact ⟨by simp, by simp⟩

end

end RbMonitor
