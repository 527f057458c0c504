import RbMonitor.Sensor.Change

/-!
This module contains when a vector with given timestamps sends the same instance twice: only the
response before is remembered.
-/

namespace RbMonitor

/-- Value `v` of an instance is sent in the pass at position `k` of the logs. -/
def SentAt (logs : List MonitorLog) (inst k : Nat) (v : Value) : Prop :=
  ∃ log msg, logs[k]? = some log ∧ msg ∈ log.messages ∧ msg.inst = inst ∧ msg.value = v

/-- Two messages of an instance with none between them. -/
structure Successive (logs : List MonitorLog) (inst j k : Nat) (v w : Value) : Prop where
  lt : j < k
  first : SentAt logs inst j v
  second : SentAt logs inst k w
  between : ∀ l u, j < l → l < k → ¬ SentAt logs inst l u

/-- The values of an instance that are sent, pass by pass. -/
def sentValues (logs : List MonitorLog) (inst : Nat) : List (List Value) :=
  logs.map fun log => (log.messages.filter (·.inst = (inst : Int))).map (·.value)

theorem sentAt_iff {logs : List MonitorLog} {inst k : Nat} {v : Value}
    : SentAt logs inst k v ↔ ∃ vs, (sentValues logs inst)[k]? = some vs ∧ v ∈ vs := by
  unfold SentAt sentValues
  constructor
  . intro hex
    rcases hex with ⟨log, msg, hlog, hmsg, hinst, rfl⟩
    refine ⟨_, by rw [List.getElem?_map, hlog, Option.map_some], ?_⟩
    exact List.mem_map.mpr ⟨msg, List.mem_filter.mpr ⟨hmsg, by simp [hinst]⟩, rfl⟩
  . intro hex
    rcases hex with ⟨vs, hvs, hv⟩
    rw [List.getElem?_map, Option.map_eq_some_iff] at hvs
    rcases hvs with ⟨log, hlog, rfl⟩
    rcases List.mem_map.mp hv with ⟨msg, hmsg, rfl⟩
    rcases List.mem_filter.mp hmsg with ⟨hmsg, hinst⟩
    exact ⟨log, msg, hlog, hmsg, of_decide_eq_true hinst, rfl⟩

theorem successive_of_sentValues {logs : List MonitorLog} {inst n : Nat} {v w : Value}
    (h : sentValues logs inst = [v] :: (List.replicate n [] ++ [[w]]))
    : Successive logs inst 0 (n + 1) v w where
  lt := by omega
  first := sentAt_iff.mpr ⟨[v], by simp [h], by simp⟩
  second := sentAt_iff.mpr ⟨[w], by simp [h], by simp⟩
  between l u hl hlt hsent := by
    rcases sentAt_iff.mp hsent with ⟨vs, hvs, hu⟩
    have hpred : ∃ m, l = m + 1 := ⟨l - 1, by omega⟩
    rcases hpred with ⟨l, rfl⟩
    rw [h, List.getElem?_cons_succ, List.getElem?_append_left (by simp; omega),
      List.getElem?_replicate_of_lt (by omega), Option.some.injEq] at hvs
    subst hvs
    cases hu

/-- No two successive messages of an instance have the same timestamp and value. -/
def NeverSentTwice {lib : Matheval} (rdDne : Binary64 → Binary64 → Bool) (sensor : Sensor lib)
    (i : Nat)
    : Prop :=
  ∀ inputs values passes, processRbSensor rdDne sensor inputs = .ok (values, passes) →
    ∀ inst j k v w, Successive (logsOf i passes) inst j k v w →
      v.timestamp ≠ w.timestamp ∨ v.value ≠ w.value

/-- The value of an instance in the array at position `k`. -/
def childAt (arrays : List ValueArray) (inst k : Nat) : Option Value :=
  arrays[k]?.bind fun a => a.children[inst]?.join

/-- From array `j` to array `k` an instance is never missing, its timestamps do not decrease, and
between them its value does not change. -/
structure Steady (arrays : List ValueArray) (inst j k : Nat) : Prop where
  present : ∀ l, j ≤ l → l ≤ k → (childAt arrays inst l).isSome
  timestamp_le : ∀ l a b, j ≤ l → l < k → childAt arrays inst l = some a →
    childAt arrays inst (l + 1) = some b → a.timestamp ≤ b.timestamp
  value_eq : ∀ l a b, j < l → l < k → childAt arrays inst j = some a →
    childAt arrays inst l = some b → a.value = b.value

theorem rbMonitorValueCmpTimestamp_self {old new : Value} (h : old.timestamp = new.timestamp)
    : rbMonitorValueCmpTimestamp old new = 0 := by
  simp [rbMonitorValueCmpTimestamp, h]

section

variable {rdDne : Binary64 → Binary64 → Bool} {monitor : Monitor}

theorem mem_sentMessages {old : List (Option Value)} {new : ValueArray} {msg : RbMessage}
    (hmsg : msg ∈ sentMessages monitor rdDne old new) {inst : Nat} (hinst : msg.inst = inst)
    : new.children[inst]?.join = some msg.value ∧ changed rdDne old[inst]?.join msg.value := by
  unfold sentMessages at hmsg
  split at hmsg
  . rw [List.mem_append] at hmsg
    cases hmsg with
    | inl hmsg =>
      rw [childMessages_eq, List.mem_filterMap] at hmsg
      rcases hmsg with ⟨i, hi, hmsg⟩
      simp only [length_changedChildren, List.mem_range] at hi
      simp only [Nat.zero_add, Option.map_eq_some_iff] at hmsg
      rcases hmsg with ⟨v, hv, rfl⟩
      simp only [printMonitorValue0, Nat.cast_inj] at hinst
      subst hinst
      simpa [changedChildren, hi, Option.filter_eq_some_iff, printMonitorValue0] using hv
    | inr hmsg =>
      simp only [splitMessages, Option.mem_toList, Option.map_eq_some_iff] at hmsg
      rcases hmsg with ⟨_, _, rfl⟩
      simp only [printMonitorValue0, NO_INSTANCE] at hinst
      omega
  . cases hmsg

theorem sentAt_of_zipWith {logs : List MonitorLog} {arrays : List ValueArray}
    (h : logs.map (·.messages)
      = List.zipWith (sentMessages monitor rdDne) ([] :: arrays.map (·.children)) arrays)
    {inst k : Nat} {v : Value} (hsent : SentAt logs inst k v)
    : childAt arrays inst k = some v
        ∧ ∀ l, k = l + 1 → changed rdDne (childAt arrays inst l) v := by
  rcases hsent with ⟨log, msg, hlog, hmsg, hinst, rfl⟩
  have hk := congrArg (·[k]?) h
  simp only [List.getElem?_map, hlog, Option.map_some, List.getElem?_zipWith] at hk
  cases ha : arrays[k]? with
  | none => simp [ha] at hk
  | some a =>
    cases k with
    | zero =>
      simp only [ha, List.getElem?_cons_zero, Option.some.injEq] at hk
      rw [hk] at hmsg
      rcases mem_sentMessages hmsg hinst with ⟨hchild, _⟩
      exact ⟨by simp [childAt, ha, hchild], by omega⟩
    | succ l =>
      have hexists : ∃ b, arrays[l]? = some b := by
        have := (List.getElem?_eq_some_iff.mp ha).1
        exact ⟨_, List.getElem?_eq_getElem (by omega)⟩
      rcases hexists with ⟨b, hb⟩
      simp only [ha, List.getElem?_cons_succ, List.getElem?_map, hb, Option.map_some,
        Option.some.injEq] at hk
      rw [hk] at hmsg
      rcases mem_sentMessages hmsg hinst with ⟨hchild, hchanged⟩
      refine ⟨by simp [childAt, ha, hchild], ?_⟩
      intro l' hl'
      have heq : l = l' := by omega
      subst heq
      simpa [childAt, hb] using hchanged

theorem timestamp_le_of_steady {arrays : List ValueArray} {inst j k : Nat}
    (h : Steady arrays inst j k) {v : Value} (hv : childAt arrays inst j = some v) (d : Nat)
    (hd : j + d ≤ k) {u : Value} (hu : childAt arrays inst (j + d) = some u)
    : v.timestamp ≤ u.timestamp := by
  induction d generalizing u with
  | zero =>
    rw [Nat.add_zero, hv, Option.some.injEq] at hu
    rw [hu]
  | succ d ih =>
    rcases Option.isSome_iff_exists.mp (h.present (j + d) (by omega) (by omega)) with ⟨m, hm⟩
    have hle := h.timestamp_le (j + d) m u (by omega) (by omega) hm hu
    have := ih (by omega) hm
    omega

/-- In every run, two successive messages of an instance that is steady from the first to the second
differ in timestamp or in value. -/
theorem successive_differ {lib : Matheval} {sensor : Sensor lib} {i : Nat}
    (hm : sensor.monitors[i]? = some monitor) (hts : monitor.timestampGiven)
    (hsplit : monitor.splittok.isSome) {inputs : List PassInput}
    {values : List (Option MonitorValue)} {passes : List (List MonitorLog)}
    (h : processRbSensor rdDne sensor inputs = .ok (values, passes)) {inst j k : Nat} {v w : Value}
    (hsent : Successive (logsOf i passes) inst j k v w)
    (hsteady : Steady (arraysOf i passes) inst j k)
    : v.timestamp ≠ w.timestamp ∨ rdDne v.value w.value := by
  rcases Option.isSome_iff_exists.mp hsplit with ⟨splittok, hsplittok⟩
  rcases runLog_arrays hm hts hsplittok (by simp)
    (remembers_replicate sensor.monitors.length i) h with
    ⟨_, _, hmsgs⟩
  have hlt := hsent.lt
  have hsplit : ∃ l, k = j + l + 1 := ⟨k - j - 1, by omega⟩
  rcases hsplit with ⟨l, rfl⟩
  have hv := (sentAt_of_zipWith hmsgs hsent.first).1
  rcases sentAt_of_zipWith hmsgs hsent.second with ⟨hw, hchanged⟩
  rcases Option.isSome_iff_exists.mp (hsteady.present (j + l) (by omega) (by omega)) with ⟨u, hu⟩
  have hvu := timestamp_le_of_steady hsteady hv l (by omega) hu
  have huw := hsteady.timestamp_le (j + l) u w (by omega) (by omega) hu hw
  have hvalue : v.value = u.value := by
    by_cases hl : l = 0
    . subst hl
      rw [Nat.add_zero, hv, Option.some.injEq] at hu
      rw [hu]
    . exact hsteady.value_eq (j + l) v u (by omega) (by omega) hv hu
  have hchanged := hchanged (j + l) rfl
  simp only [hu, changed, Bool.or_eq_true, decide_eq_true_eq] at hchanged
  cases hchanged with
  | inl hcmp =>
    left
    intro heq
    have := rbMonitorValueCmpTimestamp_self (show u.timestamp = w.timestamp by omega)
    omega
  | inr hdne =>
    right
    rw [hvalue]
    exact hdne

end

/-- A comparison of doubles with a tolerance of a hundred-thousandth. -/
def differsBy (a b : Binary64) : Bool :=
  match a + -b with
  | .finite x => Binary64.one ≤ x.mag * 100000
  | _ => true

/-- Twenty packets, counted at a time. -/
def packetsAt (timestamp : Int) : Value :=
  { timestamp := timestamp, value := 20 }

/-- Whether the value of the second interface is sent in the first and in the last pass, and nothing
of it in the `n` passes between. -/
def sendsAgain (outs : List (List Char)) (n : Nat) (v w : Value) : Bool :=
  endsWith (fun _ passes =>
      sentValues (logsOf 0 passes) 1 = [v] :: (List.replicate n [] ++ [[w]]))
    (processRbSensor differsBy packetsSensor (outs.map packetsInput))

theorem not_neverSentTwice_of_sendsAgain {outs : List (List Char)} {n : Nat} {v : Value}
    (h : sendsAgain outs n v v)
    : ¬ NeverSentTwice differsBy packetsSensor 0 := by
  intro hnever
  rcases exists_of_endsWith h with ⟨values, passes, hrun, hsent⟩
  have hsuccessive := successive_of_sentValues (of_decide_eq_true hsent)
  have := hnever _ values passes hrun 1 0 (n + 1) v v hsuccessive
  simp at this

/-- The same value is sent again after the instance was missing, after an older timestamp, and after
its value had drifted away within the tolerance. -/
theorem not_neverSentTwice_packets
    : sendsAgain ["1:1;10:20".toList, "1:1".toList, "1:1;10:20".toList] 1 (packetsAt 10) (packetsAt 10)
        ∧ sendsAgain ["1:1;10:20".toList, "1:1;5:20".toList, "1:1;10:20".toList] 1 (packetsAt 10)
          (packetsAt 10)
        ∧ sendsAgain ["1:1;10:20".toList, "1:1;10:20.000006".toList, "1:1;10:20.000012".toList,
          "1:1;10:20".toList] 2 (packetsAt 10) (packetsAt 10)
        ∧ ¬ NeverSentTwice differsBy packetsSensor 0 := by
  have hmissing : sendsAgain ["1:1;10:20".toList, "1:1".toList, "1:1;10:20".toList] 1 (packetsAt 10)
      (packetsAt 10) := by
    decide +kernel
  refine ⟨hmissing, ?_, ?_, not_neverSentTwice_of_sendsAgain hmissing⟩
  . decide +kernel
  . decide +kernel

/-- Whether the values of an instance in the arrays are `v`, `n` times, and then `w`. -/
def staysUntil (arrays : List ValueArray) (inst n : Nat) (v w : Value) : Bool :=
  arrays.map (·.children[inst]?.join) = List.replicate n (some v) ++ [some w]

theorem steady_of_staysUntil {arrays : List ValueArray} {inst n : Nat} {v w : Value}
    (h : staysUntil arrays inst n v w) (hn : 0 < n) (hle : v.timestamp ≤ w.timestamp)
    : Steady arrays inst 0 n := by
  have hchild (l : Nat) : childAt arrays inst l
      = ((List.replicate n (some v) ++ [some w])[l]?).join := by
    rw [← of_decide_eq_true h, List.getElem?_map, childAt]
    cases arrays[l]? <;> rfl
  have hsame (l : Nat) (hl : l < n) : childAt arrays inst l = some v := by
    rw [hchild, List.getElem?_append_left (by simpa using hl), List.getElem?_replicate_of_lt hl]
    rfl
  have hlast : childAt arrays inst n = some w := by
    rw [hchild]
    simp
  constructor
  . intro l _ hl
    rcases Nat.lt_or_eq_of_le hl with hlt | rfl
    . simp [hsame l hlt]
    . simp [hlast]
  . intro l a b _ hl ha hb
    rw [hsame l hl, Option.some.injEq] at ha
    subst ha
    rcases Nat.lt_or_eq_of_le (show l + 1 ≤ n from hl) with hlt | rfl
    . rw [hsame _ hlt, Option.some.injEq] at hb
      rw [hb]
    . rw [hlast, Option.some.injEq] at hb
      exact hb ▸ hle
  . intro l a b _ hl ha hb
    rw [hsame 0 hn, Option.some.injEq] at ha
    rw [hsame l hl, Option.some.injEq] at hb
    rw [← ha, ← hb]

/-- Whether the second interface stays as it is for `n` passes and then changes. -/
def changesAfter (outs : List (List Char)) (n : Nat) (v w : Value) : Bool :=
  endsWith (fun _ passes =>
      sentValues (logsOf 0 passes) 1 = [v] :: (List.replicate n [] ++ [[w]])
        && staysUntil (arraysOf 0 passes) 1 (n + 1) v w)
    (processRbSensor differsBy packetsSensor (outs.map packetsInput))

theorem successive_differ_packets
    : changesAfter ["1:1;10:20".toList, "1:1;10:20".toList, "1:1;15:20".toList] 1 (packetsAt 10)
          (packetsAt 15)
        ∧ ((packetsAt 10).timestamp ≠ (packetsAt 15).timestamp
          ∨ differsBy (packetsAt 10).value (packetsAt 15).value) := by
  have hends : changesAfter ["1:1;10:20".toList, "1:1;10:20".toList, "1:1;15:20".toList] 1
      (packetsAt 10) (packetsAt 15) := by
    decide +kernel
  refine ⟨hends, ?_⟩
  rcases exists_of_endsWith hends with ⟨values, passes, hrun, hcheck⟩
  rw [Bool.and_eq_true] at hcheck
  have hm : packetsSensor.monitors[0]? = some packetsMonitor := rfl
  have hle : (packetsAt 10).timestamp ≤ (packetsAt 15).timestamp := by simp [packetsAt]
  exact successive_differ hm rfl rfl hrun (successive_of_sentValues (of_decide_eq_true hcheck.1))
    (steady_of_staysUntil hcheck.2 (by omega) hle)

end RbMonitor
