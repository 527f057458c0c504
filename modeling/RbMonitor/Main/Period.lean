import RbMonitor.Main.Config

/-!
This module contains the main loop and how long it sleeps in a round over the sensors.
-/

namespace RbMonitor

open CString

inductive MainCall where
  | rbSensorGet (i : Nat)
  | queueSensor (i : Nat)
  | usleep (useconds : Nat)
  | sleep (seconds : Nat)
deriving DecidableEq

namespace MainInfo

variable (info : MainInfo) (count : Nat)

/-- A product and a quotient of `uint64_t`, cast to the 32 bits of `useconds_t`. -/
def usleepArg : Nat :=
  info.sleepMain * 1000000 % 2 ^ 64 / count % 2 ^ 32

/-- The body of the loop over the sensors. -/
def enqueueSensor (i : Nat) : List MainCall :=
  [.rbSensorGet i, .queueSensor i]
    ++ if 0 < info.sleepMain then [.usleep (info.usleepArg count)] else []

/-- The loop over the sensors, where `run i` is what is read of the flag before sensor `i`. -/
def sensorsLoop (run : Nat → Bool) : List MainCall :=
  ((List.range count).takeWhile run).flatMap (info.enqueueSensor count)

/-- The rounds of the main loop. -/
def mainLoop (rounds : List (Nat → Bool)) : List MainCall :=
  rounds.flatMap fun run =>
    info.sensorsLoop count run
      ++ if count = 0 then [.sleep (info.sleepMain % 2 ^ 32)] else []

end MainInfo

/-- The time that the calls sleep, in microseconds. -/
def slept (calls : List MainCall) : Nat :=
  (calls.map fun
    | .usleep useconds => useconds
    | .sleep seconds => seconds * 1000000
    | _ => 0).sum

/-- Every queued sensor is followed by a pause of `useconds`. -/
def SleepsAfterQueue (useconds : Nat) : List MainCall → Prop
  | [] => True
  | .queueSensor _ :: calls => calls.head? = some (.usleep useconds) ∧ SleepsAfterQueue useconds calls
  | _ :: calls => SleepsAfterQueue useconds calls

/-- The pause after every sensor is its share of the period, rounded down, and a whole round takes
the period. -/
structure KeepsPeriod (info : MainInfo) (sleepMain count : Nat) : Prop where
  pause : ∀ rounds, SleepsAfterQueue (sleepMain * 1000000 / count) (info.mainLoop count rounds)
  round_le : slept (info.sensorsLoop count fun _ => true) ≤ sleepMain * 1000000
  le_round : sleepMain * 1000000 ≤ slept (info.sensorsLoop count fun _ => true) + count

theorem sleepsAfterQueue_append {useconds : Nat} {calls calls' : List MainCall}
    (h : SleepsAfterQueue useconds calls) (h' : SleepsAfterQueue useconds calls')
    : SleepsAfterQueue useconds (calls ++ calls') := by
  induction calls with
  | nil => exact h'
  | cons call calls ih =>
    cases call with
    | queueSensor i =>
      refine ⟨?_, ih h.2⟩
      change (calls ++ calls').head? = _
      rw [List.head?_append, h.1]
      rfl
    | rbSensorGet i => exact ih h
    | usleep useconds => exact ih h
    | sleep seconds => exact ih h

theorem sleepsAfterQueue_flatMap {α : Type} {useconds : Nat} {f : α → List MainCall} (elms : List α)
    (h : ∀ elm ∈ elms, SleepsAfterQueue useconds (f elm))
    : SleepsAfterQueue useconds (elms.flatMap f) := by
  induction elms with
  | nil => exact trivial
  | cons elm elms ih =>
    rw [List.flatMap_cons]
    apply sleepsAfterQueue_append (h elm List.mem_cons_self)
    apply ih
    intro elm' hmem
    exact h elm' (List.mem_cons_of_mem _ hmem)

@[simp]
theorem slept_append (calls calls' : List MainCall)
    : slept (calls ++ calls') = slept calls + slept calls' := by
  simp [slept]

section

variable {info : MainInfo} {count : Nat}

theorem MainInfo.enqueueSensor_of_pos (h : 0 < info.sleepMain) (i : Nat)
    : info.enqueueSensor count i =
        [.rbSensorGet i, .queueSensor i, .usleep (info.usleepArg count)] := by
  simp [enqueueSensor, h]

theorem slept_enqueue (i useconds : Nat)
    : slept [.rbSensorGet i, .queueSensor i, .usleep useconds] = useconds := by
  simp [slept]

theorem slept_flatMap {α : Type} {useconds : Nat} {f : α → List MainCall}
    (h : ∀ elm, slept (f elm) = useconds) (elms : List α)
    : slept (elms.flatMap f) = elms.length * useconds := by
  induction elms with
  | nil => simp [slept]
  | cons elm elms ih =>
    rw [List.flatMap_cons, slept_append, ih, h, List.length_cons, Nat.add_one_mul, Nat.add_comm]

theorem slept_sensorsLoop (h : 0 < info.sleepMain)
    : slept (info.sensorsLoop count fun _ => true) = count * info.usleepArg count := by
  have henqueue (i : Nat) : slept (info.enqueueSensor count i) = info.usleepArg count := by
    rw [MainInfo.enqueueSensor_of_pos h, slept_enqueue]
  unfold MainInfo.sensorsLoop
  rw [slept_flatMap henqueue, List.takeWhile_eq_self_iff.mpr (fun _ _ => rfl), List.length_range]

theorem sleepsAfterQueue_mainLoop (h : 0 < info.sleepMain) (rounds : List (Nat → Bool))
    : SleepsAfterQueue (info.usleepArg count) (info.mainLoop count rounds) := by
  apply sleepsAfterQueue_flatMap
  intro run _
  apply sleepsAfterQueue_append
  . apply sleepsAfterQueue_flatMap
    intro i _
    rw [MainInfo.enqueueSensor_of_pos h]
    exact ⟨rfl, trivial⟩
  . split
    . exact trivial
    . exact trivial

theorem usleepArg_of_sleepsAfterQueue (h : 0 < info.sleepMain) (hcount : 0 < count) {useconds : Nat}
    (hpause : SleepsAfterQueue useconds (info.mainLoop count [fun _ => true]))
    : info.usleepArg count = useconds := by
  rcases Nat.exists_eq_add_of_lt hcount with ⟨n, hn⟩
  have hrange : List.range count = 0 :: (List.range n).map Nat.succ := by
    rw [hn, Nat.zero_add, List.range_succ_eq_map]
  simp only [MainInfo.mainLoop, List.flatMap_cons, MainInfo.sensorsLoop, hrange,
    List.takeWhile_cons_of_pos, MainInfo.enqueueSensor_of_pos h, List.cons_append] at hpause
  simpa [SleepsAfterQueue] using hpause.1

end

theorem wrapped_share_eq_iff {a n : Nat} (hpos : 0 < n) (hn : n < 2 ^ 64)
    : a % 2 ^ 64 / n % 2 ^ 32 = a / n ↔ a < 2 ^ 64 ∧ a / n < 2 ^ 32 := by
  constructor
  . intro h
    have hle : a / n ≤ a % 2 ^ 64 / n := by
      rw [← h]
      exact Nat.mod_le _ _
    have hlt : a < 2 ^ 64 := by
      apply Nat.lt_of_not_le
      intro hge
      -- a wrap takes away more than a sensor's share
      have hwrap : a % 2 ^ 64 + n ≤ a := by
        omega
      have hdiv := Nat.div_le_div_right (c := n) hwrap
      rw [Nat.add_div_right _ hpos] at hdiv
      omega
    refine ⟨hlt, ?_⟩
    rw [← h]
    exact Nat.mod_lt _ (by decide)
  . intro h
    rw [Nat.mod_eq_of_lt h.1, Nat.mod_eq_of_lt h.2]

theorem keepsPeriod_iff_usleepArg {info : MainInfo} (h : 0 < info.sleepMain) {count : Nat}
    (hcount : 0 < count)
    : KeepsPeriod info info.sleepMain count
        ↔ info.usleepArg count = info.sleepMain * 1000000 / count := by
  constructor
  . intro hkeeps
    exact usleepArg_of_sleepsAfterQueue h hcount (hkeeps.pause _)
  . intro harg
    have hslept : slept (info.sensorsLoop count fun _ => true) = count * info.usleepArg count :=
      slept_sensorsLoop h
    rw [harg] at hslept
    refine ⟨?_, ?_, ?_⟩
    . intro rounds
      rw [← harg]
      exact sleepsAfterQueue_mainLoop h rounds
    . rw [hslept]
      exact Nat.mul_div_le _ _
    . rw [hslept]
      have hdiv := Nat.lt_mul_div_succ (info.sleepMain * 1000000) hcount
      rw [Nat.mul_add_one count] at hdiv
      exact Nat.le_of_lt hdiv

/-- The main loop keeps an accepted period exactly when it fits the words that it goes through. The
number of sensors is a `size_t`. -/
theorem keepsPeriod_iff {env : ConfigEnv} {members : LinkHash CStr Json}
    (hnodup : (LinkHash.keys members).Nodup) {val : Json}
    (hval : members.lookup "sleep_main".toList = some val)
    {info info' : Config} (h : parseJsonConfig env (.object members) info = .ok info')
    {sleepMain : Nat} (hint : env.jsonC.getInt64 val = sleepMain) (hpos : 0 < sleepMain)
    {count : Nat} (hcount : 0 < count) (hsize : count < 2 ^ 64)
    : KeepsPeriod info'.main sleepMain count
        ↔ sleepMain * 1000000 < 2 ^ 64 ∧ sleepMain * 1000000 / count < 2 ^ 32 := by
  have hmain : info'.main.sleepMain = sleepMain := by
    rw [sleepMain_parseJsonConfig hnodup h, hval, Option.elim_some, acceptPositive, hint]
    simp
    omega
  rw [← hmain] at hpos ⊢
  rw [keepsPeriod_iff_usleepArg hpos hcount]
  exact wrapped_share_eq_iff hcount hsize

/-- Half a minute, and more than an hour. -/
def halfMinuteConfig : LinkHash CStr Json :=
  [("sleep_main".toList, .int 30), ("timeout".toList, .int 5)]

def longConfig : LinkHash CStr Json :=
  [("sleep_main".toList, .int 5000)]

/-- Integers as they are, and no properties of librdkafka. -/
def plainEnv : ConfigEnv where
  jsonC := { toJsonString _ := [], getInt64 | .int n => n | _ => 0 }
  rdKafka := { topicConfSet _ _ := .unknown, confSet _ _ := .unknown }
  haveRbhttp := false

theorem parseJsonConfig_halfMinute
    : parseJsonConfig plainEnv (.object halfMinuteConfig) {} =
        .ok { main := { sleepMain := 30 }, worker := { timeout := 5 } } := rfl

theorem parseJsonConfig_long
    : parseJsonConfig plainEnv (.object longConfig) {} =
        .ok { main := { sleepMain := 5000 } } := rfl

theorem keepsPeriod_iff_halfMinute
    : ∃ info, parseJsonConfig plainEnv (.object halfMinuteConfig) {} = .ok info
        ∧ (KeepsPeriod info.main 30 7
            ↔ 30 * 1000000 < 2 ^ 64 ∧ 30 * 1000000 / 7 < 2 ^ 32) := by
  have hval : halfMinuteConfig.lookup "sleep_main".toList = some (.int 30) := rfl
  have hint : plainEnv.jsonC.getInt64 (.int 30) = (30 : Nat) := rfl
  exact ⟨_, parseJsonConfig_halfMinute, keepsPeriod_iff (by decide) hval parseJsonConfig_halfMinute
    hint (by decide) (by decide) (by decide)⟩

/-- One sensor every 5000 seconds is asked after 705. -/
theorem not_keepsPeriod_long
    : ¬ ∀ info, parseJsonConfig plainEnv (.object longConfig) {} = .ok info →
        KeepsPeriod info.main 5000 1 := by
  intro h
  have hkeeps := h _ parseJsonConfig_long
  have harg := usleepArg_of_sleepsAfterQueue (by decide) (by decide) (hkeeps.pause _)
  revert harg
  decide

end RbMonitor
