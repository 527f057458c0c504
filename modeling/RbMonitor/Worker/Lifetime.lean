import RbMonitor.Worker.Step

/-!
This module contains the references to the sensors and their locks: no sensor is destroyed while it
is in use, and no two workers process the same one.
-/

namespace RbMonitor

def QueueElm.isSensor (id : Nat) : QueueElm → Bool
  | .sensor j => j = id
  | .jsonObject _ => false

def WorkerState.holds (id : Nat) : WorkerState → Bool
  | .popped elm => elm.isSensor id
  | .processing j | .putting j => j = id
  | .idle | .ended => false

def MainState.holds (id : Nat) : MainState → Bool
  | .holding i => i = id
  | .atSensor _ | .leaving => false

@[simp]
theorem QueueElm.isSensor_sensor (id j : Nat) : isSensor id (.sensor j) = decide (j = id) := rfl

@[simp]
theorem WorkerState.holds_idle (id : Nat) : holds id .idle = false := rfl

@[simp]
theorem WorkerState.holds_ended (id : Nat) : holds id .ended = false := rfl

@[simp]
theorem WorkerState.holds_popped (id : Nat) (elm : QueueElm)
    : holds id (.popped elm) = elm.isSensor id := rfl

@[simp]
theorem WorkerState.holds_processing (id j : Nat) : holds id (.processing j) = decide (j = id) :=
  rfl

@[simp]
theorem WorkerState.holds_putting (id j : Nat) : holds id (.putting j) = decide (j = id) := rfl

@[simp]
theorem MainState.holds_holding (id i : Nat) : holds id (.holding i) = decide (i = id) := rfl

@[simp]
theorem MainState.holds_atSensor (id i : Nat) : holds id (.atSensor i) = false := rfl

@[simp]
theorem MainState.holds_leaving (id : Nat) : holds id .leaving = false := rfl

namespace Process

/-- The references to a sensor beside the one of the array of sensors. -/
def references (s : Process) (id : Nat) : Nat :=
  s.queue.countP (·.isSensor id) + s.workers.countP (·.holds id) + s.dropped.count id
    + (s.main.holds id).toNat

/-- Every sensor counts its references, so none is destroyed. -/
structure Counted (s : Process) : Prop where
  counted : ∀ id, s.refcnt id = 1 + s.references id
  alive : ∀ id, s.freed id = false

theorem countP_set_add {α : Type} (p : α → Bool) {l : List α} {i : Nat} {b : α} (h : l[i]? = some b)
    (a : α)
    : (l.set i a).countP p + (p b).toNat = l.countP p + (p a).toNat := by
  induction l generalizing i with
  | nil => cases h
  | cons c l ih =>
    cases i with
    | zero =>
      simp only [List.getElem?_cons_zero, Option.some.injEq] at h
      subst h
      simp only [List.set_cons_zero, List.countP_cons]
      cases p a <;> cases p c <;> simp
    | succ i =>
      have := ih h
      simp only [List.set_cons_succ, List.countP_cons]
      omega

theorem counted_start (threads : Nat) : Counted (start threads) where
  counted id := by
    simp [start, references, List.countP_replicate]
  alive := by simp [start]

section

variable {s : Process}

theorem Counted.setWorker (h : Counted s) {w : Nat} {old state : WorkerState}
    (hw : s.workers[w]? = some old) (hholds : ∀ id, old.holds id = state.holds id)
    : Counted (s.setWorker w state) where
  counted id := by
    have hcount := h.counted id
    have hset := countP_set_add (·.holds id) hw state
    simp only [hholds, Nat.add_right_cancel_iff] at hset
    simpa only [references, Process.setWorker, hset] using hcount
  alive := h.alive

theorem Counted.rbSensorGet (h : Counted s) {i : Nat} (hmain : ∀ j, s.main.holds j = false)
    : Counted { s.rbSensorGet i with main := .holding i } where
  counted id := by
    have hcount := h.counted id
    simp only [references, hmain, MainState.holds_holding, Process.rbSensorGet,
      Function.update_apply] at hcount ⊢
    by_cases heq : id = i
    . simp [heq] at hcount ⊢
      omega
    . simp [heq, Ne.symm heq] at hcount ⊢
      omega
  alive := h.alive

theorem Counted.queueSensor (h : Counted s) {i : Nat} (hmain : s.main = .holding i) (next : Nat)
    : Counted { s.queueSensor (.sensor i) with main := .atSensor next } where
  counted id := by
    have hcount := h.counted id
    simp only [references, hmain, MainState.holds_holding, MainState.holds_atSensor,
      Process.queueSensor, List.countP_append, List.countP_singleton,
      QueueElm.isSensor_sensor] at hcount ⊢
    by_cases heq : i = id <;> simp [heq] at hcount ⊢ <;> omega
  alive := h.alive

theorem Counted.queueJson (h : Counted s) (obj : Json)
    : Counted (s.queueSensor (.jsonObject obj)) where
  counted id := by
    have hcount := h.counted id
    simpa [references, Process.queueSensor, List.countP_append, List.countP_singleton,
      QueueElm.isSensor] using hcount
  alive := h.alive

theorem Counted.pop (h : Counted s) {w : Nat} (hw : s.workers[w]? = some .idle) {elm : QueueElm}
    {queue : List QueueElm} (hqueue : s.queue = elm :: queue)
    : Counted { s.setWorker w (.popped elm) with queue := queue } where
  counted id := by
    have hcount := h.counted id
    have hset := countP_set_add (·.holds id) hw (.popped elm)
    simp only [WorkerState.holds_idle, WorkerState.holds_popped, Bool.toNat_false] at hset
    simp only [references, hqueue, List.countP_cons, Process.setWorker] at hcount ⊢
    cases helm : elm.isSensor id <;> simp [helm] at hset hcount ⊢ <;> omega
  alive := h.alive

theorem Counted.put (h : Counted s) {w id : Nat} (hw : s.workers[w]? = some (.putting id))
    : Counted ((s.rbSensorPut id).setWorker w .idle) where
  counted j := by
    have hcount := h.counted j
    have hset := countP_set_add (·.holds j) hw .idle
    simp only [WorkerState.holds_idle, WorkerState.holds_putting, Bool.toNat_false] at hset
    simp only [references, Process.setWorker, rbSensorPut, Function.update_apply] at hcount ⊢
    by_cases heq : j = id
    . simp [heq] at hset hcount ⊢
      omega
    . simp [heq, Ne.symm heq] at hset hcount ⊢
      omega
  -- the array of sensors holds a reference, so the count does not come to zero
  alive j := by
    have hcount := h.counted id
    have hset := countP_set_add (·.holds id) hw .idle
    simp only [WorkerState.holds_putting, WorkerState.holds_idle, decide_true, Bool.toNat_true,
      Bool.toNat_false] at hset
    simp only [references] at hcount
    have hpos : s.refcnt id - 1 ≠ 0 := by omega
    simpa [rbSensorPut, Process.setWorker, hpos] using h.alive j

theorem Counted.drop (h : Counted s) {w id : Nat}
    (hw : s.workers[w]? = some (.popped (.sensor id)))
    : Counted { s.setWorker w .ended with dropped := id :: s.dropped } where
  counted j := by
    have hcount := h.counted j
    have hset := countP_set_add (·.holds j) hw .ended
    simp only [WorkerState.holds_popped, WorkerState.holds_ended, QueueElm.isSensor_sensor,
      Bool.toNat_false] at hset
    simp only [references, Process.setWorker, List.count_cons] at hcount ⊢
    by_cases heq : id = j
    . subst heq
      simp at hset hcount ⊢
      omega
    . simp [heq] at hset hcount ⊢
      omega
  alive := h.alive

end

/-- A worker in `process_rb_sensor` has the lock of the sensor, alone. -/
structure Exclusive (workers : List WorkerState) (locked : Nat → Bool) : Prop where
  locked : ∀ w id : Nat, workers[w]? = some (.processing id) → locked id
  alone : ∀ id w w' : Nat, workers[w]? = some (.processing id) → workers[w']? = some (.processing id) →
    w = w'

section

variable {workers : List WorkerState} {locked : Nat → Bool}

theorem Exclusive.set (h : Exclusive workers locked) (w : Nat) {state : WorkerState}
    (hstate : ∀ id, state ≠ .processing id)
    : Exclusive (workers.set w state) locked := by
  have hold {v id : Nat} (hv : (workers.set w state)[v]? = some (.processing id))
      : workers[v]? = some (.processing id) := by
    rw [List.getElem?_set] at hv
    split at hv
    . split at hv
      . exact absurd (Option.some.inj hv) (hstate id)
      . cases hv
    . exact hv
  exact ⟨fun v id hv => h.locked v id (hold hv),
    fun id v v' hv hv' => h.alone id v v' (hold hv) (hold hv')⟩

theorem Exclusive.lock (h : Exclusive workers locked) (w : Nat) {id : Nat}
    (hfree : locked id = false)
    : Exclusive (workers.set w (.processing id)) (Function.update locked id true) := by
  have hold {v j : Nat} (hv : (workers.set w (.processing id))[v]? = some (.processing j))
      : (v = w ∧ j = id) ∨ (workers[v]? = some (.processing j) ∧ j ≠ id) := by
    rw [List.getElem?_set] at hv
    split at hv
    . next heq =>
      split at hv
      . cases hv
        exact .inl ⟨heq.symm, rfl⟩
      . cases hv
    . right
      refine ⟨hv, ?_⟩
      intro heq
      have := h.locked v j hv
      rw [heq, hfree] at this
      cases this
  constructor
  . intro v j hv
    rw [Function.update_apply]
    cases hold hv with
    | inl heq => simp [heq.2]
    | inr hv => simpa [hv.2] using h.locked v j hv.1
  . intro j v v' hv hv'
    cases hold hv with
    | inl heq =>
      cases hold hv' with
      | inl heq' => exact heq.1.trans heq'.1.symm
      | inr hv' => exact absurd heq.2 hv'.2
    | inr hv =>
      cases hold hv' with
      | inl heq' => exact absurd heq'.2 hv.2
      | inr hv' => exact h.alone j v v' hv.1 hv'.1

theorem Exclusive.unlock (h : Exclusive workers locked) {w id : Nat}
    (hw : workers[w]? = some (.processing id))
    : Exclusive (workers.set w (.putting id)) (Function.update locked id false) := by
  have hset : Exclusive (workers.set w (.putting id)) locked := h.set w (by simp)
  refine ⟨?_, hset.alone⟩
  intro v j hv
  have hlt := (List.getElem?_eq_some_iff.mp hw).1
  have hvw : w ≠ v := by
    intro heq
    subst heq
    simp [hlt] at hv
  rw [List.getElem?_set_ne hvw] at hv
  have hne : j ≠ id := by
    intro heq
    subst heq
    exact hvw (h.alone j w v hw hv)
  simpa [Function.update_apply, hne] using h.locked v j hv

end

/-- No sensor that is in use is destroyed, and none is processed twice at the same time. -/
structure SensorsSafe (sensors : Nat) (s : Process) : Prop where
  alive : ∀ id, (id < sensors ∨ .sensor id ∈ s.queue ∨ ∃ worker ∈ s.workers, worker.holds id) →
    s.freed id = false
  alone : ∀ id w w' : Nat, s.workers[w]? = some (.processing id) →
    s.workers[w']? = some (.processing id) → w = w'

structure Guarded (s : Process) : Prop extends Counted s where
  exclusive : Exclusive s.workers s.locked

theorem guarded_start (threads : Nat) : Guarded (start threads) where
  toCounted := counted_start threads
  exclusive := by
    constructor
    . intro w id hw
      simp [start, List.getElem?_replicate] at hw
    . intro id w w' hw
      simp [start, List.getElem?_replicate] at hw

variable {parse : CStr → Option Json} {sensors threads : Nat} {s s' : Process}

theorem guarded_step {a : Action} (h : Guarded s)
    (hstep : (processMachine parse sensors threads).step s a = some s')
    : Guarded s' := by
  cases taken_of_step hstep with
  | signal => exact ⟨⟨h.counted, h.alive⟩, h.exclusive⟩
  | @mainGet i hmain _ _ =>
    have hget := h.toCounted.rbSensorGet (i := i) (by simp [hmain])
    exact ⟨⟨hget.counted, hget.alive⟩, h.exclusive⟩
  | mainQueue hmain => exact ⟨h.toCounted.queueSensor hmain _, h.exclusive⟩
  | mainLeave hmain _ =>
    have hcount := h.counted
    simp only [references, hmain, MainState.holds_atSensor] at hcount
    exact ⟨⟨hcount, h.alive⟩, h.exclusive⟩
  | zkPopData _ _ => exact ⟨⟨h.counted, h.alive⟩, h.exclusive⟩
  | zkMove _ _ => exact ⟨⟨h.counted, h.alive⟩, h.exclusive⟩
  | zkAddError _ _ => exact ⟨⟨h.counted, h.alive⟩, h.exclusive⟩
  | zkAdd _ _ =>
    have hqueue := h.toCounted.queueJson
    exact ⟨⟨(hqueue _).counted, h.alive⟩, h.exclusive⟩
  | @pop w _ _ hw hqueue => exact ⟨h.toCounted.pop hw hqueue, h.exclusive.set w (by simp)⟩
  | @skip w _ hw _ _ =>
    exact ⟨h.toCounted.setWorker hw (by simp), h.exclusive.set w (by simp)⟩
  | @lock w id hw _ hlocked =>
    have hset : Counted (s.setWorker w (.processing id)) := h.toCounted.setWorker hw (by simp)
    exact ⟨⟨hset.counted, hset.alive⟩, h.exclusive.lock w hlocked⟩
  | fault _ _ => exact ⟨⟨h.counted, h.alive⟩, h.exclusive⟩
  | @unlock w id hw =>
    have hset : Counted (s.setWorker w (.putting id)) := h.toCounted.setWorker hw (by simp)
    exact ⟨⟨hset.counted, hset.alive⟩, h.exclusive.unlock hw⟩
  | @put w _ hw => exact ⟨h.toCounted.put hw, h.exclusive.set w (by simp)⟩
  | @dropSensor w _ hw _ => exact ⟨h.toCounted.drop hw, h.exclusive.set w (by simp)⟩
  | @dropJson w _ hw _ =>
    exact ⟨h.toCounted.setWorker hw (fun _ => rfl), h.exclusive.set w (by simp)⟩
  | @leave w hw _ => exact ⟨h.toCounted.setWorker hw (by simp), h.exclusive.set w (by simp)⟩

/-- In no state of any run is a sensor destroyed that is in the array of sensors, in the queue or
with a worker, or in `process_rb_sensor` of two workers. -/
theorem sensorsSafe (parse : CStr → Option Json) (sensors threads : Nat) (as : List Action)
    : (processMachine parse sensors threads).Always (SensorsSafe sensors) (start threads) as := by
  have hsafe (s : Process) (h : Guarded s) : SensorsSafe sensors s :=
    ⟨fun id _ => h.alive id, h.exclusive.alone⟩
  apply Machine.Always.imp hsafe
  apply Machine.always_of_inv
  . intro s a s' h hstep
    exact guarded_step h hstep
  . exact guarded_start threads

end Process

end RbMonitor
