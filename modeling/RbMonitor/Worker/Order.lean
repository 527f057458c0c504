import RbMonitor.Lib.Trace
import RbMonitor.Worker.Lifetime
import RbMonitor.Worker.Step

/-!
This module contains the order in which the queue of the workers is filled and emptied: the turns of
the sensors, what became of each of them, and the way of what is popped from ZooKeeper.
-/

namespace RbMonitor

def QueueElm.sensor? : QueueElm → Option Nat
  | .sensor id => some id
  | .jsonObject _ => none

def QueueElm.jsonObject? : QueueElm → Option Json
  | .sensor _ => none
  | .jsonObject obj => some obj

@[simp]
theorem QueueElm.sensor?_sensor (id : Nat) : sensor? (.sensor id) = some id := rfl

@[simp]
theorem QueueElm.sensor?_jsonObject (obj : Json) : sensor? (.jsonObject obj) = none := rfl

@[simp]
theorem QueueElm.jsonObject?_sensor (id : Nat) : jsonObject? (.sensor id) = none := rfl

@[simp]
theorem QueueElm.jsonObject?_jsonObject (obj : Json) : jsonObject? (.jsonObject obj) = some obj :=
  rfl

def WorkerState.hasPopped (id : Nat) : WorkerState → Bool
  | .popped elm => elm.isSensor id
  | _ => false

@[simp]
theorem WorkerState.hasPopped_popped_sensor (id j : Nat)
    : hasPopped id (.popped (.sensor j)) = decide (j = id) := rfl

@[simp]
theorem WorkerState.hasPopped_popped_jsonObject (id : Nat) (obj : Json)
    : hasPopped id (.popped (.jsonObject obj)) = false := rfl

@[simp]
theorem WorkerState.hasPopped_idle (id : Nat) : hasPopped id .idle = false := rfl

@[simp]
theorem WorkerState.hasPopped_processing (id j : Nat) : hasPopped id (.processing j) = false := rfl

@[simp]
theorem WorkerState.hasPopped_putting (id j : Nat) : hasPopped id (.putting j) = false := rfl

@[simp]
theorem WorkerState.hasPopped_ended (id : Nat) : hasPopped id .ended = false := rfl

def WorkerState.isProcessing (id : Nat) : WorkerState → Bool
  | .processing j => j = id
  | _ => false

@[simp]
theorem WorkerState.isProcessing_processing (id j : Nat)
    : isProcessing id (.processing j) = decide (j = id) := rfl

@[simp]
theorem WorkerState.isProcessing_idle (id : Nat) : isProcessing id .idle = false := rfl

@[simp]
theorem WorkerState.isProcessing_popped (id : Nat) (elm : QueueElm)
    : isProcessing id (.popped elm) = false := rfl

@[simp]
theorem WorkerState.isProcessing_putting (id j : Nat) : isProcessing id (.putting j) = false := rfl

@[simp]
theorem WorkerState.isProcessing_ended (id : Nat) : isProcessing id .ended = false := rfl

namespace Process

section

variable (parse : CStr → Option Json) (s : Process)

/-- What a step adds to the queue. -/
def queued : Action → List QueueElm
  | .mainQueue =>
    match s.main with
    | .holding i => [.sensor i]
    | _ => []
  | .zkAdd => (s.laux.head?.bind parse).toList.map .jsonObject
  | _ => []

/-- What a step hands to a worker. -/
def handed : Action → List QueueElm
  | .pop _ => s.queue.head?.toList
  | _ => []

/-- The sensor that a worker begins to process. -/
def started : Action → List Nat
  | .trylock w =>
    match s.workers[w]? with
    | some (.popped (.sensor id)) => if s.locked id then [] else [id]
    | _ => []
  | _ => []

/-- The sensor that a worker leaves alone because it is being processed. -/
def skipped : Action → List Nat
  | .trylock w =>
    match s.workers[w]? with
    | some (.popped (.sensor id)) => if s.locked id then [id] else []
    | _ => []
  | _ => []

/-- What `rb_zk_pop_data_cb` is given. -/
def received : Action → List CStr
  | .zkPopData _ value => [CString.ofBytes value]
  | _ => []

/-- The string that is parsed. -/
def parsed : Action → List CStr
  | .zkAdd => s.laux.head?.toList
  | _ => []

end

variable {parse : CStr → Option Json} {sensors threads : Nat} {s s' : Process} {a : Action}
  {as : List Action}

theorem queue_fifo (hstep : Taken parse sensors s a s')
    : s.queue ++ queued parse s a = handed s a ++ s'.queue := by
  cases hstep with
  | mainQueue hmain => simp [queued, handed, hmain, queueSensor]
  | zkAddError hlaux hparse => simp [queued, handed, hlaux, hparse]
  | zkAdd hlaux hparse => simp [queued, handed, hlaux, hparse, queueSensor]
  | pop hw hqueue => simp [queued, handed, hqueue]
  | _ => simp [queued, handed, setWorker, rbSensorGet, rbSensorPut, rbZkPopDataCb]

theorem trace_queued (hrun : (processMachine parse sensors threads).run as = some s)
    : (processMachine parse sensors threads).trace (queued parse) (start threads) as
      = (processMachine parse sensors threads).trace handed (start threads) as ++ s.queue := by
  have hfifo := Machine.trace_fifo Process.queue (queued parse) handed
    (fun s a s' hstep => queue_fifo (taken_of_step hstep)) hrun
  simpa [processMachine, start] using hfifo

/-! ### Turns -/

/-- The sensors queued so far took turns, and it is clear whose turn is next. -/
structure TakesTurns (sensors : Nat) (s : Process) (hist : List Nat) : Prop where
  turns : hist = turns sensors hist.length
  atSensor : ∀ i, s.main = .atSensor i → i = hist.length % sensors
  holding : ∀ i, s.main = .holding i → i = hist.length % sensors ∧ i < sensors

theorem takesTurns_start (sensors threads : Nat) : TakesTurns sensors (start threads) [] where
  turns := rfl
  atSensor := by simp [start]
  holding := by simp [start]

theorem TakesTurns.mono {hist : List Nat} (h : TakesTurns sensors s hist) (hmain : s'.main = s.main)
    : TakesTurns sensors s' hist where
  turns := h.turns
  atSensor i hi := h.atSensor i (hmain ▸ hi)
  holding i hi := h.holding i (hmain ▸ hi)

theorem takesTurns_step {hist : List Nat} (h : TakesTurns sensors s hist)
    (hstep : Taken parse sensors s a s')
    : TakesTurns sensors s' (hist ++ (queued parse s a).filterMap QueueElm.sensor?) := by
  cases hstep with
  | mainGet hmain hrun hi =>
    simp only [queued, List.filterMap_nil, List.append_nil]
    refine ⟨h.turns, by simp, ?_⟩
    intro j hj
    cases hj
    exact ⟨h.atSensor _ hmain, hi⟩
  | mainQueue hmain =>
    rcases h.holding _ hmain with ⟨hi, hlt⟩
    have hn : 0 < sensors := by omega
    simp only [queued, hmain, List.filterMap_cons, QueueElm.sensor?_sensor, List.filterMap_nil]
    refine ⟨?_, ?_, by simp⟩
    . rw [List.length_append, List.length_singleton, turns.succ, ← h.turns, hi]
    . intro j hj
      cases hj
      rw [List.length_append, List.length_singleton, turns.next hn, hi]
  | mainLeave hmain hrun =>
    simp only [queued, List.filterMap_nil, List.append_nil]
    exact ⟨h.turns, by simp, by simp⟩
  | zkAddError hlaux hparse =>
    apply TakesTurns.mono (s := s)
    . simpa [queued, hlaux, hparse] using h
    . rfl
  | zkAdd hlaux hparse =>
    apply TakesTurns.mono (s := s)
    . simpa [queued, hlaux, hparse, List.filterMap_cons] using h
    . rfl
  | _ =>
    simp only [queued, List.filterMap_nil, List.append_nil]
    exact h.mono rfl

/-- The sensors that the workers were handed so far took turns from the first to the last, so none
of them was handed out twice more than another. -/
theorem handed_takesTurns (hrun : (processMachine parse sensors threads).run as = some s)
    : let ids := ((processMachine parse sensors threads).trace handed (start threads) as).filterMap
        QueueElm.sensor?
      ids = turns sensors ids.length
        ∧ ∀ i j, i < sensors → j < sensors → ids.count i ≤ ids.count j + 1 := by
  intro ids
  have hturns := Machine.trace_inv (fun s a => (queued parse s a).filterMap QueueElm.sensor?)
    (TakesTurns sensors)
    (fun s a s' hist h hstep => takesTurns_step h (taken_of_step hstep))
    (takesTurns_start sensors threads) hrun
  have hqueued := hturns.turns
  rw [List.nil_append, Machine.trace_filterMap, trace_queued hrun, List.filterMap_append] at hqueued
  have hprefix : ids <+: turns sensors _ := ⟨_, hqueued⟩
  have hids := turns.eq_of_prefix hprefix
  refine ⟨hids, ?_⟩
  intro i j hi hj
  rw [hids]
  exact turns.count_le hi hj ids.length

theorem handed_takesTurns_two
    : [0, 1] = turns 2 2 ∧ ∀ i j, i < 2 → j < 2 → [0, 1].count i ≤ [0, 1].count j + 1 :=
  @handed_takesTurns (fun _ => none) 2 2 _
    [.mainGet, .mainQueue, .pop 1, .mainGet, .mainQueue, .mainGet, .mainQueue, .pop 0] rfl

/-! ### What became of a sensor -/

/-- The sensors that a worker was handed and has not begun with, or never will. -/
def undecided (id : Nat) (s : Process) : Nat :=
  s.workers.countP (·.hasPopped id) + s.dropped.count id

theorem count_cons_toNat (id j : Nat) (l : List Nat)
    : (j :: l).count id = (decide (j = id)).toNat + l.count id := by
  rw [List.count_cons]
  by_cases h : j = id <;> simp [h, Nat.add_comm]

theorem undecided_step (id : Nat) (hstep : Taken parse sensors s a s')
    : undecided id s + ((handed s a).filterMap QueueElm.sensor?).count id
      = (started s a ++ skipped s a).count id + undecided id s' := by
  have hset {w : Nat} {old : WorkerState} (hw : s.workers[w]? = some old) (new : WorkerState) :=
    countP_set_add (·.hasPopped id) hw new
  cases hstep with
  | @pop w elm queue hw hqueue =>
    have hpop := hset hw (.popped elm)
    cases elm with
    | sensor j =>
      simp [handed, hqueue, started, skipped, undecided, setWorker, count_cons_toNat] at hpop ⊢
      omega
    | jsonObject obj =>
      simp [handed, hqueue, started, skipped, undecided, setWorker, List.filterMap_cons] at hpop ⊢
      omega
  | @skip w j hw hrun hlocked =>
    have hskip := hset hw (.putting j)
    simp [handed, started, skipped, hw, hlocked, undecided, setWorker, count_cons_toNat] at hskip ⊢
    omega
  | @lock w j hw hrun hlocked =>
    have hlock := hset hw (.processing j)
    simp [handed, started, skipped, hw, hlocked, undecided, setWorker, count_cons_toNat] at hlock ⊢
    omega
  | fault hw hrun => simp [handed, started, skipped, hw, undecided]
  | @unlock w j hw =>
    have hunlock := hset hw (.putting j)
    simp [handed, started, skipped, undecided, setWorker] at hunlock ⊢
    omega
  | @put w j hw =>
    have hput := hset hw .idle
    simp [handed, started, skipped, undecided, setWorker, rbSensorPut] at hput ⊢
    omega
  | @dropSensor w j hw hrun =>
    have hdrop := hset hw .ended
    simp [handed, started, skipped, undecided, setWorker, count_cons_toNat] at hdrop ⊢
    omega
  | dropJson hw hrun =>
    have hdrop := hset hw .ended
    simp [handed, started, skipped, undecided, setWorker] at hdrop ⊢
    omega
  | leave hw hrun =>
    have hleave := hset hw .ended
    simp [handed, started, skipped, undecided, setWorker] at hleave ⊢
    omega
  | _ => simp [handed, started, skipped, undecided, queueSensor, rbSensorGet, rbZkPopDataCb]

/-- The lock of a sensor is held by the one worker that is in `process_rb_sensor` with it. -/
def LockHeld (s : Process) : Prop :=
  ∀ id, s.workers.countP (·.isProcessing id) = (s.locked id).toNat

theorem lockHeld_start (threads : Nat) : LockHeld (start threads) := by
  intro id
  simp [start, List.countP_replicate]

theorem lockHeld_step (h : LockHeld s) (hstep : Taken parse sensors s a s') : LockHeld s' := by
  intro id
  have hid := h id
  have hset {w : Nat} {old : WorkerState} (hw : s.workers[w]? = some old) (new : WorkerState) :=
    countP_set_add (·.isProcessing id) hw new
  cases hstep with
  | @pop w elm queue hw hqueue =>
    have hpop := hset hw (.popped elm)
    simp [setWorker] at hpop ⊢
    omega
  | @skip w j hw hrun hlocked =>
    have hskip := hset hw (.putting j)
    simp [setWorker] at hskip ⊢
    omega
  | @lock w j hw hrun hlocked =>
    have hlock := hset hw (.processing j)
    by_cases hj : j = id
    . subst hj
      rw [hlocked, Bool.toNat_false] at hid
      simp [setWorker] at hlock ⊢
      omega
    . simp [setWorker, Function.update_of_ne (Ne.symm hj), hj] at hlock ⊢
      omega
  | @unlock w j hw =>
    have hunlock := hset hw (.putting j)
    by_cases hj : j = id
    . subst hj
      have hle := Bool.toNat_le (s.locked j)
      simp only [setWorker, Function.update_self, Bool.toNat_false]
      simp at hunlock
      omega
    . simp [setWorker, Function.update_of_ne (Ne.symm hj), hj] at hunlock ⊢
      omega
  | put hw =>
    have hput := hset hw .idle
    simp [setWorker, rbSensorPut] at hput ⊢
    omega
  | dropSensor hw hrun =>
    have hdrop := hset hw .ended
    simp [setWorker] at hdrop ⊢
    omega
  | dropJson hw hrun =>
    have hdrop := hset hw .ended
    simp [setWorker] at hdrop ⊢
    omega
  | leave hw hrun =>
    have hleave := hset hw .ended
    simp [setWorker] at hleave ⊢
    omega
  | _ => exact hid

/-- A worker leaves a sensor alone only while another one is processing it. -/
def SkipsBusy (s : Process) (a : Action) : Prop :=
  ∀ id ∈ skipped s a, ∃ w : Nat, s.workers[w]? = some (.processing id)

theorem skipsBusy_of_lockHeld (h : LockHeld s) (a : Action) : SkipsBusy s a := by
  intro id hid
  have hlocked : s.locked id = true := by
    unfold skipped at hid
    split at hid
    . split at hid
      . next j _ =>
        split at hid
        . next hlocked =>
          rw [List.mem_singleton.mp hid]
          exact hlocked
        . cases hid
      . cases hid
    . cases hid
  have hpos : 0 < s.workers.countP (·.isProcessing id) := by
    rw [h id, hlocked]
    exact Nat.one_pos
  rcases List.countP_pos_iff.mp hpos with ⟨worker, hmem, hworker⟩
  cases worker with
  | processing j =>
    rw [← of_decide_eq_true hworker]
    exact List.mem_iff_getElem?.mp hmem
  | idle | popped _ | putting _ | ended => cases hworker

/-- Every sensor that the workers were handed is processed once, or left alone while another worker
is processing it, or still with its worker, or was dropped after the signal. -/
theorem handed_accounted (hrun : (processMachine parse sensors threads).run as = some s)
    : (∀ id,
        (((processMachine parse sensors threads).trace handed (start threads) as).filterMap
          QueueElm.sensor?).count id
          = ((processMachine parse sensors threads).trace started (start threads) as).count id
            + ((processMachine parse sensors threads).trace skipped (start threads) as).count id
            + s.workers.countP (·.hasPopped id) + s.dropped.count id)
      ∧ (processMachine parse sensors threads).AllSteps SkipsBusy (start threads) as := by
  constructor
  . intro id
    have hcount := Machine.trace_count (undecided id)
      (fun s a => (handed s a).filterMap QueueElm.sensor?)
      (fun s a => started s a ++ skipped s a)
      (fun s a s' hstep => undecided_step id (taken_of_step hstep)) hrun
    rw [Machine.trace_filterMap, Machine.count_trace_append] at hcount
    have hstart : undecided id (processMachine parse sensors threads).init = 0 := by
      simp [processMachine, undecided, start, List.countP_replicate]
    rw [hstart, Nat.zero_add] at hcount
    rw [Nat.add_assoc]
    exact hcount
  . apply Machine.allSteps_of_inv LockHeld
    . intro s a s' h hstep
      exact lockHeld_step h (taken_of_step hstep)
    . intro s a h
      exact skipsBusy_of_lockHeld h a
    . exact lockHeld_start threads

/-- Two workers take the same sensor. -/
def skippingRun : List Action :=
  [.mainGet, .mainQueue, .mainGet, .mainQueue, .pop 0, .pop 1, .trylock 1, .trylock 0]

theorem handed_accounted_skippingRun
    : (∀ id, [0, 0].count id = [0].count id + [0].count id
          + [WorkerState.putting 0, .processing 0].countP (·.hasPopped id) + [].count id)
      ∧ (processMachine (fun _ => none) 1 2).AllSteps SkipsBusy (start 2) skippingRun :=
  @handed_accounted (fun _ => none) 1 2 _ skippingRun rfl

/-! ### What is popped from ZooKeeper -/

theorem strings_fifo (hstep : Taken parse sensors s a s')
    : (s.laux ++ s.popSensorsList) ++ received a
      = parsed s a ++ (s'.laux ++ s'.popSensorsList) := by
  cases hstep with
  | zkPopData rc value => simp [received, parsed, rbZkPopDataCb]
  | zkMove hcalls hlaux => simp [received, parsed, hlaux]
  | zkAddError hlaux hparse => simp [received, parsed, hlaux]
  | zkAdd hlaux hparse => simp [received, parsed, hlaux, queueSensor]
  | _ => simp [received, parsed, setWorker, rbSensorGet, rbSensorPut, queueSensor]

theorem queued_jsonObject (hstep : Taken parse sensors s a s')
    : (queued parse s a).filterMap QueueElm.jsonObject? = (parsed s a).filterMap parse := by
  cases hstep with
  | mainQueue hmain => simp [queued, parsed, hmain]
  | zkAddError hlaux hparse => simp [queued, parsed, hlaux, hparse]
  | zkAdd hlaux hparse => simp [queued, parsed, hlaux, hparse]
  | _ => simp [queued, parsed]

theorem trace_jsonObject (parse : CStr → Option Json) (sensors threads : Nat) (as : List Action)
    : ((processMachine parse sensors threads).trace (queued parse) (start threads) as).filterMap
        QueueElm.jsonObject?
      = ((processMachine parse sensors threads).trace parsed (start threads) as).filterMap parse := by
  rw [← Machine.trace_filterMap, ← Machine.trace_filterMap]
  apply Machine.trace_congr
  intro s a s' hstep
  exact queued_jsonObject (taken_of_step hstep)

theorem called_step (h : s.popSensorsList ≠ [] → 0 < s.calls) (hstep : Taken parse sensors s a s')
    : s'.popSensorsList ≠ [] → 0 < s'.calls := by
  cases hstep with
  | zkPopData rc value =>
    intro _
    exact Nat.succ_pos s.calls
  | zkMove hcalls hlaux => simp
  | _ => exact h

/-- A parser that knows one text. -/
def parseTrue (str : CStr) : Option Json :=
  if str = "true".toList then some (.boolean true) else none

end Process

end RbMonitor
