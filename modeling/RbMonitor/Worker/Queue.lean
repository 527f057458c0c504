import RbMonitor.Worker.Lifetime

/-!
This module contains who owns the elements of the queue of the workers.
-/

namespace RbMonitor

namespace Process

/-- The queue holds sensors only, each with a reference of its own, and so do the workers. -/
structure QueueOwned (sensors : Nat) (s : Process) : Prop where
  queued : ∀ elm ∈ s.queue, ∃ id, elm = .sensor id ∧ id < sensors
  popped : ∀ elm, .popped elm ∈ s.workers → ∃ id, elm = .sensor id ∧ id < sensors
  counted : ∀ id, s.refcnt id = 1 + s.references id
  alive : ∀ id, s.freed id = false
  noFault : s.fault = false

structure Inv (sensors : Nat) (s : Process) : Prop extends QueueOwned sensors s where
  main_lt : ∀ i, s.main = .holding i → i < sensors

/-- What the step adds to the queue is no parsed JSON. -/
def QueuesNoJson (parse : CStr → Option Json) (s : Process) (a : Action) : Prop :=
  ∀ str laux, a = .zkAdd → s.fault = false → s.laux = str :: laux → parse str = none

theorem Inv.toCounted {sensors : Nat} {s : Process} (h : Inv sensors s) : Counted s :=
  ⟨h.counted, h.alive⟩

theorem inv_start (sensors threads : Nat) : Inv sensors (start threads) where
  queued := by simp [start]
  popped := by simp [start, List.mem_replicate]
  counted := (counted_start threads).counted
  alive := (counted_start threads).alive
  noFault := rfl
  main_lt := by simp [start]

theorem popped_of_set {sensors : Nat} {s : Process} (h : QueueOwned sensors s) {w : Nat}
    {state : WorkerState} (hstate : ∀ elm, state = .popped elm → ∃ id, elm = .sensor id ∧ id < sensors)
    {elm : QueueElm} (hmem : .popped elm ∈ s.workers.set w state)
    : ∃ id, elm = .sensor id ∧ id < sensors := by
  cases List.mem_or_eq_of_mem_set hmem with
  | inl hmem => exact h.popped elm hmem
  | inr heq => exact hstate elm heq.symm

section

variable {parse : CStr → Option Json} {sensors threads : Nat} {s s' : Process}

theorem Inv.setWorker (h : Inv sensors s) {w : Nat} {old state : WorkerState}
    (hw : s.workers[w]? = some old) (hpopped : ∀ elm, state ≠ .popped elm)
    (hholds : ∀ id, old.holds id = state.holds id)
    : Inv sensors (s.setWorker w state) where
  queued := h.queued
  popped _ := popped_of_set h.toQueueOwned fun elm heq => absurd heq (hpopped elm)
  counted := (h.toCounted.setWorker hw hholds).counted
  alive := h.alive
  noFault := h.noFault
  main_lt := h.main_lt

theorem Inv.rbSensorGet (h : Inv sensors s) {i : Nat} (hi : i < sensors)
    (hmain : ∀ j, s.main.holds j = false)
    : Inv sensors { s.rbSensorGet i with main := .holding i } where
  queued := h.queued
  popped := h.popped
  counted := (h.toCounted.rbSensorGet hmain).counted
  alive := h.alive
  noFault := h.noFault
  main_lt := by
    intro j hj
    cases hj
    exact hi

theorem Inv.queueSensor (h : Inv sensors s) {i : Nat} (hmain : s.main = .holding i) (next : Nat)
    : Inv sensors { s.queueSensor (.sensor i) with main := .atSensor next } where
  queued := by
    intro elm helm
    simp only [Process.queueSensor, List.mem_append, List.mem_singleton] at helm
    cases helm with
    | inl helm => exact h.queued elm helm
    | inr heq => exact ⟨i, heq, h.main_lt i hmain⟩
  popped := h.popped
  counted := (h.toCounted.queueSensor hmain next).counted
  alive := h.alive
  noFault := h.noFault
  main_lt := by
    intro j hj
    cases hj

theorem Inv.pop (h : Inv sensors s) {w : Nat} (hw : s.workers[w]? = some .idle) {elm : QueueElm}
    {queue : List QueueElm} (hqueue : s.queue = elm :: queue)
    : Inv sensors { s.setWorker w (.popped elm) with queue := queue } where
  queued := by
    intro e he
    apply h.queued
    rw [hqueue]
    exact List.mem_cons_of_mem elm he
  popped e := by
    apply popped_of_set h.toQueueOwned
    intro e heq
    cases heq
    apply h.queued
    rw [hqueue]
    exact List.mem_cons_self
  counted := (h.toCounted.pop hw hqueue).counted
  alive := h.alive
  noFault := h.noFault
  main_lt := h.main_lt

theorem Inv.put (h : Inv sensors s) {w id : Nat} (hw : s.workers[w]? = some (.putting id))
    : Inv sensors ((s.rbSensorPut id).setWorker w .idle) where
  queued := h.queued
  popped _ := popped_of_set h.toQueueOwned fun elm heq => by cases heq
  counted := (h.toCounted.put hw).counted
  alive := (h.toCounted.put hw).alive
  noFault := h.noFault
  main_lt := h.main_lt

theorem Inv.drop (h : Inv sensors s) {w id : Nat}
    (hw : s.workers[w]? = some (.popped (.sensor id)))
    : Inv sensors { s.setWorker w .ended with dropped := id :: s.dropped } where
  queued := h.queued
  popped _ := popped_of_set h.toQueueOwned fun elm heq => by cases heq
  counted := (h.toCounted.drop hw).counted
  alive := h.alive
  noFault := h.noFault
  main_lt := h.main_lt

theorem Inv.not_jsonObject (h : Inv sensors s) {w : Nat} {obj : Json}
    : s.workers[w]? ≠ some (.popped (.jsonObject obj)) := by
  intro hw
  rcases h.popped _ (List.mem_of_getElem? hw) with ⟨id, hid, _⟩
  cases hid

theorem inv_step {a : Action} (h : Inv sensors s) (hgood : QueuesNoJson parse s a)
    (hstep : (processMachine parse sensors threads).step s a = some s')
    : Inv sensors s' := by
  cases taken_of_step hstep with
  | signal => exact ⟨⟨h.queued, h.popped, h.counted, h.alive, h.noFault⟩, h.main_lt⟩
  | mainGet hmain _ hi =>
    apply h.rbSensorGet hi
    simp [hmain]
  | mainQueue hmain => exact h.queueSensor hmain _
  | mainLeave hmain _ =>
    have hcount := h.counted
    simp only [references, hmain, MainState.holds_atSensor] at hcount
    exact ⟨⟨h.queued, h.popped, hcount, h.alive, h.noFault⟩, by simp⟩
  | zkPopData _ _ => exact ⟨⟨h.queued, h.popped, h.counted, h.alive, h.noFault⟩, h.main_lt⟩
  | zkMove _ _ => exact ⟨⟨h.queued, h.popped, h.counted, h.alive, h.noFault⟩, h.main_lt⟩
  | zkAddError _ _ => exact ⟨⟨h.queued, h.popped, h.counted, h.alive, h.noFault⟩, h.main_lt⟩
  | @zkAdd str laux obj hlaux hparse =>
    rw [hgood str laux rfl h.noFault hlaux] at hparse
    cases hparse
  | pop hw hqueue => exact h.pop hw hqueue
  | skip hw _ _ =>
    apply h.setWorker hw
    . simp
    . simp
  | @lock w id hw _ _ =>
    have hset : Inv sensors (s.setWorker w (.processing id)) := by
      apply h.setWorker hw
      . simp
      . simp
    exact ⟨⟨hset.queued, hset.popped, hset.counted, hset.alive, hset.noFault⟩, hset.main_lt⟩
  | fault hw _ => exact absurd hw h.not_jsonObject
  | @unlock w id hw =>
    have hset : Inv sensors (s.setWorker w (.putting id)) := by
      apply h.setWorker hw
      . simp
      . simp
    exact ⟨⟨hset.queued, hset.popped, hset.counted, hset.alive, hset.noFault⟩, hset.main_lt⟩
  | put hw => exact h.put hw
  | dropSensor hw _ => exact h.drop hw
  | dropJson hw _ => exact absurd hw h.not_jsonObject
  | leave hw _ =>
    apply h.setWorker hw
    . simp
    . simp

theorem not_queueOwned_of_not_queuesNoJson {a : Action} (h : Inv sensors s)
    (hbad : ¬QueuesNoJson parse s a)
    : ∃ s', (processMachine parse sensors threads).step s a = some s' ∧ ¬QueueOwned sensors s' := by
  simp only [QueuesNoJson, not_forall] at hbad
  rcases hbad with ⟨str, laux, rfl, _, hlaux, hsome⟩
  rcases Option.ne_none_iff_exists'.mp hsome with ⟨obj, hobj⟩
  refine ⟨{ s.queueSensor (.jsonObject obj) with laux := laux }, ?_, ?_⟩
  . simp [processMachine, h.noFault, hlaux, rbMonitorZkAddSensorToMonitorQueue, hobj]
  . intro hleft
    have hmem : QueueElm.jsonObject obj ∈ s.queue ++ [.jsonObject obj] := by simp
    rcases hleft.queued _ hmem with ⟨id, heq, _⟩
    cases heq

end

/-- The queue owns a reference to each of its elements, which are all sensors, exactly as long as
nothing that was popped from ZooKeeper parses as JSON. -/
theorem queueOwned_iff (parse : CStr → Option Json) (sensors threads : Nat) (as : List Action)
    : (processMachine parse sensors threads).Always (QueueOwned sensors) (start threads) as ↔
      (processMachine parse sensors threads).AllSteps (QueuesNoJson parse) (start threads) as := by
  apply Machine.always_iff_allSteps (fun _ (h : Inv sensors _) => h.toQueueOwned)
  . intro s a s' h hgood hstep
    exact inv_step h hgood hstep
  . intro s a h hbad
    exact not_queueOwned_of_not_queuesNoJson h hbad
  . exact inv_start sensors threads

/-- An empty object that another process pushed to the queue of ZooKeeper is queued as a sensor. -/
theorem not_queueOwned_emptyObject
    : ¬∀ (parse : CStr → Option Json) (sensors threads : Nat) (as : List Action),
      (processMachine parse sensors threads).Always (QueueOwned sensors) (start threads) as := by
  intro h
  let parse (str : CStr) : Option Json :=
    if str = CString.ofBytes ['\x7b', '\x7d'] then some (.object []) else none
  have hrun := h parse 1 1 [.zkPopData 0 ['\x7b', '\x7d'], .zkMove, .zkAdd]
  have howned := hrun.last rfl
  rcases howned.queued (.jsonObject (.object [])) (List.mem_singleton.mpr rfl) with ⟨id, heq, _⟩
  cases heq

end Process

end RbMonitor
