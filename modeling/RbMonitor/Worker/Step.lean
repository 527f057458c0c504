import RbMonitor.Worker.Impl

/-!
This module contains the steps of the process one by one: what each may do and when.
-/

namespace RbMonitor

namespace Process

/-- `Taken parse sensors s a s'` if the step `a` takes the process from `s` to `s'`. -/
inductive Taken (parse : CStr → Option Json) (sensors : Nat) (s : Process)
    : Action → Process → Prop
  | signal : Taken parse sensors s .signal { s with run := false }
  | mainGet {i : Nat} (hmain : s.main = .atSensor i) (hrun : s.run = true) (hi : i < sensors)
    : Taken parse sensors s .mainGet { s.rbSensorGet i with main := .holding i }
  | mainQueue {i : Nat} (hmain : s.main = .holding i)
    : Taken parse sensors s .mainQueue
        { s.queueSensor (.sensor i) with
          main := .atSensor (if i + 1 < sensors then i + 1 else 0) }
  | mainLeave {i : Nat} (hmain : s.main = .atSensor i) (hrun : s.run = false)
    : Taken parse sensors s .mainLeave { s with main := .leaving }
  | zkPopData (rc : Int) (value : List Char)
    : Taken parse sensors s (.zkPopData rc value) (s.rbZkPopDataCb value)
  | zkMove (hcalls : s.calls ≠ 0) (hlaux : s.laux = [])
    : Taken parse sensors s .zkMove
        { s with laux := s.popSensorsList, popSensorsList := [], calls := s.calls - 1 }
  | zkAddError {str : CStr} {laux : List CStr} (hlaux : s.laux = str :: laux)
      (hparse : parse str = none)
    : Taken parse sensors s .zkAdd { s with laux := laux }
  | zkAdd {str : CStr} {laux : List CStr} {obj : Json} (hlaux : s.laux = str :: laux)
      (hparse : parse str = some obj)
    : Taken parse sensors s .zkAdd { s.queueSensor (.jsonObject obj) with laux := laux }
  | pop {w : Nat} {elm : QueueElm} {queue : List QueueElm} (hw : s.workers[w]? = some .idle)
      (hqueue : s.queue = elm :: queue)
    : Taken parse sensors s (.pop w) { s.setWorker w (.popped elm) with queue := queue }
  | skip {w id : Nat} (hw : s.workers[w]? = some (.popped (.sensor id))) (hrun : s.run = true)
      (hlocked : s.locked id = true)
    : Taken parse sensors s (.trylock w) (s.setWorker w (.putting id))
  | lock {w id : Nat} (hw : s.workers[w]? = some (.popped (.sensor id))) (hrun : s.run = true)
      (hlocked : s.locked id = false)
    : Taken parse sensors s (.trylock w)
        { s.setWorker w (.processing id) with locked := Function.update s.locked id true }
  | fault {w : Nat} {obj : Json} (hw : s.workers[w]? = some (.popped (.jsonObject obj)))
      (hrun : s.run = true)
    : Taken parse sensors s (.trylock w) { s with fault := true }
  | unlock {w id : Nat} (hw : s.workers[w]? = some (.processing id))
    : Taken parse sensors s (.unlock w)
        { s.setWorker w (.putting id) with locked := Function.update s.locked id false }
  | put {w id : Nat} (hw : s.workers[w]? = some (.putting id))
    : Taken parse sensors s (.put w) ((s.rbSensorPut id).setWorker w .idle)
  | dropSensor {w id : Nat} (hw : s.workers[w]? = some (.popped (.sensor id)))
      (hrun : s.run = false)
    : Taken parse sensors s (.drop w)
        { s.setWorker w .ended with dropped := id :: s.dropped }
  | dropJson {w : Nat} {obj : Json} (hw : s.workers[w]? = some (.popped (.jsonObject obj)))
      (hrun : s.run = false)
    : Taken parse sensors s (.drop w) (s.setWorker w .ended)
  | leave {w : Nat} (hw : s.workers[w]? = some .idle) (hrun : s.run = false)
    : Taken parse sensors s (.leave w) (s.setWorker w .ended)

variable {parse : CStr → Option Json} {sensors threads : Nat} {s s' : Process} {a : Action}

theorem fault_of_step (hstep : (processMachine parse sensors threads).step s a = some s')
    : s.fault = false := by
  simp only [processMachine, Option.ite_none_left_eq_some, Bool.not_eq_true] at hstep
  exact hstep.1

theorem taken_of_step (hstep : (processMachine parse sensors threads).step s a = some s')
    : Taken parse sensors s a s' := by
  simp only [processMachine, Option.ite_none_left_eq_some] at hstep
  rcases hstep with ⟨-, hstep⟩
  cases a with
  | signal =>
    cases hstep
    exact .signal
  | mainGet =>
    cases hmain : s.main with
    | atSensor i =>
      simp only [hmain, Option.ite_none_right_eq_some, Bool.and_eq_true, decide_eq_true_eq] at hstep
      rcases hstep with ⟨⟨hrun, hi⟩, hs'⟩
      cases hs'
      exact .mainGet hmain hrun hi
    | holding i => simp [hmain] at hstep
    | leaving => simp [hmain] at hstep
  | mainQueue =>
    cases hmain : s.main with
    | atSensor i => simp [hmain] at hstep
    | holding i =>
      simp only [hmain, Option.some.injEq] at hstep
      cases hstep
      exact .mainQueue hmain
    | leaving => simp [hmain] at hstep
  | mainLeave =>
    cases hmain : s.main with
    | atSensor i =>
      simp only [hmain, Option.ite_none_left_eq_some, Bool.not_eq_true] at hstep
      rcases hstep with ⟨hrun, hs'⟩
      cases hs'
      exact .mainLeave hmain hrun
    | holding i => simp [hmain] at hstep
    | leaving => simp [hmain] at hstep
  | zkPopData rc value =>
    cases hstep
    exact .zkPopData rc value
  | zkMove =>
    simp only [Option.ite_none_left_eq_some, not_or, not_not] at hstep
    rcases hstep with ⟨⟨hcalls, hlaux⟩, hs'⟩
    cases hs'
    exact .zkMove hcalls hlaux
  | zkAdd =>
    cases hlaux : s.laux with
    | nil => simp [hlaux] at hstep
    | cons str laux =>
      simp only [hlaux, rbMonitorZkAddSensorToMonitorQueue, Option.some.injEq] at hstep
      cases hstep
      cases hparse : parse str with
      | none => exact .zkAddError hlaux hparse
      | some obj => exact .zkAdd hlaux hparse
  | pop w =>
    simp only at hstep
    split at hstep
    . next elm queue hw hqueue =>
      cases hstep
      exact .pop hw hqueue
    . cases hstep
  | trylock w =>
    simp only at hstep
    split at hstep
    . next elm hw =>
      simp only [Option.ite_none_right_eq_some] at hstep
      rcases hstep with ⟨hrun, hs'⟩
      cases hs'
      cases elm with
      | jsonObject obj => exact .fault hw hrun
      | sensor id =>
        cases hlocked : s.locked id with
        | true =>
          simp only [workerProcessSensor, hlocked, ↓reduceIte]
          exact .skip hw hrun hlocked
        | false =>
          simp only [workerProcessSensor, hlocked, Bool.false_eq_true, ↓reduceIte]
          exact .lock hw hrun hlocked
    . cases hstep
  | unlock w =>
    simp only at hstep
    split at hstep
    . next id hw =>
      cases hstep
      exact .unlock hw
    . cases hstep
  | put w =>
    simp only at hstep
    split at hstep
    . next id hw =>
      cases hstep
      exact .put hw
    . cases hstep
  | drop w =>
    simp only at hstep
    split at hstep
    . next elm hw =>
      simp only [Option.ite_none_left_eq_some, Bool.not_eq_true] at hstep
      rcases hstep with ⟨hrun, hs'⟩
      cases hs'
      cases elm with
      | sensor id => exact .dropSensor hw hrun
      | jsonObject obj => exact .dropJson hw hrun
    . cases hstep
  | leave w =>
    simp only at hstep
    split at hstep
    . next hw =>
      simp only [Option.ite_none_left_eq_some, Bool.not_eq_true] at hstep
      rcases hstep with ⟨hrun, hs'⟩
      cases hs'
      exact .leave hw hrun
    . cases hstep

end Process

end RbMonitor
