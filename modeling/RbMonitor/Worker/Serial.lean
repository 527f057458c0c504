import RbMonitor.Lib.Serial
import RbMonitor.Sensor.Total
import RbMonitor.Worker.Concurrent
import RbMonitor.Worker.Shutdown

/-!
This module contains that the passes of a sensor are made one after the other, in whatever order the
steps of the workers come.
-/

namespace RbMonitor

section

variable {lib : Matheval} (rdDne : Binary64 → Binary64 → Bool) (sensor : Sensor lib)

/-- The pass of a sensor as a section under its lock. -/
def passSection
    : LockedSection (List (Option MonitorValue)) (List (Option MonitorValue)) PassInput MonitorLog
        Fault where
  enter lastVals _ := (newIteration sensor lastVals).currentIteration
  length input := passLength sensor input
  step input st i :=
    (processMonitor rdDne sensor input { lastKnown := st.1, currentIteration := st.2 } i).map
      fun r => ((r.1.lastKnown, r.1.currentIteration), r.2)

theorem runLog_passSection (input : PassInput) (lastVals : List (Option MonitorValue))
    (is : List Nat)
    : runLog ((passSection rdDne sensor).step input)
          (lastVals, (newIteration sensor lastVals).currentIteration) is
        =
      (runLog (processMonitor rdDne sensor input) (newIteration sensor lastVals) is).map
        fun r => ((r.1.lastKnown, r.1.currentIteration), r.2) :=
  runLog_hom (fun st : PassState => (st.lastKnown, st.currentIteration)) (fun _ _ => rfl)
    (newIteration sensor lastVals) is

theorem whole_passSection
    : (passSection rdDne sensor).whole = processMonitorsArray rdDne sensor := by
  funext lastVals input
  have hsteps := runLog_passSection rdDne sensor input lastVals
    (List.range (passLength sensor input))
  unfold LockedSection.whole
  simp only [passSection] at hsteps ⊢
  rw [hsteps]
  unfold processMonitorsArray passLength
  cases haok : sensor.peername.isSome && sensor.community.isSome && input.session with
  | false => rfl
  | true =>
    simp only [if_true, Bool.not_true, Bool.false_eq_true, if_false]
    cases runLog (processMonitor rdDne sensor input) (newIteration sensor lastVals)
        (List.range sensor.monitors.length) with
    | error e => rfl
    | ok r => rfl

end

/-! ### What the workers share -/

namespace Workers

open Process

/-- The workers with an iteration are those with the lock of a sensor. -/
structure Iterating (s : Workers) : Prop where
  guarded : Guarded s.process
  processing : ∀ w it, s.iterations w = some it →
    s.process.workers[w]? = some (.processing it.id)
  iterating : ∀ w id : Nat, s.process.workers[w]? = some (.processing id) →
    ∃ it, s.iterations w = some it

/-- The values of one sensor with what was done for it, and the pass that is being made. -/
abbrev PassView : Type :=
  LockedSection.State (List (Option MonitorValue)) (List (Option MonitorValue)) PassInput MonitorLog

/-- What one sensor sees of the workers. -/
structure Views (id : Nat) (s : Workers) (v : PassView) : Prop where
  mem : v.mem = s.lastVals id
  out : v.out = (s.logs.filter fun log => log.1 = id).map Prod.snd
  outside : v.inside = none → s.process.locked id = false
  inside : ∀ input current next, v.inside = some (input, current, next) →
    ∃ w, s.iterations w = some { id, input, currentIteration := current, next }

/-- The pass that a step begins for the sensor. -/
def begun (id : Nat) (s : Workers) : PassAction → List PassInput
  | .trylock w input => if id ∈ started s.process (.trylock w) then [input] else []
  | _ => []

section

variable {s s' : Workers} {id w w' : Nat} {it it' : Iteration}
  {v : PassView}

theorem Iterating.locked (h : Iterating s) (hw : s.iterations w = some it)
    : s.process.locked it.id = true :=
  h.guarded.exclusive.locked w it.id (h.processing w it hw)

theorem Iterating.alone (h : Iterating s) (hw : s.iterations w = some it)
    (hw' : s.iterations w' = some it') (hid : it.id = it'.id)
    : w = w' := by
  apply h.guarded.exclusive.alone it.id
  . exact h.processing w it hw
  . rw [hid]
    exact h.processing w' it' hw'

theorem Views.inside_eq (h : Iterating s) (hv : Views it.id s v) (hw : s.iterations w = some it)
    : v.inside = some (it.input, it.currentIteration, it.next) := by
  cases hinside : v.inside with
  | none =>
    have hlocked := h.locked hw
    rw [hv.outside hinside] at hlocked
    cases hlocked
  | some inside =>
    rcases inside with ⟨input, current, next⟩
    rcases hv.inside input current next hinside with ⟨w', hw'⟩
    have heq := h.alone hw hw' rfl
    rw [heq, hw', Option.some.injEq] at hw
    rw [← hw]

theorem Views.outside_of_free (h : Iterating s) (hv : Views id s v)
    (hfree : s.process.locked id = false)
    : v.inside = none := by
  cases hinside : v.inside with
  | none => rfl
  | some inside =>
    rcases inside with ⟨input, current, next⟩
    rcases hv.inside input current next hinside with ⟨w', hw'⟩
    have hlocked := h.locked hw'
    simp only [hfree] at hlocked
    cases hlocked

theorem Views.process (hv : Views id s v) {process : Process}
    (hlocked : process.locked id = s.process.locked id)
    : Views id { s with process } v where
  mem := hv.mem
  out := hv.out
  outside hinside := hlocked.trans (hv.outside hinside)
  inside := hv.inside

theorem Views.setIteration (hv : Views id s v)
    (hother : ∀ it, s.iterations w = some it → it.id ≠ id) (new : Option Iteration)
    : Views id (s.setIteration w new) v where
  mem := hv.mem
  out := hv.out
  outside := hv.outside
  inside input current next hinside := by
    rcases hv.inside input current next hinside with ⟨w', hw'⟩
    have hne : w' ≠ w := by
      intro heq
      exact hother _ (heq ▸ hw') rfl
    exact ⟨w', by rw [setIteration_iterations_of_ne s hne, hw']⟩

theorem Iterating.process (h : Iterating s) {process : Process} (hguarded : Guarded process)
    (hsame : ∀ w id : Nat, process.workers[w]? = some (.processing id) ↔
      s.process.workers[w]? = some (.processing id))
    : Iterating { s with process } where
  guarded := hguarded
  processing w it hw := (hsame w it.id).mpr (h.processing w it hw)
  iterating w id hw := h.iterating w id ((hsame w id).mp hw)

theorem Iterating.setIteration (h : Iterating s) {process : Process} (hguarded : Guarded process)
    (hother : ∀ w' id : Nat, w' ≠ w → (process.workers[w']? = some (.processing id) ↔
      s.process.workers[w']? = some (.processing id)))
    {new : Option Iteration}
    (hself : ∀ id, process.workers[w]? = some (.processing id) ↔ ∃ it, new = some it ∧ it.id = id)
    : Iterating ({ s with process }.setIteration w new) where
  guarded := hguarded
  processing w' it hw' := by
    by_cases heq : w' = w
    . subst heq
      rw [setIteration_iterations_self] at hw'
      exact (hself it.id).mpr ⟨it, hw', rfl⟩
    . rw [setIteration_iterations_of_ne _ heq] at hw'
      exact (hother w' it.id heq).mpr (h.processing w' it hw')
  iterating w' id hw' := by
    by_cases heq : w' = w
    . subst heq
      rcases (hself id).mp hw' with ⟨it, hit, _⟩
      exact ⟨it, by rw [setIteration_iterations_self, hit]⟩
    . rw [setIteration_iterations_of_ne _ heq]
      exact h.iterating w' id ((hother w' id heq).mp hw')

end

/-! ### One step -/

section

theorem getElem?_set_processing {workers : List WorkerState} {w : Nat} {old new : WorkerState}
    (hw : workers[w]? = some old) (hold : ∀ j, old ≠ .processing j) (hnew : ∀ j, new ≠ .processing j)
    (v id : Nat)
    : (workers.set w new)[v]? = some (.processing id) ↔ workers[v]? = some (.processing id) := by
  by_cases heq : w = v
  . subst heq
    rw [List.getElem?_set_self (List.getElem?_eq_some_iff.mp hw).1, hw]
    simp [hold, hnew]
  . rw [List.getElem?_set_ne heq]

theorem processing_of_taken {parse : CStr → Option Json} {count : Nat} {p p' : Process} {a : Action}
    (hstep : Taken parse count p a p') (htrylock : ∀ w, a ≠ .trylock w) (hunlock : ∀ w, a ≠ .unlock w)
    : p'.locked = p.locked
      ∧ ∀ w id : Nat, p'.workers[w]? = some (.processing id) ↔
        p.workers[w]? = some (.processing id) := by
  cases hstep with
  | pop hw hqueue => exact ⟨rfl, getElem?_set_processing hw (by simp) (by simp)⟩
  | @skip w id hw hrun hlocked => exact absurd rfl (htrylock w)
  | @lock w id hw hrun hlocked => exact absurd rfl (htrylock w)
  | @fault w obj hw hrun => exact absurd rfl (htrylock w)
  | @unlock w id hw => exact absurd rfl (hunlock w)
  | put hw => exact ⟨rfl, getElem?_set_processing hw (by simp) (by simp)⟩
  | dropSensor hw hrun => exact ⟨rfl, getElem?_set_processing hw (by simp) (by simp)⟩
  | dropJson hw hrun => exact ⟨rfl, getElem?_set_processing hw (by simp) (by simp)⟩
  | leave hw hrun => exact ⟨rfl, getElem?_set_processing hw (by simp) (by simp)⟩
  | _ => exact ⟨rfl, fun _ _ => .rfl⟩

variable {lib : Matheval} {parse : CStr → Option Json} {rdDne : Binary64 → Binary64 → Bool}
  {sensors : Nat → Sensor lib} {count threads : Nat} {s s' : Workers} {a : PassAction} {id : Nat}

/-- The passes of the sensor that were begun are serial. -/
def PassesSerial (rdDne : Binary64 → Binary64 → Bool) (sensors : Nat → Sensor lib) (id : Nat)
    (s : Workers) (inputs : List PassInput) : Prop :=
  Iterating s ∧ ∃ v, Views id s v
    ∧ (passSection rdDne (sensors id)).Serial
        (List.replicate (sensors id).monitors.length none) v inputs

theorem passesSerial_start (id : Nat)
    : PassesSerial rdDne sensors id (Workers.start sensors threads) [] := by
  refine ⟨⟨guarded_start threads, ?_, ?_⟩, _, ?_, .outside (runLog_nil _)⟩
  . intro w it hw
    cases hw
  . intro w id hw
    simp [Workers.start, Process.start, List.getElem?_replicate] at hw
  . refine ⟨rfl, rfl, fun _ => rfl, ?_⟩
    intro input current next heq
    cases heq

theorem passesSerial_process {inputs : List PassInput} (h : PassesSerial rdDne sensors id s inputs)
    {a : Action} {process : Process}
    (hstep : (processMachine parse count threads).step s.process a = some process)
    (htrylock : ∀ w, a ≠ .trylock w) (hunlock : ∀ w, a ≠ .unlock w)
    : PassesSerial rdDne sensors id { s with process } inputs := by
  rcases h with ⟨hiter, v, hviews, hserial⟩
  rcases processing_of_taken (taken_of_step hstep) htrylock hunlock with ⟨hlocked, hprocessing⟩
  exact ⟨hiter.process (guarded_step hiter.guarded hstep) hprocessing, v,
    hviews.process (by rw [hlocked]), hserial⟩

theorem passesSerial_monitor {inputs : List PassInput} (h : PassesSerial rdDne sensors id s inputs)
    {w : Nat} {it : Iteration} (hw : s.iterations w = some it)
    (hnext : it.next < passLength (sensors it.id) it.input)
    (hstep : s.monitor rdDne sensors w it = some s')
    : PassesSerial rdDne sensors id s' inputs := by
  rcases h with ⟨hiter, v, hviews, hserial⟩
  unfold Workers.monitor at hstep
  split at hstep
  . cases hstep
  . next st log hmonitor =>
    cases hstep
    have hiter' : Iterating (s.setIteration w (some { it with
        currentIteration := st.currentIteration
        next := it.next + 1 })) := by
      apply hiter.setIteration hiter.guarded
      . intro w' j _
        rfl
      . intro j
        simp [hiter.processing w it hw]
    refine ⟨⟨hiter'.guarded, hiter'.processing, hiter'.iterating⟩, ?_⟩
    by_cases hid : it.id = id
    . subst hid
      have hinside := hviews.inside_eq hiter hw
      let v' : PassView := { v with
        mem := st.lastKnown
        out := v.out ++ [log]
        inside := some (it.input, st.currentIteration, it.next + 1) }
      have hadvance : (passSection rdDne (sensors it.id)).advance v .step = some v' := by
        rw [← hviews.mem] at hmonitor
        simp [LockedSection.advance, hinside, passSection, hnext, hmonitor, Except.map, v']
      have hserial' := hserial.advance hadvance
      simp only [LockedSection.Event.entered, Option.toList_none, List.append_nil] at hserial'
      refine ⟨v', ⟨?_, ?_, ?_, ?_⟩, hserial'⟩
      . rw [store_lastVals_self]
      . simp [v', hviews.out, Workers.store, Workers.setIteration]
      . intro hnone
        cases hnone
      . intro input current next heq
        cases heq
        exact ⟨w, setIteration_iterations_self s w _⟩
    . have hother : Views id (s.setIteration w (some { it with
          currentIteration := st.currentIteration
          next := it.next + 1 })) v := by
        apply hviews.setIteration
        intro it' hw'
        rw [hw, Option.some.injEq] at hw'
        rw [← hw']
        exact hid
      refine ⟨v, ⟨?_, ?_, hother.outside, hother.inside⟩, hserial⟩
      . rw [hviews.mem, store_lastVals_of_ne _ (Ne.symm hid)]
        rfl
      . simp [hviews.out, Workers.store, Workers.setIteration, hid]

theorem passesSerial_unlock {inputs : List PassInput} (h : PassesSerial rdDne sensors id s inputs)
    {w : Nat} {it : Iteration} (hw : s.iterations w = some it)
    (hnext : it.next = passLength (sensors it.id) it.input) {process : Process}
    (hstep : (processMachine parse count threads).step s.process (.unlock w) = some process)
    : PassesSerial rdDne sensors id ({ s with process }.setIteration w none) inputs := by
  rcases h with ⟨hiter, v, hviews, hserial⟩
  have hguarded := guarded_step hiter.guarded hstep
  have hprocessing := hiter.processing w it hw
  have htaken := taken_of_step hstep
  cases htaken with
  | @unlock _ j hj =>
    rw [hprocessing, Option.some.injEq, WorkerState.processing.injEq] at hj
    subst hj
    constructor
    . apply hiter.setIteration hguarded
      . intro w' j heq
        simp [setWorker, List.getElem?_set_ne (Ne.symm heq)]
      . intro j
        simp [setWorker, (List.getElem?_eq_some_iff.mp hprocessing).1]
    . by_cases hid : it.id = id
      . subst hid
        have hinside := hviews.inside_eq hiter hw
        let v' : PassView := { v with inside := none }
        have hadvance : (passSection rdDne (sensors it.id)).advance v .leave = some v' := by
          simp [LockedSection.advance, hinside, passSection, hnext, v']
        have hserial' := hserial.advance hadvance
        simp only [LockedSection.Event.entered, Option.toList_none, List.append_nil] at hserial'
        refine ⟨v', ⟨hviews.mem, hviews.out, ?_, ?_⟩, hserial'⟩
        . intro _
          simp [Workers.setIteration]
        . intro input current next heq
          cases heq
      . have hother : Views id (s.setIteration w none) v := by
          apply hviews.setIteration
          intro it' hw'
          rw [hw, Option.some.injEq] at hw'
          rw [← hw']
          exact hid
        exact ⟨v, hother.process (Function.update_of_ne (Ne.symm hid) _ _), hserial⟩

theorem passesSerial_trylock {inputs : List PassInput} (h : PassesSerial rdDne sensors id s inputs)
    {w : Nat} {input : PassInput} {process : Process}
    (hstep : (processMachine parse count threads).step s.process (.trylock w) = some process)
    : PassesSerial rdDne sensors id ({ s with process }.trylock sensors w input)
        (inputs ++ begun id s (.trylock w input)) := by
  rcases h with ⟨hiter, v, hviews, hserial⟩
  have hguarded := guarded_step hiter.guarded hstep
  have hlt {state : WorkerState} (hw : s.process.workers[w]? = some state)
      : w < s.process.workers.length :=
    (List.getElem?_eq_some_iff.mp hw).1
  have htaken := taken_of_step hstep
  cases htaken with
  | @skip _ j hw hrun hlocked =>
    have hbegun : begun id s (.trylock w input) = [] := by
      simp [begun, started, hw, hlocked]
    have hset : (s.process.setWorker w (.putting j)).workers[w]? = some (.putting j) :=
      List.getElem?_set_self (hlt hw)
    unfold Workers.trylock
    simp only [hset, hbegun, List.append_nil]
    refine ⟨hiter.process hguarded ?_, v, hviews.process rfl, hserial⟩
    exact getElem?_set_processing hw (by simp) (by simp)
  | @fault _ obj hw hrun =>
    have hbegun : begun id s (.trylock w input) = [] := by
      simp [begun, started, hw]
    unfold Workers.trylock
    simp only [hw, hbegun, List.append_nil]
    exact ⟨hiter.process hguarded fun _ _ => .rfl, v, hviews.process rfl, hserial⟩
  | @lock _ j hw hrun hlocked =>
    have hset : (s.process.setWorker w (.processing j)).workers[w]? = some (.processing j) :=
      List.getElem?_set_self (hlt hw)
    have hnone : ∀ it, s.iterations w ≠ some it := by
      intro it hit
      have hprocessing := hiter.processing w it hit
      rw [hw] at hprocessing
      cases hprocessing
    unfold Workers.trylock
    simp only [hset]
    constructor
    . apply hiter.setIteration hguarded
      . intro w' i heq
        simp [setWorker, List.getElem?_set_ne (Ne.symm heq)]
      . intro i
        simp [hset]
    . by_cases hid : j = id
      . subst hid
        have hbegun : begun j s (.trylock w input) = [input] := by
          simp [begun, started, hw, hlocked]
        have hinside := hviews.outside_of_free hiter hlocked
        let v' : PassView := { v with
          inside := some (input, (newIteration (sensors j) v.mem).currentIteration, 0) }
        have hadvance : (passSection rdDne (sensors j)).advance v (.enter input) = some v' := by
          simp [LockedSection.advance, hinside, passSection, v']
        have hserial' := hserial.advance hadvance
        refine ⟨v', ⟨hviews.mem, hviews.out, ?_, ?_⟩, hbegun ▸ hserial'⟩
        . intro hnone
          cases hnone
        . intro input' current next heq
          cases heq
          refine ⟨w, ?_⟩
          rw [hviews.mem]
          exact setIteration_iterations_self _ w _
      . have hbegun : begun id s (.trylock w input) = [] := by
          simp [begun, started, hw, hlocked, Ne.symm hid]
        rw [hbegun, List.append_nil]
        have hprocess : Views id { s with process := { s.process.setWorker w (.processing j) with
            locked := Function.update s.process.locked j true } } v :=
          hviews.process (Function.update_of_ne (Ne.symm hid) _ _)
        refine ⟨v, hprocess.setIteration ?_ _, hserial⟩
        intro it hit
        exact absurd hit (hnone it)

theorem passesSerial_step {inputs : List PassInput} (h : PassesSerial rdDne sensors id s inputs)
    (hstep : (workersMachine parse rdDne sensors count threads).step s a = some s')
    : PassesSerial rdDne sensors id s' (inputs ++ begun id s a) := by
  cases a with
  | process a =>
    have hbegun : begun id s (.process a) = [] := rfl
    rw [hbegun, List.append_nil]
    simp only [workersMachine] at hstep
    split at hstep
    . cases hstep
    . cases hstep
    . next htrylock hunlock =>
      rcases Option.map_eq_some_iff.mp hstep with ⟨process, hprocess, rfl⟩
      exact passesSerial_process h hprocess htrylock hunlock
  | trylock w input =>
    rcases Option.map_eq_some_iff.mp hstep with ⟨process, hprocess, rfl⟩
    exact passesSerial_trylock h hprocess
  | monitor w =>
    have hbegun : begun id s (.monitor w) = [] := rfl
    rw [hbegun, List.append_nil]
    simp only [workersMachine] at hstep
    split at hstep
    . next it _ hw =>
      split at hstep
      . next hnext => exact passesSerial_monitor h hw hnext hstep
      . cases hstep
    . cases hstep
  | unlock w =>
    have hbegun : begun id s (.unlock w) = [] := rfl
    rw [hbegun, List.append_nil]
    simp only [workersMachine] at hstep
    split at hstep
    . cases hstep
    . next it hw =>
      split at hstep
      . next hnext =>
        rcases Option.map_eq_some_iff.mp hstep with ⟨process, hprocess, rfl⟩
        exact passesSerial_unlock h hw hnext hprocess
      . cases hstep

theorem passesSerial_run {as : List PassAction}
    (hrun : (workersMachine parse rdDne sensors count threads).run as = some s) (id : Nat)
    : PassesSerial rdDne sensors id s
        ((workersMachine parse rdDne sensors count threads).trace (begun id)
          (Workers.start sensors threads) as) := by
  have hserial := Machine.trace_inv (begun id) (PassesSerial rdDne sensors id)
    (fun s a s' hist h hstep => passesSerial_step h hstep) (passesSerial_start id) hrun
  exact hserial

theorem serial_of_free {as : List PassAction}
    (hrun : (workersMachine parse rdDne sensors count threads).run as = some s)
    (hfree : s.process.locked id = false)
    : ∃ logs, processRbSensor rdDne (sensors id)
          ((workersMachine parse rdDne sensors count threads).trace (begun id)
            (Workers.start sensors threads) as) = .ok (s.lastVals id, logs)
        ∧ ((s.logs.filter fun log => log.1 = id).map Prod.snd) = logs.flatten := by
  rcases passesSerial_run hrun id with ⟨hiter, v, hviews, hserial⟩
  have hinside := hviews.outside_of_free hiter hfree
  generalize (workersMachine parse rdDne sensors count threads).trace (begun id)
    (Workers.start sensors threads) as = inputs at hserial ⊢
  cases hserial with
  | outside hwhole =>
    rw [whole_passSection] at hwhole
    refine ⟨_, ?_, hviews.out.symm⟩
    rw [← hviews.mem]
    exact hwhole
  | inside hwhole hn hrun => cases hinside

theorem tagsKept_of_inside {v : PassView} {inputs : List PassInput} {input : PassInput}
    {current : List (Option MonitorValue)} {n : Nat}
    (h : (passSection rdDne (sensors id)).Serial
      (List.replicate (sensors id).monitors.length none) v inputs)
    (hinside : v.inside = some (input, current, n))
    : n ≤ passLength (sensors id) input ∧ v.mem = current ∧ TagsKept (sensors id) current := by
  rcases h.exists_of_inside hinside with ⟨hn, values, before, logs, os, hwhole, hsteps⟩
  rw [whole_passSection] at hwhole
  have htags := tagsKept_of_processRbSensor hwhole
  have hrun : runLog (processMonitor rdDne (sensors id) input) ⟨values, values⟩ (List.range n)
      = .ok (⟨v.mem, current⟩, os) := by
    have henter : (passSection rdDne (sensors id)).enter values input =
        (newIteration (sensors id) values).currentIteration := rfl
    rw [henter, runLog_passSection, newIteration_eq htags.length] at hsteps
    cases hrun : runLog (processMonitor rdDne (sensors id) input) ⟨values, values⟩
        (List.range n) with
    | error e =>
      rw [hrun] at hsteps
      cases hsteps
    | ok r =>
      rw [hrun] at hsteps
      simp only [Except.map, Except.ok.injEq, Prod.mk.injEq] at hsteps
      rcases hsteps with ⟨⟨hmem, hcurrent⟩, hos⟩
      rw [← hmem, ← hcurrent, ← hos]
  rcases (runLog_processMonitor_eq_ok htags.length).mp hrun with ⟨values', hupdates, heq⟩
  rw [PassState.mk.injEq] at heq
  rw [heq.1, heq.2]
  exact ⟨hn, rfl, htags.of_runLog_updateMonitor hupdates⟩

/-- Where a worker is in a pass, the monitor that comes next ends: its response has not to be split
at the empty token, and its result fits. -/
def NextEnds (sensor : Sensor lib) (it : Iteration) : Prop :=
  it.next < passLength sensor it.input → ∀ monitor, sensor.monitors[it.next]? = some monitor →
    (monitor.type ≠ .op → monitor.splittok ≠ some []) ∧ OpFits sensor it.currentIteration monitor

/-- A worker of a process without fault can go on in its pass, to the end of it, exactly if the
monitor that comes next ends. -/
theorem passes_goOn {as : List PassAction}
    (hrun : (workersMachine parse rdDne sensors count threads).run as = some s)
    (hfault : s.process.fault = false) {w : Nat}
    (hw : s.process.workers[w]? = some (.processing id))
    : ∃ it, s.iterations w = some it ∧
        (((workersMachine parse rdDne sensors count threads).step s (.monitor w)).isSome
            ∨ ((workersMachine parse rdDne sensors count threads).step s (.unlock w)).isSome
          ↔
        NextEnds (sensors id) it) := by
  rcases passesSerial_run hrun id with ⟨hiter, v, hviews, hserial⟩
  rcases hiter.iterating w id hw with ⟨it, hit⟩
  have hid : it.id = id := by
    have hprocessing := hiter.processing w it hit
    rw [hw] at hprocessing
    cases hprocessing
    rfl
  subst hid
  refine ⟨it, hit, ?_⟩
  rcases tagsKept_of_inside hserial (hviews.inside_eq hiter hit) with ⟨hle, hmem, htags⟩
  rw [hviews.mem] at hmem
  rcases Nat.lt_or_ge it.next (passLength (sensors it.id) it.input) with hnext | hge
  . have hlt : it.next < (sensors it.id).monitors.length := by
      unfold passLength at hnext
      split at hnext
      . exact hnext
      . cases hnext
    have hm := List.getElem?_eq_getElem hlt
    have hends : NextEnds (sensors it.id) it
        ↔ ∃ r, updateMonitor rdDne (sensors it.id) it.input it.currentIteration it.next = .ok r := by
      rw [exists_updateMonitor_iff it.input htags hm]
      constructor
      . intro hnextEnds
        exact hnextEnds hnext _ hm
      . intro hconds _ monitor hmonitor
        rw [hm, Option.some.injEq] at hmonitor
        exact hmonitor ▸ hconds
    rw [hends]
    simp only [workersMachine, hfault, hit, hnext, Nat.ne_of_lt hnext, if_true, if_false,
      Workers.monitor, hmem, processMonitor_eq htags.length hlt, Option.isSome_none,
      Bool.false_eq_true, or_false]
    cases updateMonitor rdDne (sensors it.id) it.input it.currentIteration it.next with
    | error e => simp [Except.map]
    | ok r => simp [Except.map]
  . have hlast : it.next = passLength (sensors it.id) it.input := Nat.le_antisymm hle hge
    have hunlock : ((workersMachine parse rdDne sensors count threads).step s (.unlock w)).isSome := by
      simp [workersMachine, hit, hlast, processMachine, hfault, hw]
    constructor
    . intro _ hlt
      omega
    . intro _
      exact .inr hunlock

theorem process_step (hstep : (workersMachine parse rdDne sensors count threads).step s a = some s')
    : (processMachine parse count threads).runFrom s.process a.erase.toList = some s'.process := by
  cases a with
  | process a =>
    simp only [workersMachine] at hstep
    split at hstep
    . cases hstep
    . cases hstep
    . rcases Option.map_eq_some_iff.mp hstep with ⟨process, hprocess, rfl⟩
      simpa [PassAction.erase, Machine.runFrom] using hprocess
  | trylock w input =>
    rcases Option.map_eq_some_iff.mp hstep with ⟨process, hprocess, rfl⟩
    have hsame : ({ s with process }.trylock sensors w input).process = process := by
      unfold Workers.trylock
      split <;> rfl
    rw [hsame]
    simpa [PassAction.erase, Machine.runFrom] using hprocess
  | monitor w =>
    simp only [workersMachine] at hstep
    split at hstep
    . split at hstep
      . unfold Workers.monitor at hstep
        split at hstep
        . cases hstep
        . cases hstep
          rfl
      . cases hstep
    . cases hstep
  | unlock w =>
    simp only [workersMachine] at hstep
    split at hstep
    . cases hstep
    . split at hstep
      . rcases Option.map_eq_some_iff.mp hstep with ⟨process, hprocess, rfl⟩
        simpa [PassAction.erase, Machine.runFrom, Workers.setIteration] using hprocess
      . cases hstep

theorem process_run {as : List PassAction}
    (hrun : (workersMachine parse rdDne sensors count threads).run as = some s)
    : (processMachine parse count threads).run (as.filterMap PassAction.erase) = some s.process :=
  Machine.runFrom_filterMap Workers.process PassAction.erase
    (fun _ _ _ hstep => process_step hstep) hrun

/-- In whatever order the steps of the workers come: while no worker has the lock of a sensor, and
after the threads were joined, its last known values and what was done for it are those of its passes
made one after the other, in the order in which the lock was got. -/
theorem passes_serial {as : List PassAction}
    (hrun : (workersMachine parse rdDne sensors count threads).run as = some s)
    (hfree : s.process.locked id = false ∨ Joinable s.process)
    : ∃ logs, processRbSensor rdDne (sensors id)
          ((workersMachine parse rdDne sensors count threads).trace (begun id)
            (Workers.start sensors threads) as) = .ok (s.lastVals id, logs)
        ∧ ((s.logs.filter fun log => log.1 = id).map Prod.snd) = logs.flatten := by
  cases hfree with
  | inl hfree => exact serial_of_free hrun hfree
  | inr hjoinable =>
    rcases reached (process_run hrun) with ⟨hguarded, hlock, _⟩
    exact serial_of_free hrun (hjoinable.released hlock hguarded id).1

end

/-! ### A run of two workers -/

/-- A sensor with one monitor that reads an OID. -/
def uptimeSensor : Sensor .sums where
  peername := some "10.0.0.1".toList
  community := some "public".toList
  monitors := [{ type := .oid, name := "uptime".toList, cmdArg := "1.3.6.1.2.1.1.3.0".toList }]

/-- A pass in which the agent answers with a number. -/
def uptimeInput : PassInput where
  session := true
  response _ := { popen := none, snmp := .integer 7, now := 1700000000 }

/-- The second worker leaves the sensor alone while the first one processes it. -/
def uptimeRun : List PassAction :=
  [.process .mainGet, .process .mainQueue, .process .mainGet, .process .mainQueue, .process (.pop 0),
    .process (.pop 1), .trylock 0 uptimeInput, .trylock 1 uptimeInput, .monitor 0, .unlock 0]

theorem passes_serial_uptimeRun
    : ∃ s, (workersMachine (fun _ => none) (fun _ _ => true) (fun _ => uptimeSensor) 1 2).run uptimeRun
          = some s
        ∧ ∃ logs, processRbSensor (fun _ _ => true) uptimeSensor [uptimeInput]
            = .ok (s.lastVals 0, logs)
          ∧ ((s.logs.filter fun log => log.1 = 0).map Prod.snd) = logs.flatten :=
  ⟨_, rfl, @passes_serial _ _ (fun _ _ => true) (fun _ => uptimeSensor) 1 2 _ 0 uptimeRun rfl
    (.inl rfl)⟩

theorem passes_goOn_uptimeRun
    : ∃ s, (workersMachine (fun _ => none) (fun _ _ => true) (fun _ => uptimeSensor) 1 2).run
          (uptimeRun.take 8) = some s
        ∧ ∃ it, s.iterations 0 = some it ∧
          (((workersMachine (fun _ => none) (fun _ _ => true) (fun _ => uptimeSensor) 1 2).step s
                (.monitor 0)).isSome
              ∨ ((workersMachine (fun _ => none) (fun _ _ => true) (fun _ => uptimeSensor) 1 2).step
                s (.unlock 0)).isSome
            ↔
          NextEnds uptimeSensor it) := by
  exact ⟨_, rfl, @passes_goOn _ _ (fun _ _ => true) (fun _ => uptimeSensor) 1 2 _ 0
    (uptimeRun.take 8) rfl rfl 0 rfl⟩

end Workers

end RbMonitor
