import Mathlib.Logic.Function.Basic
import RbMonitor.Lib.Machine
import RbMonitor.Lib.Serial
import RbMonitor.Sensor.Heap

/-!
This module contains the SNMP sessions of the workers: they are opened with a session that all the
workers write to, under one mutex.
-/

namespace RbMonitor

/-- What is written in a `struct snmp_session`. -/
structure SnmpSession where
  peername : Option CStr := none
  community : Option CStr := none
  communityLen : Nat := 0
  timeout : Int := 0
  version : Option SnmpVersion := none
  flags : Nat := 0
  localPort : Nat := 0
  remotePort : Nat := 0

/-- `struct monitor_snmp_new_session_config`. -/
structure MonitorSnmpNewSessionConfig where
  community : Option CStr := none
  timeout : Int := 0
  flags : Nat := 0
  version : Option SnmpVersion := none

/-- `struct snmp_params_s`, of which the flags are not used. -/
structure SnmpParams where
  peername : Option CStr
  community : Option CStr
  timeout : Int
  version : Option SnmpVersion

def SnmpParams.aok (params : SnmpParams) : Bool :=
  params.peername.isSome && params.community.isSome

def HeapSensor.snmpParams (sensor : HeapSensor) : SnmpParams where
  peername := sensor.peername
  community := sensor.community
  timeout := sensor.timeout
  version := sensor.version

/-- A session to open, and whether `snmp_sess_open` does. -/
structure SessionInput where
  params : SnmpParams
  opens : Bool

/-- What a worker has of its own while it opens a session. -/
structure NewSession where
  config : MonitorSnmpNewSessionConfig := {}
  sessp : Option SnmpSession := none

def NewSession.updateSession (new : NewSession) (f : SnmpSession → SnmpSession) : NewSession :=
  { new with sessp := new.sessp.map f }

/-- The statements between `pthread_mutex_lock` and `pthread_mutex_unlock`, those of
`new_snmp_session` with them. `default_session` is shared. -/
def newSnmpSession (snmpSessOpen : SnmpSession → SnmpSession) (input : SessionInput)
    (defaultSession : SnmpSession) (new : NewSession) : Nat → SnmpSession × NewSession
  | 0 => ({ defaultSession with peername := input.params.peername }, new)
  | 1 =>
    (defaultSession, { new with config := {
      community := input.params.community
      timeout := input.params.timeout
      flags := defaultSession.flags
      version := input.params.version } })
  | 2 => ({ defaultSession with localPort := 0 }, new)
  | 3 => ({ defaultSession with remotePort := 0 }, new)
  | 4 => ({ defaultSession with timeout := new.config.timeout }, new)
  | 5 => ({ defaultSession with community := new.config.community }, new)
  | 6 => ({ defaultSession with version := new.config.version }, new)
  | 7 =>
    (defaultSession,
      { new with sessp := if input.opens then some (snmpSessOpen defaultSession) else none })
  -- what was opened is the worker's own
  | 8 => (defaultSession, new.updateSession ({ · with community := new.config.community }))
  | 9 =>
    (defaultSession, new.updateSession
      ({ · with communityLen := (new.config.community.getD []).length }))
  | 10 => (defaultSession, new.updateSession ({ · with timeout := new.config.timeout }))
  | 11 => (defaultSession, new.updateSession ({ · with flags := new.config.flags }))
  | 12 => (defaultSession, new.updateSession ({ · with version := new.config.version }))
  | _ => (defaultSession, new)

def newSnmpSessionLength : Nat := 13

/-- Where a worker is in `process_monitors_array`. -/
inductive SessionStage where
  | idle
  | begun (params : SnmpParams)
  -- with the mutex, about to take its next statement
  | inside (input : SessionInput) (new : NewSession) (next : Nat)
  | opened (params : SnmpParams) (sessp : Option SnmpSession)

structure Sessions where
  defaultSession : SnmpSession
  -- who has `snmp_session_mutex`
  mutex : Option Nat
  stages : Nat → SessionStage

inductive SessionAction where
  | begin (w : Nat) (sensor : HeapSensor)
  -- the sensor has no peername or no community
  | skip (w : Nat)
  | lock (w : Nat) (opens : Bool)
  | statement (w : Nat)
  | unlock (w : Nat)
  | finish (w : Nat)

def Sessions.setStage (s : Sessions) (w : Nat) (stage : SessionStage) : Sessions :=
  { s with stages := Function.update s.stages w stage }

/-- The steps of the workers. -/
def sessionsMachine (snmpSessOpen : SnmpSession → SnmpSession) (defaultSession : SnmpSession)
    : Machine Sessions SessionAction where
  init := { defaultSession, mutex := none, stages := fun _ => .idle }
  step s a :=
    match a with
    | .begin w sensor =>
      match s.stages w with
      | .idle => some (s.setStage w (.begun sensor.snmpParams))
      | _ => none
    | .skip w =>
      match s.stages w with
      | .begun params => if params.aok then none else some (s.setStage w (.opened params none))
      | _ => none
    | .lock w opens =>
      match s.stages w with
      | .begun params =>
        if params.aok && s.mutex.isNone then
          some { s.setStage w (.inside { params, opens } {} 0) with mutex := some w }
        else
          none
      | _ => none
    | .statement w =>
      match s.stages w with
      | .inside input new next =>
        if next < newSnmpSessionLength then
          let (defaultSession, new) :=
            newSnmpSession snmpSessOpen input s.defaultSession new next
          some { s.setStage w (.inside input new (next + 1)) with defaultSession }
        else
          none
      | _ => none
    | .unlock w =>
      match s.stages w with
      | .inside input new next =>
        if next = newSnmpSessionLength then
          some { s.setStage w (.opened input.params new.sessp) with mutex := none }
        else
          none
      | _ => none
    | .finish w =>
      match s.stages w with
      | .opened _ _ => some (s.setStage w .idle)
      | _ => none

/-! ### One session at a time -/

/-- `snmp_sess_open` copies the session that it is given. -/
structure OpensCopy (snmpSessOpen : SnmpSession → SnmpSession) : Prop where
  peername : ∀ session, (snmpSessOpen session).peername = session.peername
  localPort : ∀ session, (snmpSessOpen session).localPort = session.localPort
  remotePort : ∀ session, (snmpSessOpen session).remotePort = session.remotePort

/-- The session that the parameters ask for. -/
def SnmpParams.session (params : SnmpParams) (flags : Nat) : SnmpSession where
  peername := params.peername
  community := params.community
  communityLen := (params.community.getD []).length
  timeout := params.timeout
  version := params.version
  flags

/-- The section under `snmp_session_mutex`. -/
def sessionSection (snmpSessOpen : SnmpSession → SnmpSession)
    : LockedSection SnmpSession NewSession SessionInput Unit Empty where
  enter _ _ := {}
  length _ := newSnmpSessionLength
  step input st n := .ok (newSnmpSession snmpSessOpen input st.1 st.2 n, ())

section

variable {snmpSessOpen : SnmpSession → SnmpSession} {input : SessionInput} {new new' : NewSession}
  {session session' : SnmpSession}

theorem flags_newSnmpSession (n : Nat)
    : (newSnmpSession snmpSessOpen input session new n).1.flags = session.flags := by
  unfold newSnmpSession
  split <;> rfl

theorem flags_runLog {os : List Unit} {ns : List Nat}
    (hrun : runLog ((sessionSection snmpSessOpen).step input) (session, new) ns
      = .ok ((session', new'), os))
    : session'.flags = session.flags := by
  apply runLog_invariant (fun st : SnmpSession × NewSession => st.1.flags = session.flags) _ hrun rfl
  intro st n st' o hflags hstep
  cases hstep
  rw [flags_newSnmpSession, hflags]

theorem flags_whole {logs : List (List Unit)} {inputs : List SessionInput}
    (hwhole : runLog (sessionSection snmpSessOpen).whole session inputs = .ok (session', logs))
    : session'.flags = session.flags := by
  apply runLog_invariant (fun s : SnmpSession => s.flags = session.flags) _ hwhole rfl
  intro s input s' o hflags hstep
  unfold LockedSection.whole at hstep
  split at hstep
  . cases hstep
  . next hrun =>
    cases hstep
    rw [flags_runLog hrun, hflags]

theorem sessp_runLog (hopen : OpensCopy snmpSessOpen) {os : List Unit}
    (hrun : runLog ((sessionSection snmpSessOpen).step input) (session, {})
      (List.range newSnmpSessionLength) = .ok ((session', new), os))
    : new.sessp = if input.opens then some (input.params.session session.flags) else none := by
  cases hrun
  cases hopens : input.opens with
  | false => simp [newSnmpSession, NewSession.updateSession, hopens]
  | true =>
    simp [newSnmpSession, NewSession.updateSession, hopens, SnmpParams.session, hopen.peername,
      hopen.localPort, hopen.remotePort]

theorem sessp_of_serial (hopen : OpensCopy snmpSessOpen)
    {st : LockedSection.State SnmpSession NewSession SessionInput Unit} {inputs : List SessionInput}
    (h : (sessionSection snmpSessOpen).Serial session st inputs)
    (hinside : st.inside = some (input, new, newSnmpSessionLength))
    : new.sessp = if input.opens then some (input.params.session session.flags) else none := by
  cases h with
  | outside hwhole => cases hinside
  | inside hwhole hn hrun =>
    cases hinside
    rw [sessp_runLog hopen hrun, flags_whole hwhole]

end

/-! ### All the workers -/

def SessionStage.inside? : SessionStage → Option (SessionInput × NewSession × Nat)
  | .inside input new next => some (input, new, next)
  | _ => none

namespace Sessions

def inside? (s : Sessions) (w : Nat) : Option (SessionInput × NewSession × Nat) :=
  (s.stages w).inside?

/-- The one with the mutex is the one in the section, and what it does there is done by it alone. -/
structure Inv (snmpSessOpen : SnmpSession → SnmpSession) (defaultSession : SnmpSession)
    (s : Sessions) : Prop where
  holder : ∀ w, s.mutex = some w ↔ (s.inside? w).isSome
  serial : ∃ out inputs, (sessionSection snmpSessOpen).Serial defaultSession
    { mem := s.defaultSession, out, inside := s.mutex.bind s.inside? } inputs
  aok : ∀ w input new next, s.inside? w = some (input, new, next) → input.params.aok
  own : ∀ w params session, s.stages w = .opened params (some session) →
    session = params.session defaultSession.flags

section

variable {snmpSessOpen : SnmpSession → SnmpSession} {defaultSession : SnmpSession}
  {s s' : Sessions} {w : Nat} {stage : SessionStage}

@[simp]
theorem stages_setStage_self : (s.setStage w stage).stages w = stage := by
  simp [setStage]

theorem stages_setStage_of_ne {w' : Nat} (h : w' ≠ w)
    : (s.setStage w stage).stages w' = s.stages w' := by
  simp [setStage, Function.update_of_ne h]

theorem inv_init (snmpSessOpen : SnmpSession → SnmpSession) (defaultSession : SnmpSession)
    : Inv snmpSessOpen defaultSession (sessionsMachine snmpSessOpen defaultSession).init := by
  constructor
  . intro w
    simp [sessionsMachine, inside?, SessionStage.inside?]
  . exact ⟨_, _, .outside (runLog_nil _)⟩
  . intro w input new next hinside
    cases hinside
  . intro w params session hstage
    cases hstage

theorem Inv.setStage (h : s.Inv snmpSessOpen defaultSession) (hold : s.inside? w = none)
    (hnew : stage.inside? = none) (hopened : ∀ params session, stage ≠ .opened params (some session))
    : (s.setStage w stage).Inv snmpSessOpen defaultSession := by
  have hinside : (s.setStage w stage).inside? = s.inside? := by
    funext w'
    by_cases heq : w' = w
    . subst heq
      rw [hold, inside?, stages_setStage_self, hnew]
    . rw [inside?, stages_setStage_of_ne heq, inside?]
  constructor
  . intro w'
    rw [hinside]
    exact h.holder w'
  . rw [hinside]
    exact h.serial
  . rw [hinside]
    exact h.aok
  . intro w' params session hstage
    by_cases heq : w' = w
    . subst heq
      rw [stages_setStage_self] at hstage
      exact absurd hstage (hopened params session)
    . rw [stages_setStage_of_ne heq] at hstage
      exact h.own w' params session hstage

theorem Inv.take (h : s.Inv snmpSessOpen defaultSession) (stage : SessionStage)
    (session : SnmpSession) {mutex : Option Nat} (halone : ∀ w', w' ≠ w → s.inside? w' = none)
    (hmutex : mutex = if stage.inside?.isSome then some w else none)
    (hserial : ∃ out inputs, (sessionSection snmpSessOpen).Serial defaultSession
      { mem := session, out, inside := stage.inside? } inputs)
    (haok : ∀ input new next, stage.inside? = some (input, new, next) → input.params.aok)
    (hown : ∀ params session, stage = .opened params (some session) →
      session = params.session defaultSession.flags)
    : Inv snmpSessOpen defaultSession
        { defaultSession := session, mutex, stages := Function.update s.stages w stage } := by
  have hinside : ∀ w', inside?
      { defaultSession := session, mutex, stages := Function.update s.stages w stage } w'
      = if w' = w then stage.inside? else none := by
    intro w'
    split
    . next heq => simp [heq, inside?]
    . next hne =>
      rw [← halone w' hne]
      simp [inside?, Function.update_of_ne hne]
  constructor
  . intro w'
    rw [hinside, hmutex]
    by_cases heq : w' = w
    . cases stage.inside? <;> simp [heq]
    . cases stage.inside? <;> simp [heq, Ne.symm heq]
  . rcases hserial with ⟨out, inputs, hserial⟩
    refine ⟨out, inputs, ?_⟩
    have heq : (mutex.bind (inside?
        { defaultSession := session, mutex, stages := Function.update s.stages w stage }))
        = stage.inside? := by
      cases hstage : stage.inside? with
      | none =>
        rw [hmutex, hstage]
        rfl
      | some inside =>
        rw [hmutex, hstage, Option.isSome_some, if_pos rfl, Option.bind_some, ← hstage]
        simp [inside?]
    rw [heq]
    exact hserial
  . intro w' input new next heq
    rw [hinside] at heq
    split at heq
    . exact haok input new next heq
    . cases heq
  . intro w' params session' hstage
    by_cases heq : w' = w
    . subst heq
      exact hown params session' (by simpa using hstage)
    . exact h.own w' params session' (by simpa [Function.update_of_ne heq] using hstage)

theorem Inv.alone (h : s.Inv snmpSessOpen defaultSession) (hmutex : ∀ w', s.mutex = some w' → w' = w)
    : ∀ w', w' ≠ w → s.inside? w' = none := by
  intro w' hne
  cases hinside : s.inside? w' with
  | none => rfl
  | some inside => exact absurd (hmutex w' ((h.holder w').mpr (by simp [hinside]))) hne

theorem inv_step (hopen : OpensCopy snmpSessOpen) {s : Sessions} {a : SessionAction} {s' : Sessions}
    (h : s.Inv snmpSessOpen defaultSession)
    (hstep : (sessionsMachine snmpSessOpen defaultSession).step s a = some s')
    : s'.Inv snmpSessOpen defaultSession := by
  rcases h.serial with ⟨out, inputs, hserial⟩
  cases a with
  | begin w sensor =>
    simp only [sessionsMachine] at hstep
    split at hstep
    . next hidle =>
      cases hstep
      exact h.setStage (by rw [inside?, hidle]; rfl) rfl (by simp)
    . cases hstep
  | skip w =>
    simp only [sessionsMachine] at hstep
    split at hstep
    . next params hbegun =>
      split at hstep
      . cases hstep
      . cases hstep
        exact h.setStage (by rw [inside?, hbegun]; rfl) rfl (by simp)
    . cases hstep
  | lock w opens =>
    simp only [sessionsMachine] at hstep
    split at hstep
    . next params hbegun =>
      split at hstep
      . next hlock =>
        cases hstep
        rw [Bool.and_eq_true, Option.isNone_iff_eq_none] at hlock
        rw [hlock.2] at hserial
        have hentered := hserial.advance (e := .enter { params, opens }) rfl
        apply h.take (.inside { params, opens } {} 0) _ (h.alone (by simp [hlock.2])) rfl
          ⟨_, _, hentered⟩
        . intro input new next heq
          cases heq
          exact hlock.1
        . intro params session heq
          cases heq
      . cases hstep
    . cases hstep
  | statement w =>
    simp only [sessionsMachine] at hstep
    split at hstep
    . next input new next hstage =>
      have hinside : s.inside? w = some (input, new, next) := by rw [inside?, hstage]; rfl
      have hmutex : s.mutex = some w := (h.holder w).mpr (by simp [hinside])
      have halone := h.alone (w := w) (by simp [hmutex])
      split at hstep
      . next hnext =>
        cases hstep
        rw [hmutex, Option.bind_some, hinside] at hserial
        have hnext' := hserial.advance (e := .step) (if_pos hnext)
        apply h.take (.inside input _ (next + 1)) _ halone hmutex ⟨_, _, hnext'⟩
        . intro input' new' next' heq
          cases heq
          exact h.aok w input new next hinside
        . intro params session heq
          cases heq
      . cases hstep
    . cases hstep
  | unlock w =>
    simp only [sessionsMachine] at hstep
    split at hstep
    . next input new next hstage =>
      have hinside : s.inside? w = some (input, new, next) := by rw [inside?, hstage]; rfl
      have hmutex : s.mutex = some w := (h.holder w).mpr (by simp [hinside])
      have halone := h.alone (w := w) (by simp [hmutex])
      split at hstep
      . next hnext =>
        cases hstep
        subst hnext
        rw [hmutex, Option.bind_some, hinside] at hserial
        have hleft : (sessionSection snmpSessOpen).Serial defaultSession
            { mem := s.defaultSession, out, inside := none } (inputs ++ []) :=
          hserial.advance (e := .leave) (by simp [LockedSection.advance, sessionSection])
        apply h.take (.opened input.params new.sessp) _ halone rfl ⟨_, _, hleft⟩
        . intro input' new' next' heq
          cases heq
        . intro params session heq
          simp only [SessionStage.opened.injEq] at heq
          have hsessp := sessp_of_serial hopen hserial rfl
          rw [heq.1, heq.2] at hsessp
          split at hsessp
          . exact Option.some.inj hsessp
          . cases hsessp
      . cases hstep
    . cases hstep
  | finish w =>
    simp only [sessionsMachine] at hstep
    split at hstep
    . next params sessp hopened =>
      cases hstep
      exact h.setStage (by rw [inside?, hopened]; rfl) rfl (by simp)
    . cases hstep

theorem Inv.goesOn (h : s.Inv snmpSessOpen defaultSession) (hmutex : s.mutex = some w)
    : ∃ a ∈ [SessionAction.statement w, .unlock w],
        ((sessionsMachine snmpSessOpen defaultSession).step s a).isSome := by
  rcases Option.isSome_iff_exists.mp ((h.holder w).mp hmutex) with ⟨⟨input, new, next⟩, hinside⟩
  rcases h.serial with ⟨out, inputs, hserial⟩
  rw [hmutex, Option.bind_some, hinside] at hserial
  have hstage : s.stages w = .inside input new next := by
    rw [inside?] at hinside
    unfold SessionStage.inside? at hinside
    split at hinside
    . next hstage =>
      cases hinside
      exact hstage
    . cases hinside
  by_cases hnext : next < newSnmpSessionLength
  . refine ⟨.statement w, by simp, ?_⟩
    simp only [sessionsMachine, hstage, if_pos hnext, Option.isSome_some]
  . have heq : next = newSnmpSessionLength := by
      have hle : next ≤ newSnmpSessionLength := (hserial.exists_of_inside rfl).1
      omega
    refine ⟨.unlock w, by simp, ?_⟩
    simp only [sessionsMachine, hstage, if_pos heq, Option.isSome_some]

/-- Each session is the one that the sensor of its worker asks for, at most one worker writes to
`default_session`, it has a peername and a community to write, and it can go on to its unlock. -/
structure Own (snmpSessOpen : SnmpSession → SnmpSession) (defaultSession : SnmpSession)
    (s : Sessions) : Prop where
  session : ∀ w params session, s.stages w = .opened params (some session) →
    session = params.session defaultSession.flags
  holder : ∀ w, s.mutex = some w ↔ (s.inside? w).isSome
  aok : ∀ w input new next, s.inside? w = some (input, new, next) → input.params.aok
  goesOn : ∀ w, s.mutex = some w → ∃ a ∈ [SessionAction.statement w, .unlock w],
    ((sessionsMachine snmpSessOpen defaultSession).step s a).isSome

theorem sessions_own (hopen : OpensCopy snmpSessOpen) {as : List SessionAction}
    (hrun : (sessionsMachine snmpSessOpen defaultSession).run as = some s)
    : s.Own snmpSessOpen defaultSession := by
  have hinit := inv_init snmpSessOpen defaultSession
  have hinv := (Machine.always_of_inv (fun _ _ _ => inv_step hopen) as hinit).last hrun
  exact ⟨hinv.own, hinv.holder, hinv.aok, fun _ hmutex => hinv.goesOn hmutex⟩

def routerSensor (peername : String) : HeapSensor where
  peername := some peername.toList
  community := some "public".toList
  version := some .v2c
  timeout := 5
  refcnt := 1

/-- The second worker waits until the first has opened its session. -/
def sessionRun : List SessionAction :=
  [.begin 0 (routerSensor "10.0.0.1"), .lock 0 true, .begin 1 (routerSensor "10.0.0.2")]
    ++ List.replicate newSnmpSessionLength (.statement 0) ++ [.unlock 0, .lock 1 true]
    ++ List.replicate newSnmpSessionLength (.statement 1) ++ [.unlock 1]

theorem sessions_own_sessionRun
    : ∃ s, (sessionsMachine id { timeout := 1 }).run sessionRun = some s
        ∧ s.stages 0 = .opened (routerSensor "10.0.0.1").snmpParams
            (some ((routerSensor "10.0.0.1").snmpParams.session 0))
        ∧ s.Own id { timeout := 1 } := by
  have hcopy : OpensCopy id := ⟨fun _ => rfl, fun _ => rfl, fun _ => rfl⟩
  have hrun : ∃ s, (sessionsMachine id { timeout := 1 }).run sessionRun = some s
      ∧ s.stages 0 = .opened (routerSensor "10.0.0.1").snmpParams
        (some ((routerSensor "10.0.0.1").snmpParams.session 0)) := ⟨_, rfl, rfl⟩
  rcases hrun with ⟨s, hrun, hfirst⟩
  exact ⟨s, hrun, hfirst, sessions_own hcopy hrun⟩

end

end Sessions

end RbMonitor
