import Mathlib.Logic.Relation
import RbMonitor.Sensor.Total

/-!
This module contains that a monitor only depends on the responses to the monitors that it can reach
by following the operands of operations, unless the result of an operation does not fit its buffer.
-/

namespace RbMonitor

section

variable {lib : Matheval} (rdDne : Binary64 → Binary64 → Bool) (sensor : Sensor lib)

def Reaches : Nat → Nat → Prop :=
  Relation.ReflTransGen (DependsOn sensor)

/-- The monitors of a group, or those without group. -/
def InGroup (groupId : Option CStr) (i : Nat) : Prop :=
  ∃ monitor, sensor.monitors[i]? = some monitor ∧ monitor.groupId = groupId

/-- Two passes in which the outside says the same to the monitors of a set, at the same times. -/
structure AgreeOn (S : Nat → Prop) (input₁ input₂ : PassInput) : Prop where
  session : input₁.session = input₂.session
  response : ∀ j, S j → input₁.response j = input₂.response j

/-- Two runs cannot be told apart at a monitor: if one ends, so does the other, with the same stored
value and, in each pass, the same messages and calls of the evaluator. -/
def SameAt (i : Nat) (inputs₁ inputs₂ : List PassInput) : Prop :=
  ∀ values₁ passes₁, processRbSensor rdDne sensor inputs₁ = .ok (values₁, passes₁) →
    ∃ values₂ passes₂, processRbSensor rdDne sensor inputs₂ = .ok (values₂, passes₂)
      ∧ stored values₁ i = stored values₂ i
      ∧ passes₁.map (·[i]?) = passes₂.map (·[i]?)

/-- Stored values that agree on a set. -/
structure Agree (S : Nat → Prop) (values₁ values₂ : List (Option MonitorValue)) : Prop where
  length₁ : values₁.length = sensor.monitors.length
  length₂ : values₂.length = sensor.monitors.length
  stored_eq : ∀ j, S j → stored values₁ j = stored values₂ j

variable {rdDne sensor}

theorem updateMonitor_of_agree {S : Nat → Prop} (hS : ∀ i j, S i → DependsOn sensor i j → S j)
    {input₁ input₂ : PassInput} (hinput : AgreeOn S input₁ input₂)
    {values₁ values₂ values₁' : List (Option MonitorValue)} (hagree : Agree sensor S values₁ values₂)
    {i : Nat} (hi : S i) {log : MonitorLog}
    (h : updateMonitor rdDne sensor input₁ values₁ i = .ok (values₁', log))
    : ∃ values₂', updateMonitor rdDne sensor input₂ values₂ i = .ok (values₂', log)
        ∧ stored values₁' i = stored values₂' i := by
  rcases updateMonitor_eq_ok.mp h with ⟨monitor, mv, hm, hr, hmv, rfl⟩
  have hlt := (List.getElem?_eq_some_iff.mp hm).1
  rw [hinput.response i hi, operandsOf_congr hm fun j hj => hagree.stored_eq j (hS i j hi hj)] at hr
  rw [hagree.stored_eq i hi] at hmv
  refine ⟨_, updateMonitor_eq_ok.mpr ⟨monitor, mv, hm, hr, hmv, rfl⟩, ?_⟩
  rw [stored_set_self (hagree.length₁ ▸ hlt), stored_set_self (hagree.length₂ ▸ hlt)]

theorem updateMonitor_rel {S : Nat → Prop} (hS : ∀ i j, S i → DependsOn sensor i j → S j)
    {input₁ input₂ : PassInput} (hinput : AgreeOn S input₁ input₂)
    {values₁ values₂ values₁' values₂' : List (Option MonitorValue)}
    (hagree : Agree sensor S values₁ values₂) {i : Nat} {log₁ log₂ : MonitorLog}
    (h₁ : updateMonitor rdDne sensor input₁ values₁ i = .ok (values₁', log₁))
    (h₂ : updateMonitor rdDne sensor input₂ values₂ i = .ok (values₂', log₂))
    : Agree sensor S values₁' values₂' ∧ (S i → log₁ = log₂) := by
  have hsame (hi : S i) : log₁ = log₂ ∧ stored values₁' i = stored values₂' i := by
    rcases updateMonitor_of_agree hS hinput hagree hi h₁ with ⟨values, h, hstored⟩
    rw [h₂, Except.ok.injEq, Prod.mk.injEq] at h
    exact ⟨h.2.symm, h.1 ▸ hstored⟩
  refine ⟨⟨(length_updateMonitor h₁).trans hagree.length₁,
    (length_updateMonitor h₂).trans hagree.length₂, ?_⟩, fun hi => (hsame hi).1⟩
  intro j hj
  by_cases hij : i = j
  . exact hij ▸ (hsame (hij ▸ hj)).2
  . rw [stored_updateMonitor_ne h₁ hij, stored_updateMonitor_ne h₂ hij]
    exact hagree.stored_eq j hj

theorem aok_congr {input₁ input₂ : PassInput} (h : input₁.session = input₂.session)
    : aok sensor input₁ = aok sensor input₂ := by
  simp [aok, h]

theorem getElem?_of_forall₂_zip_range {S : Nat → Prop} {logs₁ logs₂ : List MonitorLog} {n : Nat}
    (hlen : logs₁.length = n)
    (h : List.Forall₂ (fun (p : Nat × MonitorLog) log₂ => S p.1 → p.2 = log₂)
      ((List.range n).zip logs₁) logs₂)
    {i : Nat} (hi : S i)
    : logs₁[i]? = logs₂[i]? := by
  have hlen₂ : logs₂.length = n := by
    rw [← h.length_eq]
    simp [hlen]
  by_cases hlt : i < n
  . have hget := h.get (by simpa [hlen] using hlt) (by omega)
    simp only [List.get_eq_getElem, List.getElem_zip, List.getElem_range] at hget
    rw [List.getElem?_eq_getElem (by omega), List.getElem?_eq_getElem (by omega), hget hi]
  . rw [List.getElem?_eq_none (by omega), List.getElem?_eq_none (by omega)]

theorem processMonitorsArray_rel {S : Nat → Prop} (hS : ∀ i j, S i → DependsOn sensor i j → S j)
    {input₁ input₂ : PassInput} (hinput : AgreeOn S input₁ input₂)
    {values₁ values₂ values₁' values₂' : List (Option MonitorValue)}
    (hagree : Agree sensor S values₁ values₂) {logs₁ logs₂ : List MonitorLog}
    (h₁ : processMonitorsArray rdDne sensor values₁ input₁ = .ok (values₁', logs₁))
    (h₂ : processMonitorsArray rdDne sensor values₂ input₂ = .ok (values₂', logs₂))
    : Agree sensor S values₁' values₂' ∧ ∀ i, S i → logs₁[i]? = logs₂[i]? := by
  cases haok : aok sensor input₁ with
  | false =>
    have haok₂ := aok_congr hinput.session ▸ haok
    rw [processMonitorsArray_of_not_aok haok] at h₁
    rw [processMonitorsArray_of_not_aok haok₂] at h₂
    simp only [Except.ok.injEq, Prod.mk.injEq] at h₁ h₂
    rcases h₁ with ⟨rfl, rfl⟩
    rcases h₂ with ⟨rfl, rfl⟩
    exact ⟨hagree, fun _ _ => rfl⟩
  | true =>
    have haok₂ := aok_congr hinput.session ▸ haok
    rw [processMonitorsArray_of_aok haok hagree.length₁] at h₁
    rw [processMonitorsArray_of_aok haok₂ hagree.length₂] at h₂
    rcases runLog_rel (Agree sensor S) (fun i log₁ log₂ => S i → log₁ = log₂)
      (fun values₁ values₂ i j _ _ _ _ hagree (hij : i = j) h₁ h₂ => by
        subst hij
        exact updateMonitor_rel hS hinput hagree h₁ h₂)
      hagree (List.forall₂_same.mpr fun _ _ => rfl) h₁ h₂ with
      ⟨hagree', hlogs⟩
    refine ⟨hagree', ?_⟩
    intro i hi
    exact getElem?_of_forall₂_zip_range (by simpa using length_runLog h₁) hlogs hi

theorem splitsEnd_congr {S : Nat → Prop} {inputs₁ inputs₂ : List PassInput}
    (hinputs : List.Forall₂ (AgreeOn S) inputs₁ inputs₂) (h : SplitsEnd sensor inputs₁)
    : SplitsEnd sensor inputs₂ := by
  intro input₂ hinput₂ haok
  rcases exists_of_forall₂ hinputs hinput₂ with ⟨input₁, hinput₁, hagree⟩
  exact h input₁ hinput₁ (by rw [aok_congr hagree.session, haok])

theorem sameAt_iff_of_closed {S : Nat → Prop} (hS : ∀ i j, S i → DependsOn sensor i j → S j)
    {inputs₁ inputs₂ : List PassInput} (hinputs : List.Forall₂ (AgreeOn S) inputs₁ inputs₂) {i : Nat}
    (hi : S i)
    : SameAt rdDne sensor i inputs₁ inputs₂
        ↔
      (SplitsEnd sensor inputs₁ → RunFits rdDne sensor inputs₁ → RunFits rdDne sensor inputs₂) := by
  constructor
  . intro hsame hsplits hfits
    rcases exists_processRbSensor_iff.mpr ⟨hsplits, hfits⟩ with ⟨⟨values₁, passes₁⟩, h₁⟩
    rcases hsame values₁ passes₁ h₁ with ⟨values₂, passes₂, h₂, _, _⟩
    exact (exists_processRbSensor_iff.mp ⟨_, h₂⟩).2
  . intro hends values₁ passes₁ h₁
    rcases exists_processRbSensor_iff.mp ⟨_, h₁⟩ with ⟨hsplits, hfits⟩
    rcases exists_processRbSensor_iff.mpr ⟨splitsEnd_congr hinputs hsplits, hends hsplits hfits⟩
      with ⟨⟨values₂, passes₂⟩, h₂⟩
    have hstart : Agree sensor S (List.replicate sensor.monitors.length none)
        (List.replicate sensor.monitors.length none) :=
      ⟨by simp, by simp, fun _ _ => rfl⟩
    rcases runLog_rel (Agree sensor S)
      (fun _ logs₁ logs₂ => ∀ i, S i → logs₁[i]? = logs₂[i]?)
      (fun values₁ values₂ input₁ input₂ _ _ _ _ hagree (hinput : AgreeOn S input₁ input₂) h₁ h₂ =>
        processMonitorsArray_rel hS hinput hagree h₁ h₂)
      hstart hinputs h₁ h₂ with
      ⟨hagree, hlogs⟩
    refine ⟨values₂, passes₂, h₂, hagree.stored_eq i hi, ?_⟩
    have hpasses : List.Forall₂ (fun logs₁ logs₂ => ∀ i, S i → logs₁[i]? = logs₂[i]?)
        passes₁ passes₂ :=
      forall₂_snd_of_zip (length_runLog h₁) hlogs
    rw [← List.forall₂_eq_eq_eq, List.forall₂_map_left_iff, List.forall₂_map_right_iff]
    exact hpasses.imp fun _ _ h => h i hi

theorem inGroup_of_dependsOn {groupId : Option CStr} {i j : Nat} (hi : InGroup sensor groupId i)
    (hij : DependsOn sensor i j)
    : InGroup sensor groupId j := by
  rcases hi with ⟨monitor, hm, rfl⟩
  rcases hij with ⟨deps, hdeps, hj⟩
  simp only [sensor.opVars_eq, getMonitorsDependencies, List.getElem?_map, hm, Option.map_some,
    getMonitorDependencies_eq, Option.some.injEq, Option.map_eq_some_iff] at hdeps
  rcases hdeps with ⟨js, hjs, rfl⟩
  have hmem : j ∈ js := by
    simpa [show (j : Int) ≠ -1 by omega] using hj
  rcases exists_bound_of_operandPositions hjs hmem with ⟨var, hvar⟩
  rcases List.findIdx?_eq_some_iff_getElem.mp hvar with ⟨hlt, hbinds, _⟩
  simp only [binds, Bool.and_eq_true, decide_eq_true_eq] at hbinds
  exact ⟨sensor.monitors[j], List.getElem?_eq_getElem hlt, hbinds.2⟩

theorem inGroup_of_reaches {groupId : Option CStr} {i j : Nat} (hi : InGroup sensor groupId i)
    (hij : Reaches sensor i j)
    : InGroup sensor groupId j := by
  induction hij with
  | refl => exact hi
  | tail _ hjk ih => exact inGroup_of_dependsOn ih hjk

variable (rdDne sensor)

/-- Two runs in which the outside says the same to all monitors that can be reached from a monitor,
or to all monitors of its group, cannot be told apart at that monitor exactly if the results of the
operations fit their buffer in the second run as well, whatever monitors they are of. -/
theorem sameAt_iff (inputs₁ inputs₂ : List PassInput)
    : (∀ i, List.Forall₂ (AgreeOn (Reaches sensor i)) inputs₁ inputs₂ →
          (SameAt rdDne sensor i inputs₁ inputs₂
            ↔
          (SplitsEnd sensor inputs₁ → RunFits rdDne sensor inputs₁ →
            RunFits rdDne sensor inputs₂)))
        ∧ ∀ groupId, List.Forall₂ (AgreeOn (InGroup sensor groupId)) inputs₁ inputs₂ →
          ∀ i, InGroup sensor groupId i →
            (SameAt rdDne sensor i inputs₁ inputs₂
              ↔
            (SplitsEnd sensor inputs₁ → RunFits rdDne sensor inputs₁ →
              RunFits rdDne sensor inputs₂)) := by
  constructor
  . intro i hinputs
    exact sameAt_iff_of_closed (fun _ _ hi hij => hi.tail hij) hinputs .refl
  . intro groupId hinputs i hi
    exact sameAt_iff_of_closed (fun _ _ hi hij => inGroup_of_dependsOn hi hij) hinputs hi

end

/-- A sensor with a monitor outside the group that comes first, in which an operation has the load
as its operand. -/
def groupSensor : Sensor .sums where
  peername := some "10.0.0.1".toList
  community := some "public".toList
  monitors := [
    { type := .system, name := "load_1".toList, cmdArg := "load 1".toList, groupId := some ['2'] },
    { type := .op, name := "load".toList, cmdArg := "load_1".toList, groupId := some ['2'] },
    { type := .system, name := "load_1".toList, cmdArg := "load 1".toList }]

/-- The command in the group prints what is given, the other one 3. -/
def groupInput (out : List Char) : PassInput where
  session := true
  response i := { popen := some (if i = 2 then ['3'] else out), snmp := .error, now := 1 }

theorem agreeOn_groupInput (out₁ out₂ : List Char)
    : AgreeOn (InGroup groupSensor none) (groupInput out₁) (groupInput out₂) where
  session := rfl
  response j hj := by
    rcases hj with ⟨monitor, hm, hgroup⟩
    match j with
    | 0 =>
      cases hm
      cases hgroup
    | 1 =>
      cases hm
      cases hgroup
    | 2 => rfl
    | j + 3 => cases hm

theorem inGroup_groupSensor : InGroup groupSensor none 2 := ⟨_, rfl, rfl⟩

theorem sameAt_iff_group
    : SameAt (fun a b => a ≠ b) groupSensor 2 [groupInput ['4']] [groupInput ['5']] := by
  have hends : endsWith (fun _ _ => true)
      (processRbSensor (fun a b => a ≠ b) groupSensor [groupInput ['5']]) := by
    decide +kernel
  rcases exists_of_endsWith hends with ⟨_, _, hrun, _⟩
  have hiff := (sameAt_iff (fun a b => a ≠ b) groupSensor [groupInput ['4']] [groupInput ['5']]).2 none
    (.cons (agreeOn_groupInput ['4'] ['5']) .nil) 2 inGroup_groupSensor
  exact hiff.mpr fun _ _ => (exists_processRbSensor_iff.mp ⟨_, hrun⟩).2

/-- The load of the group has 60 digits: the program does not come to the monitor outside it. -/
theorem not_sameAt_group
    : AgreeOn (InGroup groupSensor none) (groupInput ['4']) (groupInput "1e60".toList)
        ∧ AgreeOn (Reaches groupSensor 2) (groupInput ['4']) (groupInput "1e60".toList)
        ∧ InGroup groupSensor none 2
        ∧ ¬ SameAt (fun a b => a ≠ b) groupSensor 2 [groupInput ['4']]
          [groupInput "1e60".toList] := by
  have hagree := agreeOn_groupInput ['4'] "1e60".toList
  refine ⟨hagree, ⟨hagree.session, ?_⟩, inGroup_groupSensor, ?_⟩
  . intro j hj
    exact hagree.response j (inGroup_of_reaches inGroup_groupSensor hj)
  . intro hsame
    have hends : endsWith (fun _ _ => true)
        (processRbSensor (fun a b => a ≠ b) groupSensor [groupInput ['4']]) := by
      decide +kernel
    have hfails : endsWith (fun _ _ => true)
        (processRbSensor (fun a b => a ≠ b) groupSensor [groupInput "1e60".toList]) = false := by
      decide +kernel
    rcases exists_of_endsWith hends with ⟨values₁, passes₁, h₁, _⟩
    rcases hsame values₁ passes₁ h₁ with ⟨values₂, passes₂, h₂, _, _⟩
    rw [h₂] at hfails
    cases hfails

end RbMonitor
