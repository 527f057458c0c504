import RbMonitor.Op.Lemmas

/-!
This module contains what an operation on vectors should be, element by element, and when the code
computes it.
-/

namespace RbMonitor

/-- The `i`-th children of all operands, if each of them has one. -/
def childrenAt (operands : List ValueArray) (i : Nat) : Option (List Binary64) :=
  operands.mapM fun o => o.children[i]?.join.map (·.value)

/-- What position `i` of the result should hold. -/
def slot (lib : Matheval) (monitor : Monitor) (operands : List ValueArray) (now : Int) (i : Nat)
    : Option Value :=
  (childrenAt operands i).bind fun xs =>
    let number := lib.evaluate monitor.cmdArg ((lib.getVariables monitor.cmdArg).map some) xs
    if number.isNormal then some { timestamp := now, value := number } else none

/-- The sum of the values, or their mean. -/
def aggregate (op : CStr) (vs : List Value) : Binary64 :=
  let sum := vs.foldl (fun sum v => sum + v.value) 0
  if op = ['s', 'u', 'm'] then sum else sum / Binary64.ofInt vs.length

/-- The operation on vectors with `n` children yields the array of the evaluated positions, with
the aggregate of those that are filled. -/
def OperatesElementWise (lib : Matheval) (monitor : Monitor) (operands : List ValueArray)
    (now : Int) (n : Nat)
    : Prop :=
  ∃ children so calls,
    rbMonitorGetOpResult lib monitor (some (operands.map fun o => some o.toMonitorValue)) now
        = .ok (some (.array children so), calls)
      ∧ children = (List.range n).map (fun i => (slot lib monitor operands now i).map .value)
      ∧ ∀ op, monitor.splitop = some op →
          let filled := (List.range n).filterMap (slot lib monitor operands now)
          filled ≠ [] → so = some (.value { timestamp := now, value := aggregate op filled })

section

variable {lib : Matheval} {monitor : Monitor} {operands : List ValueArray} {n : Nat}
variable (hcreate : lib.create monitor.cmdArg) (hne : operands ≠ [])
variable (hvars : (lib.getVariables monitor.cmdArg).length = operands.length)
variable (hlen : ∀ o ∈ operands, o.children.length = n)

include hcreate hne hvars hlen in
theorem rbMonitorGetOpResult_of_vectors (now : Int)
    : rbMonitorGetOpResult lib monitor (some (operands.map fun o => some o.toMonitorValue)) now
        =
      .ok (some (.array (List.replicate n none) none), []) := by
  rcases List.exists_cons_of_ne_nil hne with ⟨o, rest, hops⟩
  subst hops
  have ho : o.children.length = n := hlen o (by simp)
  have hsize : sameSize n (rest.map fun o => some o.toMonitorValue) := by
    unfold sameSize
    rw [List.all_eq_true]
    intro mv hmv
    rcases List.mem_map.mp hmv with ⟨o', ho', hmv⟩
    subst hmv
    simp [ValueArray.toMonitorValue, hlen o' (by simp [ho'])]
  have hvars' : (lib.getVariables monitor.cmdArg).length
      = (rest.map fun o => some o.toMonitorValue).length + 1 := by
    simpa using hvars
  have := rbMonitorGetOpResult_of_array lib monitor now (o.children.map (Option.map .value))
    (o.splitOpResult.map .value) hcreate hvars'
  simp only [List.length_map, ho, hsize, ↓reduceIte] at this
  simpa [ValueArray.toMonitorValue] using this

include hcreate hne hvars hlen in
theorem operatesElementWise_iff_slot (now : Int)
    : OperatesElementWise lib monitor operands now n
        ↔
      ∀ i, i < n → slot lib monitor operands now i = none := by
  have hres := rbMonitorGetOpResult_of_vectors hcreate hne hvars hlen now
  constructor
  . intro hex i hi
    rcases hex with ⟨children, so, calls, hok, hchildren, _⟩
    rw [hres] at hok
    simp only [Except.ok.injEq, Prod.mk.injEq, Option.some.injEq, MonitorValue.array.injEq] at hok
    rw [← hok.1.1] at hchildren
    have hget := congrArg (·[i]?) hchildren
    simpa [hi] using hget
  . intro h
    refine ⟨_, _, _, hres, ?_, ?_⟩
    . apply List.ext_getElem
      . simp
      . intro i hi _
        simp only [List.length_replicate] at hi
        simp [h i hi]
    . intro op _ filled hfilled
      exfalso
      apply hfilled
      apply List.filterMap_eq_nil_iff.mpr
      intro i hi
      exact h i (List.mem_range.mp hi)

theorem slot_eq_none_iff (now : Int) (i : Nat)
    : slot lib monitor operands now i = none
        ↔
      ∀ xs, childrenAt operands i = some xs →
        (lib.evaluate monitor.cmdArg ((lib.getVariables monitor.cmdArg).map some) xs).isNormal
          = false := by
  simp [slot, Option.bind_eq_none_iff]

/-- An operation on vectors is element by element only where nothing has to be evaluated: at no
position do all operands have a child and a normal result. -/
theorem operatesElementWise_iff (hcreate : lib.create monitor.cmdArg) (hne : operands ≠ [])
    (hvars : (lib.getVariables monitor.cmdArg).length = operands.length)
    (hlen : ∀ o ∈ operands, o.children.length = n) (now : Int)
    : OperatesElementWise lib monitor operands now n
        ↔
      ∀ i, i < n → ∀ xs, childrenAt operands i = some xs →
        (lib.evaluate monitor.cmdArg ((lib.getVariables monitor.cmdArg).map some) xs).isNormal
          = false := by
  rw [operatesElementWise_iff_slot hcreate hne hvars hlen]
  simp only [slot_eq_none_iff]

end

/-- The sum of two monitors. -/
def loadSumMonitor : Monitor :=
  { type := .op, name := "load_1+5".toList, cmdArg := "load_1+load_5".toList,
    splitop := some "sum".toList }

/-- The responses `3;2` and `4;6`. -/
def loadOperands : List ValueArray :=
  [{ children := [some ⟨0, 3⟩, some ⟨0, 2⟩], splitOpResult := none },
    { children := [some ⟨0, 4⟩, some ⟨0, 6⟩], splitOpResult := none }]

theorem ne_nil_loadOperands : loadOperands ≠ [] := by
  simp [loadOperands]

theorem length_children_loadOperands : ∀ o ∈ loadOperands, o.children.length = 2 := by
  simp [loadOperands]

theorem operatesElementWise_iff_load
    : OperatesElementWise .sums loadSumMonitor loadOperands 0 2
        ↔
      ∀ i, i < 2 → ∀ xs, childrenAt loadOperands i = some xs →
        (Matheval.sums.evaluate loadSumMonitor.cmdArg
          ((Matheval.sums.getVariables loadSumMonitor.cmdArg).map some) xs).isNormal = false :=
  operatesElementWise_iff (by decide) ne_nil_loadOperands (by decide +kernel)
    length_children_loadOperands 0

theorem not_operatesElementWise_load
    : ¬ OperatesElementWise .sums loadSumMonitor loadOperands 0 2 := by
  rw [operatesElementWise_iff_slot (by decide) ne_nil_loadOperands (by decide +kernel)
    length_children_loadOperands]
  intro h
  have : slot .sums loadSumMonitor loadOperands 0 0 ≠ none := by decide +kernel
  exact this (h 0 (by omega))

end RbMonitor
