import RbMonitor.Lib.Strtod

/-!
This module contains the monitor values and the faults that the C code can run into.
-/

namespace RbMonitor

/-- `BUFSIZ` of the C library. -/
def BUFSIZ : Nat := 8192

/-- The arguments of one call of `evaluator_evaluate`. -/
structure EvalCall where
  operation : CStr
  names : List (Option CStr)
  values : List Binary64
deriving DecidableEq

/-- What C leaves undefined, and the loops that never end. -/
inductive Fault where
  /-- A field of one member of the union read while the tag says the other. -/
  | badTag
  | nullPointer
  | outOfBounds
  /-- The text of the result of this call does not fit `val_buf`. -/
  | valBuf (call : EvalCall)
  | divergence
deriving DecidableEq

/-- The result of a piece of C code, or the fault it ran into. -/
abbrev CM (α : Type) := Except Fault α

theorem CM.bind_eq_ok {α β : Type} {x : CM α} {f : α → CM β} {b : β}
    : x >>= f = .ok b ↔ ∃ a, x = .ok a ∧ f a = .ok b := by
  cases x <;> simp [Bind.bind, Except.bind]

@[simp]
theorem CM.pure_eq_ok {α : Type} {a b : α} : (pure a : CM α) = .ok b ↔ a = b := by
  simp [Pure.pure, Except.pure]

/-- `value` of the union in `struct monitor_value`. -/
structure Value where
  timestamp : Int
  value : Binary64
deriving DecidableEq

/-- `struct monitor_value`: the constructor is the tag, an absent pointer is `NULL`. -/
inductive MonitorValue where
  | value (v : Value)
  | array (children : List (Option MonitorValue)) (splitOpResult : Option MonitorValue)

namespace MonitorValue

def asValue : MonitorValue → CM Value
  | .value v => .ok v
  | .array _ _ => .error .badTag

/-- The array fields; `children_count` is the length of the children. -/
def asArray : MonitorValue → CM (List (Option MonitorValue) × Option MonitorValue)
  | .value _ => .error .badTag
  | .array children splitOpResult => .ok (children, splitOpResult)

@[simp]
theorem asValue_value (v : Value) : asValue (.value v) = .ok v := rfl

@[simp]
theorem asArray_array (children : List (Option MonitorValue)) (splitOpResult : Option MonitorValue)
    : asArray (.array children splitOpResult) = .ok (children, splitOpResult) := rfl

def isValue : MonitorValue → Bool
  | .value _ => true
  | .array _ _ => false

/-- The tags of a value that the constructors of the code build: every child is a `VALUE`. -/
def Flat : MonitorValue → Prop
  | .value _ => True
  | .array children splitOpResult =>
    (∀ c, some c ∈ children → c.isValue) ∧ ∀ c, splitOpResult = some c → c.isValue

end MonitorValue

/-- An array of which all children are scalars. -/
structure ValueArray where
  children : List (Option Value)
  splitOpResult : Option Value
deriving DecidableEq

def ValueArray.toMonitorValue (a : ValueArray) : MonitorValue :=
  .array (a.children.map (Option.map .value)) (a.splitOpResult.map .value)

theorem MonitorValue.exists_of_isValue {mv : MonitorValue} (h : mv.isValue)
    : ∃ v, mv = .value v := by
  cases mv with
  | value v => exact ⟨v, rfl⟩
  | array _ _ => cases h

theorem MonitorValue.exists_of_forall_isValue {children : List (Option MonitorValue)}
    (h : ∀ c, some c ∈ children → c.isValue)
    : ∃ values : List (Option Value), children = values.map (Option.map .value) := by
  induction children with
  | nil => exact ⟨[], rfl⟩
  | cons c children ih =>
    rcases ih fun c hc => h c (by simp [hc]) with ⟨values, hvalues⟩
    cases c with
    | none => exact ⟨none :: values, by simp [hvalues]⟩
    | some c =>
      rcases exists_of_isValue (h c (by simp)) with ⟨v, hv⟩
      exact ⟨some v :: values, by simp [hvalues, hv]⟩

namespace MonitorValue

/-- A child that is missing or a scalar. -/
def toChild? : Option MonitorValue → Option (Option Value)
  | none => some none
  | some (.value v) => some (some v)
  | some (.array _ _) => none

def toValueArray? : MonitorValue → Option ValueArray
  | .value _ => none
  | .array children splitOpResult => do
    let children ← children.mapM toChild?
    let splitOpResult ← toChild? splitOpResult
    return { children := children, splitOpResult := splitOpResult }

@[simp]
theorem toChild?_map (child : Option Value) : toChild? (child.map .value) = some child := by
  cases child <;> rfl

theorem eq_map_of_toChild? {c : Option MonitorValue} {child : Option Value}
    (h : toChild? c = some child)
    : c = child.map .value := by
  match c with
  | none =>
    cases h
    rfl
  | some (.value v) =>
    cases h
    rfl
  | some (.array _ _) => cases h

@[simp]
theorem toValueArray?_toMonitorValue (a : ValueArray) : a.toMonitorValue.toValueArray? = some a := by
  have hchildren (children : List (Option Value))
      : (children.map (Option.map .value)).mapM toChild? = some children := by
    induction children with
    | nil => rfl
    | cons child children ih => simp [ih]
  simp [ValueArray.toMonitorValue, toValueArray?, hchildren]

end MonitorValue

theorem MonitorValue.flat_iff {mv : MonitorValue}
    : mv.Flat ↔ (∃ v, mv = .value v) ∨ ∃ a : ValueArray, mv = a.toMonitorValue := by
  cases mv with
  | value v => simp [Flat]
  | array children so =>
    constructor
    . intro hex
      rcases hex with ⟨hchildren, hso⟩
      rcases exists_of_forall_isValue hchildren with ⟨values, hvalues⟩
      right
      cases so with
      | none => exact ⟨⟨values, none⟩, by simp [ValueArray.toMonitorValue, hvalues]⟩
      | some so =>
        rcases exists_of_isValue (hso so rfl) with ⟨v, hv⟩
        exact ⟨⟨values, some v⟩, by simp [ValueArray.toMonitorValue, hvalues, hv]⟩
    . intro hex
      rcases hex with (⟨v, hv⟩ | ⟨a, ha⟩)
      . cases hv
      . simp only [ValueArray.toMonitorValue, array.injEq] at ha
        rcases ha with ⟨hchildren, hso⟩
        constructor
        . intro c hc
          simp only [hchildren, List.mem_map, Option.map_eq_some_iff] at hc
          rcases hc with ⟨_, _, v, _, hv⟩
          exact hv ▸ rfl
        . intro c hc
          rw [hso, Option.map_eq_some_iff] at hc
          rcases hc with ⟨v, _, hv⟩
          exact hv ▸ rfl

/-- `rb_monitor_value_cmp_timestamp`, the difference wrapped to 64 bits. -/
def rbMonitorValueCmpTimestamp (m1 m2 : Value) : Int :=
  (m1.timestamp - m2.timestamp).bmod (2 ^ 64)

/-- `process_novector_monitor`. -/
def processNovectorMonitor (value : Binary64) (now : Int) : MonitorValue :=
  .value { timestamp := now, value := value }

end RbMonitor
