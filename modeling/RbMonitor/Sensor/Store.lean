import RbMonitor.Sensor.Impl
import RbMonitor.Message.Lemmas

/-!
This module contains what is stored for a monitor and what is sent for it, by the value it yields.
-/

namespace RbMonitor

section

variable (rdDne : Binary64 → Binary64 → Bool)

/-- Whether a child has to be sent, given what is remembered for its position. -/
def changed (old : Option Value) (new : Value) : Bool :=
  match old with
  | none => true
  | some old => rbMonitorValueCmpTimestamp old new < 0 || rdDne old.value new.value

/-- The children that have to be sent, in their positions. -/
def changedChildren (old new : List (Option Value)) : List (Option Value) :=
  new.mapIdx fun i child => child.filter (changed rdDne old[i]?.join)

variable {rdDne}

@[simp]
theorem length_changedChildren (old new : List (Option Value))
    : (changedChildren rdDne old new).length = new.length := by
  simp [changedChildren]

@[simp]
theorem changedChildren_nil (old : List (Option Value)) : changedChildren rdDne old [] = [] := by
  simp [changedChildren]

theorem filter_changed_none (child : Option Value)
    : child.filter (changed rdDne none) = child := by
  cases child <;> simp [changed, Option.filter]

@[simp]
theorem changedChildren_nil_left (new : List (Option Value)) : changedChildren rdDne [] new = new := by
  apply List.ext_getElem
  . simp
  . intro i _ _
    simp [changedChildren, filter_changed_none]

theorem changedChildren_cons (o n : Option Value) (old new : List (Option Value))
    : changedChildren rdDne (o :: old) (n :: new)
        =
      n.filter (changed rdDne o) :: changedChildren rdDne old new := by
  simp [changedChildren, List.mapIdx_cons]

theorem printChildren_eq (old new : List (Option Value))
    : printChildren rdDne (new.map (Option.map .value)) (old.map (Option.map .value))
        =
      .ok ((changedChildren rdDne old new).map (Option.map .value)) := by
  induction new generalizing old with
  | nil => simp [printChildren]
  | cons n new ih =>
    cases old with
    | nil => cases n <;> simp [printChildren]
    | cons o old =>
      have := ih old
      rw [changedChildren_cons]
      cases n with
      | none => simp [printChildren, this, Bind.bind, Except.bind, Pure.pure, Except.pure]
      | some n =>
        cases o with
        | none =>
          simp [printChildren, this, Bind.bind, Except.bind, Pure.pure, Except.pure,
            filter_changed_none]
        | some o =>
          simp only [List.map_cons, Option.map_some, printChildren, MonitorValue.asValue_value, this,
            Bind.bind, Except.bind, Pure.pure, Except.pure, Option.filter, changed]
          split
          . next h => simp [h]
          . next h => simp [h]

variable (monitor : Monitor)

@[simp]
theorem ifSend_ok (msgs : List RbMessage)
    : ifSend monitor (.ok msgs) = .ok (if monitor.send then msgs else []) := by
  unfold ifSend
  split <;> rfl

/-- The children of the new array, with the first split operation that was stored. -/
def keepSplit (old : Option ValueArray) (new : ValueArray) : ValueArray :=
  { new with splitOpResult := (old.getD new).splitOpResult }

/-- The messages of an array of which only the changed children are sent. -/
def sentMessages (rdDne : Binary64 → Binary64 → Bool) (old : List (Option Value))
    (new : ValueArray)
    : List RbMessage :=
  if monitor.send then
    childMessages monitor (changedChildren rdDne old new.children) 0
      ++ splitMessages monitor new.splitOpResult
  else
    []

theorem storeMonitorValue_of_not_given (h : monitor.timestampGiven = false) (mv : MonitorValue)
    (old : Option MonitorValue)
    : storeMonitorValue rdDne monitor (some mv) old
        =
      (ifSend monitor (printMonitorValue mv monitor)).map (some mv, ·) := by
  have hupdate : updateValue rdDne monitor mv old = .ok true := by
    cases old <;> cases mv <;> simp [updateValue, h]
  cases old <;> simp only [storeMonitorValue, processMonitorValue, hupdate] <;>
    cases ifSend monitor (printMonitorValue mv monitor) <;> rfl

theorem storeMonitorValue_array (h : monitor.timestampGiven) (old : Option ValueArray)
    (new : ValueArray)
    : storeMonitorValue rdDne monitor (some new.toMonitorValue)
          (old.map ValueArray.toMonitorValue)
        =
      .ok (some (keepSplit old new).toMonitorValue,
        sentMessages monitor rdDne ((old.map ValueArray.children).getD []) new) := by
  cases old with
  | none =>
    simp [storeMonitorValue, processMonitorValue, updateValue, printMonitorValue_array, Bind.bind,
      Except.bind, Pure.pure, Except.pure, sentMessages, keepSplit]
  | some old =>
    have hprint := printMonitorValue_array
      { children := changedChildren rdDne old.children new.children
        splitOpResult := new.splitOpResult } monitor
    unfold ValueArray.toMonitorValue at hprint ⊢
    simp [storeMonitorValue, processMonitorValue, updateValue, h, MonitorValue.isValue,
      processMonitorValueV, processMonitorValueVPrint, printChildren_eq, hprint, Bind.bind,
      Except.bind, Pure.pure, Except.pure, sentMessages, keepSplit]

theorem storeMonitorValue_value (h : monitor.timestampGiven) (old : Option Value) (new : Value)
    : storeMonitorValue rdDne monitor (some (.value new)) (old.map MonitorValue.value)
        =
      .ok (if changed rdDne old new then
        (some (.value new),
          if monitor.send then [printMonitorValue0 new monitor NO_INSTANCE] else [])
      else
        (old.map MonitorValue.value, [])) := by
  cases old with
  | none =>
    simp [storeMonitorValue, processMonitorValue, updateValue, printMonitorValue, Bind.bind,
      Except.bind, Pure.pure, Except.pure, changed]
  | some old =>
    have hupdate : updateValue rdDne monitor (.value new) (some (.value old))
        = .ok (changed rdDne (some old) new) := by
      simp [updateValue, h, changed, Bind.bind, Except.bind, Pure.pure, Except.pure]
    simp only [storeMonitorValue, processMonitorValue, Option.map_some, hupdate, printMonitorValue,
      ifSend_ok, MonitorValue.isValue, Bind.bind, Except.bind, Pure.pure, Except.pure]
    cases changed rdDne (some old) new <;> rfl

end

end RbMonitor
