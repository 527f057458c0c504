import RbMonitor.Message.Impl

/-!
This module contains the messages of a value, in the order in which they are printed.
-/

namespace RbMonitor

/-- The messages of the children from position `i` on. -/
def childMessages (monitor : Monitor) (children : List (Option Value)) (i : Nat)
    : List RbMessage :=
  match children with
  | [] => []
  | child :: children =>
    (child.map fun value => printMonitorValue0 value monitor i).toList
      ++ childMessages monitor children (i + 1)

/-- The message of the split operation, if it has a result. -/
def splitMessages (monitor : Monitor) (splitOpResult : Option Value) : List RbMessage :=
  (splitOpResult.map fun value => printMonitorValue0 value monitor NO_INSTANCE).toList

theorem printMonitorValue.printChildren_eq (monitor : Monitor) (children : List (Option Value))
    (i : Nat)
    : printChildren monitor (children.map (Option.map .value)) i
        =
      .ok (childMessages monitor children i) := by
  induction children generalizing i with
  | nil => rfl
  | cons child children ih =>
    cases child with
    | none => simpa [printChildren, childMessages] using ih (i + 1)
    | some v =>
      simp [printChildren, childMessages, ih, Bind.bind, Except.bind, Pure.pure, Except.pure]

theorem printMonitorValue_array (a : ValueArray) (monitor : Monitor)
    : printMonitorValue a.toMonitorValue monitor
        =
      .ok (childMessages monitor a.children 0 ++ splitMessages monitor a.splitOpResult) := by
  simp only [ValueArray.toMonitorValue, printMonitorValue, printMonitorValue.printChildren_eq,
    Bind.bind, Except.bind, Pure.pure, Except.pure]
  cases a.splitOpResult <;> simp [splitMessages]

theorem printMonitorValue_ok {mv : MonitorValue} (h : mv.Flat) (monitor : Monitor)
    : ∃ msgs, printMonitorValue mv monitor = .ok msgs := by
  rcases MonitorValue.flat_iff.mp h with ⟨v, rfl⟩ | ⟨a, rfl⟩
  . exact ⟨_, rfl⟩
  . exact ⟨_, printMonitorValue_array a monitor⟩

end RbMonitor
