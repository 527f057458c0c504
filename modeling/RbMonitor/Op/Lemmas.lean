import RbMonitor.Op.Impl

/-!
This module contains what the functions of an operation compute, by the tag of the first operand, and
when the text of the result fits its buffer.
-/

namespace RbMonitor

/-- The numbers of the operands, if all of them are scalars. -/
def scalars : List (Option MonitorValue) → Option (List Binary64)
  | [] => some []
  | none :: _ => none
  | some (.array _ _) :: _ => none
  | some (.value x) :: rest => (scalars rest).map (x.value :: ·)

/-- Whether the vectors among the operands have `n` children. -/
def sameSize (n : Nat) (opVars : List (Option MonitorValue)) : Bool :=
  opVars.all fun
    | some (.array children _) => children.length = n
    | _ => true

/-- The variables of an operation with their values. -/
def varsOf (lib : Matheval) (monitor : Monitor) (xs : List Binary64) : LibmathevalVars where
  names := (lib.getVariables monitor.cmdArg).map some
  values := xs
  count := xs.length

/-- The call of the evaluator for these values. -/
def evalCall (lib : Matheval) (monitor : Monitor) (xs : List Binary64) : EvalCall where
  operation := monitor.cmdArg
  names := (lib.getVariables monitor.cmdArg).map some
  values := xs

/-- The calls of the evaluator, the one included whose result does not fit `val_buf`. -/
def callsOf {α : Type} (calls : α → List EvalCall) : CM α → List EvalCall
  | .ok r => calls r
  | .error (.valBuf call) => [call]
  | .error _ => []

/-- The value of the operation at its operands. -/
def LibmathevalVars.evaluate (vars : LibmathevalVars) (lib : Matheval) (operation : CStr) : Binary64 :=
  lib.evaluate operation (vars.names.take vars.count) (vars.values.take vars.count)

/-- If the result is accepted, its text and the terminator fit the buffer. -/
def ResultFits (lib : Matheval) (vars : LibmathevalVars) (monitor : Monitor) : Prop :=
  let number := vars.evaluate lib monitor.cmdArg
  number.isNormal → (CString.printLf number).length + 1 ≤ VAL_BUF_SIZE

instance (lib : Matheval) (vars : LibmathevalVars) (monitor : Monitor)
    : Decidable (ResultFits lib vars monitor) :=
  inferInstanceAs (Decidable ((vars.evaluate lib monitor.cmdArg).isNormal →
    (CString.printLf (vars.evaluate lib monitor.cmdArg)).length + 1 ≤ VAL_BUF_SIZE))

/-- If the operands are scalars, the result fits. -/
def OperationFits (lib : Matheval) (monitor : Monitor) (opVars : List (Option MonitorValue)) : Prop :=
  ∀ xs, scalars opVars = some xs → ResultFits lib (varsOf lib monitor xs) monitor

theorem rbMonitorOpValue0_of_fits {lib : Matheval} {vars : LibmathevalVars} {monitor : Monitor}
    (h : ResultFits lib vars monitor) (now : Int)
    : ∃ r calls, rbMonitorOpValue0 lib vars monitor now = .ok (r, calls)
        ∧ ∀ mv, r = some mv → mv.isValue := by
  unfold ResultFits LibmathevalVars.evaluate at h
  dsimp only at h
  unfold rbMonitorOpValue0
  dsimp only
  split
  . exact ⟨none, _, rfl, by simp⟩
  . next hnormal =>
    rw [Bool.not_eq_true', Bool.not_eq_false] at hnormal
    rw [if_pos (Nat.lt_of_succ_le (h hnormal))]
    refine ⟨_, _, rfl, ?_⟩
    intro mv hmv
    cases hmv
    rfl

theorem rbMonitorOpValue0_of_not_fits {lib : Matheval} {vars : LibmathevalVars} {monitor : Monitor}
    (h : ¬ ResultFits lib vars monitor) (now : Int)
    : rbMonitorOpValue0 lib vars monitor now =
        .error (.valBuf
          { operation := monitor.cmdArg
            names := vars.names.take vars.count
            values := vars.values.take vars.count }) := by
  unfold ResultFits LibmathevalVars.evaluate at h
  simp only [Classical.not_imp] at h
  unfold rbMonitorOpValue0
  dsimp only
  rw [h.1, Bool.not_true, if_neg Bool.false_ne_true, if_neg (by omega)]

theorem callsOf_rbMonitorOpValue0 (lib : Matheval) (vars : LibmathevalVars) (monitor : Monitor)
    (now : Int)
    : callsOf Prod.snd (rbMonitorOpValue0 lib vars monitor now) =
        [{ operation := monitor.cmdArg
           names := vars.names.take vars.count
           values := vars.values.take vars.count }] := by
  unfold rbMonitorOpValue0
  dsimp only
  split
  . rfl
  . split <;> rfl

theorem length_of_scalars {opVars : List (Option MonitorValue)} {xs : List Binary64}
    (h : scalars opVars = some xs)
    : xs.length = opVars.length := by
  induction opVars generalizing xs with
  | nil =>
    simp only [scalars, Option.some.injEq] at h
    simp [← h]
  | cons mv rest ih =>
    match mv with
    | none => simp [scalars] at h
    | some (.array _ _) => simp [scalars] at h
    | some (.value x) =>
      simp only [scalars, Option.map_eq_some_iff] at h
      rcases h with ⟨ys, hys, hxs⟩
      simp [← hxs, ih hys]

theorem scalars_eq_some_iff {opVars : List (Option MonitorValue)} {xs : List Binary64}
    : scalars opVars = some xs
        ↔
      List.Forall₂ (fun mv x => ∃ v, mv = some (.value v) ∧ v.value = x) opVars xs := by
  induction opVars generalizing xs with
  | nil => simp [scalars, eq_comm]
  | cons mv rest ih =>
    match mv with
    | none => simp [scalars, List.forall₂_cons_left_iff]
    | some (.array _ _) => simp [scalars, List.forall₂_cons_left_iff]
    | some (.value x) =>
      simp only [scalars, Option.map_eq_some_iff, ih, List.forall₂_cons_left_iff]
      constructor
      . intro hex
        rcases hex with ⟨ys, hys, rfl⟩
        exact ⟨x.value, ys, ⟨x, rfl, rfl⟩, hys, rfl⟩
      . intro hex
        rcases hex with ⟨_, ys, ⟨_, hv, rfl⟩, hys, rfl⟩
        cases hv
        exact ⟨ys, hys, rfl⟩

theorem set_append_replicate {α : Type} (l : List α) (k : Nat) (a b : α)
    : (l ++ List.replicate (k + 1) a).set l.length b = (l ++ [b]) ++ List.replicate k a := by
  simp [List.replicate_succ]

namespace opLibmathevalVars

theorem go_scalars (names : List CStr) {rest : List (Option MonitorValue)} {xs : List Binary64}
    (h : scalars rest = some xs) (i e : Nat) (hlen : names.length = i + rest.length)
    (values : List Binary64)
    : go names rest i e
        { names := (names.take i).map some ++ List.replicate rest.length none
          values := values
          count := i }
        =
      .ok (some { names := names.map some, values := values, count := i + rest.length }) := by
  induction rest generalizing i xs with
  | nil =>
    simp only [List.length_nil, Nat.add_zero] at hlen
    simp [go, ← hlen]
  | cons mv rest ih =>
    match mv with
    | none => simp [scalars] at h
    | some (.array _ _) => simp [scalars] at h
    | some (.value x) =>
      simp only [scalars, Option.map_eq_some_iff] at h
      rcases h with ⟨ys, hys, _⟩
      simp only [List.length_cons] at hlen
      have hi : i < names.length := by omega
      have hset : ((names.take i).map some ++ List.replicate (rest.length + 1) none).set i
          (some names[i]) = (names.take (i + 1)).map some ++ List.replicate rest.length none := by
        have := set_append_replicate ((names.take i).map some) rest.length none (some names[i])
        simp only [List.length_map, List.length_take, Nat.min_eq_left (Nat.le_of_lt hi)] at this
        rw [this, List.take_succ_eq_append_getElem hi, List.map_append]
        rfl
      have := ih hys (i + 1) (by omega)
      simp only [go, List.getElem?_eq_getElem hi, List.length_cons, hset]
      rw [this]
      simp only [Nat.add_assoc, Nat.add_comm 1]

theorem go_ok (names : List CStr) (rest : List (Option MonitorValue)) (i e : Nat)
    (vars : LibmathevalVars) (hlen : i + rest.length ≤ names.length)
    : ∃ r, go names rest i e vars = .ok r := by
  induction rest generalizing i e vars with
  | nil => exact ⟨_, rfl⟩
  | cons mv rest ih =>
    simp only [List.length_cons] at hlen
    have hi : i < names.length := by omega
    match mv with
    | none => exact ih (i + 1) e vars (by omega)
    | some (.value x) =>
      simp only [go, List.getElem?_eq_getElem hi]
      apply ih
      omega
    | some (.array children so) =>
      simp only [go, List.getElem?_eq_getElem hi]
      split
      . apply ih
        omega
      . split
        . exact ⟨_, rfl⟩
        . apply ih
          omega

theorem go_sameSize (names : List CStr) (rest : List (Option MonitorValue)) (i e : Nat)
    (vars : LibmathevalVars) (hlen : i + rest.length ≤ names.length) (hcount : 0 < vars.count)
    : ∃ vars', go names rest i e vars = .ok (if sameSize e rest then some vars' else none) := by
  induction rest generalizing i vars with
  | nil => exact ⟨vars, rfl⟩
  | cons mv rest ih =>
    simp only [List.length_cons] at hlen
    have hi : i < names.length := by omega
    match mv with
    | none => exact ih (i + 1) vars (by omega) hcount
    | some (.value x) =>
      simp only [go, List.getElem?_eq_getElem hi]
      rcases ih (i + 1)
        { vars with names := vars.names.set i (some names[i]), count := vars.count + 1 }
        (by omega) (by simp) with
        ⟨vars', h⟩
      exact ⟨vars', by simp [h, sameSize]⟩
    | some (.array children so) =>
      have : vars.count ≠ 0 := by omega
      simp only [go, List.getElem?_eq_getElem hi, this, ↓reduceIte]
      by_cases hsize : children.length = e
      . rcases ih (i + 1)
          { vars with names := vars.names.set i (some names[i]), count := vars.count + 1 }
          (by omega) (by simp) with
          ⟨vars', h⟩
        exact ⟨vars', by simp [h, hsize, sameSize]⟩
      . exact ⟨vars, by simp [hsize, sameSize]⟩

end opLibmathevalVars

theorem rbMonitorOpValue.go_scalars (lib : Matheval) (monitor : Monitor) (now : Int)
    {rest : List (Option MonitorValue)} {xs : List Binary64} (h : scalars rest = some xs)
    (ys : List Binary64) (names : List (Option CStr)) (count : Nat)
    : go lib monitor now rest ys.length
        { names := names, values := ys ++ List.replicate rest.length 0, count := count }
        =
      rbMonitorOpValue0 lib { names := names, values := ys ++ xs, count := count } monitor now := by
  induction rest generalizing ys xs with
  | nil =>
    simp only [scalars, Option.some.injEq] at h
    simp [go, ← h]
  | cons mv rest ih =>
    match mv with
    | none => simp [scalars] at h
    | some (.array _ _) => simp [scalars] at h
    | some (.value x) =>
      simp only [scalars, Option.map_eq_some_iff] at h
      rcases h with ⟨zs, hzs, hxs⟩
      have := ih hzs (ys ++ [x.value])
      simp only [List.length_append, List.length_singleton, List.append_assoc,
        List.singleton_append, hxs] at this
      rw [← this]
      simp only [go, MonitorValue.isValue, Bool.not_true, Bool.false_eq_true, ↓reduceIte,
        MonitorValue.asValue_value, List.length_cons, set_append_replicate]
      simp [Bind.bind, Except.bind]

theorem rbMonitorOpValue.go_of_scalars_eq_none (lib : Matheval) (monitor : Monitor) (now : Int)
    {rest : List (Option MonitorValue)} (h : scalars rest = none) (v : Nat) (vars : LibmathevalVars)
    : go lib monitor now rest v vars = .ok (none, []) := by
  induction rest generalizing v vars with
  | nil => simp [scalars] at h
  | cons mv rest ih =>
    match mv with
    | none => rfl
    | some (.array _ _) => rfl
    | some (.value x) =>
      simp only [scalars, Option.map_eq_none_iff] at h
      simpa [go, MonitorValue.isValue, Bind.bind, Except.bind] using ih h _ _

theorem rbMonitorOpVectorI_of_array (lib : Matheval) (children : List (Option MonitorValue))
    (so : Option MonitorValue) (rest : List (Option MonitorValue)) (vars : LibmathevalVars)
    (vPos : Nat) (monitor : Monitor) (now : Int)
    : rbMonitorOpVectorI lib (some (.array children so) :: rest) vars vPos monitor now
        =
      .ok (none, []) := by
  simp [rbMonitorOpVectorI, rbMonitorOpVectorI.go, MonitorValue.isValue]

theorem rbMonitorOpVector.loop_of_array (lib : Matheval) (children : List (Option MonitorValue))
    (so : Option MonitorValue) (rest : List (Option MonitorValue)) (vars : LibmathevalVars)
    (monitor : Monitor) (now : Int) (todo i : Nat) (acc : Acc)
    : loop lib (some (.array children so) :: rest) vars monitor now todo i acc
        =
      .ok { acc with children := acc.children ++ List.replicate todo none } := by
  induction todo generalizing i acc with
  | zero => simp [loop]
  | succ todo ih =>
    unfold loop
    rw [rbMonitorOpVectorI_of_array]
    simp [Bind.bind, Except.bind, ih, List.replicate_succ]

@[simp]
theorem splitOp_zero (splitop : Option CStr) (sum : Binary64) (now : Int)
    : splitOp splitop sum 0 now = none := by
  cases splitop <;> simp [splitOp]

theorem rbMonitorOpVector_of_array (lib : Matheval) (children : List (Option MonitorValue))
    (so : Option MonitorValue) (rest : List (Option MonitorValue)) (vars : LibmathevalVars)
    (monitor : Monitor) (now : Int)
    : rbMonitorOpVector lib (.array children so) (some (.array children so) :: rest) vars monitor now
        =
      .ok (some (.array (List.replicate children.length none) none), []) := by
  simp [rbMonitorOpVector, rbMonitorOpVector.loop_of_array, Bind.bind, Except.bind, Pure.pure,
    Except.pure]

section GetOpResult

variable (lib : Matheval) (monitor : Monitor) (now : Int)

@[simp]
theorem rbMonitorGetOpResult_none : rbMonitorGetOpResult lib monitor none now = .ok (none, []) :=
  rfl

variable {rest : List (Option MonitorValue)}

theorem rbMonitorGetOpResult_of_not_create (opVars : Option (List (Option MonitorValue)))
    (h : lib.create monitor.cmdArg = false)
    : rbMonitorGetOpResult lib monitor opVars now = .ok (none, []) := by
  unfold rbMonitorGetOpResult
  split
  . rfl
  . rfl
  . simp [h]

theorem rbMonitorGetOpResult_of_null
    (hlen : (lib.getVariables monitor.cmdArg).length = rest.length + 1)
    : rbMonitorGetOpResult lib monitor (some (none :: rest)) now = .ok (none, []) := by
  cases hc : lib.create monitor.cmdArg with
  | false => exact rbMonitorGetOpResult_of_not_create lib monitor now _ hc
  | true =>
    rcases opLibmathevalVars.go_ok (lib.getVariables monitor.cmdArg)
      (none :: rest) 0 0 (newLibmathevalVars (rest.length + 1)) (by simp [hlen]) with
      ⟨r, hr⟩
    simp only [rbMonitorGetOpResult, hc, opLibmathevalVars, List.length_cons, hr, Bind.bind,
      Except.bind]
    cases r <;> rfl

theorem rbMonitorGetOpResult_of_array (children : List (Option MonitorValue))
    (so : Option MonitorValue) (hc : lib.create monitor.cmdArg)
    (hlen : (lib.getVariables monitor.cmdArg).length = rest.length + 1)
    : rbMonitorGetOpResult lib monitor (some (some (.array children so) :: rest)) now
        =
      .ok (if sameSize children.length rest then
        (some (.array (List.replicate children.length none) none), [])
      else
        (none, [])) := by
  have h0 : 0 < (lib.getVariables monitor.cmdArg).length := by omega
  rcases opLibmathevalVars.go_sameSize (lib.getVariables monitor.cmdArg)
    rest 1 children.length
    { newLibmathevalVars (rest.length + 1) with
      names := (newLibmathevalVars (rest.length + 1)).names.set 0
        (some (lib.getVariables monitor.cmdArg)[0])
      count := (newLibmathevalVars (rest.length + 1)).count + 1 }
    (by omega) (by simp) with
    ⟨vars', h⟩
  simp only [rbMonitorGetOpResult, hc, opLibmathevalVars, opLibmathevalVars.go, List.length_cons,
    List.getElem?_eq_getElem h0, Nat.zero_add]
  have hcount : (newLibmathevalVars (rest.length + 1)).count = 0 := rfl
  simp only [hcount, ↓reduceIte] at h ⊢
  simp only [h, Bind.bind, Except.bind]
  by_cases hsize : sameSize children.length rest
  . simp [hsize, MonitorValue.isValue, rbMonitorOpVector_of_array]
  . simp [hsize]

theorem rbMonitorGetOpResult_of_value (x : Value) (hc : lib.create monitor.cmdArg)
    (hlen : (lib.getVariables monitor.cmdArg).length = rest.length + 1)
    : rbMonitorGetOpResult lib monitor (some (some (.value x) :: rest)) now
        =
      match scalars (some (.value x) :: rest) with
      | some xs => rbMonitorOpValue0 lib (varsOf lib monitor xs) monitor now
      | none => .ok (none, []) := by
  cases hs : scalars (some (.value x) :: rest) with
  | none =>
    rcases opLibmathevalVars.go_ok (lib.getVariables monitor.cmdArg)
      (some (.value x) :: rest) 0 0 (newLibmathevalVars (rest.length + 1)) (by simp [hlen]) with
      ⟨r, hr⟩
    simp only [rbMonitorGetOpResult, hc, opLibmathevalVars, List.length_cons, hr, Bind.bind,
      Except.bind]
    cases r with
    | none => rfl
    | some vars =>
      simp [MonitorValue.isValue, rbMonitorOpValue,
        rbMonitorOpValue.go_of_scalars_eq_none lib monitor now hs]
  | some xs =>
    have hvars := opLibmathevalVars.go_scalars (lib.getVariables monitor.cmdArg) hs 0 0
      (by simp [hlen]) (List.replicate (rest.length + 1) 0)
    have hvalue := rbMonitorOpValue.go_scalars lib monitor now hs []
      ((lib.getVariables monitor.cmdArg).map some) (rest.length + 1)
    simp only [List.take_zero, List.map_nil, List.nil_append, List.length_cons, Nat.zero_add,
      List.length_nil] at hvars hvalue
    simp only [rbMonitorGetOpResult, hc, opLibmathevalVars, newLibmathevalVars, List.length_cons,
      hvars, Bind.bind, Except.bind, Bool.not_true, Bool.false_eq_true, ↓reduceIte,
      MonitorValue.isValue, rbMonitorOpValue, hvalue]
    have hxs := length_of_scalars hs
    rw [List.length_cons] at hxs
    unfold varsOf
    rw [hxs]

theorem rbMonitorGetOpResult_of_nil : rbMonitorGetOpResult lib monitor (some []) now = .ok (none, [])
    :=
  rfl

theorem callsOf_rbMonitorGetOpResult {opVars : List (Option MonitorValue)}
    (hlen : (lib.getVariables monitor.cmdArg).length = opVars.length)
    : callsOf Prod.snd (rbMonitorGetOpResult lib monitor (some opVars) now) = []
        ∨ ∃ xs, scalars opVars = some xs
          ∧ callsOf Prod.snd (rbMonitorGetOpResult lib monitor (some opVars) now)
            = [evalCall lib monitor xs] := by
  cases hc : lib.create monitor.cmdArg with
  | false =>
    rw [rbMonitorGetOpResult_of_not_create lib monitor now _ hc]
    exact .inl rfl
  | true =>
    match opVars with
    | [] => exact .inl rfl
    | none :: rest =>
      rw [rbMonitorGetOpResult_of_null lib monitor now hlen]
      exact .inl rfl
    | some (.array children so) :: rest =>
      rw [rbMonitorGetOpResult_of_array lib monitor now children so hc hlen]
      split <;> exact .inl rfl
    | some (.value x) :: rest =>
      rw [rbMonitorGetOpResult_of_value lib monitor now x hc hlen]
      cases hs : scalars (some (.value x) :: rest) with
      | none => exact .inl rfl
      | some xs =>
        have hxs := length_of_scalars hs
        refine .inr ⟨xs, rfl, ?_⟩
        simp only [callsOf_rbMonitorOpValue0, varsOf, evalCall]
        rw [List.take_of_length_le (by simp [hlen, hxs]), List.take_length]

theorem rbMonitorOpValue.go_eq_opValue0 {xs : List Binary64} (h : scalars rest = some xs) (v : Nat)
    (vars : LibmathevalVars)
    : ∃ vars', go lib monitor now rest v vars = rbMonitorOpValue0 lib vars' monitor now := by
  induction rest generalizing v vars xs with
  | nil => exact ⟨vars, rfl⟩
  | cons mv rest ih =>
    match mv with
    | none => simp [scalars] at h
    | some (.array _ _) => simp [scalars] at h
    | some (.value x) =>
      simp only [scalars, Option.map_eq_some_iff] at h
      rcases h with ⟨zs, hzs, _⟩
      simpa [go, MonitorValue.isValue, Bind.bind, Except.bind] using ih hzs _ _

theorem rbMonitorGetOpResult_shape {opVars : Option (List (Option MonitorValue))}
    {r : Option MonitorValue} {calls : List EvalCall}
    (h : rbMonitorGetOpResult lib monitor opVars now = .ok (r, calls))
    : r = none ∨ (∃ n, r = some (.array (List.replicate n none) none))
        ∨ ∃ v operands xs, r = some (.value v) ∧ opVars = some operands
          ∧ scalars operands = some xs := by
  unfold rbMonitorGetOpResult at h
  match opVars with
  | none =>
    cases h
    exact Or.inl rfl
  | some [] =>
    cases h
    exact Or.inl rfl
  | some (mv0 :: rest) =>
    simp only at h
    split at h
    . cases h
      exact Or.inl rfl
    . rcases CM.bind_eq_ok.mp h with ⟨vars?, _, h⟩
      match vars?, mv0 with
      | none, _ =>
        cases h
        exact Or.inl rfl
      | some vars, none =>
        cases h
        exact Or.inl rfl
      | some vars, some (.array children so) =>
        simp only [MonitorValue.isValue, Bool.false_eq_true, ↓reduceIte,
          rbMonitorOpVector_of_array, Except.ok.injEq, Prod.mk.injEq] at h
        exact Or.inr (Or.inl ⟨children.length, h.1.symm⟩)
      | some vars, some (.value x) =>
        simp only [MonitorValue.isValue, ↓reduceIte, rbMonitorOpValue] at h
        cases hs : scalars (some (.value x) :: rest) with
        | none =>
          rw [rbMonitorOpValue.go_of_scalars_eq_none lib monitor now hs] at h
          cases h
          exact Or.inl rfl
        | some xs =>
          rcases rbMonitorOpValue.go_eq_opValue0 lib monitor now hs 0 vars with ⟨vars', hvars'⟩
          rw [hvars'] at h
          unfold rbMonitorOpValue0 at h
          simp only at h
          split at h
          . cases h
            exact Or.inl rfl
          . split at h
            . cases h
              exact Or.inr (Or.inr ⟨_, _, xs, rfl, rfl, hs⟩)
            . cases h

end GetOpResult

end RbMonitor
