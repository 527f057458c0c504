import RbMonitor.External.Impl

/-!
This module contains what the splitter makes of a response: it ends, it fills one slot for each
field at most, and its children are scalars.
-/

namespace RbMonitor

open CString

theorem drop_append_length {α : Type} (l r : List α) : (l ++ r).drop l.length = r := by
  simp

theorem vectorElements.go_eq {splittok : CStr} (htok : splittok ≠ []) {fuel : Nat}
    {haystack : CStr} (hfuel : haystack.length < fuel) (ret : Nat)
    : go splittok fuel haystack (ret + 1) = .ok (ret + (fields splittok haystack).length) := by
  induction fuel generalizing haystack ret with
  | zero => omega
  | succ fuel ih =>
    unfold go
    rw [strstr_eq_cut]
    cases hcut : cut splittok haystack with
    | none => simp [fields_of_cut_eq_none hcut]
    | some p =>
      have hlt := length_lt_of_cut htok hcut
      simp only [Option.map_some, drop_append_length, fields_of_cut_eq_some htok hcut,
        List.length_cons]
      have hfuel' : p.2.length < fuel := by omega
      rw [ih hfuel' (ret + 1)]
      congr 1
      omega

theorem vectorElements_eq {splittok : CStr} (htok : splittok ≠ []) (haystack : CStr)
    : vectorElements haystack splittok = .ok (fields splittok haystack).length := by
  unfold vectorElements
  rw [vectorElements.go_eq htok (Nat.lt_succ_self haystack.length) 0]
  simp

/-- What the body of the loop makes of the element that starts at `tok`. -/
def elementValue (monitor : Monitor) (splittok : CStr) (now : Int) (tok : CStr) : Option Value :=
  if tok = splittok then
    none
  else
    let timestampSep := if monitor.timestampGiven then some DEFAULT_TIMESTAMP_SEP else none
    (extractVectorValue tok splittok timestampSep).map fun (v : Value) =>
      { v with timestamp := if v.timestamp ≠ 0 then v.timestamp else now }

/-- The sum of the elements that are there. -/
def sumOf (values : List (Option Value)) : Binary64 :=
  (values.filterMap id).foldl (fun sum v => sum + v.value) 0

def countOf (values : List (Option Value)) : Nat :=
  (values.filterMap id).length

namespace processVectorMonitor

variable (monitor : Monitor) {splittok : CStr} (now : Int)

/-- All children that are there are scalars. -/
def Acc.Flat (acc : Acc) : Prop :=
  ∀ c, some c ∈ acc.children → c.isValue

variable (splittok) in
theorem element_eq (tok : CStr) (count : Nat) (acc : Acc)
    : element monitor splittok now tok count acc =
        match elementValue monitor splittok now tok with
        | none => .ok acc
        | some v =>
          if count < acc.children.length then
            .ok {
              children := acc.children.set count (some (.value v))
              sum := acc.sum + v.value
              meanCount := acc.meanCount + 1
            }
          else
            .error .outOfBounds := by
  unfold element elementValue
  split
  . rfl
  . dsimp only
    split
    . next h => simp [h]
    . next v h => simp [h, processNovectorMonitor]

/-- The elements of which the loop is done, and `n` slots that it did not reach. -/
def filled (values : List (Option Value)) (n : Nat) : Acc where
  children := values.map (Option.map .value) ++ List.replicate n none
  sum := sumOf values
  meanCount := countOf values

theorem filled_flat (values : List (Option Value)) (n : Nat) : (filled values n).Flat := by
  intro c hc
  simp only [filled, List.mem_append, List.mem_map, List.mem_replicate] at hc
  cases hc with
  | inl h =>
    rcases h with ⟨v, _, hv⟩
    rcases Option.map_eq_some_iff.mp hv with ⟨v', _, hv'⟩
    rw [← hv']
    rfl
  | inr h => simp at h

variable (splittok) in
theorem element_filled (tok : CStr) (values : List (Option Value)) (n : Nat)
    : element monitor splittok now tok values.length (filled values (n + 1)) =
        .ok (filled (values ++ [elementValue monitor splittok now tok]) n) := by
  rw [element_eq]
  cases elementValue monitor splittok now tok with
  | none => simp [filled, sumOf, countOf, List.replicate_succ]
  | some v =>
    have hset : (values.map (Option.map MonitorValue.value) ++ List.replicate (n + 1) none).set
        values.length (some (.value v)) =
          values.map (Option.map .value) ++ some (.value v) :: List.replicate n none := by
      simp [List.replicate_succ]
    simp [filled, sumOf, countOf, hset]

theorem loop_eq (htok : splittok ≠ []) {fuel : Nat} {tok t : CStr} (values : List (Option Value))
    (ht : (if 0 < values.length then tok.drop splittok.length else tok) = t)
    (hfuel : t.length < fuel)
    : loop monitor splittok now fuel (some tok) values.length
          (filled values (fields splittok t).length) =
        .ok (filled (values ++ (starts splittok t).map (elementValue monitor splittok now)) 0) := by
  induction fuel generalizing tok t values with
  | zero => omega
  | succ fuel ih =>
    unfold loop
    simp only [ht, Bind.bind, Except.bind]
    cases hcut : cut splittok t with
    | none =>
      rw [fields_of_cut_eq_none hcut, starts_of_cut_eq_none hcut, List.length_singleton,
        element_filled]
      simp [strstr_eq_cut, hcut, loop]
    | some p =>
      have hlt := length_lt_of_cut htok hcut
      rw [fields_of_cut_eq_some htok hcut, starts_of_cut_eq_some htok hcut, List.length_cons,
        element_filled]
      let values' := values ++ [elementValue monitor splittok now t]
      have hdrop : (if 0 < values'.length then (splittok ++ p.2).drop splittok.length
          else splittok ++ p.2) = p.2 := by
        simp [values']
      have hrest := ih values' hdrop (by omega)
      simp only [values', List.length_append, List.length_singleton] at hrest
      simp only [strstr_eq_cut, hcut, Option.map_some]
      rw [hrest]
      simp

end processVectorMonitor

theorem splitOp_isValue {splitop : Option CStr} {sum : Binary64} {count : Nat} {now : Int}
    {mv : MonitorValue} (h : splitOp splitop sum count now = some mv)
    : mv.isValue := by
  unfold splitOp at h
  split at h
  . simp at h
  . split at h
    . simp at h
    . simp only [Option.some.injEq] at h
      subst h
      rfl

theorem processVectorMonitor_eq (monitor : Monitor) {splittok : CStr} (htok : splittok ≠ [])
    (valueBuf : CStr) (now : Int)
    : processVectorMonitor monitor splittok valueBuf now =
        let values := (starts splittok valueBuf).map (elementValue monitor splittok now)
        .ok (.array (values.map (Option.map .value))
          (splitOp monitor.splitop (sumOf values) (countOf values) now)) := by
  let n := (fields splittok valueBuf).length
  have hloop : processVectorMonitor.loop monitor splittok now (valueBuf.length + 1) (some valueBuf)
      0 (processVectorMonitor.filled [] n) =
        .ok (processVectorMonitor.filled
          ((starts splittok valueBuf).map (elementValue monitor splittok now)) 0) :=
    processVectorMonitor.loop_eq monitor now htok [] rfl (Nat.lt_succ_self valueBuf.length)
  have hstart : ({ children := List.replicate n none } : processVectorMonitor.Acc) =
      processVectorMonitor.filled [] n := rfl
  simp only [processVectorMonitor, vectorElements_eq htok, Bind.bind, Except.bind, Pure.pure,
    Except.pure]
  rw [hstart, hloop]
  simp [processVectorMonitor.filled]

theorem getElem?_of_processVectorMonitor {monitor : Monitor} {splittok valueBuf : CStr} {now : Int}
    (htok : splittok ≠ []) {children : List (Option MonitorValue)} {so : Option MonitorValue}
    (h : processVectorMonitor monitor splittok valueBuf now = .ok (.array children so)) (i : Nat)
    : children[i]? =
        (starts splittok valueBuf)[i]?.map fun tok =>
          (elementValue monitor splittok now tok).map .value := by
  rw [processVectorMonitor_eq monitor htok] at h
  simp only [Except.ok.injEq, MonitorValue.array.injEq] at h
  rw [← h.1]
  simp [Function.comp_def]

theorem processVectorMonitor_ok (monitor : Monitor) {splittok : CStr} (htok : splittok ≠ [])
    (valueBuf : CStr) (now : Int)
    : ∃ children so,
        processVectorMonitor monitor splittok valueBuf now = .ok (.array children so)
          ∧ children.length = (fields splittok valueBuf).length
          ∧ (MonitorValue.array children so).Flat := by
  let values := (starts splittok valueBuf).map (elementValue monitor splittok now)
  refine ⟨_, _, processVectorMonitor_eq monitor htok valueBuf now, by simp, ?_, ?_⟩
  . intro c hc
    apply processVectorMonitor.filled_flat values 0
    simpa [values, processVectorMonitor.filled] using hc
  . intro c hc
    exact splitOp_isValue hc

theorem rbMonitorGetExternalValue_ok (monitor : Monitor)
    (htok : monitor.splittok ≠ some []) (valueBuf : CStr) (number : Binary64) (now : Int)
    : ∃ mv, rbMonitorGetExternalValue monitor valueBuf number now = .ok mv
        ∧ mv.isValue = monitor.splittok.isNone
        ∧ mv.Flat := by
  unfold rbMonitorGetExternalValue
  dsimp only
  cases hsplit : monitor.splittok with
  | none => exact ⟨_, rfl, rfl, trivial⟩
  | some splittok =>
    have : splittok ≠ [] := by
      intro h
      rw [hsplit, h] at htok
      exact htok rfl
    rcases processVectorMonitor_ok monitor this
      (if valueBuf = [] then (['0'], (0 : Binary64)) else (valueBuf, number)).1 now with
      ⟨children, so, hok, _, hflat⟩
    exact ⟨_, hok, rfl, hflat⟩

end RbMonitor
