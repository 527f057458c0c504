import RbMonitor.External.Lemmas
import RbMonitor.Monitor.Parse

/-!
This module contains the two scans of a vector response: whether they end, and that the one that
fills the array goes over as many positions as the one that sizes it.
-/

namespace RbMonitor

open CString

/-- Both loops end: the one that counts the elements, and the one that fills as many slots. -/
def SplittingEnds (monitor : Monitor) (splittok valueBuf : CStr) (now : Int) : Prop :=
  ∃ fuel n acc,
    vectorElements.go splittok fuel valueBuf 1 = .ok n
      ∧ processVectorMonitor.loop monitor splittok now fuel (some valueBuf) 0
          { children := List.replicate n none } = .ok acc

theorem vectorElements.go_nil (fuel : Nat) (haystack : CStr) (ret : Nat)
    : go [] fuel haystack ret = .error .divergence := by
  induction fuel generalizing haystack ret with
  | zero => rfl
  | succ fuel ih =>
    unfold go
    rw [strstr_nil_right]
    apply ih

namespace processVectorMonitor

variable (monitor : Monitor) {splittok : CStr} (now : Int)

theorem loop_start (htok : splittok ≠ []) (valueBuf : CStr)
    : loop monitor splittok now (valueBuf.length + 1) (some valueBuf) 0
          { children := List.replicate (fields splittok valueBuf).length none } =
        .ok (filled ((starts splittok valueBuf).map (elementValue monitor splittok now)) 0) := by
  exact loop_eq monitor now htok [] rfl (Nat.lt_succ_self valueBuf.length)

end processVectorMonitor

/-- The loops end exactly when the token is not empty. -/
theorem splittingEnds_iff (monitor : Monitor) (splittok valueBuf : CStr) (now : Int)
    : SplittingEnds monitor splittok valueBuf now ↔ splittok ≠ [] := by
  constructor
  . intro h htok
    rcases h with ⟨fuel, n, acc, hcount, -⟩
    rw [htok, vectorElements.go_nil] at hcount
    cases hcount
  . intro htok
    exact ⟨valueBuf.length + 1, _, _, vectorElements_eq htok valueBuf,
      processVectorMonitor.loop_start monitor now htok valueBuf⟩

/-- Every token that the parser accepts ends the loops on every response. -/
def SplittingAlwaysEnds (jsonC : JsonC) (jsonMonitor sensorEnrichment : Json) : Prop :=
  ∀ monitor splittok,
    parseRbMonitor jsonC jsonMonitor sensorEnrichment = .ok (some monitor) →
      monitor.splittok = some splittok →
        ∀ valueBuf now, SplittingEnds monitor splittok valueBuf now

/-- A configuration with an empty token. -/
def emptySplitConfig : Json :=
  .object [("name".toList, .string "load".toList), ("system".toList, .string "echo 1".toList),
    ("split".toList, .string [])]

theorem not_splittingAlwaysEnds_emptySplit
    : ¬ SplittingAlwaysEnds ⟨fun _ => [], fun _ => 0⟩ emptySplitConfig (.object []) := by
  intro h
  have hends := h _ [] rfl rfl ['1'] 0
  rw [splittingEnds_iff] at hends
  exact hends rfl

namespace processVectorMonitor

variable (monitor : Monitor) {splittok : CStr} (now : Int)

/-- The iterations of the loop: the index of each and where its element starts. -/
def iterations (splittok : CStr) (fuel : Nat) (tok : Option CStr) (count : Nat)
    : CM (List (Nat × CStr)) :=
  match tok with
  | none => .ok []
  | some tok =>
    match fuel with
    | 0 => .error .divergence
    | fuel + 1 => do
      let tok := if 0 < count then tok.drop splittok.length else tok
      let steps ← iterations splittok fuel (strstr tok splittok) (count + 1)
      return (count, tok) :: steps

theorem loop_eq_foldlM {fuel : Nat} {tok : Option CStr} {count : Nat} {steps : List (Nat × CStr)}
    (h : iterations splittok fuel tok count = .ok steps) (acc : Acc)
    : loop monitor splittok now fuel tok count acc =
        steps.foldlM (fun acc step => element monitor splittok now step.2 step.1 acc) acc := by
  induction fuel generalizing tok count steps acc with
  | zero =>
    cases tok with
    | none =>
      cases h
      rfl
    | some tok => cases h
  | succ fuel ih =>
    cases tok with
    | none =>
      cases h
      rfl
    | some tok =>
      rcases CM.bind_eq_ok.mp h with ⟨rest, hrest, hsteps⟩
      cases hsteps
      unfold loop
      simp only [List.foldlM_cons]
      congr 1
      funext acc'
      exact ih hrest acc'

theorem iterations_eq (htok : splittok ≠ []) {fuel : Nat} {tok t : CStr} {count : Nat}
    (ht : (if 0 < count then tok.drop splittok.length else tok) = t) (hfuel : t.length < fuel)
    : iterations splittok fuel (some tok) count =
        .ok ((List.range' count (fields splittok t).length).zip (starts splittok t)) := by
  induction fuel generalizing tok t count with
  | zero => omega
  | succ fuel ih =>
    unfold iterations
    simp only [ht, Bind.bind, Except.bind]
    cases hcut : cut splittok t with
    | none =>
      rw [fields_of_cut_eq_none hcut, starts_of_cut_eq_none hcut]
      simp [strstr_eq_cut, hcut, iterations, Pure.pure, Except.pure]
    | some p =>
      have hlt := length_lt_of_cut htok hcut
      have hdrop : (if 0 < count + 1 then (splittok ++ p.2).drop splittok.length
          else splittok ++ p.2) = p.2 := by
        simp
      rw [fields_of_cut_eq_some htok hcut, starts_of_cut_eq_some htok hcut]
      simp only [strstr_eq_cut, hcut, Option.map_some]
      rw [ih hdrop (by omega)]
      simp [List.range'_succ, Pure.pure, Except.pure]

end processVectorMonitor

open processVectorMonitor in
/-- The iterations of the loop that fills the array, and what it leaves. -/
structure Agreement (monitor : Monitor) (splittok valueBuf : CStr) (now : Int)
    (steps : List (Nat × CStr)) (acc : Acc) : Prop where
  iterations : iterations splittok (valueBuf.length + 1) (some valueBuf) 0 = .ok steps
  body : ∀ start,
    loop monitor splittok now (valueBuf.length + 1) (some valueBuf) 0 start =
      steps.foldlM (fun acc step => element monitor splittok now step.2 step.1 acc) start
  counted : vectorElements valueBuf splittok = .ok steps.length
  /-- Each iteration writes to a slot of its own, and there is one for it. -/
  indices : steps.map Prod.fst = List.range steps.length
  loop : loop monitor splittok now (valueBuf.length + 1) (some valueBuf) 0
    { children := List.replicate steps.length none } = .ok acc
  children : acc.children =
    steps.map fun step => (elementValue monitor splittok now step.2).map .value
  sum : acc.sum = sumOf (steps.map fun step => elementValue monitor splittok now step.2)
  meanCount : acc.meanCount = countOf (steps.map fun step => elementValue monitor splittok now step.2)
  result : processVectorMonitor monitor splittok valueBuf now =
    .ok (.array acc.children (splitOp monitor.splitop acc.sum acc.meanCount now))
  /-- Without an element there is no operation. -/
  nonempty : ∀ mv, splitOp monitor.splitop acc.sum acc.meanCount now = some mv →
    0 < acc.meanCount ∧ ∃ v, some (.value v) ∈ acc.children

theorem pos_of_splitOp {splitop : Option CStr} {sum : Binary64} {count : Nat} {now : Int}
    {mv : MonitorValue} (h : splitOp splitop sum count now = some mv)
    : 0 < count := by
  unfold splitOp at h
  split at h
  . cases h
  . split at h
    . cases h
    . next hcount => exact Nat.pos_of_ne_zero hcount

open processVectorMonitor in
/-- The loop that fills the array makes as many iterations as elements were counted. Each has an
index of its own, and the operation on the split ranges over the slots that are filled. -/
theorem processVectorMonitor_agrees (monitor : Monitor) {splittok : CStr} (htok : splittok ≠ [])
    (valueBuf : CStr) (now : Int)
    : ∃ steps acc, Agreement monitor splittok valueBuf now steps acc := by
  let steps := (List.range (fields splittok valueBuf).length).zip (starts splittok valueBuf)
  let values := (starts splittok valueBuf).map (elementValue monitor splittok now)
  have hsteps : iterations splittok (valueBuf.length + 1) (some valueBuf) 0 = .ok steps := by
    rw [iterations_eq htok rfl (Nat.lt_succ_self valueBuf.length), ← List.range_eq_range']
    rfl
  have hlen : steps.length = (fields splittok valueBuf).length := by
    simp [steps]
  have hstarts : steps.map Prod.snd = starts splittok valueBuf := by
    apply List.map_snd_zip
    simp
  have hvalues : steps.map (fun step => elementValue monitor splittok now step.2) = values := by
    simp only [values, ← hstarts, List.map_map]
    rfl
  refine ⟨steps, filled values 0, ?_⟩
  constructor
  . exact hsteps
  . exact loop_eq_foldlM monitor now hsteps
  . rw [hlen]
    exact vectorElements_eq htok valueBuf
  . rw [hlen, List.map_fst_zip]
    simp
  . rw [hlen]
    exact loop_start monitor now htok valueBuf
  . simp only [filled, ← hvalues, List.map_map]
    simp
  . rw [hvalues]
    rfl
  . rw [hvalues]
    rfl
  . rw [processVectorMonitor_eq monitor htok]
    simp [filled, values]
  . intro mv hmv
    have hcount : 0 < countOf values := pos_of_splitOp hmv
    rcases List.exists_mem_of_length_pos hcount with ⟨v, hv⟩
    refine ⟨hcount, v, ?_⟩
    simpa [filled] using hv

/-- A token that overlaps itself. -/
theorem processVectorMonitor_agrees_overlap
    : ∃ steps acc,
        Agreement { type := .system, name := [], cmdArg := [], splitop := some ['s', 'u', 'm'] }
          [';', ';'] "1;;;2;;".toList 0 steps acc := by
  exact processVectorMonitor_agrees _ (by decide) _ 0

end RbMonitor
