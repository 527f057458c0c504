import RbMonitor.Lib.DecimalText
import RbMonitor.External.Lemmas

/-!
This module contains what is reported of the integers of an SNMP agent.
-/

namespace RbMonitor

open CString

namespace SnmpResponse

/-- The integer that the agent sent. -/
def intValue : SnmpResponse → Option Int
  | .integer n | .gauge n | .counter32 n => some n
  | .counter64 high low => some (high * 2 ^ 32 + low)
  | .error | .octetStr _ | .unknown => none

/-- The values that an agent can send: 32 bits, and two words of 32 bits for a `Counter64`. -/
def InRange : SnmpResponse → Prop
  | .integer n => -2 ^ 31 ≤ n ∧ n < 2 ^ 31
  | .gauge n | .counter32 n => 0 ≤ n ∧ n < 2 ^ 32
  | .counter64 high low => high < 2 ^ 32 ∧ low < 2 ^ 32
  | .error | .octetStr _ | .unknown => True

/-- A `Counter64` has not passed `2 ^ 32` yet. -/
def HighZero : SnmpResponse → Prop
  | .counter64 high _ => high = 0
  | _ => True

end SnmpResponse

/-- What a scalar monitor reports of a response. -/
def ScalarReports (response : SnmpResponse) (number : Binary64) : Prop :=
  ∀ (monitor : Monitor) (now : Int), monitor.splittok = none →
    rbMonitorGetSnmpExternalValue monitor response now = .ok (processNovectorMonitor number now)

/-- What a vector monitor reads again from the text: a separator that is not in the text leaves one
element, and only one that is all of the text leaves none. -/
def VectorReports (response : SnmpResponse) (text : CStr) (number : Binary64) : Prop :=
  ∀ (monitor : Monitor) (splittok : CStr) (now : Int), monitor.splittok = some splittok →
    splittok ≠ [] → monitor.timestampGiven = false →
      ∃ children so,
        rbMonitorGetSnmpExternalValue monitor response now = .ok (.array children so)
          ∧ (splittok ≠ text → children[0]? = some (some (processNovectorMonitor number now)))
          ∧ (strstr text splittok = none → children.length = 1)

/-- The integers of successive responses are reported as they are. -/
structure ReportsIntegers (responses : List SnmpResponse) : Prop where
  text : ∀ response ∈ responses, ∀ n, response.intValue = some n →
    (snmpSolveResponse response).1 = printInt n
  scalar : ∀ response ∈ responses, ∀ n, response.intValue = some n →
    ScalarReports response (Binary64.ofInt n)
  vector : ∀ response ∈ responses, ∀ n, response.intValue = some n →
    VectorReports response (printInt n) (Binary64.ofInt n)
  /-- A value that is not below an earlier one is not reported below it. -/
  grows : responses.Pairwise fun response response' =>
    ∀ n n', response.intValue = some n → response'.intValue = some n' → n ≤ n' →
      (snmpSolveResponse response).2 ≤ (snmpSolveResponse response').2

theorem SnmpResponse.natAbs_le_of_intValue {response : SnmpResponse} (hrange : response.InRange)
    (hhigh : response.HighZero) {n : Int} (h : response.intValue = some n)
    : n.natAbs ≤ 2 ^ 53 := by
  cases response with
  | error => cases h
  | octetStr bytes => cases h
  | unknown => cases h
  | integer m =>
    cases h
    unfold InRange at hrange
    omega
  | gauge m =>
    cases h
    unfold InRange at hrange
    omega
  | counter32 m =>
    cases h
    unfold InRange at hrange
    omega
  | counter64 high low =>
    cases h
    unfold InRange at hrange
    unfold HighZero at hhigh
    omega

theorem snmpSolveResponse_of_intValue {response : SnmpResponse} (hhigh : response.HighZero) {n : Int}
    (h : response.intValue = some n)
    : snmpSolveResponse response = (printInt n, Binary64.ofInt n) := by
  cases response with
  | error => cases h
  | octetStr bytes => cases h
  | unknown => cases h
  | integer m =>
    cases h
    rfl
  | gauge m =>
    cases h
    rfl
  | counter32 m =>
    cases h
    rfl
  | counter64 high low =>
    unfold SnmpResponse.HighZero at hhigh
    cases h
    simp [snmpSolveResponse, hhigh, printInt_natCast]

theorem elementValue_printInt {monitor : Monitor} {n : Int} (h : n.natAbs ≤ 2 ^ 53)
    (hgiven : monitor.timestampGiven = false) {splittok : CStr} (hne : splittok ≠ printInt n)
    {now : Int}
    : elementValue monitor splittok now (printInt n) =
        some { timestamp := now, value := Binary64.ofInt n } := by
  unfold elementValue
  rw [if_neg (Ne.symm hne)]
  simp [hgiven, extractVectorValue, extractVectorValue.toDouble, strtod_printInt h]

section

variable {response : SnmpResponse} (hhigh : response.HighZero) {n : Int}
variable (h : response.intValue = some n)

include hhigh h

theorem rbMonitorGetSnmpExternalValue_of_intValue (monitor : Monitor) (now : Int)
    : rbMonitorGetSnmpExternalValue monitor response now =
        rbMonitorGetExternalValue monitor (printInt n) (Binary64.ofInt n) now := by
  unfold rbMonitorGetSnmpExternalValue
  rw [snmpSolveResponse_of_intValue hhigh h]

theorem scalarReports_of_intValue : ScalarReports response (Binary64.ofInt n) := by
  intro monitor now hsplit
  rw [rbMonitorGetSnmpExternalValue_of_intValue hhigh h]
  simp [rbMonitorGetExternalValue, printInt_ne_nil, hsplit]

theorem vectorReports_of_intValue (hrange : response.InRange)
    : VectorReports response (printInt n) (Binary64.ofInt n) := by
  intro monitor splittok now hsplit htok hgiven
  have hsmall := SnmpResponse.natAbs_le_of_intValue hrange hhigh h
  rw [rbMonitorGetSnmpExternalValue_of_intValue hhigh h]
  simp only [rbMonitorGetExternalValue, printInt_ne_nil, if_false, hsplit,
    processVectorMonitor_eq monitor htok]
  refine ⟨_, _, rfl, ?_, ?_⟩
  . intro hne
    simp [getElem?_starts_zero htok, elementValue_printInt hsmall hgiven hne, processNovectorMonitor]
  . intro hnone
    rw [strstr_eq_cut, Option.map_eq_none_iff] at hnone
    simp [starts_of_cut_eq_none hnone]

end

theorem high_eq_zero_of_text {high low : Nat}
    (h : (snmpSolveResponse (.counter64 high low)).1 = printInt (high * 2 ^ 32 + low))
    : high = 0 := by
  have hprint : printNat low = printNat (high * 2 ^ 32 + low) := by
    rw [← printInt_natCast (high * 2 ^ 32 + low)]
    push_cast
    exact h
  have := printNat_injective hprint
  omega

/-- The integers are reported as they are exactly as long as no `Counter64` passes `2 ^ 32`. -/
theorem reportsIntegers_iff {responses : List SnmpResponse}
    (hrange : ∀ response ∈ responses, response.InRange)
    : ReportsIntegers responses ↔ ∀ response ∈ responses, response.HighZero := by
  constructor
  . intro hreports response hmem
    cases response with
    | counter64 high low => exact high_eq_zero_of_text (hreports.text _ hmem _ rfl)
    | _ => exact trivial
  . intro hhigh
    refine ⟨?_, ?_, ?_, ?_⟩
    . intro response hmem n h
      rw [snmpSolveResponse_of_intValue (hhigh response hmem) h]
    . intro response hmem n h
      exact scalarReports_of_intValue (hhigh response hmem) h
    . intro response hmem n h
      exact vectorReports_of_intValue (hhigh response hmem) h (hrange response hmem)
    . rw [List.pairwise_iff_forall_sublist]
      intro response response' hsub n n' h h' hle
      have hmem := hsub.subset List.mem_cons_self
      have hmem' := hsub.subset (List.mem_cons_of_mem _ List.mem_cons_self)
      rw [snmpSolveResponse_of_intValue (hhigh _ hmem) h,
        snmpSolveResponse_of_intValue (hhigh _ hmem') h']
      exact Binary64.ofInt_le_ofInt
        (SnmpResponse.natAbs_le_of_intValue (hrange _ hmem) (hhigh _ hmem) h)
        (SnmpResponse.natAbs_le_of_intValue (hrange _ hmem') (hhigh _ hmem') h') hle

/-- A counter up to its 32 bits, and integers at their limits. -/
def limitResponses : List SnmpResponse :=
  [.integer (-2147483648), .gauge 4294967295, .counter64 0 7, .counter64 0 4294967295]

theorem reportsIntegers_iff_limits
    : ReportsIntegers limitResponses ↔ ∀ response ∈ limitResponses, response.HighZero := by
  apply reportsIntegers_iff
  simp [limitResponses, SnmpResponse.InRange]

/-- The counter passes `2 ^ 32`, and the report falls to 0. -/
theorem not_reportsIntegers_wrap
    : ¬ ReportsIntegers [.counter64 0 4294967295, .counter64 1 0] := by
  intro hreports
  have hhigh : 1 = 0 := high_eq_zero_of_text (hreports.text (.counter64 1 0) (by simp) _ rfl)
  cases hhigh

end RbMonitor
