import RbMonitor.Lib.StrtodReach
import RbMonitor.External.Lemmas
import RbMonitor.Monitor.Parse

/-!
This module contains which part of a vector response decides an element: its own field, as long as
the number that is read there ends with it.
-/

namespace RbMonitor

open CString

/-- The text that follows the separator of field `i`. -/
def textFrom (splittok valueBuf : CStr) (i : Nat) : CStr :=
  splittok.intercalate ((fields splittok valueBuf).drop i)

/-- The number that starts with field `i` ends before the field after it. -/
def StaysInField (splittok valueBuf : CStr) (i : Nat) : Prop :=
  (textFrom splittok valueBuf (i + 1)).length ≤ (strtod (textFrom splittok valueBuf i)).rest.length

/-- If both responses yield a child at index `i`, these have the same value. -/
def SameChild (monitor : Monitor) (splittok valueBuf valueBuf' : CStr) (i : Nat) : Prop :=
  ∀ now now' children children' so so' c c',
    processVectorMonitor monitor splittok valueBuf now = .ok (.array children so) →
      processVectorMonitor monitor splittok valueBuf' now' = .ok (.array children' so') →
        children[i]? = some (some c) →
          children'[i]? = some (some c') →
            ∃ v v', c = .value v ∧ c' = .value v' ∧ v.value = v'.value

theorem value_of_elementValue {monitor : Monitor} (hgiven : monitor.timestampGiven = false)
    {splittok tok : CStr} {now : Int} {v : Value}
    (h : elementValue monitor splittok now tok = some v)
    : v.value = (strtod tok).value := by
  unfold elementValue at h
  split at h
  . cases h
  . simp only [hgiven, Bool.false_eq_true, ↓reduceIte, extractVectorValue,
      extractVectorValue.toDouble] at h
    split at h
    . cases h
    . cases h
      rfl

theorem value_of_processVectorMonitor {monitor : Monitor} (hgiven : monitor.timestampGiven = false)
    {splittok : CStr} (htok : splittok ≠ []) {valueBuf : CStr} {now : Int}
    {children : List (Option MonitorValue)} {so : Option MonitorValue} {i : Nat} {c : MonitorValue}
    (hok : processVectorMonitor monitor splittok valueBuf now = .ok (.array children so))
    (hc : children[i]? = some (some c))
    : ∃ v, c = .value v ∧ v.value = (strtod (textFrom splittok valueBuf i)).value := by
  rw [processVectorMonitor_eq monitor htok] at hok
  cases hok
  by_cases hi : i < (fields splittok valueBuf).length
  . simp only [List.getElem?_map, getElem?_starts hi, Option.map_some, Option.some.injEq,
      Option.map_eq_some_iff] at hc
    rcases hc with ⟨v, hv, hvalue⟩
    exact ⟨v, hvalue.symm, value_of_elementValue hgiven hv⟩
  . have hnone : (starts splittok valueBuf)[i]? = none := by
      rw [List.getElem?_eq_none_iff, length_starts]
      omega
    simp [hnone] at hc

theorem strtod_textFrom {splittok valueBuf valueBuf' : CStr}
    (hlen : (fields splittok valueBuf).length = (fields splittok valueBuf').length) {i : Nat}
    (hfield : (fields splittok valueBuf)[i]? = (fields splittok valueBuf')[i]?)
    (h : StaysInField splittok valueBuf i) (h' : StaysInField splittok valueBuf' i)
    : (strtod (textFrom splittok valueBuf i)).value =
        (strtod (textFrom splittok valueBuf' i)).value := by
  unfold StaysInField textFrom at h h'
  unfold textFrom
  generalize fields splittok valueBuf = fs at *
  generalize fields splittok valueBuf' = fs' at *
  by_cases hi : i < fs.length
  . have hi' : i < fs'.length := by omega
    rw [List.getElem?_eq_getElem hi, List.getElem?_eq_getElem hi', Option.some.injEq] at hfield
    rw [List.drop_eq_getElem_cons hi] at h ⊢
    rw [List.drop_eq_getElem_cons hi'] at h' ⊢
    rw [← hfield] at h' ⊢
    by_cases hlast : i + 1 = fs.length
    . rw [List.drop_of_length_le (by omega), List.drop_of_length_le (by omega)]
    . have hne : fs.drop (i + 1) ≠ [] := by
        simp only [ne_eq, List.drop_eq_nil_iff]
        omega
      have hne' : fs'.drop (i + 1) ≠ [] := by
        simp only [ne_eq, List.drop_eq_nil_iff]
        omega
      rw [List.intercalate_cons_of_ne_nil hne] at h ⊢
      rw [List.intercalate_cons_of_ne_nil hne'] at h' ⊢
      rw [strtod_append h, strtod_append h']
  . rw [List.drop_of_length_le (by omega), List.drop_of_length_le (by omega)]

/-- The other fields do not matter to an element whose number ends with its field. -/
theorem sameChild_of_staysInField {monitor : Monitor} (hgiven : monitor.timestampGiven = false)
    {splittok : CStr} (htok : splittok ≠ []) {valueBuf valueBuf' : CStr}
    (hlen : (fields splittok valueBuf).length = (fields splittok valueBuf').length) {i : Nat}
    (hfield : (fields splittok valueBuf)[i]? = (fields splittok valueBuf')[i]?)
    (h : StaysInField splittok valueBuf i) (h' : StaysInField splittok valueBuf' i)
    : SameChild monitor splittok valueBuf valueBuf' i := by
  intro now now' children children' so so' c c' hok hok' hc hc'
  rcases value_of_processVectorMonitor hgiven htok hok hc with ⟨v, hv, hvalue⟩
  rcases value_of_processVectorMonitor hgiven htok hok' hc' with ⟨v', hv', hvalue'⟩
  refine ⟨v, v', hv, hv', ?_⟩
  rw [hvalue, hvalue']
  exact strtod_textFrom hlen hfield h h'

/-- A monitor that splits at blanks, and its configuration. -/
def blankMonitor : Monitor :=
  { type := .system, name := "load".toList, cmdArg := "uptime".toList, splittok := some [' '],
    enrichment := [("type".toList, .string "system".toList)] }

def blankConfig : Json :=
  .object [("name".toList, .string "load".toList), ("system".toList, .string "uptime".toList),
    ("split".toList, .string [' '])]

theorem sameChild_of_staysInField_blank
    : SameChild blankMonitor [' '] "1 2 3".toList "7 2 9".toList 1 := by
  exact sameChild_of_staysInField rfl (by decide) (by decide) (by decide)
    (by unfold StaysInField; decide +kernel) (by unfold StaysInField; decide +kernel)

/-- Every element is read from its own field. -/
def ReadsOwnField (jsonC : JsonC) (jsonMonitor sensorEnrichment : Json) : Prop :=
  ∀ monitor splittok,
    parseRbMonitor jsonC jsonMonitor sensorEnrichment = .ok (some monitor) →
      monitor.splittok = some splittok →
        splittok ≠ [] →
          monitor.timestampGiven = false →
            ∀ valueBuf valueBuf' i,
              (fields splittok valueBuf).length = (fields splittok valueBuf').length →
                (fields splittok valueBuf)[i]? = (fields splittok valueBuf')[i]? →
                  SameChild monitor splittok valueBuf valueBuf' i

theorem exists_child {monitor : Monitor} {splittok : CStr} (htok : splittok ≠ []) {valueBuf : CStr}
    {now : Int} {i : Nat} (hi : i < (fields splittok valueBuf).length)
    (h : (elementValue monitor splittok now (textFrom splittok valueBuf i)).isSome)
    : ∃ children so c,
        processVectorMonitor monitor splittok valueBuf now = .ok (.array children so)
          ∧ children[i]? = some (some c) := by
  rcases Option.isSome_iff_exists.mp h with ⟨v, hv⟩
  refine ⟨_, _, .value v, processVectorMonitor_eq monitor htok valueBuf now, ?_⟩
  unfold textFrom at hv
  simp [getElem?_starts hi, hv]

theorem strtod_of_sameChild {monitor : Monitor} (hgiven : monitor.timestampGiven = false)
    {splittok : CStr} (htok : splittok ≠ []) {valueBuf valueBuf' : CStr} {i : Nat} (now : Int)
    (hi : i < (fields splittok valueBuf).length) (hi' : i < (fields splittok valueBuf').length)
    (h : (elementValue monitor splittok now (textFrom splittok valueBuf i)).isSome)
    (h' : (elementValue monitor splittok now (textFrom splittok valueBuf' i)).isSome)
    (hsame : SameChild monitor splittok valueBuf valueBuf' i)
    : (strtod (textFrom splittok valueBuf i)).value =
        (strtod (textFrom splittok valueBuf' i)).value := by
  rcases exists_child htok hi h with ⟨children, so, c, hok, hc⟩
  rcases exists_child htok hi' h' with ⟨children', so', c', hok', hc'⟩
  rcases hsame _ _ _ _ _ _ _ _ hok hok' hc hc' with ⟨v, v', hv, hv', heq⟩
  rcases value_of_processVectorMonitor hgiven htok hok hc with ⟨w, hw, hvalue⟩
  rcases value_of_processVectorMonitor hgiven htok hok' hc' with ⟨w', hw', hvalue'⟩
  cases hv.symm.trans hw
  cases hv'.symm.trans hw'
  rw [← hvalue, ← hvalue', heq]

/-- An empty field is read as the one after it. -/
theorem not_readsOwnField_emptyField
    : ¬ ReadsOwnField ⟨fun _ => [], fun _ => 0⟩ blankConfig (.object []) := by
  intro h
  have hsame := h blankMonitor [' '] rfl rfl (by decide) rfl "1  2".toList "1  3".toList 1
    (by decide) (by decide)
  have heq := strtod_of_sameChild rfl (by decide) 0 (by decide) (by decide) (by decide +kernel)
    (by decide +kernel) hsame
  revert heq
  decide +kernel

end RbMonitor
