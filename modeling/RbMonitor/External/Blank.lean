import RbMonitor.Lib.StrtodReach
import RbMonitor.External.Split

/-!
This module contains what becomes of the empty fields of a vector response.
-/

namespace RbMonitor

open CString

/-- Some number starts with `c`. White space may stand before a number, too. -/
def BeginsNumber (c : Char) : Prop :=
  ∃ rest, startsWithNumber (c :: rest)

theorem elementValue_blank {monitor : Monitor} (hgiven : monitor.timestampGiven = false) {sep : Char}
    (hsep : ¬ BeginsNumber sep) (now : Int) {tok : CStr} (hblank : (fields [sep] tok)[0]? = some [])
    : elementValue monitor [sep] now tok =
        if tok = [sep] then none else some { timestamp := now, value := 0 } := by
  have hnumber : startsWithNumber tok = false := by
    cases hcut : cut [sep] tok with
    | none =>
      rw [fields_of_cut_eq_none hcut] at hblank
      cases hblank
      decide
    | some p =>
      rw [fields_of_cut_eq_some (by simp) hcut] at hblank
      have hbefore : p.1 = [] := by simpa using hblank
      rw [cut_eq_some hcut, hbefore]
      by_contra h
      exact hsep ⟨p.2, by simpa using h⟩
  unfold elementValue
  split
  . rfl
  . rcases strtod_of_not_startsWithNumber hnumber with ⟨hvalue, herange⟩
    simp [hgiven, extractVectorValue, extractVectorValue.toDouble, hvalue, herange]

open processVectorMonitor in
/-- Each empty field of a response yields a child of value 0, and the mean counts the children. -/
def BlanksCount (monitor : Monitor) (sep : Char) (valueBuf : CStr) (now : Int) : Prop :=
  ∃ (steps : List (Nat × CStr)) (acc : Acc),
    Agreement monitor [sep] valueBuf now steps acc
      ∧ acc.meanCount = (acc.children.filterMap id).length
      ∧ ∀ i : Nat, (fields [sep] valueBuf)[i]? = some [] →
          acc.children[i]? = some (some (processNovectorMonitor 0 now))

section

open processVectorMonitor

variable {monitor : Monitor} {splittok valueBuf : CStr} {now : Int} {steps : List (Nat × CStr)}
variable {acc : Acc}

theorem Agreement.meanCount_eq (h : Agreement monitor splittok valueBuf now steps acc)
    : acc.meanCount = (acc.children.filterMap id).length := by
  rw [h.meanCount, h.children]
  unfold countOf
  clear h
  induction steps with
  | nil => rfl
  | cons step steps ih =>
    cases hstep : elementValue monitor splittok now step.2 with
    | none => simpa [hstep] using ih
    | some v => simpa [hstep] using ih

end

theorem mem_starts_separator_iff {sep : Char} {valueBuf : CStr}
    : [sep] ∈ starts [sep] valueBuf ↔ valueBuf = [sep] ∨ [sep, sep] <:+ valueBuf := by
  rw [mem_starts_singleton, eq_comm]

theorem not_blanksCount_of_mem_starts {monitor : Monitor} {sep : Char} {valueBuf : CStr} {now : Int}
    (h : [sep] ∈ starts [sep] valueBuf)
    : ¬ BlanksCount monitor sep valueBuf now := by
  intro hcount
  rcases hcount with ⟨steps, acc, hagree, _, hblanks⟩
  rcases List.getElem?_of_mem h with ⟨i, hi⟩
  have hfields := fields_of_getElem?_starts (by simp) hi
  have hblank : (fields [sep] valueBuf)[i]? = some [] := by
    rw [← List.head?_drop, ← hfields]
    simp [fields, fields.go, cut]
  have hchild := hblanks i hblank
  rw [getElem?_of_processVectorMonitor (by simp) hagree.result, hi] at hchild
  simp [elementValue] at hchild

/-- The blanks count exactly when the response does not end in two of them. -/
theorem blanksCount_iff {monitor : Monitor} (hgiven : monitor.timestampGiven = false) {sep : Char}
    (hsep : ¬ BeginsNumber sep) (valueBuf : CStr) (now : Int)
    : BlanksCount monitor sep valueBuf now
        ↔ valueBuf ≠ [sep] ∧ ¬ [sep, sep] <:+ valueBuf := by
  rw [← not_or, ← mem_starts_separator_iff]
  constructor
  . intro h hlast
    exact not_blanksCount_of_mem_starts hlast h
  . intro h
    have htok : [sep] ≠ [] := by simp
    rcases processVectorMonitor_agrees monitor htok valueBuf now with ⟨steps, acc, hagree⟩
    refine ⟨steps, acc, hagree, hagree.meanCount_eq, ?_⟩
    intro i hi
    have hlt : i < (starts [sep] valueBuf).length := by
      rw [length_starts]
      exact (List.getElem?_eq_some_iff.mp hi).1
    have hstart := List.getElem?_eq_getElem hlt
    have hfields := fields_of_getElem?_starts htok hstart
    have hblank : (fields [sep] (starts [sep] valueBuf)[i])[0]? = some [] := by
      rw [hfields, List.getElem?_drop]
      exact hi
    have hne : (starts [sep] valueBuf)[i] ≠ [sep] := by
      intro heq
      have hmem := List.getElem_mem hlt
      rw [heq] at hmem
      exact h hmem
    rw [getElem?_of_processVectorMonitor htok hagree.result, hstart, Option.map_some,
      elementValue_blank hgiven hsep now hblank, if_neg hne]
    simp [processNovectorMonitor]

theorem not_beginsNumber_semicolon : ¬ BeginsNumber ';' := by
  intro h
  rcases h with ⟨rest, hrest⟩
  simp [startsWithNumber, strtod, strtodWord, strtodHex, strtodDecimal, stripSign, stripWord,
    scanDigits, isSpace] at hrest

/-- The packets received at each interface, and their mean. -/
def meanPacketsMonitor : Monitor :=
  { type := .system, name := "packets_received".toList, cmdArg := "get_pkts.sh".toList,
    splittok := some [';'], splitop := some "mean".toList }

theorem blanksCount_iff_inner
    : BlanksCount meanPacketsMonitor ';' ";2;;4;".toList 0
        ↔ ";2;;4;".toList ≠ [';'] ∧ ¬ [';', ';'] <:+ ";2;;4;".toList := by
  exact blanksCount_iff rfl not_beginsNumber_semicolon _ 0

/-- Four fields, of which the last but one is blank and so is the last: the mean is that of three. -/
theorem not_blanksCount_two_at_end : ¬ BlanksCount meanPacketsMonitor ';' "6;3;;".toList 0 := by
  apply not_blanksCount_of_mem_starts
  decide

end RbMonitor
