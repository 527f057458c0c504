import RbMonitor.External.Lemmas

/-!
This module contains the shape of a vector that is read from a command: whether it has one slot for
each field of the line.
-/

namespace RbMonitor

open CString

/-- The first line of an output, without its end. -/
def firstLine (out : List Char) : List Char :=
  out.takeWhile (· ≠ '\n')

/-- The first line as a C string, without trailing white space. -/
def trimmedLine (out : List Char) : CStr :=
  trimEnd (ofBytes (firstLine out))

/-- The array read from a command has one slot for each field of the trimmed first line. -/
def KeepsShape (monitor : Monitor) (splittok : CStr) (out : List Char) (now : Int) : Prop :=
  ∃ children so,
    rbMonitorGetSystemExternalValue monitor (some out) now = .ok (.array children so)
      ∧ children.length = (fields splittok (trimmedLine out)).length

theorem trimEnd_ofBytes_newline (line : List Char)
    : trimEnd (ofBytes (line ++ ['\n'])) = trimEnd (ofBytes line) := by
  unfold ofBytes trimEnd
  rw [List.takeWhile_append]
  split
  . next h =>
    have hfull : line.takeWhile (· ≠ '\x00') = line :=
      (List.takeWhile_prefix _).eq_of_length h
    rw [hfull]
    exact List.rdropWhile_concat_pos _ _ _ (by decide)
  . rfl

theorem trimEnd_fgets {out : List Char} (hne : out ≠ []) (hfits : (firstLine out).length < BUFSIZ)
    : ∃ line, fgets BUFSIZ out = some line ∧ trimEnd (ofBytes line) = trimmedLine out := by
  have htake : (out.take (BUFSIZ - 1)).takeWhile (· ≠ '\n') = firstLine out := by
    have : (firstLine out).take (BUFSIZ - 1) = firstLine out :=
      List.take_of_length_le (by omega)
    rw [← this]
    exact List.take_takeWhile.symm
  unfold fgets
  simp only [hne, ↓reduceIte, htake]
  refine ⟨_, rfl, ?_⟩
  split
  . exact trimEnd_ofBytes_newline _
  . simp [trimmedLine]

theorem not_startsWithNumber_nil : startsWithNumber [] = false := by
  decide +kernel

theorem rbMonitorGetSystemExternalValue_length {monitor : Monitor} {splittok : CStr}
    (hsplit : monitor.splittok = some splittok) (htok : splittok ≠ []) {out : List Char}
    (hne : out ≠ []) (hfits : (firstLine out).length < BUFSIZ) (now : Int)
    : ∃ children so,
        rbMonitorGetSystemExternalValue monitor (some out) now = .ok (.array children so)
          ∧ children.length =
            (fields splittok
              (if startsWithNumber (trimmedLine out) then trimmedLine out else ['0'])).length := by
  rcases trimEnd_fgets hne hfits with ⟨line, hline, htrim⟩
  unfold rbMonitorGetSystemExternalValue systemSolveResponse
  simp only [Option.bind_some, hline, htrim]
  split
  . next hnum =>
    have hnil : trimmedLine out ≠ [] := by
      intro h
      rw [h, not_startsWithNumber_nil] at hnum
      simp at hnum
    rcases processVectorMonitor_ok monitor htok (trimmedLine out) now with
      ⟨children, so, hok, hlen, _⟩
    exact ⟨children, so, by simpa [rbMonitorGetExternalValue, hnil, hsplit] using hok, hlen⟩
  . rcases processVectorMonitor_ok monitor htok ['0'] now with ⟨children, so, hok, hlen, _⟩
    exact ⟨children, so, by simpa [rbMonitorGetExternalValue, hsplit] using hok, hlen⟩

theorem length_fields_zero {splittok : CStr} (htok : splittok ≠ [])
    : (fields splittok ['0']).length = if splittok = ['0'] then 2 else 1 := by
  split
  . next h =>
    subst h
    decide
  . next h =>
    have hcut : cut splittok ['0'] = none := by
      match splittok with
      | [c] =>
        have : c ≠ '0' := by
          intro hc
          rw [hc] at h
          exact h rfl
        simp [cut, this]
      | c :: d :: rest => simp [cut]
    simp [fields_of_cut_eq_none hcut]

/-- The shape is kept exactly when the line starts with a number, or has as many fields as the zero
that takes its place. -/
theorem keepsShape_iff {monitor : Monitor} {splittok : CStr}
    (hsplit : monitor.splittok = some splittok) (htok : splittok ≠ []) {out : List Char}
    (hne : out ≠ []) (hfits : (firstLine out).length < BUFSIZ) (now : Int)
    : KeepsShape monitor splittok out now
        ↔
      startsWithNumber (trimmedLine out)
        ∨ (fields splittok (trimmedLine out)).length = if splittok = ['0'] then 2 else 1 := by
  rcases rbMonitorGetSystemExternalValue_length hsplit htok hne hfits now with
    ⟨children, so, hok, hlen⟩
  have hiff : KeepsShape monitor splittok out now
      ↔ children.length = (fields splittok (trimmedLine out)).length := by
    constructor
    . intro hex
      rcases hex with ⟨children', so', hok', hlen'⟩
      rw [hok] at hok'
      simp only [Except.ok.injEq, MonitorValue.array.injEq] at hok'
      rw [hok'.1]
      exact hlen'
    . intro h
      exact ⟨children, so, hok, h⟩
  rw [hiff, hlen]
  split
  . next hnum => simp [hnum]
  . next hnum =>
    rw [length_fields_zero htok]
    simp only [hnum, Bool.false_eq_true, false_or]
    exact eq_comm

/-- A monitor that splits at semicolons. -/
def semicolonMonitor : Monitor :=
  { type := .system, name := "load_1".toList, cmdArg := "echo".toList, splittok := some [';'] }

theorem keepsShape_iff_leading_number
    : KeepsShape semicolonMonitor [';'] "3;2;1;0\n".toList 0
        ↔
      startsWithNumber (trimmedLine "3;2;1;0\n".toList)
        ∨ (fields [';'] (trimmedLine "3;2;1;0\n".toList)).length = if [';'] = ['0'] then 2 else 1 :=
  keepsShape_iff rfl (by decide) (by decide) (by decide) 0

/-- A blank first field: four fields, one slot. -/
theorem not_keepsShape_leading_blank
    : ¬ KeepsShape semicolonMonitor [';'] ";2;1;0\n".toList 0 := by
  intro hex
  rcases hex with ⟨children, so, hok, hlen⟩
  have hsplit : semicolonMonitor.splittok = some [';'] := rfl
  have hne : ";2;1;0\n".toList ≠ [] := by decide
  rcases rbMonitorGetSystemExternalValue_length hsplit (by decide) hne (by decide) 0 with
    ⟨children', so', hok', hlen'⟩
  rw [hok] at hok'
  simp only [Except.ok.injEq, MonitorValue.array.injEq] at hok'
  have hnum : startsWithNumber (trimmedLine ";2;1;0\n".toList) = false := by decide +kernel
  have hfour : (fields [';'] (trimmedLine ";2;1;0\n".toList)).length = 4 := by decide +kernel
  rw [← hok'.1, hlen, hnum, hfour] at hlen'
  revert hlen'
  decide

end RbMonitor
