import RbMonitor.External.Locality
import RbMonitor.External.Shape

/-!
This module contains what becomes of a text response that is longer than the buffer it is read into:
the splitter does not see that the last field is cut.
-/

namespace RbMonitor

open CString

/-- The responses that are texts: the output of a command and an SNMP string. -/
inductive TextResponse where
  | system (popen : Option (List Char))
  | snmp (bytes : List Char)

namespace TextResponse

def read (monitor : Monitor) (response : TextResponse) (now : Int) : CM MonitorValue :=
  match response with
  | .system popen => rbMonitorGetSystemExternalValue monitor popen now
  | .snmp bytes => rbMonitorGetSnmpExternalValue monitor (.octetStr bytes) now

/-- The text in `value_buf` when it is split. -/
def buffer : TextResponse → CStr
  | .system popen => (systemSolveResponse popen).1
  | .snmp bytes =>
    let (valueBuf, _) := snmpSolveResponse (.octetStr bytes)
    if valueBuf = [] then ['0'] else valueBuf

/-- The text that would be split if the buffer had no end. -/
def original : TextResponse → CStr
  | .system none => ['0']
  | .system (some out) => if startsWithNumber (trimmedLine out) then trimmedLine out else ['0']
  | .snmp bytes => if ofBytes bytes = [] then ['0'] else ofBytes bytes

/-- The number of bytes that the buffer has to hold. -/
def length : TextResponse → Nat
  | .system popen => (popen.map fun out => (ofBytes (firstLine out)).length).getD 0
  | .snmp bytes => (ofBytes bytes).length

end TextResponse

/-- The number of the element that starts at `tok`, if it is there. -/
def elementNumber (monitor : Monitor) (splittok tok : CStr) : Option Binary64 :=
  (elementValue monitor splittok 0 tok).map (·.value)

/-- The number written in field `i` of a text. -/
def fieldNumber (monitor : Monitor) (splittok text : CStr) (i : Nat) : Option Binary64 :=
  (starts splittok text)[i]?.bind (elementNumber monitor splittok)

/-- Where the number of the element that starts at `tok` is looked for. -/
def numberText (monitor : Monitor) (tok : CStr) : CStr :=
  if monitor.timestampGiven then
    ((strstr tok DEFAULT_TIMESTAMP_SEP).getD []).drop DEFAULT_TIMESTAMP_SEP.length
  else
    tok

/-- Every child has the number of its own field of the original text. -/
def ReadsWholeFields (monitor : Monitor) (splittok : CStr) (response : TextResponse) (now : Int)
    : Prop :=
  ∀ children so, response.read monitor now = .ok (.array children so) →
    ∀ (i : Nat) c, children[i]? = some (some c) →
      ∃ v, c = .value v ∧ fieldNumber monitor splittok response.original i = some v.value

theorem value_elementValue (monitor : Monitor) (splittok tok : CStr) (now : Int)
    : (elementValue monitor splittok now tok).map (·.value) = elementNumber monitor splittok tok := by
  unfold elementNumber elementValue
  split
  . rfl
  . simp [Function.comp_def]

/-- There is no timestamp before the end of the element. -/
def timestampMissing (splittok tok : CStr) : Bool :=
  ((strstr tok DEFAULT_TIMESTAMP_SEP).getD []).length ≤ ((strstr tok splittok).getD []).length

theorem elementNumber_eq (monitor : Monitor) (splittok tok : CStr)
    : elementNumber monitor splittok tok =
        if tok = splittok ∨ (monitor.timestampGiven ∧ timestampMissing splittok tok) then
          none
        else if (strtod (numberText monitor tok)).erange then
          none
        else
          some (strtod (numberText monitor tok)).value := by
  unfold elementNumber elementValue timestampMissing numberText
  by_cases htok : tok = splittok
  . simp [htok]
  . cases hgiven : monitor.timestampGiven with
    | false =>
      simp [htok, extractVectorValue, extractVectorValue.toDouble]
      split <;> simp
    | true =>
      simp only [htok, extractVectorValue, extractVectorValue.toDouble, if_true, if_false, false_or,
        true_and, decide_eq_true_eq]
      cases hstrstr : strstr tok DEFAULT_TIMESTAMP_SEP with
      | none => simp
      | some timestampEnd =>
        simp
        split
        . simp
        . split <;> simp

/-- A number is looked for in the element that starts at `tok`: it is not taken for a blank, and has
a timestamp if there have to be any. -/
def HasNumberText (monitor : Monitor) (splittok tok : CStr) : Prop :=
  tok ≠ splittok ∧ (monitor.timestampGiven → timestampMissing splittok tok = false)

instance (monitor : Monitor) (splittok tok : CStr)
    : Decidable (HasNumberText monitor splittok tok) :=
  inferInstanceAs (Decidable (_ ∧ _))

/-- The rest of the original text is cut off outside its numbers: one that begins in the buffer ends
there. -/
def CutOutside (monitor : Monitor) (splittok : CStr) (response : TextResponse) : Prop :=
  ∃ a, response.original = response.buffer ++ a ∧
    ∀ t ∈ starts splittok response.buffer, HasNumberText monitor splittok t →
      HasNumberText monitor splittok (t ++ a)
        ∧ a.length ≤ (strtod (numberText monitor (t ++ a))).rest.length

theorem elementNumber_of_hasNumberText {monitor : Monitor} {splittok tok : CStr}
    (h : HasNumberText monitor splittok tok)
    : elementNumber monitor splittok tok =
        if (strtod (numberText monitor tok)).erange then
          none
        else
          some (strtod (numberText monitor tok)).value := by
  rw [elementNumber_eq, if_neg]
  intro hor
  cases hor with
  | inl heq => exact h.1 heq
  | inr hmissing =>
    rw [h.2 hmissing.1] at hmissing
    cases hmissing.2

theorem hasNumberText_of_elementNumber {monitor : Monitor} {splittok tok : CStr}
    {number : Binary64} (h : elementNumber monitor splittok tok = some number)
    : HasNumberText monitor splittok tok := by
  rw [elementNumber_eq] at h
  split at h
  . cases h
  . next hread =>
    simp only [not_or, not_and, Bool.not_eq_true] at hread
    exact hread

theorem exists_timestampEnd {splittok tok : CStr} (h : timestampMissing splittok tok = false)
    : ∃ timestampEnd, strstr tok DEFAULT_TIMESTAMP_SEP = some timestampEnd := by
  cases hstrstr : strstr tok DEFAULT_TIMESTAMP_SEP with
  | none => simp [timestampMissing, hstrstr] at h
  | some timestampEnd => exact ⟨timestampEnd, rfl⟩

theorem numberText_append {monitor : Monitor} {splittok t : CStr}
    (h : monitor.timestampGiven → timestampMissing splittok t = false) (a : CStr)
    : numberText monitor (t ++ a) = numberText monitor t ++ a := by
  unfold numberText
  split
  . next hgiven =>
    rcases exists_timestampEnd (h hgiven) with ⟨timestampEnd, hend⟩
    have hlen := (strstr_eq_some hend).1.length_le
    rw [strstr_append hend, hend, Option.getD_some, Option.getD_some,
      List.drop_append_of_le_length hlen]
  . rfl

theorem elementNumber_append {monitor : Monitor} {splittok t a : CStr}
    (h : HasNumberText monitor splittok t) (h' : HasNumberText monitor splittok (t ++ a))
    (hends : a.length ≤ (strtod (numberText monitor (t ++ a))).rest.length)
    : elementNumber monitor splittok (t ++ a) = elementNumber monitor splittok t := by
  rw [elementNumber_of_hasNumberText h, elementNumber_of_hasNumberText h']
  rw [numberText_append h.2] at hends ⊢
  rcases strtod_append_congr hends with ⟨hvalue, herange⟩
  rw [hvalue, herange]

theorem trimEnd_fgets_take {out line : List Char} (h : fgets BUFSIZ out = some line)
    : trimEnd (ofBytes line) = trimEnd ((ofBytes (firstLine out)).take (BUFSIZ - 1)) := by
  have htake : (out.take (BUFSIZ - 1)).takeWhile (· ≠ '\n') = (firstLine out).take (BUFSIZ - 1) :=
    List.take_takeWhile.symm
  have hbytes : ofBytes ((firstLine out).take (BUFSIZ - 1)) =
      (ofBytes (firstLine out)).take (BUFSIZ - 1) :=
    List.take_takeWhile.symm
  unfold fgets at h
  split at h
  . cases h
  . rw [← hbytes, ← htake]
    cases h
    split
    . exact trimEnd_ofBytes_newline _
    . rw [List.append_nil]

theorem buffer_system (out : List Char)
    : (TextResponse.system (some out)).buffer =
        if startsWithNumber (trimEnd ((ofBytes (firstLine out)).take (BUFSIZ - 1))) then
          trimEnd ((ofBytes (firstLine out)).take (BUFSIZ - 1))
        else
          ['0'] := by
  unfold TextResponse.buffer systemSolveResponse
  dsimp only
  rw [Option.bind_some]
  cases hline : fgets BUFSIZ out with
  | none =>
    have hout : out = [] := by
      unfold fgets at hline
      split at hline
      . next hout => exact hout
      . cases hline
    rw [hout]
    simp [firstLine, ofBytes, trimEnd, not_startsWithNumber_nil]
  | some line =>
    dsimp only
    rw [trimEnd_fgets_take hline]
    split
    . rfl
    . rfl

theorem buffer_ne_nil (response : TextResponse) : response.buffer ≠ [] := by
  cases response with
  | system popen =>
    cases popen with
    | none => exact List.cons_ne_nil _ _
    | some out =>
      rw [buffer_system]
      split
      . next hnumber =>
        intro hnil
        rw [hnil, not_startsWithNumber_nil] at hnumber
        cases hnumber
      . exact List.cons_ne_nil _ _
  | snmp bytes =>
    unfold TextResponse.buffer
    dsimp only
    split
    . exact List.cons_ne_nil _ _
    . assumption

section

variable {monitor : Monitor} {splittok : CStr} {response : TextResponse} {now : Int}

theorem read_eq (hsplit : monitor.splittok = some splittok)
    : response.read monitor now = processVectorMonitor monitor splittok response.buffer now := by
  have hne := buffer_ne_nil response
  cases response with
  | system popen =>
    unfold TextResponse.buffer at hne ⊢
    dsimp only at hne ⊢
    simp only [TextResponse.read, rbMonitorGetSystemExternalValue, rbMonitorGetExternalValue, hne,
      if_false, hsplit]
  | snmp bytes =>
    simp only [TextResponse.read, rbMonitorGetSnmpExternalValue, rbMonitorGetExternalValue, hsplit]
    unfold TextResponse.buffer
    dsimp only
    split <;> rfl

theorem fieldNumber_of_child (htok : splittok ≠ []) {valueBuf : CStr}
    {children : List (Option MonitorValue)} {so : Option MonitorValue}
    (h : processVectorMonitor monitor splittok valueBuf now = .ok (.array children so)) {i : Nat}
    {c : MonitorValue} (hc : children[i]? = some (some c))
    : ∃ v, c = .value v ∧ fieldNumber monitor splittok valueBuf i = some v.value := by
  rw [getElem?_of_processVectorMonitor htok h, Option.map_eq_some_iff] at hc
  rcases hc with ⟨tok, hstart, hvalue⟩
  rcases Option.map_eq_some_iff.mp hvalue with ⟨v, hv, hvc⟩
  refine ⟨v, hvc.symm, ?_⟩
  unfold fieldNumber
  rw [hstart, Option.bind_some, ← value_elementValue monitor splittok tok now, hv]
  rfl

theorem child_of_fieldNumber (htok : splittok ≠ []) {valueBuf : CStr}
    {children : List (Option MonitorValue)} {so : Option MonitorValue}
    (h : processVectorMonitor monitor splittok valueBuf now = .ok (.array children so)) {i : Nat}
    {number : Binary64} (hnumber : fieldNumber monitor splittok valueBuf i = some number)
    : ∃ v, children[i]? = some (some (.value v)) ∧ v.value = number := by
  rcases Option.bind_eq_some_iff.mp hnumber with ⟨tok, hstart, helement⟩
  rw [← value_elementValue monitor splittok tok now] at helement
  rcases Option.map_eq_some_iff.mp helement with ⟨v, hv, hvalue⟩
  refine ⟨v, ?_, hvalue⟩
  rw [getElem?_of_processVectorMonitor htok h, hstart, Option.map_some, hv]
  rfl

theorem original_of_fits (h : response.length < BUFSIZ) : response.original = response.buffer := by
  unfold TextResponse.length at h
  cases response with
  | system popen =>
    cases popen with
    | none => rfl
    | some out =>
      have htake : (ofBytes (firstLine out)).take (BUFSIZ - 1) = ofBytes (firstLine out) :=
        List.take_of_length_le (Nat.le_sub_one_of_lt h)
      rw [buffer_system, htake]
      rfl
  | snmp bytes =>
    have htake : (ofBytes bytes).take (BUFSIZ - 1) = ofBytes bytes :=
      List.take_of_length_le (Nat.le_sub_one_of_lt h)
    by_cases hbytes : bytes = []
    . rw [hbytes]
      rfl
    . simp [TextResponse.original, TextResponse.buffer, snmpSolveResponse, hbytes, htake]

theorem cutOutside_of_fits (h : response.length < BUFSIZ)
    : CutOutside monitor splittok response := by
  refine ⟨[], by rw [original_of_fits h, List.append_nil], ?_⟩
  intro t _ hnumber
  rw [List.append_nil]
  exact ⟨hnumber, Nat.zero_le _⟩

/-- No child has a number of a part of a field if the response fits the buffer, or is cut outside its
numbers. -/
theorem readsWholeFields_of_cutOutside (hsplit : monitor.splittok = some splittok)
    (htok : splittok ≠ []) (h : response.length < BUFSIZ ∨ CutOutside monitor splittok response)
    : ReadsWholeFields monitor splittok response now := by
  have hcut : CutOutside monitor splittok response := by
    cases h with
    | inl hfits => exact cutOutside_of_fits hfits
    | inr hcut => exact hcut
  rcases hcut with ⟨a, ha, hends⟩
  intro children so hok i c hc
  rw [read_eq hsplit] at hok
  rcases fieldNumber_of_child htok hok hc with ⟨v, hv, hnumber⟩
  rcases Option.bind_eq_some_iff.mp hnumber with ⟨t, hstart, helement⟩
  have htext := hasNumberText_of_elementNumber helement
  rcases hends t (List.mem_of_getElem? hstart) htext with ⟨htext', hrest⟩
  refine ⟨v, hv, ?_⟩
  unfold fieldNumber
  rw [ha, getElem?_starts_append htok hstart, Option.bind_some,
    elementNumber_append htext htext' hrest, helement]

end

/-- Zeros and a second number. -/
def zerosAnd (n : Nat) (number : CStr) : CStr :=
  List.replicate n '0' ++ ';' :: number

theorem zerosAnd_ne_nil (n : Nat) (number : CStr) : zerosAnd n number ≠ [] := by
  simp [zerosAnd]

theorem zerosAnd_ne_separator (n : Nat) (number : CStr) : zerosAnd (n + 1) number ≠ [';'] := by
  intro heq
  cases heq

theorem zerosAnd_append (n : Nat) (number a : CStr)
    : zerosAnd n number ++ a = zerosAnd n (number ++ a) :=
  List.append_assoc ..

theorem cut_zerosAnd (n : Nat) (number : CStr)
    : cut [';'] (zerosAnd n number) = some (List.replicate n '0', number) := by
  unfold zerosAnd
  induction n with
  | zero => exact cut_of_starts (by simp)
  | succ n ih =>
    rw [List.replicate_succ, List.cons_append, cut_cons_of_not_starts (by simp), ih]
    rfl

theorem fieldNumber_zerosAnd (n : Nat) (number : CStr)
    : fieldNumber semicolonMonitor [';'] (zerosAnd n number) 1 =
        fieldNumber semicolonMonitor [';'] number 0 := by
  unfold fieldNumber
  rw [starts_of_cut_eq_some (by decide) (cut_zerosAnd n number), List.getElem?_cons_succ]

theorem ofBytes_zerosAnd (n : Nat) {number : CStr} (h : ofBytes number = number)
    : ofBytes (zerosAnd n number) = zerosAnd n number := by
  unfold zerosAnd
  induction n with
  | zero => simpa [ofBytes] using h
  | succ n ih => simpa [List.replicate_succ, ofBytes] using ih

theorem take_zerosAnd {n k : Nat} (number : CStr) (h : k = n + 2)
    : (zerosAnd n number).take k = zerosAnd n (number.take 1) := by
  unfold zerosAnd
  rw [h, List.take_append, List.length_replicate, List.take_of_length_le (by simp),
    Nat.add_sub_cancel_left]
  rfl

theorem original_zerosAnd (n : Nat) {number : CStr} (h : ofBytes number = number)
    : (TextResponse.snmp (zerosAnd n number)).original = zerosAnd n number := by
  unfold TextResponse.original
  dsimp only
  rw [ofBytes_zerosAnd n h]
  exact if_neg (zerosAnd_ne_nil n number)

theorem buffer_zerosAnd {n : Nat} {number : CStr} (h : ofBytes number = number)
    (hn : BUFSIZ - 1 = n + 2)
    : (TextResponse.snmp (zerosAnd n number)).buffer = zerosAnd n (number.take 1) := by
  simp only [TextResponse.buffer, snmpSolveResponse, zerosAnd_ne_nil, if_false, ofBytes_zerosAnd n h,
    take_zerosAnd number hn]

theorem starts_zerosAnd (n : Nat) (number : CStr)
    : starts [';'] (zerosAnd n number) = zerosAnd n number :: starts [';'] number :=
  starts_of_cut_eq_some (by decide) (cut_zerosAnd n number)

theorem dropWhile_isDigit_zerosAnd (n : Nat) (number : CStr)
    : (zerosAnd n number).dropWhile Char.isDigit = ';' :: number := by
  unfold zerosAnd
  induction n with
  | zero => rfl
  | succ n ih => rw [List.replicate_succ, List.cons_append, List.dropWhile_cons_of_pos rfl, ih]

theorem rest_strtod_zerosAnd (n : Nat) (number : CStr)
    : (strtod (zerosAnd (n + 2) number)).rest = ';' :: number := by
  have hzeros : zerosAnd (n + 2) number = '0' :: '0' :: zerosAnd n number := rfl
  have hdigits := dropWhile_isDigit_zerosAnd (n + 2) number
  have hword (neg : Bool) : strtodWord neg (zerosAnd (n + 2) number) = none := by
    rw [hzeros]
    rfl
  have hhex (neg : Bool) : strtodHex neg (zerosAnd (n + 2) number) = none := by
    rw [hzeros]
    rfl
  have hdecimal : ∃ r, strtodDecimal false (zerosAnd (n + 2) number) = some r
      ∧ r.rest = ';' :: number := by
    unfold strtodDecimal scanDigits
    simp only [hdigits]
    refine ⟨_, if_neg ?_, ?_⟩
    . rw [hzeros]
      simp
    . rfl
  rcases hdecimal with ⟨r, hr, hrest⟩
  have hspace : (zerosAnd (n + 2) number).dropWhile isSpace = zerosAnd (n + 2) number := by
    rw [hzeros]
    rfl
  have hsign : stripSign (zerosAnd (n + 2) number) = (false, zerosAnd (n + 2) number) := by
    rw [hzeros]
    rfl
  unfold strtod
  simp only [hspace, hsign, hword, hhex, hr]
  exact hrest

/-- Of three fields the last one is cut off, with its separator. -/
theorem readsWholeFields_of_cutOutside_zeros
    : ReadsWholeFields semicolonMonitor [';'] (.snmp (zerosAnd 8189 "2;25".toList)) 0 := by
  have hbytes : ofBytes "2;25".toList = "2;25".toList := by decide
  refine readsWholeFields_of_cutOutside rfl (by decide) (.inr ⟨";25".toList, ?_, ?_⟩)
  . rw [original_zerosAnd _ hbytes, buffer_zerosAnd hbytes rfl, zerosAnd_append]
    rfl
  . rw [buffer_zerosAnd hbytes rfl, starts_zerosAnd]
    intro t ht hnumber
    rcases List.mem_cons.mp ht with rfl | ht
    . rw [zerosAnd_append]
      refine ⟨⟨zerosAnd_ne_separator 8188 _, by decide⟩, ?_⟩
      have htext (tok : CStr) : numberText semicolonMonitor tok = tok := rfl
      rw [htext, rest_strtod_zerosAnd 8187]
      decide
    . have hlast : starts [';'] ("2;25".toList.take 1) = ["2".toList] := by decide +kernel
      rw [hlast, List.mem_singleton] at ht
      subst ht
      exact ⟨by decide, by decide +kernel⟩

/-- Of a 25 at the end of the buffer a 2 is reported. -/
theorem not_readsWholeFields_cutNumber
    : ¬ ReadsWholeFields semicolonMonitor [';'] (.snmp (zerosAnd 8189 "25".toList)) 0 := by
  have htok : [';'] ≠ [] := by decide
  have hbytes : ofBytes "25".toList = "25".toList := by decide
  intro hreads
  rcases processVectorMonitor_ok semicolonMonitor htok (zerosAnd 8189 ['2']) 0 with
    ⟨children, so, hok, _⟩
  have hbuffer : fieldNumber semicolonMonitor [';'] (zerosAnd 8189 ['2']) 1 = some 2 := by
    rw [fieldNumber_zerosAnd]
    decide +kernel
  rcases child_of_fieldNumber htok hok hbuffer with ⟨v, hchild, hv⟩
  have hread : (TextResponse.snmp (zerosAnd 8189 "25".toList)).read semicolonMonitor 0 =
      .ok (.array children so) := by
    rw [read_eq rfl, buffer_zerosAnd hbytes rfl]
    exact hok
  rcases hreads children so hread 1 _ hchild with ⟨w, hw, hfield⟩
  cases hw
  rw [hv, original_zerosAnd _ hbytes, fieldNumber_zerosAnd] at hfield
  revert hfield
  decide +kernel

end RbMonitor
