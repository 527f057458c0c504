import RbMonitor.Lib.JsonText
import RbMonitor.Message.Impl
import RbMonitor.Monitor.Parse

/-!
This module contains what the payload of a message decodes to.
-/

namespace RbMonitor

open CString JsonText

def quoted (s : CStr) : CStr :=
  '"' :: (s ++ ['"'])

/-- A value that fits in a message: an enrichment of other values is skipped. -/
def isScalar : Json → Bool
  | .object _ | .array _ => false
  | .double d => d.isFinite
  | .null | .boolean _ | .int _ | .string _ => true

section

variable (value : Value) (monitor : Monitor) (inst : Int)

def timestampMember : Member where
  key := "timestamp".toList
  text := printNat (value.timestamp % 2 ^ 64).toNat
  val := .number ⟨value.timestamp % 2 ^ 64, 0⟩

/-- The name of the monitor, with the suffix of its instances. -/
def fullName : CStr :=
  monitor.name ++ if inst ≠ NO_INSTANCE then monitor.nameSplitSuffix.getD [] else []

def monitorMember : Member where
  key := "monitor".toList
  text := quoted (fullName monitor inst)
  val := .string (fullName monitor inst)

def instanceMembers : List Member :=
  match monitor.instancePrefix with
  | some instancePrefix =>
    if inst ≠ NO_INSTANCE then
      [{ key := "instance".toList
         text := quoted (instancePrefix ++ printInt inst)
         val := .string (instancePrefix ++ printInt inst) }]
    else
      []
  | none => []

def valueMember : Member :=
  if monitor.integer then
    { key := "value".toList
      text := printInt value.value.toInt64
      val := .number ⟨value.value.toInt64, 0⟩ }
  else
    { key := "value".toList
      text := quoted (printLf value.value)
      val := .string (printLf value.value) }

def groupIdMembers : List Member :=
  match monitor.groupId with
  | some groupId =>
    [{ key := "group_id".toList
       text := groupId
       val := ((parseNumber groupId).map fun r => JsonText.Value.number r.1).getD .null }]
  | none => []

end

def enrichmentMember (key : CStr) : Json → Option Member
  | .string str => some ⟨key, quoted (ofBytes str), .string (ofBytes str)⟩
  | .int integer => some ⟨key, printInt integer, .number ⟨integer, 0⟩⟩
  | .null => some ⟨key, "null".toList, .null⟩
  | .boolean b => some ⟨key, (if b then "true" else "false").toList, .bool b⟩
  | .double (.finite x) => some ⟨key, printLf (.finite x), .number ⟨micros x, -6⟩⟩
  | .double d => some ⟨key, printLf d, .null⟩
  | .object _ | .array _ => none

def enrichmentMembers (enrichment : LinkHash CStr Json) : List Member :=
  enrichment.filterMap fun (key, val) => enrichmentMember key val

/-- The members of the payload after the timestamp. -/
def payloadMembers (value : Value) (monitor : Monitor) (inst : Int) : List Member :=
  monitorMember monitor inst :: (instanceMembers monitor inst ++
    (valueMember value monitor :: (groupIdMembers monitor ++ enrichmentMembers monitor.enrichment)))

theorem printMonitorValueEnrichmentEntry_eq (key : CStr) (val : Json)
    : printMonitorValueEnrichmentEntry key val =
        (enrichmentMember key val).toList.flatMap (',' :: ·.print) := by
  cases val with
  | double d => cases d <;> simp [printMonitorValueEnrichmentEntry, enrichmentMember, Member.print]
  | _ => simp [printMonitorValueEnrichmentEntry, enrichmentMember, Member.print, quoted]

theorem printMonitorValueEnrichment_eq (enrichment : LinkHash CStr Json)
    : printMonitorValueEnrichment enrichment =
        (enrichmentMembers enrichment).flatMap (',' :: ·.print) := by
  induction enrichment with
  | nil => rfl
  | cons e enrichment ih =>
    simp only [printMonitorValueEnrichment, List.flatMap_cons, enrichmentMembers,
      List.filterMap_cons, printMonitorValueEnrichmentEntry_eq] at ih ⊢
    rw [ih]
    cases enrichmentMember e.1 e.2 with
    | none => rfl
    | some m => simp

theorem print_quoted (key s : CStr) (val : JsonText.Value)
    : (Member.mk key (quoted s) val).print = '"' :: (key ++ "\":\"".toList) ++ s ++ ['"'] := by
  simp [Member.print, quoted]

section

variable (value : Value) (monitor : Monitor) (inst : Int)

theorem print_monitorMember
    : ',' :: (monitorMember monitor inst).print =
        ",\"monitor\":\"".toList ++ monitor.name
          ++ (if inst ≠ NO_INSTANCE then monitor.nameSplitSuffix.getD [] else [])
          ++ "\"".toList := by
  have hprint : (monitorMember monitor inst).print =
      '"' :: ("monitor".toList ++ "\":\"".toList) ++ fullName monitor inst ++ ['"'] :=
    print_quoted _ _ _
  rw [hprint, fullName]
  simp

theorem print_instanceMembers
    : (instanceMembers monitor inst).flatMap (',' :: ·.print) =
        match monitor.instancePrefix with
        | some instancePrefix =>
          if inst ≠ NO_INSTANCE then
            ",\"instance\":\"".toList ++ instancePrefix ++ printInt inst ++ "\"".toList
          else
            []
        | none => [] := by
  unfold instanceMembers
  split
  . split
    . rw [List.flatMap_singleton, print_quoted]
      simp
    . rfl
  . rfl

theorem print_valueMember
    : ',' :: (valueMember value monitor).print =
        if monitor.integer then
          ",\"value\":".toList ++ printInt value.value.toInt64
        else
          ",\"value\":\"".toList ++ printLf value.value ++ "\"".toList := by
  unfold valueMember
  split
  . simp [Member.print]
  . rw [print_quoted]
    simp

theorem print_groupIdMembers
    : (groupIdMembers monitor).flatMap (',' :: ·.print) =
        match monitor.groupId with
        | some groupId => ",\"group_id\":".toList ++ groupId
        | none => [] := by
  unfold groupIdMembers
  split
  . simp [Member.print]
  . rfl

theorem printPayload_eq
    : printPayload value monitor inst =
        '\x7b' :: ((timestampMember value).print ++
          ((payloadMembers value monitor inst).flatMap (',' :: ·.print) ++ ['\x7d'])) := by
  simp only [payloadMembers, List.flatMap_cons, List.flatMap_append, print_monitorMember,
    print_instanceMembers, print_valueMember, print_groupIdMembers,
    ← printMonitorValueEnrichment_eq]
  unfold printPayload
  simp only [List.append_assoc]
  rfl

end

/-- The keys of a message that do not come from the enrichment. -/
def fixedKeys (monitor : Monitor) (inst : Int) : List CStr :=
  "timestamp".toList :: "monitor".toList ::
    ((if monitor.instancePrefix.isSome ∧ inst ≠ NO_INSTANCE then ["instance".toList] else []) ++
      "value".toList :: if monitor.groupId.isSome then ["group_id".toList] else [])

/-- The messages of the monitor need no escape and use every key once. -/
structure Printable (monitor : Monitor) (inst : Int) : Prop where
  name : Plain monitor.name
  suffix : ∀ s, monitor.nameSplitSuffix = some s → Plain s
  instancePrefix : ∀ s, monitor.instancePrefix = some s → Plain s
  groupId : ∀ s, monitor.groupId = some s → ∃ d, parseNumber s = some (d, [])
  key : ∀ e ∈ monitor.enrichment, isScalar e.2 → Plain e.1
  string : ∀ e ∈ monitor.enrichment, ∀ s, e.2 = .string s → Plain s
  double : ∀ e ∈ monitor.enrichment, ∀ d, e.2 = .double d → d.isFinite
  fixed : ∀ e ∈ monitor.enrichment, isScalar e.2 → e.1 ∉ fixedKeys monitor inst

theorem plain_of_digits {s : CStr} (h : ∀ c ∈ s, c.isDigit ∨ c = '-' ∨ c = '.') : Plain s := by
  intro c hc
  rcases h c hc with hdigit | heq | heq
  . simp only [Char.isDigit, Bool.and_eq_true, decide_eq_true_eq] at hdigit
    refine ⟨?_, ?_, ?_⟩
    . intro heq
      subst heq
      exact absurd hdigit.1 (by decide)
    . intro heq
      subst heq
      exact absurd hdigit.2 (by decide)
    . intro hlt
      have hlt : c.val < ' '.val := hlt
      exact absurd (UInt32.lt_of_le_of_lt hdigit.1 hlt) (by decide)
  . subst heq
    decide
  . subst heq
    decide

theorem plain_printNat (n : Nat) : Plain (printNat n) := by
  apply plain_of_digits
  exact fun c hc => .inl (isDigit_of_mem_printNat hc)

theorem plain_printInt (n : Int) : Plain (printInt n) := by
  unfold printInt
  split
  . exact Plain.append (s := ['-']) (by decide) (plain_printNat _)
  . exact plain_printNat _

theorem plain_printLf (x : Binary64.Finite) : Plain (printLf (.finite x)) := by
  rw [printLf_finite]
  apply Plain.append
  . cases x.neg with
    | true => decide
    | false => decide
  . apply Plain.append
    . exact plain_printNat _
    . apply plain_of_digits
      intro c hc
      cases List.mem_cons.mp hc with
      | inl heq => exact .inr (.inr heq)
      | inr hc => exact .inl (isDigit_of_mem_sixDigits hc)

theorem ofBytes_of_plain {s : CStr} (h : Plain s) : ofBytes s = s := by
  unfold ofBytes
  apply List.takeWhile_eq_self_iff.mpr
  intro c hc
  have hcontrol := (h c hc).2.2
  simp only [ne_eq, decide_not, Bool.not_eq_eq_eq_not, Bool.not_true, decide_eq_false_iff_not]
  intro heq
  subst heq
  exact hcontrol (by decide)

section

variable {value : Value} {monitor : Monitor} {inst : Int}

theorem timestampMember_ok (value : Value) : (timestampMember value).Ok where
  key := show Plain "timestamp".toList by decide
  text := by
    have hnat : ((value.timestamp % 2 ^ 64).toNat : Int) = value.timestamp % 2 ^ 64 :=
      Int.toNat_of_nonneg (Int.emod_nonneg _ (by decide))
    have hread := reads_number (parseNumber_printNat (value.timestamp % 2 ^ 64).toNat)
    rw [hnat] at hread
    exact hread

theorem plain_fullName (h : Printable monitor inst) : Plain (fullName monitor inst) := by
  apply h.name.append
  split
  . cases hsuffix : monitor.nameSplitSuffix with
    | none => simp [Plain]
    | some s => exact h.suffix s hsuffix
  . simp [Plain]

theorem enrichmentMember_ok (h : Printable monitor inst) {e : CStr × Json}
    (he : e ∈ monitor.enrichment) {m : Member} (heq : enrichmentMember e.1 e.2 = some m)
    : m.Ok := by
  rcases e with ⟨key, val⟩
  cases val with
  | null =>
    cases heq
    exact ⟨h.key _ he rfl, reads_null⟩
  | boolean b =>
    cases heq
    refine ⟨h.key _ he rfl, ?_⟩
    cases b with
    | true => exact reads_true
    | false => exact reads_false
  | int n =>
    cases heq
    exact ⟨h.key _ he rfl, reads_number (parseNumber_printInt n)⟩
  | double d =>
    cases d with
    | finite x =>
      cases heq
      exact ⟨h.key _ he rfl, reads_number (parseNumber_printLf x)⟩
    | nan neg => exact absurd (h.double _ he _ rfl) (by simp [Binary64.isFinite])
    | inf neg => exact absurd (h.double _ he _ rfl) (by simp [Binary64.isFinite])
  | string s =>
    cases heq
    have hplain := h.string _ he s rfl
    refine ⟨h.key _ he rfl, ?_⟩
    rw [ofBytes_of_plain hplain]
    exact reads_string hplain
  | array elms => cases heq
  | object members => cases heq

theorem payloadMembers_ok (h : Printable monitor inst) (hvalue : value.value.isFinite)
    : ∀ m ∈ payloadMembers value monitor inst, m.Ok := by
  intro m hm
  simp only [payloadMembers, List.mem_cons, List.mem_append] at hm
  rcases hm with hm | hm | hm | hm | hm
  . subst hm
    exact ⟨show Plain "monitor".toList by decide, reads_string (plain_fullName h)⟩
  . unfold instanceMembers at hm
    split at hm
    . next instancePrefix hstart =>
      split at hm
      . rw [List.mem_singleton.mp hm]
        refine ⟨show Plain "instance".toList by decide, reads_string ?_⟩
        exact (h.instancePrefix instancePrefix hstart).append (plain_printInt inst)
      . cases hm
    . cases hm
  . subst hm
    unfold valueMember
    split
    . exact ⟨show Plain "value".toList by decide, reads_number (parseNumber_printInt _)⟩
    . refine ⟨show Plain "value".toList by decide, reads_string ?_⟩
      cases hx : value.value with
      | finite x => exact plain_printLf x
      | nan neg => simp [hx, Binary64.isFinite] at hvalue
      | inf neg => simp [hx, Binary64.isFinite] at hvalue
  . unfold groupIdMembers at hm
    split at hm
    . next groupId hgroup =>
      rw [List.mem_singleton.mp hm]
      rcases h.groupId groupId hgroup with ⟨d, hd⟩
      refine ⟨show Plain "group_id".toList by decide, ?_⟩
      simp only [hd, Option.map_some, Option.getD_some]
      exact reads_number hd
    . cases hm
  . rcases List.mem_filterMap.mp hm with ⟨e, he, heq⟩
    exact enrichmentMember_ok h he heq

/-- What the payload of a message says. -/
def payloadObject (value : Value) (monitor : Monitor) (inst : Int)
    : List (CStr × JsonText.Value) :=
  (timestampMember value :: payloadMembers value monitor inst).map fun m => (m.key, m.val)

theorem decode_printPayload (h : Printable monitor inst) (hvalue : value.value.isFinite)
    : decode (printPayload value monitor inst) =
        some (.object (payloadObject value monitor inst)) := by
  rw [printPayload_eq]
  apply decode_print
  intro m hm
  cases List.mem_cons.mp hm with
  | inl heq => exact heq ▸ timestampMember_ok value
  | inr hm => exact payloadMembers_ok h hvalue m hm

theorem keys_payloadObject
    : (payloadObject value monitor inst).map Prod.fst =
        fixedKeys monitor inst ++ (enrichmentMembers monitor.enrichment).map Member.key := by
  have hinstance : (instanceMembers monitor inst).map Member.key =
      if monitor.instancePrefix.isSome ∧ inst ≠ NO_INSTANCE then ["instance".toList] else [] := by
    unfold instanceMembers
    cases monitor.instancePrefix with
    | none => simp
    | some instancePrefix => by_cases h : inst = NO_INSTANCE <;> simp [h]
  have hgroupId : (groupIdMembers monitor).map Member.key =
      if monitor.groupId.isSome then ["group_id".toList] else [] := by
    unfold groupIdMembers
    cases monitor.groupId <;> rfl
  have hvalue : (valueMember value monitor).key = "value".toList := by
    unfold valueMember
    split <;> rfl
  have htimestamp : (timestampMember value).key = "timestamp".toList := rfl
  have hmonitor : (monitorMember monitor inst).key = "monitor".toList := rfl
  have hmap : (payloadObject value monitor inst).map Prod.fst =
      (timestampMember value :: payloadMembers value monitor inst).map Member.key := by
    rw [payloadObject, List.map_map]
    rfl
  rw [hmap, payloadMembers, fixedKeys]
  simp only [List.map_cons, List.map_append, hinstance, hgroupId, hvalue, htimestamp, hmonitor,
    List.cons_append, List.append_assoc]

theorem nodup_fixedKeys (monitor : Monitor) (inst : Int) : (fixedKeys monitor inst).Nodup := by
  unfold fixedKeys
  split
  . split <;> decide
  . split <;> decide

theorem key_enrichmentMember {key : CStr} {val : Json} {m : Member}
    (h : enrichmentMember key val = some m)
    : m.key = key := by
  cases val with
  | double d => cases d <;> cases h <;> rfl
  | _ => cases h <;> rfl

theorem isScalar_of_enrichmentMember {key : CStr} {val : Json} {m : Member}
    (h : enrichmentMember key val = some m) (hdouble : ∀ d, val = .double d → d.isFinite)
    : isScalar val := by
  cases val with
  | double d => exact hdouble d rfl
  | array elms => cases h
  | object members => cases h
  | _ => rfl

theorem keys_enrichmentMembers_sublist (enrichment : LinkHash CStr Json)
    : ((enrichmentMembers enrichment).map Member.key).Sublist (LinkHash.keys enrichment) := by
  induction enrichment with
  | nil => exact List.Sublist.refl _
  | cons e enrichment ih =>
    unfold enrichmentMembers at ih ⊢
    rw [List.filterMap_cons]
    split
    . exact ih.cons e.1
    . next m hm =>
      rw [List.map_cons, key_enrichmentMember hm]
      exact ih.cons_cons e.1

theorem nodup_keys_payloadObject (h : Printable monitor inst)
    (hnodup : (LinkHash.keys monitor.enrichment).Nodup)
    : ((payloadObject value monitor inst).map Prod.fst).Nodup := by
  rw [keys_payloadObject, List.nodup_append]
  refine ⟨nodup_fixedKeys monitor inst, ?_, ?_⟩
  . exact hnodup.sublist (keys_enrichmentMembers_sublist monitor.enrichment)
  . intro key hkey key' hkey' heq
    subst heq
    rcases List.mem_map.mp hkey' with ⟨m, hm, hmkey⟩
    rcases List.mem_filterMap.mp hm with ⟨e, he, hem⟩
    rw [key_enrichmentMember hem] at hmkey
    apply h.fixed e he
    . exact isScalar_of_enrichmentMember hem (h.double e he)
    . exact hmkey ▸ hkey

end

end RbMonitor
