import RbMonitor.Message.Decode

/-!
This module contains what a reader of a message gets back from its payload.
-/

namespace RbMonitor

open CString JsonText

/-- A decoded value is that of an entry of the enrichment, with `doubleIs` for its doubles. -/
def IsEntry (doubleIs : Binary64.Finite → ℚ → Prop) : Json → JsonText.Value → Prop
  | .null, .null => True
  | .boolean b, .bool c => c = b
  | .int n, .number d => d.toRat = n
  | .double (.finite x), .number d => doubleIs x d.toRat
  | .string s, .string t => t = s
  | _, _ => False

/-- The number of a decoded value, which is printed as a string too. -/
def IsNumber (q : ℚ) : JsonText.Value → Prop
  | .number d => d.toRat = q
  | .string s => ∃ d, decode s = some (.number d) ∧ d.toRat = q
  | _ => False

/-- The members give back what the message is about: its timestamp, a measured number that
`valueIs`, and the configuration of its monitor. -/
structure GivesBack (atTime : Int) (valueIs : ℚ → Prop) (doubleIs : Binary64.Finite → ℚ → Prop)
    (of : Monitor) (inst : Int) (members : List (CStr × JsonText.Value)) : Prop where
  timestamp : ∃ val, members.lookup "timestamp".toList = some val ∧ IsNumber atTime val
  monitor : members.lookup "monitor".toList = some (.string (fullName of inst))
  instance_ : ∀ s, of.instancePrefix = some s → inst ≠ NO_INSTANCE →
    members.lookup "instance".toList = some (.string (s ++ printInt inst))
  value : ∃ val q, members.lookup "value".toList = some val ∧ IsNumber q val ∧ valueIs q
  groupId : ∀ s, of.groupId = some s →
    ∃ val, members.lookup "group_id".toList = some val ∧ decode s = some val
  enrichment : ∀ e ∈ of.enrichment, isScalar e.2 →
    ∃ val, members.lookup e.1 = some val ∧ IsEntry doubleIs e.2 val

/-- The payload is a JSON object that has no key twice and gives everything back. -/
def Decodable (atTime : Int) (valueIs : ℚ → Prop) (doubleIs : Binary64.Finite → ℚ → Prop)
    (value : Value) (monitor : Monitor) (inst : Int) : Prop :=
  ∃ members, decode (printPayload value monitor inst) = some (.object members) ∧
    (members.map Prod.fst).Nodup ∧ GivesBack atTime valueIs doubleIs monitor inst members

/-- What six decimals keep of a number. -/
def SixDecimals (x : Binary64.Finite) (q : ℚ) : Prop :=
  |q - x.toRat| ≤ 1 / 2 / 10 ^ 6

theorem lookup_of_mem {α β : Type} [BEq α] [LawfulBEq α] {l : List (α × β)}
    (hnodup : (l.map Prod.fst).Nodup) {a : α} {b : β} (h : (a, b) ∈ l)
    : l.lookup a = some b := by
  induction l with
  | nil => cases h
  | cons e l ih =>
    rw [List.map_cons, List.nodup_cons] at hnodup
    cases List.mem_cons.mp h with
    | inl heq =>
      cases heq
      exact List.lookup_cons_self
    | inr hmem =>
      have hne : (a == e.1) = false := by
        apply beq_false_of_ne
        intro heq
        apply hnodup.1
        rw [← heq]
        exact List.mem_map_of_mem hmem
      rw [List.lookup_cons, hne]
      exact ih hnodup.2 hmem

section

variable {value : Value} {monitor : Monitor} {inst : Int}

theorem mem_payloadObject {m : Member} (h : m ∈ payloadMembers value monitor inst)
    : (m.key, m.val) ∈ payloadObject value monitor inst :=
  List.mem_map_of_mem (List.mem_cons_of_mem _ h)

theorem enrichmentMember_of_isScalar (key : CStr) {val : Json} (h : isScalar val)
    : ∃ m, enrichmentMember key val = some m := by
  cases val with
  | double d => cases d <;> exact ⟨_, rfl⟩
  | array elms => cases h
  | object members => cases h
  | _ => exact ⟨_, rfl⟩

theorem isEntry_of_enrichmentMember {key : CStr} {val : Json} {m : Member}
    (h : enrichmentMember key val = some m) (hstring : ∀ s, val = .string s → Plain s)
    (hdouble : ∀ d, val = .double d → d.isFinite)
    : IsEntry SixDecimals val m.val := by
  cases val with
  | null =>
    cases h
    trivial
  | boolean b =>
    cases h
    rfl
  | int n =>
    cases h
    simp [IsEntry, Decimal.toRat]
  | double d =>
    cases d with
    | finite x =>
      cases h
      exact abs_micros_sub_le x
    | nan neg => exact absurd (hdouble _ rfl) (by simp [Binary64.isFinite])
    | inf neg => exact absurd (hdouble _ rfl) (by simp [Binary64.isFinite])
  | string s =>
    cases h
    exact ofBytes_of_plain (hstring s rfl)
  | array elms => cases h
  | object members => cases h

theorem isNumber_printLf (x : Binary64.Finite)
    : IsNumber (Decimal.toRat ⟨micros x, -6⟩) (.string (printLf (.finite x))) := by
  exact ⟨_, decode_of_reads (reads_number (parseNumber_printLf x)), rfl⟩

theorem isNumber_number (n : Int) : IsNumber n (.number ⟨n, 0⟩) := by
  simp [IsNumber, Decimal.toRat]

theorem measured_valueMember (monitor : Monitor) {x : Binary64.Finite}
    (hvalue : value.value = .finite x)
    : ∃ q, IsNumber q (valueMember value monitor).val ∧
        (if monitor.integer then (· = (value.value.toInt64 : ℚ)) else SixDecimals x) q := by
  unfold valueMember
  split
  . exact ⟨value.value.toInt64, isNumber_number _, rfl⟩
  . rw [hvalue]
    exact ⟨_, isNumber_printLf x, abs_micros_sub_le x⟩

theorem decode_groupId {s : CStr} (hprintable : ∃ d, parseNumber s = some (d, []))
    : decode s =
        some (((parseNumber s).map fun r => JsonText.Value.number r.1).getD .null) := by
  rcases hprintable with ⟨d, hd⟩
  rw [hd]
  exact decode_of_reads (reads_number hd)

theorem givesBack_payloadObject (h : Printable monitor inst)
    (hnodup : (LinkHash.keys monitor.enrichment).Nodup) {x : Binary64.Finite}
    (hvalue : value.value = .finite x)
    : GivesBack (value.timestamp % 2 ^ 64)
        (if monitor.integer then (· = (value.value.toInt64 : ℚ)) else SixDecimals x) SixDecimals
        monitor inst (payloadObject value monitor inst) := by
  have hlookup {m : Member} (hm : m ∈ payloadMembers value monitor inst)
      : (payloadObject value monitor inst).lookup m.key = some m.val :=
    lookup_of_mem (nodup_keys_payloadObject h hnodup) (mem_payloadObject hm)
  refine ⟨?_, ?_, ?_, ?_, ?_, ?_⟩
  . refine ⟨_, ?_, isNumber_number _⟩
    exact lookup_of_mem (nodup_keys_payloadObject h hnodup) List.mem_cons_self
  . have hmem : monitorMember monitor inst ∈ payloadMembers value monitor inst := by
      simp [payloadMembers]
    exact hlookup hmem
  . intro s hs hinst
    have hmem : ⟨"instance".toList, quoted (s ++ printInt inst), .string (s ++ printInt inst)⟩ ∈
        payloadMembers value monitor inst := by
      simp [payloadMembers, instanceMembers, hs, hinst]
    exact hlookup hmem
  . have hmem : valueMember value monitor ∈ payloadMembers value monitor inst := by
      simp [payloadMembers]
    have hkey : (valueMember value monitor).key = "value".toList := by
      unfold valueMember
      split <;> rfl
    rcases measured_valueMember monitor hvalue with ⟨q, hnumber, hq⟩
    exact ⟨_, q, hkey ▸ hlookup hmem, hnumber, hq⟩
  . intro s hs
    have hmem : ⟨"group_id".toList, s,
        ((parseNumber s).map fun r => JsonText.Value.number r.1).getD .null⟩ ∈
        payloadMembers value monitor inst := by
      simp [payloadMembers, groupIdMembers, hs]
    exact ⟨_, hlookup hmem, decode_groupId (h.groupId s hs)⟩
  . intro e he hscalar
    rcases enrichmentMember_of_isScalar e.1 hscalar with ⟨m, hm⟩
    have hmem : m ∈ payloadMembers value monitor inst := by
      have henrichment : m ∈ enrichmentMembers monitor.enrichment :=
        List.mem_filterMap.mpr ⟨e, he, hm⟩
      simp [payloadMembers, henrichment]
    refine ⟨m.val, ?_, isEntry_of_enrichmentMember hm (h.string e he) (h.double e he)⟩
    exact key_enrichmentMember hm ▸ hlookup hmem

end

/-- Everything is given back as it was. -/
def DecodableExactly (value : Value) (x : Binary64.Finite) (monitor : Monitor) (inst : Int) : Prop :=
  Decodable value.timestamp (· = x.toRat) (fun y q => q = y.toRat) value monitor inst

section

variable {atTime : Int} {valueIs : ℚ → Prop} {doubleIs : Binary64.Finite → ℚ → Prop}
variable {value : Value} {monitor : Monitor} {inst : Int}

theorem Decodable.givesBack (h : Decodable atTime valueIs doubleIs value monitor inst)
    (hprintable : Printable monitor inst) (hvalue : value.value.isFinite)
    : GivesBack atTime valueIs doubleIs monitor inst (payloadObject value monitor inst) := by
  rcases h with ⟨members, hdecode, -, hback⟩
  rw [decode_printPayload hprintable hvalue] at hdecode
  cases hdecode
  exact hback

theorem eq_of_isNumber_printLf {x : Binary64.Finite} {q : ℚ}
    (h : IsNumber q (.string (printLf (.finite x))))
    : q = Decimal.toRat ⟨micros x, -6⟩ := by
  rcases h with ⟨d, hdecode, hd⟩
  rw [decode_of_reads (reads_number (parseNumber_printLf x))] at hdecode
  cases hdecode
  exact hd.symm

end

/-- The smallest positive double. -/
def tiny : Binary64.Finite := ⟨false, 1, by decide +kernel⟩

def zero : Binary64.Finite := ⟨false, 0, by decide +kernel⟩

def plainJsonC : JsonC where
  toJsonString _ := []
  getInt64
    | .int n => n
    | _ => 0

def packets (name : String) : Monitor where
  type := .system
  name := name.toList
  cmdArg := "id".toList
  enrichment := [("type".toList, .string "system".toList)]

def packetsConfig (name : String) (members : List (String × Json)) : Json :=
  .object (("name".toList, .string name.toList) :: ("system".toList, .string "id".toList)
    :: members.map fun (key, val) => (key.toList, val))

theorem printable_packets {monitor : Monitor} (hname : monitor.name = "packets".toList)
    (hsuffix : monitor.nameSplitSuffix = none) (hinstance : monitor.instancePrefix = none)
    (hgroup : monitor.groupId = none)
    (henrichment : ∀ e ∈ monitor.enrichment, e = ("type".toList, .string "system".toList) ∨
      e = ("load".toList, .double (.finite tiny)))
    (inst : Int)
    : Printable monitor inst := by
  have hfixed : fixedKeys monitor inst = ["timestamp".toList, "monitor".toList, "value".toList] := by
    simp [fixedKeys, hinstance, hgroup]
  refine ⟨?_, ?_, ?_, ?_, ?_, ?_, ?_, ?_⟩
  . rw [hname]
    decide
  . simp [hsuffix]
  . simp [hinstance]
  . simp [hgroup]
  . intro e he hscalar
    cases henrichment e he with
    | inl heq => subst heq; exact show Plain "type".toList by decide
    | inr heq => subst heq; exact show Plain "load".toList by decide
  . intro e he s hs
    cases henrichment e he with
    | inl heq =>
      subst heq
      cases hs
      exact show Plain "system".toList by decide
    | inr heq =>
      subst heq
      cases hs
  . intro e he d hd
    cases henrichment e he with
    | inl heq =>
      subst heq
      cases hd
    | inr heq =>
      subst heq
      cases hd
      rfl
  . intro e he hscalar
    rw [hfixed]
    cases henrichment e he with
    | inl heq => subst heq; exact show "type".toList ∉ _ by decide
    | inr heq => subst heq; exact show "load".toList ∉ _ by decide

/-- The packets of each interface of a group, with an enrichment. -/
def interfaceMonitor : Monitor :=
  { packets "packets" with
    nameSplitSuffix := some "_per_interface".toList
    instancePrefix := some "interface-".toList
    groupId := some "7".toList
    splittok := some [';']
    enrichment := [("service".toList, .string "vlan".toList), ("load".toList, .double (.finite tiny)),
      ("type".toList, .string "system".toList)] }

def interfaceConfig : Json :=
  packetsConfig "packets" [("name_split_suffix", .string "_per_interface".toList),
    ("instance_prefix", .string "interface-".toList), ("group_id", .string "7".toList),
    ("split", .string [';']),
    ("enrichment", .object [("service".toList, .string "vlan".toList),
      ("load".toList, .double (.finite tiny))])]

theorem printable_interfaceMonitor : Printable interfaceMonitor 1 := by
  have hcases {e : CStr × Json} (he : e ∈ interfaceMonitor.enrichment)
      : e = ("service".toList, .string "vlan".toList) ∨ e = ("load".toList, .double (.finite tiny))
        ∨ e = ("type".toList, .string "system".toList) := by
    simpa [interfaceMonitor] using he
  refine ⟨by decide, ?_, ?_, ?_, ?_, ?_, ?_, ?_⟩
  . intro s hs
    cases hs
    decide
  . intro s hs
    cases hs
    decide
  . intro s hs
    cases hs
    exact ⟨_, rfl⟩
  . intro e he _
    rcases hcases he with rfl | rfl | rfl
    . exact show Plain "service".toList by decide
    . exact show Plain "load".toList by decide
    . exact show Plain "type".toList by decide
  . intro e he s hs
    rcases hcases he with rfl | rfl | rfl
    . cases hs
      exact show Plain "vlan".toList by decide
    . cases hs
    . cases hs
      exact show Plain "system".toList by decide
  . intro e he d hd
    rcases hcases he with rfl | rfl | rfl
    . cases hd
    . cases hd
      rfl
    . cases hd
  . intro e he _
    rcases hcases he with rfl | rfl | rfl
    . exact show "service".toList ∉ _ by decide
    . exact show "load".toList ∉ _ by decide
    . exact show "type".toList ∉ _ by decide

/-- A monitor of the configuration is accepted and has a message that is not given back. -/
def IsLost (config : Json) (timestamp : Int) (x : Binary64.Finite) : Prop :=
  ∃ monitor, parseRbMonitor plainJsonC config (.object []) = .ok (some monitor) ∧
    ¬DecodableExactly ⟨timestamp, .finite x⟩ x monitor NO_INSTANCE

theorem toRat_tiny_ne : tiny.toRat ≠ 0 := by
  have hone : (Binary64.one : ℚ) ≠ 0 := Nat.cast_ne_zero.mpr Binary64.one_pos.ne'
  have hunits : tiny.units = 1 := rfl
  rw [Binary64.Finite.toRat, hunits]
  exact div_ne_zero (by norm_num) hone

theorem toRat_micros_tiny_ne : Decimal.toRat ⟨micros tiny, -6⟩ ≠ tiny.toRat := by
  have hmicros : micros tiny = 0 := by decide +kernel
  rw [hmicros]
  simp [Decimal.toRat, toRat_tiny_ne.symm]

theorem isLost_roundedValue : IsLost (packetsConfig "packets" []) 0 tiny := by
  refine ⟨packets "packets", rfl, ?_⟩
  intro h
  have hprintable : Printable (packets "packets") NO_INSTANCE :=
    printable_packets rfl rfl rfl rfl (by simp [packets]) _
  rcases (h.givesBack hprintable rfl).value with ⟨val, q, hlookup, hnumber, hq⟩
  cases hlookup
  rw [eq_of_isNumber_printLf hnumber] at hq
  exact toRat_micros_tiny_ne hq

theorem isLost_integer : IsLost (packetsConfig "packets" [("integer", .int 1)]) 0 tiny := by
  refine ⟨{ packets "packets" with integer := true }, rfl, ?_⟩
  intro h
  have hprintable : Printable { packets "packets" with integer := true } NO_INSTANCE :=
    printable_packets rfl rfl rfl rfl (by simp [packets]) _
  rcases (h.givesBack hprintable rfl).value with ⟨val, q, hlookup, hnumber, hq⟩
  cases hlookup
  have htoInt64 : (Binary64.finite tiny).toInt64 = 0 := by decide +kernel
  have hzero : q = 0 := by
    rw [← hnumber]
    simp [Decimal.toRat, htoInt64]
  exact toRat_tiny_ne (hq.symm.trans hzero)

theorem isLost_timestamp : IsLost (packetsConfig "packets" []) (-1) zero := by
  refine ⟨packets "packets", rfl, ?_⟩
  intro h
  have hprintable : Printable (packets "packets") NO_INSTANCE :=
    printable_packets rfl rfl rfl rfl (by simp [packets]) _
  rcases (h.givesBack hprintable rfl).timestamp with ⟨val, hlookup, hnumber⟩
  cases hlookup
  have hneg : Decimal.toRat ⟨-1 % 2 ^ 64, 0⟩ = ((-1 : Int) : ℚ) := hnumber
  simp [Decimal.toRat] at hneg
  norm_num at hneg

theorem isLost_double
    : IsLost (packetsConfig "packets"
        [("enrichment", .object [("load".toList, .double (.finite tiny))])]) 0 zero := by
  let monitor : Monitor :=
    { packets "packets" with
      enrichment := [("load".toList, .double (.finite tiny)),
        ("type".toList, .string "system".toList)] }
  refine ⟨monitor, rfl, ?_⟩
  intro h
  have hprintable : Printable monitor NO_INSTANCE :=
    printable_packets rfl rfl rfl rfl (by simp [monitor]) _
  have hload : ("load".toList, .double (.finite tiny)) ∈ monitor.enrichment := by
    simp [monitor]
  rcases (h.givesBack hprintable rfl).enrichment _ hload rfl with ⟨val, hlookup, hentry⟩
  cases hlookup
  exact toRat_micros_tiny_ne hentry

theorem isLost_of_decode_eq_none {config : Json} {monitor : Monitor}
    (hparse : parseRbMonitor plainJsonC config (.object []) = .ok (some monitor))
    (hdecode : (decode (printPayload ⟨0, .finite zero⟩ monitor NO_INSTANCE)).isNone)
    : IsLost config 0 zero := by
  refine ⟨monitor, hparse, ?_⟩
  intro h
  rcases h with ⟨members, hmembers, -⟩
  rw [hmembers] at hdecode
  cases hdecode

theorem isLost_groupId
    : IsLost (packetsConfig "packets" [("group_id", .string "vlan".toList)]) 0 zero := by
  exact isLost_of_decode_eq_none rfl (by decide +kernel)

theorem isLost_quote : IsLost (packetsConfig "pack\"ets" []) 0 zero := by
  exact isLost_of_decode_eq_none rfl (by decide +kernel)

theorem isLost_control : IsLost (packetsConfig "pack\nets" []) 0 zero := by
  exact isLost_of_decode_eq_none rfl (by decide +kernel)

theorem isLost_nan
    : IsLost (packetsConfig "packets"
        [("enrichment", .object [("load".toList, .double (.nan false))])]) 0 zero := by
  exact isLost_of_decode_eq_none rfl (by decide +kernel)

def hasKeyTwice : Option JsonText.Value → Bool
  | some (.object members) => !decide (members.map Prod.fst).Nodup
  | _ => false

theorem isLost_collision
    : IsLost (packetsConfig "packets" [("enrichment", .object [("value".toList, .int 7)])]) 0
        zero := by
  let monitor : Monitor :=
    { packets "packets" with
      enrichment := [("value".toList, .int 7), ("type".toList, .string "system".toList)] }
  refine ⟨monitor, rfl, ?_⟩
  intro h
  rcases h with ⟨members, hmembers, hnodup, -⟩
  have htwice : hasKeyTwice (decode (printPayload ⟨0, .finite zero⟩ monitor NO_INSTANCE)) := by
    decide +kernel
  rw [hmembers] at htwice
  simp [hasKeyTwice, hnodup] at htwice

end RbMonitor
