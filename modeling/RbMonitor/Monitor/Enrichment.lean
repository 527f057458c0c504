import RbMonitor.Json.Reads
import RbMonitor.Monitor.Heap

/-!
This module contains that a monitor on the heap has the enrichment of the monitor that is parsed
from the values, in an object of its own.
-/

namespace RbMonitor

open RefHeap

theorem enrichmentAdd_eq (type : MonitorCmdType) (unit groupName : Option CStr)
    : enrichmentAdd type unit groupName
        =
      (JsonHeap.enrichmentStrs type unit groupName).flatMap
        fun e => rbMonitorEnrichmentStr e.1 e.2 := by
  simp [enrichmentAdd, JsonHeap.enrichmentStrs]

section

variable {h h' : JsonHeap} {o : Ptr} {members : LinkHash CStr (Option Ptr)}
  {others news : List (Ptr × JsonNode)} {extra temps : List Ptr} {vals : LinkHash CStr Json}

theorem Leaf.mono {others' : List (Ptr × JsonNode)} (hsubset : others ⊆ others') {q : Option Ptr}
    {val : Json} (hleaf : Leaf others q val)
    : Leaf others' q val := by
  rcases hleaf with ⟨p, node, hq, hmem, hscalar⟩
  exact ⟨p, node, hq, hsubset hmem, hscalar⟩

theorem Filling.newEnrichmentStrs {base : JsonHeap} (hbase : WellFormed JsonNode.slots base)
    (strs : List (String × Option CStr))
    (hfilling : Filling base h o members others extra temps news)
    : ∃ others' news',
        Filling base (JsonHeap.newEnrichmentStrs h strs).2 o members others'
          (((JsonHeap.newEnrichmentStrs h strs).1.map Prod.snd).reduceOption ++ extra) temps news' ∧
        SameKeys (Leaf others') (JsonHeap.newEnrichmentStrs h strs).1
          (strs.flatMap fun e => rbMonitorEnrichmentStr e.1 e.2) ∧
        others ⊆ others' ∧ ∀ e ∈ others', e ∈ others ∨ e.2.slots = [] := by
  induction strs generalizing h others extra news with
  | nil => exact ⟨others, news, hfilling, .nil, List.Subset.refl _, fun _ => Or.inl⟩
  | cons e strs ih =>
    rcases e with ⟨key, val⟩
    cases val with
    | none => exact ih hfilling
    | some val =>
      have halloc := hfilling.alloc hbase (show (JsonNode.string val).slots = [] from rfl)
      rcases ih halloc with ⟨others', news', hfilling', hsame, hsubset, hothers⟩
      refine ⟨others', news', hfilling'.perm List.perm_middle, .cons ⟨rfl, ?_⟩ hsame, ?_, ?_⟩
      . exact ⟨h.next, .string val, rfl, hsubset List.mem_cons_self, rfl⟩
      . intro e he
        exact hsubset (List.mem_cons_of_mem _ he)
      . intro e he
        cases hothers e he with
        | inl hmem =>
          cases List.mem_cons.mp hmem with
          | inl heq => exact Or.inr (heq ▸ rfl)
          | inr hmem => exact Or.inl hmem
        | inr hslots => exact Or.inr hslots

theorem SameKeys.isSome (hsame : SameKeys (Child h) members vals)
    : ∀ e ∈ members, ∀ p, e.2 = some p → (h.cells p).isSome := by
  intro e he p hp
  rcases exists_of_forall₂_left hsame he with ⟨e', _, _, hchild⟩
  rw [hp] at hchild
  exact hchild.reads.isSome

theorem jsonObjectObjectCopy_eq_ok (hbase : WellFormed JsonNode.slots h) {orig : Ptr}
    (horig : h.node? orig = some (.object members))
    (hlive : ∀ e ∈ members, ∀ p, e.2 = some p → (h.cells p).isSome)
    : ∃ h' news, JsonHeap.jsonObjectObjectCopy h orig = .ok (some h.next, h') ∧
        Filling h h' h.next (LinkHash.insertAll [] members) [] [] [h.next] news := by
  rcases (Filling.new hbase).copy0Childs hbase members hlive with ⟨h', news, hcopy, hfilling'⟩
  refine ⟨h', news, ?_, hfilling'⟩
  unfold JsonHeap.jsonObjectObjectCopy
  rw [HM.bind_of_eq_ok (read_eq_ok horig)]
  have halloc : h.alloc (.object []) = (h.next, (h.alloc (.object [])).2) := rfl
  simp only
  rw [halloc]
  simp only
  rw [HM.bind_of_eq_ok hcopy]
  rfl

theorem addMonitorEnrichment_simulates (hbase : WellFormed JsonNode.slots h) {jsonMonitor : Json}
    {q : Option Ptr} (hreads : Reads h q jsonMonitor) (hsame : SameKeys (Child h) members vals)
    (hfilling : Filling h h' o members others extra temps news)
    : Simulates
        (fun vals h'' => ∃ members' news', Filling h h'' o members' others extra temps news' ∧
          SameKeys (Child h) members' vals)
        (addMonitorEnrichment jsonMonitor vals) (JsonHeap.addMonitorEnrichment h' o q) := by
  have hextends := Extends.of_overlay hfilling.overlay
  rcases hreads.getEx hextends "enrichment".toList with ⟨r, hr, hrel⟩
  unfold addMonitorEnrichment JsonHeap.addMonitorEnrichment
  rw [HM.bind_of_eq_ok hr]
  generalize jsonObjectGetEx jsonMonitor "enrichment".toList = r' at hrel ⊢
  cases hrel with
  | none => exact .ok ⟨members, news, hfilling, hsame⟩
  | @some q v hchild =>
    simp only
    cases hchild.reads.jsonObjectMembers hextends with
    | inl hobject =>
      rcases hobject with ⟨own, ownVals, hown, rfl, hownSame⟩
      rcases hfilling.copy0Childs hbase own hownSame.isSome with ⟨h₁, news₁, hcopy, hfilling₁⟩
      rw [HM.bind_of_eq_ok hown, hcopy]
      exact .ok ⟨_, news₁, hfilling₁, hsame.insertAll hownSame⟩
    | inr hfault =>
      rcases hfault with ⟨hown, hne⟩
      have herror : (JsonHeap.jsonObjectMembers h' q >>=
          JsonHeap.jsonObjectCopy0Childs h' o) = .error .nullPointer := by
        rw [hown]
        rfl
      rw [herror]
      cases v with
      | object ownVals => exact absurd rfl (hne ownVals)
      | _ => exact .error _ _

theorem Filling.addStrs (hbase : WellFormed JsonNode.slots h) (ho : h.next ≤ o)
    (hsame : SameKeys (Child h) members vals) (strs : List (String × Option CStr))
    (hfilling : Filling h h' o members [] [] [o] news)
    : ∃ h'' news'',
        (JsonHeap.newEnrichmentStrs h' strs).1.foldlM
          (fun h e => JsonHeap.jsonObjectObjectAdd h o e.1 e.2)
          (JsonHeap.newEnrichmentStrs h' strs).2 = .ok h'' ∧
        Layer JsonNode.slots h h'' news'' [o] ∧
        Reads h'' (some o) (.object (LinkHash.insertAll vals
          (strs.flatMap fun e => rbMonitorEnrichmentStr e.1 e.2))) := by
  rcases hfilling.newEnrichmentStrs hbase strs with ⟨others, news₁, hfilling₁, hstrs, _, hothers⟩
  rcases hfilling₁.addAll hbase _ with ⟨h₂, news₂, hadd, hfilling₂⟩
  have hleaf (e : Ptr × JsonNode) (he : e ∈ others) : e.2.slots = [] := by
    cases hothers e he with
    | inl hmem => cases hmem
    | inr hslots => exact hslots
  have hsame₂ := (hsame.mono fun _ _ => Or.inl).insertAll (hstrs.mono fun _ _ => Or.inr)
  exact ⟨h₂, news₂, hadd, hfilling₂.layer hleaf hsame₂, hfilling₂.reads ho hsame₂⟩

end

/-- A monitor that is parsed on the heap, and the one that is parsed from the values. -/
inductive Built (h : JsonHeap) : Option Monitor → Option HeapMonitor × JsonHeap → Prop where
  | none : Built h none (none, h)
  | some {val : Monitor} {monitor : HeapMonitor} {enrichment : LinkHash CStr Json} {h' : JsonHeap}
      {news : List (Ptr × JsonNode)} (eq : val = monitor.withEnrichment enrichment)
      (layer : Layer JsonNode.slots h h' news [monitor.enrichment])
      (reads : Reads h' (some monitor.enrichment) (.object enrichment))
      : Built h (some val) (some monitor, h')

section

variable {h : JsonHeap} {q : Option Ptr} {jsonMonitor : Json} {sensorEnrichment : Ptr}
  {members : LinkHash CStr (Option Ptr)} {vals : LinkHash CStr Json}

theorem parseRbMonitor0_simulates (hbase : WellFormed JsonNode.slots h)
    (hreads : Reads h q jsonMonitor) (hnode : h.node? sensorEnrichment = some (.object members))
    (hsame : SameKeys (Child h) members vals) (jsonC : JsonC) (type : MonitorCmdType) (cmdArg : CStr)
    : Simulates (Built h) (parseRbMonitor0 jsonC type cmdArg jsonMonitor (.object vals))
        (JsonHeap.parseRbMonitor0 jsonC h type cmdArg q sensorEnrichment) := by
  unfold parseRbMonitor0 JsonHeap.parseRbMonitor0
  rw [HM.bind_of_eq_ok (hreads.childStr_eq jsonC "name")]
  cases parseCjsonChildDupStr jsonC jsonMonitor "name" with
  | none => exact .ok .none
  | some name =>
    simp only
    rw [HM.bind_of_eq_ok (hreads.childStr_eq jsonC "split_op"),
      HM.bind_of_eq_ok (hreads.childStr_eq jsonC "unit"),
      HM.bind_of_eq_ok (hreads.childStr_eq jsonC "group_name"),
      HM.bind_of_eq_ok (hreads.childInt64_eq jsonC "timestamp_given" 0),
      HM.bind_of_eq_ok (hreads.childStr_eq jsonC "split"),
      HM.bind_of_eq_ok (hreads.childStr_eq jsonC "name_split_suffix"),
      HM.bind_of_eq_ok (hreads.childStr_eq jsonC "instance_prefix"),
      HM.bind_of_eq_ok (hreads.childStr_eq jsonC "group_id"),
      HM.bind_of_eq_ok (hreads.childInt64_eq jsonC "send" 1),
      HM.bind_of_eq_ok (hreads.childInt64_eq jsonC "integer" 0)]
    rcases jsonObjectObjectCopy_eq_ok hbase hnode hsame.isSome with ⟨h₁, news₁, hcopy, hfilling₁⟩
    rw [HM.bind_of_eq_ok hcopy]
    have hcopied : SameKeys (Child h) (LinkHash.insertAll [] members) (LinkHash.insertAll [] vals) :=
      SameKeys.insertAll .nil hsame
    simp only [jsonObjectCopy]
    refine (addMonitorEnrichment_simulates hbase hreads hcopied hfilling₁).bind ?_
    intro enrichment h₂ hadded
    rcases hadded with ⟨members₂, news₂, hfilling₂, hsame₂⟩
    rcases hfilling₂.addStrs hbase (Nat.le_refl _) hsame₂ (JsonHeap.enrichmentStrs type
      (parseCjsonChildDupStr jsonC jsonMonitor "unit")
      (parseCjsonChildDupStr jsonC jsonMonitor "group_name")) with ⟨h₃, news₃, hadd, hlayer, hreads₃⟩
    rw [← enrichmentAdd_eq] at hreads₃
    rw [HM.bind_of_eq_ok hadd]
    exact .ok (.some rfl hlayer hreads₃)

theorem Reads.extractMonitorCmd_eq (hreads : Reads h q jsonMonitor) (jsonC : JsonC)
    : JsonHeap.extractMonitorCmd jsonC h q = .ok (extractMonitorCmd jsonC jsonMonitor) := by
  have hgo (types : List MonitorCmdType)
      : JsonHeap.extractMonitorCmd.go jsonC h q types
          =
        .ok (extractMonitorCmd.go jsonC jsonMonitor types) := by
    induction types with
    | nil => rfl
    | cons type types ih =>
      rcases hreads.getEx (.refl h) type.cmdKey.toList with ⟨r, hr, hrel⟩
      unfold JsonHeap.extractMonitorCmd.go extractMonitorCmd.go
      rw [HM.bind_of_eq_ok hr]
      generalize jsonObjectGetEx jsonMonitor type.cmdKey.toList = r' at hrel ⊢
      cases hrel with
      | none => exact ih
      | some hchild =>
        simp only
        rw [HM.bind_of_eq_ok hchild.reads.jsonValue_eq]
        rfl
  exact hgo _

theorem parseRbMonitor_simulates (hbase : WellFormed JsonNode.slots h)
    (hreads : Reads h q jsonMonitor) (hnode : h.node? sensorEnrichment = some (.object members))
    (hsame : SameKeys (Child h) members vals) (jsonC : JsonC)
    : Simulates (Built h) (parseRbMonitor jsonC jsonMonitor (.object vals))
        (JsonHeap.parseRbMonitor jsonC h q sensorEnrichment) := by
  unfold parseRbMonitor JsonHeap.parseRbMonitor
  rw [HM.bind_of_eq_ok (hreads.extractMonitorCmd_eq jsonC)]
  cases extractMonitorCmd jsonC jsonMonitor with
  | none => exact .ok .none
  | some cmd => exact parseRbMonitor0_simulates hbase hreads hnode hsame jsonC cmd.1 cmd.2

/-! ### All monitors of a sensor -/

/-- The node of the enrichment holds the one of the value. -/
def Represents (h : JsonHeap) (val : Monitor) (monitor : HeapMonitor) : Prop :=
  ∃ enrichment, val = monitor.withEnrichment enrichment ∧
    Reads h (some monitor.enrichment) (.object enrichment)

theorem Represents.extends {h' : JsonHeap} {val : Monitor} {monitor : HeapMonitor}
    (hextends : Extends h h') (hrep : Represents h val monitor)
    : Represents h' val monitor := by
  rcases hrep with ⟨enrichment, hval, hreads⟩
  exact ⟨enrichment, hval, hextends.reads hreads⟩

structure BuiltAll (h : JsonHeap) (monitorVals : List (Option Monitor))
    (res : List HeapMonitor × JsonHeap) : Prop where
  layer : ∃ news, Layer JsonNode.slots h res.2 news (res.1.map HeapMonitor.enrichment)
  monitors : List.Forall₂ (Represents res.2) monitorVals.reduceOption res.1

theorem BuiltAll.cons (hbase : WellFormed JsonNode.slots h) {monitorVal : Option Monitor}
    {monitor : Option HeapMonitor} {h₁ h₂ : JsonHeap} {monitorVals : List (Option Monitor)}
    {monitors : List HeapMonitor} (hbuilt : Built h monitorVal (monitor, h₁))
    (hall : BuiltAll h₁ monitorVals (monitors, h₂))
    : BuiltAll h (monitorVal :: monitorVals) (monitor.toList ++ monitors, h₂) := by
  rcases hall with ⟨⟨news₂, hlayer₂⟩, hmonitors⟩
  cases hbuilt with
  | none => exact ⟨⟨news₂, hlayer₂⟩, hmonitors⟩
  | @some val monitor enrichment _ news₁ hval hlayer₁ hreads₁ =>
    refine ⟨⟨news₂ ++ news₁, (hlayer₁.trans hbase hlayer₂).perm ?_⟩, .cons ?_ hmonitors⟩
    . exact List.perm_append_comm
    . exact Represents.extends (Extends.of_overlay hlayer₂.toOverlay) ⟨enrichment, hval, hreads₁⟩

theorem Child.of_overlay {h' : JsonHeap} {news : List (Ptr × JsonNode)} {temps : List Ptr}
    (hoverlay : Overlay JsonNode.slots h h' news temps) {q : Option Ptr} {val : Json}
    (hchild : Child h q val)
    : Child h' q val := by
  refine ⟨(Extends.of_overlay hoverlay).reads hchild.reads, ?_⟩
  intro p hp
  rcases hchild.slot p hp with ⟨p', cell, hcell, hslot⟩
  exact ⟨p', _, hoverlay.old p' cell hcell, hslot⟩

theorem parseRbMonitors_go_simulates (hbase : WellFormed JsonNode.slots h)
    {qs : List (Option Ptr)} {jsonMonitors : List Json}
    (hreads : List.Forall₂ (Reads h) qs jsonMonitors)
    (hnode : h.node? sensorEnrichment = some (.object members))
    (hsame : SameKeys (Child h) members vals) (jsonC : JsonC)
    : Simulates (BuiltAll h) (jsonMonitors.mapM fun json => parseRbMonitor jsonC json (.object vals))
        (JsonHeap.parseRbMonitors.go jsonC sensorEnrichment h qs) := by
  induction qs generalizing h jsonMonitors with
  | nil =>
    cases hreads
    exact .ok ⟨⟨[], .refl hbase⟩, .nil⟩
  | cons q qs ih =>
    cases hreads with
    | @cons _ json _ jsons hread hreads =>
      rw [List.mapM_cons]
      unfold JsonHeap.parseRbMonitors.go
      refine (parseRbMonitor_simulates hbase hread hnode hsame jsonC).bind ?_
      intro monitorVal res hbuilt
      rcases res with ⟨monitor, h₁⟩
      -- the nodes that were there are so still
      have hoverlay : ∃ news temps, Overlay JsonNode.slots h h₁ news temps := by
        cases hbuilt with
        | none => exact ⟨[], [], .refl hbase⟩
        | some _ hlayer _ => exact ⟨_, _, hlayer.toOverlay⟩
      rcases hoverlay with ⟨news, temps, hoverlay⟩
      have hextends := Extends.of_overlay hoverlay
      have hrest := ih (hoverlay.wellFormed hbase) (hreads.imp fun _ _ => hextends.reads)
        (hextends.node? _ _ hnode) (hsame.mono fun _ _ => Child.of_overlay hoverlay)
      refine hrest.bind ?_
      intro monitorVals res₂ hall
      exact .ok (.cons hbase hbuilt hall)

theorem parseRbMonitors_simulates (hbase : WellFormed JsonNode.slots h) {monitorsArray : Ptr}
    {jsonMonitors : List Json} (hreads : Reads h (some monitorsArray) (.array jsonMonitors))
    (hnode : h.node? sensorEnrichment = some (.object members))
    (hsame : SameKeys (Child h) members vals) (jsonC : JsonC)
    : Simulates (BuiltAll h) (jsonMonitors.mapM fun json => parseRbMonitor jsonC json (.object vals))
        (JsonHeap.parseRbMonitors jsonC h monitorsArray sensorEnrichment) := by
  unfold JsonHeap.parseRbMonitors
  cases hreads.jsonObjectArrayElms with
  | inl harray =>
    rcases harray with ⟨elms, vals', helms, hval, hvals⟩
    cases hval
    rw [HM.bind_of_eq_ok helms]
    exact parseRbMonitors_go_simulates hbase hvals hnode hsame jsonC
  | inr hfault => exact absurd rfl (hfault.2 jsonMonitors)

end

/-! ### The entries of the values -/

section

variable (jsonC : JsonC)

/-- Whether a monitor comes of the configuration. -/
def accepted (jsonMonitor : Json) : Bool :=
  (extractMonitorCmd jsonC jsonMonitor).isSome
    && (parseCjsonChildDupStr jsonC jsonMonitor "name").isSome

/-- The type, the unit and the group of a monitor, under the keys of its messages. -/
def monitorEntry (jsonMonitor : Json) (key : CStr) : Option Json :=
  if key = "type".toList then
    (extractMonitorCmd jsonC jsonMonitor).map fun cmd => .string cmd.1.rbMonitorType.toList
  else if key = "unit".toList then
    (parseCjsonChildDupStr jsonC jsonMonitor "unit").map .string
  else if key = "group_name".toList then
    (parseCjsonChildDupStr jsonC jsonMonitor "group_name").map .string
  else
    none

/-- The entry of the enrichment that stands at a monitor or a sensor. -/
def ownEntry (json : Json) (key : CStr) : Option Json :=
  match jsonObjectGetEx json "enrichment".toList with
  | some (.object own) => own.lookup key
  | _ => none

end

/-- Every object has each of its keys once, as those of json-c do. -/
inductive UniqueKeys : Json → Prop where
  | null : UniqueKeys .null
  | boolean (b : Bool) : UniqueKeys (.boolean b)
  | int (n : Int) : UniqueKeys (.int n)
  | double (d : Binary64) : UniqueKeys (.double d)
  | string (s : CStr) : UniqueKeys (.string s)
  | array {elms : List Json} (h : ∀ elm ∈ elms, UniqueKeys elm) : UniqueKeys (.array elms)
  | object {members : List (CStr × Json)} (hnodup : (LinkHash.keys members).Nodup)
      (h : ∀ e ∈ members, UniqueKeys e.2) : UniqueKeys (.object members)

theorem mem_of_lookup_eq_some {t : LinkHash CStr Json} {key : CStr} {val : Json}
    (h : t.lookup key = some val)
    : (key, val) ∈ t := by
  rw [List.lookup_eq_some_iff] at h
  rcases h with ⟨before, after, rfl, _⟩
  exact List.mem_append_right _ List.mem_cons_self

theorem UniqueKeys.getEx {json val : Json} (hkeys : UniqueKeys json) {key : CStr}
    (h : jsonObjectGetEx json key = some val)
    : UniqueKeys val := by
  cases hkeys with
  | object _ hmembers => exact hmembers _ (mem_of_lookup_eq_some h)
  | _ => cases h

theorem UniqueKeys.nodup {members : LinkHash CStr Json} (hkeys : UniqueKeys (.object members))
    : (LinkHash.keys members).Nodup := by
  cases hkeys with
  | object hnodup _ => exact hnodup

section

variable {jsonC : JsonC} {jsonMonitor : Json} {vals : LinkHash CStr Json}

theorem nodup_keys_enrichmentAdd (type : MonitorCmdType) (unit groupName : Option CStr)
    : (LinkHash.keys (enrichmentAdd type unit groupName)).Nodup := by
  cases unit <;> cases groupName <;> simp [enrichmentAdd, rbMonitorEnrichmentStr, LinkHash.keys]

theorem lookup_enrichmentAdd (type : MonitorCmdType) (unit groupName : Option CStr) (key : CStr)
    : (enrichmentAdd type unit groupName).lookup key
        =
      if key = "type".toList then
        some (.string type.rbMonitorType.toList)
      else if key = "unit".toList then
        unit.map .string
      else if key = "group_name".toList then
        groupName.map .string
      else
        none := by
  by_cases htype : key = "type".toList
  . subst htype
    rfl
  . by_cases hunit : key = "unit".toList
    . subst hunit
      cases unit <;> cases groupName <;> rfl
    . have htype' := beq_eq_false_iff_ne.mpr htype
      have hunit' := beq_eq_false_iff_ne.mpr hunit
      rw [if_neg htype, if_neg hunit]
      by_cases hgroup : key = "group_name".toList
      . subst hgroup
        cases unit <;> cases groupName <;> rfl
      . have hgroup' := beq_eq_false_iff_ne.mpr hgroup
        rw [if_neg hgroup]
        cases unit <;> cases groupName <;>
          simp only [enrichmentAdd, rbMonitorEnrichmentStr, Option.map_some, Option.map_none,
            Option.toList_some, Option.toList_none, List.cons_append, List.nil_append,
            List.append_nil, List.lookup_cons, List.lookup_nil, htype', hunit', hgroup']

theorem isSome_parseRbMonitor {monitor : Option Monitor}
    (h : parseRbMonitor jsonC jsonMonitor (.object vals) = .ok monitor)
    : monitor.isSome = accepted jsonC jsonMonitor := by
  unfold parseRbMonitor at h
  unfold accepted
  cases hcmd : extractMonitorCmd jsonC jsonMonitor with
  | none =>
    rw [hcmd] at h
    cases h
    rfl
  | some cmd =>
    rw [hcmd] at h
    simp only [parseRbMonitor0, jsonObjectCopy] at h
    cases hname : parseCjsonChildDupStr jsonC jsonMonitor "name" with
    | none =>
      rw [hname] at h
      cases h
      rfl
    | some name =>
      rw [hname] at h
      rcases CM.bind_eq_ok.mp h with ⟨enrichment, _, hmonitor⟩
      cases hmonitor
      rfl

theorem lookup_addMonitorEnrichment (hkeys : UniqueKeys jsonMonitor) {enrichment : LinkHash CStr Json}
    (h : addMonitorEnrichment jsonMonitor vals = .ok enrichment) (key : CStr)
    : enrichment.lookup key = (ownEntry jsonMonitor key).or (vals.lookup key) := by
  unfold addMonitorEnrichment at h
  unfold ownEntry
  cases hown : jsonObjectGetEx jsonMonitor "enrichment".toList with
  | none =>
    rw [hown] at h
    cases h
    rfl
  | some own =>
    rw [hown] at h
    cases own with
    | object members =>
      cases h
      exact LinkHash.lookup_insertAll vals (hkeys.getEx hown).nodup key
    | _ => cases h

theorem lookup_parseRbMonitor (hkeys : UniqueKeys jsonMonitor) (hvals : (LinkHash.keys vals).Nodup)
    {monitor : Monitor} (h : parseRbMonitor jsonC jsonMonitor (.object vals) = .ok (some monitor))
    (key : CStr)
    : monitor.enrichment.lookup key
        =
      (monitorEntry jsonC jsonMonitor key).or
        ((ownEntry jsonMonitor key).or (vals.lookup key)) := by
  unfold parseRbMonitor at h
  unfold monitorEntry
  cases hcmd : extractMonitorCmd jsonC jsonMonitor with
  | none =>
    rw [hcmd] at h
    cases h
  | some cmd =>
    rw [hcmd] at h
    simp only [parseRbMonitor0, jsonObjectCopy] at h
    cases hname : parseCjsonChildDupStr jsonC jsonMonitor "name" with
    | none =>
      rw [hname] at h
      cases h
    | some name =>
      rw [hname] at h
      rcases CM.bind_eq_ok.mp h with ⟨enrichment, henrichment, hmonitor⟩
      cases hmonitor
      have hcopy : (LinkHash.insertAll [] vals).lookup key = vals.lookup key := by
        rw [LinkHash.lookup_insertAll [] hvals]
        cases vals.lookup key <;> rfl
      change (LinkHash.insertAll enrichment _).lookup key = _
      rw [LinkHash.lookup_insertAll _ (nodup_keys_enrichmentAdd _ _ _),
        lookup_addMonitorEnrichment hkeys henrichment, hcopy, lookup_enrichmentAdd]
      rfl

end

end RbMonitor
