import RbMonitor.Sensor.Loaded

/-!
This module contains the parsing of a sensor, from the objects of its configuration to the ones of
its monitors.
-/

namespace RbMonitor

open RefHeap

section

variable (jsonC : JsonC) (lib : Matheval)

/-- The sensor with all that `sensor_common_attrs_parse_json` sets. -/
def parsedSensor (sensor : HeapSensor) (json : Json) (enrichment : Ptr)
    (monitors : List HeapMonitor) : HeapSensor :=
  { sensor with
    enrichment := some enrichment
    peername := parseCjsonChildDupStr jsonC json "sensor_ip"
    community := parseCjsonChildDupStr jsonC json "community"
    version := (parseCjsonChildDupStr jsonC json "snmp_version").map netSnmpVersion
    timeout := parseCjsonChildInt64 jsonC json "timeout" sensor.timeout
    monitors := some monitors
    opVars := some (getMonitorsDependencies lib (monitors.map (·.withEnrichment [])))
    lastVals := some (List.replicate monitors.length none) }

end

section

variable {jsonC : JsonC} {lib : Matheval} {h loaded : JsonHeap} {q : Option Ptr} {json : Json}

theorem sensorCommonAttrsParseJson_of_no_name (hreads : Reads loaded q json)
    (hname : parseCjsonChildDupStr jsonC json "sensor_name" = none) (sensor : HeapSensor)
    : JsonHeap.sensorCommonAttrsParseJson jsonC lib loaded sensor q = .ok (false, sensor, loaded) := by
  unfold JsonHeap.sensorCommonAttrsParseJson
  rw [HM.bind_of_eq_ok (hreads.childInt64_eq jsonC "sensor_id" 0),
    HM.bind_of_eq_ok (hreads.childStr_eq jsonC "sensor_name"), hname]
  rfl

theorem exists_members_of_name {sensorName : CStr}
    (hname : parseCjsonChildDupStr jsonC json "sensor_name" = some sensorName)
    : ∃ jsonMembers, json = .object jsonMembers := by
  cases json with
  | object jsonMembers => exact ⟨jsonMembers, rfl⟩
  | _ => cases hname

theorem sensorCommonAttrsParseJson_of_no_monitors (hreads : Reads loaded q json)
    (hmonitors : sensorChild json "monitors" = .null) (sensor : HeapSensor)
    : JsonHeap.sensorCommonAttrsParseJson jsonC lib loaded sensor q = .ok (false, sensor, loaded) := by
  unfold JsonHeap.sensorCommonAttrsParseJson
  rw [HM.bind_of_eq_ok (hreads.childInt64_eq jsonC "sensor_id" 0),
    HM.bind_of_eq_ok (hreads.childStr_eq jsonC "sensor_name")]
  cases parseCjsonChildDupStr jsonC json "sensor_name" with
  | none => rfl
  | some sensorName =>
    simp only
    rcases hreads.getEx (.refl loaded) "monitors".toList with ⟨r, hr, hrel⟩
    rw [HM.bind_of_eq_ok hr]
    unfold sensorChild at hmonitors
    generalize jsonObjectGetEx json "monitors".toList = r' at hrel hmonitors
    cases hrel with
    | none => rfl
    | @some q val hchild =>
      cases q with
      | none => rfl
      | some p => exact absurd hmonitors hchild.reads.ne_null

theorem sensorCommonAttrsParseJson_eq (hreads : Reads loaded q json) {sensorName : CStr}
    (hname : parseCjsonChildDupStr jsonC json "sensor_name" = some sensorName)
    (hmonitors : sensorChild json "monitors" ≠ .null)
    : ∃ monitorsArray, Reads loaded (some monitorsArray) (sensorChild json "monitors") ∧
        JsonHeap.jsonObjectObjectGetEx loaded q "monitors".toList = .ok (some (some monitorsArray)) ∧
        ∀ sensor, JsonHeap.sensorCommonAttrsParseJson jsonC lib loaded sensor q = (do
          let (enrichment, h₀) ← JsonHeap.sensorEnrichment loaded q
          let h₁ ← JsonHeap.sensorCreateEnrichment h₀ sensorName
            (parseCjsonChildInt64 jsonC json "sensor_id" 0) enrichment
          let (monitors, h') ← JsonHeap.parseRbMonitors jsonC h₁ monitorsArray enrichment
          return (true, parsedSensor jsonC lib sensor json enrichment monitors, h')) := by
  rcases hreads.getEx (.refl loaded) "monitors".toList with ⟨r, hr, hrel⟩
  have hval : sensorChild json "monitors" = (jsonObjectGetEx json "monitors".toList).getD .null := rfl
  generalize jsonObjectGetEx json "monitors".toList = r' at hrel hval
  cases hrel with
  | none => exact absurd hval hmonitors
  | @some q' val hchild =>
    rw [Option.getD_some] at hval
    cases q' with
    | none => exact absurd (hval.trans hchild.reads.eq_null) hmonitors
    | some monitorsArray =>
      refine ⟨monitorsArray, hval ▸ hchild.reads, hr, ?_⟩
      intro sensor
      unfold JsonHeap.sensorCommonAttrsParseJson
      rw [HM.bind_of_eq_ok (hreads.childInt64_eq jsonC "sensor_id" 0),
        HM.bind_of_eq_ok (hreads.childStr_eq jsonC "sensor_name"), hname]
      simp only
      rw [HM.bind_of_eq_ok hr]
      simp only [Option.join_some]
      rw [HM.bind_of_eq_ok (hreads.childInt64_eq jsonC "timeout" sensor.timeout),
        HM.bind_of_eq_ok (hreads.childStr_eq jsonC "sensor_ip"),
        HM.bind_of_eq_ok (hreads.childStr_eq jsonC "community"),
        HM.bind_of_eq_ok (hreads.childStr_eq jsonC "snmp_version")]
      rfl

/-- The heap when the monitors come to be parsed. -/
structure Prepared (jsonC : JsonC) (lib : Matheval) (json : Json) (h : JsonHeap) (enrichment : Ptr)
    (entries : LinkHash CStr Json) (monitorsArray : Ptr) (h₁ : JsonHeap) : Prop where
  created : ∃ sensorName h₀, parseCjsonChildDupStr jsonC json "sensor_name" = some sensorName ∧
    JsonHeap.sensorEnrichment (load h json).2 (load h json).1 = .ok (enrichment, h₀) ∧
    JsonHeap.sensorCreateEnrichment h₀ sensorName (parseCjsonChildInt64 jsonC json "sensor_id" 0)
      enrichment = .ok h₁
  wellFormed : WellFormed JsonNode.slots h₁
  entries : Reads h₁ (some enrichment) (.object entries)
  monitors : Reads h₁ (some monitorsArray) (sensorChild json "monitors")
  parse : ∀ sensor,
    JsonHeap.sensorCommonAttrsParseJson jsonC lib (load h json).2 sensor (load h json).1 = (do
      let (monitors, h') ← JsonHeap.parseRbMonitors jsonC h₁ monitorsArray enrichment
      return (true, parsedSensor jsonC lib sensor json enrichment monitors, h'))

theorem exists_prepared (hbase : WellFormed JsonNode.slots h) {sensorName : CStr}
    (hname : parseCjsonChildDupStr jsonC json "sensor_name" = some sensorName)
    (hmonitors : sensorChild json "monitors" ≠ .null) {own : LinkHash CStr Json}
    (hown : sensorOwn json = some own)
    : ∃ enrichment monitorsArray h₁,
        Prepared jsonC lib json h enrichment
          (LinkHash.insertAll own
            (sensorEnrichmentAdd sensorName (parseCjsonChildInt64 jsonC json "sensor_id" 0)))
          monitorsArray h₁ ∧
        (sensorChild json "enrichment" = .null →
          ∃ news, Layer JsonNode.slots (load h json).2 h₁ news [enrichment]) := by
  rcases exists_members_of_name hname with ⟨jsonMembers, rfl⟩
  rcases exists_loadedSensor hbase jsonMembers with ⟨r, tree, rootMembers, hr, hsensor⟩
  rcases @sensorCommonAttrsParseJson_eq jsonC lib _ _ _ (reads_load hbase _) _ hname hmonitors
    with ⟨monitorsArray, hreads, hget, hparse⟩
  have hlookup : rootMembers.lookup "monitors".toList = some (some monitorsArray) := by
    rw [hr, hsensor.getEx_eq] at hget
    exact Except.ok.inj hget
  rcases hsensor.exists_enriched hbase hown sensorName
    (parseCjsonChildInt64 jsonC (.object jsonMembers) "sensor_id" 0) hlookup hreads
    with ⟨enrichment, h₀, h₁, henrichment, hcreate, hwell, hentries, hmonitors₁, hlayer⟩
  rw [← hr] at henrichment
  refine ⟨enrichment, monitorsArray, h₁, ⟨⟨sensorName, h₀, hname, henrichment, hcreate⟩, hwell,
    hentries, hmonitors₁, ?_⟩, ?_⟩
  . intro sensor
    rw [hparse sensor, HM.bind_of_eq_ok henrichment]
    simp only
    rw [HM.bind_of_eq_ok hcreate]
  . exact hlayer

theorem addJsonChild_of_bad_node {o : Ptr} {node : JsonNode} (ho : h.node? o = some node)
    (hne : o ≠ h.next) (hnode : ∀ members, node ≠ .object members) (key : String) (val : JsonNode)
    : JsonHeap.addJsonChild h o key val = .error .badNode := by
  unfold JsonHeap.addJsonChild JsonHeap.jsonObjectObjectAdd
  have halloc : (h.alloc val).2.node? o = some node := by
    change ((h.set h.next _).cells o).map RefCell.node = _
    rw [cells_set, if_neg hne]
    exact ho
  simp only
  rw [HM.bind_of_eq_ok (read_eq_ok halloc)]
  cases node with
  | object members => exact absurd rfl (hnode members)
  | _ => rfl

theorem sensorCommonAttrsParseJson_of_bad_enrichment (hbase : WellFormed JsonNode.slots h)
    {sensorName : CStr} (hname : parseCjsonChildDupStr jsonC json "sensor_name" = some sensorName)
    (hmonitors : sensorChild json "monitors" ≠ .null) (hown : sensorOwn json = none)
    (sensor : HeapSensor)
    : JsonHeap.sensorCommonAttrsParseJson jsonC lib (load h json).2 sensor (load h json).1
        =
      .error .badNode := by
  rcases exists_members_of_name hname with ⟨jsonMembers, rfl⟩
  rcases exists_loadedSensor hbase jsonMembers with ⟨r, tree, rootMembers, hr, hsensor⟩
  rcases @sensorCommonAttrsParseJson_eq jsonC lib _ _ _ (reads_load hbase _) _ hname hmonitors
    with ⟨monitorsArray, _, _, hparse⟩
  rw [hparse, hr, hsensor.sensorEnrichment_eq]
  unfold sensorOwn at hown
  rcases hsensor.child "enrichment" with ⟨_, hnull⟩ | ⟨o, ho, _, hchild⟩
  . rw [hnull] at hown
    cases hown
  . rw [ho]
    have hlive := hchild.reads.isSome
    rcases hchild.reads.shape with ⟨node, hnode, hshape⟩
    generalize sensorChild (.object jsonMembers) "enrichment" = oval at hshape hown
    have hne : o ≠ (load h (.object jsonMembers)).2.next := by
      intro heq
      rw [(wellFormed_load hbase _).fresh o (Nat.le_of_eq heq.symm)] at hlive
      cases hlive
    have hbad (members : LinkHash CStr (Option Ptr)) : node ≠ .object members := by
      intro heq
      subst heq
      cases hshape with
      | object _ => cases hown
      | scalar hscalar => cases hscalar
    have hadd := addJsonChild_of_bad_node hnode hne hbad "sensor_name" (.string sensorName)
    change ((JsonHeap.addJsonChild _ o "sensor_name" _ >>= _) >>= _) = _
    rw [hadd]
    rfl

theorem exists_of_parsed (hbase : WellFormed JsonNode.slots h) {sensor sensor' : HeapSensor}
    {h' : JsonHeap} (hparse : JsonHeap.sensorCommonAttrsParseJson jsonC lib (load h json).2 sensor
      (load h json).1 = .ok (true, sensor', h'))
    : ∃ sensorName own, parseCjsonChildDupStr jsonC json "sensor_name" = some sensorName ∧
        sensorChild json "monitors" ≠ .null ∧ sensorOwn json = some own := by
  have hreads := reads_load hbase json
  cases hname : parseCjsonChildDupStr jsonC json "sensor_name" with
  | none =>
    rw [sensorCommonAttrsParseJson_of_no_name hreads hname] at hparse
    cases hparse
  | some sensorName =>
    by_cases hmonitors : sensorChild json "monitors" = .null
    . rw [sensorCommonAttrsParseJson_of_no_monitors hreads hmonitors] at hparse
      cases hparse
    . cases hown : sensorOwn json with
      | some own => exact ⟨sensorName, own, rfl, hmonitors, rfl⟩
      | none =>
        rw [sensorCommonAttrsParseJson_of_bad_enrichment hbase hname hmonitors hown] at hparse
        cases hparse

namespace Prepared

variable {enrichment monitorsArray : Ptr} {entries : LinkHash CStr Json} {h₁ : JsonHeap}

theorem simulates {jsonMonitors : List Json}
    (hprepared : Prepared jsonC lib json h enrichment entries monitorsArray h₁)
    (hmonitors : sensorChild json "monitors" = .array jsonMonitors)
    : Simulates (BuiltAll h₁)
        (jsonMonitors.mapM fun jsonMonitor => parseRbMonitor jsonC jsonMonitor (.object entries))
        (JsonHeap.parseRbMonitors jsonC h₁ monitorsArray enrichment) := by
  rcases hprepared.entries.shape with ⟨node, hnode, hshape⟩
  cases hshape with
  | object hsame =>
    have hreads := hprepared.monitors
    rw [hmonitors] at hreads
    exact parseRbMonitors_simulates hprepared.wellFormed hreads hnode hsame jsonC
  | scalar hscalar => cases node <;> cases hscalar

theorem exists_built (hprepared : Prepared jsonC lib json h enrichment entries monitorsArray h₁)
    {rc : Bool} {sensor sensor' : HeapSensor} {h' : JsonHeap}
    (hparse : JsonHeap.sensorCommonAttrsParseJson jsonC lib (load h json).2 sensor
      (load h json).1 = .ok (rc, sensor', h'))
    : ∃ jsonMonitors vals monitors, sensorChild json "monitors" = .array jsonMonitors ∧
        (jsonMonitors.mapM fun jsonMonitor =>
          parseRbMonitor jsonC jsonMonitor (.object entries)) = .ok vals ∧
        JsonHeap.parseRbMonitors jsonC h₁ monitorsArray enrichment = .ok (monitors, h') ∧
        BuiltAll h₁ vals (monitors, h') ∧ rc = true ∧
        sensor' = parsedSensor jsonC lib sensor json enrichment monitors := by
  rw [hprepared.parse] at hparse
  cases hprepared.monitors.jsonObjectArrayElms with
  | inr hfault =>
    unfold JsonHeap.parseRbMonitors at hparse
    rw [hfault.1] at hparse
    cases hparse
  | inl harray =>
    rcases harray with ⟨_, jsonMonitors, _, hmonitors, _⟩
    cases hmonitor : JsonHeap.parseRbMonitors jsonC h₁ monitorsArray enrichment with
    | error e =>
      rw [hmonitor] at hparse
      cases hparse
    | ok res =>
      have hsimulates := hprepared.simulates hmonitors
      rw [hmonitor] at hparse hsimulates
      rcases hsimulates.exists_of_ok_right with ⟨vals, hvals, hbuilt⟩
      cases hparse
      exact ⟨jsonMonitors, vals, res.1, hmonitors, hvals, rfl, hbuilt, rfl, rfl⟩

end Prepared

end

end RbMonitor
