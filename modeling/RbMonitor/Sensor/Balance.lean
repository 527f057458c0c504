import RbMonitor.Sensor.Enrichment

/-!
This module contains whether a sensor that is parsed and put leaves its configuration with the
references that it had.
-/

namespace RbMonitor

open RefHeap

section

variable (jsonC : JsonC) (lib : Matheval) (workerInfo : WorkerInfo)

/-- `parse_rb_sensor`, and `rb_sensor_put` of the sensor if there is one. -/
def parseAndPut (h : JsonHeap) (sensorInfo : Option Ptr) : HM JsonHeap := do
  match ← JsonHeap.parseRbSensor jsonC lib h sensorInfo workerInfo with
  | (none, h) => return h
  | (some sensor, h) => return (← JsonHeap.rbSensorPut h sensor).2

/-- The run ends, and every node of the configuration has as many references as before. -/
def Balanced (h : JsonHeap) (json : Json) : Prop :=
  ∃ h', parseAndPut jsonC lib workerInfo (load h json).2 (load h json).1 = .ok h' ∧
    ∀ p, h.next ≤ p → p < (load h json).2.next → h'.refs p = (load h json).2.refs p

/-- The own enrichment of a monitor, if there is one, is an object. -/
def Addable (jsonMonitor : Json) : Prop :=
  ∀ own, jsonObjectGetEx jsonMonitor "enrichment".toList = some own → ∃ members, own = .object members

/-- Nothing of the configuration comes to be the enrichment of the sensor. -/
def BorrowsNothing (json : Json) : Prop :=
  parseCjsonChildDupStr jsonC json "sensor_name" = none ∨ sensorChild json "monitors" = .null ∨
    sensorChild json "enrichment" = .null ∧ ∃ jsonMonitors,
      sensorChild json "monitors" = .array jsonMonitors ∧
      ∀ jsonMonitor ∈ jsonMonitors, accepted jsonC jsonMonitor → Addable jsonMonitor

end

/-! ### The references of the enrichment -/

section

variable {h h' : JsonHeap}

theorem refs_jsonObjectObjectAdd_le {o : Ptr} {key : CStr} {val : Option Ptr}
    (hadd : JsonHeap.jsonObjectObjectAdd h o key val = .ok h') (p : Ptr)
    : h'.refs p ≤ h.refs p ∧ h'.next = h.next := by
  unfold JsonHeap.jsonObjectObjectAdd at hadd
  cases hread : h.read o with
  | error e =>
    rw [hread] at hadd
    cases hadd
  | ok node =>
    rw [HM.bind_of_eq_ok hread] at hadd
    cases node with
    | object members =>
      simp only at hadd
      cases hwrite : h.write o (.object (LinkHash.insert members key val)) with
      | error e =>
        rw [hwrite] at hadd
        cases hadd
      | ok h₁ =>
        rw [HM.bind_of_eq_ok hwrite] at hadd
        rw [← refs_write hwrite p, ← next_write hwrite]
        unfold JsonHeap.jsonObjectPut at hadd
        split at hadd
        . cases hadd
          exact ⟨Nat.le_refl _, rfl⟩
        . have hshrinks := shrinks_put hadd
          exact ⟨hshrinks.refs_le p, hshrinks.next⟩
    | _ => cases hadd

theorem refs_addJsonChild_le {o : Ptr} {key : String} {node : JsonNode}
    (hadd : JsonHeap.addJsonChild h o key node = .ok h') {p : Ptr} (hp : p < h.next)
    : h'.refs p ≤ h.refs p ∧ p < h'.next := by
  unfold JsonHeap.addJsonChild at hadd
  rcases refs_jsonObjectObjectAdd_le hadd p with ⟨hle, hnext⟩
  constructor
  . rw [← refs_alloc hp node]
    exact hle
  . rw [hnext]
    exact Nat.lt_succ_of_lt hp

theorem refs_sensorCreateEnrichment_le {o : Ptr} {sensorName : CStr} {sensorId : Int}
    (hcreate : JsonHeap.sensorCreateEnrichment h sensorName sensorId o = .ok h') {p : Ptr}
    (hp : p < h.next)
    : h'.refs p ≤ h.refs p := by
  unfold JsonHeap.sensorCreateEnrichment at hcreate
  cases hname : JsonHeap.addJsonChild h o "sensor_name" (.string sensorName) with
  | error e =>
    rw [hname] at hcreate
    cases hcreate
  | ok h₁ =>
    rcases refs_addJsonChild_le hname hp with ⟨hle, hp₁⟩
    rw [HM.bind_of_eq_ok hname] at hcreate
    split at hcreate
    . exact Nat.le_trans (refs_addJsonChild_le hcreate hp₁).1 hle
    . cases hcreate
      exact hle

theorem sensorEnrichment_borrowed (hbase : WellFormed JsonNode.slots h) {json : Json}
    (hown : sensorChild json "enrichment" ≠ .null) {enrichment : Ptr} {h₀ : JsonHeap}
    (henrichment : JsonHeap.sensorEnrichment (load h json).2 (load h json).1 = .ok (enrichment, h₀))
    : h₀ = (load h json).2 ∧ h.next ≤ enrichment ∧ enrichment < (load h json).2.next := by
  cases json with
  | object jsonMembers =>
    rcases exists_loadedSensor hbase jsonMembers with ⟨r, tree, rootMembers, hr, hsensor⟩
    rw [hr, hsensor.sensorEnrichment_eq] at henrichment
    rcases hsensor.child "enrichment" with ⟨_, hnull⟩ | ⟨o, ho, _, hchild⟩
    . exact absurd hnull hown
    . rw [ho] at henrichment
      cases henrichment
      rcases hsensor.isTree.closed _ hsensor.root _ (LoadedSensor.mem_slots_of_lookup ho)
        with ⟨node, hmem⟩
      refine ⟨rfl, hsensor.isTree.above _ hmem, ?_⟩
      by_contra hle
      have hlive := hchild.reads.isSome
      rw [(wellFormed_load hbase _).fresh _ (Nat.le_of_not_lt hle)] at hlive
      cases hlive
  | _ => exact absurd rfl hown

end

/-! ### The run to its end -/

section

variable {jsonC : JsonC} {lib : Matheval} {workerInfo : WorkerInfo} {h : JsonHeap} {json : Json}

theorem parseAndPut_of_parse {q : Option Ptr} {rc : Bool} {sensor : HeapSensor} {h' : JsonHeap}
    (hparse : JsonHeap.sensorCommonAttrsParseJson jsonC lib h (JsonHeap.sensorSetDefaults workerInfo) q
      = .ok (rc, sensor, h')) (hrefcnt : sensor.refcnt = 1)
    : parseAndPut jsonC lib workerInfo h q = JsonHeap.sensorDone h' sensor := by
  have hput : JsonHeap.rbSensorPut h' sensor = (JsonHeap.sensorDone h' sensor).map (none, ·) := by
    unfold JsonHeap.rbSensorPut
    simp only [hrefcnt, Int.sub_self, if_true]
    cases JsonHeap.sensorDone h' sensor <;> rfl
  unfold parseAndPut JsonHeap.parseRbSensor JsonHeap.sensorCommonAttrs
  rw [hparse]
  cases hok : rc && JsonHeap.sensorCommonAttrsCheckSensor sensor
  all_goals
    change ((if rc && JsonHeap.sensorCommonAttrsCheckSensor sensor then _ else _) >>= _) = _
    rw [hok]
    cases hdone : JsonHeap.sensorDone h' sensor
    all_goals
      rw [hdone] at hput
      simp [hput, Bind.bind, Except.bind, Except.map, Pure.pure, Except.pure]

theorem exists_parse_of_parseAndPut {q : Option Ptr} {h' : JsonHeap}
    (hrun : parseAndPut jsonC lib workerInfo h q = .ok h')
    : ∃ res, JsonHeap.sensorCommonAttrsParseJson jsonC lib h (JsonHeap.sensorSetDefaults workerInfo) q
        = .ok res := by
  unfold parseAndPut JsonHeap.parseRbSensor JsonHeap.sensorCommonAttrs at hrun
  cases hparse : JsonHeap.sensorCommonAttrsParseJson jsonC lib h
      (JsonHeap.sensorSetDefaults workerInfo) q with
  | error e =>
    rw [hparse] at hrun
    cases hrun
  | ok res => exact ⟨res, rfl⟩

theorem sensorDone_parsedSensor (sensor : HeapSensor) (enrichment : Ptr)
    (monitors : List HeapMonitor) (h : JsonHeap)
    : JsonHeap.sensorDone h (parsedSensor jsonC lib sensor json enrichment monitors)
        =
      (monitors.map HeapMonitor.enrichment).foldlM (RefHeap.put JsonNode.slots) h >>=
        fun h => h.put JsonNode.slots enrichment := by
  rw [List.foldlM_map]
  rfl

theorem parseRbMonitor_eq_ok_iff (jsonMonitor : Json) (entries : LinkHash CStr Json)
    : (∃ monitor, parseRbMonitor jsonC jsonMonitor (.object entries) = .ok monitor) ↔
        (accepted jsonC jsonMonitor → Addable jsonMonitor) := by
  unfold parseRbMonitor accepted
  cases extractMonitorCmd jsonC jsonMonitor with
  | none => simp [Pure.pure, Except.pure]
  | some cmd =>
    simp only [parseRbMonitor0, jsonObjectCopy]
    cases parseCjsonChildDupStr jsonC jsonMonitor "name" with
    | none => simp [Pure.pure, Except.pure]
    | some name =>
      simp only [Option.isSome_some, Bool.and_self, true_implies]
      unfold addMonitorEnrichment Addable
      cases jsonObjectGetEx jsonMonitor "enrichment".toList with
      | none => simp [Pure.pure, Except.pure, Bind.bind, Except.bind]
      | some own =>
        cases own with
        | object members => simp [Pure.pure, Except.pure, Bind.bind, Except.bind]
        | _ => simp [Bind.bind, Except.bind]

theorem parseRbMonitors_eq_ok_iff (jsonMonitors : List Json) (entries : LinkHash CStr Json)
    : (∃ vals, (jsonMonitors.mapM fun jsonMonitor =>
          parseRbMonitor jsonC jsonMonitor (.object entries)) = .ok vals) ↔
        ∀ jsonMonitor ∈ jsonMonitors, accepted jsonC jsonMonitor → Addable jsonMonitor := by
  simp only [exists_mapM_eq_ok_iff, parseRbMonitor_eq_ok_iff]

theorem balanced_of_false (hparse : JsonHeap.sensorCommonAttrsParseJson jsonC lib (load h json).2
      (JsonHeap.sensorSetDefaults workerInfo) (load h json).1
      = .ok (false, JsonHeap.sensorSetDefaults workerInfo, (load h json).2))
    : Balanced jsonC lib workerInfo h json := by
  refine ⟨(load h json).2, ?_, fun _ _ _ => rfl⟩
  rw [parseAndPut_of_parse hparse rfl]
  rfl

theorem balanced_of_addable (hbase : WellFormed JsonNode.slots h) {sensorName : CStr}
    (hname : parseCjsonChildDupStr jsonC json "sensor_name" = some sensorName)
    (hown : sensorChild json "enrichment" = .null) {jsonMonitors : List Json}
    (hmonitors : sensorChild json "monitors" = .array jsonMonitors)
    (haddable : ∀ jsonMonitor ∈ jsonMonitors, accepted jsonC jsonMonitor → Addable jsonMonitor)
    : Balanced jsonC lib workerInfo h json := by
  have hnil : sensorOwn json = some [] := by
    unfold sensorOwn
    rw [hown]
  have hne : sensorChild json "monitors" ≠ .null := by
    rw [hmonitors]
    nofun
  rcases @exists_prepared jsonC lib _ _ hbase _ hname hne _ hnil
    with ⟨enrichment, monitorsArray, h₁, hprepared, hlayer⟩
  rcases hlayer hown with ⟨news, hlayer⟩
  rcases (parseRbMonitors_eq_ok_iff _ _).mpr haddable with ⟨vals, hvals⟩
  have hsimulates := hprepared.simulates hmonitors
  rw [hvals] at hsimulates
  rcases hsimulates.exists_of_ok with ⟨⟨monitors, h'⟩, hrun, hbuilt⟩
  rcases hbuilt.layer with ⟨news', hlayer'⟩
  -- the objects of the monitors lie over the one of the sensor
  have hloaded := wellFormed_load hbase json
  rcases (hlayer.trans hloaded hlayer').putAll hloaded with ⟨h'', hput, hcells⟩
  have hparse : JsonHeap.sensorCommonAttrsParseJson jsonC lib (load h json).2
      (JsonHeap.sensorSetDefaults workerInfo) (load h json).1 = .ok (true,
        parsedSensor jsonC lib (JsonHeap.sensorSetDefaults workerInfo) json enrichment monitors, h') := by
    rw [hprepared.parse, HM.bind_of_eq_ok hrun]
    rfl
  refine ⟨h'', ?_, ?_⟩
  . rw [parseAndPut_of_parse hparse rfl, sensorDone_parsedSensor, ← hput, List.foldlM_append]
    simp only [List.foldlM_cons, List.foldlM_nil, bind_pure]
  . intro p _ _
    unfold RefHeap.refs
    rw [hcells]

theorem sensorChild_eq_null_of_balanced (hbase : WellFormed JsonNode.slots h)
    {enrichment monitorsArray : Ptr} {entries : LinkHash CStr Json} {h₁ h' : JsonHeap}
    {vals : List (Option Monitor)} {monitors : List HeapMonitor}
    (hprepared : Prepared jsonC lib json h enrichment entries monitorsArray h₁)
    (hbuilt : BuiltAll h₁ vals (monitors, h')) {sensor : HeapSensor} {h'' : JsonHeap}
    (hdone : JsonHeap.sensorDone h' (parsedSensor jsonC lib sensor json enrichment monitors) = .ok h'')
    (hrefs : ∀ p, h.next ≤ p → p < (load h json).2.next → h''.refs p = (load h json).2.refs p)
    : sensorChild json "enrichment" = .null := by
  by_contra hown
  rcases hprepared.created with ⟨sensorName, h₀, _, henrichment, hcreate⟩
  rcases sensorEnrichment_borrowed hbase hown henrichment with ⟨rfl, hge, hlt⟩
  have hle := refs_sensorCreateEnrichment_le hcreate hlt
  rcases hbuilt.layer with ⟨news, hlayer⟩
  rcases hlayer.putAll hprepared.wellFormed with ⟨h₂, hput, hcells⟩
  rw [sensorDone_parsedSensor, HM.bind_of_eq_ok hput] at hdone
  have hpos : 0 < h₂.refs enrichment := by
    rcases Option.isSome_iff_exists.mp hprepared.entries.isSome with ⟨cell, hcell⟩
    unfold RefHeap.refs
    rw [hcells, hcell]
    exact hprepared.wellFormed.pos _ _ hcell
  have hless := refs_put_lt hpos hdone
  have hsame : h₂.refs enrichment = h₁.refs enrichment := by
    unfold RefHeap.refs
    rw [hcells]
  rw [hrefs enrichment hge hlt, hsame] at hless
  exact absurd hle (Nat.not_le_of_lt hless)

/-- The configuration keeps its references exactly when no enrichment in it comes to be the one of
the sensor. -/
theorem balanced_iff (jsonC : JsonC) (lib : Matheval) (workerInfo : WorkerInfo) {h : JsonHeap}
    (hbase : WellFormed JsonNode.slots h) (json : Json)
    : Balanced jsonC lib workerInfo h json ↔ BorrowsNothing jsonC json := by
  have hreads := reads_load hbase json
  cases hname : parseCjsonChildDupStr jsonC json "sensor_name" with
  | none =>
    have hparse := @sensorCommonAttrsParseJson_of_no_name _ lib _ _ _ hreads hname
    exact iff_of_true (balanced_of_false (hparse _)) (Or.inl hname)
  | some sensorName =>
    by_cases hmonitors : sensorChild json "monitors" = .null
    . have hparse := @sensorCommonAttrsParseJson_of_no_monitors jsonC lib _ _ _ hreads hmonitors
      exact iff_of_true (balanced_of_false (hparse _)) (Or.inr (Or.inl hmonitors))
    . constructor
      . intro ⟨h'', hrun, hrefs⟩
        rcases exists_parse_of_parseAndPut hrun with ⟨⟨rc, sensor, h'⟩, hparse⟩
        cases hown : sensorOwn json with
        | none =>
          rw [sensorCommonAttrsParseJson_of_bad_enrichment hbase hname hmonitors hown] at hparse
          cases hparse
        | some own =>
          rcases @exists_prepared jsonC lib _ _ hbase _ hname hmonitors _ hown
            with ⟨enrichment, monitorsArray, h₁, hprepared, _⟩
          rcases hprepared.exists_built hparse
            with ⟨jsonMonitors, vals, monitors, harray, hvals, _, hbuilt, rfl, rfl⟩
          rw [parseAndPut_of_parse hparse rfl] at hrun
          refine Or.inr (Or.inr ⟨?_, jsonMonitors, harray, ?_⟩)
          . exact sensorChild_eq_null_of_balanced hbase hprepared hbuilt hrun hrefs
          . exact (parseRbMonitors_eq_ok_iff _ _).mp ⟨vals, hvals⟩
      . intro hborrows
        rcases hborrows with hnone | hnull | ⟨hown, jsonMonitors, harray, haddable⟩
        . rw [hname] at hnone
          cases hnone
        . exact absurd hnull hmonitors
        . exact balanced_of_addable hbase hname hown harray haddable

end

/-- A sensor that is accepted, with an enrichment. -/
def polledSensor (enrichment : Json) : Json :=
  .object [("sensor_name".toList, .string "fw".toList), ("sensor_ip".toList, .string "fw".toList),
    ("community".toList, .string "public".toList), ("enrichment".toList, enrichment),
    ("monitors".toList, .array enrichedMonitors)]

theorem balanced_polledSensor : Balanced intJsonC .sums {} .empty (polledSensor .null) := by
  apply (balanced_iff intJsonC .sums {} (wellFormed_empty _) _).mpr
  refine Or.inr (Or.inr ⟨rfl, enrichedMonitors, rfl, ?_⟩)
  unfold enrichedMonitors
  intro jsonMonitor hmem _ own hown
  rcases List.mem_cons.mp hmem with rfl | hmem
  . cases hown
    exact ⟨_, rfl⟩
  . rcases List.mem_singleton.mp hmem with rfl
    cases hown

/-- The enrichment of the configuration is freed with the sensor. -/
theorem not_balanced_polledSensor
    : ¬ Balanced intJsonC .sums {} .empty
        (polledSensor (.object [("rack".toList, .int 3)])) := by
  intro ⟨h', hrun, hrefs⟩
  have hfreed : (parseAndPut intJsonC .sums {}
      (load .empty (polledSensor (.object [("rack".toList, .int 3)]))).2
      (load .empty (polledSensor (.object [("rack".toList, .int 3)]))).1).map (fun h => h.refs 4)
        = .ok 0 := rfl
  have hloaded : (load .empty (polledSensor (.object [("rack".toList, .int 3)]))).2.refs 4 = 1 := rfl
  have hlt : 4 < (load .empty (polledSensor (.object [("rack".toList, .int 3)]))).2.next := by
    decide
  rw [hrun] at hfreed
  have hzero : h'.refs 4 = 0 := Except.ok.inj hfreed
  have hsame := hrefs 4 (Nat.zero_le _) hlt
  rw [hloaded, hzero] at hsame
  cases hsame

end RbMonitor
