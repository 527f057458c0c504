import RbMonitor.Sensor.Parse

/-!
This module contains the enrichment that every monitor of a sensor gets, by the entries of its own
configuration and of its sensor.
-/

namespace RbMonitor

open RefHeap

section

variable (jsonC : JsonC)

/-- The name and the id of a sensor, under the keys of the messages. -/
def sensorEntry (json : Json) (key : CStr) : Option Json :=
  if key = "sensor_name".toList then
    (parseCjsonChildDupStr jsonC json "sensor_name").map .string
  else if key = "sensor_id".toList ∧ 0 < parseCjsonChildInt64 jsonC json "sensor_id" 0 then
    some (.int (parseCjsonChildInt64 jsonC json "sensor_id" 0))
  else
    none

def sensorPrecedence (json : Json) (key : CStr) : Option Json :=
  (sensorEntry jsonC json key).or (ownEntry json key)

def monitorPrecedence (json jsonMonitor : Json) (key : CStr) : Option Json :=
  (monitorEntry jsonC jsonMonitor key).or
    ((ownEntry jsonMonitor key).or (sensorPrecedence jsonC json key))

end

/-- The node is an object that holds an entry for each of the keys that have one, and no other. -/
def HasEntries (h : JsonHeap) (p : Ptr) (entry : CStr → Option Json) : Prop :=
  ∃ entries, Reads h (some p) (.object entries) ∧ ∀ key, List.lookup key entries = entry key

section

variable {jsonC : JsonC} {lib : Matheval} {json : Json}

theorem nodup_keys_sensorEnrichmentAdd (sensorName : CStr) (sensorId : Int)
    : (LinkHash.keys (sensorEnrichmentAdd sensorName sensorId)).Nodup := by
  unfold sensorEnrichmentAdd
  split <;> simp [LinkHash.keys]

theorem lookup_sensorEnrichmentAdd {sensorName : CStr}
    (hname : parseCjsonChildDupStr jsonC json "sensor_name" = some sensorName) (key : CStr)
    : (sensorEnrichmentAdd sensorName (parseCjsonChildInt64 jsonC json "sensor_id" 0)).lookup key
        =
      sensorEntry jsonC json key := by
  unfold sensorEnrichmentAdd sensorEntry
  by_cases hkey : key = "sensor_name".toList
  . rw [if_pos hkey, hname, hkey]
    rfl
  . have hkey' := beq_eq_false_iff_ne.mpr hkey
    rw [if_neg hkey]
    by_cases hpos : parseCjsonChildInt64 jsonC json "sensor_id" 0 > 0
    . by_cases hid : key = "sensor_id".toList
      . subst hid
        rw [if_pos hpos, if_pos ⟨rfl, hpos⟩]
        rfl
      . have hid' := beq_eq_false_iff_ne.mpr hid
        simp only [hpos, hid, if_true, false_and, if_false, List.lookup_cons, hkey', hid',
          List.lookup_nil]
    . simp only [hpos, and_false, if_false, List.lookup_cons, hkey', List.lookup_nil]

theorem lookup_sensorOwn {own : LinkHash CStr Json} (hown : sensorOwn json = some own) (key : CStr)
    : own.lookup key = ownEntry json key := by
  unfold sensorOwn sensorChild at hown
  unfold ownEntry
  cases hget : jsonObjectGetEx json "enrichment".toList with
  | none =>
    rw [hget] at hown
    cases hown
    rfl
  | some val =>
    rw [hget] at hown
    cases val with
    | null =>
      cases hown
      rfl
    | object members =>
      cases hown
      rfl
    | _ => cases hown

theorem nodup_keys_sensorOwn (hkeys : UniqueKeys json) {own : LinkHash CStr Json}
    (hown : sensorOwn json = some own)
    : (LinkHash.keys own).Nodup := by
  unfold sensorOwn sensorChild at hown
  cases hget : jsonObjectGetEx json "enrichment".toList with
  | none =>
    rw [hget] at hown
    cases hown
    exact List.nodup_nil
  | some val =>
    rw [hget] at hown
    cases val with
    | null =>
      cases hown
      exact List.nodup_nil
    | object members =>
      cases hown
      exact (hkeys.getEx hget).nodup
    | _ => cases hown

theorem lookup_sensorEntries {sensorName : CStr} {own : LinkHash CStr Json}
    (hname : parseCjsonChildDupStr jsonC json "sensor_name" = some sensorName)
    (hown : sensorOwn json = some own) (key : CStr)
    : (LinkHash.insertAll own
        (sensorEnrichmentAdd sensorName (parseCjsonChildInt64 jsonC json "sensor_id" 0))).lookup key
        =
      sensorPrecedence jsonC json key := by
  rw [LinkHash.lookup_insertAll _ (nodup_keys_sensorEnrichmentAdd _ _),
    lookup_sensorEnrichmentAdd hname, lookup_sensorOwn hown]
  rfl

theorem forall₂_filter_accepted {entries : LinkHash CStr Json} {jsonMonitors : List Json}
    {vals : List (Option Monitor)}
    (hvals : List.Forall₂ (fun jsonMonitor val =>
      parseRbMonitor jsonC jsonMonitor (.object entries) = .ok val) jsonMonitors vals)
    : List.Forall₂ (fun jsonMonitor val =>
        jsonMonitor ∈ jsonMonitors ∧ parseRbMonitor jsonC jsonMonitor (.object entries) = .ok (some val))
        (jsonMonitors.filter (accepted jsonC)) vals.reduceOption := by
  induction hvals with
  | nil => exact .nil
  | @cons jsonMonitor val _ _ hval _ ih =>
    have haccepted := isSome_parseRbMonitor hval
    have htail := ih.imp fun _ _ h => And.imp_left (List.mem_cons_of_mem jsonMonitor) h
    cases val with
    | none =>
      rw [List.filter_cons_of_neg (by simp [← haccepted])]
      exact htail
    | some val =>
      rw [List.filter_cons_of_pos haccepted.symm]
      exact .cons ⟨List.mem_cons_self, hval⟩ htail

/-- The enrichment of every monitor follows from its own configuration and the one of its sensor
alone, and the enrichment of the sensor stays as it was before its monitors were parsed. -/
theorem enrichment_precedence (jsonC : JsonC) (lib : Matheval) {h : JsonHeap}
    (hbase : WellFormed JsonNode.slots h) {json : Json} (hkeys : UniqueKeys json)
    {sensor sensor' : HeapSensor} {h' : JsonHeap}
    (hparse : JsonHeap.sensorCommonAttrsParseJson jsonC lib (load h json).2 sensor
      (load h json).1 = .ok (true, sensor', h'))
    : ∃ jsonMonitors monitors enrichment,
        jsonObjectGetEx json "monitors".toList = some (.array jsonMonitors) ∧
        sensor'.monitors = some monitors ∧ sensor'.enrichment = some enrichment ∧
        List.Forall₂ (fun jsonMonitor monitor =>
            HasEntries h' monitor.enrichment (monitorPrecedence jsonC json jsonMonitor))
          (jsonMonitors.filter (accepted jsonC)) monitors ∧
        ∃ sensorName h₀ h₁ monitorsArray,
          JsonHeap.sensorEnrichment (load h json).2 (load h json).1 = .ok (enrichment, h₀) ∧
          JsonHeap.sensorCreateEnrichment h₀ sensorName
            (parseCjsonChildInt64 jsonC json "sensor_id" 0) enrichment = .ok h₁ ∧
          JsonHeap.parseRbMonitors jsonC h₁ monitorsArray enrichment = .ok (monitors, h') ∧
          HasEntries h₁ enrichment (sensorPrecedence jsonC json) ∧
          ∀ val, Reads h₁ (some enrichment) val → Reads h' (some enrichment) val := by
  rcases exists_of_parsed hbase hparse with ⟨sensorName, own, hname, hmonitors, hown⟩
  rcases @exists_prepared jsonC lib _ _ hbase _ hname hmonitors _ hown
    with ⟨enrichment, monitorsArray, h₁, hprepared, _⟩
  rcases hprepared.exists_built hparse
    with ⟨jsonMonitors, vals, monitors, harray, hvals, hrun, hbuilt, _, hsensor⟩
  have hget : jsonObjectGetEx json "monitors".toList = some (.array jsonMonitors) := by
    unfold sensorChild at harray
    cases hget : jsonObjectGetEx json "monitors".toList with
    | none =>
      rw [hget] at harray
      cases harray
    | some val =>
      rw [hget] at harray
      exact congrArg some harray
  rcases hprepared.created with ⟨sensorName', h₀, _, henrichment, hcreate⟩
  refine ⟨jsonMonitors, monitors, enrichment, hget, hsensor ▸ rfl, hsensor ▸ rfl, ?_, sensorName',
    h₀, h₁, monitorsArray, henrichment, hcreate, hrun,
    ⟨_, hprepared.entries, lookup_sensorEntries hname hown⟩, ?_⟩
  . have hentries := nodup_keys_sensorOwn hkeys hown
    have hmonitorKeys : ∀ jsonMonitor ∈ jsonMonitors, UniqueKeys jsonMonitor := by
      cases hkeys.getEx hget with
      | array helms => exact helms
    have hall := forall₂_comp (forall₂_filter_accepted (mapM_eq_ok_iff.mp hvals)) hbuilt.monitors
    apply hall.imp
    intro jsonMonitor monitor ⟨val, ⟨hmem, hparsed⟩, entries, hval, hreads⟩
    refine ⟨entries, hreads, ?_⟩
    intro key
    have hlookup := lookup_parseRbMonitor (hmonitorKeys _ hmem)
      (LinkHash.nodup_keys_insertAll hentries _) hparsed key
    rw [lookup_sensorEntries hname hown, hval] at hlookup
    exact hlookup
  . rcases hbuilt.layer with ⟨news, hlayer⟩
    intro val
    exact (Extends.of_overlay hlayer.toOverlay).reads

end

/-- A sensor with an entry that one of its two monitors has too. -/
def enrichedSensor (jsonMonitors : List Json) : Json :=
  .object [("sensor_name".toList, .string "fw".toList), ("sensor_id".toList, .int 5),
    ("enrichment".toList, .object [("rack".toList, .int 3)]),
    ("monitors".toList, .array jsonMonitors)]

def enrichedMonitors : List Json :=
  [.object [("name".toList, .string "load".toList), ("system".toList, .string "ls".toList),
      ("enrichment".toList, .object [("rack".toList, .int 4)])],
    .object [("name".toList, .string "mem".toList), ("oid".toList, .string "mem".toList),
      ("unit".toList, .string "kB".toList)]]

theorem uniqueKeys_enrichedSensor : UniqueKeys (enrichedSensor enrichedMonitors) := by
  have hrack (n : Int) : UniqueKeys (.object [("rack".toList, .int n)]) := by
    refine .object (List.nodup_singleton _) ?_
    simp [UniqueKeys.int]
  refine .object (by decide) ?_
  simp only [List.forall_mem_cons, List.not_mem_nil, false_implies, implies_true, and_true]
  refine ⟨.string _, .int _, hrack 3, .array ?_⟩
  unfold enrichedMonitors
  simp only [List.forall_mem_cons, List.not_mem_nil, false_implies, implies_true, and_true]
  constructor
  . refine .object (by decide) ?_
    simp only [List.forall_mem_cons, List.not_mem_nil, false_implies, implies_true, and_true]
    exact ⟨.string _, .string _, hrack 4⟩
  . refine .object (by decide) ?_
    simp only [List.forall_mem_cons, List.not_mem_nil, false_implies, implies_true, and_true]
    exact ⟨.string _, .string _, .string _⟩

def intJsonC : JsonC where
  toJsonString _ := []
  getInt64
    | .int n => n
    | _ => 0

theorem enrichment_precedence_two
    : ∃ sensor h' monitors,
        JsonHeap.sensorCommonAttrsParseJson intJsonC .sums (load .empty (enrichedSensor enrichedMonitors)).2
          (JsonHeap.sensorSetDefaults {}) (load .empty (enrichedSensor enrichedMonitors)).1
            = .ok (true, sensor, h') ∧
        sensor.monitors = some monitors ∧
        List.Forall₂ (fun jsonMonitor monitor => HasEntries h' monitor.enrichment
            (monitorPrecedence intJsonC (enrichedSensor enrichedMonitors) jsonMonitor))
          enrichedMonitors monitors := by
  have hparse : ∃ sensor h', JsonHeap.sensorCommonAttrsParseJson intJsonC .sums
      (load .empty (enrichedSensor enrichedMonitors)).2 (JsonHeap.sensorSetDefaults {})
      (load .empty (enrichedSensor enrichedMonitors)).1 = .ok (true, sensor, h') := ⟨_, _, rfl⟩
  rcases hparse with ⟨sensor, h', hparse⟩
  rcases enrichment_precedence intJsonC .sums (wellFormed_empty _) uniqueKeys_enrichedSensor hparse
    with ⟨jsonMonitors, monitors, _, hget, hmonitors, _, hall, _⟩
  cases hget
  exact ⟨sensor, h', monitors, hparse, hmonitors, hall⟩

end RbMonitor
