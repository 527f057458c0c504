import RbMonitor.Json.Load
import RbMonitor.Monitor.Enrichment
import RbMonitor.Sensor.Heap

/-!
This module contains the object that comes to be the enrichment of a sensor: a new one, or the one
of its configuration.
-/

namespace RbMonitor

open RefHeap

/-- What `sensor_create_enrichment` adds. -/
def sensorEnrichmentAdd (sensorName : CStr) (sensorId : Int) : LinkHash CStr Json :=
  ("sensor_name".toList, .string sensorName)
    :: if sensorId > 0 then [("sensor_id".toList, .int sensorId)] else []

section

variable {base h : JsonHeap} {o : Ptr} {members : LinkHash CStr (Option Ptr)}
  {others news : List (Ptr × JsonNode)} {temps : List Ptr} {vals : LinkHash CStr Json}

theorem Filling.addLeaf (hbase : WellFormed JsonNode.slots base) {R : Option Ptr → Json → Prop}
    (key : String) {node : JsonNode} {val : Json} (hscalar : node.scalar? = some val)
    (hsame : SameKeys (fun q v => R q v ∨ Leaf others q v) members vals)
    (hfilling : Filling base h o members others [] temps news)
    : ∃ h' members' news', JsonHeap.addJsonChild h o key node = .ok h' ∧
        Filling base h' o members' ((h.next, node) :: others) [] temps news' ∧
        SameKeys (fun q v => R q v ∨ Leaf ((h.next, node) :: others) q v) members'
          (LinkHash.insert vals key.toList val) ∧
        h.next < h'.next := by
  rcases hfilling.addJsonChild hbase key (slots_of_scalar? hscalar)
    with ⟨h', news', hadd, hfilling', hlt⟩
  refine ⟨h', _, news', hadd, hfilling', ?_, hlt⟩
  apply SameKeys.insert
  . apply hsame.mono
    intro q v hv
    cases hv with
    | inl hR => exact Or.inl hR
    | inr hleaf => exact Or.inr (hleaf.mono (List.subset_cons_self _ _))
  . exact Or.inr ⟨h.next, node, rfl, List.mem_cons_self, hscalar⟩

theorem Filling.sensorCreateEnrichment (hbase : WellFormed JsonNode.slots base)
    {R : Option Ptr → Json → Prop} (sensorName : CStr) (sensorId : Int)
    (hsame : SameKeys (fun q v => R q v ∨ Leaf others q v) members vals)
    (hfilling : Filling base h o members others [] temps news)
    : ∃ h' members' others' news', JsonHeap.sensorCreateEnrichment h sensorName sensorId o = .ok h' ∧
        Filling base h' o members' others' [] temps news' ∧
        SameKeys (fun q v => R q v ∨ Leaf others' q v) members'
          (LinkHash.insertAll vals (sensorEnrichmentAdd sensorName sensorId)) ∧
        others ⊆ others' ∧ (∀ e ∈ others', e ∈ others ∨ e.2.slots = []) ∧ h.next < h'.next := by
  unfold JsonHeap.sensorCreateEnrichment sensorEnrichmentAdd
  rcases hfilling.addLeaf hbase "sensor_name" (show (JsonNode.string sensorName).scalar? = _ from rfl)
    hsame with ⟨h₁, members₁, news₁, hadd₁, hfilling₁, hsame₁, hlt₁⟩
  rw [HM.bind_of_eq_ok hadd₁]
  split
  . rcases hfilling₁.addLeaf hbase "sensor_id" (show (JsonNode.int sensorId).scalar? = _ from rfl)
      hsame₁ with ⟨h₂, members₂, news₂, hadd₂, hfilling₂, hsame₂, hlt₂⟩
    refine ⟨h₂, members₂, _, news₂, hadd₂, hfilling₂, hsame₂, ?_, ?_, Nat.lt_trans hlt₁ hlt₂⟩
    . intro e he
      exact List.mem_cons_of_mem _ (List.mem_cons_of_mem _ he)
    . intro e he
      rcases List.mem_cons.mp he with heq | he
      . exact Or.inr (heq ▸ rfl)
      . cases List.mem_cons.mp he with
        | inl heq => exact Or.inr (heq ▸ rfl)
        | inr he => exact Or.inl he
  . refine ⟨h₁, members₁, _, news₁, rfl, hfilling₁, hsame₁, List.subset_cons_self _ _, ?_, hlt₁⟩
    intro e he
    cases List.mem_cons.mp he with
    | inl heq => exact Or.inr (heq ▸ rfl)
    | inr he => exact Or.inl he

end

theorem sensorCreateEnrichment_new {loaded : JsonHeap} (hbase : WellFormed JsonNode.slots loaded)
    (sensorName : CStr) (sensorId : Int)
    : ∃ h₁ news, JsonHeap.sensorCreateEnrichment (loaded.alloc (.object [])).2 sensorName sensorId
          loaded.next = .ok h₁ ∧
        Layer JsonNode.slots loaded h₁ news [loaded.next] ∧
        Reads h₁ (some loaded.next)
          (.object (LinkHash.insertAll [] (sensorEnrichmentAdd sensorName sensorId))) := by
  have hsame : SameKeys (fun q v => Child loaded q v ∨ Leaf [] q v) [] [] := .nil
  rcases (Filling.new hbase).sensorCreateEnrichment hbase sensorName sensorId hsame
    with ⟨h₁, members, others, news, hcreate, hfilling, hsame₁, _, hothers, _⟩
  have hleaf (e : Ptr × JsonNode) (he : e ∈ others) : e.2.slots = [] := by
    cases hothers e he with
    | inl hmem => cases hmem
    | inr hslots => exact hslots
  exact ⟨h₁, news, hcreate, hfilling.layer hleaf hsame₁, hfilling.reads (Nat.le_refl _) hsame₁⟩

/-! ### The enrichment of the configuration -/

section

variable {h loaded : JsonHeap} {r o : Ptr} {tree : List (Ptr × JsonNode)}
  {rootMembers members : LinkHash CStr (Option Ptr)} {vals : LinkHash CStr Json}

/-- The nodes of the tree beside the object that is filled. -/
def besides (tree : List (Ptr × JsonNode)) (o : Ptr) : List (Ptr × JsonNode) :=
  tree.filter fun e => e.1 ≠ o

theorem mem_besides {e : Ptr × JsonNode} : e ∈ besides tree o ↔ e ∈ tree ∧ e.1 ≠ o := by
  simp [besides]

theorem Tree.filling (htree : Tree h loaded r tree) (hroot : (r, .object rootMembers) ∈ tree)
    (hslot : o ∈ (JsonNode.object rootMembers).slots) (ho : (o, .object members) ∈ tree)
    : Filling h loaded o members (besides tree o) [] [r] tree := by
  refine ⟨htree.overlay, ho, ?_, ?_, ?_, Or.inr ⟨_, hroot, List.mem_cons_self, hslot⟩⟩
  . intro e he hne
    exact mem_besides.mpr ⟨he, hne⟩
  . exact (List.filter_sublist.map _).nodup htree.overlay.nodup
  . intro e he
    rcases mem_besides.mp he with ⟨he, hne⟩
    rcases htree.overlay.new e.1 e.2 he with ⟨hnone, _, hcell⟩
    refine ⟨hne, hnone, ?_⟩
    by_contra hle
    rw [htree.overlay.fresh e.1 (Nat.le_of_not_lt hle)] at hcell
    cases hcell

theorem Tree.toJson?_of_filling (htree : Tree h loaded r tree)
    (hroot : (r, .object rootMembers) ∈ tree) (hslot : o ∈ (JsonNode.object rootMembers).slots)
    {h₁ : JsonHeap} {members₁ : LinkHash CStr (Option Ptr)} {others news : List (Ptr × JsonNode)}
    (hfilling : Filling h h₁ o members₁ others [] [r] news) (hothers : besides tree o ⊆ others)
    {e : Ptr × JsonNode} (he : e ∈ tree) {p : Ptr} (hp : p ∈ e.2.slots) (hpo : p ≠ o)
    (hlive : (h₁.cells p).isSome) {fuel fuel' : Nat} (hfuel : fuel ≤ fuel') {val : Json}
    (hval : toJson? loaded.node? fuel (some p) = some val)
    : toJson? h₁.node? fuel' (some p) = some val := by
  let live (p : Ptr) : Prop := (h₁.cells p).isSome ∧ p ≠ o ∧ p ≠ r ∧ ∃ node, (p, node) ∈ tree
  have hslots (e : Ptr × JsonNode) (he : e ∈ tree) (q : Ptr) (hq : q ∈ e.2.slots)
      : q ≠ r ∧ ∃ node, (q, node) ∈ tree := by
    refine ⟨?_, htree.closed e he q hq⟩
    intro heq
    rw [heq] at hq
    exact htree.root_not_mem_slots he hq
  refine @toJson?_transfer _ _ live ?_ _ _ hfuel _ _ ?_ hval
  . intro p node ⟨hplive, hpo, hpr, node₀, hmem⟩ hnode
    have hcell := (htree.overlay.new p node₀ hmem).2.2
    simp only [RefHeap.node?, hcell, Option.map_some, Option.some.injEq] at hnode
    subst hnode
    have hmem₁ : (p, node₀) ∈ news := by
      rcases Option.isSome_iff_exists.mp hplive with ⟨cell, hpcell⟩
      have hin := hothers (mem_besides.mpr ⟨hmem, hpo⟩)
      rcases hfilling.overlay.cases p with ⟨bcell, hbcell⟩ | ⟨node, hnews⟩ | ⟨hnone, hnot⟩
      . rw [(hfilling.others _ hin).2.1] at hbcell
        cases hbcell
      . have heq := List.inj_on_of_nodup_map hfilling.nodup hin (hfilling.mem_others _ hnews hpo) rfl
        exact heq ▸ hnews
      . rw [(hfilling.overlay.gone p hnone hnot).1] at hpcell
        cases hpcell
    constructor
    . simp [RefHeap.node?, (hfilling.overlay.new p node₀ hmem₁).2.2]
    . intro q hq
      refine ⟨hfilling.overlay.isSome_of_mem_held (mem_held_of_mem_slots hmem₁ hq), ?_,
        hslots _ hmem q hq⟩
      intro hqo
      rw [hqo] at hq
      exact hpr (congrArg Prod.fst (htree.eq_of_mem_slots hmem hroot hq hslot))
  . intro p' hp'
    cases hp'
    exact ⟨hlive, hpo, hslots e he p hp⟩

theorem sensorCreateEnrichment_own (hbase : WellFormed JsonNode.slots h)
    (htree : Tree h loaded r tree) (hroot : (r, .object rootMembers) ∈ tree)
    (hslot : o ∈ (JsonNode.object rootMembers).slots) (ho : (o, .object members) ∈ tree)
    (hsame : SameKeys (Child loaded) members vals) (sensorName : CStr) (sensorId : Int)
    : ∃ h₁, JsonHeap.sensorCreateEnrichment loaded sensorName sensorId o = .ok h₁ ∧
        WellFormed JsonNode.slots h₁ ∧
        Reads h₁ (some o) (.object (LinkHash.insertAll vals (sensorEnrichmentAdd sensorName sensorId))) ∧
        ∀ p ∈ (JsonNode.object rootMembers).slots, p ≠ o → ∀ val, Reads loaded (some p) val →
          Reads h₁ (some p) val := by
  let R (q : Option Ptr) (v : Json) : Prop :=
    Reads loaded q v ∧ ∀ p, q = some p → p ∈ (JsonNode.object members).slots
  have hsame₀ : SameKeys (fun q v => R q v ∨ Leaf (besides tree o) q v) members vals := by
    refine forall₂_imp_of_mem hsame ?_
    intro e he e' ⟨hkey, hchild⟩
    refine ⟨hkey, Or.inl ⟨hchild.reads, ?_⟩⟩
    intro p hp
    exact List.reduceOption_mem_iff.mpr (List.mem_map.mpr ⟨e, he, hp⟩)
  rcases (htree.filling hroot hslot ho).sensorCreateEnrichment hbase sensorName sensorId hsame₀
    with ⟨h₁, members₁, others, news, hcreate, hfilling, hsame₁, hsubset, _, hlt⟩
  have hor : o ≠ r := by
    intro heq
    rw [heq] at hslot
    exact htree.root_not_mem_slots hroot hslot
  refine ⟨h₁, hcreate, hfilling.overlay.wellFormed hbase, hfilling.reads_of ?_ hsame₁, ?_⟩
  . intro q v ⟨hreads, hq⟩ hlive
    cases q with
    | none =>
      rw [hreads.eq_null]
      unfold toJson?
      cases h₁.next <;> rfl
    | some p =>
      have hpo : p ≠ o := by
        intro heq
        have hmem := hq p rfl
        rw [heq] at hmem
        exact hor (congrArg Prod.fst (htree.eq_of_mem_slots ho hroot hmem hslot))
      exact htree.toJson?_of_filling hroot hslot hfilling hsubset ho (hq p rfl) hpo (hlive p rfl) hlt
        hreads
  . intro p hp hpo val hreads
    have hroot₁ : (r, .object rootMembers) ∈ news :=
      hfilling.mem_of_mem_held (hsubset (mem_besides.mpr ⟨hroot, hor.symm⟩))
        (mem_held_of_mem_temps List.mem_cons_self)
    have hlive := hfilling.overlay.isSome_of_mem_held (mem_held_of_mem_slots hroot₁ hp)
    exact htree.toJson?_of_filling hroot hslot hfilling hsubset hroot hp hpo hlive
      (Nat.succ_le_succ (Nat.le_of_lt hlt)) hreads

end

/-- A child of the sensor, where none is as a null. -/
def sensorChild (json : Json) (key : String) : Json :=
  (jsonObjectGetEx json key.toList).getD .null

/-! ### A sensor that is loaded -/

section

variable {h : JsonHeap} {json : Json}

theorem wellFormed_load (hbase : WellFormed JsonNode.slots h) (json : Json)
    : WellFormed JsonNode.slots (load h json).2 := by
  rcases (loads_load hbase json (.refl hbase)).overlay with ⟨tree, hoverlay⟩
  exact hoverlay.wellFormed hbase

theorem reads_load (hbase : WellFormed JsonNode.slots h) (json : Json)
    : Reads (load h json).2 (load h json).1 json := by
  have hvalue := (loads_load hbase json (.refl hbase)).value
  exact (Extends.refl _).toJson? (Nat.le_succ_of_le (Nat.sub_le _ _)) hvalue

/-- The nodes of a sensor that is an object. -/
structure LoadedSensor (h loaded : JsonHeap) (r : Ptr) (tree : List (Ptr × JsonNode))
    (rootMembers : LinkHash CStr (Option Ptr)) (jsonMembers : LinkHash CStr Json) : Prop where
  isTree : Tree h loaded r tree
  root : (r, .object rootMembers) ∈ tree
  same : SameKeys (Child loaded) rootMembers jsonMembers

theorem node?_of_mem {loaded : JsonHeap} {r p : Ptr} {tree : List (Ptr × JsonNode)} {node : JsonNode}
    (htree : Tree h loaded r tree) (hp : (p, node) ∈ tree)
    : loaded.node? p = some node := by
  simp [RefHeap.node?, (htree.overlay.new p node hp).2.2]

theorem exists_loadedSensor (hbase : WellFormed JsonNode.slots h)
    (jsonMembers : LinkHash CStr Json)
    : ∃ r tree rootMembers, (load h (.object jsonMembers)).1 = some r ∧
        LoadedSensor h (load h (.object jsonMembers)).2 r tree rootMembers jsonMembers := by
  have hreads := reads_load hbase (.object jsonMembers)
  cases hr : (load h (.object jsonMembers)).1 with
  | none =>
    rw [hr] at hreads
    exact absurd hreads.eq_null nofun
  | some r =>
    rw [hr] at hreads
    rcases exists_tree hbase hr with ⟨tree, htree⟩
    rcases htree.root with ⟨node, hroot⟩
    rcases hreads.shape with ⟨node', hnode', hshape⟩
    rw [node?_of_mem htree hroot] at hnode'
    cases hnode'
    cases hshape with
    | object hsame => exact ⟨r, tree, _, rfl, htree, hroot, hsame⟩
    | scalar hscalar => cases node <;> cases hscalar

namespace LoadedSensor

variable {loaded : JsonHeap} {r : Ptr} {tree : List (Ptr × JsonNode)}
  {rootMembers : LinkHash CStr (Option Ptr)} {jsonMembers : LinkHash CStr Json}

theorem getEx_eq (hsensor : LoadedSensor h loaded r tree rootMembers jsonMembers) (key : CStr)
    : JsonHeap.jsonObjectObjectGetEx loaded (some r) key = .ok (rootMembers.lookup key) := by
  unfold JsonHeap.jsonObjectObjectGetEx
  simp only
  rw [HM.bind_of_eq_ok (read_eq_ok (node?_of_mem hsensor.isTree hsensor.root))]
  rfl

theorem mem_slots_of_lookup {key : CStr} {p : Ptr} (hp : rootMembers.lookup key = some (some p))
    : p ∈ (JsonNode.object rootMembers).slots := by
  rw [List.lookup_eq_some_iff] at hp
  rcases hp with ⟨before, after, rfl, _⟩
  apply List.reduceOption_mem_iff.mpr
  exact List.mem_map.mpr ⟨(key, some p), List.mem_append_right _ List.mem_cons_self, rfl⟩

theorem key_eq_of_lookup (hsensor : LoadedSensor h loaded r tree rootMembers jsonMembers)
    {key key' : CStr} {p : Ptr} (hp : rootMembers.lookup key = some (some p))
    (hp' : rootMembers.lookup key' = some (some p))
    : key = key' := by
  have hnodup : ((rootMembers.map Prod.snd).reduceOption).Nodup :=
    hsensor.isTree.nodup_slots hsensor.root
  rw [List.lookup_eq_some_iff] at hp hp'
  rcases hp with ⟨before, after, hmembers, _⟩
  rcases hp' with ⟨before', after', hmembers', _⟩
  by_contra hne
  have hmem : (key', some p) ∈ before ++ after := by
    have hall : (key', some p) ∈ rootMembers := by
      rw [hmembers']
      exact List.mem_append_right _ List.mem_cons_self
    rw [hmembers] at hall
    cases List.mem_append.mp hall with
    | inl hbefore => exact List.mem_append_left _ hbefore
    | inr hafter =>
      cases List.mem_cons.mp hafter with
      | inl heq => exact absurd (congrArg Prod.fst heq).symm hne
      | inr hafter => exact List.mem_append_right _ hafter
  have hcount := List.nodup_iff_count_le_one.mp hnodup p
  have hpos : 0 < ((before ++ after).map Prod.snd).reduceOption.count p :=
    List.count_pos_iff.mpr (List.reduceOption_mem_iff.mpr (List.mem_map.mpr ⟨_, hmem, rfl⟩))
  rw [hmembers] at hcount
  simp only [List.map_append, List.map_cons, List.reduceOption_append, reduceOption_cons,
    List.count_append, Option.toList_some, List.count_singleton_self] at hcount hpos
  omega

theorem child (hsensor : LoadedSensor h loaded r tree rootMembers jsonMembers) (key : String)
    : ((rootMembers.lookup key.toList).join = none ∧ sensorChild (.object jsonMembers) key = .null) ∨
      ∃ p, rootMembers.lookup key.toList = some (some p) ∧
        sensorChild (.object jsonMembers) key ≠ .null ∧
        Child loaded (some p) (sensorChild (.object jsonMembers) key) := by
  have hrel := hsensor.same.lookup key.toList
  have hget : sensorChild (.object jsonMembers) key = (jsonMembers.lookup key.toList).getD .null := rfl
  rw [hget]
  generalize rootMembers.lookup key.toList = r' at hrel ⊢
  generalize jsonMembers.lookup key.toList = v' at hrel ⊢
  cases hrel with
  | none => exact Or.inl ⟨rfl, rfl⟩
  | @some q val hchild =>
    cases q with
    | none => exact Or.inl ⟨rfl, hchild.reads.eq_null⟩
    | some p => exact Or.inr ⟨p, rfl, hchild.reads.ne_null, hchild⟩

end LoadedSensor

end

/-! ### The entries of a sensor -/

/-- The members of the enrichment in the configuration of a sensor, of which a null is none. -/
def sensorOwn (json : Json) : Option (LinkHash CStr Json) :=
  match sensorChild json "enrichment" with
  | .null => some []
  | .object own => some own
  | _ => none

namespace LoadedSensor

variable {h loaded : JsonHeap} {r : Ptr} {tree : List (Ptr × JsonNode)}
  {rootMembers : LinkHash CStr (Option Ptr)} {jsonMembers : LinkHash CStr Json}

theorem sensorEnrichment_eq (hsensor : LoadedSensor h loaded r tree rootMembers jsonMembers)
    : JsonHeap.sensorEnrichment loaded (some r)
        =
      .ok (match (rootMembers.lookup "enrichment".toList).join with
        | some enrichment => (enrichment, loaded)
        | none => loaded.alloc (.object [])) := by
  unfold JsonHeap.sensorEnrichment
  rw [HM.bind_of_eq_ok (hsensor.getEx_eq _)]
  cases (rootMembers.lookup "enrichment".toList).join <;> rfl

theorem exists_enriched (hbase : WellFormed JsonNode.slots h)
    (hsensor : LoadedSensor h loaded r tree rootMembers jsonMembers) {own : LinkHash CStr Json}
    (hown : sensorOwn (.object jsonMembers) = some own) (sensorName : CStr) (sensorId : Int)
    {monitors : Ptr} (hmonitors : rootMembers.lookup "monitors".toList = some (some monitors))
    {val : Json} (hval : Reads loaded (some monitors) val)
    : ∃ enrichment h₀ h₁, JsonHeap.sensorEnrichment loaded (some r) = .ok (enrichment, h₀) ∧
        JsonHeap.sensorCreateEnrichment h₀ sensorName sensorId enrichment = .ok h₁ ∧
        WellFormed JsonNode.slots h₁ ∧
        Reads h₁ (some enrichment)
          (.object (LinkHash.insertAll own (sensorEnrichmentAdd sensorName sensorId))) ∧
        Reads h₁ (some monitors) val ∧
        (sensorChild (.object jsonMembers) "enrichment" = .null →
          ∃ news, Layer JsonNode.slots loaded h₁ news [enrichment]) := by
  have hloaded := hsensor.isTree.overlay.wellFormed hbase
  rw [hsensor.sensorEnrichment_eq]
  rcases hsensor.child "enrichment" with ⟨hnone, hnull⟩ | ⟨o, ho, _, hchild⟩
  . rw [hnone]
    unfold sensorOwn at hown
    rw [hnull] at hown
    cases hown
    rcases sensorCreateEnrichment_new hloaded sensorName sensorId with ⟨h₁, news, hcreate, hlayer, hreads⟩
    exact ⟨_, _, h₁, rfl, hcreate, hlayer.toOverlay.wellFormed hloaded, hreads,
      (Extends.of_overlay hlayer.toOverlay).reads hval, fun _ => ⟨news, hlayer⟩⟩
  . rw [ho]
    have hslot := mem_slots_of_lookup ho
    rcases hsensor.isTree.closed _ hsensor.root o hslot with ⟨node, hmem⟩
    rcases hchild.reads.shape with ⟨node', hnode', hshape⟩
    rw [node?_of_mem hsensor.isTree hmem] at hnode'
    cases hnode'
    unfold sensorOwn at hown
    generalize sensorChild (.object jsonMembers) "enrichment" = oval at hshape hown hchild
    cases hshape with
    | object hsame =>
      cases hown
      rcases sensorCreateEnrichment_own hbase hsensor.isTree hsensor.root hslot hmem hsame sensorName
        sensorId with ⟨h₁, hcreate, hwell, hreads, hother⟩
      have hmo : monitors ≠ o := by
        intro heq
        rw [heq] at hmonitors
        exact absurd (hsensor.key_eq_of_lookup hmonitors ho) (by decide)
      exact ⟨o, loaded, h₁, rfl, hcreate, hwell, hreads,
        hother monitors (mem_slots_of_lookup hmonitors) hmo val hval, nofun⟩
    | array _ => cases hown
    | scalar hscalar =>
      cases node <;> cases hscalar <;> cases hown

end LoadedSensor

end RbMonitor
