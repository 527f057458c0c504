import RbMonitor.Json.Lemmas

/-!
This module contains that the functions which only read a node yield what they yield on its value.
-/

namespace RbMonitor

open RefHeap

/-- The node holds the value. -/
def Reads (h : JsonHeap) (q : Option Ptr) (val : Json) : Prop :=
  toJson? h.node? (h.next + 1) q = some val

/-- A value that a node holds a reference to. -/
structure Child (h : JsonHeap) (q : Option Ptr) (val : Json) : Prop where
  reads : Reads h q val
  slot : ∀ p, q = some p → ∃ p' cell, h.cells p' = some cell ∧ p ∈ cell.node.slots

/-- A heap with more nodes. -/
structure Extends (h h' : JsonHeap) : Prop where
  next_le : h.next ≤ h'.next
  node? : ∀ p node, h.node? p = some node → h'.node? p = some node

theorem Extends.refl (h : JsonHeap) : Extends h h :=
  ⟨Nat.le_refl _, fun _ _ => id⟩

theorem Extends.of_overlay {base h : JsonHeap} {news : List (Ptr × JsonNode)} {temps : List Ptr}
    (hoverlay : Overlay JsonNode.slots base h news temps)
    : Extends base h := by
  refine ⟨hoverlay.next_le, ?_⟩
  intro p node hp
  unfold RefHeap.node? at hp ⊢
  rw [Option.map_eq_some_iff] at hp
  rcases hp with ⟨cell, hcell, hnode⟩
  rw [hoverlay.old p cell hcell, ← hnode]
  rfl

variable {h h' : JsonHeap} {q : Option Ptr} {val : Json}

theorem Extends.toJson? (hextends : Extends h h') {fuel fuel' : Nat} (hfuel : fuel ≤ fuel')
    (hval : RbMonitor.toJson? h.node? fuel q = some val)
    : RbMonitor.toJson? h'.node? fuel' q = some val := by
  refine @toJson?_transfer _ _ (fun _ => True) ?_ _ _ hfuel _ _ (fun _ _ => trivial) hval
  intro p node _ hp
  exact ⟨hextends.node? p node hp, fun _ _ => trivial⟩

theorem Extends.reads (hextends : Extends h h') (hreads : Reads h q val) : Reads h' q val :=
  hextends.toJson? (Nat.succ_le_succ hextends.next_le) hreads

theorem Reads.eq_null (hreads : Reads h none val) : val = .null := by
  unfold Reads toJson? at hreads
  exact (Option.some.inj hreads).symm

theorem Reads.ne_null {p : Ptr} (hreads : Reads h (some p) val) : val ≠ .null := by
  intro hnull
  rw [hnull] at hreads
  unfold Reads at hreads
  cases hp : h.node? p with
  | none => simp [toJson?, hp] at hreads
  | some node => cases node <;> simp [toJson?, hp] at hreads

theorem Reads.jsonValue_eq (hreads : Reads h q val) : JsonHeap.jsonValue h q = .ok val := by
  unfold JsonHeap.jsonValue
  rw [show toJson? h.node? (h.next + 1) q = some val from hreads]

theorem read_eq_ok {p : Ptr} {node : JsonNode} (hp : h.node? p = some node)
    : h.read p = .ok node := by
  unfold RefHeap.node? at hp
  rw [Option.map_eq_some_iff] at hp
  rcases hp with ⟨cell, hcell, hnode⟩
  unfold RefHeap.read
  rw [hcell, ← hnode]

/-- The value of a node that holds no references. -/
def JsonNode.scalar? : JsonNode → Option Json
  | .boolean b => some (.boolean b)
  | .int n => some (.int n)
  | .double d => some (.double d)
  | .string s => some (.string s)
  | _ => none

theorem slots_of_scalar? {node : JsonNode} (hscalar : node.scalar? = some val)
    : node.slots = [] := by
  cases node <;> first | rfl | cases hscalar

theorem toJson?_of_scalar? {nodes : Ptr → Option JsonNode} {p : Ptr} {node : JsonNode}
    (hp : nodes p = some node) (hscalar : node.scalar? = some val) (fuel : Nat)
    : toJson? nodes (fuel + 1) (some p) = some val := by
  unfold toJson?
  rw [hp]
  cases node <;> first | exact hscalar | cases hscalar

theorem Reads.object {p : Ptr} {members : LinkHash CStr (Option Ptr)}
    (hp : h.node? p = some (.object members)) (hreads : Reads h (some p) val)
    : ∃ vals, val = .object vals ∧ SameKeys (Child h) members vals := by
  unfold Reads at hreads
  rw [toJson?_object hp] at hreads
  rcases hreads with ⟨vals, hval, hvals⟩
  refine ⟨vals, hval, forall₂_imp_of_mem hvals ?_⟩
  intro e he e' ⟨hkey, hv⟩
  refine ⟨hkey, (Extends.refl h).toJson? (Nat.le_succ _) hv, ?_⟩
  intro q hq
  unfold RefHeap.node? at hp
  rw [Option.map_eq_some_iff] at hp
  rcases hp with ⟨cell, hcell, hnode⟩
  refine ⟨p, cell, hcell, ?_⟩
  rw [hnode]
  exact List.reduceOption_mem_iff.mpr (List.mem_map.mpr ⟨e, he, hq⟩)

theorem Reads.array {p : Ptr} {elms : List (Option Ptr)} (hp : h.node? p = some (.array elms))
    (hreads : Reads h (some p) val)
    : ∃ vals, val = .array vals ∧ List.Forall₂ (Reads h) elms vals := by
  unfold Reads at hreads
  rw [toJson?_array hp] at hreads
  rcases hreads with ⟨vals, hval, hvals⟩
  refine ⟨vals, hval, hvals.imp ?_⟩
  intro q v hv
  exact (Extends.refl h).toJson? (Nat.le_succ _) hv

theorem SameKeys.lookup {β γ : Type} {R : β → γ → Prop} {t : LinkHash CStr β} {t' : LinkHash CStr γ}
    (hsame : SameKeys R t t') (key : CStr)
    : Option.Rel R (t.lookup key) (t'.lookup key) := by
  unfold SameKeys at hsame
  induction hsame with
  | nil => exact .none
  | @cons e e' t t' he _ ih =>
    rcases e with ⟨k, v⟩
    rcases e' with ⟨k', v'⟩
    rcases he with ⟨rfl, hv⟩
    rw [List.lookup_cons, List.lookup_cons]
    cases key == k with
    | true => exact .some hv
    | false => exact ih

theorem SameKeys.insert {β γ : Type} {R : β → γ → Prop} {t : LinkHash CStr β} {t' : LinkHash CStr γ}
    (hsame : SameKeys R t t') (key : CStr) {v : β} {v' : γ} (hv : R v v')
    : SameKeys R (LinkHash.insert t key v) (LinkHash.insert t' key v') := by
  unfold SameKeys at hsame ⊢
  induction hsame with
  | nil => exact .cons ⟨rfl, hv⟩ .nil
  | @cons e e' t t' he hsame ih =>
    rcases e with ⟨k, w⟩
    rcases e' with ⟨k', w'⟩
    rcases he with ⟨rfl, hw⟩
    unfold LinkHash.insert
    split
    . exact .cons ⟨rfl, hv⟩ hsame
    . exact .cons ⟨rfl, hw⟩ ih

theorem SameKeys.insertAll {β γ : Type} {R : β → γ → Prop} {t adds : LinkHash CStr β}
    {t' adds' : LinkHash CStr γ} (hsame : SameKeys R t t') (hadds : SameKeys R adds adds')
    : SameKeys R (LinkHash.insertAll t adds) (LinkHash.insertAll t' adds') := by
  unfold LinkHash.insertAll
  induction hadds generalizing t t' with
  | nil => exact hsame
  | @cons e e' adds adds' he hadds ih =>
    rw [List.foldl_cons, List.foldl_cons, ← he.1]
    exact ih (hsame.insert e.1 he.2)

theorem SameKeys.mono {β γ : Type} {R S : β → γ → Prop} {t : LinkHash CStr β} {t' : LinkHash CStr γ}
    (hsame : SameKeys R t t') (hmono : ∀ v v', R v v' → S v v')
    : SameKeys S t t' := by
  exact List.Forall₂.imp (fun _ _ he => ⟨he.1, hmono _ _ he.2⟩) hsame

/-- A node and its value, by what is below them. -/
inductive Shape (h : JsonHeap) : JsonNode → Json → Prop where
  | object {members : LinkHash CStr (Option Ptr)} {vals : LinkHash CStr Json}
      (same : SameKeys (Child h) members vals) : Shape h (.object members) (.object vals)
  | array {elms : List (Option Ptr)} {vals : List Json} (elms_reads : List.Forall₂ (Reads h) elms vals)
      : Shape h (.array elms) (.array vals)
  | scalar {node : JsonNode} {val : Json} (eq : node.scalar? = some val) : Shape h node val

theorem Reads.shape {p : Ptr} (hreads : Reads h (some p) val)
    : ∃ node, h.node? p = some node ∧ Shape h node val := by
  cases hp : h.node? p with
  | none => simp [Reads, toJson?, hp] at hreads
  | some node =>
    refine ⟨node, rfl, ?_⟩
    cases node with
    | object members =>
      rcases hreads.object hp with ⟨vals, rfl, hvals⟩
      exact .object hvals
    | array elms =>
      rcases hreads.array hp with ⟨vals, rfl, hvals⟩
      exact .array hvals
    | _ =>
      apply Shape.scalar
      unfold Reads toJson? at hreads
      rw [hp] at hreads
      exact hreads

theorem Reads.getEx (hreads : Reads h q val) (hextends : Extends h h') (key : CStr)
    : ∃ r, JsonHeap.jsonObjectObjectGetEx h' q key = .ok r ∧
        Option.Rel (Child h) r (jsonObjectGetEx val key) := by
  unfold JsonHeap.jsonObjectObjectGetEx
  cases q with
  | none =>
    rw [hreads.eq_null]
    exact ⟨none, rfl, .none⟩
  | some p =>
    rcases hreads.shape with ⟨node, hp, hshape⟩
    simp only
    rw [HM.bind_of_eq_ok (read_eq_ok (hextends.node? p node hp))]
    cases hshape with
    | object hsame => exact ⟨_, rfl, hsame.lookup key⟩
    | array _ => exact ⟨none, rfl, .none⟩
    | scalar hscalar =>
      cases node <;> cases hscalar <;> exact ⟨none, rfl, .none⟩

theorem Reads.parseCjsonChild0_eq {α : Type} (hreads : Reads h q val) (childKey : CStr)
    (cb : Json → α) (defaultValue : α)
    : JsonHeap.parseCjsonChild0 h q childKey cb defaultValue
        =
      .ok (parseCjsonChild val childKey cb defaultValue) := by
  rcases hreads.getEx (.refl h) childKey with ⟨r, hr, hrel⟩
  unfold JsonHeap.parseCjsonChild0 parseCjsonChild
  rw [HM.bind_of_eq_ok hr]
  generalize jsonObjectGetEx val childKey = r' at hrel ⊢
  cases hrel with
  | none => rfl
  | @some q v hchild =>
    cases q with
    | none =>
      rw [hchild.reads.eq_null]
      rfl
    | some p =>
      rw [Option.join_some]
      simp only
      rw [HM.bind_of_eq_ok hchild.reads.jsonValue_eq]
      cases v with
      | null => exact absurd rfl hchild.reads.ne_null
      | _ => rfl

theorem Reads.childStr_eq (hreads : Reads h q val) (jsonC : JsonC) (childKey : String)
    : JsonHeap.childStr jsonC h q childKey = .ok (parseCjsonChildDupStr jsonC val childKey) :=
  hreads.parseCjsonChild0_eq _ _ _

theorem Reads.childInt64_eq (hreads : Reads h q val) (jsonC : JsonC) (childKey : String)
    (defaultValue : Int)
    : JsonHeap.childInt64 jsonC h q childKey defaultValue
        =
      .ok (parseCjsonChildInt64 jsonC val childKey defaultValue) :=
  hreads.parseCjsonChild0_eq _ _ _

theorem Reads.jsonObjectMembers (hreads : Reads h q val) (hextends : Extends h h')
    : (∃ members vals, JsonHeap.jsonObjectMembers h' q = .ok members ∧ val = .object vals ∧
        SameKeys (Child h) members vals) ∨
      JsonHeap.jsonObjectMembers h' q = .error .nullPointer ∧ ∀ vals, val ≠ .object vals := by
  unfold JsonHeap.jsonObjectMembers
  cases q with
  | none =>
    rw [hreads.eq_null]
    exact Or.inr ⟨rfl, fun _ => nofun⟩
  | some p =>
    rcases hreads.shape with ⟨node, hp, hshape⟩
    simp only
    rw [HM.bind_of_eq_ok (read_eq_ok (hextends.node? p node hp))]
    cases hshape with
    | object hsame => exact Or.inl ⟨_, _, rfl, rfl, hsame⟩
    | array _ => exact Or.inr ⟨rfl, fun _ => nofun⟩
    | scalar hscalar =>
      cases node <;> cases hscalar <;> exact Or.inr ⟨rfl, fun _ => nofun⟩

theorem Reads.jsonObjectArrayElms {p : Ptr} (hreads : Reads h (some p) val)
    : (∃ elms vals, JsonHeap.jsonObjectArrayElms h p = .ok elms ∧ val = .array vals ∧
        List.Forall₂ (Reads h) elms vals) ∨
      JsonHeap.jsonObjectArrayElms h p = .error .badNode ∧ ∀ vals, val ≠ .array vals := by
  rcases hreads.shape with ⟨node, hp, hshape⟩
  unfold JsonHeap.jsonObjectArrayElms
  rw [HM.bind_of_eq_ok (read_eq_ok hp)]
  cases hshape with
  | object _ => exact Or.inr ⟨rfl, fun _ => nofun⟩
  | array hvals => exact Or.inl ⟨_, _, rfl, rfl, hvals⟩
  | scalar hscalar =>
    cases node <;> cases hscalar <;> exact Or.inr ⟨rfl, fun _ => nofun⟩

/-- A value in a node of its own. -/
def Leaf (others : List (Ptr × JsonNode)) (q : Option Ptr) (val : Json) : Prop :=
  ∃ p node, q = some p ∧ (p, node) ∈ others ∧ node.scalar? = some val

section

variable {base : JsonHeap} {o : Ptr} {members : LinkHash CStr (Option Ptr)}
  {others news : List (Ptr × JsonNode)} {vals : LinkHash CStr Json}

theorem exists_of_mem_slots {R : Option Ptr → Json → Prop} (hsame : SameKeys R members vals)
    {p : Ptr} (hp : p ∈ (JsonNode.object members).slots)
    : ∃ v, R (some p) v := by
  rcases List.mem_map.mp (List.reduceOption_mem_iff.mp hp) with ⟨e, he, hep⟩
  rcases exists_of_forall₂_left hsame he with ⟨e', _, hR⟩
  rw [hep] at hR
  exact ⟨e'.2, hR.2⟩

theorem Reads.isSome {p : Ptr} (hreads : Reads h (some p) val) : (h.cells p).isSome := by
  cases hp : h.cells p with
  | none => simp [Reads, toJson?, RefHeap.node?, hp] at hreads
  | some cell => rfl

theorem Filling.layer (hleaf : ∀ e ∈ others, e.2.slots = [])
    (hsame : SameKeys (fun q v => Child base q v ∨ Leaf others q v) members vals)
    (hfilling : Filling base h o members others [] [o] news)
    : Layer JsonNode.slots base h news [o] := by
  have hnone := (hfilling.overlay.new o _ hfilling.mem).1
  have hnodup := hfilling.overlay.nodup
  -- every other added node is a leaf
  have hother (e : Ptr × JsonNode) (he : e ∈ news) (hne : e.1 ≠ o) : e.2.slots = [] :=
    hleaf e (hfilling.mem_others e he hne)
  have hobject (e : Ptr × JsonNode) (he : e ∈ news) (heq : e.1 = o) : e = (o, .object members) :=
    List.inj_on_of_nodup_map hnodup he hfilling.mem heq
  refine ⟨hfilling.overlay, ?_, ?_⟩
  . intro e he e' he' hslot
    by_cases heq' : e'.1 = o
    . exfalso
      by_cases heq : e.1 = o
      . rw [hobject e he heq, heq'] at hslot
        rcases exists_of_mem_slots hsame hslot with ⟨v, hchild | ⟨p, node, hp, hmem, _⟩⟩
        . have hlive := hchild.reads.isSome
          rw [hnone] at hlive
          cases hlive
        . cases hp
          exact (hfilling.others _ hmem).1 rfl
      . rw [hother e he heq] at hslot
        cases hslot
    . exact hother e' he' heq'
  . intro e he q hslot hlive
    by_cases heq : e.1 = o
    . rw [hobject e he heq] at hslot
      rcases exists_of_mem_slots hsame hslot with ⟨v, hchild | ⟨p, node, hp, hmem, _⟩⟩
      . exact hchild.slot q rfl
      . cases hp
        rw [(hfilling.others _ hmem).2.1] at hlive
        cases hlive
    . rw [hother e he heq] at hslot
      cases hslot

theorem Filling.reads_of {R : Option Ptr → Json → Prop} {extra temps : List Ptr}
    (hvalue : ∀ q v, R q v → (∀ p, q = some p → (h.cells p).isSome) →
      toJson? h.node? h.next q = some v)
    (hsame : SameKeys (fun q v => R q v ∨ Leaf others q v) members vals)
    (hfilling : Filling base h o members others extra temps news)
    : Reads h (some o) (.object vals) := by
  have hnode : h.node? o = some (.object members) := by
    simp [RefHeap.node?, hfilling.cells_eq]
  unfold Reads
  rw [toJson?_object hnode]
  refine ⟨vals, rfl, forall₂_imp_of_mem hsame ?_⟩
  intro e he e' ⟨hkey, hval⟩
  refine ⟨hkey, ?_⟩
  have hheld (p : Ptr) (hp : e.2 = some p) : p ∈ held JsonNode.slots news (extra ++ temps) := by
    apply mem_held_of_mem_slots hfilling.mem
    exact List.reduceOption_mem_iff.mpr (List.mem_map.mpr ⟨e, he, hp⟩)
  rcases hval with hR | ⟨p, node, hp, hmem, hscalar⟩
  . exact hvalue e.2 e'.2 hR fun p hp => hfilling.overlay.isSome_of_mem_held (hheld p hp)
  . have hnews := hfilling.mem_of_mem_held hmem (hheld p hp)
    have hleaf : h.node? p = some node := by
      simp [RefHeap.node?, (hfilling.overlay.new p node hnews).2.2]
    rcases Nat.exists_eq_add_of_lt (Nat.zero_lt_of_lt hfilling.lt_next) with ⟨k, hk⟩
    rw [hp, hk, Nat.zero_add]
    exact toJson?_of_scalar? hleaf hscalar k

theorem Filling.reads (ho : base.next ≤ o) {extra temps : List Ptr}
    (hsame : SameKeys (fun q v => Child base q v ∨ Leaf others q v) members vals)
    (hfilling : Filling base h o members others extra temps news)
    : Reads h (some o) (.object vals) := by
  refine hfilling.reads_of ?_ hsame
  intro q v hchild _
  have hle : base.next + 1 ≤ h.next := Nat.lt_of_le_of_lt ho hfilling.lt_next
  exact (Extends.of_overlay hfilling.overlay).toJson? hle hchild.reads

end

end RbMonitor
