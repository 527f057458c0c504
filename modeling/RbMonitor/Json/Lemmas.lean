import Mathlib.Data.List.ReduceOption
import RbMonitor.Lib.Overlay
import RbMonitor.Lib.Simulates
import RbMonitor.Json.Heap

/-!
This module contains what the functions on JSON objects do to the references, and that what a node
is read as stays.
-/

namespace RbMonitor

open RefHeap

theorem HM.bind_of_eq_ok {α β : Type} {x : HM α} {a : α} (hx : x = .ok a) (f : α → HM β)
    : x >>= f = f a := by
  rw [hx]
  rfl

theorem reduceOption_cons {α : Type} (v : Option α) (l : List (Option α))
    : (v :: l).reduceOption = v.toList ++ l.reduceOption := by
  cases v <;> rfl

theorem slots_insert (t : LinkHash CStr (Option Ptr)) (key : CStr) (val : Option Ptr)
    : ((JsonNode.object t).slots ++ val.toList).Perm
        ((JsonNode.object (LinkHash.insert t key val)).slots ++ (t.lookup key).join.toList) := by
  rw [List.perm_iff_count]
  intro p
  unfold JsonNode.slots
  simp only
  induction t with
  | nil =>
    simp only [LinkHash.insert, List.map_cons, List.map_nil, reduceOption_cons, List.lookup_nil,
      Option.join_none, Option.toList_none, List.count_append, List.count_nil]
    omega
  | cons e t ih =>
    rcases e with ⟨k, v⟩
    unfold LinkHash.insert
    split
    . next heq =>
      rw [heq, List.lookup_cons, beq_self_eq_true]
      simp only [List.map_cons, reduceOption_cons, Option.join_some, List.count_append]
      omega
    . next hne =>
      have hbeq : (key == k) = false := beq_eq_false_iff_ne.mpr fun h => hne h.symm
      rw [List.lookup_cons, hbeq]
      simp only [List.map_cons, reduceOption_cons, List.count_append] at ih ⊢
      omega

theorem toJson?_array {nodes : Ptr → Option JsonNode} {p : Ptr} {elms : List (Option Ptr)}
    (hp : nodes p = some (.array elms)) (fuel : Nat) (val : Json)
    : toJson? nodes (fuel + 1) (some p) = some val
        ↔
      ∃ vals, val = .array vals ∧ List.Forall₂ (fun q v => toJson? nodes fuel q = some v) elms vals
    := by
  rw [toJson?, hp]
  simp only [Option.map_eq_some_iff, mapM_eq_some_iff]
  constructor
  . intro ⟨vals, hvals, hval⟩
    exact ⟨vals, hval.symm, hvals⟩
  . intro ⟨vals, hval, hvals⟩
    exact ⟨vals, hvals, hval.symm⟩

/-- Members of the same keys, of which the values are related. -/
def SameKeys {β γ : Type} (R : β → γ → Prop) : LinkHash CStr β → LinkHash CStr γ → Prop :=
  List.Forall₂ fun e e' => e.1 = e'.1 ∧ R e.2 e'.2

theorem sameKeys_of_map_snd {β γ : Type} {R : β → γ → Prop} {t : LinkHash CStr β}
    {t' : LinkHash CStr γ} (hkeys : LinkHash.keys t = LinkHash.keys t')
    (hvals : List.Forall₂ R (t.map Prod.snd) (t'.map Prod.snd))
    : SameKeys R t t' := by
  induction t generalizing t' with
  | nil =>
    cases t' with
    | nil => exact .nil
    | cons e' t' => cases hkeys
  | cons e t ih =>
    cases t' with
    | nil => cases hkeys
    | cons e' t' =>
      rw [LinkHash.keys_cons, LinkHash.keys_cons, List.cons.injEq] at hkeys
      rw [List.map_cons, List.map_cons, List.forall₂_cons] at hvals
      exact .cons ⟨hkeys.1, hvals.1⟩ (ih hkeys.2 hvals.2)

theorem toJson?_object {nodes : Ptr → Option JsonNode} {p : Ptr}
    {members : LinkHash CStr (Option Ptr)} (hp : nodes p = some (.object members)) (fuel : Nat)
    (val : Json)
    : toJson? nodes (fuel + 1) (some p) = some val
        ↔
      ∃ vals, val = .object vals ∧ SameKeys (fun q v => toJson? nodes fuel q = some v) members vals
    := by
  rw [toJson?, hp]
  have hmember (e : CStr × Option Ptr) (e' : CStr × Json)
      : (toJson? nodes fuel e.2).map (e.1, ·) = some e' ↔
          e.1 = e'.1 ∧ toJson? nodes fuel e.2 = some e'.2 := by
    rw [Option.map_eq_some_iff]
    constructor
    . intro ⟨v, hv, he⟩
      rw [← he]
      exact ⟨rfl, hv⟩
    . intro ⟨hkey, hv⟩
      exact ⟨e'.2, hv, by rw [hkey]⟩
  simp only [Option.map_eq_some_iff, mapM_eq_some_iff, hmember, SameKeys]
  constructor
  . intro ⟨vals, hvals, hval⟩
    exact ⟨vals, hval.symm, hvals⟩
  . intro ⟨vals, hval, hvals⟩
    exact ⟨vals, hvals, hval.symm⟩

theorem toJson?_transfer {nodes nodes' : Ptr → Option JsonNode} {live : Ptr → Prop}
    (hnodes : ∀ p node, live p → nodes p = some node →
      nodes' p = some node ∧ ∀ q ∈ node.slots, live q) {fuel fuel' : Nat} (hfuel : fuel ≤ fuel')
    {q : Option Ptr} {val : Json} (hq : ∀ p, q = some p → live p)
    (hval : toJson? nodes fuel q = some val)
    : toJson? nodes' fuel' q = some val := by
  induction fuel generalizing fuel' q val with
  | zero =>
    cases q with
    | none => simpa [toJson?] using hval
    | some p => cases hval
  | succ fuel ih =>
    cases q with
    | none => simpa [toJson?] using hval
    | some p =>
      cases fuel' with
      | zero => omega
      | succ fuel' =>
        have hle : fuel ≤ fuel' := Nat.le_of_succ_le_succ hfuel
        cases hp : nodes p with
        | none => simp [toJson?, hp] at hval
        | some node =>
          rcases hnodes p node (hq p rfl) hp with ⟨hp', hslots⟩
          cases node with
          | array elms =>
            rw [toJson?_array hp] at hval
            rw [toJson?_array hp']
            rcases hval with ⟨vals, hval, hvals⟩
            refine ⟨vals, hval, forall₂_imp_of_mem hvals ?_⟩
            intro q hmem v hv
            refine ih hle (fun p hqp => hslots p ?_) hv
            exact List.reduceOption_mem_iff.mpr (hqp ▸ hmem)
          | object members =>
            rw [toJson?_object hp] at hval
            rw [toJson?_object hp']
            rcases hval with ⟨vals, hval, hvals⟩
            refine ⟨vals, hval, forall₂_imp_of_mem hvals ?_⟩
            intro e hmem e' ⟨hkey, hv⟩
            refine ⟨hkey, ih hle (fun p hqp => hslots p ?_) hv⟩
            exact List.reduceOption_mem_iff.mpr (List.mem_map.mpr ⟨e, hmem, hqp⟩)
          | _ =>
            unfold toJson? at hval ⊢
            rw [hp] at hval
            rw [hp']
            exact hval

theorem next_jsonObjectPut {h h' : JsonHeap} {q : Option Ptr}
    (hput : JsonHeap.jsonObjectPut h q = .ok h')
    : h'.next = h.next := by
  cases q with
  | none =>
    cases hput
    rfl
  | some p => exact (shrinks_put hput).next

/-- An added object that is being written, while the other added nodes are what they were or gone.
The references of `extra` are about to be handed over. -/
structure Filling (base h : JsonHeap) (o : Ptr) (members : LinkHash CStr (Option Ptr))
    (others : List (Ptr × JsonNode)) (extra temps : List Ptr) (news : List (Ptr × JsonNode)) : Prop
    where
  overlay : Overlay JsonNode.slots base h news (extra ++ temps)
  mem : (o, .object members) ∈ news
  mem_others : ∀ e ∈ news, e.1 ≠ o → e ∈ others
  nodup : (others.map Prod.fst).Nodup
  others : ∀ e ∈ others, e.1 ≠ o ∧ base.cells e.1 = none ∧ e.1 < h.next
  anchored : Anchored JsonNode.slots news temps o

namespace Filling

variable {base h : JsonHeap} {o : Ptr} {members : LinkHash CStr (Option Ptr)}
  {others news : List (Ptr × JsonNode)} {extra temps : List Ptr}

theorem cells_eq (hfilling : Filling base h o members others extra temps news)
    : h.cells o
        =
      some ⟨(held JsonNode.slots news (extra ++ temps)).count o, .object members⟩ := by
  exact (hfilling.overlay.new o _ hfilling.mem).2.2

theorem lt_next (hfilling : Filling base h o members others extra temps news) : o < h.next := by
  by_contra hle
  have hcell := hfilling.cells_eq
  rw [hfilling.overlay.fresh o (Nat.le_of_not_lt hle)] at hcell
  cases hcell

theorem mem_of_mem_held (hfilling : Filling base h o members others extra temps news)
    {e : Ptr × JsonNode} (he : e ∈ others)
    (hheld : e.1 ∈ held JsonNode.slots news (extra ++ temps))
    : e ∈ news := by
  rcases hfilling.others e he with ⟨hne, hnone, _⟩
  rcases hfilling.overlay.cases e.1 with ⟨cell, hcell⟩ | ⟨node, hmem⟩ | ⟨_, hmem⟩
  . rw [hnone] at hcell
    cases hcell
  . have heq := List.inj_on_of_nodup_map hfilling.nodup he (hfilling.mem_others _ hmem hne) rfl
    exact heq ▸ hmem
  . exact absurd hheld (hfilling.overlay.gone e.1 hnone hmem).2

theorem perm {extra' : List Ptr} (hfilling : Filling base h o members others extra temps news)
    (hperm : extra.Perm extra')
    : Filling base h o members others extra' temps news := by
  exact ⟨hfilling.overlay.perm (.refl _) (hperm.append_right _), hfilling.mem, hfilling.mem_others,
    hfilling.nodup, hfilling.others, hfilling.anchored⟩

theorem get (hfilling : Filling base h o members others extra temps news) {p : Ptr}
    (hp : (base.cells p).isSome)
    : ∃ h', JsonHeap.jsonObjectGet h (some p) = .ok h' ∧
        Filling base h' o members others (p :: extra) temps news := by
  rcases Option.isSome_iff_exists.mp hp with ⟨cell, hcell⟩
  have hlive : (h.cells p).isSome := by
    rw [hfilling.overlay.old p cell hcell]
    rfl
  rcases hfilling.overlay.get hlive with ⟨h', hget, hoverlay⟩
  refine ⟨h', hget, hoverlay, hfilling.mem, hfilling.mem_others, hfilling.nodup, ?_,
    hfilling.anchored⟩
  rw [next_get hget]
  exact hfilling.others

theorem alloc (hbase : WellFormed JsonNode.slots base) {node : JsonNode} (hslots : node.slots = [])
    (hfilling : Filling base h o members others extra temps news)
    : Filling base (h.alloc node).2 o members ((h.next, node) :: others) (h.next :: extra) temps
        ((h.next, node) :: news) := by
  have hoverlay : Overlay JsonNode.slots base h news (node.slots ++ (extra ++ temps)) := by
    rw [hslots]
    exact hfilling.overlay
  refine ⟨hoverlay.alloc hbase, List.mem_cons_of_mem _ hfilling.mem, ?_, ?_, ?_, ?_⟩
  . intro e he hne
    cases List.mem_cons.mp he with
    | inl heq => exact heq ▸ List.mem_cons_self
    | inr he => exact List.mem_cons_of_mem _ (hfilling.mem_others e he hne)
  . rw [List.map_cons, List.nodup_cons]
    refine ⟨?_, hfilling.nodup⟩
    intro hmem
    rcases List.mem_map.mp hmem with ⟨e, he, heq⟩
    exact absurd heq (Nat.ne_of_lt (hfilling.others e he).2.2)
  . intro e he
    cases List.mem_cons.mp he with
    | inl heq =>
      rw [heq]
      exact ⟨Nat.ne_of_gt hfilling.lt_next, hbase.fresh _ hfilling.overlay.next_le,
        Nat.lt_succ_self _⟩
    | inr he =>
      rcases hfilling.others e he with ⟨hne, hnone, hlt⟩
      exact ⟨hne, hnone, Nat.lt_succ_of_lt hlt⟩
  . rcases hfilling.anchored with ho | ⟨e, he, hroot, ho⟩
    . exact Or.inl ho
    . exact Or.inr ⟨e, List.mem_cons_of_mem _ he, hroot, ho⟩

theorem add (hbase : WellFormed JsonNode.slots base) (key : CStr) (val : Option Ptr)
    (hfilling : Filling base h o members others (val.toList ++ extra) temps news)
    : ∃ h' news', JsonHeap.jsonObjectObjectAdd h o key val = .ok h' ∧
        Filling base h' o (LinkHash.insert members key val) others extra temps news' := by
  rcases List.append_of_mem hfilling.mem with ⟨before, after, rfl⟩
  have hperm := @List.perm_middle _ (o, JsonNode.object members) before after
  let object := JsonNode.object (LinkHash.insert members key val)
  let old := (members.lookup key).join
  have hslots : ((JsonNode.object members).slots ++ ((val.toList ++ extra) ++ temps)).Perm
      (object.slots ++ (old.toList ++ (extra ++ temps))) := by
    have := (slots_insert members key val).append_right (extra ++ temps)
    simpa only [List.append_assoc] using this
  rcases (hfilling.overlay.perm hperm (.refl _)).write hslots with ⟨h₁, hwrite, hoverlay₁⟩
  -- the object is held, so it stays when the old value is given back
  have hanchored : Anchored JsonNode.slots ((o, object) :: (before ++ after)) temps o := by
    rcases hfilling.anchored with ho | ⟨e, he, hroot, ho⟩
    . exact Or.inl ho
    . cases List.mem_cons.mp (hperm.mem_iff.mp he) with
      | inl heq =>
        rw [heq] at hroot
        exact Or.inl hroot
      | inr he => exact Or.inr ⟨e, List.mem_cons_of_mem _ he, hroot, ho⟩
  have hput : ∃ h' news', JsonHeap.jsonObjectPut h₁ old = .ok h' ∧
      news' ⊆ (o, object) :: (before ++ after) ∧
        Overlay JsonNode.slots base h' news' (extra ++ temps) := by
    cases hold : old with
    | none =>
      rw [hold] at hoverlay₁
      exact ⟨h₁, _, rfl, List.Subset.refl _, hoverlay₁⟩
    | some p =>
      rw [hold] at hoverlay₁
      exact hoverlay₁.put hbase
  rcases hput with ⟨h', news', hput, hsubset, hoverlay'⟩
  have hkept := hoverlay₁.anchored_of_subset hoverlay' hsubset hanchored
  have hread : h.read o = .ok (.object members) := by
    unfold RefHeap.read
    rw [(hfilling.overlay.new o _ hfilling.mem).2.2]
  refine ⟨h', news', ?_, hoverlay', ?_, ?_, hfilling.nodup, ?_, hkept.1⟩
  . unfold JsonHeap.jsonObjectObjectAdd
    rw [HM.bind_of_eq_ok hread]
    simp only
    rw [HM.bind_of_eq_ok hwrite]
    exact hput
  . exact hoverlay₁.mem_of_mem_held hoverlay' hsubset List.mem_cons_self hkept.2
  . intro e he hne
    cases List.mem_cons.mp (hsubset he) with
    | inl heq => exact absurd (congrArg Prod.fst heq) hne
    | inr he => exact hfilling.mem_others e (hperm.mem_iff.mpr (List.mem_cons_of_mem _ he)) hne
  . rw [next_jsonObjectPut hput, next_write hwrite]
    exact hfilling.others

theorem new (hbase : WellFormed JsonNode.slots base)
    : Filling base (base.alloc (.object [])).2 base.next [] [] [] [base.next]
        [(base.next, .object [])] := by
  have hoverlay := (Overlay.refl hbase).alloc hbase (.object [])
  refine ⟨hoverlay, List.mem_cons_self, ?_, List.nodup_nil, ?_, Or.inl List.mem_cons_self⟩
  . intro e he hne
    rw [List.mem_singleton.mp he] at hne
    exact absurd rfl hne
  . intro e he
    cases he

theorem addJsonChild (hbase : WellFormed JsonNode.slots base) (key : String) {node : JsonNode}
    (hslots : node.slots = []) (hfilling : Filling base h o members others [] temps news)
    : ∃ h' news', JsonHeap.addJsonChild h o key node = .ok h' ∧
        Filling base h' o (LinkHash.insert members key.toList (some h.next))
          ((h.next, node) :: others) [] temps news' ∧ h.next < h'.next := by
  have halloc := hfilling.alloc hbase hslots
  rcases halloc.add hbase key.toList (some h.next) with ⟨h', news', hadd, hfilling'⟩
  exact ⟨h', news', hadd, hfilling', (hfilling'.others _ List.mem_cons_self).2.2⟩

theorem addAll (hbase : WellFormed JsonNode.slots base) (adds : LinkHash CStr (Option Ptr))
    (hfilling : Filling base h o members others ((adds.map Prod.snd).reduceOption ++ extra) temps
      news)
    : ∃ h' news',
        adds.foldlM (fun h e => JsonHeap.jsonObjectObjectAdd h o e.1 e.2) h = .ok h' ∧
          Filling base h' o (LinkHash.insertAll members adds) others extra temps news' := by
  induction adds generalizing h members news with
  | nil => exact ⟨h, news, rfl, hfilling⟩
  | cons e adds ih =>
    rw [List.map_cons, reduceOption_cons, List.append_assoc] at hfilling
    rcases hfilling.add hbase e.1 e.2 with ⟨h₁, news₁, hadd, hfilling₁⟩
    rcases ih hfilling₁ with ⟨h₂, news₂, hadds, hfilling₂⟩
    refine ⟨h₂, news₂, ?_, hfilling₂⟩
    rw [List.foldlM_cons, HM.bind_of_eq_ok hadd]
    exact hadds

theorem copy0Childs (hbase : WellFormed JsonNode.slots base) (adds : LinkHash CStr (Option Ptr))
    (hlive : ∀ e ∈ adds, ∀ p, e.2 = some p → (base.cells p).isSome)
    (hfilling : Filling base h o members others extra temps news)
    : ∃ h' news', JsonHeap.jsonObjectCopy0Childs h o adds = .ok h' ∧
        Filling base h' o (LinkHash.insertAll members adds) others extra temps news' := by
  unfold JsonHeap.jsonObjectCopy0Childs
  induction adds generalizing h members news with
  | nil => exact ⟨h, news, rfl, hfilling⟩
  | cons e adds ih =>
    have hget : ∃ h', JsonHeap.jsonObjectGet h e.2 = .ok h' ∧
        Filling base h' o members others (e.2.toList ++ extra) temps news := by
      cases he : e.2 with
      | none => exact ⟨h, rfl, hfilling⟩
      | some p => exact hfilling.get (hlive e List.mem_cons_self p he)
    rcases hget with ⟨h₁, hget, hfilling₁⟩
    rcases hfilling₁.add hbase e.1 e.2 with ⟨h₂, news₂, hadd, hfilling₂⟩
    rcases ih (fun e he => hlive e (List.mem_cons_of_mem _ he)) hfilling₂
      with ⟨h₃, news₃, hadds, hfilling₃⟩
    refine ⟨h₃, news₃, ?_, hfilling₃⟩
    rw [List.foldlM_cons, HM.bind_of_eq_ok hget, HM.bind_of_eq_ok hadd]
    exact hadds

end Filling

end RbMonitor
