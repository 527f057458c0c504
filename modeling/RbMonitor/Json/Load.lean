import RbMonitor.Json.Lemmas

/-!
This module contains that the nodes of a loaded value hold it, with one reference each.
-/

namespace RbMonitor

open RefHeap

/-- Nodes with one reference each were added at the end. -/
structure Loaded (h h' : JsonHeap) : Prop where
  next_le : h.next ≤ h'.next
  below : ∀ p, p < h.next → h'.cells p = h.cells p
  above : ∀ p, h.next ≤ p → p < h'.next → ∃ node, h'.cells p = some ⟨1, node⟩

/-- What the added nodes hold was added too. -/
def Closed (h h' : JsonHeap) : Prop :=
  ∀ p cell, h.next ≤ p → h'.cells p = some cell → ∀ q ∈ cell.node.slots, h.next ≤ q

namespace Loaded

variable {h h' h'' : JsonHeap}

theorem refl (h : JsonHeap) : Loaded h h := by
  refine ⟨Nat.le_refl _, fun _ _ => rfl, ?_⟩
  intro p hle hlt
  exact absurd hlt (Nat.not_lt.mpr hle)

theorem trans (h₁ : Loaded h h') (h₂ : Loaded h' h'') : Loaded h h'' := by
  refine ⟨Nat.le_trans h₁.next_le h₂.next_le, ?_, ?_⟩
  . intro p hp
    rw [h₂.below p (Nat.lt_of_lt_of_le hp h₁.next_le), h₁.below p hp]
  . intro p hle hlt
    cases Nat.lt_or_ge p h'.next with
    | inl hp =>
      rw [h₂.below p hp]
      exact h₁.above p hle hp
    | inr hp => exact h₂.above p hp hlt

theorem alloc (h : JsonHeap) (node : JsonNode) : Loaded h (h.alloc node).2 := by
  have hcells (p : Ptr) : (h.alloc node).2.cells p
      = if p = h.next then some ⟨1, node⟩ else h.cells p := cells_set h _ _ p
  refine ⟨Nat.le_succ _, ?_, ?_⟩
  . intro p hp
    rw [hcells, if_neg (Nat.ne_of_lt hp)]
  . intro p hle hlt
    have heq : p = h.next := Nat.le_antisymm (Nat.le_of_lt_succ hlt) hle
    rw [hcells, if_pos heq]
    exact ⟨node, rfl⟩

theorem toJson? (hfresh : ∀ p, h.next ≤ p → h.cells p = none) (hloaded : Loaded h h')
    {fuel fuel' : Nat} (hfuel : fuel ≤ fuel') {q : Option Ptr} {val : Json}
    (hval : RbMonitor.toJson? h.node? fuel q = some val)
    : RbMonitor.toJson? h'.node? fuel' q = some val := by
  refine @toJson?_transfer _ _ (fun _ => True) ?_ _ _ hfuel _ _ (fun _ _ => trivial) hval
  intro p node _ hp
  refine ⟨?_, fun _ _ => trivial⟩
  have hlt : p < h.next := by
    by_contra hle
    simp [node?, hfresh p (Nat.le_of_not_lt hle)] at hp
  simpa [node?, hloaded.below p hlt] using hp

end Loaded

theorem Closed.trans {h h' h'' : JsonHeap} (hloaded : Loaded h h') (hloaded' : Loaded h' h'')
    (hclosed : Closed h h') (hclosed' : Closed h' h'')
    : Closed h h'' := by
  intro p cell hp hcell q hq
  cases Nat.lt_or_ge p h'.next with
  | inl hlt =>
    rw [hloaded'.below p hlt] at hcell
    exact hclosed p cell hp hcell q hq
  | inr hge => exact Nat.le_trans hloaded.next_le (hclosed' p cell hge hcell q hq)

variable {base h : JsonHeap} {news : List (Ptr × JsonNode)} {temps : List Ptr}

/-- The loaded value, in a heap in which the counts were right. -/
structure Loads (base h h' : JsonHeap) (news : List (Ptr × JsonNode)) (temps : List Ptr)
    (q : Option Ptr) (val : Json) : Prop where
  loaded : Loaded h h'
  value : toJson? h'.node? (h'.next - h.next) q = some val
  overlay : ∃ tree, Overlay JsonNode.slots base h' (tree ++ news) (q.toList ++ temps)
  above : ∀ p, q = some p → h.next ≤ p
  slots : Closed h h'

/-- The same for several values in a row. -/
structure LoadsAll (base h h' : JsonHeap) (news : List (Ptr × JsonNode)) (temps : List Ptr)
    (qs : List (Option Ptr)) (vals : List Json) : Prop where
  loaded : Loaded h h'
  values : List.Forall₂ (fun q v => toJson? h'.node? (h'.next - h.next) q = some v) qs vals
  overlay : ∃ tree, Overlay JsonNode.slots base h' (tree ++ news) (qs.reduceOption ++ temps)
  above : ∀ p ∈ qs.reduceOption, h.next ≤ p
  slots : Closed h h'

theorem LoadsAll.nil (hoverlay : Overlay JsonNode.slots base h news temps)
    : LoadsAll base h h news temps [] [] := by
  refine ⟨.refl h, .nil, ⟨[], hoverlay⟩, nofun, ?_⟩
  intro p cell hp hcell
  rw [hoverlay.fresh p hp] at hcell
  cases hcell

theorem LoadsAll.cons {h₁ h₂ : JsonHeap} {q : Option Ptr} {qs : List (Option Ptr)} {val : Json}
    {vals : List Json} (hhead : Loads base h h₁ news temps q val)
    (htail : ∀ tree, Overlay JsonNode.slots base h₁ (tree ++ news) (q.toList ++ temps) →
      LoadsAll base h₁ h₂ (tree ++ news) (q.toList ++ temps) qs vals)
    : LoadsAll base h h₂ news temps (q :: qs) (val :: vals) := by
  rcases hhead with ⟨hloaded₁, hval, ⟨tree₁, htree₁⟩, habove₁, hclosed₁⟩
  rcases htail tree₁ htree₁ with ⟨hloaded₂, hvals, ⟨tree₂, htree₂⟩, habove₂, hclosed₂⟩
  have hle₁ := hloaded₁.next_le
  have hle₂ := hloaded₂.next_le
  refine ⟨hloaded₁.trans hloaded₂, .cons ?_ (hvals.imp ?_), ⟨tree₂ ++ tree₁, ?_⟩, ?_,
    hclosed₁.trans hloaded₁ hloaded₂ hclosed₂⟩
  . exact hloaded₂.toJson? htree₁.fresh (Nat.sub_le_sub_right hle₂ _) hval
  . intro q v hv
    exact (Loaded.refl h₂).toJson? htree₂.fresh (Nat.sub_le_sub_left hle₁ _) hv
  . rw [reduceOption_cons]
    refine htree₂.perm (by rw [List.append_assoc]) ?_
    rw [List.append_assoc, ← List.append_assoc, ← List.append_assoc]
    exact List.perm_append_comm.append_right _
  . intro p hp
    rw [reduceOption_cons, List.mem_append, Option.mem_toList] at hp
    cases hp with
    | inl hp => exact habove₁ p hp
    | inr hp => exact Nat.le_trans hle₁ (habove₂ p hp)

theorem LoadsAll.alloc (hbase : WellFormed JsonNode.slots base) {h' : JsonHeap}
    {qs : List (Option Ptr)} {vals : List Json} (hall : LoadsAll base h h' news temps qs vals)
    {node : JsonNode} {val : Json} (hslots : node.slots = qs.reduceOption)
    (hval : ∀ nodes p fuel, nodes p = some node →
      List.Forall₂ (fun q v => toJson? nodes fuel q = some v) qs vals →
        toJson? nodes (fuel + 1) (some p) = some val)
    : Loads base h (h'.alloc node).2 news temps (some h'.next) val := by
  rcases hall with ⟨hloaded, hvals, ⟨tree, htree⟩, habove, hclosed⟩
  have hnext : (h'.alloc node).2.next - h.next = (h'.next - h.next) + 1 :=
    Nat.succ_sub hloaded.next_le
  refine ⟨hloaded.trans (.alloc h' node), ?_, ⟨(h'.next, node) :: tree, ?_⟩, ?_, ?_⟩
  . rw [hnext]
    apply hval
    . simp [node?, RefHeap.alloc]
    . apply hvals.imp
      intro q v hv
      exact (Loaded.alloc h' node).toJson? htree.fresh (Nat.le_refl _) hv
  . apply Overlay.alloc hbase
    rw [hslots]
    exact htree
  . intro p hp
    cases hp
    exact hloaded.next_le
  . intro p cell hp hcell q hq
    have hcells : (h'.alloc node).2.cells p = if p = h'.next then some ⟨1, node⟩ else h'.cells p :=
      cells_set h' _ _ p
    rw [hcells] at hcell
    split at hcell
    . cases hcell
      exact habove q (hslots ▸ hq)
    . exact hclosed p cell hp hcell q hq

theorem keys_loadMembers (h : JsonHeap) (members : List (CStr × Json))
    : LinkHash.keys (loadMembers h members).1 = LinkHash.keys members := by
  induction members generalizing h with
  | nil => rfl
  | cons e members ih =>
    rcases e with ⟨key, val⟩
    exact congrArg (key :: ·) (ih (load h val).2)

mutual

theorem loads_load (hbase : WellFormed JsonNode.slots base) (val : Json) {h : JsonHeap}
    {news : List (Ptr × JsonNode)} {temps : List Ptr}
    (hoverlay : Overlay JsonNode.slots base h news temps)
    : Loads base h (load h val).2 news temps (load h val).1 val := by
  cases val with
  | null =>
    have hnil := LoadsAll.nil hoverlay
    refine ⟨.refl h, ?_, ⟨[], hoverlay⟩, nofun, hnil.slots⟩
    unfold load toJson?
    cases h.next - h.next <;> rfl
  | array elms =>
    have hall := loads_loadElms hbase elms hoverlay
    unfold load
    apply hall.alloc hbase rfl
    intro nodes p fuel hp hvals
    rw [toJson?_array hp]
    exact ⟨elms, rfl, hvals⟩
  | object members =>
    have hall := loads_loadMembers hbase members hoverlay
    unfold load
    apply hall.alloc hbase rfl
    intro nodes p fuel hp hvals
    rw [toJson?_object hp]
    exact ⟨members, rfl, sameKeys_of_map_snd (keys_loadMembers h members) hvals⟩
  | _ =>
    unfold load
    apply (LoadsAll.nil hoverlay).alloc hbase rfl
    intro nodes p fuel hp _
    simp [toJson?, hp]

theorem loads_loadElms (hbase : WellFormed JsonNode.slots base) (vals : List Json) {h : JsonHeap}
    {news : List (Ptr × JsonNode)} {temps : List Ptr}
    (hoverlay : Overlay JsonNode.slots base h news temps)
    : LoadsAll base h (loadElms h vals).2 news temps (loadElms h vals).1 vals := by
  cases vals with
  | nil => exact .nil hoverlay
  | cons val vals =>
    apply LoadsAll.cons (loads_load hbase val hoverlay)
    intro tree htree
    exact loads_loadElms hbase vals htree

theorem loads_loadMembers (hbase : WellFormed JsonNode.slots base) (members : List (CStr × Json))
    {h : JsonHeap} {news : List (Ptr × JsonNode)} {temps : List Ptr}
    (hoverlay : Overlay JsonNode.slots base h news temps)
    : LoadsAll base h (loadMembers h members).2 news temps
        ((loadMembers h members).1.map Prod.snd) (members.map Prod.snd) := by
  cases members with
  | nil => exact .nil hoverlay
  | cons e members =>
    rcases e with ⟨key, val⟩
    apply LoadsAll.cons (loads_load hbase val hoverlay)
    intro tree htree
    exact loads_loadMembers hbase members htree

end

/-- A loaded value by itself: every node is held once, the root from outside. -/
structure Tree (h loaded : JsonHeap) (r : Ptr) (tree : List (Ptr × JsonNode)) : Prop where
  overlay : Overlay JsonNode.slots h loaded tree [r]
  root : ∃ node, (r, node) ∈ tree
  above : ∀ e ∈ tree, h.next ≤ e.1
  once : ∀ e ∈ tree, (held JsonNode.slots tree [r]).count e.1 = 1
  closed : ∀ e ∈ tree, ∀ q ∈ e.2.slots, ∃ node, (q, node) ∈ tree

theorem exists_tree (hbase : WellFormed JsonNode.slots h) {val : Json} {r : Ptr}
    (hr : (load h val).1 = some r)
    : ∃ tree, Tree h (load h val).2 r tree := by
  rcases loads_load hbase val (.refl hbase) with ⟨hloaded, _, ⟨tree, htree⟩, habove, hclosed⟩
  rw [hr, List.append_nil, List.append_nil] at htree
  have hoverlay : Overlay JsonNode.slots h (load h val).2 tree [r] := htree
  have hge (e : Ptr × JsonNode) (he : e ∈ tree) : h.next ≤ e.1 := by
    by_contra hlt
    rcases hoverlay.new e.1 e.2 he with ⟨hnone, _, hcell⟩
    rw [hloaded.below e.1 (Nat.lt_of_not_le hlt), hnone] at hcell
    cases hcell
  -- what is held and lies above was loaded
  have hmem (p : Ptr) (hp : h.next ≤ p) (hheld : p ∈ held JsonNode.slots tree [r])
      : ∃ node, (p, node) ∈ tree := by
    rcases hoverlay.cases p with ⟨cell, hcell⟩ | hnews | ⟨hnone, hnot⟩
    . rw [hbase.fresh p hp] at hcell
      cases hcell
    . exact hnews
    . exact absurd hheld (hoverlay.gone p hnone hnot).2
  refine ⟨tree, hoverlay, ?_, hge, ?_, ?_⟩
  . exact hmem r (habove r hr) (mem_held_of_mem_temps List.mem_cons_self)
  . intro e he
    have hcell := (hoverlay.new e.1 e.2 he).2.2
    have hlt : e.1 < (load h val).2.next := by
      by_contra hle
      rw [hoverlay.fresh e.1 (Nat.le_of_not_lt hle)] at hcell
      cases hcell
    rcases hloaded.above e.1 (hge e he) hlt with ⟨node, hnode⟩
    rw [hnode, Option.some.injEq, RefCell.mk.injEq] at hcell
    exact hcell.1.symm
  . intro e he q hq
    have hcell := (hoverlay.new e.1 e.2 he).2.2
    exact hmem q (hclosed e.1 _ (hge e he) hcell q hq) (mem_held_of_mem_slots he hq)

namespace Tree

variable {loaded : JsonHeap} {r : Ptr} {tree : List (Ptr × JsonNode)}

theorem root_not_mem_slots (htree : Tree h loaded r tree) {e : Ptr × JsonNode} (he : e ∈ tree)
    : r ∉ e.2.slots := by
  rcases htree.root with ⟨node, hroot⟩
  exact not_mem_slots_of_count_held_le_one he List.mem_cons_self (Nat.le_of_eq (htree.once _ hroot))

theorem nodup_slots (htree : Tree h loaded r tree) {e : Ptr × JsonNode} (he : e ∈ tree)
    : e.2.slots.Nodup := by
  apply List.nodup_iff_count_le_one.mpr
  intro q
  by_cases hq : q ∈ e.2.slots
  . rcases htree.closed e he q hq with ⟨node, hmem⟩
    rw [← htree.once _ hmem]
    exact count_slots_le_count_held he q
  . rw [List.count_eq_zero.mpr hq]
    exact Nat.zero_le _

theorem eq_of_mem_slots (htree : Tree h loaded r tree) {e e' : Ptr × JsonNode} (he : e ∈ tree)
    (he' : e' ∈ tree) {q : Ptr} (hq : q ∈ e.2.slots) (hq' : q ∈ e'.2.slots)
    : e = e' := by
  rcases htree.closed e he q hq with ⟨node, hmem⟩
  exact eq_of_count_held_le_one he he' hq hq' (Nat.le_of_eq (htree.once _ hmem))

end Tree

end RbMonitor
