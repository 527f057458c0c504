import Mathlib.Data.List.Nodup
import Mathlib.Data.List.Perm.Subperm
import RbMonitor.Lib.RefHeap

/-!
This module contains the nodes that are added to a heap, each with as many references as there are
held of it, and that the heap is as it was once none is held any more.
-/

namespace RefHeap

variable {ν : Type} (slots : ν → List Ptr)

/-- The references that the added nodes hold, and those that are held from outside. -/
def held (news : List (Ptr × ν)) (temps : List Ptr) : List Ptr :=
  news.flatMap (fun e => slots e.2) ++ temps

structure Overlay (base h : RefHeap ν) (news : List (Ptr × ν)) (temps : List Ptr) : Prop where
  next_le : base.next ≤ h.next
  fresh : ∀ p, h.next ≤ p → h.cells p = none
  nodup : (news.map Prod.fst).Nodup
  old : ∀ p cell, base.cells p = some cell →
    h.cells p = some ⟨cell.refs + (held slots news temps).count p, cell.node⟩
  new : ∀ p node, (p, node) ∈ news → base.cells p = none ∧ 0 < (held slots news temps).count p ∧
    h.cells p = some ⟨(held slots news temps).count p, node⟩
  gone : ∀ p, base.cells p = none → p ∉ news.map Prod.fst →
    h.cells p = none ∧ p ∉ held slots news temps

/-- No added node lies two deep under others. -/
def Shallow (news : List (Ptr × ν)) : Prop :=
  ∀ e ∈ news, ∀ e' ∈ news, e'.1 ∈ slots e.2 → slots e'.2 = []

/-- A reference to the node is held from outside, or by a node to which one is. -/
def Anchored (news : List (Ptr × ν)) (temps : List Ptr) (p : Ptr) : Prop :=
  p ∈ temps ∨ ∃ e ∈ news, e.1 ∈ temps ∧ p ∈ slots e.2

variable {slots} {base h : RefHeap ν} {news : List (Ptr × ν)} {temps : List Ptr}

theorem count_held (news : List (Ptr × ν)) (temps : List Ptr) (p : Ptr)
    : (held slots news temps).count p
        =
      (news.flatMap (fun e => slots e.2)).count p + temps.count p := by
  simp [held]

theorem mem_held_of_mem_temps {p : Ptr} (hp : p ∈ temps) : p ∈ held slots news temps := by
  simp [held, hp]

theorem mem_held_of_mem_slots {p : Ptr} {e : Ptr × ν} (he : e ∈ news) (hp : p ∈ slots e.2)
    : p ∈ held slots news temps := by
  unfold held
  rw [List.mem_append, List.mem_flatMap]
  exact Or.inl ⟨e, he, hp⟩

theorem count_slots_le_count_held {e : Ptr × ν} (he : e ∈ news) (p : Ptr)
    : (slots e.2).count p ≤ (held slots news temps).count p := by
  rcases List.append_of_mem he with ⟨before, after, rfl⟩
  simp only [count_held, List.flatMap_append, List.flatMap_cons, List.count_append]
  omega

theorem eq_of_count_held_le_one {p : Ptr} {e e' : Ptr × ν} (he : e ∈ news) (he' : e' ∈ news)
    (hp : p ∈ slots e.2) (hp' : p ∈ slots e'.2) (hone : (held slots news temps).count p ≤ 1)
    : e = e' := by
  by_contra hne
  rcases List.append_of_mem he with ⟨before, after, rfl⟩
  have hrest : e' ∈ before ++ after := by
    simp only [List.mem_append, List.mem_cons] at he' ⊢
    rcases he' with he' | heq | he'
    . exact Or.inl he'
    . exact absurd heq.symm hne
    . exact Or.inr he'
  have hcount : 0 < ((before ++ after).flatMap fun e => slots e.2).count p :=
    List.count_pos_iff.mpr (List.mem_flatMap.mpr ⟨e', hrest, hp'⟩)
  have hpos := List.count_pos_iff.mpr hp
  simp only [count_held, List.flatMap_append, List.flatMap_cons, List.count_append] at hone hcount
  omega

theorem not_mem_slots_of_count_held_le_one {p : Ptr} {e : Ptr × ν} (he : e ∈ news)
    (hp : p ∈ temps) (hone : (held slots news temps).count p ≤ 1)
    : p ∉ slots e.2 := by
  intro hslot
  have hcount : 0 < (news.flatMap fun e => slots e.2).count p :=
    List.count_pos_iff.mpr (List.mem_flatMap.mpr ⟨e, he, hslot⟩)
  have hpos := List.count_pos_iff.mpr hp
  rw [count_held] at hone
  omega

namespace Overlay

theorem refl (hbase : WellFormed slots base) : Overlay slots base base [] [] := by
  constructor
  . exact Nat.le_refl _
  . exact hbase.fresh
  . exact List.nodup_nil
  . intro p cell hcell
    simp [held, hcell]
  . intro p node hmem
    cases hmem
  . intro p hp _
    exact ⟨hp, by simp [held]⟩

theorem cases (_hoverlay : Overlay slots base h news temps) (p : Ptr)
    : (∃ cell, base.cells p = some cell) ∨ (∃ node, (p, node) ∈ news) ∨
        (base.cells p = none ∧ p ∉ news.map Prod.fst) := by
  cases hp : base.cells p with
  | some cell => exact Or.inl ⟨cell, rfl⟩
  | none =>
    by_cases hmem : p ∈ news.map Prod.fst
    . rcases List.mem_map.mp hmem with ⟨e, he, rfl⟩
      exact Or.inr (Or.inl ⟨e.2, he⟩)
    . exact Or.inr (Or.inr ⟨rfl, hmem⟩)

theorem isSome_of_mem_held (hoverlay : Overlay slots base h news temps) {p : Ptr}
    (hp : p ∈ held slots news temps)
    : (h.cells p).isSome := by
  rcases hoverlay.cases p with ⟨cell, hcell⟩ | ⟨node, hmem⟩ | ⟨hbase, hmem⟩
  . rw [hoverlay.old p cell hcell]
    rfl
  . rw [(hoverlay.new p node hmem).2.2]
    rfl
  . exact absurd hp (hoverlay.gone p hbase hmem).2

theorem wellFormed (hbase : WellFormed slots base) (hoverlay : Overlay slots base h news temps)
    : WellFormed slots h := by
  constructor
  . exact hoverlay.fresh
  . intro p cell' hcell'
    rcases hoverlay.cases p with ⟨cell, hcell⟩ | ⟨node, hmem⟩ | ⟨hnone, hmem⟩
    . have hpos := hbase.pos p cell hcell
      rw [hoverlay.old p cell hcell] at hcell'
      cases hcell'
      exact Nat.add_pos_left hpos _
    . rcases hoverlay.new p node hmem with ⟨_, hpos, hcell⟩
      rw [hcell] at hcell'
      cases hcell'
      exact hpos
    . rw [(hoverlay.gone p hnone hmem).1] at hcell'
      cases hcell'
  . intro p cell' q hcell' hq
    rcases hoverlay.cases p with ⟨cell, hcell⟩ | ⟨node, hmem⟩ | ⟨hnone, hmem⟩
    . rw [hoverlay.old p cell hcell] at hcell'
      cases hcell'
      rcases Option.isSome_iff_exists.mp (hbase.closed p cell q hcell hq) with ⟨qcell, hqcell⟩
      rw [hoverlay.old q qcell hqcell]
      rfl
    . rw [(hoverlay.new p node hmem).2.2] at hcell'
      cases hcell'
      exact hoverlay.isSome_of_mem_held (mem_held_of_mem_slots hmem hq)
    . rw [(hoverlay.gone p hnone hmem).1] at hcell'
      cases hcell'

theorem perm {news' : List (Ptr × ν)} {temps' : List Ptr}
    (hoverlay : Overlay slots base h news temps) (hnews : news.Perm news')
    (htemps : temps.Perm temps')
    : Overlay slots base h news' temps' := by
  have hheld : (held slots news temps).Perm (held slots news' temps') :=
    (hnews.flatMap_right _).append htemps
  have hcount (p : Ptr) := hheld.count_eq p
  constructor
  . exact hoverlay.next_le
  . exact hoverlay.fresh
  . exact (hnews.map _).nodup_iff.mp hoverlay.nodup
  . intro p cell hcell
    rw [← hcount]
    exact hoverlay.old p cell hcell
  . intro p node hmem
    rw [← hcount]
    exact hoverlay.new p node (hnews.mem_iff.mpr hmem)
  . intro p hp hmem
    rw [← hheld.mem_iff]
    exact hoverlay.gone p hp fun h => hmem ((hnews.map _).mem_iff.mp h)

theorem set_refs (hoverlay : Overlay slots base h news temps) {p : Ptr} {cell : RefCell ν}
    (hcell : h.cells p = some cell) {refs : Nat} {temps' : List Ptr} (hpos : 0 < refs)
    (hrefs : refs + temps.count p = cell.refs + temps'.count p)
    (hother : ∀ q, q ≠ p → temps'.count q = temps.count q)
    : Overlay slots base (h.set p (some ⟨refs, cell.node⟩)) news temps' := by
  have hheld (q : Ptr) (hq : q ≠ p)
      : (held slots news temps').count q = (held slots news temps).count q := by
    rw [count_held, count_held, hother q hq]
  have hheldp : refs + (held slots news temps).count p
      = cell.refs + (held slots news temps').count p := by
    rw [count_held, count_held]
    omega
  constructor
  . exact hoverlay.next_le
  . intro q hq
    rw [cells_set, if_neg, hoverlay.fresh q hq]
    intro hqp
    rw [hqp] at hq
    rw [hoverlay.fresh p hq] at hcell
    cases hcell
  . exact hoverlay.nodup
  . intro q qcell hqcell
    have hold := hoverlay.old q qcell hqcell
    rw [cells_set]
    split
    . next hqp =>
      subst hqp
      rw [hcell] at hold
      cases hold
      congr 2
      simp only at hheldp
      omega
    . next hqp => rw [hold, hheld q hqp]
  . intro q node hmem
    have hnew := hoverlay.new q node hmem
    by_cases hqp : q = p
    . subst hqp
      rw [hcell] at hnew
      rcases hnew with ⟨hnone, _, hnew⟩
      cases hnew
      simp only at hheldp
      have hcount : (held slots news temps').count q = refs := by omega
      rw [hcount, cells_set, if_pos rfl]
      exact ⟨hnone, hpos, rfl⟩
    . rw [cells_set, if_neg hqp, hheld q hqp]
      exact hnew
  . intro q hnone hmem
    rcases hoverlay.gone q hnone hmem with ⟨hgone, hnot⟩
    have hqp : q ≠ p := by
      intro hqp
      rw [hqp, hcell] at hgone
      cases hgone
    rw [cells_set, if_neg hqp, ← List.count_eq_zero, hheld q hqp, List.count_eq_zero]
    exact ⟨hgone, hnot⟩

theorem get (hoverlay : Overlay slots base h news temps) {p : Ptr} (hp : (h.cells p).isSome)
    : ∃ h', h.get p = .ok h' ∧ Overlay slots base h' news (p :: temps) := by
  rcases Option.isSome_iff_exists.mp hp with ⟨cell, hcell⟩
  refine ⟨h.set p (some { cell with refs := cell.refs + 1 }), by simp [RefHeap.get, hcell], ?_⟩
  apply hoverlay.set_refs hcell (Nat.succ_pos _)
  . simp
    omega
  . intro q hq
    simp [hq.symm]

theorem alloc (hbase : WellFormed slots base) (node : ν)
    (hoverlay : Overlay slots base h news (slots node ++ temps))
    : Overlay slots base (h.alloc node).2 ((h.next, node) :: news) (h.next :: temps) := by
  have hnone : h.cells h.next = none := hoverlay.fresh _ (Nat.le_refl _)
  have hbasenone : base.cells h.next = none := hbase.fresh _ hoverlay.next_le
  have hnews : h.next ∉ news.map Prod.fst := by
    intro hmem
    rcases List.mem_map.mp hmem with ⟨e, he, heq⟩
    rw [← heq, (hoverlay.new e.1 e.2 he).2.2] at hnone
    cases hnone
  have hnot := (hoverlay.gone _ hbasenone hnews).2
  have hcount (q : Ptr) : (held slots ((h.next, node) :: news) (h.next :: temps)).count q
      = (held slots news (slots node ++ temps)).count q + if h.next = q then 1 else 0 := by
    simp only [count_held, List.flatMap_cons, List.count_append, List.count_cons, beq_iff_eq]
    omega
  have hcells (q : Ptr) : (h.alloc node).2.cells q
      = if q = h.next then some ⟨1, node⟩ else h.cells q := cells_set h _ _ q
  constructor
  . exact Nat.le_succ_of_le hoverlay.next_le
  . intro q hq
    have hlt : h.next < q := hq
    rw [hcells, if_neg (Nat.ne_of_gt hlt)]
    exact hoverlay.fresh q (Nat.le_of_lt hlt)
  . exact List.nodup_cons.mpr ⟨hnews, hoverlay.nodup⟩
  . intro q qcell hqcell
    have hne : q ≠ h.next := by
      intro hq
      rw [hq, hbasenone] at hqcell
      cases hqcell
    rw [hcells, if_neg hne, hcount, if_neg hne.symm]
    exact hoverlay.old q qcell hqcell
  . intro q node' hmem
    cases List.mem_cons.mp hmem with
    | inl heq =>
      cases heq
      rw [hcells, if_pos rfl, hcount, if_pos rfl, List.count_eq_zero.mpr hnot]
      exact ⟨hbasenone, Nat.one_pos, rfl⟩
    | inr hmem =>
      have hne : q ≠ h.next := by
        intro hq
        rw [hq] at hmem
        exact hnews (List.mem_map.mpr ⟨_, hmem, rfl⟩)
      rw [hcells, if_neg hne, hcount, if_neg hne.symm]
      exact hoverlay.new q node' hmem
  . intro q hqnone hmem
    rw [List.map_cons, List.mem_cons, not_or] at hmem
    have hne : q ≠ h.next := hmem.1
    rw [hcells, if_neg hne, ← List.count_eq_zero, hcount, if_neg hne.symm, Nat.add_zero,
      List.count_eq_zero]
    exact hoverlay.gone q hqnone hmem.2

theorem write {p : Ptr} {node node' : ν} {temps' : List Ptr}
    (hoverlay : Overlay slots base h ((p, node) :: news) temps)
    (hslots : (slots node ++ temps).Perm (slots node' ++ temps'))
    : ∃ h', h.write p node' = .ok h' ∧ Overlay slots base h' ((p, node') :: news) temps' := by
  have hcount (q : Ptr) : (held slots ((p, node') :: news) temps').count q
      = (held slots ((p, node) :: news) temps).count q := by
    have := hslots.count_eq q
    simp only [count_held, List.flatMap_cons, List.count_append] at this ⊢
    omega
  rcases hoverlay.new p node List.mem_cons_self with ⟨hbasep, hpos, hcell⟩
  have hnodup := List.nodup_cons.mp hoverlay.nodup
  refine ⟨h.set p (some ⟨(held slots ((p, node) :: news) temps).count p, node'⟩),
    by simp only [RefHeap.write, hcell], ?_⟩
  constructor
  . exact hoverlay.next_le
  . intro q hq
    rw [cells_set, if_neg, hoverlay.fresh q hq]
    intro hqp
    rw [hqp] at hq
    rw [hoverlay.fresh p hq] at hcell
    cases hcell
  . exact hoverlay.nodup
  . intro q qcell hqcell
    have hqp : q ≠ p := by
      intro hqp
      rw [hqp, hbasep] at hqcell
      cases hqcell
    rw [cells_set, if_neg hqp, hcount]
    exact hoverlay.old q qcell hqcell
  . intro q qnode hmem
    rw [hcount]
    cases List.mem_cons.mp hmem with
    | inl heq =>
      cases heq
      rw [cells_set, if_pos rfl]
      exact ⟨hbasep, hpos, rfl⟩
    | inr hmem =>
      have hqp : q ≠ p := by
        intro hqp
        rw [hqp] at hmem
        exact hnodup.1 (List.mem_map.mpr ⟨_, hmem, rfl⟩)
      rw [cells_set, if_neg hqp]
      exact hoverlay.new q qnode (List.mem_cons_of_mem _ hmem)
  . intro q hqnone hmem
    have hqp : q ≠ p := fun hqp => hmem (hqp ▸ List.mem_cons_self)
    rw [cells_set, if_neg hqp, ← List.count_eq_zero, hcount, List.count_eq_zero]
    exact hoverlay.gone q hqnone hmem

theorem free {p : Ptr} {node : ν} (hoverlay : Overlay slots base h ((p, node) :: news) (p :: temps))
    (hone : (held slots ((p, node) :: news) (p :: temps)).count p = 1)
    : Overlay slots base (h.set p none) news (slots node ++ temps) := by
  have hcount (q : Ptr) : (held slots ((p, node) :: news) (p :: temps)).count q
      = (held slots news (slots node ++ temps)).count q + if p = q then 1 else 0 := by
    simp only [count_held, List.flatMap_cons, List.count_append, List.count_cons, beq_iff_eq]
    omega
  have hbasep := (hoverlay.new p node List.mem_cons_self).1
  have hnodup := List.nodup_cons.mp hoverlay.nodup
  constructor
  . exact hoverlay.next_le
  . intro q hq
    rw [cells_set]
    split
    . rfl
    . exact hoverlay.fresh q hq
  . exact hnodup.2
  . intro q qcell hqcell
    have hqp : q ≠ p := by
      intro hqp
      rw [hqp, hbasep] at hqcell
      cases hqcell
    have hold := hoverlay.old q qcell hqcell
    rw [hcount, if_neg hqp.symm] at hold
    rw [cells_set, if_neg hqp]
    exact hold
  . intro q qnode hmem
    have hqp : q ≠ p := by
      intro hqp
      rw [hqp] at hmem
      exact hnodup.1 (List.mem_map.mpr ⟨_, hmem, rfl⟩)
    have hnew := hoverlay.new q qnode (List.mem_cons_of_mem _ hmem)
    rw [hcount, if_neg hqp.symm] at hnew
    rw [cells_set, if_neg hqp]
    exact hnew
  . intro q hqnone hmem
    by_cases hqp : q = p
    . subst hqp
      rw [hcount, if_pos rfl] at hone
      rw [cells_set, if_pos rfl, ← List.count_eq_zero]
      exact ⟨rfl, Nat.succ_inj.mp hone⟩
    . have hgone := hoverlay.gone q hqnone (by simp [hqp, hmem])
      rw [← List.count_eq_zero, hcount, if_neg (Ne.symm hqp), Nat.add_zero, List.count_eq_zero]
        at hgone
      rw [cells_set, if_neg hqp]
      exact hgone

theorem length_le (hoverlay : Overlay slots base h news temps) {news' : List (Ptr × ν)}
    (hsubset : news ⊆ news')
    : news.length ≤ news'.length := by
  exact (List.subperm_of_subset (List.Nodup.of_map _ hoverlay.nodup) hsubset).length_le

theorem foldlM {f : RefHeap ν → Ptr → Except Fault (RefHeap ν)} {n : Nat}
    (hf : ∀ h news p temps, news.length ≤ n → Overlay slots base h news (p :: temps) →
      ∃ h' news', f h p = .ok h' ∧ news' ⊆ news ∧ Overlay slots base h' news' temps)
    (ps : List Ptr) (hlength : news.length ≤ n) (hoverlay : Overlay slots base h news (ps ++ temps))
    : ∃ h' news', ps.foldlM f h = .ok h' ∧ news' ⊆ news ∧ Overlay slots base h' news' temps := by
  induction ps generalizing h news with
  | nil => exact ⟨h, news, rfl, List.Subset.refl _, hoverlay⟩
  | cons p ps ih =>
    rcases hf h news p (ps ++ temps) hlength hoverlay with ⟨h₁, news₁, hp, hsubset₁, hoverlay₁⟩
    rcases ih (Nat.le_trans (hoverlay₁.length_le hsubset₁) hlength) hoverlay₁
      with ⟨h₂, news₂, hps, hsubset₂, hoverlay₂⟩
    refine ⟨h₂, news₂, ?_, List.Subset.trans hsubset₂ hsubset₁, hoverlay₂⟩
    rw [List.foldlM_cons, hp]
    exact hps

theorem release (hbase : WellFormed slots base) {fuel : Nat} (hfuel : news.length < fuel) {p : Ptr}
    (hoverlay : Overlay slots base h news (p :: temps))
    : ∃ h' news', release slots fuel h p = .ok h' ∧ news' ⊆ news ∧
        Overlay slots base h' news' temps := by
  induction fuel generalizing h news temps p with
  | zero => omega
  | succ fuel ih =>
    have hmany (cell : RefCell ν) (hcell : h.cells p = some cell) (hrefs : 1 < cell.refs)
        : ∃ h' news', RefHeap.release slots (fuel + 1) h p = .ok h' ∧ news' ⊆ news ∧
            Overlay slots base h' news' temps := by
      refine ⟨_, news, by simp only [RefHeap.release, hcell, if_pos hrefs]; rfl,
        List.Subset.refl _, ?_⟩
      apply hoverlay.set_refs hcell
      . omega
      . simp only [List.count_cons_self]
        omega
      . intro q hq
        rw [List.count_cons_of_ne hq.symm]
    have hpos : 0 < (held slots news (p :: temps)).count p :=
      List.count_pos_iff.mpr (mem_held_of_mem_temps List.mem_cons_self)
    rcases hoverlay.cases p with ⟨cell, hcell⟩ | ⟨node, hmem⟩ | ⟨hnone, hmem⟩
    . apply hmany _ (hoverlay.old p cell hcell)
      have := hbase.pos p cell hcell
      simp only
      omega
    . have hcell := (hoverlay.new p node hmem).2.2
      by_cases hrefs : 1 < (held slots news (p :: temps)).count p
      . exact hmany _ hcell hrefs
      . -- the node goes, and what it held is given back with one node less
        rcases List.append_of_mem hmem with ⟨before, after, rfl⟩
        have hperm : (before ++ (p, node) :: after).Perm ((p, node) :: (before ++ after)) :=
          List.perm_middle
        have hone : (held slots (before ++ (p, node) :: after) (p :: temps)).count p = 1 := by omega
        have hfree := (hoverlay.perm hperm (.refl _)).free (by
          rw [← hone]
          exact (((hperm.flatMap_right _).append (.refl _)).count_eq p).symm)
        have hlength := hperm.length_eq
        rw [List.length_cons] at hlength
        rcases hfree.foldlM (n := fuel - 1)
          (fun h news q temps hle h₁ => ih (by omega) h₁) (slots node) (by omega)
          with ⟨h', news', hfold, hsubset, hoverlay'⟩
        refine ⟨h', news', ?_, ?_, hoverlay'⟩
        . simp only [RefHeap.release, hcell, if_neg hrefs]
          exact hfold
        . intro e he
          rw [hperm.mem_iff]
          exact List.mem_cons_of_mem _ (hsubset he)
    . exact absurd (mem_held_of_mem_temps List.mem_cons_self) (hoverlay.gone p hnone hmem).2

theorem put (hbase : WellFormed slots base) {p : Ptr}
    (hoverlay : Overlay slots base h news (p :: temps))
    : ∃ h' news', h.put slots p = .ok h' ∧ news' ⊆ news ∧ Overlay slots base h' news' temps := by
  apply hoverlay.release hbase
  have hsubset : news.map Prod.fst ⊆ List.range h.next := by
    intro q hq
    rcases List.mem_map.mp hq with ⟨e, he, rfl⟩
    rw [List.mem_range]
    by_contra hle
    have hcell := (hoverlay.new e.1 e.2 he).2.2
    rw [hoverlay.fresh e.1 (Nat.le_of_not_lt hle)] at hcell
    cases hcell
  have hle := (List.subperm_of_subset hoverlay.nodup hsubset).length_le
  rw [List.length_map, List.length_range] at hle
  exact Nat.lt_succ_of_le hle

theorem putAll (hbase : WellFormed slots base) (ps : List Ptr)
    (hoverlay : Overlay slots base h news (ps ++ temps))
    : ∃ h' news', ps.foldlM (RefHeap.put slots) h = .ok h' ∧ news' ⊆ news ∧
        Overlay slots base h' news' temps := by
  exact hoverlay.foldlM (fun _ _ _ _ _ h₁ => h₁.put hbase) ps (Nat.le_refl _)

theorem trans {h' : RefHeap ν} {news' : List (Ptr × ν)} {temps' : List Ptr}
    (hoverlay : Overlay slots base h news temps) (hoverlay' : Overlay slots h h' news' temps')
    : Overlay slots base h' (news' ++ news) (temps' ++ temps) := by
  have hcount (p : Ptr) : (held slots (news' ++ news) (temps' ++ temps)).count p
      = (held slots news temps).count p + (held slots news' temps').count p := by
    simp only [count_held, List.flatMap_append, List.count_append]
    omega
  have hmem_held (p : Ptr) : p ∈ held slots (news' ++ news) (temps' ++ temps) ↔
      p ∈ held slots news temps ∨ p ∈ held slots news' temps' := by
    rw [← List.count_pos_iff, hcount, Nat.add_pos_iff_pos_or_pos, List.count_pos_iff,
      List.count_pos_iff]
  constructor
  . exact Nat.le_trans hoverlay.next_le hoverlay'.next_le
  . exact hoverlay'.fresh
  . rw [List.map_append, List.nodup_append]
    refine ⟨hoverlay'.nodup, hoverlay.nodup, ?_⟩
    intro p hp q hq hpq
    rcases List.mem_map.mp hp with ⟨e, he, rfl⟩
    rcases List.mem_map.mp hq with ⟨e', he', rfl⟩
    have hcell := (hoverlay.new e'.1 e'.2 he').2.2
    rw [← hpq, (hoverlay'.new e.1 e.2 he).1] at hcell
    cases hcell
  . intro p cell hcell
    rw [hoverlay'.old p _ (hoverlay.old p cell hcell), hcount, Nat.add_assoc]
  . intro p node hmem
    rw [hcount]
    cases List.mem_append.mp hmem with
    | inl hmem =>
      rcases hoverlay'.new p node hmem with ⟨hnone, hpos, hcell⟩
      have hnot : p ∉ held slots news temps := by
        intro hp
        have := hoverlay.isSome_of_mem_held hp
        rw [hnone] at this
        cases this
      refine ⟨?_, by omega, ?_⟩
      . cases hbase : base.cells p with
        | none => rfl
        | some cell =>
          rw [hoverlay.old p cell hbase] at hnone
          cases hnone
      . rw [hcell, List.count_eq_zero.mpr hnot, Nat.zero_add]
    | inr hmem =>
      rcases hoverlay.new p node hmem with ⟨hnone, hpos, hcell⟩
      exact ⟨hnone, by omega, hoverlay'.old p _ hcell⟩
  . intro p hnone hmem
    rw [List.map_append, List.mem_append, not_or] at hmem
    rcases hoverlay.gone p hnone hmem.2 with ⟨hcell, hnot⟩
    rcases hoverlay'.gone p hcell hmem.1 with ⟨hcell', hnot'⟩
    refine ⟨hcell', ?_⟩
    rw [hmem_held, not_or]
    exact ⟨hnot, hnot'⟩

theorem mem_of_mem_held {h' : RefHeap ν} {news' : List (Ptr × ν)} {temps' : List Ptr}
    (hoverlay : Overlay slots base h news temps) (hoverlay' : Overlay slots base h' news' temps')
    (hsubset : news' ⊆ news) {e : Ptr × ν} (he : e ∈ news) (hheld : e.1 ∈ held slots news' temps')
    : e ∈ news' := by
  have hnone := (hoverlay.new e.1 e.2 he).1
  rcases hoverlay'.cases e.1 with ⟨cell, hcell⟩ | ⟨node, hmem⟩ | ⟨_, hmem⟩
  . rw [hnone] at hcell
    cases hcell
  . have hcell := (hoverlay.new e.1 node (hsubset hmem)).2.2
    rw [(hoverlay.new e.1 e.2 he).2.2] at hcell
    cases hcell
    exact hmem
  . exact absurd hheld (hoverlay'.gone e.1 hnone hmem).2

theorem anchored_of_subset {extra : List Ptr} {h' : RefHeap ν} {news' : List (Ptr × ν)} {temps' : List Ptr}
    (hoverlay : Overlay slots base h news temps)
    (hoverlay' : Overlay slots base h' news' (extra ++ temps')) (hsubset : news' ⊆ news) {p : Ptr}
    (hanchored : Anchored slots news temps' p)
    : Anchored slots news' temps' p ∧ p ∈ held slots news' (extra ++ temps') := by
  rcases hanchored with hp | ⟨e, he, hroot, hp⟩
  . exact ⟨Or.inl hp, mem_held_of_mem_temps (List.mem_append_right _ hp)⟩
  . have he' := hoverlay.mem_of_mem_held hoverlay' hsubset he
      (mem_held_of_mem_temps (List.mem_append_right _ hroot))
    exact ⟨Or.inr ⟨e, he', hroot, hp⟩, mem_held_of_mem_slots he' hp⟩

theorem cells_eq (hoverlay : Overlay slots base h news []) (hshallow : Shallow slots news)
    : h.cells = base.cells := by
  have hheld (e : Ptr × ν) (he : e ∈ news) : ∃ e' ∈ news, e.1 ∈ slots e'.2 := by
    have hpos := (hoverlay.new e.1 e.2 he).2.1
    rw [List.count_pos_iff] at hpos
    unfold held at hpos
    rw [List.append_nil] at hpos
    exact List.mem_flatMap.mp hpos
  have hnil : news = [] := by
    apply List.eq_nil_iff_forall_not_mem.mpr
    intro e he
    rcases hheld e he with ⟨e', he', hslot⟩
    rcases hheld e' he' with ⟨e'', he'', hslot'⟩
    rw [hshallow e'' he'' e' he' hslot'] at hslot
    cases hslot
  subst hnil
  funext p
  cases hp : base.cells p with
  | none => exact (hoverlay.gone p hp List.not_mem_nil).1
  | some cell => simp [hoverlay.old p cell hp, held]

end Overlay

variable (slots) in
/-- Added nodes that hold leaves among themselves, and of the nodes before only what these hold. -/
structure Layer (base h : RefHeap ν) (news : List (Ptr × ν)) (temps : List Ptr) : Prop
    extends Overlay slots base h news temps where
  shallow : Shallow slots news
  drawn : ∀ e ∈ news, ∀ q ∈ slots e.2, (base.cells q).isSome →
    ∃ p cell, base.cells p = some cell ∧ q ∈ slots cell.node

namespace Layer

theorem refl (hbase : WellFormed slots base) : Layer slots base base [] [] := by
  exact ⟨.refl hbase, nofun, nofun⟩

theorem perm {temps' : List Ptr} (hlayer : Layer slots base h news temps)
    (htemps : temps.Perm temps')
    : Layer slots base h news temps' := by
  exact ⟨hlayer.toOverlay.perm (.refl _) htemps, hlayer.shallow, hlayer.drawn⟩

theorem subset {h' : RefHeap ν} {news' : List (Ptr × ν)} {temps' : List Ptr}
    (hlayer : Layer slots base h news temps) (hsubset : news' ⊆ news)
    (hoverlay : Overlay slots base h' news' temps')
    : Layer slots base h' news' temps' := by
  refine ⟨hoverlay, ?_, ?_⟩
  . intro e he e' he'
    exact hlayer.shallow e (hsubset he) e' (hsubset he')
  . intro e he
    exact hlayer.drawn e (hsubset he)

theorem trans (hbase : WellFormed slots base) {h' : RefHeap ν} {news' : List (Ptr × ν)}
    {temps' : List Ptr} (hlayer : Layer slots base h news temps)
    (hlayer' : Layer slots h h' news' temps')
    : Layer slots base h' (news' ++ news) (temps' ++ temps) := by
  -- what the added nodes before hold is a leaf among them
  have hdrawn (q : Ptr) (p : Ptr) (cell : RefCell ν) (hcell : h.cells p = some cell)
      (hq : q ∈ slots cell.node)
      : (∃ p cell, base.cells p = some cell ∧ q ∈ slots cell.node) ∨
          ∃ e ∈ news, q ∈ slots e.2 := by
    rcases hlayer.cases p with ⟨bcell, hbcell⟩ | ⟨node, hmem⟩ | ⟨hnone, hmem⟩
    . rw [hlayer.old p bcell hbcell] at hcell
      cases hcell
      exact Or.inl ⟨p, bcell, hbcell, hq⟩
    . rw [(hlayer.new p node hmem).2.2] at hcell
      cases hcell
      exact Or.inr ⟨(p, node), hmem, hq⟩
    . rw [(hlayer.gone p hnone hmem).1] at hcell
      cases hcell
  refine ⟨hlayer.toOverlay.trans hlayer'.toOverlay, ?_, ?_⟩
  . intro e he e' he' hslot
    cases List.mem_append.mp he with
    | inl he =>
      cases List.mem_append.mp he' with
      | inl he' => exact hlayer'.shallow e he e' he' hslot
      | inr he' =>
        rcases hlayer.new e'.1 e'.2 he' with ⟨hnone, _, hcell⟩
        rcases hlayer'.drawn e he e'.1 hslot (by simp [hcell]) with ⟨p, cell, hpcell, hq⟩
        rcases hdrawn e'.1 p cell hpcell hq with ⟨p, bcell, hbcell, hq⟩ | ⟨e, he, hq⟩
        . have := hbase.closed p bcell e'.1 hbcell hq
          rw [hnone] at this
          cases this
        . exact hlayer.shallow e he e' he' hq
    | inr he =>
      cases List.mem_append.mp he' with
      | inl he' =>
        have hlive := hlayer.isSome_of_mem_held (mem_held_of_mem_slots he hslot)
        rw [(hlayer'.new e'.1 e'.2 he').1] at hlive
        cases hlive
      | inr he' => exact hlayer.shallow e he e' he' hslot
  . intro e he q hslot hlive
    cases List.mem_append.mp he with
    | inl he =>
      rcases Option.isSome_iff_exists.mp hlive with ⟨qcell, hqcell⟩
      rcases hlayer'.drawn e he q hslot (by simp [hlayer.old q qcell hqcell])
        with ⟨p, cell, hpcell, hq⟩
      cases hdrawn q p cell hpcell hq with
      | inl hbase => exact hbase
      | inr hnew =>
        rcases hnew with ⟨e', he', hq⟩
        exact hlayer.drawn e' he' q hq hlive
    | inr he => exact hlayer.drawn e he q hslot hlive

theorem putAll (hbase : WellFormed slots base) (hlayer : Layer slots base h news temps)
    : ∃ h', temps.foldlM (RefHeap.put slots) h = .ok h' ∧ h'.cells = base.cells := by
  have hoverlay : Overlay slots base h news (temps ++ []) := by
    rw [List.append_nil]
    exact hlayer.toOverlay
  rcases hoverlay.putAll hbase temps with ⟨h', news', hput, hsubset, hoverlay'⟩
  exact ⟨h', hput, hoverlay'.cells_eq (hlayer.subset hsubset hoverlay').shallow⟩

end Layer

end RefHeap
