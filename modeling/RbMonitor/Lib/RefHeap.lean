import Mathlib.Logic.Function.Basic

/-!
This module contains heaps of reference counted nodes. A node owns one reference for each of its
slots; when its own count comes to zero it is freed and gives these back.
-/

abbrev Ptr := Nat

structure RefCell (ν : Type) where
  refs : Nat
  node : ν

structure RefHeap (ν : Type) where
  cells : Ptr → Option (RefCell ν)
  /-- Where the next node comes to lie. -/
  next : Ptr

namespace RefHeap

inductive Fault where
  | nullPointer
  -- a node of another kind is asked for
  | badNode
  -- a node that was freed is used
  | released
  | divergence
deriving DecidableEq

variable {ν : Type}

def empty : RefHeap ν :=
  ⟨fun _ => none, 0⟩

def set (h : RefHeap ν) (p : Ptr) (cell : Option (RefCell ν)) : RefHeap ν :=
  { h with cells := Function.update h.cells p cell }

def refs (h : RefHeap ν) (p : Ptr) : Nat :=
  (h.cells p).elim 0 RefCell.refs

def node? (h : RefHeap ν) (p : Ptr) : Option ν :=
  (h.cells p).map RefCell.node

def alloc (h : RefHeap ν) (node : ν) : Ptr × RefHeap ν :=
  (h.next, { h.set h.next (some ⟨1, node⟩) with next := h.next + 1 })

def read (h : RefHeap ν) (p : Ptr) : Except Fault ν :=
  match h.cells p with
  | none => .error .released
  | some cell => .ok cell.node

def write (h : RefHeap ν) (p : Ptr) (node : ν) : Except Fault (RefHeap ν) :=
  match h.cells p with
  | none => .error .released
  | some cell => .ok (h.set p (some { cell with node }))

def get (h : RefHeap ν) (p : Ptr) : Except Fault (RefHeap ν) :=
  match h.cells p with
  | none => .error .released
  | some cell => .ok (h.set p (some { cell with refs := cell.refs + 1 }))

variable (slots : ν → List Ptr)

/-- One reference is given back, and those of the node if it was the last one. -/
def release (fuel : Nat) (h : RefHeap ν) (p : Ptr) : Except Fault (RefHeap ν) :=
  match fuel with
  | 0 => .error .divergence
  | fuel + 1 =>
    match h.cells p with
    | none => .error .released
    | some cell =>
      if 1 < cell.refs then
        .ok (h.set p (some { cell with refs := cell.refs - 1 }))
      else
        (slots cell.node).foldlM (release fuel) (h.set p none)

/-- Every node that is freed takes the calls one deeper. -/
def put (h : RefHeap ν) (p : Ptr) : Except Fault (RefHeap ν) :=
  release slots (h.next + 1) h p

/-- No node beyond the end, none without a reference, and no reference to a freed one. -/
structure WellFormed (h : RefHeap ν) : Prop where
  fresh : ∀ p, h.next ≤ p → h.cells p = none
  pos : ∀ p cell, h.cells p = some cell → 0 < cell.refs
  closed : ∀ p cell q, h.cells p = some cell → q ∈ slots cell.node → (h.cells q).isSome

/-- What is left of a heap after references were given back. -/
structure Shrinks (h h' : RefHeap ν) : Prop where
  next : h'.next = h.next
  cells : ∀ p cell', h'.cells p = some cell' →
    ∃ cell, h.cells p = some cell ∧ cell'.node = cell.node ∧ cell'.refs ≤ cell.refs

theorem wellFormed_empty : WellFormed slots (empty : RefHeap ν) := by
  constructor
  . intro p _
    rfl
  . intro p cell hcell
    exact absurd hcell (Option.some_ne_none cell).symm
  . intro p cell q hcell _
    exact absurd hcell (Option.some_ne_none cell).symm

variable {slots}

theorem Shrinks.refl (h : RefHeap ν) : Shrinks h h :=
  ⟨rfl, fun _ cell hcell => ⟨cell, hcell, rfl, Nat.le_refl _⟩⟩

theorem Shrinks.trans {h h' h'' : RefHeap ν} (h₁ : Shrinks h h') (h₂ : Shrinks h' h'')
    : Shrinks h h'' := by
  refine ⟨h₂.next.trans h₁.next, ?_⟩
  intro p cell'' hcell''
  rcases h₂.cells p cell'' hcell'' with ⟨cell', hcell', hnode', hrefs'⟩
  rcases h₁.cells p cell' hcell' with ⟨cell, hcell, hnode, hrefs⟩
  exact ⟨cell, hcell, hnode'.trans hnode, Nat.le_trans hrefs' hrefs⟩

theorem Shrinks.refs_le {h h' : RefHeap ν} (hshrinks : Shrinks h h') (p : Ptr)
    : h'.refs p ≤ h.refs p := by
  unfold refs
  cases hcell' : h'.cells p with
  | none => exact Nat.zero_le _
  | some cell' =>
    rcases hshrinks.cells p cell' hcell' with ⟨cell, hcell, _, hrefs⟩
    rw [hcell]
    exact hrefs

@[simp]
theorem cells_set (h : RefHeap ν) (p : Ptr) (cell : Option (RefCell ν)) (q : Ptr)
    : (h.set p cell).cells q = if q = p then cell else h.cells q := by
  simp [set, Function.update_apply]

@[simp]
theorem next_set (h : RefHeap ν) (p : Ptr) (cell : Option (RefCell ν))
    : (h.set p cell).next = h.next := rfl

theorem next_get {h h' : RefHeap ν} {p : Ptr} (hget : h.get p = .ok h') : h'.next = h.next := by
  unfold get at hget
  split at hget
  . cases hget
  . cases hget
    rfl

theorem next_write {h h' : RefHeap ν} {p : Ptr} {node : ν} (hwrite : h.write p node = .ok h')
    : h'.next = h.next := by
  unfold write at hwrite
  split at hwrite
  . cases hwrite
  . cases hwrite
    rfl

theorem refs_alloc {h : RefHeap ν} {p : Ptr} (hp : p < h.next) (node : ν)
    : (h.alloc node).2.refs p = h.refs p := by
  have hcells : (h.alloc node).2.cells p = if p = h.next then some ⟨1, node⟩ else h.cells p :=
    cells_set h _ _ p
  unfold refs
  rw [hcells, if_neg (Nat.ne_of_lt hp)]

theorem refs_write {h h' : RefHeap ν} {o : Ptr} {node : ν} (hwrite : h.write o node = .ok h')
    (p : Ptr)
    : h'.refs p = h.refs p := by
  unfold write at hwrite
  split at hwrite
  . cases hwrite
  . next cell hcell =>
    cases hwrite
    unfold refs
    rw [cells_set]
    split
    . next hp =>
      rw [hp, hcell]
      rfl
    . rfl

theorem shrinks_free (h : RefHeap ν) (p : Ptr) : Shrinks h (h.set p none) := by
  refine ⟨rfl, ?_⟩
  intro q cell' hcell'
  rw [cells_set] at hcell'
  split at hcell'
  . cases hcell'
  . exact ⟨cell', hcell', rfl, Nat.le_refl _⟩

theorem shrinks_decrement {h : RefHeap ν} {p : Ptr} {cell : RefCell ν}
    (hcell : h.cells p = some cell)
    : Shrinks h (h.set p (some { cell with refs := cell.refs - 1 })) := by
  refine ⟨rfl, ?_⟩
  intro q cell' hcell'
  rw [cells_set] at hcell'
  split at hcell'
  . next hq =>
    cases hcell'
    exact ⟨cell, hq ▸ hcell, rfl, Nat.sub_le _ 1⟩
  . exact ⟨cell', hcell', rfl, Nat.le_refl _⟩

theorem shrinks_foldlM {f : RefHeap ν → Ptr → Except Fault (RefHeap ν)}
    (hf : ∀ h p h', f h p = .ok h' → Shrinks h h') {ps : List Ptr} {h h' : RefHeap ν}
    (hfold : ps.foldlM f h = .ok h')
    : Shrinks h h' := by
  induction ps generalizing h with
  | nil =>
    cases hfold
    exact .refl _
  | cons p ps ih =>
    rw [List.foldlM_cons] at hfold
    cases hp : f h p with
    | error e =>
      rw [hp] at hfold
      cases hfold
    | ok h₁ =>
      rw [hp] at hfold
      exact (hf h p h₁ hp).trans (ih hfold)

theorem shrinks_release {fuel : Nat} {h h' : RefHeap ν} {p : Ptr}
    (hrelease : release slots fuel h p = .ok h')
    : Shrinks h h' := by
  induction fuel generalizing h h' p with
  | zero => cases hrelease
  | succ fuel ih =>
    unfold release at hrelease
    split at hrelease
    . cases hrelease
    . next cell hcell =>
      split at hrelease
      . cases hrelease
        exact shrinks_decrement hcell
      . exact (shrinks_free _ p).trans (shrinks_foldlM (fun _ _ _ => ih) hrelease)

theorem shrinks_put {h h' : RefHeap ν} {p : Ptr} (hput : put slots h p = .ok h') : Shrinks h h' :=
  shrinks_release hput

theorem refs_put_lt {h h' : RefHeap ν} {p : Ptr} (hpos : 0 < h.refs p)
    (hput : put slots h p = .ok h')
    : h'.refs p < h.refs p := by
  unfold put release at hput
  split at hput
  . cases hput
  . next cell hcell =>
    have hrefs : h.refs p = cell.refs := by simp [refs, hcell]
    split at hput
    . cases hput
      simp only [refs, cells_set, if_true, Option.elim_some] at hpos ⊢
      rw [hcell] at hpos ⊢
      simp only [Option.elim_some] at hpos ⊢
      omega
    . have hle := (shrinks_foldlM (fun _ _ _ => shrinks_release) hput).refs_le p
      have hzero : (h.set p none).refs p = 0 := by simp [refs]
      omega

end RefHeap
