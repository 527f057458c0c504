import Mathlib.Algebra.Order.Group.Multiset
import Mathlib.Data.Multiset.Range
import RbMonitor.Lib.RunLog

/-!
This module contains memory that is allocated and freed, and what a program owns of it: triples that
leave everything else as it is.
-/

/-- The cells that are allocated. An address that was given out once is not given out again. -/
structure OwnHeap (α : Type) where
  cells : Nat → Option α
  next : Nat
  cells_next : ∀ a, next ≤ a → cells a = none

/-- A use of memory that is not allocated, or another fault. -/
inductive MemFault (ε : Type) where
  | dangling
  | other (e : ε)
deriving DecidableEq, Repr

/-- The cells that a program owns, with their addresses. -/
abbrev Footprint (α : Type) := Multiset (Nat × α)

abbrev OwnM (α ε β : Type) := StateT (OwnHeap α) (Except (MemFault ε)) β

namespace OwnHeap

variable {α : Type}

def empty : OwnHeap α where
  cells _ := none
  next := 0
  cells_next _ _ := rfl

def add (h : OwnHeap α) (c : α) : OwnHeap α where
  cells := Function.update h.cells h.next (some c)
  next := h.next + 1
  cells_next a ha := by
    rw [Function.update_of_ne (by omega)]
    exact h.cells_next a (by omega)

theorem lt_next {h : OwnHeap α} {a : Nat} {c : α} (hc : h.cells a = some c) : a < h.next := by
  apply Classical.byContradiction
  intro hle
  rw [h.cells_next a (by omega)] at hc
  cases hc

def set (h : OwnHeap α) (a : Nat) (c : α) (hlive : (h.cells a).isSome) : OwnHeap α where
  cells := Function.update h.cells a (some c)
  next := h.next
  cells_next b hb := by
    rcases Option.isSome_iff_exists.mp hlive with ⟨_, hc⟩
    have := lt_next hc
    rw [Function.update_of_ne (by omega)]
    exact h.cells_next b hb

def remove (h : OwnHeap α) (a : Nat) : OwnHeap α where
  cells := Function.update h.cells a none
  next := h.next
  cells_next b hb := by
    rw [Function.update_apply]
    split
    . rfl
    . exact h.cells_next b hb

theorem cells_add (h : OwnHeap α) (c : α) (a : Nat)
    : (h.add c).cells a = if a = h.next then some c else h.cells a :=
  Function.update_apply ..

theorem cells_set (h : OwnHeap α) (a : Nat) (c : α) (hlive : (h.cells a).isSome) (b : Nat)
    : (h.set a c hlive).cells b = if b = a then some c else h.cells b :=
  Function.update_apply ..

theorem cells_remove (h : OwnHeap α) (a b : Nat)
    : (h.remove a).cells b = if b = a then none else h.cells b :=
  Function.update_apply ..

/-- The footprint is all of the memory. -/
structure Owns (h : OwnHeap α) (m : Footprint α) : Prop where
  nodup : (m.map Prod.fst).Nodup
  mem_iff : ∀ a c, h.cells a = some c ↔ (a, c) ∈ m

theorem owns_empty : (empty : OwnHeap α).Owns 0 where
  nodup := by simp
  mem_iff a c := by simp [empty]

theorem Owns.cells_eq {h h' : OwnHeap α} {m : Footprint α} (hown : h.Owns m) (hown' : h'.Owns m)
    : h'.cells = h.cells := by
  funext a
  apply Option.ext
  intro c
  rw [hown.mem_iff, hown'.mem_iff]

theorem exists_owns (h : OwnHeap α) : ∃ m, h.Owns m := by
  let cells := (List.range h.next).filterMap fun a => (h.cells a).map (a, ·)
  have hfst (a b : Nat) (c : α) : (h.cells a).map (a, ·) = some (b, c) ↔ a = b ∧ h.cells b = some c := by
    simp only [Option.map_eq_some_iff, Prod.mk.injEq]
    grind
  refine ⟨cells, ?_, ?_⟩
  . have hpair : cells.Pairwise fun p q => p.1 ≠ q.1 := by
      rw [List.pairwise_filterMap]
      apply List.nodup_range.imp
      intro a b hne p hp q hq
      rw [← ((hfst a p.1 p.2).mp hp).1, ← ((hfst b q.1 q.2).mp hq).1]
      exact hne
    rw [Multiset.map_coe, Multiset.coe_nodup]
    exact List.pairwise_map.mpr hpair
  . intro a c
    rw [Multiset.mem_coe, List.mem_filterMap]
    constructor
    . intro hc
      exact ⟨a, List.mem_range.mpr (lt_next hc), (hfst a a c).mpr ⟨rfl, hc⟩⟩
    . intro hex
      rcases hex with ⟨b, _, hb⟩
      exact ((hfst b a c).mp hb).2

theorem Owns.card_le_next {h : OwnHeap α} {m : Footprint α} (hown : h.Owns m) : m.card ≤ h.next := by
  have hle : m.map Prod.fst ≤ Multiset.range h.next := by
    rw [Multiset.le_iff_subset hown.nodup]
    intro a ha
    rcases Multiset.mem_map.mp ha with ⟨⟨_, c⟩, hc, rfl⟩
    rw [Multiset.mem_range]
    exact lt_next ((hown.mem_iff _ c).mpr hc)
  simpa using Multiset.card_le_card hle

theorem Owns.add {h : OwnHeap α} {m : Footprint α} (hown : h.Owns m) (c : α)
    : (h.add c).Owns ((h.next, c) ::ₘ m) where
  nodup := by
    rw [Multiset.map_cons, Multiset.nodup_cons]
    refine ⟨?_, hown.nodup⟩
    intro hmem
    rcases Multiset.mem_map.mp hmem with ⟨⟨a, d⟩, hd, ha⟩
    have := lt_next ((hown.mem_iff a d).mpr hd)
    simp only at ha
    omega
  mem_iff a d := by
    rw [cells_add]
    split
    . next heq =>
      subst heq
      have hfree : (h.next, d) ∉ m := by
        intro hmem
        have := lt_next ((hown.mem_iff _ d).mpr hmem)
        omega
      simp [hfree, eq_comm]
    . next hne =>
      simp [hne, hown.mem_iff]

section

variable {h : OwnHeap α} {m : Footprint α} {a : Nat} {c : α}

theorem Owns.not_mem_of_cons (hown : h.Owns ((a, c) ::ₘ m)) (d : α) : (a, d) ∉ m := by
  have hnodup := hown.nodup
  rw [Multiset.map_cons, Multiset.nodup_cons] at hnodup
  intro hmem
  exact hnodup.1 (Multiset.mem_map.mpr ⟨(a, d), hmem, rfl⟩)

theorem Owns.set (hown : h.Owns ((a, c) ::ₘ m)) (d : α) (hlive : (h.cells a).isSome)
    : (h.set a d hlive).Owns ((a, d) ::ₘ m) where
  nodup := by simpa using hown.nodup
  mem_iff b e := by
    rw [cells_set]
    split
    . next heq =>
      subst heq
      simp [hown.not_mem_of_cons, eq_comm]
    . next hne => simp [hown.mem_iff, hne]

theorem Owns.remove (hown : h.Owns ((a, c) ::ₘ m)) : (h.remove a).Owns m where
  nodup := by
    have hnodup := hown.nodup
    rw [Multiset.map_cons, Multiset.nodup_cons] at hnodup
    exact hnodup.2
  mem_iff b e := by
    rw [cells_remove]
    split
    . next heq =>
      subst heq
      simp [hown.not_mem_of_cons]
    . next hne => simp [hown.mem_iff, hne]

theorem Owns.cells_eq_some (hown : h.Owns m) (hmem : (a, c) ∈ m) : h.cells a = some c :=
  (hown.mem_iff a c).mpr hmem

end

end OwnHeap

namespace OwnM

variable {α ε β γ : Type}

def alloc (c : α) : OwnM α ε Nat := fun h => .ok (h.next, h.add c)

def read (a : Nat) : OwnM α ε α := fun h =>
  match h.cells a with
  | none => .error .dangling
  | some c => .ok (c, h)

def write (a : Nat) (c : α) : OwnM α ε Unit := fun h =>
  if hlive : (h.cells a).isSome then .ok ((), h.set a c hlive) else .error .dangling

def free (a : Nat) : OwnM α ε Unit := fun h =>
  if (h.cells a).isSome then .ok ((), h.remove a) else .error .dangling

/-- A computation that does not use the memory. -/
def ofExcept (x : Except ε β) : OwnM α ε β := fun h =>
  match x with
  | .error e => .error (.other e)
  | .ok b => .ok (b, h)

def fail (e : ε) : OwnM α ε β := fun _ => .error (.other e)

/-- The number of addresses that were given out. -/
def used : OwnM α ε Nat := fun h => .ok (h.next, h)

/-- From a memory with the footprint `m` and anything else, the program ends without a fault, with a
result and a footprint in `Q`, and everything else as it was. -/
def Triple (m : Footprint α) (prog : OwnM α ε β) (Q : β → Footprint α → Prop) : Prop :=
  ∀ frame h, h.Owns (m + frame) → ∃ b h' m', prog h = .ok (b, h') ∧ h'.Owns (m' + frame) ∧ Q b m'

variable {m m' r : Footprint α} {prog : OwnM α ε β} {Q R : β → Footprint α → Prop}

theorem Triple.consequence (htriple : Triple m prog R) (hQ : ∀ b m', R b m' → Q b m')
    : Triple m prog Q := by
  intro frame h hown
  rcases htriple frame h hown with ⟨b, h', m', hrun, hown', hR⟩
  exact ⟨b, h', m', hrun, hown', hQ b m' hR⟩

theorem Triple.exists_run {Q : β → Prop} (htriple : Triple 0 prog fun b m' => Q b ∧ m' = 0)
    (h : OwnHeap α)
    : ∃ b h', prog h = .ok (b, h') ∧ h'.cells = h.cells ∧ Q b := by
  rcases h.exists_owns with ⟨frame, hown⟩
  rcases htriple frame h (by rwa [zero_add]) with ⟨b, h', m', hrun, hown', hQ, rfl⟩
  rw [zero_add] at hown'
  exact ⟨b, h', hrun, hown.cells_eq hown', hQ⟩

theorem triple_pure {b : β} (hQ : Q b m) : Triple m (pure b : OwnM α ε β) Q := by
  intro frame h hown
  exact ⟨b, h, m, rfl, hown, hQ⟩

theorem triple_ofExcept {x : Except ε β} {b : β} (hx : x = .ok b) (hQ : Q b m)
    : Triple m (ofExcept x : OwnM α ε β) Q := by
  intro frame h hown
  subst hx
  exact ⟨b, h, m, rfl, hown, hQ⟩

theorem triple_bind {f : β → OwnM α ε γ} {S : γ → Footprint α → Prop}
    (hfirst : Triple m prog fun b m' => Triple m' (f b) S)
    : Triple m (prog >>= f) S := by
  intro frame h hown
  rcases hfirst frame h hown with ⟨b, h₁, m₁, hrun₁, hown₁, hnext⟩
  rcases hnext frame h₁ hown₁ with ⟨c, h₂, m₂, hrun₂, hown₂, hS⟩
  refine ⟨c, h₂, m₂, ?_, hown₂, hS⟩
  simp [Bind.bind, StateT.bind, hrun₁, Except.bind, hrun₂]

theorem triple_map {f : β → γ} {S : γ → Footprint α → Prop}
    (hprog : Triple m prog fun b m' => S (f b) m')
    : Triple m (f <$> prog) S := by
  rw [map_eq_pure_bind]
  apply triple_bind
  exact hprog.consequence fun b m' h => triple_pure h

theorem Triple.frame (htriple : Triple m prog Q) (r : Footprint α)
    : Triple (m + r) prog fun b m' => ∃ m₁, m' = m₁ + r ∧ Q b m₁ := by
  intro frame h hown
  rw [add_assoc] at hown
  rcases htriple (r + frame) h hown with ⟨b, h', m', hrun, hown', hQ⟩
  rw [← add_assoc] at hown'
  exact ⟨b, h', m' + r, hrun, hown', m', rfl, hQ⟩

theorem triple_frame (m' r : Footprint α) (hm : m = m' + r)
    (hprog : Triple m' prog R) (hQ : ∀ b m₁, R b m₁ → Q b (m₁ + r))
    : Triple m prog Q := by
  rw [hm]
  apply (hprog.frame r).consequence
  intro b m₂ hex
  rcases hex with ⟨m₁, rfl, hR⟩
  exact hQ b m₁ hR

theorem triple_alloc {c : α} {Q : Nat → Footprint α → Prop} (hQ : ∀ a, Q a ({(a, c)} + m))
    : Triple m (alloc c : OwnM α ε Nat) Q := by
  intro frame h hown
  have hadd := hown.add c
  rw [← Multiset.cons_add, ← Multiset.singleton_add] at hadd
  exact ⟨h.next, h.add c, _, rfl, hadd, hQ h.next⟩

theorem triple_read {a : Nat} {c : α} {Q : α → Footprint α → Prop} (hmem : (a, c) ∈ m) (hQ : Q c m)
    : Triple m (read a : OwnM α ε α) Q := by
  intro frame h hown
  have hc := hown.cells_eq_some (Multiset.mem_add.mpr (.inl hmem))
  exact ⟨c, h, m, by simp [read, hc], hown, hQ⟩

theorem triple_write {a : Nat} {c d : α} {Q : Unit → Footprint α → Prop} (hm : m = {(a, c)} + r)
    (hQ : Q () ({(a, d)} + r))
    : Triple m (write a d : OwnM α ε Unit) Q := by
  intro frame h hown
  rw [hm, Multiset.singleton_add, Multiset.cons_add] at hown
  have hlive : (h.cells a).isSome := by
    rw [hown.cells_eq_some (Multiset.mem_cons_self _ _)]
    rfl
  have hset := hown.set d hlive
  rw [← Multiset.cons_add, ← Multiset.singleton_add] at hset
  exact ⟨(), h.set a d hlive, _, by simp [write, hlive], hset, hQ⟩

theorem triple_free {a : Nat} {c : α} {Q : Unit → Footprint α → Prop} (hm : m = {(a, c)} + r)
    (hQ : Q () r)
    : Triple m (free a : OwnM α ε Unit) Q := by
  intro frame h hown
  rw [hm, Multiset.singleton_add, Multiset.cons_add] at hown
  have hlive : (h.cells a).isSome := by
    rw [hown.cells_eq_some (Multiset.mem_cons_self _ _)]
    rfl
  exact ⟨(), h.remove a, r, by simp [free, hlive], hown.remove, hQ⟩

theorem triple_used {Q : Nat → Footprint α → Prop} (hQ : ∀ n, m.card ≤ n → Q n m)
    : Triple m (used : OwnM α ε Nat) Q := by
  intro frame h hown
  have hcard := hown.card_le_next
  rw [Multiset.card_add] at hcard
  exact ⟨h.next, h, m, rfl, hown, hQ h.next (by omega)⟩

end OwnM

/-! ### Lists of owners -/

/-- The elements of two lists are related pairwise, each pair with a footprint of its own. -/
inductive OwnsAll {α β γ : Type} (R : β → γ → Footprint α → Prop)
    : List β → List γ → Footprint α → Prop
  | nil : OwnsAll R [] [] 0
  | cons {p : β} {x : γ} {m m' : Footprint α} {ps : List β} {xs : List γ} (hhead : R p x m)
      (htail : OwnsAll R ps xs m')
      : OwnsAll R (p :: ps) (x :: xs) (m + m')

namespace OwnsAll

variable {α β γ : Type} {R : β → γ → Footprint α → Prop} {ps ps' : List β} {xs xs' : List γ}
variable {m m' : Footprint α}

theorem length_eq (h : OwnsAll R ps xs m) : ps.length = xs.length := by
  induction h with
  | nil => rfl
  | cons _ _ ih => simp [ih]

theorem append (h : OwnsAll R ps xs m) (h' : OwnsAll R ps' xs' m')
    : OwnsAll R (ps ++ ps') (xs ++ xs') (m + m') := by
  induction h with
  | nil => simpa using h'
  | cons hhead _ ih =>
    rw [List.cons_append, List.cons_append, add_assoc]
    exact .cons hhead ih

theorem focus (h : OwnsAll R ps xs m) {i : Nat} {x : γ} (hi : xs[i]? = some x)
    : ∃ p m₁ m₂, ps[i]? = some p ∧ m = m₁ + m₂ ∧ R p x m₁
      ∧ ∀ p' x' m', R p' x' m' → OwnsAll R (ps.set i p') (xs.set i x') (m' + m₂) := by
  induction h generalizing i with
  | nil => cases hi
  | @cons p y m m' ps xs hhead htail ih =>
    cases i with
    | zero =>
      simp only [List.getElem?_cons_zero, Option.some.injEq] at hi
      subst hi
      exact ⟨p, m, m', rfl, rfl, hhead, fun p' x' m'' h => .cons h htail⟩
    | succ i =>
      rcases ih (by simpa using hi) with ⟨q, m₁, m₂, hq, rfl, hR, hset⟩
      refine ⟨q, m₁, m + m₂, by simpa using hq, by rw [add_left_comm], hR, ?_⟩
      intro p' x' m'' h
      rw [add_left_comm]
      exact .cons hhead (hset p' x' m'' h)

theorem replicate {p : β} {x : γ} (h : R p x 0) (n : Nat)
    : OwnsAll R (List.replicate n p) (List.replicate n x) 0 := by
  induction n with
  | zero => exact .nil
  | succ n ih => exact .cons h ih

end OwnsAll

namespace OwnM

variable {α ε ι κ : Type} {m : Footprint α}

theorem triple_forM {f : ι → OwnM α ε Unit} {R : ι → κ → Footprint α → Prop}
    (hf : ∀ i x m, R i x m → Triple m (f i) fun _ m' => m' = 0) {is : List ι} {xs : List κ}
    (h : OwnsAll R is xs m)
    : Triple m (is.forM f) fun _ m' => m' = 0 := by
  induction h with
  | nil => exact triple_pure rfl
  | @cons i x m m' is xs hhead _ ih =>
    apply triple_bind
    apply triple_frame m m' rfl (hf i x m hhead)
    intro _ m₁ hm₁
    rw [hm₁, zero_add]
    exact ih

theorem triple_mapM {σ δ ω ω' : Type} {step : σ → ι → Except δ (σ × ω)} {f : ι → OwnM α ε ω'}
    (Inv : σ → Footprint α → Prop) (g : ω → ω')
    (hf : ∀ s i s' o m, step s i = .ok (s', o) → Inv s m →
      Triple m (f i) fun o' m' => o' = g o ∧ Inv s' m')
    {s s' : σ} {is : List ι} {os : List ω} (h : runLog step s is = .ok (s', os)) (hs : Inv s m)
    : Triple m (is.mapM f) fun os' m' => os' = os.map g ∧ Inv s' m' := by
  induction is generalizing s os m with
  | nil =>
    simp only [runLog_nil, Except.ok.injEq, Prod.mk.injEq] at h
    rcases h with ⟨rfl, rfl⟩
    exact triple_pure ⟨rfl, hs⟩
  | cons i is ih =>
    rcases runLog_cons_eq_ok.mp h with ⟨s₁, o, os', hi, his, rfl⟩
    rw [List.mapM_cons]
    apply triple_bind
    apply (hf s i s₁ o m hi hs).consequence
    intro o' m₁ hfirst
    rcases hfirst with ⟨rfl, hs₁⟩
    apply triple_bind
    apply (ih his hs₁).consequence
    intro os'' m₂ hrest
    rcases hrest with ⟨rfl, hs₂⟩
    exact triple_pure ⟨rfl, hs₂⟩

end OwnM
