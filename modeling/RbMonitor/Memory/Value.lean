import RbMonitor.Memory.Impl
import Mathlib.Tactic.Abel

/-!
This module contains what monitor values and messages occupy, and that they are read, printed and
released as their owner says.
-/

namespace RbMonitor

namespace Mem

open OwnM

/-! ### What a value occupies -/

/-- An element of an array value: nothing, or a scalar. -/
inductive OwnsElm : Option Ptr → Option MonitorValue → Footprint Cell → Prop
  | none : OwnsElm none none 0
  | some (p : Ptr) (v : Value) : OwnsElm (some p) (some (.value v)) {(p, .value v)}

inductive OwnsValue : Ptr → MonitorValue → Footprint Cell → Prop
  | value (p : Ptr) (v : Value) : OwnsValue p (.value v) {(p, .value v)}
  | array (p block : Ptr) {elms : List (Option Ptr)} {so : Option Ptr}
      {children : List (Option MonitorValue)} {splitOpResult : Option MonitorValue}
      {m m' : Footprint Cell} (hchildren : OwnsAll OwnsElm elms children m)
      (hso : OwnsElm so splitOpResult m')
      : OwnsValue p (.array children splitOpResult)
          ({(p, .array children.length so block)} + ({(block, .pointers elms)} + (m + m')))

/-- What a pointer that may be `NULL` owns. -/
inductive OwnsOption : Option Ptr → Option MonitorValue → Footprint Cell → Prop
  | none : OwnsOption none none 0
  | some {p : Ptr} {mv : MonitorValue} {m : Footprint Cell} (h : OwnsValue p mv m)
      : OwnsOption (some p) (some mv) m

/-! ### What can be read -/

inductive ReadsElm (m : Footprint Cell) : Option Ptr → Option MonitorValue → Prop
  | none : ReadsElm m none none
  | some {p : Ptr} {v : Value} (hmem : (p, .value v) ∈ m) : ReadsElm m (some p) (some (.value v))

/-- A value below a pointer, of cells that others may use too. -/
inductive ReadsValue (m : Footprint Cell) : Ptr → MonitorValue → Prop
  | value {p : Ptr} {v : Value} (hmem : (p, .value v) ∈ m) : ReadsValue m p (.value v)
  | array {p : Ptr} (block : Ptr) {elms : List (Option Ptr)} {so : Option Ptr}
      {children : List (Option MonitorValue)} {splitOpResult : Option MonitorValue}
      (hmem : (p, .array children.length so block) ∈ m) (hblock : (block, .pointers elms) ∈ m)
      (hchildren : List.Forall₂ (ReadsElm m) elms children) (hso : ReadsElm m so splitOpResult)
      : ReadsValue m p (.array children splitOpResult)

inductive ReadsOption (m : Footprint Cell) : Option Ptr → Option MonitorValue → Prop
  | none : ReadsOption m none none
  | some {p : Ptr} {mv : MonitorValue} (h : ReadsValue m p mv) : ReadsOption m (some p) (some mv)

theorem OwnsElm.reads {p : Option Ptr} {mv : Option MonitorValue} {m₁ m : Footprint Cell}
    (h : OwnsElm p mv m₁) (hle : m₁ ⊆ m)
    : ReadsElm m p mv := by
  cases h with
  | none => exact .none
  | some p v => exact .some (hle (Multiset.mem_singleton_self _))

theorem forall₂_reads {elms : List (Option Ptr)} {children : List (Option MonitorValue)}
    {m₁ m : Footprint Cell} (h : OwnsAll OwnsElm elms children m₁) (hle : m₁ ⊆ m)
    : List.Forall₂ (ReadsElm m) elms children := by
  induction h with
  | nil => exact .nil
  | cons hhead _ ih =>
    refine .cons (hhead.reads ?_) (ih ?_)
    . exact fun _ hc => hle (Multiset.mem_add.mpr (.inl hc))
    . exact fun _ hc => hle (Multiset.mem_add.mpr (.inr hc))

theorem OwnsValue.reads {p : Ptr} {mv : MonitorValue} {m₁ m : Footprint Cell}
    (h : OwnsValue p mv m₁) (hle : m₁ ⊆ m)
    : ReadsValue m p mv := by
  cases h with
  | value v => exact .value (hle (Multiset.mem_singleton_self _))
  | array block hchildren hso =>
    apply ReadsValue.array block (hle ?_) (hle ?_) (forall₂_reads hchildren ?_) (hso.reads ?_)
    . simp
    . simp
    . exact fun _ hc => hle (by simp [hc])
    . exact fun _ hc => hle (by simp [hc])

theorem OwnsOption.reads {p : Option Ptr} {mv : Option MonitorValue} {m₁ m : Footprint Cell}
    (h : OwnsOption p mv m₁) (hle : m₁ ⊆ m)
    : ReadsOption m p mv := by
  cases h with
  | none => exact .none
  | some h => exact .some (h.reads hle)

section

variable {m m' : Footprint Cell}

theorem ReadsElm.mono {p : Option Ptr} {mv : Option MonitorValue} (h : ReadsElm m p mv)
    (hle : m ⊆ m')
    : ReadsElm m' p mv := by
  cases h with
  | none => exact .none
  | some hmem => exact .some (hle hmem)

theorem ReadsValue.mono {p : Ptr} {mv : MonitorValue} (h : ReadsValue m p mv) (hle : m ⊆ m')
    : ReadsValue m' p mv := by
  cases h with
  | value hmem => exact .value (hle hmem)
  | array block hmem hblock hchildren hso =>
    exact .array block (hle hmem) (hle hblock) (hchildren.imp fun _ _ h => h.mono hle) (hso.mono hle)

theorem ReadsOption.mono {p : Option Ptr} {mv : Option MonitorValue} (h : ReadsOption m p mv)
    (hle : m ⊆ m')
    : ReadsOption m' p mv := by
  cases h with
  | none => exact .none
  | some h => exact .some (h.mono hle)

theorem forall₂_mono {elms : List (Option Ptr)} {values : List (Option MonitorValue)}
    (h : List.Forall₂ (ReadsOption m) elms values) (hle : m ⊆ m')
    : List.Forall₂ (ReadsOption m') elms values :=
  h.imp fun _ _ h => h.mono hle

theorem subset_add (m₁ m : Footprint Cell) : m ⊆ m₁ + m :=
  Multiset.subset_of_le (Multiset.le_add_left m m₁)

end

section

variable {m : Footprint Cell}

theorem triple_isValue {p : Ptr} {mv : MonitorValue} {Q : Bool → Footprint Cell → Prop}
    (h : ReadsValue m p mv) (hQ : Q mv.isValue m)
    : Triple m (isValue p) Q := by
  unfold isValue
  apply triple_bind
  cases h with
  | value hmem => exact triple_read hmem (triple_pure hQ)
  | array _ hmem _ _ _ => exact triple_read hmem (triple_pure hQ)

theorem triple_valueAt {p : Ptr} {v : Value} {Q : Value → Footprint Cell → Prop}
    (hmem : (p, .value v) ∈ m) (hQ : Q v m)
    : Triple m (valueAt p) Q := by
  unfold valueAt
  apply triple_bind
  exact triple_read hmem (triple_pure hQ)

theorem triple_arrayAt {p : Ptr} {n : Nat} {so : Option Ptr} {block : Ptr}
    {Q : Nat × Option Ptr × Ptr → Footprint Cell → Prop} (hmem : (p, .array n so block) ∈ m)
    (hQ : Q (n, so, block) m)
    : Triple m (arrayAt p) Q := by
  unfold arrayAt
  apply triple_bind
  exact triple_read hmem (triple_pure hQ)

theorem triple_pointersAt {block : Ptr} (elms : List (Option Ptr)) {n : Nat}
    {Q : List (Option Ptr) → Footprint Cell → Prop} (hmem : (block, .pointers elms) ∈ m)
    (hlen : elms.length = n) (hQ : Q elms m)
    : Triple m (pointersAt block n) Q := by
  unfold pointersAt
  apply triple_bind
  apply triple_read hmem
  subst hlen
  simp only [lt_self_iff_false, if_false, List.take_length]
  exact triple_pure hQ

theorem triple_setPointer {block : Ptr} {elms : List (Option Ptr)} {i : Nat} {elm : Option Ptr}
    {r : Footprint Cell} {Q : Unit → Footprint Cell → Prop}
    (hm : m = {(block, .pointers elms)} + r) (hi : i < elms.length)
    (hQ : Q () ({(block, .pointers (elms.set i elm))} + r))
    : Triple m (setPointer block i elm) Q := by
  unfold setPointer
  apply triple_bind
  apply triple_read (c := .pointers elms)
  . simp [hm]
  . simp only [hi, if_true]
    exact triple_write hm hQ

theorem triple_setPointer_next {block : Ptr} (done : List (Option Ptr)) (room : Nat)
    {elm : Option Ptr} {r : Footprint Cell} {Q : Unit → Footprint Cell → Prop}
    (hm : m = {(block, .pointers (done ++ List.replicate (room + 1) none))} + r)
    (hQ : Q () ({(block, .pointers (done ++ [elm] ++ List.replicate room none))} + r))
    : Triple m (setPointer block done.length elm) Q := by
  have hset : (done ++ List.replicate (room + 1) none).set done.length elm
      = done ++ [elm] ++ List.replicate room none := by
    simp [List.replicate_succ]
  apply triple_setPointer hm
  . simp
  . rw [hset]
    exact hQ

/-! ### Release -/

theorem rbMonitorValueDone.triple_go_value (fuel : Nat) (p : Ptr) (v : Value)
    : Triple {(p, .value v)} (go (fuel + 1) p) fun _ m' => m' = 0 := by
  unfold go
  apply triple_bind
  apply triple_read (Multiset.mem_singleton_self _)
  exact triple_free (add_zero _).symm rfl

theorem rbMonitorValueDone.triple_go_elm (fuel : Nat) {p : Option Ptr} {mv : Option MonitorValue}
    (h : OwnsElm p mv m)
    : Triple m (ifSome p (go (fuel + 1))) fun _ m' => m' = 0 := by
  cases h with
  | none => exact triple_pure rfl
  | some p v => exact triple_go_value fuel p v

theorem triple_rbMonitorValueDone {p : Ptr} {mv : MonitorValue} (h : OwnsValue p mv m)
    : Triple m (rbMonitorValueDone p) fun _ m' => m' = 0 := by
  unfold rbMonitorValueDone
  apply triple_bind
  apply triple_used
  intro n hn
  cases h with
  | value v =>
    rcases Nat.exists_eq_add_of_le' hn with ⟨fuel, rfl⟩
    simp only [Multiset.card_singleton]
    exact rbMonitorValueDone.triple_go_value fuel p v
  | @array block elms so children splitOpResult m m' hchildren hso =>
    simp only [Multiset.card_add, Multiset.card_singleton] at hn
    have htwo : 2 ≤ n := by omega
    rcases Nat.exists_eq_add_of_le' htwo with ⟨fuel, rfl⟩
    unfold rbMonitorValueDone.go
    apply triple_bind
    apply triple_read (c := .array children.length so block)
    . simp
    apply triple_bind
    apply triple_pointersAt elms
    . simp
    . exact hchildren.length_eq
    apply triple_bind
    apply triple_frame m
      ({(p, .array children.length so block)} + ({(block, .pointers elms)} + m'))
    . abel
    . exact triple_forM (fun p mv m h => rbMonitorValueDone.triple_go_elm fuel h) hchildren
    intro _ m₁ hm₁
    subst hm₁
    rw [zero_add]
    apply triple_bind
    apply triple_frame m' ({(p, .array children.length so block)} + {(block, .pointers elms)})
    . abel
    . exact rbMonitorValueDone.triple_go_elm fuel hso
    intro _ m₁ hm₁
    subst hm₁
    rw [zero_add]
    apply triple_bind
    apply triple_free (a := block) (c := .pointers elms)
    . rw [add_comm]
    . exact triple_free (add_zero _).symm rfl

theorem triple_doneOption {p : Option Ptr} {mv : Option MonitorValue} (h : OwnsOption p mv m)
    : Triple m (ifSome p rbMonitorValueDone) fun _ m' => m' = 0 := by
  cases h with
  | none => exact triple_pure rfl
  | some h => exact triple_rbMonitorValueDone h

end

end Mem

end RbMonitor
