import RbMonitor.Memory.Value

/-!
This module contains what a monitor allocates: the value that it yields, and nothing else that stays.
-/

namespace RbMonitor

namespace Mem

open OwnM

/-! ### External monitors -/

theorem triple_processNovectorMonitor (value : Binary64) (now : Int)
    : Triple 0 (processNovectorMonitor value now) fun p m =>
        OwnsValue p (RbMonitor.processNovectorMonitor value now) m := by
  unfold processNovectorMonitor
  apply triple_alloc
  intro p
  rw [add_zero]
  exact .value ..

theorem triple_splitOp (splitop : Option CStr) (sum : Binary64) (count : Nat) (now : Int)
    : Triple 0 (splitOp splitop sum count now) fun p m =>
        OwnsElm p (RbMonitor.splitOp splitop sum count now) m := by
  unfold splitOp RbMonitor.splitOp
  split
  . exact triple_pure .none
  . split
    . exact triple_pure .none
    . apply triple_bind
      apply triple_alloc
      intro p
      apply triple_pure
      rw [add_zero]
      exact .some ..

namespace processVectorMonitor

/-- Nothing was stored from position `count` on. -/
def Unset (children : List (Option MonitorValue)) (count : Nat) : Prop :=
  ∀ j mv, count ≤ j → children[j]? ≠ some (some mv)

theorem unset_element {monitor : Monitor} {splittok tok : CStr} {now : Int} {count : Nat}
    {acc acc' : RbMonitor.processVectorMonitor.Acc} (hunset : Unset acc.children count)
    (h : RbMonitor.processVectorMonitor.element monitor splittok now tok count acc = .ok acc')
    : Unset acc'.children (count + 1) := by
  have hkeep : Unset acc.children (count + 1) := fun j mv hj => hunset j mv (by omega)
  simp only [RbMonitor.processVectorMonitor.element] at h
  generalize (if monitor.timestampGiven then some DEFAULT_TIMESTAMP_SEP else none) = sep at h
  split at h
  . simp only [Except.ok.injEq] at h
    exact h ▸ hkeep
  . split at h
    . simp only [Except.ok.injEq] at h
      exact h ▸ hkeep
    . split at h
      . simp only [Except.ok.injEq] at h
        subst h
        intro j mv hj
        rw [List.getElem?_set_ne (by omega)]
        exact hkeep j mv hj
      . cases h

section

variable {monitor : Monitor} {splittok : CStr} {now : Int} {block : Ptr} {size : Nat}
variable {acc acc' : RbMonitor.processVectorMonitor.Acc} {count : Nat}

/-- What the loop over the fields owns: the block, and the children that are in it. -/
def OwnsAcc (block : Ptr) (size : Nat) (acc : RbMonitor.processVectorMonitor.Acc) (mem : Acc)
    (m : Footprint Cell) : Prop :=
  mem = { sum := acc.sum, meanCount := acc.meanCount } ∧ acc.children.length = size
    ∧ ∃ elms m₁, OwnsAll OwnsElm elms acc.children m₁ ∧ m = {(block, .pointers elms)} + m₁

theorem triple_element {mem : Acc} {m : Footprint Cell} (hown : OwnsAcc block size acc mem m)
    (hunset : Unset acc.children count) {tok : CStr}
    (h : RbMonitor.processVectorMonitor.element monitor splittok now tok count acc = .ok acc')
    : Triple m (element monitor splittok now block tok count mem) (OwnsAcc block size acc') := by
  simp only [RbMonitor.processVectorMonitor.element] at h
  simp only [element]
  generalize (if monitor.timestampGiven then some DEFAULT_TIMESTAMP_SEP else none) = sep at h ⊢
  split at h
  . next htok =>
    simp only [Except.ok.injEq] at h
    rw [if_pos htok]
    exact triple_pure (h ▸ hown)
  . next htok =>
    rw [if_neg htok]
    cases hv : extractVectorValue tok splittok sep with
    | none =>
      simp only [hv, Except.ok.injEq] at h ⊢
      exact triple_pure (h ▸ hown)
    | some v =>
      simp only [hv] at h ⊢
      split at h
      . next hlt =>
        simp only [Except.ok.injEq] at h
        rcases hown with ⟨rfl, hsize, elms, m₁, hall, rfl⟩
        have hnone : acc.children[count]? = some none := by
          rw [List.getElem?_eq_getElem hlt]
          cases hc : acc.children[count] with
          | none => rfl
          | some mv => exact absurd (by rw [List.getElem?_eq_getElem hlt, hc]) (hunset count mv (by omega))
        rcases hall.focus hnone with ⟨p, m₂, m₃, _, rfl, helm, hset⟩
        cases helm
        apply triple_bind
        apply triple_alloc
        intro child
        apply triple_bind
        apply triple_setPointer (r := {(child, .value _)} + (0 + m₃))
        . abel
        . rw [hall.length_eq]
          exact hlt
        apply triple_pure
        subst h
        refine ⟨rfl, by simpa using hsize, _, _, hset _ _ _ (.some child _), ?_⟩
        rw [zero_add]
      . cases h

theorem triple_loop {fuel : Nat} {tok : Option CStr} {mem : Acc} {m : Footprint Cell}
    (hown : OwnsAcc block size acc mem m) (hunset : Unset acc.children count)
    (h : RbMonitor.processVectorMonitor.loop monitor splittok now fuel tok count acc = .ok acc')
    : Triple m (loop monitor splittok now block fuel tok count mem) (OwnsAcc block size acc') := by
  induction fuel generalizing tok count acc mem m with
  | zero =>
    cases tok with
    | none =>
      simp only [RbMonitor.processVectorMonitor.loop, Except.ok.injEq] at h
      exact triple_pure (h ▸ hown)
    | some tok => cases h
  | succ fuel ih =>
    cases tok with
    | none =>
      simp only [RbMonitor.processVectorMonitor.loop, Except.ok.injEq] at h
      exact triple_pure (h ▸ hown)
    | some tok =>
      simp only [RbMonitor.processVectorMonitor.loop, CM.bind_eq_ok] at h
      rcases h with ⟨acc₁, helement, hloop⟩
      unfold loop
      apply triple_bind
      apply (triple_element hown hunset helement).consequence
      intro mem₁ m₁ hown₁
      exact ih hown₁ (unset_element hunset helement) hloop

end

end processVectorMonitor

theorem triple_processVectorMonitor {monitor : Monitor} {splittok valueBuf : CStr} {now : Int}
    {mv : MonitorValue} (h : RbMonitor.processVectorMonitor monitor splittok valueBuf now = .ok mv)
    : Triple 0 (processVectorMonitor monitor splittok valueBuf now) fun p m => OwnsValue p mv m := by
  simp only [RbMonitor.processVectorMonitor, CM.bind_eq_ok, CM.pure_eq_ok] at h
  rcases h with ⟨nChildren, hn, acc, hloop, rfl⟩
  unfold processVectorMonitor
  apply triple_bind
  apply triple_ofExcept hn
  apply triple_bind
  apply triple_alloc
  intro block
  apply triple_bind
  have hstart : processVectorMonitor.OwnsAcc block nChildren
      { children := List.replicate nChildren none } {}
      ({(block, .pointers (List.replicate nChildren none))} + 0) :=
    ⟨rfl, List.length_replicate, _, 0, OwnsAll.replicate .none nChildren, rfl⟩
  have hunset : processVectorMonitor.Unset (List.replicate nChildren none) 0 := by
    intro j mv _ hj
    simp [List.getElem?_replicate] at hj
  apply (processVectorMonitor.triple_loop hstart hunset hloop).consequence
  intro mem m hown
  rcases hown with ⟨rfl, hsize, elms, m₁, hall, rfl⟩
  subst hsize
  apply triple_bind
  apply triple_frame _ _ (zero_add _).symm (triple_splitOp monitor.splitop acc.sum acc.meanCount now)
  intro so m₂ hso
  apply triple_alloc
  intro p
  have howns := OwnsValue.array p block hall hso
  simpa [add_comm, add_left_comm, add_assoc] using howns

theorem triple_rbMonitorGetExternalValue {monitor : Monitor} {valueBuf : CStr} {number : Binary64}
    {now : Int} {mv : MonitorValue}
    (h : RbMonitor.rbMonitorGetExternalValue monitor valueBuf number now = .ok mv)
    : Triple 0 (rbMonitorGetExternalValue monitor valueBuf number now) fun p m =>
        OwnsValue p mv m := by
  unfold RbMonitor.rbMonitorGetExternalValue at h
  unfold rbMonitorGetExternalValue
  generalize (if valueBuf = [] then (['0'], 0) else (valueBuf, number)) = response at h ⊢
  rcases response with ⟨valueBuf, number⟩
  cases hsplit : monitor.splittok with
  | none =>
    simp only [hsplit, Except.ok.injEq] at h
    subst h
    simp only
    exact triple_processNovectorMonitor number now
  | some splittok =>
    simp only [hsplit] at h
    exact triple_processVectorMonitor h

/-! ### Operations -/

section

variable {lib : Matheval} {m : Footprint Cell} {elms : List (Option Ptr)}
variable {values : List (Option MonitorValue)} {monitor : Monitor} {now : Int}

theorem opLibmathevalVars.triple_go {names : List CStr} {i expected : Nat} {vars : LibmathevalVars}
    {res : Option LibmathevalVars} (hreads : List.Forall₂ (ReadsOption m) elms values)
    (h : RbMonitor.opLibmathevalVars.go names values i expected vars = .ok res)
    {Q : Option LibmathevalVars → Footprint Cell → Prop} (hQ : Q res m)
    : Triple m (go names elms i expected vars) Q := by
  induction hreads generalizing i expected vars with
  | nil =>
    simp only [RbMonitor.opLibmathevalVars.go, Except.ok.injEq] at h
    exact triple_pure (h ▸ hQ)
  | @cons p mv elms values hread _ ih =>
    cases hread with
    | none => exact ih h
    | @some p mv hread =>
      unfold go
      simp only [RbMonitor.opLibmathevalVars.go] at h
      cases hname : names[i]? with
      | none =>
        simp only [hname] at h
        cases h
      | some name =>
        simp only [hname] at h ⊢
        apply triple_bind
        apply triple_isValue hread
        cases hread with
        | value hmem => exact ih h
        | array block hmem hblock hchildren hso =>
          simp only [MonitorValue.isValue, Bool.false_eq_true, if_false]
          apply triple_bind
          apply triple_arrayAt hmem
          simp only at h ⊢
          split at h
          . next hcount =>
            rw [if_pos hcount]
            exact ih h
          . next hcount =>
            rw [if_neg hcount]
            split at h
            . next hne =>
              rw [if_pos hne]
              simp only [Except.ok.injEq] at h
              exact triple_pure (h ▸ hQ)
            . next heq =>
              rw [if_neg heq]
              exact ih h

theorem triple_opLibmathevalVars {names : List CStr} {res : Option LibmathevalVars}
    (hreads : List.Forall₂ (ReadsOption m) elms values)
    (h : RbMonitor.opLibmathevalVars values names = .ok res)
    {Q : Option LibmathevalVars → Footprint Cell → Prop} (hQ : Q res m)
    : Triple m (opLibmathevalVars elms names) Q := by
  unfold opLibmathevalVars
  rw [hreads.length_eq]
  exact opLibmathevalVars.triple_go hreads h hQ

theorem triple_rbMonitorOpValue0 {vars : LibmathevalVars} {res : RbMonitor.OpResult}
    (h : RbMonitor.rbMonitorOpValue0 lib vars monitor now = .ok res)
    : Triple 0 (rbMonitorOpValue0 lib vars monitor now) fun r m =>
        OwnsOption r.1 res.1 m ∧ r.2 = res.2 := by
  simp only [RbMonitor.rbMonitorOpValue0] at h
  simp only [rbMonitorOpValue0]
  split at h
  . next hnormal =>
    rw [if_pos hnormal]
    cases h
    exact triple_pure ⟨.none, rfl⟩
  . next hnormal =>
    rw [if_neg hnormal]
    split at h
    . next hlt =>
      rw [if_pos hlt]
      cases h
      apply triple_bind
      apply (triple_processNovectorMonitor _ now).consequence
      intro p m hown
      exact triple_pure ⟨.some hown, rfl⟩
    . cases h

theorem rbMonitorOpValue.triple_go {v : Nat} {vars : LibmathevalVars} {res : RbMonitor.OpResult}
    (hreads : List.Forall₂ (ReadsOption m) elms values)
    (h : RbMonitor.rbMonitorOpValue.go lib monitor now values v vars = .ok res)
    {Q : OpResult → Footprint Cell → Prop}
    (hQ : ∀ p m₁, OwnsOption p res.1 m₁ → Q (p, res.2) (m₁ + m))
    : Triple m (go lib monitor now elms v vars) Q := by
  induction hreads generalizing v vars with
  | nil =>
    apply triple_frame _ m (zero_add _).symm (triple_rbMonitorOpValue0 h)
    intro r m₁ hr
    rcases r with ⟨p, calls⟩
    rcases hr with ⟨hown, rfl⟩
    exact hQ p m₁ hown
  | @cons p mv elms values hread _ ih =>
    unfold go
    cases hread with
    | none =>
      simp only [RbMonitor.rbMonitorOpValue.go, Except.ok.injEq] at h
      subst h
      apply triple_pure
      simpa using hQ none 0 .none
    | @some p mv hread =>
      apply triple_bind
      apply triple_isValue hread
      cases hread with
      | @value v hmem =>
        simp only [RbMonitor.rbMonitorOpValue.go, MonitorValue.isValue, Bool.not_true,
          Bool.false_eq_true, if_false, MonitorValue.asValue_value, CM.bind_eq_ok, Except.ok.injEq,
          exists_eq_left'] at h
        apply triple_bind
        apply triple_valueAt hmem
        exact ih h
      | array _ hmem _ _ _ =>
        simp only [RbMonitor.rbMonitorOpValue.go, MonitorValue.isValue, Bool.not_false, if_true,
          Except.ok.injEq] at h
        subst h
        apply triple_pure
        simpa using hQ none 0 .none

theorem rbMonitorOpVectorI.triple_go {v vPos : Nat} {vars : LibmathevalVars}
    {res : RbMonitor.OpResult} (hreads : List.Forall₂ (ReadsOption m) elms values)
    (h : RbMonitor.rbMonitorOpVectorI.go lib vPos monitor now values v vars = .ok res)
    {Q : OpResult → Footprint Cell → Prop}
    (hQ : ∀ p m₁, OwnsOption p res.1 m₁ → Q (p, res.2) (m₁ + m))
    : Triple m (go lib vPos monitor now elms v vars) Q := by
  cases hreads with
  | nil =>
    apply triple_frame _ m (zero_add _).symm (triple_rbMonitorOpValue0 h)
    intro r m₁ hr
    rcases r with ⟨p, calls⟩
    rcases hr with ⟨hown, rfl⟩
    exact hQ p m₁ hown
  | @cons p mv elms values hread _ =>
    unfold go
    cases hread with
    | none =>
      simp only [RbMonitor.rbMonitorOpVectorI.go, Except.ok.injEq] at h
      subst h
      apply triple_pure
      simpa using hQ none 0 .none
    | @some p mv hread =>
      apply triple_bind
      apply triple_isValue hread
      cases hread with
      | value hmem => cases h
      | array _ hmem _ _ _ =>
        simp only [RbMonitor.rbMonitorOpVectorI.go, MonitorValue.isValue, Bool.not_false, if_true,
          Except.ok.injEq] at h
        subst h
        apply triple_pure
        simpa using hQ none 0 .none

theorem rbMonitorOpVector.triple_loop {vars : LibmathevalVars} {todo : Nat} {block : Ptr}
    (acc : RbMonitor.rbMonitorOpVector.Acc) {acc' : RbMonitor.rbMonitorOpVector.Acc}
    (hreads : List.Forall₂ (ReadsOption m) elms values)
    (h : RbMonitor.rbMonitorOpVector.loop lib values vars monitor now todo acc.children.length acc
      = .ok acc')
    (slots : List (Option Ptr)) {m₁ : Footprint Cell}
    (hown : OwnsAll OwnsElm slots acc.children m₁) {Q : Acc → Footprint Cell → Prop}
    (hQ : ∀ slots' m₂, OwnsAll OwnsElm slots' acc'.children m₂ →
      acc'.children.length = acc.children.length + todo →
      Q { sum := acc'.sum, count := acc'.count, calls := acc'.calls }
        ({(block, .pointers slots')} + m₂ + m))
    : Triple ({(block, .pointers (slots ++ List.replicate todo none))} + m₁ + m)
        (loop lib elms vars monitor now block todo acc.children.length
          { sum := acc.sum, count := acc.count, calls := acc.calls }) Q := by
  induction todo generalizing acc slots m₁ with
  | zero =>
    simp only [RbMonitor.rbMonitorOpVector.loop, Except.ok.injEq] at h
    subst h
    apply triple_pure
    simpa using hQ slots m₁ hown rfl
  | succ todo ih =>
    simp only [RbMonitor.rbMonitorOpVector.loop, CM.bind_eq_ok] at h
    rcases h with ⟨⟨child, calls⟩, hchild, hrest⟩
    have hsub := subset_add ({(block, .pointers (slots ++ List.replicate (todo + 1) none))} + m₁) m
    unfold loop
    apply triple_bind
    apply rbMonitorOpVectorI.triple_go (forall₂_mono hreads hsub) hchild
    intro p m₂ hp
    apply triple_bind
    rw [← hown.length_eq]
    apply triple_setPointer_next slots todo (r := m₂ + (m₁ + m)) (by abel)
    rw [hown.length_eq]
    cases hp with
    | none =>
      have hown' := hown.append (.cons .none .nil)
      have hgoal := ih { acc with
          children := acc.children ++ [none]
          calls := acc.calls ++ calls } (by simpa using hrest) _ hown'
        fun slots' m₂ hall hlen => hQ slots' m₂ hall (by simp at hlen; omega)
      simpa [add_assoc] using hgoal
    | @some p mv m₂ hp =>
      cases hp with
      | array _ _ _ => simp [MonitorValue.asValue, Bind.bind, Except.bind] at hrest
      | value v =>
        simp only [MonitorValue.asValue_value, CM.bind_eq_ok, Except.ok.injEq,
          exists_eq_left'] at hrest
        apply triple_bind
        apply triple_valueAt (v := v)
        . simp
        have hown' := hown.append (.cons (.some p v) .nil)
        have hgoal := ih {
            children := acc.children ++ [some (.value v)]
            sum := acc.sum + v.value
            count := acc.count + 1
            calls := acc.calls ++ calls } (by simpa using hrest) _ hown'
          fun slots' m₂ hall hlen => hQ slots' m₂ hall (by simp at hlen; omega)
        simpa [add_assoc, add_comm, add_left_comm] using hgoal

theorem triple_rbMonitorOpVector {p : Ptr} {mv0 : MonitorValue} {vars : LibmathevalVars}
    {res : RbMonitor.OpResult} (hread : ReadsValue m p mv0)
    (hreads : List.Forall₂ (ReadsOption m) elms values)
    (h : RbMonitor.rbMonitorOpVector lib mv0 values vars monitor now = .ok res)
    {Q : OpResult → Footprint Cell → Prop}
    (hQ : ∀ p m₁, OwnsOption p res.1 m₁ → Q (p, res.2) (m₁ + m))
    : Triple m (rbMonitorOpVector lib p elms vars monitor now) Q := by
  cases hread with
  | value hmem => cases h
  | @array block ps so children splitOpResult hmem hblock hchildren hso =>
    simp only [RbMonitor.rbMonitorOpVector, MonitorValue.asArray_array, CM.bind_eq_ok,
      Except.ok.injEq, exists_eq_left', CM.pure_eq_ok] at h
    rcases h with ⟨acc, hloop, rfl⟩
    unfold rbMonitorOpVector
    apply triple_bind
    apply triple_arrayAt hmem
    apply triple_bind
    apply triple_alloc
    intro newBlock
    apply triple_bind
    have hstart : ({(newBlock, .pointers (List.replicate children.length none))} + m : Footprint Cell)
        = {(newBlock, .pointers ([] ++ List.replicate children.length none))} + 0 + m := by
      simp
    rw [hstart]
    apply rbMonitorOpVector.triple_loop {} hreads hloop [] .nil
    intro slots m₂ hall hlen
    apply triple_bind
    apply triple_frame _ _ (zero_add _).symm (triple_splitOp monitor.splitop acc.sum acc.count now)
    intro newSo m₃ hnewSo
    apply triple_bind
    apply triple_alloc
    intro ret
    apply triple_pure
    simp only [List.length_nil, zero_add] at hlen
    have hgoal := hQ _ _ (.some (OwnsValue.array ret newBlock hall hnewSo))
    rw [hlen] at hgoal
    simpa [add_assoc, add_comm, add_left_comm] using hgoal

theorem triple_rbMonitorOpResultOf_some {p : Ptr} {mv0 : MonitorValue} {vars : LibmathevalVars}
    {res : RbMonitor.OpResult} (hread : ReadsValue m p mv0)
    (hreads : List.Forall₂ (ReadsOption m) elms values)
    (h : (if mv0.isValue then
        RbMonitor.rbMonitorOpValue lib values vars monitor now
      else
        RbMonitor.rbMonitorOpVector lib mv0 values vars monitor now) = .ok res)
    {Q : OpResult → Footprint Cell → Prop}
    (hQ : ∀ p m₁, OwnsOption p res.1 m₁ → Q (p, res.2) (m₁ + m))
    : Triple m (rbMonitorOpResultOf lib monitor (some p) elms vars now) Q := by
  apply triple_bind
  apply triple_isValue hread
  split at h
  . next hvalue =>
    rw [if_pos hvalue]
    exact rbMonitorOpValue.triple_go hreads h hQ
  . next harray =>
    rw [if_neg harray]
    exact triple_rbMonitorOpVector hread hreads h hQ

/-- The array of the operands, if there is one. -/
def ReadsOperands (m : Footprint Cell) (opVars : Option Ptr)
    (values : Option (List (Option MonitorValue))) : Prop :=
  match opVars, values with
  | none, none => True
  | some array, some values =>
    ∃ elms room, (array, .rbArray elms.length (elms ++ List.replicate room none)) ∈ m
      ∧ List.Forall₂ (ReadsOption m) elms values
  | _, _ => False

theorem triple_rbArrayElms {array : Ptr} {rest : List (Option Ptr)}
    (hmem : (array, .rbArray elms.length (elms ++ rest)) ∈ m)
    {Q : List (Option Ptr) → Footprint Cell → Prop} (hQ : Q elms m)
    : Triple m (rbArrayElms array) Q := by
  unfold rbArrayElms
  apply triple_bind
  apply triple_read hmem
  simp only [List.take_left]
  exact triple_pure hQ

theorem triple_rbMonitorGetOpResult {opVars : Option Ptr}
    {operands : Option (List (Option MonitorValue))} {res : RbMonitor.OpResult}
    (hreads : ReadsOperands m opVars operands)
    (h : RbMonitor.rbMonitorGetOpResult lib monitor operands now = .ok res)
    {Q : OpResult → Footprint Cell → Prop}
    (hQ : ∀ p m₁, OwnsOption p res.1 m₁ → Q (p, res.2) (m₁ + m))
    : Triple m (rbMonitorGetOpResult lib monitor opVars now) Q := by
  have hnone (hres : (none, []) = res) : Q (none, []) m := by
    subst hres
    simpa using hQ none 0 .none
  cases opVars with
  | none =>
    cases operands with
    | some operands => cases hreads
    | none =>
      simp only [RbMonitor.rbMonitorGetOpResult, Except.ok.injEq] at h
      exact triple_pure (hnone h)
  | some array =>
    cases operands with
    | none => cases hreads
    | some operands =>
      rcases hreads with ⟨elms, room, hmem, hreads⟩
      unfold rbMonitorGetOpResult
      apply triple_bind
      apply triple_rbArrayElms hmem
      cases hreads with
      | nil =>
        simp only [RbMonitor.rbMonitorGetOpResult, Except.ok.injEq] at h
        exact triple_pure (hnone h)
      | @cons p mv0 rest operands hread hrest =>
        simp only [RbMonitor.rbMonitorGetOpResult] at h
        simp only
        split at h
        . next hcreate =>
          simp only [Except.ok.injEq] at h
          rw [if_pos hcreate]
          exact triple_pure (hnone h)
        . next hcreate =>
          rw [if_neg hcreate]
          simp only [CM.bind_eq_ok] at h
          rcases h with ⟨vars, hvars, h⟩
          apply triple_bind
          apply triple_alloc
          intro f
          apply triple_bind
          apply triple_alloc
          intro libmathevalVars
          have hsub : m ⊆ {(libmathevalVars, .libmathevalVars)} + ({(f, .evaluator)} + m) :=
            fun _ hc => by simp [hc]
          have hread' := hread.mono hsub
          have hrest' := forall₂_mono hrest hsub
          apply triple_bind
          apply triple_opLibmathevalVars (.cons hread' hrest') hvars
          cases vars with
          | none =>
            simp only [Except.ok.injEq] at h
            apply triple_bind
            apply triple_free rfl
            apply triple_bind
            apply triple_free rfl
            exact triple_pure (hnone h)
          | some vars =>
            have hfree (p : Option Ptr) (m₁ : Footprint Cell) (hown : OwnsOption p res.1 m₁)
                : Triple (m₁ + ({(libmathevalVars, .libmathevalVars)} + ({(f, .evaluator)} + m)))
                    (do free libmathevalVars; free f; return (p, res.2) : MM OpResult) Q := by
              apply triple_bind
              apply triple_free (r := m₁ + ({(f, .evaluator)} + m)) (by abel)
              apply triple_bind
              apply triple_free (r := m₁ + m) (by abel)
              exact triple_pure (hQ p m₁ hown)
            apply triple_bind
            cases hread with
            | none =>
              simp only [Except.ok.injEq] at h
              subst h
              apply triple_pure
              simpa using hfree none 0 .none
            | some hread =>
              cases hread' with
              | some hread' =>
                apply triple_rbMonitorOpResultOf_some hread' (.cons (.some hread') hrest') h
                intro p m₁ hown
                exact hfree p m₁ hown

end

end Mem

end RbMonitor
