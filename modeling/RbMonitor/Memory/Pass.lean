import RbMonitor.Memory.Store
import RbMonitor.Sensor.Total

/-!
This module contains the memory of a sensor over its passes: between two of them the last known
values are all that is allocated, and nothing is left when the sensor is destroyed.
-/

namespace RbMonitor

namespace Mem

open OwnM

section

variable {m : Footprint Cell}

theorem triple_rbArrayAt {array : Ptr} {count i : Nat} {elms : List (Option Ptr)} {p : Option Ptr}
    (hmem : (array, .rbArray count elms) ∈ m) (hi : elms[i]? = some p)
    {Q : Option Ptr → Footprint Cell → Prop} (hQ : Q p m)
    : Triple m (rbArrayAt array i) Q := by
  unfold rbArrayAt
  apply triple_bind
  apply triple_read hmem
  apply triple_ofExcept (b := p)
  . simp [elmAt, hi]
  . exact hQ

theorem triple_rbArraySet {array : Ptr} {count i : Nat} {elms : List (Option Ptr)}
    {p : Option Ptr} {r : Footprint Cell} (hm : m = {(array, .rbArray count elms)} + r)
    (hi : i < elms.length) {Q : Unit → Footprint Cell → Prop}
    (hQ : Q () ({(array, .rbArray count (elms.set i p))} + r))
    : Triple m (rbArraySet array i p) Q := by
  unfold rbArraySet
  apply triple_bind
  apply triple_read (c := .rbArray count elms)
  . simp [hm]
  . simp only [hi, if_true]
    exact triple_write hm hQ

/-! ### Operands -/

/-- The array of the operands that is made for one operation. -/
inductive OwnsOperands (m : Footprint Cell)
    : Option Ptr → Option (List (Option MonitorValue)) → Footprint Cell → Prop
  | none : OwnsOperands m none none 0
  | some (array : Ptr) {elms : List (Option Ptr)} (room : Nat)
      {values : List (Option MonitorValue)} (h : List.Forall₂ (ReadsOption m) elms values)
      : OwnsOperands m (some array) (some values)
          {(array, .rbArray elms.length (elms ++ List.replicate room none))}

theorem OwnsOperands.reads {m₁ : Footprint Cell} {p : Option Ptr}
    {operands : Option (List (Option MonitorValue))} (h : OwnsOperands m p operands m₁)
    : ReadsOperands (m₁ + m) p operands := by
  cases h with
  | none => trivial
  | some array room h =>
    exact ⟨_, room, by simp, forall₂_mono h (subset_add _ m)⟩

theorem triple_doneOperands {m₁ r : Footprint Cell} {p : Option Ptr}
    {operands : Option (List (Option MonitorValue))} (h : OwnsOperands m p operands m₁)
    {Q : Unit → Footprint Cell → Prop} (hQ : Q () r)
    : Triple (m₁ + r) (rbArrayDone p) Q := by
  cases h with
  | none =>
    rw [zero_add]
    exact triple_pure hQ
  | some array room h => exact triple_free rfl hQ

theorem triple_rbArrayAdd {array : Ptr} {elms : List (Option Ptr)} {room : Nat} {p : Option Ptr}
    {r : Footprint Cell}
    (hm : m = {(array, .rbArray elms.length (elms ++ List.replicate room none))} + r)
    {Q : Unit → Footprint Cell → Prop}
    (hQ : ∀ elms' room', (if elms.length = elms.length + room then elms else elms ++ [p]) = elms' →
      elms.length + room = elms'.length + room' →
      Q () ({(array, .rbArray elms'.length (elms' ++ List.replicate room' none))} + r))
    : Triple m (rbArrayAdd array p) Q := by
  unfold rbArrayAdd
  apply triple_bind
  apply triple_read (c := .rbArray elms.length (elms ++ List.replicate room none))
  . simp [hm]
  simp only [List.length_append, List.length_replicate]
  cases room with
  | zero =>
    simp only [Nat.add_zero, if_true]
    apply triple_pure
    rw [hm]
    exact hQ elms 0 (by simp) rfl
  | succ room =>
    have hne : ¬(elms.length + (room + 1) = elms.length) := by omega
    have hset : (elms ++ List.replicate (room + 1) none).set elms.length p
        = elms ++ [p] ++ List.replicate room none := by
      simp [List.replicate_succ]
    rw [if_neg hne]
    apply triple_write hm
    have hgoal := hQ (elms ++ [p]) room (by simp) (by simp; omega)
    simpa [List.replicate_succ] using hgoal

theorem exists_of_forall₂ {α β : Type} {R : α → β → Prop} {xs : List α} {ys : List β}
    (h : List.Forall₂ R xs ys) {i : Nat} {y : β} (hi : ys[i]? = some y)
    : ∃ x, xs[i]? = some x ∧ R x y := by
  induction h generalizing i with
  | nil => cases hi
  | @cons x y xs ys hhead _ ih =>
    cases i with
    | zero =>
      simp only [List.getElem?_cons_zero, Option.some.injEq] at hi
      exact ⟨x, rfl, hi ▸ hhead⟩
    | succ i => exact ih hi

theorem rbMonitorValueArraySelect.triple_go {current : Ptr} {count retSize : Nat}
    {ptrs : List (Option Ptr)} {values operands ret : List (Option MonitorValue)} {pos : List Int}
    (hmem : (current, .rbArray count ptrs) ∈ m) (hptrs : List.Forall₂ (ReadsOption m) ptrs values)
    (h : RbMonitor.rbMonitorValueArraySelect.go values retSize pos ret = .ok operands) {array : Ptr}
    {elms : List (Option Ptr)} {room : Nat} (helms : List.Forall₂ (ReadsOption m) elms ret)
    (hsize : retSize = elms.length + room) {Q : Unit → Footprint Cell → Prop}
    (hQ : ∀ m₁, OwnsOperands m (some array) (some operands) m₁ → Q () (m₁ + m))
    : Triple ({(array, .rbArray elms.length (elms ++ List.replicate room none))} + m)
        (go current array pos) Q := by
  induction pos generalizing ret elms room with
  | nil => cases h
  | cons p pos ih =>
    unfold go
    unfold RbMonitor.rbMonitorValueArraySelect.go at h
    split at h
    . next hend =>
      rw [if_pos hend]
      simp only [Except.ok.injEq] at h
      subst h
      exact triple_pure (hQ _ (.some array room helms))
    . next hend =>
      rw [if_neg hend]
      split at h
      . cases h
      . next hneg =>
        rw [if_neg hneg]
        simp only [CM.bind_eq_ok] at h
        rcases h with ⟨elm, helm, h⟩
        rcases exists_of_forall₂ hptrs (elmAt_eq_ok.mp helm) with ⟨q, hq, hread⟩
        apply triple_bind
        apply triple_rbArrayAt (Multiset.mem_add.mpr (.inr hmem)) hq
        apply triple_bind
        apply triple_rbArrayAdd rfl
        intro elms' room' helms' hroom
        apply ih h _ (by omega)
        rw [← helms', RbMonitor.rbArrayAdd, hsize, ← helms.length_eq]
        split
        . exact helms
        . exact List.rel_append helms (.cons hread .nil)

theorem triple_rbMonitorValueArraySelect {current : Ptr} {count : Nat} {ptrs : List (Option Ptr)}
    {values : List (Option MonitorValue)} {pos : Option (List Int)}
    {operands : Option (List (Option MonitorValue))} (hmem : (current, .rbArray count ptrs) ∈ m)
    (hptrs : List.Forall₂ (ReadsOption m) ptrs values)
    (h : RbMonitor.rbMonitorValueArraySelect values pos = .ok operands)
    {Q : Option Ptr → Footprint Cell → Prop}
    (hQ : ∀ p m₁, OwnsOperands m p operands m₁ → Q p (m₁ + m))
    : Triple m (rbMonitorValueArraySelect current pos) Q := by
  cases pos with
  | none =>
    simp only [RbMonitor.rbMonitorValueArraySelect, Except.ok.injEq] at h
    subst h
    apply triple_pure
    simpa using hQ none 0 .none
  | some pos =>
    simp only [RbMonitor.rbMonitorValueArraySelect, CM.bind_eq_ok, CM.pure_eq_ok] at h
    rcases h with ⟨retSize, hsize, selected, hgo, rfl⟩
    unfold rbMonitorValueArraySelect
    apply triple_bind
    apply triple_ofExcept hsize
    apply triple_bind
    apply triple_alloc
    intro array
    apply triple_bind
    have hempty : ({(array, .rbArray 0 (List.replicate retSize none))} + m : Footprint Cell)
        = {(array, .rbArray ([] : List (Option Ptr)).length ([] ++ List.replicate retSize none))} + m := by
      simp
    rw [hempty]
    apply rbMonitorValueArraySelect.triple_go hmem hptrs hgo .nil (by simp)
    intro m₁ hown
    exact triple_pure (hQ _ _ hown)

/-! ### The pass -/

theorem triple_processSensorMonitor {lib : Matheval} {monitor : Monitor} {response : Response}
    {opVars : Option Ptr} {operands : Option (List (Option MonitorValue))}
    {res : RbMonitor.OpResult} (hreads : ReadsOperands m opVars operands)
    (h : RbMonitor.processSensorMonitor lib monitor response operands = .ok res)
    {Q : OpResult → Footprint Cell → Prop}
    (hQ : ∀ p m₁, OwnsOption p res.1 m₁ → Q (p, res.2) (m₁ + m))
    : Triple m (processSensorMonitor lib monitor response opVars) Q := by
  have hexternal {prog : MM Ptr} {mv : MonitorValue} (hres : (some mv, []) = res)
      (hprog : Triple 0 prog fun p m => OwnsValue p mv m)
      : Triple m (do return (some (← prog), []) : MM OpResult) Q := by
    subst hres
    apply triple_bind
    apply triple_frame _ _ (zero_add _).symm hprog
    intro p m₁ hown
    exact triple_pure (hQ _ _ (.some hown))
  unfold RbMonitor.processSensorMonitor at h
  unfold processSensorMonitor
  cases htype : monitor.type with
  | system =>
    simp only [htype, CM.bind_eq_ok, CM.pure_eq_ok] at h
    rcases h with ⟨mv, hmv, hres⟩
    exact hexternal hres (triple_rbMonitorGetExternalValue hmv)
  | oid =>
    simp only [htype, CM.bind_eq_ok, CM.pure_eq_ok] at h
    rcases h with ⟨mv, hmv, hres⟩
    exact hexternal hres (triple_rbMonitorGetExternalValue hmv)
  | op =>
    simp only [htype] at h
    exact triple_rbMonitorGetOpResult hreads h hQ

/-- The two arrays during a pass: they hold the same pointers, and the values below them. -/
def OwnsPass (lastKnown current : Ptr) (st : PassState) (m : Footprint Cell) : Prop :=
  st.currentIteration = st.lastKnown ∧ ∃ ptrs m₁, OwnsAll OwnsOption ptrs st.lastKnown m₁
    ∧ m = {(lastKnown, .rbArray ptrs.length ptrs)} + ({(current, .rbArray ptrs.length ptrs)} + m₁)

section

variable {lib : Matheval} {rdDne : Binary64 → Binary64 → Bool} {sensor : Sensor lib}

theorem forall₂_readsOption {ptrs : List (Option Ptr)} {values : List (Option MonitorValue)}
    {m₁ : Footprint Cell} (h : OwnsAll OwnsOption ptrs values m₁) (hle : m₁ ⊆ m)
    : List.Forall₂ (ReadsOption m) ptrs values := by
  induction h with
  | nil => exact .nil
  | cons hhead _ ih =>
    refine .cons (hhead.reads ?_) (ih ?_)
    . exact fun _ hc => hle (Multiset.mem_add.mpr (.inl hc))
    . exact fun _ hc => hle (Multiset.mem_add.mpr (.inr hc))

theorem triple_storeMonitorValue {monitor : Monitor} {value : Option Ptr}
    {mv old stored : Option MonitorValue} {msgs : List RbMessage} {lastKnown : Ptr} {count i : Nat}
    {ptrs : List (Option Ptr)} {oldP : Option Ptr} {mNew mOld r : Footprint Cell}
    (hvalue : OwnsOption value mv mNew) (hold : OwnsOption oldP old mOld)
    (hi : ptrs[i]? = some oldP)
    (h : RbMonitor.storeMonitorValue rdDne monitor mv old = .ok (stored, msgs))
    {Q : List Ptr → Footprint Cell → Prop}
    (hQ : ∀ p ret m₁ m₂, OwnsSent ret msgs m₁ → OwnsOption p stored m₂ →
      Q ret ({(lastKnown, .rbArray count (ptrs.set i p))} + (m₁ + m₂ + r)))
    : Triple ({(lastKnown, .rbArray count ptrs)} + (mNew + mOld + r))
        (storeMonitorValue rdDne monitor value lastKnown i) Q := by
  cases hvalue with
  | none =>
    simp only [RbMonitor.storeMonitorValue, Except.ok.injEq, Prod.mk.injEq] at h
    rcases h with ⟨rfl, rfl⟩
    apply triple_pure
    have hgoal := hQ oldP [] 0 mOld ⟨[], .nil, rfl⟩ hold
    rcases List.getElem?_eq_some_iff.mp hi with ⟨hlt, rfl⟩
    rw [List.set_getElem_self] at hgoal
    exact hgoal
  | @some p mv mNew hvalue =>
    simp only [RbMonitor.storeMonitorValue, CM.bind_eq_ok, CM.pure_eq_ok, Prod.mk.injEq] at h
    rcases h with ⟨⟨stored, msgs⟩, hprocess, rfl, rfl⟩
    unfold storeMonitorValue
    apply triple_bind
    refine triple_rbArrayAt (Multiset.mem_add.mpr (.inl (Multiset.mem_singleton_self _))) hi ?_
    apply triple_bind
    apply triple_frame (mNew + mOld) ({(lastKnown, .rbArray count ptrs)} + r) (by abel)
      (triple_processMonitorValue hvalue hold hprocess
        (Q := fun res m' => ∃ m₁ m₂, OwnsSent res.2 msgs m₁ ∧ OwnsOption res.1 (some stored) m₂
          ∧ m' = m₁ + m₂) fun q ptrs m₁ m₂ hsent hown => ⟨m₁, m₂, hsent, hown, rfl⟩)
    intro res m' hex
    rcases res with ⟨q, ret⟩
    rcases hex with ⟨m₁, m₂, hsent, hown, rfl⟩
    apply triple_bind
    apply triple_rbArraySet (r := m₁ + m₂ + r) (by abel) (List.getElem?_eq_some_iff.mp hi).1
    exact triple_pure (hQ q ret m₁ m₂ hsent hown)

/-- What a part of the log comes to outside. -/
def logOf (out : Outputs) (log : RbMonitor.MonitorLog) : MonitorLog :=
  { calls := log.calls, produced := producedOf out log.messages }

theorem triple_processMonitor {out : Outputs} {input : PassInput} {lastKnown current : Ptr}
    {st st' : PassState} {i : Nat} {log : RbMonitor.MonitorLog} (hown : OwnsPass lastKnown current st m)
    (h : RbMonitor.processMonitor rdDne sensor input st i = .ok (st', log))
    : Triple m (processMonitor rdDne sensor out input lastKnown current i) fun r m' =>
        r = logOf out log ∧ OwnsPass lastKnown current st' m' := by
  simp only [RbMonitor.processMonitor, CM.bind_eq_ok, CM.pure_eq_ok, Prod.mk.injEq] at h
  rcases h with ⟨pos, hpos, operands, hselect, monitor, hmonitor, ⟨mv, calls⟩, hprocess,
    old, hold, ⟨stored, msgs⟩, hstore, rfl, rfl⟩
  rcases hown with ⟨hsame, ptrs, m₁, hall, rfl⟩
  rw [hsame] at hselect
  have holdAt := elmAt_eq_ok.mp hold
  have hi : i < ptrs.length := by
    rw [hall.length_eq]
    exact (List.getElem?_eq_some_iff.mp holdAt).1
  unfold processMonitor
  apply triple_bind
  apply triple_ofExcept hpos
  apply triple_bind
  have hsub : m₁ ⊆ {(lastKnown, .rbArray ptrs.length ptrs)}
      + ({(current, .rbArray ptrs.length ptrs)} + m₁) := fun _ hc => by simp [hc]
  have hcurrent : (current, .rbArray ptrs.length ptrs) ∈ {(lastKnown, .rbArray ptrs.length ptrs)}
      + ({(current, .rbArray ptrs.length ptrs)} + m₁) := by simp
  apply triple_rbMonitorValueArraySelect hcurrent (forall₂_readsOption hall hsub) hselect
  intro opVars mOps hops
  apply triple_bind
  apply triple_ofExcept hmonitor
  apply triple_bind
  apply triple_processSensorMonitor hops.reads hprocess
  intro value mNew hvalue
  apply triple_bind
  rcases hall.focus holdAt with ⟨oldP, mOld, mRest, hptr, rfl, holdOwn, hset⟩
  have hsplit : mNew + (mOps + ({(lastKnown, .rbArray ptrs.length ptrs)}
      + ({(current, .rbArray ptrs.length ptrs)} + (mOld + mRest))))
        = {(lastKnown, .rbArray ptrs.length ptrs)} + (mNew + mOld
          + (mOps + {(current, .rbArray ptrs.length ptrs)} + mRest)) := by
    abel
  rw [hsplit]
  apply triple_storeMonitorValue hvalue holdOwn hptr hstore
  intro p ret mSent mStored hsent hstored
  apply triple_bind
  have hlast : (lastKnown, .rbArray ptrs.length (ptrs.set i p))
      ∈ {(lastKnown, .rbArray ptrs.length (ptrs.set i p))} + (mSent + mStored
        + (mOps + {(current, .rbArray ptrs.length ptrs)} + mRest)) := by simp
  apply triple_rbArrayAt hlast (p := p)
  . simp [hi]
  apply triple_bind
  apply triple_rbArraySet (r := {(lastKnown, .rbArray ptrs.length (ptrs.set i p))}
    + (mSent + mStored + (mOps + mRest))) (by abel) hi
  apply triple_bind
  have hops' : {(current, .rbArray ptrs.length (ptrs.set i p))}
      + ({(lastKnown, .rbArray ptrs.length (ptrs.set i p))} + (mSent + mStored + (mOps + mRest)))
        = mOps + (mSent + ({(lastKnown, .rbArray ptrs.length (ptrs.set i p))}
          + ({(current, .rbArray ptrs.length (ptrs.set i p))} + (mStored + mRest)))) := by
    abel
  rw [hops']
  apply triple_doneOperands hops
  apply triple_bind
  rcases hsent with ⟨msgss, hmsgss, rfl⟩
  apply triple_workerProcessSensorSendMessages hmsgss
  apply triple_pure
  refine ⟨rfl, by rw [hsame], ptrs.set i p, mStored + mRest, hset p stored mStored hstored, ?_⟩
  rw [List.length_set]

/-- What a sensor owns between two passes: its last known values. -/
def OwnsLast (lastKnown : Ptr) (values : List (Option MonitorValue)) (m : Footprint Cell) : Prop :=
  ∃ ptrs m₁, OwnsAll OwnsOption ptrs values m₁
    ∧ m = {(lastKnown, .rbArray ptrs.length ptrs)} + m₁

theorem triple_newIteration {lastKnown : Ptr} {values : List (Option MonitorValue)} {count : Nat}
    (hown : OwnsLast lastKnown values m) (hlen : values.length = count)
    : Triple m (newIteration lastKnown count) fun current m' =>
        OwnsPass lastKnown current ⟨values, values⟩ m' := by
  rcases hown with ⟨ptrs, m₁, hall, rfl⟩
  have hptrs : ptrs.length = count := by rw [hall.length_eq, hlen]
  unfold newIteration
  apply triple_bind
  apply triple_alloc
  intro current
  apply triple_bind
  apply triple_read (c := .rbArray ptrs.length ptrs)
  . simp
  subst hptrs
  simp only [lt_self_iff_false, if_false, List.take_length]
  apply triple_bind
  apply triple_write rfl
  apply triple_pure
  refine ⟨rfl, ptrs, m₁, hall, ?_⟩
  abel

theorem newIteration_eq_of_length {values : List (Option MonitorValue)}
    (hlen : values.length = sensor.monitors.length)
    : RbMonitor.newIteration sensor values = ⟨values, values⟩ := by
  simp [RbMonitor.newIteration, ← hlen]

theorem triple_processMonitorsArray {out : Outputs} {input : PassInput} {lastKnown : Ptr}
    {values values' : List (Option MonitorValue)} {logs : List RbMonitor.MonitorLog}
    (hlen : values.length = sensor.monitors.length) (hown : OwnsLast lastKnown values m)
    (h : RbMonitor.processMonitorsArray rdDne sensor values input = .ok (values', logs))
    : Triple m (processMonitorsArray rdDne sensor out lastKnown input) fun r m' =>
        r = logs.map (logOf out) ∧ OwnsLast lastKnown values' m' := by
  have hloop : ∃ st, runLog (RbMonitor.processMonitor rdDne sensor input) ⟨values, values⟩
      (List.range (if (sensor.peername.isSome && sensor.community.isSome) && input.session then
        sensor.monitors.length else 0)) = .ok (st, logs) ∧ st.lastKnown = values' := by
    simp only [RbMonitor.processMonitorsArray, newIteration_eq_of_length hlen] at h
    split at h
    . next haok =>
      simp only [Bool.not_eq_true'] at haok
      simp only [CM.pure_eq_ok, Prod.mk.injEq] at h
      rcases h with ⟨rfl, rfl⟩
      exact ⟨⟨values, values⟩, by simp [haok], rfl⟩
    . next haok =>
      simp only [Bool.not_eq_true', Bool.not_eq_false] at haok
      simp only [CM.bind_eq_ok, CM.pure_eq_ok, Prod.mk.injEq] at h
      rcases h with ⟨⟨st, logs⟩, hrun, rfl, rfl⟩
      exact ⟨st, by simp [haok, hrun], rfl⟩
  rcases hloop with ⟨st, hrun, rfl⟩
  -- the context, the array of the iteration and the loop, in the order of the source
  have hrest (ctx : Footprint Cell) {processCtx : Option Ptr}
      (hctx : ∀ r, Triple (ctx + r) (ifSome processCtx free) fun _ m' => m' = r)
      : Triple (ctx + m) (do
          let current ← newIteration lastKnown sensor.monitors.length
          let logs ← (List.range (if (sensor.peername.isSome && sensor.community.isSome)
              && input.session then sensor.monitors.length else 0)).mapM
            (processMonitor rdDne sensor out input lastKnown current)
          free current
          ifSome processCtx free
          return logs : MM (List MonitorLog)) fun r m' =>
        r = logs.map (logOf out) ∧ OwnsLast lastKnown st.lastKnown m' := by
    apply triple_bind
    apply triple_frame m ctx (add_comm ..) (triple_newIteration hown hlen)
    intro current m₁ hpass
    apply triple_bind
    apply triple_frame _ ctx rfl (triple_mapM (OwnsPass lastKnown current) (logOf out)
      (fun st i st' log m h hown => triple_processMonitor hown h) hrun hpass)
    intro r m₂ hfirst
    rcases hfirst with ⟨rfl, _, ptrs, m₃, hall, rfl⟩
    apply triple_bind
    apply triple_free (r := ctx + ({(lastKnown, .rbArray ptrs.length ptrs)} + m₃)) (by abel)
    apply triple_bind
    apply (hctx _).consequence
    intro _ m₄ hm₄
    subst hm₄
    exact triple_pure ⟨rfl, ptrs, m₃, hall, rfl⟩
  unfold processMonitorsArray
  apply triple_bind
  split
  . apply triple_map
    apply triple_alloc
    intro ctx
    exact hrest _ fun r => triple_free rfl rfl
  . apply triple_pure
    rw [← zero_add m]
    exact hrest 0 fun r => by rw [zero_add]; exact triple_pure rfl

theorem triple_lastValsDone {lastKnown : Ptr} {values : List (Option MonitorValue)}
    (hown : OwnsLast lastKnown values m)
    : Triple m (lastValsDone lastKnown) fun _ m' => m' = 0 := by
  rcases hown with ⟨ptrs, m₁, hall, rfl⟩
  have hmem : (lastKnown, .rbArray ptrs.length (ptrs ++ []))
      ∈ {(lastKnown, .rbArray ptrs.length ptrs)} + m₁ := by simp
  unfold lastValsDone
  apply triple_bind
  apply triple_rbArrayElms hmem
  apply triple_bind
  apply triple_frame m₁ {(lastKnown, .rbArray ptrs.length ptrs)} (add_comm ..)
    (triple_forM (fun p mv m h => triple_doneOption h) hall)
  intro _ m₂ hm₂
  rw [hm₂, add_comm]
  exact triple_free rfl rfl

theorem triple_passes (out : Outputs) {inputs : List PassInput} {values : List (Option MonitorValue)}
    {logs : List (List RbMonitor.MonitorLog)}
    (h : RbMonitor.processRbSensor rdDne sensor inputs = .ok (values, logs))
    : Triple 0 (passes rdDne sensor out inputs) fun r m' =>
        r.2 = logs.map (List.map (logOf out)) ∧ OwnsLast r.1 values m' := by
  unfold passes
  apply triple_bind
  apply triple_alloc
  intro lastVals
  have hown : OwnsLast lastVals (List.replicate sensor.monitors.length none)
      ({(lastVals, .rbArray sensor.monitors.length (List.replicate sensor.monitors.length none))}
        + 0) :=
    ⟨_, 0, OwnsAll.replicate .none _, by rw [List.length_replicate]⟩
  apply triple_bind
  apply (triple_mapM
    (fun values m => values.length = sensor.monitors.length ∧ OwnsLast lastVals values m)
    (List.map (logOf out)) _ h ⟨List.length_replicate, hown⟩).consequence
  . intro r m' hres
    exact triple_pure ⟨hres.1, hres.2.2⟩
  . intro values input values' logs m hpass hinv
    apply (triple_processMonitorsArray hinv.1 hinv.2 hpass).consequence
    intro r m' hres
    exact ⟨hres.1, length_processMonitorsArray hinv.1 hpass, hres.2⟩

theorem triple_processRbSensor (out : Outputs) {inputs : List PassInput}
    {values : List (Option MonitorValue)} {logs : List (List RbMonitor.MonitorLog)}
    (h : RbMonitor.processRbSensor rdDne sensor inputs = .ok (values, logs))
    : Triple 0 (processRbSensor rdDne sensor out inputs) fun r m' =>
        r = logs.map (List.map (logOf out)) ∧ m' = 0 := by
  unfold processRbSensor
  apply triple_bind
  apply (triple_passes out h).consequence
  intro r m₁ hres
  rcases r with ⟨lastVals, logs'⟩
  apply triple_bind
  apply (triple_lastValsDone hres.2).consequence
  intro _ m₂ hm₂
  exact triple_pure ⟨hres.1, hm₂⟩

end

/-! ### Whole runs -/

section

variable {lib : Matheval} (rdDne : Binary64 → Binary64 → Bool)

/-- A pass in which the commands print a load. -/
def loadInput : PassInput where
  session := true
  response _ := { popen := some "0.25".toList, snmp := .error, now := 1700000000 }

theorem ends_loadSensor
    : SplitsEnd loadSensor [loadInput, loadInput]
        ∧ RunFits (fun _ _ => true) loadSensor [loadInput, loadInput] := by
  have hends : endsWith (fun _ _ => true)
      (RbMonitor.processRbSensor (fun _ _ => true) loadSensor [loadInput, loadInput]) := by
    decide +kernel
  rcases exists_of_endsWith hends with ⟨_, _, hrun, _⟩
  exact exists_processRbSensor_iff.mp ⟨_, hrun⟩

/-- What one of the outputs is asked to copy in some passes. -/
def deliveredTo (output : Output) (logs : List (List MonitorLog)) : List (Option CStr) :=
  ((logs.flatten.flatMap MonitorLog.produced).filter fun p => p.output = output).map Produced.bytes

def Outputs.has (out : Outputs) : Output → Bool
  | .kafka => out.kafkaBroker
  | .http => out.httpHandler

theorem filter_produce (out : Outputs) (output : Output) (bytes : Option CStr)
    : ((produce out bytes).filter fun p => p.output = output).map Produced.bytes
        = if out.has output then [bytes] else [] := by
  rcases out with ⟨kafka, http⟩
  cases output <;> cases kafka <;> cases http <;> rfl

theorem deliveredTo_logs (out : Outputs) (output : Output)
    (logs : List (List RbMonitor.MonitorLog))
    : deliveredTo output (logs.map (List.map (logOf out)))
        = if out.has output then
            (logs.flatten.flatMap RbMonitor.MonitorLog.messages).map fun msg => some msg.payload
          else [] := by
  have hproduced : (logs.map (List.map (logOf out))).flatten.flatMap MonitorLog.produced
      = producedOf out (logs.flatten.flatMap RbMonitor.MonitorLog.messages) := by
    rw [← List.map_flatten, List.flatMap_map, producedOf, List.flatMap_assoc]
    rfl
  unfold deliveredTo
  rw [hproduced, producedOf, List.filter_flatMap, List.map_flatMap]
  simp only [filter_produce]
  split
  . rw [List.map_eq_flatMap]
  . simp

/-- Each output that is set up is given the payload of every message of the run, once and in the
order of the messages; the other outputs are given nothing. No response has to be split at the empty
token here, and the results of the operations fit their buffer. -/
theorem processRbSensor_delivers (sensor : Sensor lib) (out : Outputs) {inputs : List PassInput}
    (hsplits : SplitsEnd sensor inputs) (hfits : RunFits rdDne sensor inputs) (h : OwnHeap Cell)
    : ∃ values calls logs h',
        RbMonitor.processRbSensor rdDne sensor inputs = .ok (values, calls)
          ∧ processRbSensor rdDne sensor out inputs h = .ok (logs, h')
          ∧ ∀ output, deliveredTo output logs
              = if out.has output then
                  (calls.flatten.flatMap RbMonitor.MonitorLog.messages).map fun msg =>
                    some msg.payload
                else [] := by
  rcases exists_processRbSensor_iff.mpr ⟨hsplits, hfits⟩ with ⟨⟨values, calls⟩, hrun⟩
  rcases (triple_processRbSensor out hrun).exists_run h with ⟨logs, h', hmem, _, rfl⟩
  exact ⟨values, calls, _, h', hrun, hmem, fun output => deliveredTo_logs out output calls⟩

theorem processRbSensor_delivers_loadSensor
    : ∃ values calls logs h',
        RbMonitor.processRbSensor (fun _ _ => true) loadSensor [loadInput, loadInput]
            = .ok (values, calls)
          ∧ processRbSensor (fun _ _ => true) loadSensor ⟨true, true⟩ [loadInput, loadInput] .empty
              = .ok (logs, h')
          ∧ ∀ output, deliveredTo output logs
              = if Outputs.has ⟨true, true⟩ output then
                  (calls.flatten.flatMap RbMonitor.MonitorLog.messages).map fun msg =>
                    some msg.payload
                else [] :=
  processRbSensor_delivers _ loadSensor ⟨true, true⟩ ends_loadSensor.1 ends_loadSensor.2 .empty

end

end

end Mem

end RbMonitor
