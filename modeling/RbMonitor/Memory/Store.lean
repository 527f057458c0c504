import RbMonitor.Memory.Message
import RbMonitor.Memory.Monitor

/-!
This module contains what becomes of the memory of a new value: it is stored, it takes the place of
the old one, or the two exchange their children, and what is not stored is freed.
-/

namespace RbMonitor

namespace Mem

open OwnM

variable {rdDne : Binary64 → Binary64 → Bool} {monitor : Monitor} {m : Footprint Cell}

/-- The arrays of messages that were made, and all messages in them. -/
def OwnsSent (ptrs : List Ptr) (msgs : List RbMessage) (m : Footprint Cell) : Prop :=
  ∃ msgss, OwnsAll OwnsMessages ptrs msgss m ∧ msgss.flatten = msgs

theorem triple_ifSend {prog : MM Ptr} {print : CM (List RbMessage)} {msgs : List RbMessage}
    (h : RbMonitor.ifSend monitor print = .ok msgs)
    (hprog : ∀ msgs, print = .ok msgs → Triple m prog fun ret m' =>
      ∃ m₁, OwnsMessages ret msgs m₁ ∧ m' = m₁ + m)
    {Q : List Ptr → Footprint Cell → Prop}
    (hQ : ∀ ptrs m₁, OwnsSent ptrs msgs m₁ → Q ptrs (m₁ + m))
    : Triple m (ifSend monitor prog) Q := by
  unfold RbMonitor.ifSend at h
  unfold ifSend
  split at h
  . next hsend =>
    rw [if_pos hsend]
    apply triple_map
    apply (hprog msgs h).consequence
    intro ret m' hex
    rcases hex with ⟨m₁, hown, rfl⟩
    apply hQ
    have hall := OwnsAll.cons hown .nil
    rw [add_zero] at hall
    exact ⟨[msgs], hall, by simp⟩
  . next hsend =>
    rw [if_neg hsend]
    simp only [Except.ok.injEq] at h
    subst h
    apply triple_pure
    simpa using hQ [] 0 ⟨[], .nil, rfl⟩

/-! ### The children that are printed -/

theorem triple_printChildren {block : Ptr} {newElms oldElms : List (Option Ptr)}
    {new old kept : List (Option MonitorValue)} (hnew : List.Forall₂ (ReadsElm m) newElms new)
    (hold : List.Forall₂ (ReadsElm m) oldElms old)
    (h : RbMonitor.printChildren rdDne new old = .ok kept) (done : List (Option Ptr))
    {Q : Unit → Footprint Cell → Prop}
    (hQ : ∀ keptElms, List.Forall₂ (ReadsElm m) keptElms kept → keptElms.length = newElms.length →
      Q () ({(block, .pointers (done ++ keptElms))} + m))
    : Triple ({(block, .pointers (done ++ List.replicate newElms.length none))} + m)
        (printChildren rdDne block newElms oldElms done.length) Q := by
  induction newElms generalizing oldElms new old kept done with
  | nil =>
    cases hnew
    simp only [RbMonitor.printChildren, Except.ok.injEq] at h
    subst h
    unfold printChildren
    apply triple_pure
    simpa using hQ [] .nil rfl
  | cons newI newElms ih =>
    rcases List.forall₂_cons_left_iff.mp hnew with ⟨n, new, hn, hrest, rfl⟩
    -- the child is kept or not, and the rest of the block is filled
    have hkeep {elm : Option Ptr} {oldElms : List (Option Ptr)} {c : Option MonitorValue}
        {old kept : List (Option MonitorValue)} (helm : ReadsElm m elm c)
        (hold : List.Forall₂ (ReadsElm m) oldElms old)
        (h : RbMonitor.printChildren rdDne new old = .ok kept)
        (hQ : ∀ keptElms, List.Forall₂ (ReadsElm m) keptElms (c :: kept) →
          keptElms.length = newElms.length + 1 → Q () ({(block, .pointers (done ++ keptElms))} + m))
        : Triple ({(block, .pointers (done ++ [elm] ++ List.replicate newElms.length none))} + m)
            (printChildren rdDne block newElms oldElms (done.length + 1)) Q := by
      have hlen : done.length + 1 = (done ++ [elm]).length := by simp
      rw [hlen]
      apply ih hrest hold h
      intro keptElms hreads hlen'
      rw [List.append_assoc]
      exact hQ (elm :: keptElms) (.cons helm hreads) (by simp [hlen'])
    have hskip : done ++ List.replicate (newI :: newElms).length none
        = done ++ [none] ++ List.replicate newElms.length none := by
      simp [List.replicate_succ]
    cases hold with
    | nil =>
      simp only [RbMonitor.printChildren, Except.ok.injEq] at h
      subst h
      unfold printChildren
      apply triple_bind
      apply triple_setPointer_next done newElms.length rfl
      apply hkeep hn .nil _ hQ
      cases new <;> rfl
    | @cons oldI o oldElms old ho hold =>
      cases hn with
      | none =>
        simp only [RbMonitor.printChildren, CM.bind_eq_ok, CM.pure_eq_ok] at h
        rcases h with ⟨kept, hkept, rfl⟩
        unfold printChildren
        rw [hskip]
        exact hkeep .none hold hkept hQ
      | @some newI n hn =>
        cases ho with
        | none =>
          simp only [RbMonitor.printChildren, CM.bind_eq_ok, CM.pure_eq_ok] at h
          rcases h with ⟨kept, hkept, rfl⟩
          unfold printChildren
          apply triple_bind
          apply triple_setPointer_next done newElms.length rfl
          exact hkeep (.some hn) hold hkept hQ
        | @some oldI o ho =>
          simp only [RbMonitor.printChildren, MonitorValue.asValue_value, CM.bind_eq_ok,
            Except.ok.injEq, exists_eq_left', CM.pure_eq_ok] at h
          rcases h with ⟨kept, hkept, rfl⟩
          unfold printChildren
          apply triple_bind
          apply triple_valueAt (v := n)
          . simp [hn]
          apply triple_bind
          apply triple_valueAt (v := o)
          . simp [ho]
          simp only
          apply triple_bind
          split at hQ
          . next hupdate =>
            rw [if_pos hupdate]
            apply triple_setPointer_next done newElms.length rfl
            exact hkeep (.some hn) hold hkept hQ
          . next hupdate =>
            rw [if_neg hupdate]
            apply triple_pure
            rw [hskip]
            exact hkeep .none hold hkept hQ

theorem triple_processMonitorValueVPrint {newMv oldMv : Ptr} {new old : MonitorValue}
    {msgs : List RbMessage} (hnew : ReadsValue m newMv new) (hold : ReadsValue m oldMv old)
    (h : RbMonitor.processMonitorValueVPrint rdDne monitor new old = .ok msgs)
    : Triple m (processMonitorValueVPrint rdDne monitor newMv oldMv) fun ret m' =>
        ∃ m₁, OwnsMessages ret msgs m₁ ∧ m' = m₁ + m := by
  cases hnew with
  | value hmem => cases h
  | @array newBlock newElms newSo newChildren newSplitOp hnewMem hnewBlock hnewChildren hnewSo =>
    cases hold with
    | value hmem => cases h
    | array oldBlock holdMem holdBlock holdChildren holdSo =>
      simp only [RbMonitor.processMonitorValueVPrint, MonitorValue.asArray_array, CM.bind_eq_ok,
        Except.ok.injEq, exists_eq_left'] at h
      rcases h with ⟨kept, hkept, hprint⟩
      unfold processMonitorValueVPrint
      apply triple_bind
      apply triple_arrayAt hnewMem
      apply triple_bind
      apply triple_arrayAt holdMem
      apply triple_bind
      apply triple_alloc
      intro block
      apply triple_bind
      have hsub (a : Ptr) (c : Cell) : m ⊆ {(a, c)} + m := fun _ hc => by simp [hc]
      refine triple_pointersAt _ (hsub _ _ hnewBlock) hnewChildren.length_eq ?_
      apply triple_bind
      refine triple_pointersAt _ (hsub _ _ holdBlock) holdChildren.length_eq ?_
      apply triple_bind
      rw [← hnewChildren.length_eq, ← List.nil_append (List.replicate _ _)]
      apply triple_printChildren hnewChildren holdChildren hkept []
      intro keptElms hkeptElms hlen
      apply triple_bind
      apply triple_alloc
      intro toPrint
      have hkeptLen : newElms.length = kept.length := by rw [← hkeptElms.length_eq, hlen]
      have hsub' : m ⊆ {(toPrint, .array newElms.length newSo block)}
          + ({(block, .pointers ([] ++ keptElms))} + m) := fun _ hc => by simp [hc]
      have hreads : ReadsValue ({(toPrint, .array newElms.length newSo block)}
          + ({(block, .pointers ([] ++ keptElms))} + m)) toPrint (.array kept newSplitOp) := by
        refine ReadsValue.array block ?_ ?_ (hkeptElms.imp fun _ _ h => h.mono hsub')
          (hnewSo.mono hsub')
        . rw [hkeptLen]
          simp
        . simp
      apply triple_bind
      apply triple_printMonitorValue hreads hprint
      intro ret m₁ hown
      apply triple_bind
      apply triple_free (r := m₁ + ({(block, .pointers ([] ++ keptElms))} + m)) (by abel)
      apply triple_bind
      apply triple_free (r := m₁ + m) (by abel)
      exact triple_pure ⟨m₁, hown, rfl⟩

theorem triple_processMonitorValueV {newMv oldMv : Ptr} {new old stored : MonitorValue}
    {msgs : List RbMessage} {mNew mOld : Footprint Cell} (hnew : OwnsValue newMv new mNew)
    (hold : OwnsValue oldMv old mOld)
    (h : RbMonitor.processMonitorValueV rdDne monitor new old = .ok (stored, msgs))
    {Q : List Ptr → Footprint Cell → Prop}
    (hQ : ∀ ptrs m₁ m₂, OwnsSent ptrs msgs m₁ → OwnsValue oldMv stored m₂ → Q ptrs (m₁ + m₂))
    : Triple (mNew + mOld) (processMonitorValueV rdDne monitor newMv oldMv) Q := by
  have hreadsNew := hnew.reads (m := mNew + mOld) fun _ hc => by simp [hc]
  have hreadsOld := hold.reads (m := mNew + mOld) fun _ hc => by simp [hc]
  cases hnew with
  | value v =>
    simp only [RbMonitor.processMonitorValueV, CM.bind_eq_ok] at h
    rcases h with ⟨_, _, _, hbad, _⟩
    cases hbad
  | @array newBlock newElms newSo newChildren newSplitOp mNewC mNewS hnewC hnewS =>
    cases hold with
    | value v =>
      simp only [RbMonitor.processMonitorValueV, CM.bind_eq_ok] at h
      rcases h with ⟨_, _, _, _, _, hbad, _⟩
      cases hbad
    | @array oldBlock oldElms oldSo oldChildren oldSplitOp mOldC mOldS holdC holdS =>
      simp only [RbMonitor.processMonitorValueV, MonitorValue.asArray_array, CM.bind_eq_ok,
        Except.ok.injEq, exists_eq_left', CM.pure_eq_ok, Prod.mk.injEq] at h
      rcases h with ⟨msgs, hsend, rfl, rfl⟩
      unfold processMonitorValueV
      apply triple_bind
      apply triple_ifSend hsend
      . intro msgs hprint
        exact triple_processMonitorValueVPrint hreadsNew hreadsOld hprint
      intro ptrs m₁ hsent
      apply triple_bind
      apply @triple_arrayAt _ _ newChildren.length newSo newBlock
      . simp
      apply triple_bind
      apply @triple_arrayAt _ _ oldChildren.length oldSo oldBlock
      . simp
      apply triple_bind
      apply triple_write (c := .array oldChildren.length oldSo oldBlock)
        (r := m₁ + ({(newMv, .array newChildren.length newSo newBlock)}
          + ({(newBlock, .pointers newElms)} + (mNewC + mNewS)))
          + ({(oldBlock, .pointers oldElms)} + (mOldC + mOldS)))
      . abel
      apply triple_bind
      apply triple_write (c := .array newChildren.length newSo newBlock)
        (r := m₁ + {(oldMv, .array newChildren.length oldSo newBlock)}
          + ({(newBlock, .pointers newElms)} + (mNewC + mNewS))
          + ({(oldBlock, .pointers oldElms)} + (mOldC + mOldS)))
      . abel
      have hstored := OwnsValue.array oldMv newBlock hnewC holdS
      have hreleased := OwnsValue.array newMv oldBlock holdC hnewS
      apply triple_bind
      apply triple_frame _ (m₁ + ({(oldMv, .array newChildren.length oldSo newBlock)}
        + ({(newBlock, .pointers newElms)} + (mNewC + mOldS)))) _
        (triple_rbMonitorValueDone hreleased)
      . intro _ m₂ hm₂
        rw [hm₂, zero_add]
        exact triple_pure (hQ ptrs m₁ _ hsent hstored)
      . abel

theorem triple_updateValue {p : Ptr} {mv : MonitorValue} {oldP : Option Ptr}
    {oldMv : Option MonitorValue} {update : Bool} (hread : ReadsValue m p mv)
    (hold : ReadsOption m oldP oldMv) (h : RbMonitor.updateValue rdDne monitor mv oldMv = .ok update)
    {Q : Bool → Footprint Cell → Prop} (hQ : Q update m)
    : Triple m (updateValue rdDne monitor p oldP) Q := by
  cases hold with
  | none =>
    simp only [RbMonitor.updateValue, Except.ok.injEq] at h
    exact triple_pure (h ▸ hQ)
  | @some oldP old hold =>
    unfold updateValue
    cases hread with
    | @value v hmem =>
      simp only [RbMonitor.updateValue] at h
      simp only
      split at h
      . next hgiven =>
        simp only [Except.ok.injEq] at h
        rw [if_pos hgiven]
        exact triple_pure (h ▸ hQ)
      . next hgiven =>
        rw [if_neg hgiven]
        simp only [CM.bind_eq_ok, CM.pure_eq_ok] at h
        rcases h with ⟨oldV, holdV, rfl⟩
        cases hold with
        | array _ _ _ _ _ => cases holdV
        | value hmemOld =>
          simp only [MonitorValue.asValue_value, Except.ok.injEq] at holdV
          subst holdV
          apply triple_bind
          apply triple_isValue (.value hmem)
          apply triple_bind
          apply triple_valueAt hmemOld
          apply triple_bind
          apply triple_valueAt hmem
          exact triple_pure hQ
    | array block hmem hblock hchildren hso =>
      simp only [RbMonitor.updateValue, Except.ok.injEq] at h
      simp only
      split
      . next hgiven =>
        rw [hgiven] at h
        exact triple_pure (h ▸ hQ)
      . next hgiven =>
        simp only [Bool.not_eq_true] at hgiven
        rw [hgiven] at h
        apply triple_bind
        apply triple_isValue (.array block hmem hblock hchildren hso)
        exact triple_pure (h ▸ hQ)

theorem triple_processMonitorValue {p : Ptr} {mv stored : MonitorValue} {oldP : Option Ptr}
    {oldMv : Option MonitorValue} {msgs : List RbMessage} {mNew mOld : Footprint Cell}
    (hnew : OwnsValue p mv mNew) (hold : OwnsOption oldP oldMv mOld)
    (h : RbMonitor.processMonitorValue rdDne monitor mv oldMv = .ok (stored, msgs))
    {Q : Option Ptr × List Ptr → Footprint Cell → Prop}
    (hQ : ∀ q ptrs m₁ m₂, OwnsSent ptrs msgs m₁ → OwnsOption q (some stored) m₂ →
      Q (q, ptrs) (m₁ + m₂))
    : Triple (mNew + mOld) (processMonitorValue rdDne monitor p oldP) Q := by
  have hreadsNew := hnew.reads (m := mNew + mOld) fun _ hc => by simp [hc]
  have hreadsOld := hold.reads (m := mNew + mOld) fun _ hc => by simp [hc]
  simp only [RbMonitor.processMonitorValue, CM.bind_eq_ok] at h
  rcases h with ⟨update, hupdate, h⟩
  unfold processMonitorValue
  apply triple_bind
  apply triple_updateValue hreadsNew hreadsOld hupdate
  -- the new value is stored, after the old one is freed
  have hreplace (hsend : RbMonitor.ifSend monitor (RbMonitor.printMonitorValue mv monitor) = .ok msgs)
      (hstored : mv = stored)
      : Triple (mNew + mOld) (do
          let msgs ← ifSend monitor (printMonitorValue p monitor)
          ifSome oldP rbMonitorValueDone
          return (some p, msgs) : MM (Option Ptr × List Ptr)) Q := by
    subst hstored
    apply triple_bind
    apply triple_ifSend hsend
    . intro msgs hprint
      apply triple_printMonitorValue hreadsNew hprint
      intro ret m₁ hown
      exact ⟨m₁, hown, rfl⟩
    intro ptrs m₁ hsent
    apply triple_bind
    apply triple_frame mOld (m₁ + mNew) (by abel) (triple_doneOption hold)
    intro _ m₂ hm₂
    rw [hm₂, zero_add]
    exact triple_pure (hQ _ _ _ _ hsent (.some hnew))
  cases hold with
  | none =>
    simp only [RbMonitor.updateValue, Except.ok.injEq] at hupdate
    subst hupdate
    simp only [CM.bind_eq_ok, CM.pure_eq_ok, Prod.mk.injEq] at h
    rcases h with ⟨msgs', hsend, hstored, rfl⟩
    exact hreplace hsend hstored
  | @some oldP old mOld hold =>
    simp only at h
    split at h
    . next htrue =>
      rw [if_pos htrue]
      simp only [CM.bind_eq_ok, CM.pure_eq_ok, Prod.mk.injEq] at h
      rcases h with ⟨msgs', hsend, hstored, rfl⟩
      exact hreplace hsend hstored
    . next hfalse =>
      rw [if_neg hfalse]
      apply triple_bind
      apply triple_isValue hreadsNew
      split at h
      . next hvalue =>
        rw [if_pos hvalue]
        simp only [CM.pure_eq_ok, Prod.mk.injEq] at h
        rcases h with ⟨rfl, rfl⟩
        apply triple_bind
        apply triple_frame mNew mOld rfl (triple_rbMonitorValueDone hnew)
        intro _ m₁ hm₁
        subst hm₁
        exact triple_pure (hQ _ [] 0 _ ⟨[], .nil, rfl⟩ (.some hold))
      . next harray =>
        rw [if_neg harray]
        apply triple_bind
        apply triple_processMonitorValueV hnew hold h
        intro ptrs m₁ m₂ hsent hstored
        exact triple_pure (hQ _ _ _ _ hsent (.some hstored))

end Mem

end RbMonitor
