import RbMonitor.Memory.Value

/-!
This module contains what an array of messages occupies, how it is filled and that sending it frees
all of it.
-/

namespace RbMonitor

namespace Mem

open OwnM

/-- A message: its payload, and as many bytes as the payload has. -/
inductive OwnsMessage : Option (Ptr × Nat) → RbMessage → Footprint Cell → Prop
  | mk (p : Ptr) (msg : RbMessage)
      : OwnsMessage (some (p, msg.payload.length)) msg {(p, .payload msg.payload)}

/-- An array of messages, which may have room for more. -/
inductive OwnsMessages : Ptr → List RbMessage → Footprint Cell → Prop
  | mk (p : Ptr) {slots : List (Option (Ptr × Nat))} (room : Nat) {msgs : List RbMessage}
      {m : Footprint Cell} (h : OwnsAll OwnsMessage slots msgs m)
      : OwnsMessages p msgs
          ({(p, .messages msgs.length (slots ++ List.replicate room none))} + m)

section

variable {m : Footprint Cell}

theorem triple_printMonitorValue0 {messages : Ptr} {count : Nat}
    (slots : List (Option (Ptr × Nat))) (room : Nat) {r : Footprint Cell} {mv : Ptr} {v : Value}
    {monitor : Monitor} {inst : Int} {Q : Unit → Footprint Cell → Prop}
    (hm : m = {(messages, .messages count (slots ++ List.replicate (room + 1) none))} + r)
    (hv : (mv, .value v) ∈ r)
    (hQ : ∀ slot m₁, OwnsMessage slot (RbMonitor.printMonitorValue0 v monitor inst) m₁ →
      Q () ({(messages, .messages count (slots ++ [slot] ++ List.replicate room none))} + (m₁ + r)))
    : Triple m (printMonitorValue0 messages slots.length mv monitor inst) Q := by
  unfold printMonitorValue0
  apply triple_bind
  apply triple_valueAt (v := v)
  . simp [hm, hv]
  apply triple_bind
  apply triple_alloc
  intro payload
  apply triple_bind
  apply triple_read (c := .messages count (slots ++ List.replicate (room + 1) none))
  . simp [hm]
  have hlt : slots.length < (slots ++ List.replicate (room + 1) none).length := by simp
  have hset : (slots ++ List.replicate (room + 1) none).set slots.length
      (some (payload, (printPayload v monitor inst).length))
        = slots ++ [some (payload, (printPayload v monitor inst).length)]
          ++ List.replicate room none := by
    simp [List.replicate_succ]
  simp only [hlt, if_true, hset]
  apply triple_write (r := {(payload, .payload (printPayload v monitor inst))} + r)
  . rw [hm]
    abel
  . exact hQ _ _ (.mk payload (RbMonitor.printMonitorValue0 v monitor inst))

theorem triple_setCount {messages : Ptr} {count n : Nat} {slots : List (Option (Ptr × Nat))}
    {r : Footprint Cell} {Q : Unit → Footprint Cell → Prop}
    (hm : m = {(messages, .messages count slots)} + r)
    (hQ : Q () ({(messages, .messages n slots)} + r))
    : Triple m (setCount messages n) Q := by
  unfold setCount
  apply triple_bind
  apply triple_read (c := .messages count slots)
  . simp [hm]
  . exact triple_write hm hQ

theorem printMonitorValue.triple_printChildren {ret : Ptr} {elms : List (Option Ptr)}
    {children : List (Option MonitorValue)} {monitor : Monitor} {msgs : List RbMessage}
    {r : Footprint Cell} (helms : List.Forall₂ (ReadsElm r) elms children) {i : Nat}
    (hprint : RbMonitor.printMonitorValue.printChildren monitor children i = .ok msgs)
    {count room : Nat} (slots : List (Option (Ptr × Nat))) (hroom : elms.length ≤ room)
    {Q : Nat → Footprint Cell → Prop}
    (hQ : ∀ slots' m₁ room', OwnsAll OwnsMessage slots' msgs m₁ → room ≤ elms.length + room' →
      Q (slots ++ slots').length
        ({(ret, .messages count (slots ++ slots' ++ List.replicate room' none))} + (m₁ + r)))
    : Triple ({(ret, .messages count (slots ++ List.replicate room none))} + r)
        (printChildren monitor ret elms i slots.length) Q := by
  induction elms generalizing children i msgs room slots r with
  | nil =>
    cases helms
    simp only [RbMonitor.printMonitorValue.printChildren, Except.ok.injEq] at hprint
    subst hprint
    unfold printChildren
    apply triple_pure
    simpa using hQ [] 0 room .nil (by simp)
  | cons elm elms ih =>
    rcases List.forall₂_cons_left_iff.mp helms with ⟨child, children, helm, htail, rfl⟩
    cases helm with
    | none =>
      unfold printChildren
      rw [RbMonitor.printMonitorValue.printChildren] at hprint
      apply ih htail hprint slots (by simp at hroom; omega)
      intro slots' m₁ room' hown hle
      exact hQ slots' m₁ room' hown (by simp; omega)
    | @some p v hmem =>
      unfold printChildren
      simp only [RbMonitor.printMonitorValue.printChildren, MonitorValue.asValue_value,
        CM.bind_eq_ok, Except.ok.injEq, exists_eq_left', CM.pure_eq_ok] at hprint
      rcases hprint with ⟨rest, hrest, rfl⟩
      rcases Nat.exists_eq_add_of_le' (Nat.le_trans (by simp) hroom : 1 ≤ room) with ⟨room, rfl⟩
      simp only [List.length_cons, Nat.add_le_add_iff_right] at hroom
      apply triple_bind
      apply triple_printMonitorValue0 slots room rfl hmem
      intro slot m₁ hslot
      have hlen : slots.length + 1 = (slots ++ [slot]).length := by simp
      rw [hlen]
      apply ih _ hrest _ hroom
      . intro slots' m₂ room' hown hle
        have hall := hQ (slot :: slots') (m₁ + m₂) room' (.cons hslot hown) (by simp; omega)
        simpa [add_assoc, add_left_comm] using hall
      . have hsub : r ⊆ m₁ + r := fun _ hc => Multiset.mem_add.mpr (.inr hc)
        exact htail.imp fun _ _ h => h.mono hsub

theorem triple_printMonitorValue {p : Ptr} {mv : MonitorValue} {monitor : Monitor}
    {msgs : List RbMessage} (h : ReadsValue m p mv)
    (hprint : RbMonitor.printMonitorValue mv monitor = .ok msgs) {Q : Ptr → Footprint Cell → Prop}
    (hQ : ∀ ret m₁, OwnsMessages ret msgs m₁ → Q ret (m₁ + m))
    : Triple m (printMonitorValue p monitor) Q := by
  unfold printMonitorValue
  apply triple_bind
  apply triple_isValue h
  cases h with
  | @value v hmem =>
    simp only [RbMonitor.printMonitorValue, Except.ok.injEq] at hprint
    subst hprint
    simp only [MonitorValue.isValue, if_true]
    apply triple_bind
    apply triple_alloc
    intro ret
    apply triple_bind
    apply triple_printMonitorValue0 [] 0 rfl hmem
    intro slot m₁ hslot
    apply triple_pure
    rw [← add_assoc]
    apply hQ
    have hall := OwnsAll.cons hslot .nil
    rw [add_zero] at hall
    exact OwnsMessages.mk ret 0 hall
  | @array block elms so children splitOpResult hmem hblock hchildren hso =>
    simp only [MonitorValue.isValue, Bool.false_eq_true, if_false]
    simp only [RbMonitor.printMonitorValue, CM.bind_eq_ok] at hprint
    rcases hprint with ⟨msgs₁, hmsgs₁, hprint⟩
    have hlen : elms.length = children.length := hchildren.length_eq
    apply triple_bind
    apply triple_arrayAt hmem
    apply triple_bind
    apply triple_alloc
    intro ret
    apply triple_bind
    apply triple_pointersAt elms
    . simp [hblock]
    . exact hlen
    apply triple_bind
    apply printMonitorValue.triple_printChildren hchildren hmsgs₁ []
    . omega
    intro slots m₁ room' hown hle
    cases hso with
    | none =>
      simp only [CM.pure_eq_ok] at hprint
      subst hprint
      apply triple_bind
      apply triple_pure
      apply triple_bind
      apply triple_setCount rfl
      apply triple_pure
      simp only [List.nil_append, Option.isSome_none, Bool.false_eq_true, if_false, add_zero]
      rw [← add_assoc, hown.length_eq]
      apply hQ
      exact .mk ret room' hown
    | @some p' v hmem' =>
      simp only [MonitorValue.asValue_value, CM.bind_eq_ok, Except.ok.injEq, exists_eq_left',
        CM.pure_eq_ok] at hprint
      subst hprint
      simp only [Option.isSome_some, if_true] at hle ⊢
      rcases Nat.exists_eq_add_of_le' (by omega : 1 ≤ room') with ⟨room', rfl⟩
      apply triple_bind
      apply triple_printMonitorValue0 ([] ++ slots) room' rfl (v := v)
      . simp [hmem']
      intro slot m₂ hslot
      apply triple_bind
      apply triple_setCount rfl
      apply triple_pure
      have hall := hown.append (.cons hslot .nil)
      have hmsgs := OwnsMessages.mk ret room' hall
      have hgoal := hQ ret _ hmsgs
      simpa [add_assoc, add_left_comm, hown.length_eq] using hgoal

theorem triple_copyPayload {slot : Option (Ptr × Nat)} {msg : RbMessage} {m₁ : Footprint Cell}
    (h : OwnsMessage slot msg m₁) (hle : m₁ ⊆ m) {Q : Option CStr → Footprint Cell → Prop}
    (hQ : Q (some msg.payload) m)
    : Triple m (copyPayload slot) Q := by
  cases h with
  | mk p msg =>
    unfold copyPayload
    apply triple_bind
    apply triple_read (hle (Multiset.mem_singleton_self _))
    simp only [lt_self_iff_false, if_false, List.take_length]
    exact triple_pure hQ

/-- What the outputs are asked to copy for some messages. -/
def producedOf (out : Outputs) (msgs : List RbMessage) : List Produced :=
  msgs.flatMap fun msg => produce out (some msg.payload)

theorem workerProcessSensorSendArray.triple_go {out : Outputs} {slots : List (Option (Ptr × Nat))}
    {msgs : List RbMessage} {m₁ r : Footprint Cell} (h : OwnsAll OwnsMessage slots msgs m₁)
    {Q : List Produced → Footprint Cell → Prop} (hQ : Q (producedOf out msgs) r)
    : Triple (m₁ + r) (go out slots) Q := by
  induction h generalizing Q with
  | nil =>
    unfold go
    apply triple_pure
    simpa [producedOf] using hQ
  | @cons slot msg m₁ m₂ slots msgs hslot _ ih =>
    unfold go
    apply triple_bind
    apply triple_copyPayload hslot
    . exact fun _ hc => by simp [hc]
    cases hslot with
    | mk p msg =>
      apply triple_bind
      apply triple_free (add_assoc ..)
      apply triple_bind
      apply ih
      apply triple_pure
      exact hQ

theorem triple_workerProcessSensorSendArray {out : Outputs} {p : Ptr} {msgs : List RbMessage}
    {m₁ r : Footprint Cell} (h : OwnsMessages p msgs m₁)
    {Q : List Produced → Footprint Cell → Prop} (hQ : Q (producedOf out msgs) r)
    : Triple (m₁ + r) (workerProcessSensorSendArray out p) Q := by
  cases h with
  | @mk slots room _ m hown =>
    unfold workerProcessSensorSendArray
    apply triple_bind
    apply triple_read (c := .messages msgs.length (slots ++ List.replicate room none))
    . simp
    have hlen := hown.length_eq
    have hle : ¬(slots ++ List.replicate room none).length < msgs.length := by
      simp only [List.length_append]
      omega
    simp only [hle, if_false, List.take_left' hlen]
    apply triple_bind
    apply triple_frame (m + r) {(p, .messages msgs.length (slots ++ List.replicate room none))}
    . abel
    . exact workerProcessSensorSendArray.triple_go hown
        (Q := fun produced m' => produced = producedOf out msgs ∧ m' = r) ⟨rfl, rfl⟩
    intro produced m' hfirst
    rcases hfirst with ⟨rfl, rfl⟩
    apply triple_bind
    apply triple_free (add_comm ..)
    exact triple_pure hQ

theorem triple_workerProcessSensorSendMessages {out : Outputs} {ps : List Ptr}
    {msgs : List (List RbMessage)} {m₁ r : Footprint Cell} (h : OwnsAll OwnsMessages ps msgs m₁)
    {Q : List Produced → Footprint Cell → Prop} (hQ : Q (producedOf out msgs.flatten) r)
    : Triple (m₁ + r) (workerProcessSensorSendMessages out ps) Q := by
  induction h generalizing Q with
  | nil =>
    unfold workerProcessSensorSendMessages
    apply triple_pure
    simpa [producedOf] using hQ
  | @cons p msgs m₁ m₂ ps msgss hhead _ ih =>
    unfold workerProcessSensorSendMessages
    rw [add_assoc]
    apply triple_bind
    apply triple_workerProcessSensorSendArray hhead
    apply triple_bind
    apply ih
    apply triple_pure
    simpa [producedOf] using hQ

end

end Mem

end RbMonitor
