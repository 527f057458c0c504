import RbMonitor.Zk.Calm
import RbMonitor.Zk.Leader
import RbMonitor.Zk.Queue.Held

/-!
This module contains the steps of the queue, and what holds for each client in all of its runs.
-/

namespace RbMonitor

namespace Zk

open Client Consumer

def QueueAction.keepsSession : QueueAction → Bool
  | .disconnect _ _ | .expire => false
  | _ => true

section

variable {c : Client} {q : Consumer} {id : Nat} {directory queue : List Nat}
  {nextSeq nextElement : Nat}

theorem keepsSession_act {a : QueueAction} (hkeeps : a.keepsSession) {effect : QueueEffect}
    (hstep : q.act directory queue nextElement c a = some effect) {action : ClientAction}
    (hlock : effect.lock = some action)
    : action.keepsSession := by
  rcases lock_act hstep with hsame | ⟨_, i, _, hsame⟩
  . rw [hlock] at hsame
    cases a with
    | disconnect _ _ | expire => cases hkeeps
    | rbZkQueuePop | rbZkMutexLock | call | complete _ | serve | refuse | serveLost | dropLost
    | reconnect _ =>
      cases hsame
      rfl
    | rbZkQueuePush | completeQueue _ | serveQueue | refuseQueue | serveQueueLost
    | dropQueueLost => cases hsame
  . rw [hlock] at hsame
    cases hsame
    rfl

theorem Coupled.act_unlock (h : Coupled c q) (hplaced : c.Placed directory nextSeq)
    {a : QueueAction} {effect : QueueEffect}
    (hstep : q.act directory queue nextElement c a = some effect)
    (hunlock : effect.lock = some (.rbZkMutexUnlock id))
    : c.Held id ∧ ¬effect.consumer.Live id ∧
        effect.log = [.deleteCb id, .unlock id, .released id] ∧ q.Live id ∧
        effect.consumer.fault = q.fault := by
  cases Consumer.taken_of_act hstep with
  | rbZkQueuePop | rbZkMutexLock | call | complete _ | serve | refuse | serveLost | dropLost
  | disconnect | reconnect | expire | rbZkQueuePush | completeQueue _ _ | unlockFault _ _ _
  | refuseQueue _ | deletesLost _ _ | forgetsLost _ | dropQueueLost => cases hunlock
  | serveQueue _ hhandle =>
    rcases kept_of_handle hhandle with ⟨hnone, _, _⟩
    cases hnone.symm.trans hunlock
  | @rbZkMutexUnlock called _ inbox i hinbox hgives _ =>
    cases hunlock
    rcases h.deleteCompleted_of_unlock hplaced hinbox hgives with ⟨⟨ok, heq⟩, _⟩
    subst heq
    rcases h.deleteCompleted hplaced hinbox with ⟨_, _, hheld, _, hdead⟩
    rcases (h.held id (mem_waiting_head hinbox rfl)).1 with ⟨qelm, hqelm, hrefcnt⟩
    have hqelm' : { q with inbox := inbox }.elements id = some qelm := hqelm
    have hone := h.refcnt id qelm hqelm
    have hlast : qelm.refcnt - 1 = 0 := by omega
    refine ⟨hheld, hdead, ?_, ⟨qelm, hqelm, hrefcnt⟩, ?_⟩
    . simp only [Consumer.complete, Consumer.rbZkQueueDeleteCompleted,
        Consumer.rbZkQueueElementDecref, use_eq hqelm' hrefcnt, hlast, ↓reduceIte]
    . simp only [Consumer.complete, Consumer.rbZkQueueDeleteCompleted,
        Consumer.rbZkQueueElementDecref, use_eq hqelm' hrefcnt, Consumer.setElement]

end

theorem queueMachine_step {clients : Nat} {s s' : QueueState} {a : ConsumerAction}
    (hstep : (queueMachine clients).step s a = some s')
    : ∃ c effect, s.lock.clients[a.client]? = some c ∧
        (s.consumers a.client).act s.lock.directory s.queue s.nextElement c a.action =
          some effect ∧
        (match effect.lock with
          | none => s'.lock = s.lock
          | some action =>
            (lockMachine clients).step s.lock { client := a.client, action } = some s'.lock) ∧
        s'.consumers a.client = effect.consumer ∧
        (∀ i, i ≠ a.client → s'.consumers i =
          (s.consumers i).fireIf (effect.queue ≠ s.queue && s.connected i)) ∧
        s'.queue = effect.queue ∧
        s'.nextElement = (if effect.pushed then s.nextElement + 1 else s.nextElement) ∧
        s'.log = s.log ++ effect.log.map fun event => (a.client, event) := by
  simp only [queueMachine, Option.bind_eq_bind, Option.bind_eq_some_iff, Option.pure_def] at hstep
  rcases hstep with ⟨c, hc, effect, heffect, hstep⟩
  refine ⟨c, effect, hc, heffect, ?_⟩
  cases hlock : effect.lock with
  | none =>
    simp only [hlock, Option.bind_some, Option.some.injEq] at hstep
    subst hstep
    exact ⟨rfl, if_pos rfl, fun i hne => if_neg hne, rfl, rfl, rfl⟩
  | some action =>
    simp only [hlock, Option.bind_eq_some_iff, Option.some.injEq] at hstep
    rcases hstep with ⟨lock, hstep, heq⟩
    subst heq
    exact ⟨hstep, if_pos rfl, fun i hne => if_neg hne, rfl, rfl, rfl⟩

theorem lock_step {clients : Nat} {s s' : QueueState} {a : ConsumerAction} {c : Client}
    {effect : QueueEffect} (hc : s.lock.clients[a.client]? = some c)
    (hlock : match effect.lock with
      | none => s'.lock = s.lock
      | some action =>
        (lockMachine clients).step s.lock { client := a.client, action } = some s'.lock)
    : ∃ gone, ∃ c', LockStep s.lock.directory s.lock.nextSeq c effect.lock c' ∧
        ∀ i, s'.lock.clients[i]? =
          (if i = a.client then some c' else s.lock.clients[i]?).map
            fun c => if effect.lock.isSome then c.delete gone else c := by
  cases heffect : effect.lock with
  | none =>
    rw [heffect] at hlock
    refine ⟨[], c, rfl, ?_⟩
    intro i
    rw [hlock]
    by_cases heq : i = a.client
    . rw [if_pos heq, heq, hc]
      rfl
    . rw [if_neg heq]
      cases s.lock.clients[i]? <;> rfl
  | some action =>
    rw [heffect] at hlock
    rcases lockMachine_step hlock with ⟨c₁, lockEffect, hc₁, hact, _, hclients⟩
    rw [hc] at hc₁
    cases hc₁
    exact ⟨lockEffect.gone, lockEffect.client, ⟨lockEffect, hact, rfl⟩, hclients⟩

theorem ordered_queueStep {clients : Nat} {s s' : QueueState} {a : ConsumerAction}
    (h : s.lock.Ordered) (hstep : (queueMachine clients).step s a = some s')
    : s'.lock.Ordered := by
  rcases queueMachine_step hstep with ⟨c, effect, _, _, hlock, _⟩
  split at hlock
  . rwa [hlock]
  . exact ordered_step h hlock

/-- What the log tells about a client. -/
def QueueState.events (s : QueueState) (client : Nat) : List Event :=
  (s.log.filter fun entry => entry.1 = client).map Prod.snd

theorem events_append (s : QueueState) {s' : QueueState} {client : Nat} {log : List Event}
    (hlog : s'.log = s.log ++ log.map fun event => (client, event)) (i : Nat)
    : s'.events i = if i = client then s.events i ++ log else s.events i := by
  unfold QueueState.events
  rw [hlog, List.filter_append, List.map_append, List.filter_map, List.map_map]
  by_cases heq : i = client
  . subst heq
    simp [Function.comp_def]
  . simp [Function.comp_def, heq, Ne.symm heq]

/-- Every client of the queue meets the condition, with its pops and what the log tells. -/
def QueueState.All (p : Client → Consumer → List Event → Prop) (s : QueueState) : Prop :=
  ∀ (i : Nat) (c : Client), s.lock.clients[i]? = some c → p c (s.consumers i) (s.events i)

theorem QueueState.All.step {p : Client → Consumer → List Event → Prop} {clients : Nat}
    {s s' : QueueState} {a : ConsumerAction} (h : s.All p)
    (hact : ∀ c effect c', s.lock.clients[a.client]? = some c →
      p c (s.consumers a.client) (s.events a.client) →
      (s.consumers a.client).act s.lock.directory s.queue s.nextElement c a.action = some effect →
      LockStep s.lock.directory s.lock.nextSeq c effect.lock c' →
      p c' effect.consumer (s.events a.client ++ effect.log))
    (hdelete : ∀ c q events gone, p c q events → p (c.delete gone) q events)
    (hfire : ∀ c q events connected, p c q events → p c (q.fireIf connected) events)
    (hstep : (queueMachine clients).step s a = some s')
    : s'.All p := by
  rcases queueMachine_step hstep with ⟨c, effect, hc, heffect, hlock, hsame, hothers, _, _, hlog⟩
  rcases lock_step hc hlock with ⟨gone, c', hlock, hclients⟩
  intro i d hd
  have hwith : ∀ (c : Client) (q : Consumer) (events : List Event), p c q events →
      p (if effect.lock.isSome then c.delete gone else c) q events := by
    intro c q events hp
    split
    . exact hdelete c q events gone hp
    . exact hp
  rw [hclients i] at hd
  rw [events_append s hlog]
  by_cases heq : i = a.client
  . rw [if_pos heq] at hd ⊢
    cases hd
    rw [heq, hsame]
    exact hwith _ _ _ (hact c effect c' hc (h a.client c hc) heffect hlock)
  . rw [if_neg heq] at hd ⊢
    rcases Option.map_eq_some_iff.mp hd with ⟨cᵢ, hcᵢ, hd⟩
    subst hd
    rw [hothers i heq]
    exact hwith _ _ _ (hfire cᵢ _ _ _ (h i cᵢ hcᵢ))

theorem all_init {p : Client → Consumer → List Event → Prop} (hstart : p .start .start [])
    (clients : Nat)
    : (queueMachine clients).init.All p := by
  intro i c hc
  have hc : c = .start := List.eq_of_mem_replicate (List.mem_of_getElem? hc)
  rw [hc]
  exact hstart

/-- A client connects, pops the queue and obtains its lock. -/
def popRun (client : Nat) : List ConsumerAction :=
  [⟨client, .reconnect false⟩, ⟨client, .complete true⟩, ⟨client, .rbZkQueuePop⟩, ⟨client, .call⟩,
    ⟨client, .serve⟩, ⟨client, .complete true⟩, ⟨client, .serve⟩, ⟨client, .complete true⟩]

end Zk

end RbMonitor
