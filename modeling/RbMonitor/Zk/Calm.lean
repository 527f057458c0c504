import RbMonitor.Zk.Carried

/-!
This module contains the runs of a client that does not lose its session: it hears of no other
event of the session than that it is connected.
-/

namespace RbMonitor

namespace Zk

/-- The connection stays, and the session with it. -/
def ClientAction.keepsSession : ClientAction → Bool
  | .disconnect _ | .expire => false
  | _ => true

namespace Client

structure Calm (c : Client) : Prop where
  live : c.live = true
  lost : c.lost = []
  calls : .resetZkContext ∉ c.calls
  events : ∀ state, .sessionEvent state ∈ c.inbox → state = .connected

section

variable {c c' : Client} {directory : List Nat} {nextSeq : Nat}

theorem Calm.quiet (h : Calm c) (hlive : c'.live = c.live) (hlost : c'.lost = c.lost)
    (hcalls : ∀ call ∈ c'.calls, call ∈ c.calls ∨ call = .doPendingLocks)
    (hinbox : ∀ completion ∈ c'.inbox, completion ∈ c.inbox ∨ ¬completion.isSessionEvent)
    : Calm c' where
  live := hlive.trans h.live
  lost := hlost.trans h.lost
  calls hmem := by
    cases hcalls _ hmem with
    | inl hold => exact h.calls hold
    | inr heq => cases heq
  events state hmem := by
    cases hinbox _ hmem with
    | inl hold => exact h.events state hold
    | inr hnot => exact absurd rfl hnot

theorem Calm.fire (h : Calm c) (reports : Watch → Bool) : Calm (c.fire reports) := by
  refine h.quiet rfl rfl (fun _ hmem => .inl hmem) ?_
  intro completion hmem
  cases List.mem_append.mp hmem with
  | inl hold => exact .inl hold
  | inr hnew =>
    rcases List.mem_map.mp hnew with ⟨watch, _, heq⟩
    subst heq
    exact .inr Bool.false_ne_true

theorem Calm.delete (h : Calm c) (gone : List Nat) : Calm (c.delete gone) := by
  have hnodes : Calm { c with nodes := c.nodes.filter fun node => node.seq ∉ gone } :=
    h.quiet rfl rfl (fun _ hmem => .inl hmem) fun _ hmem => .inl hmem
  simp only [Client.delete]
  split
  . exact hnodes.fire _
  . exact hnodes

theorem Calm.reply (h : Calm c) {reply : Completion} (hreply : ¬reply.isSessionEvent)
    : Calm { c with inbox := c.inbox ++ [reply] } := by
  refine h.quiet rfl rfl (fun _ hmem => .inl hmem) ?_
  intro completion hmem
  cases List.mem_append.mp hmem with
  | inl hold => exact .inl hold
  | inr hnew => exact .inr (List.mem_singleton.mp hnew ▸ hreply)

theorem Calm.rbZkMutexDone (h : Calm c) (id : Nat) : Calm (c.rbZkMutexDone id) := by
  unfold Client.rbZkMutexDone
  split <;> exact h.quiet rfl rfl (fun _ hmem => .inl hmem) fun _ hmem => .inl hmem

theorem Calm.pop (h : Calm c) {completion : Completion} {inbox : List Completion}
    (hinbox : c.inbox = completion :: inbox)
    : Calm { c with inbox := inbox } := by
  refine h.quiet rfl rfl (fun _ hmem => .inl hmem) ?_
  intro completion hmem
  rw [hinbox]
  exact .inl (List.mem_cons_of_mem _ hmem)

theorem Calm.same (h : Calm c) (hlive : c'.live = c.live) (hlost : c'.lost = c.lost)
    (hcalls : c'.calls = c.calls) (hinbox : c'.inbox = c.inbox)
    : Calm c' :=
  h.quiet hlive hlost (fun _ hmem => .inl (hcalls ▸ hmem)) fun _ hmem => .inl (hinbox ▸ hmem)

theorem Calm.complete (h : Calm c) {completion : Completion} {inbox : List Completion}
    (hinbox : c.inbox = completion :: inbox)
    (hstep : { c with inbox := inbox }.complete directory completion = some c')
    : Calm c' := by
  have hpop := h.pop hinbox
  cases completion with
  | createMutexNodeComplete id leaderNode =>
    cases hstep
    unfold Client.createMutexNodeComplete
    split
    . exact hpop.rbZkMutexDone id
    . next node =>
      split
      . exact hpop.same rfl rfl rfl rfl
      . next mutex _ =>
        have hset : Calm ({ c with inbox := inbox }.setMutex { mutex with path := some node }) :=
          hpop.same rfl rfl rfl rfl
        simp only
        split
        . exact hset.rbZkMutexDone id
        . exact hset.same rfl rfl rfl rfl
  | leaderGetChildrenComplete id strings =>
    simp only [Client.complete, Client.leaderGetChildrenComplete] at hstep
    split at hstep
    . cases hstep
      exact hpop
    . split at hstep
      . cases hstep
        exact hpop.same rfl rfl rfl rfl
      . split at hstep
        . cases hstep
          exact hpop.same rfl rfl rfl rfl
        . next befStr _ =>
          split at hstep
          . cases hstep
            exact hpop.rbZkMutexDone id
          . cases hstep
            exact hpop.rbZkMutexDone id
          . split at hstep
            . cases hstep
            . cases hstep
              have hwatch : Calm { c with
                  inbox := inbox
                  watches := c.watches ++
                    [{ mutex := id, node := befStr, found := decide (befStr ∈ directory) }] } :=
                hpop.same rfl rfl rfl rfl
              split
              . exact hwatch
              . exact hwatch.rbZkMutexDone id
  | deleteMutexCompleted id =>
    cases hstep
    exact hpop.rbZkMutexDone id
  | previousLeaderWatcher id node =>
    cases hstep
    unfold Client.previousLeaderWatcher
    split
    . exact hpop.same rfl rfl rfl rfl
    . split
      . exact hpop
      . exact hpop.same rfl rfl rfl rfl
  | sessionEvent state =>
    cases hstep
    have hstate : state = .connected := by
      apply h.events
      rw [hinbox]
      exact List.mem_cons_self
    subst hstate
    unfold Client.zkWatcher
    split
    . exact hpop.same rfl rfl rfl rfl
    . refine hpop.quiet rfl rfl ?_ fun _ hmem => .inl hmem
      intro call hmem
      simpa using hmem

theorem Calm.act (h : Calm c) {a : ClientAction} (hkeeps : a.keepsSession) {effect : Effect}
    (hstep : c.act directory nextSeq a = some effect)
    : Calm effect.client := by
  cases taken_of_act hstep with
  | rbZkMutexLock _ =>
    refine h.quiet rfl rfl ?_ fun _ hmem => .inl hmem
    intro call hmem
    simpa [Client.rbZkMutexLock] using hmem
  | @rbZkMutexUnlock id c' _ hunlock =>
    cases unlocks_of_rbZkMutexUnlock hunlock with
    | deletes _ _ _ => exact h.same rfl rfl rfl rfl
    | frees _ _ _ => exact h.rbZkMutexDone id
  | @doPendingLocks calls _ hcalls =>
    have htail : Calm { c with calls := calls } := by
      refine h.quiet rfl rfl ?_ fun _ hmem => .inl hmem
      intro call hmem
      rw [hcalls]
      exact .inl (List.mem_cons_of_mem _ hmem)
    unfold Client.zkWatcherDoPendingLocks
    split
    . exact htail
    . exact htail.same rfl rfl rfl rfl
  | resetZkContext _ hcalls => exact absurd (hcalls ▸ List.mem_cons_self) h.calls
  | complete _ hinbox hcomplete => exact h.complete hinbox hcomplete
  | @serve request requests effect reply _ _ _ hhandle =>
    have hclient : Calm effect.client := by
      cases request <;> cases hhandle <;> exact h.same rfl rfl rfl rfl
    apply (hclient.delete _).reply
    cases request <;> cases hhandle <;> exact Bool.false_ne_true
  | @refuse request requests _ _ _ _ =>
    have hrest : Calm { c with requests := requests } := h.same rfl rfl rfl rfl
    apply hrest.reply
    cases request <;> simp [Request.failed, Completion.isSessionEvent]
  | serveLost hlost =>
    rw [h.lost] at hlost
    cases hlost
  | dropLost => exact h.same rfl h.lost.symm rfl rfl
  | disconnect _ => cases hkeeps
  | reconnect hreconnect =>
    cases reconnects_of_reconnect hreconnect with
    | connected _ _ =>
      have hevent : Calm { c with
          state := .connected
          inbox := c.inbox ++ [Completion.sessionEvent .connected] } := by
        refine ⟨h.live, h.lost, h.calls, ?_⟩
        intro state hmem
        cases List.mem_append.mp hmem with
        | inl hold => exact h.events state hold
        | inr hnew =>
          cases List.mem_singleton.mp hnew
          rfl
      exact hevent.fire _
    | expired _ hdead => cases h.live.symm.trans hdead
  | expire _ => cases hkeeps

theorem calm_start : Calm .start := by
  constructor <;> simp [start]

theorem Calm.not_cleans (h : Calm c) {completion : Completion} (hmem : completion ∈ c.inbox)
    : ¬completion.cleans := by
  cases completion with
  | sessionEvent state =>
    rw [h.events state hmem]
    decide
  | createMutexNodeComplete id leaderNode => exact Bool.false_ne_true
  | leaderGetChildrenComplete id strings => exact Bool.false_ne_true
  | deleteMutexCompleted id => exact Bool.false_ne_true
  | previousLeaderWatcher id node => exact Bool.false_ne_true

end

end Client

end Zk

end RbMonitor
