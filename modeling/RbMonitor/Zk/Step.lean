import RbMonitor.Zk.Impl

/-!
This module contains the actions of a client one by one: what each comes to and when.
-/

namespace RbMonitor

namespace Zk

namespace Client

/-- `c.Taken directory nextSeq a effect` if the action `a` of the client comes to `effect`. -/
inductive Taken (directory : List Nat) (nextSeq : Nat) (c : Client) : ClientAction → Effect → Prop
  | rbZkMutexLock (hfault : c.fault = false)
    : Taken directory nextSeq c .rbZkMutexLock { client := c.rbZkMutexLock }
  | rbZkMutexUnlock {id : Nat} {c' : Client} (hfault : c.fault = false)
      (hunlock : c.rbZkMutexUnlock id = some c')
    : Taken directory nextSeq c (.rbZkMutexUnlock id) { client := c' }
  | doPendingLocks {calls : List Call} (hfault : c.fault = false)
      (hcalls : c.calls = .doPendingLocks :: calls)
    : Taken directory nextSeq c .call
        { client := { c with calls := calls }.zkWatcherDoPendingLocks }
  | resetZkContext {calls : List Call} (hfault : c.fault = false)
      (hcalls : c.calls = .resetZkContext :: calls)
    : Taken directory nextSeq c .call { c with calls := calls }.resetZkContext
  | complete {completion : Completion} {inbox : List Completion} {c' : Client}
      (hfault : c.fault = false) (hinbox : c.inbox = completion :: inbox)
      (hcomplete : { c with inbox := inbox }.complete directory completion = some c')
    : Taken directory nextSeq c .complete { client := c' }
  | serve {request : Request} {requests : List Request} {effect : Effect} {reply : Completion}
      (hlive : c.live = true) (hstate : c.state = .connected)
      (hrequests : c.requests = request :: requests)
      (hhandle : { c with requests := requests }.handle directory nextSeq request = (effect, reply))
    : Taken directory nextSeq c .serve
        { effect with client := { effect.client.delete effect.gone with
            inbox := (effect.client.delete effect.gone).inbox ++ [reply] } }
  | refuse {request : Request} {requests : List Request} (hlive : c.live = true)
      (hstate : c.state = .connected) (hrequests : c.requests = request :: requests)
      (hdelete : ∀ id path, request ≠ .adelete id path)
    : Taken directory nextSeq c .refuse
        { client := { c with requests := requests, inbox := c.inbox ++ [request.failed] } }
  | serveLost {request : Request} {lost : List Request} (hlost : c.lost = request :: lost)
    : Taken directory nextSeq c .serveLost
        ({ c with lost := lost }.handle directory nextSeq request).1
  | dropLost : Taken directory nextSeq c .dropLost { client := { c with lost := [] } }
  | disconnect {received : Nat} {c' : Client} (hdisconnect : c.disconnect received = some c')
    : Taken directory nextSeq c (.disconnect received) { client := c' }
  | reconnect {c' : Client} (hreconnect : c.reconnect directory = some c')
    : Taken directory nextSeq c .reconnect { client := c' }
  | expire (hlive : c.live = true)
    : Taken directory nextSeq c .expire
        { client := { c with live := false, lost := [], nodes := [] }
          gone := c.nodes.map Node.seq }

/-- What it comes to that a mutex is unlocked. -/
inductive Unlocks (c : Client) (id : Nat) : Client → Prop
  | deletes {mutex : Mutex} (hmutex : c.mutex? id = some mutex) (hleader : mutex.iAmLeader = true)
      (hstate : c.state = .connected)
    : Unlocks c id (c.request (.adelete id mutex.path))
  | frees {mutex : Mutex} (hmutex : c.mutex? id = some mutex) (hleader : mutex.iAmLeader = true)
      (hstate : c.state ≠ .connected)
    : Unlocks c id (c.rbZkMutexDone id)

/-- What a client learns when it reaches the server again. -/
inductive Reconnects (directory : List Nat) (c : Client) : Client → Prop
  | connected (hstate : c.state = .connecting) (hlive : c.live = true)
    : Reconnects directory c
        ({ c with
          state := .connected
          inbox := c.inbox ++ [Completion.sessionEvent .connected] }.fire
            fun watch => watch.found && watch.node ∉ directory)
  | expired (hstate : c.state = .connecting) (hlive : c.live = false)
    : Reconnects directory c { c with
        state := .expiredSession
        inbox := c.inbox ++ [Completion.sessionEvent .expiredSession] }

variable {c c' : Client} {id : Nat} {directory : List Nat} {nextSeq : Nat} {a : ClientAction}
  {effect : Effect}

theorem unlocks_of_rbZkMutexUnlock (hstep : c.rbZkMutexUnlock id = some c') : c.Unlocks id c' := by
  unfold Client.rbZkMutexUnlock at hstep
  split at hstep
  . cases hstep
  . next mutex hmutex =>
    simp only [Option.ite_none_left_eq_some, Bool.not_eq_true, Bool.not_eq_false'] at hstep
    rcases hstep with ⟨hleader, hstep⟩
    split at hstep
    . next hstate =>
      cases hstep
      exact .deletes hmutex hleader hstate
    . next hstate =>
      cases hstep
      exact .frees hmutex hleader hstate

theorem reconnects_of_reconnect (hstep : c.reconnect directory = some c')
    : c.Reconnects directory c' := by
  simp only [Client.reconnect, Option.ite_none_left_eq_some, not_not] at hstep
  rcases hstep with ⟨hstate, hstep⟩
  split at hstep
  . next hlive =>
    cases hstep
    exact .connected hstate hlive
  . next hdead =>
    cases hstep
    exact .expired hstate (eq_false_of_ne_true hdead)

theorem taken_of_act (hstep : c.act directory nextSeq a = some effect)
    : c.Taken directory nextSeq a effect := by
  cases a with
  | rbZkMutexLock =>
    simp only [Client.act, Option.ite_none_left_eq_some, Bool.not_eq_true, Option.some.injEq] at hstep
    rcases hstep with ⟨hfault, heq⟩
    subst heq
    exact .rbZkMutexLock hfault
  | rbZkMutexUnlock id =>
    simp only [Client.act, Option.ite_none_left_eq_some, Bool.not_eq_true, Option.map_eq_some_iff]
      at hstep
    rcases hstep with ⟨hfault, c', hunlock, heq⟩
    subst heq
    exact .rbZkMutexUnlock hfault hunlock
  | call =>
    simp only [Client.act, Option.ite_none_left_eq_some, Bool.not_eq_true] at hstep
    rcases hstep with ⟨hfault, hstep⟩
    split at hstep
    . cases hstep
    . next hcalls =>
      cases hstep
      exact .doPendingLocks hfault hcalls
    . next hcalls =>
      cases hstep
      exact .resetZkContext hfault hcalls
  | complete =>
    simp only [Client.act, Option.ite_none_left_eq_some, Bool.not_eq_true] at hstep
    rcases hstep with ⟨hfault, hstep⟩
    split at hstep
    . cases hstep
    . next completion inbox hinbox =>
      rcases Option.map_eq_some_iff.mp hstep with ⟨c', hcomplete, heq⟩
      subst heq
      exact .complete hfault hinbox hcomplete
  | serve =>
    simp only [Client.act, Option.ite_none_right_eq_some, Bool.and_eq_true, decide_eq_true_eq]
      at hstep
    rcases hstep with ⟨⟨hlive, hstate⟩, hstep⟩
    split at hstep
    . cases hstep
    . next request requests hrequests =>
      cases hstep
      exact .serve hlive hstate hrequests rfl
  | refuse =>
    simp only [Client.act, Option.ite_none_right_eq_some, Bool.and_eq_true, decide_eq_true_eq]
      at hstep
    rcases hstep with ⟨⟨hlive, hstate⟩, hstep⟩
    split at hstep
    . cases hstep
    . cases hstep
    . next request requests hdelete hrequests =>
      cases hstep
      apply Taken.refuse hlive hstate hrequests
      intro id path heq
      exact hdelete id path (heq ▸ rfl)
  | serveLost =>
    simp only [Client.act] at hstep
    split at hstep
    . cases hstep
    . next request lost hlost =>
      cases hstep
      exact .serveLost hlost
  | dropLost =>
    cases hstep
    exact .dropLost
  | disconnect received =>
    rcases Option.map_eq_some_iff.mp hstep with ⟨c', hdisconnect, heq⟩
    subst heq
    exact .disconnect hdisconnect
  | reconnect =>
    rcases Option.map_eq_some_iff.mp hstep with ⟨c', hreconnect, heq⟩
    subst heq
    exact .reconnect hreconnect
  | expire =>
    simp only [Client.act, Option.ite_none_right_eq_some, Option.some.injEq] at hstep
    rcases hstep with ⟨hlive, heq⟩
    subst heq
    exact .expire hlive

end Client

end Zk

end RbMonitor
