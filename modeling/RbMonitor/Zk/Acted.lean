import RbMonitor.Zk.Carried
import RbMonitor.Zk.Queue.Impl

/-!
This module contains what an action does to a client: one case for each way that it can go.
-/

namespace RbMonitor

namespace Zk

namespace Client

/-- The mutex is freed. -/
def without (c : Client) (id : Nat) : Client :=
  { c with leadersNodesList := c.leadersNodesList.filter fun mutex => mutex.id ≠ id }

/-- What a completion does to a client, and what it calls. -/
inductive Completed (directory : List Nat) (c : Client)
    : Completion → List MutexCallback → Client → Prop
  | fault {completion : Completion} {callbacks : List MutexCallback}
    : Completed directory c completion callbacks { c with fault := true }
  | failed {id : Nat} {mutex : Mutex} (hmutex : c.mutex? id = some mutex)
    : Completed directory c (.createMutexNodeComplete id none) [.errorCb id] (c.without id)
  | named {id node : Nat} {mutex : Mutex} (hmutex : c.mutex? id = some mutex)
      (hstate : c.state ≠ .expiredSession)
    : Completed directory c (.createMutexNodeComplete id (some node)) []
        ((c.setMutex { mutex with path := some node }).request (.agetChildren id))
  | late {id node : Nat} {mutex : Mutex} (hmutex : c.mutex? id = some mutex)
    : Completed directory c (.createMutexNodeComplete id (some node)) [.errorCb id] (c.without id)
  | unlisted {id : Nat} : Completed directory c (.leaderGetChildrenComplete id none) [] c
  | leads {id : Nat} {strings : List Nat} {mutex : Mutex} (hmutex : c.mutex? id = some mutex)
    : Completed directory c (.leaderGetChildrenComplete id (some strings)) [.schangeCb id true]
        (c.setMutex { mutex with iAmLeader := true })
  | watched {id befStr : Nat} {strings : List Nat} {mutex : Mutex}
      (hmutex : c.mutex? id = some mutex)
      (hbef : mutex.path.bind (leaderPreviousString strings) = some befStr)
      (hstate : c.state = .connected) (hfound : befStr ∈ directory)
    : Completed directory c (.leaderGetChildrenComplete id (some strings)) []
        { c with watches := c.watches ++ [{ mutex := id, node := befStr, found := true }] }
  | unwatched {id : Nat} {strings : List Nat} {mutex : Mutex} (hmutex : c.mutex? id = some mutex)
      {watches : List Watch} (hwatches : c.watches ⊆ watches)
    : Completed directory c (.leaderGetChildrenComplete id (some strings)) [.errorCb id]
        { c.without id with watches }
  | deleted {id : Nat} {mutex : Mutex} (hmutex : c.mutex? id = some mutex)
    : Completed directory c (.deleteMutexCompleted id) [] (c.without id)
  | asks {id node : Nat} {mutex : Mutex} (hmutex : c.mutex? id = some mutex)
    : Completed directory c (.previousLeaderWatcher id node) [] (c.request (.agetChildren id))
  | unasked {id node : Nat} (hstate : c.state = .expiredSession)
    : Completed directory c (.previousLeaderWatcher id node) [] c
  | connected
    : Completed directory c (.sessionEvent .connected) [] { c with calls := c.calls ++ [.doPendingLocks] }
  | disconnected
    : Completed directory c (.sessionEvent .connecting)
        (c.leadersNodesList.flatMap fun mutex => [.schangeCb mutex.id false, .errorCb mutex.id])
        { c with leadersNodesList := [] }
  | expired
    : Completed directory c (.sessionEvent .expiredSession)
        (c.leadersNodesList.flatMap fun mutex => [.schangeCb mutex.id false, .errorCb mutex.id])
        { c with calls := c.calls ++ [.resetZkContext], leadersNodesList := [] }

/-- What an action does to a client, if it does not unlock a mutex. -/
inductive Acted (directory : List Nat) (nextSeq : Nat) (c : Client) : ClientAction → Effect → Prop
  | rbZkMutexLock (hfault : c.fault = false)
    : Acted directory nextSeq c .rbZkMutexLock { client := c.rbZkMutexLock }
  | doPendingLocks {calls : List Call} (hfault : c.fault = false)
      (hcalls : c.calls = .doPendingLocks :: calls)
    : Acted directory nextSeq c .call { client := { c with calls }.zkWatcherDoPendingLocks }
  | resetZkContext {calls : List Call} (hfault : c.fault = false)
      (hcalls : c.calls = .resetZkContext :: calls)
    : Acted directory nextSeq c .call { c with calls }.resetZkContext
  | complete {completion : Completion} {inbox : List Completion} {c' : Client} (hfault : c.fault = false)
      (hinbox : c.inbox = completion :: inbox)
      (hcompleted : Completed directory { c with inbox } completion (c.callbacks directory completion) c')
    : Acted directory nextSeq c .complete { client := c' }
  | serve {request : Request} {requests : List Request} {handled : Effect × Completion}
      (hstate : c.state = .connected) (hrequests : c.requests = request :: requests)
      (hhandled : { c with requests }.handle directory nextSeq request = handled)
      (c' : Client) (hc' : handled.1.client.delete handled.1.gone = c')
    : Acted directory nextSeq c .serve
        { handled.1 with client := { c' with inbox := c'.inbox ++ [handled.2] } }
  | refuse {request : Request} {requests : List Request} (hstate : c.state = .connected)
      (hrequests : c.requests = request :: requests)
    : Acted directory nextSeq c .refuse
        { client := { c with requests, inbox := c.inbox ++ [request.failed] } }
  | serveLost {request : Request} {lost : List Request} (hlost : c.lost = request :: lost)
    : Acted directory nextSeq c .serveLost ({ c with lost }.handle directory nextSeq request).1
  | dropLost : Acted directory nextSeq c .dropLost { client := { c with lost := [] } }
  | disconnect {received : Nat} {c' : Client} (hdisconnect : c.disconnect received = some c')
    : Acted directory nextSeq c (.disconnect received) { client := c' }
  | reconnect {c' : Client} (hreconnect : c.reconnect directory = some c')
    : Acted directory nextSeq c .reconnect { client := c' }
  | expire
    : Acted directory nextSeq c .expire
        { client := { c with live := false, lost := [], nodes := [] }
          gone := c.nodes.map Node.seq }

section

variable {directory : List Nat} {nextSeq : Nat} {c c' : Client} {id : Nat} {mutex : Mutex}
  {completion : Completion}

theorem rbZkMutexDone_of_mutex? (hmutex : c.mutex? id = some mutex)
    : c.rbZkMutexDone id = c.without id := by
  rw [Client.rbZkMutexDone, hmutex]
  rfl

theorem id_of_mutex? (hmutex : c.mutex? id = some mutex) : mutex.id = id :=
  (mem_of_mutex? hmutex).2

theorem mem_setMutex {new : Mutex} (hmem : mutex ∈ (c.setMutex new).leadersNodesList)
    : mutex = new ∨ mutex ∈ c.leadersNodesList ∧ mutex.id ≠ new.id := by
  rcases List.mem_map.mp hmem with ⟨old, hold, heq⟩
  split at heq
  . exact Or.inl heq.symm
  . next hne =>
    subst heq
    exact Or.inr ⟨hold, hne⟩

theorem rbZkMutexDone_setMutex (hmutex : c.mutex? id = some mutex) (new : Mutex) (hid : new.id = id)
    : (c.setMutex new).rbZkMutexDone id = c.without id := by
  have htracks : (c.setMutex new).Tracks id := by
    rcases mem_of_mutex? hmutex with ⟨hmem, hold⟩
    refine ⟨new, List.mem_map.mpr ⟨mutex, hmem, ?_⟩, hid⟩
    rw [if_pos (hold.trans hid.symm)]
  rcases mutex?_of_tracks htracks with ⟨mutex', hmutex'⟩
  rw [rbZkMutexDone_of_mutex? hmutex']
  subst hid
  unfold Client.without Client.setMutex
  congr 1
  induction c.leadersNodesList with
  | nil => rfl
  | cons m ms ih =>
    rw [List.map_cons, List.filter_cons, List.filter_cons, ih]
    split
    . next heq => simp [heq]
    . rfl

theorem completed_of_createMutexNodeComplete (id : Nat) (leaderNode : Option Nat)
    : Completed directory c (.createMutexNodeComplete id leaderNode)
        (c.callbacks directory (.createMutexNodeComplete id leaderNode))
        (c.createMutexNodeComplete id leaderNode) := by
  cases leaderNode with
  | none =>
    simp only [Client.createMutexNodeComplete]
    cases hmutex : c.mutex? id with
    | none =>
      rw [Client.rbZkMutexDone, hmutex]
      exact .fault
    | some mutex =>
      rw [rbZkMutexDone_of_mutex? hmutex]
      exact .failed hmutex
  | some node =>
    simp only [Client.createMutexNodeComplete, Client.callbacks]
    cases hmutex : c.mutex? id with
    | none => exact .fault
    | some mutex =>
      have hstate : (c.setMutex { mutex with path := some node }).state = c.state := rfl
      simp only [hstate]
      split
      . have hid := id_of_mutex? hmutex
        rw [rbZkMutexDone_setMutex hmutex { mutex with path := some node } hid]
        exact .late hmutex
      . next hstate => exact .named hmutex hstate

theorem completed_of_leaderGetChildrenComplete {strings : Option (List Nat)}
    (hstep : c.leaderGetChildrenComplete directory id strings = some c')
    : Completed directory c (.leaderGetChildrenComplete id strings)
        (c.callbacks directory (.leaderGetChildrenComplete id strings)) c' := by
  cases strings with
  | none =>
    cases hstep
    exact .unlisted
  | some strings =>
    simp only [Client.leaderGetChildrenComplete, Client.callbacks] at hstep ⊢
    cases hmutex : c.mutex? id with
    | none =>
      simp only [hmutex, Option.some.injEq] at hstep
      subst hstep
      exact .fault
    | some mutex =>
      simp only [hmutex] at hstep ⊢
      cases hbef : mutex.path.bind (leaderPreviousString strings) with
      | none =>
        simp only [hbef, Option.some.injEq] at hstep
        subst hstep
        exact .leads hmutex
      | some befStr =>
        simp only [hbef] at hstep ⊢
        have hdone (watches : List Watch) : { c with watches }.rbZkMutexDone id
            = { c.without id with watches } :=
          rbZkMutexDone_of_mutex? (c := { c with watches }) hmutex
        split at hstep
        . next hstate =>
          cases hstep
          rw [if_neg (by simp [hstate])]
          exact hdone c.watches ▸ .unwatched hmutex (List.Subset.refl _)
        . next hstate =>
          cases hstep
          rw [if_neg (by simp [hstate])]
          exact hdone c.watches ▸ .unwatched hmutex (List.Subset.refl _)
        . next hstate =>
          rcases Option.ite_none_left_eq_some.mp hstep with ⟨_, hsome⟩
          cases hsome
          by_cases hfound : befStr ∈ directory
          . rw [if_pos ⟨hstate, hfound⟩, if_pos (by simpa using hfound)]
            rw [decide_eq_true hfound]
            exact .watched hmutex hbef hstate hfound
          . rw [if_neg (fun h => hfound h.2), if_neg (by simpa using hfound), hdone]
            exact .unwatched hmutex (List.subset_append_left _ _)

theorem completed_of_complete (hstep : c.complete directory completion = some c')
    : Completed directory c completion (c.callbacks directory completion) c' := by
  cases completion with
  | createMutexNodeComplete id leaderNode =>
    cases hstep
    exact completed_of_createMutexNodeComplete id leaderNode
  | leaderGetChildrenComplete id strings => exact completed_of_leaderGetChildrenComplete hstep
  | deleteMutexCompleted id =>
    cases hstep
    cases hmutex : c.mutex? id with
    | none =>
      rw [Client.rbZkMutexDone, hmutex]
      exact .fault
    | some mutex =>
      rw [rbZkMutexDone_of_mutex? hmutex]
      exact .deleted hmutex
  | previousLeaderWatcher id node =>
    cases hstep
    unfold Client.previousLeaderWatcher
    cases hmutex : c.mutex? id with
    | none => exact .fault
    | some mutex =>
      simp only
      split
      . next hstate => exact .unasked hstate
      . exact .asks hmutex
  | sessionEvent state =>
    cases hstep
    unfold Client.zkWatcher
    split
    . exact .fault
    . cases state with
      | connecting => exact .disconnected
      | connected => exact .connected
      | expiredSession => exact .expired

theorem acted_of_act {a : ClientAction} {effect : Effect}
    (hstep : c.act directory nextSeq a = some effect) (hunlock : ∀ id, a ≠ .rbZkMutexUnlock id)
    : Acted directory nextSeq c a effect := by
  cases taken_of_act hstep with
  | rbZkMutexLock hfault => exact .rbZkMutexLock hfault
  | @rbZkMutexUnlock id _ _ _ => exact absurd rfl (hunlock id)
  | doPendingLocks hfault hcalls => exact .doPendingLocks hfault hcalls
  | resetZkContext hfault hcalls => exact .resetZkContext hfault hcalls
  | complete hfault hinbox hcomplete =>
    exact .complete hfault hinbox (completed_of_complete hcomplete)
  | serve _ hstate hrequests hhandle => exact .serve hstate hrequests hhandle _ rfl
  | refuse _ hstate hrequests _ => exact .refuse hstate hrequests
  | serveLost hlost => exact .serveLost hlost
  | dropLost => exact .dropLost
  | disconnect hdisconnect => exact .disconnect hdisconnect
  | reconnect hreconnect => exact .reconnect hreconnect
  | expire _ => exact .expire

end

end Client

end Zk

end RbMonitor
