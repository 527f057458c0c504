import RbMonitor.Zk.Impl

/-!
This module contains the call that asks for the nodes of the mutexes that were locked while there was
no connection: the list that it goes over, the two locks that it holds, and what a creation that
cannot be asked for does with them.
-/

namespace RbMonitor

namespace Zk

/-- `ZOK`. -/
def ZOK : Int := 0

/-- What the call meets. -/
structure PendingEnv where
  zooState : ZooState
  -- what `zoo_acreate` returns for a mutex
  acreate : Nat → Int
  -- how many mutexes the `error_cb` of a mutex locks, if it has one
  errorCb : Nat → Option Nat
  -- a thread that asks for the write lock that it holds gets `EDEADLK`, or it waits for ever
  edeadlk : Bool

inductive PendingEvent where
  | acreate (mutex : Nat)
  | errorCb (mutex : Nat)
  | released (mutex : Nat)
  -- `leaders_lock` is asked for by the thread that holds it
  | relock
deriving DecidableEq

inductive Stuck where
  | deadlock
  | divergence
deriving DecidableEq

structure PendingLocks where
  pendingLeaders : List Nat
  leadersNodesList : List Nat
  nextMutex : Nat
  -- whether the thread holds `pending_leaders_lock`, and `leaders_lock` for writing
  pendingLeadersLock : Bool := false
  leadersLock : Bool := false
  -- calls that were given to the thread of the handler meanwhile
  calls : List Call := []
  log : List PendingEvent := []

namespace PendingLocks

/-- The lists before the call. -/
def start (pendingLeaders leadersNodesList : List Nat) (nextMutex : Nat) : PendingLocks where
  pendingLeaders
  leadersNodesList
  nextMutex

/-- The state in which the loop begins. -/
def lockBoth (s : PendingLocks) : PendingLocks :=
  { s with pendingLeadersLock := true, leadersLock := true }

variable (env : PendingEnv)

def event (s : PendingLocks) (e : PendingEvent) : PendingLocks :=
  { s with log := s.log ++ [e] }

/-- `pthread_rwlock_wrlock`, whose result is not looked at. -/
def wrlock (s : PendingLocks) : Except Stuck PendingLocks :=
  if !s.leadersLock then
    .ok { s with leadersLock := true }
  else if env.edeadlk then
    .ok (s.event .relock)
  else
    .error .deadlock

/-- `rb_zk_mutex_lock`, as `error_cb` calls it: without `pending_leaders_lock`. -/
def rbZkMutexLock (s : PendingLocks) : PendingLocks :=
  { s with
    pendingLeaders := s.pendingLeaders ++ [s.nextMutex]
    nextMutex := s.nextMutex + 1
    calls := s.calls ++ [.doPendingLocks] }

def callErrorCb (s : PendingLocks) (id : Nat) : PendingLocks :=
  match env.errorCb id with
  | none => s
  | some locked => Nat.repeat rbZkMutexLock locked (s.event (.errorCb id))

def rbZkMutexErrorDone (s : PendingLocks) (id : Nat) : Except Stuck PendingLocks := do
  let s ← s.wrlock env
  let s := { s with leadersNodesList := s.leadersNodesList.erase id, leadersLock := false }
  return (s.callErrorCb env id).event (.released id)

def rbZkMutexLock0 (s : PendingLocks) (id : Nat) : Except Stuck PendingLocks :=
  if env.acreate id ≠ ZOK then s.rbZkMutexErrorDone env id else .ok (s.event (.acreate id))

/-- `TAILQ_NEXT`. -/
def tailqNext (list : List Nat) (id : Nat) : Option Nat :=
  (list.dropWhile (· ≠ id)).tail.head?

/-- The loop over the list, which has the next element before it runs its body. -/
def loop (fuel : Nat) (i : Option Nat) (s : PendingLocks) : Except Stuck PendingLocks :=
  match i with
  | none => .ok s
  | some i =>
    match fuel with
    | 0 => .error .divergence
    | fuel + 1 => do
      let aux := tailqNext s.pendingLeaders i
      let s ← rbZkMutexLock0 env
        { s with
          pendingLeaders := s.pendingLeaders.erase i
          leadersNodesList := s.leadersNodesList ++ [i] }
        i
      loop fuel aux s

def zkWatcherDoPendingLocks (fuel : Nat) (s : PendingLocks) : Except Stuck PendingLocks :=
  if env.zooState ≠ .connected then
    .ok s
  else do
    let s ← { s with pendingLeadersLock := true }.wrlock env
    let s ← loop env fuel s.pendingLeaders.head? s
    return { s with leadersLock := false, pendingLeadersLock := false }

end PendingLocks

open PendingLocks

/-- A call on a connected handle ends, with both locks released and without having asked for one
that it held, and no mutex is lost: its node was asked for, or its owner knows. -/
def Drains (env : PendingEnv) (s : PendingLocks) : Prop :=
  env.zooState = .connected →
    ∃ fuel s', s.zkWatcherDoPendingLocks env fuel = .ok s'
      ∧ .relock ∉ s'.log
      ∧ s'.pendingLeadersLock = false
      ∧ s'.leadersLock = false
      ∧ ∀ id ∈ s.pendingLeaders,
          (id ∈ s'.leadersNodesList ∧ .acreate id ∈ s'.log)
            ∨ (.released id ∈ s'.log ∧ s'.log.count (.errorCb id) = 1)

section

variable {env : PendingEnv}

theorem tailqNext_cons (id : Nat) (list : List Nat) : tailqNext (id :: list) id = list.head? := by
  simp [tailqNext]

theorem loop_of_acreate {s : PendingLocks} (h : ∀ id ∈ s.pendingLeaders, env.acreate id = ZOK)
    {fuel : Nat} (hfuel : s.pendingLeaders.length ≤ fuel)
    : s.loop env fuel s.pendingLeaders.head? =
        .ok { s with
          pendingLeaders := []
          leadersNodesList := s.leadersNodesList ++ s.pendingLeaders
          log := s.log ++ s.pendingLeaders.map .acreate } := by
  rcases s with ⟨pending, leaders, nextMutex, pendingLock, leadersLock, calls, log⟩
  dsimp only at h hfuel ⊢
  induction pending generalizing leaders log fuel with
  | nil => simp [loop]
  | cons id pending ih =>
    cases fuel with
    | zero => simp at hfuel
    | succ fuel =>
      have hid := h id List.mem_cons_self
      have hrest := ih (leaders ++ [id]) (log ++ [.acreate id])
        (fun id' hmem => h id' (List.mem_cons_of_mem _ hmem)) (Nat.le_of_succ_le_succ hfuel)
      simp only [loop, List.head?_cons, tailqNext_cons, List.erase_cons_head, rbZkMutexLock0, hid,
        event, ne_eq, not_true_eq_false, if_false, Bind.bind, Except.bind]
      rw [hrest]
      simp

theorem log_repeat_rbZkMutexLock (locked : Nat) (s : PendingLocks)
    : (Nat.repeat rbZkMutexLock locked s).log = s.log := by
  induction locked with
  | zero => rfl
  | succ locked ih => exact ih

theorem log_callErrorCb (s : PendingLocks) (id : Nat) : s.log <+: (s.callErrorCb env id).log := by
  unfold callErrorCb
  split
  . exact List.prefix_rfl
  . rw [log_repeat_rbZkMutexLock]
    exact List.prefix_append _ _

theorem log_wrlock {s s' : PendingLocks} (h : s.wrlock env = .ok s') : s.log <+: s'.log := by
  unfold wrlock at h
  split at h
  . cases h
    exact List.prefix_rfl
  . split at h
    . cases h
      exact List.prefix_append _ _
    . cases h

theorem log_rbZkMutexErrorDone {s s' : PendingLocks} {id : Nat}
    (h : s.rbZkMutexErrorDone env id = .ok s')
    : ∃ s₁, s.wrlock env = .ok s₁ ∧ s₁.log <+: s'.log := by
  unfold rbZkMutexErrorDone at h
  cases hlock : s.wrlock env with
  | error e =>
    rw [hlock] at h
    cases h
  | ok s₁ =>
    rw [hlock] at h
    cases h
    refine ⟨s₁, rfl, ?_⟩
    let s₂ := { s₁ with leadersNodesList := s₁.leadersNodesList.erase id, leadersLock := false }
    exact (log_callErrorCb s₂ id).trans (List.prefix_append _ _)

theorem log_rbZkMutexLock0 {s s' : PendingLocks} {id : Nat} (h : s.rbZkMutexLock0 env id = .ok s')
    : s.log <+: s'.log := by
  unfold rbZkMutexLock0 at h
  split at h
  . rcases log_rbZkMutexErrorDone h with ⟨s₁, hlock, hlog⟩
    exact (log_wrlock hlock).trans hlog
  . cases h
    exact List.prefix_append _ _

theorem loop_succ_eq_ok {fuel id : Nat} {s s' : PendingLocks}
    : s.loop env (fuel + 1) (some id) = .ok s'
        ↔ ∃ s₁,
            rbZkMutexLock0 env
                { s with
                  pendingLeaders := s.pendingLeaders.erase id
                  leadersNodesList := s.leadersNodesList ++ [id] }
                id =
              .ok s₁
            ∧ s₁.loop env fuel (tailqNext s.pendingLeaders id) = .ok s' := by
  rw [loop]
  dsimp only [Bind.bind, Except.bind]
  split
  . next h => simp [h]
  . next s₁ h => simp [h]

theorem log_loop {fuel : Nat} {i : Option Nat} {s s' : PendingLocks}
    (h : s.loop env fuel i = .ok s')
    : s.log <+: s'.log := by
  induction fuel generalizing i s with
  | zero =>
    cases i with
    | none =>
      cases h
      exact List.prefix_rfl
    | some i => cases h
  | succ fuel ih =>
    cases i with
    | none =>
      cases h
      exact List.prefix_rfl
    | some i =>
      rcases loop_succ_eq_ok.mp h with ⟨s₁, hbody, hrest⟩
      exact (log_rbZkMutexLock0 hbody).trans (ih hrest)

theorem relock_of_not_acreate {s s' : PendingLocks} (hheld : s.leadersLock = true) {id : Nat}
    (hid : env.acreate id ≠ ZOK) (h : s.rbZkMutexLock0 env id = .ok s')
    : .relock ∈ s'.log := by
  unfold rbZkMutexLock0 at h
  rw [if_pos hid] at h
  rcases log_rbZkMutexErrorDone h with ⟨s₁, hlock, hlog⟩
  apply hlog.subset
  simp only [wrlock, hheld, Bool.not_true, Bool.false_eq_true, if_false] at hlock
  split at hlock
  . cases hlock
    simp [event]
  . cases hlock

theorem relock_of_loop {s s' : PendingLocks} (hheld : s.leadersLock = true)
    (hfail : ∃ id ∈ s.pendingLeaders, env.acreate id ≠ ZOK) {fuel : Nat}
    (h : s.loop env fuel s.pendingLeaders.head? = .ok s')
    : .relock ∈ s'.log := by
  rcases s with ⟨pending, leaders, nextMutex, pendingLock, leadersLock, calls, log⟩
  dsimp only at hheld hfail h
  subst hheld
  induction pending generalizing leaders log fuel with
  | nil => simp at hfail
  | cons id pending ih =>
    cases fuel with
    | zero => cases h
    | succ fuel =>
      rcases loop_succ_eq_ok.mp h with ⟨s₁, hbody, hrest⟩
      rw [tailqNext_cons] at hrest
      simp only [List.erase_cons_head] at hbody
      by_cases hid : env.acreate id = ZOK
      . simp only [rbZkMutexLock0, hid, event, ne_eq, not_true_eq_false, if_false,
          Except.ok.injEq] at hbody
        rw [← hbody] at hrest
        apply ih _ _ _ hrest
        rcases hfail with ⟨id', hmem, hfail⟩
        cases List.mem_cons.mp hmem with
        | inl heq => exact absurd (heq ▸ hid) hfail
        | inr hmem => exact ⟨id', hmem, hfail⟩
      . exact (log_loop hrest).subset (relock_of_not_acreate rfl hid hbody)

section

variable (hconnected : env.zooState = .connected) (pending leaders : List Nat) (nextMutex : Nat)

include hconnected

theorem zkWatcherDoPendingLocks_eq_ok {fuel : Nat} {s' : PendingLocks}
    : (start pending leaders nextMutex).zkWatcherDoPendingLocks env fuel = .ok s'
        ↔ ∃ s₁,
            (start pending leaders nextMutex).lockBoth.loop env fuel pending.head? = .ok s₁
            ∧ s' = { s₁ with leadersLock := false, pendingLeadersLock := false } := by
  unfold zkWatcherDoPendingLocks
  simp only [hconnected, ne_eq, not_true_eq_false, if_false, wrlock, start, lockBoth, Bool.not_false,
    if_true, Bind.bind, Except.bind, Pure.pure, Except.pure]
  split
  . next h => simp [h]
  . next s₁ h => simp [h, eq_comm]

theorem zkWatcherDoPendingLocks_of_acreate (h : ∀ id ∈ pending, env.acreate id = ZOK)
    : (start pending leaders nextMutex).zkWatcherDoPendingLocks env pending.length =
        .ok { start [] (leaders ++ pending) nextMutex with log := pending.map .acreate } := by
  rw [zkWatcherDoPendingLocks_eq_ok hconnected]
  let s := (start pending leaders nextMutex).lockBoth
  have hloop : s.loop env pending.length pending.head? = _ :=
    loop_of_acreate (s := s) h (Nat.le_refl _)
  exact ⟨_, hloop, by simp [start, s, lockBoth]⟩

theorem relock_of_zkWatcherDoPendingLocks (hfail : ∃ id ∈ pending, env.acreate id ≠ ZOK) {fuel : Nat}
    {s' : PendingLocks}
    (h : (start pending leaders nextMutex).zkWatcherDoPendingLocks env fuel = .ok s')
    : .relock ∈ s'.log := by
  rcases (zkWatcherDoPendingLocks_eq_ok hconnected pending leaders nextMutex).mp h with
    ⟨s₁, hloop, hs'⟩
  have hrelock : .relock ∈ s₁.log :=
    relock_of_loop (s := (start pending leaders nextMutex).lockBoth) rfl hfail hloop
  rw [hs']
  exact hrelock

end

/-- Pending mutexes are drained exactly when there is no creation that cannot be asked for. -/
theorem drains_iff (env : PendingEnv) (pending leaders : List Nat) (nextMutex : Nat)
    : Drains env (start pending leaders nextMutex)
        ↔ (env.zooState = .connected → ∀ id ∈ pending, env.acreate id = ZOK) := by
  constructor
  . intro hdrains hconnected id hmem
    rcases hdrains hconnected with ⟨fuel, s', hrun, hrelock, _⟩
    by_contra hfail
    exact hrelock
      (relock_of_zkWatcherDoPendingLocks hconnected pending leaders nextMutex ⟨id, hmem, hfail⟩ hrun)
  . intro h hconnected
    refine ⟨_, _, zkWatcherDoPendingLocks_of_acreate hconnected pending leaders nextMutex
      (h hconnected), ?_, rfl, rfl, ?_⟩
    . simp
    . intro id hmem
      exact Or.inl ⟨List.mem_append_right _ hmem, List.mem_map_of_mem hmem⟩

end

/-- One mutex, whose node cannot be asked for. -/
def refusedEnv (edeadlk : Bool) : PendingEnv where
  zooState := .connected
  acreate _ := -9
  errorCb _ := some 1
  edeadlk

/-- The thread asks for `leaders_lock` again, whatever the lock does then. -/
theorem not_drains_refused
    : ¬ Drains (refusedEnv true) (start [0] [] 1) ∧ ¬ Drains (refusedEnv false) (start [0] [] 1) := by
  have hrefused (edeadlk : Bool) : ¬ Drains (refusedEnv edeadlk) (start [0] [] 1) := by
    intro hdrains
    rcases hdrains rfl with ⟨fuel, s', hrun, hrelock, _⟩
    have hfail : ∃ id ∈ [0], (refusedEnv edeadlk).acreate id ≠ ZOK :=
      ⟨0, List.mem_cons_self, (by decide : (-9 : Int) ≠ ZOK)⟩
    exact hrelock (relock_of_zkWatcherDoPendingLocks rfl [0] [] 1 hfail hrun)
  exact ⟨hrefused true, hrefused false⟩

end Zk

end RbMonitor
