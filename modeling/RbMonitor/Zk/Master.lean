import RbMonitor.Zk.Settled

/-!
This module contains the processes that try to be master: each has a mutex of the leader directory,
and the timer of the one that obtained it pushes the sensors.
-/

namespace RbMonitor

namespace Zk

/-- What `struct rb_monitor_zk` knows about the leader. -/
structure Master where
  iAmLeader : Bool := false
  -- whether the timer of `rb_monitor_leader_push_sensors` is started
  timer : Bool := false

namespace Master

def leaderLockStatusChageCb (master : Master) (mutexObtained : Bool) : Master :=
  let master := { master with iAmLeader := mutexObtained }
  if master.iAmLeader then { master with timer := true } else { master with timer := false }

/-- What a mutex calls; `leader_lock_error_cb` leaves it to the machine to try again. -/
def callback (master : Master) : MutexCallback → Master
  | .schangeCb _ obtained => master.leaderLockStatusChageCb obtained
  | .errorCb _ => master

end Master

def MutexCallback.isErrorCb : MutexCallback → Bool
  | .schangeCb _ _ => false
  | .errorCb _ => true

structure Masters where
  lock : Ensemble
  masters : Nat → Master

/-- The callbacks of an action. -/
def Client.called (directory : List Nat) (c : Client) : ClientAction → List MutexCallback
  | .complete => c.inbox.head?.toList.flatMap (c.callbacks directory)
  | _ => []

/-- `try_to_be_master` in each `leader_lock_error_cb`. A process that used a released mutex does not
come to it. -/
def tryToBeMaster (clients : Nat) (lock : Ensemble) (client : Nat) (callbacks : List MutexCallback)
    : Option Ensemble :=
  if lock.clients[client]?.any Client.fault then
    some lock
  else
    (lockMachine clients).runFrom lock
      ((callbacks.filter MutexCallback.isErrorCb).map fun _ => ⟨client, .rbZkMutexLock⟩)

/-- The processes after `init_rbmon_zk`: each has tried once. No mutex is locked but by
`try_to_be_master`, and none is unlocked. -/
def mastersMachine (clients : Nat) : Machine Masters Action where
  init :=
    { lock := { clients := List.replicate clients Client.start.rbZkMutexLock, nextSeq := 0 }
      masters := fun _ => {} }
  step s a :=
    match a.action with
    | .rbZkMutexLock | .rbZkMutexUnlock _ => none
    | action => do
      let c ← s.lock.clients[a.client]?
      let callbacks := c.called s.lock.directory action
      let lock ← (lockMachine clients).step s.lock a
      let lock ← tryToBeMaster clients lock a.client callbacks
      return {
        lock
        masters :=
          Function.update s.masters a.client (callbacks.foldl .callback (s.masters a.client)) }

namespace Master

/-- The process has one mutex, and its timer runs while that is obtained. -/
structure Agrees (master : Master) (c : Client) : Prop where
  one : ∃ mutex, c.mutexes = [mutex] ∧ mutex.iAmLeader = master.iAmLeader ∧
    (mutex.iAmLeader ∨ mutex.id ∈ c.asking → mutex.path ≠ none)
  timer : master.timer = master.iAmLeader

/-- The process has freed its mutex and is to try again. -/
structure Lost (master : Master) (c : Client) : Prop where
  mutexes : c.mutexes = []
  iAmLeader : master.iAmLeader = false
  timer : master.timer = false

section

variable {directory : List Nat} {nextSeq : Nat} {c c' : Client} {master : Master}

theorem Agrees.still (h : master.Agrees c) (hstill : c.Still c') : master.Agrees c' := by
  rcases h.one with ⟨mutex, hone, hleader, hnamed⟩
  have hperm := hstill.mutexes
  rw [hone, List.perm_singleton] at hperm
  refine ⟨⟨mutex, hperm, hleader, ?_⟩, h.timer⟩
  exact fun hmutex => hnamed (hmutex.imp_right (hstill.asking mutex.id))

theorem Lost.rbZkMutexLock (h : master.Lost c) (hplaced : c.Placed directory nextSeq)
    : master.Agrees c.rbZkMutexLock := by
  have hnone := h.mutexes
  rw [Client.mutexes, List.append_eq_nil_iff] at hnone
  refine ⟨⟨{ id := c.nextMutex, path := none, iAmLeader := false }, ?_, h.iAmLeader.symm, ?_⟩, ?_⟩
  . simp [Client.mutexes, Client.rbZkMutexLock, hnone]
  . intro hmutex
    cases hmutex with
    | inl hleader => cases hleader
    | inr hasking =>
      have hlt := hplaced.lt c.nextMutex (Or.inr (Or.inr hasking))
      exact absurd hlt (Nat.lt_irrefl _)
  . rw [h.timer, h.iAmLeader]

theorem eq_of_mutex? {mutex m : Mutex} {id : Nat} (hone : c.mutexes = [mutex])
    (hmutex : c.mutex? id = some m)
    : m = mutex ∧ m.id = id ∧ c.pendingLeaders = [] ∧ c.leadersNodesList = [mutex] := by
  rcases Client.mem_of_mutex? hmutex with ⟨hmem, hid⟩
  rw [Client.mutexes] at hone
  cases hpending : c.pendingLeaders with
  | nil =>
    rw [hpending, List.nil_append] at hone
    rw [hone, List.mem_singleton] at hmem
    exact ⟨hmem, hid, rfl, hone⟩
  | cons m' ms =>
    rw [hpending, List.cons_append, List.cons.injEq, List.append_eq_nil_iff] at hone
    rw [hone.2.2] at hmem
    cases hmem

theorem Agrees.pop (h : master.Agrees c) {completion : Completion} {inbox : List Completion}
    (hinbox : c.inbox = completion :: inbox)
    : master.Agrees { c with inbox } := by
  apply h.still
  refine ⟨.rfl, rfl, ?_⟩
  intro id hid
  rw [Client.mem_asking_iff] at hid ⊢
  rcases hid with hrequest | ⟨completion', hmem, hasks⟩ | hwatch
  . exact Or.inl hrequest
  . exact Or.inr (Or.inl ⟨completion', hinbox ▸ List.mem_cons_of_mem _ hmem, hasks⟩)
  . exact Or.inr (Or.inr hwatch)

theorem Agrees.cleaned (h : master.Agrees c) (calls : List Call)
    : let callbacks := c.leadersNodesList.flatMap fun mutex =>
        [MutexCallback.schangeCb mutex.id false, .errorCb mutex.id]
      (callbacks.filter MutexCallback.isErrorCb = []
          ∧ (callbacks.foldl callback master).Agrees { c with calls, leadersNodesList := [] })
        ∨ ∃ errorCb, callbacks.filter MutexCallback.isErrorCb = [errorCb]
          ∧ (callbacks.foldl callback master).Lost { c with calls, leadersNodesList := [] } := by
  rcases h.one with ⟨mutex, hone, hleader, hnamed⟩
  rw [Client.mutexes] at hone
  cases hpending : c.pendingLeaders with
  | nil =>
    rw [hpending, List.nil_append] at hone
    rw [hone]
    refine Or.inr ⟨.errorCb mutex.id, rfl, ⟨?_, rfl, rfl⟩⟩
    simp [Client.mutexes]
  | cons m ms =>
    rw [hpending, List.cons_append, List.cons.injEq, List.append_eq_nil_iff] at hone
    rcases hone with ⟨rfl, rfl, hleaders⟩
    rw [hleaders]
    refine Or.inl ⟨rfl, ⟨m, ?_, hleader, hnamed⟩, h.timer⟩
    simp [Client.mutexes]

theorem Agrees.completed (h : master.Agrees c) (hplaced : c.Placed directory nextSeq)
    {completion : Completion} {inbox : List Completion} (hinbox : c.inbox = completion :: inbox)
    (hdeletes : completion.deletes = false) {callbacks : List MutexCallback}
    (hstep : Client.Completed directory { c with inbox } completion callbacks c') (hfault : c'.fault = false)
    : (callbacks.filter MutexCallback.isErrorCb = [] ∧ (callbacks.foldl callback master).Agrees c')
      ∨ ∃ errorCb, callbacks.filter MutexCallback.isErrorCb = [errorCb]
          ∧ (callbacks.foldl callback master).Lost c' := by
  have hpop := h.pop hinbox
  rcases h.one with ⟨mutex, hone, hleader, hnamed⟩
  have hmem : mutex ∈ c.mutexes := hone ▸ List.mem_singleton_self mutex
  have hasking (id : Nat) (hasks : completion.asks = some id) : id ∈ c.asking := by
    rw [Client.mem_asking_iff]
    exact Or.inr (Or.inl ⟨completion, hinbox ▸ List.mem_cons_self, hasks⟩)
  have hunnamed (id : Nat) (hcreates : completion.creates = some id) : id ∈ c.unnamed := by
    rw [Client.unnamed, List.mem_append, hinbox]
    exact Or.inr (List.mem_filterMap.mpr ⟨completion, List.mem_cons_self, hcreates⟩)
  -- the mutex is freed, and it did not lead
  have hlost {id : Nat} (hid : mutex.id = id) (hidle : mutex.iAmLeader = false)
      (hleaders : c.pendingLeaders = [] ∧ c.leadersNodesList = [mutex]) (watches : List Watch)
      : master.Lost { { c with inbox }.without id with watches } := by
    refine ⟨?_, ?_, ?_⟩
    . simp [Client.mutexes, Client.without, hleaders.1, hleaders.2, hid]
    . rw [← hleader, hidle]
    . rw [h.timer, ← hleader, hidle]
  cases hstep with
  | fault => cases hfault
  | failed hmutex =>
    rcases eq_of_mutex? hone hmutex with ⟨rfl, hid, hleaders⟩
    have hidle := (hplaced.unnamed _ hmem (hid ▸ hunnamed _ rfl)).2
    exact Or.inr ⟨_, rfl, hlost hid hidle hleaders c.watches⟩
  | late hmutex =>
    rcases eq_of_mutex? hone hmutex with ⟨rfl, hid, hleaders⟩
    have hidle := (hplaced.unnamed _ hmem (hid ▸ hunnamed _ rfl)).2
    exact Or.inr ⟨_, rfl, hlost hid hidle hleaders c.watches⟩
  | @named id node m hmutex hstate =>
    rcases eq_of_mutex? hone hmutex with ⟨heq, hid, hpending, hleaders⟩
    subst heq
    refine Or.inl ⟨rfl, ⟨{ m with path := some node }, ?_, ?_, ?_⟩, h.timer⟩
    . simp [Client.mutexes, Client.request, Client.setMutex, hpending, hleaders]
    . exact hleader
    . intro _ hnone
      cases hnone
  | unlisted => exact Or.inl ⟨rfl, hpop⟩
  | @leads id strings m hmutex =>
    rcases eq_of_mutex? hone hmutex with ⟨heq, hid, hpending, hleaders⟩
    subst heq
    refine Or.inl ⟨rfl, ⟨{ m with iAmLeader := true }, ?_, ?_, ?_⟩, rfl⟩
    . simp [Client.mutexes, Client.setMutex, hpending, hleaders]
    . rfl
    . exact fun _ => hnamed (Or.inr (hid ▸ hasking _ rfl))
  | watched hmutex hbef hstate hfound =>
    rcases eq_of_mutex? hone hmutex with ⟨rfl, hid, _⟩
    refine Or.inl ⟨rfl, ⟨_, hone, hleader, ?_⟩, h.timer⟩
    exact fun _ => hnamed (Or.inr (hid ▸ hasking _ rfl))
  | unwatched hmutex hwatches =>
    rcases eq_of_mutex? hone hmutex with ⟨rfl, hid, hleaders⟩
    have hidle := hplaced.leader _ hmem
    rw [imp_not_comm, Bool.not_eq_true] at hidle
    exact Or.inr ⟨_, rfl, hlost hid (hidle (hid ▸ hasking _ rfl)) hleaders _⟩
  | deleted hmutex => cases hdeletes
  | asks hmutex =>
    rcases eq_of_mutex? hone hmutex with ⟨rfl, hid, _⟩
    refine Or.inl ⟨rfl, ⟨_, hone, hleader, ?_⟩, h.timer⟩
    exact fun _ => hnamed (Or.inr (hid ▸ hasking _ rfl))
  | unasked hstate => exact Or.inl ⟨rfl, hpop⟩
  | connected => exact Or.inl ⟨rfl, hpop.still ⟨.rfl, rfl, fun _ hid => hid⟩⟩
  | disconnected => exact hpop.cleaned c.calls
  | expired => exact hpop.cleaned _

end

end Master

section

variable {clients : Nat}

/-- What is kept while nothing is unlocked. -/
structure Ensemble.Kept (s : Ensemble) : Prop where
  ordered : s.Ordered
  deletesNothing : ∀ (i : Nat) (c : Client), s.clients[i]? = some c → c.DeletesNothing
  settled : ∀ (i : Nat) (c : Client), s.clients[i]? = some c → c.fault = false → c.Settled

theorem Client.fault_delete (c : Client) (gone : List Nat) : (c.delete gone).fault = c.fault :=
  (still_delete gone).fault

theorem kept_step {s s' : Ensemble} {a : Action} (h : s.Kept)
    (hstep : (lockMachine clients).step s a = some s') (hunlock : ∀ id, a.action ≠ .rbZkMutexUnlock id)
    : s'.Kept := by
  rcases lockMachine_step hstep with ⟨c, effect, hc, heffect, _, hclients⟩
  have hacted := Client.acted_of_act heffect hunlock
  rcases (h.deletesNothing a.client c hc).acted hacted with ⟨hdeletes, hgone⟩
  refine ⟨ordered_step h.ordered hstep, ?_, ?_⟩
  . intro i c' hc'
    rw [hclients] at hc'
    rcases Option.map_eq_some_iff.mp hc' with ⟨c₁, hc₁, rfl⟩
    apply Client.DeletesNothing.delete
    split at hc₁
    . cases hc₁
      exact hdeletes
    . exact h.deletesNothing i c₁ hc₁
  . intro i c' hc' hfault
    rw [hclients] at hc'
    rcases Option.map_eq_some_iff.mp hc' with ⟨c₁, hc₁, rfl⟩
    rw [Client.fault_delete] at hfault
    split at hc₁
    . cases hc₁
      have hsettled := h.settled a.client c hc (Client.fault_of_acted hacted hfault)
      apply (hsettled.acted (h.deletesNothing a.client c hc) hacted hfault).delete
      intro seq hmem hnode
      rcases hgone with hnil | ⟨hnil, _⟩
      . rw [hnil] at hmem
        cases hmem
      . rw [Client.HasNode, hnil] at hnode
        cases hnode
    . next hother =>
      apply (h.settled i c₁ hc₁ hfault).delete
      intro seq hmem hnode
      rcases hgone with hnil | ⟨_, howned⟩
      . rw [hnil] at hmem
        cases hmem
      . rcases List.mem_map.mp (howned seq hmem) with ⟨node, hnode₁, rfl⟩
        rcases List.mem_map.mp hnode with ⟨node', hnode₂, hseq⟩
        exact hother (h.ordered.owner i a.client c₁ c hc₁ hc node' hnode₂ node hnode₁ hseq).1

/-- The timers of the processes follow their mutexes. -/
structure Masters.Inv (s : Masters) : Prop where
  kept : s.lock.Kept
  agrees : ∀ (i : Nat) (c : Client), s.lock.clients[i]? = some c → c.fault = false →
    (s.masters i).Agrees c

theorem settled_start : Client.start.Settled := by
  apply Client.settled_of_awake
  . intro completion hmem
    cases hmem
  . intro mutex hmem
    cases hmem
  . intro _ mutex hmem
    cases hmem
  . intro _ completion hmem
    cases hmem
  . intro heq
    cases heq
  . refine ⟨?_, ?_⟩ <;> intro hmem <;> cases hmem

theorem mastersInv_init (clients : Nat) : (mastersMachine clients).init.Inv := by
  have hstart : ∀ (i : Nat) (c : Client),
      (mastersMachine clients).init.lock.clients[i]? = some c → c = Client.start.rbZkMutexLock :=
    fun i c hc => List.eq_of_mem_replicate (List.mem_of_getElem? hc)
  have hdirectory : (mastersMachine clients).init.lock.directory = [] := by
    simp [mastersMachine, Ensemble.directory, Client.start, Client.rbZkMutexLock]
  refine ⟨⟨⟨?_, ?_, ?_⟩, ?_, ?_⟩, ?_⟩
  . intro i c hc
    rw [hstart i c hc, hdirectory]
    exact Client.placed_start.rbZkMutexLock
  . simp [hdirectory]
  . intro i j c c' hc _ node hnode
    rw [hstart i c hc] at hnode
    cases hnode
  . intro i c hc request hmem
    rw [hstart i c hc] at hmem
    cases hmem
  . intro i c hc _
    rw [hstart i c hc]
    exact settled_start.rbZkMutexLock
  . intro i c hc _
    rw [hstart i c hc]
    exact Master.Lost.rbZkMutexLock ⟨rfl, rfl, rfl⟩ Client.placed_start

theorem mastersMachine_step {s s' : Masters} {a : Action}
    (hstep : (mastersMachine clients).step s a = some s')
    : a.action ≠ .rbZkMutexLock ∧ (∀ id, a.action ≠ .rbZkMutexUnlock id) ∧
        ∃ c lock, s.lock.clients[a.client]? = some c ∧ (lockMachine clients).step s.lock a = some lock ∧
          tryToBeMaster clients lock a.client (c.called s.lock.directory a.action) = some s'.lock ∧
          s'.masters = Function.update s.masters a.client
            ((c.called s.lock.directory a.action).foldl .callback (s.masters a.client)) := by
  simp only [mastersMachine] at hstep
  split at hstep
  . cases hstep
  . cases hstep
  . next hlock hunlock =>
    simp only [Option.bind_eq_bind, Option.bind_eq_some_iff, Option.pure_def,
      Option.some.injEq] at hstep
    rcases hstep with ⟨c, hc, lock, hlocked, lock', htried, rfl⟩
    exact ⟨hlock, hunlock, c, lock, hc, hlocked, htried, rfl⟩

theorem tryToBeMaster_of_nil {lock : Ensemble} {client : Nat} {callbacks : List MutexCallback}
    (hnil : callbacks.filter MutexCallback.isErrorCb = [])
    : tryToBeMaster clients lock client callbacks = some lock := by
  rw [tryToBeMaster, hnil]
  split <;> rfl

theorem still_other {s s' : Ensemble} {a : Action} {i : Nat} {c' : Client}
    (hstep : (lockMachine clients).step s a = some s') (hne : i ≠ a.client)
    (hc' : s'.clients[i]? = some c')
    : ∃ c, s.clients[i]? = some c ∧ c.Still c' := by
  rcases lockMachine_step hstep with ⟨_, effect, _, _, _, hclients⟩
  rw [hclients, if_neg hne] at hc'
  rcases Option.map_eq_some_iff.mp hc' with ⟨c, hc, rfl⟩
  exact ⟨c, hc, Client.still_delete effect.gone⟩

theorem run_rbZkMutexLock {lock lock' : Ensemble} {client : Nat} (h : lock.Kept) {as : List Action}
    (has : ∀ a ∈ as, a = ⟨client, .rbZkMutexLock⟩)
    (hrun : (lockMachine clients).runFrom lock as = some lock')
    : lock'.Kept ∧ ∀ (i : Nat) (c' : Client), i ≠ client → lock'.clients[i]? = some c' →
        ∃ c, lock.clients[i]? = some c ∧ c.Still c' := by
  induction as generalizing lock with
  | nil =>
    cases hrun
    exact ⟨h, fun i c' _ hc' => ⟨c', hc', .rfl, rfl, fun _ hid => hid⟩⟩
  | cons a as ih =>
    rcases Machine.runFrom_cons_eq_some.mp hrun with ⟨lock₁, hstep, hrest⟩
    rw [List.forall_mem_cons] at has
    rcases has with ⟨rfl, has⟩
    have hkept := kept_step h hstep fun id heq => by cases heq
    rcases ih hkept has hrest with ⟨hkept', hother⟩
    refine ⟨hkept', ?_⟩
    intro i c' hne hc'
    rcases hother i c' hne hc' with ⟨c₁, hc₁, hstill₁⟩
    rcases still_other hstep hne hc₁ with ⟨c, hc, hstill⟩
    exact ⟨c, hc, hstill.trans hstill₁⟩

theorem tryToBeMaster_kept {lock lock' : Ensemble} {client : Nat} {callbacks : List MutexCallback}
    (h : lock.Kept) (htried : tryToBeMaster clients lock client callbacks = some lock')
    : lock'.Kept ∧ ∀ (i : Nat) (c' : Client), i ≠ client → lock'.clients[i]? = some c' →
        ∃ c, lock.clients[i]? = some c ∧ c.Still c' := by
  unfold tryToBeMaster at htried
  split at htried
  . cases htried
    exact ⟨h, fun i c' _ hc' => ⟨c', hc', .rfl, rfl, fun _ hid => hid⟩⟩
  . apply run_rbZkMutexLock h _ htried
    intro a hmem
    rcases List.mem_map.mp hmem with ⟨_, _, rfl⟩
    rfl

theorem Master.Lost.still {master : Master} {c c' : Client} (h : master.Lost c)
    (hstill : c.Still c')
    : master.Lost c' := by
  have hperm := hstill.mutexes
  rw [h.mutexes, List.perm_nil] at hperm
  exact ⟨hperm, h.iAmLeader, h.timer⟩

theorem Master.Lost.tried {master : Master} {lock lock' : Ensemble} {client : Nat}
    {callbacks : List MutexCallback} {errorCb : MutexCallback} {c c' : Client}
    (hplaced : c.Placed lock.directory lock.nextSeq) (h : master.Lost c)
    (hc : lock.clients[client]? = some c) (hfault : c.fault = false)
    (hone : callbacks.filter MutexCallback.isErrorCb = [errorCb])
    (htried : tryToBeMaster clients lock client callbacks = some lock')
    (hc' : lock'.clients[client]? = some c')
    : master.Agrees c' := by
  rw [tryToBeMaster, hc, Option.any_some, hfault, hone] at htried
  rcases Machine.runFrom_cons_eq_some.mp htried with ⟨lock₁, hstep, hrest⟩
  cases hrest
  rcases lockMachine_step hstep with ⟨d, effect, hd, heffect, _, hclients⟩
  rw [hc, Option.some.injEq] at hd
  subst hd
  simp only [Client.act, hfault, Bool.false_eq_true, ↓reduceIte, Option.some.injEq] at heffect
  subst heffect
  rw [hclients, if_pos rfl, Option.map_some, Option.some.injEq] at hc'
  rw [← hc']
  exact (h.rbZkMutexLock hplaced).still (Client.still_delete _)

theorem Masters.Inv.agrees_self {s : Masters} {a : Action} {c c' : Client} {lock lock' : Ensemble}
    (h : s.Inv) (hlock : a.action ≠ .rbZkMutexLock) (hunlock : ∀ id, a.action ≠ .rbZkMutexUnlock id)
    (hc : s.lock.clients[a.client]? = some c)
    (hlocked : (lockMachine clients).step s.lock a = some lock)
    (htried : tryToBeMaster clients lock a.client (c.called s.lock.directory a.action) = some lock')
    (hc' : lock'.clients[a.client]? = some c') (hfault : c'.fault = false)
    : ((c.called s.lock.directory a.action).foldl .callback (s.masters a.client)).Agrees c' := by
  have hkept := kept_step h.kept hlocked hunlock
  rcases lockMachine_step hlocked with ⟨d, effect, hd, heffect, _, hclients⟩
  rw [hc, Option.some.injEq] at hd
  subst hd
  have hself : lock.clients[a.client]? = some (effect.client.delete effect.gone) := by
    rw [hclients, if_pos rfl, Option.map_some]
  -- without an error callback the process is as the action left it
  have hsame (hnil : (c.called s.lock.directory a.action).filter MutexCallback.isErrorCb = [])
      : effect.client.Still c' := by
    rw [tryToBeMaster_of_nil hnil, Option.some.injEq] at htried
    subst htried
    rw [hself, Option.some.injEq] at hc'
    exact hc' ▸ Client.still_delete effect.gone
  have hacted := Client.acted_of_act heffect hunlock
  by_cases hcomplete : a.action = .complete
  . rw [hcomplete] at hacted htried hsame ⊢
    cases hacted with
    | @complete completion inbox c₁ hnofault hinbox hcompleted =>
      have hcalled : c.called s.lock.directory .complete = c.callbacks s.lock.directory completion := by
        simp [Client.called, hinbox]
      rw [hcalled] at htried hsame ⊢
      cases hfault₁ : c₁.fault with
      | true =>
        rw [tryToBeMaster, hself, Option.any_some, Client.fault_delete, hfault₁, if_pos rfl,
          Option.some.injEq] at htried
        subst htried
        rw [hself, Option.some.injEq] at hc'
        rw [← hc', Client.fault_delete, hfault₁] at hfault
        cases hfault
      | false =>
        have hagrees := h.agrees a.client c hc hnofault
        have hplaced := h.kept.ordered.placed a.client c hc
        have hdeletes := (h.kept.settled a.client c hc hnofault).inbox completion
          (hinbox ▸ List.mem_cons_self)
        rcases hagrees.completed hplaced hinbox hdeletes hcompleted hfault₁ with
          ⟨hnil, hagrees'⟩ | ⟨errorCb, hone, hlost⟩
        . exact hagrees'.still (hsame hnil)
        . exact (hlost.still (Client.still_delete [])).tried (hkept.ordered.placed _ _ hself) hself
            ((Client.fault_delete c₁ []).trans hfault₁) hone htried hc'
  . have hcalled : c.called s.lock.directory a.action = [] := by
      unfold Client.called
      split
      . next heq => exact absurd heq hcomplete
      . rfl
    rw [hcalled] at hsame ⊢
    have hstill := hsame rfl
    have hact := Client.still_acted hacted hlock hcomplete
    exact (h.agrees a.client c hc (by rw [← hact.fault, ← hstill.fault, hfault])).still
      (hact.trans hstill)

theorem mastersInv_step {s s' : Masters} {a : Action} (h : s.Inv)
    (hstep : (mastersMachine clients).step s a = some s')
    : s'.Inv := by
  rcases mastersMachine_step hstep with ⟨hlock, hunlock, c, lock, hc, hlocked, htried, hmasters⟩
  have hkept := kept_step h.kept hlocked hunlock
  rcases tryToBeMaster_kept hkept htried with ⟨hkept', hother⟩
  refine ⟨hkept', ?_⟩
  intro i c' hc' hfault
  by_cases heq : i = a.client
  . subst heq
    rw [hmasters, Function.update_self]
    exact h.agrees_self hlock hunlock hc hlocked htried hc' hfault
  . rw [hmasters, Function.update_of_ne heq]
    rcases hother i c' heq hc' with ⟨c₁, hc₁, hstill₁⟩
    rcases still_other hlocked heq hc₁ with ⟨c₀, hc₀, hstill₀⟩
    have hstill := hstill₀.trans hstill₁
    exact (h.agrees i c₀ hc₀ (hstill.fault ▸ hfault)).still hstill

/-- At most one process whose session lives pushes sensors, and it is the one that obtained the
mutex. -/
structure Masters.OnePusher (s : Masters) : Prop where
  mutex : ∀ (i : Nat) (c : Client), s.lock.clients[i]? = some c → c.fault = false →
    ∃ mutex, c.mutexes = [mutex] ∧ (s.masters i).iAmLeader = mutex.iAmLeader ∧
      (s.masters i).timer = mutex.iAmLeader
  unique : ∀ (i j : Nat) (c d : Client), s.lock.clients[i]? = some c →
    s.lock.clients[j]? = some d → c.fault = false → d.fault = false → c.live → d.live →
    (s.masters i).timer → (s.masters j).timer → i = j

theorem Masters.Inv.onePusher {s : Masters} (h : s.Inv) : s.OnePusher := by
  -- the mutex of a process that pushes leads
  have hleads : ∀ (i : Nat) (c : Client), s.lock.clients[i]? = some c → c.fault = false → c.live →
      (s.masters i).timer → ∃ mutex seq, s.lock.Leads i mutex seq := by
    intro i c hc hfault hlive htimer
    have hagrees := h.agrees i c hc hfault
    rcases hagrees.one with ⟨mutex, hone, hleader, hnamed⟩
    rw [hagrees.timer, ← hleader] at htimer
    rcases Option.ne_none_iff_exists'.mp (hnamed (Or.inl htimer)) with ⟨seq, hseq⟩
    have hmem : mutex ∈ c.mutexes := hone ▸ List.mem_singleton_self mutex
    have hsettled := h.kept.settled i c hc hfault
    have hnode : c.HasNode seq := by
      cases List.mem_append.mp hmem with
      | inl hpending =>
        rw [hsettled.pending mutex hpending] at hseq
        cases hseq
      | inr hleaders => exact hsettled.path hlive mutex hleaders seq hseq
    rcases List.mem_map.mp hnode with ⟨node, hmemNode, hseqNode⟩
    refine ⟨mutex, seq, ⟨c, hc, hmem⟩, htimer, hseq, ?_⟩
    rw [Ensemble.mem_directory]
    exact ⟨c, List.mem_of_getElem? hc, node, hmemNode, hseqNode⟩
  constructor
  . intro i c hc hfault
    have hagrees := h.agrees i c hc hfault
    rcases hagrees.one with ⟨mutex, hone, hleader, _⟩
    exact ⟨mutex, hone, hleader.symm, by rw [hagrees.timer, hleader]⟩
  . intro i j c d hc hd hfault hfault' hlive hlive' htimer htimer'
    rcases hleads i c hc hfault hlive htimer with ⟨mutex, seq, hleads₁⟩
    rcases hleads j d hd hfault' hlive' htimer' with ⟨mutex', seq', hleads₂⟩
    exact (h.kept.ordered.oneLeader.unique i j mutex mutex' seq seq' hleads₁ hleads₂).1

/-- In every state of every run each process has one mutex, its timer runs while that is obtained,
and no two processes with a living session push. -/
theorem atMostOnePusher (clients : Nat) (as : List Action)
    : (mastersMachine clients).Always Masters.OnePusher (mastersMachine clients).init as := by
  apply Machine.Always.imp fun s => Masters.Inv.onePusher
  apply Machine.always_of_inv
  . intro s a s' h hstep
    exact mastersInv_step h hstep
  . exact mastersInv_init clients

/-- A process comes to push. -/
def leadRun (client : Nat) : List Action :=
  [.reconnect, .complete, .call, .serve, .complete, .serve, .complete].map fun a => ⟨client, a⟩

-- a process that has not heard of the end of its session pushes beside the next one
example
    : ((mastersMachine 2).run (leadRun 0 ++ [⟨0, .expire⟩] ++ leadRun 1)).map
        (fun s => [(s.masters 0).timer, (s.masters 1).timer]) = some [true, true] := by
  decide +kernel

end

end Zk

end RbMonitor
