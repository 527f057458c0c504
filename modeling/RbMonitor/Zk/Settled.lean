import RbMonitor.Zk.Acted
import RbMonitor.Zk.Rooted

/-!
This module contains clients that unlock nothing: their nodes are there as long as their session
lives.
-/

namespace RbMonitor

namespace Zk

/-- The node that a completion tells a mutex. -/
def Completion.node : Completion → Option Nat
  | .createMutexNodeComplete _ leaderNode => leaderNode
  | _ => none

def Completion.deletes : Completion → Bool
  | .deleteMutexCompleted _ => true
  | _ => false

def Request.deletes : Request → Bool
  | .adelete _ _ => true
  | _ => false

/-- A completion that tells nothing of the session. -/
structure Completion.Neutral (completion : Completion) : Prop where
  deletes : completion.deletes = false
  node : completion.node = none
  event : completion ≠ .sessionEvent .expiredSession

theorem Request.neutral_failed {request : Request} (h : request.deletes = false)
    : request.failed.Neutral := by
  cases request with
  | acreate mutex | agetChildren mutex => exact ⟨rfl, rfl, by simp [Request.failed]⟩
  | adelete mutex path => cases h

theorem Completion.neutral_of_failed {completion completion' : Completion}
    (h : completion.deletes = false) (hfailed : completion.failed = some completion')
    : completion'.Neutral := by
  cases completion with
  | createMutexNodeComplete mutex leaderNode | leaderGetChildrenComplete mutex strings =>
    cases hfailed
    exact ⟨rfl, rfl, by simp⟩
  | deleteMutexCompleted mutex => cases h
  | previousLeaderWatcher mutex node | sessionEvent state => cases hfailed

namespace Client

def HasNode (c : Client) (seq : Nat) : Prop :=
  seq ∈ c.nodes.map Node.seq

/-- How often the handler is to be reset. -/
def resets (c : Client) : Nat :=
  c.calls.count .resetZkContext + c.inbox.count (.sessionEvent .expiredSession)

def DeletesNothing (c : Client) : Prop :=
  ∀ request ∈ c.requests ++ c.lost, request.deletes = false

/-- A client that unlocks nothing: as long as its session lives, the nodes of its mutexes are there. -/
structure Settled (c : Client) : Prop where
  inbox : ∀ completion ∈ c.inbox, completion.deletes = false
  pending : ∀ mutex ∈ c.pendingLeaders, mutex.path = none
  path : c.live → ∀ mutex ∈ c.leadersNodesList, ∀ seq ∈ mutex.path, c.HasNode seq
  created : c.live → ∀ completion ∈ c.inbox, ∀ seq ∈ completion.node, c.HasNode seq
  expired : c.state = .expiredSession → c.live = false
  resets : c.resets = if c.state = .expiredSession then 1 else 0
  -- nothing of the old session is left when the handler is reset
  quiet : .resetZkContext ∈ c.calls → (∀ mutex ∈ c.leadersNodesList, mutex.path = none) ∧
    ∀ completion ∈ c.inbox, completion.node = none
  after : ∀ before after, c.inbox = before ++ .sessionEvent .expiredSession :: after →
    ∀ completion ∈ after, completion.node = none

section

variable {directory : List Nat} {nextSeq : Nat} {c c' : Client} {id : Nat}

theorem Settled.noReset (h : c.Settled) (hstate : c.state ≠ .expiredSession)
    : .resetZkContext ∉ c.calls ∧ .sessionEvent .expiredSession ∉ c.inbox := by
  have hresets := h.resets
  rw [if_neg hstate, Client.resets, Nat.add_eq_zero_iff] at hresets
  exact ⟨List.count_eq_zero.mp hresets.1, List.count_eq_zero.mp hresets.2⟩

theorem settled_of_awake (hinbox : ∀ completion ∈ c.inbox, completion.deletes = false)
    (hpending : ∀ mutex ∈ c.pendingLeaders, mutex.path = none)
    (hpath : c.live → ∀ mutex ∈ c.leadersNodesList, ∀ seq ∈ mutex.path, c.HasNode seq)
    (hcreated : c.live → ∀ completion ∈ c.inbox, ∀ seq ∈ completion.node, c.HasNode seq)
    (hstate : c.state ≠ .expiredSession)
    (hreset : .resetZkContext ∉ c.calls ∧ .sessionEvent .expiredSession ∉ c.inbox)
    : c.Settled where
  inbox := hinbox
  pending := hpending
  path := hpath
  created := hcreated
  expired heq := absurd heq hstate
  resets := by
    rw [if_neg hstate, Client.resets, List.count_eq_zero.mpr hreset.1,
      List.count_eq_zero.mpr hreset.2]
  quiet hmem := absurd hmem hreset.1
  after before after heq := by
    apply absurd _ hreset.2
    rw [heq]
    exact List.mem_append_right _ List.mem_cons_self

theorem Settled.frame (h : c.Settled) (new : List Completion)
    (hpending : ∀ mutex ∈ c'.pendingLeaders, mutex ∈ c.pendingLeaders ∨ mutex.path = none)
    (hleaders : ∀ mutex ∈ c'.leadersNodesList, mutex.path = none ∨
      ∃ old ∈ c.leadersNodesList, old.path = mutex.path)
    (hinbox : c'.inbox = c.inbox ++ new)
    (hnew : ∀ completion ∈ new, completion.Neutral)
    (hcalls : c'.calls.count .resetZkContext = c.calls.count .resetZkContext)
    (hstate : c'.state = c.state) (hlive : c'.live → c.live)
    (hnodes : c'.live → c.nodes ⊆ c'.nodes)
    : c'.Settled := by
  have hnode : c'.live → ∀ seq, c.HasNode seq → c'.HasNode seq := by
    intro hlive' seq hseq
    exact List.map_subset _ (hnodes hlive') hseq
  have hevent : .sessionEvent .expiredSession ∉ new := fun hmem => (hnew _ hmem).event rfl
  constructor
  . intro completion hmem
    rw [hinbox, List.mem_append] at hmem
    exact hmem.elim (h.inbox completion) fun hmem => (hnew completion hmem).deletes
  . intro mutex hmem
    exact (hpending mutex hmem).elim (h.pending mutex) id
  . intro hlive' mutex hmem seq hseq
    rcases hleaders mutex hmem with hnone | ⟨old, hold, heq⟩
    . rw [hnone] at hseq
      cases hseq
    . exact hnode hlive' seq (h.path (hlive hlive') old hold seq (heq ▸ hseq))
  . intro hlive' completion hmem seq hseq
    rw [hinbox, List.mem_append] at hmem
    cases hmem with
    | inl hold => exact hnode hlive' seq (h.created (hlive hlive') completion hold seq hseq)
    | inr hmem =>
      rw [(hnew completion hmem).node] at hseq
      cases hseq
  . intro hexpired
    have hdead := h.expired (hstate ▸ hexpired)
    cases hlive' : c'.live with
    | false => rfl
    | true => rw [hlive hlive'] at hdead; exact hdead
  . rw [Client.resets, hinbox, List.count_append, hcalls, List.count_eq_zero.mpr hevent, hstate]
    exact h.resets
  . intro hreset
    have hquiet := h.quiet (List.count_pos_iff.mp (hcalls ▸ List.count_pos_iff.mpr hreset))
    refine ⟨?_, ?_⟩
    . intro mutex hmem
      rcases hleaders mutex hmem with hnone | ⟨old, hold, heq⟩
      . exact hnone
      . rw [← heq]
        exact hquiet.1 old hold
    . intro completion hmem
      rw [hinbox, List.mem_append] at hmem
      exact hmem.elim (hquiet.2 completion) fun hmem => (hnew completion hmem).node
  . intro before after heq completion hmem
    rw [hinbox, List.append_eq_append_iff] at heq
    rcases heq with ⟨rest, _, hrest⟩ | ⟨rest, hold, hrest⟩
    . apply absurd _ hevent
      rw [hrest]
      exact List.mem_append_right _ List.mem_cons_self
    . cases rest with
      | nil =>
        rw [List.nil_append] at hrest
        apply absurd _ hevent
        rw [← hrest]
        exact List.mem_cons_self
      | cons event rest =>
        rw [List.cons_append, List.cons.injEq] at hrest
        rcases hrest with ⟨rfl, rfl⟩
        rw [List.mem_append] at hmem
        exact hmem.elim (h.after before rest hold completion) fun hmem => (hnew completion hmem).node

theorem Settled.pop (h : c.Settled) {completion : Completion} {inbox : List Completion}
    (hinbox : c.inbox = completion :: inbox) (hevent : completion ≠ .sessionEvent .expiredSession)
    : { c with inbox := inbox }.Settled where
  inbox := (List.forall_mem_cons.mp (hinbox ▸ h.inbox)).2
  pending := h.pending
  path := h.path
  created hlive := (List.forall_mem_cons.mp (hinbox ▸ h.created hlive)).2
  expired := h.expired
  resets := by
    rw [← h.resets, Client.resets, Client.resets, hinbox, List.count_cons_of_ne hevent]
  quiet hreset :=
    ⟨(h.quiet hreset).1, (List.forall_mem_cons.mp (hinbox ▸ (h.quiet hreset).2)).2⟩
  after before after heq := by
    apply h.after (completion :: before) after
    rw [hinbox]
    exact congrArg (completion :: ·) heq

theorem Settled.still (h : c.Settled) (hpending : c'.pendingLeaders = c.pendingLeaders)
    (hleaders : ∀ mutex ∈ c'.leadersNodesList, ∃ old ∈ c.leadersNodesList, old.path = mutex.path)
    (hinbox : c'.inbox = c.inbox)
    (hcalls : c'.calls.count .resetZkContext = c.calls.count .resetZkContext)
    (hstate : c'.state = c.state) (hlive : c'.live = c.live) (hnodes : c'.nodes = c.nodes)
    : c'.Settled := by
  apply h.frame []
  . exact fun mutex hmem => Or.inl (hpending ▸ hmem)
  . exact fun mutex hmem => Or.inr (hleaders mutex hmem)
  . rw [hinbox, List.append_nil]
  . intro completion hmem
    cases hmem
  . exact hcalls
  . exact hstate
  . exact fun h => hlive ▸ h
  . exact fun _ => hnodes ▸ List.Subset.refl _

theorem Settled.without (h : c.Settled) (id : Nat) : (c.without id).Settled := by
  refine h.still rfl ?_ rfl rfl rfl rfl rfl
  exact fun mutex hmem => ⟨mutex, List.mem_of_mem_filter hmem, rfl⟩

theorem Settled.named (h : c.Settled) {node : Nat} {inbox : List Completion}
    (hinbox : c.inbox = .createMutexNodeComplete id (some node) :: inbox)
    (hstate : c.state ≠ .expiredSession) (mutex : Mutex)
    : (({ c with inbox }.setMutex { mutex with path := some node }).request
        (.agetChildren id)).Settled := by
  have hpop := h.pop hinbox (by simp)
  have hreset := hpop.noReset hstate
  apply settled_of_awake
  . exact hpop.inbox
  . exact hpop.pending
  . intro hlive mutex' hmem seq hseq
    cases mem_setMutex hmem with
    | inl heq =>
      subst heq
      cases hseq
      exact h.created hlive _ (hinbox ▸ List.mem_cons_self) node rfl
    | inr hold => exact hpop.path hlive mutex' hold.1 seq hseq
  . exact hpop.created
  . exact hstate
  . exact hreset

theorem Settled.expiredEvent (h : c.Settled) {inbox : List Completion}
    (hinbox : c.inbox = .sessionEvent .expiredSession :: inbox)
    : { c with inbox, calls := c.calls ++ [Call.resetZkContext], leadersNodesList := [] }.Settled := by
  have hresets := h.resets
  have hstate : c.state = .expiredSession := by
    by_contra hne
    apply (h.noReset hne).2
    rw [hinbox]
    exact List.mem_cons_self
  have hafter := h.after [] inbox hinbox
  constructor
  . exact (List.forall_mem_cons.mp (hinbox ▸ h.inbox)).2
  . exact h.pending
  . intro _ mutex hmem
    cases hmem
  . exact fun hlive => (List.forall_mem_cons.mp (hinbox ▸ h.created hlive)).2
  . exact h.expired
  . rw [← hresets, Client.resets, Client.resets, hinbox]
    simp only [List.count_append, List.count_cons_self, List.count_nil]
    omega
  . intro _
    refine ⟨?_, hafter⟩
    intro mutex hmem
    cases hmem
  . intro before after heq completion hmem
    apply hafter
    rw [show inbox = before ++ .sessionEvent .expiredSession :: after from heq]
    exact List.mem_append_right _ (List.mem_cons_of_mem _ hmem)

theorem Settled.completed (h : c.Settled) {completion : Completion} {inbox : List Completion}
    (hinbox : c.inbox = completion :: inbox) {callbacks : List MutexCallback}
    (hstep : Completed directory { c with inbox } completion callbacks c') (hfault : c'.fault = false)
    : c'.Settled := by
  have hpop := h.pop hinbox
  have hsame (mutex : Mutex) (hmem : mutex ∈ c.leadersNodesList)
      : ∃ old ∈ c.leadersNodesList, old.path = mutex.path :=
    ⟨mutex, hmem, rfl⟩
  cases hstep with
  | fault => cases hfault
  | failed | late | deleted => exact (hpop (by simp)).without _
  | named hmutex hstate => exact h.named hinbox hstate _
  | unlisted => exact hpop (by simp)
  | unasked hstate => exact hpop (by simp)
  | leads hmutex =>
    refine (hpop (by simp)).still rfl ?_ rfl rfl rfl rfl rfl
    intro mutex' hmem
    cases mem_setMutex hmem with
    | inl heq => exact ⟨_, (mem_of_mutex? hmutex).1, by rw [heq]⟩
    | inr hold => exact ⟨mutex', hold.1, rfl⟩
  | watched hmutex hbef hstate hfound => exact (hpop (by simp)).still rfl hsame rfl rfl rfl rfl rfl
  | unwatched hmutex hwatches =>
    exact ((hpop (by simp)).without _).still rfl (fun mutex hmem => ⟨mutex, hmem, rfl⟩) rfl rfl rfl
      rfl rfl
  | asks hmutex => exact (hpop (by simp)).still rfl hsame rfl rfl rfl rfl rfl
  | connected =>
    refine (hpop (by simp)).still rfl hsame rfl ?_ rfl rfl rfl
    simp
  | disconnected =>
    refine (hpop (by simp)).still rfl ?_ rfl rfl rfl rfl rfl
    intro mutex hmem
    cases hmem
  | expired => exact h.expiredEvent hinbox

theorem Settled.rbZkMutexLock (h : c.Settled) : c.rbZkMutexLock.Settled := by
  apply h.frame []
  . intro mutex hmem
    cases List.mem_append.mp hmem with
    | inl hold => exact Or.inl hold
    | inr hnew =>
      rw [List.mem_singleton.mp hnew]
      exact Or.inr rfl
  . exact fun mutex hmem => Or.inr ⟨mutex, hmem, rfl⟩
  . exact (List.append_nil _).symm
  . intro completion hmem
    cases hmem
  . simp [Client.rbZkMutexLock]
  . rfl
  . exact fun hlive => hlive
  . exact fun _ => List.Subset.refl _

theorem Settled.doPendingLocks (h : c.Settled) {calls : List Call}
    (hcalls : c.calls = .doPendingLocks :: calls)
    : { c with calls }.zkWatcherDoPendingLocks.Settled := by
  have hcount : calls.count .resetZkContext = c.calls.count .resetZkContext := by
    rw [hcalls, List.count_cons_of_ne (by simp)]
  have hpop : { c with calls }.Settled :=
    h.still rfl (fun mutex hmem => ⟨mutex, hmem, rfl⟩) rfl hcount rfl rfl rfl
  unfold Client.zkWatcherDoPendingLocks
  split
  . exact hpop
  . apply hpop.frame []
    . intro mutex hmem
      cases hmem
    . intro mutex hmem
      cases List.mem_append.mp hmem with
      | inl hold => exact Or.inr ⟨mutex, hold, rfl⟩
      | inr hpending => exact Or.inl (h.pending mutex hpending)
    . exact (List.append_nil _).symm
    . intro completion hmem
      cases hmem
    . rfl
    . rfl
    . exact fun hlive => hlive
    . exact fun _ => List.Subset.refl _

theorem neutral_failed_of_mem (hrequests : c.DeletesNothing) {completion : Completion}
    (hmem : completion ∈ c.requests.map Request.failed)
    : completion.Neutral := by
  rcases List.mem_map.mp hmem with ⟨request, hrequest, rfl⟩
  exact Request.neutral_failed (hrequests request (List.mem_append_left _ hrequest))

theorem Settled.resetZkContext (h : c.Settled) (hrequests : c.DeletesNothing) {calls : List Call}
    (hcalls : c.calls = .resetZkContext :: calls)
    : { c with calls }.resetZkContext.client.Settled := by
  have hresets : calls.count .resetZkContext = 0
      ∧ c.inbox.count (.sessionEvent .expiredSession) = 0 := by
    have hle := h.resets
    rw [Client.resets, hcalls, List.count_cons_self] at hle
    split at hle <;> omega
  have hquiet := h.quiet (hcalls ▸ List.mem_cons_self)
  apply settled_of_awake
  . intro completion hmem
    cases List.mem_append.mp hmem with
    | inl hold => exact h.inbox completion hold
    | inr hnew => exact (neutral_failed_of_mem hrequests hnew).deletes
  . exact h.pending
  . intro _ mutex hmem seq hseq
    rw [hquiet.1 mutex hmem] at hseq
    cases hseq
  . intro _ completion hmem seq hseq
    cases List.mem_append.mp hmem with
    | inl hold =>
      rw [hquiet.2 completion hold] at hseq
      cases hseq
    | inr hnew =>
      rw [(neutral_failed_of_mem hrequests hnew).node] at hseq
      cases hseq
  . intro heq
    cases heq
  . refine ⟨List.count_eq_zero.mp hresets.1, ?_⟩
    intro hmem
    cases List.mem_append.mp hmem with
    | inl hold => exact List.count_eq_zero.mp hresets.2 hold
    | inr hnew => exact (neutral_failed_of_mem hrequests hnew).event rfl

theorem Settled.receive (h : c.Settled) (hstate : c.state ≠ .expiredSession)
    (hstate' : c'.state ≠ .expiredSession) (hpending : c'.pendingLeaders = c.pendingLeaders)
    (hleaders : c'.leadersNodesList = c.leadersNodesList) (hcalls : c'.calls = c.calls)
    (hlive : c'.live → c.live) (hnodes : ∀ seq, c.HasNode seq → c'.HasNode seq)
    (hinbox : ∀ completion ∈ c'.inbox, completion ∈ c.inbox
      ∨ completion.deletes = false ∧ completion ≠ .sessionEvent .expiredSession
        ∧ ∀ seq ∈ completion.node, c'.HasNode seq)
    : c'.Settled := by
  have hreset := h.noReset hstate
  apply settled_of_awake
  . intro completion hmem
    exact (hinbox completion hmem).elim (h.inbox completion) fun hnew => hnew.1
  . exact hpending ▸ h.pending
  . intro hlive' mutex hmem seq hseq
    exact hnodes seq (h.path (hlive hlive') mutex (hleaders ▸ hmem) seq hseq)
  . intro hlive' completion hmem seq hseq
    cases hinbox completion hmem with
    | inl hold => exact hnodes seq (h.created (hlive hlive') completion hold seq hseq)
    | inr hnew => exact hnew.2.2 seq hseq
  . exact hstate'
  . rw [hcalls]
    refine ⟨hreset.1, ?_⟩
    intro hmem
    cases hinbox _ hmem with
    | inl hold => exact hreset.2 hold
    | inr hnew => exact hnew.2.1 rfl

theorem Settled.reply (h : c.Settled) (hstate : c.state ≠ .expiredSession) {completion : Completion}
    (hdeletes : completion.deletes = false) (hevent : completion ≠ .sessionEvent .expiredSession)
    (hnode : ∀ seq ∈ completion.node, c.HasNode seq)
    : { c with inbox := c.inbox ++ [completion] }.Settled := by
  refine h.receive hstate hstate rfl rfl rfl (fun hlive => hlive) (fun seq hseq => hseq) ?_
  intro completion' hmem
  cases List.mem_append.mp hmem with
  | inl hold => exact Or.inl hold
  | inr hnew =>
    cases List.mem_singleton.mp hnew
    exact Or.inr ⟨hdeletes, hevent, hnode⟩

theorem Settled.addNode (h : c.Settled) (node : Node)
    : { c with nodes := c.nodes ++ [node] }.Settled := by
  apply h.frame []
  . exact fun mutex hmem => Or.inl hmem
  . exact fun mutex hmem => Or.inr ⟨mutex, hmem, rfl⟩
  . exact (List.append_nil _).symm
  . intro completion hmem
    cases hmem
  . rfl
  . rfl
  . exact fun hlive => hlive
  . exact fun _ => List.subset_append_left _ _

theorem Settled.withRequests (h : c.Settled) (requests lost : List Request)
    : { c with requests, lost }.Settled :=
  h.still rfl (fun mutex hmem => ⟨mutex, hmem, rfl⟩) rfl rfl rfl rfl rfl

theorem Settled.disconnect (h : c.Settled) (hrequests : c.DeletesNothing) {received : Nat}
    (hstep : c.disconnect received = some c')
    : c'.Settled := by
  simp only [Client.disconnect, Option.ite_none_left_eq_some, Option.some.injEq] at hstep
  rcases hstep with ⟨hstate, rfl⟩
  rw [not_or, not_not] at hstate
  have hawake : c.state ≠ .expiredSession := by
    rw [hstate.1]
    intro heq
    cases heq
  have hneutral {completion : Completion} (hnew : completion.Neutral)
      : completion.deletes = false ∧ completion ≠ .sessionEvent .expiredSession
        ∧ ∀ seq ∈ completion.node, c.HasNode seq := by
    refine ⟨hnew.deletes, hnew.event, ?_⟩
    intro seq hseq
    rw [hnew.node] at hseq
    cases hseq
  apply h.receive hawake
  . intro heq
    cases heq
  . rfl
  . rfl
  . rfl
  . exact fun hlive => hlive
  . exact fun seq hseq => hseq
  . intro completion hmem
    rw [List.mem_append, List.mem_cons, List.mem_append] at hmem
    rcases hmem with hold | rfl | hlate | hnew
    . exact Or.inl (List.mem_of_mem_take hold)
    . exact Or.inr (hneutral ⟨rfl, rfl, by simp⟩)
    . rcases List.mem_filterMap.mp hlate with ⟨old, hold, hfailed⟩
      have hdeletes := h.inbox old (List.mem_of_mem_drop hold)
      exact Or.inr (hneutral (Completion.neutral_of_failed hdeletes hfailed))
    . exact Or.inr (hneutral (neutral_failed_of_mem hrequests hnew))

theorem Settled.fire (h : c.Settled) (reports : Watch → Bool) : (c.fire reports).Settled := by
  apply h.frame
  . exact fun mutex hmem => Or.inl hmem
  . exact fun mutex hmem => Or.inr ⟨mutex, hmem, rfl⟩
  . rfl
  . intro completion hmem
    rcases List.mem_map.mp hmem with ⟨watch, _, rfl⟩
    exact ⟨rfl, rfl, by simp⟩
  . rfl
  . rfl
  . exact fun hlive => hlive
  . exact fun _ => List.Subset.refl _

theorem Settled.delete (h : c.Settled) {gone : List Nat} (hgone : ∀ seq ∈ gone, ¬c.HasNode seq)
    : (c.delete gone).Settled := by
  have hnodes : (c.nodes.filter fun node => node.seq ∉ gone) = c.nodes := by
    rw [List.filter_eq_self]
    intro node hnode
    simp only [decide_not, Bool.not_eq_eq_eq_not, Bool.not_true, decide_eq_false_iff_not]
    exact fun hmem => hgone node.seq hmem (List.mem_map.mpr ⟨node, hnode, rfl⟩)
  simp only [Client.delete, hnodes]
  split
  . exact h.fire _
  . exact h

theorem state_delete (gone : List Nat) : (c.delete gone).state = c.state := by
  simp only [Client.delete]
  split <;> rfl

theorem Settled.serve (h : c.Settled) (hstate : c.state = .connected)
    {request : Request} {requests : List Request} (hdeletes : request.deletes = false)
    : let handled := { c with requests }.handle directory nextSeq request
      let c' := handled.1.client.delete handled.1.gone
      { c' with inbox := c'.inbox ++ [handled.2] }.Settled := by
  have hpop : { c with requests }.Settled := h.withRequests requests c.lost
  have hnone : ∀ seq ∈ ([] : List Nat), ∀ c' : Client, ¬c'.HasNode seq := by
    intro seq hmem
    cases hmem
  have hawake (c' : Client) (hsame : c'.state = c.state)
      : (c'.delete []).state ≠ .expiredSession := by
    rw [state_delete, hsame, hstate]
    intro heq
    cases heq
  cases request with
  | acreate id =>
    let node : Node := { seq := nextSeq, mutex := id }
    have hadd : ({ c with requests, nodes := c.nodes ++ [node] } : Client).Settled :=
      hpop.addNode node
    refine (hadd.delete fun seq hmem => hnone seq hmem _).reply (hawake _ rfl) rfl ?_ ?_
    . intro heq
      cases heq
    . intro seq hseq
      cases hseq
      rw [Client.HasNode, nodes_delete]
      simp [node]
  | agetChildren id =>
    refine (hpop.delete fun seq hmem => hnone seq hmem _).reply (hawake _ rfl) rfl ?_ ?_
    . intro heq
      cases heq
    . intro seq hseq
      cases hseq
  | adelete id path => cases hdeletes

theorem Settled.reconnect (h : c.Settled) (hstep : c.reconnect directory = some c')
    : c'.Settled := by
  have hawake (hstate : c.state = .connecting) : c.state ≠ .expiredSession := by
    rw [hstate]
    intro heq
    cases heq
  cases Client.reconnects_of_reconnect hstep with
  | connected hstate _ =>
    apply Settled.fire
    refine h.receive (hawake hstate) ?_ rfl rfl rfl (fun hlive => hlive) (fun seq hseq => hseq) ?_
    . intro heq
      cases heq
    . intro completion hmem
      cases List.mem_append.mp hmem with
      | inl hold => exact Or.inl hold
      | inr hnew =>
        cases List.mem_singleton.mp hnew
        refine Or.inr ⟨rfl, by simp, ?_⟩
        intro seq hseq
        cases hseq
  | expired hstate hdead =>
    have hreset := h.noReset (hawake hstate)
    constructor
    . intro completion hmem
      cases List.mem_append.mp hmem with
      | inl hold => exact h.inbox completion hold
      | inr hnew =>
        cases List.mem_singleton.mp hnew
        rfl
    . exact h.pending
    . exact fun hlive => absurd (hdead.symm.trans hlive) Bool.false_ne_true
    . exact fun hlive => absurd (hdead.symm.trans hlive) Bool.false_ne_true
    . exact fun _ => hdead
    . rw [Client.resets, List.count_append, List.count_eq_zero.mpr hreset.1,
        List.count_eq_zero.mpr hreset.2]
      rfl
    . exact fun hmem => absurd hmem hreset.1
    . intro before after heq completion hmem
      rcases List.append_eq_append_iff.mp heq with ⟨rest, _, hrest⟩ | ⟨rest, hold, hrest⟩
      . cases rest with
        | nil =>
          rw [List.nil_append, List.cons.injEq] at hrest
          rw [← hrest.2] at hmem
          cases hmem
        | cons event rest => simp at hrest
      . cases rest with
        | nil =>
          rw [List.nil_append, List.cons.injEq] at hrest
          rw [hrest.2] at hmem
          cases hmem
        | cons event rest =>
          rw [List.cons_append, List.cons.injEq] at hrest
          apply absurd _ hreset.2
          rw [hold, hrest.1]
          exact List.mem_append_right _ List.mem_cons_self

theorem requests_delete (gone : List Nat)
    : (c.delete gone).requests = c.requests ∧ (c.delete gone).lost = c.lost := by
  simp only [Client.delete]
  split <;> exact ⟨rfl, rfl⟩

theorem DeletesNothing.delete (h : c.DeletesNothing) (gone : List Nat)
    : (c.delete gone).DeletesNothing := by
  unfold DeletesNothing
  rw [(requests_delete gone).1, (requests_delete gone).2]
  exact h

theorem DeletesNothing.mono (h : c.DeletesNothing)
    (hsub : ∀ request ∈ c'.requests ++ c'.lost, request ∈ c.requests ++ c.lost)
    : c'.DeletesNothing :=
  fun request hmem => h request (hsub request hmem)

theorem DeletesNothing.request (h : c.DeletesNothing) (id : Nat)
    : (c.request (.agetChildren id)).DeletesNothing := by
  intro request hmem
  simp only [Client.request, List.mem_append, List.mem_singleton] at hmem
  rcases hmem with (hold | rfl) | hlost
  . exact h request (List.mem_append_left _ hold)
  . rfl
  . exact h request (List.mem_append_right _ hlost)

theorem DeletesNothing.completed (h : c.DeletesNothing) {completion : Completion}
    {callbacks : List MutexCallback} (hstep : Completed directory c completion callbacks c')
    : c'.DeletesNothing := by
  cases hstep with
  | named hmutex hstate => exact DeletesNothing.request (c := c.setMutex _) h _
  | asks hmutex => exact h.request _
  | _ => exact h

theorem DeletesNothing.acted {a : ClientAction} {effect : Effect} (h : c.DeletesNothing)
    (hstep : Acted directory nextSeq c a effect)
    : effect.client.DeletesNothing ∧
        (effect.gone = [] ∨ effect.client.nodes = [] ∧ ∀ seq ∈ effect.gone, c.HasNode seq) := by
  cases hstep with
  | rbZkMutexLock hfault => exact ⟨h, Or.inl rfl⟩
  | doPendingLocks hfault hcalls =>
    refine ⟨?_, Or.inl rfl⟩
    unfold Client.zkWatcherDoPendingLocks
    split
    . exact h
    . intro request hmem
      simp only [List.mem_append, List.mem_map] at hmem
      rcases hmem with (hold | ⟨mutex, _, rfl⟩) | hlost
      . exact h request (List.mem_append_left _ hold)
      . rfl
      . exact h request (List.mem_append_right _ hlost)
  | resetZkContext hfault hcalls =>
    refine ⟨?_, Or.inr ⟨rfl, fun seq hmem => hmem⟩⟩
    intro request hmem
    cases hmem
  | @complete _ inbox _ hfault hinbox hcompleted =>
    have hpop : { c with inbox }.DeletesNothing := h
    exact ⟨hpop.completed hcompleted, Or.inl rfl⟩
  | @serve request requests _ hstate hrequests hhandled c' hc' =>
    have hrest : { c with requests }.DeletesNothing := by
      apply h.mono
      intro request' hmem
      rw [hrequests]
      exact List.mem_cons_of_mem _ hmem
    have hrequest := h request (by simp [hrequests])
    subst hhandled hc'
    cases request with
    | acreate id =>
      have hadd : ({ c with
          requests
          nodes := c.nodes ++ [{ seq := nextSeq, mutex := id }] } : Client).DeletesNothing :=
        hrest
      exact ⟨hadd.delete [], Or.inl rfl⟩
    | agetChildren id => exact ⟨hrest.delete [], Or.inl rfl⟩
    | adelete id path => cases hrequest
  | refuse hstate hrequests =>
    refine ⟨h.mono ?_, Or.inl rfl⟩
    intro request hmem
    rw [hrequests]
    exact List.mem_cons_of_mem _ hmem
  | @serveLost request lost hlost =>
    have hrest : { c with lost }.DeletesNothing := by
      apply h.mono
      intro request hmem
      rw [hlost]
      cases List.mem_append.mp hmem with
      | inl hold => exact List.mem_append_left _ hold
      | inr hlost => exact List.mem_append_right _ (List.mem_cons_of_mem _ hlost)
    have hrequest := h request (by simp [hlost])
    cases request with
    | acreate id | agetChildren id => exact ⟨hrest, Or.inl rfl⟩
    | adelete id path => cases hrequest
  | dropLost =>
    refine ⟨h.mono ?_, Or.inl rfl⟩
    intro request hmem
    rw [List.append_nil] at hmem
    exact List.mem_append_left _ hmem
  | disconnect hdisconnect =>
    refine ⟨h.mono ?_, Or.inl rfl⟩
    simp only [Client.disconnect, Option.ite_none_left_eq_some, Option.some.injEq] at hdisconnect
    rcases hdisconnect with ⟨_, rfl⟩
    intro request hmem
    rw [List.nil_append] at hmem
    split at hmem
    . exact List.mem_append.mpr (List.mem_append.mp hmem).symm
    . cases hmem
  | reconnect hreconnect =>
    refine ⟨?_, Or.inl rfl⟩
    cases reconnects_of_reconnect hreconnect with
    | connected _ _ | expired _ _ => exact h
  | expire =>
    refine ⟨h.mono ?_, Or.inr ⟨rfl, fun seq hmem => hmem⟩⟩
    intro request hmem
    rw [List.append_nil] at hmem
    exact List.mem_append_left _ hmem

theorem Settled.expire (h : c.Settled)
    : { c with live := false, lost := [], nodes := [] }.Settled := by
  apply h.frame []
  . exact fun mutex hmem => Or.inl hmem
  . exact fun mutex hmem => Or.inr ⟨mutex, hmem, rfl⟩
  . exact (List.append_nil _).symm
  . intro completion hmem
    cases hmem
  . rfl
  . rfl
  . intro hlive
    cases hlive
  . intro hlive
    cases hlive

theorem Settled.acted {a : ClientAction} {effect : Effect} (h : c.Settled)
    (hrequests : c.DeletesNothing) (hstep : Acted directory nextSeq c a effect)
    (hfault : effect.client.fault = false)
    : effect.client.Settled := by
  cases hstep with
  | rbZkMutexLock => exact h.rbZkMutexLock
  | doPendingLocks _ hcalls => exact h.doPendingLocks hcalls
  | resetZkContext _ hcalls => exact h.resetZkContext hrequests hcalls
  | complete _ hinbox hcompleted => exact h.completed hinbox hcompleted hfault
  | @serve request requests _ hstate hcons hhandled c' hc' =>
    subst hhandled hc'
    exact h.serve hstate (hrequests request (by simp [hcons]))
  | @refuse request requests hstate hcons =>
    have hneutral := Request.neutral_failed (hrequests request (by simp [hcons]))
    have hawake : c.state ≠ .expiredSession := by
      rw [hstate]
      intro heq
      cases heq
    refine (h.withRequests requests c.lost).reply hawake hneutral.deletes hneutral.event ?_
    intro seq hseq
    rw [hneutral.node] at hseq
    cases hseq
  | @serveLost request lost _ =>
    have hpop : { c with lost }.Settled := h.withRequests c.requests lost
    cases request with
    | acreate id => exact hpop.addNode _
    | agetChildren id | adelete id path => exact hpop
  | dropLost => exact h.withRequests c.requests []
  | disconnect hdisconnect => exact h.disconnect hrequests hdisconnect
  | reconnect hreconnect => exact h.reconnect hreconnect
  | expire => exact h.expire

/-- The client keeps its mutexes, and does not ask for more places. -/
structure Still (c c' : Client) : Prop where
  mutexes : c'.mutexes.Perm c.mutexes
  fault : c'.fault = c.fault
  asking : ∀ id ∈ c'.asking, id ∈ c.asking

theorem still_fire (reports : Watch → Bool) : Still c (c.fire reports) := by
  refine ⟨.rfl, rfl, ?_⟩
  intro id hid
  rw [mem_asking_iff] at hid ⊢
  rcases hid with hrequest | ⟨completion, hmem, hasks⟩ | ⟨watch, hmem, hid⟩
  . exact Or.inl hrequest
  . cases List.mem_append.mp hmem with
    | inl hold => exact Or.inr (Or.inl ⟨completion, hold, hasks⟩)
    | inr hnew =>
      rcases List.mem_map.mp hnew with ⟨watch, hwatch, rfl⟩
      cases hasks
      exact Or.inr (Or.inr ⟨watch, List.mem_of_mem_filter hwatch, rfl⟩)
  . exact Or.inr (Or.inr ⟨watch, List.mem_of_mem_filter hmem, hid⟩)

theorem Still.trans {d : Client} (h : Still c c') (h' : Still c' d) : Still c d where
  mutexes := h'.mutexes.trans h.mutexes
  fault := h'.fault.trans h.fault
  asking id hid := h.asking id (h'.asking id hid)

theorem still_delete (gone : List Nat) : Still c (c.delete gone) := by
  have hnodes : Still c { c with nodes := c.nodes.filter fun node => node.seq ∉ gone } :=
    ⟨.rfl, rfl, fun _ hid => hid⟩
  simp only [Client.delete]
  split
  . exact hnodes.trans (still_fire _)
  . exact hnodes

theorem still_reply {request : Request} {requests : List Request}
    (hrequests : c.requests = request :: requests) {completion : Completion}
    (hasks : ∀ id, completion.asks = some id → request.asks = some id)
    (h : Still { c with requests } c')
    : Still c { c' with inbox := c'.inbox ++ [completion] } := by
  refine ⟨h.mutexes, h.fault, ?_⟩
  intro id hid
  have hpop : id ∈ { c with requests }.asking → id ∈ c.asking := by
    rw [mem_asking_iff, mem_asking_iff, hrequests]
    intro hid
    cases hid with
    | inl hrequest =>
      rcases hrequest with ⟨request', hmem, hask⟩
      exact Or.inl ⟨request', List.mem_cons_of_mem _ hmem, hask⟩
    | inr hother => exact Or.inr hother
  rw [mem_asking_iff] at hid
  rcases hid with hrequest | ⟨completion', hmem, hask⟩ | hwatch
  . exact hpop (h.asking id (mem_asking_iff.mpr (Or.inl hrequest)))
  . cases List.mem_append.mp hmem with
    | inl hold => exact hpop (h.asking id (mem_asking_iff.mpr (Or.inr (Or.inl ⟨_, hold, hask⟩))))
    | inr hnew =>
      cases List.mem_singleton.mp hnew
      rw [mem_asking_iff, hrequests]
      exact Or.inl ⟨request, List.mem_cons_self, hasks id hask⟩
  . exact hpop (h.asking id (mem_asking_iff.mpr (Or.inr (Or.inr hwatch))))

theorem mem_asking_failed {requests : List Request} {completion : Completion}
    (hmem : completion ∈ requests.map Request.failed) (hasks : completion.asks = some id)
    : ∃ request ∈ requests, request.asks = some id := by
  rcases List.mem_map.mp hmem with ⟨request, hrequest, rfl⟩
  exact ⟨request, hrequest, by rw [← request.asks_failed, hasks]⟩

theorem still_disconnect {received : Nat} (hstep : c.disconnect received = some c') : Still c c' := by
  simp only [Client.disconnect, Option.ite_none_left_eq_some, Option.some.injEq] at hstep
  rcases hstep with ⟨_, rfl⟩
  refine ⟨.rfl, rfl, ?_⟩
  intro id hid
  rw [mem_asking_iff] at hid ⊢
  rcases hid with ⟨request, hmem, _⟩ | ⟨completion, hmem, hasks⟩ | ⟨watch, hmem, hwatch⟩
  . cases hmem
  . rw [List.mem_append, List.mem_cons, List.mem_append] at hmem
    rcases hmem with hold | rfl | hlate | hnew
    . exact Or.inr (Or.inl ⟨completion, List.mem_of_mem_take hold, hasks⟩)
    . cases hasks
    . rcases List.mem_filterMap.mp hlate with ⟨old, hold, hfailed⟩
      refine Or.inr (Or.inl ⟨old, List.mem_of_mem_drop hold, ?_⟩)
      cases old <;> cases hfailed <;> exact hasks
    . exact Or.inl (mem_asking_failed hnew hasks)
  . cases List.mem_append.mp hmem with
    | inl hold => exact Or.inr (Or.inr ⟨watch, hold, hwatch⟩)
    | inr hlate =>
      rcases List.mem_filterMap.mp hlate with ⟨old, hold, heq⟩
      refine Or.inr (Or.inl ⟨old, List.mem_of_mem_drop hold, ?_⟩)
      cases old <;> cases heq
      exact congrArg some hwatch

theorem still_event (state state' : ZooState)
    : Still c { c with state, inbox := c.inbox ++ [.sessionEvent state'] } := by
  refine ⟨.rfl, rfl, ?_⟩
  intro id hid
  simpa [Client.asking, List.filterMap_cons, Completion.asks] using hid

theorem still_reconnect (hstep : c.reconnect directory = some c') : Still c c' := by
  cases reconnects_of_reconnect hstep with
  | connected _ _ => exact (still_event .connected .connected).trans (still_fire _)
  | expired _ _ => exact still_event .expiredSession .expiredSession

theorem still_doPendingLocks : Still c c.zkWatcherDoPendingLocks := by
  unfold Client.zkWatcherDoPendingLocks
  split
  . exact ⟨.rfl, rfl, fun _ hid => hid⟩
  . refine ⟨?_, rfl, ?_⟩
    . simpa only [Client.mutexes, List.nil_append] using List.perm_append_comm
    . intro id hid
      simp only [Client.asking, List.filterMap_append, filterMap_asks_acreate, List.append_nil] at hid
      exact hid

theorem still_resetZkContext : Still c c.resetZkContext.client := by
  refine ⟨.rfl, rfl, ?_⟩
  intro id hid
  rw [mem_asking_iff] at hid ⊢
  rcases hid with ⟨request, hmem, _⟩ | ⟨completion, hmem, hasks⟩ | ⟨watch, hmem, _⟩
  . cases hmem
  . cases List.mem_append.mp hmem with
    | inl hold => exact Or.inr (Or.inl ⟨completion, hold, hasks⟩)
    | inr hnew => exact Or.inl (mem_asking_failed hnew hasks)
  . cases hmem

theorem still_acted {a : ClientAction} {effect : Effect}
    (hstep : Acted directory nextSeq c a effect) (hlock : a ≠ .rbZkMutexLock)
    (hcomplete : a ≠ .complete)
    : Still c effect.client := by
  have hcalls (calls : List Call) : Still c { c with calls } := ⟨.rfl, rfl, fun _ hid => hid⟩
  cases hstep with
  | rbZkMutexLock => exact absurd rfl hlock
  | complete => exact absurd rfl hcomplete
  | doPendingLocks => exact (hcalls _).trans still_doPendingLocks
  | resetZkContext => exact (hcalls _).trans still_resetZkContext
  | @serve request requests _ hstate hrequests hhandled c' hc' =>
    subst hhandled hc'
    apply still_reply hrequests
    . intro id hasks
      cases request <;> cases hasks
      rfl
    . have hhandle : Still { c with requests }
          ({ c with requests }.handle directory nextSeq request).1.client := by
        cases request <;> exact ⟨.rfl, rfl, fun _ hid => hid⟩
      exact hhandle.trans (still_delete _)
  | @refuse request requests hstate hrequests =>
    refine still_reply hrequests ?_ (⟨.rfl, rfl, fun _ hid => hid⟩ : Still { c with requests } _)
    intro id hasks
    rw [← request.asks_failed, hasks]
  | @serveLost request lost hlost => cases request <;> exact ⟨.rfl, rfl, fun _ hid => hid⟩
  | dropLost => exact ⟨.rfl, rfl, fun _ hid => hid⟩
  | disconnect hdisconnect => exact still_disconnect hdisconnect
  | reconnect hreconnect => exact still_reconnect hreconnect
  | expire => exact ⟨.rfl, rfl, fun _ hid => hid⟩

theorem fault_of_acted {a : ClientAction} {effect : Effect}
    (hstep : Acted directory nextSeq c a effect) (hfault : effect.client.fault = false)
    : c.fault = false := by
  have hstill (hlock : a ≠ .rbZkMutexLock) (hcomplete : a ≠ .complete) : c.fault = false :=
    (still_acted hstep hlock hcomplete).fault ▸ hfault
  cases hstep with
  | rbZkMutexLock hnofault | complete hnofault => exact hnofault
  | _ => exact hstill (by simp) (by simp)

end

end Client

end Zk

end RbMonitor
