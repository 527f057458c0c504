import RbMonitor.Zk.Acted
import RbMonitor.Zk.Queue.Live

/-!
This module contains that the lock is handed on: who has the first node of the directory holds the
lock, or hears of it.
-/

namespace RbMonitor

namespace Zk

/-- Each list of the directory comes and is acted upon while the node to wait for is there, and a
client hears that its connection is lost while it has no node and nothing comes back to a mutex. -/
def Completion.orderly (directory : List Nat) (c : Client) : Completion → Bool
  | .leaderGetChildrenComplete _ none => false
  | .leaderGetChildrenComplete id (some strings) =>
    match (c.mutex? id).bind fun mutex => mutex.path.bind (leaderPreviousString strings) with
    | none => true
    | some befStr => c.state = .connected && befStr ∈ directory
  | .sessionEvent .connecting | .sessionEvent .expiredSession =>
    c.nodes.isEmpty && c.creating.isEmpty && c.watches.isEmpty && c.carried.isEmpty
  | _ => true

/-- A mutex is given back once, as long as there is a connection or the session is over. -/
def ClientAction.orderly (directory : List Nat) (c : Client) : ClientAction → Bool
  | .rbZkMutexUnlock id => id ∉ c.carried && (c.state = .connected || !c.live)
  | .complete => c.inbox.head?.all (·.orderly directory c)
  | _ => true

def Action.orderly (s : Ensemble) (a : Action) : Bool :=
  s.clients[a.client]?.all (a.action.orderly s.directory)

namespace Client

/-- The mutexes that a request, a reply or an event comes back to. -/
def underWay (c : Client) : List Nat :=
  c.requests.map Request.mutex ++ c.inbox.filterMap Completion.mutex

/-- The mutex has a watch on a node of the directory that is before its own. -/
def Watches (directory : List Nat) (c : Client) (mutex : Mutex) : Prop :=
  ∃ watch ∈ c.watches, watch.mutex = mutex.id ∧ watch.found ∧ watch.node ∈ directory ∧
    ∃ seq ∈ mutex.path, watch.node < seq

/-- The mutex holds the lock, or what it waits for comes. -/
def Awaits (directory : List Nat) (c : Client) (mutex : Mutex) : Prop :=
  mutex.iAmLeader ∨ mutex.id ∈ c.underWay ∨ c.Watches directory mutex

/-- The client is about to hear that its connection is lost. -/
def Unaware (c : Client) : Prop :=
  ∃ completion ∈ c.inbox, completion.cleans

def Owner (c : Client) (mutex : Mutex) : Prop :=
  ∃ node ∈ c.nodes, node.mutex = mutex.id

/-- What a mutex with a node waits for comes, unless the client is about to free it. -/
structure Awake (directory : List Nat) (c : Client) : Prop where
  awaits : ¬c.Unaware → ∀ mutex ∈ c.leadersNodesList, c.Owner mutex → c.Awaits directory mutex
  connected : ¬c.Unaware → c.nodes ≠ [] → c.state = .connected
  lost : ¬c.Unaware → c.lost.filterMap Request.creates = []

section

variable {directory directory' : List Nat} {nextSeq : Nat} {c c' : Client} {id : Nat}

theorem mem_underWay
    : id ∈ c.underWay ↔ (∃ request ∈ c.requests, request.mutex = id) ∨
        ∃ completion ∈ c.inbox, completion.mutex = some id := by
  simp only [underWay, List.mem_append, List.mem_map, List.mem_filterMap]

theorem mem_underWay_request (request : Request)
    : request.mutex ∈ (c.request request).underWay :=
  mem_underWay.mpr (Or.inl ⟨request, List.mem_append_right _ (List.mem_singleton_self _), rfl⟩)

theorem Awaits.mono {mutex : Mutex} (h : c.Awaits directory mutex)
    (hunderWay : mutex.id ∈ c.underWay → mutex.id ∈ c'.underWay)
    (hwatches : ∀ watch ∈ c.watches, watch.found → watch.node ∈ directory →
      watch ∈ c'.watches ∧ watch.node ∈ directory' ∨ watch.mutex ∈ c'.underWay)
    : c'.Awaits directory' mutex := by
  rcases h with hleader | hmem | ⟨watch, hmem, hid, hfound, hnode, hseq⟩
  . exact Or.inl hleader
  . exact Or.inr (Or.inl (hunderWay hmem))
  . cases hwatches watch hmem hfound hnode with
    | inl hstill => exact Or.inr (Or.inr ⟨watch, hstill.1, hid, hfound, hstill.2, hseq⟩)
    | inr hfired => exact Or.inr (Or.inl (hid ▸ hfired))

theorem awake_of_unaware (h : c.Unaware) : c.Awake directory :=
  ⟨fun hnot => absurd h hnot, fun hnot => absurd h hnot, fun hnot => absurd h hnot⟩

theorem awake_of_nil (hnodes : c.nodes = []) (hlost : c.lost.filterMap Request.creates = [])
    : c.Awake directory := by
  refine ⟨?_, fun _ hne => absurd hnodes hne, fun _ => hlost⟩
  intro _ mutex _ howner
  rcases howner with ⟨node, hmem, _⟩
  rw [hnodes] at hmem
  cases hmem

theorem Awake.frame (h : c.Awake directory) (hinbox : ∀ completion ∈ c.inbox, completion.cleans →
      completion ∈ c'.inbox)
    (hawaits : ¬c.Unaware → ∀ mutex ∈ c'.leadersNodesList, c'.Owner mutex →
      c'.Awaits directory' mutex)
    (hnodes : c'.nodes ≠ [] → c.nodes ≠ []) (hstate : c.nodes ≠ [] → c'.state = c.state)
    (hlost : c'.lost ⊆ c.lost)
    : c'.Awake directory' := by
  have hunaware : ¬c'.Unaware → ¬c.Unaware := by
    intro hnot hold
    rcases hold with ⟨completion, hmem, hcleans⟩
    exact hnot ⟨completion, hinbox completion hmem hcleans, hcleans⟩
  refine ⟨fun hnot => hawaits (hunaware hnot), ?_, ?_⟩
  . intro hnot hne
    rw [hstate (hnodes hne)]
    exact h.connected (hunaware hnot) (hnodes hne)
  . intro hnot
    have hnone := h.lost (hunaware hnot)
    rw [List.filterMap_eq_nil_iff] at hnone ⊢
    exact fun request hmem => hnone request (hlost hmem)

theorem Awake.mono (h : c.Awake directory) (hleaders : c'.leadersNodesList ⊆ c.leadersNodesList)
    (hnodes : c'.nodes ⊆ c.nodes) (hstate : c.nodes ≠ [] → c'.state = c.state)
    (hlost : c'.lost ⊆ c.lost)
    (hinbox : ∀ completion ∈ c.inbox, completion.cleans → completion ∈ c'.inbox)
    (hunderWay : ∀ mutex ∈ c'.leadersNodesList, mutex.id ∈ c.underWay → mutex.id ∈ c'.underWay)
    (hwatches : ¬c.Unaware → c.nodes ≠ [] → ∀ watch ∈ c.watches, watch.found →
      watch.node ∈ directory →
      watch ∈ c'.watches ∧ watch.node ∈ directory' ∨ watch.mutex ∈ c'.underWay)
    : c'.Awake directory' := by
  have hne : c'.nodes ≠ [] → c.nodes ≠ [] := by
    intro hne hnil
    rw [hnil] at hnodes
    exact hne (List.eq_nil_of_subset_nil hnodes)
  apply h.frame hinbox _ hne hstate hlost
  intro hnot mutex hmem howner
  rcases howner with ⟨node, hnode, hid⟩
  apply (h.awaits hnot mutex (hleaders hmem) ⟨node, hnodes hnode, hid⟩).mono
  . exact hunderWay mutex hmem
  . exact hwatches hnot (List.ne_nil_of_mem (hnodes hnode))

/-! ### The completions -/

theorem Awake.settle {completion : Completion} {inbox : List Completion} (h : c.Awake directory)
    (hinbox : c.inbox = completion :: inbox) (hcleans : completion.cleans = false)
    (hleaders : ¬c.Unaware → ∀ mutex ∈ c'.leadersNodesList, c.Owner mutex →
      c'.Awaits directory mutex ∨
        mutex ∈ c.leadersNodesList ∧ completion.mutex ≠ some mutex.id)
    (hrequests : c.requests ⊆ c'.requests) (hrest : c'.inbox = inbox)
    (hwatches : c.watches ⊆ c'.watches) (hstate : c'.state = c.state) (hnodes : c'.nodes = c.nodes)
    (hlost : c'.lost = c.lost)
    : c'.Awake directory := by
  have hkept : ∀ other ∈ c.inbox, other.cleans → other ∈ c'.inbox := by
    intro other hmem hother
    rw [hinbox] at hmem
    rw [hrest]
    cases List.mem_cons.mp hmem with
    | inl heq =>
      rw [heq, hcleans] at hother
      cases hother
    | inr hmem => exact hmem
  apply h.frame hkept _ (hnodes ▸ fun hne => hne) (fun _ => hstate) (hlost ▸ List.Subset.refl _)
  intro hnot mutex hmem howner
  unfold Owner at howner
  rw [hnodes] at howner
  cases hleaders hnot mutex hmem howner with
  | inl hawaits => exact hawaits
  | inr hold =>
    apply (h.awaits hnot mutex hold.1 howner).mono
    . rw [mem_underWay, mem_underWay, hrest, hinbox]
      intro hunderWay
      rcases hunderWay with ⟨request, hmem', hid⟩ | ⟨other, hmem', hid⟩
      . exact Or.inl ⟨request, hrequests hmem', hid⟩
      . cases List.mem_cons.mp hmem' with
        | inl heq => exact absurd (heq ▸ hid) hold.2
        | inr hmem' => exact Or.inr ⟨other, hmem', hid⟩
    . intro watch hmem' _ hnode
      exact Or.inl ⟨hwatches hmem', hnode⟩

theorem Awake.without {completion : Completion} {inbox : List Completion} (h : c.Awake directory)
    (hinbox : c.inbox = completion :: inbox) (hcleans : completion.cleans = false)
    (hid : completion.mutex = some id) {watches : List Watch} (hwatches : c.watches ⊆ watches)
    : Awake directory { { c with inbox }.without id with watches } := by
  refine h.settle hinbox hcleans ?_ (List.Subset.refl _) rfl hwatches rfl rfl rfl
  intro _ mutex hmem _
  rcases List.mem_filter.mp hmem with ⟨hold, hne⟩
  refine Or.inr ⟨hold, ?_⟩
  rw [hid]
  simpa using Ne.symm (of_decide_eq_true hne)

theorem Awake.setMutex {completion : Completion} {inbox : List Completion} (h : c.Awake directory)
    (hinbox : c.inbox = completion :: inbox) (hcleans : completion.cleans = false) (new : Mutex)
    (hid : completion.mutex = some new.id) {requests : List Request}
    (hrequests : c.requests ⊆ requests)
    (hnew : Awaits directory { { c with inbox }.setMutex new with requests } new)
    : Awake directory { { c with inbox }.setMutex new with requests } := by
  refine h.settle hinbox hcleans ?_ hrequests rfl (List.Subset.refl _) rfl rfl rfl
  intro _ mutex hmem _
  cases mem_setMutex hmem with
  | inl heq => exact Or.inl (heq ▸ hnew)
  | inr hold =>
    refine Or.inr ⟨hold.1, ?_⟩
    rw [hid]
    simpa using Ne.symm hold.2

theorem Awake.completed (h : c.Awake directory) (hplaced : c.Placed directory nextSeq)
    {completion : Completion} {inbox : List Completion} (hinbox : c.inbox = completion :: inbox)
    (hgood : completion.orderly directory c) {callbacks : List MutexCallback}
    (hstep : Completed directory { c with inbox } completion callbacks c')
    (hfault : c'.fault = false)
    : c'.Awake directory := by
  have hsame : ∀ calls, completion.cleans = false →
      (∀ mutex ∈ c.leadersNodesList, completion.mutex ≠ some mutex.id) →
        Awake directory { c with inbox, calls } := by
    intro calls hcleans hnone
    refine h.settle hinbox hcleans ?_ (List.Subset.refl _) rfl (List.Subset.refl _) rfl rfl rfl
    exact fun _ mutex hmem _ => Or.inr ⟨hmem, hnone mutex hmem⟩
  cases hstep with
  | fault => cases hfault
  | failed hmutex | late hmutex | deleted hmutex =>
    exact h.without hinbox rfl rfl (List.Subset.refl _)
  | unwatched hmutex hwatches => exact h.without hinbox rfl rfl hwatches
  | @named id node mutex hmutex hstate =>
    have hid := id_of_mutex? hmutex
    have hnew : Awaits directory
        (({ c with inbox }.setMutex { mutex with path := some node }).request (.agetChildren id))
        { mutex with path := some node } := by
      refine Or.inr (Or.inl ?_)
      rw [hid]
      exact mem_underWay_request (.agetChildren id)
    exact h.setMutex hinbox rfl { mutex with path := some node } (congrArg some hid.symm)
      (List.subset_append_left _ _) hnew
  | unlisted => cases hgood
  | @leads id strings mutex hmutex =>
    have hid := id_of_mutex? hmutex
    have hnew : Awaits directory ({ c with inbox }.setMutex { mutex with iAmLeader := true })
        { mutex with iAmLeader := true } := Or.inl rfl
    exact h.setMutex hinbox rfl { mutex with iAmLeader := true } (congrArg some hid.symm)
      (List.Subset.refl _) hnew
  | @watched id befStr strings mutex hmutex hbef hstate hfound =>
    refine h.settle hinbox rfl ?_ (List.Subset.refl _) rfl (List.subset_append_left _ _) rfl rfl rfl
    intro _ mutex' hmem _
    by_cases heq : mutex'.id = id
    . left
      have hsame : mutex' = mutex :=
        hplaced.eq_of_mem_mutexes (List.mem_append_right _ hmem) (mem_mutexes hmutex)
          (heq.trans (id_of_mutex? hmutex).symm)
      subst hsame
      rcases Option.bind_eq_some_iff.mp hbef with ⟨seq, hseq, hprevious⟩
      exact Or.inr (Or.inr ⟨_, List.mem_append_right _ (List.mem_singleton_self _), heq.symm, rfl,
        hfound, seq, hseq, (leaderPreviousString_eq_some_iff.mp hprevious).1.2⟩)
    . exact Or.inr ⟨hmem, by simpa [Completion.mutex] using Ne.symm heq⟩
  | @asks id node mutex hmutex =>
    refine h.settle hinbox rfl ?_ (List.subset_append_left _ _) rfl (List.Subset.refl _) rfl rfl rfl
    intro _ mutex' hmem _
    by_cases heq : mutex'.id = id
    . left
      refine Or.inr (Or.inl ?_)
      rw [heq]
      exact mem_underWay_request (.agetChildren id)
    . exact Or.inr ⟨hmem, by simpa [Completion.mutex] using Ne.symm heq⟩
  | unasked hstate =>
    -- the nodes of the session are gone, or its end is not heard of yet
    refine h.settle hinbox rfl ?_ (List.Subset.refl _) rfl (List.Subset.refl _) rfl rfl rfl
    intro hnot mutex hmem howner
    rcases howner with ⟨node, hnode, _⟩
    cases (h.connected hnot (List.ne_nil_of_mem hnode)).symm.trans hstate
  | connected => exact hsame _ rfl (by simp [Completion.mutex])
  | disconnected | expired =>
    simp only [Completion.orderly, Bool.and_eq_true, List.isEmpty_iff] at hgood
    have hcreating := hgood.1.1.2
    simp only [Client.creating, List.filterMap_append, List.append_eq_nil_iff] at hcreating
    refine awake_of_nil ?_ ?_
    . exact hgood.1.1.1
    . exact hcreating.1

/-! ### The other actions -/

theorem underWay_subset (hrequests : c.requests ⊆ c'.requests) (hinbox : c.inbox ⊆ c'.inbox)
    : c.underWay ⊆ c'.underWay := by
  intro i hmem
  rw [mem_underWay] at hmem ⊢
  rcases hmem with ⟨request, hmem, hid⟩ | ⟨completion, hmem, hid⟩
  . exact Or.inl ⟨request, hrequests hmem, hid⟩
  . exact Or.inr ⟨completion, hinbox hmem, hid⟩

theorem Awake.same (h : c.Awake directory) (hleaders : c'.leadersNodesList ⊆ c.leadersNodesList)
    (hnodes : c'.nodes = c.nodes) (hstate : c'.state = c.state) (hlost : c'.lost ⊆ c.lost)
    (hwatches : c'.watches = c.watches) (hrequests : c.requests ⊆ c'.requests)
    (hinbox : c.inbox ⊆ c'.inbox)
    : c'.Awake directory := by
  apply h.mono hleaders
  . exact hnodes ▸ List.Subset.refl _
  . exact fun _ => hstate
  . exact hlost
  . exact fun _ hmem _ => hinbox hmem
  . exact fun _ _ hmem => underWay_subset hrequests hinbox hmem
  . exact fun _ _ watch hmem _ hnode => Or.inl ⟨hwatches ▸ hmem, hnode⟩

theorem underWay_reply {request : Request} {requests : List Request} {reply : Completion}
    (hrequests : c.requests = request :: requests) (hreply : reply.mutex = some request.mutex)
    (hrest : c'.requests = requests) (hinbox : c'.inbox = c.inbox ++ [reply])
    : c.underWay ⊆ c'.underWay := by
  intro i hmem
  rw [mem_underWay, hrest, hinbox]
  rw [mem_underWay, hrequests] at hmem
  rcases hmem with ⟨request', hmem, hid⟩ | ⟨completion, hmem, hid⟩
  . cases List.mem_cons.mp hmem with
    | inl heq =>
      subst heq
      exact Or.inr ⟨reply, List.mem_append_right _ (List.mem_singleton_self _), hid ▸ hreply⟩
    | inr hmem => exact Or.inl ⟨request', hmem, hid⟩
  . exact Or.inr ⟨completion, List.mem_append_left _ hmem, hid⟩

theorem Awake.reply (h : c.Awake directory) {request : Request} {requests : List Request}
    {reply : Completion} (hrequests : c.requests = request :: requests)
    (hreply : reply.mutex = some request.mutex)
    (hleaders : c'.leadersNodesList = c.leadersNodesList)
    (hnodes : ∀ node ∈ c'.nodes, node ∈ c.nodes ∨ node.mutex = request.mutex)
    (hconnected : c.state = .connected) (hstate : c'.state = c.state) (hlost : c'.lost = c.lost)
    (hwatches : c'.watches = c.watches) (hrest : c'.requests = requests)
    (hinbox : c'.inbox = c.inbox ++ [reply])
    : c'.Awake directory := by
  have hunaware : ¬c'.Unaware → ¬c.Unaware := by
    intro hnot hold
    rcases hold with ⟨completion, hmem, hcleans⟩
    exact hnot ⟨completion, hinbox ▸ List.mem_append_left _ hmem, hcleans⟩
  have hunderWay := underWay_reply hrequests hreply hrest hinbox
  refine ⟨?_, fun _ _ => hstate.trans hconnected, fun hnot => hlost ▸ h.lost (hunaware hnot)⟩
  intro hnot mutex hmem howner
  rcases howner with ⟨node, hnode, hid⟩
  cases hnodes node hnode with
  | inl hold =>
    apply (h.awaits (hunaware hnot) mutex (hleaders ▸ hmem) ⟨node, hold, hid⟩).mono
    . exact fun hmem => hunderWay hmem
    . exact fun watch hmem _ hnode => Or.inl ⟨hwatches ▸ hmem, hnode⟩
  | inr hnew =>
    refine Or.inr (Or.inl (hunderWay ?_))
    rw [← hid, hnew, mem_underWay, hrequests]
    exact Or.inl ⟨request, List.mem_cons_self, rfl⟩

theorem Awake.fire (h : c.Awake directory) {reports : Watch → Bool} {nodes : List Node}
    (hnodes : nodes ⊆ c.nodes)
    (hreports : ∀ watch ∈ c.watches, watch.found → watch.node ∈ directory →
      reports watch = false → watch.node ∈ directory')
    : Awake directory' (Client.fire { c with nodes } reports) := by
  have hinbox : c.inbox ⊆ (Client.fire { c with nodes } reports).inbox :=
    List.subset_append_left _ _
  apply h.mono
  . exact List.Subset.refl _
  . exact hnodes
  . exact fun _ => rfl
  . exact List.Subset.refl _
  . exact fun _ hmem _ => hinbox hmem
  . refine fun _ _ hmem => underWay_subset ?_ hinbox hmem
    exact List.Subset.refl _
  . intro _ _ watch hmem hfound hnode
    cases hwatch : reports watch with
    | false =>
      left
      refine ⟨List.mem_filter.mpr ⟨hmem, ?_⟩, hreports watch hmem hfound hnode hwatch⟩
      simp [hwatch]
    | true =>
      right
      rw [mem_underWay]
      refine Or.inr ⟨_, List.mem_append_right _ (List.mem_map.mpr ⟨watch, ?_, rfl⟩), rfl⟩
      exact List.mem_filter.mpr ⟨hmem, hwatch⟩

theorem Awake.delete (h : c.Awake directory) {gone : List Nat}
    (hdirectory : ∀ q ∈ directory, q ∉ gone → q ∈ directory')
    : (c.delete gone).Awake directory' := by
  have hnodes : (c.nodes.filter fun node => node.seq ∉ gone) ⊆ c.nodes := List.filter_subset_self _
  simp only [Client.delete]
  split
  . apply h.fire hnodes
    intro watch _ hfound hnode hreports
    apply hdirectory _ hnode
    simpa [Watch.reports, hfound] using hreports
  . next hstate =>
    -- without a connection there are no nodes to wait for
    apply h.mono
    . exact List.Subset.refl _
    . exact hnodes
    . exact fun _ => rfl
    . exact List.Subset.refl _
    . exact fun _ hmem _ => hmem
    . exact fun _ _ hmem => hmem
    . exact fun hnot hne => absurd (h.connected hnot hne) hstate

theorem Awake.serve (h : c.Awake directory) (hstate : c.state = .connected) {request : Request}
    {requests : List Request} (hrequests : c.requests = request :: requests)
    {handled : Effect × Completion}
    (hhandled : { c with requests }.handle directory nextSeq request = handled)
    {c₁ : Client} (hc₁ : handled.1.client.delete handled.1.gone = c₁)
    (hdirectory : ∀ q ∈ directory, q ∉ handled.1.gone → q ∈ directory')
    : Awake directory' { c₁ with inbox := c₁.inbox ++ [handled.2] } := by
  have hdelete := h.delete hdirectory
  have hfire : ∀ c : Client, c.state = .connected → c.delete handled.1.gone
      = ({ c with nodes := c.nodes.filter fun node => node.seq ∉ handled.1.gone }).fire
          (Watch.reports handled.1.gone) := fun c hstate => if_pos hstate
  rw [hfire c hstate] at hdelete
  subst hc₁ hhandled
  cases request with
  | acreate i =>
    rw [hfire _ (by exact hstate)]
    refine hdelete.reply hrequests rfl rfl ?_ hstate rfl rfl rfl rfl rfl
    intro node hmem
    rcases List.mem_filter.mp hmem with ⟨hmem, hkept⟩
    cases List.mem_append.mp hmem with
    | inl hold => exact Or.inl (List.mem_filter.mpr ⟨hold, hkept⟩)
    | inr hnew => exact Or.inr (congrArg Node.mutex (List.mem_singleton.mp hnew))
  | agetChildren i | adelete i path =>
    rw [hfire _ (by exact hstate)]
    exact hdelete.reply hrequests rfl rfl (fun _ hmem => Or.inl hmem) hstate rfl rfl rfl rfl rfl

theorem Awake.doPendingLocks (h : c.Awake directory) (calls : List Call)
    : ({ c with calls }.zkWatcherDoPendingLocks).Awake directory := by
  unfold Client.zkWatcherDoPendingLocks
  split
  . exact h.same (List.Subset.refl _) rfl rfl (List.Subset.refl _) rfl (List.Subset.refl _)
      (List.Subset.refl _)
  . apply h.frame
    . exact fun _ hmem _ => hmem
    . intro hnot mutex hmem howner
      cases List.mem_append.mp hmem with
      | inl hold =>
        apply (h.awaits hnot mutex hold howner).mono
        . refine fun hmem => underWay_subset ?_ ?_ hmem
          . exact List.subset_append_left _ _
          . exact List.Subset.refl _
        . exact fun watch hwatch _ hnode => Or.inl ⟨hwatch, hnode⟩
      | inr hnew =>
        refine Or.inr (Or.inl (mem_underWay.mpr (Or.inl ⟨.acreate mutex.id, ?_, rfl⟩)))
        exact List.mem_append_right _ (List.mem_map_of_mem hnew)
    . exact fun hne => hne
    . exact fun _ => rfl
    . exact List.Subset.refl _

theorem Awake.rbZkMutexUnlock (h : c.Awake directory) (hstep : c.rbZkMutexUnlock id = some c')
    : c'.Awake directory := by
  cases unlocks_of_rbZkMutexUnlock hstep with
  | deletes _ _ _ =>
    exact h.same (List.Subset.refl _) rfl rfl (List.Subset.refl _) rfl
      (List.subset_append_left _ _) (List.Subset.refl _)
  | frees hmutex _ _ =>
    rw [rbZkMutexDone_of_mutex? hmutex]
    exact h.same (List.filter_subset_self _) rfl rfl (List.Subset.refl _) rfl (List.Subset.refl _)
      (List.Subset.refl _)

theorem Awake.disconnect {received : Nat} (hstep : c.disconnect received = some c')
    : c'.Awake directory := by
  rcases Option.ite_none_left_eq_some.mp hstep with ⟨_, hsome⟩
  rw [← Option.some.inj hsome]
  refine awake_of_unaware ⟨.sessionEvent .connecting, ?_, rfl⟩
  exact List.mem_append_right _ List.mem_cons_self

theorem Awake.reconnect (h : c.Awake directory) (hstep : c.reconnect directory = some c')
    : c'.Awake directory := by
  cases reconnects_of_reconnect hstep with
  | connected hstate _ =>
    by_cases hunaware : c.Unaware
    . rcases hunaware with ⟨completion, hmem, hcleans⟩
      refine awake_of_unaware ⟨completion, ?_, hcleans⟩
      exact List.mem_append_left _ (List.mem_append_left _ hmem)
    -- the connection was lost before the client had a node
    . have hnodes : c.nodes = [] := by
        apply Classical.byContradiction
        intro hne
        cases hstate.symm.trans (h.connected hunaware hne)
      exact awake_of_nil hnodes (h.lost hunaware)
  | expired _ _ =>
    refine awake_of_unaware ⟨.sessionEvent .expiredSession, ?_, rfl⟩
    exact List.mem_append_right _ (List.mem_singleton_self _)

theorem Awake.serveLost (h : c.Awake directory) {request : Request} {lost : List Request}
    (hlost : c.lost = request :: lost)
    : Awake directory ({ c with lost }.handle directory nextSeq request).1.client := by
  have hfewer : lost ⊆ c.lost := hlost ▸ List.subset_cons_self _ _
  have hsame : Awake directory { c with lost } :=
    h.same (List.Subset.refl _) rfl rfl hfewer rfl (List.Subset.refl _) (List.Subset.refl _)
  cases request with
  | acreate i =>
    by_cases hunaware : c.Unaware
    . exact awake_of_unaware hunaware
    . have hnone := h.lost hunaware
      rw [hlost] at hnone
      cases hnone
  | agetChildren i | adelete i path => exact hsame

theorem Awake.acted {a : ClientAction} {effect : Effect} (h : c.Awake directory)
    (hplaced : c.Placed directory nextSeq) (hgood : a.orderly directory c)
    (hstep : Acted directory nextSeq c a effect) (hfault : effect.client.fault = false)
    : effect.client.Awake directory := by
  cases hstep with
  | rbZkMutexLock _ =>
    exact h.same (List.Subset.refl _) rfl rfl (List.Subset.refl _) rfl (List.Subset.refl _)
      (List.Subset.refl _)
  | doPendingLocks _ hcalls => exact h.doPendingLocks _
  | resetZkContext _ hcalls => exact awake_of_nil rfl rfl
  | complete _ hinbox hcompleted =>
    simp only [ClientAction.orderly, hinbox, List.head?_cons, Option.all_some] at hgood
    exact h.completed hplaced hinbox hgood hcompleted hfault
  | serve hstate hrequests hhandled c' hc' =>
    exact h.serve hstate hrequests hhandled hc' fun q hq _ => hq
  | refuse hstate hrequests =>
    exact h.reply hrequests (Request.mutex_failed _) rfl (fun _ hmem => Or.inl hmem) hstate rfl rfl
      rfl rfl rfl
  | serveLost hlost => exact h.serveLost hlost
  | dropLost =>
    exact h.same (List.Subset.refl _) rfl rfl (List.nil_subset _) rfl (List.Subset.refl _)
      (List.Subset.refl _)
  | disconnect hdisconnect => exact Awake.disconnect hdisconnect
  | reconnect hreconnect => exact h.reconnect hreconnect
  | expire => exact awake_of_nil rfl rfl

theorem Awake.act {a : ClientAction} {effect : Effect} (h : c.Awake directory)
    (hplaced : c.Placed directory nextSeq) (hgood : a.orderly directory c)
    (hstep : c.act directory nextSeq a = some effect) (hfault : effect.client.fault = false)
    : effect.client.Awake directory := by
  by_cases hunlock : ∃ id, a = .rbZkMutexUnlock id
  . rcases hunlock with ⟨id, rfl⟩
    cases taken_of_act hstep with
    | rbZkMutexUnlock _ hunlock => exact h.rbZkMutexUnlock hunlock
  . have hacted := acted_of_act hstep fun id heq => hunlock ⟨id, heq⟩
    exact h.acted hplaced hgood hacted hfault

theorem nodes_handle {c : Client} (request : Request) {node : Node} (hmem : node ∈ c.nodes)
    : node ∈ (c.handle directory nextSeq request).1.client.nodes := by
  cases request with
  | acreate i => exact List.mem_append_left _ hmem
  | agetChildren i | adelete i path => exact hmem

theorem nodes_kept {a : ClientAction} {effect : Effect}
    (hstep : c.act directory nextSeq a = some effect) {node : Node} (hmem : node ∈ c.nodes)
    (hgone : node.seq ∉ effect.gone)
    : node ∈ effect.client.nodes := by
  cases taken_of_act hstep with
  | rbZkMutexLock _ | dropLost | refuse _ _ _ _ => exact hmem
  | rbZkMutexUnlock _ hunlock =>
    cases unlocks_of_rbZkMutexUnlock hunlock with
    | deletes _ _ _ => exact hmem
    | frees _ _ _ => rwa [nodes_rbZkMutexDone]
  | doPendingLocks _ _ =>
    unfold Client.zkWatcherDoPendingLocks
    split <;> exact hmem
  | resetZkContext _ _ => exact absurd (List.mem_map_of_mem hmem) hgone
  | complete _ _ hcomplete =>
    rw [nodes_complete hcomplete]
    exact hmem
  | @serve request requests effect reply _ _ _ hhandle =>
    have hnodes := @nodes_handle directory nextSeq { c with requests := requests } request _ hmem
    rw [hhandle] at hnodes
    rw [nodes_delete, List.mem_filter]
    exact ⟨hnodes, by simpa using hgone⟩
  | serveLost _ => exact nodes_handle _ hmem
  | disconnect hdisconnect =>
    rcases Option.ite_none_left_eq_some.mp hdisconnect with ⟨_, hsome⟩
    rw [← Option.some.inj hsome]
    exact hmem
  | reconnect hreconnect =>
    cases reconnects_of_reconnect hreconnect with
    | connected _ _ | expired _ _ => exact hmem
  | expire _ => exact absurd (List.mem_map_of_mem hmem) hgone

/-- What an orderly client keeps. -/
structure Orderly (directory : List Nat) (c : Client) : Prop where
  inv : c.Inv
  attended : c.Attended
  whole : c.Whole
  awake : c.Awake directory

theorem undisturbed_of_orderly {completion : Completion} (hgood : completion.orderly directory c)
    : completion.undisturbed directory c := by
  cases completion with
  | leaderGetChildrenComplete id strings =>
    cases strings with
    | none => rfl
    | some strings =>
      simp only [Completion.orderly, Completion.undisturbed] at hgood ⊢
      cases hbef : (c.mutex? id).bind fun mutex =>
          mutex.path.bind (leaderPreviousString strings) with
      | none => rfl
      | some befStr =>
        simp only [hbef] at hgood ⊢
        rw [hgood, Bool.or_true]
  | sessionEvent state =>
    cases state with
    | connected => rfl
    | connecting | expiredSession =>
      simp only [Completion.orderly, Bool.and_eq_true] at hgood
      simp only [Completion.undisturbed, Bool.and_eq_true]
      exact hgood.1.1
  | _ => rfl

theorem undisturbed_act_of_orderly {a : ClientAction} (hgood : a.orderly directory c)
    : a.undisturbed directory c := by
  cases a with
  | rbZkMutexUnlock id =>
    simp only [ClientAction.orderly, Bool.and_eq_true] at hgood
    exact hgood.2
  | complete =>
    simp only [ClientAction.orderly, ClientAction.undisturbed] at hgood ⊢
    cases hinbox : c.inbox with
    | nil => rfl
    | cons completion inbox =>
      simp only [hinbox, List.head?_cons, Option.all_some] at hgood ⊢
      exact undisturbed_of_orderly hgood
  | _ => rfl

theorem safe_of_orderly {completion : Completion} (hgood : completion.orderly directory c)
    : completion.safe directory c .start := by
  cases completion with
  | leaderGetChildrenComplete id strings =>
    cases strings with
    | none => rfl
    | some strings =>
      simp only [Completion.orderly, Completion.safe, Option.bind_assoc] at hgood ⊢
      cases hbef : (c.mutex? id).bind fun mutex =>
          mutex.path.bind (leaderPreviousString strings) with
      | none => rw [Option.all_none, Bool.or_true]
      | some befStr =>
        simp only [hbef, Bool.and_eq_true] at hgood
        rw [Option.all_some, hgood.2, Bool.or_true]
  | sessionEvent state =>
    cases state with
    | connected => rfl
    | connecting | expiredSession =>
      simp only [Completion.orderly, Bool.and_eq_true, List.isEmpty_iff] at hgood
      simp [Completion.safe, Client.atRest, Consumer.start, hgood.1.2, hgood.2]
  | _ => rfl

theorem carried_zkWatcher (state : ZooState) : (c.zkWatcher state).carried = c.carried := by
  unfold Client.zkWatcher
  split
  . rfl
  . cases state <;> rfl

theorem Attended.act (h : c.Attended) (hplaced : c.Placed directory nextSeq)
    {a : ClientAction} (hgood : a.orderly directory c) {effect : Effect}
    (hstep : c.act directory nextSeq a = some effect)
    : effect.client.Attended := by
  cases acts_of_act hstep with
  | steady hsteady => exact h.steady hsteady
  | lock heq =>
    rw [heq]
    exact ⟨h.once, h.tracked⟩
  | unlock hunlock =>
    simp only [ClientAction.orderly, Bool.and_eq_true, decide_eq_true_eq] at hgood
    exact (attended_rbZkMutexUnlock h hgood.1 hunlock).1
  | @call calls heq =>
    rw [heq]
    have hcalls := h.steady (steady_calls_fault calls c.fault)
    exact hcalls.zkWatcherDoPendingLocks (hplaced.calls_fault calls c.fault)
  | @complete completion inbox hinbox hcomplete =>
    cases completes_of_complete hplaced h hinbox hcomplete with
    | steady _ hsteady => exact h.steady hsteady
    | deleted hreleases => exact h.releases hreleases
    | failed _ _ _ hreleases => exact h.releases hreleases
    | obtained _ _ _ hobtains => exact h.obtains hobtains
    -- nothing comes back to the mutexes that are freed
    | @session state hne =>
      have hnone : c.carried = [] := by
        simp only [ClientAction.orderly, hinbox, List.head?_cons, Option.all_some] at hgood
        cases state with
        | connected => exact absurd rfl hne
        | connecting | expiredSession =>
          simp only [Completion.orderly, Bool.and_eq_true, List.isEmpty_iff] at hgood
          exact hgood.2
      have hafter : effect.client.carried = [] := by
        have hevent : { c with inbox }.zkWatcher state = effect.client := Option.some.inj hcomplete
        rw [← hevent, carried_zkWatcher]
        apply List.eq_nil_iff_forall_not_mem.mpr
        intro id hmem
        have hold := mem_of_count_le (steady_pop hinbox).carried hmem
        rw [hnone] at hold
        cases hold
      constructor <;> simp [hafter]

theorem Orderly.act (h : c.Orderly directory) (hplaced : c.Placed directory nextSeq)
    {a : ClientAction} (hgood : a.orderly directory c) {effect : Effect}
    (hstep : c.act directory nextSeq a = some effect)
    : effect.client.Orderly directory := by
  have hwhole : effect.client.Whole := by
    apply h.whole.act (q := .start) h.attended _ hstep
    intro heq
    subst heq
    simp only [ClientAction.orderly] at hgood
    cases hinbox : c.inbox with
    | nil => rfl
    | cons completion inbox =>
      simp only [hinbox, List.head?_cons, Option.all_some] at hgood ⊢
      exact safe_of_orderly hgood
  exact ⟨h.inv.act (undisturbed_act_of_orderly hgood) hstep, h.attended.act hplaced hgood hstep,
    hwhole, h.awake.act hplaced hgood hstep hwhole.fault⟩

theorem Orderly.delete (h : c.Orderly directory) {gone : List Nat}
    (hdirectory : ∀ q ∈ directory, q ∉ gone → q ∈ directory')
    : (c.delete gone).Orderly directory' :=
  ⟨h.inv.delete gone, h.attended.steady (steady_delete gone), h.whole.delete gone,
    h.awake.delete hdirectory⟩

theorem goesOn (hfault : c.fault = false) (hlive : c.live = true) (hstate : c.state = .connected)
    (hid : id ∈ c.underWay)
    : ∃ a ∈ [ClientAction.serve, .complete], (c.act directory nextSeq a).isSome := by
  cases hrequests : c.requests with
  | cons request requests =>
    refine ⟨.serve, by simp, ?_⟩
    simp [Client.act, hlive, hstate, hrequests]
  | nil =>
    refine ⟨.complete, by simp, ?_⟩
    cases hinbox : c.inbox with
    | nil => simp [Client.underWay, hrequests, hinbox] at hid
    | cons completion inbox =>
      simp only [Client.act, hfault, hinbox, Bool.false_eq_true, if_false, Option.isSome_map]
      cases completion with
      | leaderGetChildrenComplete id strings =>
        simp only [Client.complete, Client.leaderGetChildrenComplete]
        split
        . rfl
        . split
          . rfl
          . split
            . rfl
            . split
              . rfl
              . rfl
              . rw [if_neg (by simp [hrequests])]
                rfl
      | _ => rfl

end

end Client

/-! ### All clients -/

section

variable {clients : Nat} {s s' : Ensemble} {a : Action}

/-- What every state of an orderly run keeps. -/
structure Ensemble.Orderly (s : Ensemble) : Prop where
  ordered : s.Ordered
  clients : ∀ c ∈ s.clients, c.Orderly s.directory

theorem orderly_init (clients : Nat) : (lockMachine clients).init.Orderly := by
  refine ⟨ordered_init clients, ?_⟩
  intro c hc
  rw [List.eq_of_mem_replicate hc]
  refine ⟨Client.inv_start, ?_, Client.whole_start, Client.awake_of_nil rfl rfl⟩
  constructor <;> simp [Client.carried, Client.start]

theorem mem_directory_of_step {c : Client} {effect : Effect}
    (hc : s.clients[a.client]? = some c)
    (heffect : c.act s.directory s.nextSeq a.action = some effect)
    (hclients : ∀ i, s'.clients[i]? =
      (if i = a.client then some effect.client else s.clients[i]?).map (Client.delete effect.gone))
    {q : Nat} (hq : q ∈ s.directory) (hgone : q ∉ effect.gone)
    : q ∈ s'.directory := by
  rcases Ensemble.mem_directory.mp hq with ⟨c₁, hc₁, node, hnode, rfl⟩
  rcases List.mem_iff_getElem?.mp hc₁ with ⟨i, hi⟩
  have hkept : ∀ c' : Client,
      (if i = a.client then some effect.client else s.clients[i]?) = some c' →
        node ∈ c'.nodes → node.seq ∈ s'.directory := by
    intro c' hc' hmem
    refine Ensemble.mem_directory.mpr ⟨c'.delete effect.gone, ?_, node, ?_, rfl⟩
    . apply List.mem_of_getElem? (i := i)
      rw [hclients, hc']
      rfl
    . rw [Client.nodes_delete, List.mem_filter]
      exact ⟨hmem, by simpa using hgone⟩
  by_cases heq : i = a.client
  . subst heq
    rw [hc] at hi
    cases hi
    exact hkept _ (if_pos rfl) (Client.nodes_kept heffect hnode hgone)
  . exact hkept c₁ ((if_neg heq).trans hi) hnode

theorem orderly_step (h : s.Orderly) (hgood : a.orderly s)
    (hstep : (lockMachine clients).step s a = some s')
    : s'.Orderly := by
  refine ⟨ordered_step h.ordered hstep, ?_⟩
  rcases lockMachine_step hstep with ⟨c, effect, hc, heffect, _, hclients⟩
  have hdirectory : ∀ q ∈ s.directory, q ∉ effect.gone → q ∈ s'.directory :=
    fun q => mem_directory_of_step hc heffect hclients
  have hact : effect.client.Orderly s.directory := by
    apply (h.clients c (List.mem_of_getElem? hc)).act (h.ordered.placed _ c hc) _ heffect
    simpa [Action.orderly, hc] using hgood
  intro c' hc'
  rcases List.mem_iff_getElem?.mp hc' with ⟨i, hi⟩
  rw [hclients] at hi
  rcases Option.map_eq_some_iff.mp hi with ⟨c₁, hc₁, rfl⟩
  apply Client.Orderly.delete
  . split at hc₁
    . cases hc₁
      exact hact
    . exact h.clients c₁ (List.mem_of_getElem? hc₁)
  . exact hdirectory

/-- The mutex of the first node holds the lock, or something comes back to it and its client can go
on, or the client is about to hear that its connection is lost. -/
def Ensemble.HandsOn (s : Ensemble) : Prop :=
  ∀ q ∈ s.directory, (∀ q' ∈ s.directory, q ≤ q') →
    ∃ (i : Nat) (c : Client) (mutex : Mutex), s.clients[i]? = some c ∧ mutex ∈ c.leadersNodesList ∧
      { seq := q, mutex := mutex.id } ∈ c.nodes ∧
        (c.Unaware ∨ mutex.iAmLeader ∨ mutex.id ∈ c.underWay ∧
          ∃ a ∈ [ClientAction.serve, .complete], (c.act s.directory s.nextSeq a).isSome)

theorem Ensemble.Orderly.handsOn (h : s.Orderly) : s.HandsOn := by
  intro q hq hfirst
  rcases Ensemble.mem_directory.mp hq with ⟨c, hc, node, hnode, rfl⟩
  rcases List.mem_iff_getElem?.mp hc with ⟨i, hi⟩
  have horderly := h.clients c hc
  rcases horderly.inv.tracked node hnode with ⟨mutex, hmutex, hid⟩
  refine ⟨i, c, mutex, hi, hmutex, hid ▸ hnode, ?_⟩
  by_cases hunaware : c.Unaware
  . exact Or.inl hunaware
  right
  rcases horderly.awake.awaits hunaware mutex hmutex ⟨node, hnode, hid.symm⟩ with
    hleader | hmem | ⟨watch, _, _, _, hwatch, seq, hseq, hlt⟩
  . exact Or.inl hleader
  . have hne : c.nodes ≠ [] := List.ne_nil_of_mem hnode
    have hlive : c.live = true := by
      cases hlive : c.live with
      | true => rfl
      | false => exact absurd (horderly.inv.dead hlive).1 hne
    exact Or.inr ⟨hmem, Client.goesOn horderly.whole.fault hlive
      (horderly.awake.connected hunaware hne) hmem⟩
  -- no node is in front of the first one
  . have hat := horderly.inv.path mutex hmutex seq hseq
    have heq := hat.2 node hnode hid.symm
    have hle := hfirst watch.node hwatch
    omega

end

end Zk

end RbMonitor
