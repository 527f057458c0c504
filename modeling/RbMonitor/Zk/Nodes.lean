import RbMonitor.Zk.Step

/-!
This module contains which mutex a node of the lock directory belongs to.
-/

namespace RbMonitor

namespace Zk

namespace Client

/-- The client tracks the mutex: it is in `leaders_nodes_list`. -/
def Tracks (c : Client) (id : Nat) : Prop :=
  ∃ mutex ∈ c.leadersNodesList, mutex.id = id

/-- Every node of the session belongs to a mutex that the client tracks, or that it deletes. -/
def NoOrphan (c : Client) : Prop :=
  ∀ node ∈ c.nodes, c.Tracks node.mutex ∨ .adelete node.mutex (some node.seq) ∈ c.requests

/-- The mutexes whose node is requested and not created. -/
def creating (c : Client) : List Nat :=
  (c.lost ++ c.requests).filterMap Request.creates

/-- The mutex can still get a node. -/
def Unborn (c : Client) (id : Nat) : Prop :=
  id ∈ c.pendingLeaders.map Mutex.id ∨ id ∈ c.creating ∨ c.nextMutex ≤ id

def Issued (c : Client) (id : Nat) : Prop :=
  id ∉ c.pendingLeaders.map Mutex.id ∧ id < c.nextMutex

/-- The mutex has no node other than `seq`. -/
def At (c : Client) (id seq : Nat) : Prop :=
  ¬c.Unborn id ∧ ∀ node ∈ c.nodes, node.mutex = id → node.seq = seq

def Gone (c : Client) (id : Nat) : Prop :=
  ¬c.Unborn id ∧ ∀ node ∈ c.nodes, node.mutex ≠ id

/-- If the mutex is there, then its path is the one of its node. -/
def Named (c : Client) (id : Nat) : Prop :=
  ¬c.Unborn id ∧ ∀ mutex ∈ c.leadersNodesList, mutex.id = id → mutex.path ≠ none

end Client

def Request.Ok (c : Client) : Request → Prop
  | .acreate _ => True
  | .agetChildren id => c.Named id
  | .adelete id path => ∃ seq, path = some seq ∧ c.At id seq

def Completion.Ok (c : Client) : Completion → Prop
  | .createMutexNodeComplete id (some node) => c.At id node
  | .createMutexNodeComplete id none | .deleteMutexCompleted id => c.Issued id
  | .leaderGetChildrenComplete id _ | .previousLeaderWatcher id _ => c.Named id
  | .sessionEvent _ => True

/-- The completion that frees a mutex finds it without a node. -/
def Completion.Clean (c : Client) : Completion → Prop
  | .createMutexNodeComplete id none | .deleteMutexCompleted id => c.Gone id
  | _ => True

/-- On this event `zk_watcher_clean_mutex` frees every mutex. -/
def Completion.cleans : Completion → Bool
  | .sessionEvent state => state ≠ .connected
  | _ => false

/-- A list of the directory is acted upon while the predecessor that it names is still there, and a
client hears that its connection is lost while it has no node and asks for none. -/
def Completion.undisturbed (directory : List Nat) (c : Client) : Completion → Bool
  | .leaderGetChildrenComplete id (some strings) =>
    match (c.mutex? id).bind fun mutex => mutex.path.bind (leaderPreviousString strings) with
    | none => true
    | some befStr => !c.live || c.state = .connected && befStr ∈ directory
  | .sessionEvent .connecting | .sessionEvent .expiredSession =>
    c.nodes.isEmpty && c.creating.isEmpty
  | _ => true

namespace Client

/-- What is delivered before the mutexes are freed. -/
def front (c : Client) : List Completion :=
  c.inbox.takeWhile (!·.cleans)

structure Fresh (c : Client) : Prop where
  pending : ∀ mutex ∈ c.pendingLeaders, mutex.path = none ∧ mutex.iAmLeader = false
  nodup : (c.pendingLeaders.map Mutex.id ++ c.creating).Nodup
  lt : ∀ id ∈ c.pendingLeaders.map Mutex.id ++ c.creating, id < c.nextMutex
  born : ∀ node ∈ c.nodes, ¬c.Unborn node.mutex

structure Kept (c : Client) : Prop where
  tracked : ∀ node ∈ c.nodes, c.Tracks node.mutex
  creating : ∀ id ∈ c.creating, c.Tracks id

structure Marked (c : Client) : Prop where
  path : ∀ mutex ∈ c.leadersNodesList, ∀ seq, mutex.path = some seq → c.At mutex.id seq
  leader : ∀ mutex ∈ c.leadersNodesList, mutex.iAmLeader → mutex.path ≠ none
  request : ∀ request ∈ c.requests, request.Ok c
  watch : ∀ watch ∈ c.watches, c.Named watch.mutex
  inbox : ∀ completion ∈ c.inbox, completion.Ok c
  front : ∀ completion ∈ c.front, completion.Clean c

structure Inv (c : Client) : Prop extends Fresh c, Kept c, Marked c where
  expired : c.state = .expiredSession → c.live = false
  dead : c.live = false → c.nodes = [] ∧ c.lost = []

/-- A client on its way: mutexes without a node stay so once they cannot get one any more. -/
structure Advances (c c' : Client) : Prop where
  unborn : ∀ id, c'.Unborn id → c.Unborn id
  issued : ∀ id, c.Issued id → c'.Issued id
  nodes : ∀ node ∈ c'.nodes, node ∈ c.nodes ∨ c.Unborn node.mutex
  mutexes : ∀ mutex' ∈ c'.leadersNodesList, c.Unborn mutex'.id ∨
    ∃ mutex ∈ c.leadersNodesList, mutex.id = mutex'.id ∧ (mutex.path ≠ none → mutex'.path ≠ none)

section

variable {c c' : Client} {id seq : Nat}

theorem At.advance (h : c.At id seq) (hadv : Advances c c') : c'.At id seq := by
  refine ⟨fun hunborn => h.1 (hadv.unborn id hunborn), ?_⟩
  intro node hnode hid
  cases hadv.nodes node hnode with
  | inl hnode => exact h.2 node hnode hid
  | inr hunborn => exact absurd (hid ▸ hunborn) h.1

theorem Gone.advance (h : c.Gone id) (hadv : Advances c c') : c'.Gone id := by
  refine ⟨fun hunborn => h.1 (hadv.unborn id hunborn), ?_⟩
  intro node hnode hid
  cases hadv.nodes node hnode with
  | inl hnode => exact h.2 node hnode hid
  | inr hunborn => exact absurd (hid ▸ hunborn) h.1

theorem Named.advance (h : c.Named id) (hadv : Advances c c') : c'.Named id := by
  refine ⟨fun hunborn => h.1 (hadv.unborn id hunborn), ?_⟩
  intro mutex' hmutex' hid
  cases hadv.mutexes mutex' hmutex' with
  | inl hunborn => exact absurd (hid ▸ hunborn) h.1
  | inr hold =>
    rcases hold with ⟨mutex, hmutex, heq, hpath⟩
    exact hpath (h.2 mutex hmutex (heq.trans hid))

theorem At.issued (h : c.At id seq) : c.Issued id := by
  refine ⟨fun hpending => h.1 (.inl hpending), ?_⟩
  apply Nat.lt_of_not_le
  intro hle
  exact h.1 (.inr (.inr hle))

theorem Issued.gone (h : c.Issued id) (hnodes : c.nodes = []) (hcreating : c.creating = [])
    : c.Gone id := by
  refine ⟨?_, by simp [hnodes]⟩
  intro hunborn
  rcases hunborn with hpending | hrequested | hnext
  . exact h.1 hpending
  . simp [hcreating] at hrequested
  . exact absurd h.2 (Nat.not_lt_of_le hnext)

end

end Client

section

variable {c c' : Client}

theorem Request.Ok.advance {request : Request} (h : request.Ok c) (hadv : c.Advances c')
    : request.Ok c' := by
  cases request with
  | acreate id => trivial
  | agetChildren id => exact Client.Named.advance h hadv
  | adelete id path =>
    rcases h with ⟨seq, hpath, hat⟩
    exact ⟨seq, hpath, hat.advance hadv⟩

theorem Completion.Ok.advance {completion : Completion} (h : completion.Ok c)
    (hadv : c.Advances c')
    : completion.Ok c' := by
  cases completion with
  | createMutexNodeComplete id leaderNode =>
    cases leaderNode with
    | none => exact hadv.issued id h
    | some node => exact Client.At.advance h hadv
  | leaderGetChildrenComplete id strings => exact Client.Named.advance h hadv
  | deleteMutexCompleted id => exact hadv.issued id h
  | previousLeaderWatcher id node => exact Client.Named.advance h hadv
  | sessionEvent state => trivial

theorem Completion.Ok.clean {completion : Completion} (h : completion.Ok c)
    (hnodes : c.nodes = []) (hcreating : c.creating = [])
    : completion.Clean c := by
  cases completion with
  | createMutexNodeComplete id leaderNode =>
    cases leaderNode with
    | none => exact Client.Issued.gone h hnodes hcreating
    | some node => trivial
  | deleteMutexCompleted id => exact Client.Issued.gone h hnodes hcreating
  | leaderGetChildrenComplete id strings => trivial
  | previousLeaderWatcher id node => trivial
  | sessionEvent state => trivial

theorem Completion.Clean.advance {completion : Completion} (h : completion.Clean c)
    (hadv : c.Advances c')
    : completion.Clean c' := by
  cases completion with
  | createMutexNodeComplete id leaderNode =>
    cases leaderNode with
    | none => exact Client.Gone.advance h hadv
    | some node => trivial
  | leaderGetChildrenComplete id strings => trivial
  | deleteMutexCompleted id => exact Client.Gone.advance h hadv
  | previousLeaderWatcher id node => trivial
  | sessionEvent state => trivial

end

namespace Client

section

variable {c c' : Client} {id seq : Nat}

theorem mem_of_mutex? {mutex : Mutex} (h : c.mutex? id = some mutex)
    : mutex ∈ c.leadersNodesList ∧ mutex.id = id := by
  refine ⟨List.mem_of_find?_eq_some h, ?_⟩
  simpa using List.find?_some h

theorem front_subset {completion : Completion} (h : completion ∈ c.front)
    : completion ∈ c.inbox :=
  (List.takeWhile_sublist _).subset h

theorem mem_takeWhile_append {α : Type} {p : α → Bool} {x : α} {xs ys : List α}
    (h : x ∈ (xs ++ ys).takeWhile p)
    : x ∈ xs.takeWhile p ∨ x ∈ ys.takeWhile p := by
  induction xs with
  | nil => exact .inr h
  | cons y xs ih =>
    rw [List.cons_append, List.takeWhile_cons] at h
    rw [List.takeWhile_cons]
    split at h
    . next hy =>
      rw [if_pos hy]
      cases List.mem_cons.mp h with
      | inl heq => exact .inl (heq ▸ List.mem_cons_self)
      | inr h => exact (ih h).imp_left (List.mem_cons_of_mem y)
    . cases h

theorem mem_front_append {completions : List Completion} {completion : Completion}
    (hinbox : c'.inbox = c.inbox ++ completions) (h : completion ∈ c'.front)
    : completion ∈ c.front ∨ completion ∈ completions := by
  unfold front at h
  rw [hinbox] at h
  cases mem_takeWhile_append h with
  | inl h => exact .inl h
  | inr h => exact .inr ((List.takeWhile_sublist _).subset h)

theorem Marked.advance (h : Marked c) (hadv : Advances c c')
    (hpath : ∀ mutex' ∈ c'.leadersNodesList, mutex' ∈ c.leadersNodesList ∨
      (∀ seq, mutex'.path = some seq → c'.At mutex'.id seq) ∧
        (mutex'.iAmLeader → mutex'.path ≠ none))
    (hrequest : ∀ request ∈ c'.requests, request ∈ c.requests ∨ request.Ok c')
    (hwatch : ∀ watch ∈ c'.watches, watch ∈ c.watches ∨ c'.Named watch.mutex)
    (hinbox : ∀ completion ∈ c'.inbox, completion ∈ c.inbox ∨ completion.Ok c')
    (hfront : ∀ completion ∈ c'.front, completion ∈ c.front ∨ completion.Clean c')
    : Marked c' where
  path mutex' hmutex' seq hseq := by
    cases hpath mutex' hmutex' with
    | inl hmutex => exact (h.path mutex' hmutex seq hseq).advance hadv
    | inr hnew => exact hnew.1 seq hseq
  leader mutex' hmutex' hleader := by
    cases hpath mutex' hmutex' with
    | inl hmutex => exact h.leader mutex' hmutex hleader
    | inr hnew => exact hnew.2 hleader
  request request hmem := by
    cases hrequest request hmem with
    | inl hold => exact (h.request request hold).advance hadv
    | inr hnew => exact hnew
  watch watch hmem := by
    cases hwatch watch hmem with
    | inl hold => exact (h.watch watch hold).advance hadv
    | inr hnew => exact hnew
  inbox completion hmem := by
    cases hinbox completion hmem with
    | inl hold => exact (h.inbox completion hold).advance hadv
    | inr hnew => exact hnew
  front completion hmem := by
    cases hfront completion hmem with
    | inl hold => exact (h.front completion hold).advance hadv
    | inr hnew => exact hnew

/-- The client keeps its mutexes, and loses nodes and requests only. -/
structure Quiet (c c' : Client) : Prop where
  pending : c'.pendingLeaders = c.pendingLeaders
  next : c'.nextMutex = c.nextMutex
  mutexes : c'.leadersNodesList = c.leadersNodesList
  creating : c'.creating.Sublist c.creating
  nodes : c'.nodes ⊆ c.nodes

theorem Quiet.unborn (h : Quiet c c') (hunborn : c'.Unborn id) : c.Unborn id := by
  unfold Unborn at hunborn ⊢
  rw [h.pending, h.next] at hunborn
  exact hunborn.imp_right (Or.imp_left fun hcreating => h.creating.subset hcreating)

theorem Quiet.advances (h : Quiet c c') : Advances c c' where
  unborn _ := h.unborn
  issued id hissued := by
    unfold Issued at hissued ⊢
    rw [h.pending, h.next]
    exact hissued
  nodes node hnode := .inl (h.nodes hnode)
  mutexes mutex hmutex := .inr ⟨mutex, h.mutexes ▸ hmutex, rfl, id⟩

theorem Fresh.quiet (h : Fresh c) (hquiet : Quiet c c') : Fresh c' where
  pending := by
    rw [hquiet.pending]
    exact h.pending
  nodup := by
    rw [hquiet.pending]
    exact h.nodup.sublist (List.Sublist.append_left hquiet.creating _)
  lt id hid := by
    rw [hquiet.next]
    apply h.lt
    rw [hquiet.pending] at hid
    exact (List.Sublist.append_left hquiet.creating _).subset hid
  born node hnode hunborn := h.born node (hquiet.nodes hnode) (hquiet.unborn hunborn)

theorem Kept.quiet (h : Kept c) (hquiet : Quiet c c') : Kept c' where
  tracked node hnode := by
    unfold Tracks
    rw [hquiet.mutexes]
    exact h.tracked node (hquiet.nodes hnode)
  creating id hid := by
    unfold Tracks
    rw [hquiet.mutexes]
    exact h.creating id (hquiet.creating.subset hid)

theorem Inv.quiet (h : Inv c) (hquiet : Quiet c c')
    (hrequest : ∀ request ∈ c'.requests, request ∈ c.requests ∨ request.Ok c')
    (hwatch : ∀ watch ∈ c'.watches, watch ∈ c.watches ∨ c'.Named watch.mutex)
    (hinbox : ∀ completion ∈ c'.inbox, completion ∈ c.inbox ∨ completion.Ok c')
    (hfront : ∀ completion ∈ c'.front, completion ∈ c.front ∨ completion.Clean c')
    (hexpired : c'.state = .expiredSession → c'.live = false)
    (hdead : c'.live = false → c'.nodes = [] ∧ c'.lost = [])
    : Inv c' where
  toFresh := h.toFresh.quiet hquiet
  toKept := h.toKept.quiet hquiet
  toMarked := by
    apply h.toMarked.advance hquiet.advances _ hrequest hwatch hinbox hfront
    intro mutex hmutex
    exact .inl (hquiet.mutexes ▸ hmutex)
  expired := hexpired
  dead := hdead

theorem Inv.calls_fault (h : Inv c) (calls : List Call) (fault : Bool)
    : Inv { c with calls := calls, fault := fault } := by
  have hquiet : Quiet c { c with calls := calls, fault := fault } :=
    ⟨rfl, rfl, rfl, List.Sublist.refl _, fun _ h => h⟩
  apply h.quiet hquiet
  . exact fun request hrequest => .inl hrequest
  . exact fun watch hwatch => .inl hwatch
  . exact fun completion hcompletion => .inl hcompletion
  . exact fun completion hcompletion => .inl hcompletion
  . exact h.expired
  . exact h.dead

theorem Inv.fire (h : Inv c) (reports : Watch → Bool) : Inv (c.fire reports) := by
  have hquiet : Quiet c (c.fire reports) := ⟨rfl, rfl, rfl, List.Sublist.refl _, fun _ h => h⟩
  apply h.quiet hquiet
  . exact fun request hrequest => .inl hrequest
  . exact fun watch hwatch => .inl (List.mem_of_mem_filter hwatch)
  . intro completion hcompletion
    cases List.mem_append.mp hcompletion with
    | inl hold => exact .inl hold
    | inr hnew =>
      rcases List.mem_map.mp hnew with ⟨watch, hwatch, heq⟩
      subst heq
      exact .inr ((h.watch watch (List.mem_of_mem_filter hwatch)).advance hquiet.advances)
  . intro completion hcompletion
    cases mem_front_append rfl hcompletion with
    | inl hold => exact .inl hold
    | inr hnew =>
      rcases List.mem_map.mp hnew with ⟨watch, hwatch, heq⟩
      subst heq
      exact .inr trivial
  . exact h.expired
  . exact h.dead

theorem Inv.delete (h : Inv c) (gone : List Nat) : Inv (c.delete gone) := by
  have hfilter : Inv { c with nodes := c.nodes.filter fun node => node.seq ∉ gone } := by
    have hquiet : Quiet c { c with nodes := c.nodes.filter fun node => node.seq ∉ gone } :=
      ⟨rfl, rfl, rfl, List.Sublist.refl _, List.filter_subset_self _⟩
    apply h.quiet hquiet
    . exact fun request hrequest => .inl hrequest
    . exact fun watch hwatch => .inl hwatch
    . exact fun completion hcompletion => .inl hcompletion
    . exact fun completion hcompletion => .inl hcompletion
    . exact h.expired
    . intro hdead
      simp [h.dead hdead]
  simp only [Client.delete]
  split
  . exact hfilter.fire _
  . exact hfilter

theorem Inv.requested (h : Inv c) {request : Request} (hcreates : request.creates = none)
    (hok : request.Ok c)
    : Inv (c.request request) := by
  have hquiet : Quiet c (c.request request) := by
    refine ⟨rfl, rfl, rfl, ?_, fun _ h => h⟩
    simp [creating, Client.request, hcreates]
  apply h.quiet hquiet
  . intro r hr
    cases List.mem_append.mp hr with
    | inl hold => exact .inl hold
    | inr hnew =>
      rw [List.mem_singleton.mp hnew]
      exact .inr (hok.advance hquiet.advances)
  . exact fun watch hwatch => .inl hwatch
  . exact fun completion hcompletion => .inl hcompletion
  . exact fun completion hcompletion => .inl hcompletion
  . exact h.expired
  . exact h.dead

theorem Inv.rbZkMutexDone (h : Inv c) (hgone : c.Gone id) : Inv (c.rbZkMutexDone id) := by
  unfold Client.rbZkMutexDone
  split
  . exact h.calls_fault c.calls true
  . have hadv : Advances c { c with
        leadersNodesList := c.leadersNodesList.filter fun mutex => mutex.id ≠ id } := by
      refine ⟨fun _ h => h, fun _ h => h, fun _ h => .inl h, ?_⟩
      intro mutex hmutex
      exact .inr ⟨mutex, List.mem_of_mem_filter hmutex, rfl, fun hpath => hpath⟩
    refine ⟨⟨h.pending, h.nodup, h.lt, h.born⟩, ⟨?_, ?_⟩, ?_, h.expired, h.dead⟩
    . intro node hnode
      rcases h.tracked node hnode with ⟨mutex, hmutex, heq⟩
      refine ⟨mutex, ?_, heq⟩
      apply List.mem_filter_of_mem hmutex
      have hne := hgone.2 node hnode
      simpa [heq] using hne
    . intro i hi
      rcases h.creating i hi with ⟨mutex, hmutex, heq⟩
      refine ⟨mutex, ?_, heq⟩
      apply List.mem_filter_of_mem hmutex
      simp only [heq, decide_not, Bool.not_eq_eq_eq_not, Bool.not_true, decide_eq_false_iff_not]
      intro heq
      exact hgone.1 (.inr (.inl (heq ▸ hi)))
    . apply h.toMarked.advance hadv
      . exact fun mutex hmutex => .inl (List.mem_of_mem_filter hmutex)
      . exact fun request hrequest => .inl hrequest
      . exact fun watch hwatch => .inl hwatch
      . exact fun completion hcompletion => .inl hcompletion
      . exact fun completion hcompletion => .inl hcompletion

theorem Inv.pop (h : Inv c) {completion : Completion} {inbox : List Completion}
    (hinbox : c.inbox = completion :: inbox) (hcleans : completion.cleans = false)
    : Inv { c with inbox := inbox } := by
  have hquiet : Quiet c { c with inbox := inbox } :=
    ⟨rfl, rfl, rfl, List.Sublist.refl _, fun _ h => h⟩
  apply h.quiet hquiet
  . exact fun request hrequest => .inl hrequest
  . exact fun watch hwatch => .inl hwatch
  . intro x hx
    left
    rw [hinbox]
    exact List.mem_cons_of_mem completion hx
  . intro x hx
    left
    unfold front
    rw [hinbox, List.takeWhile_cons]
    simp only [hcleans, Bool.not_false, ↓reduceIte]
    exact List.mem_cons_of_mem completion hx
  . exact h.expired
  . exact h.dead

theorem Inv.gone_of_dead (h : Inv c) (hdead : c.live = false) (hunborn : ¬c.Unborn id)
    : c.Gone id := by
  refine ⟨hunborn, ?_⟩
  rw [(h.dead hdead).1]
  simp

theorem Inv.previousLeaderWatcher (h : Inv c) (hnamed : c.Named id)
    : Inv (c.previousLeaderWatcher id) := by
  unfold Client.previousLeaderWatcher
  split
  . exact h.calls_fault c.calls true
  . split
    . exact h
    . exact h.requested rfl hnamed

theorem Inv.setMutex (h : Inv c) {mutex new : Mutex} (hmem : mutex ∈ c.leadersNodesList)
    (hid : new.id = mutex.id) (hpath : ∀ seq, new.path = some seq → c.At new.id seq)
    (hsome : new.path ≠ none)
    : Inv (c.setMutex new) := by
  have hold : ∀ m ∈ (c.setMutex new).leadersNodesList, m = new ∨ m ∈ c.leadersNodesList := by
    intro m hm
    rcases List.mem_map.mp hm with ⟨m', hm', heq⟩
    split at heq
    . exact .inl heq.symm
    . exact .inr (heq ▸ hm')
  have htracks : ∀ i, c.Tracks i → (c.setMutex new).Tracks i := by
    intro i hi
    rcases hi with ⟨m, hm, heq⟩
    refine ⟨if m.id = new.id then new else m, List.mem_map_of_mem hm, ?_⟩
    split
    . next hnew => rw [← hnew, heq]
    . exact heq
  have hadv : Advances c (c.setMutex new) := by
    refine ⟨fun _ h => h, fun _ h => h, fun _ h => .inl h, ?_⟩
    intro m hm
    cases hold m hm with
    | inl heq => exact .inr ⟨mutex, hmem, heq ▸ hid.symm, fun _ => heq ▸ hsome⟩
    | inr hm => exact .inr ⟨m, hm, rfl, fun hne => hne⟩
  refine ⟨⟨h.pending, h.nodup, h.lt, h.born⟩, ⟨?_, ?_⟩, ?_, h.expired, h.dead⟩
  . exact fun node hnode => htracks _ (h.tracked node hnode)
  . exact fun i hi => htracks i (h.creating i hi)
  . apply h.toMarked.advance hadv
    . intro m hm
      cases hold m hm with
      | inl heq =>
        right
        subst heq
        exact ⟨fun seq hseq => (hpath seq hseq).advance hadv, fun _ => hsome⟩
      | inr hm => exact .inl hm
    . exact fun request hrequest => .inl hrequest
    . exact fun watch hwatch => .inl hwatch
    . exact fun completion hcompletion => .inl hcompletion
    . exact fun completion hcompletion => .inl hcompletion

theorem Inv.createMutexNodeComplete (h : Inv c) {leaderNode : Option Nat}
    (hok : (Completion.createMutexNodeComplete id leaderNode).Ok c)
    (hclean : (Completion.createMutexNodeComplete id leaderNode).Clean c)
    : Inv (c.createMutexNodeComplete id leaderNode) := by
  unfold Client.createMutexNodeComplete
  split
  . exact h.rbZkMutexDone hclean
  . next node =>
    split
    . exact h.calls_fault c.calls true
    . next mutex hmutex =>
      rcases mem_of_mutex? hmutex with ⟨hmem, hid⟩
      have hat : c.At id node := hok
      have hset : Inv (c.setMutex { mutex with path := some node }) := by
        apply Inv.setMutex h hmem
        . rfl
        . intro seq hseq
          cases hseq
          exact hid ▸ hat
        . simp
      simp only
      split
      . next hstate =>
        apply hset.rbZkMutexDone
        exact hset.gone_of_dead (h.expired hstate) hat.1
      . apply hset.requested rfl
        refine ⟨hat.1, ?_⟩
        intro m hm heq
        rcases List.mem_map.mp hm with ⟨m', hm', hif⟩
        split at hif
        . simp [← hif]
        . next hne =>
          subst hif
          exact absurd (heq.trans hid.symm) hne

theorem Inv.watched (h : Inv c) (hnamed : c.Named id) (node : Nat) (found : Bool)
    : Inv { c with watches := c.watches ++ [{ mutex := id, node, found }] } := by
  have hquiet : Quiet c { c with watches := c.watches ++ [{ mutex := id, node, found }] } :=
    ⟨rfl, rfl, rfl, List.Sublist.refl _, fun _ h => h⟩
  apply h.quiet hquiet
  . exact fun request hrequest => .inl hrequest
  . intro watch hwatch
    cases List.mem_append.mp hwatch with
    | inl hold => exact .inl hold
    | inr hnew =>
      rw [List.mem_singleton.mp hnew]
      exact .inr (hnamed.advance hquiet.advances)
  . exact fun completion hcompletion => .inl hcompletion
  . exact fun completion hcompletion => .inl hcompletion
  . exact h.expired
  . exact h.dead

theorem Inv.leaderGetChildrenComplete {directory : List Nat} (h : Inv c)
    {strings : Option (List Nat)} (hnamed : c.Named id)
    (hgood : (Completion.leaderGetChildrenComplete id strings).undisturbed directory c)
    (hstep : c.leaderGetChildrenComplete directory id strings = some c')
    : Inv c' := by
  unfold Client.leaderGetChildrenComplete at hstep
  split at hstep
  . cases hstep
    exact h
  . next strings =>
    split at hstep
    . cases hstep
      exact h.calls_fault c.calls true
    . next mutex hmutex =>
      rcases mem_of_mutex? hmutex with ⟨hmem, hid⟩
      split at hstep
      . cases hstep
        apply Inv.setMutex h hmem
        . rfl
        . exact h.path mutex hmem
        . exact hnamed.2 mutex hmem hid
      . next befStr hbefStr =>
        simp only [Completion.undisturbed, hmutex, Option.bind_some, hbefStr, Bool.or_eq_true,
          Bool.not_eq_true', Bool.and_eq_true, decide_eq_true_eq] at hgood
        split at hstep
        . next hstate =>
          cases hstep
          apply h.rbZkMutexDone
          exact h.gone_of_dead (h.expired hstate) hnamed.1
        . next hstate =>
          cases hstep
          apply h.rbZkMutexDone
          apply h.gone_of_dead _ hnamed.1
          simpa [hstate] using hgood
        . have hwatched := h.watched hnamed befStr (befStr ∈ directory)
          simp only [ne_eq, ite_not, Option.ite_none_right_eq_some, Option.some.injEq] at hstep
          rcases hstep with ⟨_, hstep⟩
          split at hstep
          . cases hstep
            exact hwatched
          . next hmissing =>
            cases hstep
            apply hwatched.rbZkMutexDone
            apply hwatched.gone_of_dead _ hnamed.1
            simpa [hmissing] using hgood

theorem Inv.clean (h : Inv c) (hnodes : c.nodes = []) (hcreating : c.creating = [])
    {completion : Completion} {inbox : List Completion} (hinbox : c.inbox = completion :: inbox)
    {mutexes : List Mutex} (hmutexes : mutexes ⊆ c.leadersNodesList)
    : Inv { c with inbox := inbox, leadersNodesList := mutexes } := by
  have hadv : Advances c { c with inbox := inbox, leadersNodesList := mutexes } :=
    ⟨fun _ h => h, fun _ h => h, fun _ h => .inl h,
      fun mutex hmutex => .inr ⟨mutex, hmutexes hmutex, rfl, fun hpath => hpath⟩⟩
  refine ⟨⟨h.pending, h.nodup, h.lt, h.born⟩, ⟨by simp [hnodes], ?_⟩, ?_, h.expired, h.dead⟩
  . intro i hi
    have hi : i ∈ c.creating := hi
    simp [hcreating] at hi
  . have hok : ∀ x ∈ inbox, x.Ok { c with inbox := inbox, leadersNodesList := mutexes } := by
      intro x hx
      apply Completion.Ok.advance _ hadv
      apply h.inbox
      rw [hinbox]
      exact List.mem_cons_of_mem completion hx
    apply h.toMarked.advance hadv
    . exact fun mutex hmutex => .inl (hmutexes hmutex)
    . exact fun request hrequest => .inl hrequest
    . exact fun watch hwatch => .inl hwatch
    . exact fun x hx => .inr (hok x hx)
    . intro x hx
      right
      exact (hok x (front_subset hx)).clean hnodes hcreating

theorem Inv.zkWatcher (h : Inv c) {state : ZooState} {inbox : List Completion}
    (hinbox : c.inbox = .sessionEvent state :: inbox) {directory : List Nat}
    (hgood : (Completion.sessionEvent state).undisturbed directory c)
    : Inv ({ c with inbox := inbox }.zkWatcher state) := by
  unfold Client.zkWatcher
  cases state with
  | connected =>
    have hpop := h.pop hinbox rfl
    simp only
    split
    . exact hpop.calls_fault c.calls true
    . exact hpop.calls_fault _ c.fault
  | connecting =>
    simp only [Completion.undisturbed, Bool.and_eq_true, List.isEmpty_iff] at hgood
    simp only
    split
    . exact (h.clean hgood.1 hgood.2 hinbox (List.Subset.refl _)).calls_fault c.calls true
    . exact h.clean hgood.1 hgood.2 hinbox (List.nil_subset _)
  | expiredSession =>
    simp only [Completion.undisturbed, Bool.and_eq_true, List.isEmpty_iff] at hgood
    simp only
    split
    . exact (h.clean hgood.1 hgood.2 hinbox (List.Subset.refl _)).calls_fault c.calls true
    . exact (h.clean hgood.1 hgood.2 hinbox (List.nil_subset _)).calls_fault _ c.fault

theorem Inv.complete (h : Inv c) {completion : Completion} {inbox : List Completion}
    (hinbox : c.inbox = completion :: inbox) {directory : List Nat}
    (hgood : completion.undisturbed directory c)
    (hstep : { c with inbox := inbox }.complete directory completion = some c')
    : Inv c' := by
  have hok : completion.Ok c := by
    apply h.inbox
    rw [hinbox]
    exact List.mem_cons_self
  cases completion with
  | createMutexNodeComplete id leaderNode =>
    cases hstep
    have hclean : (Completion.createMutexNodeComplete id leaderNode).Clean c := by
      apply h.front
      simp [front, hinbox, Completion.cleans]
    exact (h.pop hinbox rfl).createMutexNodeComplete hok hclean
  | leaderGetChildrenComplete id strings =>
    exact (h.pop hinbox rfl).leaderGetChildrenComplete hok hgood hstep
  | deleteMutexCompleted id =>
    cases hstep
    have hclean : (Completion.deleteMutexCompleted id).Clean c := by
      apply h.front
      simp [front, hinbox, Completion.cleans]
    exact (h.pop hinbox rfl).rbZkMutexDone hclean
  | previousLeaderWatcher id node =>
    cases hstep
    exact (h.pop hinbox rfl).previousLeaderWatcher hok
  | sessionEvent state =>
    cases hstep
    exact h.zkWatcher hinbox hgood

theorem Inv.rbZkMutexLock (h : Inv c) : Inv c.rbZkMutexLock := by
  have hpending : c.rbZkMutexLock.pendingLeaders.map Mutex.id =
      c.pendingLeaders.map Mutex.id ++ [c.nextMutex] := by
    simp [Client.rbZkMutexLock]
  have hadv : Advances c c.rbZkMutexLock := by
    refine ⟨?_, ?_, fun _ h => .inl h, fun mutex h => .inr ⟨mutex, h, rfl, fun hpath => hpath⟩⟩
    . intro i hunborn
      simp only [Unborn, hpending, List.mem_append, List.mem_singleton] at hunborn ⊢
      rcases hunborn with (hpending | hnext) | hrequested | hnext
      . exact .inl hpending
      . exact .inr (.inr (Nat.le_of_eq hnext.symm))
      . exact .inr (.inl hrequested)
      . exact .inr (.inr (Nat.le_of_succ_le hnext))
    . intro i hissued
      simp only [Issued, hpending, List.mem_append, List.mem_singleton, not_or] at hissued ⊢
      exact ⟨⟨hissued.1, Nat.ne_of_lt hissued.2⟩, Nat.lt_succ_of_lt hissued.2⟩
  have hperm : (c.rbZkMutexLock.pendingLeaders.map Mutex.id ++ c.creating).Perm
      (c.nextMutex :: (c.pendingLeaders.map Mutex.id ++ c.creating)) := by
    rw [hpending, List.append_assoc]
    exact List.perm_middle
  refine ⟨⟨?_, ?_, ?_, ?_⟩, ⟨h.tracked, h.creating⟩, ?_, h.expired, h.dead⟩
  . intro mutex hmutex
    cases List.mem_append.mp hmutex with
    | inl hold => exact h.pending mutex hold
    | inr hnew => simp [List.mem_singleton.mp hnew]
  . apply hperm.nodup_iff.mpr
    apply List.nodup_cons.mpr
    exact ⟨fun hmem => Nat.lt_irrefl _ (h.lt _ hmem), h.nodup⟩
  . intro i hi
    cases List.mem_cons.mp (hperm.mem_iff.mp hi) with
    | inl heq => exact heq ▸ Nat.lt_succ_self _
    | inr hold => exact Nat.lt_succ_of_lt (h.lt i hold)
  . intro node hnode hunborn
    exact h.born node hnode (hadv.unborn _ hunborn)
  . apply h.toMarked.advance hadv
    . exact fun mutex hmutex => .inl hmutex
    . exact fun request hrequest => .inl hrequest
    . exact fun watch hwatch => .inl hwatch
    . exact fun completion hcompletion => .inl hcompletion
    . exact fun completion hcompletion => .inl hcompletion

theorem filterMap_creates_acreate (mutexes : List Mutex)
    : (mutexes.map fun mutex => Request.acreate mutex.id).filterMap Request.creates =
      mutexes.map Mutex.id := by
  induction mutexes with
  | nil => rfl
  | cons mutex mutexes ih => simp [Request.creates, ih]

theorem Inv.zkWatcherDoPendingLocks (h : Inv c) : Inv c.zkWatcherDoPendingLocks := by
  unfold Client.zkWatcherDoPendingLocks
  split
  . exact h
  . generalize hc' : ({ c with
      pendingLeaders := []
      leadersNodesList := c.leadersNodesList ++ c.pendingLeaders
      requests := c.requests ++ c.pendingLeaders.map fun mutex => .acreate mutex.id } : Client) = c'
    have hperm : c'.creating.Perm (c.pendingLeaders.map Mutex.id ++ c.creating) := by
      subst hc'
      simp only [creating, List.filterMap_append, filterMap_creates_acreate]
      rw [← List.append_assoc]
      exact List.perm_append_comm
    have hmem : ∀ i, i ∈ c'.creating ↔ i ∈ c.pendingLeaders.map Mutex.id ∨ i ∈ c.creating := by
      intro i
      rw [hperm.mem_iff, List.mem_append]
    have hpending : c'.pendingLeaders = [] := by subst hc'; rfl
    have hnext : c'.nextMutex = c.nextMutex := by subst hc'; rfl
    have hmutexes : c'.leadersNodesList = c.leadersNodesList ++ c.pendingLeaders := by
      subst hc'; rfl
    have hnodes : c'.nodes = c.nodes := by subst hc'; rfl
    have hadv : Advances c c' := by
      refine ⟨?_, ?_, ?_, ?_⟩
      . intro i hunborn
        unfold Unborn at hunborn ⊢
        rw [hpending, hmem, hnext] at hunborn
        simpa [or_assoc] using hunborn
      . intro i hissued
        unfold Issued at hissued ⊢
        rw [hpending, hnext]
        exact ⟨by simp, hissued.2⟩
      . intro node hnode
        exact .inl (hnodes ▸ hnode)
      . intro mutex hmutex
        rw [hmutexes] at hmutex
        cases List.mem_append.mp hmutex with
        | inl hold => exact .inr ⟨mutex, hold, rfl, fun hpath => hpath⟩
        | inr hnew => exact .inl (.inl (List.mem_map_of_mem hnew))
    have htracks : ∀ i, c.Tracks i → c'.Tracks i := by
      intro i hi
      rcases hi with ⟨mutex, hmutex, heq⟩
      refine ⟨mutex, ?_, heq⟩
      rw [hmutexes]
      exact List.mem_append_left _ hmutex
    refine ⟨⟨?_, ?_, ?_, ?_⟩, ⟨?_, ?_⟩, ?_, ?_, ?_⟩
    . simp [hpending]
    . rw [hpending]
      exact hperm.nodup_iff.mpr h.nodup
    . intro i hi
      rw [hpending] at hi
      rw [hnext]
      exact h.lt i (hperm.mem_iff.mp hi)
    . intro node hnode hunborn
      exact h.born node (hnodes ▸ hnode) (hadv.unborn _ hunborn)
    . intro node hnode
      exact htracks _ (h.tracked node (hnodes ▸ hnode))
    . intro i hi
      cases (hmem i).mp hi with
      | inl hnew =>
        rcases List.mem_map.mp hnew with ⟨mutex, hmutex, heq⟩
        refine ⟨mutex, ?_, heq⟩
        rw [hmutexes]
        exact List.mem_append_right _ hmutex
      | inr hold => exact htracks i (h.creating i hold)
    . apply h.toMarked.advance hadv
      . intro mutex hmutex
        rw [hmutexes] at hmutex
        cases List.mem_append.mp hmutex with
        | inl hold => exact .inl hold
        | inr hnew =>
          right
          rcases h.pending mutex hnew with ⟨hpath, hleader⟩
          simp [hpath, hleader]
      . intro request hrequest
        subst hc'
        cases List.mem_append.mp hrequest with
        | inl hold => exact .inl hold
        | inr hnew =>
          rcases List.mem_map.mp hnew with ⟨mutex, hmutex, heq⟩
          subst heq
          exact .inr trivial
      . subst hc'
        exact fun watch hwatch => .inl hwatch
      . subst hc'
        exact fun completion hcompletion => .inl hcompletion
      . subst hc'
        exact fun completion hcompletion => .inl hcompletion
    . subst hc'
      exact h.expired
    . subst hc'
      exact h.dead

end

end Client

end Zk

end RbMonitor
