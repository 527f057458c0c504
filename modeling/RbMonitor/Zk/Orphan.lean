import RbMonitor.Zk.Nodes

/-!
This module contains which nodes of a lock directory are orphans, over the runs of its clients.
-/

namespace RbMonitor

namespace Zk

namespace Client

section

variable {c c' : Client} {id : Nat}

theorem Inv.issued_of_creating (h : Inv c) (hid : id ∈ c.creating) : c.Issued id := by
  refine ⟨?_, h.lt id (List.mem_append_right _ hid)⟩
  intro hpending
  exact (List.nodup_append.mp h.nodup).2.2 id hpending id hid rfl

theorem Inv.gone_of_creating (h : Inv c) (hquiet : Quiet c c') {before after : List Nat}
    (hcreating : c.creating = before ++ id :: after) (hrest : c'.creating = before ++ after)
    : c'.Gone id := by
  have hid : id ∈ c.creating := by simp [hcreating]
  rcases hquiet.advances.issued id (h.issued_of_creating hid) with ⟨hpending, hnext⟩
  refine ⟨?_, ?_⟩
  . intro hunborn
    rcases hunborn with hunborn | hunborn | hunborn
    . exact hpending hunborn
    . have hnodup := (List.nodup_append.mp h.nodup).2.1
      rw [hcreating, List.perm_middle.nodup_iff] at hnodup
      rw [hrest] at hunborn
      exact (List.nodup_cons.mp hnodup).1 hunborn
    . exact absurd hnext (Nat.not_lt_of_le hunborn)
  . intro node hnode heq
    apply h.born node (hquiet.nodes hnode)
    exact heq ▸ .inr (.inl hid)

theorem Inv.reply (h : Inv c) {completion : Completion} (hok : completion.Ok c)
    (hclean : completion.Clean c)
    : Inv { c with inbox := c.inbox ++ [completion] } := by
  have hquiet : Quiet c { c with inbox := c.inbox ++ [completion] } :=
    ⟨rfl, rfl, rfl, List.Sublist.refl _, fun _ h => h⟩
  apply h.quiet hquiet
  . exact fun request hrequest => .inl hrequest
  . exact fun watch hwatch => .inl hwatch
  . intro x hx
    cases List.mem_append.mp hx with
    | inl hold => exact .inl hold
    | inr hnew =>
      rw [List.mem_singleton.mp hnew]
      exact .inr (hok.advance hquiet.advances)
  . intro x hx
    cases mem_front_append rfl hx with
    | inl hold => exact .inl hold
    | inr hnew =>
      rw [List.mem_singleton.mp hnew]
      exact .inr (hclean.advance hquiet.advances)
  . exact h.expired
  . exact h.dead

theorem Inv.forget (h : Inv c) {requests lost : List Request} (hrequests : requests ⊆ c.requests)
    (hcreating : ((lost ++ requests).filterMap Request.creates).Sublist c.creating)
    (hdead : c.live = false → lost = [])
    : Inv { c with requests := requests, lost := lost } := by
  have hquiet : Quiet c { c with requests := requests, lost := lost } :=
    ⟨rfl, rfl, rfl, hcreating, fun _ h => h⟩
  apply h.quiet hquiet
  . exact fun request hrequest => .inl (hrequests hrequest)
  . exact fun watch hwatch => .inl hwatch
  . exact fun completion hcompletion => .inl hcompletion
  . exact fun completion hcompletion => .inl hcompletion
  . exact h.expired
  . exact fun hlive => ⟨(h.dead hlive).1, hdead hlive⟩

theorem Inv.create (h : Inv c) (hlive : c.live = true) {requests lost : List Request}
    (hrequests : requests ⊆ c.requests) {before after : List Nat}
    (hcreating : c.creating = before ++ id :: after)
    (hrest : (lost ++ requests).filterMap Request.creates = before ++ after) (seq : Nat)
    : Inv { c with requests, lost, nodes := c.nodes ++ [{ seq, mutex := id }] } ∧
      At { c with requests, lost, nodes := c.nodes ++ [{ seq, mutex := id }] } id seq := by
  have hid : id ∈ c.creating := by simp [hcreating]
  have hsub : ((lost ++ requests).filterMap Request.creates).Sublist c.creating := by
    rw [hcreating, hrest]
    exact List.Sublist.append_left (List.sublist_cons_self id after) before
  have hquiet : Quiet c { c with requests, lost } := ⟨rfl, rfl, rfl, hsub, fun _ h => h⟩
  have hforget := h.forget hrequests hsub (by simp [hlive])
  have hgone := h.gone_of_creating hquiet hcreating hrest
  have hadv : Advances c { c with requests, lost, nodes := c.nodes ++ [{ seq, mutex := id }] } := by
    refine ⟨fun _ => hquiet.unborn, fun _ h => h, ?_, hquiet.advances.mutexes⟩
    intro node hnode
    cases List.mem_append.mp hnode with
    | inl hold => exact .inl hold
    | inr hnew =>
      rw [List.mem_singleton.mp hnew]
      exact .inr (.inr (.inl hid))
  have hat : At { c with requests, lost, nodes := c.nodes ++ [{ seq, mutex := id }] } id seq := by
    refine ⟨hgone.1, ?_⟩
    intro node hnode heq
    cases List.mem_append.mp hnode with
    | inl hold => exact absurd heq (hgone.2 node hold)
    | inr hnew => rw [List.mem_singleton.mp hnew]
  refine ⟨⟨⟨h.pending, hforget.nodup, hforget.lt, ?_⟩, ⟨?_, hforget.creating⟩, ?_, h.expired, ?_⟩,
    hat⟩
  . intro node hnode
    cases List.mem_append.mp hnode with
    | inl hold => exact hforget.born node hold
    | inr hnew =>
      rw [List.mem_singleton.mp hnew]
      exact hgone.1
  . intro node hnode
    cases List.mem_append.mp hnode with
    | inl hold => exact h.tracked node hold
    | inr hnew =>
      rw [List.mem_singleton.mp hnew]
      exact h.creating id hid
  . apply h.toMarked.advance hadv
    . exact fun mutex hmutex => .inl hmutex
    . exact fun request hrequest => .inl (hrequests hrequest)
    . exact fun watch hwatch => .inl hwatch
    . exact fun completion hcompletion => .inl hcompletion
    . exact fun completion hcompletion => .inl hcompletion
  . simp [hlive]

theorem advances_delete (gone : List Nat) : Advances c (c.delete gone) := by
  have hfilter : Quiet c { c with nodes := c.nodes.filter fun node => node.seq ∉ gone } :=
    ⟨rfl, rfl, rfl, List.Sublist.refl _, List.filter_subset_self _⟩
  simp only [Client.delete]
  split
  . exact ⟨hfilter.advances.unborn, hfilter.advances.issued, hfilter.advances.nodes,
      hfilter.advances.mutexes⟩
  . exact hfilter.advances

theorem nodes_delete (gone : List Nat)
    : (c.delete gone).nodes = c.nodes.filter fun node => node.seq ∉ gone := by
  simp only [Client.delete]
  split
  . rfl
  . rfl

theorem At.delete {seq : Nat} (h : c.At id seq) : (c.delete [seq]).Gone id := by
  have hat := h.advance (advances_delete [seq])
  refine ⟨hat.1, ?_⟩
  intro node hnode heq
  have hseq := hat.2 node hnode heq
  rw [nodes_delete] at hnode
  simp [hseq] at hnode

theorem Inv.serve (h : Inv c) (hlive : c.live = true) {request : Request} {requests : List Request}
    (hrequests : c.requests = request :: requests) (directory : List Nat) (nextSeq : Nat)
    {effect : Effect} {reply : Completion}
    (hhandle : { c with requests := requests }.handle directory nextSeq request = (effect, reply))
    : Inv { effect.client.delete effect.gone with
        inbox := (effect.client.delete effect.gone).inbox ++ [reply] } := by
  have hok := h.request request (by rw [hrequests]; exact List.mem_cons_self)
  have hsubset : requests ⊆ c.requests := by
    rw [hrequests]
    exact List.subset_cons_self request requests
  have hforget : request.creates = none → Inv { c with requests := requests } := by
    intro hcreates
    apply h.forget hsubset
    . simp [creating, hrequests, hcreates]
    . exact fun hdead => (h.dead hdead).2
  have hquiet : request.creates = none → Quiet c { c with requests := requests } := by
    intro hcreates
    refine ⟨rfl, rfl, rfl, ?_, fun _ h => h⟩
    simp [creating, hrequests, hcreates]
  cases request with
  | acreate id =>
    cases hhandle
    have hcreating : c.creating =
        c.lost.filterMap Request.creates ++ id :: requests.filterMap Request.creates := by
      simp [creating, hrequests, Request.creates]
    rcases h.create hlive hsubset hcreating List.filterMap_append nextSeq with ⟨hinv, hat⟩
    apply (hinv.delete []).reply
    . exact At.advance hat (advances_delete [])
    . trivial
  | agetChildren id =>
    cases hhandle
    apply ((hforget rfl).delete []).reply
    . exact (Named.advance hok (hquiet rfl).advances).advance (advances_delete [])
    . trivial
  | adelete id path =>
    cases hhandle
    rcases hok with ⟨seq, hpath, hat⟩
    subst hpath
    have hgone := (hat.advance (hquiet rfl).advances).delete
    apply ((hforget rfl).delete [seq]).reply
    . exact (At.advance (hat.advance (hquiet rfl).advances) (advances_delete [seq])).issued
    . exact hgone

theorem Inv.refuse (h : Inv c) {request : Request} {requests : List Request}
    (hrequests : c.requests = request :: requests) (hdelete : ∀ id path, request ≠ .adelete id path)
    : Inv { c with requests := requests, inbox := c.inbox ++ [request.failed] } := by
  have hok := h.request request (by rw [hrequests]; exact List.mem_cons_self)
  have hsub : ((c.lost ++ requests).filterMap Request.creates).Sublist c.creating := by
    unfold creating
    rw [hrequests]
    apply List.Sublist.filterMap
    exact List.Sublist.append_left (List.sublist_cons_self request requests) c.lost
  have hquiet : Quiet c { c with requests := requests } := ⟨rfl, rfl, rfl, hsub, fun _ h => h⟩
  have hforget : Inv { c with requests := requests } := by
    apply h.forget _ hsub fun hdead => (h.dead hdead).2
    rw [hrequests]
    exact List.subset_cons_self request requests
  apply hforget.reply
  . cases request with
    | acreate id =>
      apply hquiet.advances.issued
      apply h.issued_of_creating
      simp [creating, hrequests, Request.creates]
    | agetChildren id => exact Named.advance hok hquiet.advances
    | adelete id path => exact absurd rfl (hdelete id path)
  . cases request with
    | acreate id =>
      have hcreating : c.creating =
          c.lost.filterMap Request.creates ++ id :: requests.filterMap Request.creates := by
        simp [creating, hrequests, Request.creates]
      exact h.gone_of_creating hquiet hcreating List.filterMap_append
    | agetChildren id => trivial
    | adelete id path => exact absurd rfl (hdelete id path)

theorem Inv.serveLost (h : Inv c) {request : Request} {lost : List Request}
    (hlost : c.lost = request :: lost) (directory : List Nat) (nextSeq : Nat)
    : Inv ({ c with lost := lost }.handle directory nextSeq request).1.client := by
  have hlive : c.live = true := by
    cases hlive : c.live with
    | true => rfl
    | false =>
      have hnil := (h.dead hlive).2
      rw [hlost] at hnil
      cases hnil
  have hforget : request.creates = none → Inv { c with lost := lost } := by
    intro hcreates
    apply h.forget (List.Subset.refl _)
    . simp [creating, hlost, hcreates]
    . simp [hlive]
  cases request with
  | acreate id =>
    have hcreating : c.creating =
        [] ++ id :: (lost ++ c.requests).filterMap Request.creates := by
      simp [creating, hlost, Request.creates]
    exact (h.create hlive (List.Subset.refl _) hcreating rfl nextSeq).1
  | agetChildren id => exact hforget rfl
  | adelete id path => exact hforget rfl

theorem Inv.failed_ok (h : Inv c) {completion : Completion}
    (hfailed : (∃ request ∈ c.requests, request.failed = completion) ∨
      ∃ reply ∈ c.inbox, reply.failed = some completion)
    : completion.Ok c := by
  rcases hfailed with ⟨request, hmem, heq⟩ | ⟨reply, hmem, heq⟩
  . have hok := h.request request hmem
    subst heq
    cases request with
    | acreate id =>
      apply h.issued_of_creating
      exact List.mem_filterMap.mpr ⟨_, List.mem_append_right _ hmem, rfl⟩
    | agetChildren id => exact hok
    | adelete id path =>
      rcases hok with ⟨seq, _, hat⟩
      exact hat.issued
  . have hok := h.inbox reply hmem
    cases reply with
    | createMutexNodeComplete id leaderNode =>
      cases heq
      cases leaderNode with
      | none => exact hok
      | some node => exact At.issued hok
    | leaderGetChildrenComplete id strings =>
      cases heq
      exact hok
    | deleteMutexCompleted id =>
      cases heq
      exact hok
    | previousLeaderWatcher id node => cases heq
    | sessionEvent state => cases heq

theorem Inv.disconnect (h : Inv c) {received : Nat} (hstep : c.disconnect received = some c')
    : Inv c' := by
  simp only [Client.disconnect, Option.ite_none_left_eq_some, Option.some.injEq] at hstep
  rcases hstep with ⟨_, hstep⟩
  have hquiet : Quiet c c' := by
    subst hstep
    refine ⟨rfl, rfl, rfl, ?_, fun _ h => h⟩
    simp only [creating, List.append_nil]
    split
    . exact List.Sublist.refl _
    . exact List.nil_sublist _
  have hadv := hquiet.advances
  subst hstep
  apply h.quiet hquiet
  . intro request hrequest
    cases hrequest
  . intro watch hwatch
    cases List.mem_append.mp hwatch with
    | inl hold => exact .inl hold
    | inr hnew =>
      rcases List.mem_filterMap.mp hnew with ⟨reply, hreply, heq⟩
      have hok := h.inbox reply (List.mem_of_mem_drop hreply)
      cases reply with
      | previousLeaderWatcher id node =>
        cases heq
        exact .inr (Named.advance hok hadv)
      | _ => cases heq
  . intro x hx
    rcases List.mem_append.mp hx with hold | hnew
    . exact .inl (List.mem_of_mem_take hold)
    . rcases List.mem_cons.mp hnew with heq | hnew
      . rw [heq]
        exact .inr trivial
      . right
        apply Completion.Ok.advance _ hadv
        apply h.failed_ok
        rcases List.mem_append.mp hnew with hreply | hrequest
        . rcases List.mem_filterMap.mp hreply with ⟨reply, hreply, heq⟩
          exact .inr ⟨reply, List.mem_of_mem_drop hreply, heq⟩
        . exact .inl (List.mem_map.mp hrequest)
  . intro x hx
    left
    unfold front at hx ⊢
    cases mem_takeWhile_append hx with
    | inl hold =>
      rw [← List.take_takeWhile] at hold
      exact List.mem_of_mem_take hold
    | inr hnew => simp [Completion.cleans] at hnew
  . simp
  . intro hdead
    have hdead : c.live = false := hdead
    simp [hdead, (h.dead hdead).1]

theorem Inv.reconnect (h : Inv c) {directory : List Nat}
    (hstep : c.reconnect directory = some c')
    : Inv c' := by
  cases reconnects_of_reconnect hstep with
  | connected _ hlive =>
    have hreply := @Inv.reply c h (.sessionEvent .connected) trivial trivial
    have hconnected : Inv { c with
        state := .connected, inbox := c.inbox ++ [.sessionEvent .connected] } :=
      ⟨⟨h.pending, h.nodup, h.lt, h.born⟩, ⟨h.tracked, h.creating⟩,
        ⟨h.path, h.leader, h.request, h.watch, hreply.inbox, hreply.front⟩,
        by simp, h.dead⟩
    exact hconnected.fire _
  | expired _ hdead =>
    have hreply := @Inv.reply c h (.sessionEvent .expiredSession) trivial trivial
    exact ⟨⟨h.pending, h.nodup, h.lt, h.born⟩, ⟨h.tracked, h.creating⟩,
      ⟨h.path, h.leader, h.request, h.watch, hreply.inbox, hreply.front⟩, fun _ => hdead, h.dead⟩

theorem Inv.expire (h : Inv c) : Inv { c with live := false, lost := [], nodes := [] } := by
  have hquiet : Quiet c { c with live := false, lost := [], nodes := [] } := by
    refine ⟨rfl, rfl, rfl, ?_, List.nil_subset _⟩
    simp [creating]
  apply h.quiet hquiet
  . exact fun request hrequest => .inl hrequest
  . exact fun watch hwatch => .inl hwatch
  . exact fun completion hcompletion => .inl hcompletion
  . exact fun completion hcompletion => .inl hcompletion
  . exact fun _ => rfl
  . exact fun _ => ⟨rfl, rfl⟩

theorem Inv.resetZkContext (h : Inv c) : Inv c.resetZkContext.client := by
  have hquiet : Quiet c c.resetZkContext.client := by
    refine ⟨rfl, rfl, rfl, ?_, List.nil_subset _⟩
    simp [creating, Client.resetZkContext]
  apply h.quiet hquiet
  . intro request hrequest
    cases hrequest
  . intro watch hwatch
    cases hwatch
  . intro x hx
    cases List.mem_append.mp hx with
    | inl hold => exact .inl hold
    | inr hnew =>
      right
      apply Completion.Ok.advance _ hquiet.advances
      exact h.failed_ok (.inl (List.mem_map.mp hnew))
  . intro x hx
    cases mem_front_append rfl hx with
    | inl hold => exact .inl hold
    | inr hnew =>
      right
      have hok := (h.failed_ok (.inl (List.mem_map.mp hnew))).advance hquiet.advances
      exact hok.clean rfl rfl
  . simp [Client.resetZkContext]
  . simp [Client.resetZkContext]

theorem Inv.rbZkMutexUnlock (h : Inv c) (hgood : c.state = .connected ∨ c.live = false)
    (hstep : c.rbZkMutexUnlock id = some c')
    : Inv c' := by
  have hnode : ∀ mutex, c.mutex? id = some mutex → mutex.iAmLeader = true →
      ∃ seq, mutex.path = some seq ∧ At c id seq := by
    intro mutex hmutex hleader
    rcases mem_of_mutex? hmutex with ⟨hmem, hid⟩
    rcases Option.ne_none_iff_exists'.mp (h.leader mutex hmem hleader) with ⟨seq, hseq⟩
    exact ⟨seq, hseq, hid ▸ h.path mutex hmem seq hseq⟩
  cases unlocks_of_rbZkMutexUnlock hstep with
  | deletes hmutex hleader _ => exact h.requested rfl (hnode _ hmutex hleader)
  | frees hmutex hleader hstate =>
    rcases hnode _ hmutex hleader with ⟨seq, _, hat⟩
    apply h.rbZkMutexDone
    exact h.gone_of_dead (hgood.resolve_left hstate) hat.1

end

end Client

/-- Neither a list of the directory nor the connection gets old before the client acts upon it. -/
def ClientAction.undisturbed (directory : List Nat) (c : Client) : ClientAction → Bool
  | .complete => c.inbox.head?.all (·.undisturbed directory c)
  | .rbZkMutexUnlock _ => c.state = .connected || !c.live
  | _ => true

def Action.undisturbed (s : Ensemble) (a : Action) : Bool :=
  s.clients[a.client]?.all (a.action.undisturbed s.directory)

section

open Client

theorem Client.Inv.act {c : Client} (h : Inv c) {directory : List Nat} {nextSeq : Nat}
    {a : ClientAction} (hgood : a.undisturbed directory c) {effect : Effect}
    (hstep : c.act directory nextSeq a = some effect)
    : Inv effect.client := by
  cases Client.taken_of_act hstep with
  | rbZkMutexLock _ => exact h.rbZkMutexLock
  | rbZkMutexUnlock _ hunlock =>
    apply h.rbZkMutexUnlock _ hunlock
    simpa [ClientAction.undisturbed] using hgood
  | doPendingLocks _ _ => exact (h.calls_fault _ c.fault).zkWatcherDoPendingLocks
  | resetZkContext _ _ => exact (h.calls_fault _ c.fault).resetZkContext
  | complete _ hinbox hcomplete =>
    apply h.complete hinbox _ hcomplete
    simpa [ClientAction.undisturbed, hinbox] using hgood
  | serve hlive _ hrequests hhandle => exact h.serve hlive hrequests directory nextSeq hhandle
  | refuse _ _ hrequests hdelete => exact h.refuse hrequests hdelete
  | serveLost hlost => exact h.serveLost hlost directory nextSeq
  | dropLost =>
    apply h.forget (List.Subset.refl _)
    . simp [creating]
    . exact fun _ => rfl
  | disconnect hdisconnect => exact h.disconnect hdisconnect
  | reconnect hreconnect => exact h.reconnect hreconnect
  | expire _ => exact h.expire

theorem Client.inv_start : Inv .start where
  pending := by simp [start]
  nodup := by simp [start, creating]
  lt := by simp [start, creating]
  born := by simp [start]
  tracked := by simp [start]
  creating := by simp [start, creating]
  path := by simp [start]
  leader := by simp [start]
  request := by simp [start]
  watch := by simp [start]
  inbox := by simp [start]
  front := by simp [start, front]
  expired := by simp [start]
  dead := by simp [start]

theorem inv_step {clients : Nat} {s s' : Ensemble} {a : Action} (h : ∀ c ∈ s.clients, Inv c)
    (hgood : a.undisturbed s) (hstep : (lockMachine clients).step s a = some s')
    : ∀ c ∈ s'.clients, Inv c := by
  simp only [lockMachine, Option.bind_eq_bind, Option.bind_eq_some_iff, Option.pure_def,
    Option.some.injEq] at hstep
  rcases hstep with ⟨c, hc, effect, heffect, hs'⟩
  have hmem := List.mem_of_getElem? hc
  have heffect : Inv effect.client := by
    apply (h c hmem).act _ heffect
    simpa [Action.undisturbed, hc] using hgood
  intro c' hc'
  rw [← hs'] at hc'
  rcases List.mem_map.mp hc' with ⟨c₁, hc₁, heq⟩
  rw [← heq]
  apply Inv.delete
  cases List.mem_or_eq_of_mem_set hc₁ with
  | inl hold => exact h c₁ hold
  | inr hnew => exact hnew ▸ heffect

end

/-- A client connects, asks for a lock, and its list of the directory is on the way. -/
def lockRun (client : Nat) : List Action :=
  [⟨client, .reconnect⟩, ⟨client, .complete⟩, ⟨client, .rbZkMutexLock⟩, ⟨client, .call⟩,
    ⟨client, .serve⟩, ⟨client, .complete⟩, ⟨client, .serve⟩]

instance (c : Client) : Decidable c.NoOrphan :=
  inferInstanceAs (Decidable (∀ node ∈ c.nodes,
    (∃ mutex ∈ c.leadersNodesList, mutex.id = node.mutex) ∨
      .adelete node.mutex (some node.seq) ∈ c.requests))

end Zk

end RbMonitor
