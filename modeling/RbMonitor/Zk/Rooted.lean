import RbMonitor.Zk.Calm
import RbMonitor.Zk.Leader

/-!
This module contains the nodes of the mutexes of a client that keeps its session. A mutex that holds
the lock has its node in the directory, so it is the only one of all clients.
-/

namespace RbMonitor

namespace Zk

namespace Client

/-- A mutex that knows its node has it until its deletion is answered. -/
structure Rooted (c : Client) : Prop where
  created : ∀ id seq, .createMutexNodeComplete id (some seq) ∈ c.inbox →
    { seq, mutex := id } ∈ c.nodes
  named : ∀ mutex ∈ c.mutexes, ∀ seq, mutex.path = some seq →
    { seq, mutex := mutex.id } ∈ c.nodes ∨ .deleteMutexCompleted mutex.id ∈ c.inbox
  leader : ∀ mutex ∈ c.mutexes, mutex.iAmLeader → mutex.path ≠ none
  asking : ∀ mutex ∈ c.mutexes, mutex.id ∈ c.asking → mutex.path ≠ none
  deletes : ∀ id path, .adelete id path ∈ c.requests →
    ∃ mutex ∈ c.mutexes, mutex.id = id ∧ mutex.path = path

section

variable {c c' : Client} {id : Nat} {directory : List Nat} {nextSeq : Nat}

theorem mem_asking_iff
    : id ∈ c.asking ↔ (∃ request ∈ c.requests, request.asks = some id) ∨
        (∃ completion ∈ c.inbox, completion.asks = some id) ∨
        ∃ watch ∈ c.watches, watch.mutex = id := by
  simp only [Client.asking, List.mem_append, List.mem_filterMap, List.mem_map, or_assoc]

theorem Rooted.mono (h : Rooted c) (hmutexes : ∀ mutex ∈ c'.mutexes, mutex ∈ c.mutexes)
    (hnodes : ∀ node ∈ c.nodes, node ∈ c'.nodes)
    (hcreated : ∀ id seq, .createMutexNodeComplete id (some seq) ∈ c'.inbox →
      .createMutexNodeComplete id (some seq) ∈ c.inbox ∨ { seq, mutex := id } ∈ c'.nodes)
    (hasking : ∀ id ∈ c'.asking, id ∈ c.asking)
    (hdone : ∀ mutex ∈ c'.mutexes, .deleteMutexCompleted mutex.id ∈ c.inbox →
      .deleteMutexCompleted mutex.id ∈ c'.inbox)
    (hdeletes : ∀ id path, .adelete id path ∈ c'.requests → .adelete id path ∈ c.requests ∧
      ∀ mutex ∈ c.mutexes, mutex.id = id → mutex ∈ c'.mutexes)
    : Rooted c' where
  created id seq hmem := by
    cases hcreated id seq hmem with
    | inl hold => exact hnodes _ (h.created id seq hold)
    | inr hnode => exact hnode
  named mutex hmutex seq hpath := by
    cases h.named mutex (hmutexes mutex hmutex) seq hpath with
    | inl hnode => exact .inl (hnodes _ hnode)
    | inr hmem => exact .inr (hdone mutex hmutex hmem)
  leader mutex hmutex := h.leader mutex (hmutexes mutex hmutex)
  asking mutex hmutex hmem := h.asking mutex (hmutexes mutex hmutex) (hasking _ hmem)
  deletes id path hmem := by
    rcases hdeletes id path hmem with ⟨hold, hkeep⟩
    rcases h.deletes id path hold with ⟨mutex, hmutex, hid, hpath⟩
    exact ⟨mutex, hkeep mutex hmutex hid, hid, hpath⟩

theorem Rooted.quiet (h : Rooted c) (hpending : c'.pendingLeaders = c.pendingLeaders)
    (hleaders : c'.leadersNodesList = c.leadersNodesList) (hnodes : c'.nodes = c.nodes)
    (hinbox : ∀ completion ∈ c'.inbox, completion ∈ c.inbox ∨ completion.creates = none)
    (hasking : ∀ id ∈ c'.asking, id ∈ c.asking)
    (hdone : ∀ id, .deleteMutexCompleted id ∈ c.inbox → .deleteMutexCompleted id ∈ c'.inbox)
    (hrequests : ∀ id path, .adelete id path ∈ c'.requests → .adelete id path ∈ c.requests)
    : Rooted c' := by
  have hmutexes : c'.mutexes = c.mutexes := by
    unfold mutexes
    rw [hpending, hleaders]
  apply h.mono
  . exact fun mutex hmutex => hmutexes ▸ hmutex
  . exact fun node hnode => hnodes ▸ hnode
  . intro i seq hmem
    cases hinbox _ hmem with
    | inl hold => exact .inl hold
    | inr hnone => cases hnone
  . exact hasking
  . exact fun mutex _ => hdone mutex.id
  . exact fun i path hmem => ⟨hrequests i path hmem, fun mutex hmutex _ => hmutexes ▸ hmutex⟩

theorem Rooted.same (h : Rooted c) (hpending : c'.pendingLeaders = c.pendingLeaders)
    (hleaders : c'.leadersNodesList = c.leadersNodesList) (hnodes : c'.nodes = c.nodes)
    (hinbox : c'.inbox = c.inbox) (hasking : c'.asking = c.asking)
    (hrequests : c'.requests = c.requests)
    : Rooted c' := by
  apply h.quiet hpending hleaders hnodes
  . exact fun _ hmem => .inl (hinbox ▸ hmem)
  . exact fun _ hmem => hasking ▸ hmem
  . exact fun _ hmem => hinbox ▸ hmem
  . exact fun _ _ hmem => hrequests ▸ hmem

theorem Rooted.fire (h : Rooted c) (reports : Watch → Bool) : Rooted (c.fire reports) := by
  refine h.quiet rfl rfl rfl ?_ ?_ (fun i hmem => List.mem_append_left _ hmem) fun _ _ hmem => hmem
  . intro completion hmem
    cases List.mem_append.mp hmem with
    | inl hold => exact .inl hold
    | inr hnew =>
      rcases List.mem_map.mp hnew with ⟨watch, _, heq⟩
      subst heq
      exact .inr rfl
  . intro i hmem
    rw [mem_asking_iff] at hmem ⊢
    rcases hmem with hmem | ⟨completion, hmem, hasks⟩ | ⟨watch, hwatch, heq⟩
    . exact .inl hmem
    . rcases List.mem_append.mp hmem with hold | hnew
      . exact .inr (.inl ⟨completion, hold, hasks⟩)
      . rcases List.mem_map.mp hnew with ⟨watch, hwatch, heq⟩
        subst heq
        exact .inr (.inr ⟨watch, (List.mem_filter.mp hwatch).1, Option.some.inj hasks⟩)
    . exact .inr (.inr ⟨watch, (List.mem_filter.mp hwatch).1, heq⟩)

theorem Rooted.delete (h : Rooted c) {gone : List Nat}
    (hgone : ∀ node ∈ c.nodes, node.seq ∈ gone → .deleteMutexCompleted node.mutex ∈ c.inbox ∧
      .createMutexNodeComplete node.mutex (some node.seq) ∉ c.inbox)
    : Rooted (c.delete gone) := by
  have hnodes : Rooted { c with nodes := c.nodes.filter fun node => node.seq ∉ gone } := by
    refine ⟨?_, ?_, h.leader, h.asking, h.deletes⟩
    . intro i seq hmem
      have hnode := h.created i seq hmem
      refine List.mem_filter.mpr ⟨hnode, ?_⟩
      simp only [decide_eq_true_eq]
      exact fun hmem' => (hgone _ hnode hmem').2 hmem
    . intro mutex hmutex seq hpath
      rcases h.named mutex hmutex seq hpath with hnode | hmem
      . by_cases hmem' : seq ∈ gone
        . exact .inr (hgone _ hnode hmem').1
        . exact .inl (List.mem_filter.mpr ⟨hnode, by simpa using hmem'⟩)
      . exact .inr hmem
  simp only [Client.delete]
  split
  . exact hnodes.fire _
  . exact hnodes

theorem mem_mutexes_rbZkMutexDone {mutex : Mutex} (hmem : mutex ∈ (c.rbZkMutexDone id).mutexes)
    : mutex ∈ c.mutexes := by
  unfold Client.rbZkMutexDone at hmem
  split at hmem
  . exact hmem
  . cases List.mem_append.mp hmem with
    | inl hpending => exact List.mem_append_left _ hpending
    | inr hleader => exact List.mem_append_right _ (List.mem_filter.mp hleader).1

theorem mem_mutexes_rbZkMutexDone_of_ne {mutex : Mutex} (hmem : mutex ∈ c.mutexes)
    (hne : mutex.id ≠ id)
    : mutex ∈ (c.rbZkMutexDone id).mutexes := by
  unfold Client.rbZkMutexDone
  split
  . exact hmem
  . cases List.mem_append.mp hmem with
    | inl hpending => exact List.mem_append_left _ hpending
    | inr hleader =>
      exact List.mem_append_right _ (List.mem_filter.mpr ⟨hleader, by simpa using hne⟩)

theorem rbZkMutexDone_eq (c : Client) (id : Nat)
    : (c.rbZkMutexDone id).requests = c.requests ∧ (c.rbZkMutexDone id).inbox = c.inbox ∧
        (c.rbZkMutexDone id).asking = c.asking := by
  unfold Client.rbZkMutexDone
  split <;> exact ⟨rfl, rfl, rfl⟩

theorem Rooted.rbZkMutexDone (h : Rooted c) (hidle : ∀ path, .adelete id path ∉ c.requests)
    : Rooted (c.rbZkMutexDone id) := by
  rcases rbZkMutexDone_eq c id with ⟨hrequests, hinbox, hasking⟩
  apply h.mono
  . exact fun mutex hmem => mem_mutexes_rbZkMutexDone hmem
  . rw [nodes_rbZkMutexDone]
    exact fun node hmem => hmem
  . rw [hinbox]
    exact fun i seq hmem => .inl hmem
  . rw [hasking]
    exact fun i hmem => hmem
  . rw [hinbox]
    exact fun mutex _ hmem => hmem
  . rw [hrequests]
    intro i path hmem
    refine ⟨hmem, ?_⟩
    intro mutex hmutex heq
    apply mem_mutexes_rbZkMutexDone_of_ne hmutex
    intro hid
    exact hidle path (hid ▸ heq ▸ hmem)

theorem mem_mutexes_setMutex {new mutex : Mutex} (hpending : new.id ∉ c.pendingLeaders.map Mutex.id)
    (hmem : mutex ∈ (c.setMutex new).mutexes)
    : mutex = new ∨ (mutex ∈ c.mutexes ∧ mutex.id ≠ new.id) := by
  cases List.mem_append.mp hmem with
  | inl hmem =>
    refine .inr ⟨List.mem_append_left _ hmem, ?_⟩
    intro heq
    exact hpending (heq ▸ List.mem_map_of_mem hmem)
  | inr hmem =>
    rcases List.mem_map.mp hmem with ⟨old, hold, heq⟩
    split at heq
    . exact .inl heq.symm
    . next hne =>
      subst heq
      exact .inr ⟨List.mem_append_right _ hold, hne⟩

theorem mem_mutexes_setMutex_of_ne {new mutex : Mutex} (hmem : mutex ∈ c.mutexes)
    (hne : mutex.id ≠ new.id)
    : mutex ∈ (c.setMutex new).mutexes := by
  cases List.mem_append.mp hmem with
  | inl hmem => exact List.mem_append_left _ hmem
  | inr hmem => exact List.mem_append_right _ (List.mem_map.mpr ⟨mutex, hmem, if_neg hne⟩)

theorem Rooted.setMutex (h : Rooted c) {new : Mutex}
    (hpending : new.id ∉ c.pendingLeaders.map Mutex.id) (hpath : new.path ≠ none)
    (hnamed : ∀ seq, new.path = some seq →
      { seq, mutex := new.id } ∈ c.nodes ∨ .deleteMutexCompleted new.id ∈ c.inbox)
    (hidle : ∀ path, .adelete new.id path ∉ c.requests)
    : Rooted (c.setMutex new) where
  created := h.created
  named mutex hmutex := by
    rcases mem_mutexes_setMutex hpending hmutex with heq | ⟨hold, _⟩
    . rw [heq]
      exact hnamed
    . exact h.named mutex hold
  leader mutex hmutex := by
    rcases mem_mutexes_setMutex hpending hmutex with heq | ⟨hold, _⟩
    . rw [heq]
      exact fun _ => hpath
    . exact h.leader mutex hold
  asking mutex hmutex := by
    rcases mem_mutexes_setMutex hpending hmutex with heq | ⟨hold, _⟩
    . rw [heq]
      exact fun _ => hpath
    . exact h.asking mutex hold
  deletes i path hmem := by
    rcases h.deletes i path hmem with ⟨mutex, hmutex, hid, hsame⟩
    refine ⟨mutex, mem_mutexes_setMutex_of_ne hmutex ?_, hid, hsame⟩
    intro heq
    exact hidle path (heq ▸ hid ▸ hmem)

theorem Rooted.ask (h : Rooted c) (hpath : ∀ mutex ∈ c.mutexes, mutex.id = id → mutex.path ≠ none)
    : Rooted (c.request (.agetChildren id)) where
  created := h.created
  named := h.named
  leader := h.leader
  asking mutex hmutex hmem := by
    by_cases heq : mutex.id = id
    . exact hpath mutex hmutex heq
    . apply h.asking mutex hmutex
      simpa [Client.asking, Client.request, Request.asks, heq] using hmem
  deletes i path hmem := by
    apply h.deletes
    simpa [Client.request] using hmem

theorem Rooted.pop (h : Rooted c) {completion : Completion} {inbox : List Completion}
    (hinbox : c.inbox = completion :: inbox)
    (hnot : ∀ mutex ∈ c.mutexes, completion ≠ .deleteMutexCompleted mutex.id)
    : Rooted { c with inbox := inbox } := by
  have hmem : ∀ completion' ∈ inbox, completion' ∈ c.inbox := by
    rw [hinbox]
    exact fun completion' hmem => List.mem_cons_of_mem _ hmem
  refine h.mono (fun _ hmem => hmem) (fun _ hmem => hmem)
    (fun i seq hmem' => .inl (hmem _ hmem')) ?_ ?_ fun _ _ hmem => ⟨hmem, fun _ hmem _ => hmem⟩
  . intro i hasking
    rw [mem_asking_iff] at hasking ⊢
    rcases hasking with hasking | ⟨completion', hmem', hasks⟩ | hasking
    . exact .inl hasking
    . exact .inr (.inl ⟨completion', hmem completion' hmem', hasks⟩)
    . exact .inr (.inr hasking)
  . intro mutex hmutex hdone
    rw [hinbox] at hdone
    cases List.mem_cons.mp hdone with
    | inl heq => exact absurd heq.symm (hnot mutex hmutex)
    | inr hmem => exact hmem

theorem Attended.not_deletes (h : Attended c) {completion : Completion} {inbox : List Completion}
    (hinbox : c.inbox = completion :: inbox) (hid : completion.mutex = some id) (path : Option Nat)
    : .adelete id path ∉ c.requests := by
  intro hmem
  have hidle := h.idle_pop hinbox hid
  apply hidle
  simp only [carried, List.mem_append, List.mem_map]
  exact .inl (.inl ⟨_, hmem, rfl⟩)

theorem Rooted.createMutexNodeComplete (h : Rooted c) (hattended : c.Attended)
    (hplaced : c.Placed directory nextSeq) {leaderNode : Option Nat} {inbox : List Completion}
    (hinbox : c.inbox = .createMutexNodeComplete id leaderNode :: inbox)
    : Rooted ({ c with inbox := inbox }.createMutexNodeComplete id leaderNode) := by
  have hpop : Rooted { c with inbox := inbox } := h.pop hinbox fun _ _ heq => by cases heq
  have hidle : ∀ path, .adelete id path ∉ c.requests := hattended.not_deletes hinbox rfl
  have htracks : c.Tracks id := hattended.tracked id (mem_carried_head hinbox rfl)
  rcases mutex?_of_tracks htracks with ⟨mutex, hmutex⟩
  have hmutex' : { c with inbox := inbox }.mutex? id = some mutex := hmutex
  have hid : mutex.id = id := (mem_of_mutex? hmutex).2
  unfold Client.createMutexNodeComplete
  cases leaderNode with
  | none => exact hpop.rbZkMutexDone hidle
  | some node =>
    have hpending : id ∉ c.pendingLeaders.map Mutex.id :=
      List.count_eq_zero.mp (hplaced.count_pending htracks)
    have hnode : { seq := node, mutex := id } ∈ c.nodes := by
      apply h.created
      rw [hinbox]
      exact List.mem_cons_self
    have hset : Rooted ({ c with inbox := inbox }.setMutex { mutex with path := some node }) := by
      apply hpop.setMutex
      . exact hid ▸ hpending
      . exact Option.some_ne_none node
      . intro seq hseq
        cases hseq
        exact .inl (hid ▸ hnode)
      . exact hid ▸ hidle
    simp only [hmutex']
    split
    . exact hset.rbZkMutexDone hidle
    . apply hset.ask
      intro other hother heq
      rcases mem_mutexes_setMutex (hid ▸ hpending) hother with hnew | ⟨_, hne⟩
      . rw [hnew]
        exact Option.some_ne_none node
      . exact absurd (heq.trans hid.symm) hne

theorem Rooted.wait (h : Rooted c) {completion : Completion} {inbox : List Completion}
    (hinbox : c.inbox = completion :: inbox) (hasks : completion.asks = some id)
    {requests : List Request} {watches : List Watch}
    (hrequests : ∀ request ∈ requests, request ∈ c.requests ∨ request = .agetChildren id)
    (hwatches : ∀ watch ∈ watches, watch ∈ c.watches ∨ watch.mutex = id)
    : Rooted { c with inbox := inbox, requests := requests, watches := watches } := by
  have hmem : ∀ completion' ∈ inbox, completion' ∈ c.inbox := by
    rw [hinbox]
    exact fun completion' hmem => List.mem_cons_of_mem _ hmem
  have hid : id ∈ c.asking := mem_asking (by rw [hinbox]; exact List.mem_cons_self) hasks
  refine h.quiet rfl rfl rfl (fun completion' hmem' => .inl (hmem completion' hmem')) ?_ ?_ ?_
  . intro i hi
    rcases mem_asking_iff.mp hi with ⟨request, hrequest, hi⟩ | ⟨completion', hmem', hi⟩ |
      ⟨watch, hwatch, hi⟩
    . cases hrequests request hrequest with
      | inl hold => exact mem_asking_iff.mpr (.inl ⟨request, hold, hi⟩)
      | inr heq =>
        subst heq
        cases hi
        exact hid
    . exact mem_asking_iff.mpr (.inr (.inl ⟨completion', hmem completion' hmem', hi⟩))
    . cases hwatches watch hwatch with
      | inl hold => exact mem_asking_iff.mpr (.inr (.inr ⟨watch, hold, hi⟩))
      | inr heq =>
        rw [← hi, heq]
        exact hid
  . intro i hdone
    rw [hinbox] at hdone
    cases List.mem_cons.mp hdone with
    | inl heq =>
      subst heq
      cases hasks
    | inr hmem => exact hmem
  . intro i path hdelete
    cases hrequests _ hdelete with
    | inl hold => exact hold
    | inr heq => cases heq

theorem Rooted.leaderGetChildrenComplete (h : Rooted c) (hattended : c.Attended)
    (hplaced : c.Placed directory nextSeq) {strings : Option (List Nat)} {inbox : List Completion}
    (hinbox : c.inbox = .leaderGetChildrenComplete id strings :: inbox) {directory' : List Nat}
    (hstep : { c with inbox := inbox }.leaderGetChildrenComplete directory' id strings = some c')
    : Rooted c' := by
  have hpop : Rooted { c with inbox := inbox } := h.pop hinbox fun _ _ heq => by cases heq
  have hidle : ∀ path, .adelete id path ∉ c.requests := hattended.not_deletes hinbox rfl
  have htracks : c.Tracks id := hattended.tracked id (mem_carried_head hinbox rfl)
  rcases mutex?_of_tracks htracks with ⟨mutex, hmutex⟩
  have hmutex' : { c with inbox := inbox }.mutex? id = some mutex := hmutex
  have hid : mutex.id = id := (mem_of_mutex? hmutex).2
  simp only [Client.leaderGetChildrenComplete, hmutex'] at hstep
  split at hstep
  . cases hstep
    exact hpop
  . split at hstep
    . cases hstep
      apply hpop.setMutex
      . rw [hid]
        exact List.count_eq_zero.mp (hplaced.count_pending htracks)
      . apply h.asking mutex (mem_mutexes hmutex)
        rw [hid]
        exact mem_asking (by rw [hinbox]; exact List.mem_cons_self) rfl
      . exact hpop.named mutex (mem_mutexes hmutex)
      . exact hid ▸ hidle
    . next befStr _ =>
      split at hstep
      . cases hstep
        exact hpop.rbZkMutexDone hidle
      . cases hstep
        exact hpop.rbZkMutexDone hidle
      . split at hstep
        . cases hstep
        . cases hstep
          have hwatch : Rooted { c with
              inbox := inbox
              watches := c.watches ++
                [{ mutex := id, node := befStr, found := decide (befStr ∈ directory') }] } := by
            apply h.wait hinbox rfl (fun request hmem => .inl hmem)
            intro watch hmem
            cases List.mem_append.mp hmem with
            | inl hold => exact .inl hold
            | inr hnew => exact .inr (congrArg Watch.mutex (List.mem_singleton.mp hnew))
          split
          . exact hwatch
          . exact hwatch.rbZkMutexDone hidle

theorem Rooted.deleteMutexCompleted (h : Rooted c) (hattended : c.Attended)
    (hplaced : c.Placed directory nextSeq) {inbox : List Completion}
    (hinbox : c.inbox = .deleteMutexCompleted id :: inbox)
    : Rooted ({ c with inbox := inbox }.rbZkMutexDone id) := by
  have htracks : c.Tracks id := hattended.tracked id (mem_carried_head hinbox rfl)
  have hdone : Rooted (c.rbZkMutexDone id) :=
    h.rbZkMutexDone (hattended.not_deletes hinbox rfl)
  rcases mutex?_of_tracks htracks with ⟨old, hold⟩
  have hold' : { c with inbox := inbox }.mutex? id = some old := hold
  unfold Client.rbZkMutexDone at hdone ⊢
  simp only [hold] at hdone
  simp only [hold']
  apply hdone.pop hinbox
  intro mutex hmutex heq
  have hid : id = mutex.id := Completion.deleteMutexCompleted.inj heq
  cases List.mem_append.mp hmutex with
  | inl hpending =>
    apply List.count_eq_zero.mp (hplaced.count_pending htracks)
    exact hid ▸ List.mem_map_of_mem hpending
  | inr hleader =>
    have hne := (List.mem_filter.mp hleader).2
    simp [hid] at hne

theorem Rooted.complete (h : Rooted c) (hattended : c.Attended)
    (hplaced : c.Placed directory nextSeq) {completion : Completion} {inbox : List Completion}
    (hinbox : c.inbox = completion :: inbox) (hcleans : ¬completion.cleans) {directory' : List Nat}
    (hstep : { c with inbox := inbox }.complete directory' completion = some c')
    : Rooted c' := by
  cases completion with
  | createMutexNodeComplete i leaderNode =>
    cases hstep
    exact h.createMutexNodeComplete hattended hplaced hinbox
  | leaderGetChildrenComplete i strings =>
    exact h.leaderGetChildrenComplete hattended hplaced hinbox hstep
  | deleteMutexCompleted i =>
    cases hstep
    exact h.deleteMutexCompleted hattended hplaced hinbox
  | previousLeaderWatcher i node =>
    cases hstep
    have hpop : Rooted { c with inbox := inbox } := h.pop hinbox fun _ _ heq => by cases heq
    unfold Client.previousLeaderWatcher
    split
    . exact hpop.same rfl rfl rfl rfl rfl rfl
    . split
      . exact hpop
      . apply h.wait hinbox rfl _ fun watch hmem => .inl hmem
        intro request hmem
        cases List.mem_append.mp hmem with
        | inl hold => exact .inl hold
        | inr hnew => exact .inr (List.mem_singleton.mp hnew)
  | sessionEvent state =>
    have hpop : Rooted { c with inbox := inbox } := h.pop hinbox fun _ _ heq => by cases heq
    have hstate : state = .connected := by
      simpa [Completion.cleans] using hcleans
    subst hstate
    cases hstep
    unfold Client.zkWatcher
    split <;> exact hpop.same rfl rfl rfl rfl rfl rfl

theorem Rooted.rbZkMutexUnlock (h : Rooted c) (hidle : id ∉ c.carried)
    (hstep : c.rbZkMutexUnlock id = some c')
    : Rooted c' := by
  cases unlocks_of_rbZkMutexUnlock hstep with
  | @deletes mutex hmutex _ _ =>
    refine ⟨h.created, h.named, h.leader, ?_, ?_⟩
    . intro other hother hmem
      apply h.asking other hother
      simpa [Client.asking, Client.request, Request.asks] using hmem
    . intro i path hmem
      cases List.mem_append.mp hmem with
      | inl hold => exact h.deletes i path hold
      | inr hnew =>
        cases List.mem_singleton.mp hnew
        exact ⟨mutex, mem_mutexes hmutex, (mem_of_mutex? hmutex).2, rfl⟩
  | frees _ _ _ =>
    apply h.rbZkMutexDone
    intro path hmem
    apply hidle
    simp only [carried, List.mem_append, List.mem_map]
    exact .inl (.inl ⟨_, hmem, rfl⟩)

theorem Rooted.rbZkMutexLock (h : Rooted c) (hplaced : c.Placed directory nextSeq)
    : Rooted c.rbZkMutexLock := by
  have hmutexes : ∀ mutex ∈ c.rbZkMutexLock.mutexes, mutex ∈ c.mutexes ∨
      mutex = { id := c.nextMutex, path := none, iAmLeader := false } := by
    intro mutex hmem
    simp only [mutexes, Client.rbZkMutexLock, List.mem_append, List.mem_singleton] at hmem ⊢
    rcases hmem with (hmem | heq) | hmem
    . exact .inl (.inl hmem)
    . exact .inr heq
    . exact .inl (.inr hmem)
  refine ⟨h.created, ?_, ?_, ?_, ?_⟩
  . intro mutex hmem seq hpath
    rcases hmutexes mutex hmem with hold | hnew
    . exact h.named mutex hold seq hpath
    . subst hnew
      cases hpath
  . intro mutex hmem hleader
    rcases hmutexes mutex hmem with hold | hnew
    . exact h.leader mutex hold hleader
    . subst hnew
      cases hleader
  . intro mutex hmem hasking
    rcases hmutexes mutex hmem with hold | hnew
    . exact h.asking mutex hold hasking
    -- nothing asks for a mutex that is new
    . subst hnew
      exact absurd (hplaced.lt c.nextMutex (.inr (.inr hasking))) (Nat.lt_irrefl _)
  . intro i path hmem
    rcases h.deletes i path hmem with ⟨mutex, hmutex, hid, hpath⟩
    refine ⟨mutex, ?_, hid, hpath⟩
    simp only [mutexes, Client.rbZkMutexLock, List.mem_append] at hmutex ⊢
    exact hmutex.imp_left .inl

theorem Rooted.zkWatcherDoPendingLocks (h : Rooted c) : Rooted c.zkWatcherDoPendingLocks := by
  unfold Client.zkWatcherDoPendingLocks
  split
  . exact h
  . refine h.mono ?_ (fun _ hmem => hmem) (fun i seq hmem => .inl hmem) ?_ (fun _ _ hmem => hmem) ?_
    . intro mutex hmem
      simp only [mutexes, List.nil_append, List.mem_append] at hmem ⊢
      exact hmem.symm
    . intro i hmem
      simp only [Client.asking, List.filterMap_append, filterMap_asks_acreate, List.append_nil]
        at hmem
      exact hmem
    . intro i path hmem
      refine ⟨by simpa using hmem, ?_⟩
      intro mutex hmutex _
      simp only [mutexes, List.nil_append, List.mem_append] at hmutex ⊢
      exact hmutex.symm

theorem Rooted.reply (h : Rooted c) {request : Request} {requests : List Request}
    (hrequests : c.requests = request :: requests) {reply : Completion} {nodes : List Node}
    (hnodes : c.nodes ⊆ nodes) (hasks : ∀ id, reply.asks = some id → request.asks = some id)
    (hcreated : ∀ id seq, reply = .createMutexNodeComplete id (some seq) →
      { seq, mutex := id } ∈ nodes)
    : Rooted { c with requests := requests, nodes := nodes, inbox := c.inbox ++ [reply] } := by
  have hmem : ∀ request' ∈ requests, request' ∈ c.requests := by
    rw [hrequests]
    exact fun request' hmem => List.mem_cons_of_mem _ hmem
  refine h.mono (fun _ hmem => hmem) hnodes ?_ ?_ ?_ ?_
  . intro i seq hmem'
    cases List.mem_append.mp hmem' with
    | inl hold => exact .inl hold
    | inr hnew => exact .inr (hcreated i seq (List.mem_singleton.mp hnew).symm)
  . intro i hi
    rw [mem_asking_iff] at hi ⊢
    rcases hi with ⟨request', hmem', hi⟩ | ⟨completion, hmem', hi⟩ | hi
    . exact .inl ⟨request', hmem request' hmem', hi⟩
    . cases List.mem_append.mp hmem' with
      | inl hold => exact .inr (.inl ⟨completion, hold, hi⟩)
      | inr hnew =>
        rw [List.mem_singleton.mp hnew] at hi
        exact .inl ⟨request, by rw [hrequests]; exact List.mem_cons_self, hasks i hi⟩
    . exact .inr (.inr hi)
  . exact fun mutex _ hdone => List.mem_append_left _ hdone
  . exact fun i path hdelete => ⟨hmem _ hdelete, fun mutex hmutex _ => hmutex⟩

theorem Attended.not_mem_inbox (h : Attended c) {request : Request} (hrequest : request ∈ c.requests)
    {completion : Completion} (hmem : completion ∈ c.inbox)
    : completion.mutex ≠ some request.mutex := by
  intro heq
  have honce := h.once request.mutex
  have hrequests : request.mutex ∈ c.requests.map Request.mutex := List.mem_map_of_mem hrequest
  have hinbox : request.mutex ∈ c.inbox.filterMap Completion.mutex :=
    List.mem_filterMap.mpr ⟨_, hmem, heq⟩
  rw [← List.count_pos_iff] at hrequests hinbox
  simp only [carried, List.count_append] at honce
  omega

theorem Rooted.mem_nodes_of_deletes (h : Rooted c) (hattended : c.Attended) {seq : Nat}
    (hmem : .adelete id (some seq) ∈ c.requests)
    : { seq, mutex := id } ∈ c.nodes := by
  rcases h.deletes id (some seq) hmem with ⟨mutex, hmutex, hid, hpath⟩
  subst hid
  cases h.named mutex hmutex seq hpath with
  | inl hnode => exact hnode
  | inr hdone =>
    exact absurd rfl (hattended.not_mem_inbox hmem hdone)

theorem Rooted.replyLast {reply : Completion} {gone : List Nat}
    (h : Rooted ({ c with inbox := c.inbox ++ [reply] }.delete gone))
    : Rooted { c.delete gone with inbox := (c.delete gone).inbox ++ [reply] } := by
  have hmem : ∀ completion,
      completion ∈ (c.delete gone).inbox ++ [reply] ↔
        completion ∈ ({ c with inbox := c.inbox ++ [reply] }.delete gone).inbox := by
    intro completion
    simp only [Client.delete]
    split
    . simp only [Client.fire, List.append_assoc, List.mem_append]
      exact or_congr_right or_comm
    . rfl
  have hsame : ({ c with inbox := c.inbox ++ [reply] }.delete gone) =
      { c.delete gone with inbox := ({ c with inbox := c.inbox ++ [reply] }.delete gone).inbox } := by
    simp only [Client.delete]
    split <;> rfl
  rw [hsame] at h
  refine h.quiet rfl rfl rfl (fun completion hold => .inl ((hmem completion).mp hold)) ?_
    (fun i hdone => (hmem _).mpr hdone) fun _ _ hdelete => hdelete
  intro i hi
  rw [mem_asking_iff] at hi ⊢
  rcases hi with hi | ⟨completion, hold, hi⟩ | hi
  . exact .inl hi
  . exact .inr (.inl ⟨completion, (hmem completion).mp hold, hi⟩)
  . exact .inr (.inr hi)

theorem Rooted.serve (h : Rooted c) (hattended : c.Attended)
    (hown : ∀ node ∈ c.nodes, ∀ node' ∈ c.nodes, node.seq = node'.seq → node = node')
    {request : Request} {requests : List Request} (hrequests : c.requests = request :: requests)
    {effect : Effect} {reply : Completion}
    (hhandle : { c with requests := requests }.handle directory nextSeq request = (effect, reply))
    : Rooted { effect.client.delete effect.gone with
        inbox := (effect.client.delete effect.gone).inbox ++ [reply] } := by
  have hmem : request ∈ c.requests := by
    rw [hrequests]
    exact List.mem_cons_self
  apply Rooted.replyLast
  cases request with
  | acreate i =>
    cases hhandle
    apply Rooted.delete
    . apply h.reply hrequests (List.subset_append_left _ _)
      . intro i hi
        cases hi
      . intro i seq heq
        cases heq
        exact List.mem_append_right _ (List.mem_singleton.mpr rfl)
    . exact fun node _ hgone => absurd hgone List.not_mem_nil
  | agetChildren i =>
    cases hhandle
    apply Rooted.delete
    . apply h.reply hrequests (List.Subset.refl c.nodes)
      . exact fun i hi => hi
      . intro i seq heq
        cases heq
    . exact fun node _ hgone => absurd hgone List.not_mem_nil
  | adelete i path =>
    cases hhandle
    apply Rooted.delete
    . apply h.reply hrequests (List.Subset.refl c.nodes)
      . intro i hi
        cases hi
      . intro i seq heq
        cases heq
    . intro node hnode hgone
      have hpath : path = some node.seq := by simpa using hgone
      subst hpath
      have hid : node.mutex = i :=
        congrArg Node.mutex (hown _ hnode _ (h.mem_nodes_of_deletes hattended hmem) rfl)
      rw [hid]
      refine ⟨List.mem_append_right _ (List.mem_singleton.mpr rfl), ?_⟩
      intro hcreated
      rcases List.mem_append.mp hcreated with hcreated | heq
      . exact hattended.not_mem_inbox hmem hcreated rfl
      . cases List.mem_singleton.mp heq

theorem Rooted.act (h : Rooted c) (hattended : c.Attended) (hplaced : c.Placed directory nextSeq)
    (hcalm : c.Calm)
    (hown : ∀ node ∈ c.nodes, ∀ node' ∈ c.nodes, node.seq = node'.seq → node = node')
    {a : ClientAction} (hkeeps : a.keepsSession)
    (hunlock : ∀ id, a = .rbZkMutexUnlock id → id ∉ c.carried) {effect : Effect}
    (hstep : c.act directory nextSeq a = some effect)
    : Rooted effect.client := by
  cases taken_of_act hstep with
  | rbZkMutexLock _ => exact h.rbZkMutexLock hplaced
  | @rbZkMutexUnlock id c' _ hunlocked => exact h.rbZkMutexUnlock (hunlock id rfl) hunlocked
  | @doPendingLocks calls _ _ =>
    have htail : Rooted { c with calls := calls } :=
      h.same rfl rfl rfl rfl rfl rfl
    exact htail.zkWatcherDoPendingLocks
  | resetZkContext _ hcalls => exact absurd (hcalls ▸ List.mem_cons_self) hcalm.calls
  | complete _ hinbox hcomplete =>
    apply h.complete hattended hplaced hinbox _ hcomplete
    apply hcalm.not_cleans
    rw [hinbox]
    exact List.mem_cons_self
  | serve _ _ hrequests hhandle => exact h.serve hattended hown hrequests hhandle
  | @refuse request requests _ _ hrequests hdelete =>
    apply h.reply hrequests (List.Subset.refl c.nodes)
    . intro i hi
      rwa [Request.asks_failed] at hi
    . intro i seq heq
      cases request <;> cases heq
  | serveLost hlost =>
    rw [hcalm.lost] at hlost
    cases hlost
  | dropLost => exact h.same rfl rfl rfl rfl rfl rfl
  | disconnect _ => cases hkeeps
  | reconnect hreconnect =>
    cases reconnects_of_reconnect hreconnect with
    | expired _ hdead => cases hcalm.live.symm.trans hdead
    | connected _ _ =>
      apply Rooted.fire
      refine h.quiet rfl rfl rfl ?_ ?_ (fun i hmem => List.mem_append_left _ hmem)
        fun _ _ hmem => hmem
      . intro completion hmem
        cases List.mem_append.mp hmem with
        | inl hold => exact .inl hold
        | inr hnew => exact .inr (by rw [List.mem_singleton.mp hnew]; rfl)
      . intro i hi
        rw [mem_asking_iff] at hi ⊢
        rcases hi with hi | ⟨completion, hmem, hi⟩ | hi
        . exact .inl hi
        . cases List.mem_append.mp hmem with
          | inl hold => exact .inr (.inl ⟨completion, hold, hi⟩)
          | inr hnew =>
            rw [List.mem_singleton.mp hnew] at hi
            cases hi
        . exact .inr (.inr hi)
  | expire _ => cases hkeeps

theorem Rooted.gone (h : Rooted c) (hattended : c.Attended) (hcalm : c.Calm) {a : ClientAction}
    (hkeeps : a.keepsSession) {effect : Effect}
    (hstep : c.act directory nextSeq a = some effect) {seq : Nat} (hmem : seq ∈ effect.gone)
    : (∃ node ∈ c.nodes, node.seq = seq) ∧ ∀ node ∈ effect.client.nodes, node.seq ≠ seq := by
  cases taken_of_act hstep with
  | rbZkMutexLock _ | rbZkMutexUnlock _ _ | doPendingLocks _ _ | complete _ _ _ | dropLost
    | refuse _ _ _ _ | reconnect _ => cases hmem
  | resetZkContext _ hcalls => exact absurd (hcalls ▸ List.mem_cons_self) hcalm.calls
  | @serve request requests effect reply _ _ hrequests hhandle =>
    cases request with
    | acreate id | agetChildren id =>
      cases hhandle
      cases hmem
    | adelete id path =>
      cases hhandle
      have hpath : path = some seq := by
        simpa using hmem
      subst hpath
      have hdelete : .adelete id (some seq) ∈ c.requests := by
        rw [hrequests]
        exact List.mem_cons_self
      refine ⟨⟨{ seq, mutex := id }, h.mem_nodes_of_deletes hattended hdelete, rfl⟩, ?_⟩
      intro node hnode heq
      simp only [nodes_delete, List.mem_filter] at hnode
      simp [heq] at hnode
  | serveLost hlost =>
    rw [hcalm.lost] at hlost
    cases hlost
  | disconnect _ | expire _ => cases hkeeps

theorem rooted_start : Rooted .start := by
  constructor <;> simp [start, mutexes]

theorem Rooted.leads (h : Rooted c) (hheld : c.Held id)
    : ∃ mutex ∈ c.mutexes, mutex.id = id ∧ mutex.iAmLeader ∧
        ∃ seq, mutex.path = some seq ∧ { seq, mutex := id } ∈ c.nodes := by
  rcases List.mem_map.mp hheld.leads with ⟨mutex, hmem, heq⟩
  have hid : mutex.id = id := congrArg Prod.fst heq
  have hleader : mutex.iAmLeader = true := congrArg Prod.snd heq
  have hmutex : mutex ∈ c.mutexes := List.mem_append_right _ hmem
  rcases Option.ne_none_iff_exists'.mp (h.leader mutex hmutex hleader) with ⟨seq, hpath⟩
  refine ⟨mutex, hmutex, hid, hleader, seq, hpath, ?_⟩
  cases h.named mutex hmutex seq hpath with
  | inl hnode => exact hid ▸ hnode
  | inr hdone =>
    apply absurd _ hheld.idle
    simp only [carried, List.mem_append, List.mem_filterMap]
    exact .inl (.inr ⟨_, hdone, congrArg some hid⟩)

end

end Client

theorem Ensemble.Ordered.oneHeld {s : Ensemble} (h : s.Ordered) {i j : Nat} {c c' : Client}
    (hc : s.clients[i]? = some c) (hc' : s.clients[j]? = some c') (hrooted : c.Rooted)
    (hrooted' : c'.Rooted) {id id' : Nat} (hheld : c.Held id) (hheld' : c'.Held id')
    : i = j ∧ id = id' := by
  rcases hrooted.leads hheld with ⟨mutex, hmutex, hid, hleader, seq, hpath, hnode⟩
  rcases hrooted'.leads hheld' with ⟨mutex', hmutex', hid', hleader', seq', hpath', hnode'⟩
  have hleads : s.Leads i mutex seq := ⟨⟨c, hc, hmutex⟩, hleader, hpath,
    Ensemble.mem_directory.mpr ⟨c, List.mem_of_getElem? hc, _, hnode, rfl⟩⟩
  have hleads' : s.Leads j mutex' seq' := ⟨⟨c', hc', hmutex'⟩, hleader', hpath',
    Ensemble.mem_directory.mpr ⟨c', List.mem_of_getElem? hc', _, hnode', rfl⟩⟩
  rcases h.oneLeader.unique i j mutex mutex' seq seq' hleads hleads' with ⟨hij, hsame⟩
  exact ⟨hij, by rw [← hid, ← hid', hsame]⟩

end Zk

end RbMonitor
