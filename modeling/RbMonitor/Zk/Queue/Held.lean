import RbMonitor.Zk.Carried
import RbMonitor.Zk.Queue.Ends

/-!
This module contains what holds between a client and its pops: a pop goes on while its mutex holds
the lock, and until it ends.
-/

namespace RbMonitor

namespace Zk

open Client Consumer

section

variable {c c' : Client} {id : Nat} {directory : List Nat} {nextSeq : Nat}

theorem Client.Placed.mem_marks_false (h : c.Placed directory nextSeq) {completion : Completion}
    {inbox : List Completion} (hinbox : c.inbox = completion :: inbox)
    (hid : completion.creates = some id ∨ completion.asks = some id) {mutex : Mutex}
    (hmutex : c.mutex? id = some mutex)
    : (id, false) ∈ c.marks := by
  have hmem : completion ∈ c.inbox := by
    rw [hinbox]
    exact List.mem_cons_self
  have hmutexes : mutex ∈ c.mutexes := mem_mutexes hmutex
  have hleader : mutex.iAmLeader = false := by
    cases hid with
    | inl hcreates =>
      apply (h.unnamed mutex hmutexes _).2
      rw [(mem_of_mutex? hmutex).2]
      exact List.mem_append_right _ (List.mem_filterMap.mpr ⟨completion, hmem, hcreates⟩)
    | inr hasks => exact (h.idle hinbox hasks).2 mutex hmutexes (mem_of_mutex? hmutex).2
  rw [← hleader]
  exact mem_marks hmutex

/-- What a completion comes to, and the callback that it makes. -/
inductive Client.Completes (c : Client) (directory : List Nat) (c' : Client) : Completion → Prop where
  | steady {completion : Completion} (hcallbacks : c.callbacks directory completion = [])
    (hsteady : c.Steady c') : Completes c directory c' completion
  | deleted {id : Nat} (hreleases : c.Releases id c')
    : Completes c directory c' (.deleteMutexCompleted id)
  | failed {completion : Completion} {id : Nat}
    (hcallbacks : c.callbacks directory completion = [.errorCb id])
    (hid : completion.mutex = some id) (hmark : (id, false) ∈ c.marks) (hreleases : c.Releases id c')
    : Completes c directory c' completion
  | obtained {completion : Completion} {id : Nat}
    (hcallbacks : c.callbacks directory completion = [.schangeCb id true])
    (hid : completion.mutex = some id) (hmark : (id, false) ∈ c.marks) (hobtains : c.Obtains id c')
    : Completes c directory c' completion
  | session {state : ZooState} (hstate : state ≠ .connected)
    : Completes c directory c' (.sessionEvent state)

theorem completes_of_complete (hplaced : c.Placed directory nextSeq) (hattended : c.Attended)
    {completion : Completion} {inbox : List Completion} (hinbox : c.inbox = completion :: inbox)
    {directory' : List Nat} (hstep : { c with inbox := inbox }.complete directory' completion = some c')
    : c.Completes directory' c' completion := by
  have hpop := steady_pop hinbox
  have htracks : ∀ id, completion.mutex = some id → c.Tracks id :=
    fun id hid => hattended.tracked id (mem_carried_head hinbox hid)
  cases completion with
  | createMutexNodeComplete id leaderNode =>
    have hidle := hattended.idle_pop hinbox rfl
    rcases mutex?_of_tracks (htracks id rfl) with ⟨mutex, hmutex⟩
    have hmark := hplaced.mem_marks_false hinbox (.inl rfl) hmutex
    cases leaderNode with
    | none =>
      cases hstep
      refine .failed rfl rfl hmark ?_
      exact hpop.releases (releases_rbZkMutexDone (htracks id rfl) hidle)
    | some node =>
      have hset : c.Steady
          ({ c with inbox := inbox }.setMutex { mutex with path := some node }) :=
        hpop.trans (steady_setMutex (hplaced.pop hinbox) hmutex (some node))
      have hmutex' : { c with inbox := inbox }.mutex? id = some mutex := hmutex
      simp only [Client.complete, Client.createMutexNodeComplete, hmutex', Option.some.injEq]
        at hstep
      split at hstep
      . next hexpired =>
        subst hstep
        refine .failed (if_pos hexpired) rfl hmark ?_
        exact hset.releases (releases_rbZkMutexDone (hset.tracks.mpr (htracks id rfl)) hidle)
      . next hstate =>
        subst hstep
        refine .steady (if_neg hstate) ?_
        apply Steady.request hinbox rfl _ rfl
        exact steady_setMutex (hplaced.pop hinbox) hmutex (some node)
  | leaderGetChildrenComplete id strings =>
    have hidle := hattended.idle_pop hinbox rfl
    rcases mutex?_of_tracks (htracks id rfl) with ⟨mutex, hmutex⟩
    have hmark := hplaced.mem_marks_false hinbox (.inr rfl) hmutex
    cases strings with
    | none =>
      cases hstep
      exact .steady rfl hpop
    | some strings =>
      have hmutex' : { c with inbox := inbox }.mutex? id = some mutex := hmutex
      simp only [Client.complete, Client.leaderGetChildrenComplete, hmutex'] at hstep
      have hdone : c.Releases id ({ c with inbox := inbox }.rbZkMutexDone id) :=
        hpop.releases (releases_rbZkMutexDone (htracks id rfl) hidle)
      cases hbef : mutex.path.bind (leaderPreviousString strings) with
      | none =>
        rw [hbef] at hstep
        cases hstep
        refine .obtained ?_ rfl hmark (hpop.obtains (obtains_setMutex hmutex hidle))
        simp only [Client.callbacks, hmutex, hbef]
      | some befStr =>
        have hcallbacks : c.callbacks directory' (.leaderGetChildrenComplete id (some strings)) =
            if c.state = .connected ∧ befStr ∈ directory' then [] else [.errorCb id] := by
          simp only [Client.callbacks, hmutex, hbef]
        rw [hbef] at hstep
        simp only at hstep
        split at hstep
        . next hstate =>
          cases hstep
          refine .failed (hcallbacks.trans (if_neg ?_)) rfl hmark hdone
          intro h
          cases hstate.symm.trans h.1
        . next hstate =>
          cases hstep
          refine .failed (hcallbacks.trans (if_neg ?_)) rfl hmark hdone
          intro h
          cases hstate.symm.trans h.1
        . next hstate =>
          simp only [ne_eq, ite_not, Option.ite_none_right_eq_some, Option.some.injEq] at hstep
          rcases hstep with ⟨_, hstep⟩
          split at hstep
          . next hfound =>
            cases hstep
            have hfound : befStr ∈ directory' := by simpa using hfound
            refine .steady (hcallbacks.trans (if_pos ⟨hstate, hfound⟩)) ?_
            simp only [hfound, decide_true]
            exact steady_watch hinbox rfl befStr
          . next hfound =>
            cases hstep
            have hfound : befStr ∉ directory' := by simpa using hfound
            refine .failed (hcallbacks.trans (if_neg fun h => hfound h.2)) rfl hmark ?_
            -- the watch that stays brings nothing
            simp only [hfound, decide_false]
            have hwatch : c.Steady { c with
                inbox := inbox
                watches := c.watches ++ [{ mutex := id, node := befStr, found := false }] } := by
              refine hpop.trans ⟨rfl, rfl, rfl, ?_⟩
              intro i
              simp [carried]
            apply hwatch.releases (releases_rbZkMutexDone (htracks id rfl) _)
            simpa [carried] using hidle
  | deleteMutexCompleted id =>
    cases hstep
    apply Client.Completes.deleted
    exact hpop.releases (releases_rbZkMutexDone (htracks id rfl) (hattended.idle_pop hinbox rfl))
  | previousLeaderWatcher id node =>
    cases hstep
    rcases mutex?_of_tracks (htracks id rfl) with ⟨mutex, hmutex⟩
    have hmutex' : { c with inbox := inbox }.mutex? id = some mutex := hmutex
    refine .steady rfl ?_
    simp only [Client.previousLeaderWatcher, hmutex']
    split
    . exact hpop
    . exact Steady.request hinbox rfl (Steady.refl _) rfl
  | sessionEvent state =>
    cases state with
    | connected =>
      cases hstep
      refine .steady rfl ?_
      unfold Client.zkWatcher
      split
      . exact hpop.trans (steady_calls_fault c.calls true)
      . exact hpop.trans (steady_calls_fault _ c.fault)
    | connecting | expiredSession => exact .session (by decide)

end

structure Coupled (c : Client) (q : Consumer) : Prop where
  attended : c.Attended
  tidy : q.Tidy
  -- a pop goes on under the lock
  held : ∀ id ∈ q.waiting, q.Live id ∧ c.Held id
  watching : ∀ id ∈ q.watching, q.Live id → c.Held id
  -- a mutex that waits for the lock has its element
  ready : ∀ id, id ∈ c.pendingLeaders.map Mutex.id ∨ (id, false) ∈ c.marks →
    q.elements id = none ∨ q.Live id
  path : ∀ id ∈ q.taking, q.Takes id
  known : ∀ id ∈ q.watching, q.elements id ≠ none
  fresh : ∀ id, q.elements id ≠ none → id < c.nextMutex
  refcnt : ∀ id qelm, q.elements id = some qelm → qelm.refcnt ≤ 1

section

variable {c c' : Client} {q q' : Consumer} {id : Nat} {ids directory : List Nat} {nextSeq : Nat}

theorem Coupled.fewer (h : Coupled c q) (hfewer : Fewer q q') (htidy : q'.Tidy) : Coupled c q' where
  attended := h.attended
  tidy := htidy
  held id hid := by
    rcases h.held id (hfewer.waiting id hid) with ⟨hlive, hheld⟩
    refine ⟨?_, hheld⟩
    unfold Consumer.Live
    rw [hfewer.elements]
    exact hlive
  watching id hid hlive := by
    unfold Consumer.Live at hlive
    rw [hfewer.elements] at hlive
    cases hfewer.watching id hid with
    | inl hold => exact h.watching id hold hlive
    | inr hwaiting => exact (h.held id hwaiting).2
  ready id hid := by
    unfold Consumer.Live
    rw [hfewer.elements]
    exact h.ready id hid
  path id hid := by
    unfold Consumer.Takes
    rw [hfewer.elements]
    exact h.path id (hfewer.taking id hid)
  known id hid := by
    rw [hfewer.elements]
    cases hfewer.watching id hid with
    | inl hold => exact h.known id hold
    | inr hwaiting =>
      rcases (h.held id hwaiting).1 with ⟨qelm, hqelm, _⟩
      rw [hqelm]
      exact Option.some_ne_none qelm
  fresh id hid := by
    rw [hfewer.elements] at hid
    exact h.fresh id hid
  refcnt := by
    rw [hfewer.elements]
    exact h.refcnt

theorem Coupled.steady (h : Coupled c q) (hsteady : c.Steady c') : Coupled c' q where
  attended := h.attended.steady hsteady
  tidy := h.tidy
  held id hid := ⟨(h.held id hid).1, hsteady.held (h.held id hid).2⟩
  watching id hid hlive := hsteady.held (h.watching id hid hlive)
  ready id hid := by
    rw [hsteady.pending, hsteady.marks] at hid
    exact h.ready id hid
  path := h.path
  known := h.known
  fresh id hid := by
    rw [hsteady.next]
    exact h.fresh id hid
  refcnt := h.refcnt

theorem Coupled.ends (h : Coupled c q) (hends : Ends ids q q')
    (hwaiting : ∀ id ∈ ids, id ∉ q.waiting)
    (hready : ∀ id ∈ ids, ¬(id ∈ c.pendingLeaders.map Mutex.id ∨ (id, false) ∈ c.marks))
    : Coupled c q' := by
  have hwaits : q'.waiting = q.waiting := by
    simp only [waiting, Consumer.listing, replying, Consumer.taking, hends.requests, hends.inbox]
  have hwatches : q'.watching = q.watching := by
    simp only [Consumer.watching, hends.childWatches, hends.inbox]
  have hsame : ∀ id, id ∉ ids → (q'.Live id ↔ q.Live id) := by
    intro id hid
    unfold Consumer.Live
    rw [hends.others id hid]
  refine ⟨h.attended, ?_, ?_, ?_, ?_, ?_, ?_, ?_, hends.refcnt h.refcnt⟩
  . refine ⟨?_, ?_, ?_, ?_, ?_, ?_⟩
    . rw [hwaits]
      exact h.tidy.once
    . rw [hwatches]
      exact h.tidy.event
    . simp only [Consumer.listing, hends.requests, hends.inbox, hwatches]
      exact h.tidy.listing
    . intro i hi hmem
      simp only [Consumer.taking, hends.requests, hends.inbox] at hi
      rw [hwatches] at hmem
      exact hends.ignores i (h.tidy.taking i hi hmem)
    . rw [hends.inbox]
      exact h.tidy.order
    . rw [hends.inbox, hends.childWatches]
      exact h.tidy.deleted
  . intro i hi
    rw [hwaits] at hi
    rw [hsame i fun hmem => hwaiting i hmem hi]
    exact h.held i hi
  . intro i hi hlive
    rw [hwatches] at hi
    exact h.watching i hi (hends.live i hlive)
  . intro i hi
    have hnot : i ∉ ids := fun hmem => hready i hmem hi
    rw [hsame i hnot, hends.none]
    exact h.ready i hi
  . intro i hi
    simp only [Consumer.taking, hends.requests, hends.inbox] at hi
    exact hends.takes i (h.path i hi)
  . intro i hi
    rw [hwatches] at hi
    rw [ne_eq, hends.none]
    exact h.known i hi
  . intro i hi
    rw [ne_eq, hends.none] at hi
    exact h.fresh i hi

theorem Coupled.releases (h : Coupled c q) (hreleases : c.Releases id c') (hnot : ¬c.Held id)
    : Coupled c' q where
  attended := h.attended.releases hreleases
  tidy := h.tidy
  held i hi := by
    rcases h.held i hi with ⟨hlive, hheld⟩
    exact ⟨hlive, hreleases.held (fun heq => hnot (heq ▸ hheld)) hheld⟩
  watching i hi hlive := by
    have hheld := h.watching i hi hlive
    exact hreleases.held (fun heq => hnot (heq ▸ hheld)) hheld
  ready i hi := by
    rw [hreleases.pending, hreleases.marks] at hi
    exact h.ready i (hi.imp_right List.mem_of_mem_filter)
  path := h.path
  known := h.known
  fresh i hi := by
    rw [hreleases.next]
    exact h.fresh i hi
  refcnt := h.refcnt

theorem Coupled.obtains (h : Coupled c q) (hobtains : c.Obtains id c') : Coupled c' q where
  attended := h.attended.obtains hobtains
  tidy := h.tidy
  held i hi := ⟨(h.held i hi).1, hobtains.held (h.held i hi).2⟩
  watching i hi hlive := hobtains.held (h.watching i hi hlive)
  ready i hi := by
    rw [hobtains.pending, hobtains.marks] at hi
    apply h.ready
    refine hi.imp_right ?_
    intro hmark
    rcases List.mem_map.mp hmark with ⟨mark, hmem, heq⟩
    split at heq
    . cases heq
    . exact heq ▸ hmem
  path := h.path
  known := h.known
  fresh i hi := by
    rw [hobtains.next]
    exact h.fresh i hi
  refcnt := h.refcnt

theorem Coupled.request (h : Coupled c q) {request : QueueRequest} (hlive : q.Live request.qelm)
    (hheld : c.Held request.qelm) (hpath : ∀ id, request.takes = some id → q.Takes id)
    (htidy : (q.request request).Tidy)
    : Coupled c (q.request request) where
  attended := h.attended
  tidy := htidy
  held i hi := by
    rw [mem_waiting_iff] at hi
    rcases hi with ⟨request', hmem, hid⟩ | hreply
    . cases List.mem_append.mp hmem with
      | inl hold => exact h.held i (mem_waiting_iff.mpr (.inl ⟨request', hold, hid⟩))
      | inr hnew =>
        rw [List.mem_singleton.mp hnew] at hid
        exact Option.some.inj hid ▸ ⟨hlive, hheld⟩
    . exact h.held i (mem_waiting_iff.mpr (.inr hreply))
  watching := h.watching
  ready := h.ready
  path i hi := by
    rw [mem_taking_iff] at hi
    rcases hi with ⟨request', hmem, hid⟩ | hreply
    . cases List.mem_append.mp hmem with
      | inl hold => exact h.path i (mem_taking_iff.mpr (.inl ⟨request', hold, hid⟩))
      | inr hnew =>
        rw [List.mem_singleton.mp hnew] at hid
        exact hpath i hid
    . exact h.path i (mem_taking_iff.mpr (.inr hreply))
  known := h.known
  fresh := h.fresh
  refcnt := h.refcnt

theorem Coupled.lock (h : Coupled c q) : Coupled c.rbZkMutexLock q where
  attended := ⟨h.attended.once, h.attended.tracked⟩
  tidy := h.tidy
  held id hid := ⟨(h.held id hid).1, (h.held id hid).2.1, (h.held id hid).2.2⟩
  watching id hid hlive := ⟨(h.watching id hid hlive).1, (h.watching id hid hlive).2⟩
  ready id hid := by
    simp only [Client.rbZkMutexLock, List.map_append, List.map_cons, List.map_nil,
      List.mem_append, List.mem_singleton] at hid
    rcases hid with (hid | hid) | hid
    . exact h.ready id (.inl hid)
    . left
      apply Classical.byContradiction
      intro hsome
      exact absurd (h.fresh id hsome) (hid ▸ Nat.lt_irrefl _)
    . exact h.ready id (.inr hid)
  path := h.path
  known := h.known
  fresh id hid := Nat.lt_succ_of_lt (h.fresh id hid)
  refcnt := h.refcnt

theorem Coupled.element (h : Coupled c q) (hnone : q.elements id = none) (hlt : id < c.nextMutex)
    : Coupled c (q.setElement id {}) := by
  have hsame : (q.setElement id {}).elements id = some {} := by
    simp [Consumer.setElement]
  have hother : ∀ i, i ≠ id → (q.setElement id {}).elements i = q.elements i := by
    intro i hne
    simp [Consumer.setElement, hne]
  have hlive : (q.setElement id {}).Live id := ⟨{}, hsame, by decide⟩
  have hlives : ∀ i, q.Live i → (q.setElement id {}).Live i := by
    intro i hi
    by_cases heq : i = id
    . exact heq ▸ hlive
    . unfold Consumer.Live
      rwa [hother i heq]
  refine ⟨h.attended, ?_, ?_, ?_, ?_, ?_, ?_, ?_, ?_⟩
  . apply h.tidy.setElement
    intro old hold
    rw [hnone] at hold
    cases hold
  . exact fun i hi => ⟨hlives i (h.held i hi).1, (h.held i hi).2⟩
  . intro i hi hnew
    have hne : i ≠ id := fun heq => h.known i hi (heq ▸ hnone)
    apply h.watching i hi
    unfold Consumer.Live at hnew
    rwa [hother i hne] at hnew
  . intro i hi
    by_cases heq : i = id
    . exact .inr (heq ▸ hlive)
    . rw [hother i heq]
      exact (h.ready i hi).imp_right (hlives i)
  . intro i hi
    have htakes := h.path i hi
    have hne : i ≠ id := by
      intro heq
      rcases htakes with ⟨qelm, hqelm, _⟩
      rw [heq, hnone] at hqelm
      cases hqelm
    unfold Consumer.Takes
    rwa [hother i hne]
  . intro i hi
    have hne : i ≠ id := fun heq => h.known i hi (heq ▸ hnone)
    rw [hother i hne]
    exact h.known i hi
  . intro i hi
    by_cases heq : i = id
    . exact heq ▸ hlt
    . rw [hother i heq] at hi
      exact h.fresh i hi
  . intro i qelm hqelm
    by_cases heq : i = id
    . subst heq
      rw [hsame] at hqelm
      cases hqelm
      exact Nat.le_refl 1
    . rw [hother i heq] at hqelm
      exact h.refcnt i qelm hqelm

theorem Coupled.zkWatcherDoPendingLocks (h : Coupled c q) (hplaced : c.Placed directory nextSeq)
    : Coupled c.zkWatcherDoPendingLocks q where
  attended := h.attended.zkWatcherDoPendingLocks hplaced
  tidy := h.tidy
  held id hid := ⟨(h.held id hid).1, (h.held id hid).2.zkWatcherDoPendingLocks hplaced⟩
  watching id hid hlive := (h.watching id hid hlive).zkWatcherDoPendingLocks hplaced
  ready id hid := by
    rcases marks_zkWatcherDoPendingLocks hplaced with hsteady | ⟨hpending, hmarks⟩
    . rw [hsteady.pending, hsteady.marks] at hid
      exact h.ready id hid
    . rw [hpending, hmarks, List.mem_append] at hid
      rcases hid with hid | hid | hid
      . cases hid
      . exact h.ready id (.inr hid)
      . rcases List.mem_map.mp hid with ⟨mutex, hmutex, heq⟩
        cases heq
        exact h.ready _ (.inl (List.mem_map_of_mem hmutex))
  path := h.path
  known := h.known
  fresh id hid := by
    have hnext : c.zkWatcherDoPendingLocks.nextMutex = c.nextMutex := by
      unfold Client.zkWatcherDoPendingLocks
      split <;> rfl
    rw [hnext]
    exact h.fresh id hid
  refcnt := h.refcnt

theorem Coupled.unlock (h : Coupled c q) (hidle : id ∉ c.carried) (hwaiting : id ∉ q.waiting)
    (hdead : ¬q.Live id) (hstep : c.rbZkMutexUnlock id = some c')
    : Coupled c' q := by
  rcases attended_rbZkMutexUnlock h.attended hidle hstep with
    ⟨hattended, hpending, hnext, hmarks, hheld⟩
  refine ⟨hattended, h.tidy, ?_, ?_, ?_, h.path, h.known, ?_, h.refcnt⟩
  . intro i hi
    have hne : i ≠ id := fun heq => hwaiting (heq ▸ hi)
    exact ⟨(h.held i hi).1, hheld i hne (h.held i hi).2⟩
  . intro i hi hlive
    have hne : i ≠ id := fun heq => hdead (heq ▸ hlive)
    exact hheld i hne (h.watching i hi hlive)
  . intro i hi
    rw [hpending] at hi
    exact h.ready i (hi.imp_right fun hmark => hmarks hmark)
  . intro i hi
    rw [hnext]
    exact h.fresh i hi

theorem Client.Placed.not_pending (h : c.Placed directory nextSeq) {leader : Bool}
    (hmark : (id, leader) ∈ c.marks)
    : id ∉ c.pendingLeaders.map Mutex.id := by
  rw [← List.count_eq_zero]
  exact h.count_pending (tracks_iff.mpr ⟨leader, hmark⟩)

theorem Coupled.lockFails (h : Coupled c q) (hplaced : c.Placed directory nextSeq)
    (hmark : (id, false) ∈ c.marks) (hcarried : id ∈ c.carried) (hreleases : c.Releases id c')
    (hends : Ends [id] q q')
    : Coupled c' q' := by
  have hnot : ¬c.Held id := fun hheld => hheld.idle hcarried
  apply (h.releases hreleases hnot).ends hends
  . intro i hi
    rw [List.mem_singleton.mp hi]
    exact fun hwaiting => hnot (h.held id hwaiting).2
  . intro i hi hready
    rw [List.mem_singleton.mp hi, hreleases.pending, hreleases.marks] at hready
    rcases hready with hpending | hmarks
    . exact hplaced.not_pending hmark hpending
    . simpa using (List.mem_filter.mp hmarks).2

theorem Coupled.lockObtained (h : Coupled c q) (hplaced : c.Placed directory nextSeq)
    (hmark : (id, false) ∈ c.marks) (hcarried : id ∈ c.carried) (hobtains : c.Obtains id c')
    (called : Bool)
    : Coupled c' (q.mutexCallback called (.schangeCb id true)).consumer := by
  have hnot : ¬c.Held id := fun hheld => hheld.idle hcarried
  have hwaiting : id ∉ q.waiting := fun hwaiting => hnot (h.held id hwaiting).2
  have hobtained := h.obtains hobtains
  have hready : ¬(id ∈ c'.pendingLeaders.map Mutex.id ∨ (id, false) ∈ c'.marks) := by
    rw [hobtains.pending, hobtains.marks]
    intro hready
    rcases hready with hpending | hmarks
    . exact hplaced.not_pending hmark hpending
    . rcases List.mem_map.mp hmarks with ⟨mark, _, heq⟩
      split at heq
      . cases heq
      . next hne => exact hne (congrArg Prod.fst heq)
  simp only [mutexCallback]
  split
  . next hsome =>
    rcases h.ready id (.inr hmark) with hnone | hlive
    . simp [hnone] at hsome
    . have hwatching : id ∉ q.watching := fun hmem => hnot (h.watching id hmem hlive)
      rcases hlive with ⟨qelm, hqelm, hrefcnt⟩
      simp only [rbZkQueueMutexStatusChange, rbZkQueuePopNolock, use_eq hqelm hrefcnt, ↓reduceIte]
      cases called with
      | true =>
        refine hobtained.request ?_ ?_ ?_ ?_
        . exact ⟨qelm, hqelm, hrefcnt⟩
        . exact hobtains.obtained (tracks_iff.mpr ⟨false, hmark⟩)
        . intro i hi
          cases hi
        . apply h.tidy.request
          . intro i hi
            rcases hi with hi | hi
            . cases hi
              exact hwaiting
            . cases hi
          . intro i hi
            cases hi
            exact hwatching
          . intro i hi
            cases hi
      | false =>
        apply hobtained.ends (ends_errorDone q id)
        . intro i hi
          rw [List.mem_singleton.mp hi]
          exact hwaiting
        . intro i hi
          rw [List.mem_singleton.mp hi]
          exact hready
  . exact hobtained

theorem Client.Held.not_ready (h : c.Held id) (hplaced : c.Placed directory nextSeq)
    : ¬(id ∈ c.pendingLeaders.map Mutex.id ∨ (id, false) ∈ c.marks) := by
  intro hready
  rcases hready with hpending | hmark
  . exact hplaced.not_pending h.leads hpending
  . cases hplaced.eq_of_mem_marks h.leads hmark

theorem mem_waiting_head {completion : QueueCompletion} {inbox : List QueueCompletion}
    (hinbox : q.inbox = completion :: inbox) (hid : completion.reply = some id)
    : id ∈ q.waiting := by
  rw [mem_waiting_iff, Stage, hinbox]
  exact .inr ⟨completion, List.mem_cons_self, hid⟩

theorem Consumer.Tidy.not_waiting_reply (h : q.Tidy) {completion : QueueCompletion}
    {inbox : List QueueCompletion} (hinbox : q.inbox = completion :: inbox)
    (hid : completion.reply = some id)
    : id ∉ { q with inbox := inbox }.waiting := by
  apply h.waiting_pop hinbox
  cases completion with
  | popMinimum i strings watcherSetted =>
    cases watcherSetted with
    | false => exact .inl hid
    | true => exact .inr (.inl hid)
  | getElement i value => exact .inr (.inr hid)
  | deleteCompleted i ok => exact .inr (.inr hid)
  | childWatcher i => cases hid

theorem Consumer.Tidy.not_waiting_event (h : q.Tidy) {inbox : List QueueCompletion}
    (hinbox : q.inbox = .childWatcher id :: inbox) (hignores : ¬q.Ignores id)
    : id ∉ q.waiting := by
  have hwatching : id ∈ q.watching := by
    rw [mem_watching_iff, hinbox]
    exact .inr List.mem_cons_self
  intro hwaiting
  rcases mem_waiting.mp hwaiting with hlisting | hreplying | htaking
  . exact h.listing id hlisting hwatching
  . rcases List.mem_filterMap.mp hreplying with ⟨completion, hmem, hid⟩
    rw [hinbox, List.mem_cons] at hmem
    rcases hmem with heq | hmem
    . subst heq
      cases hid
    . have horder := h.order
      rw [hinbox, List.pairwise_cons] at horder
      have := horder.1 completion hmem
      unfold QueueCompletion.watched at hid
      split at hid
      . cases hid
        exact this rfl
      . cases hid
  . exact hignores (h.taking id htaking hwatching)

theorem Consumer.Tidy.not_watching_event (h : q.Tidy) {inbox : List QueueCompletion}
    (hinbox : q.inbox = .childWatcher id :: inbox)
    : id ∉ { q with inbox := inbox }.watching := by
  have hcount := (count_pop hinbox id).2.2.2
  have honce := h.event id
  rw [← List.count_eq_zero]
  simp only [QueueCompletion.childEvent, Option.toList_some, List.count_singleton_self] at hcount
  omega

theorem Coupled.popMinimum (h : Coupled c q) (hplaced : c.Placed directory nextSeq)
    {strings : Option (List Nat)} {watcherSetted : Bool} {inbox : List QueueCompletion}
    (hinbox : q.inbox = .popMinimum id strings watcherSetted :: inbox) (called : Bool)
    : Coupled c ({ q with inbox := inbox }.rbZkQueuePopMinimum0 called id strings
        watcherSetted).consumer := by
  rcases h.held id (mem_waiting_head hinbox rfl) with ⟨⟨qelm, hqelm, hrefcnt⟩, hheld⟩
  have hready := hheld.not_ready hplaced
  have hpop := h.fewer (fewer_pop hinbox) (h.tidy.pop hinbox)
  have hwaiting := h.tidy.not_waiting_reply hinbox rfl
  have hends : ∀ {q₁ q₂ : Consumer}, Coupled c q₁ → id ∉ q₁.waiting → Ends [id] q₁ q₂ →
      Coupled c q₂ := by
    intro q₁ q₂ h₁ hwaiting hends
    apply h₁.ends hends
    . intro i hi
      rwa [List.mem_singleton.mp hi]
    . intro i hi
      rwa [List.mem_singleton.mp hi]
  -- the first list comes while no event can
  have hwatching : watcherSetted = false → id ∉ { q with inbox := inbox }.watching := by
    intro hfalse hmem
    subst hfalse
    have hlisting : id ∈ q.listing := by
      simp [Consumer.listing, hinbox, QueueCompletion.lists]
    exact h.tidy.listing id hlisting (watching_pop hinbox hmem)
  have hqelm' : { q with inbox := inbox }.elements id = some qelm := hqelm
  simp only [Consumer.rbZkQueuePopMinimum0, use_eq hqelm' hrefcnt]
  cases strings with
  | none => exact hends hpop hwaiting (ends_errorDone _ id)
  | some strings =>
    simp only
    split
    . next node _ =>
      have hset : Coupled c ({ q with inbox := inbox }.setElement id { qelm with
          queueElementPath := some node
          shouldIgnoreWatcher := qelm.shouldIgnoreWatcher || watcherSetted }) := by
        apply hends hpop hwaiting
        exact ends_setElement hqelm' (Nat.le_refl _) (fun hignores => by simp [hignores])
          fun _ => Option.some_ne_none node
      split
      . refine hset.request ?_ hheld ?_ ?_
        . exact ⟨_, Function.update_self .., hrefcnt⟩
        . intro i hi
          cases hi
          exact ⟨_, Function.update_self .., Option.some_ne_none node⟩
        . apply hset.tidy.request
          . intro i hi
            rcases hi with hi | hi
            . cases hi
            . cases hi
              exact hwaiting
          . intro i hi
            cases hi
          . intro i hi hmem
            cases hi
            cases watcherSetted with
            | false => exact absurd hmem (hwatching rfl)
            | true => exact ⟨_, Function.update_self .., by simp⟩
      . exact hends hset hwaiting (ends_errorDone _ id)
    . split
      . exact hpop
      . next hsetted =>
        split
        . refine hpop.request ?_ hheld ?_ ?_
          . exact ⟨qelm, hqelm, hrefcnt⟩
          . intro i hi
            cases hi
          . apply hpop.tidy.request
            . intro i hi
              rcases hi with hi | hi
              . cases hi
                exact hwaiting
              . cases hi
            . intro i hi
              cases hi
              exact hwatching (by simpa using hsetted)
            . intro i hi
              cases hi
        . exact hpop

theorem Coupled.getElement (h : Coupled c q) (hplaced : c.Placed directory nextSeq)
    {value : Option Nat} {inbox : List QueueCompletion}
    (hinbox : q.inbox = .getElement id value :: inbox) (called : Bool)
    : Coupled c ({ q with inbox := inbox }.rbZkQueueGetElement called id value).consumer := by
  rcases h.held id (mem_waiting_head hinbox rfl) with ⟨⟨qelm, hqelm, hrefcnt⟩, hheld⟩
  have hpop := h.fewer (fewer_pop hinbox) (h.tidy.pop hinbox)
  have hwaiting := h.tidy.not_waiting_reply hinbox rfl
  have hqelm' : { q with inbox := inbox }.elements id = some qelm := hqelm
  simp only [Consumer.rbZkQueueGetElement, use_eq hqelm' hrefcnt]
  cases value with
  | none =>
    apply hpop.ends (ends_errorDone _ id)
    . intro i hi
      rwa [List.mem_singleton.mp hi]
    . intro i hi
      rw [List.mem_singleton.mp hi]
      exact hheld.not_ready hplaced
  | some node =>
    simp only
    split
    . next path hpath =>
      split
      . refine hpop.request ?_ hheld ?_ ?_
        . exact ⟨qelm, hqelm, hrefcnt⟩
        . intro i hi
          cases hi
          exact ⟨qelm, hqelm, by simp [hpath]⟩
        . apply hpop.tidy.request
          . intro i hi
            rcases hi with hi | hi
            . cases hi
            . cases hi
              exact hwaiting
          . intro i hi
            cases hi
          . intro i hi hmem
            cases hi
            apply h.tidy.taking id _ (watching_pop hinbox hmem)
            simp [Consumer.taking, hinbox, QueueCompletion.takes]
      . exact hpop
    . exact hpop

theorem Coupled.deleteCompleted (h : Coupled c q) (hplaced : c.Placed directory nextSeq) {ok : Bool}
    {inbox : List QueueCompletion} (hinbox : q.inbox = .deleteCompleted id ok :: inbox)
    : Coupled c ({ q with inbox := inbox }.rbZkQueueDeleteCompleted id).consumer ∧
        ({ q with inbox := inbox }.rbZkQueueDeleteCompleted id).unlock = some id ∧
        c.Held id ∧ id ∉ ({ q with inbox := inbox }.rbZkQueueDeleteCompleted id).consumer.waiting ∧
        ¬({ q with inbox := inbox }.rbZkQueueDeleteCompleted id).consumer.Live id := by
  rcases h.held id (mem_waiting_head hinbox rfl) with ⟨⟨qelm, hqelm, hrefcnt⟩, hheld⟩
  have hpop := h.fewer (fewer_pop hinbox) (h.tidy.pop hinbox)
  have hwaiting := h.tidy.not_waiting_reply hinbox rfl
  have hqelm' : { q with inbox := inbox }.elements id = some qelm := hqelm
  have hends := ends_rbZkQueueElementDecref { q with inbox := inbox } id
  simp only [Consumer.rbZkQueueDeleteCompleted, use_eq hqelm' hrefcnt, true_and]
  refine ⟨?_, hheld, ?_, not_live_rbZkQueueElementDecref hpop.refcnt id⟩
  . apply hpop.ends hends
    . intro i hi
      rwa [List.mem_singleton.mp hi]
    . intro i hi
      rw [List.mem_singleton.mp hi]
      exact hheld.not_ready hplaced
  . rw [mem_waiting_iff, Stage] at hwaiting ⊢
    rwa [hends.requests, hends.inbox]

theorem Coupled.childWatcher (h : Coupled c q) (hplaced : c.Placed directory nextSeq)
    {inbox : List QueueCompletion} (hinbox : q.inbox = .childWatcher id :: inbox) (called : Bool)
    : Coupled c ({ q with inbox := inbox }.rbZkQueueChildWatcher called id).consumer := by
  have hpop := h.fewer (fewer_pop hinbox) (h.tidy.pop hinbox)
  by_cases hlive : q.Live id
  . have hmem : id ∈ q.watching := by
      rw [mem_watching_iff, hinbox]
      exact .inr List.mem_cons_self
    have hheld := h.watching id hmem hlive
    rcases hlive with ⟨qelm, hqelm, hrefcnt⟩
    have hqelm' : { q with inbox := inbox }.elements id = some qelm := hqelm
    simp only [Consumer.rbZkQueueChildWatcher, Consumer.rbZkQueuePopNolock, use_eq hqelm' hrefcnt]
    split
    . exact hpop
    . next hignore =>
      have hwaiting : id ∉ { q with inbox := inbox }.waiting := by
        intro hwaiting
        apply h.tidy.not_waiting_event hinbox _ ((fewer_pop hinbox).waiting id hwaiting)
        intro hignores
        rcases hignores with ⟨qelm', hsame, hignores⟩
        rw [hqelm] at hsame
        cases hsame
        exact hignore hignores
      split
      . refine hpop.request ?_ hheld ?_ ?_
        . exact ⟨qelm, hqelm, hrefcnt⟩
        . intro i hi
          cases hi
        . apply hpop.tidy.request
          . intro i hi
            rcases hi with hi | hi
            . cases hi
              exact hwaiting
            . cases hi
          . intro i hi
            cases hi
            exact h.tidy.not_watching_event hinbox
          . intro i hi
            cases hi
      . apply hpop.ends (ends_errorDone _ id)
        . intro i hi
          rwa [List.mem_singleton.mp hi]
        . intro i hi
          rw [List.mem_singleton.mp hi]
          exact hheld.not_ready hplaced
  . rw [Consumer.rbZkQueueChildWatcher, use_of_not_live (q := { q with inbox := inbox }) hlive]
    apply hpop.ends (ends_fault _)
    . intro i hi
      cases hi
    . intro i hi
      cases hi

/-- No pop goes on, and nothing comes back to a mutex. -/
structure AtRest (c : Client) (q : Consumer) : Prop where
  watches : c.watches = []
  carried : c.carried = []
  pops : ∀ id, c.Tracks id → q.elements id = none ∨ (q.Live id ∧ id ∉ q.waiting ∧ id ∉ q.watching)

theorem ends_cleaned (q : Consumer) (called : Bool) (mutexes : List Mutex)
    : Ends (mutexes.map Mutex.id) q (q.mutexCallbacks called
        (mutexes.flatMap fun mutex => [.schangeCb mutex.id false, .errorCb mutex.id])).consumer := by
  induction mutexes generalizing q with
  | nil => exact Ends.refl q
  | cons mutex mutexes ih =>
    have hchange : Ends [] q (q.mutexCallback called (.schangeCb mutex.id false)).consumer := by
      simp only [mutexCallback, rbZkQueueMutexStatusChange]
      split
      . by_cases hlive : q.Live mutex.id
        . rcases hlive with ⟨qelm, hqelm, hrefcnt⟩
          rw [use_eq hqelm hrefcnt]
          exact Ends.refl q
        . rw [use_of_not_live hlive]
          exact ends_fault q
      . exact Ends.refl q
    have herror := ends_errorCb (q.mutexCallback called (.schangeCb mutex.id false)).consumer called
      mutex.id
    exact (hchange.trans herror).trans (ih _)

theorem Coupled.cleaned (h : Coupled c q) (hplaced : c.Placed directory nextSeq)
    (hrest : AtRest c q) {state : ZooState} {inbox : List Completion}
    (hinbox : c.inbox = .sessionEvent state :: inbox) (hstate : state ≠ .connected) (called : Bool)
    (directory' : List Nat)
    : Coupled ({ c with inbox := inbox }.zkWatcher state)
        (q.mutexCallbacks called (c.callbacks directory' (.sessionEvent state))).consumer := by
  have hidle : ∀ id, id ∉ q.waiting ∧ (id ∈ q.watching → ¬q.Live id) := by
    have hrests : ∀ id, c.Held id → q.Live id → id ∉ q.waiting ∧ id ∉ q.watching := by
      intro id hheld hlive
      rcases hrest.pops id (tracks_iff.mpr ⟨true, hheld.leads⟩) with hnone | hrests
      . rcases hlive with ⟨qelm, hqelm, _⟩
        rw [hnone] at hqelm
        cases hqelm
      . exact hrests.2
    intro id
    refine ⟨?_, ?_⟩
    . intro hwaiting
      exact (hrests id (h.held id hwaiting).2 (h.held id hwaiting).1).1 hwaiting
    . intro hwatching hlive
      exact (hrests id (h.watching id hwatching hlive) hlive).2 hwatching
  have hcarried : { c with inbox := inbox, leadersNodesList := [] }.carried = [] := by
    have := hrest.carried
    simpa [carried, hinbox, Completion.mutex] using this
  have hcleaned : ∀ calls : List Call, Coupled
      { c with inbox := inbox, leadersNodesList := [], calls := calls } q := by
    intro calls
    refine ⟨⟨?_, ?_⟩, h.tidy, ?_, ?_, ?_, h.path, h.known, h.fresh, h.refcnt⟩
    . intro i
      change { c with inbox := inbox, leadersNodesList := [] }.carried.count i ≤ 1
      rw [hcarried]
      exact Nat.zero_le 1
    . intro i hi
      change i ∈ { c with inbox := inbox, leadersNodesList := [] }.carried at hi
      rw [hcarried] at hi
      cases hi
    . exact fun i hi => absurd hi (hidle i).1
    . exact fun i hi hlive => absurd hlive ((hidle i).2 hi)
    . intro i hi
      rcases hi with hpending | hmark
      . exact h.ready i (.inl hpending)
      . cases hmark
  have hends := ends_cleaned q called c.leadersNodesList
  have hafter : ∀ calls : List Call, Coupled
      { c with inbox := inbox, leadersNodesList := [], calls := calls }
      (q.mutexCallbacks called (c.leadersNodesList.flatMap fun mutex =>
        [.schangeCb mutex.id false, .errorCb mutex.id])).consumer := by
    intro calls
    apply (hcleaned calls).ends hends
    . exact fun i _ => (hidle i).1
    . intro i hi hready
      rcases List.mem_map.mp hi with ⟨mutex, hmutex, heq⟩
      rcases hready with hpending | hmark
      . subst heq
        exact hplaced.not_pending (List.mem_map_of_mem hmutex) hpending
      . cases hmark
  unfold Client.zkWatcher
  split
  . next hany =>
    simp [hrest.watches] at hany
  . cases state with
    | connected => exact absurd rfl hstate
    | connecting => exact hafter c.calls
    | expiredSession => exact hafter (c.calls ++ [.resetZkContext])

theorem Coupled.complete (h : Coupled c q) (hplaced : c.Placed directory nextSeq)
    {completion : Completion} {inbox : List Completion} (hinbox : c.inbox = completion :: inbox)
    (hrest : completion.cleans → AtRest c q) {directory' : List Nat}
    (hstep : { c with inbox := inbox }.complete directory' completion = some c') (called : Bool)
    : Coupled c' (q.mutexCallbacks called (c.callbacks directory' completion)).consumer := by
  cases completes_of_complete hplaced h.attended hinbox hstep with
  | steady hcallbacks hsteady =>
    rw [hcallbacks]
    exact h.steady hsteady
  | deleted hreleases =>
    exact h.releases hreleases fun hheld => hheld.idle (mem_carried_head hinbox rfl)
  | @failed _ i hcallbacks hid hmark hreleases =>
    rw [hcallbacks]
    exact h.lockFails hplaced hmark (mem_carried_head hinbox hid) hreleases (ends_errorCb q called i)
  | obtained hcallbacks hid hmark hobtains =>
    rw [hcallbacks]
    exact h.lockObtained hplaced hmark (mem_carried_head hinbox hid) hobtains called
  | session hstate =>
    cases hstep
    apply h.cleaned hplaced (hrest _) hinbox hstate
    simpa [Completion.cleans] using hstate

theorem Coupled.completeQueue (h : Coupled c q) (hplaced : c.Placed directory nextSeq)
    {completion : QueueCompletion} {inbox : List QueueCompletion}
    (hinbox : q.inbox = completion :: inbox) (called : Bool)
    : Coupled c ({ q with inbox := inbox }.complete called completion).consumer := by
  cases completion with
  | popMinimum i strings watcherSetted => exact h.popMinimum hplaced hinbox called
  | getElement i value => exact h.getElement hplaced hinbox called
  | deleteCompleted i ok => exact (h.deleteCompleted hplaced hinbox).1
  | childWatcher i => exact h.childWatcher hplaced hinbox called

theorem unlock_use {f : QueueElement → Turn} (hf : ∀ qelm, (f qelm).unlock = none)
    : (q.use id f).unlock = none := by
  unfold use
  split
  . rfl
  . split
    . rfl
    . exact hf _

theorem unlock_errorDone (q : Consumer) (id : Nat) : (q.errorDone id).unlock = none :=
  unlock_use fun _ => rfl

theorem unlock_rbZkQueuePopNolock (called : Bool) : (q.rbZkQueuePopNolock called id).unlock = none := by
  apply unlock_use
  intro _
  split
  . rfl
  . exact unlock_errorDone q id

theorem unlock_rbZkQueuePopMinimum0 (called : Bool) (strings : Option (List Nat))
    (watcherSetted : Bool)
    : (q.rbZkQueuePopMinimum0 called id strings watcherSetted).unlock = none := by
  apply unlock_use
  intro qelm
  cases strings with
  | none => exact unlock_errorDone q id
  | some strings =>
    simp only
    split
    . split
      . rfl
      . exact unlock_errorDone _ id
    . split
      . rfl
      . split <;> rfl

theorem unlock_rbZkQueueGetElement (called : Bool) (value : Option Nat)
    : (q.rbZkQueueGetElement called id value).unlock = none := by
  apply unlock_use
  intro qelm
  cases value with
  | none => exact unlock_errorDone q id
  | some node =>
    simp only
    split
    . split <;> rfl
    . rfl

theorem unlock_rbZkQueueChildWatcher (called : Bool)
    : (q.rbZkQueueChildWatcher called id).unlock = none := by
  apply unlock_use
  intro qelm
  split
  . rfl
  . exact unlock_rbZkQueuePopNolock called

theorem exists_deleteCompleted_of_unlock {completion : QueueCompletion} {called : Bool}
    (hunlock : (q.complete called completion).unlock ≠ none)
    : ∃ id ok, completion = .deleteCompleted id ok := by
  cases completion with
  | popMinimum i strings watcherSetted =>
    exact absurd (unlock_rbZkQueuePopMinimum0 called strings watcherSetted) hunlock
  | getElement i value => exact absurd (unlock_rbZkQueueGetElement called value) hunlock
  | deleteCompleted i ok => exact ⟨i, ok, rfl⟩
  | childWatcher i => exact absurd (unlock_rbZkQueueChildWatcher called) hunlock

theorem rbZkMutexUnlock_isSome (hheld : c.Held id) (hplaced : c.Placed directory nextSeq)
    : (c.rbZkMutexUnlock id).isSome := by
  rcases mutex?_of_tracks (tracks_iff.mpr ⟨true, hheld.leads⟩) with ⟨mutex, hmutex⟩
  have hleader : mutex.iAmLeader = true := hplaced.eq_of_mem_marks (mem_marks hmutex) hheld.leads
  simp only [Client.rbZkMutexUnlock, hmutex, hleader, Bool.not_true, Bool.false_eq_true, ↓reduceIte]
  split <;> rfl

theorem Coupled.deleteCompleted_of_unlock (h : Coupled c q) (hplaced : c.Placed directory nextSeq)
    {called : Bool} {completion : QueueCompletion} {inbox : List QueueCompletion}
    (hinbox : q.inbox = completion :: inbox)
    (hunlock : ({ q with inbox := inbox }.complete called completion).unlock = some id)
    : (∃ ok, completion = .deleteCompleted id ok) ∧ (c.rbZkMutexUnlock id).isSome := by
  -- only the deletion that completed gives a lock back
  have hdelete : ∃ i ok, completion = .deleteCompleted i ok := by
    apply exists_deleteCompleted_of_unlock
    rw [hunlock]
    exact Option.some_ne_none id
  rcases hdelete with ⟨i, ok, heq⟩
  subst heq
  rcases h.deleteCompleted hplaced hinbox with ⟨_, hsame, hheld, _, _⟩
  have hid : id = i := Option.some.inj (hunlock.symm.trans hsame)
  subst hid
  exact ⟨⟨ok, rfl⟩, rbZkMutexUnlock_isSome hheld hplaced⟩

/-- What the client does in an action of the consumer. -/
def LockStep (directory : List Nat) (nextSeq : Nat) (c : Client) (lock : Option ClientAction)
    (c' : Client) : Prop :=
  match lock with
  | none => c' = c
  | some a => ∃ effect, c.act directory nextSeq a = some effect ∧ c' = effect.client

/-- What the client does in an action of the consumer, other than to give a lock back. -/
def QueueAction.lock : QueueAction → Option ClientAction
  | .rbZkQueuePop | .rbZkMutexLock => some .rbZkMutexLock
  | .call => some .call
  | .complete _ => some .complete
  | .serve => some .serve
  | .refuse => some .refuse
  | .serveLost => some .serveLost
  | .dropLost => some .dropLost
  | .disconnect received _ => some (.disconnect received)
  | .reconnect _ => some .reconnect
  | .expire => some .expire
  | .rbZkQueuePush | .completeQueue _ | .serveQueue | .refuseQueue | .serveQueueLost
  | .dropQueueLost => none

theorem complete_of_lockStep {completion : Completion} {inbox : List Completion}
    (hinbox : c.inbox = completion :: inbox)
    (hlock : LockStep directory nextSeq c (some .complete) c')
    : { c with inbox := inbox }.complete directory completion = some c' := by
  rcases hlock with ⟨effect, hact, heq⟩
  cases Client.taken_of_act hact with
  | complete _ hinbox' hcomplete =>
    rw [hinbox] at hinbox'
    cases hinbox'
    rw [heq]
    exact hcomplete

theorem lock_act {queue : List Nat} {nextElement : Nat} {a : QueueAction} {effect : QueueEffect}
    (hstep : q.act directory queue nextElement c a = some effect)
    : effect.lock = a.lock ∨
      ∃ called id, a = .completeQueue called ∧ effect.lock = some (.rbZkMutexUnlock id) := by
  cases Consumer.taken_of_act hstep with
  | rbZkQueuePop | rbZkMutexLock | call | complete _ | serve | refuse | serveLost | dropLost
  | disconnect | reconnect | expire | rbZkQueuePush | completeQueue _ _ | unlockFault _ _ _
  | refuseQueue _ | deletesLost _ _ | forgetsLost _ | dropQueueLost => exact .inl rfl
  | @rbZkMutexUnlock called _ _ id _ _ _ => exact .inr ⟨called, id, rfl, rfl⟩
  | serveQueue _ hhandle =>
    rcases kept_of_handle hhandle with ⟨hnone, _, _⟩
    exact .inl hnone

theorem Client.Held.lockStep (h : c.Held id) (hplaced : c.Placed directory nextSeq)
    (hattended : c.Attended) {lock : Option ClientAction}
    (hunlock : ∀ i, lock = some (.rbZkMutexUnlock i) → i ≠ id ∧ i ∉ c.carried)
    (hcleans : ∀ completion ∈ c.inbox, ¬completion.cleans)
    (hlock : LockStep directory nextSeq c lock c')
    : c'.Held id := by
  cases lock with
  | none =>
    cases hlock
    exact h
  | some a =>
    rcases hlock with ⟨effect, hact, heq⟩
    subst heq
    cases acts_of_act hact with
    | steady hsteady => exact hsteady.held h
    | lock heq =>
      rw [heq]
      exact ⟨h.leads, h.idle⟩
    | @unlock i hunlocked =>
      rcases hunlock i rfl with ⟨hne, hidle⟩
      exact (attended_rbZkMutexUnlock hattended hidle hunlocked).2.2.2.2 id hne.symm h
    | @call calls heq =>
      rw [heq]
      have hcalls : { c with calls := calls }.Held id := ⟨h.leads, h.idle⟩
      exact hcalls.zkWatcherDoPendingLocks (hplaced.calls_fault calls c.fault)
    | complete hinbox hcomplete =>
      cases completes_of_complete hplaced hattended hinbox hcomplete with
      | steady _ hsteady => exact hsteady.held h
      | deleted hreleases =>
        apply hreleases.held _ h
        intro heq
        exact h.idle (heq ▸ mem_carried_head hinbox rfl)
      | failed _ hid _ hreleases =>
        apply hreleases.held _ h
        intro heq
        exact h.idle (heq ▸ mem_carried_head hinbox hid)
      | obtained _ _ _ hobtains => exact hobtains.held h
      | @session state hstate =>
        apply absurd _ (hcleans (.sessionEvent state) (by simp [hinbox]))
        simpa [Completion.cleans] using hstate

theorem Coupled.lockStep (h : Coupled c q) (hplaced : c.Placed directory nextSeq)
    {lock : Option ClientAction} (hcomplete : lock ≠ some .complete)
    (hunlock : ∀ id, lock ≠ some (.rbZkMutexUnlock id))
    (hlock : LockStep directory nextSeq c lock c')
    : Coupled c' q := by
  cases lock with
  | none =>
    cases hlock
    exact h
  | some a =>
    rcases hlock with ⟨effect, hact, heq⟩
    subst heq
    cases acts_of_act hact with
    | steady hsteady => exact h.steady hsteady
    | lock heq =>
      rw [heq]
      exact h.lock
    | @unlock i _ => exact absurd rfl (hunlock i)
    | @call calls heq =>
      rw [heq]
      exact (h.steady (steady_calls_fault calls c.fault)).zkWatcherDoPendingLocks
        (hplaced.calls_fault calls c.fault)
    | complete _ _ => exact absurd rfl hcomplete

theorem Coupled.fresh_nextMutex (h : Coupled c q) : q.elements c.nextMutex = none := by
  apply Classical.byContradiction
  intro hsome
  exact absurd (h.fresh _ hsome) (Nat.lt_irrefl _)

theorem Coupled.act (h : Coupled c q) (hplaced : c.Placed directory nextSeq) {queue : List Nat}
    {nextElement : Nat} {a : QueueAction} {effect : QueueEffect}
    (hstep : q.act directory queue nextElement c a = some effect)
    (hrest : ∀ called completion inbox, a = .complete called → c.inbox = completion :: inbox →
      completion.cleans → AtRest c q)
    (hlock : LockStep directory nextSeq c effect.lock c')
    : Coupled c' effect.consumer := by
  cases hquiet : a.quiet with
  | true =>
    have hrests := (rests_act hquiet hstep).1
    have heq : effect.lock = a.lock := by
      rcases lock_act hstep with heq | ⟨_, _, ha, _⟩
      . exact heq
      . subst ha
        cases hquiet
    rw [heq] at hlock
    apply (h.fewer hrests.fewer (hrests.tidy h.tidy)).lockStep hplaced _ _ hlock
    . intro hcomplete
      cases a <;> simp [QueueAction.lock, QueueAction.quiet] at hcomplete hquiet
    . intro i
      cases a <;> simp [QueueAction.lock]
  | false =>
    cases Consumer.taken_of_act hstep with
    | rbZkQueuePop =>
      rcases hlock with ⟨lockEffect, hact, heq⟩
      subst heq
      cases Client.taken_of_act hact with
      | rbZkMutexLock _ => exact h.lock.element h.fresh_nextMutex (Nat.lt_succ_self _)
    | @complete called completion inbox hinbox =>
      have hcomplete := complete_of_lockStep hinbox hlock
      exact h.complete hplaced hinbox (hrest called completion inbox rfl hinbox) hcomplete called
    | @completeQueue called _ _ hinbox _ =>
      cases hlock
      exact h.completeQueue hplaced hinbox called
    | @rbZkMutexUnlock _ _ _ i hinbox hunlock _ =>
      rcases h.deleteCompleted_of_unlock hplaced hinbox hunlock with ⟨⟨ok, heq⟩, _⟩
      subst heq
      rcases h.deleteCompleted hplaced hinbox with ⟨hdone, _, hheld, hwaiting, hdead⟩
      rcases hlock with ⟨lockEffect, hact, heq⟩
      subst heq
      cases Client.taken_of_act hact with
      | rbZkMutexUnlock _ hunlocked => exact hdone.unlock hheld.idle hwaiting hdead hunlocked
    | unlockFault hinbox hunlock hunlocks =>
      exact absurd (h.deleteCompleted_of_unlock hplaced hinbox hunlock).2 hunlocks
    | rbZkMutexLock | call | serve | refuse | serveLost | dropLost | disconnect | reconnect
    | expire | rbZkQueuePush | serveQueue _ _ | refuseQueue _ | deletesLost _ _ | forgetsLost _
    | dropQueueLost =>
      cases hquiet

theorem coupled_start : Coupled .start .start := by
  refine ⟨⟨?_, ?_⟩, tidy_start, ?_, ?_, ?_, ?_, ?_, ?_, ?_⟩ <;>
    simp [Client.start, Consumer.start, carried, marks, waiting, Consumer.watching,
      Consumer.listing, replying, Consumer.taking]

end

end Zk

end RbMonitor
