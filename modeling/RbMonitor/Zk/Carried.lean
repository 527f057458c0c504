import RbMonitor.Zk.Placed

/-!
This module contains what carries a mutex: the requests, the replies, the events and the watches
that come back to it.
-/

namespace RbMonitor

namespace Zk

def Request.mutex : Request → Nat
  | .acreate mutex | .agetChildren mutex | .adelete mutex _ => mutex

def Completion.mutex : Completion → Option Nat
  | .createMutexNodeComplete mutex _ | .leaderGetChildrenComplete mutex _
  | .deleteMutexCompleted mutex | .previousLeaderWatcher mutex _ => some mutex
  | .sessionEvent _ => none

@[simp]
theorem Request.mutex_failed (request : Request) : request.failed.mutex = some request.mutex := by
  cases request <;> rfl

namespace Client

/-- The mutexes that something comes back to. Nothing comes from a watch on a node that was gone
when it was set, because numbers are not used again. -/
def carried (c : Client) : List Nat :=
  c.requests.map Request.mutex ++ c.inbox.filterMap Completion.mutex
    ++ (c.watches.filter Watch.found).map Watch.mutex

/-- The mutexes that the client tracks, and whether it holds the lock by them. -/
def marks (c : Client) : List (Nat × Bool) :=
  c.leadersNodesList.map fun mutex => (mutex.id, mutex.iAmLeader)

/-- The client holds the lock by a mutex that it is not giving back. -/
structure Held (c : Client) (id : Nat) : Prop where
  leads : (id, true) ∈ c.marks
  idle : id ∉ c.carried

structure Attended (c : Client) : Prop where
  once : ∀ id, c.carried.count id ≤ 1
  tracked : ∀ id ∈ c.carried, c.Tracks id

/-- The same mutexes, and nothing new that carries them. -/
structure Steady (c c' : Client) : Prop where
  pending : c'.pendingLeaders = c.pendingLeaders
  marks : c'.marks = c.marks
  next : c'.nextMutex = c.nextMutex
  carried : ∀ id, c'.carried.count id ≤ c.carried.count id

/-- A mutex that nothing carries any more is freed. -/
structure Releases (id : Nat) (c c' : Client) : Prop where
  pending : c'.pendingLeaders = c.pendingLeaders
  marks : c'.marks = c.marks.filter fun mark => mark.1 ≠ id
  next : c'.nextMutex = c.nextMutex
  carried : ∀ i, c'.carried.count i ≤ c.carried.count i
  idle : id ∉ c'.carried

/-- The client holds the lock by a mutex that waited for its place. -/
structure Obtains (id : Nat) (c c' : Client) : Prop where
  pending : c'.pendingLeaders = c.pendingLeaders
  marks : c'.marks = c.marks.map fun mark => if mark.1 = id then (id, true) else mark
  next : c'.nextMutex = c.nextMutex
  carried : ∀ i, c'.carried.count i ≤ c.carried.count i
  idle : id ∉ c'.carried

section

variable {c c' : Client} {id : Nat} {directory : List Nat} {nextSeq : Nat}

theorem tracks_iff : c.Tracks id ↔ ∃ leader, (id, leader) ∈ c.marks := by
  simp only [Tracks, marks, List.mem_map, Prod.mk.injEq]
  constructor
  . intro h
    rcases h with ⟨mutex, hmutex, hid⟩
    exact ⟨mutex.iAmLeader, mutex, hmutex, hid, rfl⟩
  . intro h
    rcases h with ⟨_, mutex, hmutex, hid, _⟩
    exact ⟨mutex, hmutex, hid⟩

theorem Steady.refl (c : Client) : Steady c c :=
  ⟨rfl, rfl, rfl, fun _ => Nat.le_refl _⟩

theorem Steady.trans {d : Client} (h : Steady c c') (h' : Steady c' d) : Steady c d where
  pending := h'.pending.trans h.pending
  marks := h'.marks.trans h.marks
  next := h'.next.trans h.next
  carried id := Nat.le_trans (h'.carried id) (h.carried id)

theorem Steady.tracks (h : Steady c c') : c'.Tracks id ↔ c.Tracks id := by
  rw [tracks_iff, tracks_iff, h.marks]

theorem Steady.held (h : Steady c c') (hheld : c.Held id) : c'.Held id where
  leads := h.marks ▸ hheld.leads
  idle hmem := hheld.idle (mem_of_count_le h.carried hmem)

theorem Attended.steady (h : Attended c) (hsteady : Steady c c') : Attended c' where
  once id := Nat.le_trans (hsteady.carried id) (h.once id)
  tracked id hmem := hsteady.tracks.mpr (h.tracked id (mem_of_count_le hsteady.carried hmem))

theorem Releases.held (h : Releases id c c') {i : Nat} (hne : i ≠ id) (hheld : c.Held i)
    : c'.Held i where
  leads := by
    rw [h.marks]
    apply List.mem_filter_of_mem hheld.leads
    simpa using hne
  idle hmem := hheld.idle (mem_of_count_le h.carried hmem)

theorem Attended.releases (h : Attended c) (hreleases : Releases id c c') : Attended c' where
  once id := Nat.le_trans (hreleases.carried id) (h.once id)
  tracked i hmem := by
    rcases tracks_iff.mp (h.tracked i (mem_of_count_le hreleases.carried hmem)) with ⟨leader, hmark⟩
    rw [tracks_iff, hreleases.marks]
    refine ⟨leader, List.mem_filter_of_mem hmark ?_⟩
    have hne : i ≠ id := fun heq => hreleases.idle (heq ▸ hmem)
    simpa using hne

theorem Obtains.tracks (h : Obtains id c c') {i : Nat} (htracks : c.Tracks i) : c'.Tracks i := by
  rcases tracks_iff.mp htracks with ⟨leader, hmark⟩
  rw [tracks_iff, h.marks]
  by_cases heq : i = id
  . subst heq
    exact ⟨true, List.mem_map.mpr ⟨(i, leader), hmark, if_pos rfl⟩⟩
  . exact ⟨leader, List.mem_map.mpr ⟨(i, leader), hmark, if_neg heq⟩⟩

theorem Obtains.held (h : Obtains id c c') {i : Nat} (hheld : c.Held i) : c'.Held i where
  leads := by
    rw [h.marks]
    refine List.mem_map.mpr ⟨(i, true), hheld.leads, ?_⟩
    split
    . next heq => exact heq ▸ rfl
    . rfl
  idle hmem := hheld.idle (mem_of_count_le h.carried hmem)

theorem Obtains.obtained (h : Obtains id c c') (htracks : c.Tracks id) : c'.Held id where
  leads := by
    rcases tracks_iff.mp htracks with ⟨leader, hmark⟩
    rw [h.marks]
    exact List.mem_map.mpr ⟨(id, leader), hmark, if_pos rfl⟩
  idle := h.idle

theorem Attended.obtains (h : Attended c) (hobtains : Obtains id c c') : Attended c' where
  once i := Nat.le_trans (hobtains.carried i) (h.once i)
  tracked i hmem := hobtains.tracks (h.tracked i (mem_of_count_le hobtains.carried hmem))

theorem steady_calls_fault (calls : List Call) (fault : Bool)
    : Steady c { c with calls := calls, fault := fault } :=
  ⟨rfl, rfl, rfl, fun _ => Nat.le_refl _⟩

theorem filterMap_mutex_failed (requests : List Request)
    : (requests.map Request.failed).filterMap Completion.mutex = requests.map Request.mutex := by
  rw [List.filterMap_map]
  have heq : Completion.mutex ∘ Request.failed = some ∘ Request.mutex :=
    funext Request.mutex_failed
  rw [heq]
  exact congrFun List.filterMap_eq_map _

theorem steady_fire (reports : Watch → Bool) (hfound : ∀ watch, reports watch → watch.found)
    : Steady c (c.fire reports) := by
  refine ⟨rfl, rfl, rfl, ?_⟩
  intro i
  have hfired : ((c.watches.filter reports).map fun watch =>
      Completion.previousLeaderWatcher watch.mutex watch.node).filterMap Completion.mutex =
        (c.watches.filter reports).map Watch.mutex := by
    rw [List.filterMap_map]
    exact congrFun List.filterMap_eq_map _
  have hperm := ((List.filter_append_perm reports (c.watches.filter Watch.found)).map
    Watch.mutex).count_eq i
  have hsame : (c.watches.filter Watch.found).filter reports = c.watches.filter reports := by
    rw [List.filter_filter]
    congr 1
    funext watch
    have := hfound watch
    cases hreports : reports watch <;> simp_all
  have hrest : (c.watches.filter fun watch => !reports watch).filter Watch.found =
      (c.watches.filter Watch.found).filter fun watch => !reports watch := by
    rw [List.filter_filter, List.filter_filter]
    congr 1
    funext watch
    exact Bool.and_comm _ _
  rw [List.map_append, List.count_append, hsame] at hperm
  simp only [carried, Client.fire, List.filterMap_append, hfired, hrest, List.count_append]
  omega

theorem steady_delete (gone : List Nat) : Steady c (c.delete gone) := by
  have hnodes : Steady c { c with nodes := c.nodes.filter fun node => node.seq ∉ gone } :=
    ⟨rfl, rfl, rfl, fun _ => Nat.le_refl _⟩
  simp only [Client.delete]
  split
  . apply hnodes.trans
    apply steady_fire
    intro watch hreports
    simp only [Watch.reports, Bool.and_eq_true] at hreports
    exact hreports.1
  . exact hnodes

theorem Steady.reply {request : Request} {requests : List Request}
    (hrequests : c.requests = request :: requests) {reply : Completion}
    (hreply : reply.mutex = some request.mutex)
    (h : Steady { c with requests := requests } c')
    : Steady c { c' with inbox := c'.inbox ++ [reply] } := by
  refine ⟨h.pending, h.marks, h.next, ?_⟩
  intro i
  have hold := h.carried i
  simp only [Client.carried, hrequests, List.filterMap_append, List.map_cons,
    List.filterMap_cons, List.filterMap_nil, hreply, List.count_append, List.count_cons,
    List.count_nil] at hold ⊢
  omega

theorem steady_serve {request : Request} {requests : List Request}
    (hrequests : c.requests = request :: requests) {effect : Effect} {reply : Completion}
    (hhandle : { c with requests := requests }.handle directory nextSeq request = (effect, reply))
    : Steady c { effect.client.delete effect.gone with
        inbox := (effect.client.delete effect.gone).inbox ++ [reply] } := by
  have hclient : Steady { c with requests := requests } effect.client := by
    cases request <;> cases hhandle <;> exact ⟨rfl, rfl, rfl, fun _ => Nat.le_refl _⟩
  apply Steady.reply hrequests
  . cases request <;> cases hhandle <;> rfl
  . exact hclient.trans (steady_delete effect.gone)

theorem count_late_mutex (completions : List Completion) (i : Nat)
    : (((completions.filterMap Completion.watch).filter Watch.found).map Watch.mutex).count i
        + ((completions.filterMap Completion.failed).filterMap Completion.mutex).count i =
          (completions.filterMap Completion.mutex).count i := by
  induction completions with
  | nil => rfl
  | cons completion completions ih =>
    cases completion <;>
      simp only [List.filterMap_cons, Completion.failed, Completion.watch, Completion.mutex,
        List.filter_cons, ↓reduceIte, List.map_cons, List.count_cons] <;>
      omega

theorem steady_disconnect {received : Nat} (hstep : c.disconnect received = some c')
    : Steady c c' := by
  simp only [Client.disconnect, Option.ite_none_left_eq_some, Option.some.injEq] at hstep
  rcases hstep with ⟨_, hstep⟩
  subst hstep
  refine ⟨rfl, rfl, rfl, ?_⟩
  intro i
  have hlate := count_late_mutex (c.inbox.drop received) i
  have hinbox := congrArg (fun l => (l.filterMap Completion.mutex).count i)
    (List.take_append_drop received c.inbox)
  simp only [List.filterMap_append, List.count_append] at hinbox
  simp only [Client.carried, List.filterMap_append, List.filterMap_cons, Completion.mutex,
    filterMap_mutex_failed, List.filter_append, List.map_append, List.map_nil, List.nil_append,
    List.count_append]
  omega

theorem steady_reconnect (hstep : c.reconnect directory = some c') : Steady c c' := by
  have hevent (state state' : ZooState) :
      Steady c { c with state := state, inbox := c.inbox ++ [.sessionEvent state'] } := by
    refine ⟨rfl, rfl, rfl, ?_⟩
    intro i
    simp [Client.carried, List.filterMap_cons, Completion.mutex]
  cases reconnects_of_reconnect hstep with
  | connected _ _ =>
    apply (hevent .connected .connected).trans
    apply steady_fire
    intro watch hreports
    simp only [Bool.and_eq_true] at hreports
    exact hreports.1
  | expired _ _ => exact hevent .expiredSession .expiredSession

theorem steady_resetZkContext : Steady c c.resetZkContext.client := by
  refine ⟨rfl, rfl, rfl, ?_⟩
  intro i
  simp only [Client.carried, Client.resetZkContext, List.filterMap_append, filterMap_mutex_failed,
    List.filter_nil, List.map_nil, List.append_nil, List.nil_append, List.count_append]
  omega

theorem mutex?_of_tracks (htracks : c.Tracks id) : ∃ mutex, c.mutex? id = some mutex := by
  rcases htracks with ⟨mutex, hmutex, hid⟩
  apply Option.isSome_iff_exists.mp
  rw [Client.mutex?, List.find?_isSome]
  exact ⟨mutex, hmutex, by simpa using hid⟩

theorem releases_rbZkMutexDone (htracks : c.Tracks id) (hidle : id ∉ c.carried)
    : Releases id c (c.rbZkMutexDone id) := by
  rcases mutex?_of_tracks htracks with ⟨mutex, hmutex⟩
  unfold Client.rbZkMutexDone
  rw [hmutex]
  refine ⟨rfl, ?_, rfl, fun _ => Nat.le_refl _, hidle⟩
  simp only [Client.marks, List.filter_map]
  rfl

theorem Steady.releases {d : Client} (h : Steady c c') (h' : Releases id c' d)
    : Releases id c d where
  pending := h'.pending.trans h.pending
  marks := by
    rw [h'.marks, h.marks]
  next := h'.next.trans h.next
  carried i := Nat.le_trans (h'.carried i) (h.carried i)
  idle := h'.idle

theorem Steady.obtains {d : Client} (h : Steady c c') (h' : Obtains id c' d) : Obtains id c d where
  pending := h'.pending.trans h.pending
  marks := by
    rw [h'.marks, h.marks]
  next := h'.next.trans h.next
  carried i := Nat.le_trans (h'.carried i) (h.carried i)
  idle := h'.idle

theorem marks_setMutex (new : Mutex) : (c.setMutex new).marks =
    c.marks.map fun mark => if mark.1 = new.id then (new.id, new.iAmLeader) else mark := by
  simp only [Client.marks, Client.setMutex, List.map_map]
  apply List.map_congr_left
  intro mutex _
  simp only [Function.comp_apply]
  split <;> rfl

theorem Placed.eq_of_mem_marks (h : Placed directory nextSeq c) {leader leader' : Bool}
    (hmark : (id, leader) ∈ c.marks) (hmark' : (id, leader') ∈ c.marks)
    : leader = leader' := by
  simp only [Client.marks, List.mem_map, Prod.mk.injEq] at hmark hmark'
  rcases hmark with ⟨mutex, hmutex, hid, hleader⟩
  rcases hmark' with ⟨mutex', hmutex', hid', hleader'⟩
  have heq : mutex = mutex' := by
    apply h.eq_of_mem_mutexes
    . exact List.mem_append_right _ hmutex
    . exact List.mem_append_right _ hmutex'
    . exact hid.trans hid'.symm
  rw [← hleader, ← hleader', heq]

theorem mem_marks {mutex : Mutex} (hmutex : c.mutex? id = some mutex)
    : (id, mutex.iAmLeader) ∈ c.marks := by
  rcases mem_of_mutex? hmutex with ⟨hmem, hid⟩
  rw [← hid]
  exact List.mem_map_of_mem hmem

theorem steady_setMutex (h : Placed directory nextSeq c) {mutex : Mutex}
    (hmutex : c.mutex? id = some mutex) (path : Option Nat)
    : Steady c (c.setMutex { mutex with path := path }) := by
  refine ⟨rfl, ?_, rfl, fun _ => Nat.le_refl _⟩
  have hid := (mem_of_mutex? hmutex).2
  rw [marks_setMutex]
  conv_rhs => rw [← List.map_id c.marks]
  apply List.map_congr_left
  intro mark hmark
  split
  . next heq =>
    rw [hid] at heq
    subst heq
    rw [hid, h.eq_of_mem_marks (mem_marks hmutex) hmark]
    rfl
  . rfl

theorem obtains_setMutex {mutex : Mutex} (hmutex : c.mutex? id = some mutex) (hidle : id ∉ c.carried)
    : Obtains id c (c.setMutex { mutex with iAmLeader := true }) := by
  refine ⟨rfl, ?_, rfl, fun _ => Nat.le_refl _, hidle⟩
  rw [marks_setMutex, (mem_of_mutex? hmutex).2]

theorem steady_pop {completion : Completion} {inbox : List Completion}
    (hinbox : c.inbox = completion :: inbox)
    : Steady c { c with inbox := inbox } := by
  refine ⟨rfl, rfl, rfl, ?_⟩
  intro i
  simp only [Client.carried, hinbox, filterMap_cons_eq, List.count_append]
  omega

theorem mem_carried_head {completion : Completion} {inbox : List Completion}
    (hinbox : c.inbox = completion :: inbox) (hid : completion.mutex = some id)
    : id ∈ c.carried := by
  simp [Client.carried, hinbox, hid]

theorem Attended.idle_pop (h : Attended c) {completion : Completion} {inbox : List Completion}
    (hinbox : c.inbox = completion :: inbox) (hid : completion.mutex = some id)
    : id ∉ { c with inbox := inbox }.carried := by
  have honce := h.once id
  rw [← List.count_eq_zero]
  simp only [Client.carried, hinbox, filterMap_cons_eq, hid, Option.toList_some, List.count_append,
    List.count_singleton_self] at honce ⊢
  omega

theorem Steady.request {completion : Completion} {inbox : List Completion}
    (hinbox : c.inbox = completion :: inbox) (hid : completion.mutex = some id)
    (h : Steady { c with inbox := inbox } c') {request : Request} (hrequest : request.mutex = id)
    : Steady c (c'.request request) := by
  refine ⟨h.pending, h.marks, h.next, ?_⟩
  intro i
  have hcarried := h.carried i
  simp only [Client.carried, Client.request, hinbox, filterMap_cons_eq, hid, Option.toList_some,
    List.map_append, List.map_cons, List.map_nil, hrequest, List.count_append] at hcarried ⊢
  omega

theorem steady_watch {completion : Completion} {inbox : List Completion}
    (hinbox : c.inbox = completion :: inbox) (hid : completion.mutex = some id) (node : Nat)
    : Steady c { c with
        inbox := inbox
        watches := c.watches ++ [{ mutex := id, node, found := true }] } := by
  refine ⟨rfl, rfl, rfl, ?_⟩
  intro i
  simp only [Client.carried, hinbox, filterMap_cons_eq, hid, Option.toList_some,
    List.filter_append, List.map_append, List.count_append, List.filter_cons, List.filter_nil,
    ↓reduceIte, List.map_cons, List.map_nil]
  omega

theorem attended_rbZkMutexUnlock (h : Attended c) (hidle : id ∉ c.carried)
    (hstep : c.rbZkMutexUnlock id = some c')
    : Attended c' ∧ c'.pendingLeaders = c.pendingLeaders ∧ c'.nextMutex = c.nextMutex ∧
        c'.marks ⊆ c.marks ∧ ∀ i, i ≠ id → c.Held i → c'.Held i := by
  cases Client.unlocks_of_rbZkMutexUnlock hstep with
  | @deletes mutex hmutex _ _ =>
    have htracks : c.Tracks id := ⟨mutex, mem_of_mutex? hmutex⟩
    have hcount (i : Nat) : (c.request (.adelete id mutex.path)).carried.count i =
        c.carried.count i + if id = i then 1 else 0 := by
      simp only [Client.carried, Client.request, List.map_append, List.map_cons, List.map_nil,
        Request.mutex, List.count_append, List.count_singleton, beq_iff_eq]
      omega
    have hmem : ∀ i, i ∈ (c.request (.adelete id mutex.path)).carried →
        i ∈ c.carried ∨ i = id := by
      intro i hi
      have := hcount i
      rw [← List.count_pos_iff] at hi ⊢
      split at this
      . next heq => exact .inr heq.symm
      . left
        omega
    refine ⟨⟨?_, ?_⟩, rfl, rfl, List.Subset.refl _, ?_⟩
    . intro i
      have := h.once i
      rw [hcount]
      split
      . next heq =>
        subst heq
        have hzero := List.count_eq_zero.mpr hidle
        omega
      . omega
    . intro i hi
      cases hmem i hi with
      | inl hold => exact h.tracked i hold
      | inr heq => exact heq ▸ htracks
    . intro i hne hheld
      refine ⟨hheld.leads, ?_⟩
      intro hi
      cases hmem i hi with
      | inl hold => exact hheld.idle hold
      | inr heq => exact hne heq
  | frees hmutex _ _ =>
    have htracks : c.Tracks id := ⟨_, mem_of_mutex? hmutex⟩
    have hreleases := releases_rbZkMutexDone htracks hidle
    refine ⟨h.releases hreleases, hreleases.pending, hreleases.next, ?_, ?_⟩
    . rw [hreleases.marks]
      exact List.filter_sublist.subset
    . exact fun i hne hheld => hreleases.held hne hheld

theorem marks_zkWatcherDoPendingLocks (h : Placed directory nextSeq c)
    : c.Steady c.zkWatcherDoPendingLocks ∨ (c.zkWatcherDoPendingLocks.pendingLeaders = [] ∧
        c.zkWatcherDoPendingLocks.marks =
          c.marks ++ c.pendingLeaders.map fun mutex => (mutex.id, false)) := by
  unfold Client.zkWatcherDoPendingLocks
  split
  . exact .inl (Steady.refl c)
  . right
    refine ⟨rfl, ?_⟩
    simp only [Client.marks, List.map_append]
    congr 1
    apply List.map_congr_left
    intro mutex hmutex
    have hunnamed : mutex.id ∈ c.unnamed :=
      List.mem_append_left _ (List.mem_append_left _ (List.mem_map_of_mem hmutex))
    rw [(h.unnamed mutex (List.mem_append_left _ hmutex) hunnamed).2]

theorem count_carried_zkWatcherDoPendingLocks (i : Nat)
    : ({ c with
          pendingLeaders := []
          leadersNodesList := c.leadersNodesList ++ c.pendingLeaders
          requests := c.requests ++ c.pendingLeaders.map fun mutex => .acreate mutex.id } :
            Client).carried.count i =
        c.carried.count i + (c.pendingLeaders.map Mutex.id).count i := by
  have hmap : (c.pendingLeaders.map fun mutex => Request.acreate mutex.id).map Request.mutex =
      c.pendingLeaders.map Mutex.id := by
    rw [List.map_map]
    rfl
  simp only [Client.carried, List.map_append, hmap, List.count_append]
  omega

theorem Placed.count_pending (h : Placed directory nextSeq c) (htracks : c.Tracks id)
    : (c.pendingLeaders.map Mutex.id).count id = 0 := by
  rcases htracks with ⟨mutex, hmutex, hid⟩
  have hnodup := h.nodup id
  have hpos : 0 < (c.leadersNodesList.map Mutex.id).count id := by
    rw [List.count_pos_iff, ← hid]
    exact List.mem_map_of_mem hmutex
  simp only [mutexes, List.map_append, List.count_append] at hnodup
  omega

theorem Attended.zkWatcherDoPendingLocks (h : Attended c) (hplaced : Placed directory nextSeq c)
    : Attended c.zkWatcherDoPendingLocks := by
  unfold Client.zkWatcherDoPendingLocks
  split
  . exact h
  . refine ⟨?_, ?_⟩
    . intro i
      have honce := h.once i
      have hnodup := hplaced.nodup i
      simp only [mutexes, List.map_append, List.count_append] at hnodup
      rw [count_carried_zkWatcherDoPendingLocks]
      by_cases hmem : i ∈ c.carried
      . have := hplaced.count_pending (h.tracked i hmem)
        omega
      . rw [List.count_eq_zero.mpr hmem]
        omega
    . intro i hi
      rw [← List.count_pos_iff, count_carried_zkWatcherDoPendingLocks] at hi
      by_cases hmem : i ∈ c.carried
      . rcases h.tracked i hmem with ⟨mutex, hmutex, hid⟩
        exact ⟨mutex, List.mem_append_left _ hmutex, hid⟩
      . have hpending : 0 < (c.pendingLeaders.map Mutex.id).count i := by
          rw [List.count_eq_zero.mpr hmem] at hi
          omega
        rcases List.mem_map.mp (List.count_pos_iff.mp hpending) with ⟨mutex, hmutex, hid⟩
        exact ⟨mutex, List.mem_append_right _ hmutex, hid⟩

theorem Held.zkWatcherDoPendingLocks (h : c.Held id) (hplaced : Placed directory nextSeq c)
    : c.zkWatcherDoPendingLocks.Held id := by
  unfold Client.zkWatcherDoPendingLocks
  split
  . exact h
  . refine ⟨?_, ?_⟩
    . simp only [Client.marks, List.map_append]
      exact List.mem_append_left _ h.leads
    . have hpending := hplaced.count_pending (tracks_iff.mpr ⟨true, h.leads⟩)
      rw [← List.count_eq_zero, count_carried_zkWatcherDoPendingLocks, hpending,
        List.count_eq_zero.mpr h.idle]

/-- What an action comes to: only the process changes its mutexes and asks for more. -/
inductive Acts (c : Client) (directory : List Nat) (c' : Client) : ClientAction → Prop where
  | steady {a : ClientAction} (hsteady : Steady c c') : Acts c directory c' a
  | lock (heq : c' = c.rbZkMutexLock) : Acts c directory c' .rbZkMutexLock
  | unlock {id : Nat} (hunlock : c.rbZkMutexUnlock id = some c')
    : Acts c directory c' (.rbZkMutexUnlock id)
  | call {calls : List Call} (heq : c' = { c with calls := calls }.zkWatcherDoPendingLocks)
    : Acts c directory c' .call
  | complete {completion : Completion} {inbox : List Completion}
    (hinbox : c.inbox = completion :: inbox)
    (hcomplete : { c with inbox := inbox }.complete directory completion = some c')
    : Acts c directory c' .complete

theorem acts_of_act {a : ClientAction} {effect : Effect}
    (hstep : c.act directory nextSeq a = some effect)
    : c.Acts directory effect.client a := by
  cases taken_of_act hstep with
  | rbZkMutexLock _ => exact .lock rfl
  | rbZkMutexUnlock _ hunlock => exact .unlock hunlock
  | doPendingLocks _ _ => exact .call rfl
  | resetZkContext _ _ =>
    exact .steady ((steady_calls_fault _ c.fault).trans steady_resetZkContext)
  | complete _ hinbox hcomplete => exact .complete hinbox hcomplete
  | serve _ _ hrequests hhandle => exact .steady (steady_serve hrequests hhandle)
  | @refuse request _ _ _ hrequests _ =>
    exact .steady (Steady.reply hrequests (Request.mutex_failed request) (Steady.refl _))
  | @serveLost request _ _ =>
    apply Acts.steady
    cases request <;> exact ⟨rfl, rfl, rfl, fun _ => Nat.le_refl _⟩
  | dropLost | expire _ => exact .steady ⟨rfl, rfl, rfl, fun _ => Nat.le_refl _⟩
  | disconnect hdisconnect => exact .steady (steady_disconnect hdisconnect)
  | reconnect hreconnect => exact .steady (steady_reconnect hreconnect)

end

end Client

end Zk

end RbMonitor
