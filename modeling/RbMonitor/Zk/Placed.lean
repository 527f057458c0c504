import Mathlib.Data.List.Nodup
import Mathlib.Data.Nat.Lattice
import RbMonitor.Lib.Strcmp
import RbMonitor.Zk.Orphan

/-!
This module contains the place of a mutex in the lock directory. A list of the directory may be old
when it is acted upon. It still holds every node in front of the one that it is compared with,
because nodes come with growing numbers.
-/

namespace RbMonitor

namespace Zk

/-- The completion that tells a mutex its node. -/
def Completion.creates : Completion → Option Nat
  | .createMutexNodeComplete mutex _ => some mutex
  | _ => none

/-- The mutex whose place in the directory is asked for. -/
def Request.asks : Request → Option Nat
  | .agetChildren mutex => some mutex
  | .acreate _ | .adelete _ _ => none

def Completion.asks : Completion → Option Nat
  | .leaderGetChildrenComplete mutex _ | .previousLeaderWatcher mutex _ => some mutex
  | _ => none

@[simp]
theorem Request.creates_failed (request : Request) : request.failed.creates = request.creates := by
  cases request <;> rfl

@[simp]
theorem Request.asks_failed (request : Request) : request.failed.asks = request.asks := by
  cases request <;> rfl

namespace Client

/-- The mutexes that are not freed. -/
def mutexes (c : Client) : List Mutex :=
  c.pendingLeaders ++ c.leadersNodesList

/-- The mutexes that wait for their node. -/
def unnamed (c : Client) : List Nat :=
  c.pendingLeaders.map Mutex.id ++ c.requests.filterMap Request.creates
    ++ c.inbox.filterMap Completion.creates

/-- The mutexes that wait for their place. -/
def asking (c : Client) : List Nat :=
  c.requests.filterMap Request.asks ++ c.inbox.filterMap Completion.asks
    ++ c.watches.map Watch.mutex

/-- The node `seq` was created for the mutex. -/
def Owns (directory : List Nat) (nextSeq : Nat) (c : Client) (id seq : Nat) : Prop :=
  seq < nextSeq ∧ (seq ∈ directory → { seq, mutex := id } ∈ c.nodes)

structure Placed (directory : List Nat) (nextSeq : Nat) (c : Client) : Prop where
  nodup : ∀ id, (c.mutexes.map Mutex.id).count id ≤ 1
  -- a mutex waits for one thing at a time
  chain : ∀ id, c.unnamed.count id + c.asking.count id ≤ 1
  lt : ∀ id, id ∈ c.mutexes.map Mutex.id ∨ id ∈ c.unnamed ∨ id ∈ c.asking → id < c.nextMutex
  unnamed : ∀ mutex ∈ c.mutexes, mutex.id ∈ c.unnamed → mutex.path = none ∧ mutex.iAmLeader = false
  leader : ∀ mutex ∈ c.mutexes, mutex.iAmLeader → mutex.id ∉ c.asking
  path : ∀ mutex ∈ c.mutexes, ∀ seq, mutex.path = some seq → c.Owns directory nextSeq mutex.id seq
  created : ∀ id seq, .createMutexNodeComplete id (some seq) ∈ c.inbox →
    c.Owns directory nextSeq id seq
  -- no node in front is missing in the list
  listed : ∀ id strings, .leaderGetChildrenComplete id (some strings) ∈ c.inbox →
    ∀ mutex ∈ c.mutexes, mutex.id = id → ∀ seq, mutex.path = some seq →
      ∀ q ∈ directory, q < seq → q ∈ strings
  least : ∀ mutex ∈ c.mutexes, mutex.iAmLeader → ∀ seq, mutex.path = some seq →
    ∀ q ∈ directory, seq ≤ q

/-- The client loses mutexes, and what they wait for. -/
structure Keeps (directory : List Nat) (nextSeq : Nat) (c c' : Client) : Prop where
  mutexes : c'.mutexes ⊆ c.mutexes
  ids : ∀ id, (c'.mutexes.map Mutex.id).count id ≤ (c.mutexes.map Mutex.id).count id
  next : c'.nextMutex = c.nextMutex
  unnamed : ∀ id, c'.unnamed.count id ≤ c.unnamed.count id
  asking : ∀ id, c'.asking.count id ≤ c.asking.count id
  nodes : ∀ node ∈ c.nodes, node.seq ∈ directory → node ∈ c'.nodes
  created : ∀ id seq, .createMutexNodeComplete id (some seq) ∈ c'.inbox →
    .createMutexNodeComplete id (some seq) ∈ c.inbox ∨ c'.Owns directory nextSeq id seq
  listed : ∀ id strings, .leaderGetChildrenComplete id (some strings) ∈ c'.inbox →
    .leaderGetChildrenComplete id (some strings) ∈ c.inbox ∨ directory ⊆ strings

section

variable {directory : List Nat} {nextSeq : Nat} {c c' : Client} {id seq : Nat}

theorem mem_of_count_le {l l' : List Nat} (h : ∀ id, l'.count id ≤ l.count id) (hid : id ∈ l')
    : id ∈ l := by
  rw [← List.count_pos_iff] at hid ⊢
  exact Nat.lt_of_lt_of_le hid (h id)

theorem Keeps.owns (h : Keeps directory nextSeq c c') (howns : c.Owns directory nextSeq id seq)
    : c'.Owns directory nextSeq id seq :=
  ⟨howns.1, fun hmem => h.nodes _ (howns.2 hmem) hmem⟩

theorem Placed.keeps (h : Placed directory nextSeq c) (hkeeps : Keeps directory nextSeq c c')
    : Placed directory nextSeq c' where
  nodup id := Nat.le_trans (hkeeps.ids id) (h.nodup id)
  chain id := Nat.le_trans (Nat.add_le_add (hkeeps.unnamed id) (hkeeps.asking id)) (h.chain id)
  lt id hid := by
    rw [hkeeps.next]
    apply h.lt
    exact hid.imp (mem_of_count_le hkeeps.ids)
      (Or.imp (mem_of_count_le hkeeps.unnamed) (mem_of_count_le hkeeps.asking))
  unnamed mutex hmutex hid :=
    h.unnamed mutex (hkeeps.mutexes hmutex) (mem_of_count_le hkeeps.unnamed hid)
  leader mutex hmutex hleader hid :=
    h.leader mutex (hkeeps.mutexes hmutex) hleader (mem_of_count_le hkeeps.asking hid)
  path mutex hmutex seq hseq := hkeeps.owns (h.path mutex (hkeeps.mutexes hmutex) seq hseq)
  created id seq hmem := by
    cases hkeeps.created id seq hmem with
    | inl hold => exact hkeeps.owns (h.created id seq hold)
    | inr hnew => exact hnew
  listed id strings hmem mutex hmutex hid seq hseq q hq hlt := by
    cases hkeeps.listed id strings hmem with
    | inl hold =>
      exact h.listed id strings hold mutex (hkeeps.mutexes hmutex) hid seq hseq q hq hlt
    | inr hnew => exact hnew hq
  least mutex hmutex := h.least mutex (hkeeps.mutexes hmutex)

theorem Placed.frame (h : Placed directory nextSeq c) {directory' : List Nat} {nextSeq' : Nat}
    (hdirectory : ∀ q ∈ directory', q ∈ directory ∨ nextSeq ≤ q) (hnext : nextSeq ≤ nextSeq')
    : Placed directory' nextSeq' c := by
  have howns : ∀ {id seq}, c.Owns directory nextSeq id seq → c.Owns directory' nextSeq' id seq := by
    intro id seq howns
    refine ⟨Nat.lt_of_lt_of_le howns.1 hnext, ?_⟩
    intro hmem
    cases hdirectory seq hmem with
    | inl hold => exact howns.2 hold
    | inr hnew => exact absurd howns.1 (Nat.not_lt_of_le hnew)
  refine ⟨h.nodup, h.chain, h.lt, h.unnamed, h.leader, ?_, ?_, ?_, ?_⟩
  . intro mutex hmutex seq hseq
    exact howns (h.path mutex hmutex seq hseq)
  . intro id seq hmem
    exact howns (h.created id seq hmem)
  . intro id strings hmem mutex hmutex hid seq hseq q hq hlt
    cases hdirectory q hq with
    | inl hold => exact h.listed id strings hmem mutex hmutex hid seq hseq q hold hlt
    | inr hnew =>
      have := (h.path mutex hmutex seq hseq).1
      omega
  . intro mutex hmutex hleader seq hseq q hq
    cases hdirectory q hq with
    | inl hold => exact h.least mutex hmutex hleader seq hseq q hold
    | inr hnew =>
      have := (h.path mutex hmutex seq hseq).1
      omega

theorem Placed.eq_of_mem_mutexes (h : Placed directory nextSeq c) {mutex mutex' : Mutex}
    (hmutex : mutex ∈ c.mutexes) (hmutex' : mutex' ∈ c.mutexes) (hid : mutex.id = mutex'.id)
    : mutex = mutex' := by
  have hnodup : (c.mutexes.map Mutex.id).Nodup := List.nodup_iff_count_le_one.mpr h.nodup
  exact List.inj_on_of_nodup_map hnodup hmutex hmutex' hid

theorem Keeps.calls_fault (calls : List Call) (fault : Bool)
    : Keeps directory nextSeq c { c with calls := calls, fault := fault } :=
  ⟨List.Subset.refl _, fun _ => Nat.le_refl _, rfl, fun _ => Nat.le_refl _, fun _ => Nat.le_refl _,
    fun _ hnode _ => hnode, fun _ _ hmem => .inl hmem, fun _ _ hmem => .inl hmem⟩

theorem Placed.calls_fault (h : Placed directory nextSeq c) (calls : List Call) (fault : Bool)
    : Placed directory nextSeq { c with calls := calls, fault := fault } :=
  h.keeps (Keeps.calls_fault calls fault)

theorem count_filterMap_le {α : Type} {l l' : List α} (hsub : l'.Sublist l) (f : α → Option Nat)
    (id : Nat)
    : (l'.filterMap f).count id ≤ (l.filterMap f).count id :=
  (hsub.filterMap f).count_le id

theorem Placed.pop (h : Placed directory nextSeq c) {completion : Completion}
    {inbox : List Completion} (hinbox : c.inbox = completion :: inbox)
    : Placed directory nextSeq { c with inbox := inbox } := by
  have hsub : inbox.Sublist c.inbox := by
    rw [hinbox]
    exact List.sublist_cons_self completion inbox
  apply h.keeps
  refine ⟨List.Subset.refl _, fun _ => Nat.le_refl _, rfl, ?_, ?_, fun _ hnode _ => hnode, ?_, ?_⟩
  . intro i
    have := count_filterMap_le hsub Completion.creates i
    simp only [Client.unnamed, List.count_append]
    omega
  . intro i
    have := count_filterMap_le hsub Completion.asks i
    simp only [asking, List.count_append]
    omega
  . intro i q hmem
    exact .inl (hsub.subset hmem)
  . intro i strings hmem
    exact .inl (hsub.subset hmem)

theorem Placed.rbZkMutexDone (h : Placed directory nextSeq c) (id : Nat)
    : Placed directory nextSeq (c.rbZkMutexDone id) := by
  unfold Client.rbZkMutexDone
  split
  . exact h.calls_fault c.calls true
  . apply h.keeps
    refine ⟨?_, ?_, rfl, fun _ => Nat.le_refl _, fun _ => Nat.le_refl _, fun _ hnode _ => hnode,
      fun _ _ hmem => .inl hmem, fun _ _ hmem => .inl hmem⟩
    . intro mutex hmutex
      cases List.mem_append.mp hmutex with
      | inl hpending => exact List.mem_append_left _ hpending
      | inr hmutex => exact List.mem_append_right _ (List.mem_of_mem_filter hmutex)
    . intro i
      have hfilter : (c.leadersNodesList.filter fun mutex => mutex.id ≠ id).Sublist
          c.leadersNodesList := List.filter_sublist
      have := (hfilter.map Mutex.id).count_le i
      simp only [mutexes, List.map_append, List.count_append]
      omega

theorem Keeps.trans {d : Client} (h : Keeps directory nextSeq c c')
    (h' : Keeps directory nextSeq c' d)
    : Keeps directory nextSeq c d where
  mutexes _ hmutex := h.mutexes (h'.mutexes hmutex)
  ids id := Nat.le_trans (h'.ids id) (h.ids id)
  next := h'.next.trans h.next
  unnamed id := Nat.le_trans (h'.unnamed id) (h.unnamed id)
  asking id := Nat.le_trans (h'.asking id) (h.asking id)
  nodes node hnode hmem := h'.nodes node (h.nodes node hnode hmem) hmem
  created id seq hmem := by
    cases h'.created id seq hmem with
    | inl hold => exact (h.created id seq hold).imp_right h'.owns
    | inr hnew => exact .inr hnew
  listed id strings hmem := by
    cases h'.listed id strings hmem with
    | inl hold => exact h.listed id strings hold
    | inr hnew => exact .inr hnew

theorem Keeps.fire (reports : Watch → Bool) : Keeps directory nextSeq c (c.fire reports) := by
  have hcreates : ((c.watches.filter reports).map fun watch =>
      Completion.previousLeaderWatcher watch.mutex watch.node).filterMap Completion.creates = [] := by
    simp [List.filterMap_map, Completion.creates]
  have hasks : ((c.watches.filter reports).map fun watch =>
      Completion.previousLeaderWatcher watch.mutex watch.node).filterMap Completion.asks =
        (c.watches.filter reports).map Watch.mutex := by
    rw [List.filterMap_map]
    exact congrFun List.filterMap_eq_map _
  have hperm (i : Nat) : ((c.watches.filter reports).map Watch.mutex).count i
      + ((c.watches.filter fun watch => !reports watch).map Watch.mutex).count i =
        (c.watches.map Watch.mutex).count i := by
    have := ((List.filter_append_perm reports c.watches).map Watch.mutex).count_eq i
    rwa [List.map_append, List.count_append] at this
  refine ⟨List.Subset.refl _, fun _ => Nat.le_refl _, rfl, ?_, ?_, fun _ hnode _ => hnode, ?_, ?_⟩
  . intro i
    simp only [Client.unnamed, Client.fire, List.filterMap_append, hcreates, List.append_nil]
    exact Nat.le_refl _
  . intro i
    have := hperm i
    simp only [Client.asking, Client.fire, List.filterMap_append, hasks, List.count_append]
    omega
  . intro i q hmem
    cases List.mem_append.mp hmem with
    | inl hold => exact .inl hold
    | inr hnew => simp at hnew
  . intro i strings hmem
    cases List.mem_append.mp hmem with
    | inl hold => exact .inl hold
    | inr hnew => simp at hnew

theorem Keeps.delete {gone : List Nat} (hgone : ∀ q ∈ directory, q ∉ gone)
    : Keeps directory nextSeq c (c.delete gone) := by
  have hfilter : Keeps directory nextSeq c
      { c with nodes := c.nodes.filter fun node => node.seq ∉ gone } := by
    refine ⟨List.Subset.refl _, fun _ => Nat.le_refl _, rfl, fun _ => Nat.le_refl _,
      fun _ => Nat.le_refl _, ?_, fun _ _ hmem => .inl hmem, fun _ _ hmem => .inl hmem⟩
    intro node hnode hmem
    apply List.mem_filter_of_mem hnode
    simpa using hgone node.seq hmem
  simp only [Client.delete]
  split
  . exact hfilter.trans (Keeps.fire _)
  . exact hfilter

theorem Placed.ask (h : Placed directory nextSeq c)
    (hchain : c.unnamed.count id + c.asking.count id = 0) (hlt : id < c.nextMutex)
    (hleader : ∀ mutex ∈ c.mutexes, mutex.id = id → mutex.iAmLeader = false)
    (hmutexes : c'.mutexes = c.mutexes) (hnext : c'.nextMutex = c.nextMutex)
    (hunnamed : c'.unnamed = c.unnamed)
    (hasking : ∀ i, c'.asking.count i = c.asking.count i + if id = i then 1 else 0)
    (hnodes : c'.nodes = c.nodes) (hinbox : c'.inbox = c.inbox)
    : Placed directory nextSeq c' := by
  have hmem : ∀ i, i ∈ c'.asking → i ∈ c.asking ∨ i = id := by
    intro i hi
    have hcount := hasking i
    rw [← List.count_pos_iff] at hi ⊢
    split at hcount
    . next heq => exact .inr heq.symm
    . left
      omega
  refine ⟨?_, ?_, ?_, ?_, ?_, ?_, ?_, ?_, ?_⟩
  . rw [hmutexes]
    exact h.nodup
  . intro i
    have hold := h.chain i
    have hnew := hasking i
    rw [hunnamed]
    split at hnew
    . next heq =>
      subst heq
      omega
    . omega
  . intro i hi
    rw [hnext]
    rw [hmutexes, hunnamed] at hi
    rcases hi with hi | hi | hi
    . exact h.lt i (.inl hi)
    . exact h.lt i (.inr (.inl hi))
    . cases hmem i hi with
      | inl hold => exact h.lt i (.inr (.inr hold))
      | inr heq => exact heq ▸ hlt
  . rw [hmutexes, hunnamed]
    exact h.unnamed
  . rw [hmutexes]
    intro mutex hmutex hobtained hi
    cases hmem mutex.id hi with
    | inl hold => exact h.leader mutex hmutex hobtained hold
    | inr heq => simp [hleader mutex hmutex heq] at hobtained
  . unfold Owns
    rw [hmutexes, hnodes]
    exact h.path
  . unfold Owns
    rw [hinbox, hnodes]
    exact h.created
  . rw [hinbox, hmutexes]
    exact h.listed
  . rw [hmutexes]
    exact h.least

theorem mem_asking {completion : Completion} (hmem : completion ∈ c.inbox)
    (hasks : completion.asks = some id)
    : id ∈ c.asking := by
  unfold asking
  simp only [List.mem_append, List.mem_filterMap]
  exact .inl (.inr ⟨completion, hmem, hasks⟩)

theorem filterMap_cons_eq {α : Type} (f : α → Option Nat) (x : α) (l : List α)
    : (x :: l).filterMap f = (f x).toList ++ l.filterMap f := by
  rw [List.filterMap_cons]
  cases f x <;> rfl

theorem count_pop {completion : Completion} {inbox : List Completion}
    (hinbox : c.inbox = completion :: inbox) (i : Nat)
    : c.unnamed.count i + c.asking.count i =
        { c with inbox := inbox }.unnamed.count i + { c with inbox := inbox }.asking.count i
          + completion.creates.toList.count i + completion.asks.toList.count i := by
  simp only [Client.unnamed, asking, hinbox, filterMap_cons_eq, List.count_append]
  omega

theorem Placed.chain_pop (h : Placed directory nextSeq c) {completion : Completion}
    {inbox : List Completion} (hinbox : c.inbox = completion :: inbox)
    (hid : completion.creates = some id ∨ completion.asks = some id)
    : { c with inbox := inbox }.unnamed.count id + { c with inbox := inbox }.asking.count id = 0 := by
  have hchain := h.chain id
  have hpop := count_pop hinbox id
  have hone : 1 ≤ completion.creates.toList.count id + completion.asks.toList.count id := by
    cases hid with
    | inl hcreates => simp [hcreates]
    | inr hasks => simp [hasks]
  omega

theorem Placed.setMutex (h : Placed directory nextSeq c) {new : Mutex}
    (hchain : c.unnamed.count new.id + c.asking.count new.id = 0)
    (hpath : ∀ seq, new.path = some seq → c.Owns directory nextSeq new.id seq)
    (hleast : new.iAmLeader → ∀ seq, new.path = some seq → ∀ q ∈ directory, seq ≤ q)
    : Placed directory nextSeq (c.setMutex new) := by
  have hunnamed : new.id ∉ c.unnamed := by
    rw [← List.count_eq_zero]
    omega
  have hasking : new.id ∉ c.asking := by
    rw [← List.count_eq_zero]
    omega
  have hold : ∀ m ∈ (c.setMutex new).mutexes, m = new ∨ m ∈ c.mutexes := by
    intro m hm
    cases List.mem_append.mp hm with
    | inl hpending => exact .inr (List.mem_append_left _ hpending)
    | inr hm =>
      rcases List.mem_map.mp hm with ⟨m', hm', heq⟩
      split at heq
      . exact .inl heq.symm
      . exact .inr (List.mem_append_right _ (heq ▸ hm'))
  have hids : (c.setMutex new).mutexes.map Mutex.id = c.mutexes.map Mutex.id := by
    simp only [mutexes, Client.setMutex, List.map_append, List.map_map]
    congr 1
    apply List.map_congr_left
    intro m _
    simp only [Function.comp_apply]
    split
    . next heq => exact heq.symm
    . rfl
  refine ⟨?_, h.chain, ?_, ?_, ?_, ?_, h.created, ?_, ?_⟩
  . rw [hids]
    exact h.nodup
  . rw [hids]
    exact h.lt
  . intro m hm hwaits
    cases hold m hm with
    | inl heq => exact absurd (heq ▸ hwaits) hunnamed
    | inr hm => exact h.unnamed m hm hwaits
  . intro m hm hleader hwaits
    cases hold m hm with
    | inl heq => exact absurd (heq ▸ hwaits) hasking
    | inr hm => exact h.leader m hm hleader hwaits
  . intro m hm seq hseq
    cases hold m hm with
    | inl heq =>
      subst heq
      exact hpath seq hseq
    | inr hm => exact h.path m hm seq hseq
  . intro i strings hlisted m hm heq seq hseq
    cases hold m hm with
    | inl hnew =>
      have hasks : i ∈ c.asking := mem_asking hlisted rfl
      rw [hnew] at heq
      exact absurd (heq ▸ hasks) hasking
    | inr hm => exact h.listed i strings hlisted m hm heq seq hseq
  . intro m hm hleader seq hseq
    cases hold m hm with
    | inl heq =>
      subst heq
      exact hleast hleader seq hseq
    | inr hm => exact h.least m hm hleader seq hseq

theorem mem_mutexes (hmem : c.mutex? id = some mutex) : mutex ∈ c.mutexes :=
  List.mem_append_right _ (mem_of_mutex? hmem).1

theorem leaderPreviousString_eq_some_iff {strings : List Nat} {myStr befStr : Nat}
    : leaderPreviousString strings myStr = some befStr
        ↔ IsGreatest {string | string ∈ strings ∧ string < myStr} befStr := by
  unfold leaderPreviousString
  rw [foldl_better_eq_some_iff (p := (· < myStr))]
  . simp
  . intro string best
    cases best <;> simp

theorem le_of_leaderPreviousString {strings : List Nat} {myStr : Nat}
    (h : leaderPreviousString strings myStr = none)
    : ∀ q ∈ strings, myStr ≤ q := by
  intro q hq
  by_contra hlt
  have hne : {string | string ∈ strings ∧ string < myStr}.Nonempty := ⟨q, hq, Nat.lt_of_not_le hlt⟩
  have hbdd : BddAbove {string | string ∈ strings ∧ string < myStr} :=
    ⟨myStr, fun string hmem => Nat.le_of_lt hmem.2⟩
  have hsome := leaderPreviousString_eq_some_iff.mpr
    ⟨Nat.sSup_mem hne hbdd, fun string hmem => le_csSup hbdd hmem⟩
  rw [h] at hsome
  cases hsome

theorem Placed.askChildren (h : Placed directory nextSeq c)
    (hchain : c.unnamed.count id + c.asking.count id = 0) (hlt : id < c.nextMutex)
    (hleader : ∀ mutex ∈ c.mutexes, mutex.id = id → mutex.iAmLeader = false)
    : Placed directory nextSeq (c.request (.agetChildren id)) := by
  refine h.ask hchain hlt hleader rfl rfl ?_ ?_ rfl rfl
  . simp [Client.unnamed, Client.request, Request.creates]
  . intro i
    simp only [asking, Client.request, List.filterMap_append, List.count_append]
    have : ([Request.agetChildren id].filterMap Request.asks).count i = if id = i then 1 else 0 := by
      simp [Request.asks, List.count_singleton]
    omega

theorem Placed.watched (h : Placed directory nextSeq c)
    (hchain : c.unnamed.count id + c.asking.count id = 0) (hlt : id < c.nextMutex)
    (hleader : ∀ mutex ∈ c.mutexes, mutex.id = id → mutex.iAmLeader = false)
    (node : Nat) (found : Bool)
    : Placed directory nextSeq { c with watches := c.watches ++ [{ mutex := id, node, found }] } := by
  refine h.ask hchain hlt hleader rfl rfl rfl ?_ rfl rfl
  intro i
  simp only [asking, List.map_append, List.count_append]
  have : ([({ mutex := id, node, found } : Watch)].map Watch.mutex).count i =
      if id = i then 1 else 0 := by
    simp [List.count_singleton]
  omega

theorem Placed.requested (h : Placed directory nextSeq c) {request : Request}
    (hcreates : request.creates = none) (hasks : request.asks = none)
    : Placed directory nextSeq (c.request request) := by
  apply h.keeps
  refine ⟨List.Subset.refl _, fun _ => Nat.le_refl _, rfl, ?_, ?_, fun _ hnode _ => hnode,
    fun _ _ hmem => .inl hmem, fun _ _ hmem => .inl hmem⟩
  . intro i
    simp [Client.unnamed, Client.request, hcreates]
  . intro i
    simp [asking, Client.request, hasks]

theorem Placed.createMutexNodeComplete (h : Placed directory nextSeq c) {leaderNode : Option Nat}
    {inbox : List Completion} (hinbox : c.inbox = .createMutexNodeComplete id leaderNode :: inbox)
    : Placed directory nextSeq ({ c with inbox := inbox }.createMutexNodeComplete id leaderNode) := by
  have hpop := h.pop hinbox
  unfold Client.createMutexNodeComplete
  split
  . exact hpop.rbZkMutexDone id
  . next node =>
    split
    . exact hpop.calls_fault _ true
    . next mutex hmutex =>
      have hmem : Completion.createMutexNodeComplete id (some node) ∈ c.inbox := by
        rw [hinbox]
        exact List.mem_cons_self
      have hunnamed : id ∈ c.unnamed := by
        unfold Client.unnamed
        simp only [List.mem_append, List.mem_filterMap]
        exact .inr ⟨_, hmem, rfl⟩
      have hchain := h.chain_pop hinbox (.inl rfl)
      rcases mem_of_mutex? hmutex with ⟨hmem', hid⟩
      have hidle := (h.unnamed mutex (List.mem_append_right _ hmem') (hid ▸ hunnamed)).2
      have hset : Placed directory nextSeq
          ({ c with inbox := inbox }.setMutex { mutex with path := some node }) := by
        apply hpop.setMutex
        . rw [hid]
          exact hchain
        . intro seq hseq
          cases hseq
          rw [hid]
          exact h.created id node hmem
        . intro hleader
          rw [hidle] at hleader
          cases hleader
      simp only
      split
      . exact hset.rbZkMutexDone id
      . apply hset.askChildren hchain (h.lt id (.inr (.inl hunnamed)))
        intro m hm heq
        cases List.mem_append.mp hm with
        | inl hpending =>
          exact (h.unnamed m (List.mem_append_left _ hpending) (heq ▸ hunnamed)).2
        | inr hm =>
          rcases List.mem_map.mp hm with ⟨m', hm', hif⟩
          split at hif
          . rw [← hif]
            exact hidle
          . rw [← hif] at heq ⊢
            exact (h.unnamed m' (List.mem_append_right _ hm') (heq ▸ hunnamed)).2

theorem Placed.idle (h : Placed directory nextSeq c) {completion : Completion}
    {inbox : List Completion} (hinbox : c.inbox = completion :: inbox)
    (hasks : completion.asks = some id)
    : id < c.nextMutex ∧ ∀ mutex ∈ c.mutexes, mutex.id = id → mutex.iAmLeader = false := by
  have hid : id ∈ c.asking := by
    apply mem_asking _ hasks
    rw [hinbox]
    exact List.mem_cons_self
  refine ⟨h.lt id (.inr (.inr hid)), ?_⟩
  intro mutex hmutex heq
  rw [← Bool.not_eq_true]
  intro hleader
  exact h.leader mutex hmutex hleader (heq ▸ hid)

theorem Placed.leaderGetChildrenComplete (h : Placed directory nextSeq c)
    {strings : Option (List Nat)} {inbox : List Completion}
    (hinbox : c.inbox = .leaderGetChildrenComplete id strings :: inbox) {directory' : List Nat}
    (hstep : { c with inbox := inbox }.leaderGetChildrenComplete directory' id strings = some c')
    : Placed directory nextSeq c' := by
  have hpop := h.pop hinbox
  unfold Client.leaderGetChildrenComplete at hstep
  split at hstep
  . cases hstep
    exact hpop
  . next strings =>
    have hchain := h.chain_pop hinbox (.inr rfl)
    rcases h.idle hinbox rfl with ⟨hlt, hidle⟩
    split at hstep
    . cases hstep
      exact hpop.calls_fault _ true
    . next mutex hmutex =>
      have hmem : mutex ∈ c.mutexes := mem_mutexes hmutex
      have hid := (mem_of_mutex? hmutex).2
      split at hstep
      . next hfirst =>
        cases hstep
        apply hpop.setMutex
        . rw [hid]
          exact hchain
        . exact hpop.path mutex hmem
        . intro _ seq hseq q hq
          simp only at hseq
          rw [hseq, Option.bind_some] at hfirst
          -- a node in front would be in the list
          apply Nat.le_of_not_lt
          intro hlt
          have hlisted : Completion.leaderGetChildrenComplete id (some strings) ∈ c.inbox := by
            rw [hinbox]
            exact List.mem_cons_self
          have hq := h.listed id strings hlisted mutex hmem hid seq hseq q hq hlt
          exact absurd (le_of_leaderPreviousString hfirst q hq) (Nat.not_le_of_lt hlt)
      . next befStr _ =>
        split at hstep
        . cases hstep
          exact hpop.rbZkMutexDone id
        . cases hstep
          exact hpop.rbZkMutexDone id
        . have hwatched := hpop.watched hchain hlt hidle befStr (befStr ∈ directory')
          simp only [ne_eq, ite_not, Option.ite_none_right_eq_some, Option.some.injEq] at hstep
          rcases hstep with ⟨_, hstep⟩
          split at hstep
          . cases hstep
            exact hwatched
          . cases hstep
            exact hwatched.rbZkMutexDone id

theorem Placed.previousLeaderWatcher (h : Placed directory nextSeq c) {node : Nat}
    {inbox : List Completion} (hinbox : c.inbox = .previousLeaderWatcher id node :: inbox)
    : Placed directory nextSeq ({ c with inbox := inbox }.previousLeaderWatcher id) := by
  have hpop := h.pop hinbox
  rcases h.idle hinbox rfl with ⟨hlt, hidle⟩
  unfold Client.previousLeaderWatcher
  split
  . exact hpop.calls_fault _ true
  . split
    . exact hpop
    . exact hpop.askChildren (h.chain_pop hinbox (.inr rfl)) hlt hidle

theorem Placed.clean (h : Placed directory nextSeq c)
    : Placed directory nextSeq { c with leadersNodesList := [] } := by
  apply h.keeps
  refine ⟨?_, ?_, rfl, fun _ => Nat.le_refl _, fun _ => Nat.le_refl _, fun _ hnode _ => hnode,
    fun _ _ hmem => .inl hmem, fun _ _ hmem => .inl hmem⟩
  . intro mutex hmutex
    simp only [mutexes, List.append_nil] at hmutex
    exact List.mem_append_left _ hmutex
  . intro i
    simp [mutexes]

theorem Placed.zkWatcher (h : Placed directory nextSeq c) (state : ZooState)
    : Placed directory nextSeq (c.zkWatcher state) := by
  unfold Client.zkWatcher
  split
  . exact h.calls_fault c.calls true
  . cases state with
    | connected => exact h.calls_fault _ c.fault
    | connecting => exact h.clean
    | expiredSession => exact h.clean.calls_fault _ c.fault

theorem Placed.complete (h : Placed directory nextSeq c) {completion : Completion}
    {inbox : List Completion} (hinbox : c.inbox = completion :: inbox) {directory' : List Nat}
    (hstep : { c with inbox := inbox }.complete directory' completion = some c')
    : Placed directory nextSeq c' := by
  cases completion with
  | createMutexNodeComplete id leaderNode =>
    cases hstep
    exact h.createMutexNodeComplete hinbox
  | leaderGetChildrenComplete id strings => exact h.leaderGetChildrenComplete hinbox hstep
  | deleteMutexCompleted id =>
    cases hstep
    exact (h.pop hinbox).rbZkMutexDone id
  | previousLeaderWatcher id node =>
    cases hstep
    exact h.previousLeaderWatcher hinbox
  | sessionEvent state =>
    cases hstep
    exact (h.pop hinbox).zkWatcher state

theorem Placed.rbZkMutexUnlock (h : Placed directory nextSeq c)
    (hstep : c.rbZkMutexUnlock id = some c')
    : Placed directory nextSeq c' := by
  cases unlocks_of_rbZkMutexUnlock hstep with
  | deletes _ _ _ => exact h.requested rfl rfl
  | frees _ _ _ => exact h.rbZkMutexDone id

theorem mutexes_rbZkMutexLock (c : Client)
    : c.rbZkMutexLock.mutexes = c.pendingLeaders ++
        { id := c.nextMutex, path := none, iAmLeader := false } :: c.leadersNodesList := by
  simp [mutexes, Client.rbZkMutexLock]

theorem mem_mutexes_rbZkMutexLock {mutex : Mutex} (hmutex : mutex ∈ c.rbZkMutexLock.mutexes)
    : mutex ∈ c.mutexes ∨ mutex = { id := c.nextMutex, path := none, iAmLeader := false } := by
  rw [mutexes_rbZkMutexLock] at hmutex
  simp only [mutexes, List.mem_append, List.mem_cons] at hmutex ⊢
  rcases hmutex with hmutex | hmutex | hmutex
  . exact .inl (.inl hmutex)
  . exact .inr hmutex
  . exact .inl (.inr hmutex)

theorem count_mutexes_rbZkMutexLock (c : Client) (i : Nat)
    : (c.rbZkMutexLock.mutexes.map Mutex.id).count i =
        (c.mutexes.map Mutex.id).count i + if c.nextMutex = i then 1 else 0 := by
  rw [mutexes_rbZkMutexLock]
  simp only [mutexes, List.map_append, List.map_cons, List.count_append, List.count_cons,
    beq_iff_eq]
  omega

theorem count_unnamed_rbZkMutexLock (c : Client) (i : Nat)
    : c.rbZkMutexLock.unnamed.count i = c.unnamed.count i + if c.nextMutex = i then 1 else 0 := by
  simp only [Client.unnamed, Client.rbZkMutexLock, List.map_append, List.count_append,
    List.map_cons, List.map_nil, List.count_cons, List.count_nil, beq_iff_eq]
  omega

theorem mem_unnamed_rbZkMutexLock {i : Nat} (hi : i ∈ c.rbZkMutexLock.unnamed)
    : i ∈ c.unnamed ∨ c.nextMutex = i := by
  have hcount := count_unnamed_rbZkMutexLock c i
  rw [← List.count_pos_iff] at hi ⊢
  split at hcount
  . next heq => exact .inr heq
  . left
    omega

theorem Placed.count_nextMutex (h : Placed directory nextSeq c) {i : Nat} (hi : c.nextMutex = i)
    : (c.mutexes.map Mutex.id).count i = 0 ∧ c.unnamed.count i = 0 ∧ c.asking.count i = 0 := by
  simp only [List.count_eq_zero]
  refine ⟨?_, ?_, ?_⟩
  . exact fun hmem => absurd (h.lt i (.inl hmem)) (by omega)
  . exact fun hmem => absurd (h.lt i (.inr (.inl hmem))) (by omega)
  . exact fun hmem => absurd (h.lt i (.inr (.inr hmem))) (by omega)

theorem Placed.rbZkMutexLock (h : Placed directory nextSeq c)
    : Placed directory nextSeq c.rbZkMutexLock := by
  have hasking : c.rbZkMutexLock.asking = c.asking := rfl
  have hnext : c.rbZkMutexLock.nextMutex = c.nextMutex + 1 := rfl
  refine ⟨?_, ?_, ?_, ?_, ?_, ?_, h.created, ?_, ?_⟩
  . intro i
    have := h.nodup i
    rw [count_mutexes_rbZkMutexLock]
    split
    . next heq =>
      have := h.count_nextMutex heq
      omega
    . omega
  . intro i
    have := h.chain i
    rw [count_unnamed_rbZkMutexLock, hasking]
    split
    . next heq =>
      have := h.count_nextMutex heq
      omega
    . omega
  . intro i hi
    rw [hnext]
    rcases hi with hi | hi | hi
    . rcases List.mem_map.mp hi with ⟨mutex, hmutex, heq⟩
      cases mem_mutexes_rbZkMutexLock hmutex with
      | inl hmutex => exact Nat.lt_succ_of_lt (h.lt i (.inl (heq ▸ List.mem_map_of_mem hmutex)))
      | inr hnew =>
        rw [← heq, hnew]
        exact Nat.lt_succ_self _
    . cases mem_unnamed_rbZkMutexLock hi with
      | inl hi => exact Nat.lt_succ_of_lt (h.lt i (.inr (.inl hi)))
      | inr heq => omega
    . exact Nat.lt_succ_of_lt (h.lt i (.inr (.inr hi)))
  . intro mutex hmutex hwaits
    cases mem_mutexes_rbZkMutexLock hmutex with
    | inl hmutex =>
      cases mem_unnamed_rbZkMutexLock hwaits with
      | inl hwaits => exact h.unnamed mutex hmutex hwaits
      | inr heq =>
        have := h.lt mutex.id (.inl (List.mem_map_of_mem hmutex))
        omega
    | inr hnew =>
      rw [hnew]
      exact ⟨rfl, rfl⟩
  . intro mutex hmutex hleader
    cases mem_mutexes_rbZkMutexLock hmutex with
    | inl hmutex => exact h.leader mutex hmutex hleader
    | inr hnew =>
      rw [hnew] at hleader
      cases hleader
  . intro mutex hmutex seq hseq
    cases mem_mutexes_rbZkMutexLock hmutex with
    | inl hmutex => exact h.path mutex hmutex seq hseq
    | inr hnew =>
      rw [hnew] at hseq
      cases hseq
  . intro i strings hlisted mutex hmutex heq seq hseq
    cases mem_mutexes_rbZkMutexLock hmutex with
    | inl hmutex => exact h.listed i strings hlisted mutex hmutex heq seq hseq
    | inr hnew =>
      rw [hnew] at hseq
      cases hseq
  . intro mutex hmutex hleader
    cases mem_mutexes_rbZkMutexLock hmutex with
    | inl hmutex => exact h.least mutex hmutex hleader
    | inr hnew =>
      rw [hnew] at hleader
      cases hleader

theorem filterMap_asks_acreate (mutexes : List Mutex)
    : (mutexes.map fun mutex => Request.acreate mutex.id).filterMap Request.asks = [] := by
  rw [List.filterMap_map, List.filterMap_eq_nil_iff]
  exact fun _ _ => rfl

theorem Placed.zkWatcherDoPendingLocks (h : Placed directory nextSeq c)
    : Placed directory nextSeq c.zkWatcherDoPendingLocks := by
  unfold Client.zkWatcherDoPendingLocks
  split
  . exact h
  . apply h.keeps
    refine ⟨?_, ?_, rfl, ?_, ?_, fun _ hnode _ => hnode, fun _ _ hmem => .inl hmem,
      fun _ _ hmem => .inl hmem⟩
    . intro mutex hmutex
      simp only [mutexes, List.nil_append, List.mem_append] at hmutex ⊢
      exact hmutex.symm
    . intro i
      simp only [mutexes, List.nil_append, List.map_append, List.count_append]
      omega
    . intro i
      simp only [Client.unnamed, List.filterMap_append, filterMap_creates_acreate, List.map_nil,
        List.nil_append, List.count_append]
      omega
    . intro i
      simp only [asking, List.filterMap_append, filterMap_asks_acreate, List.append_nil]
      exact Nat.le_refl _

theorem Placed.reply (h : Placed directory nextSeq c) {request : Request} {requests : List Request}
    (hrequests : c.requests = request :: requests) {nodes : List Node} (hnodes : c.nodes ⊆ nodes)
    (hkeeps : Keeps directory nextSeq { c with requests := requests, nodes := nodes } c')
    {reply : Completion}
    (hcreates : ∀ i, reply.creates.toList.count i ≤ request.creates.toList.count i)
    (hasks : ∀ i, reply.asks.toList.count i ≤ request.asks.toList.count i)
    (hcreated : ∀ id seq, reply = .createMutexNodeComplete id (some seq) →
      seq < nextSeq ∧ (seq ∈ directory → { seq, mutex := id } ∈ nodes))
    (hlisted : ∀ id strings, reply = .leaderGetChildrenComplete id (some strings) →
      directory ⊆ strings)
    : Placed directory nextSeq { c' with inbox := c'.inbox ++ [reply] } := by
  apply h.keeps
  refine ⟨hkeeps.mutexes, hkeeps.ids, hkeeps.next, ?_, ?_, ?_, ?_, ?_⟩
  . intro i
    have hold := hkeeps.unnamed i
    have := hcreates i
    have hnil : ([] : List Completion).filterMap Completion.creates = [] := rfl
    simp only [Client.unnamed, hrequests, filterMap_cons_eq, List.filterMap_append, hnil,
      List.append_nil, List.count_append] at hold ⊢
    omega
  . intro i
    have hold := hkeeps.asking i
    have := hasks i
    have hnil : ([] : List Completion).filterMap Completion.asks = [] := rfl
    simp only [asking, hrequests, filterMap_cons_eq, List.filterMap_append, hnil,
      List.append_nil, List.count_append] at hold ⊢
    omega
  . exact fun node hnode hmem => hkeeps.nodes node (hnodes hnode) hmem
  . intro id seq hmem
    cases List.mem_append.mp hmem with
    | inl hold => exact hkeeps.created id seq hold
    | inr hnew =>
      rcases hcreated id seq (List.mem_singleton.mp hnew).symm with ⟨hlt, hnode⟩
      exact .inr ⟨hlt, fun hmem => hkeeps.nodes _ (hnode hmem) hmem⟩
  . intro id strings hmem
    cases List.mem_append.mp hmem with
    | inl hold => exact hkeeps.listed id strings hold
    | inr hnew => exact .inr (hlisted id strings (List.mem_singleton.mp hnew).symm)

theorem Placed.forget (h : Placed directory nextSeq c) (lost : List Request)
    : Placed directory nextSeq { c with lost := lost } :=
  h.keeps ⟨List.Subset.refl _, fun _ => Nat.le_refl _, rfl, fun _ => Nat.le_refl _,
    fun _ => Nat.le_refl _, fun _ hnode _ => hnode, fun _ _ hmem => .inl hmem,
    fun _ _ hmem => .inl hmem⟩

theorem filterMap_failed (f : Completion → Option Nat) (g : Request → Option Nat)
    (hf : ∀ request : Request, f request.failed = g request) (requests : List Request)
    : (requests.map Request.failed).filterMap f = requests.filterMap g := by
  rw [List.filterMap_map]
  congr 1
  funext request
  exact hf request

theorem count_late (completions : List Completion) (i : Nat)
    : ((completions.filterMap Completion.failed).filterMap Completion.creates).count i =
          (completions.filterMap Completion.creates).count i
        ∧ ((completions.filterMap Completion.watch).map Watch.mutex).count i
          + ((completions.filterMap Completion.failed).filterMap Completion.asks).count i =
            (completions.filterMap Completion.asks).count i := by
  induction completions with
  | nil => exact ⟨rfl, rfl⟩
  | cons completion completions ih =>
    rcases ih with ⟨hcreates, hasks⟩
    cases completion <;>
      simp only [List.filterMap_cons, Completion.failed, Completion.watch, Completion.creates,
        Completion.asks, List.map_cons, List.count_cons] <;>
      omega

theorem Placed.disconnect (h : Placed directory nextSeq c) {received : Nat}
    (hstep : c.disconnect received = some c')
    : Placed directory nextSeq c' := by
  simp only [Client.disconnect, Option.ite_none_left_eq_some, Option.some.injEq] at hstep
  rcases hstep with ⟨_, hstep⟩
  subst hstep
  have hcreates := filterMap_failed Completion.creates Request.creates Request.creates_failed
    c.requests
  have hasks := filterMap_failed Completion.asks Request.asks Request.asks_failed c.requests
  have hnot : ∀ completion ∈ (c.inbox.drop received).filterMap Completion.failed
      ++ c.requests.map Request.failed,
      (∀ id seq, completion ≠ .createMutexNodeComplete id (some seq)) ∧
        ∀ id strings, completion ≠ .leaderGetChildrenComplete id (some strings) := by
    intro completion hmem
    simp only [List.mem_append, List.mem_filterMap, List.mem_map] at hmem
    rcases hmem with ⟨reply, _, heq⟩ | ⟨request, _, heq⟩
    . cases reply <;> cases heq <;> simp
    . cases request <;> cases heq <;> simp [Request.failed]
  apply h.keeps
  refine ⟨List.Subset.refl _, fun _ => Nat.le_refl _, rfl, ?_, ?_, fun _ hnode _ => hnode, ?_, ?_⟩
  . intro i
    have hlate := (count_late (c.inbox.drop received) i).1
    have hinbox := congrArg (fun l => (l.filterMap Completion.creates).count i)
      (List.take_append_drop received c.inbox)
    simp only [List.filterMap_append, List.count_append] at hinbox
    simp only [Client.unnamed, List.filterMap_append, List.filterMap_cons, Completion.creates,
      hcreates, List.filterMap_nil, List.append_nil, List.count_append]
    omega
  . intro i
    have hlate := (count_late (c.inbox.drop received) i).2
    have hinbox := congrArg (fun l => (l.filterMap Completion.asks).count i)
      (List.take_append_drop received c.inbox)
    simp only [List.filterMap_append, List.count_append] at hinbox
    simp only [asking, List.filterMap_append, List.filterMap_cons, Completion.asks, hasks,
      List.filterMap_nil, List.nil_append, List.map_append, List.count_append]
    omega
  . intro id seq hmem
    cases List.mem_append.mp hmem with
    | inl hold => exact .inl (List.mem_of_mem_take hold)
    | inr hnew =>
      cases List.mem_cons.mp hnew with
      | inl heq => cases heq
      | inr hnew => exact absurd rfl ((hnot _ hnew).1 id seq)
  . intro id strings hmem
    cases List.mem_append.mp hmem with
    | inl hold => exact .inl (List.mem_of_mem_take hold)
    | inr hnew =>
      cases List.mem_cons.mp hnew with
      | inl heq => cases heq
      | inr hnew => exact absurd rfl ((hnot _ hnew).2 id strings)

theorem Placed.sessionEvent (h : Placed directory nextSeq c) (state state' : ZooState)
    : Placed directory nextSeq
        { c with state := state, inbox := c.inbox ++ [.sessionEvent state'] } := by
  apply h.keeps
  refine ⟨List.Subset.refl _, fun _ => Nat.le_refl _, rfl, ?_, ?_, fun _ hnode _ => hnode, ?_, ?_⟩
  . intro i
    simp [Client.unnamed, List.filterMap_cons, Completion.creates]
  . intro i
    simp [asking, List.filterMap_cons, Completion.asks]
  . intro id seq hmem
    exact .inl (by simpa using hmem)
  . intro id strings hmem
    exact .inl (by simpa using hmem)

theorem Placed.reconnect (h : Placed directory nextSeq c) {directory' : List Nat}
    (hstep : c.reconnect directory' = some c')
    : Placed directory nextSeq c' := by
  cases reconnects_of_reconnect hstep with
  | connected _ _ => exact (h.sessionEvent .connected .connected).keeps (Keeps.fire _)
  | expired _ _ => exact h.sessionEvent .expiredSession .expiredSession

theorem Placed.expire (h : Placed directory nextSeq c)
    (hgone : ∀ q ∈ directory, q ∉ c.nodes.map Node.seq)
    : Placed directory nextSeq { c with live := false, lost := [], nodes := [] } := by
  apply h.keeps
  refine ⟨List.Subset.refl _, fun _ => Nat.le_refl _, rfl, fun _ => Nat.le_refl _,
    fun _ => Nat.le_refl _, ?_, fun _ _ hmem => .inl hmem, fun _ _ hmem => .inl hmem⟩
  intro node hnode hmem
  exact absurd (List.mem_map_of_mem hnode) (hgone node.seq hmem)

theorem Placed.resetZkContext (h : Placed directory nextSeq c)
    (hgone : ∀ q ∈ directory, q ∉ c.nodes.map Node.seq)
    : Placed directory nextSeq c.resetZkContext.client := by
  have hcreates := filterMap_failed Completion.creates Request.creates Request.creates_failed
    c.requests
  have hasks := filterMap_failed Completion.asks Request.asks Request.asks_failed c.requests
  apply h.keeps
  refine ⟨List.Subset.refl _, fun _ => Nat.le_refl _, rfl, ?_, ?_, ?_, ?_, ?_⟩
  . intro i
    simp only [Client.unnamed, Client.resetZkContext, List.filterMap_append, hcreates,
      List.filterMap_nil, List.append_nil, List.count_append]
    omega
  . intro i
    simp only [asking, Client.resetZkContext, List.filterMap_append, hasks, List.filterMap_nil,
      List.append_nil, List.nil_append, List.map_nil, List.count_append]
    omega
  . intro node hnode hmem
    exact absurd (List.mem_map_of_mem hnode) (hgone node.seq hmem)
  . intro id seq hmem
    cases List.mem_append.mp hmem with
    | inl hold => exact .inl hold
    | inr hnew =>
      rcases List.mem_map.mp hnew with ⟨request, _, heq⟩
      cases request <;> cases heq
  . intro id strings hmem
    cases List.mem_append.mp hmem with
    | inl hold => exact .inl hold
    | inr hnew =>
      rcases List.mem_map.mp hnew with ⟨request, _, heq⟩
      cases request <;> cases heq

theorem Placed.serve (h : Placed directory nextSeq c) {request : Request} {requests : List Request}
    (hrequests : c.requests = request :: requests) {old : List Nat} {oldSeq : Nat}
    {effect : Effect} {reply : Completion}
    (hhandle : { c with requests := requests }.handle old oldSeq request = (effect, reply))
    (hold : ∀ q ∈ directory, q ∈ old ∨ (effect.created ∧ q = oldSeq))
    (hgone : ∀ q ∈ directory, q ∉ effect.gone) (hnext : effect.created → oldSeq < nextSeq)
    : Placed directory nextSeq { effect.client.delete effect.gone with
        inbox := (effect.client.delete effect.gone).inbox ++ [reply] } := by
  cases request with
  | acreate id =>
    cases hhandle
    apply h.reply hrequests (List.subset_append_left c.nodes _) (Keeps.delete hgone)
    . exact fun i => Nat.le_refl _
    . exact fun i => Nat.le_refl _
    . intro id' seq heq
      cases heq
      exact ⟨hnext rfl, fun _ => List.mem_append_right _ List.mem_cons_self⟩
    . intro id' strings heq
      cases heq
  | agetChildren id =>
    cases hhandle
    apply h.reply hrequests (List.Subset.refl c.nodes) (Keeps.delete hgone)
    . exact fun i => Nat.le_refl _
    . exact fun i => Nat.le_refl _
    . intro id' seq heq
      cases heq
    . intro id' strings heq
      cases heq
      intro q hq
      cases hold q hq with
      | inl hmem => exact hmem
      | inr hcreated => cases hcreated.1
  | adelete id path =>
    cases hhandle
    apply h.reply hrequests (List.Subset.refl c.nodes) (Keeps.delete hgone)
    . exact fun i => Nat.le_refl _
    . exact fun i => Nat.le_refl _
    . intro id' seq heq
      cases heq
    . intro id' strings heq
      cases heq

theorem Placed.refuse (h : Placed directory nextSeq c) {request : Request}
    {requests : List Request} (hrequests : c.requests = request :: requests)
    : Placed directory nextSeq
        { c with requests := requests, inbox := c.inbox ++ [request.failed] } := by
  have hkeeps : Keeps directory nextSeq { c with requests := requests, nodes := c.nodes }
      { c with requests := requests } :=
    ⟨List.Subset.refl _, fun _ => Nat.le_refl _, rfl, fun _ => Nat.le_refl _,
      fun _ => Nat.le_refl _, fun _ hnode _ => hnode, fun _ _ hmem => .inl hmem,
      fun _ _ hmem => .inl hmem⟩
  apply h.reply hrequests (List.Subset.refl c.nodes) hkeeps
  . intro i
    simp
  . intro i
    simp
  . intro id seq heq
    cases request <;> cases heq
  . intro id strings heq
    cases request <;> cases heq

theorem Placed.serveLost (h : Placed directory nextSeq c) (lost : List Request) (old : List Nat)
    (oldSeq : Nat) (request : Request)
    : Placed directory nextSeq ({ c with lost := lost }.handle old oldSeq request).1.client := by
  have hforget := h.forget lost
  cases request with
  | acreate id =>
    apply hforget.keeps
    exact ⟨List.Subset.refl _, fun _ => Nat.le_refl _, rfl, fun _ => Nat.le_refl _,
      fun _ => Nat.le_refl _, fun _ hnode _ => List.mem_append_left _ hnode,
      fun _ _ hmem => .inl hmem, fun _ _ hmem => .inl hmem⟩
  | agetChildren id => exact hforget
  | adelete id path => exact hforget

theorem Placed.act (h : Placed directory nextSeq c) {old : List Nat} {oldSeq : Nat}
    {a : ClientAction} {effect : Effect} (hstep : c.act old oldSeq a = some effect)
    (hold : ∀ q ∈ directory, q ∈ old ∨ (effect.created ∧ q = oldSeq))
    (hgone : ∀ q ∈ directory, q ∉ effect.gone) (hnext : effect.created → oldSeq < nextSeq)
    : Placed directory nextSeq effect.client := by
  cases taken_of_act hstep with
  | rbZkMutexLock _ => exact h.rbZkMutexLock
  | rbZkMutexUnlock _ hunlock => exact h.rbZkMutexUnlock hunlock
  | doPendingLocks _ _ => exact (h.calls_fault _ c.fault).zkWatcherDoPendingLocks
  | resetZkContext _ _ => exact (h.calls_fault _ c.fault).resetZkContext hgone
  | complete _ hinbox hcomplete => exact h.complete hinbox hcomplete
  | serve _ _ hrequests hhandle => exact h.serve hrequests hhandle hold hgone hnext
  | refuse _ _ hrequests _ => exact h.refuse hrequests
  | @serveLost request lost _ => exact h.serveLost lost old oldSeq request
  | dropLost => exact h.forget []
  | disconnect hdisconnect => exact h.disconnect hdisconnect
  | reconnect hreconnect => exact h.reconnect hreconnect
  | expire _ => exact h.expire hgone

theorem placed_start : Placed [] 0 .start := by
  constructor <;> simp [start, mutexes, Client.unnamed, asking]

@[simp]
theorem nodes_rbZkMutexDone (c : Client) (id : Nat) : (c.rbZkMutexDone id).nodes = c.nodes := by
  unfold Client.rbZkMutexDone
  split <;> rfl

theorem nodes_complete {completion : Completion} (hstep : c.complete directory completion = some c')
    : c'.nodes = c.nodes := by
  cases completion with
  | createMutexNodeComplete id leaderNode =>
    cases hstep
    unfold Client.createMutexNodeComplete
    split
    . exact nodes_rbZkMutexDone c id
    . split
      . rfl
      . simp only
        split
        . exact nodes_rbZkMutexDone _ id
        . rfl
  | leaderGetChildrenComplete id strings =>
    simp only [Client.complete, Client.leaderGetChildrenComplete] at hstep
    split at hstep
    . cases hstep
      rfl
    . split at hstep
      . cases hstep
        rfl
      . split at hstep
        . cases hstep
          rfl
        . split at hstep
          . cases hstep
            exact nodes_rbZkMutexDone c id
          . cases hstep
            exact nodes_rbZkMutexDone c id
          . split at hstep
            . cases hstep
            . cases hstep
              split
              . rfl
              . exact nodes_rbZkMutexDone _ id
  | deleteMutexCompleted id =>
    cases hstep
    exact nodes_rbZkMutexDone c id
  | previousLeaderWatcher id node =>
    cases hstep
    unfold Client.previousLeaderWatcher
    split
    . rfl
    . split <;> rfl
  | sessionEvent state =>
    cases hstep
    unfold Client.zkWatcher
    split
    . rfl
    . cases state <;> rfl

theorem nodes_of_handle (c : Client) (request : Request)
    : ∃ id, ∀ node ∈ (c.handle directory nextSeq request).1.client.nodes,
        node ∈ c.nodes ∨ ((c.handle directory nextSeq request).1.created ∧
          node = { seq := nextSeq, mutex := id }) := by
  cases request with
  | acreate id =>
    refine ⟨id, ?_⟩
    intro node hnode
    cases List.mem_append.mp hnode with
    | inl hold => exact .inl hold
    | inr hnew => exact .inr ⟨rfl, List.mem_singleton.mp hnew⟩
  | agetChildren id => exact ⟨id, fun node hnode => .inl hnode⟩
  | adelete id path => exact ⟨id, fun node hnode => .inl hnode⟩

theorem nodes_act {a : ClientAction} {effect : Effect}
    (hstep : c.act directory nextSeq a = some effect)
    : ∃ id, ∀ node ∈ effect.client.nodes,
        node ∈ c.nodes ∨ (effect.created ∧ node = { seq := nextSeq, mutex := id }) := by
  cases taken_of_act hstep with
  | rbZkMutexLock _ => exact ⟨0, fun node hnode => .inl hnode⟩
  | @rbZkMutexUnlock id c' _ hunlock =>
    refine ⟨id, fun node hnode => .inl ?_⟩
    cases unlocks_of_rbZkMutexUnlock hunlock with
    | deletes _ _ _ => exact hnode
    | frees _ _ _ => simpa using hnode
  | doPendingLocks _ _ =>
    refine ⟨0, fun node hnode => .inl ?_⟩
    unfold Client.zkWatcherDoPendingLocks at hnode
    split at hnode <;> exact hnode
  | resetZkContext _ _ => exact ⟨0, fun node hnode => by cases hnode⟩
  | complete _ _ hcomplete =>
    have hnodes := nodes_complete hcomplete
    exact ⟨0, fun node hnode => .inl (hnodes ▸ hnode)⟩
  | @serve request requests effect reply _ _ _ hhandle =>
    rcases @nodes_of_handle directory nextSeq { c with requests := requests } request with ⟨id, hid⟩
    rw [hhandle] at hid
    refine ⟨id, fun node hnode => hid node ?_⟩
    simp only [nodes_delete] at hnode
    exact List.mem_of_mem_filter hnode
  | refuse _ _ _ _ => exact ⟨0, fun node hnode => .inl hnode⟩
  | @serveLost request lost _ => exact nodes_of_handle { c with lost := lost } request
  | dropLost => exact ⟨0, fun node hnode => .inl hnode⟩
  | disconnect hdisconnect =>
    simp only [Client.disconnect, Option.ite_none_left_eq_some, Option.some.injEq] at hdisconnect
    rcases hdisconnect with ⟨_, heq⟩
    subst heq
    exact ⟨0, fun node hnode => .inl hnode⟩
  | reconnect hreconnect =>
    refine ⟨0, fun node hnode => .inl ?_⟩
    cases reconnects_of_reconnect hreconnect with
    | connected _ _ | expired _ _ => exact hnode
  | expire _ => exact ⟨0, fun node hnode => by cases hnode⟩

end

end Client

end Zk

end RbMonitor
