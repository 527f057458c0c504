import RbMonitor.Zk.Placed

/-!
This module contains who leads a lock directory: at most one mutex whose node is there, and its node
is the first one.
-/

namespace RbMonitor

namespace Zk

namespace Ensemble

theorem mem_directory {s : Ensemble} {q : Nat}
    : q ∈ s.directory ↔ ∃ c ∈ s.clients, ∃ node ∈ c.nodes, node.seq = q := by
  simp [directory]

/-- The client `i` has the mutex, which leads by the node `seq`. -/
structure Leads (s : Ensemble) (i : Nat) (mutex : Mutex) (seq : Nat) : Prop where
  client : ∃ c, s.clients[i]? = some c ∧ mutex ∈ c.mutexes
  leader : mutex.iAmLeader
  path : mutex.path = some seq
  node : seq ∈ s.directory

structure AtMostOneLeader (s : Ensemble) : Prop where
  unique : ∀ i j mutex mutex' seq seq', s.Leads i mutex seq → s.Leads j mutex' seq' →
    i = j ∧ mutex = mutex'
  least : ∀ i mutex seq, s.Leads i mutex seq → ∀ q ∈ s.directory, seq ≤ q

structure Ordered (s : Ensemble) : Prop where
  placed : ∀ (i : Nat) (c : Client), s.clients[i]? = some c → c.Placed s.directory s.nextSeq
  lt : ∀ q ∈ s.directory, q < s.nextSeq
  -- a number belongs to one node
  owner : ∀ (i j : Nat) (c c' : Client), s.clients[i]? = some c → s.clients[j]? = some c' →
    ∀ node ∈ c.nodes, ∀ node' ∈ c'.nodes, node.seq = node'.seq → i = j ∧ node = node'

variable {s s' : Ensemble}

theorem Ordered.leads_seq (h : s.Ordered) {i : Nat} {mutex : Mutex} {seq : Nat}
    (hleads : s.Leads i mutex seq)
    : ∃ c, s.clients[i]? = some c ∧ mutex ∈ c.mutexes ∧ { seq, mutex := mutex.id } ∈ c.nodes := by
  rcases hleads.client with ⟨c, hc, hmutex⟩
  exact ⟨c, hc, hmutex, ((h.placed i c hc).path mutex hmutex seq hleads.path).2 hleads.node⟩

theorem Ordered.oneLeader (h : s.Ordered) : s.AtMostOneLeader := by
  have hleast : ∀ i mutex seq, s.Leads i mutex seq → ∀ q ∈ s.directory, seq ≤ q := by
    intro i mutex seq hleads q hq
    rcases hleads.client with ⟨c, hc, hmutex⟩
    exact (h.placed i c hc).least mutex hmutex hleads.leader seq hleads.path q hq
  refine ⟨?_, hleast⟩
  intro i j mutex mutex' seq seq' hleads hleads'
  have hseq : seq = seq' :=
    Nat.le_antisymm (hleast i mutex seq hleads seq' hleads'.node)
      (hleast j mutex' seq' hleads' seq hleads.node)
  rcases h.leads_seq hleads with ⟨c, hc, hmutex, hnode⟩
  rcases h.leads_seq hleads' with ⟨c', hc', hmutex', hnode'⟩
  rcases h.owner i j c c' hc hc' _ hnode _ hnode' hseq with ⟨hij, hsame⟩
  subst hij
  rw [hc] at hc'
  cases hc'
  have hid : mutex.id = mutex'.id := congrArg Node.mutex hsame
  exact ⟨rfl, (h.placed i c hc).eq_of_mem_mutexes hmutex hmutex' hid⟩

end Ensemble

section

variable {clients : Nat} {s s' : Ensemble} {a : Action}

theorem lockMachine_step (hstep : (lockMachine clients).step s a = some s')
    : ∃ c effect, s.clients[a.client]? = some c ∧
        c.act s.directory s.nextSeq a.action = some effect ∧
        s'.nextSeq = (if effect.created then s.nextSeq + 1 else s.nextSeq) ∧
        ∀ i, s'.clients[i]? =
          (if i = a.client then some effect.client else s.clients[i]?).map
            (Client.delete effect.gone) := by
  simp only [lockMachine, Option.bind_eq_bind, Option.bind_eq_some_iff, Option.pure_def,
    Option.some.injEq] at hstep
  rcases hstep with ⟨c, hc, effect, heffect, hs'⟩
  refine ⟨c, effect, hc, heffect, ?_, ?_⟩
  . rw [← hs']
  . intro i
    rw [← hs', List.getElem?_map, List.getElem?_set]
    rcases List.getElem?_eq_some_iff.mp hc with ⟨hlt, -⟩
    by_cases heq : a.client = i
    . simp [← heq, hlt]
    . simp [heq, Ne.symm heq]

theorem ordered_step (h : s.Ordered) (hstep : (lockMachine clients).step s a = some s')
    : s'.Ordered := by
  rcases lockMachine_step hstep with ⟨c, effect, hc, heffect, hnext, hclients⟩
  rcases Client.nodes_act heffect with ⟨id, hid⟩
  -- a node that is there was there, or it is the new one
  have hnodes : ∀ (i : Nat) (c' : Client), s'.clients[i]? = some c' → ∀ node ∈ c'.nodes,
      node.seq ∉ effect.gone ∧
        ((∃ c, s.clients[i]? = some c ∧ node ∈ c.nodes) ∨
          (effect.created ∧ i = a.client ∧ node = { seq := s.nextSeq, mutex := id })) := by
    intro i c' hc' node hnode
    rw [hclients] at hc'
    rcases Option.map_eq_some_iff.mp hc' with ⟨c₁, hc₁, heq⟩
    rw [← heq, Client.nodes_delete, List.mem_filter] at hnode
    refine ⟨by simpa using hnode.2, ?_⟩
    split at hc₁
    . next hi =>
      cases hc₁
      cases hid node hnode.1 with
      | inl hold => exact .inl ⟨c, hi ▸ hc, hold⟩
      | inr hnew => exact .inr ⟨hnew.1, hi, hnew.2⟩
    . exact .inl ⟨c₁, hc₁, hnode.1⟩
  have hdirectory : ∀ q ∈ s'.directory,
      (q ∈ s.directory ∨ (effect.created ∧ q = s.nextSeq)) ∧ q ∉ effect.gone := by
    intro q hq
    rcases Ensemble.mem_directory.mp hq with ⟨c', hc', node, hnode, heq⟩
    rcases List.getElem?_of_mem hc' with ⟨i, hi⟩
    rcases hnodes i c' hi node hnode with ⟨hgone, hold | hnew⟩
    . rcases hold with ⟨c₁, hc₁, hnode⟩
      refine ⟨.inl ?_, heq ▸ hgone⟩
      exact Ensemble.mem_directory.mpr ⟨c₁, List.mem_of_getElem? hc₁, node, hnode, heq⟩
    . refine ⟨.inr ⟨hnew.1, ?_⟩, heq ▸ hgone⟩
      rw [← heq, hnew.2.2]
  have hle : s.nextSeq ≤ s'.nextSeq := by
    rw [hnext]
    split <;> omega
  have hcreated : effect.created → s.nextSeq < s'.nextSeq := by
    intro hcreated
    rw [hnext, if_pos hcreated]
    exact Nat.lt_succ_self _
  have hframe : ∀ (i : Nat) (c : Client), s.clients[i]? = some c →
      c.Placed s'.directory s'.nextSeq := by
    intro i c hc
    apply (h.placed i c hc).frame _ hle
    intro q hq
    cases (hdirectory q hq).1 with
    | inl hold => exact .inl hold
    | inr hnew => exact .inr (Nat.le_of_eq hnew.2.symm)
  refine ⟨?_, ?_, ?_⟩
  . intro i c' hc'
    rw [hclients] at hc'
    rcases Option.map_eq_some_iff.mp hc' with ⟨c₁, hc₁, heq⟩
    rw [← heq]
    have hplaced : c₁.Placed s'.directory s'.nextSeq := by
      split at hc₁
      . next hi =>
        cases hc₁
        apply (hframe a.client c hc).act heffect
        . exact fun q hq => (hdirectory q hq).1
        . exact fun q hq => (hdirectory q hq).2
        . exact hcreated
      . exact hframe i c₁ hc₁
    apply hplaced.keeps
    exact Client.Keeps.delete fun q hq => (hdirectory q hq).2
  . intro q hq
    cases (hdirectory q hq).1 with
    | inl hold => exact Nat.lt_of_lt_of_le (h.lt q hold) hle
    | inr hnew => exact hnew.2 ▸ hcreated hnew.1
  . have hfresh : ∀ (i : Nat) (c : Client), s.clients[i]? = some c → ∀ node ∈ c.nodes,
        node.seq < s.nextSeq := by
      intro i c hc node hnode
      apply h.lt
      exact Ensemble.mem_directory.mpr ⟨c, List.mem_of_getElem? hc, node, hnode, rfl⟩
    intro i j ci cj hi hj node hnode node' hnode' heq
    rcases (hnodes i ci hi node hnode).2 with ⟨c₁, hc₁, hold⟩ | ⟨_, hi, hnew⟩
    . rcases (hnodes j cj hj node' hnode').2 with ⟨c₂, hc₂, hold'⟩ | ⟨_, hj, hnew'⟩
      . exact h.owner i j c₁ c₂ hc₁ hc₂ node hold node' hold' heq
      . have := hfresh i c₁ hc₁ node hold
        rw [heq, hnew'] at this
        exact absurd this (Nat.lt_irrefl _)
    . rcases (hnodes j cj hj node' hnode').2 with ⟨c₂, hc₂, hold'⟩ | ⟨_, hj, hnew'⟩
      . have := hfresh j c₂ hc₂ node' hold'
        rw [← heq, hnew] at this
        exact absurd this (Nat.lt_irrefl _)
      . exact ⟨hi.trans hj.symm, hnew.trans hnew'.symm⟩

end

theorem ordered_init (clients : Nat) : (lockMachine clients).init.Ordered := by
  have hstart : ∀ (i : Nat) (c : Client),
      (List.replicate clients Client.start)[i]? = some c → c = .start := by
    intro i c hc
    exact List.eq_of_mem_replicate (List.mem_of_getElem? hc)
  have hdirectory : (lockMachine clients).init.directory = [] := by
    simp [lockMachine, Ensemble.directory, Client.start]
  refine ⟨?_, ?_, ?_⟩
  . intro i c hc
    rw [hstart i c hc, hdirectory]
    exact Client.placed_start
  . simp [hdirectory]
  . intro i j c c' hc _ node hnode
    rw [hstart i c hc] at hnode
    cases hnode

end Zk

end RbMonitor
