import RbMonitor.Lib.Machine
import Mathlib.Data.Int.CardIntervalMod
import Mathlib.Data.Multiset.AddSub

/-!
This module contains the traces of machines: what the steps of a run emit, and the laws between what
goes into a part of the state and what comes out of it.
-/

namespace Machine

variable {σ α β γ : Type} (m : Machine σ α)

/-- What the steps of a run emit, in their order. -/
def trace (emit : σ → α → List β) (s : σ) : List α → List β
  | [] => []
  | a :: as =>
    match m.step s a with
    | none => []
    | some s' => emit s a ++ trace emit s' as

variable {m} {s s' : σ} {as : List α}

@[simp]
theorem trace_nil (emit : σ → α → List β) (s : σ) : m.trace emit s [] = [] := rfl

theorem trace_cons {emit : σ → α → List β} {a : α} {s₁ : σ} (hstep : m.step s a = some s₁)
    (as : List α)
    : m.trace emit s (a :: as) = emit s a ++ m.trace emit s₁ as := by
  simp [trace, hstep]

theorem trace_filterMap (emit : σ → α → List β) (f : β → Option γ) (s : σ) (as : List α)
    : m.trace (fun s a => (emit s a).filterMap f) s as = (m.trace emit s as).filterMap f := by
  induction as generalizing s with
  | nil => rfl
  | cons a as ih =>
    cases hstep : m.step s a with
    | none => simp [trace, hstep]
    | some s₁ => simp only [trace_cons hstep, ih, List.filterMap_append]

theorem count_trace_append [DecidableEq β] (emit emit' : σ → α → List β) (b : β) (s : σ)
    (as : List α)
    : (m.trace (fun s a => emit s a ++ emit' s a) s as).count b
      = (m.trace emit s as).count b + (m.trace emit' s as).count b := by
  induction as generalizing s with
  | nil => rfl
  | cons a as ih =>
    cases hstep : m.step s a with
    | none => simp [trace, hstep]
    | some s₁ =>
      simp only [trace_cons hstep, List.count_append, ih]
      omega

theorem trace_congr {emit emit' : σ → α → List β}
    (h : ∀ s a s', m.step s a = some s' → emit s a = emit' s a) (s : σ) (as : List α)
    : m.trace emit s as = m.trace emit' s as := by
  induction as generalizing s with
  | nil => rfl
  | cons a as ih =>
    cases hstep : m.step s a with
    | none => simp [trace, hstep]
    | some s₁ => rw [trace_cons hstep, trace_cons hstep, h s a s₁ hstep, ih]

theorem trace_inv (emit : σ → α → List β) (inv : σ → List β → Prop)
    (hinv : ∀ s a s' hist, inv s hist → m.step s a = some s' → inv s' (hist ++ emit s a))
    {hist : List β} (hs : inv s hist) (hrun : m.runFrom s as = some s')
    : inv s' (hist ++ m.trace emit s as) := by
  induction as generalizing s hist with
  | nil =>
    simp only [runFrom_nil, Option.some.injEq] at hrun
    simpa [hrun] using hs
  | cons a as ih =>
    rcases runFrom_cons_eq_some.mp hrun with ⟨s₁, hstep, hrest⟩
    rw [trace_cons hstep, ← List.append_assoc]
    exact ih (hinv s a s₁ hist hs hstep) hrest

theorem trace_inv_of_allSteps (emit : σ → α → List β) (inv : σ → List β → Prop) {good : σ → α → Prop}
    (hinv : ∀ s a s' hist, inv s hist → good s a → m.step s a = some s' →
      inv s' (hist ++ emit s a))
    {hist : List β} (hs : inv s hist) (hgood : m.AllSteps good s as) (hrun : m.runFrom s as = some s')
    : inv s' (hist ++ m.trace emit s as) := by
  induction as generalizing s hist with
  | nil =>
    simp only [runFrom_nil, Option.some.injEq] at hrun
    simpa [hrun] using hs
  | cons a as ih =>
    rcases runFrom_cons_eq_some.mp hrun with ⟨s₁, hstep, hrest⟩
    rw [trace_cons hstep, ← List.append_assoc]
    exact ih (hinv s a s₁ hist hs hgood.1 hstep) (hgood.2 s₁ hstep) hrest

theorem trace_fifo (pending : σ → List β) (put take : σ → α → List β)
    (hstep : ∀ s a s', m.step s a = some s' → pending s ++ put s a = take s a ++ pending s')
    (hrun : m.runFrom s as = some s')
    : pending s ++ m.trace put s as = m.trace take s as ++ pending s' := by
  induction as generalizing s with
  | nil =>
    simp only [runFrom_nil, Option.some.injEq] at hrun
    simp [hrun]
  | cons a as ih =>
    rcases runFrom_cons_eq_some.mp hrun with ⟨s₁, hs₁, hrest⟩
    rw [trace_cons hs₁, trace_cons hs₁, ← List.append_assoc, hstep s a s₁ hs₁, List.append_assoc,
      ih hrest, List.append_assoc]

theorem trace_count [DecidableEq β] (pending : σ → Nat) (put take : σ → α → List β) {b : β}
    (hstep : ∀ s a s', m.step s a = some s' →
      pending s + (put s a).count b = (take s a).count b + pending s')
    (hrun : m.runFrom s as = some s')
    : pending s + (m.trace put s as).count b = (m.trace take s as).count b + pending s' := by
  induction as generalizing s with
  | nil =>
    simp only [runFrom_nil, Option.some.injEq] at hrun
    simp [hrun]
  | cons a as ih =>
    rcases runFrom_cons_eq_some.mp hrun with ⟨s₁, hs₁, hrest⟩
    have hhead := hstep s a s₁ hs₁
    have htail := ih hrest
    rw [trace_cons hs₁, trace_cons hs₁, List.count_append, List.count_append]
    omega

theorem countP_le_rank (inv : σ → Prop) (rank : σ → Nat) (lowers : α → Bool)
    (hinv : ∀ s a s', inv s → m.step s a = some s' →
      inv s' ∧ (lowers a).toNat + rank s' ≤ rank s)
    (hs : inv s) (hrun : m.runFrom s as = some s')
    : inv s' ∧ as.countP lowers + rank s' ≤ rank s := by
  induction as generalizing s with
  | nil =>
    simp only [runFrom_nil, Option.some.injEq] at hrun
    simpa [← hrun] using hs
  | cons a as ih =>
    rcases runFrom_cons_eq_some.mp hrun with ⟨s₁, hstep, hrest⟩
    rcases hinv s a s₁ hs hstep with ⟨hs₁, hle⟩
    rcases ih hs₁ hrest with ⟨hs', htail⟩
    refine ⟨hs', ?_⟩
    rw [List.countP_cons]
    cases hlow : lowers a <;> simp [hlow] at hle ⊢ <;> omega

theorem allSteps_of_inv (inv : σ → Prop) {good : σ → α → Prop}
    (hinv : ∀ s a s', inv s → m.step s a = some s' → inv s')
    (hgood : ∀ s a, inv s → good s a) (hs : inv s) (as : List α)
    : m.AllSteps good s as := by
  induction as generalizing s with
  | nil => trivial
  | cons a as ih => exact ⟨hgood s a hs, fun s' hstep => ih (hinv s a s' hs hstep)⟩

theorem runFrom_append {bs : List α} (hrun : m.runFrom s as = some s')
    : m.runFrom s (as ++ bs) = m.runFrom s' bs := by
  induction as generalizing s with
  | nil =>
    simp only [runFrom_nil, Option.some.injEq] at hrun
    rw [List.nil_append, hrun]
  | cons a as ih =>
    rcases runFrom_cons_eq_some.mp hrun with ⟨s₁, hstep, hrest⟩
    simp only [List.cons_append, runFrom, hstep, Option.bind_some]
    exact ih hrest

theorem runFrom_filterMap {τ : Type} {m' : Machine τ β} (f : σ → τ) (erase : α → Option β)
    (hstep : ∀ s a s', m.step s a = some s' → m'.runFrom (f s) (erase a).toList = some (f s'))
    (hrun : m.runFrom s as = some s')
    : m'.runFrom (f s) (as.filterMap erase) = some (f s') := by
  induction as generalizing s with
  | nil =>
    simp only [runFrom_nil, Option.some.injEq] at hrun
    simp [hrun]
  | cons a as ih =>
    rcases runFrom_cons_eq_some.mp hrun with ⟨s₁, hs₁, hrest⟩
    have hcons : (a :: as).filterMap erase = (erase a).toList ++ as.filterMap erase := by
      cases h : erase a <;> simp [h]
    rw [hcons, runFrom_append (hstep s a s₁ hs₁)]
    exact ih hrest

end Machine

theorem coe_flatMap_set {α β : Type} (f : α → List β) {l : List α} {i : Nat} {a a' : α}
    (hi : l[i]? = some a) {put take : List β} (hstep : f a ++ put = take ++ f a')
    : (↑(l.flatMap f) : Multiset β) + ↑put = ↑take + ↑((l.set i a').flatMap f) := by
  induction l generalizing i with
  | nil => cases hi
  | cons b l ih =>
    cases i with
    | zero =>
      cases hi
      have hcoe := congrArg (fun l : List β => (↑l : Multiset β)) hstep
      simp only [← Multiset.coe_add] at hcoe
      simp only [List.flatMap_cons, List.set_cons_zero, ← Multiset.coe_add]
      rw [add_right_comm, hcoe, add_assoc]
    | succ i =>
      have hrest := ih hi
      simp only [List.flatMap_cons, List.set_cons_succ, ← Multiset.coe_add]
      rw [add_assoc, hrest, add_left_comm]

/-! ### Turns -/

/-- The first turns of `n` that take turns. -/
def turns (n k : Nat) : List Nat :=
  (List.range k).map (· % n)

namespace turns

theorem succ (n k : Nat) : turns n (k + 1) = turns n k ++ [k % n] := by
  simp [turns, List.range_succ]

@[simp]
theorem length (n k : Nat) : (turns n k).length = k := by
  simp [turns]

theorem next {n k : Nat} (hn : 0 < n)
    : (k + 1) % n = if k % n + 1 < n then k % n + 1 else 0 := by
  have hlt := Nat.mod_lt k hn
  rw [← Nat.mod_add_mod]
  split
  . next h => exact Nat.mod_eq_of_lt h
  . next h =>
    have heq : k % n + 1 = n := by omega
    rw [heq, Nat.mod_self]

theorem eq_of_prefix {n k : Nat} {l : List Nat} (h : l <+: turns n k)
    : l = turns n l.length := by
  rw [List.prefix_iff_eq_take] at h
  have hle : l.length ≤ k := by
    have := congrArg List.length h
    simp at this
    omega
  rw [h, turns, ← List.map_take, List.take_range]
  simp [turns, hle]

theorem count_eq {n i : Nat} (hi : i < n) (k : Nat)
    : (turns n k).count i = Nat.count (· ≡ i [MOD n]) k := by
  induction k with
  | zero => rfl
  | succ k ih =>
    have hturn : k ≡ i [MOD n] ↔ k % n = i := by rw [Nat.ModEq, Nat.mod_eq_of_lt hi]
    simp only [succ, List.count_append, ih, Nat.count_succ, List.count_singleton, hturn,
      beq_iff_eq]

theorem count_le {n i j : Nat} (hi : i < n) (hj : j < n) (k : Nat)
    : (turns n k).count i ≤ (turns n k).count j + 1 := by
  have hn : 0 < n := by omega
  rw [count_eq hi, count_eq hj, Nat.count_modEq_card k hn i, Nat.count_modEq_card k hn j]
  split <;> split <;> omega

end turns
