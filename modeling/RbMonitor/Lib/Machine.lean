/-!
This module contains machines that take one step after another: runs, what holds in all of their
states, and conditions on their steps.
-/

structure Machine (σ α : Type) where
  init : σ
  step : σ → α → Option σ

namespace Machine

variable {σ α : Type} (m : Machine σ α)

def runFrom (s : σ) : List α → Option σ
  | [] => some s
  | a :: as => (m.step s a).bind fun s' => runFrom s' as

def run (as : List α) : Option σ :=
  m.runFrom m.init as

/-- Every step is taken in a state in which it meets the condition. -/
def AllSteps (good : σ → α → Prop) (s : σ) : List α → Prop
  | [] => True
  | a :: as => good s a ∧ ∀ s', m.step s a = some s' → AllSteps good s' as

/-- Every state on the way holds `p`. -/
def Always (p : σ → Prop) (s : σ) : List α → Prop
  | [] => p s
  | a :: as => p s ∧ ∀ s', m.step s a = some s' → Always p s' as

variable {m}

@[simp]
theorem runFrom_nil (s : σ) : m.runFrom s [] = some s := rfl

theorem runFrom_cons_eq_some {s s' : σ} {a : α} {as : List α}
    : m.runFrom s (a :: as) = some s' ↔ ∃ s₁, m.step s a = some s₁ ∧ m.runFrom s₁ as = some s' := by
  simp [runFrom, Option.bind_eq_some_iff]

instance decidableAllSteps (good : σ → α → Prop) [∀ s a, Decidable (good s a)]
    : ∀ (s : σ) (as : List α), Decidable (m.AllSteps good s as)
  | _, [] => .isTrue trivial
  | s, a :: as =>
    match hstep : m.step s a with
    | none => decidable_of_iff (good s a) (by simp [AllSteps, hstep])
    | some s' =>
      have := decidableAllSteps good s' as
      decidable_of_iff (good s a ∧ m.AllSteps good s' as) (by simp [AllSteps, hstep])

theorem Always.head {p : σ → Prop} {s : σ} {as : List α} (h : m.Always p s as) : p s := by
  cases as with
  | nil => exact h
  | cons a as => exact h.1

theorem Always.last {p : σ → Prop} {s s' : σ} {as : List α} (h : m.Always p s as)
    (hrun : m.runFrom s as = some s')
    : p s' := by
  induction as generalizing s with
  | nil =>
    simp only [runFrom_nil, Option.some.injEq] at hrun
    exact hrun ▸ h
  | cons a as ih =>
    rcases runFrom_cons_eq_some.mp hrun with ⟨s₁, hstep, hrest⟩
    exact ih (h.2 s₁ hstep) hrest

theorem Always.imp {p q : σ → Prop} (hpq : ∀ s, p s → q s) {s : σ} {as : List α}
    (h : m.Always p s as)
    : m.Always q s as := by
  induction as generalizing s with
  | nil => exact hpq s h
  | cons a as ih => exact ⟨hpq s h.1, fun s' hstep => ih (h.2 s' hstep)⟩

theorem always_of_allSteps {inv : σ → Prop} {good : σ → α → Prop}
    (hinv : ∀ s a s', inv s → good s a → m.step s a = some s' → inv s')
    {s : σ} {as : List α} (hs : inv s) (hgood : m.AllSteps good s as)
    : m.Always inv s as := by
  induction as generalizing s with
  | nil => exact hs
  | cons a as ih =>
    refine ⟨hs, ?_⟩
    intro s' hstep
    apply ih
    . exact hinv s a s' hs hgood.1 hstep
    . exact hgood.2 s' hstep

theorem always_of_inv {inv : σ → Prop} (hinv : ∀ s a s', inv s → m.step s a = some s' → inv s')
    {s : σ} (as : List α) (hs : inv s)
    : m.Always inv s as := by
  induction as generalizing s with
  | nil => exact hs
  | cons a as ih =>
    refine ⟨hs, ?_⟩
    intro s' hstep
    exact ih (hinv s a s' hs hstep)

theorem always_iff_allSteps {inv p : σ → Prop} {good : σ → α → Prop} (hp : ∀ s, inv s → p s)
    (hinv : ∀ s a s', inv s → good s a → m.step s a = some s' → inv s')
    (hbad : ∀ s a, inv s → ¬ good s a → ∃ s', m.step s a = some s' ∧ ¬ p s')
    {s : σ} {as : List α} (hs : inv s)
    : m.Always p s as ↔ m.AllSteps good s as := by
  constructor
  . intro h
    induction as generalizing s with
    | nil => trivial
    | cons a as ih =>
      have hgood : good s a := by
        apply Classical.byContradiction
        intro hnot
        rcases hbad s a hs hnot with ⟨s', hstep, hleft⟩
        exact hleft (h.2 s' hstep).head
      refine ⟨hgood, ?_⟩
      intro s' hstep
      apply ih
      . exact hinv s a s' hs hgood hstep
      . exact h.2 s' hstep
  . intro h
    apply Always.imp hp
    exact always_of_allSteps hinv hs h

end Machine
