import Mathlib.Data.List.Forall2
import Mathlib.Data.List.Induction

/-!
This module contains loops whose body updates a state and leaves an output, or fails.
-/

/-- The outputs of the steps for `is`, in order, and the last state. -/
def runLog {σ ι ω ε : Type} (step : σ → ι → Except ε (σ × ω)) (s : σ)
    : List ι → Except ε (σ × List ω)
  | [] => .ok (s, [])
  | i :: is =>
    match step s i with
    | .error e => .error e
    | .ok (s, o) =>
      match runLog step s is with
      | .error e => .error e
      | .ok (s, os) => .ok (s, o :: os)

section

variable {σ τ ι κ ω ω' ε : Type}
variable {step : σ → ι → Except ε (σ × ω)}

@[simp]
theorem runLog_nil (s : σ) : runLog step s [] = .ok (s, []) := rfl

theorem runLog_cons (s : σ) (i : ι) (is : List ι)
    : runLog step s (i :: is)
        =
      match step s i with
      | .error e => .error e
      | .ok (s, o) =>
        match runLog step s is with
        | .error e => .error e
        | .ok (s, os) => .ok (s, o :: os) := rfl

theorem runLog_cons_eq_ok {s s' : σ} {i : ι} {is : List ι} {os : List ω}
    : runLog step s (i :: is) = .ok (s', os)
        ↔
      ∃ s₁ o os', step s i = .ok (s₁, o) ∧ runLog step s₁ is = .ok (s', os') ∧ os = o :: os' := by
  rw [runLog_cons]
  constructor
  . intro h
    split at h
    . cases h
    . next s₁ o hi =>
      split at h
      . cases h
      . next s₂ os' his =>
        simp only [Except.ok.injEq, Prod.mk.injEq] at h
        exact ⟨s₁, o, os', hi, h.1 ▸ his, h.2.symm⟩
  . intro hex
    rcases hex with ⟨s₁, o, os', hi, his, rfl⟩
    simp [hi, his]

theorem runLog_append_eq_ok {s s' : σ} {is js : List ι} {os : List ω}
    : runLog step s (is ++ js) = .ok (s', os)
        ↔
      ∃ s₁ os₁ os₂, runLog step s is = .ok (s₁, os₁) ∧ runLog step s₁ js = .ok (s', os₂)
        ∧ os = os₁ ++ os₂ := by
  induction is generalizing s os with
  | nil =>
    simp only [List.nil_append, runLog_nil, Except.ok.injEq, Prod.mk.injEq]
    constructor
    . intro h
      exact ⟨s, [], os, ⟨rfl, rfl⟩, h, rfl⟩
    . intro hex
      rcases hex with ⟨_, _, os₂, ⟨rfl, rfl⟩, h, rfl⟩
      exact h
  | cons i is ih =>
    simp only [List.cons_append, runLog_cons_eq_ok, ih]
    constructor
    . intro hex
      rcases hex with ⟨s₁, o, _, hstep, ⟨s₂, os₁, os₂, h₁, h₂, rfl⟩, rfl⟩
      exact ⟨s₂, o :: os₁, os₂, ⟨s₁, o, os₁, hstep, h₁, rfl⟩, h₂, rfl⟩
    . intro hex
      rcases hex with ⟨s₂, _, os₂, ⟨s₁, o, os₁, hstep, h₁, rfl⟩, h₂, rfl⟩
      exact ⟨s₁, o, os₁ ++ os₂, hstep, ⟨s₂, os₁, os₂, h₁, h₂, rfl⟩, rfl⟩

theorem length_runLog {s s' : σ} {is : List ι} {os : List ω} (h : runLog step s is = .ok (s', os))
    : os.length = is.length := by
  induction is generalizing s os with
  | nil =>
    simp only [runLog_nil, Except.ok.injEq, Prod.mk.injEq] at h
    simp [← h.2]
  | cons i is ih =>
    rcases runLog_cons_eq_ok.mp h with ⟨_, _, _, _, h', rfl⟩
    simp [ih h']

/-- Whether a run ends, with a state and outputs that pass a test. -/
def endsWith (p : σ → List ω → Bool) : Except ε (σ × List ω) → Bool
  | .ok (s, os) => p s os
  | .error _ => false

theorem exists_of_endsWith {p : σ → List ω → Bool} {r : Except ε (σ × List ω)}
    (h : endsWith p r)
    : ∃ s os, r = .ok (s, os) ∧ p s os := by
  match r with
  | .ok (s, os) => exact ⟨s, os, rfl, h⟩
  | .error _ => cases h

theorem exists_step_of_runLog {s s' : σ} {is : List ι} {os : List ω}
    (h : runLog step s is = .ok (s', os)) {i : ι} (hi : i ∈ is)
    : ∃ s₁ s₂ o, step s₁ i = .ok (s₂, o) := by
  rcases List.append_of_mem hi with ⟨before, after, rfl⟩
  rcases runLog_append_eq_ok.mp h with ⟨s₁, _, _, _, h', _⟩
  rcases runLog_cons_eq_ok.mp h' with ⟨s₂, o, _, hstep, _, _⟩
  exact ⟨s₁, s₂, o, hstep⟩

theorem runLog_invariant (Inv : σ → Prop)
    (hstep : ∀ s i s' o, Inv s → step s i = .ok (s', o) → Inv s')
    {s s' : σ} {is : List ι} {os : List ω} (h : runLog step s is = .ok (s', os)) (hs : Inv s)
    : Inv s' := by
  induction is generalizing s os with
  | nil =>
    simp only [runLog_nil, Except.ok.injEq, Prod.mk.injEq] at h
    exact h.1 ▸ hs
  | cons i is ih =>
    rcases runLog_cons_eq_ok.mp h with ⟨s₁, o, _, hi, h', _⟩
    exact ih h' (hstep s i s₁ o hs hi)

theorem runLog_forall₂ (Inv : σ → Prop) (Q : ι → ω → Prop)
    (hstep : ∀ s i s' o, Inv s → step s i = .ok (s', o) → Inv s' ∧ Q i o)
    {s s' : σ} {is : List ι} {os : List ω} (h : runLog step s is = .ok (s', os)) (hs : Inv s)
    : Inv s' ∧ List.Forall₂ Q is os := by
  induction is generalizing s os with
  | nil =>
    simp only [runLog_nil, Except.ok.injEq, Prod.mk.injEq] at h
    rcases h with ⟨rfl, rfl⟩
    exact ⟨hs, List.Forall₂.nil⟩
  | cons i is ih =>
    rcases runLog_cons_eq_ok.mp h with ⟨s₁, o, os', h₁, hrest, rfl⟩
    have hfirst := hstep _ _ _ _ hs h₁
    have hlast := ih hrest hfirst.1
    exact ⟨hlast.1, List.Forall₂.cons hfirst.2 hlast.2⟩

theorem exists_runLog_iff {s : σ} {is : List ι}
    : (∃ r, runLog step s is = .ok r)
        ↔
      ∀ before i after s₁ os, is = before ++ i :: after → runLog step s before = .ok (s₁, os) →
        ∃ r, step s₁ i = .ok r := by
  constructor
  . intro hex before i after s₁ os his hbefore
    rcases hex with ⟨⟨s', os'⟩, h⟩
    rw [his] at h
    rcases runLog_append_eq_ok.mp h with ⟨s₂, _, _, hbefore', hrest, _⟩
    rw [hbefore, Except.ok.injEq, Prod.mk.injEq] at hbefore'
    rcases hbefore' with ⟨rfl, _⟩
    rcases runLog_cons_eq_ok.mp hrest with ⟨s₃, o, _, hstep, _, _⟩
    exact ⟨(s₃, o), hstep⟩
  . intro h
    induction is using List.reverseRecOn with
    | nil => exact ⟨_, runLog_nil s⟩
    | append_singleton is i ih =>
      have hprefix : ∃ r, runLog step s is = .ok r := by
        apply ih
        intro before j after s₁ os his hbefore
        apply h before j (after ++ [i]) s₁ os _ hbefore
        rw [his, List.append_assoc, List.cons_append]
      rcases hprefix with ⟨⟨s₁, os⟩, hprefix⟩
      rcases h is i [] s₁ os rfl hprefix with ⟨⟨s₂, o⟩, hstep⟩
      exact ⟨(s₂, os ++ [o]), runLog_append_eq_ok.mpr
        ⟨s₁, os, [o], hprefix, runLog_cons_eq_ok.mpr ⟨s₂, o, [], hstep, rfl, rfl⟩, rfl⟩⟩

theorem runLog_total_or (Inv : σ → Prop) (E : ε → Prop) {is : List ι}
    (hstep : ∀ s i, i ∈ is → Inv s →
      (∃ s' o, step s i = .ok (s', o) ∧ Inv s') ∨ ∃ e, E e ∧ step s i = .error e)
    {s : σ} (hs : Inv s)
    : (∃ s' os, runLog step s is = .ok (s', os) ∧ Inv s')
        ∨ ∃ e, E e ∧ runLog step s is = .error e := by
  induction is generalizing s with
  | nil => exact .inl ⟨s, [], rfl, hs⟩
  | cons i is ih =>
    cases hstep s i (by simp) hs with
    | inl hok =>
      rcases hok with ⟨s₁, o, hi, hs₁⟩
      cases ih (fun s j hj => hstep s j (by simp [hj])) hs₁ with
      | inl hrest =>
        rcases hrest with ⟨s₂, os, his, hs₂⟩
        exact .inl ⟨s₂, o :: os, runLog_cons_eq_ok.mpr ⟨s₁, o, os, hi, his, rfl⟩, hs₂⟩
      | inr hrest =>
        rcases hrest with ⟨e, he, hrest⟩
        exact .inr ⟨e, he, by simp [runLog_cons, hi, hrest]⟩
    | inr herror =>
      rcases herror with ⟨e, he, hi⟩
      exact .inr ⟨e, he, by simp [runLog_cons, hi]⟩

theorem runLog_map {step' : σ → ι → Except ε (σ × ω')} (Inv : σ → Prop) (f : ι → ω → ω')
    {is : List ι}
    (hmap : ∀ s i, i ∈ is → Inv s → step' s i = (step s i).map fun r => (r.1, f i r.2))
    (hinv : ∀ s i s' o, Inv s → step s i = .ok (s', o) → Inv s') {s : σ} (hs : Inv s)
    : runLog step' s is = (runLog step s is).map fun r => (r.1, List.zipWith f is r.2) := by
  induction is generalizing s with
  | nil => rfl
  | cons i is ih =>
    rw [runLog_cons, runLog_cons, hmap s i (by simp) hs]
    cases hi : step s i with
    | error e => rfl
    | ok r =>
      simp only [Except.map]
      rw [ih (fun s j hj => hmap s j (by simp [hj])) (hinv s i r.1 r.2 hs hi)]
      cases runLog step r.1 is <;> rfl

theorem runLog_hom {step' : τ → ι → Except ε (τ × ω)} (f : σ → τ)
    (hstep : ∀ s i, step' (f s) i = (step s i).map fun r => (f r.1, r.2)) (s : σ) (is : List ι)
    : runLog step' (f s) is = (runLog step s is).map fun r => (f r.1, r.2) := by
  induction is generalizing s with
  | nil => rfl
  | cons i is ih =>
    rw [runLog_cons, runLog_cons, hstep]
    cases step s i with
    | error e => rfl
    | ok r =>
      simp only [Except.map]
      rw [ih]
      cases runLog step r.1 is <;> rfl

theorem runLog_rel {step' : τ → κ → Except ε (τ × ω')} (R : σ → τ → Prop)
    (Q : ι → ω → ω' → Prop) {P : ι → κ → Prop}
    (hstep : ∀ s t i j s' t' o o', R s t → P i j → step s i = .ok (s', o) →
      step' t j = .ok (t', o') → R s' t' ∧ Q i o o')
    {s s' : σ} {t t' : τ} {is : List ι} {js : List κ} {os : List ω} {os' : List ω'} (hR : R s t)
    (hP : List.Forall₂ P is js) (h : runLog step s is = .ok (s', os))
    (h' : runLog step' t js = .ok (t', os'))
    : R s' t' ∧ List.Forall₂ (fun p o' => Q p.1 p.2 o') (is.zip os) os' := by
  induction hP generalizing s t os os' with
  | nil =>
    simp only [runLog_nil, Except.ok.injEq, Prod.mk.injEq] at h h'
    rcases h with ⟨rfl, rfl⟩
    rcases h' with ⟨rfl, rfl⟩
    exact ⟨hR, by simp⟩
  | cons hij _ ih =>
    rcases runLog_cons_eq_ok.mp h with ⟨s₁, o, os₁, hi, his, rfl⟩
    rcases runLog_cons_eq_ok.mp h' with ⟨t₁, o', os₁', hj, hjs, rfl⟩
    rcases hstep _ _ _ _ _ _ _ _ hR hij hi hj with ⟨hR₁, hQ⟩
    rcases ih hR₁ his hjs with ⟨hR', hQs⟩
    exact ⟨hR', .cons hQ hQs⟩

theorem forall₂_snd_of_zip {Q : ω → ω' → Prop} {is : List ι} {os : List ω} {os' : List ω'}
    (hlen : os.length = is.length) (h : List.Forall₂ (fun (p : ι × ω) o' => Q p.2 o') (is.zip os) os')
    : List.Forall₂ Q os os' := by
  have hsnd : (is.zip os).map Prod.snd = os := List.map_snd_zip (by omega)
  rw [← hsnd]
  exact List.forall₂_map_left_iff.mpr h

end
