import Mathlib.Data.List.Forall2

/-!
This module contains the relation of two computations that fail together and else yield what is
related.
-/

inductive Simulates {ε ε' α β : Type} (R : α → β → Prop) : Except ε α → Except ε' β → Prop where
  | ok {a : α} {b : β} (h : R a b) : Simulates R (.ok a) (.ok b)
  | error (e : ε) (e' : ε') : Simulates R (.error e) (.error e')

namespace Simulates

variable {ε ε' α β γ δ : Type} {R : α → β → Prop} {S : γ → δ → Prop} {x : Except ε α}
  {y : Except ε' β}

theorem exists_of_ok {a : α} (h : Simulates R (.ok a : Except ε α) y) : ∃ b, y = .ok b ∧ R a b := by
  cases h with
  | ok h => exact ⟨_, rfl, h⟩

theorem exists_of_ok_right {b : β} (h : Simulates R x (.ok b : Except ε' β))
    : ∃ a, x = .ok a ∧ R a b := by
  cases h with
  | ok h => exact ⟨_, rfl, h⟩

theorem bind {f : α → Except ε γ} {g : β → Except ε' δ} (h : Simulates R x y)
    (hfg : ∀ a b, R a b → Simulates S (f a) (g b))
    : Simulates S (x >>= f) (y >>= g) := by
  cases h with
  | ok h => exact hfg _ _ h
  | error e e' => exact .error e e'

end Simulates

theorem mapM_eq_some_iff {α β : Type} {f : α → Option β} {xs : List α} {ys : List β}
    : xs.mapM f = some ys ↔ List.Forall₂ (fun x y => f x = some y) xs ys := by
  induction xs generalizing ys with
  | nil => simp [eq_comm]
  | cons x xs ih =>
    cases ys with
    | nil => simp [Option.bind_eq_some_iff]
    | cons y ys => simp [Option.bind_eq_some_iff, ih]

theorem exists_of_forall₂ {α β : Type} {R : α → β → Prop} {xs : List α} {ys : List β} {y : β}
    (h : List.Forall₂ R xs ys) (hy : y ∈ ys)
    : ∃ x, x ∈ xs ∧ R x y := by
  induction h with
  | nil => cases hy
  | @cons x₁ y₁ _ _ hxy _ ih =>
    cases hy with
    | head => exact ⟨x₁, by simp, hxy⟩
    | tail _ hy =>
      rcases ih hy with ⟨x, hx, hR⟩
      exact ⟨x, by simp [hx], hR⟩

theorem forall₂_imp_of_mem {α β : Type} {R S : α → β → Prop} {xs : List α} {ys : List β}
    (h : List.Forall₂ R xs ys) (himp : ∀ x ∈ xs, ∀ y, R x y → S x y)
    : List.Forall₂ S xs ys := by
  induction h with
  | nil => exact .nil
  | cons hxy _ ih =>
    refine .cons (himp _ List.mem_cons_self _ hxy) (ih ?_)
    intro x hx
    exact himp x (List.mem_cons_of_mem _ hx)

theorem exists_of_forall₂_left {α β : Type} {R : α → β → Prop} {xs : List α} {ys : List β} {x : α}
    (h : List.Forall₂ R xs ys) (hx : x ∈ xs)
    : ∃ y, y ∈ ys ∧ R x y := by
  have hflip : List.Forall₂ (flip R) ys xs := List.Forall₂.flip h
  exact exists_of_forall₂ hflip hx

theorem forall₂_comp {α β γ : Type} {R : α → β → Prop} {S : β → γ → Prop} {xs : List α}
    {ys : List β} {zs : List γ} (h : List.Forall₂ R xs ys) (h' : List.Forall₂ S ys zs)
    : List.Forall₂ (fun x z => ∃ y, R x y ∧ S y z) xs zs := by
  induction h generalizing zs with
  | nil =>
    cases h'
    exact .nil
  | cons hxy _ ih =>
    cases h' with
    | cons hyz h' => exact .cons ⟨_, hxy, hyz⟩ (ih h')

theorem mapM_eq_ok_iff {ε α β : Type} {f : α → Except ε β} {xs : List α} {ys : List β}
    : xs.mapM f = .ok ys ↔ List.Forall₂ (fun x y => f x = .ok y) xs ys := by
  induction xs generalizing ys with
  | nil => simp [Pure.pure, Except.pure, eq_comm]
  | cons x xs ih =>
    rw [List.mapM_cons]
    cases hx : f x with
    | error e =>
      constructor
      . nofun
      . intro h
        cases h with
        | cons hxy _ =>
          rw [hx] at hxy
          cases hxy
    | ok y =>
      cases hxs : xs.mapM f with
      | error e =>
        constructor
        . nofun
        . intro h
          cases h with
          | cons _ htail =>
            rw [ih.mpr htail] at hxs
            cases hxs
      | ok ys' =>
        have htail := ih.mp hxs
        constructor
        . intro h
          cases h
          exact .cons hx htail
        . intro h
          cases h with
          | cons hxy hrest =>
            rw [hx] at hxy
            cases hxy
            have hys := ih.mpr hrest
            rw [hxs] at hys
            cases hys
            rfl

theorem exists_mapM_eq_ok_iff {ε α β : Type} {f : α → Except ε β} {xs : List α}
    : (∃ ys, xs.mapM f = .ok ys) ↔ ∀ x ∈ xs, ∃ y, f x = .ok y := by
  simp only [mapM_eq_ok_iff]
  constructor
  . intro ⟨ys, hys⟩ x hx
    rcases exists_of_forall₂_left hys hx with ⟨y, _, hy⟩
    exact ⟨y, hy⟩
  . intro h
    induction xs with
    | nil => exact ⟨[], .nil⟩
    | cons x xs ih =>
      rcases h x List.mem_cons_self with ⟨y, hy⟩
      rcases ih fun x hx => h x (List.mem_cons_of_mem _ hx) with ⟨ys, hys⟩
      exact ⟨y :: ys, .cons hy hys⟩
