import Mathlib.Data.List.Nodup

/-!
This module contains the insertion ordered hash table of json-c objects: adding under a key that is
there replaces the value where it stands.
-/

abbrev LinkHash (α β : Type) := List (α × β)

namespace LinkHash

variable {α β : Type}

def keys (t : LinkHash α β) : List α :=
  t.map Prod.fst

@[simp]
theorem keys_nil : keys ([] : LinkHash α β) = [] := rfl

@[simp]
theorem keys_cons (e : α × β) (t : LinkHash α β) : keys (e :: t) = e.1 :: keys t := rfl

theorem lookup_eq_none_iff_not_mem_keys [BEq α] [LawfulBEq α] {t : LinkHash α β} {key : α}
    : t.lookup key = none ↔ key ∉ keys t := by
  rw [List.lookup_eq_none_iff]
  unfold keys
  simp only [List.mem_map, not_exists, not_and, bne_iff_ne, ne_eq]
  constructor
  . intro h e he heq
    exact h e he heq.symm
  . intro h e he heq
    exact h e he heq.symm

theorem get_foldl_eq_lookup [BEq α] [LawfulBEq α] {σ γ : Type} {step : σ → α × β → σ} (get : σ → γ)
    {key : α} {update : β → γ → γ} {t : LinkHash α β} (hnodup : (keys t).Nodup)
    (hkey : ∀ s val, get (step s (key, val)) = update val (get s))
    (hother : ∀ s e, e.1 ≠ key → get (step s e) = get s) (s : σ)
    : get (t.foldl step s) = (t.lookup key).elim (get s) (update · (get s)) := by
  induction t generalizing s with
  | nil => rfl
  | cons e t ih =>
    rcases e with ⟨k, val⟩
    rw [keys_cons, List.nodup_cons] at hnodup
    rw [List.foldl_cons, ih hnodup.2, List.lookup_cons]
    by_cases heq : k = key
    . subst heq
      rw [lookup_eq_none_iff_not_mem_keys.mpr hnodup.1, beq_self_eq_true, hkey]
      rfl
    . have hbeq : (key == k) = false := beq_eq_false_iff_ne.mpr fun h => heq h.symm
      rw [hbeq, hother s _ heq]

variable [DecidableEq α]

def insert (t : LinkHash α β) (key : α) (val : β) : LinkHash α β :=
  match t with
  | [] => [(key, val)]
  | (k, v) :: rest => if k = key then (k, val) :: rest else (k, v) :: insert rest key val

theorem keys_insert (t : LinkHash α β) (key : α) (val : β)
    : keys (insert t key val) = if key ∈ keys t then keys t else keys t ++ [key] := by
  induction t with
  | nil => simp [insert]
  | cons e rest ih =>
    unfold insert
    split
    . next heq => simp [← heq]
    . next hne =>
      simp only [keys_cons, ih, List.mem_cons]
      have : key ≠ e.1 := fun h => hne h.symm
      split
      . next hmem => simp [hmem]
      . next hmem => simp [hmem, this]

theorem nodup_keys_insert {t : LinkHash α β} (h : (keys t).Nodup) (key : α) (val : β)
    : (keys (insert t key val)).Nodup := by
  rw [keys_insert]
  split
  . exact h
  . next hmem =>
    rw [List.nodup_append]
    refine ⟨h, List.nodup_singleton key, ?_⟩
    intro a ha b hb
    simp only [List.mem_singleton] at hb
    intro heq
    rw [heq, hb] at ha
    exact hmem ha

/-- Inserting the members of one table into another, in their order. -/
def insertAll (t members : LinkHash α β) : LinkHash α β :=
  members.foldl (fun t e => insert t e.1 e.2) t

theorem nodup_keys_insertAll {t : LinkHash α β} (h : (keys t).Nodup) (members : LinkHash α β)
    : (keys (insertAll t members)).Nodup := by
  unfold insertAll
  induction members generalizing t with
  | nil => exact h
  | cons e rest ih => exact ih (nodup_keys_insert h e.1 e.2)

theorem lookup_insert [BEq α] [LawfulBEq α] (t : LinkHash α β) (k : α) (val : β) (key : α)
    : (insert t k val).lookup key = if key = k then some val else t.lookup key := by
  induction t with
  | nil =>
    rw [insert, List.lookup_cons]
    by_cases heq : key = k
    . simp [heq]
    . simp [heq, beq_eq_false_iff_ne.mpr heq]
  | cons e t ih =>
    rcases e with ⟨k', v⟩
    unfold insert
    by_cases hk : k' = k
    . subst hk
      by_cases heq : key = k'
      . simp [heq]
      . simp [List.lookup_cons, heq, beq_eq_false_iff_ne.mpr heq]
    . rw [if_neg hk, List.lookup_cons, List.lookup_cons, ih]
      by_cases heq : key = k'
      . subst heq
        simp [hk]
      . simp [beq_eq_false_iff_ne.mpr heq]

theorem lookup_insertAll [BEq α] [LawfulBEq α] (t : LinkHash α β) {members : LinkHash α β}
    (hnodup : (keys members).Nodup) (key : α)
    : (insertAll t members).lookup key = (members.lookup key).or (t.lookup key) := by
  induction members generalizing t with
  | nil => rfl
  | cons e members ih =>
    rcases e with ⟨k, val⟩
    rw [keys_cons, List.nodup_cons] at hnodup
    have hrest := ih (insert t k val) hnodup.2
    change (insertAll (insert t k val) members).lookup key = _
    rw [hrest, lookup_insert, List.lookup_cons]
    by_cases heq : key = k
    . rw [heq, if_pos rfl, beq_self_eq_true, lookup_eq_none_iff_not_mem_keys.mpr hnodup.1]
      rfl
    . rw [if_neg heq, beq_eq_false_iff_ne.mpr heq]

end LinkHash
