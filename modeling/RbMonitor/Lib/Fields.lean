import Mathlib.Data.List.Infix
import RbMonitor.Lib.CString

/-!
This module splits a text into the fields that a separator token delimits. A field ends at the first
occurrence of the token, so a token that overlaps itself is matched from the left.
-/

namespace CString

/-- The text before and after the first occurrence of `tok`. -/
def cut (tok s : CStr) : Option (CStr × CStr) :=
  if tok.isPrefixOf s then
    some ([], s.drop tok.length)
  else
    match s with
    | [] => none
    | c :: rest => (cut tok rest).map fun (before, after) => (c :: before, after)

def fields (tok s : CStr) : List CStr :=
  go s.length s
where
  go (fuel : Nat) (s : CStr) : List CStr :=
    match fuel with
    | 0 => [s]
    | fuel + 1 =>
      match cut tok s with
      | none => [s]
      | some (field, rest) => field :: go fuel rest

theorem cut_eq_some {tok s before after : CStr} (h : cut tok s = some (before, after))
    : s = before ++ tok ++ after := by
  induction s generalizing before with
  | nil =>
    rw [cut] at h
    split at h
    . next hp =>
      simp only [List.isPrefixOf_iff_prefix, List.prefix_nil] at hp
      simp_all
    . simp at h
  | cons c rest ih =>
    rw [cut] at h
    split at h
    . next hp =>
      rcases List.isPrefixOf_iff_prefix.mp hp with ⟨t, ht⟩
      simp only [← ht, List.drop_left, Option.some.injEq, Prod.mk.injEq] at h
      simp [← ht, ← h.1, ← h.2]
    . simp only [Option.map_eq_some_iff, Prod.exists, Prod.mk.injEq] at h
      rcases h with ⟨b, a, hcut, hb, ha⟩
      subst ha
      rw [← hb, ih hcut]
      simp

theorem strstr_eq_cut (s tok : CStr)
    : strstr s tok = (cut tok s).map fun (_, after) => tok ++ after := by
  induction s with
  | nil =>
    rw [strstr, cut]
    split
    . next hp =>
      simp only [List.isPrefixOf_iff_prefix, List.prefix_nil] at hp
      simp [hp]
    . simp
  | cons c rest ih =>
    rw [strstr, cut]
    split
    . next hp =>
      rcases List.isPrefixOf_iff_prefix.mp hp with ⟨t, ht⟩
      simp [← ht]
    . rw [ih]
      simp [Function.comp_def]

theorem length_lt_of_cut {tok s before after : CStr} (htok : tok ≠ [])
    (h : cut tok s = some (before, after))
    : after.length < s.length := by
  have := List.length_pos_of_ne_nil htok
  rw [cut_eq_some h]
  simp only [List.length_append]
  omega

theorem fields.go_congr {tok s : CStr} (htok : tok ≠ []) {fuel fuel' : Nat}
    (h : s.length ≤ fuel) (h' : s.length ≤ fuel')
    : go tok fuel s = go tok fuel' s := by
  induction fuel generalizing s fuel' with
  | zero =>
    cases hcut : cut tok s with
    | none =>
      cases fuel' with
      | zero => rfl
      | succ fuel' => simp [go, hcut]
    | some p =>
      have := length_lt_of_cut htok hcut
      omega
  | succ fuel ih =>
    cases hcut : cut tok s with
    | none => cases fuel' <;> simp [go, hcut]
    | some p =>
      have hlt := length_lt_of_cut htok hcut
      cases fuel' with
      | zero => omega
      | succ fuel' =>
        simp only [go, hcut]
        have hfuel : p.2.length ≤ fuel := by omega
        have hfuel' : p.2.length ≤ fuel' := by omega
        rw [ih hfuel hfuel']

theorem fields_of_cut_eq_none {tok s : CStr} (h : cut tok s = none) : fields tok s = [s] := by
  unfold fields
  cases s with
  | nil => rfl
  | cons c rest => simp [fields.go, h]

theorem fields_of_cut_eq_some {tok s before after : CStr} (htok : tok ≠ [])
    (h : cut tok s = some (before, after))
    : fields tok s = before :: fields tok after := by
  have hlt := length_lt_of_cut htok h
  unfold fields
  cases s with
  | nil => simp at hlt
  | cons c rest =>
    simp only [List.length_cons, fields.go, h]
    simp only [List.length_cons] at hlt
    rw [fields.go_congr htok (Nat.le_of_lt_succ hlt) le_rfl]

theorem intercalate_fields {tok : CStr} (htok : tok ≠ []) (s : CStr)
    : tok.intercalate (fields tok s) = s := by
  cases h : cut tok s with
  | none =>
    rw [fields_of_cut_eq_none h]
    simp
  | some p =>
    have hlt := length_lt_of_cut htok h
    have ih := intercalate_fields htok p.2
    rw [fields_of_cut_eq_some htok h]
    have hne : fields tok p.2 ≠ [] := by
      cases h' : cut tok p.2 with
      | none => simp [fields_of_cut_eq_none h']
      | some p' => simp [fields_of_cut_eq_some htok h']
    rw [List.intercalate_cons_of_ne_nil hne, ih]
    exact (cut_eq_some h).symm
termination_by s.length

/-- The suffixes at which the fields start. -/
def starts (tok s : CStr) : List CStr :=
  (fields tok s).tails.dropLast.map tok.intercalate

theorem starts_of_cut_eq_none {tok s : CStr} (h : cut tok s = none) : starts tok s = [s] := by
  unfold starts
  rw [fields_of_cut_eq_none h]
  simp

theorem starts_of_cut_eq_some {tok s before after : CStr} (htok : tok ≠ [])
    (h : cut tok s = some (before, after))
    : starts tok s = s :: starts tok after := by
  have hs := intercalate_fields htok s
  rw [fields_of_cut_eq_some htok h] at hs
  have hne : (fields tok after).tails ≠ [] := by
    cases fields tok after <;> simp
  unfold starts
  rw [fields_of_cut_eq_some htok h, List.tails_cons, List.dropLast_cons_of_ne_nil hne,
    List.map_cons, hs]

@[simp]
theorem length_starts (tok s : CStr) : (starts tok s).length = (fields tok s).length := by
  simp [starts]

theorem getElem?_starts {tok s : CStr} {i : Nat} (hi : i < (fields tok s).length)
    : (starts tok s)[i]? = some (tok.intercalate ((fields tok s).drop i)) := by
  unfold starts
  simp [hi]

theorem getElem?_starts_zero {tok : CStr} (htok : tok ≠ []) (s : CStr)
    : (starts tok s)[0]? = some s := by
  cases hcut : cut tok s with
  | none => rw [starts_of_cut_eq_none hcut, List.getElem?_cons_zero]
  | some p =>
    rw [starts_of_cut_eq_some htok hcut, List.getElem?_cons_zero]

theorem cut_of_starts {tok s : CStr} (h : tok <+: s) : cut tok s = some ([], s.drop tok.length) := by
  unfold cut
  rw [if_pos (List.isPrefixOf_iff_prefix.mpr h)]

theorem cut_cons_of_not_starts {tok : CStr} {c : Char} {rest : CStr} (h : ¬ tok <+: c :: rest)
    : cut tok (c :: rest) = (cut tok rest).map fun (before, after) => (c :: before, after) := by
  rw [cut, if_neg (fun hp => h (List.isPrefixOf_iff_prefix.mp hp))]

theorem cut_append {tok s before after : CStr} (h : cut tok s = some (before, after)) (a : CStr)
    : cut tok (s ++ a) = some (before, after ++ a) := by
  induction s generalizing before with
  | nil =>
    have hs := cut_eq_some h
    simp only [List.nil_eq, List.append_eq_nil_iff] at hs
    rcases hs with ⟨⟨hbefore, htok⟩, hafter⟩
    rw [cut_of_starts (by simp [htok]), hbefore, hafter, htok]
    rfl
  | cons c rest ih =>
    by_cases hp : tok <+: c :: rest
    . rw [cut_of_starts hp] at h
      cases h
      rw [cut_of_starts (hp.trans (List.prefix_append _ a)), List.drop_append_of_le_length hp.length_le]
    . rw [cut_cons_of_not_starts hp, Option.map_eq_some_iff] at h
      rcases h with ⟨p, hcut, hpair⟩
      cases hpair
      have hlen : tok.length ≤ (c :: rest).length := by
        rw [cut_eq_some hcut]
        simp
        omega
      -- a token that is found later in the text is not longer than it
      have hp' : ¬ tok <+: c :: (rest ++ a) := fun hstart =>
        hp (List.prefix_of_prefix_length_le hstart (List.prefix_append (c :: rest) a) hlen)
      rw [List.cons_append, cut_cons_of_not_starts hp', ih hcut]
      rfl

theorem strstr_append {s tok u : CStr} (h : strstr s tok = some u) (a : CStr)
    : strstr (s ++ a) tok = some (u ++ a) := by
  rw [strstr_eq_cut, Option.map_eq_some_iff] at h
  rcases h with ⟨p, hcut, hu⟩
  rw [strstr_eq_cut, cut_append hcut a, ← hu]
  simp

theorem getElem?_starts_append {tok s t : CStr} (htok : tok ≠ []) {i : Nat}
    (h : (starts tok s)[i]? = some t) (a : CStr)
    : (starts tok (s ++ a))[i]? = some (t ++ a) := by
  cases hcut : cut tok s with
  | none =>
    rw [starts_of_cut_eq_none hcut] at h
    cases i with
    | zero =>
      cases h
      exact getElem?_starts_zero htok (s ++ a)
    | succ i => simp at h
  | some p =>
    have hlt := length_lt_of_cut htok hcut
    rw [starts_of_cut_eq_some htok hcut] at h
    rw [starts_of_cut_eq_some htok (cut_append hcut a)]
    cases i with
    | zero =>
      cases h
      rfl
    | succ i => exact getElem?_starts_append htok h a
termination_by s.length

theorem fields_of_getElem?_starts {tok s t : CStr} (htok : tok ≠ []) {i : Nat}
    (h : (starts tok s)[i]? = some t)
    : fields tok t = (fields tok s).drop i := by
  cases hcut : cut tok s with
  | none =>
    rw [starts_of_cut_eq_none hcut] at h
    cases i with
    | zero => simp_all
    | succ i => simp at h
  | some p =>
    have hlt := length_lt_of_cut htok hcut
    rw [starts_of_cut_eq_some htok hcut] at h
    cases i with
    | zero => simp_all
    | succ i =>
      rw [fields_of_cut_eq_some htok hcut]
      exact fields_of_getElem?_starts htok h
termination_by s.length

theorem not_mem_of_cut {c : Char} {s before after : CStr} (h : cut [c] s = some (before, after))
    : c ∉ before := by
  induction s generalizing before with
  | nil =>
    unfold cut at h
    simp at h
  | cons d rest ih =>
    unfold cut at h
    split at h
    . cases h
      simp
    . next hd =>
      rcases Option.map_eq_some_iff.mp h with ⟨p, hp, heq⟩
      cases heq
      have hne : c ≠ d := by
        intro hcd
        simp [hcd] at hd
      simp [hne, ih hp]

theorem suffix_append_of_not_mem {c : Char} {t before after : CStr} (h : c ∉ before)
    : c :: t <:+ before ++ after ↔ c :: t <:+ after := by
  induction before with
  | nil => simp
  | cons d before ih =>
    simp only [List.mem_cons, not_or] at h
    rw [List.cons_append, List.suffix_cons_iff, ih h.2]
    simp [h.1]

theorem mem_starts_singleton {c : Char} {s t : CStr}
    : t ∈ starts [c] s ↔ t = s ∨ c :: t <:+ s := by
  cases hcut : cut [c] s with
  | none =>
    rw [starts_of_cut_eq_none hcut, List.mem_singleton]
    have hnone : strstr s [c] = none := by
      simp [strstr_eq_cut, hcut]
    rw [strstr_eq_none_iff] at hnone
    constructor
    . exact Or.inl
    . intro h
      cases h with
      | inl h => exact h
      | inr h => exact absurd (by simp) (hnone _ h)
  | some p =>
    have hlt := length_lt_of_cut (by simp) hcut
    have ih := mem_starts_singleton (c := c) (s := p.2) (t := t)
    rw [starts_of_cut_eq_some (by simp) hcut, List.mem_cons, ih]
    have hsuffix : c :: t <:+ s ↔ t = p.2 ∨ c :: t <:+ p.2 := by
      rw [cut_eq_some hcut, List.append_assoc, suffix_append_of_not_mem (not_mem_of_cut hcut),
        List.singleton_append, List.suffix_cons_iff, List.cons.injEq]
      simp
    rw [hsuffix]
termination_by s.length

end CString
