import Mathlib.Data.Option.Basic
import RbMonitor.Lib.Strtod

/-!
This module contains how far `strtod` reads. A number that ends within the first part of a text is
the number of that part, whatever follows.
-/

namespace CString

theorem span_append {p : Char → Bool} {t a : CStr}
    (h : a.length ≤ ((t ++ a).dropWhile p).length)
    : (t ++ a).takeWhile p = t.takeWhile p ∧ (t ++ a).dropWhile p = t.dropWhile p ++ a := by
  induction t with
  | nil =>
    have hsplit := congrArg List.length (List.takeWhile_append_dropWhile (p := p) (l := a))
    simp only [List.nil_append, List.length_append] at h hsplit
    have hnil : a.takeWhile p = [] := List.eq_nil_of_length_eq_zero (by omega)
    have hdrop := List.takeWhile_append_dropWhile (p := p) (l := a)
    rw [hnil, List.nil_append] at hdrop
    simp [hnil, hdrop]
  | cons c t ih =>
    by_cases hc : p c
    . simp only [List.cons_append, List.dropWhile_cons, hc, ↓reduceIte] at h
      simp [hc, ih h]
    . simp [hc]

theorem takeWhile_append_ne_nil {p : Char → Bool} {t : CStr} (a : CStr) (h : t.takeWhile p ≠ [])
    : (t ++ a).takeWhile p ≠ [] := by
  cases t with
  | nil => simp at h
  | cons c t =>
    simp only [List.cons_append, List.takeWhile_cons] at h ⊢
    split at h
    . next hc => simp [hc]
    . simp at h

theorem length_dropWhile_lt {p : Char → Bool} {s : CStr} (h : s.takeWhile p ≠ [])
    : (s.dropWhile p).length < s.length := by
  have hsplit := congrArg List.length (List.takeWhile_append_dropWhile (p := p) (l := s))
  have hpos := List.length_pos_of_ne_nil h
  rw [List.length_append] at hsplit
  omega

theorem length_dropWhile_le (p : Char → Bool) (s : CStr)
    : (s.dropWhile p).length ≤ s.length := by
  exact (List.dropWhile_suffix p).length_le

theorem length_of_stripWord {word s rest : CStr} (h : stripWord word s = some rest)
    : s.length = word.length + rest.length := by
  induction word generalizing s with
  | nil =>
    simp only [stripWord, Option.some.injEq] at h
    simp [h]
  | cons w word ih =>
    cases s with
    | nil => simp [stripWord] at h
    | cons c s =>
      simp only [stripWord] at h
      split at h
      . have := ih h
        simp only [List.length_cons]
        omega
      . cases h

theorem stripWord_append {word t rest : CStr} (a : CStr) (h : stripWord word t = some rest)
    : stripWord word (t ++ a) = some (rest ++ a) := by
  induction word generalizing t with
  | nil =>
    simp only [stripWord, Option.some.injEq] at h
    simp [stripWord, h]
  | cons w word ih =>
    cases t with
    | nil => simp [stripWord] at h
    | cons c t =>
      simp only [List.cons_append, stripWord] at h ⊢
      split at h
      . next hc =>
        simp only [hc, ↓reduceIte]
        exact ih h
      . cases h

theorem stripWord_of_append {word t a rest : CStr} (h : stripWord word (t ++ a) = some rest)
    (hlen : a.length ≤ rest.length)
    : ∃ rest', stripWord word t = some rest' ∧ rest = rest' ++ a := by
  induction word generalizing t with
  | nil =>
    simp only [stripWord, Option.some.injEq] at h
    exact ⟨t, rfl, h.symm⟩
  | cons w word ih =>
    cases t with
    | nil =>
      have := length_of_stripWord h
      simp only [List.nil_append, List.length_cons] at this
      omega
    | cons c t =>
      simp only [List.cons_append, stripWord] at h ⊢
      split at h
      . next hc =>
        simp only [hc, ↓reduceIte]
        exact ih h
      . cases h

theorem stripWord_eq_none {word t a : CStr} (h : stripWord word (t ++ a) = none)
    : stripWord word t = none := by
  cases ht : stripWord word t with
  | none => rfl
  | some rest =>
    rw [stripWord_append a ht] at h
    cases h

theorem length_stripSign_le (s : CStr) : (stripSign s).2.length ≤ s.length := by
  unfold stripSign
  split <;> simp

theorem stripSign_append {t : CStr} (ht : t ≠ []) (a : CStr)
    : stripSign (t ++ a) = ((stripSign t).1, (stripSign t).2 ++ a) := by
  cases t with
  | nil => exact absurd rfl ht
  | cons c t =>
    unfold stripSign
    simp only [List.cons_append]
    split
    . next h =>
      cases h
      rfl
    . next h =>
      cases h
      rfl
    . next hminus hplus =>
      split
      . next h =>
        cases h
        exact absurd rfl (hminus _)
      . next h =>
        cases h
        exact absurd rfl (hplus _)
      . rfl

section

variable {isDig : Char → Bool}

theorem scanDigits_of_point {s rest : CStr} (h : s.dropWhile isDig = '.' :: rest)
    : scanDigits isDig s = (s.takeWhile isDig, rest.takeWhile isDig, rest.dropWhile isDig) := by
  simp [scanDigits, h]

theorem scanDigits_of_no_point {s : CStr} (h : ∀ rest, s.dropWhile isDig ≠ '.' :: rest)
    : scanDigits isDig s = (s.takeWhile isDig, [], s.dropWhile isDig) := by
  unfold scanDigits
  dsimp only
  split
  . next rest hrest => exact absurd hrest (h rest)
  . rfl

theorem length_scanDigits_le (isDig : Char → Bool) (s : CStr)
    : (scanDigits isDig s).2.2.length ≤ (s.dropWhile isDig).length := by
  by_cases h : ∃ rest, s.dropWhile isDig = '.' :: rest
  . rcases h with ⟨rest, hrest⟩
    have := length_dropWhile_le isDig rest
    rw [scanDigits_of_point hrest, hrest, List.length_cons]
    dsimp only
    omega
  . rw [scanDigits_of_no_point fun rest hrest => h ⟨rest, hrest⟩]

theorem length_scanDigits_lt {s : CStr}
    (h : (scanDigits isDig s).1 ++ (scanDigits isDig s).2.1 ≠ [])
    : (scanDigits isDig s).2.2.length < s.length := by
  have hle := length_dropWhile_le isDig s
  by_cases hpoint : ∃ rest, s.dropWhile isDig = '.' :: rest
  . rcases hpoint with ⟨rest, hrest⟩
    have := length_dropWhile_le isDig rest
    rw [hrest, List.length_cons] at hle
    rw [scanDigits_of_point hrest]
    dsimp only
    omega
  . rw [scanDigits_of_no_point fun rest hrest => hpoint ⟨rest, hrest⟩] at h ⊢
    apply length_dropWhile_lt
    simpa using h

theorem scanDigits_append {t a : CStr} (h : a.length ≤ (scanDigits isDig (t ++ a)).2.2.length)
    : scanDigits isDig (t ++ a) =
        ((scanDigits isDig t).1, (scanDigits isDig t).2.1, (scanDigits isDig t).2.2 ++ a) := by
  have hspan := span_append (Nat.le_trans h (length_scanDigits_le isDig (t ++ a)))
  rcases hspan with ⟨htake, hdrop⟩
  by_cases hpoint : ∃ rest, (t ++ a).dropWhile isDig = '.' :: rest
  . rcases hpoint with ⟨rest, hrest⟩
    rw [scanDigits_of_point hrest] at h ⊢
    rw [hdrop] at hrest
    cases ht : t.dropWhile isDig with
    | nil =>
      -- the point would be the first character of `a`
      have := length_dropWhile_le isDig rest
      rw [ht, List.nil_append] at hrest
      rw [hrest, List.length_cons] at h
      dsimp only at h
      omega
    | cons c rest' =>
      rw [ht, List.cons_append] at hrest
      injection hrest with hc hrest
      subst hc
      rw [scanDigits_of_point ht]
      rw [← hrest] at h ⊢
      have hspan := span_append h
      rw [htake, hspan.1, hspan.2]
  . have hpoint' (rest : CStr) : t.dropWhile isDig ≠ '.' :: rest := by
      intro hrest
      apply hpoint
      exact ⟨rest ++ a, by rw [hdrop, hrest, List.cons_append]⟩
    rw [scanDigits_of_no_point fun rest hrest => hpoint ⟨rest, hrest⟩,
      scanDigits_of_no_point hpoint', htake, hdrop]

theorem scanDigits_eq_nil {t a : CStr}
    (h : (scanDigits isDig (t ++ a)).1 ++ (scanDigits isDig (t ++ a)).2.1 = [])
    : (scanDigits isDig t).1 ++ (scanDigits isDig t).2.1 = [] := by
  rw [List.append_eq_nil_iff] at h ⊢
  have hfirst (s : CStr) : (scanDigits isDig s).1 = s.takeWhile isDig := by
    unfold scanDigits
    dsimp only
    split <;> rfl
  rw [hfirst] at h ⊢
  have htake : t.takeWhile isDig = [] := by
    by_contra hne
    exact takeWhile_append_ne_nil a hne h.1
  refine ⟨htake, ?_⟩
  have hdrop (s : CStr) (hs : s.takeWhile isDig = []) : s.dropWhile isDig = s := by
    have := List.takeWhile_append_dropWhile (p := isDig) (l := s)
    rwa [hs, List.nil_append] at this
  by_cases hpoint : ∃ rest, t.dropWhile isDig = '.' :: rest
  . rcases hpoint with ⟨rest, hrest⟩
    have happ : (t ++ a).dropWhile isDig = '.' :: (rest ++ a) := by
      rw [hdrop _ h.1, ← List.cons_append, ← hrest, hdrop _ htake]
    rw [scanDigits_of_point happ] at h
    rw [scanDigits_of_point hrest]
    by_contra hne
    exact takeWhile_append_ne_nil a hne h.2
  . rw [scanDigits_of_no_point fun rest hrest => hpoint ⟨rest, hrest⟩]

end

theorem scanExponent_of_mark {mark c : Char} {rest : CStr} (hc : c.toLower = mark)
    (hdigits : (stripSign rest).2.takeWhile Char.isDigit ≠ [])
    : scanExponent mark (c :: rest) =
        let n : Int := natOfDigits ((stripSign rest).2.takeWhile Char.isDigit)
        (if (stripSign rest).1 then -n else n, (stripSign rest).2.dropWhile Char.isDigit) := by
  simp [scanExponent, hc, hdigits]

theorem scanExponent_of_no_mark {mark c : Char} {rest : CStr}
    (h : c.toLower = mark → (stripSign rest).2.takeWhile Char.isDigit = [])
    : scanExponent mark (c :: rest) = (0, c :: rest) := by
  simp only [scanExponent]
  rw [if_neg]
  intro hmark
  exact hmark.2 (h hmark.1)

theorem length_scanExponent_le (mark : Char) (s : CStr)
    : (scanExponent mark s).2.length ≤ s.length := by
  cases s with
  | nil => rfl
  | cons c rest =>
    by_cases h : c.toLower = mark → (stripSign rest).2.takeWhile Char.isDigit = []
    . rw [scanExponent_of_no_mark h]
    . have hsign := length_stripSign_le rest
      have hdrop := length_dropWhile_le Char.isDigit (stripSign rest).2
      rw [Classical.not_imp] at h
      rw [scanExponent_of_mark h.1 h.2, List.length_cons]
      dsimp only
      omega

theorem scanExponent_append {mark : Char} {t a : CStr}
    (h : a.length ≤ (scanExponent mark (t ++ a)).2.length)
    : (scanExponent mark (t ++ a)).1 = (scanExponent mark t).1 := by
  cases t with
  | nil =>
    cases a with
    | nil => rfl
    | cons c rest =>
      by_cases hmark : c.toLower = mark → (stripSign rest).2.takeWhile Char.isDigit = []
      . rw [List.nil_append, scanExponent_of_no_mark hmark]
        rfl
      . have hsign := length_stripSign_le rest
        have hdrop := length_dropWhile_le Char.isDigit (stripSign rest).2
        rw [Classical.not_imp] at hmark
        rw [List.nil_append, scanExponent_of_mark hmark.1 hmark.2, List.length_cons] at h
        dsimp only at h
        omega
  | cons c t =>
    rw [List.cons_append] at h ⊢
    by_cases hmark : c.toLower = mark → (stripSign (t ++ a)).2.takeWhile Char.isDigit = []
    . rw [scanExponent_of_no_mark hmark, scanExponent_of_no_mark]
      intro hc
      have hnone := hmark hc
      cases t with
      | nil => rfl
      | cons d t =>
        rw [stripSign_append (List.cons_ne_nil d t)] at hnone
        by_contra hne
        exact takeWhile_append_ne_nil a hne hnone
    . rw [Classical.not_imp] at hmark
      rw [scanExponent_of_mark hmark.1 hmark.2] at h ⊢
      dsimp only at h ⊢
      cases t with
      | nil =>
        have hsign := length_stripSign_le a
        have hdrop := length_dropWhile_lt hmark.2
        rw [List.nil_append] at h hdrop
        omega
      | cons d t =>
        rw [stripSign_append (List.cons_ne_nil d t)] at h hmark ⊢
        rcases span_append h with ⟨htake, hdrop⟩
        have hdigits := hmark.2
        rw [htake] at hdigits
        rw [scanExponent_of_mark hmark.1 hdigits, htake]

/-- A scanner of the number at the front of a text, as far as what it leaves tells. -/
structure Determined (scan : CStr → Option Strtod) : Prop where
  lt : ∀ {s r}, scan s = some r → r.rest.length < s.length
  none : ∀ {t a}, scan (t ++ a) = none → scan t = none
  some : ∀ {t a r}, scan (t ++ a) = some r → a.length ≤ r.rest.length →
    ∃ r', scan t = some r' ∧ r'.value = r.value ∧ r'.erange = r.erange

theorem Determined.orElse {f g : CStr → Option Strtod} (hf : Determined f) (hg : Determined g)
    : Determined fun s => f s <|> g s := by
  constructor
  . intro s r h
    cases (Option.orElse_eq_some _ _ _).mp h with
    | inl h => exact hf.lt h
    | inr h => exact hg.lt h.2
  . intro t a h
    rw [Option.orElse_eq_none] at h ⊢
    exact ⟨hf.none h.1, hg.none h.2⟩
  . intro t a r h hlen
    cases (Option.orElse_eq_some _ _ _).mp h with
    | inl h =>
      rcases hf.some h hlen with ⟨r, hr, hvalue⟩
      exact ⟨r, by simp [hr], hvalue⟩
    | inr h =>
      rcases hg.some h.2 hlen with ⟨r, hr, hvalue⟩
      exact ⟨r, by simp [hf.none h.1, hr], hvalue⟩

theorem strtodWord_of_inf {s rest : CStr} (neg : Bool)
    (h : stripWord ['i', 'n', 'f'] s = some rest)
    : ∃ rest', strtodWord neg s = some ⟨.inf neg, rest', false⟩ ∧ rest'.length ≤ rest.length := by
  unfold strtodWord
  rw [h]
  refine ⟨_, rfl, ?_⟩
  cases hword : stripWord ['i', 'n', 'i', 't', 'y'] rest with
  | none => exact Nat.le_refl _
  | some rest' =>
    have := length_of_stripWord hword
    simp only [Option.getD_some]
    omega

theorem strtodWord_of_nan {s rest : CStr} (neg : Bool)
    (hinf : stripWord ['i', 'n', 'f'] s = none) (h : stripWord ['n', 'a', 'n'] s = some rest)
    : ∃ rest', strtodWord neg s = some ⟨.nan neg, rest', false⟩ ∧ rest'.length ≤ rest.length := by
  unfold strtodWord
  rw [hinf, h]
  dsimp only
  split
  . next chars =>
    have hle := length_dropWhile_le (fun c => c.isAlphanum || c = '_') chars
    split
    . next rest' hrest' =>
      refine ⟨rest', rfl, ?_⟩
      rw [hrest', List.length_cons] at hle
      rw [List.length_cons]
      omega
    . exact ⟨_, rfl, Nat.le_refl _⟩
  . exact ⟨_, rfl, Nat.le_refl _⟩

theorem strtodWord_eq_none_iff {neg : Bool} {s : CStr}
    : strtodWord neg s = none
        ↔ stripWord ['i', 'n', 'f'] s = none ∧ stripWord ['n', 'a', 'n'] s = none := by
  cases hinf : stripWord ['i', 'n', 'f'] s with
  | some rest =>
    rcases strtodWord_of_inf neg hinf with ⟨rest', h, -⟩
    simp [h]
  | none =>
    cases hnan : stripWord ['n', 'a', 'n'] s with
    | some rest =>
      rcases strtodWord_of_nan neg hinf hnan with ⟨rest', h, -⟩
      simp [h]
    | none => simp [strtodWord, hinf, hnan]

theorem determined_strtodWord (neg : Bool) : Determined (strtodWord neg) := by
  constructor
  . intro s r h
    cases hinf : stripWord ['i', 'n', 'f'] s with
    | some rest =>
      have hlen := length_of_stripWord hinf
      rcases strtodWord_of_inf neg hinf with ⟨rest', hrest', hle⟩
      cases h.symm.trans hrest'
      simp only [List.length_cons] at hlen ⊢
      omega
    | none =>
      cases hnan : stripWord ['n', 'a', 'n'] s with
      | some rest =>
        have hlen := length_of_stripWord hnan
        rcases strtodWord_of_nan neg hinf hnan with ⟨rest', hrest', hle⟩
        cases h.symm.trans hrest'
        simp only [List.length_cons] at hlen ⊢
        omega
      | none =>
        rw [strtodWord_eq_none_iff.mpr ⟨hinf, hnan⟩] at h
        cases h
  . intro t a h
    rw [strtodWord_eq_none_iff] at h ⊢
    exact ⟨stripWord_eq_none h.1, stripWord_eq_none h.2⟩
  . intro t a r h hlen
    cases hinf : stripWord ['i', 'n', 'f'] (t ++ a) with
    | some rest =>
      rcases strtodWord_of_inf neg hinf with ⟨rest', hrest', hle⟩
      cases h.symm.trans hrest'
      rcases stripWord_of_append hinf (Nat.le_trans hlen hle) with ⟨rest'', ht, -⟩
      rcases strtodWord_of_inf neg ht with ⟨_, hr, -⟩
      exact ⟨_, hr, rfl, rfl⟩
    | none =>
      cases hnan : stripWord ['n', 'a', 'n'] (t ++ a) with
      | some rest =>
        rcases strtodWord_of_nan neg hinf hnan with ⟨rest', hrest', hle⟩
        cases h.symm.trans hrest'
        rcases stripWord_of_append hnan (Nat.le_trans hlen hle) with ⟨rest'', ht, -⟩
        rcases strtodWord_of_nan neg (stripWord_eq_none hinf) ht with ⟨_, hr, -⟩
        exact ⟨_, hr, rfl, rfl⟩
      | none =>
        rw [strtodWord_eq_none_iff.mpr ⟨hinf, hnan⟩] at h
        cases h

theorem scanNumber_append {isDig : Char → Bool} {mark : Char} {t a : CStr}
    (h : a.length ≤ (scanExponent mark (scanDigits isDig (t ++ a)).2.2).2.length)
    : scanDigits isDig (t ++ a) =
          ((scanDigits isDig t).1, (scanDigits isDig t).2.1, (scanDigits isDig t).2.2 ++ a)
        ∧ (scanExponent mark (scanDigits isDig (t ++ a)).2.2).1 =
            (scanExponent mark (scanDigits isDig t).2.2).1 := by
  have hdigits := scanDigits_append (Nat.le_trans h (length_scanExponent_le mark _))
  refine ⟨hdigits, ?_⟩
  rw [hdigits] at h ⊢
  exact scanExponent_append h

theorem determined_strtodDecimal (neg : Bool) : Determined (strtodDecimal neg) := by
  constructor
  . intro s r h
    simp only [strtodDecimal] at h
    split at h
    . cases h
    . next hdigits =>
      have hlt := length_scanDigits_lt hdigits
      have hle := length_scanExponent_le 'e' (scanDigits Char.isDigit s).2.2
      cases h
      exact Nat.lt_of_le_of_lt hle hlt
  . intro t a h
    simp only [strtodDecimal] at h ⊢
    split at h
    . next hdigits => rw [if_pos (scanDigits_eq_nil hdigits)]
    . cases h
  . intro t a r h hlen
    simp only [strtodDecimal] at h ⊢
    split at h
    . cases h
    . next hdigits =>
      cases h
      rcases scanNumber_append hlen with ⟨hscan, hexp⟩
      rw [hscan] at hdigits
      rw [if_neg hdigits]
      refine ⟨_, rfl, ?_⟩
      simp only [Strtod.ofScaled]
      rw [hexp, hscan]
      exact ⟨rfl, rfl⟩

theorem determined_strtodHex (neg : Bool) : Determined (strtodHex neg) := by
  constructor
  . intro s r h
    simp only [strtodHex] at h
    split at h
    . cases h
    . next digits hword =>
      have hlen := length_of_stripWord hword
      split at h
      . cases h
      . next hdigits =>
        have hlt := length_scanDigits_lt hdigits
        have hle := length_scanExponent_le 'p' (scanDigits isHexDigit digits).2.2
        cases h
        exact Nat.lt_of_le_of_lt hle (Nat.lt_of_lt_of_le hlt (by omega))
  . intro t a h
    cases ht : stripWord ['0', 'x'] t with
    | none => simp [strtodHex, ht]
    | some digits =>
      simp only [strtodHex, ht, stripWord_append a ht] at h ⊢
      split at h
      . next hdigits => rw [if_pos (scanDigits_eq_nil hdigits)]
      . cases h
  . intro t a r h hlen
    simp only [strtodHex] at h
    split at h
    . cases h
    . next digits hword =>
      split at h
      . cases h
      . next hdigits =>
        cases h
        have hle := length_scanExponent_le 'p' (scanDigits isHexDigit digits).2.2
        have hlt := length_scanDigits_lt hdigits
        have hreach := Nat.le_trans hlen (Nat.le_trans hle (Nat.le_of_lt hlt))
        rcases stripWord_of_append hword hreach with ⟨digits', ht, happ⟩
        subst happ
        rcases scanNumber_append hlen with ⟨hscan, hexp⟩
        rw [hscan] at hdigits
        simp only [strtodHex, ht]
        rw [if_neg hdigits]
        refine ⟨_, rfl, ?_⟩
        simp only [Strtod.ofScaled]
        rw [hexp, hscan]
        exact ⟨rfl, rfl⟩

/-- The number that `strtod` finds after white space and a sign. -/
def number (neg : Bool) (t : CStr) : Option Strtod :=
  strtodWord neg t <|> strtodHex neg t <|> strtodDecimal neg t

theorem determined_number (neg : Bool) : Determined (number neg) := by
  apply Determined.orElse
  . exact determined_strtodWord neg
  . exact (determined_strtodHex neg).orElse (determined_strtodDecimal neg)

theorem strtod_eq (s : CStr)
    : strtod s =
        (number (stripSign (s.dropWhile isSpace)).1 (stripSign (s.dropWhile isSpace)).2).getD
          ⟨0, s, false⟩ := rfl

theorem dropWhile_append_of_ne_nil {p : Char → Bool} {t : CStr} (h : t.dropWhile p ≠ []) (a : CStr)
    : (t ++ a).dropWhile p = t.dropWhile p ++ a := by
  rw [List.dropWhile_append]
  simp [h]

theorem strtod_append_congr {t a : CStr} (h : a.length ≤ (strtod (t ++ a)).rest.length)
    : (strtod (t ++ a)).value = (strtod t).value ∧ (strtod (t ++ a)).erange = (strtod t).erange := by
  rw [strtod_eq] at h ⊢
  rw [strtod_eq]
  by_cases hspace : t.dropWhile isSpace = []
  . -- a number would be one of `a`
    have hdrop : (t ++ a).dropWhile isSpace = a.dropWhile isSpace := by
      rw [List.dropWhile_append]
      simp [hspace]
    rw [hdrop] at h ⊢
    cases hnumber : number (stripSign (a.dropWhile isSpace)).1
        (stripSign (a.dropWhile isSpace)).2 with
    | none =>
      rw [hspace]
      exact ⟨rfl, rfl⟩
    | some r =>
      have hlt := (determined_number _).lt hnumber
      have hsign := length_stripSign_le (a.dropWhile isSpace)
      have hle := length_dropWhile_le isSpace a
      rw [hnumber, Option.getD_some] at h
      omega
  . rw [dropWhile_append_of_ne_nil hspace, stripSign_append hspace] at h ⊢
    dsimp only at h ⊢
    cases hnumber : number (stripSign (t.dropWhile isSpace)).1
        ((stripSign (t.dropWhile isSpace)).2 ++ a) with
    | none =>
      have : number _ (stripSign (t.dropWhile isSpace)).2 = none :=
        (determined_number _).none hnumber
      rw [this]
      exact ⟨rfl, rfl⟩
    | some r =>
      rw [hnumber, Option.getD_some] at h
      rcases (determined_number _).some hnumber h with ⟨r', hr', hvalue, herange⟩
      have : number _ (stripSign (t.dropWhile isSpace)).2 = some r' := hr'
      rw [this]
      exact ⟨hvalue.symm, herange.symm⟩

theorem strtod_append {t a : CStr} (h : a.length ≤ (strtod (t ++ a)).rest.length)
    : (strtod (t ++ a)).value = (strtod t).value :=
  (strtod_append_congr h).1

theorem startsWithNumber_eq_isSome (s : CStr)
    : startsWithNumber s =
        (number (stripSign (s.dropWhile isSpace)).1 (stripSign (s.dropWhile isSpace)).2).isSome := by
  unfold startsWithNumber
  rw [strtod_eq]
  cases hn : number (stripSign (s.dropWhile isSpace)).1 (stripSign (s.dropWhile isSpace)).2 with
  | none => simp
  | some r =>
    have hlt := (determined_number _).lt hn
    have hsign := length_stripSign_le (s.dropWhile isSpace)
    have hspace := length_dropWhile_le isSpace s
    have hne : r.rest ≠ s := by
      intro heq
      rw [heq] at hlt
      omega
    simpa using hne

theorem strtod_of_not_startsWithNumber {s : CStr} (h : startsWithNumber s = false)
    : (strtod s).value = 0 ∧ (strtod s).erange = false := by
  rw [startsWithNumber_eq_isSome, Option.isSome_eq_false_iff, Option.isNone_iff_eq_none] at h
  rw [strtod_eq, h]
  exact ⟨rfl, rfl⟩

end CString
