import Glog.Glob.Pattern

/-! # Matching patterns of modules

`SafeFNMatch_` takes a pattern and a string by pointer and length. Here both are the rest that begins at `p` and
at `s`, and the characters are compared as they are. -/

namespace Glog.Vlog
open Glob

/-- The loop over the places of a string that a star can end at. -/
def anySuffix (f : List Char → Bool) : List Char → Bool
  | [] => false
  | c :: str => f (c :: str) || anySuffix f str

def safeFNMatch : List Char → List Char → Bool
  | [], [] => true
  | [], _ :: _ => false
  | p :: pattern, [] => pattern.isEmpty && p == '*'
  | p :: pattern, c :: str =>
    if p = c ∨ p = '?' then safeFNMatch pattern str
    else if p = '*' then
      if pattern.isEmpty then true else anySuffix (fun s => safeFNMatch pattern s) (c :: str)
    else false

/-! ### The language -/

def token (c : Char) : Token Char := if c = '*' then .star else if c = '?' then .one else .letter c

def tokens (pattern : List Char) : List (Token Char) := pattern.map token

/-- What a star takes of a string, with the tokens and the string behind it: before a `*` of the string just that,
    and elsewhere not all, unless it is the last token. -/
def Orderly (behind : List (Token Char)) (taken rest : List Char) : Prop :=
  if (taken ++ rest).head? = some '*' then taken = ['*'] else behind ≠ [] → rest ≠ []

/-- All stars are orderly. -/
def Tidy : List (Token Char) → List (List Char) → Prop
  | .star :: behind, taken :: pieces => Orderly behind taken pieces.flatten ∧ Tidy behind pieces
  | _ :: behind, _ :: pieces => Tidy behind pieces
  | _, _ => True

/-- The string belongs to the language of the pattern by a cut that is tidy. -/
def MatchesTidily (pattern : List (Token Char)) (str : List Char) : Prop :=
  ∃ pieces, Cut pattern pieces str ∧ Tidy pattern pieces

section
variable {behind : List (Token Char)} {str : List Char} {c : Char}

theorem MatchesTidily.matches {pattern : List (Token Char)} (h : MatchesTidily pattern str) : Matches pattern str := by
  obtain ⟨pieces, hcut, -⟩ := h
  exact ⟨pieces, hcut⟩

theorem tidily_nil : MatchesTidily [] str ↔ str = [] := by
  constructor
  · intro h
    exact matches_nil.mp h.matches
  · rintro rfl
    exact ⟨[], .nil, trivial⟩

theorem tidily_star : MatchesTidily (.star :: behind) str ↔
    ∃ taken rest, str = taken ++ rest ∧ Orderly behind taken rest ∧ MatchesTidily behind rest := by
  constructor
  · rintro ⟨pieces, hcut, htidy⟩
    cases hcut with
    | cons _ hrest =>
      obtain ⟨horderly, htidy⟩ := htidy
      rw [hrest.flatten] at horderly
      exact ⟨_, _, rfl, horderly, _, hrest, htidy⟩
  · rintro ⟨taken, rest, rfl, horderly, pieces, hrest, htidy⟩
    refine ⟨taken :: pieces, .cons trivial hrest, ?_, htidy⟩
    rw [hrest.flatten]
    exact horderly

theorem tidily_one : MatchesTidily (.one :: behind) str ↔ ∃ c rest, str = c :: rest ∧ MatchesTidily behind rest := by
  constructor
  · rintro ⟨pieces, hcut, htidy⟩
    cases hcut with
    | cons htakes hrest =>
      obtain ⟨c, rfl⟩ := htakes
      exact ⟨c, _, rfl, _, hrest, htidy⟩
  · rintro ⟨c, rest, rfl, pieces, hrest, htidy⟩
    exact ⟨[c] :: pieces, .cons ⟨c, rfl⟩ hrest, htidy⟩

theorem tidily_letter : MatchesTidily (.letter c :: behind) str ↔ ∃ rest, str = c :: rest ∧ MatchesTidily behind rest := by
  constructor
  · rintro ⟨pieces, hcut, htidy⟩
    cases hcut with
    | cons htakes hrest =>
      cases htakes
      exact ⟨_, rfl, _, hrest, htidy⟩
  · rintro ⟨rest, rfl, pieces, hrest, htidy⟩
    exact ⟨[c] :: pieces, .cons rfl hrest, htidy⟩

theorem anySuffix_iff {f : List Char → Bool} :
    anySuffix f str = true ↔ ∃ taken rest, str = taken ++ rest ∧ rest ≠ [] ∧ f rest = true := by
  induction str with
  | nil =>
    constructor
    · intro h
      cases h
    · rintro ⟨taken, rest, heq, hne, -⟩
      exact absurd (List.append_eq_nil_iff.mp heq.symm).2 hne
  | cons c str ih =>
    rw [anySuffix, Bool.or_eq_true, ih]
    constructor
    · rintro (hhere | ⟨taken, rest, rfl, hne, hlater⟩)
      · exact ⟨[], c :: str, rfl, List.cons_ne_nil c str, hhere⟩
      · exact ⟨c :: taken, rest, rfl, hne, hlater⟩
    · rintro ⟨taken, rest, heq, hne, hf⟩
      cases taken with
      | nil =>
        rw [List.nil_append] at heq
        exact Or.inl (heq ▸ hf)
      | cons c' taken =>
        cases heq
        exact Or.inr ⟨taken, rest, rfl, hne, hf⟩

/-- A star before a `*` of the string. -/
theorem tidily_star_literal : MatchesTidily (.star :: behind) ('*' :: str) ↔ MatchesTidily behind str := by
  rw [tidily_star]
  constructor
  · rintro ⟨taken, rest, heq, horderly, hrest⟩
    rw [Orderly, ← heq, if_pos List.head?_cons] at horderly
    subst horderly
    cases heq
    exact hrest
  · intro h
    refine ⟨['*'], str, rfl, ?_, h⟩
    rw [Orderly, if_pos (by rfl)]

/-- A star before another character. -/
theorem tidily_star_other (hc : c ≠ '*') : MatchesTidily (.star :: behind) (c :: str) ↔
    behind = [] ∨ ∃ taken rest, c :: str = taken ++ rest ∧ rest ≠ [] ∧ MatchesTidily behind rest := by
  have hhead : (c :: str).head? ≠ some '*' := by simpa using hc
  rw [tidily_star]
  constructor
  · rintro ⟨taken, rest, heq, horderly, hrest⟩
    rw [Orderly, ← heq, if_neg hhead] at horderly
    by_cases hlast : behind = []
    · exact Or.inl hlast
    · exact Or.inr ⟨taken, rest, heq, horderly hlast, hrest⟩
  · rintro (rfl | ⟨taken, rest, heq, hne, hrest⟩)
    · refine ⟨c :: str, [], (List.append_nil _).symm, ?_, tidily_nil.mpr rfl⟩
      rw [Orderly, List.append_nil, if_neg hhead]
      exact fun h => absurd rfl h
    · refine ⟨taken, rest, heq, ?_, hrest⟩
      rw [Orderly, ← heq, if_neg hhead]
      exact fun _ => hne

/-- A star at the end of the string. -/
theorem tidily_star_end : MatchesTidily (.star :: behind) [] ↔ behind = [] := by
  rw [tidily_star]
  constructor
  · rintro ⟨taken, rest, heq, horderly, -⟩
    obtain ⟨rfl, rfl⟩ := List.append_eq_nil_iff.mp heq.symm
    rw [Orderly, if_neg (by simp)] at horderly
    exact Classical.byContradiction fun h => horderly h rfl
  · rintro rfl
    refine ⟨[], [], rfl, ?_, tidily_nil.mpr rfl⟩
    rw [Orderly, if_neg (by simp)]
    exact fun h => absurd rfl h

end

/-! ### What the function accepts -/

section
variable {pattern str : List Char}

theorem tokens_cons (p : Char) (pattern : List Char) : tokens (p :: pattern) = token p :: tokens pattern := rfl

theorem token_star : token '*' = .star := rfl

theorem token_one : token '?' = .one := rfl

theorem token_letter {p : Char} (hstar : p ≠ '*') (hone : p ≠ '?') : token p = .letter p := by
  rw [token, if_neg hstar, if_neg hone]

theorem tokens_eq_nil : tokens pattern = [] ↔ pattern = [] := List.map_eq_nil_iff

theorem safeFNMatch_iff_tidily : safeFNMatch pattern str = true ↔ MatchesTidily (tokens pattern) str := by
  induction pattern generalizing str with
  | nil =>
    have hnil : tokens [] = [] := rfl
    rw [hnil, tidily_nil]
    cases str <;> simp [safeFNMatch]
  | cons p pattern ih =>
    rw [tokens_cons]
    by_cases hstar : p = '*'
    · subst hstar
      rw [token_star]
      cases str with
      | nil => simp [safeFNMatch, tidily_star_end, tokens_eq_nil]
      | cons c str =>
        by_cases hc : '*' = c
        · subst hc
          rw [safeFNMatch, if_pos (Or.inl rfl), ih, tidily_star_literal]
        · rw [safeFNMatch, if_neg (by simp [hc]), if_pos rfl, tidily_star_other (Ne.symm hc), tokens_eq_nil]
          cases pattern with
          | nil => simp
          | cons q pattern =>
            rw [List.isEmpty_cons, if_neg Bool.false_ne_true, anySuffix_iff]
            simp only [ih, List.cons_ne_nil, false_or]
    · by_cases hone : p = '?'
      · subst hone
        rw [token_one, tidily_one]
        cases str with
        | nil => simp [safeFNMatch]
        | cons c str =>
          rw [safeFNMatch, if_pos (Or.inr rfl), ih]
          constructor
          · intro h
            exact ⟨c, str, rfl, h⟩
          · rintro ⟨c', rest, heq, h⟩
            cases heq
            exact h
      · rw [token_letter hstar hone, tidily_letter]
        cases str with
        | nil => simp [safeFNMatch, hstar]
        | cons c str =>
          rw [safeFNMatch]
          by_cases hc : p = c
          · subst hc
            rw [if_pos (Or.inl rfl), ih]
            simp
          · rw [if_neg (by simp [hc, hone]), if_neg hstar]
            simp [Ne.symm hc]

/-- A pattern matches itself, whatever it contains. -/
theorem safeFNMatch_self (pattern : List Char) : safeFNMatch pattern pattern = true := by
  induction pattern with
  | nil => rfl
  | cons p pattern ih => rw [safeFNMatch, if_pos (Or.inl rfl), ih]

/-- Behind the tokens that match the end of a string there are only stars. -/
theorem stars_of_matches_nil (h : Matches (tokens pattern) []) : ∀ p ∈ pattern, p = '*' := by
  induction pattern with
  | nil => exact fun p hp => nomatch hp
  | cons p pattern ih =>
    rw [tokens_cons] at h
    by_cases hstar : p = '*'
    · subst hstar
      rw [token_star, matches_star] at h
      obtain ⟨w, v, heq, hv⟩ := h
      obtain ⟨-, rfl⟩ := List.append_eq_nil_iff.mp heq.symm
      exact List.forall_mem_cons.mpr ⟨rfl, ih hv⟩
    · by_cases hone : p = '?'
      · subst hone
        rw [token_one, matches_one] at h
        obtain ⟨c, v, heq, -⟩ := h
        cases heq
      · rw [token_letter hstar hone, matches_letter] at h
        obtain ⟨v, heq, -⟩ := h
        cases heq

theorem two_stars_suffix (hlength : 2 ≤ pattern.length) (h : ∀ p ∈ pattern, p = '*') : ['*', '*'] <:+ pattern := by
  rw [List.eq_replicate_of_mem h]
  exact List.suffix_replicate_iff.mpr ⟨hlength, rfl⟩

/-- A string without `*` that a pattern matches is matched by a tidy cut, unless the pattern ends with two stars. -/
theorem tidily_of_plain (hstr : '*' ∉ str) (hpattern : ¬ ['*', '*'] <:+ pattern) (h : Matches (tokens pattern) str) :
    MatchesTidily (tokens pattern) str := by
  induction pattern generalizing str with
  | nil => exact tidily_nil.mpr (matches_nil.mp h)
  | cons p pattern ih =>
    have hbehind : ¬ ['*', '*'] <:+ pattern := fun hsuffix => hpattern (List.suffix_cons_iff.mpr (Or.inr hsuffix))
    rw [tokens_cons] at h ⊢
    by_cases hstar : p = '*'
    · subst hstar
      rw [token_star, matches_star] at h
      rw [token_star, tidily_star]
      obtain ⟨w, v, rfl, hv⟩ := h
      have hv' : '*' ∉ v := fun hmem => hstr (List.mem_append_right w hmem)
      refine ⟨w, v, rfl, ?_, ih hv' hbehind hv⟩
      have hhead : (w ++ v).head? ≠ some '*' := fun hc => hstr (List.mem_of_head? hc)
      rw [Orderly, if_neg hhead]
      rintro hne rfl
      have hstars := stars_of_matches_nil hv
      cases pattern with
      | nil => exact hne rfl
      | cons q pattern =>
        refine hpattern (two_stars_suffix (Nat.le_add_left 2 _) ?_)
        exact List.forall_mem_cons.mpr ⟨rfl, hstars⟩
    · by_cases hone : p = '?'
      · subst hone
        rw [token_one, matches_one] at h
        rw [token_one, tidily_one]
        obtain ⟨c, v, rfl, hv⟩ := h
        exact ⟨c, v, rfl, ih (fun hmem => hstr (List.mem_cons_of_mem c hmem)) hbehind hv⟩
      · rw [token_letter hstar hone, matches_letter] at h
        rw [token_letter hstar hone, tidily_letter]
        obtain ⟨v, rfl, hv⟩ := h
        exact ⟨v, rfl, ih (fun hmem => hstr (List.mem_cons_of_mem p hmem)) hbehind hv⟩

/-- The function decides the language of the pattern exactly where what is matched is matched by a tidy cut. -/
theorem safeFNMatch_iff_matches_iff (pattern str : List Char) :
    (safeFNMatch pattern str = true ↔ Matches (tokens pattern) str) ↔
      (Matches (tokens pattern) str → MatchesTidily (tokens pattern) str) := by
  rw [safeFNMatch_iff_tidily]
  exact ⟨Iff.mpr, fun h => ⟨MatchesTidily.matches, h⟩⟩

/-- Two stars at the end of a pattern do not match the end of a string. -/
theorem not_safeFNMatch_iff_matches : ¬ ∀ pattern str : List Char, safeFNMatch pattern str = true ↔
    Matches (tokens pattern) str := by
  intro h
  have hcut : Cut (tokens ['a', '*', '*']) [['a'], [], []] ['a'] :=
    .cons (t := .letter 'a') rfl (.cons (t := .star) trivial (.cons (t := .star) trivial .nil))
  exact absurd ((h ['a', '*', '*'] ['a']).mpr ⟨_, hcut⟩) (by decide)

/-- Without a `*` in the string and two stars at the end of the pattern the function is right. -/
theorem safeFNMatch_iff_of_plain (hstr : '*' ∉ str) (hpattern : ¬ ['*', '*'] <:+ pattern) :
    safeFNMatch pattern str = true ↔ Matches (tokens pattern) str := by
  rw [safeFNMatch_iff_tidily]
  exact ⟨MatchesTidily.matches, tidily_of_plain hstr hpattern⟩

end

end Glog.Vlog
