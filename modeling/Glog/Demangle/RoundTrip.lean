import Glog.Demangle.Nested
import Glog.Demangle.Signatures

/-! # Demangling undoes the encoding of nested names

The demangler prints the components of a nested name with `::` between them, and `()` if there are
parameters, as long as the nest level does not wrap around. -/

namespace Glog.Demangle
open Backtrack Backtrack.Parser

/-- The components joined by `::`, and `()` for parameters. -/
def nestedDemangled (names : List (List Char)) (params : List Char) : List Char :=
  "::".toList.intercalate names ++ if params = [] then [] else "()".toList

/-! ### The text of the components -/

theorem separator_of_pos {level : Int} (h : 1 ≤ level) (text u : List Char) : separator level text u = "::".toList :=
  if_pos h

theorem nextLevel_of_lt {i : Nat} (h : i < 32767) : nextLevel i = (i + 1 : Nat) := by
  rw [nextLevel, if_pos (by omega), Int.bmod_eq_of_le (by omega) (by omega)]
  rfl

theorem nextLevel_wraps : nextLevel (32767 : Nat) = -32768 := by decide

theorem nextLevel_of_neg {level : Int} (h : level < 0) : nextLevel level = level := if_neg (by omega)

/-- Up to the wrap every component has its separator. -/
theorem nestedText_eq {names : List (List Char)} : ∀ {text : List Char} {i : Nat}, 1 ≤ i → i + names.length ≤ 32768 →
    nestedText text i names = text ++ names.flatMap ("::".toList ++ ·) := by
  induction names with
  | nil =>
    intro text i _ _
    exact (List.append_nil text).symm
  | cons u names ih =>
    intro text i hpos hlen
    rw [List.length_cons] at hlen
    rw [nestedText, separator_of_pos (by omega)]
    cases names with
    | nil => simp [nestedText]
    | cons v names =>
      rw [List.length_cons] at hlen ih
      rw [nextLevel_of_lt (by omega), ih (by omega) (by omega), List.flatMap_cons (x := u)]
      simp only [List.append_assoc]

theorem intercalate_cons (sep u : List Char) (names : List (List Char)) :
    sep.intercalate (u :: names) = u ++ names.flatMap (sep ++ ·) := by
  induction names generalizing u with
  | nil => simp [List.intercalate]
  | cons v names ih =>
    rw [List.flatMap_cons, List.append_assoc, ← ih v]
    simp [List.intercalate]

theorem nestedText_of_le {names : List (List Char)} (hne : names ≠ []) (hlen : names.length ≤ 32768) :
    nestedText [] 0 names = "::".toList.intercalate names := by
  obtain ⟨u, names, rfl⟩ := List.exists_cons_of_ne_nil hne
  have hfirst : spaceBefore [] u = [] := if_neg fun h => by cases h.2
  have hsep : separator 0 [] u = [] := hfirst
  rw [List.length_cons] at hlen
  rw [nestedText, hsep, intercalate_cons]
  change nestedText u (1 : Nat) names = _
  rw [nestedText_eq (Nat.le_refl 1) (by omega)]

theorem length_flatMap_sep (names : List (List Char)) :
    (names.flatMap ("::".toList ++ ·)).length = roomFor names := by
  rw [List.length_flatMap, roomFor]
  refine congrArg List.sum (List.map_congr_left fun u _ => ?_)
  rw [List.length_append, Nat.add_comm]
  rfl

/-- At a negative level there is at most a space between components. -/
theorem length_nestedText_of_neg {level : Int} (hlevel : level < 0) (names : List (List Char)) : ∀ text : List Char,
    (nestedText text level names).length + names.length ≤ text.length + roomFor names := by
  induction names with
  | nil => exact fun text => Nat.le_refl _
  | cons u names ih =>
    intro text
    have hsep : (separator level text u).length ≤ 1 := by
      rw [separator, if_neg (by omega), spaceBefore]
      split <;> decide
    have hrest := ih (text ++ separator level text u ++ u)
    have hroom : roomFor (u :: names) = u.length + 2 + roomFor names := rfl
    rw [nestedText, nextLevel_of_neg hlevel, List.length_cons, hroom]
    simp only [List.length_append] at hrest
    omega

/-- Behind the wrap the text is shorter than it should be. -/
theorem length_nestedText_lt {names : List (List Char)} : ∀ (text : List Char) {i : Nat}, 1 ≤ i → i ≤ 32767 →
    32768 < i + names.length → (nestedText text i names).length < text.length + roomFor names := by
  induction names with
  | nil =>
    intro text i _ hi hlen
    simp only [List.length_nil] at hlen
    omega
  | cons u names ih =>
    intro text i hpos hi hlen
    rw [List.length_cons] at hlen
    have hroom : roomFor (u :: names) = u.length + 2 + roomFor names := rfl
    have htext : (text ++ "::".toList ++ u).length = text.length + 2 + u.length := by
      simp only [List.length_append]
      rfl
    rw [nestedText, separator_of_pos (by omega), hroom]
    by_cases hwrap : i = 32767
    · rw [hwrap, nextLevel_wraps]
      have hneg := length_nestedText_of_neg (show (-32768 : Int) < 0 by decide) names (text ++ "::".toList ++ u)
      omega
    · have hrest := ih (text ++ "::".toList ++ u) (i := i + 1) (by omega) (by omega) (by omega)
      rw [nextLevel_of_lt (by omega)]
      omega

theorem nestedText_of_gt {names : List (List Char)} (hlen : 32768 < names.length) :
    (nestedText [] 0 names).length < ("::".toList.intercalate names).length := by
  obtain ⟨u, names, rfl⟩ := List.exists_cons_of_ne_nil (List.ne_nil_of_length_pos (Nat.lt_trans (by decide) hlen))
  have hfirst : spaceBefore [] u = [] := if_neg fun h => by cases h.2
  have hsep : separator 0 [] u = [] := hfirst
  rw [List.length_cons] at hlen
  rw [nestedText, hsep, intercalate_cons, List.length_append, length_flatMap_sep]
  exact length_nestedText_lt u (i := 1) (Nat.le_refl 1) (by decide) (by omega)

theorem nul_notMem_separator (level : Int) (text u : List Char) : '\x00' ∉ separator level text u := by
  unfold separator spaceBefore
  split
  · decide
  · split <;> decide

theorem nul_notMem_nestedText {names : List (List Char)} (hnames : ∀ u ∈ names, '\x00' ∉ u) :
    ∀ {text : List Char} (level : Int),
    '\x00' ∉ text → '\x00' ∉ nestedText text level names := by
  induction names with
  | nil => exact fun _ h => h
  | cons u names ih =>
    intro text level htext
    refine ih (fun v hv => hnames v (List.mem_cons_of_mem u hv)) _ ?_
    simp only [List.mem_append, not_or]
    exact ⟨⟨htext, nul_notMem_separator level text u⟩, hnames u List.mem_cons_self⟩

/-! ### The round trip -/

section
variable {mangled : CString} {names : List (List Char)} {params : List Char}

theorem nulFree_of_nestedEncoding (hm : mangled.chars = nestedEncoding names params) : ∀ u ∈ names, '\x00' ∉ u :=
  fun u hu hnul => mangled.nulFree (by
    rw [hm, nestedEncoding]
    refine List.mem_append_left _ (List.mem_append_right _ (List.mem_flatMap.mpr ⟨u, hu, ?_⟩))
    exact List.mem_append_right _ hnul)

/-- What the demangler prints for a nested name. -/
theorem demanglesTo_nestedText (hm : mangled.chars = nestedEncoding names params) (hne : names ≠ [])
    (hnames : ∀ u ∈ names, Identifier u ∧ u.length ≤ intMax) (hparams : ∀ x ∈ params, x ∈ builtinTypeList.map Prod.fst) :
    DemanglesTo mangled (nestedText [] 0 names ++ if params = [] then [] else "()".toList) := by
  refine ⟨roomFor names + 5, fun n hn out => ?_⟩
  have hlen := length_nestedText_le names [] 0
  rw [List.length_nil, Nat.zero_add] at hlen
  have hnul : '\x00' ∉ nestedText [] 0 names := nul_notMem_nestedText (nulFree_of_nestedEncoding hm) 0 List.not_mem_nil
  -- The configurations before and after the name.
  let c : Config := { startConfig mangled with rest := 'N' :: (names.flatMap sourceName ++ 'E' :: params) }
  let c₁ : Config := { startConfig mangled with rest := params, text := nestedText [] 0 names, ended := true }
  have hrest : (startConfig mangled).rest = '_' :: 'Z' :: c.rest := by
    change mangled.chars = _
    rw [hm, nestedEncoding, List.append_assoc]
    rfl
  have hname : Goes mangled n (parse mangled .name) c true c₁ :=
    goes_name_nested (c := c) rfl rfl hnames hne (by simp only [c, startConfig, List.length_nil]; omega)
  cases params with
  | nil =>
    rw [if_pos rfl, List.append_nil]
    have hbare : Goes mangled n (parse mangled .bareFunctionType) c₁ false c₁ :=
      goes_bareFunctionType_false (goes_oneOrMore_false .type (goes_silent .type rfl nofun))
    have hencoding := goes_encoding_data hname List.nil_prefix hbare hname
    exact demangle_of_goes (goes_topLevel hrest hencoding rfl) rfl (by simp only [c₁]; omega) hnul out
  | cons x params =>
    rw [if_neg (List.cons_ne_nil x params)]
    have hletters : Goes mangled n (parse mangled (.zeroOrMore .type)) { c₁ with rest := params, append := false } true
        { c₁ with rest := [], append := false } :=
      goes_letters (fun y hy => hparams y (List.mem_cons_of_mem x hy)) rfl rfl
    have hletter : Goes mangled n (parse mangled .type) { c₁ with append := false } true
        { c₁ with rest := params, append := false } := goes_type_letter (hparams x List.mem_cons_self) rfl rfl
    have htypes := goes_oneOrMore .type hletter hletters
    have hbare := goes_bareFunctionType (c := c₁) rfl (by simp only [c₁]; omega) htypes
    refine demangle_of_goes (goes_topLevel hrest (goes_encoding_function hname hbare) rfl) rfl ?_ ?_ out
    · simp only [c₁, List.length_append]
      change _ + 2 < n
      omega
    · simp only [c₁, List.mem_append, not_or]
      exact ⟨hnul, by decide⟩

/-- Beyond the wrap of the nest level another text is printed. -/
theorem not_demanglesTo_of_gt (hm : mangled.chars = nestedEncoding names params)
    (hnames : ∀ u ∈ names, Identifier u ∧ u.length ≤ intMax) (hparams : ∀ x ∈ params, x ∈ builtinTypeList.map Prod.fst)
    (hlen : 32768 < names.length) : ¬ DemanglesTo mangled (nestedDemangled names params) := fun h => by
  have hne : names ≠ [] := List.ne_nil_of_length_pos (Nat.lt_trans (by decide) hlen)
  have heq := List.append_cancel_right (h.unique (demanglesTo_nestedText hm hne hnames hparams))
  have hlt := nestedText_of_gt hlen
  rw [heq] at hlt
  exact Nat.lt_irrefl _ hlt

/-- Demangling undoes the encoding of a nested name exactly up to 32768 components. -/
theorem demangles_nested_iff (hm : mangled.chars = nestedEncoding names params) (hne : names ≠ [])
    (hnames : ∀ u ∈ names, Identifier u ∧ u.length ≤ intMax) (hparams : ∀ x ∈ params, x ∈ builtinTypeList.map Prod.fst) :
    DemanglesTo mangled (nestedDemangled names params) ↔ names.length ≤ 32768 := by
  refine ⟨fun h => Nat.le_of_not_lt fun hlen => not_demanglesTo_of_gt hm hnames hparams hlen h, fun hlen => ?_⟩
  have h := demanglesTo_nestedText hm hne hnames hparams
  rwa [nestedText_of_le hne hlen] at h

end

/-- `_ZN1a1bEi`. -/
def aColonB : CString where
  chars := nestedEncoding [['a'], ['b']] ['i']
  nulFree := by decide

theorem demangles_nested_iff_aColonB :
    DemanglesTo aColonB (nestedDemangled [['a'], ['b']] ['i']) ↔ [['a'], ['b']].length ≤ 32768 :=
  demangles_nested_iff rfl (List.cons_ne_nil _ _) (by
    intro u hu
    have hletters : ∀ u ∈ [['a'], ['b']], u ≠ [] ∧ (∀ x ∈ u, isAlpha x = true) ∧ u.length ≤ intMax := by decide
    obtain ⟨hne, halpha, hlen⟩ := hletters u hu
    exact ⟨identifier_of_letters hne halpha, hlen⟩) (by decide)

/-- `_ZN`, the component `a` 32769 times, and `E`. -/
def deepName : CString where
  chars := nestedEncoding (List.replicate 32769 ['a']) []
  nulFree := by
    simp only [nestedEncoding, List.mem_append, not_or]
    refine ⟨⟨by decide, fun h => ?_⟩, by decide⟩
    obtain ⟨u, hu, hnul⟩ := List.mem_flatMap.mp h
    rw [List.eq_of_mem_replicate hu] at hnul
    exact nul_notMem_sourceName (by decide) hnul

theorem not_demangles_nested : ¬ ∀ (mangled : CString) (names : List (List Char)) (params : List Char),
    mangled.chars = nestedEncoding names params → names ≠ [] → (∀ u ∈ names, Identifier u ∧ u.length ≤ intMax) →
      (∀ x ∈ params, x ∈ builtinTypeList.map Prod.fst) → DemanglesTo mangled (nestedDemangled names params) := fun h => by
  have hnames : ∀ u ∈ List.replicate 32769 ['a'], Identifier u ∧ u.length ≤ intMax := fun u hu => by
    rw [List.eq_of_mem_replicate hu]
    exact ⟨identifier_of_letters (by decide) (by decide), by decide⟩
  have hlen : 32768 < (List.replicate 32769 ['a']).length := by
    rw [List.length_replicate]
    decide
  refine not_demanglesTo_of_gt rfl hnames (fun _ hx => absurd hx List.not_mem_nil) hlen
    (h deepName _ [] rfl ?_ hnames fun _ hx => absurd hx List.not_mem_nil)
  exact List.ne_nil_of_length_pos (Nat.lt_trans (by decide) hlen)

end Glog.Demangle
