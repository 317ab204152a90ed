import Mathlib.Logic.Function.Iterate
import Glog.Demangle.Recall

/-! # Nested names

A nested name is printed with `::` between its components, which the nest level tells apart from the first.
The level is a 16-bit number: after 32768 components it has wrapped around, and the separators stop. -/

namespace Glog.Demangle
open Backtrack Backtrack.Parser

/-- `_ZN`, the components, `E`, and the types of the parameters. -/
def nestedEncoding (names : List (List Char)) (params : List Char) : List Char :=
  "_ZN".toList ++ names.flatMap sourceName ++ 'E' :: params

/-- What is put between the output and the next component. -/
def separator (level : Int) (text u : List Char) : List Char :=
  if level ≥ 1 then "::".toList else spaceBefore text u

/-- The output after the components that come at a level. -/
def nestedText (text : List Char) (level : Int) : List (List Char) → List Char
  | [] => text
  | u :: names => nestedText (text ++ separator level text u ++ u) (nextLevel level) names

/-- What is remembered after the components. -/
def recalled (text : List Char) (level : Int) : List (List Char) → Option Remembered → Option Remembered
  | [], x => x
  | u :: names, x => recalled (text ++ separator level text u ++ u) (nextLevel level) names
      (rememberedAt (text ++ separator level text u) u x)

section
variable {mangled : CString} {n : Nat} {c c' c₁ : Config} {x y : Option Remembered} {k : Config × Option Remembered}
    {u r : List Char} {names : List (List Char)} {params : List Char}

/-! ### The loop of `ParsePrefix` -/

/-- Where no component starts, the separator is cancelled again. -/
theorem runs_prefixLoop_stop {has : Bool} (happend : c.append = true) (hended : c.nestLevel ≥ 1 → c.ended = true)
    (hroom : c.text.length + 3 < n)
    (hnone : ∀ c₁ : Config, c₁.rest = c.rest → Runs mangled n
      (parse mangled .templateParam ||| parse mangled .substitution ||| parse mangled .unscopedName) (c₁, x) false (c₁, x))
    (hargs : Runs mangled n (.branch (.ensure (fun _ => has) &&& parse mangled .templateArgs)
      (parse mangled .namePrefix) (.ret true)) (c, x) true k) :
    Runs mangled n (parse mangled (.namePrefixLoop has)) (c, x) true k := by
  refine runs_call ?_
  by_cases hlevel : c.nestLevel ≥ 1
  · have hcancel : Runs mangled n (.act maybeCancelLastSeparator)
        ({ c with text := c.text ++ "::".toList, ended := true }, x) true ({ c with ended := true }, x) :=
      runs_cancel rfl happend hlevel
    have hsame : ({ c with ended := true } : Config) = c := by
      have hended := hended hlevel
      cases c
      cases hended
      rfl
    rw [hsame] at hcancel
    exact .both (runs_separator happend hlevel hroom) (.branch_false (hnone _ rfl) (.both hcancel hargs))
  · have hcancel : Runs mangled n (.act maybeCancelLastSeparator) (c, x) true (c, x) :=
      runs_act (goes_cancel_none hlevel) fun s m => maybeCancelLastSeparator_prevName s m
    exact .both (runs_separator_none hlevel) (.branch_false (hnone c rfl) (.both hcancel hargs))

/-- A component: a separator, unless it is the first, and the name. -/
theorem runs_prefixLoop_next {has : Bool} (happend : c.append = true) (hroom : c.text.length + 3 < n)
    (hname : Runs mangled n (parse mangled .templateParam ||| parse mangled .substitution ||| parse mangled .unscopedName)
      (if c.nestLevel ≥ 1 then { c with text := c.text ++ "::".toList, ended := true } else c, x) true (c₁, y))
    (hloop : Runs mangled n (parse mangled (.namePrefixLoop true))
      ({ c₁ with nestLevel := nextLevel c₁.nestLevel }, y) true k) :
    Runs mangled n (parse mangled (.namePrefixLoop has)) (c, x) true k := by
  refine runs_call ?_
  by_cases hlevel : c.nestLevel ≥ 1
  · rw [if_pos hlevel] at hname
    exact .both (runs_separator happend hlevel hroom) (.branch_true hname (.both runs_increase hloop))
  · rw [if_neg hlevel] at hname
    exact .both (runs_separator_none hlevel) (.branch_true hname (.both runs_increase hloop))

/-- A component that is a source name. -/
theorem runs_prefixLoop_cons {has : Bool} (hrest : c.rest = sourceName u ++ r) (happend : c.append = true)
    (hu : Identifier u) (hlen : u.length ≤ intMax) (hr : r.headD '\x00' ≠ 'B')
    (hroom : c.text.length + u.length + 4 < n)
    (hloop : Runs mangled n (parse mangled (.namePrefixLoop true))
      ({ c with
        rest := r
        text := c.text ++ separator c.nestLevel c.text u ++ u
        ended := true
        nestLevel := nextLevel c.nestLevel }, rememberedAt (c.text ++ separator c.nestLevel c.text u) u x) true k) :
    Runs mangled n (parse mangled (.namePrefixLoop has)) (c, x) true k := by
  -- The name itself, behind whatever stands before it.
  have hname : ∀ c₁ : Config, c₁.rest = sourceName u ++ r → c₁.append = true → c₁.text.length + u.length + 1 < n →
      Runs mangled n (parse mangled .templateParam ||| parse mangled .substitution ||| parse mangled .unscopedName)
        (c₁, x) true (c₁.named u r, rememberedAt (c₁.text ++ spaceBefore c₁.text u) u x) := fun _ h happend hroom =>
    .either (.either (runs_silent_digit .templateParam (by decide) (isDigit_rest h))
      (runs_silent_digit .substitution (by decide) (isDigit_rest h)))
      (runs_unscopedName h hu hlen hroom happend hr)
  have hspace : spaceBefore (c.text ++ "::".toList) u = [] := if_neg fun hc => by
    rw [List.getLast?_append] at hc
    cases hc.2
  by_cases hlevel : c.nestLevel ≥ 1
  · have hstep := hname { c with text := c.text ++ "::".toList, ended := true } hrest happend
      (by simp only [List.length_append]; change _ + 2 + _ + 1 < n; omega)
    refine runs_prefixLoop_next happend (by omega) (by rw [if_pos hlevel]; exact hstep) ?_
    simpa only [Config.named, happend, if_true, hspace, List.append_nil, separator, hlevel, Bool.true_or] using hloop
  · have hstep := hname c hrest happend (by omega)
    refine runs_prefixLoop_next happend (by omega) (by rw [if_neg hlevel]; exact hstep) ?_
    simpa only [Config.named, happend, if_true, separator, hlevel, if_false, Bool.true_or] using hloop

/-- Room for the components, each with a separator. -/
def roomFor (names : List (List Char)) : Nat := (names.map fun u => u.length + 2).sum

theorem length_separator (level : Int) (text u : List Char) : (separator level text u).length ≤ 2 := by
  unfold separator spaceBefore
  split
  · exact Nat.le_refl 2
  · split <;> decide

theorem length_nestedText_le (names : List (List Char)) : ∀ (text : List Char) (level : Int),
    (nestedText text level names).length ≤ text.length + roomFor names := by
  induction names with
  | nil => exact fun text _ => Nat.le_refl _
  | cons u names ih =>
    intro text level
    have hsep := length_separator level text u
    have hrest := ih (text ++ separator level text u ++ u) (nextLevel level)
    have hroom : roomFor (u :: names) = u.length + 2 + roomFor names := rfl
    rw [nestedText, hroom]
    simp only [List.length_append] at hrest
    omega

theorem head_ne_B (names : List (List Char)) (hr : r.headD '\x00' ≠ 'B') :
    (names.flatMap sourceName ++ r).headD '\x00' ≠ 'B' := by
  cases names with
  | nil => exact hr
  | cons u names =>
    have hd := isDigit_head_sourceName u (names.flatMap sourceName ++ r)
    rw [List.flatMap_cons, List.append_assoc]
    intro hc
    rw [hc] at hd
    cases hd

/-- The loop goes through all components. -/
theorem runs_prefixLoop_names {has : Bool} (hrest : c.rest = names.flatMap sourceName ++ r) (happend : c.append = true)
    (hnames : ∀ u ∈ names, Identifier u ∧ u.length ≤ intMax) (hr : r.headD '\x00' ≠ 'B')
    (hroom : c.text.length + roomFor names + 4 < n) (hended : names ≠ [] ∨ c.ended = true)
    (hloop : Runs mangled n (parse mangled (.namePrefixLoop (!names.isEmpty || has)))
      ({ c with
        rest := r
        text := nestedText c.text c.nestLevel names
        ended := true
        nestLevel := nextLevel^[names.length] c.nestLevel }, recalled c.text c.nestLevel names x) true k) :
    Runs mangled n (parse mangled (.namePrefixLoop has)) (c, x) true k := by
  induction names generalizing c x has with
  | nil =>
    have hended := hended.resolve_left fun h => h rfl
    cases c
    cases hended
    cases hrest
    exact hloop
  | cons u names ih =>
    obtain ⟨hu, hlen⟩ := hnames u List.mem_cons_self
    have hsep := length_separator c.nestLevel c.text u
    have hsum : roomFor (u :: names) = u.length + 2 + roomFor names := rfl
    rw [List.flatMap_cons, List.append_assoc] at hrest
    refine runs_prefixLoop_cons hrest happend hu hlen (head_ne_B names hr) (by omega) ?_
    refine ih rfl happend (fun v hv => hnames v (List.mem_cons_of_mem u hv)) ?_ (Or.inr rfl) ?_
    · simp only [List.length_append]
      omega
    · rw [Bool.or_true]
      exact hloop

/-- At the `E` the loop ends. -/
theorem runs_prefixLoop_end (has : Bool) (hrest : c.rest = 'E' :: r) (happend : c.append = true) (hended : c.ended = true)
    (hroom : c.text.length + 3 < n) : Runs mangled n (parse mangled (.namePrefixLoop has)) (c, x) true (c, x) := by
  have hsilent : ∀ {c₁ : Config} (f : Func), c₁.rest = c.rest → starts 'E' f = false → f ≠ .topLevelMangledName →
      Runs mangled n (parse mangled f) (c₁, x) false (c₁, x) := fun f h hf hne =>
    runs_silent f (by rw [h, hrest]; exact hf) hne
  refine runs_prefixLoop_stop happend (fun _ => hended) hroom (fun c₁ h => ?_) (.branch_false ?_ (.ret true))
  · exact .either (.either (hsilent _ h rfl nofun) (hsilent _ h rfl nofun)) (hsilent _ h rfl nofun)
  · cases has with
    | true => exact .both (.ensure fun _ _ _ => rfl) (hsilent _ rfl rfl nofun)
    | false => exact .both_false (.ensure fun _ _ _ => rfl)

/-! ### Nested names -/

theorem runs_nestedName (hrest : c.rest = 'N' :: c₁.rest) (hd : isDigit (c₁.rest.headD '\x00') = true)
    (hc : c₁ = { c with rest := c₁.rest, nestLevel := 0 })
    (hloop : Runs mangled n (parse mangled (.namePrefixLoop false)) (c₁, x) true (c', y)) (hend : c'.rest = 'E' :: r) :
    Runs mangled n (parse mangled .nestedName) (c, x) true ({ c' with rest := r, nestLevel := c.nestLevel }, y) := by
  have henter : Runs mangled n enterNestedName ({ c with rest := c₁.rest }, x) true (c₁, x) := by
    rw [hc]
    exact runs_act goes_enterNestedName fun _ _ => ⟨rfl, rfl⟩
  have hleave :
      ∀ level, Runs mangled n (leaveNestedName level) (c', y) true ({ c' with nestLevel := level }, y) := fun level =>
    runs_act (goes_leaveNestedName level) fun _ _ => ⟨rfl, rfl⟩
  refine runs_call (.retry fun s m hs => ?_)
  refine .both (.both (.both (.both (.both (runs_token hrest) henter)
    (.optional (runs_silent_digit .cvQualifiers (by decide) hd))) (runs_call hloop)) (hleave s.nestLevel)) ?_
  rw [hs.1.nestLevel]
  exact runs_token hend

theorem isDigit_head_names (hne : names ≠ []) (r : List Char) :
    isDigit ((names.flatMap sourceName ++ r).headD '\x00') = true := by
  cases names with
  | nil => exact absurd rfl hne
  | cons u names =>
    rw [List.flatMap_cons, List.append_assoc]
    exact isDigit_head_sourceName ..

theorem goes_nestedName (hrest : c.rest = 'N' :: (names.flatMap sourceName ++ 'E' :: r)) (happend : c.append = true)
    (hnames : ∀ u ∈ names, Identifier u ∧ u.length ≤ intMax) (hne : names ≠ [])
    (hroom : c.text.length + roomFor names + 4 < n) :
    Goes mangled n (parse mangled .nestedName) c true
      { c with rest := r, text := nestedText c.text 0 names, ended := true } := by
  have hlen := length_nestedText_le names c.text 0
  let last : Config := { c with
    rest := 'E' :: r
    text := nestedText c.text 0 names
    ended := true
    nestLevel := Nat.iterate nextLevel names.length 0 }
  have hlast : ∀ has y, Runs mangled n (parse mangled (.namePrefixLoop has)) (last, y) true (last, y) := fun has y =>
    runs_prefixLoop_end has rfl happend rfl (by change (nestedText c.text 0 names).length + 3 < n; omega)
  have hloop : Runs mangled n (parse mangled (.namePrefixLoop false))
      ({ c with rest := names.flatMap sourceName ++ 'E' :: r, nestLevel := 0 }, none) true
      (last, recalled c.text 0 names none) :=
    runs_prefixLoop_names rfl happend hnames (by decide : 'E' ≠ 'B') hroom (Or.inl hne) (hlast _ _)
  exact goes_of_runs (runs_nestedName (c := c) hrest (isDigit_head_names hne _) rfl hloop rfl)

theorem goes_name_nested (hrest : c.rest = 'N' :: (names.flatMap sourceName ++ 'E' :: r)) (happend : c.append = true)
    (hnames : ∀ u ∈ names, Identifier u ∧ u.length ≤ intMax) (hne : names ≠ [])
    (hroom : c.text.length + roomFor names + 4 < n) :
    Goes mangled n (parse mangled .name) c true
      { c with rest := r, text := nestedText c.text 0 names, ended := true } :=
  goes_call (.either_true (.either_true (.either_true (goes_nestedName hrest happend hnames hne hroom))))

end

end Glog.Demangle
