import Glog.Demangle.RoundTrip
import Glog.Demangle.Siblings

/-! # Constructors and destructors

A constructor or a destructor is printed as the name of its class, which is copied from the output. The name that is copied
is the one that was remembered last, and a name that starts with a `$`, or with a byte beyond ASCII, never is. -/

namespace Glog.Demangle
open Backtrack Backtrack.Parser

/-- An identifier as compilers accept it. -/
structure CppIdentifier (u : List Char) : Prop extends Identifier u where
  chars : ∀ x ∈ u, isAlpha x = true ∨ isDigit x = true ∨ x = '_' ∨ x = '$' ∨ 128 ≤ x.toNat

/-- The constructors and destructors that are told apart. -/
def ctorKinds : List (List Char) := ["C1", "C2", "C3", "D0", "D1", "D2"].map String.toList

/-- The `~` of a destructor. -/
def tilde (kind : List Char) : List Char := if kind.head? = some 'D' then ['~'] else []

/-- `_ZN`, the components, `IiE` where the class is a template instance, the kind, and `Ev`. -/
def ctorEncoding (names : List (List Char)) (args : Bool) (kind : List Char) : List Char :=
  "_ZN".toList ++ names.flatMap sourceName ++ (if args then "IiE".toList else []) ++ kind ++ "Ev".toList

/-- The components joined by `::`, `<>` for template arguments, and what the class is called there, as a function. -/
def ctorText (names : List (List Char)) (args : Bool) (kind w : List Char) : List Char :=
  "::".toList.intercalate names ++ (if args then "<>".toList else []) ++ "::".toList ++ tilde kind ++ w ++ "()".toList

/-- The name of the class is the last component. -/
def ctorDemangled (names : List (List Char)) (args : Bool) (kind : List Char) : List Char :=
  ctorText names args kind (names.getLastD [])

section
variable {mangled : CString} {n : Nat} {c c' c₁ : Config} {x : Option Remembered} {y : Remembered} {u r w kind : List Char}
  {names : List (List Char)} {args : Bool} {k : Config × Option Remembered}

/-! ### The copy of the name -/

theorem runs_replayDtor (hy : Locates c.text y w) (happend : c.append = true) (hended : c.ended = true)
    (hroom : c.text.length + w.length + 2 < n) :
    Runs mangled n (.act replayDtorName) (c, some y) true ({ c with text := c.text ++ ['~'] ++ w }, none) := by
  have htilde :
      Runs mangled n (appending "~") (c, some y) true ({ c with text := c.text ++ "~".toList, ended := true }, some y) :=
    runs_appending (goes_appending (by change _ + 1 + 1 < n; omega) happend (by decide) (by decide)) happend (by decide)
      (by decide) (by omega)
  have hreplay : Runs mangled n (.act replayName) ({ c with text := c.text ++ "~".toList, ended := true }, some y) true
      ({ c with text := c.text ++ "~".toList ++ w, ended := true }, none) := by
    refine runs_replay (hy.extend (List.prefix_append _ _)) happend rfl ?_
    simp only [List.length_append]
    change _ + 1 + _ + 1 < n
    omega
  have heq : replayDtorName = fun s m => replayName (maybeAppend "~".toList s m).1 (maybeAppend "~".toList s m).2 :=
    funext fun s => funext fun m => replayDtorName_eq s m
  have hboth : Runs mangled n (appending "~" &&& .act replayName) (c, some y) true
      ({ c with text := c.text ++ "~".toList ++ w, ended := true }, none) := .both htilde hreplay
  rw [heq]
  cases c
  cases hended
  exact hboth

/-- A kind is a letter and a digit. -/
theorem kind_shape (hkind : kind ∈ ctorKinds) : ∃ z, (kind = ['C', z] ∧ "123".toList.contains z = true) ∨
    (kind = ['D', z] ∧ "012".toList.contains z = true) := by
  simp only [ctorKinds, List.map_cons, List.map_nil, List.mem_cons, List.not_mem_nil, or_false] at hkind
  rcases hkind with rfl | rfl | rfl | rfl | rfl | rfl
  · exact ⟨'1', Or.inl ⟨rfl, rfl⟩⟩
  · exact ⟨'2', Or.inl ⟨rfl, rfl⟩⟩
  · exact ⟨'3', Or.inl ⟨rfl, rfl⟩⟩
  · exact ⟨'0', Or.inr ⟨rfl, rfl⟩⟩
  · exact ⟨'1', Or.inr ⟨rfl, rfl⟩⟩
  · exact ⟨'2', Or.inr ⟨rfl, rfl⟩⟩

theorem runs_ctorDtorName (hkind : kind ∈ ctorKinds) (hrest : c.rest = kind ++ r) (hy : Locates c.text y w)
    (happend : c.append = true) (hended : c.ended = true) (hroom : c.text.length + w.length + 2 < n) :
    Runs mangled n (parse mangled .ctorDtorName) (c, some y) true
      ({ c with rest := r, text := c.text ++ tilde kind ++ w }, none) := by
  obtain ⟨z, ⟨rfl, hz⟩ | ⟨rfl, hz⟩⟩ := kind_shape hkind
  · have hreplay : Runs mangled n (.act replayName) ({ c with rest := r }, some y) true
        ({ c with rest := r, text := c.text ++ w }, none) :=
      runs_replay (c := { c with rest := r }) hy happend hended (by dsimp only; omega)
    have htext : c.text ++ tilde ['C', z] ++ w = c.text ++ w := congrArg (· ++ w) (List.append_nil _)
    rw [htext]
    exact runs_call (.either_true (.retry fun _ _ _ => .both (.both (runs_token hrest) (runs_parseIf rfl hz)) hreplay))
  · have hreplay : Runs mangled n (.act replayDtorName) ({ c with rest := r }, some y) true
        ({ c with rest := r, text := c.text ++ ['~'] ++ w }, none) :=
      runs_replayDtor (c := { c with rest := r }) hy happend hended hroom
    have hctor : Runs mangled n (.retry fun _ => parseOneCharToken mangled 'C' &&& parseCharClass mangled "123".toList &&&
        .act replayName) (c, some y) false (c, some y) :=
      runs_retry_false (goes_retry_false fun _ _ _ => .both_false (.both_false (goes_token_false (by
        rw [hrest]
        exact (by decide : 'D' ≠ 'C')))))
    exact runs_call (.either hctor (.retry fun _ _ _ => .both (.both (runs_token hrest) (runs_parseIf rfl hz)) hreplay))

theorem starts_kind (hkind : kind ∈ ctorKinds) {f : Func} (hf : starts 'C' f = false ∧ starts 'D' f = false) :
    starts ((kind ++ r).headD '\x00') f = false := by
  obtain ⟨z, ⟨rfl, -⟩ | ⟨rfl, -⟩⟩ := kind_shape hkind
  · exact hf.1
  · exact hf.2

/-- The last component is the constructor or the destructor. -/
theorem runs_prefixLoop_ctor {has : Bool} (hkind : kind ∈ ctorKinds) (hrest : c.rest = kind ++ 'E' :: r)
    (hy : Locates c.text y w) (happend : c.append = true) (hlevel : c.nestLevel ≥ 1)
    (hroom : c.text.length + w.length + 7 < n) :
    Runs mangled n (parse mangled (.namePrefixLoop has)) (c, some y) true
      ({ c with
        rest := 'E' :: r
        text := c.text ++ "::".toList ++ tilde kind ++ w
        ended := true
        nestLevel := nextLevel c.nestLevel }, none) := by
  have hsilent : ∀ f : Func, starts 'C' f = false ∧ starts 'D' f = false → f ≠ .topLevelMangledName →
      Runs mangled n (parse mangled f) ({ c with text := c.text ++ "::".toList, ended := true }, some y) false
        ({ c with text := c.text ++ "::".toList, ended := true }, some y) := fun f hf hne =>
    runs_silent f (by dsimp only; rw [hrest]; exact starts_kind hkind hf) hne
  have hlen : (c.text ++ "::".toList).length = c.text.length + 2 := List.length_append
  have htilde : (tilde kind).length ≤ 1 := by
    unfold tilde
    split <;> decide
  have hctor :
      Runs mangled n (parse mangled .ctorDtorName) ({ c with text := c.text ++ "::".toList, ended := true }, some y) true
      ({ c with rest := 'E' :: r, text := c.text ++ "::".toList ++ tilde kind ++ w, ended := true }, none) :=
    runs_ctorDtorName (c := { c with text := c.text ++ "::".toList, ended := true }) hkind hrest
      (hy.extend (List.prefix_append _ _)) happend rfl (by dsimp only; omega)
  have hname : Runs mangled n (parse mangled .templateParam ||| parse mangled .substitution ||| parse mangled .unscopedName)
      ({ c with text := c.text ++ "::".toList, ended := true }, some y) true
      ({ c with rest := 'E' :: r, text := c.text ++ "::".toList ++ tilde kind ++ w, ended := true }, none) :=
    .either (.either (hsilent .templateParam (by decide) nofun) (hsilent .substitution (by decide) nofun))
      (runs_call (.either_true (runs_call (.either_true (.either_true
        (.either (hsilent .operatorName (by decide) nofun) hctor))))))
  refine runs_prefixLoop_next happend (by omega) (by rw [if_pos hlevel]; exact hname) ?_
  refine runs_prefixLoop_end true rfl happend rfl ?_
  simp only [List.length_append]
  change _ + 2 + _ + _ + 3 < n
  omega

/-! ### Template arguments -/

theorem runs_templateArgs_int (hrest : c.rest = "IiE".toList ++ r) (happend : c.append = true)
    (hlevel : c.argLevel ≤ maxLevels) (hlast : c.text.getLast? ≠ some '<') (hroom : c.text.length + 3 < n) :
    Runs mangled n (parse mangled .templateArgs) (c, x) true
      ({ c with rest := r, text := c.text ++ "<>".toList, ended := true, argLevel := c.argLevel + 1 }, x) := by
  let inner : Config := { c with rest := 'i' :: 'E' :: r, append := false }
  have hdisable : Runs mangled n disableAppend (c, x) true ({ c with append := false }, x) :=
    runs_act goes_disableAppend fun _ _ => ⟨rfl, rfl⟩
  have hopen : Runs mangled n (parseOneCharToken mangled 'I') ({ c with append := false }, x) true (inner, x) :=
    runs_token hrest
  have hargs : Runs mangled n (parse mangled (.oneOrMore .templateArg)) (inner, x) true
      ({ inner with rest := 'E' :: r, argLevel := c.argLevel + 1 }, x) :=
    runs_off (goes_templateArgList (c := inner) hlevel (goes_templateArg_int rfl rfl hlevel)) rfl
  have hrestore :
      Runs mangled n (restoreAppend true) ({ c with rest := r, append := false, argLevel := c.argLevel + 1 }, x) true
      ({ c with rest := r, argLevel := c.argLevel + 1 }, x) := by
    have h : Runs mangled n (restoreAppend true) ({ c with rest := r, append := false, argLevel := c.argLevel + 1 }, x) true
        ({ c with rest := r, append := true, argLevel := c.argLevel + 1 }, x) :=
      runs_act (goes_restoreAppend true) fun _ _ => ⟨rfl, rfl⟩
    cases c
    cases happend
    exact h
  have hshow : Goes mangled n (appending "<>") { c with rest := r, argLevel := c.argLevel + 1 } true
      { c with rest := r, text := c.text ++ "<>".toList, ended := true, argLevel := c.argLevel + 1 } :=
    goes_brackets happend hlast hroom
  refine runs_call (.retry fun s m hs => .both (.both (.both (.both (.both hdisable hopen) hargs) (runs_token rfl)) ?_)
    (runs_appending hshow happend (by decide) (by decide) (by dsimp only; omega)))
  have hon : s.append = true := hs.1.append.trans happend
  rw [hon]
  exact hrestore

/-- Template arguments, and the components that follow. -/
theorem runs_prefixLoop_args (hrest : c.rest = "IiE".toList ++ r) (happend : c.append = true) (hended : c.ended = true)
    (hlevel : c.argLevel ≤ maxLevels) (hlast : c.text.getLast? ≠ some '<') (hroom : c.text.length + 3 < n)
    (hloop : Runs mangled n (parse mangled (.namePrefixLoop false))
      ({ c with rest := r, text := c.text ++ "<>".toList, ended := true, argLevel := c.argLevel + 1 }, x) true k) :
    Runs mangled n (parse mangled (.namePrefixLoop true)) (c, x) true k := by
  have hsilent : ∀ {c₁ : Config} (f : Func), c₁.rest = c.rest → starts 'I' f = false → f ≠ .topLevelMangledName →
      Runs mangled n (parse mangled f) (c₁, x) false (c₁, x) := fun f h hf hne =>
    runs_silent f (by rw [h, hrest]; exact hf) hne
  refine runs_prefixLoop_stop happend (fun _ => hended) hroom (fun c₁ h => ?_) ?_
  · exact .either (.either (hsilent _ h rfl nofun) (hsilent _ h rfl nofun)) (hsilent _ h rfl nofun)
  · exact .branch_true (.both (.ensure fun _ _ _ => rfl) (runs_templateArgs_int hrest happend hlevel hlast hroom))
      (runs_call hloop)

/-! ### Which name is remembered -/

/-- The level counts the components, until it wraps around. -/
theorem nextLevel_iterate : ∀ (k i : Nat), i + k ≤ 32767 → Nat.iterate nextLevel k (i : Int) = (i + k : Nat)
  | 0, _, _ => rfl
  | k + 1, i, h => by
    rw [Function.iterate_succ_apply, nextLevel_of_lt (by omega), nextLevel_iterate k (i + 1) (by omega), Nat.add_assoc,
      Nat.add_comm 1 k]

/-- After the components the last one that starts like a name is remembered. -/
theorem locates_recalled {text : List Char} {x : Remembered} (names : List (List Char)) (level : Int)
    (h : Locates text x w) :
    ∃ y, recalled text level names (some x) = some y ∧
      Locates (nestedText text level names) y ((names.filter remembers).getLastD w) := by
  induction names generalizing text level x w with
  | nil => exact ⟨x, rfl, h⟩
  | cons u names ih =>
    have hsep : Locates (text ++ separator level text u) x w := h.extend (List.prefix_append _ _)
    obtain ⟨y, hy, hlocates⟩ := locates_rememberedAt (u := u) hsep
    obtain ⟨z, hz, hlast⟩ := ih (nextLevel level) hlocates
    refine ⟨z, ?_, ?_⟩
    · rw [recalled, hy]
      exact hz
    · rw [nestedText, List.filter_cons]
      by_cases hu : remembers u = true
      · rw [if_pos hu, List.getLastD_cons]
        rwa [if_pos hu] at hlast
      · rw [if_neg hu]
        rwa [if_neg hu] at hlast

/-- What is remembered at first is no name. -/
theorem locates_start : Locates [] ⟨none, -1⟩ [] := ⟨rfl, fun h => absurd rfl h, fun h => absurd rfl h⟩

theorem lt_notMem_identifier (hu : CppIdentifier u) : '<' ∉ u := fun h => by
  rcases hu.chars _ h with h | h | h | h | h
  · exact absurd h (by decide)
  · exact absurd h (by decide)
  · exact absurd h (by decide)
  · exact absurd h (by decide)
  · exact absurd h (by decide)

theorem lt_notMem_nestedText (hnames : ∀ u ∈ names, CppIdentifier u) : ∀ {text : List Char} (level : Int), '<' ∉ text →
    '<' ∉ nestedText text level names := by
  induction names with
  | nil => exact fun _ h => h
  | cons u names ih =>
    intro text level htext
    have hu := lt_notMem_identifier (hnames u List.mem_cons_self)
    have hsep : '<' ∉ separator level text u := by
      unfold separator spaceBefore
      split
      · decide
      · split <;> decide
    refine ih (fun v hv => hnames v (List.mem_cons_of_mem u hv)) _ ?_
    simp only [List.mem_append, not_or]
    exact ⟨⟨htext, hsep⟩, hu⟩

theorem length_le_roomFor : ∀ {names : List (List Char)}, u ∈ names → u.length ≤ roomFor names
  | v :: names, hu => by
    have hsum : roomFor (v :: names) = v.length + 2 + roomFor names := rfl
    rcases List.mem_cons.mp hu with rfl | hu
    · omega
    · have hle := length_le_roomFor hu
      omega

/-- What is remembered in the end is nothing, or one of the components. -/
theorem getLastD_cases (names : List (List Char)) :
    (names.filter remembers).getLastD [] = [] ∨ (names.filter remembers).getLastD [] ∈ names := by
  have hmem : (names.filter remembers).getLastD [] ∈ [] :: names.filter remembers := List.getLastD_mem_cons
  exact (List.mem_cons.mp hmem).imp_right List.mem_of_mem_filter

theorem length_getLastD_le (names : List (List Char)) : ((names.filter remembers).getLastD []).length ≤ roomFor names := by
  rcases getLastD_cases names with h | h
  · rw [h]
    exact Nat.zero_le _
  · exact length_le_roomFor h

theorem kind_head (hkind : kind ∈ ctorKinds) : (kind ++ r).headD '\x00' = 'C' ∨ (kind ++ r).headD '\x00' = 'D' := by
  obtain ⟨z, ⟨rfl, -⟩ | ⟨rfl, -⟩⟩ := kind_shape hkind
  · exact Or.inl rfl
  · exact Or.inr rfl

/-! ### Whole names -/

/-- What follows the components: the template arguments, and the constructor or destructor. -/
theorem runs_prefixLoop_suffix (hkind : kind ∈ ctorKinds) (hy : Locates c.text y w) (happend : c.append = true)
    (hended : c.ended = true) (hlevel : c.argLevel = 0) (hnest : c.nestLevel ≥ 1) (hlast : c.text.getLast? ≠ some '<')
    (hroom : c.text.length + w.length + 9 < n)
    (hrest : c.rest = (if args then "IiE".toList else []) ++ (kind ++ 'E' :: r)) :
    ∃ level, Runs mangled n (parse mangled (.namePrefixLoop true)) (c, some y) true
      ({ c with
        rest := 'E' :: r
        text := c.text ++ (if args then "<>".toList else []) ++ "::".toList ++ tilde kind ++ w
        ended := true
        nestLevel := nextLevel c.nestLevel
        argLevel := level }, none) := by
  cases args with
  | false =>
    have htext : c.text ++ (if false = true then "<>".toList else []) = c.text := List.append_nil _
    rw [htext]
    exact ⟨c.argLevel, runs_prefixLoop_ctor hkind hrest hy happend hnest (by omega)⟩
  | true =>
    have hlen : (c.text ++ "<>".toList).length = c.text.length + 2 := List.length_append
    refine ⟨c.argLevel + 1,
      runs_prefixLoop_args hrest happend hended (by rw [hlevel]; exact Nat.zero_le _) hlast (by omega) ?_⟩
    exact runs_prefixLoop_ctor
      (c := { c with
        rest := kind ++ 'E' :: r, text := c.text ++ "<>".toList, ended := true, argLevel := c.argLevel + 1 }) hkind rfl
      (hy.extend (List.prefix_append _ _)) happend hnest (by dsimp only; omega)

theorem getLast?_ne_of_notMem {text : List Char} {z : Char} (h : z ∉ text) : text.getLast? ≠ some z :=
  fun hc => h (List.mem_of_getLast? hc)

/-- The components, the template arguments, and the constructor or destructor. -/
theorem runs_ctorName (hkind : kind ∈ ctorKinds) (hne : names ≠ []) (hnames : ∀ u ∈ names, CppIdentifier u)
    (hlen : ∀ u ∈ names, u.length ≤ intMax) (hmany : names.length < 2 ^ 15 - 1) (happend : c.append = true)
    (htext : c.text = []) (hlevel : c.argLevel = 0) (hroom : 2 * roomFor names + 10 < n)
    (hrest : c.rest = 'N' :: (names.flatMap sourceName ++ ((if args then "IiE".toList else []) ++ (kind ++ 'E' :: r)))) :
    ∃ level, Runs mangled n (parse mangled .name) (c, some ⟨none, -1⟩) true
      ({ c with
        rest := r
        text := "::".toList.intercalate names ++ (if args then "<>".toList else []) ++ "::".toList ++ tilde kind ++
          (names.filter remembers).getLastD []
        ended := true
        argLevel := level }, none) := by
  obtain ⟨y, hy, hlocates⟩ := locates_recalled names 0 locates_start
  have hjoined : nestedText [] 0 names = "::".toList.intercalate names := nestedText_of_le hne (by omega)
  have hshort := length_nestedText_le names [] 0
  have hw := length_getLastD_le names
  have hcount : 0 < names.length := List.length_pos_iff.mpr hne
  have hnest : Nat.iterate nextLevel names.length 0 = (names.length : Int) := by
    have h := nextLevel_iterate names.length 0 (by omega)
    rwa [Nat.zero_add] at h
  have hempty : (!names.isEmpty || false) = true := by
    rw [Bool.or_false, Bool.not_eq_true', List.isEmpty_eq_false_iff]
    exact hne
  have hB : ((if args then "IiE".toList else []) ++ (kind ++ 'E' :: r)).headD '\x00' ≠ 'B' := by
    cases args with
    | true => exact (by decide : 'I' ≠ 'B')
    | false =>
      intro hc
      rcases kind_head (r := 'E' :: r) hkind with h | h
      · cases hc.symm.trans h
      · cases hc.symm.trans h
  rw [List.length_nil, Nat.zero_add] at hshort
  -- The configuration between the components and what follows them.
  let mid : Config := { c with
    rest := (if args then "IiE".toList else []) ++ (kind ++ 'E' :: r)
    text := nestedText [] 0 names
    ended := true
    nestLevel := Nat.iterate nextLevel names.length 0 }
  obtain ⟨level, hsuffix⟩ : ∃ level, Runs mangled n (parse mangled (.namePrefixLoop true)) (mid, some y) true
      ({ mid with
        rest := 'E' :: r
        text := mid.text ++ (if args then "<>".toList else []) ++ "::".toList ++ tilde kind ++
          (names.filter remembers).getLastD []
        ended := true
        nestLevel := nextLevel mid.nestLevel
        argLevel := level }, none) :=
    runs_prefixLoop_suffix hkind hlocates happend rfl hlevel
      (by change Nat.iterate nextLevel names.length 0 ≥ 1; rw [hnest]; omega)
      (getLast?_ne_of_notMem (lt_notMem_nestedText hnames 0 List.not_mem_nil))
      (by change (nestedText [] 0 names).length + _ + _ < n; omega) rfl
  have hloop : Runs mangled n (parse mangled (.namePrefixLoop false))
      ({ c with
        rest := names.flatMap sourceName ++ ((if args then "IiE".toList else []) ++ (kind ++ 'E' :: r))
        nestLevel := 0 }, some ⟨none, -1⟩) true _ :=
    runs_prefixLoop_names rfl happend (fun u hu => ⟨(hnames u hu).toIdentifier, hlen u hu⟩) hB
      (by rw [htext, List.length_nil]; omega) (Or.inl hne) (by
        rw [hempty, htext, hy]
        exact hsuffix)
  refine ⟨level, ?_⟩
  rw [← hjoined]
  exact runs_call (.either_true (.either_true (.either_true
    (runs_nestedName (c := c) hrest (isDigit_head_names hne _) rfl hloop rfl))))

theorem nulFree_of_ctorEncoding (hm : mangled.chars = ctorEncoding names args kind) : ∀ u ∈ names, '\x00' ∉ u :=
  fun u hu hnul => mangled.nulFree (by
    rw [hm, ctorEncoding]
    refine List.mem_append_left _ (List.mem_append_left _ (List.mem_append_left _ (List.mem_append_right _ ?_)))
    exact List.mem_flatMap.mpr ⟨u, hu, List.mem_append_right _ hnul⟩)

theorem ctorEncoding_eq (names : List (List Char)) (args : Bool) (kind : List Char) : ctorEncoding names args kind =
    '_' :: 'Z' :: 'N' :: (names.flatMap sourceName ++ ((if args then "IiE".toList else []) ++ (kind ++ 'E' :: ['v']))) := by
  unfold ctorEncoding
  simp only [List.append_assoc]
  rfl

/-- What the demangler prints for a constructor or a destructor. -/
theorem demanglesTo_ctorText (hm : mangled.chars = ctorEncoding names args kind) (hkind : kind ∈ ctorKinds)
    (hne : names ≠ [])
    (hnames : ∀ u ∈ names, CppIdentifier u) (hlen : ∀ u ∈ names, u.length ≤ intMax) (hmany : names.length < 2 ^ 15 - 1) :
    DemanglesTo mangled (ctorText names args kind ((names.filter remembers).getLastD [])) := by
  refine ⟨2 * roomFor names + 20, fun n hn out => ?_⟩
  let c : Config := { startConfig mangled with
    rest := 'N' :: (names.flatMap sourceName ++ ((if args then "IiE".toList else []) ++ (kind ++ 'E' :: ['v']))) }
  obtain ⟨level, hname⟩ : ∃ level, Runs mangled n (parse mangled .name) (c, some ⟨none, -1⟩) true
      ({ c with
        rest := ['v']
        text := "::".toList.intercalate names ++ (if args then "<>".toList else []) ++ "::".toList ++ tilde kind ++
          (names.filter remembers).getLastD []
        ended := true
        argLevel := level }, none) := runs_ctorName hkind hne hnames hlen hmany rfl rfl rfl (by omega) rfl
  have hrest : (startConfig mangled).rest = '_' :: 'Z' :: c.rest := hm.trans (ctorEncoding_eq names args kind)
  have hjoined : nestedText [] 0 names = "::".toList.intercalate names := nestedText_of_le hne (by omega)
  have hshort := length_nestedText_le names [] 0
  have hnul : '\x00' ∉ nestedText [] 0 names := nul_notMem_nestedText (nulFree_of_ctorEncoding hm) 0 List.not_mem_nil
  rw [hjoined] at hshort hnul
  rw [List.length_nil, Nat.zero_add] at hshort
  have hw := length_getLastD_le names
  have hwnul : '\x00' ∉ (names.filter remembers).getLastD [] := by
    rcases getLastD_cases names with h | h
    · rw [h]
      exact List.not_mem_nil
    · exact nulFree_of_ctorEncoding hm _ h
  have htilde : (tilde kind).length ≤ 1 ∧ '\x00' ∉ tilde kind := by
    unfold tilde
    split <;> decide
  have hargs : (if args then "<>".toList else []).length ≤ 2 ∧ '\x00' ∉ (if args then "<>".toList else []) := by
    cases args <;> decide
  let after : Config := { c with
    rest := ['v']
    text := "::".toList.intercalate names ++ (if args then "<>".toList else []) ++ "::".toList ++ tilde kind ++
      (names.filter remembers).getLastD []
    ended := true
    argLevel := level }
  have hafter : after.text.length + 5 < n := by
    simp only [after, List.length_append]
    change _ + _ + 2 + _ + _ + 5 < n
    omega
  have htype : Goes mangled n (parse mangled .type) { after with append := false } true
      { after with rest := [], append := false } := goes_type_letter (by decide) rfl rfl
  have hloop : Goes mangled n (parse mangled (.zeroOrMore .type)) { after with rest := [], append := false } true
      { after with rest := [], append := false } := 
    goes_letters (fun _ h => absurd h List.not_mem_nil) rfl rfl
  have hbare := goes_bareFunctionType (c := after) (r := []) rfl (by omega) (goes_oneOrMore .type htype hloop)
  have hencoding :=
    runs_call (f := .encoding) (.either_true (.either_true (.retry fun _ _ _ => .both hname (runs_none hbare))))
  have hmangled := runs_call (f := .mangledName) (.both (runs_twoCharToken hrest) hencoding)
  have htop := runs_call (f := .topLevelMangledName)
    (.both hmangled (.branch_false (.ensure fun s m hs => by rw [hs.1.head]; rfl) (.ret true)))
  obtain ⟨s', m', hrun, hs', -⟩ := htop (s := initState (some out) n) (m := initMem (some out))
    ⟨matches_start out, fun y hy => by cases hy; exact ⟨rfl, rfl⟩⟩
  refine demangle_of_matches hrun hs' rfl ?_ ?_
  · rw [List.length_append]
    change after.text.length + 2 < n
    omega
  · simp only [after, List.mem_append, not_or]
    exact ⟨⟨⟨⟨⟨hnul, hargs.2⟩, by decide⟩, htilde.2⟩, hwnul⟩, by decide⟩

/-! ### Names that are too long -/

/-- A component whose length is no `int` ends the loop. -/
theorem runs_prefixLoop_long {has : Bool} (hrest : c.rest = sourceName u ++ r) (hu : Identifier u)
    (hlen : intMax < u.length)
    (happend : c.append = true) (hended : c.nestLevel ≥ 1 → c.ended = true) (hroom : c.text.length + 3 < n) :
    Runs mangled n (parse mangled (.namePrefixLoop has)) (c, none) true (c, none) := by
  have hd : ∀ {c₁ : Config}, c₁.rest = c.rest → isDigit (c₁.rest.headD '\x00') = true := fun h =>
    isDigit_rest (h.trans hrest)
  refine runs_prefixLoop_stop happend hended hroom (fun c₁ h => ?_) (.branch_false ?_ (.ret true))
  · exact .either (.either (runs_silent_digit .templateParam (by decide) (hd h))
      (runs_silent_digit .substitution (by decide) (hd h))) (runs_none (goes_unscopedName_long (h.trans hrest) hu hlen))
  · cases has with
    | true => exact .both (.ensure fun _ _ _ => rfl) (runs_silent_digit .templateArgs (by decide) (hd rfl))
    | false => exact .both_false (.ensure fun _ _ _ => rfl)

/-- The loop stops in front of the first component that is too long. -/
theorem runs_prefixLoop_upto {good : List (List Char)} (hrest : c.rest = good.flatMap sourceName ++ (sourceName u ++ r))
    (hgood : ∀ v ∈ good, Identifier v ∧ v.length ≤ intMax) (hu : Identifier u) (hlen : intMax < u.length)
    (happend : c.append = true) (hlevel : c.nestLevel = 0) (hroom : c.text.length + roomFor good + 4 < n) :
    ∃ c', Runs mangled n (parse mangled (.namePrefixLoop false)) (c, none) true (c', none) ∧
      c'.rest = sourceName u ++ r := by
  cases good with
  | nil =>
    refine ⟨c, runs_prefixLoop_long hrest hu hlen happend (fun h => ?_) (by omega), hrest⟩
    rw [hlevel] at h
    cases h
  | cons v good =>
    have hshort := length_nestedText_le (v :: good) c.text c.nestLevel
    have hB : (sourceName u ++ r).headD '\x00' ≠ 'B' := fun hc => by
      have hd := isDigit_head_sourceName u r
      rw [hc] at hd
      cases hd
    let stop : Config := { c with
      rest := sourceName u ++ r
      text := nestedText c.text c.nestLevel (v :: good)
      ended := true
      nestLevel := Nat.iterate nextLevel (v :: good).length c.nestLevel }
    have hstop : ∀ has, Runs mangled n (parse mangled (.namePrefixLoop has)) (stop, none) true (stop, none) := fun has =>
      runs_prefixLoop_long rfl hu hlen happend (fun _ => rfl)
        (by change (nestedText c.text c.nestLevel (v :: good)).length + 3 < n; omega)
    exact ⟨stop, runs_prefixLoop_names hrest happend hgood hB hroom (Or.inl (List.cons_ne_nil v good))
      (runs_none (goes_of_runs (hstop _))), rfl⟩

theorem goes_name_upto {good : List (List Char)} (hrest : c.rest = 'N' :: (good.flatMap sourceName ++ (sourceName u ++ r)))
    (hgood : ∀ v ∈ good, Identifier v ∧ v.length ≤ intMax) (hu : Identifier u) (hlen : intMax < u.length)
    (happend : c.append = true) (htext : c.text = []) (hended : c.ended = false) (hroom : roomFor good + 4 < n) :
    Goes mangled n (parse mangled .name) c false c := by
  have hd : isDigit ((good.flatMap sourceName ++ (sourceName u ++ r)).headD '\x00') = true := by
    have hne : good ++ [u] ≠ [] := List.append_ne_nil_of_right_ne_nil good (List.cons_ne_nil u [])
    have h := isDigit_head_names hne r
    rwa [List.flatMap_append, List.flatMap_singleton, List.append_assoc] at h
  obtain ⟨c', hloop, hstop⟩ : ∃ c', Runs mangled n (parse mangled (.namePrefixLoop false))
      ({ c with rest := good.flatMap sourceName ++ (sourceName u ++ r), nestLevel := 0 }, none) true (c', none) ∧
      c'.rest = sourceName u ++ r :=
    runs_prefixLoop_upto rfl hgood hu hlen happend rfl (by rw [htext, List.length_nil]; omega)
  have hE : c'.rest.headD '\x00' ≠ 'E' := fun hc => by
    have h := isDigit_rest hstop
    rw [hc] at h
    cases h
  have hnested : Goes mangled n (parse mangled .nestedName) c false { c with ended := false } := by
    have hback : ∀ c₁ : Config, c.text <+: c₁.text := fun c₁ => htext ▸ List.nil_prefix
    refine goes_call (goes_retry_back (fun s m hs => ?_) (hback { c' with nestLevel := c.nestLevel }))
    refine .both (.both (.both (.both (.both (goes_token hrest) goes_enterNestedName)
      (.optional (goes_silent_digit .cvQualifiers (by decide) hd))) (goes_call (goes_of_runs hloop)))
      (goes_leaveNestedName s.nestLevel)) ?_
    rw [hs.nestLevel]
    exact goes_token_false hE
  have hsame : ({ c with ended := false } : Config) = c := by
    cases c
    cases hended
    rfl
  rw [hsame] at hnested
  have hsilent : ∀ f : Func, starts 'N' f = false → f ≠ .topLevelMangledName → Goes mangled n (parse mangled f) c false c :=
    fun f hf hne => goes_silent f (by rw [hrest]; exact hf) hne
  have hS : c.rest.headD '\x00' ≠ 'S' := by
    rw [hrest]
    exact (by decide : 'N' ≠ 'S')
  have hunscoped : Goes mangled n (parse mangled .unscopedName) c false c :=
    goes_call (.either (hsilent .unqualifiedName rfl nofun)
      (goes_retry_false fun _ _ _ => .both_false (.both_false (goes_twoCharToken_false hS))))
  exact goes_call (.either (.either (.either hnested (hsilent .localName rfl nofun))
    (goes_retry_false fun _ _ _ => .both_false (goes_call (.either hunscoped (hsilent .substitution rfl nofun)))))
    hunscoped)

/-- With a component that is too long the demangler fails. -/
theorem not_demanglesTo_of_long (hm : mangled.chars = ctorEncoding names args kind) (hnames : ∀ u ∈ names, CppIdentifier u)
    (hlong : ¬ ∀ u ∈ names, u.length ≤ intMax) (text : List Char) : ¬ DemanglesTo mangled text := by
  rintro ⟨size, hsize⟩
  have hfind : (names.find? fun u => decide (intMax < u.length)).isSome := by
    rw [List.find?_isSome]
    simpa using hlong
  obtain ⟨u, hu⟩ := Option.isSome_iff_exists.mp hfind
  obtain ⟨hlen, good, rest, rfl, hgood⟩ := List.find?_eq_some_iff_append.mp hu
  have hrest : (startConfig mangled).rest = '_' :: 'Z' :: 'N' :: (good.flatMap sourceName ++ (sourceName u ++
      (rest.flatMap sourceName ++ ((if args then "IiE".toList else []) ++ (kind ++ 'E' :: ['v']))))) := by
    have heq := hm.trans (ctorEncoding_eq _ args kind)
    change mangled.chars = _
    simpa only [List.flatMap_append, List.flatMap_cons, List.append_assoc] using heq
  have hgood' : ∀ v ∈ good, Identifier v ∧ v.length ≤ intMax := fun v hv =>
    ⟨(hnames v (List.mem_append_left _ hv)).toIdentifier, by simpa using hgood v hv⟩
  have hname : Goes mangled (max size (roomFor good + 5)) (parse mangled .name)
      { startConfig mangled with rest := 'N' :: (good.flatMap sourceName ++ (sourceName u ++
        (rest.flatMap sourceName ++ ((if args then "IiE".toList else []) ++ (kind ++ 'E' :: ['v']))))) } false
      { startConfig mangled with rest := 'N' :: (good.flatMap sourceName ++ (sourceName u ++
        (rest.flatMap sourceName ++ ((if args then "IiE".toList else []) ++ (kind ++ 'E' :: ['v']))))) } :=
    goes_name_upto rfl hgood' (hnames u (List.mem_append_right _ List.mem_cons_self)).toIdentifier
      (by simpa using hlen) rfl rfl rfl
      (by omega)
  have hencoding := goes_encoding_false hname (goes_silent .specialName rfl nofun)
  have hfails := demangle_of_goes_false (goes_topLevel_false hrest hencoding) fun _ => 'x'
  rw [(hsize _ (Nat.le_max_left ..) _).1] at hfails
  cases hfails

/-! ### When the class name is printed -/

theorem getLastD_filter (hlast : remembers (names.getLastD []) = true) :
    (names.filter remembers).getLastD [] = names.getLastD [] := by
  rcases List.eq_nil_or_concat names with rfl | ⟨init, last, rfl⟩
  · rfl
  · rw [List.concat_eq_append, List.getLastD_concat] at *
    rw [List.filter_append, List.filter_singleton, hlast]
    exact List.getLastD_concat

theorem getLastD_mem (hne : names ≠ []) : names.getLastD [] ∈ names := by
  rcases List.eq_nil_or_concat names with rfl | ⟨init, last, rfl⟩
  · exact absurd rfl hne
  · simp

/-- A class name that does not start like a name is not the one that is copied. -/
theorem not_demanglesTo_of_not_remembers (hm : mangled.chars = ctorEncoding names args kind) (hkind : kind ∈ ctorKinds)
    (hne : names ≠ []) (hnames : ∀ u ∈ names, CppIdentifier u) (hlen : ∀ u ∈ names, u.length ≤ intMax)
    (hmany : names.length < 2 ^ 15 - 1) (hlast : remembers (names.getLastD []) = false) :
    ¬ DemanglesTo mangled (ctorDemangled names args kind) := fun h => by
  have heq := h.unique (demanglesTo_ctorText hm hkind hne hnames hlen hmany)
  have hname : names.getLastD [] = (names.filter remembers).getLastD [] :=
    List.append_cancel_left (List.append_cancel_right heq)
  have hmem : (names.filter remembers).getLastD [] ∈ [] :: names.filter remembers := List.getLastD_mem_cons
  rw [← hname] at hmem
  rcases List.mem_cons.mp hmem with hnil | hin
  · exact (hnames _ (getLastD_mem hne)).nonempty hnil
  · rw [(List.mem_filter.mp hin).2] at hlast
    cases hlast

/-- A constructor or a destructor is printed with the name of its class exactly where that name starts with a letter or an
    underscore, and the lengths of all names fit into `int`. -/
theorem demangles_ctor_iff (hm : mangled.chars = ctorEncoding names args kind) (hkind : kind ∈ ctorKinds) (hne : names ≠ [])
    (hnames : ∀ u ∈ names, CppIdentifier u) (hmany : names.length < 2 ^ 15 - 1) :
    DemanglesTo mangled (ctorDemangled names args kind) ↔
      remembers (names.getLastD []) = true ∧ ∀ u ∈ names, u.length ≤ intMax := by
  constructor
  · intro h
    have hlen : ∀ u ∈ names, u.length ≤ intMax := by
      by_contra hlong
      exact not_demanglesTo_of_long hm hnames hlong _ h
    refine ⟨?_, hlen⟩
    by_contra hlast
    exact not_demanglesTo_of_not_remembers hm hkind hne hnames hlen hmany (Bool.not_eq_true _ ▸ hlast) h
  · rintro ⟨hlast, hlen⟩
    have h := demanglesTo_ctorText hm hkind hne hnames hlen hmany
    rwa [getLastD_filter hlast] at h

end

/-- `_ZN1aIiED1Ev`. -/
def dtorOfA : CString where
  chars := ctorEncoding [['a']] true ['D', '1']
  nulFree := by decide

theorem cppIdentifier_a : CppIdentifier ['a'] := ⟨⟨by decide, by decide, by decide⟩, by decide⟩

theorem cppIdentifier_dollar : CppIdentifier ['$'] := ⟨⟨by decide, by decide, by decide⟩, by decide⟩

theorem demangles_ctor_iff_dtorOfA : DemanglesTo dtorOfA (ctorDemangled [['a']] true ['D', '1']) ↔
    remembers ([['a']].getLastD []) = true ∧ ∀ u ∈ [['a']], u.length ≤ intMax :=
  demangles_ctor_iff rfl (by decide) (by decide) (fun u hu => List.mem_singleton.mp hu ▸ cppIdentifier_a) (by decide)

/-- `_ZN1$C1Ev`. -/
def ctorOfDollar : CString where
  chars := ctorEncoding [['$']] false ['C', '1']
  nulFree := by decide

theorem not_demangles_ctor : ¬ ∀ (mangled : CString) (names : List (List Char)) (args : Bool) (kind : List Char),
    mangled.chars = ctorEncoding names args kind → kind ∈ ctorKinds → names ≠ [] → (∀ u ∈ names, CppIdentifier u) →
      names.length < 2 ^ 15 - 1 → DemanglesTo mangled (ctorDemangled names args kind) := fun h => by
  have hnames : ∀ u ∈ [['$']], CppIdentifier u := fun u hu => List.mem_singleton.mp hu ▸ cppIdentifier_dollar
  have hlen : ∀ u ∈ [['$']], u.length ≤ intMax := by decide
  exact not_demanglesTo_of_not_remembers rfl (by decide) (by decide) hnames hlen (by decide) (by decide)
    (h ctorOfDollar [['$']] false ['C', '1'] rfl (by decide) (by decide) hnames (by decide))

end Glog.Demangle
