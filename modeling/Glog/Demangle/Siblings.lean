import Glog.Demangle.Signatures

/-! # Template arguments one after another

Every template argument list leaves the recursion level of `ParseTemplateArg` one higher than it was: the call
that fails at the `E` has raised it. The seventh list is cut off, although none is nested in another. -/

namespace Glog.Demangle
open Backtrack Backtrack.Parser

/-- The class template instance `t<int>`. -/
def instanceName (t : List Char) : List Char := sourceName t ++ "IiE".toList

/-- A function with a parameter of each type. -/
def siblingsEncoding (f : List Char) (ts : List (List Char)) : List Char :=
  "_Z".toList ++ sourceName f ++ ts.flatMap instanceName

section
variable {mangled : CString} {n : Nat} {c c' : Config} {t r : List Char} {ts : List (List Char)}

theorem Config.named_off (happend : c.append = false) : c.named t r = { c with rest := r } := by
  cases c
  cases happend
  rfl

theorem goes_disableAppend_off (happend : c.append = false) : Goes mangled n disableAppend c true c := by
  have h : Goes mangled n disableAppend c true { c with append := false } := goes_disableAppend
  cases c
  cases happend
  exact h

/-! ### Template arguments -/

/-- A type or a primary expression as an argument. -/
theorem goes_templateArg_of (hhead : c.rest.headD '\x00' ∉ ['I', 'J']) (hlevel : c.argLevel ≤ maxLevels)
    (h : Goes mangled n (parse mangled .type ||| parse mangled .exprPrimary) { c with argLevel := c.argLevel + 1 } true
      { c with rest := r, argLevel := c.argLevel + 1 }) :
    Goes mangled n (parse mangled .templateArg) c true { c with rest := r } := by
  have hcheck : Goes mangled n (.ensure fun s => s.argLevel ≤ maxLevels) c true c :=
    .ensure fun s m hs => decide_eq_true (hs.argLevel ▸ hlevel)
  have hne : ∀ x ∈ ['I', 'J'], c.rest.headD '\x00' ≠ x := fun x hx h => hhead (h ▸ hx)
  exact goes_call (.both (.both hcheck goes_raiseArgLevel) (.either_true (.either (goes_retry_false fun _ _ _ =>
    .both_false (.both_false (.both_false
      (.either (goes_token_false (hne 'I' (by decide))) (goes_token_false (hne 'J' (by decide)))))))
    (.retry fun _ _ _ => .both h goes_lowerArgLevel))))

/-- A call that fails leaves the level raised. -/
theorem goes_templateArg_false (hhead : c.rest.headD '\x00' ∉ ['I', 'J', 'X']) (hlevel : c.argLevel ≤ maxLevels)
    (h : Goes mangled n (parse mangled .type ||| parse mangled .exprPrimary) { c with argLevel := c.argLevel + 1 } false
      { c with argLevel := c.argLevel + 1 }) :
    Goes mangled n (parse mangled .templateArg) c false { c with argLevel := c.argLevel + 1 } := by
  have hcheck : Goes mangled n (.ensure fun s => s.argLevel ≤ maxLevels) c true c :=
    .ensure fun s m hs => decide_eq_true (hs.argLevel ▸ hlevel)
  have hne : ∀ x ∈ ['I', 'J', 'X'], c.rest.headD '\x00' ≠ x := fun x hx h => hhead (h ▸ hx)
  exact goes_call (.both (.both hcheck goes_raiseArgLevel) (.either (.either
    (goes_retry_false fun _ _ _ => .both_false (.both_false (.both_false
      (.either (goes_token_false (hne 'I' (by decide))) (goes_token_false (hne 'J' (by decide)))))))
    (goes_retry_false fun _ _ _ => .both_false h))
    (goes_retry_false fun _ _ _ => .both_false (.both_false (.both_false (goes_token_false (hne 'X' (by decide))))))))

theorem goes_templateArg_int (hrest : c.rest = 'i' :: r) (happend : c.append = false) (hlevel : c.argLevel ≤ maxLevels) :
    Goes mangled n (parse mangled .templateArg) c true { c with rest := r } := by
  have htype : Goes mangled n (parse mangled .type) { c with argLevel := c.argLevel + 1 } true
      { c with rest := r, argLevel := c.argLevel + 1 } := goes_type_letter (by decide) hrest happend
  refine goes_templateArg_of ?_ hlevel (.either_true htype)
  rw [hrest]
  exact (by decide : 'i' ∉ ['I', 'J'])

/-- At the end of the list a call fails, with the level raised. -/
theorem goes_templateArg_end (hrest : c.rest = 'E' :: r) (hlevel : c.argLevel ≤ maxLevels) :
    Goes mangled n (parse mangled .templateArg) c false { c with argLevel := c.argLevel + 1 } := by
  have hsilent : ∀ f : Func, starts 'E' f = false → f ≠ .topLevelMangledName → Goes mangled n (parse mangled f)
      { c with argLevel := c.argLevel + 1 } false { c with argLevel := c.argLevel + 1 } :=
    fun f hf hne => goes_silent f (by rw [hrest]; exact hf) hne
  refine goes_templateArg_false ?_ hlevel (.either (hsilent .type rfl nofun) (hsilent .exprPrimary rfl nofun))
  rw [hrest]
  exact (by decide : 'E' ∉ ['I', 'J', 'X'])

theorem goes_templateArg_cut (hlevel : maxLevels < c.argLevel) :
    Goes mangled n (parse mangled .templateArg) c false c := by
  have hcheck : Goes mangled n (.ensure fun s => s.argLevel ≤ maxLevels) c false c :=
    .ensure fun s m hs => decide_eq_false (Nat.not_le.mpr (hs.argLevel ▸ hlevel))
  exact goes_call (.both_false (.both_false hcheck))

/-- The argument, and the call at the end of the list. -/
theorem goes_templateArgList (hlevel : c.argLevel ≤ maxLevels)
    (harg : Goes mangled n (parse mangled .templateArg) c true { c with rest := 'E' :: r }) :
    Goes mangled n (parse mangled (.oneOrMore .templateArg)) c true
      { c with rest := 'E' :: r, argLevel := c.argLevel + 1 } := by
  have hend : Goes mangled n (parse mangled .templateArg) { c with rest := 'E' :: r } false
      { c with rest := 'E' :: r, argLevel := c.argLevel + 1 } := goes_templateArg_end rfl hlevel
  exact goes_oneOrMore .templateArg harg (goes_zeroOrMore_end .templateArg hend)

theorem goes_templateArgs_int (hrest : c.rest = "IiE".toList ++ r) (happend : c.append = false)
    (hlevel : c.argLevel ≤ maxLevels) : Goes mangled n (parse mangled .templateArgs) c true
      { c with rest := r, argLevel := c.argLevel + 1 } := by
  have hoff : Goes mangled n disableAppend c true c := goes_disableAppend_off happend
  have hopen : Goes mangled n (parseOneCharToken mangled 'I') c true { c with rest := 'i' :: 'E' :: r } := goes_token hrest
  have hargs : Goes mangled n (parse mangled (.oneOrMore .templateArg)) { c with rest := 'i' :: 'E' :: r } true
      { c with rest := 'E' :: r, argLevel := c.argLevel + 1 } :=
    goes_templateArgList (c := { c with rest := 'i' :: 'E' :: r }) hlevel (goes_templateArg_int rfl happend hlevel)
  refine goes_call (.retry fun s m hs => .both (.both (.both (.both (.both hoff hopen) hargs) (goes_token rfl)) ?_)
    (goes_appending_off happend))
  rw [hs.append]
  exact goes_restoreAppend (c := { c with rest := r, argLevel := c.argLevel + 1 }) c.append

theorem goes_brackets (happend : c.append = true) (hlast : c.text.getLast? ≠ some '<') (hroom : c.text.length + 3 < n) :
    Goes mangled n (appending "<>") c true { c with text := c.text ++ "<>".toList, ended := true } := .act fun s m hs => by
  have hspace : spaceBefore c.text "<>".toList = [] := if_neg fun hc => hlast hc.2
  have hnext := matches_maybeAppendWithLength hs (u := "<>".toList) (by decide) hroom happend
  rw [hspace, List.append_nil] at hnext
  rwa [maybeAppend, if_pos (hs.append.trans happend)]

/-- The arguments are parsed with the append mode off, and replaced by a pair of brackets. -/
theorem goes_templateArgs {r₁ : List Char} {level : Nat} (hrest : c.rest = 'I' :: r) (happend : c.append = true)
    (hlast : c.text.getLast? ≠ some '<') (hroom : c.text.length + 3 < n)
    (h : Goes mangled n (parse mangled (.oneOrMore .templateArg)) { c with rest := r, append := false } true
      { c with rest := 'E' :: r₁, append := false, argLevel := level }) :
    Goes mangled n (parse mangled .templateArgs) c true
      { c with rest := r₁, text := c.text ++ "<>".toList, ended := true, argLevel := level } := by
  have hopen : Goes mangled n (parseOneCharToken mangled 'I') { c with append := false } true
      { c with rest := r, append := false } := goes_token hrest
  have hclose :
      Goes mangled n (parseOneCharToken mangled 'E') { c with rest := 'E' :: r₁, append := false, argLevel := level }
      true { c with rest := r₁, append := false, argLevel := level } := goes_token rfl
  refine goes_call (.retry fun s m hs => .both (.both (.both (.both (.both goes_disableAppend hopen) h) hclose)
    (goes_restoreAppend s.append)) ?_)
  have hshow : Goes mangled n (appending "<>") { c with rest := r₁, append := true, argLevel := level } true
      { c with rest := r₁, text := c.text ++ "<>".toList, append := true, ended := true, argLevel := level } :=
    goes_brackets rfl hlast hroom
  rw [hs.append, happend]
  cases c
  cases happend
  exact hshow

theorem goes_templateArgs_false {level : Nat} (hrest : c.rest = 'I' :: r)
    (h : Goes mangled n (parse mangled .templateArg) { c with rest := r, append := false } false
      { c with rest := r, append := false, argLevel := level }) :
        Goes mangled n (parse mangled .templateArgs) c false c := by
  have hopen : Goes mangled n (parseOneCharToken mangled 'I') { c with append := false } true
      { c with rest := r, append := false } := goes_token hrest
  exact goes_call (.retry_false (fun _ _ _ => .both_false (.both_false (.both_false
    (.both (.both goes_disableAppend hopen) (goes_oneOrMore_false .templateArg h)))))
    fun _ _ _ _ hs hs₁ => { hs with shows := hs₁.shows, ended := hs₁.ended })

theorem goes_templateArgs_cut (hrest : c.rest = 'I' :: r) (hlevel : maxLevels < c.argLevel) :
    Goes mangled n (parse mangled .templateArgs) c false c :=
  goes_templateArgs_false hrest (goes_templateArg_cut hlevel)

/-! ### Names -/

theorem goes_unscopedTemplateName (hrest : c.rest = sourceName t ++ r) (ht : Identifier t) (hlen : t.length ≤ intMax)
    (hroom : c.text.length + t.length + 1 < n) (hr : r.headD '\x00' ≠ 'B') :
    Goes mangled n (parse mangled .unscopedTemplateName) c true (c.named t r) :=
  goes_call (.either_true (goes_unscopedName hrest ht hlen hroom hr))

theorem goes_name_template (hrest : c.rest = sourceName t ++ r) (ht : Identifier t) (hlen : t.length ≤ intMax)
    (hroom : c.text.length + t.length + 1 < n) (hr : r.headD '\x00' ≠ 'B')
    (hargs : Goes mangled n (parse mangled .templateArgs) (c.named t r) true c') :
    Goes mangled n (parse mangled .name) c true c' := by
  have hd := isDigit_rest hrest
  exact goes_call (.either_true (.either (.either (goes_silent_digit .nestedName (by decide) hd)
    (goes_silent_digit .localName (by decide) hd))
    (.retry fun _ _ _ => .both (goes_unscopedTemplateName hrest ht hlen hroom hr) hargs)))

/-- A name that is not followed by template arguments is parsed a second time. -/
theorem goes_name_plain (hrest : c.rest = sourceName t ++ r) (ht : Identifier t) (hlen : t.length ≤ intMax)
    (hroom : c.text.length + t.length + 1 < n) (hr : r.headD '\x00' ≠ 'B')
    (hargs : Goes mangled n (parse mangled .templateArgs) (c.named t r) false (c.named t r)) :
    Goes mangled n (parse mangled .name) c true ({ c with ended := false }.named t r) := by
  have hd := isDigit_rest hrest
  have htext : c.text <+: (c.named t r).text := by
    unfold Config.named
    dsimp only
    split
    · rw [List.append_assoc]
      exact List.prefix_append ..
    · exact List.prefix_refl _
  have hretry : Goes mangled n (.retry fun _ => parse mangled .unscopedTemplateName &&& parse mangled .templateArgs) c false
      { c with ended := false } :=
    goes_retry_back (fun _ _ _ => .both (goes_unscopedTemplateName hrest ht hlen hroom hr) hargs) htext
  exact goes_call (.either (.either (.either (goes_silent_digit .nestedName (by decide) hd)
    (goes_silent_digit .localName (by decide) hd)) hretry)
    (goes_unscopedName hrest ht hlen hroom hr))

theorem goes_name_long (hrest : c.rest = sourceName t ++ r) (ht : Identifier t) (hlen : intMax < t.length) :
    Goes mangled n (parse mangled .name) c false c := by
  have hd := isDigit_rest hrest
  have htemplate : Goes mangled n (parse mangled .unscopedTemplateName) c false c :=
    goes_call (.either (goes_unscopedName_long hrest ht hlen) (goes_silent_digit .substitution (by decide) hd))
  exact goes_call (.either (.either (.either (goes_silent_digit .nestedName (by decide) hd)
    (goes_silent_digit .localName (by decide) hd))
    (goes_retry_false fun _ _ _ => .both_false htemplate)) (goes_unscopedName_long hrest ht hlen))

/-! ### The types of the parameters -/

theorem instanceName_append (t r : List Char) : instanceName t ++ r = sourceName t ++ ("IiE".toList ++ r) :=
  List.append_assoc ..

/-- One instance raises the level for good. -/
theorem goes_instance (hrest : c.rest = instanceName t ++ r) (happend : c.append = false) (ht : Identifier t)
    (hlen : t.length ≤ intMax) (hroom : c.text.length + t.length + 1 < n) (hlevel : c.argLevel ≤ maxLevels) :
    Goes mangled n (parse mangled .type) c true { c with rest := r, argLevel := c.argLevel + 1 } := by
  rw [instanceName_append] at hrest
  have hargs : Goes mangled n (parse mangled .templateArgs) { c with rest := "IiE".toList ++ r } true
      { c with rest := r, argLevel := c.argLevel + 1 } := goes_templateArgs_int rfl happend hlevel
  rw [← Config.named_off (t := t) happend] at hargs
  exact goes_type_name (isDigit_rest hrest) (goes_name_template hrest ht hlen hroom (show 'I' ≠ 'B' by decide) hargs)

/-- Above the limit the type ends before the template arguments. -/
theorem goes_instance_cut (hrest : c.rest = instanceName t ++ r) (happend : c.append = false) (ht : Identifier t)
    (hlen : t.length ≤ intMax) (hroom : c.text.length + t.length + 1 < n) (hlevel : maxLevels < c.argLevel) :
    Goes mangled n (parse mangled .type) c true { c with rest := "IiE".toList ++ r, ended := false } := by
  rw [instanceName_append] at hrest
  have hargs : Goes mangled n (parse mangled .templateArgs) (c.named t ("IiE".toList ++ r)) false
      (c.named t ("IiE".toList ++ r)) := goes_templateArgs_cut rfl hlevel
  have hname := goes_name_plain hrest ht hlen hroom (show 'I' ≠ 'B' by decide) hargs
  rw [Config.named_off (c := { c with ended := false }) happend] at hname
  exact goes_type_name (isDigit_rest hrest) hname

theorem goes_instance_long (hrest : c.rest = instanceName t ++ r) (ht : Identifier t) (hlen : intMax < t.length) :
    Goes mangled n (parse mangled .type) c false c := by
  rw [instanceName_append] at hrest
  exact goes_type_name_false (isDigit_rest hrest) (goes_name_long hrest ht hlen)

/-- Enough room for each name on its own. -/
def Fits (n : Nat) (text : List Char) (ts : List (List Char)) : Prop := ∀ t ∈ ts, text.length + t.length + 1 < n

theorem goes_instances (hrest : c.rest = ts.flatMap instanceName) (happend : c.append = false)
    (hts : ∀ t ∈ ts, Identifier t ∧ t.length ≤ intMax) (hroom : Fits n c.text ts)
    (hlevel : c.argLevel + ts.length ≤ maxLevels + 1) :
    Goes mangled n (parse mangled (.zeroOrMore .type)) c true
      { c with rest := [], argLevel := c.argLevel + ts.length } := by
  induction ts generalizing c with
  | nil =>
    have hend : Goes mangled n (parse mangled .type) c false c := goes_silent .type (by rw [hrest]; rfl) nofun
    cases c
    cases hrest
    exact goes_zeroOrMore_end .type hend
  | cons t ts ih =>
    obtain ⟨ht, hlen⟩ := hts t List.mem_cons_self
    rw [List.length_cons] at hlevel
    have hfirst : Goes mangled n (parse mangled .type) c true
        { c with rest := ts.flatMap instanceName, argLevel := c.argLevel + 1 } :=
      goes_instance hrest happend ht hlen (hroom t List.mem_cons_self) (by omega)
    have hloop := ih (c := { c with rest := ts.flatMap instanceName, argLevel := c.argLevel + 1 }) rfl happend
      (fun u hu => hts u (List.mem_cons_of_mem t hu)) (fun u hu => hroom u (List.mem_cons_of_mem t hu)) (by
        change c.argLevel + 1 + ts.length ≤ _
        omega)
    rw [show c.argLevel + (t :: ts).length = c.argLevel + 1 + ts.length by rw [List.length_cons]; omega]
    exact goes_zeroOrMore .type hfirst hloop

/-- Where the mangled name cannot end. -/
def Stuck (rest : List Char) : Prop := ∃ x r, rest = x :: r ∧ x ∉ ['\x00', '.', '@']

theorem stuck_instance (t r : List Char) : Stuck (instanceName t ++ r) := by
  have hd := isDigit_head_sourceName t ("IiE".toList ++ r)
  rw [← instanceName_append] at hd
  cases hrest : instanceName t ++ r with
  | nil =>
    rw [hrest] at hd
    cases hd
  | cons x rest =>
    rw [hrest] at hd
    have hdigits : ∀ y ∈ "0123456789".toList, y ∉ ['\x00', '.', '@'] := by decide
    exact ⟨x, rest, rfl, hdigits x (mem_digits hd)⟩

/-- The loop stops at a name that is too long, or at the arguments of the instance that exceeds the limit. -/
theorem goes_instances_stuck (hrest : c.rest = ts.flatMap instanceName) (happend : c.append = false)
    (hts : ∀ t ∈ ts, Identifier t) (hroom : Fits n c.text ts) (hlevel : c.argLevel ≤ maxLevels + 1)
    (hbad : ¬ (c.argLevel + ts.length ≤ maxLevels + 1 ∧ ∀ t ∈ ts, t.length ≤ intMax)) :
    ∃ rest level ended, Stuck rest ∧ Goes mangled n (parse mangled (.zeroOrMore .type)) c true
      { c with rest := rest, ended := ended, argLevel := level } := by
  induction ts generalizing c with
  | nil => exact absurd ⟨hlevel, fun _ h => absurd h List.not_mem_nil⟩ hbad
  | cons t ts ih =>
    have ht := hts t List.mem_cons_self
    by_cases hlen : t.length ≤ intMax
    · by_cases hlow : c.argLevel ≤ maxLevels
      · have hfirst : Goes mangled n (parse mangled .type) c true
            { c with rest := ts.flatMap instanceName, argLevel := c.argLevel + 1 } :=
          goes_instance hrest happend ht hlen (hroom t List.mem_cons_self) hlow
        obtain ⟨rest, level, ended, hstuck, hloop⟩ := ih
          (c := { c with rest := ts.flatMap instanceName, argLevel := c.argLevel + 1 }) rfl happend
          (fun u hu => hts u (List.mem_cons_of_mem t hu)) (fun u hu => hroom u (List.mem_cons_of_mem t hu))
          (Nat.succ_le_succ hlow) fun hgood => hbad (by
            obtain ⟨hsum, hall⟩ := hgood
            rw [List.length_cons]
            change c.argLevel + 1 + ts.length ≤ _ at hsum
            exact ⟨by omega, List.forall_mem_cons.mpr ⟨hlen, hall⟩⟩)
        exact ⟨rest, level, ended, hstuck, goes_zeroOrMore .type hfirst hloop⟩
      · have hcut : Goes mangled n (parse mangled .type) c true
            { c with rest := "IiE".toList ++ ts.flatMap instanceName, ended := false } :=
          goes_instance_cut hrest happend ht hlen (hroom t List.mem_cons_self) (Nat.lt_of_not_le hlow)
        have hend : Goes mangled n (parse mangled .type)
            { c with rest := "IiE".toList ++ ts.flatMap instanceName, ended := false } false
            { c with rest := "IiE".toList ++ ts.flatMap instanceName, ended := false } := goes_silent .type rfl nofun
        exact ⟨_, c.argLevel, false, ⟨'I', _, rfl, by decide⟩, goes_zeroOrMore .type hcut (goes_zeroOrMore_end .type hend)⟩
    · have hlong : Goes mangled n (parse mangled .type) c false c :=
        goes_instance_long hrest ht (Nat.lt_of_not_le hlen)
      exact ⟨c.rest, c.argLevel, c.ended, hrest ▸ stuck_instance t _, goes_zeroOrMore_end .type hlong⟩

/-! ### The whole signature -/

/-- The configuration behind the function's name. -/
def afterFunction (mangled : CString) (f : List Char) (ts : List (List Char)) : Config :=
  { startConfig mangled with rest := ts.flatMap instanceName, text := f, ended := true }

theorem rest_of_siblings {f : List Char} (hm : mangled.chars = siblingsEncoding f ts) :
    (startConfig mangled).rest = '_' :: 'Z' :: (sourceName f ++ ts.flatMap instanceName) := by
  change mangled.chars = _
  rw [hm, siblingsEncoding, List.append_assoc]
  rfl

theorem goes_functionName {f : List Char} (hf : Identifier f) (hlen : f.length ≤ intMax) (hts : ts ≠ [])
    (hroom : f.length + 1 < n) : Goes mangled n (parse mangled .name)
      { startConfig mangled with rest := sourceName f ++ ts.flatMap instanceName } true (afterFunction mangled f ts) := by
  obtain ⟨t, ts, rfl⟩ := List.exists_cons_of_ne_nil hts
  have hd : isDigit (((t :: ts).flatMap instanceName).headD '\x00') = true := by
    rw [List.flatMap_cons, instanceName_append]
    exact isDigit_head_sourceName ..
  have hnot : ((t :: ts).flatMap instanceName).headD '\x00' ≠ 'B' := fun hc => by
    rw [hc] at hd
    cases hd
  have hnamed : { startConfig mangled with rest := sourceName f ++ (t :: ts).flatMap instanceName }.named f
      ((t :: ts).flatMap instanceName) = afterFunction mangled f (t :: ts) := by
    have hspace : spaceBefore [] f = [] := if_neg fun h => by cases h.2
    simp only [Config.named, startConfig, afterFunction, hspace, if_true, List.nil_append, Bool.true_or]
  have hname : Goes mangled n (parse mangled .name)
      { startConfig mangled with rest := sourceName f ++ (t :: ts).flatMap instanceName } true
      ({ startConfig mangled with rest := sourceName f ++ (t :: ts).flatMap instanceName }.named f
        ((t :: ts).flatMap instanceName)) :=
    goes_name_plain rfl hf hlen (by simp only [startConfig, List.length_nil]; omega) hnot
      (goes_silent_digit .templateArgs (by decide) hd)
  rwa [hnamed] at hname

theorem le_sum_lengths {t : List Char} (ht : t ∈ ts) : t.length ≤ (ts.map List.length).sum := by
  induction ts with
  | nil => cases ht
  | cons u ts ih =>
    rw [List.map_cons, List.sum_cons]
    rcases List.mem_cons.mp ht with rfl | ht
    · exact Nat.le_add_right ..
    · exact Nat.le_trans (ih ht) (Nat.le_add_left ..)

theorem fits_of_sum {f : List Char} (hroom : f.length + (ts.map List.length).sum + 1 < n) : Fits n f ts :=
  fun t ht => by
    have hle := le_sum_lengths ht
    omega

/-- Up to six instances the signature is demangled. -/
theorem demanglesTo_siblings {f : List Char} (hm : mangled.chars = siblingsEncoding f ts) (hts : ts ≠ [])
    (hall : ∀ u ∈ f :: ts, Identifier u ∧ u.length ≤ intMax) (hcount : ts.length ≤ 6) :
    DemanglesTo mangled (f ++ "()".toList) := by
  refine ⟨f.length + (ts.map List.length).sum + 4, fun n hn out => ?_⟩
  obtain ⟨hf, hlen⟩ := hall f List.mem_cons_self
  have hname : Goes mangled n (parse mangled .name) _ true (afterFunction mangled f ts) :=
    goes_functionName hf hlen hts (by omega)
  have hfits : Fits n f ts := fits_of_sum (by omega)
  obtain ⟨t, ts, rfl⟩ := List.exists_cons_of_ne_nil hts
  obtain ⟨ht, htlen⟩ := hall t (List.mem_cons_of_mem f List.mem_cons_self)
  have hfirst : Goes mangled n (parse mangled .type) { afterFunction mangled f (t :: ts) with append := false } true
      { afterFunction mangled f (t :: ts) with rest := ts.flatMap instanceName, append := false, argLevel := 1 } :=
    goes_instance rfl rfl ht htlen (hfits t List.mem_cons_self) (Nat.zero_le _)
  have hloop : Goes mangled n (parse mangled (.zeroOrMore .type))
      { afterFunction mangled f (t :: ts) with rest := ts.flatMap instanceName, append := false, argLevel := 1 } true
      { afterFunction mangled f (t :: ts) with rest := [], append := false, argLevel := 1 + ts.length } :=
    goes_instances rfl rfl (fun u hu => hall u (List.mem_cons_of_mem f (List.mem_cons_of_mem t hu)))
      (fun u hu => hfits u (List.mem_cons_of_mem t hu)) (by
        rw [List.length_cons] at hcount
        change 1 + ts.length ≤ 6
        omega)
  have hbare := goes_bareFunctionType (c := afterFunction mangled f (t :: ts)) rfl
    (by simp only [afterFunction]; omega) (goes_oneOrMore .type hfirst hloop)
  have htop := goes_topLevel (rest_of_siblings hm) (goes_encoding_function hname hbare) rfl
  refine demangle_of_goes htop rfl ?_ ?_ out
  · simp only [afterFunction, List.length_append]
    change _ + 2 < n
    omega
  · simp only [afterFunction, List.mem_append, not_or]
    refine ⟨fun hnul => mangled.nulFree ?_, by decide⟩
    rw [hm, siblingsEncoding]
    exact List.mem_append_left _ (List.mem_append_right _ (List.mem_append_right _ hnul))

/-- Beyond that, or with a name that is too long, it is rejected. -/
theorem demangle_siblings_false {f : List Char} (hm : mangled.chars = siblingsEncoding f ts) (hts : ts ≠ [])
    (hall : ∀ u ∈ f :: ts, Identifier u) (hbad : ¬ (ts.length ≤ 6 ∧ ∀ u ∈ f :: ts, u.length ≤ intMax))
    (hn : f.length + (ts.map List.length).sum + 4 ≤ n) (out : Nat → Char) : (demangle mangled (some out) n).1 = false := by
  have hf := hall f List.mem_cons_self
  by_cases hlen : f.length ≤ intMax
  · have hname : Goes mangled n (parse mangled .name) _ true (afterFunction mangled f ts) :=
      goes_functionName hf hlen hts (by omega)
    have hfits : Fits n f ts := fits_of_sum (by omega)
    obtain ⟨t, ts, rfl⟩ := List.exists_cons_of_ne_nil hts
    have ht := hall t (List.mem_cons_of_mem f List.mem_cons_self)
    by_cases htlen : t.length ≤ intMax
    · have hfirst : Goes mangled n (parse mangled .type) { afterFunction mangled f (t :: ts) with append := false } true
          { afterFunction mangled f (t :: ts) with rest := ts.flatMap instanceName, append := false, argLevel := 1 } :=
        goes_instance rfl rfl ht htlen (hfits t List.mem_cons_self) (Nat.zero_le _)
      have hstuck : ∃ rest level ended, Stuck rest ∧ Goes mangled n (parse mangled (.zeroOrMore .type))
          { afterFunction mangled f (t :: ts) with rest := ts.flatMap instanceName, append := false, argLevel := 1 } true
          { afterFunction mangled f (t :: ts) with rest := rest, ended := ended, append := false, argLevel := level } :=
        goes_instances_stuck rfl rfl (fun u hu => hall u (List.mem_cons_of_mem f (List.mem_cons_of_mem t hu)))
          (fun u hu => hfits u (List.mem_cons_of_mem t hu)) (by decide : 1 ≤ 6) fun hgood => hbad (by
            obtain ⟨hcount, hlens⟩ := hgood
            change 1 + ts.length ≤ 6 at hcount
            rw [List.length_cons]
            exact ⟨by omega, List.forall_mem_cons.mpr ⟨hlen, List.forall_mem_cons.mpr ⟨htlen, hlens⟩⟩⟩)
      obtain ⟨rest, level, ended, ⟨x, r, rfl, hx⟩, hloop⟩ := hstuck
      have hbare := goes_bareFunctionType (c := afterFunction mangled f (t :: ts)) rfl
        (by simp only [afterFunction]; omega) (goes_oneOrMore .type hfirst hloop)
      exact demangle_of_goes_false
        (goes_topLevel_rest (rest_of_siblings hm) (goes_encoding_function hname hbare) rfl hx) out
    · have hlong : Goes mangled n (parse mangled .type) { afterFunction mangled f (t :: ts) with append := false } false
          { afterFunction mangled f (t :: ts) with append := false } :=
        goes_instance_long rfl ht (Nat.lt_of_not_le htlen)
      have hbare := goes_bareFunctionType_false (goes_oneOrMore_false .type hlong)
      have hencoding := goes_encoding_data hname List.nil_prefix hbare hname
      obtain ⟨x, r, hrest, hx⟩ := stuck_instance t (ts.flatMap instanceName)
      exact demangle_of_goes_false (goes_topLevel_rest (rest_of_siblings hm) hencoding hrest hx) out
  · have hlong : Goes mangled n (parse mangled .name)
        { startConfig mangled with rest := sourceName f ++ ts.flatMap instanceName } false
        { startConfig mangled with rest := sourceName f ++ ts.flatMap instanceName } :=
      goes_name_long rfl hf (Nat.lt_of_not_le hlen)
    have hspecial : Goes mangled n (parse mangled .specialName)
        { startConfig mangled with rest := sourceName f ++ ts.flatMap instanceName } false
        { startConfig mangled with rest := sourceName f ++ ts.flatMap instanceName } :=
      goes_silent_digit .specialName (by decide) (isDigit_head_sourceName f _)
    exact demangle_of_goes_false (goes_topLevel_false (rest_of_siblings hm) (goes_encoding_false hlong hspecial)) out

theorem not_demanglesTo_siblings {f : List Char} (hm : mangled.chars = siblingsEncoding f ts) (hts : ts ≠ [])
    (hall : ∀ u ∈ f :: ts, Identifier u) (hbad : ¬ (ts.length ≤ 6 ∧ ∀ u ∈ f :: ts, u.length ≤ intMax)) :
    ¬ DemanglesTo mangled (f ++ "()".toList) := fun ⟨size, h⟩ => by
  have hfalse := demangle_siblings_false hm hts hall hbad (Nat.le_add_left _ size) fun _ => 'x'
  rw [(h _ (Nat.le_add_right ..) fun _ => 'x').1] at hfalse
  cases hfalse

/-- A signature of template instances is demangled exactly up to six of them. -/
theorem demangles_siblings_iff {f : List Char} (hm : mangled.chars = siblingsEncoding f ts) (hts : ts ≠ [])
    (hall : ∀ u ∈ f :: ts, u ≠ [] ∧ ∀ x ∈ u, isAlpha x = true) :
    DemanglesTo mangled (f ++ "()".toList) ↔ ts.length ≤ 6 ∧ ∀ u ∈ f :: ts, u.length ≤ intMax := by
  have hidentifier : ∀ u ∈ f :: ts, Identifier u := fun u hu => identifier_of_letters (hall u hu).1 (hall u hu).2
  constructor
  · intro h
    by_cases hgood : ts.length ≤ 6 ∧ ∀ u ∈ f :: ts, u.length ≤ intMax
    · exact hgood
    · exact absurd h (not_demanglesTo_siblings hm hts hidentifier hgood)
  · rintro ⟨hcount, hlens⟩
    exact demanglesTo_siblings hm hts (fun u hu => ⟨hidentifier u hu, hlens u hu⟩) hcount

end

/-- `_Z1f` and the instance `A<int>` a number of times. -/
def repeatedInstance (count : Nat) : CString where
  chars := siblingsEncoding ['f'] (List.replicate count ['A'])
  nulFree := by
    simp only [siblingsEncoding, List.mem_append, not_or]
    refine ⟨⟨by decide, by decide⟩, fun h => ?_⟩
    obtain ⟨t, ht, hnul⟩ := List.mem_flatMap.mp h
    rw [List.eq_of_mem_replicate ht] at hnul
    exact absurd hnul (by decide)

/-- `_Z3foo` and six different instances. -/
def sixInstances : CString where
  chars := siblingsEncoding "foo".toList ["A".toList, "Bc".toList, "D".toList, "List".toList, "E".toList, "F".toList]
  nulFree := by decide +kernel

theorem demangles_siblings_iff_six : DemanglesTo sixInstances ("foo".toList ++ "()".toList) :=
  (demangles_siblings_iff rfl (List.cons_ne_nil _ _) (by decide)).mpr ⟨by decide, by decide⟩

theorem not_demangles_siblings : ¬ ∀ (mangled : CString) (f : List Char) (ts : List (List Char)),
    mangled.chars = siblingsEncoding f ts → ts ≠ [] → (∀ u ∈ f :: ts, u ≠ [] ∧ ∀ x ∈ u, isAlpha x = true) →
      DemanglesTo mangled (f ++ "()".toList) := fun h => by
  have hletters : ∀ u ∈ ['f'] :: List.replicate 7 ['A'], u ≠ [] ∧ ∀ x ∈ u, isAlpha x = true := by decide
  have hbad : ¬ ((List.replicate 7 ['A']).length ≤ 6 ∧
      ∀ u ∈ ['f'] :: List.replicate 7 ['A'], u.length ≤ intMax) := fun hc => absurd hc.1 (by decide)
  refine not_demanglesTo_siblings rfl (List.cons_ne_nil _ _)
    (fun u hu => identifier_of_letters (hletters u hu).1 (hletters u hu).2) hbad
    (h (repeatedInstance 7) _ _ rfl (List.cons_ne_nil _ _) hletters)

end Glog.Demangle
