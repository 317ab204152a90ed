import Glog.Demangle.Names

/-! # Signatures

The configurations before and after a type, the parameters of a function, and a whole mangled name. -/

namespace Glog.Demangle
open Backtrack Backtrack.Parser

/-! ### Types -/

/-- The alternatives of `ParseType` that are tried before names and types of one letter. -/
def compoundTypes (mangled : CString) : P :=
  .retry (fun _ => parse mangled .cvQualifiers &&& parse mangled .type) |||
    .retry (fun _ => parseCharClass mangled "OPRCG".toList &&& parse mangled .type) |||
    .retry (fun _ => parseTwoCharToken mangled 'D' 'p' &&& parse mangled .type) |||
    .retry (fun _ => parseOneCharToken mangled 'D' &&& parseCharClass mangled "tT".toList &&&
      parse mangled .expression &&& parseOneCharToken mangled 'E') |||
    .retry (fun _ => parseOneCharToken mangled 'U' &&& parse mangled .sourceName &&& parse mangled .type)

/-- Before the character `head` the configuration is left alone by whatever does not start with it. -/
structure Rejects {κ : Type} (R : κ → State → Mem → Prop) (mangled : CString) (head : Char) (k : κ) : Prop where
  retry {p : P} : Steps R p k false k → Steps R (.retry fun _ => p) k false k
  parseIf {t : Char → Bool} : t head = false → Steps R (parseIf mangled t) k false k
  twoCharToken {first second : Char} : head ≠ first → Steps R (parseTwoCharToken mangled first second) k false k
  silent (f : Func) : starts head f = false → f ≠ .topLevelMangledName → Steps R (parse mangled f) k false k
  call {f : Func} {b : Bool} {k' : κ} : Steps R (body mangled (parse mangled) f) k b k' → Steps R (parse mangled f) k b k'

namespace Rejects
variable {κ : Type} {R : κ → State → Mem → Prop} {mangled : CString} {head : Char} {k k' : κ}

theorem token (h : Rejects R mangled head k) {token : Char} (hne : head ≠ token) :
    Steps R (parseOneCharToken mangled token) k false k :=
  h.parseIf (beq_false_of_ne hne)

theorem compoundTypes (h : Rejects R mangled head k) (hhead : head ∉ "rVKOPRCGDU".toList) :
    Steps R (compoundTypes mangled) k false k := by
  have hne : ∀ x ∈ "rVKOPRCGDU".toList, head ≠ x := fun x hx hc => hhead (hc ▸ hx)
  have hcv : Steps R (parse mangled .cvQualifiers) k false k := h.silent _ (by
    simp only [starts, Bool.or_eq_false_iff, beq_eq_false_iff_ne]
    exact ⟨⟨hne 'r' (by decide), hne 'V' (by decide)⟩, hne 'K' (by decide)⟩) nofun
  have hclass : Steps R (parseCharClass mangled "OPRCG".toList) k false k := h.parseIf (by
    rw [← Bool.not_eq_true, List.contains_iff_mem]
    have hsub : ∀ x ∈ "OPRCG".toList, x ∈ "rVKOPRCGDU".toList := by decide
    exact fun hc => hhead (hsub _ hc))
  exact .either (.either (.either (.either
    (h.retry (.both_false hcv))
    (h.retry (.both_false hclass)))
    (h.retry (.both_false (h.twoCharToken (hne 'D' (by decide))))))
    (h.retry (.both_false (.both_false (.both_false (h.token (hne 'D' (by decide))))))))
    (h.retry (.both_false (.both_false (h.token (hne 'U' (by decide))))))

theorem builtinType (h : Rejects R mangled head k) (hhead : head ∉ "rVKOPRCGDU".toList)
    (hcall : Steps R (parse mangled .builtinType) k true k') : Steps R (parse mangled .type) k true k' :=
  h.call (.either_true (.either (h.compoundTypes hhead) (.retry fun _ _ _ =>
    .either_true (.either_true (.either_true (.either_true (.either_true (.either_true hcall))))))))

theorem typeName (h : Rejects R mangled head k) (hhead : head ∉ "rVKOPRCGDU".toList)
    (hsilent : starts head .builtinType = false ∧ starts head .functionType = false)
    (hname : Steps R (parse mangled .name) k true k') : Steps R (parse mangled .type) k true k' :=
  h.call (.either_true (.either (h.compoundTypes hhead) (.retry fun _ _ _ =>
    .either_true (.either_true (.either_true (.either_true (.either
      (.either (h.silent .builtinType hsilent.1 nofun) (h.silent .functionType hsilent.2 nofun)) (h.call hname))))))))

/-- The functions of `ParseType` that names do not go through. -/
def besidesNames : List Func :=
  [.builtinType, .functionType, .arrayType, .pointerToMemberType, .substitution, .templateTemplateParam, .templateParam]

theorem typeFalse (h : Rejects R mangled head k) (hhead : head ∉ "rVKOPRCGDU".toList)
    (hsilent : ∀ f ∈ besidesNames, starts head f = false) (hname : Steps R (parse mangled .name) k false k) :
    Steps R (parse mangled .type) k false k := by
  have hclass : Steps R (parse mangled .classEnumType) k false k := h.call hname
  have hfails : ∀ f ∈ besidesNames, f ≠ .topLevelMangledName → Steps R (parse mangled f) k false k := fun f hf =>
    h.silent f (hsilent f hf)
  exact h.call (.either (.either (h.compoundTypes hhead) (h.retry
    (.either (.either (.either (.either (.either
      (.either (hfails .builtinType (by decide) nofun) (hfails .functionType (by decide) nofun)) hclass)
      (hfails .arrayType (by decide) nofun)) (hfails .pointerToMemberType (by decide) nofun))
      (hfails .substitution (by decide) nofun))
      (.both_false (hfails .templateTemplateParam (by decide) nofun))))) (hfails .templateParam (by decide) nofun))

end Rejects

section
variable {mangled : CString} {n : Nat} {c c' c₁ : Config} {r : List Char} {b : Bool}

theorem goes_rejects (c : Config) : Rejects (Matches mangled n) mangled (c.rest.headD '\x00') c where
  retry h := goes_retry_false fun _ _ _ => h
  parseIf h := goes_parseIf_false h
  twoCharToken h := goes_twoCharToken_false h
  silent f hf hne := goes_silent f hf hne
  call h := goes_call h

theorem exists_builtinType {x : Char} (hx : x ∈ builtinTypeList.map Prod.fst) :
    ∃ p, (builtinTypeList.find? fun p => x == p.1) = some p := by
  obtain ⟨p, hp, rfl⟩ := List.mem_map.mp hx
  exact Option.isSome_iff_exists.mp (List.find?_isSome.mpr ⟨p, hp, beq_self_eq_true p.1⟩)

theorem letter_not_compound {x : Char} (hx : x ∈ builtinTypeList.map Prod.fst) : x ∉ "rVKOPRCGDU".toList := by
  have hletters : ∀ y ∈ builtinTypeList.map Prod.fst, y ∉ "rVKOPRCGDU".toList := by decide
  exact hletters x hx

/-- A type of one letter. -/
theorem goes_type_letter {x : Char} (hx : x ∈ builtinTypeList.map Prod.fst) (hrest : c.rest = x :: r)
    (happend : c.append = false) : Goes mangled n (parse mangled .type) c true { c with rest := r } := by
  obtain ⟨p, hp⟩ := exists_builtinType hx
  have hlist : Goes mangled n (parseBuiltinTypeList mangled) c true { c with rest := r } := by
    refine .lookup (x := p) (fun s m hs => ?_) fun s m hs => ?_
    · simp only [hs.head, hrest, List.headD_cons]
      exact hp
    · simp only [maybeAppend_off hs happend]
      have hnext := hs.advance 1
      rwa [hrest, List.drop_one, List.tail_cons] at hnext
  exact (goes_rejects c).builtinType (by rw [hrest]; exact letter_not_compound hx) (goes_call (.either_true hlist))

/-- A digit starts no type but a name. -/
theorem digit_not_compound (hd : isDigit (c.rest.headD '\x00') = true) : c.rest.headD '\x00' ∉ "rVKOPRCGDU".toList := by
  have hdigits : ∀ x ∈ "0123456789".toList, x ∉ "rVKOPRCGDU".toList := by decide
  exact hdigits _ (mem_digits hd)

theorem digit_besidesNames (hd : isDigit (c.rest.headD '\x00') = true) :
    ∀ f ∈ Rejects.besidesNames, starts (c.rest.headD '\x00') f = false := by
  have hdigits : ∀ x ∈ "0123456789".toList, ∀ f ∈ Rejects.besidesNames, starts x f = false := by decide
  exact hdigits _ (mem_digits hd)

theorem goes_type_name (hd : isDigit (c.rest.headD '\x00') = true) (h : Goes mangled n (parse mangled .name) c true c') :
    Goes mangled n (parse mangled .type) c true c' :=
  (goes_rejects c).typeName (digit_not_compound hd)
    ⟨digit_besidesNames hd .builtinType (by decide), digit_besidesNames hd .functionType (by decide)⟩ h

theorem goes_type_name_false (hd : isDigit (c.rest.headD '\x00') = true)
    (h : Goes mangled n (parse mangled .name) c false c) : Goes mangled n (parse mangled .type) c false c :=
  (goes_rejects c).typeFalse (digit_not_compound hd) (digit_besidesNames hd) h

/-! ### Loops -/

theorem goes_zeroOrMore (item : Item) (h : Goes mangled n (parse mangled item.func) c true c₁)
    (hloop : Goes mangled n (parse mangled (.zeroOrMore item)) c₁ true c') :
    Goes mangled n (parse mangled (.zeroOrMore item)) c true c' :=
  goes_call (.branch_true h hloop)

theorem goes_zeroOrMore_end (item : Item) (h : Goes mangled n (parse mangled item.func) c false c') :
    Goes mangled n (parse mangled (.zeroOrMore item)) c true c' :=
  goes_call (.branch_false h (.ret true))

theorem goes_oneOrMore (item : Item) (h : Goes mangled n (parse mangled item.func) c true c₁)
    (hloop : Goes mangled n (parse mangled (.zeroOrMore item)) c₁ true c') :
    Goes mangled n (parse mangled (.oneOrMore item)) c true c' :=
  goes_call (.branch_true h hloop)

theorem goes_oneOrMore_false (item : Item) (h : Goes mangled n (parse mangled item.func) c false c') :
    Goes mangled n (parse mangled (.oneOrMore item)) c false c' :=
  goes_call (.branch_false h (.ret false))

/-- Types of one letter up to the end of the mangled name. -/
theorem goes_letters {params : List Char} (hparams : ∀ x ∈ params, x ∈ builtinTypeList.map Prod.fst)
    (hrest : c.rest = params) (happend : c.append = false) :
    Goes mangled n (parse mangled (.zeroOrMore .type)) c true { c with rest := [] } := by
  induction params generalizing c with
  | nil =>
    have hend : Goes mangled n (parse mangled .type) c false c := goes_silent .type (by rw [hrest]; rfl) nofun
    cases c
    cases hrest
    exact goes_zeroOrMore_end .type hend
  | cons x params ih =>
    have hloop := ih (c := { c with rest := params }) (fun y hy => hparams y (List.mem_cons_of_mem x hy)) rfl happend
    exact goes_zeroOrMore .type (goes_type_letter (hparams x List.mem_cons_self) hrest happend) hloop

/-! ### Encodings -/

/-- The types of the parameters are parsed with the append mode off. -/
theorem goes_bareFunctionType {level : Nat} {e : Bool} (happend : c.append = true) (hroom : c.text.length + 3 < n)
    (h : Goes mangled n (parse mangled (.oneOrMore .type)) { c with append := false } true
      { c with rest := r, ended := e, append := false, argLevel := level }) :
    Goes mangled n (parse mangled .bareFunctionType) c true
      { c with rest := r, text := c.text ++ "()".toList, ended := true, argLevel := level } := by
  refine goes_call (.retry fun s m hs => .both (.both (.both goes_disableAppend h) (goes_restoreAppend s.append)) ?_)
  rw [hs.append, happend]
  have hshow : Goes mangled n (appending "()") { c with rest := r, ended := e, append := true, argLevel := level } true
      { c with rest := r, text := c.text ++ "()".toList, ended := true, append := true, argLevel := level } :=
    goes_appending hroom rfl (by decide) (by decide)
  cases c
  cases happend
  exact hshow

theorem goes_bareFunctionType_false
    (h : Goes mangled n (parse mangled (.oneOrMore .type)) { c with append := false } false { c with append := false }) :
    Goes mangled n (parse mangled .bareFunctionType) c false c :=
  goes_call (.retry_false (fun _ _ _ => .both_false (.both_false (.both goes_disableAppend h)))
    fun _ _ _ _ hs hs₁ => { hs with shows := hs₁.shows, ended := hs₁.ended })

theorem goes_encoding_function (hname : Goes mangled n (parse mangled .name) c true c₁)
    (hbare : Goes mangled n (parse mangled .bareFunctionType) c₁ true c') :
    Goes mangled n (parse mangled .encoding) c true c' :=
  goes_call (.either_true (.either_true (.retry fun _ _ _ => .both hname hbare)))

/-- Without parameters the name is parsed a second time. -/
theorem goes_encoding_data (hname : Goes mangled n (parse mangled .name) c true c₁) (htext : c.text <+: c₁.text)
    (hbare : Goes mangled n (parse mangled .bareFunctionType) c₁ false c₁)
    (hagain : Goes mangled n (parse mangled .name) { c with ended := false } true c') :
    Goes mangled n (parse mangled .encoding) c true c' :=
  goes_call (.either_true (.either (goes_retry_back (fun _ _ _ => .both hname hbare) htext) hagain))

theorem goes_encoding_false (hname : Goes mangled n (parse mangled .name) c false c)
    (hspecial : Goes mangled n (parse mangled .specialName) c false c) :
    Goes mangled n (parse mangled .encoding) c false c :=
  goes_call (.either (.either (goes_retry_false fun _ _ _ => .both_false hname) hname) hspecial)

/-! ### The top level -/

theorem goes_topLevel (hrest : c.rest = '_' :: 'Z' :: r)
    (h : Goes mangled n (parse mangled .encoding) { c with rest := r } true c') (hend : c'.rest = []) :
    Goes mangled n (parse mangled .topLevelMangledName) c true c' := by
  have hmangled : Goes mangled n (parse mangled .mangledName) c true c' := goes_call (.both (goes_twoCharToken hrest) h)
  exact goes_call (.both hmangled (.branch_false (.ensure fun s m hs => by rw [hs.head, hend]; rfl) (.ret true)))

/-- Nothing but a clone or a version suffix may follow. -/
theorem goes_topLevel_rest {x : Char} {rest : List Char} (hrest : c.rest = '_' :: 'Z' :: r)
    (h : Goes mangled n (parse mangled .encoding) { c with rest := r } true c') (hend : c'.rest = x :: rest)
    (hx : x ∉ ['\x00', '.', '@']) : Goes mangled n (parse mangled .topLevelMangledName) c false c' := by
  have hmangled : Goes mangled n (parse mangled .mangledName) c true c' := goes_call (.both (goes_twoCharToken hrest) h)
  have hne : x ≠ '\x00' ∧ x ≠ '.' ∧ x ≠ '@' := by simpa using hx
  refine goes_call (.both hmangled (.branch_true (.ensure fun s m hs => ?_) (.either (.ensure fun s m hs => ?_)
    (.both_false (.ensure fun s m hs => ?_)))))
  · rw [hs.head, hend]
    exact bne_iff_ne.mpr hne.1
  · rw [hs.rest, hend]
    cases mangled.length with
    | zero => rfl
    | succ fuel =>
      unfold isFunctionCloneSuffix
      simp only [beq_false_of_ne hne.2.1, Bool.false_and]
  · rw [hs.head, hend]
    exact beq_false_of_ne hne.2.2

theorem goes_topLevel_false (hrest : c.rest = '_' :: 'Z' :: r)
    (h : Goes mangled n (parse mangled .encoding) { c with rest := r } false c') :
    Goes mangled n (parse mangled .topLevelMangledName) c false c' :=
  goes_call (.both_false (goes_call (.both (goes_twoCharToken hrest) h)))

end

end Glog.Demangle
