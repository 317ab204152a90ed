import Mathlib.Algebra.GroupWithZero.Nat
import Mathlib.Logic.Function.Basic

/-! # The demangler: its state and its output buffer

`State` is what a parse function of `demangle.cc` changes and what `*state = copy` puts back; `Mem` is
the output buffer, which it does not. Pointers into the buffer are offsets from `out_begin`, and the
cursor of the mangled name is an index into it. A C `char` is a Lean `Char`: the code only compares
characters.

`Mem.trace` is a ghost: it records the calls of parse functions and of `Append`, the separators that are
cancelled, and every byte of the
output buffer that is read or written, the newest first. Nothing reads it back. -/

namespace Glog.Demangle

/-- A property of the members of a list is decided by going through the list, and not, where they are characters,
    through every `Char`. -/
instance (priority := 2000) decidableForallMem {α : Type} {p : α → Prop} [DecidablePred p] (l : List α) :
    Decidable (∀ x ∈ l, p x) :=
  List.decidableBAll p l

/-- A NUL-terminated string: the characters before the terminator. -/
structure CString where
  chars : List Char
  nulFree : '\x00' ∉ chars

/-- `str[i]`: the terminator follows the characters. -/
def CString.get (str : CString) (i : Nat) : Char := str.chars.getD i '\x00'

def CString.length (str : CString) : Nat := str.chars.length

/-- The string that starts at index `i`. -/
def CString.rest (str : CString) (i : Nat) : List Char := str.chars.drop i

/-- State needed for demangling. -/
structure State where
  /-- Cursor of the mangled name. -/
  mangledCur : Nat
  /-- Cursor of the output string. -/
  outCur : Nat
  /-- End of the output string. -/
  outEnd : Nat
  /-- There is no output string: `out_begin` is `nullptr`. -/
  outNull : Bool
  /-- For constructors and destructors: where the last identifier was appended, `none` for `nullptr`. -/
  prevName : Option Nat
  prevNameLength : Int
  /-- For nested names: a 16-bit `short`. -/
  nestLevel : Int
  append : Bool
  /-- True if the output gets overflowed. -/
  overflowed : Bool
  localLevel : Nat
  exprLevel : Nat
  argLevel : Nat
  deriving DecidableEq

/-- The parse functions that are passed to `OneOrMore` and `ZeroOrMore`. -/
inductive Item
  | abiTag | type | templateArg
  deriving DecidableEq

/-- The parse functions. The loops of `OneOrMore`, `ZeroOrMore` and `ParsePrefix` are parse functions of
    their own: an iteration goes on by calling the loop again. -/
inductive Func
  | mangledName | encoding | name | unscopedName | unscopedTemplateName | nestedName
  | namePrefix | namePrefixLoop (hasSomething : Bool) | unqualifiedName | sourceName | localSourceName
  | number | floatNumber | seqId | identifier (length : Int) | abiTags | abiTag | operatorName
  | specialName | callOffset | nvOffset | vOffset | ctorDtorName | type | cvQualifiers | builtinType
  | functionType | bareFunctionType | classEnumType | arrayType | pointerToMemberType | templateParam
  | templateTemplateParam | templateArgs | templateArg | expression | exprPrimary | localName
  | discriminator | substitution | topLevelMangledName
  | oneOrMore (item : Item) | zeroOrMore (item : Item)
  deriving DecidableEq

def Item.func : Item → Func
  | .abiTag => .abiTag
  | .type => .type
  | .templateArg => .templateArg

/-- What a `const char *` argument of `Append` points at: constant text or the mangled name, or the
    output buffer itself (`none` for `nullptr`). -/
inductive Str
  | text (chars : List Char)
  | out (start : Option Nat)
  deriving DecidableEq

inductive Event
  | call (f : Func) (s : State)
  | append (str : Str) (length : Nat) (outCur : Nat) (overflowed : Bool)
  | cancel (outCur : Nat)
  | read (i : Nat)
  | readNull
  | write (i : Nat) (c : Char)
  deriving DecidableEq

/-- The output buffer and what lies behind it, with the record of what happened. -/
structure Mem where
  out : Nat → Char
  trace : List Event

namespace Mem

def note (m : Mem) (e : Event) : Mem := { m with trace := e :: m.trace }

/-- `str[i]`. -/
def read (m : Mem) (str : Str) (i : Nat) : Char × Mem :=
  match str with
  | .text chars => (chars.getD i '\x00', m)
  | .out none => ('\x00', m.note .readNull)
  | .out (some start) => (m.out (start + i), m.note (.read (start + i)))

/-- `out_begin[i] = c`. -/
def write (m : Mem) (i : Nat) (c : Char) : Mem where
  out := Function.update m.out i c
  trace := .write i c :: m.trace

end Mem

def isLower (c : Char) : Bool := 'a' ≤ c && c ≤ 'z'

def isAlpha (c : Char) : Bool := ('a' ≤ c && c ≤ 'z') || ('A' ≤ c && c ≤ 'Z')

def isDigit (c : Char) : Bool := '0' ≤ c && c ≤ '9'

/-! ### Output -/

/-- The loop of `Append` with `left` characters to go, from `str[i]` on. -/
def appendLoop (str : Str) : Nat → Nat → State → Mem → State × Mem
  | 0, _, s, m => (s, m)
  | left + 1, i, s, m =>
    -- +1 for the terminator
    if s.outCur + 1 < s.outEnd then
      let r := m.read str i
      appendLoop str left (i + 1) { s with outCur := s.outCur + 1 } (r.2.write s.outCur r.1)
    else ({ s with overflowed := true }, m)

/-- `Append`: an output that has overflowed is not terminated. -/
def append (str : Str) (length : Int) (s : State) (m : Mem) : State × Mem :=
  let m := m.note (.append str length.toNat s.outCur s.overflowed)
  if s.outNull then ({ s with overflowed := true }, m)
  else
    let r := appendLoop str length.toNat 0 s m
    if r.1.overflowed then r else (r.1, r.2.write r.1.outCur '\x00')

/-- Appends a space if the output ends with `<` and `str` starts with `<`, to avoid `<<`. -/
def appendSpace (str : Str) (s : State) (m : Mem) : State × Mem :=
  let r := m.read str 0
  if r.1 = '<' ∧ 0 < s.outCur then
    let last := r.2.read (.out (some (s.outCur - 1))) 0
    if last.1 = '<' then append (.text [' ']) 1 s last.2 else (s, last.2)
  else (s, r.2)

/-- Remembers the last identifier name for constructors and destructors. -/
def rememberName (str : Str) (length : Int) (s : State) (m : Mem) : State × Mem :=
  let r := m.read str 0
  if isAlpha r.1 || r.1 == '_' then ({ s with prevName := some s.outCur, prevNameLength := length }, r.2)
  else (s, r.2)

def maybeAppendWithLength (str : Str) (length : Int) (s : State) (m : Mem) : State × Mem :=
  if s.append = true ∧ 0 < length then
    let spaced := appendSpace str s m
    let named := rememberName str length spaced.1 spaced.2
    append str length named.1 named.2
  else (s, m)

/-- `MaybeAppend`, a wrapper around `MaybeAppendWithLength`. -/
def maybeAppend (text : List Char) (s : State) (m : Mem) : State × Mem :=
  if s.append then maybeAppendWithLength (.text text) text.length s m else (s, m)

/-- `MaybeIncreaseNestLevel`; the increment of a `short` wraps around. -/
def maybeIncreaseNestLevel (s : State) (m : Mem) : State × Mem :=
  if s.nestLevel > -1 then ({ s with nestLevel := (s.nestLevel + 1).bmod 65536 }, m) else (s, m)

/-- Appends `::` for nested names if necessary. -/
def maybeAppendSeparator (s : State) (m : Mem) : State × Mem :=
  if s.nestLevel ≥ 1 then maybeAppend "::".toList s m else (s, m)

/-- Cancels the last separator if necessary. The address below a null `out_begin` wraps around, so that
    the comparison with `out_begin` holds there. -/
def maybeCancelLastSeparator (s : State) (m : Mem) : State × Mem :=
  if s.nestLevel ≥ 1 ∧ s.append = true ∧ (s.outNull = true ∨ 2 ≤ s.outCur) then
    ({ s with outCur := s.outCur - 2 }, (m.note (.cancel s.outCur)).write (s.outCur - 2) '\x00')
  else (s, m)

end Glog.Demangle
