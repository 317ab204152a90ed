import Glog.Backtrack.Fix
import Glog.Demangle.State

/-! # The demangler: the parse functions

Each parse function of `demangle.cc`, as a backtracking parser that makes its calls through `call`. The
BNF comments are those of the source. `run` closes the recursion; `Demangle` is the entry point. -/

namespace Glog.Demangle
open Backtrack

abbrev P := Parser State Mem

/-! ### Tables -/

/-- `kOperatorList`. -/
def operatorList : List ((Char × Char) × String) := [
  (('n', 'w'), "new"), (('n', 'a'), "new[]"), (('d', 'l'), "delete"), (('d', 'a'), "delete[]"),
  (('p', 's'), "+"), (('n', 'g'), "-"), (('a', 'd'), "&"), (('d', 'e'), "*"),
  (('c', 'o'), "~"), (('p', 'l'), "+"), (('m', 'i'), "-"), (('m', 'l'), "*"),
  (('d', 'v'), "/"), (('r', 'm'), "%"), (('a', 'n'), "&"), (('o', 'r'), "|"),
  (('e', 'o'), "^"), (('a', 'S'), "="), (('p', 'L'), "+="), (('m', 'I'), "-="),
  (('m', 'L'), "*="), (('d', 'V'), "/="), (('r', 'M'), "%="), (('a', 'N'), "&="),
  (('o', 'R'), "|="), (('e', 'O'), "^="), (('l', 's'), "<<"), (('r', 's'), ">>"),
  (('l', 'S'), "<<="), (('r', 'S'), ">>="), (('e', 'q'), "=="), (('n', 'e'), "!="),
  (('l', 't'), "<"), (('g', 't'), ">"), (('l', 'e'), "<="), (('g', 'e'), ">="),
  (('n', 't'), "!"), (('a', 'a'), "&&"), (('o', 'o'), "||"), (('p', 'p'), "++"),
  (('m', 'm'), "--"), (('c', 'm'), ","), (('p', 'm'), "->*"), (('p', 't'), "->"),
  (('c', 'l'), "()"), (('i', 'x'), "[]"), (('q', 'u'), "?"), (('s', 't'), "sizeof"),
  (('s', 'z'), "sizeof")]

/-- `kBuiltinTypeList`. -/
def builtinTypeList : List (Char × String) := [
  ('v', "void"), ('w', "wchar_t"), ('b', "bool"), ('c', "char"), ('a', "signed char"),
  ('h', "unsigned char"), ('s', "short"), ('t', "unsigned short"), ('i', "int"),
  ('j', "unsigned int"), ('l', "long"), ('m', "unsigned long"), ('x', "long long"),
  ('y', "unsigned long long"), ('n', "__int128"), ('o', "unsigned __int128"), ('f', "float"),
  ('d', "double"), ('e', "long double"), ('g', "__float128"), ('z', "ellipsis")]

/-- `kSubstitutionList`, without the leading `S`. -/
def substitutionList : List (Char × String) := [
  ('t', ""), ('a', "allocator"), ('b', "basic_string"), ('s', "string"), ('i', "istream"),
  ('o', "ostream"), ('d', "iostream")]

/-! ### Tokens -/

section
variable (mangled : CString)

/-- `state->mangled_cur[k]`. -/
def State.char (s : State) (k : Nat) : Char := mangled.get (s.mangledCur + k)

def State.advance (s : State) (n : Nat) : State := { s with mangledCur := s.mangledCur + n }

/-- Whether the string at index `i` has at least `n` characters remaining. -/
def atLeastNumCharsRemaining : Nat → Nat → Bool
  | _, 0 => true
  | i, n + 1 => mangled.get i != '\x00' && atLeastNumCharsRemaining (i + 1) n

/-- Advances past one character if `c` accepts it. -/
def parseIf (c : Char → Bool) : P :=
  .lookup (fun s => if c (s.char mangled 0) then some () else none) fun _ s m => (s.advance 1, m)

def parseOneCharToken (token : Char) : P := parseIf mangled (· == token)

def parseTwoCharToken (first second : Char) : P :=
  .lookup (fun s => if s.char mangled 0 == first && s.char mangled 1 == second then some () else none)
    fun _ s m => (s.advance 2, m)

def parseCharClass (charClass : List Char) : P := parseIf mangled charClass.contains

/-! ### State changes that are used in conditions -/

def enterNestedName : P := .act fun s m => ({ s with nestLevel := 0 }, m)

def leaveNestedName (prevValue : Int) : P := .act fun s m => ({ s with nestLevel := prevValue }, m)

/-- Disables the append mode, not to print function parameters and so on. -/
def disableAppend : P := .act fun s m => ({ s with append := false }, m)

def restoreAppend (prevValue : Bool) : P := .act fun s m => ({ s with append := prevValue }, m)

def appending (text : String) : P := .act (maybeAppend text.toList)

/-! ### Numbers and identifiers -/

def intMax : Nat := 2147483647

/-- The digits at the head of a string: their value and their count, or `none` where the value leaves
    the range of `int`. -/
def parseDigits : List Char → Nat → Nat → Option (Nat × Nat)
  | [], number, count => some (number, count)
  | c :: rest, number, count =>
    if isDigit c then
      -- Prevent signed integer overflow when multiplying and when summing.
      if number > intMax / 10 then none
      else if c.toNat - '0'.toNat > intMax - number * 10 then none
      else parseDigits rest (number * 10 + (c.toNat - '0'.toNat)) (count + 1)
    else some (number, count)

/-- `<number> ::= [n] <non-negative decimal integer>`. A failure leaves the `n` consumed. -/
def parseNumber (s : State) : Option Int × State :=
  let negative := s.char mangled 0 == 'n'
  let s₁ := if negative then s.advance 1 else s
  match parseDigits (mangled.rest s₁.mangledCur) 0 0 with
  | none => (none, s₁)
  | some (number, count) =>
    if count = 0 then (none, s₁)
    else (some (if negative then -(number : Int) else number), s₁.advance count)

/-- One or more characters that `c` accepts. -/
def parseRun (c : Char → Bool) : P :=
  .lookup (fun s =>
      let count := ((mangled.rest s.mangledCur).takeWhile c).length
      if count = 0 then none else some count)
    fun count s m => (s.advance count, m)

/-- Floating-point literals are encoded using a fixed-length lowercase hexadecimal string. -/
def parseFloatNumber : P := parseRun mangled fun c => isDigit c || ('a' ≤ c && c ≤ 'f')

/-- The `<seq-id>` is a sequence number in base 36, using digits and upper case letters. -/
def parseSeqId : P := parseRun mangled fun c => isDigit c || ('A' ≤ c && c ≤ 'Z')

def anonymousNamespacePrefix : List Char := "_GLOBAL__N_".toList

/-- Whether the identifier of the given length at the cursor is the anonymous namespace. -/
def identifierIsAnonymousNamespace (s : State) (length : Int) : Bool :=
  decide (length > anonymousNamespacePrefix.length) &&
    anonymousNamespacePrefix.isPrefixOf (mangled.rest s.mangledCur)

def appendIdentifier (length : Int) (s : State) (m : Mem) : State × Mem :=
  if identifierIsAnonymousNamespace mangled s length then maybeAppend "(anonymous namespace)".toList s m
  else maybeAppendWithLength (.text ((mangled.rest s.mangledCur).take length.toNat)) length s m

/-- `<identifier> ::= <unqualified source code identifier>` (of given length). -/
def parseIdentifier (length : Int) : P := fun s m =>
  if length = -1 ∨ atLeastNumCharsRemaining mangled s.mangledCur length.toNat = false then
    some (false, s, m)
  else
    let r := appendIdentifier mangled length s m
    if length < 0 ∨ (mangled.rest s.mangledCur).length < length.toNat then some (false, r)
    else some (true, r.1.advance length.toNat, r.2)

/-! ### Loops -/

section
variable (call : Func → P)

/-- `<non-terminal>*`: the loop `while (parse_func(state)) {}`. -/
def zeroOrMore (item : Item) : P := .branch (call item.func) (call (.zeroOrMore item)) (.ret true)

/-- `<non-terminal>+`. -/
def oneOrMore (item : Item) : P := .branch (call item.func) (call (.zeroOrMore item)) (.ret false)

/-! ### Names -/

/-- `<mangled-name> ::= _Z <encoding>` -/
def parseMangledName : P := parseTwoCharToken mangled '_' 'Z' &&& call .encoding

/-- `<encoding> ::= <(function) name> <bare-function-type> | <(data) name> | <special-name>` -/
def parseEncoding : P :=
  .retry (fun _ => call .name &&& call .bareFunctionType) |||
  call .name ||| call .specialName

/-- `<name> ::= <nested-name> | <unscoped-template-name> <template-args> | <unscoped-name> |
    <local-name>` -/
def parseName : P :=
  (call .nestedName ||| call .localName) |||
  .retry (fun _ => call .unscopedTemplateName &&& call .templateArgs) |||
  -- Less greedy than <unscoped-template-name> <template-args>.
  call .unscopedName

/-- `<unscoped-name> ::= <unqualified-name> | St <unqualified-name>` -/
def parseUnscopedName : P :=
  call .unqualifiedName |||
  .retry fun _ => parseTwoCharToken mangled 'S' 't' &&& appending "std::" &&& call .unqualifiedName

/-- `<unscoped-template-name> ::= <unscoped-name> | <substitution>` -/
def parseUnscopedTemplateName : P := call .unscopedName ||| call .substitution

/-- `<nested-name> ::= N [<CV-qualifiers>] <prefix> <unqualified-name> E |
    N [<CV-qualifiers>] <template-prefix> <template-args> E` -/
def parseNestedName : P :=
  .retry fun copy => parseOneCharToken mangled 'N' &&& enterNestedName &&& .optional (call .cvQualifiers) &&&
    call .namePrefix &&& leaveNestedName copy.nestLevel &&& parseOneCharToken mangled 'E'

/-- `ParsePrefix`, where `<prefix>` and `<template-prefix>` are merged to avoid an infinite loop. -/
def parsePrefix : P := call (.namePrefixLoop false)

/-- The loop of `ParsePrefix`. -/
def parsePrefixLoop (hasSomething : Bool) : P :=
  .act maybeAppendSeparator &&&
  .branch (call .templateParam ||| call .substitution ||| call .unscopedName)
    (.act maybeIncreaseNestLevel &&& call (.namePrefixLoop true))
    (.act maybeCancelLastSeparator &&&
      .branch (.ensure (fun _ => hasSomething) &&& call .templateArgs) (call .namePrefix) (.ret true))

/-- `<unqualified-name> ::= <operator-name> | <ctor-dtor-name> | <source-name> [<abi-tags>] |
    <local-source-name> [<abi-tags>]` -/
def parseUnqualifiedName : P :=
  call .operatorName ||| call .ctorDtorName |||
  (call .sourceName &&& .optional (call .abiTags)) |||
  (call .localSourceName &&& .optional (call .abiTags))

/-- `<source-name> ::= <positive length number> <identifier>` -/
def parseSourceName : P :=
  .retry fun _ => .reading (parseNumber mangled) fun length => call (.identifier length)

/-- `<local-source-name> ::= L <source-name> [<discriminator>]` -/
def parseLocalSourceName : P :=
  .retry fun _ => parseOneCharToken mangled 'L' &&& call .sourceName &&& .optional (call .discriminator)

/-- `ParseNumber(state, nullptr)`. -/
def parseNumberToken : P := .reading (parseNumber mangled) fun _ => .ret true

/-- `<abi-tags> ::= <abi-tag> [<abi-tags>]` -/
def parseAbiTags : P :=
  .retry fun copy => disableAppend &&& call (.oneOrMore .abiTag) &&& restoreAppend copy.append

/-- `<abi-tag> ::= B <source-name>` -/
def parseAbiTag : P := parseOneCharToken mangled 'B' &&& call .sourceName

def appendOperator (realName : List Char) (s : State) (m : Mem) : State × Mem :=
  let r := maybeAppend "operator".toList s m
  -- new, delete, etc.
  let r := if isLower (realName.headD '\x00') then maybeAppend [' '] r.1 r.2 else r
  maybeAppend realName r.1 r.2

/-- The two letter operators of `kOperatorList`. -/
def parseOperatorList : P :=
  .lookup (fun s => operatorList.find? fun p => s.char mangled 0 == p.1.1 && s.char mangled 1 == p.1.2)
    fun p s m =>
      let r := appendOperator p.2.toList s m
      (r.1.advance 2, r.2)

/-- `<operator-name> ::= nw`, and other two letters cases, `| cv <type>` (cast)
    `| v <digit> <source-name>` (vendor extended operator) -/
def parseOperatorName : P :=
  .ensure (fun s => atLeastNumCharsRemaining mangled s.mangledCur 2) &&&
  (.retry (fun copy => parseTwoCharToken mangled 'c' 'v' &&& appending "operator " &&& enterNestedName &&&
      call .type &&& leaveNestedName copy.nestLevel) |||
    .retry (fun _ => parseOneCharToken mangled 'v' &&& parseCharClass mangled "0123456789".toList &&&
      call .sourceName) |||
    (.ensure (fun s => isLower (s.char mangled 0) && isAlpha (s.char mangled 1)) &&&
      parseOperatorList mangled))

/-- `<special-name> ::= TV <type> | TT <type> | TI <type> | TS <type> |
    Tc <call-offset> <call-offset> <(base) encoding> | GV <(object) name> |
    T <call-offset> <(base) encoding>`, and the G++ extensions
    `TC <type> <(offset) number> _ <(base) type> | TF <type> | TJ <type> | GR <name> | GA <encoding> |
    Th <call-offset> <(base) encoding> | Tv <call-offset> <(base) encoding>` -/
def parseSpecialName : P :=
  .retry (fun _ => parseOneCharToken mangled 'T' &&& parseCharClass mangled "VTIS".toList &&& call .type) |||
  .retry (fun _ => parseTwoCharToken mangled 'T' 'c' &&& call .callOffset &&& call .callOffset &&&
    call .encoding) |||
  .retry (fun _ => parseTwoCharToken mangled 'G' 'V' &&& call .name) |||
  .retry (fun _ => parseOneCharToken mangled 'T' &&& call .callOffset &&& call .encoding) |||
  .retry (fun copy => parseTwoCharToken mangled 'T' 'C' &&& call .type &&& call .number &&&
    parseOneCharToken mangled '_' &&& disableAppend &&& call .type &&& restoreAppend copy.append) |||
  .retry (fun _ => parseOneCharToken mangled 'T' &&& parseCharClass mangled "FJ".toList &&& call .type) |||
  .retry (fun _ => parseTwoCharToken mangled 'G' 'R' &&& call .name) |||
  .retry (fun _ => parseTwoCharToken mangled 'G' 'A' &&& call .encoding) |||
  .retry (fun _ => parseOneCharToken mangled 'T' &&& parseCharClass mangled "hv".toList &&&
    call .callOffset &&& call .encoding)

/-- `<call-offset> ::= h <nv-offset> _ | v <v-offset> _` -/
def parseCallOffset : P :=
  .retry (fun _ => parseOneCharToken mangled 'h' &&& call .nvOffset &&& parseOneCharToken mangled '_') |||
  .retry (fun _ => parseOneCharToken mangled 'v' &&& call .vOffset &&& parseOneCharToken mangled '_')

/-- `<nv-offset> ::= <(offset) number>` -/
def parseNVOffset : P := call .number

/-- `<v-offset> ::= <(offset) number> _ <(virtual offset) number>` -/
def parseVOffset : P :=
  .retry fun _ => call .number &&& parseOneCharToken mangled '_' &&& call .number

/-- Appends the remembered name. -/
def replayName (s : State) (m : Mem) : State × Mem :=
  maybeAppendWithLength (.out s.prevName) s.prevNameLength s m

/-- Appends `~` and the name that was remembered before it. -/
def replayDtorName (s : State) (m : Mem) : State × Mem :=
  let r := maybeAppend ['~'] s m
  maybeAppendWithLength (.out s.prevName) s.prevNameLength r.1 r.2

/-- `<ctor-dtor-name> ::= C1 | C2 | C3 | D0 | D1 | D2` -/
def parseCtorDtorName : P :=
  .retry (fun _ => parseOneCharToken mangled 'C' &&& parseCharClass mangled "123".toList &&&
    .act replayName) |||
  .retry (fun _ => parseOneCharToken mangled 'D' &&& parseCharClass mangled "012".toList &&&
    .act replayDtorName)

/-! ### Types -/

/-- `<type> ::= <CV-qualifiers> <type> | P <type> | R <type> | O <type> | C <type> | G <type> |
    U <source-name> <type> | <builtin-type> | <function-type> | <class-enum-type> | <array-type> |
    <pointer-to-member-type> | <template-template-param> <template-args> | <template-param> |
    <substitution> | Dp <type> | Dt <expression> E | DT <expression> E` -/
def parseType : P :=
  -- We should check CV-qualifers, and PRGC things first.
  .retry (fun _ => call .cvQualifiers &&& call .type) |||
  .retry (fun _ => parseCharClass mangled "OPRCG".toList &&& call .type) |||
  .retry (fun _ => parseTwoCharToken mangled 'D' 'p' &&& call .type) |||
  .retry (fun _ => parseOneCharToken mangled 'D' &&& parseCharClass mangled "tT".toList &&&
    call .expression &&& parseOneCharToken mangled 'E') |||
  .retry (fun _ => parseOneCharToken mangled 'U' &&& call .sourceName &&& call .type) |||
  .retry (fun _ =>
    (call .builtinType ||| call .functionType ||| call .classEnumType ||| call .arrayType |||
      call .pointerToMemberType ||| call .substitution) |||
    (call .templateTemplateParam &&& call .templateArgs)) |||
  -- Less greedy than <template-template-param> <template-args>.
  call .templateParam

/-- The three optional qualifiers; whether there is one. -/
def cvQualifiers (s : State) : State :=
  let s := if s.char mangled 0 = 'r' then s.advance 1 else s
  let s := if s.char mangled 0 = 'V' then s.advance 1 else s
  if s.char mangled 0 = 'K' then s.advance 1 else s

/-- `<CV-qualifiers> ::= [r] [V] [K]`, but not empty, to avoid an infinite loop in `ParseType`. -/
def parseCVQualifiers : P :=
  .lookup (fun s => if (cvQualifiers mangled s).mangledCur > s.mangledCur then some () else none)
    fun _ s m => (cvQualifiers mangled s, m)

/-- The one letter types of `kBuiltinTypeList`. -/
def parseBuiltinTypeList : P :=
  .lookup (fun s => builtinTypeList.find? fun p => s.char mangled 0 == p.1) fun p s m =>
    let r := maybeAppend p.2.toList s m
    (r.1.advance 1, r.2)

/-- `<builtin-type> ::= v`, etc. `| u <source-name>` -/
def parseBuiltinType : P :=
  parseBuiltinTypeList mangled ||| .retry fun _ => parseOneCharToken mangled 'u' &&& call .sourceName

/-- `<function-type> ::= F [Y] <bare-function-type> E` -/
def parseFunctionType : P :=
  .retry fun _ => parseOneCharToken mangled 'F' &&& .optional (parseOneCharToken mangled 'Y') &&&
    call .bareFunctionType &&& parseOneCharToken mangled 'E'

/-- `<bare-function-type> ::= <(signature) type>+` -/
def parseBareFunctionType : P :=
  .retry fun copy => disableAppend &&& call (.oneOrMore .type) &&& restoreAppend copy.append &&&
    appending "()"

/-- `<class-enum-type> ::= <name>` -/
def parseClassEnumType : P := call .name

/-- `<array-type> ::= A <(positive dimension) number> _ <(element) type> |
    A [<(dimension) expression>] _ <(element) type>` -/
def parseArrayType : P :=
  .retry (fun _ => parseOneCharToken mangled 'A' &&& call .number &&& parseOneCharToken mangled '_' &&&
    call .type) |||
  .retry (fun _ => parseOneCharToken mangled 'A' &&& .optional (call .expression) &&&
    parseOneCharToken mangled '_' &&& call .type)

/-- `<pointer-to-member-type> ::= M <(class) type> <(member) type>` -/
def parsePointerToMemberType : P :=
  .retry fun _ => parseOneCharToken mangled 'M' &&& call .type &&& call .type

/-- `<template-param> ::= T_ | T <parameter-2 non-negative number> _` -/
def parseTemplateParam : P :=
  -- We don't support template substitutions.
  (parseTwoCharToken mangled 'T' '_' &&& appending "?") |||
  .retry fun _ => parseOneCharToken mangled 'T' &&& call .number &&& parseOneCharToken mangled '_' &&&
    appending "?"

/-- `<template-template-param> ::= <template-param> | <substitution>` -/
def parseTemplateTemplateParam : P := call .templateParam ||| call .substitution

/-- `<template-args> ::= I <template-arg>+ E` -/
def parseTemplateArgs : P :=
  .retry fun copy => disableAppend &&& parseOneCharToken mangled 'I' &&& call (.oneOrMore .templateArg) &&&
    parseOneCharToken mangled 'E' &&& restoreAppend copy.append &&& appending "<>"

/-! ### Template arguments, expressions and local names

Their recursion is cut off above `maxLevels`. The level is raised before the copy is taken. -/

def maxLevels : Nat := 5

def raiseArgLevel : P := .act fun s m => ({ s with argLevel := s.argLevel + 1 }, m)
def lowerArgLevel : P := .act fun s m => ({ s with argLevel := s.argLevel - 1 }, m)
def raiseExprLevel : P := .act fun s m => ({ s with exprLevel := s.exprLevel + 1 }, m)
def lowerExprLevel : P := .act fun s m => ({ s with exprLevel := s.exprLevel - 1 }, m)
def raiseLocalLevel : P := .act fun s m => ({ s with localLevel := s.localLevel + 1 }, m)
def lowerLocalLevel : P := .act fun s m => ({ s with localLevel := s.localLevel - 1 }, m)

/-- `<template-arg> ::= <type> | <expr-primary> | I <template-arg>* E | J <template-arg>* E |
    X <expression> E` -/
def parseTemplateArg : P :=
  .ensure (fun s => s.argLevel ≤ maxLevels) &&& raiseArgLevel &&&
  (.retry (fun _ => (parseOneCharToken mangled 'I' ||| parseOneCharToken mangled 'J') &&&
      call (.zeroOrMore .templateArg) &&& parseOneCharToken mangled 'E' &&& lowerArgLevel) |||
    .retry (fun _ => (call .type ||| call .exprPrimary) &&& lowerArgLevel) |||
    .retry (fun _ => parseOneCharToken mangled 'X' &&& call .expression &&& parseOneCharToken mangled 'E' &&&
      lowerArgLevel))

/-- `<expression> ::= <template-param> | <expr-primary> | <unary operator-name> <expression> |
    <binary operator-name> <expression> <expression> |
    <trinary operator-name> <expression> <expression> <expression> | st <type> |
    sr <type> <unqualified-name> <template-args> | sr <type> <unqualified-name>` -/
def parseExpression : P :=
  (call .templateParam ||| call .exprPrimary) |||
  (.ensure (fun s => s.exprLevel ≤ maxLevels) &&& raiseExprLevel &&&
    (.retry (fun _ => call .operatorName &&& call .expression &&& call .expression &&& call .expression &&&
        lowerExprLevel) |||
      .retry (fun _ => call .operatorName &&& call .expression &&& call .expression &&& lowerExprLevel) |||
      .retry (fun _ => call .operatorName &&& call .expression &&& lowerExprLevel) |||
      -- Here the level is lowered after the return, that is, never.
      .retry (fun _ => parseTwoCharToken mangled 's' 't' &&& call .type) |||
      .retry (fun _ => parseTwoCharToken mangled 's' 'r' &&& call .type &&& call .unqualifiedName &&&
        call .templateArgs &&& lowerExprLevel) |||
      .retry (fun _ => parseTwoCharToken mangled 's' 'r' &&& call .type &&& call .unqualifiedName &&&
        lowerExprLevel)))

/-- `<expr-primary> ::= L <type> <(value) number> E | L <type> <(value) float> E | L <mangled-name> E |
    LZ <encoding> E` (the last is a bug in g++'s C++ ABI version 2) -/
def parseExprPrimary : P :=
  .retry (fun _ => parseOneCharToken mangled 'L' &&& call .type &&& call .number &&&
    parseOneCharToken mangled 'E') |||
  .retry (fun _ => parseOneCharToken mangled 'L' &&& call .type &&& call .floatNumber &&&
    parseOneCharToken mangled 'E') |||
  .retry (fun _ => parseOneCharToken mangled 'L' &&& call .mangledName &&& parseOneCharToken mangled 'E') |||
  .retry (fun _ => parseTwoCharToken mangled 'L' 'Z' &&& call .encoding &&& parseOneCharToken mangled 'E')

/-- `<local-name> := Z <(function) encoding> E <(entity) name> [<discriminator>] |
    Z <(function) encoding> E s [<discriminator>]` -/
def parseLocalName : P :=
  .ensure (fun s => s.localLevel ≤ maxLevels) &&& raiseLocalLevel &&&
  (.retry (fun _ => parseOneCharToken mangled 'Z' &&& call .encoding &&& parseOneCharToken mangled 'E' &&&
      appending "::" &&& call .name &&& .optional (call .discriminator) &&& lowerLocalLevel) |||
    .retry (fun _ => parseOneCharToken mangled 'Z' &&& call .encoding &&& parseTwoCharToken mangled 'E' 's' &&&
      .optional (call .discriminator) &&& lowerLocalLevel))

/-- `<discriminator> := _ <(non-negative) number>` -/
def parseDiscriminator : P := .retry fun _ => parseOneCharToken mangled '_' &&& call .number

def appendSubstitution (realName : List Char) (s : State) (m : Mem) : State × Mem :=
  let r := maybeAppend "std".toList s m
  if realName = [] then r
  else
    let r := maybeAppend "::".toList r.1 r.2
    maybeAppend realName r.1 r.2

/-- The abbreviations of `kSubstitutionList`, after the `S`. -/
def parseSubstitutionList : P :=
  .lookup (fun s => substitutionList.find? fun p => s.char mangled 0 == p.1) fun p s m =>
    let r := appendSubstitution p.2.toList s m
    (r.1.advance 1, r.2)

/-- `<substitution> ::= S_ | S <seq-id> _ | St`, etc. -/
def parseSubstitution : P :=
  -- We don't support substitutions.
  (parseTwoCharToken mangled 'S' '_' &&& appending "?") |||
  .retry (fun _ => parseOneCharToken mangled 'S' &&& call .seqId &&& parseOneCharToken mangled '_' &&&
    appending "?") |||
  -- Expand abbreviations like "St" => "std".
  .retry (fun _ => parseOneCharToken mangled 'S' &&& parseSubstitutionList mangled)

end

/-- Whether a string is a function clone suffix, `(.<alpha>+.<digit>+)+` or nothing. -/
def isFunctionCloneSuffix : Nat → List Char → Bool
  | _, [] => true
  | 0, _ => false
  | fuel + 1, dot :: rest =>
    let digits := rest.dropWhile isAlpha
    dot == '.' && isAlpha (rest.headD '\x00') && digits.headD '\x00' == '.' &&
      isDigit (digits.tail.headD '\x00') && isFunctionCloneSuffix fuel (digits.tail.dropWhile isDigit)

/-- `<mangled-name>`, optionally followed by either a function-clone suffix or version suffix. -/
def parseTopLevelMangledName (call : Func → P) : P :=
  call .mangledName &&&
  .branch (.ensure fun s => s.char mangled 0 != '\x00')
    -- Drop trailing function clone suffix, if any.
    (.ensure (fun s => isFunctionCloneSuffix mangled.length (mangled.rest s.mangledCur)) |||
      -- Append trailing version suffix if any.
      (.ensure (fun s => s.char mangled 0 == '@') &&&
        .act fun s m => maybeAppend (mangled.rest s.mangledCur) s m))
    (.ret true)

/-! ### The recursion -/

/-- Each parse function, with the calls that it makes. -/
def body (call : Func → P) : Func → P
  | .mangledName => parseMangledName mangled call
  | .encoding => parseEncoding call
  | .name => parseName call
  | .unscopedName => parseUnscopedName mangled call
  | .unscopedTemplateName => parseUnscopedTemplateName call
  | .nestedName => parseNestedName mangled call
  | .namePrefix => parsePrefix call
  | .namePrefixLoop hasSomething => parsePrefixLoop call hasSomething
  | .unqualifiedName => parseUnqualifiedName call
  | .sourceName => parseSourceName mangled call
  | .localSourceName => parseLocalSourceName mangled call
  | .number => parseNumberToken mangled
  | .floatNumber => parseFloatNumber mangled
  | .seqId => parseSeqId mangled
  | .identifier length => parseIdentifier mangled length
  | .abiTags => parseAbiTags call
  | .abiTag => parseAbiTag mangled call
  | .operatorName => parseOperatorName mangled call
  | .specialName => parseSpecialName mangled call
  | .callOffset => parseCallOffset mangled call
  | .nvOffset => parseNVOffset call
  | .vOffset => parseVOffset mangled call
  | .ctorDtorName => parseCtorDtorName mangled
  | .type => parseType mangled call
  | .cvQualifiers => parseCVQualifiers mangled
  | .builtinType => parseBuiltinType mangled call
  | .functionType => parseFunctionType mangled call
  | .bareFunctionType => parseBareFunctionType call
  | .classEnumType => parseClassEnumType call
  | .arrayType => parseArrayType mangled call
  | .pointerToMemberType => parsePointerToMemberType mangled call
  | .templateParam => parseTemplateParam mangled call
  | .templateTemplateParam => parseTemplateTemplateParam call
  | .templateArgs => parseTemplateArgs mangled call
  | .templateArg => parseTemplateArg mangled call
  | .expression => parseExpression mangled call
  | .exprPrimary => parseExprPrimary mangled call
  | .localName => parseLocalName mangled call
  | .discriminator => parseDiscriminator mangled call
  | .substitution => parseSubstitution mangled call
  | .topLevelMangledName => parseTopLevelMangledName mangled call
  | .oneOrMore item => oneOrMore call item
  | .zeroOrMore item => zeroOrMore call item

end

end Glog.Demangle
