import Glog.Backtrack.Reads
import Glog.Demangle.Number

/-! # The grammar of mangled names

The BNF in the comments above the parse functions of `demangle.cc`, as a system of equations over
languages: `bnf L` gives what each nonterminal derives when the nonterminals on the right derive the words
of `L`. A nonterminal is named by its parse function. -/

namespace Glog.Demangle
open Backtrack.Parser Computability

def chr (c : Char) : Language Char := {[c]}

def two (first second : Char) : Language Char := {[first, second]}

def oneOf (charClass : List Char) : Language Char := {w | ∃ c ∈ charClass, w = [c]}

/-- The abbreviations of a table. -/
def keys {α : Type} (table : List α) (key : α → List Char) : Language Char := {w | ∃ p ∈ table, w = key p}

/-- `<non-negative decimal integer>` -/
def digits : Language Char := {w | w ≠ [] ∧ ∀ c ∈ w, isDigit c = true}

/-- The decimal integers of the given value. -/
def digitsOf (n : Nat) : Language Char := {w | w ∈ digits ∧ digitsValue 0 w = n}

def run1 (c : Char → Bool) : Language Char := {w | w ≠ [] ∧ ∀ x ∈ w, c x = true}

/-- The right hand side of each nonterminal. Modifiers in parentheses, as in `<(offset) number>`, are
    ignored. `<prefix>` is read in the merged form of the code. -/
def bnf (L : Func → Language Char) : Func → Language Char
  | .mangledName => two '_' 'Z' * L .encoding
  | .encoding => L .name * L .bareFunctionType + L .name + L .specialName
  | .name => L .nestedName + L .localName + L .unscopedTemplateName * L .templateArgs + L .unscopedName
  | .unscopedName => L .unqualifiedName + two 'S' 't' * L .unqualifiedName
  | .unscopedTemplateName => L .unscopedName + L .substitution
  | .nestedName => chr 'N' * opt (L .cvQualifiers) * L .namePrefix * chr 'E'
  | .namePrefix =>
    (L .templateParam + L .substitution + L .unscopedName) * opt (L .templateArgs) * opt (L .namePrefix)
  | .unqualifiedName =>
    L .operatorName + L .ctorDtorName + L .sourceName * opt (L .abiTags) + L .localSourceName * opt (L .abiTags)
  | .sourceName => {w | ∃ n : Nat, 0 < n ∧ w ∈ digitsOf n * L (.identifier n)}
  | .localSourceName => chr 'L' * L .sourceName * opt (L .discriminator)
  | .number => opt (chr 'n') * digits
  | .floatNumber => run1 fun c => isDigit c || ('a' ≤ c && c ≤ 'f')
  | .seqId => run1 fun c => isDigit c || ('A' ≤ c && c ≤ 'Z')
  | .identifier length => {w | (w.length : Int) = length}
  | .abiTags => L .abiTag * opt (L .abiTags)
  | .abiTag => chr 'B' * L .sourceName
  | .operatorName =>
    two 'c' 'v' * L .type + chr 'v' * oneOf "0123456789".toList * L .sourceName +
      keys operatorList (fun p => [p.1.1, p.1.2])
  | .specialName =>
    chr 'T' * oneOf "VTIS".toList * L .type +
    two 'T' 'c' * L .callOffset * L .callOffset * L .encoding +
    two 'G' 'V' * L .name +
    chr 'T' * L .callOffset * L .encoding +
    two 'T' 'C' * L .type * L .number * chr '_' * L .type +
    chr 'T' * oneOf "FJ".toList * L .type +
    two 'G' 'R' * L .name +
    two 'G' 'A' * L .encoding +
    chr 'T' * oneOf "hv".toList * L .callOffset * L .encoding
  | .callOffset => chr 'h' * L .nvOffset * chr '_' + chr 'v' * L .vOffset * chr '_'
  | .nvOffset => L .number
  | .vOffset => L .number * chr '_' * L .number
  | .ctorDtorName => chr 'C' * oneOf "123".toList + chr 'D' * oneOf "012".toList
  | .type =>
    L .cvQualifiers * L .type +
    oneOf "OPRCG".toList * L .type +
    two 'D' 'p' * L .type +
    chr 'D' * oneOf "tT".toList * L .expression * chr 'E' +
    chr 'U' * L .sourceName * L .type +
    (L .builtinType + L .functionType + L .classEnumType + L .arrayType + L .pointerToMemberType +
      L .substitution + L .templateTemplateParam * L .templateArgs) +
    L .templateParam
  | .cvQualifiers => opt (chr 'r') * opt (chr 'V') * opt (chr 'K')
  | .builtinType => keys builtinTypeList (fun p => [p.1]) + chr 'u' * L .sourceName
  | .functionType => chr 'F' * opt (chr 'Y') * L .bareFunctionType * chr 'E'
  | .bareFunctionType => L .type * (L .type)∗
  | .classEnumType => L .name
  | .arrayType => chr 'A' * L .number * chr '_' * L .type + chr 'A' * opt (L .expression) * chr '_' * L .type
  | .pointerToMemberType => chr 'M' * L .type * L .type
  | .templateParam => two 'T' '_' + chr 'T' * digits * chr '_'
  | .templateTemplateParam => L .templateParam + L .substitution
  | .templateArgs => chr 'I' * (L .templateArg * (L .templateArg)∗) * chr 'E'
  | .templateArg =>
    (chr 'I' + chr 'J') * (L .templateArg)∗ * chr 'E' + (L .type + L .exprPrimary) +
    chr 'X' * L .expression * chr 'E'
  | .expression =>
    L .templateParam + L .exprPrimary +
    (L .operatorName * L .expression * L .expression * L .expression +
      L .operatorName * L .expression * L .expression +
      L .operatorName * L .expression +
      two 's' 't' * L .type +
      two 's' 'r' * L .type * L .unqualifiedName * L .templateArgs +
      two 's' 'r' * L .type * L .unqualifiedName)
  | .exprPrimary =>
    chr 'L' * L .type * L .number * chr 'E' +
    chr 'L' * L .type * L .floatNumber * chr 'E' +
    chr 'L' * L .mangledName * chr 'E' +
    two 'L' 'Z' * L .encoding * chr 'E'
  | .localName =>
    chr 'Z' * L .encoding * chr 'E' * L .name * opt (L .discriminator) +
    chr 'Z' * L .encoding * two 'E' 's' * opt (L .discriminator)
  | .discriminator => chr '_' * L .number
  | .substitution =>
    two 'S' '_' + chr 'S' * L .seqId * chr '_' + chr 'S' * keys substitutionList (fun p => [p.1])
  | .namePrefixLoop _ | .topLevelMangledName | .oneOrMore _ | .zeroOrMore _ => 0

/-- The words that a nonterminal derives: the least solution of the equations. -/
def Derives (nonterminal : Func) (w : List Char) : Prop :=
  ∀ L : Func → Language Char, (∀ f, bnf L f ≤ L f) → w ∈ L nonterminal

/-- `.<alpha>+.<digit>+` -/
def cloneSuffix : Language Char := chr '.' * run1 isAlpha * chr '.' * run1 isDigit

end Glog.Demangle
