/-
# Forms of types

A type expression joins its alternatives by `|`. A `|` inside brackets belongs
to the alternative around it, where only the nesting depth is kept: every
opener adds one and every closer takes one away, whatever their kinds, and the
depth may go below zero. So `array{a: int)|string` has two alternatives, and
after a closer too many every later `|` stays inside its part until the depth
is zero again.

One alternative is recognised by its form, after the padding around it is taken
off: a generic or a shape (a name and a bracketed body that goes to the end), a
callable signature (an opening parenthesis with a colon later on the same line), a
parenthesised expression, a quoted literal, or an element type with the array
suffix. Without a form it is a name. Reserved names never stand for a class:
scalars, late binding, refined types, bottom types and bit masks. They are
recognised in any letter case.

Key definitions: `weight`, `balance`, `alternatives`, `stripPadding`, `isShape`,
`isSignature`, `isLiteral`, `arrayElement?`, `memberParts?`, `keywords`,
`isKeyword`.
-/
import DocTypes.Text.Lowercase

namespace DocTypes

/-! ### Alternatives of a union -/

/-- The character between the alternatives of a union. -/
def unionSign : Char := '|'

/-- What a character adds to the nesting depth. -/
def weight (c : Char) : Int :=
  if c = '<' ∨ c = '(' ∨ c = '[' ∨ c = '{' then 1
  else if c = '>' ∨ c = ')' ∨ c = ']' ∨ c = '}' then -1
  else 0

/-- The number of openers less the number of closers. -/
def balance : Text → Int
  | [] => 0
  | c :: s => weight c + balance s

/-- The alternatives of the rest of an expression, at nesting depth `depth`. -/
def alternativesFrom : (depth : Int) → Text → List Text
  | _, [] => [[]]
  | depth, c :: s =>
    if c = unionSign ∧ depth = 0 then [] :: alternativesFrom 0 s
    else Text.consHead c (alternativesFrom (depth + weight c) s)

/-- The alternatives of a type expression, in order and untrimmed. The last one
is always there, so the empty expression has one empty alternative. -/
def alternatives (s : Text) : List Text := alternativesFrom 0 s

/-! ### Padding and separators -/

/-- The characters around a type that do not count: space, tab, line feed,
carriage return, NUL and vertical tab. -/
def padding : List Char := [' ', '\t', '\n', '\r', Char.ofNat 0, Char.ofNat 11]

/-- Whether a character is padding. -/
def isPadding (c : Char) : Bool := decide (c ∈ padding)

/-- A type without the padding around it. -/
def stripPadding (s : Text) : Text := s.trim isPadding

/-- Between the name of a nested namespace and the rest. -/
def separator : Char := Char.ofNat 92

/-- The suffix of an array of the type before it. -/
def arraySuffix : Text := ['[', ']']

/-! ### Generics and shapes -/

/-- The characters of a name in front of a body: ASCII letters and digits, the
underscore and the hyphen. -/
def isHeadChar (c : Char) : Bool := c.isAlphanum || c == '_' || c == '-'

/-- The closer of a body. -/
def closerOf : Char → Option Char
  | '<' => some '>'
  | '[' => some ']'
  | c => if c = Char.ofNat 123 then some (Char.ofNat 125) else none

/-- A body is on one line and not empty, and a square one does not begin with
its closer, because an empty pair is an array suffix. -/
def isBody (opener : Char) (body : Text) : Bool :=
  !body.isEmpty && decide ('\n' ∉ body) && !(opener == '[' && body.head? == some ']')

/-- A body up to its closer, from the opener on. -/
def isBracketed : Text → Bool
  | [] => false
  | opener :: s =>
    match closerOf opener with
    | none => false
    | some closer => s.getLast? == some closer && isBody opener s.dropLast

/-- A name and a bracketed body that goes to the end. -/
def isShape (s : Text) : Bool :=
  !(s.takeWhile isHeadChar).isEmpty && isBracketed (s.dropWhile isHeadChar)

/-! ### Callables, parentheses and literals -/

/-- Whether there is a colon with an opening parenthesis before it on its line,
where `opened` tells that one stands on the line already. -/
def signatureFrom : (opened : Bool) → Text → Bool
  | _, [] => false
  | opened, c :: s =>
    if c = '\n' then signatureFrom false s
    else if c = '(' then signatureFrom true s
    else (opened && c == ':') || signatureFrom opened s

/-- An opening parenthesis somewhere, with a colon later on the same line. -/
def isSignature (s : Text) : Bool := signatureFrom false s

/-- Begins with a parenthesis. -/
def isParenthesised (s : Text) : Bool := s.head? == some '('

/-- Begins with a quote of either kind. -/
def isLiteral (s : Text) : Bool :=
  s.head? == some (Char.ofNat 34) || s.head? == some (Char.ofNat 39)

/-- The forms that are kept as they are written. -/
def isVerbatim (s : Text) : Bool :=
  isShape s || isSignature s || isParenthesised s || isLiteral s

/-! ### Arrays and names -/

/-- What stands before the array suffix, if the type ends with one. -/
def arrayElement? (s : Text) : Option Text :=
  match s.reverse with
  | ']' :: '[' :: r => some r.reverse
  | _ => none

/-- Whether a type ends with the array suffix. -/
def isArray (s : Text) : Bool := (arrayElement? s).isSome

theorem eq_append_of_arrayElement? {s e : Text} (h : arrayElement? s = some e) :
    s = e ++ arraySuffix := by
  unfold arrayElement? at h
  split at h
  · next r hr =>
    have hs : s = (']' :: '[' :: r).reverse := by rw [← hr, List.reverse_reverse]
    cases h
    simp [hs, arraySuffix]
  · cases h

theorem arrayElement?_append (e : Text) : arrayElement? (e ++ arraySuffix) = some e := by
  simp [arrayElement?, arraySuffix]

/-- Whether a name begins at the root of all namespaces. -/
def isAbsolute (s : Text) : Bool := s.head? == some separator

/-- A class name and its member, parted before the first `::`. -/
def memberParts? : Text → Option (Text × Text)
  | [] => none
  | c :: s =>
    if c = ':' ∧ s.head? = some ':' then some ([], c :: s)
    else (memberParts? s).map fun p => (c :: p.1, p.2)

/-! ### Reserved names -/

/-- The reserved type names, in the order of their characters. -/
def keywords : List Text :=
  ["$this", "array", "array-key", "bool", "boolean", "callable", "callable-string", "callback",
    "class-string", "closed-resource", "double", "false", "float", "int", "int-mask",
    "int-mask-of", "integer", "iterable", "key-of", "list", "literal-string", "lowercase-string",
    "mixed", "negative-int", "never", "never-return", "never-returns", "no-return",
    "non-empty-array", "non-empty-list", "non-empty-string", "non-falsy-string",
    "non-negative-int", "non-positive-int", "non-zero-int", "null", "number", "numeric-string",
    "object", "open-resource", "positive-int", "pure-callable", "resource", "scalar", "self",
    "static", "string", "template-type", "true", "value-of", "void"].map String.toList

/-- Whether a type name is reserved, in any letter case. -/
def isKeyword (s : Text) : Bool := decide (s.lower ∈ keywords)

end DocTypes
