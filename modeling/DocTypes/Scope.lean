/-
# How a single type resolves

A context is the place where a type is written: the namespace around it, the
aliases that are imported there, and the names of the generic parameters that
are in scope. `Context.create` brings raw declarations into normal form: no
separators around the namespace, no namespace under the reserved names for the
global one, and exactly one separator in front of every alias target.

A scope is a context together with the generic parameters that count in it. It
tells the kind of a single type by the first rule that applies, in this order:
generic or shape, callable or parenthesis, literal, array, keyword, generic
parameter, class.

What a type resolves to depends on the scope and on at most one answer of a
registry. `Scope.plan` works out the scope's part: either the result is settled,
or one name has to be asked, and the result is known for either answer
(`Plan.ask`). The array suffix goes over both results (`Plan.arrayOf`).

A class name that no registry knows is resolved by `Context.resolve`: the first
segment, or the part of it before `::`, is looked up among the aliases, and
without an alias the name is placed in the namespace around it.

Key definitions: `Context`, `Context.create`, `Context.withAlias`,
`Context.withGenerics`, `Context.same`, `Kind`, `Scope`, `Scope.kind?`, `Plan`,
`Context.resolve`, `Scope.plan`.
-/
import DocTypes.Table
import DocTypes.Token
import DocTypes.Trace

namespace DocTypes

/-! ### Contexts -/

/-- The place where a type is written. -/
structure Context where
  /-- The namespace around the place, empty for the global one. -/
  namespaceName : Text := []
  /-- What the imported short names stand for. -/
  aliases : Table Text Text := .empty
  /-- The generic parameters in scope, in the order of their declaration. -/
  generics : List Text := []
  deriving DecidableEq

/-- The names that mean the global namespace. -/
def globalNamespaces : List Text := ["default".toList, "global".toList]

/-- A name without the separators at both ends. -/
def stripSeparators (s : Text) : Text := s.trim (· == separator)

/-- A name with exactly one separator in front and none at the end. -/
def rooted (s : Text) : Text := separator :: stripSeparators s

/-- A namespace as it is declared, in normal form. -/
def normalNamespace (s : Text) : Text :=
  if stripSeparators s ∈ globalNamespaces then [] else stripSeparators s

namespace Context

/-- The context of raw declarations, in normal form. -/
def create (namespaceName : Text) (aliases : Table Text Text) (generics : List Text) : Context :=
  ⟨normalNamespace namespaceName, aliases.map rooted, generics⟩

/-- The context with one more alias, or with another target for it. -/
def withAlias (c : Context) (name target : Text) : Context :=
  { c with aliases := c.aliases.put name target }

/-- The context with more generic parameters after its own. -/
def withGenerics (c : Context) (names : List Text) : Context :=
  { c with generics := c.generics ++ names }

/-- Whether two contexts resolve alike: the order of the aliases does not count. -/
def same (a b : Context) : Bool :=
  a.namespaceName == b.namespaceName && a.aliases.same b.aliases && a.generics == b.generics

end Context

/-! ### Kinds -/

/-- The kind of a single type. -/
inductive Kind where
  /-- A reserved name. -/
  | keyword
  /-- A generic parameter in scope. -/
  | template
  /-- An element type with the array suffix. -/
  | array
  /-- A generic with its arguments, or a shape. -/
  | generic
  /-- A callable signature or a parenthesised expression. -/
  | callable
  /-- A quoted literal. -/
  | literal
  /-- The name of a class. -/
  | classRef
  deriving DecidableEq

namespace Kind

/-- All kinds, in their fixed order. -/
def all : List Kind := [keyword, template, array, generic, callable, literal, classRef]

/-- The name of a kind as it is shown. -/
def label : Kind → Text
  | keyword => "KEYWORD".toList
  | template => "TEMPLATE".toList
  | array => "ARRAY".toList
  | generic => "GENERIC".toList
  | callable => "CALLABLE".toList
  | literal => "LITERAL".toList
  | classRef => "CLASS".toList

end Kind

/-- A context and the generic parameters that count in it. -/
structure Scope where
  context : Context
  generics : List Text
  deriving DecidableEq

namespace Scope

/-- The scope of a context with its own generic parameters. -/
def ofContext (c : Context) : Scope := ⟨c, c.generics⟩

/-- Whether a type is a generic parameter, in the letter case of its declaration. -/
def isGeneric (σ : Scope) (s : Text) : Bool := decide (s ∈ σ.generics)

/-- The kind of a type, none when there is nothing but padding. -/
def kind? (σ : Scope) (t : Text) : Option Kind :=
  let s := stripPadding t
  if s = [] then none
  else if isShape s then some .generic
  else if isSignature s ∨ isParenthesised s then some .callable
  else if isLiteral s then some .literal
  else if isArray s then some .array
  else if isKeyword s then some .keyword
  else if σ.isGeneric s then some .template
  else some .classRef

end Scope

/-- Whether a name lacks the leading separator. Keywords always count as relative. -/
def isRelative (s : Text) : Bool := !isAbsolute s || isKeyword s

/-! ### Plans -/

/-- A resolution up to the answer of a registry. -/
inductive Plan where
  /-- The result does not depend on a registry. -/
  | settled (result : Text)
  /-- The registry has to be asked for `name`: when it is known the result is
  `known`, and otherwise `unknown`, with `note` going to the trace. -/
  | ask (name known unknown : Text) (note : Event)
  deriving DecidableEq

namespace Plan

/-- The plan for the array of what is planned. -/
def arrayOf : Plan → Plan
  | settled r => settled (r ++ arraySuffix)
  | ask name known unknown note => ask name (known ++ arraySuffix) (unknown ++ arraySuffix) note

end Plan

/-! ### Class names -/

/-- What becomes of a class name that no registry knows. -/
inductive Resolution where
  /-- It is placed in the namespace around it. -/
  | placed (resolved : Text)
  /-- An alias in it is replaced by its target. -/
  | aliased (resolved : Text)
  deriving DecidableEq

namespace Resolution

/-- The name that comes out. -/
def name : Resolution → Text
  | placed r => r
  | aliased r => r

/-- What is noted about the resolution of `s`. -/
def note (s : Text) : Resolution → Event
  | placed r => .placed s r
  | aliased r => .aliased s r

end Resolution

namespace Context

/-- A name in the namespace around it. -/
def qualify (c : Context) (s : Text) : Text :=
  separator :: (if c.namespaceName = [] then s else c.namespaceName ++ separator :: s)

/-- The alias target for the class of a member, with the text from `::` on, when
the segment names a member of an aliased class. -/
def memberTarget? (c : Context) (segment : Text) : Option (Text × Text) :=
  match memberParts? segment with
  | none => none
  | some (owner, member) =>
    if owner = [] then none else (c.aliases.find? owner).map fun target => (target, member)

/-- Resolves a class name. The member of an aliased class comes after the rest
of the name, which follows the target without a separator. -/
def resolve (c : Context) (s : Text) : Resolution :=
  let segment := s.before separator
  match c.memberTarget? segment with
  | some (target, member) => .aliased (target ++ (s.after? separator).getD [] ++ member)
  | none =>
    match c.aliases.find? segment with
    | some target => .aliased (target ++ s.dropWhile (· != separator))
    | none => .placed (c.qualify s)

end Context

/-! ### Single types -/

namespace Scope

/-- The plan for a class name: a name that the registry knows is absolute as it
is written. -/
def reference (σ : Scope) (s : Text) : Plan :=
  let resolution := σ.context.resolve s
  .ask s (separator :: s) resolution.name (resolution.note s)

theorem length_lt_of_arrayElement? {t e : Text} (h : arrayElement? (stripPadding t) = some e) :
    e.length < t.length := by
  have h1 := congrArg List.length (eq_append_of_arrayElement? h)
  have h2 : (stripPadding t).length ≤ t.length := Text.length_trim_le isPadding t
  simp only [List.length_append, arraySuffix, List.length_cons, List.length_nil] at h1
  omega

/-- The plan for a single type: padding is nothing, verbatim forms stay, an array
is planned by its element, and a relative name that is neither a keyword nor a
generic parameter is a class to be resolved. -/
def plan (σ : Scope) (t : Text) : Plan :=
  let s := stripPadding t
  if s = [] then .settled []
  else if isVerbatim s then .settled s
  else
    match _h : arrayElement? (stripPadding t) with
    | some e => (σ.plan e).arrayOf
    | none =>
      if isRelative s && !isKeyword s && !σ.isGeneric s then σ.reference s else .settled s
termination_by t.length
decreasing_by exact length_lt_of_arrayElement? ‹_›

end Scope

end DocTypes
