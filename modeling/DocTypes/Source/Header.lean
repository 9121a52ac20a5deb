/-
# What a source declares

A recogniser reads what it looks for from the front of a text. `findAll` goes
through a text from left to right and tries a recogniser at every place, or only
where a line starts; where it finds something, the search goes on behind what
was read. Every find comes with the offset at which it starts. The search is one
recursion on the text: `covered` counts the characters ahead that belong to the
last find.

Four things are read from a source text: namespace statements, type
declarations and import statements, each on a new line after any blanks (which
may hold further line breaks), and template tags, which may stand anywhere in a
comment. Blanks between words may hold line breaks too.

The body of an import statement lists names, each with an alias of its own or
under its last segment: `A\B`, `A\B as C`, several of them with commas between,
or a group `A\{B, C as D}` whose names share what stands before the brace.
Functions and constants are imported by the same statement; they give no alias.

The types that a source declares come under their full names: a declaration
belongs to the last namespace statement that starts before it, and to no
namespace when there is none. Namespaces and declarations are found in two
passes over the same text and put together by their offsets.

The header of a source is what stands before its first type declaration, so that
nothing inside a class is taken for an import. It gives the context of that
declaration: the first namespace, the imports with later aliases winning, and
the parameters of all template tags in order.

Key definitions: `Recogniser`, `findAll`, `findLines`, `findAnywhere`,
`readNamespace`, `readDeclaration`, `readImports`, `readTemplate`, `Import`,
`Import.ofItem`, `importsOf`, `namespacesOf`, `namespaceAt`, `declaredTypes`,
`headerOf`, `HeaderFacts`, `contextOf`.
-/
import DocTypes.Scope
import DocTypes.Text.Classes

namespace DocTypes

/-! ### Finding statements -/

/-- Reads something from the front of a text, and answers it with the rest. -/
abbrev Recogniser (α : Type) := Text → Option (α × Text)

/-- The finds in a text that lies at `offset`, past the next `covered`
characters. With `everywhere` unset the recogniser is tried only where
`lineStart` holds: at the start and after each line feed. -/
def findAll {α : Type} (read : Recogniser α) (everywhere : Bool) :
    (offset : Nat) → (lineStart : Bool) → (covered : Nat) → Text → List (Nat × α)
  | _, _, _, [] => []
  | offset, _, covered + 1, c :: s =>
    findAll read everywhere (offset + 1) (c == '\n') covered s
  | offset, lineStart, 0, c :: s =>
    match if everywhere || lineStart then read (c :: s) else none with
    | none => findAll read everywhere (offset + 1) (c == '\n') 0 s
    | some (found, rest) =>
      (offset, found) ::
        findAll read everywhere (offset + 1) (c == '\n') (s.length - rest.length) s

/-- The finds that start at the start of a line. -/
def findLines {α : Type} (read : Recogniser α) (s : Text) : List (Nat × α) :=
  findAll read false 0 true 0 s

/-- The finds that start anywhere. -/
def findAnywhere {α : Type} (read : Recogniser α) (s : Text) : List (Nat × α) :=
  findAll read true 0 true 0 s

/-! ### Words -/

/-- Reads one of some words. -/
def afterAnyWord? (words : List Text) (s : Text) : Option Text :=
  words.findSome? fun w => Text.afterWord? w s

/-- Reads one of some words and the blanks after it, of which there must be one. -/
def afterSpacedWord? (words : List Text) (s : Text) : Option Text :=
  (afterAnyWord? words s).bind Text.afterBlanks?

/-! ### Namespaces -/

/-- The characters of a namespace. -/
def isNamespaceChar (c : Char) : Bool := isWordChar c || c == separator

/-- Reads a name with separators and, after any blanks, a semicolon or an opening
brace. -/
def namespaceName? : Recogniser Text := fun s =>
  match s.takeWhile isNamespaceChar, (s.dropWhile isNamespaceChar).dropWhile isBlank with
  | [], _ => none
  | _, [] => none
  | c :: cs, ending :: rest =>
    if ending = ';' ∨ ending = Char.ofNat 123 then some (c :: cs, rest) else none

/-- Reads `namespace` and the name that it declares. -/
def readNamespace : Recogniser Text := fun s =>
  (afterSpacedWord? ["namespace".toList] (s.dropWhile isBlank)).bind namespaceName?

/-! ### Declarations -/

/-- The words that may stand before a declaration. -/
def modifiers : List Text := ["abstract".toList, "final".toList, "readonly".toList]

/-- The words that begin a declaration. -/
def declarationWords : List Text :=
  ["class".toList, "interface".toList, "trait".toList, "enum".toList]

theorem length_le_of_afterWord? : ∀ {w s rest : Text}, Text.afterWord? w s = some rest →
    rest.length ≤ s.length
  | [], _, _, h => by cases h; exact Nat.le_refl _
  | _ :: _, [], _, h => by cases h
  | x :: w, c :: s, rest, h => by
    unfold Text.afterWord? at h
    split at h
    · exact Nat.le_succ_of_le (length_le_of_afterWord? h)
    · cases h

theorem length_lt_of_afterBlanks? {s rest : Text} (h : Text.afterBlanks? s = some rest) :
    rest.length < s.length := by
  cases s with
  | nil => cases h
  | cons c s =>
    simp only [Text.afterBlanks?] at h
    split at h
    · cases h
      exact Nat.lt_succ_of_le (List.dropWhile_sublist _).length_le
    · simp at h

theorem length_lt_of_afterSpacedWord? {words : List Text} {s rest : Text}
    (h : afterSpacedWord? words s = some rest) : rest.length < s.length := by
  obtain ⟨t, ht, hr⟩ := Option.bind_eq_some_iff.mp h
  obtain ⟨w, _, hw⟩ := List.exists_of_findSome?_eq_some ht
  exact Nat.lt_of_lt_of_le (length_lt_of_afterBlanks? hr) (length_le_of_afterWord? hw)

/-- Passes over the modifiers at the front, each with the blanks after it. -/
def skipModifiers (s : Text) : Text :=
  match _h : afterSpacedWord? modifiers s with
  | some rest => skipModifiers rest
  | none => s
termination_by s.length
decreasing_by exact length_lt_of_afterSpacedWord? ‹_›

/-- Reads modifiers, the word of a declaration and the name that it declares. -/
def readDeclaration : Recogniser Text := fun s =>
  (afterSpacedWord? declarationWords (skipModifiers (s.dropWhile isBlank))).bind Text.name?

/-! ### Imports -/

/-- Reads `use` and what stands before the next semicolon. -/
def readImports : Recogniser Text := fun s =>
  (afterSpacedWord? ["use".toList] (s.dropWhile isBlank)).bind fun s =>
    match s.takeWhile (· != ';'), s.dropWhile (· != ';') with
    | [], _ => none
    | _, [] => none
    | c :: cs, _ :: rest => some (c :: cs, rest)

/-! ### Template tags -/

/-- The text without a word of the list in front, if it begins with one. -/
def skipWord (words : List Text) (s : Text) : Text := (afterAnyWord? words s).getD s

/-- Reads a template tag of any vendor and variance, and the name of its
parameter. -/
def readTemplate : Recogniser Text := fun s =>
  (Text.afterWord? ['@'] s).bind fun s =>
    (Text.afterWord? "template".toList
        (skipWord ["phpstan-".toList, "psalm-".toList] s)).bind fun s =>
      (Text.afterBlanks? (skipWord ["-covariant".toList, "-contravariant".toList] s)).bind
        Text.name?

/-! ### Imported names -/

/-- An imported name and the short name that it is known under. -/
structure Import where
  shortName : Text
  name : Text
  deriving DecidableEq

/-- What begins the import of a function or a constant. -/
def otherImportWords : List Text := ["function ".toList, "const ".toList]

/-- Whether an import is of a function or a constant, in any letter case. -/
def importsOther (s : Text) : Bool := otherImportWords.any fun w => Text.startsWith w s.lower

/-- Reads blanks, the word `as` in any letter case, and blanks. The long s counts
as an s. -/
def afterAs? (s : Text) : Option Text :=
  match Text.afterBlanks? s with
  | some (a :: b :: rest) =>
    if (a = 'a' ∨ a = 'A') ∧ (b = 's' ∨ b = 'S' ∨ b = Char.ofNat 0x17F) then
      Text.afterBlanks? rest
    else none
  | _ => none

/-- The texts before and after the first `as` between blanks. -/
def partAs? : Text → Option (Text × Text)
  | [] => none
  | c :: s =>
    match afterAs? (c :: s) with
    | some rest => some ([], rest)
    | none => (partAs? s).map fun p => (c :: p.1, p.2)

namespace Import

/-- An imported name under its last segment. -/
def ofName (name : Text) : Import :=
  ⟨(name.trimEnd (· == separator)).afterLast separator, name⟩

/-- Reads one imported name with its alias. -/
def ofItem (item : Text) : Import :=
  match partAs? item.trimBlank with
  | some (name, shortName) => ⟨shortName.trimBlank, name.trimBlank⟩
  | none => ofName item.trimBlank

end Import

/-- The opening brace of a group. -/
def groupOpener : Char := Char.ofNat 123

/-- The closing brace of a group. -/
def groupCloser : Char := Char.ofNat 125

/-- The items of a group, each with the shared part in front. -/
def groupItems (shared items : Text) : List Text :=
  let parts := (Text.cutAll ',' (items.trimEnd (· == groupCloser))).map Text.trimBlank
  (parts.filter fun part => part ≠ [] ∧ importsOther part = false).map fun part =>
    shared ++ separator :: part

/-- The items of the body of an import statement. -/
def itemsOf (body : Text) : List Text :=
  match body.after? groupOpener with
  | some items =>
    groupItems ((body.before groupOpener).trimBlank.trimEnd (· == separator)) items
  | none => (Text.cutAll ',' body).filter fun item => item.trimBlank ≠ []

/-- The imports of the body of an import statement, in order. -/
def importsOf (body : Text) : List Import :=
  let body := body.trimBlank
  if importsOther body then [] else (itemsOf body).map Import.ofItem

/-! ### Declared types -/

/-- The namespace statements of a source: where each starts and its namespace,
without separators around it. -/
def namespacesOf (source : Text) : List (Nat × Text) :=
  (findLines readNamespace source).map fun f => (f.1, stripSeparators f.2)

/-- The namespace at an offset: of the last statement that starts there or before. -/
def namespaceAt (statements : List (Nat × Text)) (offset : Nat) : Text :=
  ((statements.filter fun f => f.1 ≤ offset).getLast?).elim [] (·.2)

/-- A name in a namespace, the bare name in none. -/
def qualified (namespaceName name : Text) : Text :=
  if namespaceName = [] then name else namespaceName ++ separator :: name

/-- The full names of the types that a source declares, in its order. -/
def declaredTypes (source : Text) : List Text :=
  let statements := namespacesOf source
  (findLines readDeclaration source).map fun f => qualified (namespaceAt statements f.1) f.2

/-! ### Headers -/

/-- The text before the first type declaration, the whole source without one. -/
def headerOf (source : Text) : Text :=
  match findLines readDeclaration source with
  | [] => source
  | (start, _) :: _ => source.take start

/-- What a header declares, as it is written. -/
structure HeaderFacts where
  namespaceName : Text
  aliases : Table Text Text
  generics : List Text

/-- Reads what a header declares. -/
def HeaderFacts.read (header : Text) : HeaderFacts where
  namespaceName := ((findLines readNamespace header).head?).elim [] (·.2)
  aliases := .ofList <| (findLines readImports header).flatMap fun f =>
    (importsOf f.2).map fun i => (i.shortName, i.name)
  generics := (findAnywhere readTemplate header).map (·.2)

/-- What is noted when a header has been read. -/
def HeaderFacts.note (h : HeaderFacts) : Event :=
  .readHeader h.namespaceName h.aliases.size h.generics

/-- What the header of a source declares. -/
def factsOf (source : Text) : HeaderFacts := .read (headerOf source)

/-- The context of the first type that a source declares. -/
def contextOf (source : Text) : Context :=
  .create (factsOf source).namespaceName (factsOf source).aliases (factsOf source).generics

end DocTypes
