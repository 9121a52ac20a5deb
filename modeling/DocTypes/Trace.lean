/-
# What happens while types are resolved

Everything that resolution and scanning do besides answering is an `Event`: a
name asked of a registry, a name placed or expanded, a probe that failed, a file
read or passed over. A run keeps its events in order, as its trace. Most events
are written to the log, each at a level and in the words of its area
(`Event.record?`); that a registry was asked is not.

Key definitions: `Fault`, `Event`, `Record`, `Event.record?`.
-/
import DocTypes.Files.Tree

namespace DocTypes

/-- Why a probe gave no answer: the cause in one word, and a message. -/
structure Fault where
  cause : Text
  message : Text
  deriving DecidableEq

/-- What happens while types are resolved or sources are scanned. -/
inductive Event where
  /-- A registry was asked for a name. -/
  | asked (name : Text)
  /-- A name was placed in the namespace around it. -/
  | placed (name resolved : Text)
  /-- An alias in a name was replaced by its target. -/
  | aliased (name resolved : Text)
  /-- A probe failed for a name, which counts as unknown. -/
  | probeFailed (name : Text) (fault : Fault)
  /-- A source header was read: its namespace as declared, the number of its
  aliases, its generic parameters. -/
  | readHeader (namespaceName : Text) (aliases : Nat) (generics : List Text)
  /-- Declarations were registered from a source text. -/
  | scannedText (count : Nat)
  /-- Declarations were registered from a file. -/
  | scannedFile (count : Nat) (path : Path)
  /-- A file could not be read and was passed over. -/
  | unreadable (path : Path) (fault : ReadFault)
  /-- A source path leads nowhere. -/
  | noSuchPath (path : Path)
  deriving DecidableEq

/-- How much a log record matters. -/
inductive Level where
  | debug
  | warning
  deriving DecidableEq

/-- The part of the library that a log record comes from. -/
inductive Area where
  | resolution
  | header
  | sources
  deriving DecidableEq

/-- A line of the log. -/
structure Record where
  level : Level
  area : Area
  message : Text
  deriving DecidableEq

/-- The words of an event in the log: its level, its area and its message. -/
def Event.record? : Event → Option Record
  | .asked _ => none
  | .placed name resolved =>
    some ⟨.debug, .resolution,
      "Placed ".toList ++ name.quote ++ " in namespace: ".toList ++ resolved.quote⟩
  | .aliased name resolved =>
    some ⟨.debug, .resolution,
      "Expanded alias in ".toList ++ name.quote ++ ": ".toList ++ resolved.quote⟩
  | .probeFailed name fault =>
    some ⟨.warning, .resolution,
      "Type registry probe failed for ".toList ++ name.quote ++
        ", treating it as unknown: ".toList ++ fault.message⟩
  | .readHeader namespaceName aliases generics =>
    some ⟨.debug, .header,
      "Parsed context: namespace=".toList ++ namespaceName.quote ++ ", ".toList ++
        Text.ofNat aliases ++ " aliases, generics=".toList ++ Text.quoteList generics⟩
  | .scannedText count =>
    some ⟨.debug, .sources,
      "Registered ".toList ++ Text.ofNat count ++ " declarations from source string".toList⟩
  | .scannedFile count path =>
    some ⟨.debug, .sources,
      "Registered ".toList ++ Text.ofNat count ++ " declarations from ".toList ++ path.render⟩
  | .unreadable path fault =>
    some ⟨.warning, .sources,
      "Skipping unreadable source file ".toList ++ path.render ++ ": ".toList ++
        fault.message path⟩
  | .noSuchPath path =>
    some ⟨.warning, .sources, "Source path does not exist: ".toList ++ path.render⟩

end DocTypes
