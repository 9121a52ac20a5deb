/-
# Texts from bytes

Bytes are read as UTF-8. A sequence that no character has is replaced by U+FFFD,
one for each longest beginning of a well-formed character in it, or for one byte
that begins none. A byte order mark is a character like any other. The reader
keeps the bytes still owed to a character and the bounds of the next one
(`Owed`).

Files come with the line ends of several systems: a carriage return, with a line
feed after it or not, is read as a line feed.

Key definitions: `decodeUtf8`, `foldLineEnds`, `fileText`.
-/
import DocTypes.Text

namespace DocTypes

/-- What stands in for bytes that are no character. -/
def replacementChar : Char := Char.ofNat 0xFFFD

/-- A character that is partly read: how many bytes it still needs, what its
code point is so far, and the bounds of its next byte. -/
structure Owed where
  count : Nat
  value : Nat
  low : Nat
  high : Nat

/-- What a first byte begins: a character of its own, a longer one, or nothing. -/
inductive FirstByte where
  | whole (c : Char)
  | longer (owed : Owed)
  | nothing

/-- Reads a first byte. The bounds leave out long forms of short characters,
surrogates, and code points past the last. -/
def firstByte (b : Nat) : FirstByte :=
  if b < 0x80 then .whole (Char.ofNat b)
  else if b < 0xC2 then .nothing
  else if b < 0xE0 then .longer ⟨1, b - 0xC0, 0x80, 0xBF⟩
  else if b = 0xE0 then .longer ⟨2, 0, 0xA0, 0xBF⟩
  else if b = 0xED then .longer ⟨2, b - 0xE0, 0x80, 0x9F⟩
  else if b < 0xF0 then .longer ⟨2, b - 0xE0, 0x80, 0xBF⟩
  else if b = 0xF0 then .longer ⟨3, 0, 0x90, 0xBF⟩
  else if b < 0xF4 then .longer ⟨3, b - 0xF0, 0x80, 0xBF⟩
  else if b = 0xF4 then .longer ⟨3, b - 0xF0, 0x80, 0x8F⟩
  else .nothing

/-- Reads one byte between characters: the characters that are complete, and what
is owed after it. -/
def startChar (b : Nat) : Text × Option Owed :=
  match firstByte b with
  | .whole c => ([c], none)
  | .longer owed => ([], some owed)
  | .nothing => ([replacementChar], none)

/-- Reads one byte: the characters that are complete, and what is owed after it.
A byte that does not go on with the character begun starts anew. -/
def readByte : Option Owed → Nat → Text × Option Owed
  | none, b => startChar b
  | some owed, b =>
    if owed.low ≤ b ∧ b ≤ owed.high then
      let value := owed.value * 64 + (b - 0x80)
      if owed.count = 1 then ([Char.ofNat value], none)
      else ([], some ⟨owed.count - 1, value, 0x80, 0xBF⟩)
    else
      let (chars, next) := startChar b
      (replacementChar :: chars, next)

/-- Reads the bytes after some that have begun a character, or none. -/
def decodeFrom : Option Owed → List UInt8 → Text
  | none, [] => []
  | some _, [] => [replacementChar]
  | owed, b :: bs =>
    let (chars, next) := readByte owed b.toNat
    chars ++ decodeFrom next bs

/-- The text that bytes hold in UTF-8. -/
def decodeUtf8 (bytes : List UInt8) : Text := decodeFrom none bytes

/-- The text with every line end as a line feed, where `afterReturn` tells that a
carriage return has just been read. -/
def foldLineEndsFrom : (afterReturn : Bool) → Text → Text
  | _, [] => []
  | afterReturn, c :: s =>
    if c = '\r' then '\n' :: foldLineEndsFrom true s
    else if c = '\n' ∧ afterReturn then foldLineEndsFrom false s
    else c :: foldLineEndsFrom false s

/-- The text with every line end as a line feed. -/
def foldLineEnds (s : Text) : Text := foldLineEndsFrom false s

/-- The text of a file with these bytes. -/
def fileText (bytes : List UInt8) : Text := foldLineEnds (decodeUtf8 bytes)

end DocTypes
