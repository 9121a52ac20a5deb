/-
# File trees

A path is a list of components under a root, which is empty for a relative path.
Reading a path drops the components that stay where they are: empty ones and
single dots. Two dots are kept, because what they mean depends on the tree.
Paths are ordered by their components, not by their characters, so `a/b` comes
before `a-b`.

A tree holds the directories and regular files of a system, each found by its
components from the root on, and knows the working directory. A path is followed
component by component through directories, from the root or from the working
directory, and two dots lead up (`Tree.follow`). It may lead nowhere, to a directory
where a file is asked for, or through a file as if it were one; a name or a path may
be too long for any entry, and no path holds the character NUL (`ReadFault`). A missing
source is passed over, with a note in the log; but a search that cannot be carried out,
and a path that no entry could have, end the whole scan (`ScanFault`).

Key definitions: `Path`, `Path.ofText`, `Path.render`, `Path.leParts`, `ReadFault`,
`ReadFault.message`, `ScanFault`, `Tree`, `Tree.entryAt?`, `Tree.locate`, `Tree.read`,
`Tree.listing`.
-/
import DocTypes.Table
import DocTypes.Text.Quoted

namespace DocTypes

/-! ### Paths -/

/-- A path by its components. -/
structure Path where
  /-- Slashes in front: none for a relative path. -/
  root : Text := []
  parts : List Text
  deriving DecidableEq

namespace Path

/-- The components that a written path goes through. -/
def components (s : Text) : List Text :=
  (Text.cutAll '/' s).filter fun part => part ≠ [] ∧ part ≠ ['.']

/-- The root of a written path: two slashes stay two, any other number is one. -/
def rootOf (s : Text) : Text :=
  match (s.takeWhile (· == '/')).length with
  | 0 => []
  | 2 => ['/', '/']
  | _ => ['/']

/-- Reads a written path. -/
def ofText (s : Text) : Path := ⟨rootOf s, components s⟩

/-- A path as it is written; the path without components is a single dot. -/
def render (p : Path) : Text :=
  if p.root = [] ∧ p.parts = [] then ['.'] else p.root ++ Text.join '/' p.parts

/-- The path of what lies at some components below `p`. -/
def append (p : Path) (parts : List Text) : Path := ⟨p.root, p.parts ++ parts⟩

/-- Where a component leads to from a directory. Two dots lead up, and stay at the
root. -/
def next (place : List Text) (part : Text) : List Text :=
  if part = ['.', '.'] then place.dropLast else place ++ [part]

/-- The order of component lists, each component by its characters. -/
def leParts (a b : List Text) : Bool := decide (¬ b < a)

end Path

/-! ### What stands in the way of files -/

/-- Why a path does not lead to a file that can be read. -/
inductive ReadFault where
  | missing
  | isDirectory
  | notDirectory
  /-- A name in the path, or the path, is longer than any entry's may be. -/
  | tooLong
  /-- The path holds the character NUL. -/
  | holdsNull
  deriving DecidableEq

/-- The words for a path that cannot be read, with the number of the cause where
it has one. -/
def ReadFault.message (fault : ReadFault) (path : Path) : Text :=
  let named (words : String) : Text := words.toList ++ path.render.quote
  match fault with
  | .missing => named "[Errno 2] No such file or directory: "
  | .isDirectory => named "[Errno 21] Is a directory: "
  | .notDirectory => named "[Errno 20] Not a directory: "
  | .tooLong => named "[Errno 36] File name too long: "
  | .holdsNull => "embedded null byte".toList

/-- Why sources cannot be scanned at all. -/
inductive ScanFault where
  /-- Two stars stand beside other characters in a component of a search. -/
  | strayStars
  /-- There can be no entry at a path. -/
  | badPath (path : Path) (fault : ReadFault)
  deriving DecidableEq

/-- The words for a scan that cannot be carried out. -/
def ScanFault.message : ScanFault → Text
  | strayStars => "Invalid pattern: '**' can only be an entire path component".toList
  | badPath path fault => fault.message path

/-! ### Trees -/

/-- The regular files and directories of a system, by their components from the root on,
and the working directory. The directories that lead to an entry or to the working
directory need not be listed. -/
structure Tree where
  /-- The working directory. -/
  home : List Text := []
  files : Table (List Text) (List UInt8) := .empty
  dirs : List (List Text) := []

/-- What lies at a place in a tree. -/
inductive Entry where
  | directory
  | file (bytes : List UInt8)
  deriving DecidableEq

/-- Whether an entry is a directory. -/
def Entry.isDirectory : Entry → Bool
  | directory => true
  | file _ => false

namespace Tree

/-- Whether some components lead to a listed directory or the working directory, or to
what is above one of these or above a file. -/
def isDirectory (t : Tree) (parts : List Text) : Bool :=
  parts.isPrefixOf t.home || t.dirs.any (fun d => parts.isPrefixOf d) ||
    t.files.keys.any fun f => parts.isPrefixOf f && parts != f

/-- What lies at some components from the root on, none when there is nothing. -/
def entryAt? (t : Tree) (parts : List Text) : Option Entry :=
  if t.isDirectory parts then some .directory else (t.files.find? parts).map .file

/-! ### Following paths -/

/-- The most bytes that the name of an entry has. -/
def longestName : Nat := 255

/-- The most bytes that a path has. -/
def longestPath : Nat := 4095

/-- Follows components from a place, and answers where they lead and what lies
there. -/
def follow (t : Tree) : List Text → List Text → Except ReadFault (List Text × Entry)
  | place, [] =>
    match t.entryAt? place with
    | some e => .ok (place, e)
    | none => .error .missing
  | place, part :: parts =>
    match t.entryAt? place with
    | none => .error .missing
    | some (.file _) => .error .notDirectory
    | some .directory =>
      if longestName < Text.byteSize part then .error .tooLong
      else t.follow (Path.next place part) parts

/-- Where a path begins: at the root, or in the working directory. -/
def origin (t : Tree) (p : Path) : List Text := if p.root = [] then t.home else []

/-- Follows a path. -/
def locate (t : Tree) (p : Path) : Except ReadFault (List Text × Entry) :=
  if Char.ofNat 0 ∈ p.render then .error .holdsNull
  else if longestPath < Text.byteSize p.render then .error .tooLong
  else t.follow (t.origin p) p.parts

/-- The bytes of the file at a path. -/
def read (t : Tree) (p : Path) : Except ReadFault (List UInt8) :=
  match t.locate p with
  | .ok (_, .file bytes) => .ok bytes
  | .ok (_, .directory) => .error .isDirectory
  | .error fault => .error fault

/-! ### Listing -/

/-- All beginnings of a list of components, the empty and the whole one
included. -/
def beginnings (parts : List Text) : List (List Text) :=
  (List.range (parts.length + 1)).map parts.take

/-- The components of all entries and of all directories above them, in order
and without repeats. -/
def places (t : Tree) : List (List Text) :=
  (((t.home :: t.dirs ++ t.files.keys).flatMap beginnings).mergeSort Path.leParts).eraseReps

/-- All that lies in a tree, in the order of components. -/
def listing (t : Tree) : List (List Text × Entry) :=
  t.places.filterMap fun parts => (t.entryAt? parts).map (parts, ·)

end Tree

end DocTypes
