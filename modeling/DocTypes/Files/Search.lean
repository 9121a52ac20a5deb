/-
# Searching below a directory

A search leads from a directory through its entries, step by step: to all
entries whose names fit a pattern, to the entry of a given name, or through any
number of directories. It is written as a path whose components may be patterns;
a component of two stars stands for any number of directories, and two stars
beside anything else stand for nothing. A slash at the end asks for directories.

In a pattern for names a star stands for any text, a question mark for any
character, a bracket for one character of a set, and everything else for itself.
A set holds characters and ranges, of which those that run backwards hold
nothing; an exclamation mark in front turns it round, a closing bracket may be
its first member, and a bracket that is never closed stands for itself. Letter
case counts. Whether a name fits is found for all of its ends at once
(`Glob.fitsEnds`), so that the work grows with the length of the pattern times that
of the name.

A search is carried out as a walk: from the directory in which it begins, each
step leads from a spot that was reached to new ones (`Spot.next`), and the walk goes
on from each of them in turn. A spot keeps the components on the way to it, two dots
among them, and a way that was found before does not count again. A directory comes
before what is below it. A spot whose path is longer than any entry's may be ends the
walk as soon as it is looked at.

The source files of a path are the file itself or, for a directory, the regular
files that a search finds there, in the order of their components
(`Tree.sourceFiles`).

Key definitions: `Glob`, `Glob.ofText`, `Glob.fits`, `SearchStep`, `Search`,
`Search.atAnyDepth?`, `Spot`, `Spot.next`, `Tree.walk`, `Tree.sourceFiles`.
Key theorems: `Glob.fits_nil`, `Glob.fits_star_cons`, `Glob.fits_cons_cons`.
-/
import DocTypes.Files.Tree

namespace DocTypes

/-! ### Name patterns -/

/-- One part of a pattern. -/
inductive GlobPart where
  /-- Any text. -/
  | star
  /-- Any character. -/
  | one
  /-- A character of some ranges, or of none of them when `negated`. -/
  | oneOf (negated : Bool) (ranges : List (Char × Char))
  /-- The character itself. -/
  | exactly (c : Char)
  deriving DecidableEq

/-- A pattern for names. -/
abbrev Glob := List GlobPart

namespace Glob

/-- The ranges of a set. A hyphen between two characters makes a range, and a
range that runs backwards holds nothing. -/
def rangesOf : Text → List (Char × Char)
  | a :: '-' :: b :: s => if b < a then rangesOf s else (a, b) :: rangesOf s
  | a :: s => (a, a) :: rangesOf s
  | [] => []

/-- The members of a set without the ranges in front that run backwards. -/
def skipBackward : Text → Text
  | a :: '-' :: b :: s => if b < a then skipBackward s else a :: '-' :: b :: s
  | s => s

/-- The set with these members. An exclamation mark turns a set round also when
it comes to the front because the ranges before it run backwards; of a range that
it would begin, the hyphen and the last character then stand for themselves. -/
def setOf (negated : Bool) (members : Text) : GlobPart :=
  if negated then .oneOf true (rangesOf members)
  else
    match skipBackward members with
    | '!' :: '-' :: b :: s => .oneOf true (('-', '-') :: (b, b) :: rangesOf s)
    | '!' :: s => .oneOf true (rangesOf s)
    | s => .oneOf false (rangesOf s)

/-- The set that begins behind an opening bracket, and what follows its closing
bracket. -/
def readSet? (s : Text) : Option (GlobPart × Text) :=
  let (negated, body) :=
    match s with
    | '!' :: t => (true, t)
    | t => (false, t)
  let (first, rest) :=
    match body with
    | ']' :: t => ([']'], t)
    | t => ([], t)
  match rest.dropWhile (· != ']') with
  | [] => none
  | _ :: after => some (setOf negated (first ++ rest.takeWhile (· != ']')), after)

/-- Reads one part from the front of a pattern that is not empty. -/
def readPart (c : Char) (s : Text) : GlobPart × Text :=
  if c = '*' then (.star, s)
  else if c = '?' then (.one, s)
  else if c = '[' then (readSet? s).getD (.exactly c, s)
  else (.exactly c, s)

/-- Reads a pattern of at most `fuel` parts. -/
def read : (fuel : Nat) → Text → Glob
  | 0, _ => []
  | _, [] => []
  | fuel + 1, c :: s =>
    let (part, rest) := readPart c s
    part :: read fuel rest

/-- Reads a pattern. It has no more parts than characters. -/
def ofText (s : Text) : Glob := read s.length s

/-- Whether a part that stands for one character stands for `c`. -/
def standsFor : GlobPart → Char → Bool
  | .star, _ => false
  | .one, _ => true
  | .oneOf negated ranges, c => (ranges.any fun r => r.1 ≤ c && c ≤ r.2) != negated
  | .exactly x, c => x == c

/-! ### Fitting -/

/-- For each place in a row whether there is a `true` from there on. -/
def anyFrom : List Bool → List Bool
  | [] => []
  | b :: bs =>
    let later := anyFrom bs
    (b || later.headD false) :: later

/-- For each end of a text, from the whole text to the empty one, whether it fits
a pattern. -/
def fitsEnds : Glob → Text → List Bool
  | [], s => s.map (fun _ => false) ++ [true]
  | .star :: g, s => anyFrom (fitsEnds g s)
  | part :: g, s =>
    List.zipWith (fun c fitsLater => standsFor part c && fitsLater) s (fitsEnds g s).tail ++ [false]

/-- Whether a name fits a pattern. -/
def fits (g : Glob) (s : Text) : Bool := (fitsEnds g s).headD false

theorem fitsEnds_nil (g : Glob) : fitsEnds g [] = [fits g []] := by
  have h : ∃ b, fitsEnds g [] = [b] := by
    induction g with
    | nil => exact ⟨true, rfl⟩
    | cons part g ih =>
      obtain ⟨b, h⟩ := ih
      cases part <;> simp [fitsEnds, h, anyFrom]
  obtain ⟨b, h⟩ := h
  simp [fits, h]

theorem fitsEnds_cons (g : Glob) (c : Char) (s : Text) :
    fitsEnds g (c :: s) = fits g (c :: s) :: fitsEnds g s := by
  have h : ∃ b, fitsEnds g (c :: s) = b :: fitsEnds g s := by
    induction g generalizing c s with
    | nil => exact ⟨false, rfl⟩
    | cons part g ih =>
      obtain ⟨b, h⟩ := ih c s
      have hs : ∃ e ends, fitsEnds g s = e :: ends := by
        cases s with
        | nil => exact ⟨_, _, fitsEnds_nil g⟩
        | cons d s => exact ⟨_, _, (ih d s).choose_spec⟩
      obtain ⟨e, ends, hs⟩ := hs
      cases part <;> simp [fitsEnds, h, hs, anyFrom]
  obtain ⟨b, h⟩ := h
  simp [fits, h]

/-- Only the empty name fits the empty pattern. -/
theorem fits_nil (s : Text) : fits [] s = s.isEmpty := by cases s <;> rfl

theorem fits_star_nil (g : Glob) : fits (.star :: g) [] = fits g [] := by
  rw [fits, fitsEnds, fitsEnds_nil]
  simp [anyFrom]

/-- A star stands for no character, or for one and more behind it. -/
theorem fits_star_cons (g : Glob) (c : Char) (s : Text) :
    fits (.star :: g) (c :: s) = (fits g (c :: s) || fits (.star :: g) s) := by
  rw [fits, fitsEnds, fitsEnds_cons]
  rfl

theorem fits_cons_nil {part : GlobPart} (h : part ≠ .star) (g : Glob) :
    fits (part :: g) [] = false := by
  cases part <;> simp_all [fits, fitsEnds]

/-- Any part but the star stands for one character. -/
theorem fits_cons_cons {part : GlobPart} (h : part ≠ .star) (g : Glob) (c : Char) (s : Text) :
    fits (part :: g) (c :: s) = (standsFor part c && fits g s) := by
  have hs : fitsEnds g s = fits g s :: (fitsEnds g s).tail := by
    cases s with
    | nil => rw [fitsEnds_nil]; rfl
    | cons d s => rw [fitsEnds_cons]; rfl
  rw [fits, fitsEnds, fitsEnds_cons, List.tail_cons, hs]
  · rfl
  · exact fun e => h e

end Glob

/-! ### Searches -/

/-- One step of a search. -/
inductive SearchStep where
  /-- Through any number of directories. -/
  | anyDepth
  /-- To the entries whose names fit a pattern. -/
  | entries (pattern : Glob)
  /-- To the entry of a name, or up for two dots. -/
  | name (name : Text)
  /-- Nowhere else, and from directories only. -/
  | directory
  deriving DecidableEq

/-- The steps from a directory to what is looked for. -/
abbrev Search := List SearchStep

namespace Search

/-- The characters that make a component a pattern. -/
def isMark (c : Char) : Bool := c == '*' || c == '?' || c == '['

/-- Whether two stars stand next to each other. -/
def hasTwoStars : Text → Bool
  | '*' :: '*' :: _ => true
  | _ :: s => hasTwoStars s
  | [] => false

/-- Reads one component. -/
def step? (part : Text) : Option SearchStep :=
  if part = ['*', '*'] then some .anyDepth
  else if hasTwoStars part then none
  else if part.any isMark then some (.entries (Glob.ofText part))
  else some (.name part)

/-- Reads components in turn. -/
def steps? : List Text → Option Search
  | [] => some []
  | part :: parts =>
    match step? part, steps? parts with
    | some step, some steps => some (step :: steps)
    | _, _ => none

/-- Reads a search that may begin at any depth. -/
def atAnyDepth? (pattern : Text) : Option Search :=
  let ending : Search := if pattern.getLast? = some '/' then [.directory] else []
  (steps? (Path.components pattern)).map fun steps => .anyDepth :: steps ++ ending

end Search

/-! ### Walks -/

/-- What a walk has reached. -/
structure Spot where
  /-- Its components from the root on. -/
  place : List Text
  entry : Entry
  /-- The components on the way from where the walk began. -/
  trail : List Text
  deriving DecidableEq

namespace Spot

/-- The spots at and below a directory, among what lies in the tree. -/
def below (s : Spot) (listing : List (List Text × Entry)) : List Spot :=
  listing.filterMap fun (names, entry) =>
    if s.place.isPrefixOf names then
      some ⟨names, entry, s.trail ++ names.drop s.place.length⟩
    else none

/-- Whether a spot was reached from `s` by one name that fits a pattern. -/
def isEntry (s : Spot) (pattern : Glob) (reached : Spot) : Bool :=
  match reached.trail.drop s.trail.length with
  | [name] => pattern.fits name
  | _ => false

/-- The spot that a name leads to from `s`, in a walk that began at a path. A
name that is too long for an entry ends the walk. -/
def named (t : Tree) (start : Path) (s : Spot) (name : Text) : Except ScanFault (List Spot) :=
  let trail := s.trail ++ [name]
  match t.locate (start.append trail) with
  | .ok (place, entry) => .ok [⟨place, entry, trail⟩]
  | .error .tooLong => .error (.badPath (start.append trail) .tooLong)
  | .error _ => .ok []

/-- Looks at a spot, in a walk that began at a path. -/
def look (start : Path) (s : Spot) : Except ScanFault Unit :=
  let path := start.append s.trail
  if Tree.longestPath < Text.byteSize path.render then .error (.badPath path .tooLong) else .ok ()

/-- The spots that a step leads to from `s`. Only directories lead on. -/
def next (t : Tree) (listing : List (List Text × Entry)) (start : Path) (step : SearchStep)
    (s : Spot) : Except ScanFault (List Spot) :=
  match s.entry with
  | .file _ => .ok []
  | .directory =>
    match step with
    | .anyDepth => .ok ((s.below listing).filter (·.entry.isDirectory))
    | .entries pattern => (s.look start).map fun _ => (s.below listing).filter (s.isEntry pattern)
    | .name name => s.named t start name
    | .directory => .ok [s]

end Spot

namespace Tree

/-- The spots that a search leads to from `s`. -/
def walk (t : Tree) (listing : List (List Text × Entry)) (start : Path) :
    Search → Spot → Except ScanFault (List Spot)
  | [], s => (s.look start).map fun _ => [s]
  | step :: steps, s =>
    match s.next t listing start step with
    | .error fault => .error fault
    | .ok reached =>
      (reached.mapM (t.walk listing start steps)).map fun found => found.flatten.eraseDups

/-- The regular files that a search finds from a directory, in the order of their
components. -/
def search (t : Tree) (steps : Search) (start : Path) (place : List Text) :
    Except ScanFault (List Path) :=
  (t.walk t.listing start steps ⟨place, .directory, []⟩).map fun spots =>
    (((spots.filter fun s => !s.entry.isDirectory).map (·.trail)).mergeSort Path.leParts).map
      start.append

/-- The files that a source path stands for: for a directory the files that a
search finds there, for a file that file. Anything else is no source path. The
search is asked for only when there is a directory. -/
def sourceFiles (t : Tree) (steps? : Option Search) (p : Path) :
    Except ScanFault (Option (List Path)) :=
  match t.locate p with
  | .ok (place, .directory) =>
    match steps? with
    | some steps => (t.search steps p place).map some
    | none => .error .strayStars
  | .ok (_, .file _) => .ok (some [p])
  | .error .tooLong => .error (.badPath p .tooLong)
  | .error _ => .ok none

end Tree

end DocTypes
