/-
# Texts

A text is the list of its characters, so that every reader and printer of the
library is a function on lists and is reasoned about by recursion on them.

Here are the operations that the other modules share: trimming at either end
(`Text.trim`), taking the part before or after a character (`Text.before`,
`Text.after?`), cutting at every occurrence of a character (`Text.cutAll`) and
reading a given word from the front (`Text.afterWord?`).

Key definitions: `Text`, `Text.trim`, `Text.before`, `Text.after?`,
`Text.cutAll`, `Text.join`.
-/

namespace DocTypes

/-- A text, as the list of its characters. -/
abbrev Text := List Char

/-- Named, so that all modules decide membership of texts by the same instance. -/
instance : LawfulBEq Text := inferInstanceAs (LawfulBEq (List Char))

namespace Text

/-! ### Trimming -/

/-- The text from its first character outside `p` on. -/
def trimStart (p : Char → Bool) (s : Text) : Text := s.dropWhile p

/-- The text up to its last character outside `p`. -/
def trimEnd (p : Char → Bool) (s : Text) : Text := (s.reverse.dropWhile p).reverse

/-- The text without the characters of `p` at both ends. -/
def trim (p : Char → Bool) (s : Text) : Text := trimEnd p (trimStart p s)

theorem length_trimStart_le (p : Char → Bool) (s : Text) :
    (trimStart p s).length ≤ s.length :=
  (List.dropWhile_sublist p).length_le

theorem length_trimEnd_le (p : Char → Bool) (s : Text) :
    (trimEnd p s).length ≤ s.length := by
  have h := (List.dropWhile_sublist p (l := s.reverse)).length_le
  simpa [trimEnd] using h

theorem length_trim_le (p : Char → Bool) (s : Text) : (trim p s).length ≤ s.length :=
  Nat.le_trans (length_trimEnd_le p _) (length_trimStart_le p s)

/-! ### Parts -/

/-- The part before the first `c`, the whole text when there is no `c`. -/
def before (c : Char) (s : Text) : Text := s.takeWhile (· != c)

/-- The part after the first `c`, if there is a `c`. -/
def after? (c : Char) (s : Text) : Option Text :=
  match s.dropWhile (· != c) with
  | [] => none
  | _ :: rest => some rest

/-- The part after the last `c`, the whole text when there is no `c`. -/
def afterLast (c : Char) (s : Text) : Text := (s.reverse.takeWhile (· != c)).reverse

/-- Puts a character in front of the first of some pieces. -/
def consHead (c : Char) : List Text → List Text
  | [] => [[c]]
  | piece :: pieces => (c :: piece) :: pieces

/-- The pieces between the occurrences of `c`: one more than there are
occurrences, in order, each possibly empty. -/
def cutAll (c : Char) : Text → List Text
  | [] => [[]]
  | x :: xs => if x = c then [] :: cutAll c xs else consHead x (cutAll c xs)

/-- The pieces with `c` between each two. -/
def join (c : Char) : List Text → Text
  | [] => []
  | [piece] => piece
  | piece :: next :: pieces => piece ++ c :: join c (next :: pieces)

/-- Reads the word `w` from the front and answers the rest. -/
def afterWord? : (w : Text) → Text → Option Text
  | [], s => some s
  | _ :: _, [] => none
  | x :: w, c :: s => if x = c then afterWord? w s else none

/-- Whether the text starts with the word `w`. -/
def startsWith (w s : Text) : Bool := (afterWord? w s).isSome

/-- The number of bytes of the text in UTF-8. -/
def byteSize (s : Text) : Nat := s.foldl (fun n c => n + c.utf8Size) 0

/-- Decimal digits of a natural number. -/
def ofNat (n : Nat) : Text := Nat.toDigits 10 n

end Text
end DocTypes
