/-
# Collections of resolved types

A collection holds the resolved alternatives of type expressions, in the order
in which they were added. Adding an expression resolves all of its alternatives
and leaves out the blank ones; when one of them cannot be resolved nothing is
added, though the registry has been asked. A value that is no text is refused.

A position in a collection counts from the start, or from the end when it is
negative. A slice takes every `step`-th item from one position up to another,
backwards when the step is negative; positions beyond an end stand for that end,
and a missing one for the end where the slice begins or stops. Positions are 64-bit
integers, but the bounds and the step of a slice are integers of any size.

Key definitions: `itemAt?`, `isPosition`, `slice`, `Collection`, `Collection.add`,
`Collection.addElements`, `Collection.render`, `Collection.kinds`.
-/
import DocTypes.Session
import DocTypes.Settings

namespace DocTypes

/-! ### Positions and slices of a list -/

/-- The item at a position. -/
def itemAt? {α : Type} (xs : List α) (i : Int) : Option α :=
  let place := if i < 0 then i + xs.length else i
  if place < 0 then none else xs[place.toNat]?

/-- The number of positions of either sign. -/
def positionCount : Nat := Nat.pow 2 63

/-- Whether an integer can be a position. -/
def isPosition (i : Int) : Bool := -(positionCount : Int) ≤ i && i < positionCount

/-- A position of a list of `length` items, brought between `low` and `high`. -/
def clampPosition (length low high : Int) (i : Int) : Int :=
  let place := if i < 0 then i + length else i
  if place < low then low else if high < place then high else place

/-- The number of steps from `start` up to, and not including, `stop`. -/
def stepCount (start stop step : Int) : Nat :=
  if 0 < step then ((stop - start + step - 1) / step).toNat
  else ((start - stop - step - 1) / (-step)).toNat

/-- The items from `start` to `stop`, every `step`-th of them. The step must not
be zero. -/
def slice {α : Type} (xs : List α) (start? stop? : Option Int) (step : Int) : List α :=
  let length : Int := xs.length
  let low : Int := if step < 0 then -1 else 0
  let high : Int := if step < 0 then length - 1 else length
  let start := (start?.map (clampPosition length low high)).getD (if step < 0 then high else low)
  let stop := (stop?.map (clampPosition length low high)).getD (if step < 0 then low else high)
  (List.range (stepCount start stop step)).filterMap fun (k : Nat) =>
    xs[(start + k * step).toNat]?

/-! ### Collections -/

/-- The resolved types of some expressions, with what resolves them. -/
structure Collection where
  expander : Expander
  items : List Text := []

namespace Collection

/-- An empty collection for a context and a registry. The generic parameters come
in addition to those of the context. -/
def create (context : Context) (generics : List Text) (registry : Registry)
    (failOpen cacheAnswers : Bool) : Collection where
  expander :=
    .create context (some (context.generics ++ generics)) registry failOpen cacheAnswers

/-- Adds the alternatives of a type expression. -/
def addText (c : Collection) (t : Text) : Except Refusal Unit × Collection :=
  match c.expander.expandAll (alternatives t) with
  | (.error fault, e) => (.error (.failed fault), { c with expander := e })
  | (.ok results, e) =>
    (.ok (), ⟨e, c.items ++ results.filter fun r => !r.isEmpty⟩)

/-- Adds a value, which has to be a type expression. -/
def add (c : Collection) : Value → Except Refusal Unit × Collection
  | .text t => c.addText t
  | v => (.error (.notAType v), c)

/-- Adds values in turn, up to the first that is refused. -/
def addAll (c : Collection) : List Value → Except Refusal Unit × Collection
  | [] => (.ok (), c)
  | v :: vs =>
    match c.add v with
    | (.error refusal, c') => (.error refusal, c')
    | (.ok (), c') => c'.addAll vs

/-- Adds what a value holds. A single text is refused, because it would be taken
for its characters. -/
def addElements (c : Collection) : Value → Except Refusal Unit × Collection
  | .text _ => (.error .singleText, c)
  | v =>
    match v.elements? with
    | some vs => c.addAll vs
    | none => (.error (.notIterable v), c)

/-- The items as one type expression. -/
def render (c : Collection) : Text := Text.join unionSign c.items

/-- The collection as it is shown, with its items quoted. -/
def inspect (c : Collection) : Text :=
  "TypeCollection(".toList ++ Text.quoteList c.items ++ [')']

/-- Each item with its kind. -/
def kinds (c : Collection) : List (Text × Option Kind) :=
  c.items.map fun item => (item, c.expander.scope.kind? item)

/-- The item at a position. -/
def get (c : Collection) (i : Int) : Except Refusal Text :=
  if isPosition i then
    match itemAt? c.items i with
    | some item => .ok item
    | none => .error .outOfRange
  else .error .hugePosition

/-- A slice of the items; without a step, every item counts. -/
def slice (c : Collection) (start? stop? step? : Option Int) : Except Refusal (List Text) :=
  match step?.getD 1 with
  | 0 => .error .zeroStep
  | step => .ok (DocTypes.slice c.items start? stop? step)

/-- Whether a value is one of the items. -/
def has (c : Collection) : Value → Bool
  | .text t => decide (t ∈ c.items)
  | _ => false

/-- Whether a value is a list or tuple of just the items. -/
def equals (c : Collection) : Value → Bool
  | .list vs => Value.sameAll vs (c.items.map .text)
  | .tuple vs => Value.sameAll vs (c.items.map .text)
  | _ => false

end Collection

end DocTypes
