/-
# Values

Where a type is asked for, a caller may hand over anything: `Value` is what can
come in. Numbers are the same when they are equal as numbers, so that a truth
value, an integer and a binary fraction may be the same value (`Value.same`).
That decides which keys of a dictionary fall together and whether an option has
its default.

A refusal shows the value that it refuses: words for nothing and the truth
values, decimal integers, the shortest decimal of a binary fraction, quoted
texts and bytes, and brackets around items. A tuple of one item keeps its comma.
Where only its kind matters, a word for that is shown.

Key definitions: `Value`, `Value.truth`, `Value.same`, `Value.dictionary`,
`Value.elements?`, `Value.fractions`, `Value.render`, `Value.kindName`.
-/
import DocTypes.Decimal.Shortest
import DocTypes.Text.Quoted

namespace DocTypes

/-- A value that may come in where a type is asked for. -/
inductive Value where
  | none
  | bool (b : Bool)
  | int (n : Int)
  | float (x : Float)
  | text (s : Text)
  | bytes (bs : List UInt8)
  | list (items : List Value)
  | tuple (items : List Value)
  | dict (entries : List (Value × Value))
  deriving Inhabited

namespace Value

/-- What a value counts as where a truth value is asked for: nothing, zero and
empty values count as false. -/
def truth : Value → Bool
  | none => false
  | bool b => b
  | int n => n != 0
  | float x => x != 0
  | text s => !s.isEmpty
  | bytes bs => !bs.isEmpty
  | list items => !items.isEmpty
  | tuple items => !items.isEmpty
  | dict entries => !entries.isEmpty

/-- A finite number as `n / 2 ^ k`. -/
def number? : Value → Option (Int × Nat)
  | bool b => some (if b then 1 else 0, 0)
  | int n => some (n, 0)
  | float x => (Dyadic.ofFloat? x).map fun d =>
      let n : Int := d.mantissa * Nat.pow 2 d.exponent.toNat
      (if signBit x then -n else n, (-d.exponent).toNat)
  | _ => Option.none

mutual

/-- Whether two values are the same: numbers by value, all else by kind and
content. -/
def same : Value → Value → Bool
  | none, none => true
  | text s, text t => s == t
  | bytes s, bytes t => s == t
  | list xs, list ys => sameAll xs ys
  | tuple xs, tuple ys => sameAll xs ys
  | float x, float y => x == y
  | v, w =>
    match v.number?, w.number? with
    | some (a, j), some (b, k) => a * Nat.pow 2 k == b * Nat.pow 2 j
    | _, _ => false

/-- Whether two lists hold the same values in the same order. -/
def sameAll : List Value → List Value → Bool
  | [], [] => true
  | v :: vs, w :: ws => same v w && sameAll vs ws
  | _, _ => false

end

/-- Binds a key among some entries: the first of two same keys stays, with the
value of the last. -/
def bind (k v : Value) : List (Value × Value) → List (Value × Value)
  | [] => [(k, v)]
  | e :: es => if same e.1 k then (e.1, v) :: es else e :: bind k v es

/-- The dictionary with these entries, bound in turn. -/
def dictionary (entries : List (Value × Value)) : Value :=
  dict (entries.foldl (fun es e => bind e.1 e.2 es) [])

/-- What a value holds when it is gone through: the characters of a text, the
items of a list or tuple, the keys of a dictionary, bytes as integers. The others
hold nothing. -/
def elements? : Value → Option (List Value)
  | text s => some (s.map fun c => text [c])
  | list items => some items
  | tuple items => some items
  | dict entries => some (entries.map (·.1))
  | bytes bs => some (bs.map fun b => int b.toNat)
  | _ => Option.none

/-! ### Values as they are shown -/

/-- Binary fractions have their point among the digits from the fifth place
after it up to sixteen digits before it, and an exponent of at least two digits
with its sign beyond. -/
def fractions : Layout where
  leastPlain := -4
  firstScientific := 16
  wholeMark := ".0".toList
  exponentWidth := 2
  infinity := "inf".toList
  notANumber := "nan".toList

/-- An integer in decimal. -/
def renderInt (n : Int) : Text :=
  if n < 0 then '-' :: Text.ofNat n.natAbs else Text.ofNat n.natAbs

/-- The word for the kind of a value. -/
def kindName : Value → Text
  | none => "NoneType".toList
  | bool _ => "bool".toList
  | int _ => "int".toList
  | float _ => "float".toList
  | text _ => "str".toList
  | bytes _ => "bytes".toList
  | list _ => "list".toList
  | tuple _ => "tuple".toList
  | dict _ => "dict".toList

mutual

/-- A value as it is shown. -/
def render : Value → Text
  | none => "None".toList
  | bool b => if b then "True".toList else "False".toList
  | int n => renderInt n
  | float x => fractions.write x
  | text s => s.quote
  | bytes bs => quoteBytes bs
  | list items => Text.bracketed '[' ']' (renderAll items)
  | tuple [item] => '(' :: render item ++ [',', ')']
  | tuple items => Text.bracketed '(' ')' (renderAll items)
  | dict entries => Text.bracketed (Char.ofNat 123) (Char.ofNat 125) (renderEntries entries)

/-- Each value as it is shown. -/
def renderAll : List Value → List Text
  | [] => []
  | v :: vs => render v :: renderAll vs

/-- Each entry as it is shown, its key, a colon and its value. -/
def renderEntries : List (Value × Value) → List Text
  | [] => []
  | (k, v) :: es => (render k ++ [':', ' '] ++ render v) :: renderEntries es

end

end Value

end DocTypes
