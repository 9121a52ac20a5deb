/-
# Refusals and settings

Why an operation is refused: what was given is no type or holds none, options do
not exist, a position is out of range, a step is zero, sources cannot be scanned,
or a probe failed and that is not taken for an unknown name.

Two options control resolution. They may be given as any values and are kept as
given; what counts is their truth value. An option that does not exist is
refused, and the refusal names all of them.

Key definitions: `Refusal`, `Refusal.message`, `Settings`, `Settings.ofFields`,
`Settings.isDefault`.
-/
import DocTypes.Trace
import DocTypes.Value

namespace DocTypes

/-! ### Refusals -/

/-- Why an operation is refused. -/
inductive Refusal where
  /-- A value was given where a type was asked for. -/
  | notAType (value : Value)
  /-- A single text was given where several types were asked for. -/
  | singleText
  /-- A value that holds nothing was given where several types were asked for. -/
  | notIterable (value : Value)
  /-- Options were given that do not exist. -/
  | unknownOptions (names : List Text)
  /-- There is no item at a position. -/
  | outOfRange
  /-- There is no list in which a position could be. -/
  | hugePosition
  /-- A slice was asked for with the step zero. -/
  | zeroStep
  /-- Sources cannot be scanned. -/
  | unscannable (fault : ScanFault)
  /-- A probe failed. -/
  | failed (fault : Fault)

instance : (outcome : Except Refusal Unit) → Decidable (outcome = .ok ())
  | .ok () => isTrue rfl
  | .error _ => isFalse nofun

/-- The words of a refusal. -/
def Refusal.message : Refusal → Text
  | notAType value => "A type should be represented by a string, received: ".toList ++ value.render
  | singleText => "types should be a sequence of type strings, not a single string".toList
  | notIterable value => Text.quote value.kindName ++ " object is not iterable".toList
  | unknownOptions names =>
    "Unknown resolver options: ".toList ++ List.intercalate ", ".toList names
  | outOfRange => "list index out of range".toList
  | hugePosition => "cannot fit 'int' into an index-sized integer".toList
  | zeroStep => "slice step cannot be zero".toList
  | unscannable fault => fault.message
  | failed fault => fault.message

/-! ### Settings -/

/-- The options of resolution, as they were given. -/
structure Settings where
  /-- Whether the failure of a probe counts as an unknown name. -/
  failOpen : Value := .bool true
  /-- Whether the answers of the registry are kept. -/
  cacheAnswers : Value := .bool false

namespace Settings

/-- The name of the option for failing probes. -/
def failOpenKey : Text := "probe_errors_fail_open".toList

/-- The name of the option for keeping answers. -/
def cacheKey : Text := "cache_probe_results".toList

/-- Settings with one option changed. -/
def set (s : Settings) (key : Text) (v : Value) : Settings :=
  if key = failOpenKey then { s with failOpen := v }
  else if key = cacheKey then { s with cacheAnswers := v }
  else s

/-- The names among some fields that are no option, in the order of their
characters. -/
def unknownKeys (fields : List (Text × Value)) : List Text :=
  ((fields.map (·.1)).filter fun k => k ≠ failOpenKey ∧ k ≠ cacheKey).mergeSort
    fun a b => decide (¬ b < a)

/-- The settings with these fields, the others by default. -/
def ofFields (fields : List (Text × Value)) : Except Refusal Settings :=
  if unknownKeys fields = [] then .ok (fields.foldl (fun s f => s.set f.1 f.2) {})
  else .error (.unknownOptions (unknownKeys fields))

/-- The fields of some settings. -/
def toFields (s : Settings) : List (Text × Value) :=
  [(failOpenKey, s.failOpen), (cacheKey, s.cacheAnswers)]

/-- Whether the options are the same as by default. -/
def isDefault (s : Settings) : Bool :=
  s.failOpen.same (.bool true) && s.cacheAnswers.same (.bool false)

end Settings

end DocTypes
